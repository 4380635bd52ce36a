import Rag.Chunking.Recursive
import Rag.VectorDb.Memory
import Mathlib.Algebra.Order.Ring.Rat
import Mathlib.Data.Rat.Floor

/-!
`rag.chunking.semantic`: splits on embedding-similarity troughs between adjacent
sentences.

Sentences are never blank, so no group of them is, and the groups are numbered without
gaps (`numbered_locateGroups`).
-/

namespace Rag

open Py

/-- How many characters `(?<=[.!?])\s+|\n{2,}` matches here, after the character `prev`. -/
def sentenceBreak (prev : Option Char) (text : List Char) : Nat :=
  let spaces := (text.takeWhile isSpace).length
  let newlines := (text.takeWhile (· = '\n')).length
  if prev.any (fun c => c = '.' || c = '!' || c = '?') && 0 < spaces then spaces
  else if 2 ≤ newlines then newlines
  else 0

/-- `re.split`: what stands between the matches; `skip` characters belong to the match that
has just been found. -/
def cutSentences : Option Char → Nat → List Char → List (List Char)
  | _, _, [] => [[]]
  | _, skip + 1, c :: text => cutSentences (some c) skip text
  | prev, 0, c :: text =>
      match sentenceBreak prev (c :: text) with
      | 0 => consFirst c (cutSentences (some c) 0 text)
      | skip + 1 => [] :: cutSentences (some c) skip text

def splitSentences (text : String) : List String :=
  ((cutSentences none 0 text.toList).map fun p => strip (String.ofList p)).filter (· ≠ "")

/-- `breakpoint_percentile` -/
def breakpointPercentile : ℚ := 3 / 4

section Groups

variable {K : Type} [LinearOrder K]

def percentile [Zero K] (values : List K) (p : ℚ) : K :=
  let ordered := values.insertionSort (· ≤ ·)
  let index := min ⌊p * ((ordered.length : ℚ) - 1)⌋.toNat (ordered.length - 1)
  ordered.getD index 0

/-- The loop over `sentences[1:]`: a sentence far from the one before it, or too long for the
group, opens a new group. -/
def groupSentences (size : ℤ) (threshold : K) :
    List K → List String → List String → Except Exn (List (List String))
  | _, group, [] => .ok [group]
  | [], _, _ :: _ => .error indexError
  | distance :: distances, group, s :: rest =>
      let tooLong := size < (group.map String.length).sum + s.length
      if threshold ≤ distance ∨ tooLong then do
        let later ← groupSentences size threshold distances [s] rest
        pure (group :: later)
      else groupSentences size threshold distances (group ++ [s]) rest

end Groups

/-- The loop over the groups. A blank group makes no piece and still takes a number. -/
def locateGroups (text : String) : Nat → ℤ → List (List String) → List (Nat × Piece)
  | _, _, [] => []
  | ordinal, cursor, group :: rest =>
      let body := strip (join " " group)
      if body = "" then locateGroups text (ordinal + 1) cursor rest
      else
        let start := (find text (group.headD "") cursor.toNat).elim cursor fun i => (i : ℤ)
        let stop := start + body.length
        (ordinal, ⟨body, (start, stop)⟩) :: locateGroups text (ordinal + 1) stop rest

section Chunks

variable {K : Type} [Field K] [LinearOrder K] [Math K] (shortId : List String → String)

/-- `distances` -/
def sentenceDistances (vectors : List (List K)) : List K :=
  List.zipWith (fun a b => 1 - cosine a b) vectors vectors.tail

/-- The chunks under `embed`, the embedder that has been set. -/
def semanticSplit (embed : List String → Except Exn (List (List K))) (document : Document)
    (text indexVersion : String) (size : ℤ) : Except Exn (List Chunk) :=
  match splitSentences text with
  | first :: second :: rest => do
      let vectors ← embed (first :: second :: rest)
      let distances := sentenceDistances vectors
      let threshold := percentile distances breakpointPercentile
      let groups ← groupSentences size threshold distances [first] (second :: rest)
      pure ((locateGroups text 0 0 groups).map fun numbered =>
        document.chunkOf shortId indexVersion "semantic" numbered.1 numbered.2)
  | _ => recursiveChunks shortId document indexVersion size 64

/-- `c.metadata.update({...})` on the chunks of the fallback -/
def markFallback (chunk : Chunk) : Chunk :=
  { chunk with
    metadata := [("chunker", .str "semantic"), ("chunker_version", .str chunkerVersion),
      ("semantic_fallback", .bool true)] }

def semanticChunks (embedder : Option (List String → Except Exn (List (List K))))
    (document : Document) (indexVersion : String) (size overlap : ℤ) :
    Except Exn (List Chunk) :=
  let text := document.text.getD ""
  if text = "" then .ok []
  else
    match embedder with
    | none => do
        let chunks ← recursiveChunks shortId document indexVersion size overlap
        pure (chunks.map markFallback)
    | some embed => semanticSplit shortId embed document text indexVersion size

end Chunks

theorem mem_splitSentences {text s : String} (h : s ∈ splitSentences text) :
    ∃ c ∈ s.toList, isSpace c = false := by
  obtain ⟨hmem, hne⟩ := List.mem_filter.mp h
  obtain ⟨p, -, rfl⟩ := List.mem_map.mp hmem
  exact exists_word_of_strip (by simpa using hne)

/-- A group with a sentence that is not blank, whatever follows it. -/
def Group.Written (group : List String) : Prop :=
  ∃ s ∈ group, ∃ c ∈ s.toList, isSpace c = false

theorem strip_join_ne_empty {group : List String} (h : Group.Written group) :
    strip (join " " group) ≠ "" := by
  obtain ⟨s, hs, c, hc, hword⟩ := h
  rw [strip_ne_empty_iff]
  exact ⟨c, mem_toList_join hs hc, hword⟩

theorem written_groupSentences {K : Type} [LinearOrder K] {size : ℤ} {threshold : K}
    {distances : List K} {group sentences : List String} {groups : List (List String)}
    (hgroup : Group.Written group)
    (hsentences : ∀ s ∈ sentences, ∃ c ∈ s.toList, isSpace c = false)
    (h : groupSentences size threshold distances group sentences = .ok groups) :
    ∀ g ∈ groups, Group.Written g := by
  induction sentences generalizing distances group groups with
  | nil =>
      cases distances <;> cases h <;> simpa using hgroup
  | cons s rest ih =>
      have hs := hsentences s List.mem_cons_self
      have hrest : ∀ s ∈ rest, ∃ c ∈ s.toList, isSpace c = false :=
        fun s hs => hsentences s (List.mem_cons_of_mem _ hs)
      cases distances with
      | nil => cases h
      | cons distance distances =>
          rw [groupSentences] at h
          split_ifs at h
          · obtain ⟨later, hlater, hgroups⟩ := ok_of_bind h
            cases hgroups
            have hwritten := ih ⟨s, List.mem_singleton_self s, hs⟩ hrest hlater
            intro g hg
            rcases List.mem_cons.mp hg with rfl | hg
            · exact hgroup
            · exact hwritten g hg
          · obtain ⟨s', hs', hword⟩ := hgroup
            exact ih ⟨s', List.mem_append_left _ hs', hword⟩ hrest h

theorem numbered_locateGroups {text : String} {groups : List (List String)}
    (h : ∀ g ∈ groups, Group.Written g) (ordinal : Nat) (cursor : ℤ) (i : Nat)
    {numbered : Nat × Piece}
    (hget : (locateGroups text ordinal cursor groups)[i]? = some numbered) :
    numbered.1 = ordinal + i := by
  induction groups generalizing ordinal cursor i with
  | nil => simp [locateGroups] at hget
  | cons group rest ih =>
      have hbody := strip_join_ne_empty (h group List.mem_cons_self)
      rw [locateGroups, if_neg hbody] at hget
      cases i with
      | zero =>
          cases hget
          rfl
      | succ i =>
          have hrest : ∀ g ∈ rest, Group.Written g := fun g hg => h g (List.mem_cons_of_mem _ hg)
          have hlater := ih hrest (ordinal + 1) _ i hget
          omega

section Numbering

variable {K : Type} [Field K] [LinearOrder K] [Math K] {shortId : List String → String}

/-- The groups the sentences of a text form under an embedder. -/
def Grouped (embed : List String → Except Exn (List (List K))) (size : ℤ) (text : String)
    (groups : List (List String)) : Prop :=
  ∃ first second rest vectors, splitSentences text = first :: second :: rest
    ∧ embed (first :: second :: rest) = .ok vectors
    ∧ groupSentences size (percentile (sentenceDistances vectors) breakpointPercentile)
        (sentenceDistances vectors) [first] (second :: rest) = .ok groups

/-- What a successful call has done. -/
theorem semanticSplit_cases {embed : List String → Except Exn (List (List K))}
    {document : Document} {text indexVersion : String} {size : ℤ} {chunks : List Chunk}
    (h : semanticSplit shortId embed document text indexVersion size = .ok chunks) :
    (∃ groups, Grouped embed size text groups
      ∧ chunks = (locateGroups text 0 0 groups).map fun numbered =>
          document.chunkOf shortId indexVersion "semantic" numbered.1 numbered.2)
    ∨ (∀ groups, ¬ Grouped embed size text groups)
      ∧ recursiveChunks shortId document indexVersion size 64 = .ok chunks := by
  rw [semanticSplit] at h
  split at h
  · rename_i first second rest hsentences
    obtain ⟨vectors, hembed, hafter⟩ := ok_of_bind h
    obtain ⟨groups, hgroups, hchunks⟩ := ok_of_bind hafter
    cases hchunks
    exact .inl ⟨groups, ⟨first, second, rest, vectors, hsentences, hembed, hgroups⟩, rfl⟩
  · rename_i hfew
    refine .inr ⟨?_, h⟩
    rintro groups ⟨first, second, rest, vectors, hcut, -, -⟩
    exact hfew first second rest hcut

theorem Grouped.unique {embed : List String → Except Exn (List (List K))} {size : ℤ}
    {text : String} {groups others : List (List String)} (h : Grouped embed size text groups)
    (hothers : Grouped embed size text others) : groups = others := by
  obtain ⟨first, second, rest, vectors, hcut, hembed, hgroups⟩ := h
  obtain ⟨first', second', rest', vectors', hcut', hembed', hgroups'⟩ := hothers
  rw [hcut] at hcut'
  cases hcut'
  rw [hembed] at hembed'
  cases hembed'
  rw [hgroups] at hgroups'
  exact Except.ok.inj hgroups'

theorem numbered_semanticSplit {embed : List String → Except Exn (List (List K))}
    {document : Document} {text indexVersion : String} {size : ℤ} {chunks : List Chunk}
    (h : semanticSplit shortId embed document text indexVersion size = .ok chunks) :
    Numbered shortId document.docId indexVersion chunks := by
  rcases semanticSplit_cases h with ⟨groups, hgrouped, rfl⟩ | ⟨-, h⟩
  · obtain ⟨first, second, rest, vectors, hsentences, -, hgroups⟩ := hgrouped
    have hword : ∀ s ∈ first :: second :: rest, ∃ c ∈ s.toList, isSpace c = false :=
      fun s hs => mem_splitSentences (hsentences ▸ hs)
    have hwritten := written_groupSentences
      ⟨first, List.mem_singleton_self first, hword first List.mem_cons_self⟩
      (fun s hs => hword s (List.mem_cons_of_mem _ hs)) hgroups
    intro i chunk hget
    rw [List.getElem?_map] at hget
    obtain ⟨numbered, hnumbered, rfl⟩ := Option.map_eq_some_iff.mp hget
    have hordinal := numbered_locateGroups hwritten 0 0 i hnumbered
    rw [Nat.zero_add] at hordinal
    subst hordinal
    exact ⟨rfl, rfl, rfl, rfl⟩
  · exact numbered_recursiveChunks h

theorem numbered_semanticChunks {embedder : Option (List String → Except Exn (List (List K)))}
    {document : Document} {indexVersion : String} {size overlap : ℤ} {chunks : List Chunk}
    (h : semanticChunks shortId embedder document indexVersion size overlap = .ok chunks) :
    Numbered shortId document.docId indexVersion chunks := by
  unfold semanticChunks at h
  extract_lets text at h
  split_ifs at h
  · cases h
    exact numbered_nil _ _
  · cases embedder with
    | none =>
        obtain ⟨chunks, hchunks, hmarked⟩ := ok_of_bind h
        cases hmarked
        exact (numbered_recursiveChunks hchunks).map fun _ => ⟨rfl, rfl, rfl, rfl⟩
    | some embed => exact numbered_semanticSplit h

end Numbering

end Rag
