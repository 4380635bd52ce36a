import Rag.Chunking.Registry
import Rag.Chunking.Cutting

/-!
Where a chunk's span leads: to its text, for whom the text was not changed after it had been
located.

The offsets are reconstructed by looking each piece up from the end of the one before. That
never misses, because the pieces stand in the text one after the other. The markdown chunker
strips a piece once it has located it, and the semantic chunker joins sentences by one space
whatever stood between them.
-/

namespace Rag

open Py

/-- `document.text[span[0]:span[1]] == chunk.text`, within the bounds of the text. -/
structure Traceable (text cut : String) (span : ℤ × ℤ) : Prop where
  start_nonneg : 0 ≤ span.1
  start_le_stop : span.1 ≤ span.2
  stop_le : span.2 ≤ text.length
  slice_eq : sliceBetween span.1 span.2 text = cut

theorem traceable_iff {text cut : String} {i : Nat} :
    Traceable text cut (i, ((i + cut.length : ℕ) : ℤ))
      ↔ i + cut.length ≤ text.length ∧ cut.toList <+: text.toList.drop i := by
  constructor
  · intro h
    have hle : i + cut.length ≤ text.length := by
      have hstop := h.stop_le
      dsimp only at hstop
      omega
    exact ⟨hle, (sliceBetween_eq_iff hle).mp h.slice_eq⟩
  · rintro ⟨hle, hpiece⟩
    exact ⟨Int.natCast_nonneg _, by dsimp only; omega, by dsimp only; omega,
      (sliceBetween_eq_iff hle).mpr hpiece⟩

section Locate

variable {text : String}

theorem locate_cons {piece : String} {cursor i : Nat} (h : find text piece cursor = some i)
    (rest : List String) : locate text id cursor (piece :: rest)
      = ⟨piece, (i, ((i + piece.length : ℕ) : ℤ))⟩
        :: locate text id ((i + piece.length : ℕ) : ℤ) rest := by
  rw [locate, Int.toNat_natCast, h]
  rfl

theorem locate_traceable {pieces : List String} {cursor : Nat} (hcursor : cursor ≤ text.length)
    (h : Scattered (pieces.map String.toList) (text.toList.drop cursor)) :
    ∀ piece ∈ locate text id cursor pieces, Traceable text piece.text piece.span := by
  induction pieces generalizing cursor with
  | nil =>
      intro piece hpiece
      cases hpiece
  | cons piece pieces ih =>
      obtain ⟨i, hi, hrest⟩ := find_scattered hcursor h
      obtain ⟨-, hstart, hstop⟩ := find_some hi
      rw [locate_cons hi, List.forall_mem_cons]
      exact ⟨traceable_iff.mpr ⟨hstop, hstart⟩, ih hstop hrest⟩

theorem located_traceable {pieces : List String}
    (h : Scattered (pieces.map String.toList) text.toList) :
    ∀ piece ∈ locate text id 0 pieces, Traceable text piece.text piece.span := by
  have hall : Scattered (pieces.map String.toList) (text.toList.drop 0) := h
  exact locate_traceable (Nat.zero_le _) hall

theorem locate_text {advance : ℤ → ℤ} {cursor : ℤ} {pieces : List String} :
    (locate text advance cursor pieces).map Piece.text = pieces := by
  induction pieces generalizing cursor with
  | nil => rfl
  | cons piece pieces ih => rw [locate, List.map_cons, ih]

/-- Whatever the overlap, the search goes on where the piece ends. -/
theorem recursive_advance {overlap : ℤ} (h : 0 ≤ overlap) :
    (fun stop : ℤ => max (stop - overlap) stop) = id := by
  funext stop
  exact max_eq_right (by omega)

end Locate

theorem fixedWindows_traceable {text : String} {size : ℤ} (hsize : 0 < size) {starts : List Nat}
    (h : ∀ start ∈ starts, start ≤ text.length) :
    ∀ piece ∈ fixedWindows text size starts, Traceable text piece.text piece.span := by
  intro piece hpiece
  obtain ⟨start, hmem, hwindow⟩ := mem_fixedWindows hpiece
  obtain ⟨-, hspan, htext⟩ := mem_windowAt hwindow
  have hstart := h start hmem
  constructor
  · rw [hspan]
    exact Int.natCast_nonneg start
  · rw [hspan]
    dsimp only
    omega
  · rw [hspan]
    dsimp only
    omega
  · exact htext.symm

theorem blank_sentenceBreak (prev : Option Char) (text : List Char) :
    Blank (text.take (sentenceBreak prev text)) := by
  have hspaces : ∀ {p : Char → Bool}, (∀ c, p c = true → isSpace c = true) →
      Blank (text.take (text.takeWhile p).length) := by
    intro p hp c hc
    rw [← List.prefix_iff_eq_take.mp (List.takeWhile_prefix p)] at hc
    exact hp c (List.mem_takeWhile_imp hc)
  rw [sentenceBreak]
  split_ifs
  · exact hspaces fun c hc => hc
  · apply hspaces
    intro c hc
    rw [of_decide_eq_true hc]
    decide
  · intro c hc
    cases hc

theorem words_consFirst (c : Char) (sentences : List (List Char)) :
    (consFirst c sentences).flatMap words = words [c] ++ sentences.flatMap words := by
  cases sentences with
  | nil => simp [consFirst]
  | cons s sentences =>
      rw [consFirst, List.flatMap_cons, List.flatMap_cons, ← List.append_assoc, ← words_append]
      rfl

theorem words_cons_of_space {c : Char} (h : isSpace c = true) (text : List Char) :
    words (c :: text) = words text := by
  simp [words, h]

/-- Only whitespace is dropped between two sentences. -/
theorem words_cutSentences {prev : Option Char} {skip : Nat} {text : List Char}
    (hskip : Blank (text.take skip)) :
    (cutSentences prev skip text).flatMap words = words text := by
  induction text generalizing prev skip with
  | nil => cases skip <;> rfl
  | cons c text ih =>
      cases skip with
      | succ skip =>
          rw [List.take_succ_cons] at hskip
          have hrest : Blank (text.take skip) := hskip.subset (List.subset_cons_self _ _)
          rw [cutSentences, ih hrest, words_cons_of_space (hskip c List.mem_cons_self)]
      | zero =>
          have hbreak := blank_sentenceBreak prev (c :: text)
          rw [cutSentences]
          cases hskip : sentenceBreak prev (c :: text) with
          | zero =>
              have hnone : Blank (text.take 0) := by simp [Blank]
              dsimp only
              rw [words_consFirst, ih hnone, ← words_append]
              rfl
          | succ skip =>
              rw [hskip, List.take_succ_cons] at hbreak
              have hrest : Blank (text.take skip) := hbreak.subset (List.subset_cons_self _ _)
              dsimp only
              rw [List.flatMap_cons, ih hrest, words_cons_of_space (hbreak c List.mem_cons_self)]
              rfl

theorem words_strip (s : String) : words (strip s).toList = words s.toList := by
  obtain ⟨before, after, hsplit, hbefore, hafter⟩ := stripChars_split s.toList
  rw [strip, String.toList_ofList]
  conv_rhs => rw [hsplit]
  rw [words_append, words_append, words_eq_nil_iff.mpr hbefore, words_eq_nil_iff.mpr hafter]
  simp

theorem words_splitSentences (text : String) :
    (splitSentences text).flatMap (fun s => words s.toList) = words text.toList := by
  have hwords : (cutSentences none 0 text.toList).flatMap words = words text.toList :=
    words_cutSentences (by simp [Blank])
  rw [← hwords, splitSentences]
  induction cutSentences none 0 text.toList with
  | nil => rfl
  | cons p parts ih =>
      rw [List.map_cons, List.flatMap_cons, ← ih]
      have hp := words_strip (String.ofList p)
      rw [String.toList_ofList] at hp
      by_cases hnil : strip (String.ofList p) = ""
      · rw [List.filter_cons_of_neg (by simpa using hnil), ← hp, hnil]
        rfl
      · rw [List.filter_cons_of_pos (by simpa using hnil), List.flatMap_cons, hp]

/-- A sentence as `_split_sentences` returns it. -/
structure Sentence (s : String) : Prop where
  ne_nil : s.toList ≠ []
  trimmed : Trimmed s.toList

theorem sentence_of_mem {text s : String} (h : s ∈ splitSentences text) : Sentence s := by
  obtain ⟨hmem, hne⟩ := List.mem_filter.mp h
  obtain ⟨p, -, rfl⟩ := List.mem_map.mp hmem
  refine ⟨by simpa using hne, ?_⟩
  rw [strip, String.toList_ofList]
  exact stripChars_trimmed _

theorem Sentence.not_blank {s : String} (h : Sentence s) : ¬ Blank s.toList := by
  obtain ⟨c, rest, hs⟩ := List.exists_cons_of_ne_nil h.ne_nil
  intro hblank
  have hfirst := h.trimmed.first c (by rw [hs]; rfl)
  rw [hblank c (by rw [hs]; exact List.mem_cons_self)] at hfirst
  cases hfirst

/-- A group as the grouping loop makes it. -/
structure SentenceGroup (group : List String) : Prop where
  ne_nil : group ≠ []
  sentences : ∀ s ∈ group, Sentence s

/-- `" ".join(group)` -/
def Group.body (group : List String) : String := join " " group

theorem body_cons (s : String) (rest : List String) :
    (Group.body (s :: rest)).toList
      = s.toList ++ rest.flatMap fun next => ' ' :: next.toList := by
  rw [Group.body, join, String.toList_intercalate]
  induction rest generalizing s with
  | nil => simp
  | cons next rest ih =>
      rw [List.map_cons, List.map_cons, List.intercalate_cons_cons, ← List.map_cons, ih]
      simp

theorem words_body (group : List String) :
    words (Group.body group).toList = group.flatMap fun s => words s.toList := by
  cases group with
  | nil => rfl
  | cons s rest =>
      rw [body_cons, words_append, List.flatMap_cons]
      congr 1
      induction rest with
      | nil => rfl
      | cons next rest ih =>
          rw [List.flatMap_cons, words_append, ih, List.flatMap_cons,
            words_cons_of_space (by decide)]

theorem SentenceGroup.trimmed {group : List String} (h : SentenceGroup group) :
    Trimmed (Group.body group).toList := by
  obtain ⟨s, rest, rfl⟩ := List.exists_cons_of_ne_nil h.ne_nil
  have hs := h.sentences s List.mem_cons_self
  rw [body_cons]
  constructor
  · intro c hc
    rw [List.head?_append_of_ne_nil _ hs.ne_nil] at hc
    exact hs.trimmed.first c hc
  · intro c hc
    rcases List.eq_nil_or_concat rest with rfl | ⟨before, last, rfl⟩
    · apply hs.trimmed.last
      simpa using hc
    · have hlast := h.sentences last (by simp)
      apply hlast.trimmed.last
      rw [List.concat_eq_append, List.flatMap_append, ← List.append_assoc] at hc
      obtain ⟨d, ds, hd⟩ := List.exists_cons_of_ne_nil hlast.ne_nil
      simpa [List.getLast?_append_of_ne_nil, hd] using hc

theorem SentenceGroup.strip_body {group : List String} (h : SentenceGroup group) :
    strip (Group.body group) = Group.body group := by
  rw [strip, stripChars_of_trimmed h.trimmed, String.ofList_toList]

theorem groupSentences_spec {K : Type} [LinearOrder K] {size : ℤ} {threshold : K}
    {distances : List K} {group sentences : List String} {groups : List (List String)}
    (hgroup : SentenceGroup group) (hsentences : ∀ s ∈ sentences, Sentence s)
    (h : groupSentences size threshold distances group sentences = .ok groups) :
    groups.flatten = group ++ sentences ∧ ∀ g ∈ groups, SentenceGroup g := by
  induction sentences generalizing distances group groups with
  | nil => cases distances <;> cases h <;> simpa using hgroup
  | cons s sentences ih =>
      obtain ⟨hs, hrest⟩ := List.forall_mem_cons.mp hsentences
      cases distances with
      | nil => cases h
      | cons distance distances =>
          rw [groupSentences] at h
          split_ifs at h
          · obtain ⟨later, hlater, hopened⟩ := ok_of_bind h
            cases hopened
            have hsingle : SentenceGroup [s] := ⟨List.cons_ne_nil _ _, by simpa using hs⟩
            obtain ⟨hjoin, hgroups⟩ := ih hsingle hrest hlater
            refine ⟨by rw [List.flatten_cons, hjoin]; rfl, ?_⟩
            exact List.forall_mem_cons.mpr ⟨hgroup, hgroups⟩
          · have hmore : SentenceGroup (group ++ [s]) := by
              refine ⟨by simp, ?_⟩
              intro t ht
              rcases List.mem_append.mp ht with ht | ht
              · exact hgroup.sentences t ht
              · rw [List.mem_singleton.mp ht]
                exact hs
            obtain ⟨hjoin, hgroups⟩ := ih hmore hrest h
            exact ⟨by simpa using hjoin, hgroups⟩

/-- The texts of the groups. -/
def bodies (groups : List (List String)) : List (List Char) :=
  groups.map fun group => (Group.body group).toList

theorem words_bodies (groups : List (List String)) :
    (bodies groups).flatMap words = groups.flatten.flatMap fun s => words s.toList := by
  induction groups with
  | nil => rfl
  | cons group groups ih =>
      rw [bodies, List.map_cons, List.flatMap_cons, words_body, List.flatten_cons,
        List.flatMap_append, ← ih]
      rfl

section LocateGroups

variable {text : String}

theorem locateGroups_cons {group : List String} (hgroup : SentenceGroup group) (ordinal : Nat)
    (cursor : ℤ) (rest : List (List String)) :
    locateGroups text ordinal cursor (group :: rest)
      = (let start := (find text (group.headD "") cursor.toNat).elim cursor fun i => (i : ℤ)
        let stop := start + (Group.body group).length
        (ordinal, ⟨Group.body group, (start, stop)⟩)
          :: locateGroups text (ordinal + 1) stop rest) := by
  have hne : Group.body group ≠ "" := by
    intro hnil
    obtain ⟨s, more, rfl⟩ := List.exists_cons_of_ne_nil hgroup.ne_nil
    have hbody := body_cons s more
    rw [hnil] at hbody
    exact (hgroup.sentences s List.mem_cons_self).ne_nil (List.append_eq_nil_iff.mp hbody.symm).1
  have hstrip : strip (join " " group) = Group.body group := hgroup.strip_body
  rw [locateGroups, hstrip, if_neg hne]

/-- Groups that all lead to their texts stand in the text one after the other. -/
theorem scattered_of_traceable {groups : List (List String)} {ordinal cursor : Nat}
    (hgroups : ∀ g ∈ groups, SentenceGroup g)
    (h : ∀ numbered ∈ locateGroups text ordinal cursor groups,
      Traceable text numbered.2.text numbered.2.span) :
    Scattered (bodies groups) (text.toList.drop cursor) := by
  induction groups generalizing ordinal cursor with
  | nil => trivial
  | cons group groups ih =>
      obtain ⟨hgroup, hrest⟩ := List.forall_mem_cons.mp hgroups
      rw [locateGroups_cons hgroup] at h
      obtain ⟨i, hle, hi⟩ : ∃ i, cursor ≤ i
          ∧ (find text (group.headD "") cursor).elim (cursor : ℤ) (fun i => (i : ℤ)) = (i : ℤ) := by
        cases hfind : find text (group.headD "") cursor with
        | none => exact ⟨cursor, Nat.le_refl _, rfl⟩
        | some i => exact ⟨i, (find_some hfind).1, rfl⟩
      dsimp only at h
      rw [Int.toNat_natCast, hi, List.forall_mem_cons] at h
      have hstop : (i : ℤ) + (Group.body group).length
          = ((i + (Group.body group).length : ℕ) : ℤ) := by
        omega
      rw [hstop] at h
      have hlater := ih hrest h.2
      rw [← String.length_toList] at hlater
      exact Laid.cons_of_prefix hle (traceable_iff.mp h.1).2 trivial hlater

/-- With only whitespace around them every group is found where it stands. -/
theorem traceable_of_laid {groups : List (List String)} {ordinal cursor : Nat}
    (hcursor : cursor ≤ text.length) (hgroups : ∀ g ∈ groups, SentenceGroup g)
    (h : Laid Blank (bodies groups) (text.toList.drop cursor)) :
    ∀ numbered ∈ locateGroups text ordinal cursor groups,
      Traceable text numbered.2.text numbered.2.span := by
  induction groups generalizing ordinal cursor with
  | nil =>
      intro numbered hnumbered
      cases hnumbered
  | cons group groups ih =>
      obtain ⟨hgroup, hrest⟩ := List.forall_mem_cons.mp hgroups
      obtain ⟨before, rest, htext, hbefore, hlaid⟩ := h
      obtain ⟨s, more, rfl⟩ := List.exists_cons_of_ne_nil hgroup.ne_nil
      have hs := hgroup.sentences s List.mem_cons_self
      dsimp only at htext
      -- the first sentence of the group is what is looked up
      have hfirst : text.toList.drop cursor = before ++ s.toList
          ++ (more.flatMap (fun next => ' ' :: next.toList) ++ rest) := by
        rw [htext, body_cons]
        simp
      obtain ⟨i, hle, hi⟩ := find_of_drop hcursor hfirst
      have hfound := (find_some hi).2.1
      rw [← List.drop_drop, hfirst] at hfound
      have hexact := eq_length_of_blank hbefore hs.not_blank hle hfound
      subst hexact
      have hplace : text.toList.drop (cursor + before.length)
          = (Group.body (s :: more)).toList ++ rest := by
        rw [← List.drop_drop, htext, List.append_assoc, List.drop_left]
      have hbehind : text.toList.drop (cursor + before.length + (Group.body (s :: more)).length)
          = rest := by
        rw [← List.drop_drop, hplace, ← String.length_toList, List.drop_left]
      have hstop : cursor + before.length + (Group.body (s :: more)).length ≤ text.length := by
        have hlength := congrArg List.length htext
        simp only [List.length_append, List.length_drop, String.length_toList] at hlength
        omega
      have hcast : ((cursor + before.length : ℕ) : ℤ) + (Group.body (s :: more)).length
          = ((cursor + before.length + (Group.body (s :: more)).length : ℕ) : ℤ) := by
        omega
      rw [locateGroups_cons hgroup, Int.toNat_natCast, List.headD_cons, hi, Option.elim_some]
      dsimp only
      rw [hcast, List.forall_mem_cons]
      refine ⟨traceable_iff.mpr ⟨hstop, _, hplace.symm⟩, ih hstop hrest ?_⟩
      rw [hbehind]
      exact hlaid

end LocateGroups

/-- `strategies.get(document.mime_type, {})` -/
def ChunkingConfig.mimeCfg (config : ChunkingConfig) (document : Document) : MimeStrategy :=
  (config.strategies.get? document.mimeType).getD {}

/-- The name of the chunker that `chunk_document` looks up. -/
def ChunkingConfig.strategyFor (config : ChunkingConfig) (document : Document) : String :=
  if (config.mimeCfg document).strategy = "" then
    mimeDefault document.mimeType config.defaultStrategy
  else (config.mimeCfg document).strategy

/-- No section, and no piece `split_text` cuts from one that is too long, begins or ends with
whitespace. -/
def Stripped (size : ℤ) (text : String) : Prop :=
  ∀ pieces, sectionPieces size (markdownSections text) = .ok pieces →
    ∀ piece ∈ pieces, strip piece = piece

section Chunks

variable {K : Type} [Field K] [LinearOrder K] [Math K]

/-- The sentences of a group stand one space apart, and whitespace surrounds the groups. -/
def SingleSpaced (embed : List String → Except Exn (List (List K))) (size : ℤ)
    (text : String) : Prop :=
  ∀ groups, Grouped embed size text groups → Laid Blank (bodies groups) text.toList

/-- When a strategy's chunks lead back to their texts. -/
def LeadsBack (embedder : Option (List String → Except Exn (List (List K)))) (strategy : String)
    (size : ℤ) (text : String) : Prop :=
  (strategy = "markdown_aware" → Stripped size text)
  ∧ (strategy = "semantic" → ∀ embed ∈ embedder, SingleSpaced embed size text)

variable {shortId : List String → String}

theorem forall_mem_chunksOf (P : String → ℤ × ℤ → Prop) {document : Document}
    {indexVersion chunker : String} {pieces : List Piece} :
    (∀ chunk ∈ document.chunksOf shortId indexVersion chunker pieces, P chunk.text chunk.span)
      ↔ ∀ piece ∈ pieces, P piece.text piece.span := by
  constructor
  · intro h piece hpiece
    obtain ⟨i, hi, rfl⟩ := List.mem_iff_getElem.mp hpiece
    exact h _ (List.mem_mapIdx.mpr ⟨i, hi, rfl⟩)
  · intro h chunk hchunk
    obtain ⟨i, hi, rfl⟩ := List.mem_mapIdx.mp hchunk
    exact h _ (List.getElem_mem hi)

theorem fixedChunks_traceable {document : Document} {indexVersion : String} {size overlap : ℤ}
    (hsize : 0 < size) : ∀ chunk ∈ fixedChunks shortId document indexVersion size overlap,
      Traceable (document.text.getD "") chunk.text chunk.span := by
  unfold fixedChunks
  extract_lets text step
  split_ifs
  · intro chunk hchunk
    cases hchunk
  · apply (forall_mem_chunksOf (Traceable text)).mpr
    apply fixedWindows_traceable hsize
    intro start hstart
    obtain ⟨j, hj, rfl⟩ := List.mem_map.mp hstart
    have hlt := (Nat.lt_div_iff_mul_lt (by omega)).mp (List.mem_range.mp hj)
    omega

theorem recursiveChunks_traceable {document : Document} {indexVersion : String}
    {size overlap : ℤ} {chunks : List Chunk} (hsize : 0 < size) (hoverlap : 0 ≤ overlap)
    (h : recursiveChunks shortId document indexVersion size overlap = .ok chunks) :
    ∀ chunk ∈ chunks, Traceable (document.text.getD "") chunk.text chunk.span := by
  rcases recursiveChunks_cases h with ⟨-, rfl⟩ | ⟨pieces, hpieces, rfl⟩
  · intro chunk hchunk
    cases hchunk
  · rw [recursive_advance hoverlap]
    apply (forall_mem_chunksOf (Traceable (document.text.getD ""))).mpr
    exact located_traceable (splitText_cuts hsize hpieces).scattered

/-- A span leads to one text only. -/
theorem Traceable.unique {text cut other : String} {span : ℤ × ℤ} (h : Traceable text cut span) :
    Traceable text other span ↔ other = cut := by
  constructor
  · intro hother
    rw [← hother.slice_eq, h.slice_eq]
  · intro hother
    rw [hother]
    exact h

/-- Stripping a piece that has been located is what breaks the link. -/
theorem markdownChunks_traceable_iff {document : Document} {indexVersion : String}
    {size overlap : ℤ} {chunks : List Chunk} (hsize : 0 < size) (hoverlap : 0 ≤ overlap)
    (h : markdownChunks shortId document indexVersion size overlap = .ok chunks) :
    (∀ chunk ∈ chunks, Traceable (document.text.getD "") chunk.text chunk.span)
      ↔ Stripped size (document.text.getD "") := by
  have hnone : ∀ {text : String}, markdownSections text = [] → Stripped size text := by
    intro text hsections pieces hpieces piece hpiece
    rw [hsections] at hpieces
    cases hpieces
    cases hpiece
  rcases markdownChunks_cases h with ⟨htext, rfl⟩ | ⟨hsections, h⟩ | ⟨pieces, hpieces, rfl⟩
  · have hempty : markdownSections "" = [] := by decide
    have hstripped : Stripped size (document.text.getD "") := hnone (by rw [htext, hempty])
    exact ⟨fun _ => hstripped, fun _ chunk hchunk => by cases hchunk⟩
  · exact ⟨fun _ => hnone hsections, fun _ => recursiveChunks_traceable hsize hoverlap h⟩
  · let text := document.text.getD ""
    have hlocated : ∀ piece ∈ locate text id 0 pieces, Traceable text piece.text piece.span :=
      located_traceable (markdownSections_cuts hsize hpieces).scattered
    have hstrip : (∀ piece ∈ locate text id 0 pieces,
          Traceable text (strip piece.text) piece.span)
        ↔ ∀ piece ∈ locate text id 0 pieces, strip piece.text = piece.text :=
      forall₂_congr fun piece hpiece => (hlocated piece hpiece).unique
    rw [forall_mem_chunksOf (Traceable (document.text.getD "")), List.forall_mem_map]
    refine hstrip.trans ?_
    rw [← List.forall_mem_map (f := Piece.text) (P := fun s => strip s = s), locate_text]
    constructor
    · intro hkeep pieces' hpieces'
      rw [hpieces] at hpieces'
      cases hpieces'
      exact hkeep
    · intro hkeep
      exact hkeep pieces hpieces

/-- Joining by one space what stood further apart is what breaks the link. -/
theorem semanticSplit_traceable_iff {embed : List String → Except Exn (List (List K))}
    {document : Document} {indexVersion : String} {size : ℤ} {chunks : List Chunk}
    (hsize : 0 < size)
    (h : semanticSplit shortId embed document (document.text.getD "") indexVersion size
      = .ok chunks) :
    (∀ chunk ∈ chunks, Traceable (document.text.getD "") chunk.text chunk.span)
      ↔ SingleSpaced embed size (document.text.getD "") := by
  let text := document.text.getD ""
  rcases semanticSplit_cases h with ⟨groups, hgrouped, rfl⟩ | ⟨hnone, h⟩
  · obtain ⟨first, second, rest, vectors, hsentences, hembed, hgroups⟩ := hgrouped
    have hall : ∀ s ∈ first :: second :: rest, Sentence s :=
      fun s hs => sentence_of_mem (hsentences ▸ hs)
    obtain ⟨hfirst, hrest⟩ := List.forall_mem_cons.mp hall
    have hsingle : SentenceGroup [first] := ⟨List.cons_ne_nil _ _, by simpa using hfirst⟩
    obtain ⟨hjoin, hgroup⟩ := groupSentences_spec hsingle hrest hgroups
    have hcount : (words text.toList).length = ((bodies groups).flatMap words).length := by
      rw [words_bodies, hjoin, ← words_splitSentences, hsentences]
      rfl
    have hlaid : (∀ numbered ∈ locateGroups text 0 0 groups,
          Traceable text numbered.2.text numbered.2.span)
        ↔ Laid Blank (bodies groups) text.toList := by
      constructor
      · intro htrace
        have hscattered : Scattered (bodies groups) (text.toList.drop 0) :=
          scattered_of_traceable hgroup htrace
        exact (Scattered.laid_blank_iff hscattered).mpr hcount
      · intro hlaid
        have hdrop : Laid Blank (bodies groups) (text.toList.drop 0) := hlaid
        exact traceable_of_laid (Nat.zero_le _) hgroup hdrop
    rw [List.forall_mem_map]
    refine hlaid.trans ?_
    constructor
    · rintro hlaid groups' hgrouped
      rw [← (Grouped.unique hgrouped ⟨first, second, rest, vectors, hsentences, hembed, hgroups⟩)]
        at hlaid
      exact hlaid
    · intro hspaced
      exact hspaced groups ⟨first, second, rest, vectors, hsentences, hembed, hgroups⟩
  · have hspaced : SingleSpaced embed size (document.text.getD "") :=
      fun groups hgrouped => absurd hgrouped (hnone groups)
    exact ⟨fun _ => hspaced, fun _ => recursiveChunks_traceable hsize (by omega) h⟩

theorem semanticChunks_traceable_iff {embedder : Option (List String → Except Exn (List (List K)))}
    {document : Document} {indexVersion : String} {size overlap : ℤ} {chunks : List Chunk}
    (hsize : 0 < size) (hoverlap : 0 ≤ overlap)
    (h : semanticChunks shortId embedder document indexVersion size overlap = .ok chunks) :
    (∀ chunk ∈ chunks, Traceable (document.text.getD "") chunk.text chunk.span)
      ↔ ∀ embed ∈ embedder, SingleSpaced embed size (document.text.getD "") := by
  unfold semanticChunks at h
  extract_lets text at h
  split_ifs at h with htext
  · cases h
    have hspaced : ∀ embed ∈ embedder, SingleSpaced embed size text := by
      rintro embed - groups ⟨first, second, rest, vectors, hcut, -, -⟩
      rw [htext] at hcut
      cases hcut
    exact ⟨fun _ => hspaced, fun _ chunk hchunk => by cases hchunk⟩
  · cases embedder with
    | none =>
        obtain ⟨chunks, hchunks, hmarked⟩ := ok_of_bind h
        cases hmarked
        have hall := recursiveChunks_traceable hsize hoverlap hchunks
        rw [List.forall_mem_map]
        simpa [markFallback] using hall
    | some embed => simpa using semanticSplit_traceable_iff hsize h

/-- A successful call has called the chunker of the document's strategy. -/
theorem chunkWith_of_chunkDocument [Runtime]
    {embedder : Option (List String → Except Exn (List (List K)))} {document : Document}
    {indexVersion : String} {config : ChunkingConfig} {chunks : List Chunk}
    (h : chunkDocument shortId embedder document indexVersion config = .ok chunks) :
    (config.mimeCfg document).overlap < (config.mimeCfg document).size
      ∧ chunkWith shortId embedder (config.strategyFor document) document indexVersion
          (config.mimeCfg document).size (config.mimeCfg document).overlap = .ok chunks := by
  unfold chunkDocument at h
  extract_lets mimeCfg strategy at h
  by_cases hoverlap : mimeCfg.size ≤ mimeCfg.overlap
  · rw [if_pos hoverlap] at h
    cases h
  · rw [if_neg hoverlap] at h
    exact ⟨not_le.mp hoverlap, h⟩

end Chunks

section Examples

/-- A markdown document without settings of its own. -/
def markdownDoc (text : String) : Document where
  docId := "d"
  sourceUri := "file:///d.md"
  mimeType := "text/markdown"
  checksum := "c"
  text := some text
  acl := { tenant := "default" }

end Examples

end Rag
