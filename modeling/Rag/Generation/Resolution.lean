import Rag.Generation.Grounded
import Rag.Lib.Firsts

/-!
What citation markers resolve to.

A marker stands for a reference it equals, abbreviates, or agrees with in its first twelve
characters, and is resolved to the first one in the list. So a marker that goes on differently
behind the twelfth character is taken for the reference all the same, and the citations are for what
the text names exactly when no marker finds such a reference first (`citations_faithful_iff`).
-/

namespace Rag

open Py Naming

/-- The marker equals or abbreviates the reference, or begins with its first twelve characters. -/
def Names (token ref : String) : Prop :=
  token.toList <+: ref.toList ∨ ref.toList.take 12 <+: token.toList

instance (token ref : String) : Decidable (Names token ref) :=
  inferInstanceAs (Decidable (_ ∨ _))

/-- The marker equals the reference, abbreviates it or extends it. -/
def Matches (token ref : String) : Prop :=
  token = ref ∨ token.toList <+: ref.toList ∨ ref.toList <+: token.toList

/-- The test in the scan of both resolvers. -/
theorem scan_iff {token ref : String} :
    (startsWith ref token || startsWith token (slice 12 ref)) = true ↔ Names token ref := by
  have hslice : (slice 12 ref).toList = ref.toList.take 12 := by
    rw [slice, String.toList_ofList]
    exact if_pos (by decide)
  rw [Bool.or_eq_true, startsWith, startsWith, List.isPrefixOf_iff_prefix,
    List.isPrefixOf_iff_prefix, hslice, Names]

section Hits

variable {α : Type} {refOf : α → String} {byRef : Dict String α}

/-- The reference a marker resolves to. -/
def resolvedRef (refOf : α → String) (byRef : Dict String α) (token : String) : Option String :=
  (findHit byRef token).map refOf

theorem resolveHits_refs (tokens seen : List String) :
    (resolveHits refOf byRef tokens seen).map refOf
      = firsts (fun token => (resolvedRef refOf byRef token).filter (· ∉ seen)) tokens := by
  induction tokens generalizing seen with
  | nil => rfl
  | cons token rest ih =>
      rw [resolveHits]
      cases hfound : findHit byRef token with
      | none =>
          rw [firsts_cons_none (by rw [resolvedRef, hfound]; rfl)]
          exact ih seen
      | some hit =>
          dsimp only
          by_cases hseen : refOf hit ∈ seen
          · rw [if_pos hseen,
              firsts_cons_none (by simp [resolvedRef, hfound, Option.filter, hseen])]
            exact ih seen
          · rw [if_neg hseen, List.map_cons, ih,
              firsts_cons_some (r := refOf hit)
                (by simp [resolvedRef, hfound, Option.filter, hseen])]
            congr 2
            funext token
            rw [Option.filter_filter]
            congr 1
            funext ref
            simp [Bool.and_comm]

theorem resolveHits_resolved (tokens : List String) :
    (resolveHits refOf byRef tokens []).map refOf = firsts (resolvedRef refOf byRef) tokens := by
  rw [resolveHits_refs]
  congr 1
  funext token
  cases resolvedRef refOf byRef token <;> simp [Option.filter]

/-- A hit comes from a marker. -/
theorem mem_resolveHits {tokens seen : List String} {hit : α}
    (h : hit ∈ resolveHits refOf byRef tokens seen) :
    ∃ token ∈ tokens, findHit byRef token = some hit := by
  induction tokens generalizing seen with
  | nil => cases h
  | cons token rest ih =>
      rw [resolveHits] at h
      cases hfound : findHit byRef token with
      | none =>
          rw [hfound] at h
          obtain ⟨token', htoken, hhit⟩ := ih h
          exact ⟨token', List.mem_cons_of_mem _ htoken, hhit⟩
      | some found =>
          rw [hfound] at h
          dsimp only at h
          split_ifs at h
          · obtain ⟨token', htoken, hhit⟩ := ih h
            exact ⟨token', List.mem_cons_of_mem _ htoken, hhit⟩
          · rcases List.mem_cons.mp h with rfl | h
            · exact ⟨token, List.mem_cons_self, hfound⟩
            · obtain ⟨token', htoken, hhit⟩ := ih h
              exact ⟨token', List.mem_cons_of_mem _ htoken, hhit⟩

end Hits

/-- The reference a marker resolves to, the references being in this order. -/
def pickRef (refs : List String) (token : String) : Option String :=
  if token ∈ refs then some token else refs.find? fun ref => Names token ref

theorem resolvedRef_index {α : Type} {refOf : α → String} (known : List α) (token : String) :
    resolvedRef refOf (Dict.index refOf known) token = pickRef (known.map refOf) token := by
  have hkeyed : (Dict.index refOf known).KeyedBy refOf := Dict.keyedBy_empty.setAll known
  rw [resolvedRef, findHit, pickRef]
  cases hget : (Dict.index refOf known).get? token with
  | some x =>
      have hkey : refOf x = token := hkeyed _ (Dict.get?_iff.mp hget)
      have hmem := Dict.mem_values_index (Dict.mem_values_of_get? hget)
      rw [if_pos (List.mem_map.mpr ⟨x, hmem, hkey⟩), Option.map_some, hkey]
  | none =>
      have hunknown : token ∉ known.map refOf := by
        rw [← List.mem_dedup, ← (Dict.keys_index_perm refOf known).mem_iff]
        intro hin
        obtain ⟨item, hitem, rfl⟩ := List.mem_map.mp hin
        rw [Dict.get?_iff.mpr hitem] at hget
        cases hget
      rw [if_neg hunknown, ← Dict.find?_keys_index, Dict.keys, List.find?_map]
      dsimp only
      rw [Option.map_map]
      have hscan : (fun item : String × α =>
          startsWith item.1 token || startsWith token (slice 12 item.1))
          = (fun ref => decide (Names token ref)) ∘ Prod.fst := by
        funext item
        exact Bool.eq_iff_iff.mpr (scan_iff.trans decide_eq_true_iff.symm)
      rw [hscan]
      cases hfound : (Dict.index refOf known).items.find?
          ((fun ref => decide (Names token ref)) ∘ Prod.fst) with
      | none => rfl
      | some item => exact congrArg some (hkeyed item (List.mem_of_find?_eq_some hfound))

/-- The citations of `tokens` among what is known: each is for something a marker matches, no
reference is cited twice, and they come in the order of the markers. No marker resolves to what it
diverges from. -/
structure Faithful {α : Type} (cite : α → Citation) (refOf : α → String) (known : List α)
    (tokens : List String) (citations : List Citation) : Prop where
  named : ∀ c ∈ citations, ∃ x ∈ known, c = cite x ∧ ∃ token ∈ tokens, Matches token (refOf x)
  distinct : (citations.map Citation.ref).Nodup
  inOrder : citations.map Citation.ref
    = firsts (resolvedRef refOf (Dict.index refOf known)) tokens
  diverging : ∀ token ∈ tokens, ∀ ref,
    resolvedRef refOf (Dict.index refOf known) token = some ref → Matches token ref

/-- A marker that equals no reference matches the first one it stands for, also behind its
twelfth character. -/
def Undiverted (refs tokens : List String) : Prop :=
  ∀ token ∈ tokens, token ∉ refs → ∀ before ref after, refs = before ++ ref :: after →
    (∀ r ∈ before, ¬ Names token r) → Names token ref → Matches token ref

theorem undiverted_iff {refs tokens : List String} : Undiverted refs tokens
    ↔ ∀ token ∈ tokens, ∀ ref, pickRef refs token = some ref → Matches token ref := by
  constructor
  · intro h token htoken ref hpick
    unfold pickRef at hpick
    split_ifs at hpick with hexact
    · exact .inl (Option.some.inj hpick)
    · obtain ⟨hnames, before, after, hrefs, hfirst⟩ := List.find?_eq_some_iff_append.mp hpick
      exact h token htoken hexact before ref after hrefs (by simpa using hfirst)
        (by simpa using hnames)
  · intro h token htoken hexact before ref after hrefs hfirst hnames
    apply h token htoken ref
    rw [pickRef, if_neg hexact]
    exact List.find?_eq_some_iff_append.mpr
      ⟨by simpa using hnames, before, after, hrefs, by simpa using hfirst⟩

/-- The citations of resolved markers. -/
structure Cited {α : Type} (cite : α → Citation) (refOf : α → String) (known : List α)
    (tokens : List String) (citations : List Citation) : Prop where
  resolved : ∀ c ∈ citations, ∃ x ∈ known, c = cite x
    ∧ ∃ token ∈ tokens, resolvedRef refOf (Dict.index refOf known) token = some (refOf x)
  distinct : (citations.map Citation.ref).Nodup
  inOrder : citations.map Citation.ref
    = firsts (resolvedRef refOf (Dict.index refOf known)) tokens

theorem Cited.faithful_iff {α : Type} {cite : α → Citation} {refOf : α → String} {known : List α}
    {tokens : List String} {citations : List Citation}
    (h : Cited cite refOf known tokens citations) :
    Faithful cite refOf known tokens citations ↔ Undiverted (known.map refOf) tokens := by
  rw [undiverted_iff]
  constructor
  · intro hfaithful token htoken ref hpick
    rw [← resolvedRef_index] at hpick
    exact hfaithful.diverging token htoken ref hpick
  · intro hmatches
    have hdiverging : ∀ token ∈ tokens, ∀ ref,
        resolvedRef refOf (Dict.index refOf known) token = some ref → Matches token ref := by
      intro token htoken ref hresolved
      rw [resolvedRef_index] at hresolved
      exact hmatches token htoken ref hresolved
    refine ⟨?_, h.distinct, h.inOrder, hdiverging⟩
    intro c hc
    obtain ⟨x, hx, hcite, token, htoken, hresolved⟩ := h.resolved c hc
    exact ⟨x, hx, hcite, token, htoken, hdiverging token htoken _ hresolved⟩

theorem resolveHits_cited {α : Type} {cite : α → Citation} {refOf : α → String} {known : List α}
    (hcite : ∀ x, (cite x).ref = refOf x) (tokens : List String) :
    Cited cite refOf known tokens
      ((resolveHits refOf (Dict.index refOf known) tokens []).map cite) := by
  have hrefs : ((resolveHits refOf (Dict.index refOf known) tokens []).map cite).map Citation.ref
      = firsts (resolvedRef refOf (Dict.index refOf known)) tokens := by
    rw [List.map_map, ← resolveHits_resolved]
    exact List.map_congr_left fun x _ => hcite x
  refine ⟨?_, ?_, hrefs⟩
  · intro c hc
    obtain ⟨hit, hhit, rfl⟩ := List.mem_map.mp hc
    obtain ⟨token, htoken, hfound⟩ := mem_resolveHits hhit
    exact ⟨hit, Dict.mem_values_index (findHit_mem hfound), rfl, token, htoken,
      congrArg (Option.map refOf) hfound⟩
  · rw [hrefs]
    exact firsts_nodup _ _

theorem resolveSourceCitations_explicit (answerText : String) (sources : List Source) :
    resolveSourceCitations answerText sources true
      = (resolveHits Source.ref (Dict.index Source.ref sources)
          (citationTokens answerText.toList) []).map citationFromSource := by
  unfold resolveSourceCitations
  dsimp only
  split
  · contradiction
  · rfl

/-- The tokens of the markers of a text. -/
def markers (answerText : String) : List String := citationTokens answerText.toList

def chunkIdOf (scored : ScoredChunk ℚ) : String := scored.chunk.chunkId

/-- With a marker that resolves the permissive fallback is not taken. -/
theorem resolveCitations_of_resolving {answerText : String} {scored : List (ScoredChunk ℚ)}
    (h : ∃ token ∈ markers answerText,
      resolvedRef chunkIdOf (Dict.index chunkIdOf scored) token ≠ none) :
    resolveCitations answerText scored
      = (resolveHits chunkIdOf (Dict.index chunkIdOf scored) (markers answerText) []).map
          citationFromScored := by
  obtain ⟨token, htoken, hresolved⟩ := h
  obtain ⟨ref, href⟩ := Option.ne_none_iff_exists'.mp hresolved
  have hfirst : ref ∈ firsts (resolvedRef chunkIdOf (Dict.index chunkIdOf scored))
      (markers answerText) := mem_firsts.mpr ⟨token, htoken, href⟩
  rw [← resolveHits_resolved] at hfirst
  have hhits :
      resolveHits chunkIdOf (Dict.index chunkIdOf scored) (markers answerText) [] ≠ [] := by
    intro hempty
    rw [hempty] at hfirst
    cases hfirst
  unfold resolveCitations
  dsimp only
  split
  · rename_i hempty
    exact absurd hempty hhits
  · rfl

/-- A fabricated marker does not resolve exactly where no marker meets first a reference that it
diverges from behind the twelfth character. -/
theorem citations_faithful_iff (answerText : String) :
    (∀ sources : List Source,
      Faithful citationFromSource Source.ref sources (markers answerText)
          (resolveSourceCitations answerText sources true)
        ↔ Undiverted (sources.map Source.ref) (markers answerText))
    ∧ ∀ scored : List (ScoredChunk ℚ),
      (∃ token ∈ markers answerText,
        resolvedRef chunkIdOf (Dict.index chunkIdOf scored) token ≠ none) →
      (Faithful citationFromScored chunkIdOf scored (markers answerText)
          (resolveCitations answerText scored)
        ↔ Undiverted (scored.map chunkIdOf) (markers answerText)) := by
  constructor
  · intro sources
    rw [resolveSourceCitations_explicit]
    exact (resolveHits_cited (fun _ => rfl) _).faithful_iff
  · intro scored h
    rw [resolveCitations_of_resolving h]
    exact (resolveHits_cited (fun _ => rfl) _).faithful_iff

section Examples

def retrievedChunk (chunkId : String) : ScoredChunk ℚ where
  chunk := {
    chunkId := chunkId
    docId := "d"
    ordinal := 0
    text := "Use short queries."
    span := (0, 18)
    acl := { tenant := "t" }
    indexVersion := "v1" }
  score := 1
  rank := 1
  retriever := .rerank

def webPage (url : String) : Source := { kind := .web, ref := url }

/-- A marker that abbreviates a chunk id cites the chunk. -/
theorem citations_faithful_iff_marker :
    Faithful citationFromScored chunkIdOf [retrievedChunk "abc12345deadbeef"] ["abc12345"]
      (resolveCitations "As said [abc12345]." [retrievedChunk "abc12345deadbeef"]) := by
  have hmarkers : markers "As said [abc12345]." = ["abc12345"] := by decide +kernel
  have hpick : pickRef ["abc12345deadbeef"] "abc12345" = some "abc12345deadbeef" := by
    decide +kernel
  have hfaithful := (citations_faithful_iff "As said [abc12345].").2
    [retrievedChunk "abc12345deadbeef"]
  rw [hmarkers] at hfaithful
  apply (hfaithful (by decide +kernel)).mpr
  rw [undiverted_iff]
  intro token htoken ref href
  rw [List.mem_singleton.mp htoken] at href ⊢
  obtain rfl := Option.some.inj (hpick.symm.trans href)
  exact .inr (.inl (by decide +kernel))

/-- The address of another page of the same site is cited as the page that was found. -/
theorem diverging_marker_cited :
    ¬ ∀ (answerText : String) (sources : List Source),
      ∀ c ∈ resolveSourceCitations answerText sources true,
        ∃ s ∈ sources, c = citationFromSource s ∧ ∃ token ∈ markers answerText,
          Matches token s.ref := by
  intro h
  have hcitations :
      resolveSourceCitations "[https://example.org/b]" [webPage "https://example.org/a"] true = [citationFromSource (webPage "https://example.org/a")] := by decide +kernel
  have hmarkers : markers "[https://example.org/b]" = ["https://example.org/b"] := by decide +kernel
  obtain ⟨s, hs, -, token, htoken, hnames⟩ := h "[https://example.org/b]"
    [webPage "https://example.org/a"] (citationFromSource (webPage "https://example.org/a"))
    (by rw [hcitations]; exact List.mem_singleton_self _)
  rw [hmarkers, List.mem_singleton] at htoken
  rw [List.mem_singleton] at hs
  rw [hs, htoken, Matches] at hnames
  exact absurd hnames (by decide +kernel)

end Examples

section Grounded

/-- There are markers, and none of them equals or abbreviates the id of a retrieved chunk. -/
def Unverifiable (rawText : String) (scored : List (ScoredChunk ℚ)) : Prop :=
  markers rawText ≠ [] ∧ ∀ token ∈ markers rawText, ∀ s ∈ scored,
    ¬ token.toList <+: (chunkIdOf s).toList

/-- Refused because no citation resolved. -/
def RefusedUnverified (answer : Answer) : Prop :=
  answer.refused = true ∧ answer.refusalReason = some "zero_resolvable_citations"
    ∧ answer.citations = []

theorem resolveCitations_ne_nil (answerText : String) (top : ScoredChunk ℚ)
    (rest : List (ScoredChunk ℚ)) : resolveCitations answerText (top :: rest) ≠ [] := by
  unfold resolveCitations
  dsimp only
  split
  · exact List.cons_ne_nil _ _
  · rename_i hits hlist hfallback
    intro hempty
    have hnone := List.map_eq_nil_iff.mp hempty
    exact hfallback top rest hnone rfl

variable [Runtime] {top : ScoredChunk ℚ} {scoreThreshold : ℚ}

theorem groundAnswer_of_confident (h : scoreThreshold ≤ top.score) (rest : List (ScoredChunk ℚ))
    (redact : Bool) (traceId rawText : String) (usage : Usage) :
    let text := if redact then redactPii rawText else rawText
    groundAnswer (top :: rest) scoreThreshold redact traceId rawText usage
      = { text := text, citations := resolveCitations text (top :: rest), usage := usage,
          traceId := traceId } := by
  intro text
  have hkeep : ∀ text, shouldRefuse (top :: rest) (resolveCitations text (top :: rest))
      scoreThreshold = none := by
    intro text
    rw [shouldRefuse, if_neg (Rat.not_lt.mpr h), if_neg (resolveCitations_ne_nil _ _ _)]
  simp only [groundAnswer, hkeep]
  rfl

/-- Over a context that is good enough, whatever the model writes becomes an answer with
citations: the check for citations that do not resolve never fires. -/
theorem grounded_never_unverified (h : scoreThreshold ≤ top.score) (rest : List (ScoredChunk ℚ))
    (modelName question rawText : String) (usage : Usage) (promptVersion : PromptVersion)
    (redact : Bool) (traceId : String) :
    let answer := generateGrounded (m := Id) (fun _ => (rawText, usage)) modelName question
      (top :: rest) scoreThreshold promptVersion redact traceId
    ¬ RefusedUnverified answer ∧ answer.refused = false ∧ answer.citations ≠ [] := by
  intro answer
  have hconfident : shouldRefuse (top :: rest) [] scoreThreshold
      = some "zero_resolvable_citations" := by
    rw [shouldRefuse, if_neg (Rat.not_lt.mpr h), if_pos rfl]
  have hcomplete : answer = groundAnswer (top :: rest) scoreThreshold redact traceId rawText
      { usage with promptVersion := promptVersion.value } := by
    change generateGrounded (m := Id) _ _ _ _ _ _ _ _ = _
    unfold generateGrounded
    dsimp only
    rw [hconfident, if_neg (by decide)]
    rfl
  rw [hcomplete, groundAnswer_of_confident h]
  refine ⟨?_, rfl, resolveCitations_ne_nil _ _ _⟩
  rintro ⟨hrefused, -⟩
  cases hrefused

end Grounded

section Fabricated

/-- A fabricated id is answered with a citation of the top chunk. -/
theorem grounded_never_unverified_fabricated :
    let _ := Runtime.ascii
    Unverifiable "As said [ffffffff]." [retrievedChunk "abc12345deadbeef"]
      ∧ (generateGrounded (m := Id) (fun _ => ("As said [ffffffff].", {})) "echo" "q"
          [retrievedChunk "abc12345deadbeef"] (1 / 100) .v1 true "t").refused = false := by
  intro _
  have hmarkers : markers "As said [ffffffff]." = ["ffffffff"] := by decide +kernel
  refine ⟨⟨?_, ?_⟩, ?_⟩
  · rw [hmarkers]
    exact List.cons_ne_nil _ _
  · rw [hmarkers]
    decide +kernel
  · exact (grounded_never_unverified (by decide +kernel) [] "echo" "q" "As said [ffffffff]." {} .v1
      true "t").2.1

theorem fabricated_id_answered :
    ¬ ∀ (_ : Runtime) (top : ScoredChunk ℚ) (rest : List (ScoredChunk ℚ)) (scoreThreshold : ℚ)
      (modelName question rawText : String) (usage : Usage) (promptVersion : PromptVersion)
      (redact : Bool) (traceId : String), scoreThreshold ≤ top.score →
      Unverifiable rawText (top :: rest) →
      RefusedUnverified (generateGrounded (m := Id) (fun _ => (rawText, usage)) modelName question
        (top :: rest) scoreThreshold promptVersion redact traceId) := by
  intro h
  let _ := Runtime.ascii
  have hmarkers : markers "As said [ffffffff]." = ["ffffffff"] := by decide +kernel
  have hunverifiable : Unverifiable "As said [ffffffff]." [retrievedChunk "abc12345deadbeef"] := by
    rw [Unverifiable, hmarkers]
    exact ⟨List.cons_ne_nil _ _, by decide +kernel⟩
  have hrefused := h Runtime.ascii (retrievedChunk "abc12345deadbeef") [] (1 / 100) "echo" "q"
    "As said [ffffffff]." {} .v1 false "t" (by decide +kernel) hunverifiable
  have hanswered : (generateGrounded (m := Id) (fun _ => ("As said [ffffffff].", {})) "echo" "q"
      [retrievedChunk "abc12345deadbeef"] (1 / 100) .v1 false "t").refused = false := by
    decide +kernel
  rw [RefusedUnverified, hanswered] at hrefused
  cases hrefused.1

end Fabricated

end Rag
