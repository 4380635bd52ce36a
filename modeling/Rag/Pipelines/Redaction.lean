import Rag.Pipelines.Outcome
import Rag.Security.Redacted
import Rag.Cache.Lifetime

/-!
Where redaction reaches the answers of the pipeline, and where it does not.

The text of an answer is redacted after generation, so it is clean whatever the model
wrote. The quotes of its citations are cut from the stored chunks as they are.
-/

namespace Rag

open Py Py.Regex Interaction

section Redaction

variable [Runtime]

/-- Neither the text nor a quote holds anything `redact_pii` would replace. -/
structure Redacted (answer : Answer) : Prop where
  text : Clean answer.text
  quotes : ∀ c ∈ answer.citations, Clean c.quote

theorem redacted_iff (answer : Answer) :
    Redacted answer ↔ Clean answer.text ∧ ∀ c ∈ answer.citations, Clean c.quote :=
  ⟨fun h => ⟨h.text, h.quotes⟩, fun h => ⟨h.1, h.2⟩⟩

theorem FixedAnswer.redacted (h : CharClasses) {answer : Answer} (hfixed : FixedAnswer answer) :
    Redacted answer where
  text := by
    have htext := hfixed.text
    simp only [fixedTexts, List.mem_cons, List.not_mem_nil, or_false] at htext
    rcases htext with htext | htext
    · rw [htext]
      exact h.clean_ascii (by decide)
    · rw [htext]
      exact h.clean_ascii (by decide)
  quotes := by
    rw [hfixed.uncited]
    simp

omit [Runtime] in
theorem quote_citationFromScored (s : ScoredChunk ℚ) :
    (citationFromScored s).quote = slice 200 s.chunk.text := rfl

/-- The chunks an answer over this context cites begin with 200 characters that hold
nothing to redact. -/
def CitedTextsClean (scored : List (ScoredChunk ℚ)) (scoreThreshold : ℚ) (rawText : String) :
    Prop :=
  shouldRefuse scored (resolveCitations (redactPii rawText) scored) scoreThreshold = none →
    ∀ s ∈ scored, citationFromScored s ∈ resolveCitations (redactPii rawText) scored →
      Clean (slice 200 s.chunk.text)

/-- An answer generated with redaction is redacted where its quotes are clean already. -/
theorem groundAnswer_redacted_iff (h : CharClasses) (scored : List (ScoredChunk ℚ))
    (scoreThreshold : ℚ) (traceId rawText : String) (usage : Usage) :
    Redacted (groundAnswer scored scoreThreshold true traceId rawText usage)
      ↔ CitedTextsClean scored scoreThreshold rawText := by
  unfold groundAnswer CitedTextsClean
  dsimp only
  rw [if_pos rfl]
  cases hrefuse : shouldRefuse scored (resolveCitations (redactPii rawText) scored)
      scoreThreshold with
  | some reason =>
      constructor
      · intro _ hnone
        cases hnone
      · intro _
        exact (refusedAnswer_fixed reason usage traceId).redacted h
  | none =>
      rw [redacted_iff]
      dsimp only
      constructor
      · rintro ⟨-, hquotes⟩ _ s _ hcited
        have hquote := hquotes (citationFromScored s) hcited
        rw [quote_citationFromScored] at hquote
        exact hquote
      · intro hclean
        refine ⟨redactPii_clean h rawText, ?_⟩
        intro c hc
        obtain ⟨s, hs, rfl⟩ := mem_resolveCitations hc
        rw [quote_citationFromScored]
        exact hclean rfl s hs hc

/-- The condition on what the reranker and the model of a call returned. -/
def QuotesClean (pipeline : OnlinePipeline) (t : List PipeEvent) : Prop :=
  ∀ scored ∈ reranked t, ∀ rawText ∈ completed t,
    CitedTextsClean scored pipeline.settings.refusalScoreThreshold rawText

/-- An answer that no cache served is redacted throughout exactly where the stored texts it
quotes hold nothing to redact. -/
theorem answer_redacted_iff (h : CharClasses) {pipeline : OnlinePipeline} {query : String}
    {principal : Principal} {t : List PipeEvent} {answer : Answer}
    (hredact : pipeline.settings.piiRedactionEnabled = true)
    (hrun : Prog.Runs (pipeline.answer query principal).run t (.ok answer))
    (hfresh : answer.cached = false) : Redacted answer ↔ QuotesClean pipeline t := by
  obtain ⟨traceId, resolved, lookups, rest, rfl, hlookups, hexecute⟩ := fresh_runs hrun hfresh
  have hgathers : ∀ e ∈ lookups, Gathers e.op := by
    intro e he
    have hop := hlookups e he
    cases hcase : e.op <;> rw [hcase] at hop <;> trivial
  obtain ⟨hunranked, hunasked⟩ := gathers_silent hgathers
  have hranked : reranked (⟨.startTrace, traceId⟩ ::
      ⟨.resolveAlias pipeline.settings.collectionAlias, resolved⟩ :: (lookups ++ rest))
      = reranked rest := by
    change reranked (lookups ++ rest) = _
    rw [reranked_append, hunranked, List.nil_append]
  have hasked : completed (⟨.startTrace, traceId⟩ ::
      ⟨.resolveAlias pipeline.settings.collectionAlias, resolved⟩ :: (lookups ++ rest))
      = completed rest := by
    change completed (lookups ++ rest) = _
    rw [completed_append, hunasked, List.nil_append]
  rw [QuotesClean, hranked, hasked]
  rcases execute_runs hexecute with ⟨hnone, hfixed⟩
    | ⟨scored, rawText, usage, generationTrace, answerTrace, hone, hsaid, rfl⟩
  · rw [hnone]
    simp [hfixed.redacted h]
  · rw [hone, hsaid, hredact]
    simp only [List.mem_singleton, forall_eq]
    rw [← groundAnswer_redacted_iff h scored _ generationTrace rawText usage]
    rw [redacted_iff, redacted_iff]

end Redaction

/-- A chunk from before redaction was enabled. -/
def contactChunk : Chunk := { onCallChunk with text := "Ann is ann@acme.com." }

def contactAnswers : (o : PipeOp) → PipeResp o
  | .search _ _ _ _ => .ok [⟨contactChunk, 1, 1, .dense⟩]
  | o => onCallAnswers none none o

def contactProgram [Runtime] : Prog PipeOp PipeResp (Except Exn Answer) :=
  (OnlinePipeline.answer {} "who is on call" ⟨"bob", ∅, "acme"⟩).run

/-- What a reader of an answer sees of its citations. -/
def quotesOf (answer : Answer) : Bool × List String :=
  (answer.cached, answer.citations.map Citation.quote)

theorem contactProgram_quotes : let _ := Runtime.ascii
    ∃ answer, contactProgram.result (fun _ => contactAnswers) = .ok answer
      ∧ quotesOf answer = (false, ["Ann is ann@acme.com."]) := by
  intro _
  exact ok_of_toOption (by decide +kernel)

theorem answer_redacted_iff_contact : let _ := Runtime.ascii
    ∃ answer, contactProgram.result (fun _ => contactAnswers) = .ok answer
      ∧ (Redacted answer ↔ QuotesClean {} (contactProgram.trace fun _ => contactAnswers)) := by
  intro _
  obtain ⟨answer, hresult, hquotes⟩ := contactProgram_quotes
  have hruns := Prog.runs_trace (fun _ => contactAnswers) contactProgram
  rw [hresult] at hruns
  exact ⟨answer, hresult,
    answer_redacted_iff charClasses_ascii rfl hruns (Prod.mk.inj hquotes).1⟩

/-- The quote of a citation shows the address that the stored chunk still holds. -/
theorem quotes_bypass_redaction :
    ¬ ∀ (_ : Runtime) (pipeline : OnlinePipeline) (query : String) (principal : Principal)
      (t : List PipeEvent) (answer : Answer), CharClasses →
      pipeline.settings.piiRedactionEnabled = true →
      Prog.Runs (pipeline.answer query principal).run t (.ok answer) → answer.cached = false →
      Redacted answer := by
  intro h
  let _ := Runtime.ascii
  obtain ⟨answer, hresult, hquotes⟩ := contactProgram_quotes
  have hruns := Prog.runs_trace (fun _ => contactAnswers) contactProgram
  rw [hresult] at hruns
  obtain ⟨hfresh, hquoted⟩ := Prod.mk.inj hquotes
  have hredacted := h Runtime.ascii {} _ _ _ answer charClasses_ascii rfl hruns hfresh
  obtain ⟨c, hc, hquote⟩ : ∃ c ∈ answer.citations, c.quote = "Ann is ann@acme.com." := by
    apply List.mem_map.mp
    rw [hquoted]
    exact List.mem_singleton_self _
  have hclean := hredacted.quotes c hc (emailPattern, "[REDACTED_EMAIL]") (by simp [patterns])
  rw [hquote] at hclean
  have hmatch : search emailPattern "Ann is ann@acme.com." = true := by decide +kernel
  rw [hmatch] at hclean
  cases hclean

end Rag
