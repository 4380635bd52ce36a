import Rag.Cache.RealAnswers

/-!
Runtime, cache gate and evaluation metric agree on success.

A turn is observed inside a pool of requests that share the caches: `t` is a part of what
one of them did, and a run of `AgentRuntime.run` from its first operation to its answer. The
pipeline's cached answers are then real ones, so a fallback hands over a proper answer.
-/

namespace Rag

open Py Interaction AgentRuntime

section Agreement

variable [Runtime]

/-- The turn in `t` left its loop for `_finalize`, which built the answer from the agent's
own draft. -/
def DraftReturned (pipeline : OnlinePipeline) (rt : AgentRuntime) (question : String)
    (principal : Principal) (budget : Option Budget) (t : List RequestEvent)
    (answer : AgentAnswer) : Prop :=
  ∃ u s exit, Prog.Handled onService s t ∧ Prog.Handled (serve pipeline) u s
    ∧ ExitedBy rt question principal budget exit u (.ok answer) ∧ exit.KeepsDraft principal

variable {pipeline : OnlinePipeline} {rt : AgentRuntime} {question : String}
  {principal : Principal} {budget : Option Budget} {t : List RequestEvent} {answer : AgentAnswer}

/-- A turn returned its own draft exactly when the answer is the agent's own. -/
theorem draftReturned_iff
    (h : Prog.Runs (ofAgent (serve pipeline) (rt.run question principal budget)) t
      (some (.ok answer))) :
    (DraftReturned pipeline rt question principal budget t answer ↔ OwnAnswer answer)
      ∧ (OwnAnswer answer ∨ ∃ outcome, SteppedAside answer outcome) := by
  obtain ⟨s, hserved, hs⟩ := Prog.runs_interp h
  obtain ⟨u, hrun, hu⟩ := Prog.runs_interp hserved
  obtain ⟨exit, hleft⟩ := run_left hrun
  have hown : DraftReturned pipeline rt question principal budget t answer → OwnAnswer answer := by
    rintro ⟨u', s', exit', -, -, hleft', hkept⟩
    rcases left_cases hleft' with ⟨-, hown, -⟩ | ⟨hdropped, -⟩
    · exact hown
    · exact absurd hkept hdropped
  rcases left_cases hleft with ⟨hkept, hagent, -⟩ | ⟨-, outcome, -, haside⟩
  · exact ⟨⟨hown, fun _ => ⟨u, s, exit, hs, hu, hleft, hkept⟩⟩, Or.inl hagent⟩
  · refine ⟨⟨hown, ?_⟩, Or.inr ⟨outcome, haside⟩⟩
    intro hagent
    rcases haside.fails with hrefused | hfallback
    · rw [hagent.answered] at hrefused
      cases hrefused
    · rw [hagent.agent] at hfallback
      cases hfallback

omit [Runtime] in
/-- A fallback is marked as one in both fields. -/
theorem SteppedAside.marked {outcome : Except Exn Answer} (h : SteppedAside answer outcome) :
    answer.fallbackUsed = true ↔ answer.stopReason = .fallbackPipeline := by
  cases outcome with
  | error exn => simp [h.2.2.2.2.1, h.2.2.2.2.2]
  | ok fallback => simp [h.2.2.2.2.1, h.2.2.2.2.2]

omit [Runtime] in
theorem OwnAnswer.marked (h : OwnAnswer answer) :
    answer.fallbackUsed = true ↔ answer.stopReason = .fallbackPipeline := by
  have hstop : answer.stopReason ≠ .fallbackPipeline := by
    intro hstop
    have hanswerable := h.answerable
    rw [hstop] at hanswerable
    simp [answerableStops] at hanswerable
  simp [h.agent, hstop]

variable [Math ℚ] {ι : Type} [DecidableEq ι] {threshold : ℚ} {maxEntriesPerScope : Nat}
  {callers : ι → Caller}
  {q : Pool RequestOp RequestResp ι SharedCaches (Option (Except Exn Response))}

/-- Whatever planner, critic, tools, pipeline and caches do: the answer of a turn was built
from the agent's own draft exactly when the metric counts a success, which is exactly when
the route would store it. A refusal cites nothing and gives a reason, nothing else gives
one, and the two marks of a fallback agree. -/
theorem success_agrees
    (h : Pool.Reaches CacheCell LosesEntries (openCaches threshold maxEntriesPerScope callers) q)
    {i : ι} {before after : List RequestEvent} (hpart : q.done i = before ++ t ++ after)
    (hturn : Prog.Runs (ofAgent (serve pipeline) (rt.run question principal budget)) t
      (some (.ok answer)))
    (settings : Settings) (hcache : settings.cacheEnabled = true) :
    (DraftReturned pipeline rt question principal budget t answer ↔ taskSuccess answer = 1)
      ∧ (taskSuccess answer = 1 ↔ storesAgentAnswer settings answer = true)
      ∧ (answer.refused = true → answer.citations = [] ∧ answer.refusalReason ≠ none)
      ∧ (answer.refused = false → answer.refusalReason = none)
      ∧ (answer.fallbackUsed = true ↔ answer.stopReason = .fallbackPipeline) := by
  have hreal : ∀ e ∈ t, HitsReal e.op e.resp := by
    intro e he
    apply ((pool_real h).2 i).1 e
    simp [hpart, he]
  have hreply : TurnReply answer :=
    ((turn_real pipeline rt question principal budget).runs hturn hreal).2 answer rfl
  obtain ⟨hreturned, hends⟩ := draftReturned_iff hturn
  have hgate : storesAgentAnswer settings answer = true ↔ answer.refused = false
      ∧ answer.fallbackUsed = false ∧ answer.stopReason ∈ answerableStops := by
    simp [storesAgentAnswer, hcache, and_assoc]
  have hsuccess : taskSuccess answer = 1 ↔ OwnAnswer answer := by
    rw [taskSuccess_eq_one_iff]
    constructor
    · rintro ⟨hrefused, hfallback, -, -⟩
      exact hreply.own hrefused hfallback
    · intro hown
      exact ⟨hown.answered, hown.agent, hown.answerable, hown.cited⟩
  refine ⟨hreturned.trans hsuccess.symm, ?_, ?_, ?_, ?_⟩
  · rw [hsuccess, hgate]
    constructor
    · intro hown
      exact ⟨hown.answered, hown.agent, hown.answerable⟩
    · rintro ⟨hrefused, hfallback, -⟩
      exact hreply.own hrefused hfallback
  · intro hrefused
    have hproper := hreply.reply.1
    rwa [ProperAnswer, if_pos hrefused] at hproper
  · intro hanswered
    have hproper := hreply.reply.1
    rwa [ProperAnswer, if_neg (by simp [hanswered])] at hproper
  · rcases hends with hown | ⟨outcome, haside⟩
    · exact hown.marked
    · exact haside.marked

end Agreement

/-- One turn of a planner that is down. -/
def lonelyTurn (_ : Unit) : Caller :=
  .turn cachingPipeline bareRuntime bareTurn.question bareTurn.principal none

@[irreducible] def lonelyPool [Runtime] [Math ℚ] :
    Pool RequestOp RequestResp Unit SharedCaches (Option (Except Exn Response)) :=
  (openCaches 1 256 lonelyTurn).finish (exactOnly mixedAnswers) ()

theorem lonelyPool_reached [Runtime] [Math ℚ] :
    Pool.Reaches CacheCell LosesEntries (openCaches 1 256 lonelyTurn) lonelyPool := by
  rw [lonelyPool]
  exact finish_reached mixedAnswers _ ()

/-- The request was served by the agent's fallback. -/
def servedByFallback : Option (Except Exn Response) → Bool
  | some (.ok (.agent answer)) => !answer.refused && answer.fallbackUsed
  | _ => false

theorem success_agrees_lonelyTurn :
    let _ := Runtime.ascii
    let _ := unitMath
    ∃ answer, lonelyPool.rest () = .ret (some (.ok (.agent answer)))
      ∧ answer.refused = false ∧ answer.refusalReason = none
      ∧ answer.stopReason = .fallbackPipeline := by
  intro _ _
  have hfellBack : (lonelyPool.rest ()).value?.map servedByFallback = some true := by
    decide +kernel
  obtain ⟨out, hout, hmarks⟩ := Option.map_eq_some_iff.mp hfellBack
  have hdone := Prog.eq_ret_of_value? hout
  have hsteps := Pool.reaches_steps lonelyPool_reached ()
  rw [hdone] at hsteps
  obtain ⟨turn, hturn, hmap⟩ := (Prog.runs_map_iff _ _ _ _).mp hsteps
  rcases turn with _ | exn | answer
  · rw [← hmap] at hmarks
    cases hmarks
  · rw [← hmap] at hmarks
    cases hmarks
  · rw [← hmap] at hmarks
    change (!answer.refused && answer.fallbackUsed) = true at hmarks
    have hmarks' : answer.refused = false ∧ answer.fallbackUsed = true := by simpa using hmarks
    have hpart : lonelyPool.done () = [] ++ lonelyPool.done () ++ [] := by simp
    obtain ⟨-, -, -, hanswered, hmarked⟩ := success_agrees lonelyPool_reached hpart hturn
      {} rfl
    exact ⟨answer, by rw [hdone, ← hmap]; rfl, hmarks'.1, hanswered hmarks'.1,
      hmarked.mp hmarks'.2⟩

end Rag
