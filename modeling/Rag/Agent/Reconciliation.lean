import Rag.Agent.Admission
import Rag.Agent.Approval
import Rag.Agent.Transcript

/-!
The metadata of a turn against the rows of its trace.

A pass charges the step before the planner answers and the critique before the critic
does, while rows are written behind the awaits. `Tallied` says by how much the counters
run ahead of the rows at a moment of a pass: nowhere between passes, by a step while the
planner or its tools are awaited, by a round while the critic is. A `TimeoutError` makes
the moment at which it strikes the last one. The loop takes any `TimeoutError` for its
deadline, also one that a collaborator raised.
-/

namespace Rag

open Py Interaction AgentRuntime

/-- The failure leaves the loop as a `TimeoutError`. -/
def Failure.isTimeout : Failure → Bool
  | .raised exn => exn.isTimeout
  | .deadline => true

/-- The deadline strikes at an await of the loop. -/
def deadlineStruck : AgentEvent → Bool
  | ⟨.chat _ _, .error .deadline⟩ => true
  | ⟨.runTool _ _ _ _, .error .deadline⟩ => true
  | ⟨.critique _, .error .deadline⟩ => true
  | _ => false

/-- A `TimeoutError` leaves a part of the loop: the deadline's, or one raised where no
handler is. -/
def timedOut : AgentEvent → Bool
  | ⟨.chat _ _, .error .deadline⟩ => true
  | ⟨.available _ (some _), .error exn⟩ => exn.isTimeout
  | ⟨.runTool _ _ _ _, .error .deadline⟩ => true
  | ⟨.toolCacheGet _, .error exn⟩ => exn.isTimeout
  | ⟨.toolCacheSet _ _, .error exn⟩ => exn.isTimeout
  | ⟨.critique _, .error failure⟩ => failure.isTimeout
  | _ => false

/-- The last planner call in `t` failed, or the tools it asked for were cut short. -/
def StepLost (struck : AgentEvent → Bool) (t : List AgentEvent) : Prop :=
  ∃ before messages tools r after, t = before ++ ⟨.chat messages tools, r⟩ :: after
    ∧ (∀ e ∈ after, e.op.isChat = false)
    ∧ ((∃ failure, r = .error failure) ∨ ∃ e ∈ after, e.op.isTooling = true ∧ struck e = true)

/-- A critic call in `t` was cut short. -/
def criticStruck (struck : AgentEvent → Bool) (t : List AgentEvent) : Bool :=
  t.any fun e => e.op.isCritique && struck e

def stepsOf (kind : StepKind) (steps : List AgentStep) : List AgentStep :=
  steps.filter fun step => step.kind = kind

/-- The calls of all act steps. -/
def actCalls (steps : List AgentStep) : List ToolCall :=
  (stepsOf .act steps).flatMap AgentStep.toolCalls

/-- The metadata of an answer to the turn in `t` describes the rows of its trace, where
`struck` says what cuts a pass short. -/
structure Reconciles (struck : AgentEvent → Bool) (t : List AgentEvent) (answer : AgentAnswer)
    (trace : AgentTrace) : Prop where
  calls : answer.toolCalls = (actCalls trace.steps).length
  used : answer.toolsUsed = (actCalls trace.steps).map ToolCall.name
  aligned : ∀ step ∈ stepsOf .act trace.steps,
    List.Forall₂ Identifies step.toolCalls step.toolResults
  indexed : trace.steps.map AgentStep.index = List.range trace.steps.length
  steps : answer.stepsTaken = (stepsOf .act trace.steps).length + (stepsOf .plan trace.steps).length
    ∨ answer.stepsTaken
        = (stepsOf .act trace.steps).length + (stepsOf .plan trace.steps).length + 1
      ∧ StepLost struck t
  rounds : trace.critiqueRounds
    = (stepsOf .critique trace.steps).length + if criticStruck struck t then 1 else 0
  corrections : answer.selfCorrections ≤ (stepsOf .critique trace.steps).length

/-- In `s` the step counter runs `lost` ahead of the rows and the round counter
`unjudged`. -/
structure Tallied (lost unjudged : ℕ) (s : LoopState) : Prop where
  calls : s.tracker.toolCalls = (actCalls s.steps).length
  used : toolsUsed s.steps = (actCalls s.steps).map ToolCall.name
  aligned : ∀ step ∈ stepsOf .act s.steps, List.Forall₂ Identifies step.toolCalls step.toolResults
  indexed : s.steps.map AgentStep.index = List.range s.steps.length
  steps : s.tracker.steps = (stepsOf .act s.steps).length + (stepsOf .plan s.steps).length + lost
  rounds : s.tracker.critiqueRounds = (stepsOf .critique s.steps).length + unjudged
  corrections : s.selfCorrections ≤ (stepsOf .critique s.steps).length

section Rows

variable {lost unjudged : ℕ} {s : LoopState}

theorem stepsOf_snoc (kind : StepKind) (steps : List AgentStep) (step : AgentStep) :
    stepsOf kind (steps ++ [step])
      = if step.kind = kind then stepsOf kind steps ++ [step] else stepsOf kind steps := by
  simp only [stepsOf, List.filter_append, List.filter_cons, List.filter_nil, decide_eq_true_eq]
  split_ifs <;> simp

theorem indexed_snoc {steps : List AgentStep} {step : AgentStep}
    (h : steps.map AgentStep.index = List.range steps.length) (hstep : step.index = steps.length) :
    (steps ++ [step]).map AgentStep.index = List.range (steps ++ [step]).length := by
  rw [List.map_append, h, List.length_append, List.length_singleton, List.range_succ]
  simp [hstep]

theorem toolsUsed_snoc (steps : List AgentStep) (step : AgentStep) :
    toolsUsed (steps ++ [step]) = toolsUsed steps ++ step.toolCalls.map ToolCall.name := by
  simp [toolsUsed]

theorem start_tallied (rt : AgentRuntime) (turn : Turn) (budget : Budget) :
    Tallied 0 0 (start rt turn budget) where
  calls := rfl
  used := rfl
  aligned := by simp [start, stepsOf]
  indexed := rfl
  steps := rfl
  rounds := rfl
  corrections := le_rfl

theorem Tallied.stepped (h : Tallied lost unjudged s) : Tallied (lost + 1) unjudged (stepped s) where
  calls := h.calls
  used := h.used
  aligned := h.aligned
  indexed := h.indexed
  steps := by
    have hsteps := h.steps
    simp only [AgentRuntime.stepped, BudgetTracker.chargeStep_steps]
    omega
  rounds := h.rounds
  corrections := h.corrections

theorem Tallied.charged (h : Tallied lost unjudged s) (c : ChatCompletion) :
    Tallied lost unjudged (charged s c) :=
  ⟨h.calls, h.used, h.aligned, h.indexed, h.steps, h.rounds, h.corrections⟩

/-- The act row catches up with the step. -/
theorem Tallied.acted (h : Tallied (lost + 1) unjudged s) (turn : Turn) (c : ChatCompletion)
    {requested : List ToolCall} {results : List ToolResult}
    (hresults : List.Forall₂ Identifies requested results) :
    Tallied lost unjudged (acted turn s c requested results) where
  calls := by
    have hcalls := h.calls
    simp only [AgentRuntime.acted, actCalls, stepsOf_snoc, if_true, List.flatMap_append,
      List.flatMap_singleton, List.length_append, BudgetTracker.chargeToolCalls_toolCalls]
    simp only [actCalls] at hcalls
    omega
  used := by
    have hused := h.used
    simp only [AgentRuntime.acted, actCalls, stepsOf_snoc, if_true, List.flatMap_append,
      List.flatMap_singleton, List.map_append, toolsUsed_snoc]
    rw [hused, actCalls]
  aligned := by
    intro step hstep
    simp only [AgentRuntime.acted, stepsOf_snoc, if_true] at hstep
    rcases List.mem_append.mp hstep with hold | hnew
    · exact h.aligned step hold
    · rw [List.mem_singleton.mp hnew]
      exact hresults
  indexed := indexed_snoc h.indexed rfl
  steps := by
    have hsteps := h.steps
    simp only [AgentRuntime.acted, stepsOf_snoc, if_true, List.length_append, List.length_singleton,
      BudgetTracker.chargeToolCalls_steps, reduceCtorEq, if_false]
    omega
  rounds := by
    simpa [AgentRuntime.acted, stepsOf_snoc] using h.rounds
  corrections := by
    simpa [AgentRuntime.acted, stepsOf_snoc] using h.corrections

/-- The plan row catches up with the step. -/
theorem Tallied.drafted (h : Tallied (lost + 1) unjudged s) (c : ChatCompletion) :
    Tallied lost unjudged (drafted s c) where
  calls := by simpa [AgentRuntime.drafted, actCalls, stepsOf_snoc] using h.calls
  used := by simpa [AgentRuntime.drafted, actCalls, stepsOf_snoc, toolsUsed_snoc] using h.used
  aligned := by simpa [AgentRuntime.drafted, stepsOf_snoc] using h.aligned
  indexed := indexed_snoc h.indexed rfl
  steps := by
    have hsteps := h.steps
    simp only [AgentRuntime.drafted, stepsOf_snoc, if_true, List.length_append,
      List.length_singleton, reduceCtorEq, if_false]
    omega
  rounds := by simpa [AgentRuntime.drafted, stepsOf_snoc] using h.rounds
  corrections := by simpa [AgentRuntime.drafted, stepsOf_snoc] using h.corrections

theorem Tallied.nudged (h : Tallied lost unjudged s) (c : ChatCompletion) :
    Tallied lost unjudged (nudged s c) :=
  ⟨h.calls, h.used, h.aligned, h.indexed, h.steps, h.rounds, h.corrections⟩

theorem Tallied.critiqued (h : Tallied lost unjudged s) :
    Tallied lost (unjudged + 1) (critiqued s) where
  calls := h.calls
  used := h.used
  aligned := h.aligned
  indexed := h.indexed
  steps := h.steps
  rounds := by
    have hrounds := h.rounds
    simp only [AgentRuntime.critiqued, BudgetTracker.chargeCritique_critiqueRounds]
    omega
  corrections := h.corrections

/-- The critique row catches up with the round, and leaves room for a correction. -/
theorem Tallied.judged (h : Tallied lost (unjudged + 1) s) (draft : String) (verdict : Verdict)
    (usage : Usage) : Tallied lost unjudged (judged s draft verdict usage)
      ∧ s.selfCorrections + 1 ≤ (stepsOf .critique (judged s draft verdict usage).steps).length := by
  have hrounds := h.rounds
  have hcorrections := h.corrections
  have hrows : (stepsOf .critique (AgentRuntime.judged s draft verdict usage).steps).length
      = (stepsOf .critique s.steps).length + 1 := by
    simp [AgentRuntime.judged, stepsOf_snoc]
  refine ⟨⟨?_, ?_, ?_, indexed_snoc h.indexed rfl, ?_, ?_, ?_⟩, by omega⟩
  · simpa [AgentRuntime.judged, actCalls, stepsOf_snoc] using h.calls
  · simpa [AgentRuntime.judged, actCalls, stepsOf_snoc, toolsUsed_snoc] using h.used
  · simpa [AgentRuntime.judged, stepsOf_snoc] using h.aligned
  · simpa [AgentRuntime.judged, stepsOf_snoc] using h.steps
  · rw [hrows]
    simp only [AgentRuntime.judged, BudgetTracker.chargeUsage_critiqueRounds]
    omega
  · rw [hrows]
    change s.selfCorrections ≤ _
    omega

theorem Tallied.rejected (h : Tallied lost unjudged s) (c : ChatCompletion) (verdict : Verdict)
    (hroom : s.selfCorrections + 1 ≤ (stepsOf .critique s.steps).length) :
    Tallied lost unjudged (rejected s c verdict) :=
  ⟨h.calls, h.used, h.aligned, h.indexed, h.steps, h.rounds, hroom⟩

end Rows

section Arguments

theorem missingFields_error_isTimeout {arguments : List (String × Json)} {keys : List Json}
    {exn : Exn} (h : missingFields arguments keys = .error exn) : exn.isTimeout = false := by
  induction keys with
  | nil => cases h
  | cons key rest ih =>
      rw [missingFields] at h
      split_ifs at h
      · rcases error_of_bind h with htail | ⟨tail, -, hkey⟩
        · exact ih htail
        · split at hkey <;> cases hkey
      · cases h
        rfl

theorem expectedKinds_error_isTimeout {expected : Json} {exn : Exn}
    (h : expectedKinds expected = .error exn) : exn.isTimeout = false := by
  unfold expectedKinds at h
  split at h
  · cases h
  · split at h
    · cases h
      rfl
    · split at h <;> cases h
      rfl

variable [Runtime]

theorem checkField_error_isTimeout {properties : List (String × Json)} {key : String} {value : Json}
    {exn : Exn} (h : checkField properties key value = .error exn) : exn.isTimeout = false := by
  unfold checkField at h
  extract_lets prop at h
  clear_value prop
  split at h
  · split at h
    · cases h
    · split_ifs at h
      rcases error_of_bind h with hkinds | ⟨kinds, -, hmatch⟩
      · exact expectedKinds_error_isTimeout hkinds
      · split_ifs at hmatch
        cases hmatch
        rfl
  · cases h
    rfl

theorem checkFields_error_isTimeout {properties fields : List (String × Json)} {exn : Exn}
    (h : checkFields properties fields = .error exn) : exn.isTimeout = false := by
  induction fields with
  | nil => cases h
  | cons field rest ih =>
      rcases error_of_bind h with hfield | ⟨-, -, hrest⟩
      · exact checkField_error_isTimeout hfield
      · exact ih hrest

/-- What the argument check raises is never a `TimeoutError`. -/
theorem validateArguments_error_isTimeout {arguments schema : List (String × Json)} {exn : Exn}
    (h : validateArguments arguments schema = .error exn) : exn.isTimeout = false := by
  rw [validateArguments_eq] at h
  split at h
  · cases h
    rfl
  · split at h
    · cases h
      rfl
    · split at h
      · rename_i hmissing
        cases h
        exact missingFields_error_isTimeout hmissing
      · split at h
        · cases h
          rfl
        · split at h
          · rename_i hfields
            cases h
            exact checkFields_error_isTimeout hfields
          · split_ifs at h
            cases h
            rfl

end Arguments

section Tools

/-- No operation of `p` ends in a `TimeoutError`, and then `p` does not fail with one. -/
def Timely {α : Type} (p : AgentProg (Except Failure α)) : Prop :=
  Prog.Spec (fun o x => timedOut ⟨o, x⟩ = false) (fun _ => True) p
    fun r => ∀ failure, r = .error failure → failure.isTimeout = false

theorem timely_ok {α : Type} (a : α) : Timely (pure (.ok a)) := by
  intro failure hfailure
  cases hfailure

theorem Timely.bind {α β : Type} {p : AgentProg (Except Failure α)}
    {f : Except Failure α → AgentProg (Except Failure β)} (hp : Timely p)
    (herror : ∀ failure, failure.isTimeout = false → Timely (f (.error failure)))
    (hok : ∀ a, Timely (f (.ok a))) : Timely (p >>= f) := by
  rw [Timely, Prog.spec_bind]
  refine Prog.Spec.mono hp ?_
  rintro (failure | a) hr
  · exact herror failure (hr failure rfl)
  · exact hok a

theorem cachedResult_timely (registry : ToolRegistry) (key : ToolKey) :
    Timely (cachedResult registry key) := by
  unfold cachedResult
  split_ifs
  · refine ⟨trivial, ?_⟩
    rintro (exn | found) hx failure ⟨⟩
    exact hx
  · exact timely_ok none

theorem storeResult_timely (registry : ToolRegistry) (key : ToolKey) (result : ToolResult) :
    Timely (storeResult registry key result) := by
  unfold storeResult
  split_ifs
  · refine ⟨trivial, ?_⟩
    rintro (exn | stored) hx failure ⟨⟩
    exact hx
  · exact timely_ok result

variable [Runtime] (registry : ToolRegistry) (allowEgress : Bool) (principal : Principal)
  (indexVersion : String) (call : ToolCall) (budget : BudgetTracker)

theorem runChecked_timely (arguments : List (String × Json)) :
    Timely (runChecked registry principal indexVersion call arguments budget) := by
  refine (cachedResult_timely registry _).bind ?_ ?_
  · rintro failure hfailure other ⟨⟩
    exact hfailure
  · rintro (_ | cached)
    · refine ⟨trivial, ?_⟩
      rintro ((exn | _) | result) hx
      · exact timely_ok _
      · cases hx
      · exact storeResult_timely registry _ _
    · exact timely_ok _

/-- A call whose operations end in no `TimeoutError` fails with none. -/
theorem execute_timely :
    Timely (execute registry allowEgress principal indexVersion call budget) := by
  refine ⟨trivial, fun _ _ => ?_⟩
  change Timely (dispatch registry allowEgress principal indexVersion call budget)
  unfold dispatch
  split
  · exact timely_ok _
  · split_ifs
    · exact timely_ok _
    · refine ⟨trivial, ?_⟩
      rintro (exn | _ | _) hx
      · rintro failure ⟨⟩
        exact hx
      · exact timely_ok _
      · dsimp only
        split
        · rename_i exn hcheck
          split_ifs
          · exact timely_ok _
          · rintro failure ⟨⟩
            exact validateArguments_error_isTimeout hcheck
        · exact runChecked_timely registry principal indexVersion call budget _

/-- Tools that fail with a `TimeoutError` have an operation that ended in one. -/
theorem runTools_timedOut {rt : AgentRuntime} {turn : Turn} {requested : List ToolCall}
    {u : List AgentEvent} {failure : Failure}
    (h : Prog.Runs (runTools rt turn requested budget) u (.error failure))
    (hfailure : failure.isTimeout = true) :
    ∃ e ∈ u, e.op.isTooling = true ∧ timedOut e = true := by
  have hspec : Prog.Spec (fun o x => timedOut ⟨o, x⟩ = false) (fun _ => True)
      (runTools rt turn requested budget) _ :=
    Prog.Spec.gather (P := fun r => ∀ failure, r = .error failure → failure.isTimeout = false)
      trivial (by
        intro p hp
        obtain ⟨call, -, rfl⟩ := List.mem_map.mp hp
        exact execute_timely rt.tools rt.allowEgress turn.principal turn.indexVersion call budget)
  have hasked := (runTools_asks rt turn requested budget).steps h
  by_contra hnone
  have hquiet : ∀ e ∈ u, timedOut ⟨e.op, e.resp⟩ = false := by
    intro e he
    by_contra hstruck
    exact hnone ⟨e, he, hasked e he, by simpa using hstruck⟩
  have hnot := (hspec.runs h hquiet).2.2 failure rfl failure rfl
  rw [hfailure] at hnot
  cases hnot

end Tools

/-- The answer carries the counters and the rows of `s`. -/
structure Carries (s : LoopState) (answer : AgentAnswer) : Prop where
  steps : answer.stepsTaken = s.tracker.steps
  calls : answer.toolCalls = s.tracker.toolCalls
  used : answer.toolsUsed = toolsUsed s.steps
  corrections : answer.selfCorrections = s.selfCorrections
  trace : ∀ trace, answer.trace = some trace →
    trace.steps = s.steps ∧ trace.critiqueRounds = s.tracker.critiqueRounds

section Endings

variable {rt : AgentRuntime} {s : LoopState} {t : List AgentEvent} {answer : AgentAnswer}

theorem builtAnswer_carries {e : TurnEnd} (hsteps : e.steps = s.steps)
    (htracker : e.tracker = s.tracker) (hcorrections : e.selfCorrections = s.selfCorrections)
    (base : Answer) (fallbackUsed : Bool) (degradedReason : Option String) (traceId version : String) :
    Carries s (rt.builtAnswer e base fallbackUsed degradedReason traceId version) where
  steps := congrArg BudgetTracker.steps htracker
  calls := congrArg BudgetTracker.toolCalls htracker
  used := congrArg toolsUsed hsteps
  corrections := hcorrections
  trace := by
    intro trace htrace
    rw [builtAnswer] at htrace
    split_ifs at htrace
    cases htrace
    exact ⟨hsteps, congrArg BudgetTracker.critiqueRounds htracker⟩

theorem fallbackAnswer_carries {e : TurnEnd} {reason : String} {outcome : Except Exn Answer}
    (hsteps : e.steps = s.steps) (htracker : e.tracker = s.tracker)
    (hcorrections : e.selfCorrections = s.selfCorrections)
    (h : Prog.Runs (fallbackAnswer rt e reason outcome) t answer) : Carries s answer := by
  cases outcome with
  | error exn =>
      obtain ⟨traceId, version, rfl⟩ := buildAnswer_runs h
      exact builtAnswer_carries hsteps htracker hcorrections _ _ _ _ _
  | ok fallback =>
      obtain ⟨traceId, version, rfl⟩ := buildAnswer_runs h
      exact builtAnswer_carries (e := { e with stop := .fallbackPipeline }) hsteps htracker
        hcorrections _ _ _ _ _

theorem finalize_carries [Runtime] {turn : Turn} {stop : StopReason}
    (h : Prog.Runs (finalize rt turn s stop) t answer) : Carries s answer := by
  unfold finalize at h
  extract_lets authorised text citations e reason last at h
  split at h
  · obtain ⟨traceId, version, rfl⟩ := buildAnswer_runs h
    exact builtAnswer_carries (e := e) rfl rfl rfl _ _ _ _ _
  · obtain ⟨outcome, u, rfl, hu⟩ := (Prog.runs_perform_bind_iff _ _ _ _).mp h
    exact fallbackAnswer_carries (e := { e with stop := last }) rfl rfl rfl hu

end Endings

/-- The counters of `s` describe its rows, but for what was cut short in `t`. -/
def Reconciled (t : List AgentEvent) (s : LoopState) : Prop :=
  ∃ lost, Tallied lost (if criticStruck timedOut t then 1 else 0) s
    ∧ (lost = 0 ∨ lost = 1 ∧ StepLost timedOut t)

/-- An exit past which there is an answer leaves with reconciled counters. -/
def LoopExit.Reconciled (t : List AgentEvent) : LoopExit → Prop
  | .stopped s _ => Rag.Reconciled t s
  | .deadline s => Rag.Reconciled t s
  | .raised s exn => exn.isTimeout = true → Rag.Reconciled t s
  | .returned answer => ∃ s, Rag.Reconciled t s ∧ Carries s answer

theorem LoopExit.Reconciled.finalized {t : List AgentEvent} {exit : LoopExit} {s : LoopState}
    {stop : StopReason} (h : exit.Reconciled t) (hexit : exit.finalized = some (s, stop)) :
    Rag.Reconciled t s := by
  cases exit with
  | stopped _ _ =>
      cases hexit
      exact h
  | deadline _ =>
      cases hexit
      exact h
  | raised _ exn =>
      rw [LoopExit.finalized] at hexit
      split_ifs at hexit with htimeout
      cases hexit
      exact h htimeout
  | returned _ => cases hexit

section Struck

variable {struck : AgentEvent → Bool} {t u : List AgentEvent}

theorem criticStruck_append :
    criticStruck struck (t ++ u) = (criticStruck struck t || criticStruck struck u) :=
  List.any_append

theorem criticStruck_of_silent (h : ∀ e ∈ t, e.op.isCritique = false) :
    criticStruck struck t = false := by
  rw [criticStruck, List.any_eq_false]
  intro e he
  simp [h e he]

theorem StepLost.prepend (h : StepLost struck t) : StepLost struck (u ++ t) := by
  obtain ⟨before, messages, tools, r, after, rfl, hlast, hcause⟩ := h
  exact ⟨u ++ before, messages, tools, r, after, by simp, hlast, hcause⟩

theorem StepLost.append (h : StepLost struck t) (hu : ∀ e ∈ u, e.op.isChat = false) :
    StepLost struck (t ++ u) := by
  obtain ⟨before, messages, tools, r, after, rfl, hlast, hcause⟩ := h
  refine ⟨before, messages, tools, r, after ++ u, by simp, ?_, ?_⟩
  · intro e he
    rcases List.mem_append.mp he with he | he
    · exact hlast e he
    · exact hu e he
  · refine hcause.imp_right ?_
    rintro ⟨e, he, hcut⟩
    exact ⟨e, List.mem_append_left _ he, hcut⟩

theorem StepLost.congr {struck' : AgentEvent → Bool} (h : StepLost struck t)
    (hsame : ∀ e ∈ t, struck e = struck' e) : StepLost struck' t := by
  obtain ⟨before, messages, tools, r, after, rfl, hlast, hcause⟩ := h
  refine ⟨before, messages, tools, r, after, rfl, hlast, hcause.imp_right ?_⟩
  rintro ⟨e, he, htooling, hcut⟩
  exact ⟨e, he, htooling, hsame e (by simp [he]) ▸ hcut⟩

theorem criticStruck_congr {struck' : AgentEvent → Bool} (hsame : ∀ e ∈ t, struck e = struck' e) :
    criticStruck struck t = criticStruck struck' t := by
  rw [Bool.eq_iff_iff, criticStruck, criticStruck, List.any_eq_true, List.any_eq_true]
  refine exists_congr fun e => and_congr_right fun he => ?_
  rw [hsame e he]

theorem Reconciles.congr {struck' : AgentEvent → Bool} {answer : AgentAnswer} {trace : AgentTrace}
    (h : Reconciles struck t answer trace) (hsame : ∀ e ∈ t, struck e = struck' e) :
    Reconciles struck' t answer trace where
  calls := h.calls
  used := h.used
  aligned := h.aligned
  indexed := h.indexed
  steps := h.steps.imp_right fun hstep => ⟨hstep.1, hstep.2.congr hsame⟩
  rounds := criticStruck_congr hsame ▸ h.rounds
  corrections := h.corrections

end Struck

section Passes

variable [Runtime] {rt : AgentRuntime} {turn : Turn} {h t u : List AgentEvent} {s : LoopState}

omit [Runtime] in
theorem reconciled_of_tallied (hs : Tallied 0 0 s) (ht : criticStruck timedOut t = false) :
    Reconciled t s :=
  ⟨0, by simpa [ht] using hs, Or.inl rfl⟩

omit [Runtime] in
theorem reconciled_of_lost (hs : Tallied 1 0 s) (ht : criticStruck timedOut t = false)
    (hlost : StepLost timedOut t) : Reconciled t s :=
  ⟨1, by simpa [ht] using hs, Or.inr ⟨rfl, hlost⟩⟩

omit [Runtime] in
theorem reconciled_of_unjudged (hs : Tallied 0 1 s) (ht : criticStruck timedOut t = true) :
    Reconciled t s :=
  ⟨0, by simpa [ht] using hs, Or.inl rfl⟩

theorem planned_reconciled {r : Except Failure ChatCompletion} {x : LoopState ⊕ LoopExit}
    (messages : List Message) (tools : Option (List ToolSpec)) (hs : Tallied 1 0 s)
    (hh : criticStruck timedOut h = false) (hp : Planned rt turn s r t x) :
    Sum.elim (fun s' => Tallied 0 0 s'
        ∧ criticStruck timedOut (h ++ ⟨.chat messages tools, r⟩ :: t) = false)
      (LoopExit.Reconciled (h ++ ⟨.chat messages tools, r⟩ :: t)) x := by
  have hunheard := planned_unheard hp
  have hstruck : criticStruck timedOut (h ++ ⟨.chat messages tools, r⟩ :: t)
      = criticStruck timedOut t := by
    rw [criticStruck_append, hh]
    rfl
  have hfailed : ∀ failure, r = .error failure →
      StepLost timedOut (h ++ ⟨.chat messages tools, r⟩ :: t) := by
    intro failure hr
    exact ⟨h, messages, tools, r, t, rfl, hunheard, Or.inl ⟨failure, hr⟩⟩
  have htools : ∀ requested budget out, Prog.Runs (runTools rt turn requested budget) t out →
      criticStruck timedOut t = false := by
    intro requested budget out hu
    refine criticStruck_of_silent fun e he => ?_
    have hop := (runTools_asks rt turn requested budget).steps hu e he
    cases hkind : e.op <;> rw [hkind] at hop <;> first | rfl | cases hop
  cases hp with
  | deadline => exact reconciled_of_lost hs hstruck (hfailed _ rfl)
  | fallbackLate exn outcome => exact reconciled_of_lost hs hstruck (hfailed _ rfl)
  | fallback exn outcome u answer hu =>
      refine ⟨s, reconciled_of_lost hs (hstruck.trans ?_) (hfailed _ rfl),
        fallbackAnswer_carries rfl rfl rfl hu⟩
      have hclosed := (fallbackAnswer_asks rt _ _ outcome).steps hu
      refine criticStruck_of_silent fun e he => ?_
      rcases List.mem_cons.mp he with rfl | he
      · rfl
      · rcases List.mem_cons.mp he with rfl | he
        · rfl
        · have hop := hclosed e he
          cases hkind : e.op <;> rw [hkind] at hop <;> first | rfl | cases hop
  | toolsFailed c u failure hcalls hu =>
      have hlost : failure.isTimeout = true → Reconciled _ (charged s c) := fun hfailure =>
        reconciled_of_lost (hs.charged c) (hstruck.trans (htools _ _ _ hu))
          ⟨h, messages, tools, _, t, rfl, hunheard, Or.inr (runTools_timedOut _ hu hfailure)⟩
      cases failure with
      | raised exn => exact hlost
      | deadline => exact hlost rfl
  | acted c u results hcalls hu =>
      exact ⟨(hs.charged c).acted turn c (runTools_identifies hu), hstruck.trans (htools _ _ _ hu)⟩
  | nudged c hcalls hdraft => exact ⟨((hs.charged c).drafted c).nudged c, hstruck⟩
  | exhausted c hcalls hdraft hspent =>
      exact reconciled_of_tallied ((hs.charged c).drafted c) hstruck
  | criticFailed c hcalls hdraft hopen failure =>
      have hcut : failure.isTimeout = true →
          Reconciled _ (critiqued (drafted (charged s c) c)) := fun hfailure =>
        reconciled_of_unjudged ((hs.charged c).drafted c).critiqued
          (hstruck.trans (by simpa [criticStruck, AgentOp.isCritique, timedOut] using hfailure))
      cases failure with
      | raised exn => exact hcut
      | deadline => exact hcut rfl
  | unreadable c hcalls hdraft hopen judgement exn hparse =>
      intro htimeout
      rw [parseVerdict_error_isTimeout hparse] at htimeout
      cases htimeout
  | approved c hcalls hdraft hopen judgement verdict hparse hverdict =>
      exact reconciled_of_tallied (((hs.charged c).drafted c).critiqued.judged _ _ _).1 hstruck
  | rejected c hcalls hdraft hopen judgement verdict hparse hverdict =>
      obtain ⟨htallied, hroom⟩ := ((hs.charged c).drafted c).critiqued.judged (strip c.text) verdict
        judgement.usage
      exact ⟨htallied.rejected c verdict hroom, hstruck⟩

theorem pass_reconciled {x : LoopState ⊕ LoopExit} (hs : Tallied 0 0 s)
    (hh : criticStruck timedOut h = false) (hp : Pass rt turn s t x) :
    Sum.elim (fun s' => Tallied 0 0 s' ∧ criticStruck timedOut (h ++ t) = false)
      (LoopExit.Reconciled (h ++ t)) x := by
  have hclock : ∀ elapsed, criticStruck timedOut (h ++ [⟨.elapsed, elapsed⟩]) = false := by
    intro elapsed
    rw [criticStruck_append, hh]
    rfl
  cases hp with
  | spent hspent => exact reconciled_of_tallied hs (by simpa using hh)
  | late elapsed hopen hlate => exact reconciled_of_tallied hs (hclock elapsed)
  | planned elapsed r u x hopen htime hplanned =>
      have hafter := planned_reconciled s.messages (offered turn) hs.stepped (hclock elapsed) hplanned
      simpa using hafter

theorem loop_reconciled {budget : Budget} {exit : LoopExit} {n : ℕ}
    (hloop : Prog.Runs (Prog.iterate (iteration rt turn) n (start rt turn budget)) t (some exit)) :
    exit.Reconciled t := by
  obtain ⟨t₁, s, t₂, rfl, ⟨hs, hquiet⟩, hlast⟩ := Prog.runs_iterate (h := [])
    (I := fun h s => Tallied 0 0 s ∧ criticStruck timedOut h = false)
    (fun h s t s' hs ht => pass_reconciled hs.1 hs.2 (iteration_pass ht))
    ⟨start_tallied rt turn budget, rfl⟩ hloop
  exact pass_reconciled hs hquiet (iteration_pass hlast)

end Passes

section Turns

variable [Runtime] {rt : AgentRuntime} {question : String} {principal : Principal}
  {budget : Option Budget} {t : List AgentEvent} {answer : AgentAnswer} {exit : LoopExit}

/-- An answer with a trace carries the counters of a state that is reconciled with the whole
turn. -/
theorem left_reconciled (h : ExitedBy rt question principal budget exit t (.ok answer)) :
    ∃ s, Reconciled t s ∧ Carries s answer := by
  obtain ⟨turn, pre, loop, post, hopen, hloop, hleave, rfl⟩ := h
  have hpre := hopen.uncounted
  have hpost := uncounted_of_ending ((leave_asks rt turn exit).steps hleave)
  have hwhole : ∀ s, Reconciled loop s → Reconciled (pre ++ (loop ++ post)) s := by
    rintro s ⟨lost, htallied, hlost⟩
    refine ⟨lost, ?_, hlost.imp_right ?_⟩
    · rw [criticStruck_append, criticStruck_append,
        criticStruck_of_silent (silent_of_uncounted hpre.critiques),
        criticStruck_of_silent (silent_of_uncounted hpost.critiques)]
      simpa using htallied
    · rintro ⟨hone, hstep⟩
      refine ⟨hone, (hstep.append fun e he => ?_).prepend⟩
      simpa using List.countP_eq_zero.mp hpost.chats e he
  have hreconciled := loop_reconciled hloop
  rcases leave_finalized hleave with ⟨s, stop, hexit, hr⟩ | ⟨rfl, -⟩
  · exact ⟨s, hwhole s (hreconciled.finalized hexit), finalize_carries hr⟩
  · obtain ⟨s, hs, hcarries⟩ := hreconciled
    exact ⟨s, hwhole s hs, hcarries⟩

theorem left_reconciles (h : ExitedBy rt question principal budget exit t (.ok answer))
    {trace : AgentTrace} (htrace : answer.trace = some trace) :
    Reconciles timedOut t answer trace := by
  obtain ⟨s, ⟨lost, htallied, hlost⟩, hcarries⟩ := left_reconciled h
  obtain ⟨hrows, hrounds⟩ := hcarries.trace trace htrace
  have hsteps := htallied.steps
  refine ⟨?_, ?_, ?_, ?_, ?_, ?_, ?_⟩
  · rw [hcarries.calls, hrows, htallied.calls]
  · rw [hcarries.used, hrows, htallied.used]
  · rw [hrows]
    exact htallied.aligned
  · rw [hrows]
    exact htallied.indexed
  · rw [hcarries.steps, hrows]
    rcases hlost with rfl | ⟨rfl, hstep⟩
    · exact Or.inl (by simpa using hsteps)
    · exact Or.inr ⟨by simpa using hsteps, hstep⟩
  · rw [hrounds, hrows, htallied.rounds]
    split_ifs <;> rfl
  · rw [hcarries.corrections, hrows]
    exact htallied.corrections

/-- For every turn that answers with a trace, at whatever moment it was cut short, the
metadata of the answer describes the rows of the trace. A step or a round without a row is
one that a failed planner call or a `TimeoutError` ended, which is the deadline's unless a
collaborator raised it. -/
theorem trace_reconciles (rt : AgentRuntime) (question : String) (principal : Principal)
    (budget : Option Budget) (env : Prog.Env AgentOp AgentResp) (answer : AgentAnswer)
    (trace : AgentTrace) (h : (run rt question principal budget).result env = some (.ok answer))
    (htrace : answer.trace = some trace) :
    let t := (run rt question principal budget).trace env
    Reconciles timedOut t answer trace
      ∧ ((∀ e ∈ t, timedOut e = deadlineStruck e) → Reconciles deadlineStruck t answer trace) := by
  intro t
  have hruns := Prog.runs_trace env (run rt question principal budget)
  rw [h] at hruns
  obtain ⟨exit, hleft⟩ := run_left hruns
  have hreconciles := left_reconciles hleft htrace
  exact ⟨hreconciles, hreconciles.congr⟩

end Turns

/-- The runtime with one tool, which keeps its trace. -/
def tracedRuntime : AgentRuntime := { searchRuntime with includeTrace := true }

/-- The rows of each kind and the rounds charged. -/
def rowCounts : Option (Except Exn AgentAnswer) → Option (ℕ × ℕ × ℕ × ℤ)
  | some (.ok answer) => answer.trace.map fun trace =>
      ((stepsOf .act trace.steps).length, (stepsOf .plan trace.steps).length,
        (stepsOf .critique trace.steps).length, trace.critiqueRounds)
  | _ => none

theorem traced_of_rowCounts {r : Option (Except Exn AgentAnswer)} {acts plans critiques : ℕ}
    {rounds : ℤ} (h : rowCounts r = some (acts, plans, critiques, rounds)) :
    ∃ answer trace, r = some (.ok answer) ∧ answer.trace = some trace
      ∧ (stepsOf .act trace.steps).length = acts ∧ (stepsOf .plan trace.steps).length = plans
      ∧ (stepsOf .critique trace.steps).length = critiques ∧ trace.critiqueRounds = rounds := by
  rcases r with _ | exn | answer
  · cases h
  · cases h
  · obtain ⟨trace, htrace, hcounts⟩ := Option.map_eq_some_iff.mp h
    simp only [Prod.mk.injEq] at hcounts
    exact ⟨answer, trace, rfl, htrace, hcounts⟩

theorem trace_reconciles_rejected : let _ := Runtime.ascii
    let turn := run tracedRuntime searchTurn.question searchTurn.principal none
    let env : Prog.Env AgentOp AgentResp := fun _ => draftAnswers "no"
    ∃ answer trace, turn.result env = some (.ok answer) ∧ answer.trace = some trace
      ∧ (stepsOf .act trace.steps).length = 1 ∧ (stepsOf .plan trace.steps).length = 3
      ∧ (stepsOf .critique trace.steps).length = 2
      ∧ Reconciles timedOut (turn.trace env) answer trace := by
  intro _ turn env
  have hcounts : rowCounts (turn.result env) = some (1, 3, 2, 2) := by decide +kernel
  obtain ⟨answer, trace, hanswer, htrace, hacts, hplans, hcritiques, -⟩ :=
    traced_of_rowCounts hcounts
  exact ⟨answer, trace, hanswer, htrace, hacts, hplans, hcritiques,
    (trace_reconciles tracedRuntime searchTurn.question searchTurn.principal none env answer
      trace hanswer htrace).1⟩

/-- The planner drafts at once, and the critic's model raises `TimeoutError`. -/
def impatientAnswers : (o : AgentOp) → AgentResp o
  | .chat _ _ => .ok foundDraft
  | .critique _ => .error (.raised ⟨.timeout, "TimeoutError", "timed out"⟩)
  | o => searchAnswers foundResult o

/-- A round without a row, although the deadline has struck nowhere. -/
theorem critic_timeout_loses_row : ¬ ∀ (_ : Runtime) (rt : AgentRuntime) (question : String)
    (principal : Principal) (budget : Option Budget) (env : Prog.Env AgentOp AgentResp)
    (answer : AgentAnswer) (trace : AgentTrace),
    (run rt question principal budget).result env = some (.ok answer) →
    answer.trace = some trace →
    Reconciles deadlineStruck ((run rt question principal budget).trace env) answer trace := by
  intro h
  let _ := Runtime.ascii
  let turn := run tracedRuntime searchTurn.question searchTurn.principal none
  let env : Prog.Env AgentOp AgentResp := fun _ => impatientAnswers
  have hcounts : rowCounts (turn.result env) = some (0, 1, 0, 1) := by decide +kernel
  obtain ⟨answer, trace, hanswer, htrace, -, -, hcritiques, hrounds⟩ :=
    traced_of_rowCounts hcounts
  have hreconciles := h _ tracedRuntime searchTurn.question searchTurn.principal none env answer
    trace hanswer htrace
  have hquiet : criticStruck deadlineStruck (turn.trace env) = false := by
    rw [criticStruck, List.any_eq_false]
    intro e he
    rw [Prog.mem_trace he]
    cases e.op <;> simp [AgentOp.isCritique, impatientAnswers, deadlineStruck]
  have hclaimed := hreconciles.rounds
  rw [hquiet, hcritiques, hrounds] at hclaimed
  simp at hclaimed

end Rag
