import Rag.Agent.Caps

/-!
Which failures of the collaborators a turn survives.

The planner's exceptions, a tool's exceptions and the deadline all end in an answer.
What is left are the failures no handler inside the loop covers: the critic's call, a
reply of the critic that cannot be read, and what `execute` raises outside its one
`except` clause. Only a `TimeoutError` among them is caught, by the deadline's handler.
A failure while the tools are listed precedes every handler.
-/

namespace Rag

open Py Interaction AgentRuntime

/-- The exception with which listing the tools fails. -/
def listingFault : AgentEvent → Option Exn
  | ⟨.available _ none, .error exn⟩ => some exn
  | ⟨.spec _, .error exn⟩ => some exn
  | _ => none

section Faults

variable [Runtime]

/-- What the argument check of a call raises past its handler, which catches
`ValueError`. -/
def validationFault (registry : ToolRegistry) (call : ToolCall) : Option Exn :=
  match registry.get call.name with
  | none => none
  | some tool =>
      match validateArguments call.arguments tool.parameters with
      | .error exn => if exn.cls = .value then none else some exn
      | .ok _ => none

/-- The exception no handler inside the loop catches. -/
def loopFault (registry : ToolRegistry) : AgentEvent → Option Exn
  | ⟨.available _ (some _), .error exn⟩ => some exn
  | ⟨.available _ (some call), .ok true⟩ => validationFault registry call
  | ⟨.toolCacheGet _, .error exn⟩ => some exn
  | ⟨.toolCacheSet _ _, .error exn⟩ => some exn
  | ⟨.critique _, .error (.raised exn)⟩ => some exn
  | ⟨.critique _, .ok completion⟩ =>
      match parseVerdict completion.text with
      | .error exn => some exn
      | .ok _ => none
  | _ => none

end Faults

section Listing

theorem allowedTools_reports (allowEgress : Bool) (tools : List Tool) :
    Prog.Reports listingFault some (allowedTools allowEgress tools) := by
  induction tools with
  | nil => rfl
  | cons tool rest ih =>
      rintro (exn | available)
      · exact ⟨exn, rfl, rfl⟩
      · exact ih.bind (fun _ => rfl) fun _ => rfl

theorem specsOf_reports (tools : List Tool) :
    Prog.Reports listingFault some (specsOf tools) := by
  induction tools with
  | nil => rfl
  | cons tool rest ih =>
      rintro (exn | spec)
      · exact ⟨exn, rfl, rfl⟩
      · exact ih.bind (fun _ => rfl) fun _ => rfl

theorem specs_reports (registry : ToolRegistry) (allowEgress : Bool) :
    Prog.Reports listingFault some (specs registry allowEgress) :=
  (allowedTools_reports allowEgress registry.tools).bind (fun _ => rfl)
    fun tools => specsOf_reports tools

end Listing

section Tools

variable [Runtime] (registry : ToolRegistry)

theorem cachedResult_reports (key : ToolKey) :
    Prog.Reports (loopFault registry) Failure.exn (cachedResult registry key) := by
  unfold cachedResult
  split_ifs
  · rintro (exn | found)
    · exact ⟨.raised exn, rfl, rfl⟩
    · rfl
  · rfl

theorem storeResult_reports (key : ToolKey) (result : ToolResult) :
    Prog.Reports (loopFault registry) Failure.exn (storeResult registry key result) := by
  unfold storeResult
  split_ifs
  · rintro (exn | stored)
    · exact ⟨.raised exn, rfl, rfl⟩
    · rfl
  · rfl

variable (allowEgress : Bool) (principal : Principal) (indexVersion : String)
  (call : ToolCall) (budget : BudgetTracker)

theorem runChecked_reports (arguments : List (String × Json)) :
    Prog.Reports (loopFault registry) Failure.exn
      (runChecked registry principal indexVersion call arguments budget) := by
  refine (cachedResult_reports registry _).bind (fun _ => rfl) ?_
  rintro (_ | cached)
  · rintro ((exn | _) | result)
    · rfl
    · rfl
    · exact storeResult_reports registry _ _
  · rfl

/-- `execute` fails at the first fault and only there. -/
theorem execute_reports :
    Prog.Reports (loopFault registry) Failure.exn
      (execute registry allowEgress principal indexVersion call budget) := by
  rintro ⟨⟩
  show Prog.Reports _ _ (dispatch registry allowEgress principal indexVersion call budget)
  unfold dispatch
  split
  · rfl
  · rename_i tool htool
    split_ifs
    · rfl
    · rintro (exn | _ | _)
      · exact ⟨.raised exn, rfl, rfl⟩
      · rfl
      · have hfault : loopFault registry ⟨.available call.name (some call), .ok true⟩
            = validationFault registry call := rfl
        rw [hfault, validationFault, htool]
        cases hcheck : validateArguments call.arguments tool.parameters with
        | error exn =>
            by_cases hvalue : exn.cls = .value
            · simp [hvalue, hcheck, Prog.bind, Prog.Reports, Prog.reported]
            · simp [hvalue, hcheck, Prog.bind, Failure.exn]
        | ok arguments =>
            have hrun := runChecked_reports registry principal indexVersion call budget arguments
            simpa [hcheck, Prog.bind] using hrun

end Tools

/-- The exception that leaves the loop. -/
def LoopExit.escaped : LoopExit → Option Exn
  | .raised _ exn => some exn
  | _ => none

section Passes

variable [Runtime] {rt : AgentRuntime} {turn : Turn} {s : LoopState} {t : List AgentEvent}

theorem loopFault_of_ending (registry : ToolRegistry) (ht : ∀ e ∈ t, e.op.isEnding = true) :
    t.findSome? (loopFault registry) = none := by
  rw [List.findSome?_eq_none_iff]
  rintro ⟨op, resp⟩ he
  have hop := ht _ he
  cases op <;> first | rfl | cases hop

theorem loopFault_of_listing (registry : ToolRegistry) (ht : ∀ e ∈ t, e.op.isListing = true) :
    t.findSome? (loopFault registry) = none := by
  rw [List.findSome?_eq_none_iff]
  rintro ⟨op, resp⟩ he
  have hop := ht _ he
  cases op with
  | available name call => cases call <;> first | rfl | cases hop
  | _ => first | rfl | cases hop

/-- The tools fail with the first fault of their trace. -/
theorem runTools_faults {requested : List ToolCall} {budget : BudgetTracker}
    {r : Except Failure (List ToolResult)}
    (h : Prog.Runs (runTools rt turn requested budget) t r) :
    t.findSome? (loopFault rt.tools) = Prog.reported Failure.exn r := by
  refine Prog.gather_reports (fun _ => rfl) ?_ ?_ h
  · intro p hp
    obtain ⟨call, -, rfl⟩ := List.mem_map.mp hp
    exact execute_reports rt.tools rt.allowEgress turn.principal turn.indexVersion call budget
  · rintro (exn | _) hnone
    · cases hnone
    · rfl

theorem planned_faults {r : Except Failure ChatCompletion} {x : LoopState ⊕ LoopExit}
    (hp : Planned rt turn s r t x) :
    t.findSome? (loopFault rt.tools) = Sum.elim (fun _ => none) LoopExit.escaped x := by
  cases hp with
  | deadline => rfl
  | fallbackLate exn outcome => rfl
  | fallback exn outcome u answer hu =>
      have hclosed := (fallbackAnswer_asks rt _ _ outcome).steps hu
      change u.findSome? (loopFault rt.tools) = none
      exact loopFault_of_ending rt.tools fun e he => AgentOp.isEnding_of_isClosing (hclosed e he)
  | toolsFailed c u failure hcalls hu =>
      rw [runTools_faults hu]
      cases failure <;> rfl
  | acted c u results hcalls hu => exact runTools_faults hu
  | nudged => rfl
  | exhausted => rfl
  | criticFailed c hcalls hdraft hopen failure => cases failure <;> rfl
  | unreadable c hcalls hdraft hopen judgement exn hparse => simp [loopFault, hparse, LoopExit.escaped]
  | approved c hcalls hdraft hopen judgement verdict hparse hverdict =>
      simp [loopFault, hparse, LoopExit.escaped]
  | rejected c hcalls hdraft hopen judgement verdict hparse hverdict => simp [loopFault, hparse]

/-- A pass leaves the loop with an exception exactly if it meets a fault. -/
theorem pass_faults {x : LoopState ⊕ LoopExit} (hp : Pass rt turn s t x) :
    t.findSome? (loopFault rt.tools) = Sum.elim (fun _ => none) LoopExit.escaped x := by
  cases hp with
  | spent _ => rfl
  | late elapsed _ _ => rfl
  | planned elapsed r u _ hopen htime hplanned =>
      rw [List.findSome?_cons]
      rw [List.findSome?_cons]
      exact planned_faults hplanned

omit [Runtime] in
theorem listingFault_of_tooling (ht : ∀ e ∈ t, e.op.isTooling = true) :
    ∀ e ∈ t, listingFault e = none := by
  rintro ⟨op, resp⟩ he
  have hop := ht _ he
  cases op with
  | available name call => cases call <;> first | rfl | cases hop
  | _ => first | rfl | cases hop

omit [Runtime] in
theorem listingFault_of_ending (ht : ∀ e ∈ t, e.op.isEnding = true) :
    ∀ e ∈ t, listingFault e = none := by
  rintro ⟨op, resp⟩ he
  have hop := ht _ he
  cases op <;> first | rfl | cases hop

omit [Runtime] in
theorem pipelineOutcome_of_tooling (ht : ∀ e ∈ t, e.op.isTooling = true) :
    ∀ e ∈ t, pipelineOutcome e = none := by
  rintro ⟨op, resp⟩ he
  have hop := ht _ he
  cases op <;> first | rfl | cases hop

/-- What the pipeline has answered by the end of a pass. -/
def Asked (t : List AgentEvent) : LoopState ⊕ LoopExit → Prop
  | .inl _ => ∀ e ∈ t, pipelineOutcome e = none
  | .inr (.stopped _ _) => ∀ e ∈ t, pipelineOutcome e = none
  | .inr (.returned answer) =>
      ∀ h, ∃ outcome, lastOutcome (h ++ t) = some outcome ∧ Degrades outcome answer
  | .inr _ => True

theorem planned_asked {r : Except Failure ChatCompletion} {x : LoopState ⊕ LoopExit}
    (hp : Planned rt turn s r t x) : (∀ e ∈ t, listingFault e = none) ∧ Asked t x := by
  cases hp with
  | deadline => simp [Asked]
  | fallbackLate exn outcome => simp [Asked, listingFault]
  | fallback exn outcome u answer hu =>
      have hclosed := (fallbackAnswer_asks rt _ _ outcome).steps hu
      have hlisted := listingFault_of_ending fun e he =>
        AgentOp.isEnding_of_isClosing (hclosed e he)
      refine ⟨by simpa [listingFault] using hlisted, fun h => ⟨outcome, ?_, ?_⟩⟩
      · refine lastOutcome_append_answer h turn.question turn.principal outcome ?_
        simpa [pipelineOutcome] using pipelineOutcome_of_closing hclosed
      · exact (fallbackAnswer_runs hu).1
  | toolsFailed c u failure hcalls hu =>
      have hasked := (runTools_asks rt turn _ _).steps hu
      exact ⟨listingFault_of_tooling hasked, by cases failure <;> trivial⟩
  | acted c u results hcalls hu =>
      have hasked := (runTools_asks rt turn _ _).steps hu
      exact ⟨listingFault_of_tooling hasked, pipelineOutcome_of_tooling hasked⟩
  | nudged => simp [Asked]
  | exhausted => simp [Asked]
  | criticFailed c hcalls hdraft hopen failure => cases failure <;> simp [Asked, listingFault]
  | unreadable => simp [Asked, listingFault]
  | approved => simp [Asked, listingFault, pipelineOutcome]
  | rejected => simp [Asked, listingFault, pipelineOutcome]

theorem pass_asked {x : LoopState ⊕ LoopExit} (hp : Pass rt turn s t x) :
    (∀ e ∈ t, listingFault e = none) ∧ Asked t x := by
  cases hp with
  | spent _ => simp [Asked]
  | late elapsed _ _ => simp [Asked, listingFault, pipelineOutcome]
  | planned elapsed r u _ hopen htime hplanned =>
      obtain ⟨hlisted, hasked⟩ := planned_asked hplanned
      refine ⟨by simpa [listingFault] using hlisted, ?_⟩
      cases x with
      | inl s' => simpa [Asked, pipelineOutcome] using hasked
      | inr exit =>
          cases exit with
          | stopped s' stop => simpa [Asked, pipelineOutcome] using hasked
          | deadline s' => trivial
          | raised s' exn => trivial
          | returned answer =>
              intro h
              have hlater := hasked (h ++ [⟨.elapsed, elapsed⟩,
                ⟨.chat s.messages (offered turn), r⟩])
              rw [List.append_assoc] at hlater
              exact hlater

end Passes

/-- The turn returns an answer, which is the pipeline's or a refusal if the pipeline had
to be asked. -/
def Served (t : List AgentEvent) (r : Option (Except Exn AgentAnswer)) : Prop :=
  ∃ answer, r = some (.ok answer)
    ∧ ∀ outcome, lastOutcome t = some outcome → Degrades outcome answer

/-- Listing the tools has not failed, and the first fault inside the loop, if there is
one, is a `TimeoutError`. -/
def Survivable [Runtime] (registry : ToolRegistry) (t : List AgentEvent) : Prop :=
  t.findSome? listingFault = none
    ∧ ∀ exn, t.findSome? (loopFault registry) = some exn → exn.isTimeout = true

/-- A loop that has met no fault and not asked the pipeline. -/
structure Untroubled [Runtime] (registry : ToolRegistry) (h : List AgentEvent) : Prop where
  listed : ∀ e ∈ h, listingFault e = none
  unfaulted : h.findSome? (loopFault registry) = none
  unasked : ∀ e ∈ h, pipelineOutcome e = none

section Turns

variable [Runtime] {rt : AgentRuntime} {turn : Turn} {h t : List AgentEvent}

theorem Untroubled.append {registry : ToolRegistry} (hh : Untroubled registry h)
    (ht : Untroubled registry t) : Untroubled registry (h ++ t) where
  listed := by
    intro e he
    rcases List.mem_append.mp he with he | he
    · exact hh.listed e he
    · exact ht.listed e he
  unfaulted := by rw [List.findSome?_append, hh.unfaulted, ht.unfaulted]; rfl
  unasked := by
    intro e he
    rcases List.mem_append.mp he with he | he
    · exact hh.unasked e he
    · exact ht.unasked e he

theorem Opening.untroubled {question : String} {principal : Principal} {pre : List AgentEvent}
    (hopen : Opening rt question principal turn pre) : Untroubled rt.tools pre := by
  obtain ⟨u, hu, rfl⟩ := hopen.events
  have hasked := (specs_asks rt.tools rt.allowEgress).steps hu
  have hlisted := (specs_reports rt.tools rt.allowEgress).runs hu
  refine ⟨?_, ?_, ?_⟩
  · have hnone := List.findSome?_eq_none_iff.mp hlisted
    simpa [listingFault] using hnone
  · rw [List.findSome?_cons, List.findSome?_cons]
    exact loopFault_of_listing rt.tools hasked
  · have hnone : ∀ e ∈ u, pipelineOutcome e = none := by
      rintro ⟨op, resp⟩ he
      have hop := hasked _ he
      cases op <;> first | rfl | cases hop
    simpa [pipelineOutcome] using hnone

theorem finalize_degrades {s : LoopState} {stop : StopReason} {answer : AgentAnswer}
    (hh : stop ∈ answerableStops → ∀ e ∈ h, pipelineOutcome e = none)
    (ha : Prog.Runs (finalize rt turn s stop) t answer) :
    ∀ outcome, lastOutcome (h ++ t) = some outcome → Degrades outcome answer := by
  intro outcome hlast
  rcases finalize_runs ha with ⟨-, -, hstop, ⟨e, base, hb⟩, -⟩ | ⟨asked, u, e, reason, rfl, -, hu⟩
  · have hclosed := pipelineOutcome_of_closing ((buildAnswer_asks rt e base none false none).steps hb)
    have hnone : lastOutcome (h ++ t) = none := lastOutcome_eq_none fun e he => by
      rcases List.mem_append.mp he with he | he
      · exact hh hstop e he
      · exact hclosed e he
    rw [hnone] at hlast
    cases hlast
  · have hclosed := pipelineOutcome_of_closing ((fallbackAnswer_asks rt e reason asked).steps hu)
    rw [lastOutcome_append_answer h turn.question turn.principal asked hclosed] at hlast
    cases hlast
    exact (fallbackAnswer_runs hu).1

/-- Leaving the loop serves the turn unless an exception other than a `TimeoutError`
leaves it. -/
theorem leave_served {exit : LoopExit} {out : Except Exn AgentAnswer} {last : List AgentEvent}
    (hh : Untroubled rt.tools h) (hasked : Asked last (.inr exit))
    (hleave : Prog.Runs (leave rt turn exit) t out) :
    Served (h ++ last ++ t) (some out) ↔ ∀ exn, exit.escaped = some exn → exn.isTimeout = true := by
  have hout := leave_runs hleave
  cases exit with
  | stopped s stop =>
      obtain ⟨answer, rfl, ha⟩ := hout
      refine iff_of_true ⟨answer, rfl, finalize_degrades (fun _ e he => ?_) ha⟩ (by simp [LoopExit.escaped])
      rcases List.mem_append.mp he with he | he
      · exact hh.unasked e he
      · exact hasked e he
  | deadline s =>
      obtain ⟨answer, rfl, ha⟩ := hout
      exact iff_of_true ⟨answer, rfl, finalize_degrades (by simp [answerableStops]) ha⟩
        (by simp [LoopExit.escaped])
  | returned answer =>
      obtain ⟨rfl, rfl⟩ := hout
      obtain ⟨outcome, hlast, hdegrades⟩ := hasked h
      refine iff_of_true ⟨answer, rfl, fun outcome' hlast' => ?_⟩ (by simp [LoopExit.escaped])
      rw [List.append_nil, hlast] at hlast'
      cases hlast'
      exact hdegrades
  | raised s exn =>
      rcases hout with ⟨htimeout, answer, rfl, ha⟩ | ⟨htimeout, rfl, rfl⟩
      · exact iff_of_true ⟨answer, rfl, finalize_degrades (by simp [answerableStops]) ha⟩
          (by simpa [LoopExit.escaped] using htimeout)
      · refine iff_of_false ?_ ?_
        · rintro ⟨answer, ⟨⟩, -⟩
        · simp [LoopExit.escaped, htimeout]

theorem turn_served_iff {question : String} {principal : Principal} {caller : Option Budget}
    {r : Option (Except Exn AgentAnswer)}
    (hr : Prog.Runs (run rt question principal caller) t r) :
    Served t r ↔ Survivable rt.tools t := by
  cases run_cases hr with
  | unlisted traceId version u exn hu =>
      have hlisted := (specs_reports rt.tools rt.allowEgress).runs hu
      refine iff_of_false ?_ ?_
      · rintro ⟨answer, ⟨⟩, -⟩
      · rintro ⟨hnone, -⟩
        rw [List.findSome?_cons, List.findSome?_cons] at hnone
        exact absurd (hlisted.symm.trans hnone) (by simp [Prog.reported])
  | unfinished turn pre loop hopen hloop => simpa using loop_exits hloop
  | finished turn pre loop post exit out hopen hloop hleave =>
      obtain ⟨t₁, s, t₂, rfl, hh, hlast⟩ := Prog.runs_iterate
        (I := fun h _ => Untroubled rt.tools h)
        (fun h s t s' hh ht => hh.append
          ⟨(pass_asked (iteration_pass ht)).1, pass_faults (iteration_pass ht),
            (pass_asked (iteration_pass ht)).2⟩) hopen.untroubled hloop
      obtain ⟨hlisted, hasked⟩ := pass_asked (iteration_pass hlast)
      have hfaults := pass_faults (iteration_pass hlast)
      have hend := (leave_asks rt turn exit).steps hleave
      have hserved := leave_served hh hasked hleave
      have hfirst : (pre ++ t₁ ++ t₂ ++ post).findSome? (loopFault rt.tools) = exit.escaped := by
        rw [List.findSome?_append, List.findSome?_append, hh.unfaulted, hfaults,
          loopFault_of_ending rt.tools hend]
        simp
      have hnone : (pre ++ t₁ ++ t₂ ++ post).findSome? listingFault = none := by
        rw [List.findSome?_eq_none_iff]
        intro e he
        rcases List.mem_append.mp he with he | he
        · rcases List.mem_append.mp he with he | he
          · exact hh.listed e he
          · exact hlisted e he
        · exact listingFault_of_ending hend e he
      rw [show pre ++ (t₁ ++ t₂ ++ post) = pre ++ t₁ ++ t₂ ++ post by simp, hserved, Survivable,
        hfirst]
      exact ⟨fun h => ⟨hnone, h⟩, fun h => h.2⟩

/-- Exactly when the agent does not fail a request: the turn returns an answer, degraded
to the pipeline's or to a refusal where the pipeline was needed, if and only if the
failures of its collaborators are survivable. -/
theorem run_served_iff (rt : AgentRuntime) (question : String) (principal : Principal)
    (budget : Option Budget) (env : Prog.Env AgentOp AgentResp) :
    Served ((run rt question principal budget).trace env)
        ((run rt question principal budget).result env)
      ↔ Survivable rt.tools ((run rt question principal budget).trace env) :=
  turn_served_iff (Prog.runs_trace env _)

end Turns

/-- An exception the critic's model raises leaves the turn. -/
theorem critic_exception_escapes : ¬ ∀ [Runtime] (rt : AgentRuntime) (question : String)
    (principal : Principal) (budget : Option Budget) (env : Prog.Env AgentOp AgentResp),
    Served ((run rt question principal budget).trace env)
      ((run rt question principal budget).result env) := by
  intro h
  let _ := Runtime.ascii
  obtain ⟨messages, tools, asked, hrun⟩ := bare_critic_raises 7 (valueError "critic") rfl
  obtain ⟨env, -, hresult⟩ := hrun.exists_env
  obtain ⟨answer, hanswer, -⟩ := h bareRuntime bareTurn.question bareTurn.principal none env
  rw [hresult] at hanswer
  cases hanswer

end Rag
