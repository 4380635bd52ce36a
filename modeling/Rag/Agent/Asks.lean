import Rag.Agent.Loop

/-!
Which operations each part of a turn asks.

Planner, critic and clock are asked by the loop alone; listing the tools, running them
and ending the turn have operations of their own.
-/

namespace Rag

open Py Interaction AgentRuntime

namespace AgentOp

def isChat : AgentOp → Bool
  | .chat _ _ => true
  | _ => false

def isCritique : AgentOp → Bool
  | .critique _ => true
  | _ => false

def isEnter : AgentOp → Bool
  | .enter _ => true
  | _ => false

/-- Asked while the tools are listed. -/
def isListing : AgentOp → Bool
  | .available _ none => true
  | .spec _ => true
  | _ => false

/-- Asked while tools run. -/
def isTooling : AgentOp → Bool
  | .schedule => true
  | .enter _ => true
  | .available _ (some _) => true
  | .runTool _ _ _ _ => true
  | .toolCacheGet _ => true
  | .toolCacheSet _ _ => true
  | _ => false

/-- Asked while an answer is built. -/
def isClosing : AgentOp → Bool
  | .currentTraceId => true
  | .activeIndexVersion => true
  | _ => false

/-- Asked while a turn is brought to its end. -/
def isEnding : AgentOp → Bool
  | .answer _ _ => true
  | o => o.isClosing

/-- Asked before the loop is entered or once it is left. -/
def isOutside : AgentOp → Bool
  | .startTrace => true
  | o => o.isListing || o.isEnding

theorem isOutside_of_isListing {o : AgentOp} (h : o.isListing = true) : o.isOutside = true := by
  cases o <;> simp [isOutside, h]

theorem isOutside_of_isEnding {o : AgentOp} (h : o.isEnding = true) : o.isOutside = true := by
  cases o <;> first | rfl | cases h

theorem isEnding_of_isClosing {o : AgentOp} (h : o.isClosing = true) : o.isEnding = true := by
  cases o <;> first | rfl | cases h

end AgentOp

theorem pipelineOutcome_of_closing {t : List AgentEvent} (ht : ∀ e ∈ t, e.op.isClosing = true) :
    ∀ e ∈ t, pipelineOutcome e = none := by
  rintro ⟨op, resp⟩ he
  have hop := ht _ he
  cases op <;> first | rfl | cases hop

theorem allowedTools_asks (allowEgress : Bool) (tools : List Tool) :
    Prog.Asks (fun o => o.isListing = true) (allowedTools allowEgress tools) := by
  induction tools with
  | nil => exact Prog.asks_pure _
  | cons tool rest ih =>
      refine (Prog.asks_perform_bind _ _).mpr ⟨rfl, ?_⟩
      intro r
      cases r with
      | error exn => exact Prog.asks_pure _
      | ok available => exact ih.bind fun _ => Prog.asks_pure _

theorem specsOf_asks (tools : List Tool) :
    Prog.Asks (fun o => o.isListing = true) (specsOf tools) := by
  induction tools with
  | nil => exact Prog.asks_pure _
  | cons tool rest ih =>
      refine (Prog.asks_perform_bind _ _).mpr ⟨rfl, ?_⟩
      intro r
      cases r with
      | error exn => exact Prog.asks_pure _
      | ok spec => exact ih.bind fun _ => Prog.asks_pure _

theorem specs_asks (registry : ToolRegistry) (allowEgress : Bool) :
    Prog.Asks (fun o => o.isListing = true) (specs registry allowEgress) := by
  refine (allowedTools_asks allowEgress registry.tools).bind ?_
  intro r
  cases r with
  | error exn => exact Prog.asks_pure _
  | ok tools => exact specsOf_asks tools

section Tools

variable (registry : ToolRegistry)

theorem cachedResult_asks (key : ToolKey) :
    Prog.Asks (fun o => o = .toolCacheGet key) (cachedResult registry key) := by
  unfold cachedResult
  split_ifs
  · exact (Prog.asks_perform_bind _ _).mpr ⟨rfl, fun _ => Prog.asks_pure _⟩
  · exact Prog.asks_pure _

theorem storeResult_asks (key : ToolKey) (result : ToolResult) :
    Prog.Asks (fun o => o = .toolCacheSet key { result with callId := "" })
      (storeResult registry key result) := by
  unfold storeResult
  split_ifs
  · exact (Prog.asks_perform_bind _ _).mpr ⟨rfl, fun _ => Prog.asks_pure _⟩
  · exact Prog.asks_pure _

variable [Runtime] (allowEgress : Bool) (principal : Principal) (indexVersion : String)
  (call : ToolCall) (budget : BudgetTracker)

theorem runChecked_asks (arguments : List (String × Json)) :
    Prog.Asks (fun o => o.isTooling = true ∧ o.isEnter = false)
      (runChecked registry principal indexVersion call arguments budget) := by
  refine Prog.Asks.bind ((cachedResult_asks registry _).mono ?_) ?_
  · rintro o rfl
    exact ⟨rfl, rfl⟩
  · rintro (failure | _ | cached)
    · exact Prog.asks_pure _
    · refine (Prog.asks_perform_bind _ _).mpr ⟨⟨rfl, rfl⟩, ?_⟩
      rintro ((exn | _) | result)
      · exact Prog.asks_pure _
      · exact Prog.asks_pure _
      · refine (storeResult_asks registry _ _).mono ?_
        rintro o rfl
        exact ⟨rfl, rfl⟩
    · exact Prog.asks_pure _

theorem dispatch_asks :
    Prog.Asks (fun o => o.isTooling = true ∧ o.isEnter = false)
      (dispatch registry allowEgress principal indexVersion call budget) := by
  unfold dispatch
  split
  · exact Prog.asks_pure _
  · rename_i tool _
    split_ifs
    · exact Prog.asks_pure _
    · refine (Prog.asks_perform_bind _ _).mpr ⟨⟨rfl, rfl⟩, ?_⟩
      rintro (exn | _ | _)
      · exact Prog.asks_pure _
      · exact Prog.asks_pure _
      · dsimp only
        split
        · split_ifs <;> exact Prog.asks_pure _
        · apply runChecked_asks

theorem execute_asks :
    Prog.Asks (fun o => o.isTooling = true)
      (execute registry allowEgress principal indexVersion call budget) := by
  refine (Prog.asks_perform_bind _ _).mpr ⟨rfl, fun _ => ?_⟩
  exact (dispatch_asks registry allowEgress principal indexVersion call budget).mono fun _ h => h.1

/-- One invocation of `execute` is entered once. -/
theorem execute_enters :
    Prog.AtMost (fun e => if e.op.isEnter then 1 else 0)
      (execute registry allowEgress principal indexVersion call budget) 1 := by
  intro _
  refine ⟨0, le_rfl, Prog.Asks.atMost ?_⟩
  refine (dispatch_asks registry allowEgress principal indexVersion call budget).mono ?_
  intro o h x
  simp [h.2]

end Tools

section Runtime

variable [Runtime] (rt : AgentRuntime) (turn : Turn)

theorem runTools_asks (calls : List ToolCall) (budget : BudgetTracker) :
    Prog.Asks (fun o => o.isTooling = true) (runTools rt turn calls budget) := by
  refine Prog.Asks.gather rfl ?_
  intro p hp
  obtain ⟨call, -, rfl⟩ := List.mem_map.mp hp
  exact execute_asks _ _ _ _ _ _

theorem runTools_enters (calls : List ToolCall) (budget : BudgetTracker) :
    Prog.AtMost (fun e => if e.op.isEnter then 1 else 0) (runTools rt turn calls budget)
      calls.length := by
  have hone : ∀ p ∈ calls.map (fun call =>
      execute rt.tools rt.allowEgress turn.principal turn.indexVersion call budget),
      Prog.AtMost (fun e : AgentEvent => if e.op.isEnter then 1 else 0) p 1 := by
    intro p hp
    obtain ⟨call, -, rfl⟩ := List.mem_map.mp hp
    exact execute_enters _ _ _ _ _ _
  have hall : Prog.AtMost _ (runTools rt turn calls budget) _ :=
    Prog.AtMost.gather (fun _ => rfl) hone
  simpa using hall

omit [Runtime] in
theorem traceIdOr_asks (traceId : String) :
    Prog.Asks (fun o => o.isClosing = true) (traceIdOr traceId) := by
  unfold traceIdOr
  split_ifs
  · exact (Prog.asks_call _ _).mpr ⟨rfl, fun _ => Prog.asks_pure _⟩
  · exact Prog.asks_pure _

omit [Runtime] in
theorem versionOr_asks (indexVersion : Option String) :
    Prog.Asks (fun o => o.isClosing = true) (versionOr indexVersion) := by
  cases indexVersion with
  | none => exact (Prog.asks_call _ _).mpr ⟨rfl, fun _ => Prog.asks_pure _⟩
  | some version => exact Prog.asks_pure _

omit [Runtime] in
theorem buildAnswer_asks (e : TurnEnd) (base : Answer) (indexVersion : Option String)
    (fallbackUsed : Bool) (degradedReason : Option String) :
    Prog.Asks (fun o => o.isClosing = true)
      (buildAnswer rt e base indexVersion fallbackUsed degradedReason) := by
  refine (traceIdOr_asks base.traceId).bind fun _ => ?_
  exact (versionOr_asks indexVersion).bind fun _ => Prog.asks_pure _

omit [Runtime] in
theorem fallbackAnswer_asks (e : TurnEnd) (reason : String) (outcome : Except Exn Answer) :
    Prog.Asks (fun o => o.isClosing = true) (fallbackAnswer rt e reason outcome) := by
  cases outcome with
  | error exn => apply buildAnswer_asks
  | ok fallback => apply buildAnswer_asks

omit [Runtime] in
theorem fallbackOrRefuse_asks (e : TurnEnd) (reason : String) :
    Prog.Asks (fun o => o.isEnding = true) (fallbackOrRefuse rt turn e reason) :=
  (Prog.asks_perform_bind _ _).mpr
    ⟨rfl, fun outcome =>
      (fallbackAnswer_asks rt e reason outcome).mono fun _ => AgentOp.isEnding_of_isClosing⟩

theorem finalize_asks (s : LoopState) (stop : StopReason) :
    Prog.Asks (fun o => o.isEnding = true) (finalize rt turn s stop) := by
  unfold finalize
  extract_lets authorised text citations e reason last
  split
  · exact (buildAnswer_asks rt _ _ _ _ _).mono fun _ => AgentOp.isEnding_of_isClosing
  · apply fallbackOrRefuse_asks

theorem leave_asks (exit : LoopExit) :
    Prog.Asks (fun o => o.isEnding = true) (leave rt turn exit) := by
  have hfinal : ∀ s stop, Prog.Asks (fun o => o.isEnding = true)
      (finalize rt turn s stop >>= fun answer => pure (.ok answer : Except Exn AgentAnswer)) := by
    intro s stop
    exact (finalize_asks rt turn s stop).bind fun _ => Prog.asks_pure _
  cases exit with
  | stopped s stop => exact hfinal s stop
  | deadline s => exact hfinal s .budgetExhausted
  | returned answer => exact Prog.asks_pure _
  | raised s exn =>
      rw [leave]
      split
      · exact hfinal s .budgetExhausted
      · exact Prog.asks_pure _

variable {question : String} {principal : Principal} {caller : Option Budget}
  {E : List AgentEvent → AgentEvent → Prop} {h t : List AgentEvent}

omit [Runtime] in
theorem everywhere_outside (houtside : ∀ h e, e.op.isOutside = true → E h e)
    (ht : ∀ e ∈ t, e.op.isOutside = true) : Everywhere E h t := by
  rw [everywhere_iff]
  rintro pre e post rfl
  exact houtside _ e (ht e (by simp))

omit [Runtime] in
theorem Opening.outside {rt : AgentRuntime} {turn : Turn} {pre : List AgentEvent}
    (hopen : Opening rt question principal turn pre) : ∀ e ∈ pre, e.op.isOutside = true := by
  obtain ⟨u, hu, rfl⟩ := hopen.events
  have hlisted := (specs_asks rt.tools rt.allowEgress).steps hu
  intro e he
  rcases List.mem_cons.mp he with rfl | he
  · rfl
  · rcases List.mem_cons.mp he with rfl | he
    · rfl
    · exact AgentOp.isOutside_of_isListing (hlisted e he)

/-- What every pass establishes at its events, under an invariant it keeps, holds at every
event of a turn. -/
theorem run_everywhere {rt : AgentRuntime} {I : Turn → List AgentEvent → LoopState → Prop}
    (houtside : ∀ h e, e.op.isOutside = true → E h e)
    (hstart : ∀ turn pre, Opening rt question principal turn pre →
      I turn pre (start rt turn ((caller.getD rt.budget).clamp rt.budget)))
    (hpass : ∀ turn h s t x, I turn h s → Pass rt turn s t x →
      Everywhere E h t ∧ ∀ s', x = .inl s' → I turn (h ++ t) s')
    {r : Option (Except Exn AgentAnswer)} (hr : Prog.Runs (run rt question principal caller) t r) :
    Everywhere E [] t := by
  have hloop : ∀ turn pre n loop exit, Opening rt question principal turn pre →
      Prog.Runs (Prog.iterate (iteration rt turn) n
        (start rt turn ((caller.getD rt.budget).clamp rt.budget))) loop exit →
      Everywhere E pre loop := by
    intro turn pre n loop exit hopen hl
    refine Prog.everywhere_iterate (I := I turn) ?_ (hstart turn pre hopen) hl
    intro h s t x hs ht
    exact hpass turn h s t x hs (iteration_pass ht)
  cases run_cases hr with
  | unlisted traceId version u exn hu =>
      have hlisted := (specs_asks rt.tools rt.allowEgress).steps hu
      refine ⟨houtside _ _ rfl, houtside _ _ rfl, everywhere_outside houtside fun e he => ?_⟩
      exact AgentOp.isOutside_of_isListing (hlisted e he)
  | unfinished turn pre loop hopen hl =>
      rw [everywhere_append]
      exact ⟨everywhere_outside houtside hopen.outside, hloop turn pre _ loop _ hopen hl⟩
  | finished turn pre loop post exit out hopen hl hleave =>
      have hend := (leave_asks rt turn exit).steps hleave
      rw [everywhere_append, everywhere_append]
      refine ⟨everywhere_outside houtside hopen.outside, hloop turn pre _ loop _ hopen hl,
        everywhere_outside houtside fun e he => ?_⟩
      exact AgentOp.isOutside_of_isEnding (hend e he)

end Runtime

end Rag
