import Rag.Agent.Asks

/-!
The caps of the agent loop.

Planner calls, invocations of `execute` and critic calls are counted in the trace of a
turn. `Metered` ties the counts to the counters of the tracker: the planner is charged
before it is called and the critic before it judges, while tools are charged after they
ran, for as many calls as the tool budget admitted. One pass keeps the counts within the
caps, and the steps left in the budget bound the passes.
-/

namespace Rag

open Py Interaction AgentRuntime

/-- How many operations of a kind `t` holds. -/
def calls (kind : AgentOp → Bool) (t : List AgentEvent) : ℕ :=
  t.countP fun e => kind e.op

section Calls

variable {kind : AgentOp → Bool}

@[simp] theorem calls_nil : calls kind [] = 0 := rfl

@[simp] theorem calls_cons (e : AgentEvent) (t : List AgentEvent) :
    calls kind (e :: t) = calls kind t + if kind e.op then 1 else 0 :=
  List.countP_cons

@[simp] theorem calls_append (t u : List AgentEvent) :
    calls kind (t ++ u) = calls kind t + calls kind u :=
  List.countP_append

theorem calls_eq_zero {part : AgentOp → Bool} {t : List AgentEvent}
    (ht : ∀ e ∈ t, part e.op = true) (hpart : ∀ o, part o = true → kind o = false) :
    calls kind t = 0 := by
  rw [calls, List.countP_eq_zero]
  intro e he
  simp [hpart e.op (ht e he)]

theorem calls_eq_sum (t : List AgentEvent) :
    calls kind t = (t.map fun e => if kind e.op then 1 else 0).sum := by
  induction t with
  | nil => rfl
  | cons e t ih =>
      rw [calls_cons, ih, List.map_cons, List.sum_cons]
      omega

end Calls

/-- `t` holds none of the operations that are capped. -/
structure Uncounted (t : List AgentEvent) : Prop where
  chats : calls AgentOp.isChat t = 0
  enters : calls AgentOp.isEnter t = 0
  critiques : calls AgentOp.isCritique t = 0

section Parts

variable {rt : AgentRuntime} {turn : Turn} {t : List AgentEvent}

theorem uncounted_of_ending (h : ∀ e ∈ t, e.op.isEnding = true) : Uncounted t := by
  constructor <;> refine calls_eq_zero h fun o ho => ?_ <;> cases o <;> first | rfl | cases ho

theorem uncounted_of_listing (h : ∀ e ∈ t, e.op.isListing = true) : Uncounted t := by
  constructor <;> refine calls_eq_zero h fun o ho => ?_ <;> cases o <;> first | rfl | cases ho

theorem Opening.uncounted {question : String} {principal : Principal} {pre : List AgentEvent}
    (h : Opening rt question principal turn pre) : Uncounted pre := by
  obtain ⟨u, hu, rfl⟩ := h.events
  have hlisted := uncounted_of_listing ((specs_asks rt.tools rt.allowEgress).steps hu)
  constructor
  · simp [hlisted.chats, AgentOp.isChat]
  · simp [hlisted.enters, AgentOp.isEnter]
  · simp [hlisted.critiques, AgentOp.isCritique]

theorem runTools_calls [Runtime] {requested : List ToolCall} {budget : BudgetTracker}
    {r : Except Failure (List ToolResult)}
    (h : Prog.Runs (runTools rt turn requested budget) t r) :
    calls AgentOp.isChat t = 0 ∧ calls AgentOp.isEnter t ≤ requested.length
      ∧ calls AgentOp.isCritique t = 0 := by
  have hasked := (runTools_asks rt turn requested budget).steps h
  refine ⟨calls_eq_zero hasked fun o ho => ?_, ?_, calls_eq_zero hasked fun o ho => ?_⟩
  · cases o <;> first | rfl | cases ho
  · rw [calls_eq_sum]
    exact (runTools_enters rt turn requested budget).steps h
  · cases o <;> first | rfl | cases ho

/-- The calls that run are no more than the tool budget has left. -/
theorem allowedCalls_length_le (s : LoopState) (c : ChatCompletion) :
    ((allowedCalls s c).length : ℤ) ≤ s.tracker.remainingToolCalls := by
  have hnonneg : 0 ≤ s.tracker.remainingToolCalls := le_max_left _ _
  rw [allowedCalls, takeInt, if_pos hnonneg, List.length_take]
  omega

end Parts

/-- The counts of `h` stay within the caps of `budget`. -/
structure WithinCaps (budget : Budget) (h : List AgentEvent) : Prop where
  chats : (calls AgentOp.isChat h : ℤ) ≤ max 0 budget.maxSteps
  enters : (calls AgentOp.isEnter h : ℤ) ≤ max 0 budget.maxToolCalls
  critiques : (calls AgentOp.isCritique h : ℤ) ≤ max 0 budget.maxCritiqueRounds

/-- The tracker of `s` has counted what happened in `h`. -/
structure Metered (budget : Budget) (h : List AgentEvent) (s : LoopState) : Prop where
  budget_eq : s.tracker.budget = budget
  chats : (calls AgentOp.isChat h : ℤ) = s.tracker.steps
  enters : (calls AgentOp.isEnter h : ℤ) ≤ s.tracker.toolCalls
  critiques : (calls AgentOp.isCritique h : ℤ) = s.tracker.critiqueRounds
  within : WithinCaps budget h

section Passes

variable {rt : AgentRuntime} {turn : Turn} {budget : Budget} {h t : List AgentEvent}
  {s : LoopState}

theorem WithinCaps.append (hw : WithinCaps budget h) (ht : Uncounted t) :
    WithinCaps budget (h ++ t) := by
  constructor
  · simpa [ht.chats] using hw.chats
  · simpa [ht.enters] using hw.enters
  · simpa [ht.critiques] using hw.critiques

theorem WithinCaps.prepend (hw : WithinCaps budget h) (ht : Uncounted t) :
    WithinCaps budget (t ++ h) := by
  constructor
  · simpa [ht.chats] using hw.chats
  · simpa [ht.enters] using hw.enters
  · simpa [ht.critiques] using hw.critiques

/-- The planner is called with a step left. -/
theorem Metered.chat (hm : Metered budget h s) (hleft : s.tracker.steps < budget.maxSteps)
    (elapsed : ℚ) (messages : List Message) (tools : Option (List ToolSpec))
    (r : Except Failure ChatCompletion) :
    Metered budget (h ++ [⟨.elapsed, elapsed⟩, ⟨.chat messages tools, r⟩]) (stepped s) := by
  have hchats := hm.chats
  refine ⟨hm.budget_eq, ?_, ?_, ?_, ?_, ?_, ?_⟩
  · simpa [AgentOp.isChat, stepped] using hm.chats
  · simpa [AgentOp.isEnter, stepped] using hm.enters
  · simpa [AgentOp.isCritique, stepped] using hm.critiques
  · have hnext : (calls AgentOp.isChat (h ++ [⟨.elapsed, elapsed⟩, ⟨.chat messages tools, r⟩])
        : ℤ) = s.tracker.steps + 1 := by simpa [AgentOp.isChat] using hchats
    omega
  · simpa [AgentOp.isEnter] using hm.within.enters
  · simpa [AgentOp.isCritique] using hm.within.critiques

/-- The critic is called with a round left. -/
theorem Metered.critique (hm : Metered budget h s) (hopen : s.tracker.canCritique = true)
    (messages : List Message) (r : Except Failure ChatCompletion) :
    Metered budget (h ++ [⟨.critique messages, r⟩]) (critiqued s) := by
  have hleft : s.tracker.critiqueRounds < budget.maxCritiqueRounds := by
    simpa [BudgetTracker.canCritique, hm.budget_eq] using hopen
  have hcritiques := hm.critiques
  refine ⟨hm.budget_eq, ?_, ?_, ?_, ?_, ?_, ?_⟩
  · simpa [AgentOp.isChat, critiqued] using hm.chats
  · simpa [AgentOp.isEnter, critiqued] using hm.enters
  · simpa [AgentOp.isCritique, critiqued] using hm.critiques
  · simpa [AgentOp.isChat] using hm.within.chats
  · simpa [AgentOp.isEnter] using hm.within.enters
  · have hnext : (calls AgentOp.isCritique (h ++ [⟨.critique messages, r⟩]) : ℤ)
        = s.tracker.critiqueRounds + 1 := by simpa [AgentOp.isCritique] using hcritiques
    omega

/-- A state whose tracker has the same counters. -/
theorem Metered.congr {s' : LoopState} (hm : Metered budget h s)
    (hbudget : s'.tracker.budget = s.tracker.budget) (hsteps : s'.tracker.steps = s.tracker.steps)
    (htools : s'.tracker.toolCalls = s.tracker.toolCalls)
    (hrounds : s'.tracker.critiqueRounds = s.tracker.critiqueRounds) : Metered budget h s' where
  budget_eq := hbudget.trans hm.budget_eq
  chats := hsteps ▸ hm.chats
  enters := htools ▸ hm.enters
  critiques := hrounds ▸ hm.critiques
  within := hm.within

theorem Metered.charged (hm : Metered budget h s) (c : ChatCompletion) :
    Metered budget h (charged s c) :=
  hm.congr rfl rfl rfl rfl

theorem Metered.drafted (hm : Metered budget h s) (c : ChatCompletion) :
    Metered budget h (drafted (AgentRuntime.charged s c) c) :=
  (hm.charged c).congr rfl rfl rfl rfl

variable [Runtime]

/-- The tools run within what the tool budget has left. -/
theorem Metered.tools (hm : Metered budget h s) {c : ChatCompletion}
    {r : Except Failure (List ToolResult)}
    (ht : Prog.Runs (runTools rt turn (allowedCalls s c) s.tracker) t r)
    (hleft : s.tracker.toolCalls < budget.maxToolCalls) :
    WithinCaps budget (h ++ t)
      ∧ ∀ results, Metered budget (h ++ t) (acted turn s c (allowedCalls s c) results) := by
  obtain ⟨hchat, henter, hcritique⟩ := runTools_calls ht
  have hentered := hm.enters
  have hlength := allowedCalls_length_le s c
  rw [BudgetTracker.remainingToolCalls, hm.budget_eq] at hlength
  have hw : WithinCaps budget (h ++ t) := by
    constructor
    · simpa [hchat] using hm.within.chats
    · rw [calls_append]
      omega
    · simpa [hcritique] using hm.within.critiques
  refine ⟨hw, fun results => ⟨hm.budget_eq, ?_, ?_, ?_, hw⟩⟩
  · simpa [hchat, acted] using hm.chats
  · simp only [calls_append, acted, BudgetTracker.chargeToolCalls_toolCalls]
    omega
  · simpa [hcritique, acted] using hm.critiques

theorem planned_metered {r : Except Failure ChatCompletion} {x : LoopState ⊕ LoopExit}
    (hm : Metered budget h s) (hleft : s.tracker.toolCalls < budget.maxToolCalls)
    (hp : Planned rt turn s r t x) :
    WithinCaps budget (h ++ t) ∧ ∀ s', x = .inl s' → Metered budget (h ++ t) s' := by
  cases hp with
  | deadline => exact ⟨by simpa using hm.within, by simp⟩
  | fallbackLate exn outcome => exact ⟨hm.within.append ⟨rfl, rfl, rfl⟩, by simp⟩
  | fallback exn outcome u answer hu =>
      have hclosed := (fallbackAnswer_asks rt (plannerFailedEnd rt turn s) "llm_unavailable"
        outcome).steps hu
      have hend : Uncounted u := uncounted_of_ending fun e he =>
        AgentOp.isEnding_of_isClosing (hclosed e he)
      have hasked : Uncounted [⟨.answer turn.question turn.principal, outcome⟩,
        ⟨.deadline, false⟩] := ⟨rfl, rfl, rfl⟩
      exact ⟨by simpa using (hm.within.append hasked).append hend, by simp⟩
  | toolsFailed c u failure hcalls hu =>
      exact ⟨((hm.charged c).tools hu hleft).1, by simp⟩
  | acted c u results hcalls hu =>
      obtain ⟨hw, hnext⟩ := (hm.charged c).tools hu hleft
      refine ⟨hw, ?_⟩
      rintro s' ⟨⟩
      exact hnext results
  | nudged c hcalls hdraft =>
      refine ⟨by simpa using hm.within, ?_⟩
      rintro s' ⟨⟩
      rw [List.append_nil]
      exact (hm.drafted c).congr rfl rfl rfl rfl
  | exhausted c hcalls hdraft hspent => exact ⟨by simpa using hm.within, by simp⟩
  | criticFailed c hcalls hdraft hopen failure =>
      exact ⟨((hm.drafted c).critique hopen _ _).within, by simp⟩
  | unreadable c hcalls hdraft hopen judgement exn hparse =>
      exact ⟨((hm.drafted c).critique hopen _ _).within, by simp⟩
  | approved c hcalls hdraft hopen judgement verdict hparse hverdict =>
      exact ⟨((hm.drafted c).critique hopen _ _).within, by simp⟩
  | rejected c hcalls hdraft hopen judgement verdict hparse hverdict =>
      have hjudged := (hm.drafted c).critique hopen
        (criticMessages rt turn s (strip c.text)) (.ok judgement)
      refine ⟨hjudged.within, ?_⟩
      rintro s' ⟨⟩
      exact hjudged.congr rfl rfl rfl rfl

/-- One pass keeps the counts within the caps, and the counters true to the counts if
the loop goes on. -/
theorem pass_metered {x : LoopState ⊕ LoopExit} (hm : Metered budget h s)
    (hp : Pass rt turn s t x) :
    WithinCaps budget (h ++ t) ∧ ∀ s', x = .inl s' → Metered budget (h ++ t) s' := by
  cases hp with
  | spent _ => exact ⟨by simpa using hm.within, by simp⟩
  | late elapsed _ _ => exact ⟨hm.within.append ⟨rfl, rfl, rfl⟩, by simp⟩
  | planned elapsed r u _ hopen htime hplanned =>
      obtain ⟨hsteps, htools, -, -⟩ := (BudgetTracker.not_spent_iff _).mp hopen
      rw [hm.budget_eq] at hsteps htools
      have hchat := hm.chat hsteps elapsed s.messages (offered turn) r
      simpa using planned_metered hchat htools hplanned

theorem planned_tracker {r : Except Failure ChatCompletion} {s' : LoopState}
    (hp : Planned rt turn s r t (.inl s')) :
    s'.tracker.budget = s.tracker.budget ∧ s'.tracker.steps = s.tracker.steps := by
  cases hp with
  | acted => exact ⟨rfl, rfl⟩
  | nudged => exact ⟨rfl, rfl⟩
  | rejected => exact ⟨rfl, rfl⟩

/-- A pass after which the loop goes on has used a step the budget had left. -/
theorem pass_tracker {s' : LoopState} (hp : Pass rt turn s t (.inl s')) :
    s'.tracker.budget = s.tracker.budget ∧ s'.tracker.steps = s.tracker.steps + 1
      ∧ s.tracker.steps < s.tracker.budget.maxSteps := by
  cases hp with
  | planned elapsed r u _ hopen htime hplanned =>
      obtain ⟨hbudget, hsteps⟩ := planned_tracker hplanned
      exact ⟨hbudget, hsteps, ((BudgetTracker.not_spent_iff _).mp hopen).1⟩

end Passes

section Turns

variable {budget : Budget}

theorem withinCaps_nil : WithinCaps budget [] :=
  ⟨le_max_left _ _, le_max_left _ _, le_max_left _ _⟩

variable {rt : AgentRuntime} {turn : Turn}

theorem start_metered : Metered budget [] (start rt turn budget) where
  budget_eq := rfl
  chats := rfl
  enters := le_rfl
  critiques := rfl
  within := withinCaps_nil

variable [Runtime]

/-- The loop ends by itself before the bound on its rounds is reached. -/
theorem loop_exits {t : List AgentEvent} {r : Option LoopExit}
    (h : Prog.Runs (Prog.iterate (iteration rt turn) (budget.maxSteps.toNat + 1)
      (start rt turn budget)) t r) : r.isSome := by
  refine Prog.iterate_exits (I := fun s : LoopState => s.tracker.budget = budget)
    (μ := fun s => (budget.maxSteps - s.tracker.steps).toNat) ?_ rfl ?_ h
  · intro s t s' hs ht
    obtain ⟨hbudget, hsteps, hleft⟩ := pass_tracker (iteration_pass ht)
    refine ⟨hbudget.trans hs, ?_⟩
    rw [hs] at hleft
    omega
  · simp [start]

theorem loop_within_caps {t : List AgentEvent} {exit : LoopExit} {n : ℕ}
    (h : Prog.Runs (Prog.iterate (iteration rt turn) n (start rt turn budget)) t (some exit)) :
    WithinCaps budget t := by
  obtain ⟨t₁, s, t₂, rfl, hm, hlast⟩ := Prog.runs_iterate (I := Metered budget)
    (fun h s t s' hm ht => (pass_metered hm (iteration_pass ht)).2 s' rfl) start_metered h
  exact (pass_metered hm (iteration_pass hlast)).1

/-- A whole turn ends, within the caps of its effective budget. -/
theorem turn_within {question : String} {principal : Principal} {caller : Option Budget}
    {t : List AgentEvent} {r : Option (Except Exn AgentAnswer)}
    (h : Prog.Runs (run rt question principal caller) t r) :
    r.isSome ∧ WithinCaps ((caller.getD rt.budget).clamp rt.budget) t := by
  cases run_cases h with
  | unlisted traceId version u exn hu =>
      have hlisted := uncounted_of_listing ((specs_asks rt.tools rt.allowEgress).steps hu)
      have hopened : Uncounted [⟨.startTrace, traceId⟩, ⟨.activeIndexVersion, version⟩] :=
        ⟨rfl, rfl, rfl⟩
      exact ⟨rfl, by simpa using (withinCaps_nil.append hopened).append hlisted⟩
  | unfinished turn pre loop hopen hloop => simpa using loop_exits hloop
  | finished turn pre loop post exit out hopen hloop hleave =>
      have hend := uncounted_of_ending ((leave_asks rt turn exit).steps hleave)
      exact ⟨rfl, ((loop_within_caps hloop).append hend).prepend hopen.uncounted⟩

/-- Whatever its collaborators answer, a turn ends, and over the whole turn the planner,
`execute` and the critic are called at most as often as the smaller of the caller's and
the server's budget says. -/
theorem run_terminates (rt : AgentRuntime) (question : String) (principal : Principal)
    (budget : Option Budget) (env : Prog.Env AgentOp AgentResp) :
    let caller := budget.getD rt.budget
    let turn := run rt question principal budget
    (turn.result env).isSome
      ∧ (calls AgentOp.isChat (turn.trace env) : ℤ)
        ≤ max 0 (min caller.maxSteps rt.budget.maxSteps)
      ∧ (calls AgentOp.isEnter (turn.trace env) : ℤ)
        ≤ max 0 (min caller.maxToolCalls rt.budget.maxToolCalls)
      ∧ (calls AgentOp.isCritique (turn.trace env) : ℤ)
        ≤ max 0 (min caller.maxCritiqueRounds rt.budget.maxCritiqueRounds) := by
  intro caller turn
  obtain ⟨hsome, hchats, henters, hcritiques⟩ := turn_within (Prog.runs_trace env turn)
  exact ⟨hsome, hchats, henters, hcritiques⟩

end Turns

end Rag
