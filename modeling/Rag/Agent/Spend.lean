import Rag.Agent.Asks
import Mathlib.Algebra.Group.Prod

/-!
What a turn spends and what it reports.

The caps on tokens and cost are sampled between passes, and one pass holds up to two
completions and the tools of one of them. So the planner starts below both caps, and what
follows it in its pass may start above them by that one completion. The same accounting
says what the answer reports: every completion, unless the turn left through the
planner-error branch, which reports none of them.
-/

namespace Rag

open Py Interaction AgentRuntime

/-- Prompt tokens, completion tokens, total tokens and cost. -/
abbrev Tally : Type := ℤ × ℤ × ℤ × ℚ

def Usage.tally (usage : Usage) : Tally :=
  (usage.promptTokens, usage.completionTokens, usage.totalTokens, usage.costUsd)

@[simp] theorem Usage.tally_add (u v : Usage) : (u + v).tally = u.tally + v.tally := rfl

@[simp] theorem tally_noUsage (rt : AgentRuntime) : rt.noUsage.tally = 0 := rfl

/-- What the planner or the critic returned. -/
def completionUsage : AgentEvent → Tally
  | ⟨.chat _ _, .ok completion⟩ => completion.usage.tally
  | ⟨.critique _, .ok completion⟩ => completion.usage.tally
  | _ => 0

/-- The usage of every completion in `t`. -/
def usageIn (t : List AgentEvent) : Tally := (t.map completionUsage).sum

def tokensIn (t : List AgentEvent) : ℤ := (usageIn t).2.2.1

/-- The usage of the event, where it is a completion. -/
def AgentEvent.spends : AgentEvent → Option Usage
  | ⟨.chat _ _, .ok completion⟩ => some completion.usage
  | ⟨.critique _, .ok completion⟩ => some completion.usage
  | _ => none

/-- The floating-point sum of the costs of the completions, in their order. -/
def costIn (t : List AgentEvent) : PyFloat :=
  (t.filterMap AgentEvent.spends).foldl (fun sum usage => sum + .finite usage.costUsd) 0

/-- The events of no model. -/
def AgentOp.isModel (o : AgentOp) : Bool := o.isChat || o.isCritique

section UsageIn

@[simp] theorem usageIn_nil : usageIn [] = 0 := rfl

@[simp] theorem usageIn_cons (e : AgentEvent) (t : List AgentEvent) :
    usageIn (e :: t) = completionUsage e + usageIn t := by
  simp [usageIn]

@[simp] theorem usageIn_append (t u : List AgentEvent) :
    usageIn (t ++ u) = usageIn t + usageIn u := by
  simp [usageIn]

theorem completionUsage_eq (e : AgentEvent) :
    completionUsage e = e.spends.elim 0 Usage.tally := by
  unfold completionUsage AgentEvent.spends
  split <;> rfl

theorem usageIn_eq_zero {t : List AgentEvent} (h : ∀ e ∈ t, e.spends = none) :
    usageIn t = 0 := by
  induction t with
  | nil => rfl
  | cons e t ih =>
      have hhead := h e List.mem_cons_self
      have htail := ih fun e' he => h e' (List.mem_cons_of_mem _ he)
      rw [usageIn_cons, completionUsage_eq, hhead, htail, Option.elim_none, add_zero]

theorem costIn_append_idle (h : List AgentEvent) {t : List AgentEvent}
    (ht : ∀ e ∈ t, e.spends = none) : costIn (h ++ t) = costIn h := by
  have hnothing : t.filterMap AgentEvent.spends = [] := List.filterMap_eq_nil_iff.mpr ht
  rw [costIn, List.filterMap_append, hnothing, List.append_nil, costIn]

theorem costIn_append_completion (h : List AgentEvent) {e : AgentEvent} {usage : Usage}
    (he : e.spends = some usage) : costIn (h ++ [e]) = costIn h + .finite usage.costUsd := by
  rw [costIn, List.filterMap_append, List.foldl_append, ← costIn]
  simp [he]

/-- However many costs are charged, their sum is a number. -/
theorem costIn_ne_nan (t : List AgentEvent) : costIn t ≠ .nan := by
  induction t using List.reverseRecOn with
  | nil => intro hnan; cases hnan
  | append_singleton t e ih =>
      cases he : e.spends with
      | none =>
          rw [costIn_append_idle t (by simpa using he)]
          exact ih
      | some usage =>
          rw [costIn_append_completion t he]
          exact PyFloat.add_finite_ne_nan ih _

end UsageIn

theorem AgentOp.not_model_of_tooling {o : AgentOp} (h : o.isTooling = true) :
    o.isModel = false := by
  cases o <;> first | rfl | cases h

/-- The tracker and the usage of `s` hold every completion in `h`. -/
structure Accounted (budget : Budget) (h : List AgentEvent) (s : LoopState) : Prop where
  budget_eq : s.tracker.budget = budget
  tokens : s.tracker.tokens = tokensIn h
  cost : s.tracker.costUsd = costIn h
  usage : s.usage.tally = usageIn h

/-- The pipeline answered the planner-error branch in time. -/
def AgentEvent.abandons : AgentEvent → Bool
  | ⟨.deadline, late⟩ => !late
  | _ => false

/-- A turn that left through the planner-error branch. -/
def Abandoned (t : List AgentEvent) : Prop := ∃ e ∈ t, e.abandons = true

/-- The books are balanced and the planner-error branch has not returned. -/
structure Carried (budget : Budget) (h : List AgentEvent) (s : LoopState) : Prop
    extends Accounted budget h s where
  kept : ∀ e ∈ h, e.abandons = false

/-- The fallback's part of what `answer` should report. -/
def fallbackUsage (t : List AgentEvent) (answer : AgentAnswer) : Tally :=
  if answer.fallbackUsed then
    match lastOutcome t with
    | some (.ok fallback) => fallback.usage.tally
    | _ => 0
  else 0

section Books

variable {budget : Budget} {h t : List AgentEvent} {s s' : LoopState}

theorem Carried.append (hc : Carried budget h s)
    (ht : ∀ e ∈ t, e.spends = none ∧ e.abandons = false) : Carried budget (h ++ t) s := by
  have hidle : ∀ e ∈ t, e.spends = none := fun e he => (ht e he).1
  have hnothing : usageIn t = 0 := usageIn_eq_zero hidle
  refine ⟨⟨hc.budget_eq, ?_, ?_, ?_⟩, ?_⟩
  · simp [tokensIn, hnothing, hc.tokens]
  · rw [costIn_append_idle h hidle, hc.cost]
  · simp [hnothing, hc.usage]
  · intro e he
    rcases List.mem_append.mp he with he | he
    · exact hc.kept e he
    · exact (ht e he).2

theorem Carried.congr (hc : Carried budget h s) (htracker : s'.tracker.budget = s.tracker.budget)
    (htokens : s'.tracker.tokens = s.tracker.tokens)
    (hcost : s'.tracker.costUsd = s.tracker.costUsd) (husage : s'.usage = s.usage) :
    Carried budget h s' where
  budget_eq := htracker.trans hc.budget_eq
  tokens := htokens.trans hc.tokens
  cost := hcost.trans hc.cost
  usage := husage ▸ hc.usage
  kept := hc.kept

/-- A completion is charged to the tracker and to the usage of the turn. -/
theorem Carried.charge (hc : Carried budget h s) {e : AgentEvent} {usage : Usage}
    (he : e.spends = some usage) (hkept : e.abandons = false)
    (htracker : s'.tracker.budget = s.tracker.budget)
    (htokens : s'.tracker.tokens = s.tracker.tokens + usage.totalTokens)
    (hcost : s'.tracker.costUsd = s.tracker.costUsd + .finite usage.costUsd)
    (husage : s'.usage = s.usage + usage) : Carried budget (h ++ [e]) s' where
  budget_eq := htracker.trans hc.budget_eq
  tokens := by
    simp [tokensIn, completionUsage_eq, he, htokens, hc.tokens, Usage.tally]
  cost := by rw [costIn_append_completion h he, hcost, hc.cost]
  usage := by simp [completionUsage_eq, he, husage, hc.usage]
  kept := by
    intro e' he'
    rcases List.mem_append.mp he' with he' | he'
    · exact hc.kept e' he'
    · rw [List.mem_singleton.mp he']
      exact hkept

end Books

def UnderCaps (budget : Budget) (h : List AgentEvent) : Prop :=
  tokensIn h < budget.maxTokens ∧ costIn h < .finite budget.maxCostUsd

/-- Planner calls, critic calls and tool executions. -/
def AgentOp.isSpending : AgentOp → Bool
  | .chat _ _ => true
  | .critique _ => true
  | .enter _ => true
  | .runTool _ _ _ _ => true
  | _ => false

/-- The planner starts below both caps. The critic and the tools start in a pass whose
planner call started below both, and nothing but that call has completed since. -/
def StartsUnder (budget : Budget) (h : List AgentEvent) (e : AgentEvent) : Prop :=
  match e.op with
  | .chat _ _ => UnderCaps budget h
  | .critique _ | .enter _ | .runTool _ _ _ _ =>
      ∃ h₁ planned h₂, h = h₁ ++ planned :: h₂ ∧ planned.op.isChat = true ∧ UnderCaps budget h₁
        ∧ ∀ e' ∈ h₂, e'.op.isModel = false
  | _ => True

section Starts

variable {budget : Budget} {h t : List AgentEvent}

theorem startsUnder_of_chat {planned e : AgentEvent} (hchat : planned.op.isChat = true)
    (hunder : UnderCaps budget h) (ht : ∀ e' ∈ t, e'.op.isModel = false)
    (he : e.op.isChat = false) : StartsUnder budget (h ++ planned :: t) e := by
  unfold StartsUnder
  split
  · rename_i heq
    rw [heq] at he
    cases he
  · exact ⟨h, planned, t, rfl, hchat, hunder, ht⟩
  · exact ⟨h, planned, t, rfl, hchat, hunder, ht⟩
  · exact ⟨h, planned, t, rfl, hchat, hunder, ht⟩
  · trivial

/-- After the planner's completion, the models are not asked before the last event. -/
theorem everywhere_after_chat {planned : AgentEvent} (hchat : planned.op.isChat = true)
    (hunder : UnderCaps budget h) (ht : ∀ e ∈ t, e.op.isModel = false) :
    Everywhere (StartsUnder budget) (h ++ [planned]) t := by
  rw [everywhere_iff]
  rintro pre e post rfl
  have hquiet : ∀ e' ∈ pre, e'.op.isModel = false := fun e' he' => ht e' (by simp [he'])
  have he : e.op.isModel = false := ht e (by simp)
  have hstart := startsUnder_of_chat (e := e) hchat hunder hquiet
    (by simp [AgentOp.isModel] at he; exact he.1)
  simpa using hstart

theorem everywhere_idle (ht : ∀ e ∈ t, ∀ h, StartsUnder budget h e) :
    Everywhere (StartsUnder budget) h t := by
  rw [everywhere_iff]
  rintro pre e post rfl
  exact ht e (by simp) _

theorem startsUnder_of_ending {e : AgentEvent} (he : e.op.isEnding = true) (h : List AgentEvent) :
    StartsUnder budget h e := by
  obtain ⟨op, resp⟩ := e
  cases op <;> trivial

theorem startsUnder_of_outside {e : AgentEvent} (he : e.op.isOutside = true)
    (h : List AgentEvent) : StartsUnder budget h e := by
  obtain ⟨op, resp⟩ := e
  cases op <;> trivial

end Starts

/-- How the books stand after a pass. -/
def Left (budget : Budget) (h : List AgentEvent) : LoopState ⊕ LoopExit → Prop
  | .inl s => Carried budget h s
  | .inr (.stopped s _) => Carried budget h s
  | .inr (.deadline s) => Carried budget h s
  | .inr (.raised s exn) => exn.isTimeout = true → Carried budget h s
  | .inr (.returned answer) =>
      Abandoned h ∧ answer.usage.tally = fallbackUsage h answer

section Passes

variable {rt : AgentRuntime} {turn : Turn} {budget : Budget} {h t : List AgentEvent}
  {s : LoopState}

theorem idle_of_tooling (ht : ∀ e ∈ t, e.op.isTooling = true) :
    ∀ e ∈ t, e.spends = none ∧ e.abandons = false := by
  rintro ⟨op, resp⟩ he
  have hop := ht _ he
  cases op <;> first | exact ⟨rfl, rfl⟩ | cases hop

theorem idle_of_ending (ht : ∀ e ∈ t, e.op.isEnding = true) :
    ∀ e ∈ t, e.spends = none ∧ e.abandons = false := by
  rintro ⟨op, resp⟩ he
  have hop := ht _ he
  cases op <;> first | exact ⟨rfl, rfl⟩ | cases hop

theorem idle_of_listing (ht : ∀ e ∈ t, e.op.isListing = true) :
    ∀ e ∈ t, e.spends = none ∧ e.abandons = false := by
  rintro ⟨op, resp⟩ he
  have hop := ht _ he
  cases op <;> first | exact ⟨rfl, rfl⟩ | cases hop

/-- The fallback reports the usage it was handed and its own. -/
theorem fallbackAnswer_usage {e : TurnEnd} {reason : String} {outcome : Except Exn Answer}
    {answer : AgentAnswer} (question : String) (principal : Principal) (t : List AgentEvent)
    (ha : Prog.Runs (fallbackAnswer rt e reason outcome) t answer) (between : List AgentEvent)
    (hbetween : ∀ e ∈ between, pipelineOutcome e = none) :
    answer.usage.tally = e.usage.tally
      + fallbackUsage (h ++ ⟨.answer question principal, outcome⟩ :: (between ++ t)) answer := by
  have hclosed := pipelineOutcome_of_closing ((fallbackAnswer_asks rt e reason _).steps ha)
  have hlast := lastOutcome_append_answer h question principal outcome (t := between ++ t) (by
    intro e' he'
    rcases List.mem_append.mp he' with he' | he'
    · exact hbetween e' he'
    · exact hclosed e' he')
  obtain ⟨hdegrades, husage⟩ := fallbackAnswer_runs ha
  cases outcome with
  | error exn =>
      obtain ⟨-, -, hfallback⟩ := hdegrades
      simp [fallbackUsage, husage, hfallback]
  | ok fallback =>
      obtain ⟨-, -, -, hfallback⟩ := hdegrades
      simp [fallbackUsage, hlast, husage, hfallback]

/-- The planner's completion is charged before anything else happens. -/
theorem Carried.charged (hc : Carried budget h s) (messages : List Message)
    (tools : Option (List ToolSpec)) (c : ChatCompletion) :
    Carried budget (h ++ [⟨.chat messages tools, .ok c⟩]) (charged s c) :=
  hc.charge rfl rfl rfl rfl rfl rfl

/-- The critic's completion is charged once its verdict has been read. -/
theorem Carried.judged (hc : Carried budget h s) (c judgement : ChatCompletion)
    (draft : String) (verdict : Verdict) (messages : List Message) :
    Carried budget (h ++ [⟨.critique messages, .ok judgement⟩])
      (judged (critiqued (drafted s c)) draft verdict judgement.usage) :=
  hc.charge rfl rfl rfl rfl rfl rfl

variable [Runtime]

theorem Carried.tools (hc : Carried budget h s) {requested : List ToolCall}
    {tracker : BudgetTracker} {r : Except Failure (List ToolResult)}
    (ht : Prog.Runs (runTools rt turn requested tracker) t r) : Carried budget (h ++ t) s :=
  hc.append (idle_of_tooling ((runTools_asks rt turn requested tracker).steps ht))

theorem planned_left {r : Except Failure ChatCompletion} {x : LoopState ⊕ LoopExit}
    (hc : Carried budget h s) (messages : List Message) (tools : Option (List ToolSpec))
    (hp : Planned rt turn s r t x) :
    Left budget (h ++ ⟨.chat messages tools, r⟩ :: t) x := by
  cases hp with
  | deadline => exact hc.append (by simp [AgentEvent.spends, AgentEvent.abandons])
  | fallbackLate exn outcome =>
      exact hc.append (by simp [AgentEvent.spends, AgentEvent.abandons])
  | fallback exn outcome u answer hu =>
      refine ⟨⟨⟨.deadline, false⟩, by simp, rfl⟩, ?_⟩
      have husage := fallbackAnswer_usage
        (h := h ++ [⟨.chat messages tools, .error (.raised exn)⟩]) turn.question turn.principal
        u hu [⟨.deadline, false⟩] (by simp [pipelineOutcome])
      simpa [plannerFailedEnd] using husage
  | toolsFailed c u failure hcalls hu =>
      have hleft : Carried budget (h ++ ⟨.chat messages tools, .ok c⟩ :: t)
          (AgentRuntime.charged s c) := by
        simpa using (hc.charged messages tools c).tools hu
      cases failure with
      | deadline => exact hleft
      | raised exn => exact fun _ => hleft
  | acted c u results hcalls hu =>
      have hleft : Carried budget (h ++ ⟨.chat messages tools, .ok c⟩ :: t)
          (AgentRuntime.charged s c) := by
        simpa using (hc.charged messages tools c).tools hu
      exact hleft.congr rfl rfl rfl rfl
  | nudged c hcalls hdraft => exact (hc.charged messages tools c).congr rfl rfl rfl rfl
  | exhausted c hcalls hdraft hspent => exact (hc.charged messages tools c).congr rfl rfl rfl rfl
  | criticFailed c hcalls hdraft hopen failure =>
      have hasked := (hc.charged messages tools c).append
        (t := [⟨.critique (criticMessages rt turn s (strip c.text)), .error failure⟩])
        (by simp [AgentEvent.spends, AgentEvent.abandons])
      rw [List.append_assoc] at hasked
      cases failure with
      | deadline => exact hasked.congr rfl rfl rfl rfl
      | raised exn => exact fun _ => hasked.congr rfl rfl rfl rfl
  | unreadable c hcalls hdraft hopen judgement exn hparse =>
      intro htimeout
      rw [parseVerdict_error_isTimeout hparse] at htimeout
      cases htimeout
  | approved c hcalls hdraft hopen judgement verdict hparse hverdict =>
      have hleft := (hc.charged messages tools c).judged c judgement (strip c.text) verdict
        (criticMessages rt turn s (strip c.text))
      rw [List.append_assoc] at hleft
      exact hleft
  | rejected c hcalls hdraft hopen judgement verdict hparse hverdict =>
      have hleft := (hc.charged messages tools c).judged c judgement (strip c.text) verdict
        (criticMessages rt turn s (strip c.text))
      rw [List.append_assoc] at hleft
      exact hleft.congr rfl rfl rfl rfl

theorem planned_starts {r : Except Failure ChatCompletion} {x : LoopState ⊕ LoopExit}
    (hunder : UnderCaps budget h) (messages : List Message) (tools : Option (List ToolSpec))
    (hp : Planned rt turn s r t x) :
    Everywhere (StartsUnder budget) (h ++ [⟨.chat messages tools, r⟩]) t := by
  have hcritique : ∀ m judgement, Everywhere (StartsUnder budget) (h ++ [⟨.chat messages tools, r⟩])
      [⟨.critique m, judgement⟩] := by
    intro m judgement
    exact ⟨startsUnder_of_chat rfl hunder (by simp) rfl, trivial⟩
  have htools : ∀ requested tracker out, Prog.Runs (runTools rt turn requested tracker) t out →
      Everywhere (StartsUnder budget) (h ++ [⟨.chat messages tools, r⟩]) t := by
    intro requested tracker out hu
    have hasked := (runTools_asks rt turn requested tracker).steps hu
    exact everywhere_after_chat rfl hunder fun e he => AgentOp.not_model_of_tooling (hasked e he)
  cases hp with
  | deadline => trivial
  | fallbackLate exn outcome => exact ⟨trivial, trivial, trivial⟩
  | fallback exn outcome u answer hu =>
      refine ⟨trivial, trivial, everywhere_idle fun e he => ?_⟩
      have hclosed := (fallbackAnswer_asks rt _ _ outcome).steps hu e he
      exact startsUnder_of_ending (AgentOp.isEnding_of_isClosing hclosed)
  | toolsFailed c u failure hcalls hu => exact htools _ _ _ hu
  | acted c u results hcalls hu => exact htools _ _ _ hu
  | nudged => trivial
  | exhausted => trivial
  | criticFailed => exact hcritique _ _
  | unreadable => exact hcritique _ _
  | approved => exact hcritique _ _
  | rejected => exact hcritique _ _

/-- One pass: where it starts spending, and how it leaves the books. -/
theorem pass_left {x : LoopState ⊕ LoopExit} (hc : Carried budget h s)
    (hp : Pass rt turn s t x) :
    Everywhere (StartsUnder budget) h t ∧ Left budget (h ++ t) x := by
  cases hp with
  | spent _ =>
      refine ⟨trivial, ?_⟩
      rw [List.append_nil]
      exact hc
  | late elapsed _ _ =>
      exact ⟨⟨trivial, trivial⟩, hc.append (by simp [AgentEvent.spends, AgentEvent.abandons])⟩
  | planned elapsed r u _ hopen htime hplanned =>
      obtain ⟨-, -, htokens, hcost⟩ := (BudgetTracker.not_spent_iff _).mp hopen
      have hsampled : Carried budget (h ++ [⟨.elapsed, elapsed⟩]) s :=
        hc.append (by simp [AgentEvent.spends, AgentEvent.abandons])
      have hunder : UnderCaps budget (h ++ [⟨.elapsed, elapsed⟩]) := by
        have hnumber := costIn_ne_nan (h ++ [⟨.elapsed, elapsed⟩])
        rw [← hsampled.cost] at hnumber
        rw [UnderCaps, ← hsampled.tokens, ← hsampled.cost, ← hsampled.budget_eq]
        exact ⟨htokens, (PyFloat.not_le (by simp) hnumber).mp hcost⟩
      refine ⟨⟨trivial, hunder, planned_starts hunder _ _ hplanned⟩, ?_⟩
      have hstepped : Carried budget (h ++ [⟨.elapsed, elapsed⟩]) (stepped s) :=
        hsampled.congr rfl rfl rfl rfl
      simpa using planned_left hstepped s.messages (offered turn) hplanned

end Passes

/-- The state after an empty draft of seven tokens. -/
def bareNudged : LoopState :=
  nudged (drafted (charged (stepped bareStart) (completionOf "" 7)) (completionOf "" 7))
    (completionOf "" 7)

theorem bareNudged_open : bareNudged.tracker.spent = false := by
  decide +kernel

/-- The planner spends seven tokens and then fails, and so does the pipeline. -/
theorem bare_abandoned [Runtime] (exn : Exn) : ∃ env, ∃ answer : AgentAnswer,
    let turn := run bareRuntime bareTurn.question bareTurn.principal none
    turn.result env = some (.ok answer)
      ∧ usageIn (turn.trace env) = (0, 0, 7, 0) ∧ Abandoned (turn.trace env) := by
  have hnudged : Pass bareRuntime bareTurn bareStart _ _ :=
    .planned 0 (.ok (completionOf "" 7)) _ _ bareStart_open (by decide)
      (.nudged _ rfl (by decide))
  obtain ⟨answer, hclosed⟩ := refusal_runs bareRuntime
    (plannerFailedEnd bareRuntime bareTurn (stepped bareNudged)) "llm_unavailable" exn "v1"
    (by decide)
  have hfailed : Pass bareRuntime bareTurn bareNudged _ _ :=
    .planned 0 (.error (.raised exn)) _ _ bareNudged_open (by decide)
      (.fallback exn (.error exn) _ answer hclosed)
  have hrun := run_runs none bare_opening
    (Prog.iterate_next (pass_runs hnudged) (Prog.iterate_exit (pass_runs hfailed))) (.refl _)
  obtain ⟨env, htrace, hresult⟩ := hrun.exists_env
  refine ⟨env, answer, hresult, ?_, ?_⟩
  · rw [htrace]
    simp [completionUsage, completionOf, Usage.tally]
  · rw [htrace]
    exact ⟨⟨.deadline, false⟩, by simp, rfl⟩

section Turns

variable {rt : AgentRuntime} {turn : Turn} {question : String} {principal : Principal}
  {caller : Option Budget} {pre h t : List AgentEvent}

theorem Opening.idle (hopen : Opening rt question principal turn pre) :
    ∀ e ∈ pre, e.spends = none ∧ e.abandons = false := by
  obtain ⟨u, hu, rfl⟩ := hopen.events
  have hlisted := idle_of_listing ((specs_asks rt.tools rt.allowEgress).steps hu)
  simpa [AgentEvent.spends, AgentEvent.abandons] using hlisted

/-- The loop is entered with balanced books. -/
theorem Opening.carried (hopen : Opening rt question principal turn pre) (budget : Budget) :
    Carried budget pre (start rt turn budget) := by
  have hstart : Carried budget [] (start rt turn budget) :=
    ⟨⟨rfl, rfl, rfl, rfl⟩, by simp⟩
  simpa using hstart.append hopen.idle

variable [Runtime]

theorem turn_starts {r : Option (Except Exn AgentAnswer)}
    (hr : Prog.Runs (run rt question principal caller) t r) :
    Everywhere (StartsUnder ((caller.getD rt.budget).clamp rt.budget)) [] t := by
  refine run_everywhere (I := fun _ => Carried _) ?_ (fun _ _ hopen => hopen.carried _) ?_ hr
  · exact fun h e he => startsUnder_of_outside he h
  · intro turn h s t x hc hp
    obtain ⟨hstarts, hleft⟩ := pass_left hc hp
    refine ⟨hstarts, ?_⟩
    rintro s' rfl
    exact hleft

/-- Every planner call of a turn starts below the token and the dollar cap. A critic call
or a tool starts in a pass whose planner call did, with no completion but that one in
between. -/
theorem spending_starts_under_caps (rt : AgentRuntime) (question : String)
    (principal : Principal) (budget : Option Budget) (env : Prog.Env AgentOp AgentResp) :
    Everywhere (StartsUnder ((budget.getD rt.budget).clamp rt.budget)) []
      ((run rt question principal budget).trace env) :=
  turn_starts (Prog.runs_trace env _)

omit [Runtime] in
/-- The planner's draft uses up the token budget, and the critic is still asked. -/
theorem critic_starts_over_caps : ¬ ∀ [Runtime] (rt : AgentRuntime) (question : String)
    (principal : Principal) (budget : Option Budget) (env : Prog.Env AgentOp AgentResp),
    Everywhere (fun h e => e.op.isSpending = true →
      UnderCaps ((budget.getD rt.budget).clamp rt.budget) h) []
      ((run rt question principal budget).trace env) := by
  intro h
  let _ := Runtime.ascii
  obtain ⟨messages, tools, asked, hrun⟩ := bare_critic_raises 20000 (valueError "critic") rfl
  obtain ⟨env, htrace, -⟩ := hrun.exists_env
  have hall := h bareRuntime bareTurn.question bareTurn.principal none env
  rw [htrace] at hall
  obtain ⟨-, -, -, -, hcritic, -⟩ := hall
  have htokens : (20000 : ℤ) < 20000 := (hcritic rfl).1
  omega

/-- What `_finalize` reports is what the loop had accounted for. -/
theorem finalize_usage {budget : Budget} {s : LoopState} {stop : StopReason}
    {answer : AgentAnswer} (hc : Carried budget h s)
    (ha : Prog.Runs (finalize rt turn s stop) t answer) :
    answer.usage.tally = usageIn (h ++ t) + fallbackUsage (h ++ t) answer := by
  have hidle : usageIn t = 0 := usageIn_eq_zero fun e he =>
    (idle_of_ending ((finalize_asks rt turn s stop).steps ha) e he).1
  rw [usageIn_append, hidle, add_zero, ← hc.usage]
  rcases finalize_runs ha with ⟨husage, hfallback, -, -, -⟩ | ⟨outcome, u, e, reason, rfl, he, hu⟩
  · simp [husage, fallbackUsage, hfallback]
  · have husage := fallbackAnswer_usage (h := h) turn.question turn.principal u hu [] (by simp)
    rw [husage, he]
    rfl

/-- How the answer's usage and the trace relate at the end of a turn. -/
theorem left_usage {budget : Budget} {exit : LoopExit} {answer : AgentAnswer}
    (hleft : Left budget h (.inr exit)) (hleave : Prog.Runs (leave rt turn exit) t (.ok answer)) :
    ((∀ e ∈ h ++ t, e.abandons = false)
        ∧ answer.usage.tally = usageIn (h ++ t) + fallbackUsage (h ++ t) answer)
      ∨ Abandoned (h ++ t) ∧ answer.usage.tally = fallbackUsage (h ++ t) answer := by
  have hend := idle_of_ending ((leave_asks rt turn exit).steps hleave)
  have hfinal : ∀ s stop, Carried budget h s → Prog.Runs (finalize rt turn s stop) t answer →
      (∀ e ∈ h ++ t, e.abandons = false)
        ∧ answer.usage.tally = usageIn (h ++ t) + fallbackUsage (h ++ t) answer :=
    fun s stop hc ha => ⟨(hc.append hend).kept, finalize_usage hc ha⟩
  have hout := leave_runs hleave
  cases exit with
  | stopped s stop =>
      obtain ⟨a, ⟨⟩, ha⟩ := hout
      exact Or.inl (hfinal s stop hleft ha)
  | deadline s =>
      obtain ⟨a, ⟨⟩, ha⟩ := hout
      exact Or.inl (hfinal s _ hleft ha)
  | raised s exn =>
      rcases hout with ⟨htimeout, a, ⟨⟩, ha⟩ | ⟨-, -, ⟨⟩⟩
      exact Or.inl (hfinal s _ (hleft htimeout) ha)
  | returned a =>
      obtain ⟨rfl, ⟨⟩⟩ := hout
      rw [List.append_nil]
      exact Or.inr hleft

theorem turn_usage {r : AgentAnswer}
    (hr : Prog.Runs (run rt question principal caller) t (some (.ok r))) :
    ((∀ e ∈ t, e.abandons = false) ∧ r.usage.tally = usageIn t + fallbackUsage t r)
      ∨ Abandoned t ∧ r.usage.tally = fallbackUsage t r := by
  cases run_cases hr with
  | finished turn pre loop post exit out hopen hl hleave =>
      obtain ⟨t₁, s, t₂, rfl, hc, hlast⟩ := Prog.runs_iterate (I := Carried _)
        (fun h s t s' hc ht => (pass_left hc (iteration_pass ht)).2) (hopen.carried _) hl
      have hleft := (pass_left hc (iteration_pass hlast)).2
      simpa using left_usage hleft hleave

/-- An answer reports every completion of the planner and the critic, and the fallback's
usage when it was used, exactly if the turn did not leave through the planner-error
branch with something already spent. -/
theorem usage_accounted_iff (rt : AgentRuntime) (question : String) (principal : Principal)
    (budget : Option Budget) (env : Prog.Env AgentOp AgentResp) (answer : AgentAnswer)
    (h : (run rt question principal budget).result env = some (.ok answer)) :
    let t := (run rt question principal budget).trace env
    answer.usage.tally = usageIn t + fallbackUsage t answer
      ↔ (Abandoned t → usageIn t = 0) := by
  intro t
  have hruns := Prog.runs_trace env (run rt question principal budget)
  rw [h] at hruns
  rcases turn_usage hruns with ⟨hkept, husage⟩ | ⟨hlost, husage⟩
  · refine iff_of_true husage ?_
    rintro ⟨e, he, habandons⟩
    rw [hkept e he] at habandons
    cases habandons
  · rw [husage]
    rw [right_eq_add]
    exact ⟨fun hnothing _ => hnothing, fun hnothing => hnothing hlost⟩

omit [Runtime] in
theorem usage_accounted_iff_bare : ∃ env, ∃ answer : AgentAnswer,
    let _ := Runtime.ascii
    let turn := run bareRuntime bareTurn.question bareTurn.principal none
    turn.result env = some (.ok answer)
      ∧ answer.usage.tally ≠ usageIn (turn.trace env) + fallbackUsage (turn.trace env) answer := by
  let _ := Runtime.ascii
  obtain ⟨env, answer, hresult, husage, hlost⟩ := bare_abandoned (valueError "down")
  have hexact := usage_accounted_iff bareRuntime bareTurn.question bareTurn.principal none env
    answer hresult
  refine ⟨env, answer, hresult, fun hbalance => ?_⟩
  have hnothing := hexact.mp hbalance hlost
  rw [husage] at hnothing
  cases hnothing

omit [Runtime] in
/-- The tokens of the completion before the planner failed are missing from the answer. -/
theorem planner_failure_drops_usage : ¬ ∀ [Runtime] (rt : AgentRuntime) (question : String)
    (principal : Principal) (budget : Option Budget) (env : Prog.Env AgentOp AgentResp)
    (answer : AgentAnswer), (run rt question principal budget).result env = some (.ok answer) →
      answer.usage.tally = usageIn ((run rt question principal budget).trace env)
        + fallbackUsage ((run rt question principal budget).trace env) answer := by
  intro h
  let _ := Runtime.ascii
  obtain ⟨env, answer, hresult, husage, hlost⟩ := bare_abandoned (valueError "down")
  have hbalance := h bareRuntime bareTurn.question bareTurn.principal none env answer hresult
  have hruns := Prog.runs_trace env (run bareRuntime bareTurn.question bareTurn.principal none)
  rw [hresult] at hruns
  rcases turn_usage hruns with ⟨hkept, -⟩ | ⟨-, hreported⟩
  · obtain ⟨e, he, habandons⟩ := hlost
    rw [hkept e he] at habandons
    cases habandons
  · rw [hreported, right_eq_add, husage] at hbalance
    cases hbalance

end Turns

end Rag
