import Rag.Agent.Approval
import Rag.Agent.Transcript
import Rag.Lib.Totals

/-!
The passages in the messages of the planner.

The ledger deduplicates the sources of a turn and renders them under `max_evidence_chars`,
but the loop renders it once, before there is any source. What the planner reads later are
the tool messages, each with the whole content of its result. So the passages in a message
list are as long as what the tools and the result cache have returned with sources so far,
and the budget bounds them in the runs in which the tools keep to it by themselves.
-/

namespace Rag

open Py Interaction AgentRuntime

/-- The result hands source passages to the planner. -/
def ToolResult.hasPassages (result : ToolResult) : Bool := result.ok && !result.sources.isEmpty

def ToolResult.passageChars (result : ToolResult) : ℕ :=
  if result.hasPassages then result.content.length else 0

/-- The results behind the tool messages of `s`, in their order. -/
def shownResults (s : LoopState) : List ToolResult := s.steps.flatMap AgentStep.toolResults

/-- The tool messages of `s` that carry source passages. -/
def passageMessages (s : LoopState) : List Message :=
  ((shownResults s).filter ToolResult.hasPassages).map toolMessage

/-- Their total length. -/
def evidenceChars (s : LoopState) : ℕ :=
  ((passageMessages s).map fun message => message.content.length).sum

/-- The passages that a tool or the result cache returns. -/
def returnedChars : AgentEvent → ℕ
  | ⟨.runTool _ _ _ _, .ok result⟩ => result.passageChars
  | ⟨.toolCacheGet _, .ok (some result)⟩ => result.passageChars
  | _ => 0

/-- What has been returned at each planner call of `t`, when `n` characters were before. -/
def charsAtCalls : ℕ → List AgentEvent → List ℕ
  | _, [] => []
  | n, e :: t => (if e.op.isChat then [n] else []) ++ charsAtCalls (n + returnedChars e) t

/-- By each planner call of `t` the tools have returned at most `maxChars` characters with
sources. -/
def ReturnedWithin (maxChars : ℤ) (t : List AgentEvent) : Prop :=
  ∀ n ∈ charsAtCalls 0 t, (n : ℤ) ≤ maxChars

theorem mem_charsAtCalls {n m : ℕ} {t : List AgentEvent} :
    m ∈ charsAtCalls n t ↔ ∃ h e after, t = h ++ e :: after ∧ e.op.isChat = true
      ∧ m = n + (h.map returnedChars).sum := by
  induction t generalizing n with
  | nil => simp [charsAtCalls]
  | cons e t ih =>
      rw [charsAtCalls, List.mem_append, ih]
      constructor
      · rintro (hhere | ⟨h, e', after, rfl, hchat, rfl⟩)
        · split_ifs at hhere with hchat
          · exact ⟨[], e, t, rfl, hchat, by simpa using hhere⟩
          · cases hhere
        · exact ⟨e :: h, e', after, rfl, hchat, by rw [List.map_cons, List.sum_cons]; omega⟩
      · rintro ⟨h, e', after, hsplit, hchat, rfl⟩
        cases h with
        | nil =>
            obtain ⟨rfl, rfl⟩ := List.cons.inj hsplit
            exact Or.inl (by simp [hchat])
        | cons _ h =>
            obtain ⟨rfl, rfl⟩ := List.cons.inj hsplit
            exact Or.inr ⟨h, e', after, rfl, hchat, by rw [List.map_cons, List.sum_cons]; omega⟩

theorem evidenceChars_eq (s : LoopState) :
    evidenceChars s = ((shownResults s).map ToolResult.passageChars).sum := by
  rw [evidenceChars, passageMessages]
  induction shownResults s with
  | nil => rfl
  | cons result rest ih =>
      rw [List.map_cons, List.sum_cons, ← ih, List.filter_cons, ToolResult.passageChars]
      by_cases hresult : result.hasPassages = true
      · have hok : result.ok = true := (Bool.and_eq_true_iff.mp hresult).1
        simp [hresult, toolMessage, hok]
      · simp [hresult]

section Tools

/-- A result that has been counted is all its call is worth. -/
theorem returned_accounts {n : ℕ} {result : ToolResult} (h : n = result.passageChars) :
    Prog.Accounts returnedChars ToolResult.passageChars
      (pure (.ok result) : AgentProg (Except Failure ToolResult)) n := by
  rintro other ⟨⟩
  exact h

/-- The passages a lookup in the result cache finds. -/
def foundChars : Except Failure (Option ToolResult) → ℕ
  | .ok (some cached) => cached.passageChars
  | _ => 0

theorem cachedResult_totals (registry : ToolRegistry) (key : ToolKey) :
    Prog.Totals returnedChars (fun n found => n = foundChars found) (cachedResult registry key)
      0 := by
  unfold cachedResult
  split_ifs
  · rintro (exn | _ | cached)
    · rfl
    · rfl
    · exact Nat.zero_add _
  · rfl

theorem storeResult_accounts (registry : ToolRegistry) (key : ToolKey) (result : ToolResult) :
    Prog.Accounts returnedChars ToolResult.passageChars (storeResult registry key result)
      result.passageChars := by
  unfold storeResult
  split_ifs
  · rintro (exn | _)
    · exact Prog.accounts_error _ _
    · exact returned_accounts rfl
  · exact returned_accounts rfl

variable [Runtime] (registry : ToolRegistry) (allowEgress : Bool) (principal : Principal)
  (indexVersion : String) (call : ToolCall) (budget : BudgetTracker)

theorem runChecked_accounts (arguments : List (String × Json)) :
    Prog.Accounts returnedChars ToolResult.passageChars
      (runChecked registry principal indexVersion call arguments budget) 0 := by
  unfold runChecked Prog.Accounts
  dsimp only
  rw [Prog.totals_bind]
  refine (cachedResult_totals registry _).mono ?_
  rintro n (failure | _ | cached) rfl
  · exact Prog.accounts_error _ _
  · rintro ((exn | _) | result)
    · exact returned_accounts rfl
    · exact Prog.accounts_error _ _
    · change Prog.Totals _ _ _ (0 + (call.identify result).passageChars)
      rw [Nat.zero_add]
      exact storeResult_accounts registry _ (call.identify result)
  · exact returned_accounts rfl

/-- A call is worth what the tool or the cache returns for it. -/
theorem execute_accounts :
    Prog.Accounts returnedChars ToolResult.passageChars
      (execute registry allowEgress principal indexVersion call budget) 0 := by
  rintro ⟨⟩
  change Prog.Accounts _ _ (dispatch registry allowEgress principal indexVersion call budget) 0
  unfold dispatch
  split
  · exact returned_accounts rfl
  · split_ifs
    · exact returned_accounts rfl
    · rintro (exn | _ | _)
      · exact Prog.accounts_error _ _
      · exact returned_accounts rfl
      · dsimp only
        split
        · split_ifs
          · exact returned_accounts rfl
          · exact Prog.accounts_error _ _
        · exact runChecked_accounts registry principal indexVersion call budget _

/-- The results of one batch of calls are worth what was returned while they ran. -/
theorem runTools_returned {rt : AgentRuntime} {turn : Turn} {requested : List ToolCall}
    {u : List AgentEvent} {results : List ToolResult}
    (h : Prog.Runs (runTools rt turn requested budget) u (.ok results)) :
    (u.map returnedChars).sum = (results.map ToolResult.passageChars).sum := by
  refine Prog.gather_accounts (fun _ => rfl) ?_ h
  intro p hp
  obtain ⟨call, -, rfl⟩ := List.mem_map.mp hp
  exact execute_accounts rt.tools rt.allowEgress turn.principal turn.indexVersion call budget

end Tools

/-- What the planner is shown in `s` is what has been returned in `h`. -/
structure ShownIn (h : List AgentEvent) (s : LoopState) : Prop where
  chars : evidenceChars s = (h.map returnedChars).sum
  replies : ((shownResults s).map toolMessage).Sublist s.messages
  others : ∀ message ∈ s.messages, message.role = .tool →
    SaidIn h message ∨ ∃ result ∈ shownResults s, message = toolMessage result

section Loop

variable {h t : List AgentEvent} {s s' : LoopState}

theorem ShownIn.passages (hs : ShownIn h s) : (passageMessages s).Sublist s.messages :=
  (List.filter_sublist.map toolMessage).trans hs.replies

/-- Messages that bring no result, with events that return none. -/
theorem ShownIn.spoken (hs : ShownIn h s) (block : List Message)
    (hresults : shownResults s' = shownResults s) (hmessages : s'.messages = s.messages ++ block)
    (hblock : ∀ message ∈ block, message.role = .tool → SaidIn (h ++ t) message)
    (ht : (t.map returnedChars).sum = 0) : ShownIn (h ++ t) s' where
  chars := by
    rw [evidenceChars_eq, hresults, ← evidenceChars_eq, hs.chars, List.map_append, List.sum_append,
      ht, Nat.add_zero]
  replies := by
    rw [hresults, hmessages]
    exact hs.replies.trans (List.sublist_append_left _ _)
  others := by
    intro message hmessage hrole
    rw [hmessages] at hmessage
    rw [hresults]
    rcases List.mem_append.mp hmessage with hold | hnew
    · exact (hs.others message hold hrole).imp_left SaidIn.append
    · exact Or.inl (hblock message hnew hrole)

/-- A completion with the results of its calls. -/
theorem ShownIn.acted (hs : ShownIn h s) (turn : Turn) {c : ChatCompletion}
    {requested : List ToolCall} {results : List ToolResult} (hsaid : SaidIn (h ++ t) c.message)
    (ht : (t.map returnedChars).sum = (results.map ToolResult.passageChars).sum) :
    ShownIn (h ++ t) (acted turn s c requested results) := by
  have hresults : shownResults (AgentRuntime.acted turn s c requested results)
      = shownResults s ++ results := by simp [shownResults, AgentRuntime.acted]
  refine ⟨?_, ?_, ?_⟩
  · have hchars := hs.chars
    rw [evidenceChars_eq] at hchars
    rw [evidenceChars_eq, hresults, List.map_append, List.sum_append, List.map_append,
      List.sum_append, hchars, ht]
  · rw [hresults, List.map_append]
    exact hs.replies.append (List.sublist_cons_self _ _)
  · intro message hmessage hrole
    rw [hresults]
    rcases List.mem_append.mp hmessage with hold | hnew
    · rcases hs.others message hold hrole with hsaid | ⟨result, hresult, rfl⟩
      · exact Or.inl hsaid.append
      · exact Or.inr ⟨result, List.mem_append_left _ hresult, rfl⟩
    · rcases List.mem_cons.mp hnew with rfl | hreply
      · exact Or.inl hsaid
      · obtain ⟨result, hresult, rfl⟩ := List.mem_map.mp hreply
        exact Or.inr ⟨result, List.mem_append_right _ hresult, rfl⟩

variable [Runtime] {rt : AgentRuntime} {turn : Turn}

theorem planned_shown {r : Except Failure ChatCompletion} (messages : List Message)
    (tools : Option (List ToolSpec)) (hs : ShownIn h s) (hp : Planned rt turn s r t (.inl s')) :
    ShownIn (h ++ ⟨.chat messages tools, r⟩ :: t) s' := by
  have hsaid : ∀ c, r = .ok c → SaidIn (h ++ ⟨.chat messages tools, r⟩ :: t) c.message := by
    rintro c rfl
    exact ⟨messages, tools, c, by simp, rfl⟩
  have hspoken : ∀ (c : ChatCompletion) (request : String), r = .ok c →
      ∀ message ∈ [c.message, { role := .user, content := request }], message.role = .tool →
        SaidIn (h ++ ⟨.chat messages tools, r⟩ :: t) message := by
    intro c request hc message hmessage hrole
    rcases List.mem_pair.mp hmessage with rfl | rfl
    · exact hsaid c hc
    · cases hrole
  cases hp with
  | acted c u results hcalls hu =>
      have hstart : ShownIn h (charged s c) := ⟨hs.chars, hs.replies, hs.others⟩
      exact hstart.acted turn (hsaid c rfl) (by simpa [returnedChars] using runTools_returned _ hu)
  | nudged c hcalls hdraft =>
      exact hs.spoken _ (by simp [shownResults, nudged, drafted, charged]) rfl (hspoken c _ rfl) rfl
  | rejected c hcalls hdraft hopen judgement verdict hparse hverdict =>
      exact hs.spoken _ (by simp [shownResults, rejected, judged, critiqued, drafted, charged]) rfl
        (hspoken c _ rfl) rfl

theorem pass_shown (hs : ShownIn h s) (hp : Pass rt turn s t (.inl s')) : ShownIn (h ++ t) s' := by
  cases hp with
  | planned elapsed r u _ hopen htime hplanned =>
      have hclock : ShownIn (h ++ [⟨.elapsed, elapsed⟩]) (stepped s) :=
        hs.spoken [] rfl (by simp [stepped]) (by simp) rfl
      have hafter := planned_shown s.messages (offered turn) hclock hplanned
      simpa using hafter

end Loop

section Turns

variable [Runtime]

/-- The loop passes from `s` through `h`, and goes on from the last state. -/
inductive Passes (rt : AgentRuntime) (turn : Turn) (s : LoopState) :
    List AgentEvent → LoopState → Prop
  | here : Passes rt turn s [] s
  | pass (h t : List AgentEvent) (s' s'' : LoopState) (hs : Passes rt turn s h s')
      (ht : Prog.Runs (iteration rt turn s') t (.inl s'')) : Passes rt turn s (h ++ t) s''

/-- After `h` the loop of a turn is about to call the planner, in state `s`. -/
def Planning (rt : AgentRuntime) (question : String) (principal : Principal)
    (budget : Option Budget) (h : List AgentEvent) (s : LoopState) : Prop :=
  ∃ turn pre loop elapsed, Opening rt question principal turn pre
    ∧ Passes rt turn (start rt turn ((budget.getD rt.budget).clamp rt.budget)) loop s
    ∧ h = pre ++ (loop ++ [⟨.elapsed, elapsed⟩])

/-- In the turn recorded in `t` the planner is called after `h`, with the messages of `s`. -/
structure PlannerCalled (rt : AgentRuntime) (question : String) (principal : Principal)
    (budget : Option Budget) (t h : List AgentEvent) (s : LoopState) : Prop where
  called : ∃ tools r after, t = h ++ ⟨.chat s.messages tools, r⟩ :: after
  planning : Planning rt question principal budget h s

variable {rt : AgentRuntime} {turn : Turn} {question : String} {principal : Principal}
  {budget : Option Budget} {h t : List AgentEvent} {s : LoopState}

omit [Runtime] in
theorem Opening.shown {pre : List AgentEvent} (hopen : Opening rt question principal turn pre)
    (effective : Budget) : ShownIn pre (start rt turn effective) := by
  obtain ⟨u, hu, rfl⟩ := hopen.events
  have hlisted := (specs_asks rt.tools rt.allowEgress).steps hu
  have hnone : ∀ e ∈ u, returnedChars e = 0 := by
    rintro ⟨op, resp⟩ he
    have hop := hlisted _ he
    cases op <;> first | rfl | cases hop
  refine ⟨?_, List.nil_sublist _, ?_⟩
  · rw [List.map_cons, List.map_cons, List.sum_cons, List.sum_cons, List.map_congr_left hnone]
    simp [evidenceChars, passageMessages, shownResults, start, returnedChars]
  · intro message hmessage hrole
    rcases List.mem_pair.mp hmessage with rfl | rfl <;> cases hrole

theorem Passes.shown {pre loop : List AgentEvent} {s₀ : LoopState} (h₀ : ShownIn pre s₀)
    (hp : Passes rt turn s₀ loop s) : ShownIn (pre ++ loop) s := by
  induction hp with
  | here => simpa using h₀
  | pass h t s' s'' _ ht ih =>
      rw [← List.append_assoc]
      exact pass_shown ih (iteration_pass ht)

/-- What the planner is shown when it is called is what has been returned until then. -/
theorem Planning.shown (hp : Planning rt question principal budget h s) : ShownIn h s := by
  obtain ⟨turn, pre, loop, elapsed, hopen, hloop, rfl⟩ := hp
  have hs := Passes.shown (hopen.shown _) hloop
  rw [← List.append_assoc]
  exact hs.spoken [] rfl (by simp) (by simp) rfl

/-- A planner call, if `e` is one, is made in a state of the loop. -/
def PlansIn (rt : AgentRuntime) (question : String) (principal : Principal) (budget : Option Budget)
    (h : List AgentEvent) (e : AgentEvent) : Prop :=
  ∀ messages tools, e.op = .chat messages tools →
    ∃ s, s.messages = messages ∧ Planning rt question principal budget h s

theorem pass_plans {pre loop : List AgentEvent} {x : LoopState ⊕ LoopExit}
    (hopen : Opening rt question principal turn pre)
    (hloop : Passes rt turn (start rt turn ((budget.getD rt.budget).clamp rt.budget)) loop s)
    (hp : Pass rt turn s t x) :
    Everywhere (PlansIn rt question principal budget) (pre ++ loop) t := by
  cases hp with
  | spent hspent => trivial
  | late elapsed hleft hlate =>
      exact ⟨fun _ _ hop => (by cases hop), trivial⟩
  | planned elapsed r u x hleft htime hplanned =>
      refine ⟨fun _ _ hop => (by cases hop), ?_, ?_⟩
      · rintro messages tools ⟨⟩
        exact ⟨s, rfl, turn, pre, loop, elapsed, hopen, hloop, by simp⟩
      · rw [everywhere_iff]
        rintro before e after rfl messages tools hop
        have hunheard := planned_unheard hplanned e (by simp)
        rw [hop] at hunheard
        cases hunheard

theorem run_plans {r : Option (Except Exn AgentAnswer)}
    (hr : Prog.Runs (run rt question principal budget) t r) :
    Everywhere (PlansIn rt question principal budget) [] t := by
  refine run_everywhere (I := fun turn h s => ∃ pre loop, Opening rt question principal turn pre
    ∧ Passes rt turn (start rt turn ((budget.getD rt.budget).clamp rt.budget)) loop s
    ∧ h = pre ++ loop) ?_ ?_ ?_ hr
  · intro h e houtside messages tools hop
    rw [hop] at houtside
    cases houtside
  · intro turn pre hopen
    exact ⟨pre, [], hopen, .here, by simp⟩
  · rintro turn _ s t x ⟨pre, loop, hopen, hloop, rfl⟩ hp
    refine ⟨pass_plans hopen hloop hp, ?_⟩
    rintro s' rfl
    exact ⟨pre, loop ++ t, hopen, .pass loop t s s' hloop (pass_runs hp), by simp⟩

/-- Every planner call of a turn is made in a state of its loop. -/
theorem planner_called {r : Option (Except Exn AgentAnswer)}
    (hr : Prog.Runs (run rt question principal budget) t r) {e : AgentEvent}
    {after : List AgentEvent} (ht : t = h ++ e :: after) (he : e.op.isChat = true) :
    ∃ s, PlannerCalled rt question principal budget t h s := by
  have hplans := (everywhere_iff _ _).mp (run_plans hr) h e after ht
  obtain ⟨messages, tools, hop⟩ : ∃ messages tools, e.op = .chat messages tools := by
    cases hkind : e.op <;> rw [hkind] at he <;> first | exact ⟨_, _, rfl⟩ | cases he
  obtain ⟨s, rfl, hplanning⟩ := hplans messages tools hop
  obtain ⟨op, resp⟩ := e
  obtain rfl : op = .chat s.messages tools := hop
  exact ⟨s, ⟨tools, resp, after, ht⟩, hplanning⟩

/-- The passages of every planner call stay within a bound exactly if what is returned
does. -/
theorem evidenceChars_le_iff {r : Option (Except Exn AgentAnswer)}
    (hr : Prog.Runs (run rt question principal budget) t r) (maxChars : ℤ) :
    (∀ h s, PlannerCalled rt question principal budget t h s → (evidenceChars s : ℤ) ≤ maxChars)
      ↔ ReturnedWithin maxChars t := by
  constructor
  · intro hall n hn
    obtain ⟨h, e, after, ht, he, rfl⟩ := mem_charsAtCalls.mp hn
    obtain ⟨s, hs⟩ := planner_called hr ht he
    have hbound := hall h s hs
    rw [hs.planning.shown.chars] at hbound
    simpa using hbound
  · intro hwithin h s hs
    obtain ⟨tools, r, after, ht⟩ := hs.called
    rw [hs.planning.shown.chars]
    refine hwithin _ (mem_charsAtCalls.mpr ⟨h, _, after, ht, rfl, ?_⟩)
    rw [Nat.zero_add]

/-- For every turn: the tool messages in a list the planner is called with are those of the
results shown, but for what the planner wrote itself. The ones with source passages stay
within `max_evidence_chars` in every such list if and only if, whenever the planner is called,
the tools and the result cache have returned no more than that. -/
theorem evidence_bounded_iff (rt : AgentRuntime) (question : String) (principal : Principal)
    (budget : Option Budget) (env : Prog.Env AgentOp AgentResp) :
    let t := (run rt question principal budget).trace env
    (∀ h s, PlannerCalled rt question principal budget t h s →
      (passageMessages s).Sublist s.messages
        ∧ ∀ message ∈ s.messages, message.role = .tool →
          SaidIn h message ∨ ∃ result ∈ shownResults s, message = toolMessage result)
    ∧ ((∀ h s, PlannerCalled rt question principal budget t h s →
      (evidenceChars s : ℤ) ≤ rt.maxEvidenceChars) ↔ ReturnedWithin rt.maxEvidenceChars t) := by
  intro t
  refine ⟨fun h s hs => ?_, evidenceChars_le_iff (Prog.runs_trace env _) rt.maxEvidenceChars⟩
  exact ⟨hs.planning.shown.passages, hs.planning.shown.others⟩

end Turns

/-- The planner searches twice, and runs into the deadline when called again. -/
def repeatingAnswers : (o : AgentOp) → AgentResp o
  | .chat messages _ => if messages.length ≤ 4 then .ok searchCompletion else .error .deadline
  | o => searchAnswers foundResult o

/-- Each reply fits the budget and the ledger holds one source, but the replies add up. -/
theorem repeated_search_exceeds : ¬ ∀ (_ : Runtime) (rt : AgentRuntime) (question : String)
    (principal : Principal) (budget : Option Budget) (env : Prog.Env AgentOp AgentResp)
    (h : List AgentEvent) (s : LoopState),
    PlannerCalled rt question principal budget ((run rt question principal budget).trace env) h s →
    (evidenceChars s : ℤ) ≤ rt.maxEvidenceChars := by
  intro hall
  let _ := Runtime.ascii
  let rt : AgentRuntime := { searchRuntime with maxEvidenceChars := 8 }
  let turn := run rt searchTurn.question searchTurn.principal none
  let env : Prog.Env AgentOp AgentResp := fun _ => repeatingAnswers
  have hcalls : charsAtCalls 0 (turn.trace env) = [0, 5, 10] := by decide +kernel
  have hwithin := (evidenceChars_le_iff (Prog.runs_trace env turn) 8).mp
    (hall _ rt searchTurn.question searchTurn.principal none env)
  have hlast := hwithin 10 (by rw [hcalls]; simp)
  omega

end Rag
