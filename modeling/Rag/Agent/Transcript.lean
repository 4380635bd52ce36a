import Rag.Agent.Caps
import Rag.Agent.Veil

/-!
The message lists the planner is called with.

A list grows by one completion at a time: a completion without tool calls, or a
completion with all the replies to its calls. Where the tool budget cuts the calls of a
completion short, its replies are missing, and the budget is spent, so that the list is
never sent. The planner's messages are appended as they are, so a planner that answers with a
tool message of its own adds one to the replies of the runtime.
-/

namespace Rag

open Py Interaction AgentRuntime

/-- The message that answers a tool call. -/
structure RepliesTo (call : ToolCall) (reply : Message) : Prop where
  role : reply.role = .tool
  toolCallId : reply.toolCallId = some call.id
  name : reply.name = some call.name
  toolCalls : reply.toolCalls = []

/-- The planner wrote this message. -/
def SaidIn (h : List AgentEvent) (message : Message) : Prop :=
  ∃ messages tools, ∃ completion : ChatCompletion,
    (⟨.chat messages tools, .ok completion⟩ : AgentEvent) ∈ h ∧ completion.message = message

/-- What follows `calls`: one reply to each, in their order, and behind them no tool
message, unless the planner wrote one itself. -/
def Answered (said : Message → Prop) (calls : List ToolCall) (after : List Message) : Prop :=
  ∃ replies rest, after = replies ++ rest ∧ List.Forall₂ RepliesTo calls replies
    ∧ ∀ next ∈ rest.head?, next.role = .tool → said next

/-- Every message that carries tool calls is followed by the replies to them. -/
def WellFormed (said : Message → Prop) (messages : List Message) : Prop :=
  ∀ before message after, messages = before ++ message :: after → message.toolCalls ≠ [] →
    Answered said message.toolCalls after

section WellFormed

variable {said said' : Message → Prop} {messages : List Message}

theorem replies_without_calls {calls : List ToolCall} {replies : List Message}
    (h : List.Forall₂ RepliesTo calls replies) : ∀ reply ∈ replies, reply.toolCalls = [] := by
  induction h with
  | nil => simp
  | cons hreply _ ih =>
      intro reply hin
      rcases List.mem_cons.mp hin with rfl | hin
      · exact hreply.toolCalls
      · exact ih reply hin

theorem Answered.append {calls : List ToolCall} {after block : List Message}
    (h : Answered said calls after)
    (hblock : ∀ next ∈ block.head?, next.role = .tool → said next) :
    Answered said calls (after ++ block) := by
  obtain ⟨replies, rest, rfl, hreplies, hrest⟩ := h
  refine ⟨replies, rest ++ block, by simp, hreplies, ?_⟩
  cases rest with
  | nil => exact hblock
  | cons m rest => exact hrest

theorem WellFormed.mono (h : WellFormed said messages) (hsaid : ∀ m, said m → said' m) :
    WellFormed said' messages := by
  intro before message after hm hcalls
  obtain ⟨replies, rest, hafter, hreplies, hrest⟩ := h before message after hm hcalls
  exact ⟨replies, rest, hafter, hreplies, fun next hnext hrole => hsaid _ (hrest next hnext hrole)⟩

/-- A message of its own and the replies to it extend a well-formed list. -/
theorem WellFormed.extend (h : WellFormed said messages) {message : Message}
    {replies : List Message} (hown : message.role = .tool → said message)
    (hreplies : List.Forall₂ RepliesTo message.toolCalls replies) :
    WellFormed said (messages ++ message :: replies) := by
  intro before m after hm hcalls
  rcases List.append_eq_append_iff.mp hm with ⟨skipped, rfl, hskipped⟩ | ⟨kept, rfl, hkept⟩
  · cases skipped with
    | nil =>
        obtain ⟨rfl, rfl⟩ := List.cons.inj hskipped
        exact ⟨replies, [], by simp, hreplies, by simp⟩
    | cons d skipped =>
        -- Any other message of the block is a reply, and replies carry no calls.
        obtain ⟨rfl, hreply⟩ := List.cons.inj hskipped
        have hin : m ∈ replies := by simp [hreply]
        exact absurd (replies_without_calls hreplies m hin) hcalls
  · cases kept with
    | nil =>
        obtain ⟨rfl, rfl⟩ := List.cons.inj hkept
        exact ⟨after, [], by simp, hreplies, by simp⟩
    | cons d kept =>
        obtain ⟨rfl, rfl⟩ := List.cons.inj hkept
        refine (h before m kept (by simp) hcalls).append ?_
        rintro next hnext
        cases hnext
        exact hown

theorem WellFormed.snoc (h : WellFormed said messages) (message : Message)
    (hown : message.role = .tool → said message) (hcalls : message.toolCalls = []) :
    WellFormed said (messages ++ [message]) :=
  h.extend hown (hcalls ▸ .nil)

end WellFormed

section Replies

variable [Runtime]

/-- The result carries the identity of its call. -/
def Identifies (call : ToolCall) (result : ToolResult) : Prop :=
  result.callId = call.id ∧ result.name = call.name

omit [Runtime] in
theorem storeResult_identifies (registry : ToolRegistry) (key : ToolKey) {call : ToolCall}
    {result : ToolResult} (h : Identifies call result) :
    Prog.Spec (fun _ _ => True) (fun _ => True) (storeResult registry key result)
      fun r => ∀ x, r = .ok x → Identifies call x := by
  unfold storeResult
  split_ifs
  · refine ⟨trivial, ?_⟩
    rintro (exn | _) - x hx
    · cases hx
    · cases hx
      exact h
  · intro x hx
    cases hx
    exact h

/-- The part of `runChecked` behind a miss. -/
def runFresh (registry : ToolRegistry) (principal : Principal) (call : ToolCall)
    (arguments : List (String × Json)) (budget : BudgetTracker) (key : ToolKey) :
    AgentProg (Except Failure ToolResult) := do
  match ← AgentOp.ask (.runTool call.name arguments principal budget) with
  | .error .deadline => pure (.error .deadline)
  | .error (.raised exn) => pure (.ok (call.failed (exn.name ++ ": " ++ exn.text)))
  | .ok result => storeResult registry key (call.identify result)

theorem runChecked_identifies (registry : ToolRegistry) (principal : Principal)
    (indexVersion : String) (call : ToolCall) (arguments : List (String × Json))
    (budget : BudgetTracker) :
    Prog.Spec (fun _ _ => True) (fun _ => True)
      (runChecked registry principal indexVersion call arguments budget)
      fun r => ∀ x, r = .ok x → Identifies call x := by
  have hrun : ∀ key, Prog.Spec (fun _ _ => True) (fun _ => True)
      (runFresh registry principal call arguments budget key)
      fun r => ∀ x, r = .ok x → Identifies call x := by
    intro key
    refine ⟨trivial, ?_⟩
    rintro ((exn | _) | result) -
    · intro x hx
      cases hx
      exact ⟨rfl, rfl⟩
    · intro x hx
      cases hx
    · exact storeResult_identifies registry key ⟨rfl, rfl⟩
  unfold runChecked cachedResult
  dsimp only
  split_ifs
  · rw [bind_assoc]
    refine ⟨trivial, ?_⟩
    rintro (exn | _ | cached) -
    · intro x hx
      cases hx
    · exact hrun _
    · intro x hx
      cases hx
      exact ⟨rfl, rfl⟩
  · exact hrun _

theorem execute_identifies (registry : ToolRegistry) (allowEgress : Bool) (principal : Principal)
    (indexVersion : String) (call : ToolCall) (budget : BudgetTracker) :
    Prog.Spec (fun _ _ => True) (fun _ => True)
      (execute registry allowEgress principal indexVersion call budget)
      fun r => ∀ x, r = .ok x → Identifies call x := by
  have hfailed : ∀ error, ∀ x,
      (.ok (call.failed error) : Except Failure ToolResult) = .ok x → Identifies call x := by
    intro error x hx
    cases hx
    exact ⟨rfl, rfl⟩
  refine ⟨trivial, fun _ _ => ?_⟩
  change Prog.Spec _ _ (dispatch registry allowEgress principal indexVersion call budget) _
  unfold dispatch
  split
  · exact hfailed _
  · split_ifs
    · exact hfailed _
    · refine ⟨trivial, ?_⟩
      rintro (exn | available) -
      · intro x hx
        cases hx
      · cases available with
        | false => exact hfailed _
        | true =>
            dsimp only
            split
            · split_ifs
              · exact hfailed _
              · intro x hx
                cases hx
            · exact runChecked_identifies _ _ _ _ _ _

/-- The results of a pass are those of its calls, in their order. -/
theorem runTools_identifies {rt : AgentRuntime} {turn : Turn} {requested : List ToolCall}
    {budget : BudgetTracker} {u : List AgentEvent} {results : List ToolResult}
    (h : Prog.Runs (runTools rt turn requested budget) u (.ok results)) :
    List.Forall₂ Identifies requested results := by
  have hchildren : List.Forall₂ (Prog.ReturnsFor (fun _ _ => True) (fun _ => True) Identifies)
      (requested.map fun call =>
        execute rt.tools rt.allowEgress turn.principal turn.indexVersion call budget)
      requested := by
    rw [List.forall₂_map_left_iff, List.forall₂_same]
    intro call _
    exact execute_identifies _ _ _ _ _ _
  have hgathered : Prog.Spec (fun _ _ => True) (fun _ => True)
      (runTools rt turn requested budget)
      fun r => ∀ results, r = .ok results → List.Forall₂ Identifies requested results :=
    Prog.Spec.gather_forall₂ trivial hchildren
  exact (hgathered.runs h fun _ _ => trivial).2 results rfl

omit [Runtime] in
theorem replies_of_results {requested : List ToolCall} {results : List ToolResult}
    (h : List.Forall₂ Identifies requested results) :
    List.Forall₂ RepliesTo requested (results.map toolMessage) := by
  rw [List.forall₂_map_right_iff]
  refine h.imp ?_
  rintro call result ⟨hid, hname⟩
  exact ⟨rfl, congrArg some hid, congrArg some hname, rfl⟩

end Replies

/-- The messages are well formed, or no planner call follows. -/
def Sendable (h : List AgentEvent) (s : LoopState) : Prop :=
  s.tracker.spent = true ∨ WellFormed (SaidIn h) s.messages

/-- A planner call carries a well-formed list. -/
def SendsWellFormed (h : List AgentEvent) (e : AgentEvent) : Prop :=
  match e.op with
  | .chat messages _ => WellFormed (SaidIn h) messages
  | _ => True

section Loop

variable [Runtime] {rt : AgentRuntime} {turn : Turn} {h t : List AgentEvent} {s : LoopState}

omit [Runtime] in
theorem sendsWellFormed_of_unheard (ht : ∀ e ∈ t, e.op.isChat = false) :
    Everywhere SendsWellFormed h t := by
  rw [everywhere_iff]
  rintro pre ⟨op, resp⟩ post rfl
  have hop := ht ⟨op, resp⟩ (by simp)
  cases op <;> trivial

omit [Runtime] in
theorem SaidIn.append {u : List AgentEvent} {m : Message} (hm : SaidIn h m) : SaidIn (h ++ u) m := by
  obtain ⟨messages, tools, completion, hin, rfl⟩ := hm
  exact ⟨messages, tools, completion, List.mem_append_left _ hin, rfl⟩

omit [Runtime] in
/-- Where the budget cuts the calls of a completion short, it is spent. -/
theorem acted_spent {c : ChatCompletion} {results : List ToolResult}
    (hshort : allowedCalls s c ≠ c.toolCalls) :
    (acted turn s c (allowedCalls s c) results).tracker.spent = true := by
  have hleft : 0 ≤ s.tracker.remainingToolCalls := le_max_left _ _
  have hlength : ((allowedCalls s c).length : ℤ) = s.tracker.remainingToolCalls := by
    unfold allowedCalls takeInt at hshort ⊢
    rw [if_pos hleft] at hshort ⊢
    have hcut : s.tracker.remainingToolCalls.toNat < c.toolCalls.length := by
      by_contra hfits
      exact hshort (List.take_of_length_le (by omega))
    rw [List.length_take]
    omega
  have hspent : s.tracker.budget.maxToolCalls
      ≤ s.tracker.toolCalls + ((allowedCalls s c).length : ℤ) := by
    rw [hlength, BudgetTracker.remainingToolCalls]
    omega
  simp [acted, BudgetTracker.spent, hspent]

theorem planned_sendable {r : Except Failure ChatCompletion} {s' : LoopState}
    (hs : WellFormed (SaidIn h) s.messages) (tools : Option (List ToolSpec))
    (hp : Planned rt turn s r t (.inl s')) :
    Sendable (h ++ ⟨.chat s.messages tools, r⟩ :: t) s' := by
  have hkept : WellFormed (SaidIn (h ++ ⟨.chat s.messages tools, r⟩ :: t)) s.messages :=
    hs.mono fun _ hm => hm.append
  have hsaid : ∀ c, r = .ok c →
      SaidIn (h ++ ⟨.chat s.messages tools, r⟩ :: t) c.message := by
    rintro c rfl
    exact ⟨s.messages, tools, c, by simp, rfl⟩
  -- A completion without calls, and then a message of the user.
  have hspoken : ∀ (c : ChatCompletion) (request : String), r = .ok c → c.toolCalls = [] →
      WellFormed (SaidIn (h ++ ⟨.chat s.messages tools, r⟩ :: t))
        (s.messages ++ [c.message, { role := .user, content := request }]) := by
    intro c request hc hcalls
    have hfirst := hkept.snoc _ (fun _ => hsaid c hc) hcalls
    have hsecond := hfirst.snoc { role := .user, content := request }
      (by simp) rfl
    simpa using hsecond
  cases hp with
  | acted c u results hcalls hu =>
      by_cases hall : allowedCalls (charged s c) c = c.toolCalls
      · right
        have hreplies := replies_of_results (runTools_identifies hu)
        rw [hall] at hreplies
        exact hkept.extend (fun _ => hsaid c rfl) hreplies
      · exact Or.inl (acted_spent hall)
  | nudged c hcalls hdraft => exact Or.inr (hspoken c _ rfl hcalls)
  | rejected c hcalls hdraft hopen judgement verdict hparse hverdict =>
      exact Or.inr (hspoken c _ rfl hcalls)

/-- What follows the planner's answer asks no planner. -/
theorem planned_unheard {r : Except Failure ChatCompletion} {x : LoopState ⊕ LoopExit}
    (hp : Planned rt turn s r t x) : ∀ e ∈ t, e.op.isChat = false := by
  have htools : ∀ requested tracker out, Prog.Runs (runTools rt turn requested tracker) t out →
      ∀ e ∈ t, e.op.isChat = false := by
    intro requested tracker out hu e he
    have hasked := (runTools_asks rt turn requested tracker).steps hu e he
    cases hop : e.op <;> rw [hop] at hasked <;> first | rfl | cases hasked
  cases hp with
  | fallback exn outcome u answer hu =>
      intro e he
      rcases List.mem_cons.mp he with rfl | he
      · rfl
      · rcases List.mem_cons.mp he with rfl | he
        · rfl
        · have hclosed := (fallbackAnswer_asks rt _ _ outcome).steps hu e he
          cases hop : e.op <;> rw [hop] at hclosed <;> first | rfl | cases hclosed
  | toolsFailed c u failure hcalls hu => exact htools _ _ _ hu
  | acted c u results hcalls hu => exact htools _ _ _ hu
  | _ => simp [AgentOp.isChat]

theorem pass_sendable {x : LoopState ⊕ LoopExit} (hs : Sendable h s) (hp : Pass rt turn s t x) :
    Everywhere SendsWellFormed h t ∧ ∀ s', x = .inl s' → Sendable (h ++ t) s' := by
  cases hp with
  | spent => exact ⟨trivial, fun s' hx => by cases hx⟩
  | late => exact ⟨⟨trivial, trivial⟩, fun s' hx => by cases hx⟩
  | planned elapsed r u _ hopen htime hplanned =>
      have hformed : WellFormed (SaidIn (h ++ [⟨.elapsed, elapsed⟩])) s.messages := by
        rcases hs with hspent | hformed
        · rw [hopen] at hspent
          cases hspent
        · exact hformed.mono fun _ hm => hm.append
      refine ⟨⟨trivial, hformed, sendsWellFormed_of_unheard (planned_unheard hplanned)⟩, ?_⟩
      rintro s' rfl
      have hsent := planned_sendable (s := stepped s) hformed (offered turn) hplanned
      rw [List.append_assoc] at hsent
      exact hsent

end Loop

/-- In every message list the planner is called with, each message with tool calls is
followed by one tool message for each of its calls, in their order and under their ids and
names, and by no further one of the runtime. -/
theorem transcript_wellFormed [Runtime] (rt : AgentRuntime) (question : String)
    (principal : Principal) (budget : Option Budget) (env : Prog.Env AgentOp AgentResp) :
    Everywhere SendsWellFormed [] ((run rt question principal budget).trace env) := by
  refine run_everywhere (I := fun _ => Sendable) ?_ ?_ (fun _ _ _ _ _ hs hp => pass_sendable hs hp)
    (Prog.runs_trace env _)
  · rintro h ⟨op, resp⟩ he
    cases op <;> trivial
  · intro turn pre _
    right
    have hsystem : WellFormed (SaidIn pre) ([] : List Message) := by
      intro before message after hm
      simp at hm
    have hfirst := hsystem.snoc { role := .system, content := systemPrompt }
      (by simp) rfl
    exact hfirst.snoc _ (by simp) rfl

/-- The planner searches and then answers with an empty tool message of its own. -/
def intrudingAnswers : (o : AgentOp) → AgentResp o
  | .chat messages _ =>
      if messages.length = 2 then .ok searchCompletion
      else if messages.length = 4 then .ok { message := { role := .tool } }
      else .error .deadline
  | o => searchAnswers (hiddenResult "text" "x") o

/-- Who speaks in each message, and how many tools it calls. -/
def shapes (messages : List Message) : List (Role × Nat) :=
  messages.map fun m => (m.role, m.toolCalls.length)

/-- A call with one reply, before another tool message. -/
theorem not_wellFormed_of_shapes {messages : List Message} {rest : List (Role × Nat)}
    (h : shapes messages
      = (.system, 0) :: (.user, 0) :: (.assistant, 1) :: (.tool, 0) :: (.tool, 0) :: rest) :
    ¬ WellFormed (fun _ => False) messages := by
  obtain ⟨system, l₁, rfl, -, h⟩ := List.map_eq_cons_iff.mp h
  obtain ⟨user, l₂, rfl, -, h⟩ := List.map_eq_cons_iff.mp h
  obtain ⟨asking, l₃, rfl, hasking, h⟩ := List.map_eq_cons_iff.mp h
  obtain ⟨reply, l₄, rfl, -, h⟩ := List.map_eq_cons_iff.mp h
  obtain ⟨intruder, l₅, rfl, hintruder, -⟩ := List.map_eq_cons_iff.mp h
  have hcalls : asking.toolCalls.length = 1 := congrArg Prod.snd hasking
  intro hformed
  obtain ⟨replies, others, hafter, hreplies, hothers⟩ :=
    hformed [system, user] asking (reply :: intruder :: l₅) rfl (by
      intro hnone
      rw [hnone] at hcalls
      cases hcalls)
  obtain ⟨only, rfl⟩ := List.length_eq_one_iff.mp (hreplies.length_eq.symm.trans hcalls)
  obtain ⟨-, rfl⟩ := List.cons.inj hafter
  exact hothers intruder rfl (congrArg Prod.fst hintruder)

/-- The reply to the search is followed by a second tool message, the planner's own. -/
theorem planner_writes_tool_message : ¬ ∀ [Runtime] (rt : AgentRuntime) (question : String)
    (principal : Principal) (budget : Option Budget) (env : Prog.Env AgentOp AgentResp),
    ∀ messages ∈ plannerInputs ((run rt question principal budget).trace env),
      WellFormed (fun _ => False) messages := by
  intro h
  let _ := Runtime.ascii
  let inputs := plannerInputs ((run searchRuntime searchTurn.question searchTurn.principal
    none).trace fun _ => intrudingAnswers)
  have hshapes : inputs.getLast?.map shapes
      = some [(.system, 0), (.user, 0), (.assistant, 1), (.tool, 0), (.tool, 0), (.user, 0)] := by
    decide +kernel
  obtain ⟨messages, hlast, hshape⟩ := Option.map_eq_some_iff.mp hshapes
  exact not_wellFormed_of_shapes hshape (h searchRuntime searchTurn.question searchTurn.principal
    none (fun _ => intrudingAnswers) messages (List.mem_of_getLast? hlast))

end Rag
