import Rag.Lib.Attempts
import Rag.Llm.Resilient

/-!
What the two wrappers have in common.

Both work through a plan: every client in turn is called `max_attempts` times with a pause before
each call but its first. The loops of the source do nothing else (`complete_eq`, `chat_eq`), so what
holds of any plan holds of both, and the plans of the two match operation by operation.
-/

namespace Rag

open Interaction Py

/-- The attempts on one client: `n` calls with a pause between any two. -/
def attemptPlan (call : LlmOp) (pause : ℤ → LlmOp) : Nat → List LlmOp
  | 0 => []
  | n + 1 => call :: (List.range n).flatMap fun i : Nat => [pause (i + 1), call]

theorem flatMap_calls (call : LlmOp) (pause : ℤ → LlmOp) (n : Nat) :
    ((List.range n).flatMap fun i : Nat => [call, pause (i + 1)]) ++ [call]
      = call :: (List.range n).flatMap fun i : Nat => [pause (i + 1), call] := by
  induction n with
  | zero => rfl
  | succ n ih =>
      rw [List.range_succ, List.flatMap_append, List.flatMap_append, List.flatMap_singleton,
        List.flatMap_singleton, ← List.cons_append, ← ih]
      simp only [List.append_assoc, List.cons_append, List.nil_append]

/-- The inner loop pauses after every attempt but the last. -/
theorem attempts_flatMap (policy : RetryPolicy) (call : LlmOp) (pause : ℤ → LlmOp) :
    (policy.attempts.flatMap fun attempt =>
      call :: if attempt < policy.maxAttempts then [pause attempt] else [])
      = attemptPlan call pause policy.maxAttempts.toNat := by
  rw [RetryPolicy.attempts, List.flatMap_map]
  cases hn : policy.maxAttempts.toNat with
  | zero => rfl
  | succ n =>
      have hearlier : ((List.range n).flatMap fun i : Nat =>
          call :: if (i : ℤ) + 1 < policy.maxAttempts then [pause ((i : ℤ) + 1)] else [])
          = (List.range n).flatMap fun i : Nat => [call, pause ((i : ℤ) + 1)] := by
        refine List.flatMap_congr ?_
        intro i hi
        have hlt : (i : ℤ) + 1 < policy.maxAttempts := by
          have := List.mem_range.mp hi
          omega
        rw [if_pos hlt]
      have hlast : ¬ (n : ℤ) + 1 < policy.maxAttempts := by omega
      rw [List.range_succ, List.flatMap_append, hearlier, List.flatMap_singleton, if_neg hlast,
        flatMap_calls, attemptPlan]

section Outcomes

variable {α : Type} (outcome : LlmEvent → Option (Except Exn α))

def accepted (e : LlmEvent) : Option α := (outcome e).bind Except.toOption

def failureOf (e : LlmEvent) : Option String :=
  match outcome e with
  | some (.error exn) => some exn.describe
  | _ => none

def noted (lastError : String) (e : LlmEvent) : String := (failureOf outcome e).getD lastError

theorem foldl_noted (t : List LlmEvent) (lastError : String) :
    t.foldl (noted outcome) lastError = (t.filterMap (failureOf outcome)).getLastD lastError := by
  induction t generalizing lastError with
  | nil => rfl
  | cons e t ih =>
      rw [List.foldl_cons, ih, noted]
      cases hfailure : failureOf outcome e with
      | none => rw [List.filterMap_cons_none hfailure, Option.getD_none]
      | some text => rw [List.filterMap_cons_some hfailure, Option.getD_some, List.getLastD_cons]

theorem accepted_eq_none_iff {e : LlmEvent} :
    accepted outcome e = none ↔ ∀ v, outcome e ≠ some (.ok v) := by
  unfold accepted
  cases outcome e with
  | none => simp
  | some r => cases r <;> simp [Except.toOption]

theorem accepted_eq_some_iff {e : LlmEvent} {v : α} :
    accepted outcome e = some v ↔ outcome e = some (.ok v) := by
  unfold accepted
  cases outcome e with
  | none => simp
  | some r => cases r <;> simp [Except.toOption]

variable {outcome} in
theorem accepted_of_error {e : LlmEvent} {exn : Exn} (h : outcome e = some (.error exn)) :
    accepted outcome e = none := by
  rw [accepted, h]
  rfl

variable {outcome} in
theorem noted_of_error {e : LlmEvent} {exn : Exn} (h : outcome e = some (.error exn))
    (lastError : String) : noted outcome lastError e = exn.describe := by
  rw [noted, failureOf, h]
  rfl

/-- What a run makes of the plans of the clients, one for each: it asks a beginning of them, every
attempt before its last event has failed, it returns the value of the first attempt that has not,
and it raises when all of the plans have been asked in vain. -/
structure Retried (plans : List (List LlmOp)) (models : List String) (t : List LlmEvent)
    (result : Except LLMUnavailableError α) : Prop where
  asked : t.map Event.op <+: plans.flatten
  failed : ∀ e ∈ t.dropLast, ∀ v, outcome e ≠ some (.ok v)
  inTurn : ∀ earlier later, plans = earlier ++ later → earlier.flatten.length < t.length →
    (t.take earlier.flatten.length).map Event.op = earlier.flatten
      ∧ ∀ e ∈ t.take earlier.flatten.length, ∀ v, outcome e ≠ some (.ok v)
  returned : ∀ v, result = .ok v ↔ ∃ before e, t = before ++ [e] ∧ outcome e = some (.ok v)
  unavailable : ∀ error, result = .error error ↔ t.map Event.op = plans.flatten
    ∧ (∀ e ∈ t, ∀ v, outcome e ≠ some (.ok v))
    ∧ error = ⟨models, (t.filterMap (failureOf outcome)).getLastD "none"⟩

variable {outcome}

/-- What was asked before the last event was asked in vain, client by client. -/
theorem inTurn_of_failed {plans : List (List LlmOp)} {t : List LlmEvent}
    (hasked : t.map Event.op <+: plans.flatten)
    (hfailed : ∀ e ∈ t.dropLast, ∀ v, outcome e ≠ some (.ok v)) (earlier later : List (List LlmOp))
    (hplans : plans = earlier ++ later) (hlength : earlier.flatten.length < t.length) :
    (t.take earlier.flatten.length).map Event.op = earlier.flatten
      ∧ ∀ e ∈ t.take earlier.flatten.length, ∀ v, outcome e ≠ some (.ok v) := by
  constructor
  · have hprefix : earlier.flatten <+: plans.flatten := by
      rw [hplans, List.flatten_append]
      exact List.prefix_append _ _
    have hbefore : earlier.flatten <+: t.map Event.op :=
      List.prefix_of_prefix_length_le hprefix hasked (by rw [List.length_map]; omega)
    rw [List.map_take]
    exact (List.prefix_iff_eq_take.mp hbefore).symm
  · intro e he
    refine hfailed e ?_
    rw [List.dropLast_eq_take]
    exact (List.take_subset_take_left t (by omega)) he

def finish (models : List String) : α ⊕ String → Except LLMUnavailableError α
  | .inl result => .ok result
  | .inr lastError => .error ⟨models, lastError⟩

theorem retried_of_runs {plans : List (List LlmOp)} {models : List String} {t : List LlmEvent}
    {result : Except LLMUnavailableError α}
    (h : Prog.Runs ((Prog.firstAccepted (accepted outcome) (noted outcome) plans.flatten
      "none").map (finish models)) t result) :
    Retried outcome plans models t result := by
  obtain ⟨x, hrun, rfl⟩ := (Prog.runs_map_iff _ _ _ _).mp h
  cases x with
  | inl v =>
      obtain ⟨before, e, rfl, hasked, hrefused, he⟩ := (Prog.runs_accepted_iff _ _ _ _).mp hrun
      rw [accepted_eq_some_iff] at he
      have hfailed : ∀ e' ∈ (before ++ [e]).dropLast, ∀ v, outcome e' ≠ some (.ok v) := by
        rw [List.dropLast_concat]
        intro e' he'
        exact (accepted_eq_none_iff outcome).mp (hrefused e' he')
      refine ⟨hasked, hfailed, inTurn_of_failed hasked hfailed, ?_, ?_⟩
      · intro w
        constructor
        · intro hw
          obtain rfl := Except.ok.inj hw
          exact ⟨before, e, rfl, he⟩
        · rintro ⟨before', e', hsplit, he'⟩
          obtain rfl := (List.append_singleton_inj.mp hsplit).2
          rw [he] at he'
          exact congrArg Except.ok (Except.ok.inj (Option.some.inj he'))
      · intro error
        constructor
        · intro herror
          cases herror
        · rintro ⟨-, hnone, -⟩
          exact absurd he (hnone e (by simp) v)
  | inr lastError =>
      obtain ⟨hops, hrefused, rfl⟩ := (Prog.runs_exhausted_iff _ _ _ _).mp hrun
      have hall : ∀ e ∈ t, ∀ v, outcome e ≠ some (.ok v) := fun e he =>
        (accepted_eq_none_iff outcome).mp (hrefused e he)
      have hasked : t.map Event.op <+: plans.flatten := hops ▸ List.prefix_rfl
      have hfailed : ∀ e ∈ t.dropLast, ∀ v, outcome e ≠ some (.ok v) := fun e he =>
        hall e (List.dropLast_subset t he)
      refine ⟨hasked, hfailed, inTurn_of_failed hasked hfailed, ?_, ?_⟩
      · intro v
        constructor
        · intro hv
          cases hv
        · rintro ⟨before, e, rfl, he⟩
          exact absurd he (hall e (by simp) v)
      · intro error
        rw [finish, foldl_noted]
        constructor
        · intro herror
          exact ⟨hops, hall, (Except.error.inj herror).symm⟩
        · rintro ⟨-, -, rfl⟩
          rfl

end Outcomes

/-- A late answer is the timeout of the client. -/
def timed [Runtime] {α : Type} (model : String) (timeoutSeconds : ℚ) :
    Except Exn α → Except Exn α
  | .ok result => .ok result
  | .error exn =>
      if exn.isTimeout then .error (llmTimeoutError model timeoutSeconds) else .error exn

section Loops

variable {α : Type} {outcome : LlmEvent → Option (Except Exn α)}

/-- The inner loop of both wrappers over the attempts that are left. -/
def tryAttempts (attempt : LlmProg (Except Exn α)) (pause : ℤ → LlmOp) (maxAttempts : ℤ) :
    List ℤ → String → LlmProg (α ⊕ String)
  | [], lastError => .ret (.inr lastError)
  | number :: rest, _ => attempt >>= fun result =>
      match result with
      | .ok result => .ret (.inl result)
      | .error exn =>
          if number < maxAttempts then
            .call (pause number) fun _ =>
              tryAttempts attempt pause maxAttempts rest exn.describe
          else tryAttempts attempt pause maxAttempts rest exn.describe

/-- The program makes one call and reports how it ended. -/
def Reports (outcome : LlmEvent → Option (Except Exn α)) (attempt : LlmProg (Except Exn α))
    (call : LlmOp) : Prop :=
  ∃ read : LlmResp call → Except Exn α, (∀ answer, outcome ⟨call, answer⟩ = some (read answer))
    ∧ attempt = .call call fun answer => .ret (read answer)

/-- The inner loop works through its calls and pauses. -/
theorem tryAttempts_eq {attempt : LlmProg (Except Exn α)} {call : LlmOp} {pause : ℤ → LlmOp}
    (hattempt : Reports outcome attempt call)
    (hpause : ∀ number answer, outcome ⟨pause number, answer⟩ = none) (maxAttempts : ℤ)
    (attempts : List ℤ) (lastError : String) :
    tryAttempts attempt pause maxAttempts attempts lastError
      = Prog.firstAccepted (accepted outcome) (noted outcome) (attempts.flatMap fun number =>
          call :: if number < maxAttempts then [pause number] else []) lastError := by
  obtain ⟨read, hread, rfl⟩ := hattempt
  induction attempts generalizing lastError with
  | nil => rfl
  | cons number rest ih =>
      rw [List.flatMap_cons, List.cons_append, tryAttempts, Prog.call_bind, Prog.firstAccepted]
      congr 1
      funext answer
      have houtcome := hread answer
      rw [Prog.ret_bind]
      cases hanswer : read answer with
      | ok result =>
          rw [hanswer] at houtcome
          rw [(accepted_eq_some_iff outcome).mpr houtcome]
      | error exn =>
          rw [hanswer] at houtcome
          rw [accepted_of_error houtcome, noted_of_error houtcome]
          dsimp only
          split_ifs with hlast
          · rw [List.singleton_append, Prog.firstAccepted]
            congr 1
            funext pauseEnd
            have hnone := hpause number pauseEnd
            have haccepted : accepted outcome ⟨pause number, pauseEnd⟩ = none := by
              rw [accepted, hnone]
              rfl
            have hnoted : noted outcome exn.describe ⟨pause number, pauseEnd⟩ = exn.describe := by
              rw [noted, failureOf, hnone]
              rfl
            rw [haccepted, hnoted]
            exact ih _
          · exact ih _

end Loops

namespace ResilientLLM

variable [Runtime] (self : ResilientLLM) (prompt : String)

def callOp (client : LLMClient) : LlmOp :=
  if self.policy.timeoutSeconds ≤ 0 then .complete client prompt
  else .completeWithin self.policy.timeoutSeconds client prompt

/-- How an attempt ended. -/
def outcome : LlmEvent → Option (Except Exn (String × Usage))
  | ⟨.complete _ _, answer⟩ => some answer
  | ⟨.completeWithin timeout client _, answer⟩ => some (timed client.modelName timeout answer)
  | _ => none

def plans : List (List LlmOp) :=
  self.chain.map fun client =>
    attemptPlan (self.callOp prompt client) .sleep self.policy.maxAttempts.toNat

theorem attempt_reports (client : LLMClient) :
    Reports outcome (self.attempt prompt client) (self.callOp prompt client) := by
  unfold ResilientLLM.attempt callOp
  by_cases htimeout : self.policy.timeoutSeconds ≤ 0
  · rw [if_pos htimeout]
    simp only [if_pos htimeout]
    exact ⟨id, fun _ => rfl, rfl⟩
  · rw [if_neg htimeout]
    simp only [if_neg htimeout]
    refine ⟨timed client.modelName self.policy.timeoutSeconds, fun _ => rfl, ?_⟩
    refine congrArg (Prog.call _) (funext fun answer => ?_)
    cases answer with
    | ok result => rfl
    | error exn => exact (apply_ite Prog.ret (exn.isTimeout = true) _ _).symm

theorem tryClient_eq (client : LLMClient) (attempts : List ℤ) (lastError : String) :
    self.tryClient prompt client attempts lastError
      = tryAttempts (self.attempt prompt client) .sleep self.policy.maxAttempts attempts
          lastError := by
  induction attempts generalizing lastError with
  | nil => rfl
  | cons number rest ih =>
      rw [tryClient, tryAttempts]
      congr 1
      funext result
      cases result with
      | ok result => rfl
      | error exn =>
          dsimp only
          simp only [ih]
          rfl

theorem tryChain_eq (clients : List LLMClient) (lastError : String) :
    self.tryChain prompt clients lastError
      = (Prog.firstAccepted (accepted outcome) (noted outcome) (clients.map fun client =>
          attemptPlan (self.callOp prompt client) .sleep self.policy.maxAttempts.toNat).flatten
          lastError).map (finish (self.chain.map LLMClient.modelName)) := by
  induction clients generalizing lastError with
  | nil => rfl
  | cons client rest ih =>
      rw [tryChain, tryClient_eq, tryAttempts_eq (self.attempt_reports prompt client)
        (fun _ _ => rfl), attempts_flatMap, List.map_cons, List.flatten_cons,
        Prog.firstAccepted_append, Prog.map, Prog.bind_assoc]
      congr 1
      funext x
      cases x with
      | inl result => rfl
      | inr lastError => exact ih lastError

theorem complete_eq :
    self.complete prompt
      = (Prog.firstAccepted (accepted outcome) (noted outcome) (self.plans prompt).flatten
          "none").map (finish (self.chain.map LLMClient.modelName)) :=
  self.tryChain_eq prompt self.chain "none"

theorem complete_retried (env : Prog.Env LlmOp LlmResp) :
    Retried outcome (self.plans prompt) (self.chain.map LLMClient.modelName)
      ((self.complete prompt).trace env) ((self.complete prompt).result env) := by
  refine retried_of_runs ?_
  rw [← complete_eq]
  exact Prog.runs_trace env _

end ResilientLLM

namespace ResilientChatLLM

variable [Runtime] (self : ResilientChatLLM) (messages : List Message)
  (tools : Option (List ToolSpec))

def callOp (client : ChatLLM) : LlmOp :=
  if self.policy.timeoutSeconds ≤ 0 then .chat client messages tools
  else .chatWithin self.policy.timeoutSeconds client messages tools

/-- How an attempt ended. -/
def outcome : LlmEvent → Option (Except Exn ChatCompletion)
  | ⟨.chat _ _ _, answer⟩ => some answer
  | ⟨.chatWithin timeout client _ _, answer⟩ => some (timed client.modelName timeout answer)
  | _ => none

def plans : List (List LlmOp) :=
  self.chain.map fun client =>
    attemptPlan (self.callOp messages tools client) .asyncSleep self.policy.maxAttempts.toNat

theorem attempt_reports (client : ChatLLM) :
    Reports outcome (self.attempt messages tools client) (self.callOp messages tools client) := by
  unfold ResilientChatLLM.attempt callOp
  by_cases htimeout : self.policy.timeoutSeconds ≤ 0
  · rw [if_pos htimeout]
    simp only [if_pos htimeout]
    exact ⟨id, fun _ => rfl, rfl⟩
  · rw [if_neg htimeout]
    simp only [if_neg htimeout]
    refine ⟨timed client.modelName self.policy.timeoutSeconds, fun _ => rfl, ?_⟩
    refine congrArg (Prog.call _) (funext fun answer => ?_)
    cases answer with
    | ok result => rfl
    | error exn => exact (apply_ite Prog.ret (exn.isTimeout = true) _ _).symm

theorem tryClient_eq (client : ChatLLM) (attempts : List ℤ) (lastError : String) :
    self.tryClient messages tools client attempts lastError
      = tryAttempts (self.attempt messages tools client) .asyncSleep self.policy.maxAttempts
          attempts lastError := by
  induction attempts generalizing lastError with
  | nil => rfl
  | cons number rest ih =>
      rw [tryClient, tryAttempts]
      congr 1
      funext result
      cases result with
      | ok result => rfl
      | error exn =>
          dsimp only
          simp only [ih]
          rfl

theorem tryChain_eq (clients : List ChatLLM) (lastError : String) :
    self.tryChain messages tools clients lastError
      = (Prog.firstAccepted (accepted outcome) (noted outcome) (clients.map fun client =>
          attemptPlan (self.callOp messages tools client) .asyncSleep
            self.policy.maxAttempts.toNat).flatten
          lastError).map (finish (self.chain.map ChatLLM.modelName)) := by
  induction clients generalizing lastError with
  | nil => rfl
  | cons client rest ih =>
      rw [tryChain, tryClient_eq, tryAttempts_eq (self.attempt_reports messages tools client)
        (fun _ _ => rfl), attempts_flatMap, List.map_cons, List.flatten_cons,
        Prog.firstAccepted_append, Prog.map, Prog.bind_assoc]
      congr 1
      funext x
      cases x with
      | inl result => rfl
      | inr lastError => exact ih lastError

theorem chat_eq :
    self.chat messages tools
      = (Prog.firstAccepted (accepted outcome) (noted outcome) (self.plans messages tools).flatten
          "none").map (finish (self.chain.map ChatLLM.modelName)) :=
  self.tryChain_eq messages tools self.chain "none"

theorem chat_retried (env : Prog.Env LlmOp LlmResp) :
    Retried outcome (self.plans messages tools) (self.chain.map ChatLLM.modelName)
      ((self.chat messages tools).trace env) ((self.chat messages tools).result env) := by
  refine retried_of_runs ?_
  rw [← chat_eq]
  exact Prog.runs_trace env _

end ResilientChatLLM

/-- The two wrappers ask the same: of a client of the same name, under the same timeout, or to pause
after the same attempt. -/
inductive SameOp : LlmOp → LlmOp → Prop
  | call {client : LLMClient} {client' : ChatLLM} {prompt : String} {messages : List Message}
      {tools : Option (List ToolSpec)} (h : client.modelName = client'.modelName) :
      SameOp (.complete client prompt) (.chat client' messages tools)
  | callWithin {timeout : ℚ} {client : LLMClient} {client' : ChatLLM} {prompt : String}
      {messages : List Message} {tools : Option (List ToolSpec)}
      (h : client.modelName = client'.modelName) :
      SameOp (.completeWithin timeout client prompt) (.chatWithin timeout client' messages tools)
  | pause (number : ℤ) : SameOp (.sleep number) (.asyncSleep number)

/-- The same was asked, and both calls returned or both raised the same exception. -/
inductive SameEvent : LlmEvent → LlmEvent → Prop
  | call {client : LLMClient} {client' : ChatLLM} {prompt : String} {messages : List Message}
      {tools : Option (List ToolSpec)} {answer : Except Exn (String × Usage)}
      {answer' : Except Exn ChatCompletion} (h : client.modelName = client'.modelName)
      (hanswer : Prog.Same (fun _ _ => True) answer answer') :
      SameEvent ⟨.complete client prompt, answer⟩ ⟨.chat client' messages tools, answer'⟩
  | callWithin {timeout : ℚ} {client : LLMClient} {client' : ChatLLM} {prompt : String}
      {messages : List Message} {tools : Option (List ToolSpec)}
      {answer : Except Exn (String × Usage)} {answer' : Except Exn ChatCompletion}
      (h : client.modelName = client'.modelName)
      (hanswer : Prog.Same (fun _ _ => True) answer answer') :
      SameEvent ⟨.completeWithin timeout client prompt, answer⟩
        ⟨.chatWithin timeout client' messages tools, answer'⟩
  | pause (number : ℤ) : SameEvent ⟨.sleep number, ()⟩ ⟨.asyncSleep number, ()⟩

section Agreement

theorem attemptPlan_same {call call' : LlmOp} {pause pause' : ℤ → LlmOp} (hcall : SameOp call call')
    (hpause : ∀ number, SameOp (pause number) (pause' number)) (n : Nat) :
    List.Forall₂ SameOp (attemptPlan call pause n) (attemptPlan call' pause' n) := by
  cases n with
  | zero => exact .nil
  | succ n =>
      refine .cons hcall ?_
      induction List.range n with
      | nil => exact .nil
      | cons i rest ih => exact .cons (hpause _) (.cons hcall ih)

variable {llm : ResilientLLM} {chatLlm : ResilientChatLLM}

theorem plans_same (hpolicy : chatLlm.policy = llm.policy)
    (hchain : llm.chain.map LLMClient.modelName = chatLlm.chain.map ChatLLM.modelName)
    (prompt : String) (messages : List Message) (tools : Option (List ToolSpec)) :
    List.Forall₂ SameOp (llm.plans prompt).flatten (chatLlm.plans messages tools).flatten := by
  rw [← List.forall₂_eq_eq_eq, List.forall₂_map_left_iff, List.forall₂_map_right_iff] at hchain
  rw [ResilientLLM.plans, ResilientChatLLM.plans, hpolicy]
  generalize llm.chain = clients at hchain ⊢
  generalize chatLlm.chain = clients' at hchain ⊢
  induction hchain with
  | nil => exact .nil
  | @cons client client' rest rest' hname _ ih =>
      rw [List.map_cons, List.map_cons, List.flatten_cons, List.flatten_cons]
      refine List.rel_append (attemptPlan_same ?_ .pause _) ih
      unfold ResilientLLM.callOp ResilientChatLLM.callOp
      rw [hpolicy]
      split_ifs
      · exact .call hname
      · exact .callWithin hname

variable [Runtime]

theorem same_timed {α α' : Type} {answer : Except Exn α} {answer' : Except Exn α'}
    (h : Prog.Same (fun _ _ => True) answer answer') (model : String) (timeout : ℚ) :
    Prog.Same (fun _ _ => True) (timed model timeout answer) (timed model timeout answer') := by
  rcases h.elim with ⟨result, result', rfl, rfl, -⟩ | ⟨exn, rfl, rfl⟩
  · trivial
  · simp only [timed]
    split_ifs <;> rfl

/-- What looks the same ended the same. -/
theorem SameEvent.outcome {e e' : LlmEvent} (h : SameEvent e e') :
    Option.Rel (Prog.Same fun _ _ => True) (ResilientLLM.outcome e)
      (ResilientChatLLM.outcome e') := by
  cases h with
  | call _ hanswer => exact .some hanswer
  | @callWithin timeout client client' _ _ _ _ _ hname hanswer =>
      simp only [ResilientLLM.outcome, ResilientChatLLM.outcome, hname]
      exact .some (same_timed hanswer _ _)
  | pause number => exact .none

theorem SameEvent.accepted {e e' : LlmEvent} (h : SameEvent e e') :
    Option.Rel (fun _ _ => True) (accepted ResilientLLM.outcome e)
      (accepted ResilientChatLLM.outcome e') := by
  have hrel := h.outcome
  unfold Rag.accepted
  generalize ResilientLLM.outcome e = x at hrel
  generalize ResilientChatLLM.outcome e' = x' at hrel
  cases hrel with
  | none => exact .none
  | some hsame =>
      rcases hsame.elim with ⟨result, result', rfl, rfl, -⟩ | ⟨exn, rfl, rfl⟩
      · exact .some trivial
      · exact .none

theorem SameEvent.noted {e e' : LlmEvent} (h : SameEvent e e') (lastError : String) :
    noted ResilientLLM.outcome lastError e = noted ResilientChatLLM.outcome lastError e' := by
  have hrel := h.outcome
  unfold Rag.noted failureOf
  generalize ResilientLLM.outcome e = x at hrel
  generalize ResilientChatLLM.outcome e' = x' at hrel
  cases hrel with
  | none => rfl
  | some hsame =>
      rcases hsame.elim with ⟨result, result', rfl, rfl, -⟩ | ⟨exn, rfl, rfl⟩ <;> rfl

theorem wrappers_lockstep (hpolicy : chatLlm.policy = llm.policy)
    (hchain : llm.chain.map LLMClient.modelName = chatLlm.chain.map ChatLLM.modelName)
    (prompt : String) (messages : List Message) (tools : Option (List ToolSpec)) :
    Prog.Lockstep SameOp SameEvent (Prog.Same fun _ _ => True) (llm.complete prompt)
      (chatLlm.chat messages tools) := by
  rw [ResilientLLM.complete_eq, ResilientChatLLM.chat_eq, hchain]
  have hnoted : ∀ s s' e e', s = s' → SameEvent e e' →
      noted ResilientLLM.outcome s e = noted ResilientChatLLM.outcome s' e' := by
    rintro s _ e e' rfl h
    exact h.noted s
  refine (Prog.Lockstep.firstAccepted (I := Eq) (fun e e' h => h.accepted) hnoted
    (plans_same hpolicy hchain prompt messages tools) rfl).bind ?_
  intro x x' hx
  cases hx with
  | inl _ => exact .ret trivial
  | inr hlast =>
      rw [hlast]
      exact .ret rfl

end Agreement

/-- How many attempts have been made. -/
def attemptsMade : List LlmEvent → Nat
  | [] => 0
  | ⟨.sleep _, _⟩ :: rest => attemptsMade rest
  | ⟨.asyncSleep _, _⟩ :: rest => attemptsMade rest
  | _ :: rest => attemptsMade rest + 1

/-- The clients answer every attempt as the script of their kind says. -/
def played (script : Nat → Except Exn (String × Usage)) (script' : Nat → Except Exn ChatCompletion) :
    Prog.Env LlmOp LlmResp := fun history o =>
  match o with
  | .complete _ _ => script (attemptsMade history)
  | .completeWithin _ _ _ => script (attemptsMade history)
  | .sleep _ => ()
  | .chat _ _ _ => script' (attemptsMade history)
  | .chatWithin _ _ _ _ => script' (attemptsMade history)
  | .asyncSleep _ => ()

theorem attemptsMade_same {h h' : List LlmEvent} (hsame : List.Forall₂ SameEvent h h') :
    attemptsMade h = attemptsMade h' := by
  induction hsame with
  | nil => rfl
  | cons he _ ih =>
      cases he with
      | call _ _ => exact congrArg (· + 1) ih
      | callWithin _ _ => exact congrArg (· + 1) ih
      | pause _ => exact ih

theorem played_coupled {script : Nat → Except Exn (String × Usage)}
    {script' : Nat → Except Exn ChatCompletion}
    (hscript : ∀ n, Prog.Same (fun _ _ => True) (script n) (script' n)) :
    Prog.Coupled SameOp SameEvent (played script script') (played script script') := by
  intro h h' o o' hsame ho
  have hmade := attemptsMade_same hsame
  cases ho with
  | call hname => exact .call hname (by simpa only [played, hmade] using hscript _)
  | callWithin hname => exact .callWithin hname (by simpa only [played, hmade] using hscript _)
  | pause number => exact .pause number

/-- Two wrappers with one policy around clients of the same names, and any script that says which
attempts fail and how: both make the same attempts and pauses and end in the same way. Whatever the
clients do, each works through its plan until an attempt succeeds (`Retried`). -/
theorem resilience_agrees [Runtime] (llm : ResilientLLM) (chatLlm : ResilientChatLLM)
    (prompt : String) (messages : List Message) (tools : Option (List ToolSpec))
    (hpolicy : chatLlm.policy = llm.policy)
    (hchain : llm.chain.map LLMClient.modelName = chatLlm.chain.map ChatLLM.modelName) :
    (∀ (script : Nat → Except Exn (String × Usage)) (script' : Nat → Except Exn ChatCompletion),
      (∀ n, Prog.Same (fun _ _ => True) (script n) (script' n)) →
      let env := played script script'
      List.Forall₂ SameEvent ((llm.complete prompt).trace env)
          ((chatLlm.chat messages tools).trace env)
        ∧ Prog.Same (fun _ _ => True) ((llm.complete prompt).result env)
          ((chatLlm.chat messages tools).result env))
    ∧ ∀ env,
      Retried ResilientLLM.outcome (llm.plans prompt) (llm.chain.map LLMClient.modelName)
          ((llm.complete prompt).trace env) ((llm.complete prompt).result env)
        ∧ Retried ResilientChatLLM.outcome (chatLlm.plans messages tools)
          (chatLlm.chain.map ChatLLM.modelName) ((chatLlm.chat messages tools).trace env)
          ((chatLlm.chat messages tools).result env) := by
  refine ⟨?_, fun env => ⟨llm.complete_retried prompt env, chatLlm.chat_retried messages tools env⟩⟩
  intro script script' hscript env
  exact (wrappers_lockstep hpolicy hchain prompt messages tools).exec (played_coupled hscript) .nil

/-- The first client is down for all of its attempts, the second one answers. -/
def fallbackScript : Nat → Except Exn (String × Usage)
  | 0 => .error (valueError "down")
  | 1 => .error ⟨.timeout, "TimeoutError", ""⟩
  | 2 => .error (valueError "down")
  | _ => .ok ("found", {})

def fallbackChatScript : Nat → Except Exn ChatCompletion
  | 0 => .error (valueError "down")
  | 1 => .error ⟨.timeout, "TimeoutError", ""⟩
  | 2 => .error (valueError "down")
  | _ => .ok { message := { role := .assistant, content := "found" } }

theorem resilience_agrees_fallback : let _ := Runtime.ascii
    let llm : ResilientLLM := { primary := ⟨"a"⟩, fallbacks := [⟨"b"⟩] }
    let chatLlm : ResilientChatLLM := { primary := ⟨"a"⟩, fallbacks := [⟨"b"⟩] }
    let env := played fallbackScript fallbackChatScript
    List.Forall₂ SameEvent ((llm.complete "q").trace env) ((chatLlm.chat [] none).trace env)
      ∧ ((llm.complete "q").trace env).length = 6 := by
  intro _ llm chatLlm env
  refine ⟨((resilience_agrees llm chatLlm "q" [] none rfl rfl).1 fallbackScript fallbackChatScript
    ?_).1, by decide +kernel⟩
  intro n
  rcases n with _ | _ | _ | n
  · rfl
  · rfl
  · rfl
  · trivial

end Rag
