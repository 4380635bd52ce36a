import Rag.Eval.Trajectory
import Rag.Lib.Runs

/-!
The loop over the script of one example.

A leading turn of an example either searches or drafts what the critic is scripted to reject, and
the state it leaves the loop in is a function of the state before it (`afterTurn`). As long as no
budget is spent, the loop takes these turns one by one and leaves both scripts where the next turn
begins (`iterate_leading`). Otherwise it stops at one of them, in a state that what is scripted
behind them has no part in (`iterate_stops`).
-/

namespace Rag

open Py Interaction AgentRuntime

/-- The scripts still hold these turns. A critic that is never asked may hold anything. -/
structure Bench.Holds {σ : Type} (b : Bench σ) (rounds : ℤ) (ps cs : List ScriptedTurn) : Prop where
  planner : b.planner.left = ps
  plannerName : b.planner.modelName = "echo-chat"
  critic : 0 < rounds → b.critic.left = cs
  criticName : b.critic.modelName = "echo-chat"

section States

variable [Runtime] (pipeline : OnlinePipeline) (turn : Turn)

/-- The planner's answer with a turn of its script. -/
def scriptedCompletion (s : LoopState) (t : ScriptedTurn) : ChatCompletion :=
  EchoChatLLM.completion "echo-chat" s.messages t

/-- What a reply of the scripted critic is charged. -/
def critiqueUsage (s : LoopState) (draft reply : String) : Usage :=
  (EchoChatLLM.completion "echo-chat" (criticMessages (evalRuntime pipeline) turn s draft)
    { content := reply }).usage

/-- The state after the planner has been answered. -/
def planned (s : LoopState) (t : ScriptedTurn) : LoopState :=
  charged (stepped s) (scriptedCompletion s t)

/-- The state in which a draft is handed to the critic. -/
def handedIn (s : LoopState) (t : ScriptedTurn) : LoopState :=
  critiqued (drafted (planned s t) (scriptedCompletion s t))

/-- The state after the critic's verdict on a draft. -/
def judgedDraft (s : LoopState) (t : ScriptedTurn) (verdict : Verdict) (reply : String) :
    LoopState :=
  judged (handedIn s t) (strip t.content) verdict
    (critiqueUsage pipeline turn (handedIn s t) (strip t.content) reply)

/-- The state after a leading turn: a search that found this, or a rejected draft. -/
def afterTurn (found : Except Exn (List (ScoredChunk ℚ))) (s : LoopState) (t : ScriptedTurn) :
    LoopState :=
  match t.toolCalls with
  | [] =>
      rejected (judgedDraft pipeline turn s t rejection rejectReply) (scriptedCompletion s t)
        rejection
  | call :: _ =>
      acted turn (planned s t) (scriptedCompletion s t) [call]
        [retrievalResult pipeline.settings turn.principal found call]

/-- The state in which the loop stops at a leading turn: before it where a budget is spent, and
with its draft where no critic may be asked. -/
def stoppedState (found : Except Exn (List (ScoredChunk ℚ))) :
    LoopState → List ScriptedTurn → LoopState
  | s, [] => s
  | s, t :: ts =>
      if s.tracker.spent then s
      else if t.toolCalls = [] ∧ s.tracker.canCritique = false then
        drafted (planned s t) (scriptedCompletion s t)
      else stoppedState found (afterTurn pipeline turn found s t) ts

end States

section Passes

variable [Runtime] {pipeline : OnlinePipeline} {index : (o : PipeOp) → PipeResp o} {σ : Type}
  {backend : σ → (o : ServiceOp) → ServiceResp o × σ} {limit : ℚ} {turn : Turn} {s : LoopState}
  {t : ScriptedTurn} {ps cs : List ScriptedTurn} {rounds : ℤ} {b : Bench σ}

/-- With something left of every budget the pass goes on to the planner. -/
theorem terminalStop_open (hsteady : Steady backend index limit) {tracker : BudgetTracker}
    (hopen : tracker.spent = false) (hlimit : limit ≤ tracker.budget.maxWallClockSeconds)
    (b : Bench σ) :
    ∃ w, Prog.against (serveBench pipeline backend) tracker.terminalStop b
      = (none, { b with backends := w }) := by
  refine ⟨(backend b.backends (.inl .elapsed)).2, ?_⟩
  have hearly : ¬ tracker.budget.maxWallClockSeconds ≤ (backend b.backends (.inl .elapsed)).1 := by
    have htime := hsteady.inTime b.backends
    exact not_le_of_gt (lt_of_lt_of_le htime hlimit)
  rw [BudgetTracker.terminalStop, hopen]
  change ((if tracker.budget.maxWallClockSeconds ≤ (backend b.backends (.inl .elapsed)).1
    then some StopReason.budgetExhausted else none), _) = _
  rw [if_neg hearly]
  rfl

/-- With nothing left of a budget the pass goes no further. -/
theorem iteration_spent (hspent : s.tracker.spent = true) (b : Bench σ) :
    Prog.against (serveBench pipeline backend) (iteration (evalRuntime pipeline) turn s) b
      = (.inr (.stopped s .budgetExhausted), b) := by
  rw [iteration, BudgetTracker.terminalStop, if_pos hspent]
  rfl

/-- The planner answers with the next turn of its script. -/
theorem iteration_turn (hsteady : Steady backend index limit) (hopen : s.tracker.spent = false)
    (hlimit : limit ≤ s.tracker.budget.maxWallClockSeconds) (hb : b.Holds rounds (t :: ps) cs) :
    ∃ b' : Bench σ, b'.Holds rounds ps cs
      ∧ Prog.against (serveBench pipeline backend) (iteration (evalRuntime pipeline) turn s) b
        = Prog.against (serveBench pipeline backend)
          (if t.toolCalls ≠ [] then
              act (evalRuntime pipeline) turn (planned s t) (scriptedCompletion s t)
            else plan (evalRuntime pipeline) turn (planned s t) (scriptedCompletion s t)) b' := by
  obtain ⟨w, hw⟩ := @terminalStop_open _ pipeline _ _ _ _ hsteady _ hopen hlimit b
  have hserve : serveBench pipeline backend { b with backends := w }
        (.chat (stepped s).messages (offered turn))
      = (.ok (scriptedCompletion s t), { b with planner := b.planner.moved, backends := w }) := by
    have hchat := EchoChatLLM.chat_of_left hb.planner s.messages
    rw [hb.plannerName] at hchat
    change (Except.ok (b.planner.chat s.messages).1, _) = _
    rw [hchat]
    change (_, { b with planner := (b.planner.chat s.messages).2, backends := w }) = _
    rw [hchat]
    rfl
  refine ⟨{ b with planner := b.planner.moved, backends := w },
    ⟨EchoChatLLM.left_moved hb.planner, hb.plannerName, hb.critic, hb.criticName⟩, ?_⟩
  rw [iteration, Prog.against_bind_of hw]
  dsimp only
  rw [Prog.perform_bind, Prog.against_call, hserve]
  rfl

theorem runTools_retrieval (hsteady : Steady backend index limit) (hdepth : 1 ≤ Runtime.maxDepth)
    (id : String) (budget : BudgetTracker) (b : Bench σ) :
    ∃ w, Prog.against (serveBench pipeline backend)
        (runTools (evalRuntime pipeline) turn [retrievalCall id turn.question] budget) b
      = (.ok [retrievalResult pipeline.settings turn.principal
          (foundIn pipeline turn.principal index turn.question) (retrievalCall id turn.question)],
        { b with backends := w }) := by
  obtain ⟨w₁, hscheduled⟩ : ∃ w, serveBench pipeline backend b .schedule
      = ((Prog.against backend (hosted pipeline .schedule) b.backends).1,
        { b with backends := w }) := ⟨_, serveBench_backends rfl b⟩
  obtain ⟨w, hexecuted⟩ := @execute_retrieval _ pipeline turn.principal _ _ _ _ hsteady hdepth id
    turn.question turn.indexVersion budget { b with backends := w₁ }
  refine ⟨w, ?_⟩
  rw [runTools, Prog.gather, Prog.against_call, hscheduled]
  simp only [List.map_cons, List.map_nil]
  rw [Prog.follow_one, Prog.against_bind_of hexecuted]
  rfl

/-- A search of the script is one pass of the loop. -/
theorem iteration_search (hsteady : Steady backend index limit) (hdepth : 1 ≤ Runtime.maxDepth)
    (hopen : s.tracker.spent = false) (hlimit : limit ≤ s.tracker.budget.maxWallClockSeconds)
    {id : String} (hb : b.Holds rounds (retrievalTurn id turn.question :: ps) cs) :
    ∃ b' : Bench σ, b'.Holds rounds ps cs
      ∧ Prog.against (serveBench pipeline backend) (iteration (evalRuntime pipeline) turn s) b
        = (.inl (afterTurn pipeline turn (foundIn pipeline turn.principal index turn.question) s
            (retrievalTurn id turn.question)), b') := by
  obtain ⟨b₁, hb₁, hpass⟩ := @iteration_turn _ pipeline _ _ _ _ turn _ _ _ _ _ _ hsteady hopen
    hlimit hb
  let t := retrievalTurn id turn.question
  obtain ⟨w, hran⟩ := @runTools_retrieval _ pipeline _ _ _ _ turn hsteady hdepth id
    (planned s t).tracker b₁
  have hleft : 0 < (planned s t).tracker.remainingToolCalls := by
    have hbudget := (BudgetTracker.not_spent_iff _).mp hopen
    simp only [planned, charged, stepped, BudgetTracker.remainingToolCalls,
      BudgetTracker.chargeUsage_budget, BudgetTracker.chargeUsage_toolCalls,
      BudgetTracker.chargeStep_budget, BudgetTracker.chargeStep_toolCalls]
    omega
  have hcalls : allowedCalls (planned s t) (scriptedCompletion s t)
      = [retrievalCall id turn.question] := by
    change takeInt (planned s t).tracker.remainingToolCalls [retrievalCall id turn.question] = _
    rw [takeInt, if_pos hleft.le]
    refine List.take_of_length_le ?_
    rw [List.length_singleton]
    omega
  refine ⟨{ b₁ with backends := w }, ⟨hb₁.planner, hb₁.plannerName, hb₁.critic, hb₁.criticName⟩, ?_⟩
  have htools : t.toolCalls ≠ [] := List.cons_ne_nil _ _
  rw [hpass, if_pos htools, act, if_neg (not_le_of_gt hleft), hcalls, Prog.against_bind_of hran]
  rfl

/-- The critic answers with the next turn of its script. -/
theorem evaluate_reply {reply : String} {verdict : Verdict}
    (hverdict : parseVerdict reply = .ok verdict) (hrounds : 0 < rounds) (hb : b.Holds rounds ps ({ content := reply } :: cs)) (s : LoopState)
    (draft : String) :
    ∃ b' : Bench σ, b'.Holds rounds ps cs
      ∧ Prog.against (serveBench pipeline backend)
          (evaluate (evalRuntime pipeline) turn draft s.ledger.sources) b
        = (.ok (verdict, critiqueUsage pipeline turn s draft reply), b') := by
  have hchat := EchoChatLLM.chat_of_left (hb.critic hrounds)
    (criticMessages (evalRuntime pipeline) turn s draft)
  rw [hb.criticName] at hchat
  have hserve : serveBench pipeline backend b
        (.critique (criticMessages (evalRuntime pipeline) turn s draft))
      = (.ok (EchoChatLLM.completion "echo-chat"
          (criticMessages (evalRuntime pipeline) turn s draft) { content := reply }),
        { b with critic := b.critic.moved }) := by
    change (Except.ok (b.critic.chat _).1, { b with critic := (b.critic.chat _).2 }) = _
    rw [hchat]
  refine ⟨{ b with critic := b.critic.moved },
    ⟨hb.planner, hb.plannerName, fun _ => EchoChatLLM.left_moved (hb.critic hrounds),
      hb.criticName⟩, ?_⟩
  rw [evaluate]
  change Prog.against _
    (AgentOp.ask (.critique (criticMessages (evalRuntime pipeline) turn s draft)) >>= _) b = _
  rw [Prog.perform_bind, Prog.against_call, hserve]
  have hread : parseVerdict (EchoChatLLM.completion "echo-chat"
      (criticMessages (evalRuntime pipeline) turn s draft) { content := reply }).text
      = .ok verdict := hverdict
  simp only [hread]
  rfl

/-- A draft goes to the critic, whose verdict ends the loop or sends it back. -/
theorem iteration_draft (hsteady : Steady backend index limit) (hopen : s.tracker.spent = false)
    (hlimit : limit ≤ s.tracker.budget.maxWallClockSeconds) {reply : String} {verdict : Verdict}
    (hverdict : parseVerdict reply = .ok verdict) (hrounds : 0 < rounds) (hcalls : t.toolCalls = [])
    (hdraft : strip t.content ≠ "") (hcritique : s.tracker.canCritique = true)
    (hb : b.Holds rounds (t :: ps) ({ content := reply } :: cs)) :
    ∃ b' : Bench σ, b'.Holds rounds ps cs
      ∧ Prog.against (serveBench pipeline backend) (iteration (evalRuntime pipeline) turn s) b
        = (if verdict.sufficient && verdict.grounded then
            .inr (.stopped (judgedDraft pipeline turn s t verdict reply) .criticGrounded)
          else .inl (rejected (judgedDraft pipeline turn s t verdict reply)
            (scriptedCompletion s t) verdict), b') := by
  obtain ⟨b₁, hb₁, hpass⟩ := @iteration_turn _ pipeline _ _ _ _ turn _ _ _ _ _ _ hsteady hopen
    hlimit hb
  obtain ⟨b₂, hb₂, hevaluated⟩ := @evaluate_reply _ pipeline _ backend turn _ _ _ _ _ _ hverdict
    hrounds hb₁ (handedIn s t) (strip t.content)
  refine ⟨b₂, hb₂, ?_⟩
  have hasked : (drafted (planned s t) (scriptedCompletion s t)).tracker.canCritique = true :=
    hcritique
  have htext : strip (scriptedCompletion s t).text ≠ "" := hdraft
  rw [hpass, if_neg (by simp [hcalls]), plan]
  rw [if_neg htext, if_pos hasked, critique]
  dsimp only
  change Prog.against _ (evaluate (evalRuntime pipeline) turn (strip t.content)
    (handedIn s t).ledger.sources >>= _) b₁ = _
  rw [Prog.against_bind_of hevaluated]
  dsimp only
  change Prog.against _ (if verdict.sufficient && verdict.grounded then _ else _) b₂ = _
  split_ifs <;> rfl

/-- Where no critic may be asked, the draft ends the loop. -/
theorem iteration_uncritiqued (hsteady : Steady backend index limit)
    (hopen : s.tracker.spent = false) (hlimit : limit ≤ s.tracker.budget.maxWallClockSeconds)
    (hcalls : t.toolCalls = []) (hdraft : strip t.content ≠ "")
    (hcritique : s.tracker.canCritique = false) (hb : b.Holds rounds (t :: ps) cs) :
    ∃ b' : Bench σ, b'.Holds rounds ps cs
      ∧ Prog.against (serveBench pipeline backend) (iteration (evalRuntime pipeline) turn s) b
        = (.inr (.stopped (drafted (planned s t) (scriptedCompletion s t)) .criticExhausted),
            b') := by
  obtain ⟨b₁, hb₁, hpass⟩ := @iteration_turn _ pipeline _ _ _ _ turn _ _ _ _ _ _ hsteady hopen
    hlimit hb
  refine ⟨b₁, hb₁, ?_⟩
  have hasked : ¬ (drafted (planned s t) (scriptedCompletion s t)).tracker.canCritique = true := by
    change ¬ s.tracker.canCritique = true
    rw [hcritique]
    exact Bool.false_ne_true
  have htext : strip (scriptedCompletion s t).text ≠ "" := hdraft
  rw [hpass, if_neg (by simp [hcalls]), plan]
  rw [if_neg htext, if_neg hasked]
  rfl

end Passes

/-- What the critic is scripted to say to a leading turn. -/
def repliesTo (t : ScriptedTurn) : List ScriptedTurn :=
  if t.toolCalls = [] then [{ content := rejectReply }] else []

/-- A search for the question, or the draft that cites nothing. -/
def Leads (question : String) (t : ScriptedTurn) : Prop :=
  (∃ id, t = retrievalTurn id question) ∨ t = uncitedTurn

section Leading

variable [Runtime] {pipeline : OnlinePipeline} {index : (o : PipeOp) → PipeResp o} {σ : Type}
  {backend : σ → (o : ServiceOp) → ServiceResp o × σ} {limit : ℚ} {turn : Turn} {s : LoopState}
  {t : ScriptedTurn} {ps cs : List ScriptedTurn} {rounds : ℤ} {b : Bench σ}

theorem afterTurn_budget (found : Except Exn (List (ScoredChunk ℚ))) (s : LoopState)
    (t : ScriptedTurn) :
    (afterTurn pipeline turn found s t).tracker.budget = s.tracker.budget := by
  rw [afterTurn]
  split <;> rfl

theorem afterTurn_steps (found : Except Exn (List (ScoredChunk ℚ))) (s : LoopState)
    (t : ScriptedTurn) :
    (afterTurn pipeline turn found s t).tracker.steps = s.tracker.steps + 1 := by
  rw [afterTurn]
  split <;> rfl

/-- A draft is one critique round, a search none. -/
theorem afterTurn_critiqueRounds (found : Except Exn (List (ScoredChunk ℚ))) (s : LoopState)
    (t : ScriptedTurn) :
    (afterTurn pipeline turn found s t).tracker.critiqueRounds
      = s.tracker.critiqueRounds + (if t.toolCalls = [] then 1 else 0 : ℤ) := by
  rw [afterTurn]
  split
  · rename_i hcalls
    rw [if_pos hcalls]
    rfl
  · rename_i call rest hcalls
    rw [if_neg (by rw [hcalls]; exact List.cons_ne_nil _ _), add_zero]
    rfl

theorem le_afterTurn_critiqueRounds (found : Except Exn (List (ScoredChunk ℚ))) (s : LoopState)
    (t : ScriptedTurn) :
    s.tracker.critiqueRounds ≤ (afterTurn pipeline turn found s t).tracker.critiqueRounds := by
  rw [afterTurn_critiqueRounds]
  split_ifs <;> omega

omit [Runtime] in
/-- Where the critic may be asked, the budget admits a round. -/
theorem rounds_pos (hrounds : s.tracker.budget.maxCritiqueRounds = rounds)
    (hcount : 0 ≤ s.tracker.critiqueRounds) (hcritique : s.tracker.canCritique = true) :
    0 < rounds := by
  rw [BudgetTracker.canCritique, decide_eq_true_eq] at hcritique
  omega

/-- A leading turn is one pass of the loop. -/
theorem iteration_leading (hsteady : Steady backend index limit) (hdepth : 2 ≤ Runtime.maxDepth)
    (hopen : s.tracker.spent = false) (hlimit : limit ≤ s.tracker.budget.maxWallClockSeconds)
    (hrounds : t.toolCalls = [] → 0 < rounds)
    (hcritique : t.toolCalls = [] → s.tracker.canCritique = true)
    (ht : Leads turn.question t) (hb : b.Holds rounds (t :: ps) (repliesTo t ++ cs)) :
    ∃ b' : Bench σ, b'.Holds rounds ps cs
      ∧ Prog.against (serveBench pipeline backend) (iteration (evalRuntime pipeline) turn s) b
        = (.inl (afterTurn pipeline turn (foundIn pipeline turn.principal index turn.question) s t),
          b') := by
  rcases ht with ⟨id, rfl⟩ | rfl
  · exact iteration_search hsteady (by omega) hopen hlimit hb
  · have hdraft : strip uncitedTurn.content ≠ "" := by decide +kernel
    obtain ⟨hverdict, hflags⟩ := parseVerdict_rejectReply hdepth
    obtain ⟨b', hb', hpass⟩ := @iteration_draft _ pipeline _ _ _ _ turn _ _ _ _ _ _ hsteady hopen
      hlimit _ _ hverdict (hrounds rfl) rfl hdraft (hcritique rfl) hb
    refine ⟨b', hb', ?_⟩
    rw [hpass, hflags]
    rfl

/-- The leading turns are the first passes of the loop. -/
theorem iterate_leading (hsteady : Steady backend index limit) (hdepth : 2 ≤ Runtime.maxDepth)
    {ts : List ScriptedTurn} (hts : ∀ t ∈ ts, Leads turn.question t)
    (hrounds : s.tracker.budget.maxCritiqueRounds = rounds)
    (hcount : 0 ≤ s.tracker.critiqueRounds)
    (hlimit : limit ≤ s.tracker.budget.maxWallClockSeconds)
    (hopen : Run.Throughout
      (afterTurn pipeline turn (foundIn pipeline turn.principal index turn.question))
      (fun s => s.tracker.spent = false) s ts)
    (hcritique : Run.EachStep
      (afterTurn pipeline turn (foundIn pipeline turn.principal index turn.question))
      (fun s t => t.toolCalls = [] → s.tracker.canCritique = true) s ts)
    (hb : b.Holds rounds (ts ++ ps) (ts.flatMap repliesTo ++ cs)) (n : ℕ) :
    ∃ b' : Bench σ, b'.Holds rounds ps cs
      ∧ Prog.against (serveBench pipeline backend)
          (Prog.iterate (iteration (evalRuntime pipeline) turn) (n + ts.length) s) b
        = Prog.against (serveBench pipeline backend)
          (Prog.iterate (iteration (evalRuntime pipeline) turn) n
            (ts.foldl (afterTurn pipeline turn
              (foundIn pipeline turn.principal index turn.question)) s)) b' := by
  induction ts generalizing s b with
  | nil => exact ⟨b, hb, rfl⟩
  | cons t ts ih =>
      rw [List.flatMap_cons, List.append_assoc] at hb
      obtain ⟨b₁, hb₁, hpass⟩ := iteration_leading hsteady hdepth hopen.1 hlimit
        (fun hcalls => rounds_pos hrounds hcount (hcritique.1 hcalls)) hcritique.1
        (hts t List.mem_cons_self) hb
      obtain ⟨b', hb', hrest⟩ := ih (fun t ht => hts t (List.mem_cons_of_mem _ ht))
        (by rw [afterTurn_budget]; exact hrounds)
        (le_trans hcount (le_afterTurn_critiqueRounds _ s t))
        (by rw [afterTurn_budget]; exact hlimit) hopen.2 hcritique.2 hb₁
      refine ⟨b', hb', ?_⟩
      rw [List.length_cons, ← Nat.add_assoc, Prog.iterate, Prog.against_bind_of hpass]
      exact hrest

/-- Where they are not all taken, the loop stops at one of them. -/
theorem iterate_stops (hsteady : Steady backend index limit) (hdepth : 2 ≤ Runtime.maxDepth)
    {ts : List ScriptedTurn} (hts : ∀ t ∈ ts, Leads turn.question t)
    (hrounds : s.tracker.budget.maxCritiqueRounds = rounds)
    (hcount : 0 ≤ s.tracker.critiqueRounds)
    (hlimit : limit ≤ s.tracker.budget.maxWallClockSeconds)
    (hstops : ¬ (Run.Throughout
        (afterTurn pipeline turn (foundIn pipeline turn.principal index turn.question))
        (fun s => s.tracker.spent = false) s ts
      ∧ Run.EachStep
        (afterTurn pipeline turn (foundIn pipeline turn.principal index turn.question))
        (fun s t => t.toolCalls = [] → s.tracker.canCritique = true) s ts))
    (hb : b.Holds rounds (ts ++ ps) (ts.flatMap repliesTo ++ cs)) {fuel : ℕ}
    (hfuel : s.tracker.budget.maxSteps - s.tracker.steps ≤ fuel) :
    ∃ stop b', Prog.against (serveBench pipeline backend)
        (Prog.iterate (iteration (evalRuntime pipeline) turn) (fuel + 1) s) b
      = (some (.stopped (stoppedState pipeline turn
          (foundIn pipeline turn.principal index turn.question) s ts) stop), b') := by
  induction ts generalizing s b fuel with
  | nil =>
      have hspent : s.tracker.spent = true := by
        by_contra hunspent
        have hopen : s.tracker.spent = false := by simpa using hunspent
        exact hstops ⟨hopen, trivial⟩
      refine ⟨.budgetExhausted, b, ?_⟩
      rw [Prog.iterate, Prog.against_bind_of (iteration_spent hspent b)]
      rfl
  | cons t ts ih =>
      rw [stoppedState]
      by_cases hspent : s.tracker.spent = true
      · refine ⟨.budgetExhausted, b, ?_⟩
        rw [if_pos hspent, Prog.iterate, Prog.against_bind_of (iteration_spent hspent b)]
        rfl
      rw [if_neg hspent]
      have hopen : s.tracker.spent = false := by simpa using hspent
      rw [List.flatMap_cons, List.append_assoc] at hb
      by_cases hdrafts : t.toolCalls = [] ∧ s.tracker.canCritique = false
      · have hdraft : strip t.content ≠ "" := by
          rcases hts t List.mem_cons_self with ⟨id, rfl⟩ | rfl
          · exact absurd hdrafts.1 (List.cons_ne_nil _ _)
          · decide +kernel
        obtain ⟨b', -, hpass⟩ :=
          iteration_uncritiqued hsteady hopen hlimit hdrafts.1 hdraft hdrafts.2 hb
        refine ⟨.criticExhausted, b', ?_⟩
        rw [if_pos hdrafts, Prog.iterate, Prog.against_bind_of hpass]
        rfl
      · rw [if_neg hdrafts]
        have hcritique : t.toolCalls = [] → s.tracker.canCritique = true := by
          intro hcalls
          by_contra hnever
          exact hdrafts ⟨hcalls, by simpa using hnever⟩
        obtain ⟨b₁, hb₁, hpass⟩ := iteration_leading hsteady hdepth hopen hlimit
          (fun hcalls => rounds_pos hrounds hcount (hcritique hcalls)) hcritique
          (hts t List.mem_cons_self) hb
        -- A pass that is taken has a step left, so the bound on the loop is not what ends it.
        have hsteps := ((BudgetTracker.not_spent_iff _).mp hopen).1
        obtain ⟨left, rfl⟩ : ∃ left, fuel = left + 1 := ⟨fuel - 1, by omega⟩
        have hleft : (afterTurn pipeline turn
              (foundIn pipeline turn.principal index turn.question) s t).tracker.budget.maxSteps
            - (afterTurn pipeline turn
              (foundIn pipeline turn.principal index turn.question) s t).tracker.steps
            ≤ (left : ℤ) := by
          rw [afterTurn_budget, afterTurn_steps]
          omega
        obtain ⟨stop, b', hrest⟩ := ih (fun t ht => hts t (List.mem_cons_of_mem _ ht))
          (by rw [afterTurn_budget]; exact hrounds)
          (le_trans hcount (le_afterTurn_critiqueRounds _ s t))
          (by rw [afterTurn_budget]; exact hlimit)
          (fun hall => hstops ⟨⟨hopen, hall.1⟩, hcritique, hall.2⟩) hb₁ hleft
        refine ⟨stop, b', ?_⟩
        rw [Prog.iterate, Prog.against_bind_of hpass]
        exact hrest

/-- The state in which the last turn leaves the loop. -/
def finalState (pipeline : OnlinePipeline) (turn : Turn) (s : LoopState) (t : ScriptedTurn) :
    LoopState :=
  if s.tracker.canCritique then judgedDraft pipeline turn s t approval approveReply
  else drafted (planned s t) (scriptedCompletion s t)

def finalStop (s : LoopState) : StopReason :=
  if s.tracker.canCritique then .criticGrounded else .criticExhausted

/-- The last turn ends the loop with a draft the critic approves of, if it may be asked. -/
theorem iteration_final (hsteady : Steady backend index limit) (hdepth : 2 ≤ Runtime.maxDepth)
    (hopen : s.tracker.spent = false) (hlimit : limit ≤ s.tracker.budget.maxWallClockSeconds)
    (hrounds : s.tracker.canCritique = true → 0 < rounds) (hcalls : t.toolCalls = [])
    (hdraft : strip t.content ≠ "")
    (hb : b.Holds rounds (t :: ps) ({ content := approveReply } :: cs)) :
    ∃ b' : Bench σ, ((0 < rounds → s.tracker.canCritique = true) → b'.Holds rounds ps cs)
      ∧ Prog.against (serveBench pipeline backend) (iteration (evalRuntime pipeline) turn s) b
        = (.inr (.stopped (finalState pipeline turn s t) (finalStop s)), b') := by
  by_cases hasked : s.tracker.canCritique = true
  · obtain ⟨hverdict, hflags⟩ := parseVerdict_approveReply hdepth
    obtain ⟨b', hb', hpass⟩ := @iteration_draft _ pipeline _ _ _ _ turn _ _ _ _ _ _ hsteady hopen
      hlimit _ _ hverdict (hrounds hasked) hcalls hdraft hasked hb
    refine ⟨b', fun _ => hb', ?_⟩
    rw [hpass, hflags, finalState, finalStop, if_pos hasked, if_pos hasked]
    rfl
  · have hnever : s.tracker.canCritique = false := by simpa using hasked
    obtain ⟨b', hb', hpass⟩ := @iteration_uncritiqued _ pipeline _ _ _ _ turn _ _ _ _ _ _ hsteady
      hopen hlimit hcalls hdraft hnever hb
    refine ⟨b', fun hcritique => ⟨hb'.planner, hb'.plannerName, ?_, hb'.criticName⟩, ?_⟩
    · intro hpositive
      exact absurd (hcritique hpositive) hasked
    · rw [hpass, finalState, finalStop, if_neg hasked, if_neg hasked]

end Leading

end Rag
