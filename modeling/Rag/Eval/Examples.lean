import Rag.Eval.Scores

/-!
One example of a set, from its first scripted turn to its score.

The examples share two scripts, so an example starts at its own first turn only if every example
before it has taken all of its turns and no more (`FollowsScript`). Where they have, it is scored by
what the searches for its own question find. If its loop stops before its last turn, the citation
of the script has no part in the score (`runCases_scored`).
-/

namespace Rag

open Py Interaction AgentRuntime

section Example

variable [Runtime] (pipeline : OnlinePipeline) (index : (o : PipeOp) → PipeResp o)
  (principal : Principal) (ex : GoldenExample)

/-- The turn of an example, but for what no draft or search reads. -/
def exampleTurn : Turn := ⟨ex.question, principal, "", "", []⟩

/-- What a leading turn of the example does to the state. -/
def afterLeading : LoopState → ScriptedTurn → LoopState :=
  afterTurn pipeline (exampleTurn principal ex) (foundIn pipeline principal index ex.question)

/-- The state in which the loop is entered. -/
def leadingStart : LoopState :=
  start (evalRuntime pipeline) (exampleTurn principal ex) pipeline.settings.agentBudget

/-- The state before the last turn. -/
def leadState : LoopState :=
  (leadingTurns ex).foldl (afterLeading pipeline index principal ex)
    (leadingStart pipeline principal ex)

/-- The state after the last turn. -/
def endState (chunkId : String) : LoopState :=
  finalState pipeline (exampleTurn principal ex) (leadState pipeline index principal ex)
    { content := groundedText ex chunkId }

/-- The state in which the loop stops, if it does so before the last turn. -/
def stoppedEarly : LoopState :=
  stoppedState pipeline (exampleTurn principal ex) (foundIn pipeline principal index ex.question)
    (leadingStart pipeline principal ex) (leadingTurns ex)

/-- The loop comes to the last turn of the example: no budget is spent before, and the critic may
be asked about the draft it is to reject. -/
structure ReachesDraft : Prop where
  opened : Run.Throughout (afterLeading pipeline index principal ex)
    (fun s => s.tracker.spent = false) (leadingStart pipeline principal ex) (leadingTurns ex)
  critiqued : Run.EachStep (afterLeading pipeline index principal ex)
    (fun s t => t.toolCalls = [] → s.tracker.canCritique = true)
    (leadingStart pipeline principal ex) (leadingTurns ex)

/-- The example takes all its turns and no more. -/
structure FollowsScript : Prop where
  opened : Run.Throughout (afterLeading pipeline index principal ex)
    (fun s => s.tracker.spent = false) (leadingStart pipeline principal ex) (leadingTurns ex)
  rounds : ex.expectSelfCorrection = true → 2 ≤ pipeline.settings.agentMaxCritiqueRounds

/-- The last draft cites something the searches found. -/
def CitesFound (chunkId : String) : Prop :=
  resolveSourceCitations (strip (groundedText ex chunkId))
    (evidence (exampleTurn principal ex) (leadState pipeline index principal ex)) true ≠ []

/-- How the example is scored with this citation. -/
structure ScoredAs {σ : Type} (backend : σ → (o : ServiceOp) → ServiceResp o × σ)
    (chunkId : String) (result : AgentEvalCaseResult) : Prop where
  cited : ReachesDraft pipeline index principal ex →
    CitesFound pipeline index principal ex chunkId →
    result = scored pipeline.settings.agentMaxSteps ex
      (endState pipeline index principal ex chunkId) 1 (endState pipeline index principal ex chunkId).usage.costUsd false false
  uncited : ReachesDraft pipeline index principal ex →
    ¬ CitesFound pipeline index principal ex chunkId →
    ∃ w, result = degraded pipeline.settings.agentMaxSteps ex
      (endState pipeline index principal ex chunkId)
      (fallbackScore (fallbackOutcome pipeline backend ex.question principal w))
  stopped : ¬ ReachesDraft pipeline index principal ex →
    ∃ w, result = degraded pipeline.settings.agentMaxSteps ex
      (stoppedEarly pipeline index principal ex)
      (fallbackScore (fallbackOutcome pipeline backend ex.question principal w))

end Example

section Counts

variable [Runtime] {pipeline : OnlinePipeline} {index : (o : PipeOp) → PipeResp o}
  {principal : Principal} {ex : GoldenExample} {turn : Turn} {s : LoopState}
  {ts : List ScriptedTurn} (found : Except Exn (List (ScoredChunk ℚ)))

/-- Only the question and the principal of a turn matter to a leading turn. -/
theorem afterTurn_turn (turn : Turn) (s : LoopState) (t : ScriptedTurn) :
    afterTurn pipeline turn found s t
      = afterTurn pipeline ⟨turn.question, turn.principal, "", "", []⟩ found s t := by
  unfold afterTurn
  split <;> rfl

theorem stoppedState_turn (turn : Turn) (s : LoopState) (ts : List ScriptedTurn) :
    stoppedState pipeline turn found s ts
      = stoppedState pipeline ⟨turn.question, turn.principal, "", "", []⟩ found s ts := by
  induction ts generalizing s with
  | nil => rfl
  | cons t ts ih => rw [stoppedState, stoppedState, afterTurn_turn, ih]

/-- The draft has no marker in it, if there is one. -/
def Uncited (s : LoopState) : Prop := citationTokens (strip (s.draft.getD "")).toList = []

omit [Runtime] in
theorem Uncited.resolves (h : Uncited s) (sources : List Source) :
    resolveSourceCitations (strip (s.draft.getD "")) sources true = [] := by
  unfold resolveSourceCitations
  rw [Uncited] at h
  rw [h]
  rfl

omit [Runtime] in
/-- The draft the critic is to reject cites nothing. -/
theorem uncitedTurn_uncited (s : LoopState) :
    Uncited (drafted (planned s uncitedTurn) (scriptedCompletion s uncitedTurn)) := by
  change citationTokens (strip (strip uncitedTurn.content)).toList = []
  decide +kernel

theorem afterTurn_uncited {question : String} {t : ScriptedTurn} (ht : Leads question t)
    (h : Uncited s) : Uncited (afterTurn pipeline turn found s t) := by
  rcases ht with ⟨id, rfl⟩ | rfl
  · exact h
  · exact uncitedTurn_uncited s

theorem stoppedState_uncited {question : String} (hts : ∀ t ∈ ts, Leads question t)
    (h : Uncited s) : Uncited (stoppedState pipeline turn found s ts) := by
  induction ts generalizing s with
  | nil => exact h
  | cons t ts ih =>
      rw [stoppedState]
      split_ifs with hspent hdrafts
      · exact h
      · rcases hts t List.mem_cons_self with ⟨id, rfl⟩ | rfl
        · exact absurd hdrafts.1 (List.cons_ne_nil _ _)
        · exact uncitedTurn_uncited s
      · exact ih (fun t ht => hts t (List.mem_cons_of_mem _ ht))
          (afterTurn_uncited found (hts t List.mem_cons_self) h)

theorem foldl_afterTurn_budget (ts : List ScriptedTurn) (s : LoopState) :
    (ts.foldl (afterTurn pipeline turn found) s).tracker.budget = s.tracker.budget := by
  induction ts generalizing s with
  | nil => rfl
  | cons t ts ih => rw [List.foldl_cons, ih, afterTurn_budget]

theorem foldl_afterTurn_steps (ts : List ScriptedTurn) (s : LoopState) :
    (ts.foldl (afterTurn pipeline turn found) s).tracker.steps = s.tracker.steps + ts.length := by
  induction ts generalizing s with
  | nil => simp
  | cons t ts ih =>
      rw [List.foldl_cons, ih, afterTurn_steps, List.length_cons]
      push_cast
      ring

/-- The drafts among these turns. -/
def draftsIn (ts : List ScriptedTurn) : ℕ := ts.countP fun t => t.toolCalls = []

omit [Runtime] in
theorem draftsIn_cons (t : ScriptedTurn) (ts : List ScriptedTurn) :
    (draftsIn (t :: ts) : ℤ) = (if t.toolCalls = [] then 1 else 0 : ℤ) + draftsIn ts := by
  rw [draftsIn, List.countP_cons, draftsIn]
  by_cases hcalls : t.toolCalls = []
  · simp [hcalls, add_comm]
  · simp [hcalls]

theorem foldl_afterTurn_critiqueRounds (ts : List ScriptedTurn) (s : LoopState) :
    (ts.foldl (afterTurn pipeline turn found) s).tracker.critiqueRounds
      = s.tracker.critiqueRounds + draftsIn ts := by
  induction ts generalizing s with
  | nil => simp [draftsIn]
  | cons t ts ih => rw [List.foldl_cons, ih, afterTurn_critiqueRounds, draftsIn_cons, add_assoc]

/-- As many rounds as drafts are enough for the critic to be asked about each. -/
theorem eachStep_canCritique
    (h : 0 < draftsIn ts →
      s.tracker.critiqueRounds + draftsIn ts ≤ s.tracker.budget.maxCritiqueRounds) :
    Run.EachStep (afterTurn pipeline turn found)
      (fun s t => t.toolCalls = [] → s.tracker.canCritique = true) s ts := by
  induction ts generalizing s with
  | nil => trivial
  | cons t ts ih =>
      have hcount := draftsIn_cons t ts
      refine ⟨?_, ih ?_⟩
      · intro hcalls
        rw [if_pos hcalls] at hcount
        have hleast := h (by omega)
        rw [BudgetTracker.canCritique, decide_eq_true_eq]
        omega
      · intro hrest
        rw [afterTurn_critiqueRounds, afterTurn_budget]
        split_ifs at hcount ⊢
        · have hleast := h (by omega)
          omega
        · have hleast := h (by omega)
          omega

omit [Runtime] in
theorem draftsIn_leadingTurns :
    draftsIn (leadingTurns ex) = if ex.expectSelfCorrection then 1 else 0 := by
  have hsearches : ∀ n, draftsIn ((List.range n).map fun i =>
      retrievalTurn (ex.id ++ "-r" ++ toString i) ex.question) = 0 := by
    intro n
    rw [draftsIn, List.countP_eq_zero]
    intro t ht
    obtain ⟨i, -, rfl⟩ := List.mem_map.mp ht
    simp [retrievalTurn]
  unfold leadingTurns
  rw [draftsIn, List.countP_append]
  change draftsIn _ + draftsIn _ = _
  rw [hsearches]
  split_ifs <;> rfl

omit [Runtime] in
theorem leads_leadingTurns : ∀ t ∈ leadingTurns ex, Leads ex.question t := by
  intro t ht
  rcases List.mem_append.mp ht with hsearch | hcorrection
  · obtain ⟨i, -, rfl⟩ := List.mem_map.mp hsearch
    exact .inl ⟨_, rfl⟩
  · split_ifs at hcorrection
    · rcases List.mem_pair.mp hcorrection with rfl | rfl
      · exact .inr rfl
      · exact .inl ⟨_, rfl⟩
    · cases hcorrection

omit [Runtime] in
/-- The script of the critic answers the drafts of the planner's one by one. -/
theorem critiques_eq (ex : GoldenExample) :
    critiques ex = (leadingTurns ex).flatMap repliesTo ++ [{ content := approveReply }] := by
  have hsearches : ∀ n, ((List.range n).map fun i =>
      retrievalTurn (ex.id ++ "-r" ++ toString i) ex.question).flatMap repliesTo = [] := by
    intro n
    rw [List.flatMap_eq_nil_iff]
    intro t ht
    obtain ⟨i, -, rfl⟩ := List.mem_map.mp ht
    rfl
  rw [leadingTurns, List.flatMap_append, hsearches, critiques]
  split_ifs <;> rfl

end Counts

section Run

variable [Runtime] {pipeline : OnlinePipeline} {index : (o : PipeOp) → PipeResp o}
  {principal : Principal} {ex : GoldenExample} {turn : Turn} {s : LoopState} {chunkId : String}
  {ps cs : List ScriptedTurn} {σ : Type} {backend : σ → (o : ServiceOp) → ServiceResp o × σ}
  {b : Bench σ}

theorem finalState_ledger (s : LoopState) (t : ScriptedTurn) :
    (finalState pipeline turn s t).ledger = s.ledger := by
  rw [finalState]
  split_ifs <;> rfl

theorem finalState_draft (s : LoopState) (t : ScriptedTurn) :
    (finalState pipeline turn s t).draft = some (strip t.content) := by
  rw [finalState]
  split_ifs <;> rfl

omit [Runtime] in
theorem finalStop_answerable (s : LoopState) : finalStop s ∈ answerableStops := by
  rw [finalStop]
  split_ifs <;> decide

omit [Runtime] in
theorem groundedText_eq (ex : GoldenExample) (chunkId : String) :
    groundedText ex chunkId
      = (orElseText ex.referenceAnswer "Grounded answer from the corpus." ++ " ")
        ++ ("[" ++ chunkId ++ "]") := by
  have hopening : (" [" : String) = " " ++ "[" := by decide
  rw [groundedText, hopening]
  simp only [String.append_assoc]

omit [Runtime] in
theorem bracketed_toList (chunkId : String) :
    ("[" ++ chunkId ++ "]").toList = '[' :: (chunkId.toList ++ [']']) := by
  rw [String.toList_append, String.toList_append]
  rfl

omit [Runtime] in
theorem strip_groundedText (ex : GoldenExample) (chunkId : String) :
    (strip (groundedText ex chunkId)).toList
      = (orElseText ex.referenceAnswer "Grounded answer from the corpus." ++ " ").toList.dropWhile
          isSpace ++ ("[" ++ chunkId ++ "]").toList := by
  rw [groundedText_eq]
  exact strip_append_enclosed _ (by decide) (by decide) (bracketed_toList chunkId)

omit [Runtime] in
theorem strip_groundedText_ne (ex : GoldenExample) (chunkId : String) :
    strip (groundedText ex chunkId) ≠ "" := by
  intro hblank
  have hchars := strip_groundedText ex chunkId
  rw [hblank, bracketed_toList] at hchars
  exact List.append_ne_nil_of_right_ne_nil _ (List.cons_ne_nil _ _) hchars.symm

theorem leadState_budget : (leadState pipeline index principal ex).tracker.budget
    = pipeline.settings.agentBudget := by
  rw [leadState, afterLeading, foldl_afterTurn_budget]
  rfl

theorem leadState_critiqueRounds : (leadState pipeline index principal ex).tracker.critiqueRounds
    = if ex.expectSelfCorrection then 1 else 0 := by
  rw [leadState, afterLeading, foldl_afterTurn_critiqueRounds, draftsIn_leadingTurns]
  change (0 : ℤ) + _ = _
  rw [zero_add]
  split_ifs <;> rfl

theorem ReachesDraft.steps (h : ReachesDraft pipeline index principal ex) :
    ((leadingTurns ex).length : ℤ) < pipeline.settings.agentMaxSteps := by
  have hlast := (BudgetTracker.not_spent_iff _).mp h.opened.last
  rw [afterLeading, foldl_afterTurn_steps, foldl_afterTurn_budget] at hlast
  have hsteps := hlast.1
  change (0 : ℤ) + _ < _ at hsteps
  rwa [zero_add] at hsteps

theorem FollowsScript.reaches (h : FollowsScript pipeline index principal ex) :
    ReachesDraft pipeline index principal ex := by
  refine ⟨h.opened, eachStep_canCritique _ ?_⟩
  intro hdrafts
  change (0 : ℤ) + draftsIn (leadingTurns ex) ≤ pipeline.settings.agentMaxCritiqueRounds
  rw [draftsIn_leadingTurns] at hdrafts ⊢
  split_ifs at hdrafts ⊢ with hcorrects
  · have hleast := h.rounds hcorrects
    omega
  · exact absurd hdrafts (lt_irrefl 0)

/-- The critic is asked about the last draft, unless it is never asked at all. -/
theorem FollowsScript.canCritique (h : FollowsScript pipeline index principal ex)
    (hpositive : 0 < pipeline.settings.agentMaxCritiqueRounds) :
    (leadState pipeline index principal ex).tracker.canCritique = true := by
  rw [BudgetTracker.canCritique, decide_eq_true_eq, leadState_critiqueRounds, leadState_budget]
  change _ < pipeline.settings.agentMaxCritiqueRounds
  have htwo := h.rounds
  split_ifs with hcorrects
  · have hleast := htwo hcorrects
    omega
  · exact hpositive

/-- A loop that comes to the last turn takes exactly the turns scripted for the example. -/
theorem iterate_reaches
    (hsteady : Steady backend index pipeline.settings.agentMaxWallClockSeconds)
    (hdepth : 2 ≤ Runtime.maxDepth) (h : ReachesDraft pipeline index principal ex)
    (hquestion : turn.question = ex.question) (hprincipal : turn.principal = principal)
    (hb : b.Holds pipeline.settings.agentMaxCritiqueRounds (trajectory ex chunkId ++ ps)
      (critiques ex ++ cs)) :
    ∃ b' : Bench σ, (FollowsScript pipeline index principal ex →
        b'.Holds pipeline.settings.agentMaxCritiqueRounds ps cs)
      ∧ Prog.against (serveBench pipeline backend)
          (Prog.iterate (iteration (evalRuntime pipeline) turn)
            (pipeline.settings.agentMaxSteps.toNat + 1)
            (start (evalRuntime pipeline) turn pipeline.settings.agentBudget)) b
        = (some (.stopped (endState pipeline index principal ex chunkId)
            (finalStop (leadState pipeline index principal ex))), b') := by
  obtain ⟨question, principal', traceId, version, toolSpecs⟩ := turn
  obtain rfl : question = ex.question := hquestion
  obtain rfl : principal' = principal := hprincipal
  let turn : Turn := ⟨ex.question, principal', traceId, version, toolSpecs⟩
  let lead := leadState pipeline index principal' ex
  have hafter : afterTurn pipeline turn (foundIn pipeline principal' index ex.question)
      = afterLeading pipeline index principal' ex := by
    funext s t
    exact afterTurn_turn _ turn s t
  rw [trajectory, List.append_assoc, critiques_eq, List.append_assoc] at hb
  obtain ⟨fuel, hfuel⟩ : ∃ fuel, pipeline.settings.agentMaxSteps.toNat + 1
      = (fuel + 1) + (leadingTurns ex).length := by
    have hsteps := h.steps
    exact ⟨pipeline.settings.agentMaxSteps.toNat - (leadingTurns ex).length, by omega⟩
  obtain ⟨b₁, hb₁, hleading⟩ := @iterate_leading _ pipeline index _ backend _ turn
    (leadingStart pipeline principal' ex) _ _ _ b hsteady hdepth _ leads_leadingTurns rfl le_rfl
    le_rfl (by rw [hafter]; exact h.opened) (by rw [hafter]; exact h.critiqued) hb (fuel + 1)
  rw [hafter] at hleading
  have hopen : lead.tracker.spent = false := h.opened.last
  have hbudget : lead.tracker.budget = pipeline.settings.agentBudget := leadState_budget
  have hlimit : pipeline.settings.agentMaxWallClockSeconds
      ≤ lead.tracker.budget.maxWallClockSeconds := by
    rw [hbudget]
    exact le_rfl
  have hcount : 0 ≤ lead.tracker.critiqueRounds := by
    change 0 ≤ (leadState pipeline index principal' ex).tracker.critiqueRounds
    rw [leadState_critiqueRounds]
    split_ifs <;> omega
  have hrounds : lead.tracker.canCritique = true → 0 < pipeline.settings.agentMaxCritiqueRounds :=
    rounds_pos (congrArg Budget.maxCritiqueRounds hbudget) hcount
  have hdraft : strip (groundedText ex chunkId) ≠ "" := strip_groundedText_ne ex chunkId
  obtain ⟨b', hb', hfinal⟩ := @iteration_final _ pipeline index _ backend _ turn lead
    { content := groundedText ex chunkId } _ _ _ b₁ hsteady hdepth hopen hlimit hrounds rfl
    hdraft hb₁
  refine ⟨b', fun hfollows => hb' hfollows.canCritique, ?_⟩
  rw [hfuel]
  refine hleading.trans ?_
  change Prog.against _ (Prog.iterate _ (fuel + 1) lead) b₁ = _
  rw [Prog.iterate, Prog.against_bind_of hfinal]
  rfl

/-- A loop that does not stops at a leading turn, whatever is scripted behind them. -/
theorem iterate_stoppedEarly
    (hsteady : Steady backend index pipeline.settings.agentMaxWallClockSeconds)
    (hdepth : 2 ≤ Runtime.maxDepth) (h : ¬ ReachesDraft pipeline index principal ex)
    (hquestion : turn.question = ex.question) (hprincipal : turn.principal = principal)
    (hb : b.Holds pipeline.settings.agentMaxCritiqueRounds (trajectory ex chunkId ++ ps)
      (critiques ex ++ cs)) :
    ∃ stop b', Prog.against (serveBench pipeline backend)
        (Prog.iterate (iteration (evalRuntime pipeline) turn)
          (pipeline.settings.agentMaxSteps.toNat + 1)
          (start (evalRuntime pipeline) turn pipeline.settings.agentBudget)) b
      = (some (.stopped (stoppedEarly pipeline index principal ex) stop), b') := by
  obtain ⟨question, principal', traceId, version, toolSpecs⟩ := turn
  obtain rfl : question = ex.question := hquestion
  obtain rfl : principal' = principal := hprincipal
  let turn : Turn := ⟨ex.question, principal', traceId, version, toolSpecs⟩
  have hafter : afterTurn pipeline turn (foundIn pipeline principal' index ex.question)
      = afterLeading pipeline index principal' ex := by
    funext s t
    exact afterTurn_turn _ turn s t
  have hstopped : stoppedState pipeline turn (foundIn pipeline principal' index ex.question)
        (leadingStart pipeline principal' ex) (leadingTurns ex)
      = stoppedEarly pipeline index principal' ex := stoppedState_turn _ turn _ _
  rw [trajectory, List.append_assoc, critiques_eq, List.append_assoc] at hb
  have hfuel : (leadingStart pipeline principal' ex).tracker.budget.maxSteps
      - (leadingStart pipeline principal' ex).tracker.steps
      ≤ (pipeline.settings.agentMaxSteps.toNat : ℤ) := by
    change pipeline.settings.agentMaxSteps - 0 ≤ _
    omega
  obtain ⟨stop, b', hrun⟩ := @iterate_stops _ pipeline index _ backend _ turn
    (leadingStart pipeline principal' ex) _ _ _ b hsteady hdepth _ leads_leadingTurns rfl le_rfl
    le_rfl (by rw [hafter]; exact fun hall => h ⟨hall.1, hall.2⟩) hb _ hfuel
  rw [hstopped] at hrun
  exact ⟨stop, b', hrun⟩

/-- The turn of an example keeps its draft if that cites what was found. -/
theorem finalize_reaches (hreaches : ReachesDraft pipeline index principal ex)
    (hquestion : turn.question = ex.question)
    (hprincipal : turn.principal = principal) (b : Bench σ) :
    ∃ answer w, Prog.against (serveBench pipeline backend)
        (finalize (evalRuntime pipeline) turn (endState pipeline index principal ex chunkId)
          (finalStop (leadState pipeline index principal ex))) b
      = (answer, { b with backends := w })
      ∧ ScoredAs pipeline index principal ex backend chunkId
        (caseOf pipeline.settings.agentMaxSteps ex answer) := by
  have htext : strip ((endState pipeline index principal ex chunkId).draft.getD "")
      = strip (groundedText ex chunkId) := by
    rw [endState, finalState_draft]
    exact strip_strip _
  have hevidence : evidence turn (endState pipeline index principal ex chunkId)
      = evidence (exampleTurn principal ex) (leadState pipeline index principal ex) := by
    rw [evidence, hprincipal, endState, finalState_ledger]
    rfl
  have hcited := @finalize_cited _ pipeline _ backend turn
    (endState pipeline index principal ex chunkId)
    (finalStop (leadState pipeline index principal ex)) pipeline.settings.agentMaxSteps ex
  have huncited := @finalize_uncited _ pipeline _ backend turn
    (endState pipeline index principal ex chunkId)
    (finalStop (leadState pipeline index principal ex)) pipeline.settings.agentMaxSteps ex
  rw [htext, hevidence] at hcited huncited
  rw [hquestion, hprincipal] at huncited
  by_cases hcites : CitesFound pipeline index principal ex chunkId
  · obtain ⟨answer, w, hrun, hcase⟩ := hcited (strip_groundedText_ne ex chunkId) hcites
      (finalStop_answerable _) b
    exact ⟨answer, w, hrun, fun _ _ => hcase, fun _ hnot => absurd hcites hnot,
      fun hnot => absurd hreaches hnot⟩
  · obtain ⟨answer, w, hrun, hcase⟩ := huncited (not_not.mp hcites) b
    exact ⟨answer, w, hrun, fun _ hcited => absurd hcited hcites, fun _ _ => ⟨b.backends, hcase⟩,
      fun hnot => absurd hreaches hnot⟩

/-- A loop that stopped early has no draft that cites anything. -/
theorem finalize_stoppedEarly (hstops : ¬ ReachesDraft pipeline index principal ex)
    (hquestion : turn.question = ex.question) (hprincipal : turn.principal = principal)
    (stop : StopReason) (b : Bench σ) :
    ∃ answer w, Prog.against (serveBench pipeline backend)
        (finalize (evalRuntime pipeline) turn (stoppedEarly pipeline index principal ex) stop) b
      = (answer, { b with backends := w })
      ∧ ScoredAs pipeline index principal ex backend chunkId
        (caseOf pipeline.settings.agentMaxSteps ex answer) := by
  have huncited : Uncited (stoppedEarly pipeline index principal ex) :=
    stoppedState_uncited _ leads_leadingTurns rfl
  obtain ⟨answer, w, hrun, hcase⟩ := @finalize_uncited _ pipeline _ backend turn
    (stoppedEarly pipeline index principal ex) stop pipeline.settings.agentMaxSteps ex
    (huncited.resolves _) b
  rw [hquestion, hprincipal] at hcase
  exact ⟨answer, w, hrun, fun hreaches => absurd hreaches hstops,
    fun hreaches => absurd hreaches hstops, fun _ => ⟨b.backends, hcase⟩⟩

/-- The loop of an example stops, and its turn is scored by where it does. -/
theorem loop_example
    (hsteady : Steady backend index pipeline.settings.agentMaxWallClockSeconds)
    (hdepth : 2 ≤ Runtime.maxDepth)
    (hquestion : turn.question = ex.question) (hprincipal : turn.principal = principal)
    (hb : b.Holds pipeline.settings.agentMaxCritiqueRounds (trajectory ex chunkId ++ ps)
      (critiques ex ++ cs)) :
    ∃ s stop, ∃ b' : Bench σ, (FollowsScript pipeline index principal ex →
        b'.Holds pipeline.settings.agentMaxCritiqueRounds ps cs)
      ∧ Prog.against (serveBench pipeline backend)
          (Prog.iterate (iteration (evalRuntime pipeline) turn)
            (pipeline.settings.agentMaxSteps.toNat + 1)
            (start (evalRuntime pipeline) turn pipeline.settings.agentBudget)) b
        = (some (.stopped s stop), b')
      ∧ ∃ answer w, Prog.against (serveBench pipeline backend)
          (finalize (evalRuntime pipeline) turn s stop) b' = (answer, { b' with backends := w })
        ∧ ScoredAs pipeline index principal ex backend chunkId
          (caseOf pipeline.settings.agentMaxSteps ex answer) := by
  by_cases hreaches : ReachesDraft pipeline index principal ex
  · obtain ⟨b', hb', hloop⟩ := iterate_reaches hsteady hdepth hreaches hquestion hprincipal hb
    exact ⟨_, _, b', hb', hloop, finalize_reaches hreaches hquestion hprincipal b'⟩
  · obtain ⟨stop, b', hloop⟩ :=
      iterate_stoppedEarly hsteady hdepth hreaches hquestion hprincipal hb
    exact ⟨_, stop, b', fun hfollows => absurd hfollows.reaches hreaches, hloop,
      finalize_stoppedEarly hreaches hquestion hprincipal stop b'⟩

omit [Runtime] in
theorem clamp_self (budget : Budget) : budget.clamp budget = budget := by
  simp [Budget.clamp]

/-- An example whose turns come next is scored by them. -/
theorem run_example
    (hsteady : Steady backend index pipeline.settings.agentMaxWallClockSeconds)
    (hdepth : 2 ≤ Runtime.maxDepth)
    (hb : b.Holds pipeline.settings.agentMaxCritiqueRounds (trajectory ex chunkId ++ ps)
      (critiques ex ++ cs)) :
    ∃ answer, ∃ b' : Bench σ, (FollowsScript pipeline index principal ex →
        b'.Holds pipeline.settings.agentMaxCritiqueRounds ps cs)
      ∧ Prog.against (serveBench pipeline backend)
          ((evalRuntime pipeline).run ex.question principal none) b = (some (.ok answer), b')
      ∧ ScoredAs pipeline index principal ex backend chunkId
        (caseOf pipeline.settings.agentMaxSteps ex answer) := by
  obtain ⟨traceId, w₁, htrace⟩ : ∃ traceId w, serveBench pipeline backend b .startTrace
      = (traceId, { b with backends := w }) :=
    ⟨_, _, @serveBench_backends _ pipeline _ backend .startTrace rfl b⟩
  obtain ⟨version, w, hversion⟩ : ∃ version w,
      serveBench pipeline backend { b with backends := w₁ } .activeIndexVersion
        = (version, { b with backends := w }) :=
    ⟨_, _, @serveBench_backends _ pipeline _ backend .activeIndexVersion rfl _⟩
  obtain ⟨toolSpecs, hspecs⟩ : ∃ toolSpecs, Prog.against (serveBench pipeline backend)
      (specs (evalRuntime pipeline).tools (evalRuntime pipeline).allowEgress)
        { b with backends := w } = (.ok toolSpecs, { b with backends := w }) := ⟨_, rfl⟩
  have hready : Bench.Holds { b with backends := w } pipeline.settings.agentMaxCritiqueRounds
      (trajectory ex chunkId ++ ps) (critiques ex ++ cs) :=
    ⟨hb.planner, hb.plannerName, hb.critic, hb.criticName⟩
  let turn : Turn := ⟨ex.question, principal, traceId, version, toolSpecs⟩
  obtain ⟨s, stop, b₁, hb₁, hloop, answer, w', hanswer, hscored⟩ :=
    @loop_example _ pipeline index principal ex turn _ _ _ _ backend _ hsteady hdepth rfl rfl hready
  refine ⟨answer, { b₁ with backends := w' }, ?_, ?_, hscored⟩
  · intro hfollows
    have hnext := hb₁ hfollows
    exact ⟨hnext.planner, hnext.plannerName, hnext.critic, hnext.criticName⟩
  have hbudget : Budget.clamp ((none : Option Budget).getD (evalRuntime pipeline).budget)
      (evalRuntime pipeline).budget = pipeline.settings.agentBudget := clamp_self _
  unfold AgentRuntime.run
  rw [Prog.perform_bind, Prog.against_call, htrace]
  dsimp only
  rw [Prog.perform_bind, Prog.against_call, hversion]
  dsimp only
  rw [Prog.against_bind_of hspecs]
  dsimp only
  rw [hbudget]
  change Prog.against _ (Prog.iterate (iteration (evalRuntime pipeline) turn)
    (pipeline.settings.agentMaxSteps.toNat + 1) _ >>= _) _ = _
  rw [Prog.against_bind_of hloop]
  change Prog.against _ ((finalize (evalRuntime pipeline) turn _ _ >>= fun answer =>
    pure (Except.ok answer)) >>= _) b₁ = _
  rw [Prog.against_bind, Prog.against_bind_of hanswer]
  rfl

/-- The next example of a set is scored before the others are run. -/
theorem runCases_cons {defaultTenant : String}
    (hsteady : Steady backend index pipeline.settings.agentMaxWallClockSeconds)
    (hdepth : 2 ≤ Runtime.maxDepth)
    (hb : b.Holds pipeline.settings.agentMaxCritiqueRounds (trajectory ex chunkId ++ ps)
      (critiques ex ++ cs)) :
    ∃ result, ∃ b' : Bench σ, (FollowsScript pipeline index (evalPrincipal defaultTenant) ex →
        b'.Holds pipeline.settings.agentMaxCritiqueRounds ps cs)
      ∧ ScoredAs pipeline index (evalPrincipal defaultTenant) ex backend chunkId result
      ∧ ∀ rest, (Prog.against (serveBench pipeline backend)
          ((evalRunner pipeline defaultTenant).runCases (ex :: rest)) b).1
        = (Prog.against (serveBench pipeline backend)
          ((evalRunner pipeline defaultTenant).runCases rest) b').1.map
            fun cases => cases.map fun cases => result :: cases := by
  obtain ⟨answer, b', hb', hrun, hscored⟩ :=
    @run_example _ pipeline index (evalPrincipal defaultTenant) ex chunkId _ _ _ backend _ hsteady
      hdepth hb
  refine ⟨_, b', hb', hscored, fun rest => ?_⟩
  rw [AgentEvalRunner.runCases]
  change (Prog.against _ ((evalRuntime pipeline).run ex.question (evalPrincipal defaultTenant) none
    >>= _) b).1 = _
  rw [Prog.against_bind_of hrun]
  dsimp only
  rw [Prog.against_bind]
  rfl

/-- Examples that take all their turns are scored one by one and leave the scripts to the others. -/
theorem runCases_append {defaultTenant : String} {before rest : List GoldenExample}
    (hsteady : Steady backend index pipeline.settings.agentMaxWallClockSeconds)
    (hdepth : 2 ≤ Runtime.maxDepth)
    (h : ∀ ex ∈ before, FollowsScript pipeline index (evalPrincipal defaultTenant) ex)
    (hb : b.Holds pipeline.settings.agentMaxCritiqueRounds
      ((before ++ rest).flatMap fun ex => trajectory ex chunkId)
      ((before ++ rest).flatMap critiques)) :
    ∃ cases, ∃ b' : Bench σ, b'.Holds pipeline.settings.agentMaxCritiqueRounds
        (rest.flatMap fun ex => trajectory ex chunkId) (rest.flatMap critiques)
      ∧ List.Forall₂ (fun ex result =>
          ScoredAs pipeline index (evalPrincipal defaultTenant) ex backend chunkId result)
        before cases
      ∧ (Prog.against (serveBench pipeline backend)
          ((evalRunner pipeline defaultTenant).runCases (before ++ rest)) b).1
        = (Prog.against (serveBench pipeline backend)
          ((evalRunner pipeline defaultTenant).runCases rest) b').1.map
            fun later => later.map fun later => cases ++ later := by
  induction before generalizing b with
  | nil =>
      refine ⟨[], b, hb, .nil, ?_⟩
      rw [List.nil_append]
      generalize (Prog.against (serveBench pipeline backend)
        ((evalRunner pipeline defaultTenant).runCases rest) b).1 = later
      rcases later with _ | exn | later <;> rfl
  | cons ex before ih =>
      obtain ⟨result, b₁, hb₁, hscored, hrun⟩ :=
        @runCases_cons _ pipeline index ex chunkId _ _ _ backend _ defaultTenant hsteady hdepth hb
      obtain ⟨cases, b', hb', hcases, hrest⟩ := ih
        (fun ex hex => h ex (List.mem_cons_of_mem _ hex)) (hb₁ (h ex List.mem_cons_self))
      refine ⟨result :: cases, b', hb', .cons hscored hcases, ?_⟩
      rw [List.cons_append, hrun, hrest]
      generalize (Prog.against (serveBench pipeline backend)
        ((evalRunner pipeline defaultTenant).runCases rest) b').1 = later
      rcases later with _ | exn | later <;> rfl

end Run

end Rag
