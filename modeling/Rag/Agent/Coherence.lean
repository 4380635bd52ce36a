import Rag.Agent.Provenance
import Rag.Agent.Transcript

/-!
What a turn stores and cites belongs to the index version it resolved.

`fits version source` stands for "the chunk of this source is of this version". A turn that
gets one version whenever it asks for the active one, sources of that version from its tools
and from the result cache sources of the version they are kept under, stores and cites
nothing else.
-/

namespace Rag

open Py Interaction AgentRuntime

section Coherence

variable (fits : String → Source → Prop)

def SourcesFit (version : String) (result : ToolResult) : Prop :=
  ∀ source ∈ result.sources, fits version source

/-- The answers of a service whose active version is `version`. -/
def AnswersFit (version : String) : (o : AgentOp) → AgentResp o → Prop
  | .activeIndexVersion, r => r = version
  | .runTool _ _ _ _, r => ∀ result, r = .ok result → SourcesFit fits version result
  | .toolCacheGet key, r => ∀ result, r = .ok (some result) →
      SourcesFit fits key.indexVersion result
  | _, _ => True

/-- A result is stored under the version its sources belong to. -/
def StoresFit : AgentOp → Prop
  | .toolCacheSet key result => SourcesFit fits key.indexVersion result
  | _ => True

/-- An answer the agent gave itself names the version and cites sources of it. -/
def AnswerFits (version : String) (answer : AgentAnswer) : Prop :=
  answer.fallbackUsed = false → answer.indexVersion = version
    ∧ ∀ c ∈ answer.citations, ∃ source, fits version source ∧ c = citationFromSource source

variable {fits} {version : String}

theorem answersFit_inhabited (o : AgentOp) : ∃ r, AnswersFit fits version o r := by
  have r : AgentResp o := Classical.ofNonempty
  cases o with
  | activeIndexVersion => exact ⟨version, rfl⟩
  | runTool => exact ⟨.error .deadline, by rintro result ⟨⟩⟩
  | toolCacheGet key => exact ⟨.ok none, by rintro result ⟨⟩⟩
  | _ => exact ⟨r, trivial⟩

theorem storesFit_of_listing {o : AgentOp} (h : o.isListing = true) : StoresFit fits o := by
  cases o <;> trivial

theorem storesFit_of_ending {o : AgentOp} (h : o.isEnding = true) : StoresFit fits o := by
  cases o <;> trivial

section Tools

variable [Runtime] {registry : ToolRegistry}

/-- What a call comes to under this version. -/
def OutcomeFits (fits : String → Source → Prop) (version : String)
    (r : Except Failure ToolResult) : Prop :=
  ∀ result, r = .ok result → SourcesFit fits version result

omit [Runtime] in
theorem outcomeFits_error (failure : Failure) : OutcomeFits fits version (.error failure) := by
  rintro result ⟨⟩

omit [Runtime] in
theorem outcomeFits_failed (call : ToolCall) (error : String) :
    OutcomeFits fits version (.ok (call.failed error)) := by
  rintro result ⟨⟩ source hsource
  cases hsource

omit [Runtime] in
theorem runFresh_fits (principal : Principal) (call : ToolCall)
    (arguments : List (String × Json)) (budget : BudgetTracker) {key : ToolKey}
    (hkey : key.indexVersion = version) :
    Prog.Spec (AnswersFit fits version) (StoresFit fits)
      (runFresh registry principal call arguments budget key) (OutcomeFits fits version) := by
  refine ⟨trivial, ?_⟩
  rintro ((exn | _) | result) hresult
  · exact outcomeFits_failed _ _
  · exact outcomeFits_error _
  · have hfits : SourcesFit fits version result := hresult result rfl
    change Prog.Spec _ _ (storeResult registry key (call.identify result)) _
    unfold storeResult
    split_ifs
    · refine ⟨by rw [← hkey] at hfits; exact hfits, ?_⟩
      rintro (exn | _) -
      · exact outcomeFits_error _
      · rintro _ ⟨⟩
        exact hfits
    · rintro _ ⟨⟩
      exact hfits

theorem runChecked_fits (principal : Principal) (call : ToolCall)
    (arguments : List (String × Json)) (budget : BudgetTracker) :
    Prog.Spec (AnswersFit fits version) (StoresFit fits)
      (runChecked registry principal version call arguments budget)
      (OutcomeFits fits version) := by
  unfold runChecked cachedResult
  dsimp only
  split_ifs
  · refine ⟨trivial, ?_⟩
    rintro (exn | _ | cached) hcached
    · exact outcomeFits_error _
    · exact runFresh_fits principal call arguments budget rfl
    · rintro _ ⟨⟩
      exact hcached cached rfl
  · exact runFresh_fits principal call arguments budget rfl

theorem execute_fits (allowEgress : Bool) (principal : Principal) (call : ToolCall)
    (budget : BudgetTracker) :
    Prog.Spec (AnswersFit fits version) (StoresFit fits)
      (execute registry allowEgress principal version call budget)
      (OutcomeFits fits version) := by
  refine ⟨trivial, fun _ _ => ?_⟩
  change Prog.Spec _ _ (dispatch registry allowEgress principal version call budget) _
  unfold dispatch
  split
  · exact outcomeFits_failed _ _
  · rename_i tool _
    split_ifs
    · exact outcomeFits_failed _ _
    · refine ⟨trivial, ?_⟩
      rintro (exn | _ | _) -
      · exact outcomeFits_error _
      · exact outcomeFits_failed _ _
      · dsimp only
        split
        · split_ifs
          · exact outcomeFits_failed _ _
          · exact outcomeFits_error _
        · exact runChecked_fits _ _ _ _

theorem runTools_fits {rt : AgentRuntime} {turn : Turn} (hturn : turn.indexVersion = version)
    (calls : List ToolCall) (budget : BudgetTracker) :
    Prog.Spec (AnswersFit fits version) (StoresFit fits) (runTools rt turn calls budget)
      (Prog.Gathered (OutcomeFits fits version)) := by
  refine Prog.Spec.gather trivial ?_
  intro p hp
  obtain ⟨call, -, rfl⟩ := List.mem_map.mp hp
  rw [hturn]
  exact execute_fits _ _ _ _

omit [Runtime] in
theorem authorisedSources_fit {results : List ToolResult} (principal : Principal)
    (h : ∀ result ∈ results, SourcesFit fits version result) :
    ∀ source ∈ authorisedSources results principal, fits version source := by
  intro source hsource
  obtain ⟨result, hresult, hin⟩ := List.mem_flatMap.mp hsource
  split_ifs at hin
  · exact h result hresult source (List.mem_of_mem_filter hin)
  · cases hin

end Tools

section Answers

variable {rt : AgentRuntime} {t : List AgentEvent} {answer : AgentAnswer}

/-- An answer built without a version names the one that is active. -/
theorem buildAnswer_version {e : TurnEnd} {base : Answer} {fallbackUsed : Bool}
    {degradedReason : Option String}
    (hr : Prog.Runs (buildAnswer rt e base none fallbackUsed degradedReason) t answer)
    (hA : ∀ e ∈ t, AnswersFit fits version e.op e.resp) : answer.indexVersion = version := by
  obtain ⟨u, traceId, v, -, hv, rfl⟩ := (Prog.runs_bind_iff _ _ _ _).mp hr
  obtain ⟨resolved, w, rfl, hw⟩ := (Prog.runs_perform_bind_iff _ _ _ _).mp hv
  obtain ⟨-, rfl⟩ := (Prog.runs_ret_iff _ _ _).mp hw
  have hversion := hA ⟨.activeIndexVersion, resolved⟩ (by simp)
  exact hversion

theorem fallbackAnswer_fits {e : TurnEnd} {reason : String} {outcome : Except Exn Answer}
    (hr : Prog.Runs (fallbackAnswer rt e reason outcome) t answer)
    (hA : ∀ e ∈ t, AnswersFit fits version e.op e.resp) : AnswerFits fits version answer := by
  intro hown
  have hdegrades := (fallbackAnswer_runs hr).1
  cases outcome with
  | error exn =>
      refine ⟨buildAnswer_version hr hA, ?_⟩
      intro c hc
      rw [hdegrades.2.1] at hc
      cases hc
  | ok fallback =>
      rw [hdegrades.2.2.2] at hown
      cases hown

end Answers

/-- The ledger holds sources of the version only. -/
def LedgerFits (fits : String → Source → Prop) (version : String) (s : LoopState) : Prop :=
  ∀ source ∈ s.ledger.sources, fits version source

/-- What a way out of the loop leaves to `leave`. -/
def ExitFits (fits : String → Source → Prop) (version : String) : LoopExit → Prop
  | .stopped s _ => LedgerFits fits version s
  | .deadline s => LedgerFits fits version s
  | .raised s _ => LedgerFits fits version s
  | .returned answer => AnswerFits fits version answer

section Loop

variable [Runtime] {rt : AgentRuntime} {turn : Turn} {s : LoopState} {t : List AgentEvent}
  {x : LoopState ⊕ LoopExit}

omit [Runtime] in
theorem acted_fits (hs : LedgerFits fits version s) {completion : ChatCompletion}
    {calls : List ToolCall} {results : List ToolResult}
    (h : ∀ result ∈ results, SourcesFit fits version result) :
    LedgerFits fits version (acted turn (charged s completion) completion calls results) := by
  intro source hsource
  rcases EvidenceLedger.mem_add (EvidenceLedger.mem_sources.mp hsource) with hnew | hold
  · exact authorisedSources_fit turn.principal h source hnew
  · exact hs source (EvidenceLedger.mem_sources.mpr hold)

theorem planned_fits {r : Except Failure ChatCompletion} (hturn : turn.indexVersion = version)
    (hs : LedgerFits fits version s) (hp : Planned rt turn s r t x)
    (hA : ∀ e ∈ t, AnswersFit fits version e.op e.resp) :
    (∀ e ∈ t, StoresFit fits e.op)
      ∧ Sum.elim (LedgerFits fits version) (ExitFits fits version) x := by
  cases hp with
  | deadline => exact ⟨by simp, hs⟩
  | fallbackLate exn outcome => exact ⟨by simp [StoresFit], hs⟩
  | fallback exn outcome u answer hu =>
      have hclosing := (fallbackAnswer_asks _ _ _ _).steps hu
      refine ⟨?_, fallbackAnswer_fits hu fun e he => hA e (by simp [he])⟩
      intro e he
      rcases List.mem_cons.mp he with rfl | he
      · trivial
      rcases List.mem_cons.mp he with rfl | he
      · trivial
      · exact storesFit_of_ending (AgentOp.isEnding_of_isClosing (hclosing e he))
  | toolsFailed c u failure hcalls hu =>
      obtain ⟨hstores, -⟩ := (runTools_fits hturn _ _).runs hu hA
      refine ⟨hstores, ?_⟩
      cases failure <;> exact hs
  | acted c u results hcalls hu =>
      obtain ⟨hstores, hok, -⟩ := (runTools_fits hturn _ _).runs hu hA
      refine ⟨hstores, acted_fits hs ?_⟩
      intro result hresult
      exact hok results rfl result hresult result rfl
  | nudged c hcalls hdraft => exact ⟨by simp, hs⟩
  | exhausted c hcalls hdraft hspent => exact ⟨by simp, hs⟩
  | criticFailed c hcalls hdraft hopen failure =>
      refine ⟨by simp [StoresFit], ?_⟩
      cases failure <;> exact hs
  | unreadable c hcalls hdraft hopen judgement exn hparse => exact ⟨by simp [StoresFit], hs⟩
  | approved c hcalls hdraft hopen judgement verdict hparse hverdict =>
      exact ⟨by simp [StoresFit], hs⟩
  | rejected c hcalls hdraft hopen judgement verdict hparse hverdict =>
      exact ⟨by simp [StoresFit], hs⟩

theorem iteration_fits (hturn : turn.indexVersion = version) (hs : LedgerFits fits version s) :
    Prog.Spec (AnswersFit fits version) (StoresFit fits) (iteration rt turn s)
      (Sum.elim (LedgerFits fits version) (ExitFits fits version)) := by
  apply Prog.Spec.of_complete answersFit_inhabited
  intro t x hr hA
  cases iteration_pass hr with
  | spent hspent => exact ⟨by simp, hs⟩
  | late elapsed hopen hlate => exact ⟨by simp [StoresFit], hs⟩
  | planned elapsed r u x hopen htime hplanned =>
      have hstepped : LedgerFits fits version (stepped s) := hs
      obtain ⟨hstores, hx⟩ := planned_fits hturn hstepped hplanned fun e he => hA e (by simp [he])
      refine ⟨?_, hx⟩
      intro e he
      rcases List.mem_cons.mp he with rfl | he
      · trivial
      rcases List.mem_cons.mp he with rfl | he
      · trivial
      · exact hstores e he

theorem finalize_fits {stop : StopReason} {answer : AgentAnswer} (hs : LedgerFits fits version s)
    (hr : Prog.Runs (finalize rt turn s stop) t answer)
    (hA : ∀ e ∈ t, AnswersFit fits version e.op e.resp) : AnswerFits fits version answer := by
  rcases finalize_runs hr with ⟨-, -, -, ⟨e, base, hbuilt⟩, hcitations⟩
    | ⟨outcome, u, e, reason, rfl, -, hu⟩
  · intro _
    refine ⟨buildAnswer_version hbuilt hA, ?_⟩
    intro c hc
    rw [hcitations] at hc
    obtain ⟨source, hsource, rfl⟩ := mem_resolveSourceCitations hc
    exact ⟨source, hs source (List.mem_of_mem_filter hsource), rfl⟩
  · exact fallbackAnswer_fits hu fun e he => hA e (List.mem_cons_of_mem _ he)

theorem leave_fits {exit : LoopExit} {answer : AgentAnswer} (he : ExitFits fits version exit)
    (hr : Prog.Runs (leave rt turn exit) t (.ok answer))
    (hA : ∀ e ∈ t, AnswersFit fits version e.op e.resp) : AnswerFits fits version answer := by
  have hleave := leave_runs hr
  cases exit with
  | stopped s stop =>
      obtain ⟨_, ⟨⟩, hfinal⟩ := hleave
      exact finalize_fits he hfinal hA
  | deadline s =>
      obtain ⟨_, ⟨⟩, hfinal⟩ := hleave
      exact finalize_fits he hfinal hA
  | returned out =>
      obtain ⟨rfl, ⟨⟩⟩ := hleave
      exact he
  | raised s exn =>
      rcases hleave with ⟨-, _, ⟨⟩, hfinal⟩ | ⟨-, -, ⟨⟩⟩
      exact finalize_fits he hfinal hA

end Loop

section Turns

variable [Runtime] {rt : AgentRuntime} {question : String} {principal : Principal}
  {budget : Option Budget}

omit [Runtime] in
theorem Opening.version_eq {turn : Turn} {pre : List AgentEvent}
    (h : Opening rt question principal turn pre)
    (hA : ∀ e ∈ pre, AnswersFit fits version e.op e.resp) : turn.indexVersion = version := by
  obtain ⟨u, -, rfl⟩ := h.events
  have hversion := hA ⟨.activeIndexVersion, turn.indexVersion⟩ (by simp)
  exact hversion

omit [Runtime] in
theorem Opening.storesFit {turn : Turn} {pre : List AgentEvent}
    (h : Opening rt question principal turn pre) : ∀ e ∈ pre, StoresFit fits e.op := by
  obtain ⟨u, hu, rfl⟩ := h.events
  intro e he
  rcases List.mem_cons.mp he with rfl | he
  · trivial
  rcases List.mem_cons.mp he with rfl | he
  · trivial
  · exact storesFit_of_listing ((specs_asks _ _).steps hu e he)

omit [Runtime] in
theorem start_fits (turn : Turn) (effective : Budget) :
    LedgerFits fits version (start rt turn effective) := by
  intro source hsource
  cases EvidenceLedger.mem_sources.mp hsource

/-- A turn under one version stores and cites what belongs to it. -/
theorem run_fits : Prog.Spec (AnswersFit fits version) (StoresFit fits)
    (run rt question principal budget)
    fun out => ∀ answer, out = some (.ok answer) → AnswerFits fits version answer := by
  apply Prog.Spec.of_complete answersFit_inhabited
  intro t out hr hA
  have hloop : ∀ {turn : Turn} {pre loop : List AgentEvent} {n effective out},
      Opening rt question principal turn pre →
      Prog.Runs (Prog.iterate (iteration rt turn) n (start rt turn effective)) loop out →
      (∀ e ∈ pre, AnswersFit fits version e.op e.resp) →
      (∀ e ∈ loop, AnswersFit fits version e.op e.resp) →
      (∀ e ∈ loop, StoresFit fits e.op) ∧ ∀ exit, out = some exit → ExitFits fits version exit := by
    intro turn pre loop n effective out hopen hrun hpre hin
    have hturn := hopen.version_eq hpre
    have hround : ∀ s, LedgerFits fits version s →
        Prog.Spec (AnswersFit fits version) (StoresFit fits) (iteration rt turn s)
          (Sum.elim (LedgerFits fits version) (ExitFits fits version)) :=
      fun s hs => iteration_fits hturn hs
    have hspec := Prog.Spec.iterate hround n (start rt turn effective) (start_fits turn effective)
    exact hspec.runs hrun hin
  cases run_cases hr with
  | unlisted traceId version' u exn hu =>
      refine ⟨?_, by rintro answer ⟨⟩⟩
      intro e he
      rcases List.mem_cons.mp he with rfl | he
      · trivial
      rcases List.mem_cons.mp he with rfl | he
      · trivial
      · exact storesFit_of_listing ((specs_asks _ _).steps hu e he)
  | unfinished turn pre loop hopen hrun =>
      obtain ⟨hstores, -⟩ := hloop hopen hrun
        (fun e he => hA e (List.mem_append_left _ he))
        fun e he => hA e (List.mem_append_right _ he)
      refine ⟨?_, by rintro answer ⟨⟩⟩
      intro e he
      rcases List.mem_append.mp he with he | he
      · exact hopen.storesFit e he
      · exact hstores e he
  | finished turn pre loop post exit out hopen hrun hleave =>
      have hpost : ∀ e ∈ post, AnswersFit fits version e.op e.resp := by
        intro e he
        exact hA e (List.mem_append_right _ (List.mem_append_right _ he))
      obtain ⟨hstores, hexit⟩ := hloop hopen hrun
        (fun e he => hA e (List.mem_append_left _ he))
        fun e he => hA e (List.mem_append_right _ (List.mem_append_left _ he))
      constructor
      · intro e he
        rcases List.mem_append.mp he with he | he
        · exact hopen.storesFit e he
        rcases List.mem_append.mp he with he | he
        · exact hstores e he
        · exact storesFit_of_ending ((leave_asks _ _ _).steps hleave e he)
      · rintro answer ⟨⟩
        exact leave_fits (hexit exit rfl) hleave hpost

end Turns

end Coherence

end Rag
