import Rag.Agent.Admission
import Rag.Lib.Strip

/-!
What a turn lets its principal and its models see.

A `View` says which tool results, sources and citations may be shown, and what the models
said. While the tools and the result cache hand out results of the view, and the tools raise what
the view tells, a turn asks its models about nothing else, keeps nothing else in the result cache,
and answers with nothing else, trace included (`run_seen`).
-/

namespace Rag

open Py Interaction AgentRuntime

/-- The error text of a failed call: what the registry says of the call against its tools, or
the exception of a tool. -/
inductive ToolFault [Runtime] (asked : ToolCall → Prop) (tools : Set Tool) (raised : Exn → Prop) :
    String → Prop
  | unknownTool {call : ToolCall} (h : asked call) :
      ToolFault asked tools raised ("unknown_tool:" ++ call.name)
  | egressDenied : ToolFault asked tools raised "egress_denied"
  | unavailable {call : ToolCall} (h : asked call) :
      ToolFault asked tools raised ("tool_unavailable:" ++ call.name)
  | invalidArguments {call : ToolCall} (h : asked call) {tool : Tool} (htool : tool ∈ tools)
      {exn : Exn} (hexn : validateArguments call.arguments tool.parameters = .error exn) :
      ToolFault asked tools raised ("invalid_arguments:" ++ exn.text)
  | raised {exn : Exn} (h : raised exn) :
      ToolFault asked tools raised (exn.name ++ ": " ++ exn.text)

/-- What may be shown to somebody, and what models said where it was shown. -/
structure View [Runtime] where
  result : ToolResult → Prop
  source : Source → Prop
  citation : Citation → Prop
  said : Message → Prop
  call : ToolCall → Prop
  tools : Set Tool
  raised : Exn → Prop
  text : String → Prop
  failed : ∀ {asked : ToolCall} {error : String}, call asked → ToolFault call tools raised error →
    result (asked.failed error)
  identified : ∀ {asked : ToolCall} {given : ToolResult}, call asked → result given →
    result (asked.identify given)
  anonymous : ∀ {given : ToolResult}, result given → result { given with callId := "" }
  sources : ∀ {given : ToolResult}, result given → ∀ s ∈ given.sources, source s
  cited : ∀ {s : Source}, source s → citation (citationFromSource s)
  requested : ∀ {message : Message}, said message → ∀ c ∈ message.toolCalls, call c
  spoken : ∀ {message : Message}, said message → text (strip message.content)
  redacted : ∀ {t : String}, text t → text (redactPii t)
  unknown : text "I don't know based on the available documents."

namespace View

variable [Runtime] (view : View)

/-- The text a model gave as a draft. -/
def Drafts (draft : String) : Prop := ∃ message, view.said message ∧ draft = strip message.content

/-- The verdict is what a model said. -/
def Rules (verdict : Verdict) : Prop :=
  ∃ message, view.said message ∧ parseVerdict message.content = .ok verdict

/-- A message of the turn: the runtime's own for this question, a model's, or a tool's. -/
inductive Tells (question : String) : Message → Prop
  | system : Tells question { role := .system, content := systemPrompt }
  | plan (rt : AgentRuntime) : Tells question
      { role := .user, content := planPrompt rt question { maxChars := rt.maxEvidenceChars } [] }
  | draft : Tells question { role := .user, content := draftRequest }
  | critique {verdict : Verdict} (h : view.Rules verdict) : Tells question
      { role := .user, content := critiqueRequest (missingHints verdict) }
  | said {message : Message} (h : view.said message) : Tells question message
  | given {given : ToolResult} (h : view.result given) : Tells question (toolMessage given)

/-- The critic is asked about a draft of a model and sources of the view. -/
def Judges (question : String) (messages : List Message) : Prop :=
  ∃ version draft sources maxChars, view.Drafts draft ∧ (∀ s ∈ sources, view.source s)
    ∧ messages = [{
      role := .user
      content := agentCritiquePrompt version question draft (renderSources sources maxChars 500) }]

/-- The text and the citations of an answer are of the view. -/
structure Offers (answer : Answer) : Prop where
  text : view.text answer.text
  citations : ∀ c ∈ answer.citations, view.citation c

/-- Tools, cache and pipeline hand out what may be shown, and models say what they say. -/
def Answers : (o : AgentOp) → AgentResp o → Prop
  | .chat _ _, r => ∀ completion, r = .ok completion → view.said completion.message
  | .critique _, r => ∀ completion, r = .ok completion → view.said completion.message
  | .runTool _ _ _ _, r => (∀ given, r = .ok given → view.result given)
      ∧ ∀ exn, r = .error (.raised exn) → view.raised exn
  | .toolCacheGet _, r => ∀ given, r = .ok (some given) → view.result given
  | .answer _ _, r => ∀ answer, r = .ok answer → view.Offers answer
  | _, _ => True

/-- Models are shown nothing but the view, and everything is asked for the principal. -/
def Asks (question : String) (principal : Principal) : AgentOp → Prop
  | .chat messages _ => ∀ message ∈ messages, view.Tells question message
  | .critique messages => view.Judges question messages
  | .runTool name arguments p _ => p = principal
      ∧ ∃ call, view.call call ∧ call.name = name ∧ call.arguments = arguments
  | .toolCacheGet key => key.acl = aclFingerprint principal
  | .toolCacheSet key given => key.acl = aclFingerprint principal ∧ view.result given
  | .answer q p => q = question ∧ p = principal
  | _ => True

/-- A step tells what a model thought, asked for or drafted, and results of the view. -/
structure Step (step : AgentStep) : Prop where
  thought : ∃ message, view.said message
    ∧ (step.thought = message.content ∨ step.thought = strip message.content
      ∨ ∃ verdict, parseVerdict message.content = .ok verdict
        ∧ step.thought = join "; " verdict.reasons)
  calls : ∀ c ∈ step.toolCalls, view.call c
  results : ∀ given ∈ step.toolResults, view.result given
  draft : ∀ draft ∈ step.draft, view.Drafts draft

/-- The trace tells of nothing but the view. -/
structure Traces (trace : AgentTrace) : Prop where
  sources : ∀ s ∈ trace.sources, view.source s
  steps : ∀ step ∈ trace.steps, view.Step step

/-- The answer shows nothing but the view. -/
structure Shows (answer : AgentAnswer) : Prop where
  offers : view.Offers answer.toAnswer
  verdict : ∀ verdict ∈ answer.criticVerdict, view.Rules verdict
  trace : ∀ trace ∈ answer.trace, view.Traces trace

/-- What a turn has gathered is of the view. -/
structure Seen (question : String) (s : LoopState) : Prop where
  ledger : ∀ source ∈ s.ledger.sources, view.source source
  steps : ∀ step ∈ s.steps, view.Step step
  messages : ∀ message ∈ s.messages, view.Tells question message
  draft : ∀ draft ∈ s.draft, view.Drafts draft
  verdict : ∀ verdict ∈ s.verdict, view.Rules verdict

def ExitSeen (question : String) : LoopExit → Prop
  | .stopped s _ => view.Seen question s
  | .deadline s => view.Seen question s
  | .raised s _ => view.Seen question s
  | .returned answer => view.Shows answer

variable {view} {question : String} {principal : Principal} {o : AgentOp}

theorem asks_of_listing (h : o.isListing = true) : view.Asks question principal o := by
  cases o <;> trivial

end View

section Tools

variable [Runtime] {view : View} {registry : ToolRegistry} {question : String}
  (principal : Principal) (indexVersion : String) {call : ToolCall} (budget : BudgetTracker)

/-- What the registry says of its tools may be told. -/
def View.Lists (view : View) (registry : ToolRegistry) : Prop :=
  ∀ tool ∈ registry.tools, tool ∈ view.tools

/-- A call that ends with a result ends with one of the view. -/
def View.Ends (view : View) (r : Except Failure ToolResult) : Prop :=
  ∀ given, r = .ok given → view.result given

theorem ends_error (failure : Failure) : view.Ends (.error failure) := by
  rintro given ⟨⟩

theorem ends_ok {given : ToolResult} (h : view.result given) : view.Ends (.ok given) := by
  rintro _ ⟨⟩
  exact h

theorem runFresh_seen (hcall : view.call call) {key : ToolKey}
    (hkey : key.acl = aclFingerprint principal) :
    Prog.Spec view.Answers (view.Asks question principal)
      (runFresh registry principal call call.arguments budget key) view.Ends := by
  refine ⟨⟨rfl, call, hcall, rfl, rfl⟩, ?_⟩
  rintro ((exn | _) | given) hgiven
  · exact ends_ok (view.failed hcall (.raised (hgiven.2 exn rfl)))
  · exact ends_error _
  · have hshown := view.identified hcall (hgiven.1 given rfl)
    show Prog.Spec _ _ (storeResult registry key (call.identify given)) _
    rw [storeResult]
    split_ifs
    · refine ⟨⟨hkey, view.anonymous hshown⟩, ?_⟩
      rintro (exn | _) -
      · exact ends_error _
      · exact ends_ok hshown
    · exact ends_ok hshown

theorem runChecked_seen (hcall : view.call call) :
    Prog.Spec view.Answers (view.Asks question principal)
      (runChecked registry principal indexVersion call call.arguments budget) view.Ends := by
  rw [runChecked, cachedResult]
  split_ifs
  · refine ⟨rfl, ?_⟩
    rintro (exn | _ | cached) hcached
    · exact ends_error _
    · exact runFresh_seen principal budget hcall rfl
    · exact ends_ok (view.identified hcall (hcached cached rfl))
  · exact runFresh_seen principal budget hcall rfl

theorem execute_seen (hlists : view.Lists registry) (hcall : view.call call) (allowEgress : Bool) :
    Prog.Spec view.Answers (view.Asks question principal)
      (execute registry allowEgress principal indexVersion call budget) view.Ends := by
  refine ⟨trivial, fun _ _ => ?_⟩
  show Prog.Spec _ _ (dispatch registry allowEgress principal indexVersion call budget) _
  unfold dispatch
  split
  · exact ends_ok (view.failed hcall (.unknownTool hcall))
  · rename_i tool hget
    have htool : tool ∈ view.tools := hlists tool (List.mem_of_find?_eq_some hget)
    split_ifs
    · exact ends_ok (view.failed hcall .egressDenied)
    · refine ⟨trivial, ?_⟩
      rintro (exn | _ | _) -
      · exact ends_error _
      · exact ends_ok (view.failed hcall (.unavailable hcall))
      · dsimp only
        split
        · rename_i exn hexn
          split_ifs
          · exact ends_ok (view.failed hcall (.invalidArguments hcall htool hexn))
          · exact ends_error _
        · rename_i arguments harguments
          rw [validateArguments_ok harguments]
          exact runChecked_seen principal indexVersion budget hcall

end Tools

section Loop

variable [Runtime] {view : View} {rt : AgentRuntime} {turn : Turn} {s : LoopState}

theorem runTools_seen (hlists : view.Lists rt.tools) {calls : List ToolCall}
    (hcalls : ∀ c ∈ calls, view.call c) (budget : BudgetTracker) :
    Prog.Spec view.Answers (view.Asks turn.question turn.principal)
      (runTools rt turn calls budget) (Prog.Gathered view.Ends) := by
  refine Prog.Spec.gather trivial ?_
  intro p hp
  obtain ⟨call, hmem, rfl⟩ := List.mem_map.mp hp
  exact execute_seen _ _ _ hlists (hcalls call hmem) _

namespace View.Seen

variable {completion : ChatCompletion} {question : String}

theorem charged (hs : view.Seen question s) : view.Seen question (charged s completion) :=
  ⟨hs.ledger, hs.steps, hs.messages, hs.draft, hs.verdict⟩

theorem stepped (hs : view.Seen question s) : view.Seen question (stepped s) :=
  ⟨hs.ledger, hs.steps, hs.messages, hs.draft, hs.verdict⟩

theorem critiqued (hs : view.Seen question s) : view.Seen question (critiqued s) :=
  ⟨hs.ledger, hs.steps, hs.messages, hs.draft, hs.verdict⟩

/-- One more step of the view. -/
theorem noted (hs : view.Seen question s) {step : AgentStep} (hstep : view.Step step) :
    ∀ other ∈ s.steps ++ [step], view.Step other := by
  intro other hother
  rcases List.mem_append.mp hother with hold | hnew
  · exact hs.steps other hold
  · rwa [List.mem_singleton.mp hnew]

/-- More messages of the view. -/
theorem told (hs : view.Seen question s) {more : List Message}
    (hmore : ∀ message ∈ more, view.Tells question message) :
    ∀ message ∈ s.messages ++ more, view.Tells question message := by
  intro message hmessage
  rcases List.mem_append.mp hmessage with hold | hnew
  · exact hs.messages message hold
  · exact hmore message hnew

theorem drafted (hs : view.Seen question s) (hsaid : view.said completion.message) :
    view.Seen question (drafted s completion) := by
  have hdraft : ∀ draft ∈ some (strip completion.text), view.Drafts draft := by
    rintro _ ⟨⟩
    exact ⟨_, hsaid, rfl⟩
  refine ⟨hs.ledger, hs.noted ⟨⟨_, hsaid, Or.inr (Or.inl rfl)⟩, ?_, ?_, ?_⟩, hs.messages, hdraft,
    hs.verdict⟩
  · rintro c ⟨⟩
  · rintro given ⟨⟩
  · exact hdraft

theorem judged {draft : String} {verdict : Verdict} {usage : Usage} (hs : view.Seen question s)
    (hdraft : view.Drafts draft) (hverdict : view.Rules verdict) :
    view.Seen question (judged s draft verdict usage) := by
  obtain ⟨message, hsaid, hparse⟩ := hverdict
  refine ⟨hs.ledger, hs.noted ⟨⟨message, hsaid, Or.inr (Or.inr ⟨verdict, hparse, rfl⟩)⟩, ?_, ?_,
    ?_⟩, hs.messages, hs.draft, ?_⟩
  · rintro c ⟨⟩
  · rintro given ⟨⟩
  · rintro _ ⟨⟩
    exact hdraft
  · rintro _ ⟨⟩
    exact ⟨message, hsaid, hparse⟩

theorem nudged (hs : view.Seen question s) (hsaid : view.said completion.message) :
    view.Seen question (nudged s completion) := by
  refine ⟨hs.ledger, hs.steps, hs.told ?_, hs.draft, hs.verdict⟩
  simp only [List.mem_cons, List.not_mem_nil, or_false]
  rintro message (rfl | rfl)
  · exact .said hsaid
  · exact .draft

theorem rejected {verdict : Verdict} (hs : view.Seen question s)
    (hsaid : view.said completion.message) (hverdict : view.Rules verdict) :
    view.Seen question (rejected s completion verdict) := by
  refine ⟨hs.ledger, hs.steps, hs.told ?_, hs.draft, hs.verdict⟩
  simp only [List.mem_cons, List.not_mem_nil, or_false]
  rintro message (rfl | rfl)
  · exact .said hsaid
  · exact .critique hverdict

theorem acted {results : List ToolResult} (hs : view.Seen question s)
    (hsaid : view.said completion.message) (hresults : ∀ given ∈ results, view.result given) :
    view.Seen question (acted turn s completion (allowedCalls s completion) results) := by
  refine ⟨?_, hs.noted ⟨⟨_, hsaid, Or.inl rfl⟩, ?_, hresults, ?_⟩, hs.told ?_, hs.draft,
    hs.verdict⟩
  · intro source hsource
    rcases EvidenceLedger.mem_add (EvidenceLedger.mem_sources.mp hsource) with hnew | hold
    · obtain ⟨given, hgiven, hin⟩ := List.mem_flatMap.mp hnew
      split_ifs at hin
      · exact view.sources (hresults given hgiven) source (List.mem_of_mem_filter hin)
      · cases hin
    · exact hs.ledger source (EvidenceLedger.mem_sources.mpr hold)
  · intro c hc
    exact view.requested hsaid c (takeInt_subset _ _ hc)
  · rintro draft ⟨⟩
  · intro message hmessage
    rcases List.mem_cons.mp hmessage with rfl | hmessage
    · exact .said hsaid
    · obtain ⟨given, hgiven, rfl⟩ := List.mem_map.mp hmessage
      exact .given (hresults given hgiven)

end View.Seen

variable {completion : ChatCompletion}

theorem act_seen (hlists : view.Lists rt.tools) (hs : view.Seen turn.question s)
    (hsaid : view.said completion.message) :
    Prog.Spec view.Answers (view.Asks turn.question turn.principal) (act rt turn s completion)
      (Sum.elim (view.Seen turn.question) (view.ExitSeen turn.question)) := by
  unfold act
  split_ifs
  · exact hs
  · rw [Prog.spec_bind]
    have hcalls : ∀ c ∈ allowedCalls s completion, view.call c := fun c hc =>
      view.requested hsaid c (takeInt_subset _ _ hc)
    refine (runTools_seen hlists hcalls _).mono ?_
    rintro ((exn | _) | results) hends
    · exact hs
    · exact hs
    · refine hs.acted hsaid ?_
      intro given hgiven
      exact hends.1 results rfl given hgiven given rfl

theorem evaluate_seen {draft : String} (hdraft : view.Drafts draft) {sources : List Source}
    (hsources : ∀ source ∈ sources, view.source source) :
    Prog.Spec view.Answers (view.Asks turn.question turn.principal)
      (evaluate rt turn draft sources)
      fun out => ∀ judgement, out = .ok judgement → view.Rules judgement.1 := by
  unfold evaluate
  simp only [AgentOp.ask, Prog.perform_bind]
  refine ⟨⟨_, draft, sources, _, hdraft, hsources, rfl⟩, ?_⟩
  rintro (failure | completion) hsaid
  · rintro judgement ⟨⟩
  · dsimp only
    cases hverdict : parseVerdict completion.text with
    | error exn => rintro judgement ⟨⟩
    | ok verdict =>
        rintro judgement ⟨⟩
        exact ⟨completion.message, hsaid completion rfl, hverdict⟩

theorem critique_seen {draft : String} (hdraft : view.Drafts draft)
    (hs : view.Seen turn.question s) (hsaid : view.said completion.message) :
    Prog.Spec view.Answers (view.Asks turn.question turn.principal)
      (critique rt turn s completion draft)
      (Sum.elim (view.Seen turn.question) (view.ExitSeen turn.question)) := by
  unfold critique
  extract_lets s'
  rw [Prog.spec_bind]
  refine (evaluate_seen hdraft hs.ledger).mono ?_
  rintro ((exn | _) | ⟨verdict, usage⟩) hrules
  · exact hs.critiqued
  · exact hs.critiqued
  · have hverdict := hrules _ rfl
    dsimp only
    split_ifs
    · exact hs.critiqued.judged hdraft hverdict
    · exact (hs.critiqued.judged hdraft hverdict).rejected hsaid hverdict

theorem plan_seen (hs : view.Seen turn.question s) (hsaid : view.said completion.message) :
    Prog.Spec view.Answers (view.Asks turn.question turn.principal) (plan rt turn s completion)
      (Sum.elim (view.Seen turn.question) (view.ExitSeen turn.question)) := by
  have hdraft : view.Drafts (strip completion.text) := ⟨_, hsaid, rfl⟩
  unfold plan
  extract_lets draft s'
  change view.Drafts draft at hdraft
  clear_value draft
  split_ifs
  · exact (hs.drafted hsaid).nudged hsaid
  · exact critique_seen hdraft (hs.drafted hsaid) hsaid
  · exact hs.drafted hsaid

section Endings

variable {e : TurnEnd} {base : Answer}

/-- What the end of a turn reports is of the view. -/
structure View.Closes (view : View) (e : TurnEnd) : Prop where
  steps : ∀ step ∈ e.steps, view.Step step
  sources : ∀ source ∈ e.sources, view.source source
  verdict : ∀ verdict ∈ e.verdict, view.Rules verdict

/-- What is built for the caller is of the view if its parts are. -/
theorem builtAnswer_seen (he : view.Closes e) (hbase : view.Offers base) (fallbackUsed : Bool)
    (degradedReason : Option String) (traceId indexVersion : String) :
    view.Shows (builtAnswer rt e base fallbackUsed degradedReason traceId indexVersion) := by
  refine ⟨⟨hbase.text, hbase.citations⟩, he.verdict, ?_⟩
  intro trace htrace
  rw [builtAnswer] at htrace
  split_ifs at htrace
  · cases htrace
    exact ⟨he.sources, he.steps⟩
  · cases htrace

theorem buildAnswer_seen (he : view.Closes e) (hbase : view.Offers base)
    (indexVersion : Option String) (fallbackUsed : Bool) (degradedReason : Option String) :
    Prog.Spec view.Answers (view.Asks turn.question turn.principal)
      (buildAnswer rt e base indexVersion fallbackUsed degradedReason) view.Shows := by
  have hbuilt : ∀ traceId version, view.Shows
      (builtAnswer rt e base fallbackUsed degradedReason traceId version) :=
    fun traceId version => builtAnswer_seen he hbase fallbackUsed degradedReason traceId version
  have hversion : ∀ traceId, Prog.Spec view.Answers (view.Asks turn.question turn.principal)
      (versionOr indexVersion >>= fun version =>
        pure (builtAnswer rt e base fallbackUsed degradedReason traceId version)) view.Shows := by
    intro traceId
    cases indexVersion with
    | none => exact ⟨trivial, fun version _ => hbuilt traceId version⟩
    | some version => exact hbuilt traceId version
  unfold buildAnswer traceIdOr
  split_ifs
  · exact ⟨trivial, fun traceId _ => hversion traceId⟩
  · exact hversion base.traceId

theorem fallbackAnswer_seen (he : view.Closes e) (reason : String) {outcome : Except Exn Answer}
    (houtcome : ∀ answer, outcome = .ok answer → view.Offers answer) :
    Prog.Spec view.Answers (view.Asks turn.question turn.principal)
      (fallbackAnswer rt e reason outcome) view.Shows := by
  cases outcome with
  | error exn =>
      refine buildAnswer_seen he ⟨view.unknown, ?_⟩ _ _ _
      rintro c ⟨⟩
  | ok answer =>
      have hoffers := houtcome answer rfl
      have hcloses : view.Closes { e with stop := .fallbackPipeline } :=
        ⟨he.steps, he.sources, he.verdict⟩
      have hbase : view.Offers {
          answer with
          usage := e.usage + answer.usage
          traceId := if answer.traceId = "" then e.traceId else answer.traceId } :=
        ⟨hoffers.text, hoffers.citations⟩
      exact buildAnswer_seen hcloses hbase _ _ _

theorem finalize_seen (stop : StopReason) (hs : view.Seen turn.question s) :
    Prog.Spec view.Answers (view.Asks turn.question turn.principal) (finalize rt turn s stop)
      view.Shows := by
  have hauthorised : ∀ source ∈ s.ledger.sources.filter (mayCite turn.principal),
      view.source source := fun source hsource => hs.ledger source (List.mem_of_mem_filter hsource)
  unfold finalize
  extract_lets authorised text citations e reason stop'
  have hcitations : ∀ c ∈ citations, view.citation c := by
    intro c hc
    by_cases htext : text = ""
    · simp [citations, htext] at hc
    · rw [show citations = resolveSourceCitations text authorised true from if_neg htext] at hc
      obtain ⟨source, hsource, rfl⟩ := mem_resolveSourceCitations hc
      exact view.cited (hauthorised source hsource)
  have hdraft : text ≠ "" → view.text text := by
    intro htext
    cases hs' : s.draft with
    | none =>
        have hempty : text = "" := by
          simp only [text, hs', Option.getD_none]
          rfl
        exact absurd hempty htext
    | some draft =>
        obtain ⟨message, hsaid, rfl⟩ := hs.draft draft (by rw [hs']; rfl)
        have hsame : text = strip message.content := by
          simp only [text, hs', Option.getD_some, strip_strip]
        rw [hsame]
        exact view.spoken hsaid
  have hcloses : view.Closes e := ⟨hs.steps, hauthorised, hs.verdict⟩
  clear_value citations text
  by_cases hkept : text ≠ "" ∧ citations ≠ [] ∧ stop ∈ answerableStops
  · rw [if_pos hkept]
    refine buildAnswer_seen hcloses ⟨?_, hcitations⟩ _ _ _
    dsimp only
    split_ifs
    · exact view.redacted (hdraft hkept.1)
    · exact hdraft hkept.1
  · rw [if_neg hkept]
    refine ⟨⟨rfl, rfl⟩, ?_⟩
    intro outcome houtcome
    have hclosed : view.Closes { e with stop := stop' } :=
      ⟨hcloses.steps, hcloses.sources, hcloses.verdict⟩
    exact fallbackAnswer_seen hclosed reason houtcome

-- Unfolded, the end of a turn would be run to find out what it asks.
attribute [local irreducible] finalize

theorem plannerFailed_seen (hs : view.Seen turn.question s) :
    Prog.Spec view.Answers (view.Asks turn.question turn.principal) (plannerFailed rt turn s)
      (Sum.elim (view.Seen turn.question) (view.ExitSeen turn.question)) := by
  have hcloses : view.Closes (plannerFailedEnd rt turn s) := by
    refine ⟨hs.steps, hs.ledger, ?_⟩
    rintro verdict ⟨⟩
  unfold plannerFailed
  simp only [AgentOp.ask, Prog.perform_bind]
  refine ⟨⟨rfl, rfl⟩, fun outcome houtcome => ⟨trivial, ?_⟩⟩
  rintro (_ | _) -
  · simp only [Bool.false_eq_true, if_false, Prog.spec_bind]
    exact fallbackAnswer_seen hcloses _ houtcome
  · exact hs

variable (turn) in
theorem leave_seen {exit : LoopExit} (hexit : view.ExitSeen turn.question exit) :
    Prog.Spec view.Answers (view.Asks turn.question turn.principal) (leave rt turn exit)
      fun out => ∀ answer, out = .ok answer → view.Shows answer := by
  have hkept : ∀ answer, view.Shows answer →
      Prog.Spec view.Answers (view.Asks turn.question turn.principal)
      (pure (.ok answer) : AgentProg (Except Exn AgentAnswer))
      fun out => ∀ answer, out = .ok answer → view.Shows answer := by
    rintro answer hshows _ ⟨⟩
    exact hshows
  cases exit with
  | stopped s stop =>
      rw [leave, Prog.spec_bind]
      exact (finalize_seen stop hexit).mono hkept
  | deadline s =>
      rw [leave, Prog.spec_bind]
      exact (finalize_seen .budgetExhausted hexit).mono hkept
  | returned answer => exact hkept answer hexit
  | raised s exn =>
      rw [leave]
      split
      · rw [Prog.spec_bind]
        exact (finalize_seen .budgetExhausted hexit).mono hkept
      · rintro answer ⟨⟩

end Endings

variable (turn) in
theorem iteration_seen (hlists : view.Lists rt.tools) (hs : view.Seen turn.question s) :
    Prog.Spec view.Answers (view.Asks turn.question turn.principal) (iteration rt turn s)
      (Sum.elim (view.Seen turn.question) (view.ExitSeen turn.question)) := by
  unfold iteration BudgetTracker.terminalStop
  rw [Prog.spec_bind]
  split_ifs
  · exact hs
  · simp only [AgentOp.ask, Prog.perform_bind]
    refine ⟨trivial, fun elapsed _ => ?_⟩
    dsimp only
    split_ifs
    · exact hs
    · refine ⟨hs.messages, ?_⟩
      rintro ((exn | _) | completion) hanswer
      · exact plannerFailed_seen hs.stepped
      · exact hs.stepped
      · have hsaid := hanswer completion rfl
        dsimp only
        split_ifs
        · exact act_seen hlists hs.stepped.charged hsaid
        · exact plan_seen hs.stepped.charged hsaid

variable (turn) in
theorem start_seen (effective : Budget) : view.Seen turn.question (start rt turn effective) := by
  refine ⟨?_, ?_, ?_, ?_, ?_⟩
  · intro source hsource
    cases EvidenceLedger.mem_sources.mp hsource
  · rintro step ⟨⟩
  · simp only [start, List.mem_cons, List.not_mem_nil, or_false]
    rintro message (rfl | rfl)
    · exact .system
    · exact .plan rt
  · rintro draft ⟨⟩
  · rintro verdict ⟨⟩

variable (turn) in
theorem loop_seen (hlists : view.Lists rt.tools) (effective : Budget) (n : Nat) :
    Prog.Spec view.Answers (view.Asks turn.question turn.principal)
      (Prog.iterate (iteration rt turn) n (start rt turn effective))
      fun out => ∀ exit, out = some exit → view.ExitSeen turn.question exit :=
  Prog.Spec.iterate (fun _ hs => iteration_seen turn hlists hs) n _ (start_seen turn effective)

end Loop

/-- A turn shows its models and its principal nothing beyond the view. -/
theorem run_seen [Runtime] {view : View} {rt : AgentRuntime} {question : String}
    {principal : Principal} {budget : Option Budget} (hlists : view.Lists rt.tools) :
    Prog.Spec view.Answers (view.Asks question principal) (run rt question principal budget)
      fun out => ∀ answer, out = some (.ok answer) → view.Shows answer := by
  have hlisted : Prog.Spec view.Answers (view.Asks question principal)
      (specs rt.tools rt.allowEgress) fun _ => True :=
    ((Prog.asks_iff _).mp (specs_asks rt.tools rt.allowEgress)).strengthen
      (fun _ _ _ _ => trivial) fun _ ho => View.asks_of_listing ho
  unfold run
  simp only [AgentOp.ask, Prog.perform_bind]
  refine ⟨trivial, fun traceId _ => ⟨trivial, fun version _ => ?_⟩⟩
  rw [Prog.spec_bind]
  refine hlisted.mono ?_
  rintro (exn | toolSpecs) -
  · rintro answer ⟨⟩
  · dsimp only
    rw [Prog.spec_bind]
    refine (loop_seen ⟨question, principal, traceId, version, toolSpecs⟩ hlists _ _).mono ?_
    rintro (_ | exit) hexit
    · rintro answer ⟨⟩
    · dsimp only
      rw [Prog.spec_bind]
      refine (leave_seen ⟨question, principal, traceId, version, toolSpecs⟩
        (hexit exit rfl)).mono ?_
      rintro out hshows answer ⟨⟩
      exact hshows answer rfl

end Rag
