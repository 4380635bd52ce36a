import Rag.Agent.Reach
import Rag.Agent.Retrieval
import Rag.Cache.RealAnswers
import Rag.Pipelines.Outcome

/-!
What requests of several tenants show one another.

Any number of requests run interleaved over one exact cache, one semantic cache and one cache
of tool results. The backends may return any chunk of the corpus to anybody or raise anything, and
the models may say anything. Everything is kept under the fingerprint of its caller, so the
invariant is that what is kept under a fingerprint was made of what callers with this fingerprint
may know. An exception of a backend counts as known to them: its text becomes that of a failed
tool result, whatever it tells.
-/

namespace Rag

open Py Interaction AgentRuntime

/-- The text of a successful search of the agent. -/
def passages (sources : List Source) : String :=
  if sources = [] then "No authorised passages found."
  else join "\n\n" (sources.map RetrievalTool.passage)

/-- What somebody may get to know: chunks, what models said in chats with them and over their
drafts, the texts models completed for them, what backends raised in their searches, and the
tools of the service. -/
structure Knowledge where
  chunks : Set Chunk
  said : Message → Prop
  completed : String → Prop
  raised : Exn → Prop
  tools : Set Tool

namespace Knowledge

variable [Runtime] (known : Knowledge)

/-- A source the retrieval tool makes of a known chunk. -/
def HasSource (source : Source) : Prop :=
  ∃ scored : ScoredChunk ℚ, scored.chunk ∈ known.chunks ∧ source = sourceFromScored scored

/-- A citation of a known chunk, by the pipeline or by the agent. -/
def HasCitation (citation : Citation) : Prop :=
  ∃ scored : ScoredChunk ℚ, scored.chunk ∈ known.chunks
    ∧ (citation = citationFromScored scored
      ∨ citation = citationFromSource (sourceFromScored scored))

/-- A call a model asked for, as it was or read back from a cache. -/
inductive HasCall : ToolCall → Prop
  | requested {message : Message} (h : known.said message) {call : ToolCall}
      (hcall : call ∈ message.toolCalls) : HasCall call
  | reloaded {call : ToolCall} (h : HasCall call) : HasCall call.reloaded

/-- An exception of a tool: a backend's, or one of its own for a known call. -/
inductive HasRaised : Exn → Prop
  | backend {exn : Exn} (h : known.raised exn) : HasRaised exn
  | own {call : ToolCall} (h : known.HasCall call) {exn : Exn}
      (hexn : ToolError call.name call.arguments exn) : HasRaised exn

/-- A tool result tells of known sources and nothing else if it succeeded, and of the fault and
nothing else if it failed. It bears the identity of a known call, or as yet that of the tool. -/
structure HasResult (given : ToolResult) : Prop where
  sources : ∀ s ∈ given.sources, known.HasSource s
  content : given.content = if given.ok then passages given.sources else ""
  error : ∀ error ∈ given.error, ToolFault known.HasCall known.tools known.HasRaised error
  callId : given.callId = "" ∨ ∃ call, known.HasCall call ∧ given.callId = call.id
  name : given.name = RetrievalTool.tool.name
    ∨ ∃ call, known.HasCall call ∧ given.name = call.name

/-- A text a model wrote, or one of the two the service has of its own. -/
inductive HasText : String → Prop
  | unknown : HasText "I don't know based on the available documents."
  | greeting : HasText "Hello. Ask me a question about the indexed documents."
  | completed {text : String} (h : known.completed text) : HasText text
  | spoken {message : Message} (h : known.said message) : HasText (strip message.content)
  | redacted {text : String} (h : HasText text) : HasText (redactPii text)

/-- What may be shown to somebody who may know this. -/
def view : View where
  result := known.HasResult
  source := known.HasSource
  citation := known.HasCitation
  said := known.said
  call := known.HasCall
  tools := known.tools
  raised := known.HasRaised
  text := known.HasText
  failed {asked error} hasked hfault := by
    refine ⟨?_, rfl, ?_, Or.inr ⟨asked, hasked, rfl⟩, Or.inr ⟨asked, hasked, rfl⟩⟩
    · rintro s ⟨⟩
    · rintro _ ⟨⟩
      exact hfault
  identified {asked _} hasked h :=
    ⟨h.sources, h.content, h.error, Or.inr ⟨asked, hasked, rfl⟩, Or.inr ⟨asked, hasked, rfl⟩⟩
  anonymous h := ⟨h.sources, h.content, h.error, Or.inl rfl, h.name⟩
  sources h := h.sources
  cited := by
    rintro _ ⟨scored, hscored, rfl⟩
    exact ⟨scored, hscored, Or.inr rfl⟩
  requested h _ hc := .requested h hc
  spoken h := .spoken h
  redacted h := .redacted h
  unknown := .unknown

def HasResponse : Response → Prop
  | .plain answer => known.view.Offers answer
  | .agent answer => known.view.Shows answer

def HasPayload : Payload → Prop
  | .plain answer => known.view.Offers answer
  | .agent answer => known.view.Shows answer
  | .corrupt => True

variable {known}

/-- A known source has only metadata that JSON keeps. -/
theorem HasSource.reloaded_eq {source : Source} (h : known.HasSource source) :
    source.reloaded = source := by
  obtain ⟨scored, -, rfl⟩ := h
  rfl

theorem HasResult.reloaded {given : ToolResult} (h : known.HasResult given) :
    known.HasResult given.reloaded := by
  have hsame : given.sources.map Source.reloaded = given.sources :=
    (List.map_congr_left fun s hs => (h.sources s hs).reloaded_eq).trans (List.map_id _)
  rw [ToolResult.reloaded, hsame]
  exact h

theorem traces_reloaded {trace : AgentTrace} (h : known.view.Traces trace) :
    known.view.Traces trace.reloaded := by
  constructor
  · intro s hs
    obtain ⟨source, hsource, rfl⟩ := List.mem_map.mp hs
    have hknown : known.HasSource source := h.sources source hsource
    rw [hknown.reloaded_eq]
    exact hknown
  · intro step hstep
    obtain ⟨stored, hstored, rfl⟩ := List.mem_map.mp hstep
    have hknown := h.steps stored hstored
    refine ⟨hknown.thought, ?_, ?_, hknown.draft⟩
    · intro c hc
      obtain ⟨call, hcall, rfl⟩ := List.mem_map.mp hc
      exact .reloaded (hknown.calls call hcall)
    · intro given hgiven
      obtain ⟨result, hresult, rfl⟩ := List.mem_map.mp hgiven
      exact HasResult.reloaded (hknown.results result hresult)

/-- What a stored text tells, the answer the pipeline reads from it tells. -/
theorem HasPayload.asAnswer {payload : Payload} (h : known.HasPayload payload) {answer : Answer}
    (hanswer : payload.asAnswer = some answer) : known.view.Offers answer := by
  have hwritten := Payload.written_of_asAnswer hanswer
  cases payload with
  | plain stored =>
      cases hwritten
      exact h
  | agent stored =>
      cases hwritten
      have hshows : known.view.Shows stored := h
      exact hshows.offers
  | corrupt => cases hwritten

/-- What a stored text tells, its replay tells. -/
theorem HasPayload.replay {payload : Payload} (h : known.HasPayload payload)
    {response : Response} (hresponse : payload.replay = some response) :
    known.HasResponse response := by
  rw [Payload.replay] at hresponse
  cases hdecoded : payload.asAgentAnswer with
  | none =>
      rw [hdecoded] at hresponse
      obtain ⟨answer, hanswer, rfl⟩ := Option.map_eq_some_iff.mp hresponse
      have hoffers := h.asAnswer hanswer
      exact ⟨hoffers.text, hoffers.citations⟩
  | some answer =>
      rw [hdecoded] at hresponse
      cases hresponse
      cases payload with
      | plain stored =>
          obtain ⟨-, hstored⟩ := Option.ite_none_right_eq_some.mp hdecoded
          cases hstored
          refine ⟨⟨h.text, h.citations⟩, ?_, ?_⟩
          · rintro verdict ⟨⟩
          · rintro trace ⟨⟩
      | agent stored =>
          have hshows : known.view.Shows stored := h
          obtain ⟨-, hstored⟩ := Option.ite_none_right_eq_some.mp hdecoded
          cases hstored
          refine ⟨⟨hshows.offers.text, hshows.offers.citations⟩, hshows.verdict, ?_⟩
          intro trace htrace
          obtain ⟨kept, hkept, rfl⟩ := Option.mem_map.mp htrace
          exact traces_reloaded (hshows.trace kept hkept)
      | corrupt => cases hdecoded

end Knowledge

section Assume

variable [Runtime] (corpus : Set Chunk) (known : Knowledge) (question : String)
  (principal : Principal)

/-- What the models say is known, and what the backends of a search raise. -/
def Knowledge.Hears : (o : RequestOp) → RequestResp o → Prop
  | .inl (.inl (.chat _ _)), r => ∀ completion, r = .ok completion → known.said completion.message
  | .inl (.inl (.critique _)), r =>
      ∀ completion, r = .ok completion → known.said completion.message
  | .inl (.inr (.complete _)), r => ∀ reply, r = .ok reply → known.completed reply.1
  | .inl (.inr o), r => ∀ exn, BackendRaises o r exn → known.raised exn
  | _, _ => True

/-- Searches find chunks of the corpus, and caches hand out what is known. -/
def Knowledge.Finds : (o : RequestOp) → RequestResp o → Prop
  | .inl (.inl (.toolCacheGet _)), r => ∀ given, r = .ok (some given) → known.HasResult given
  | .inl (.inr (.search _ _ _ _)), r => ∀ hits, r = .ok hits → ∀ hit ∈ hits, hit.chunk ∈ corpus
  | .inl (.inr (.lexicalSearch _ _ _ _)), r =>
      ∀ hits, r = .ok hits → ∀ hit ∈ hits, hit.chunk ∈ corpus
  | .inl (.inr (.cacheGet _)), r => ∀ answer, r = .ok (some answer) → known.view.Offers answer
  | .inl (.inr (.semanticGet _ _)), r =>
      ∀ answer, r = .ok (some answer) → known.view.Offers answer
  | .inr (.cacheGet _), r => ∀ payload, r = .ok (some payload) → known.HasPayload payload
  | _, _ => True

/-- What a request is answered. -/
def GivenWithin (o : RequestOp) (r : RequestResp o) : Prop :=
  known.Hears o r ∧ known.Finds corpus o r

/-- A prompt to answer the question from known chunks. -/
def PromptsWithin (prompt : String) : Prop :=
  ∃ version, ∃ scored : List (ScoredChunk ℚ), (∀ s ∈ scored, s.chunk ∈ known.chunks)
    ∧ prompt = answerGroundedPrompt version question (formatContext scored)

/-- Besides the question, models are shown nothing but what is known, and the caches are given
nothing else. They are used under the fingerprint of the principal. -/
def AsksWithin : RequestOp → Prop
  | .inl (.inl (.chat messages _)) => ∀ message ∈ messages, known.view.Tells question message
  | .inl (.inl (.critique messages)) => known.view.Judges question messages
  | .inl (.inl (.toolCacheGet key)) => key.acl = aclFingerprint principal
  | .inl (.inl (.toolCacheSet key given)) =>
      key.acl = aclFingerprint principal ∧ known.HasResult given
  | .inl (.inr (.complete prompt)) => PromptsWithin known question prompt
  | .inl (.inr (.cacheGet key)) => key.scope.acl = aclFingerprint principal
  | .inl (.inr (.cacheSet key answer)) =>
      key.scope.acl = aclFingerprint principal ∧ known.view.Offers answer
  | .inl (.inr (.semanticGet _ scope)) => scope.acl = aclFingerprint principal
  | .inl (.inr (.semanticSet _ answer scope)) =>
      scope.acl = aclFingerprint principal ∧ known.view.Offers answer
  | .inr (.cacheGet key) => key.scope.acl = aclFingerprint principal
  | .inr (.cacheSet key answer) =>
      key.scope.acl = aclFingerprint principal ∧ known.view.Shows answer
  | _ => True

/-- `GivenWithin` on what the pipeline asks. -/
abbrev PipeGivenWithin (o : PipeOp) (r : PipeResp o) : Prop :=
  GivenWithin corpus known (.inl (.inr o)) r

/-- `AsksWithin` on what the pipeline asks. -/
abbrev PipeAsksWithin (o : PipeOp) : Prop :=
  AsksWithin known question principal (.inl (.inr o))

/-- All of the corpus that the principal is allowed to see is known. -/
def Covers : Prop := ∀ chunk ∈ corpus, isAllowed principal chunk.acl = true → chunk ∈ known.chunks

/-- The backends hit chunks of the corpus, and what they raise is known. -/
theorem given_serves (pipeline : OnlinePipeline) :
    Serves pipeline principal (PipeGivenWithin corpus known)
      (PipeAsksWithin known question principal) (fun chunk => chunk ∈ corpus)
      known.HasRaised where
  starts := trivial
  resolves _ := trivial
  retrieves _ o ho := by cases o <;> trivial
  hits _ _ _ _ found _ hanswer := hanswer.2 found rfl
  lexicalHits _ _ _ _ found _ hanswer := hanswer.2 found rfl
  raises o r exn hanswer hexn := by
    apply Knowledge.HasRaised.backend
    cases o with
    | embed texts => exact hanswer.1 exn hexn
    | search vector topK caller version => exact hanswer.1 exn hexn
    | lexicalSearch text topK caller version => exact hanswer.1 exn hexn
    | rerank text candidates topK => exact hanswer.1 exn hexn
    | _ => cases hexn

end Assume

section Pipeline

variable [Runtime] {corpus : Set Chunk} {known : Knowledge} {principal : Principal}
  (pipeline : OnlinePipeline) {question : String} (query : String)

theorem retrieve_within (hcovers : Covers corpus known principal) (indexVersion : String) :
    Prog.SpecE (PipeGivenWithin corpus known) (PipeAsksWithin known question principal)
      (pipeline.retrieve query principal indexVersion)
      (fun result => ∀ s ∈ result.results, s.chunk ∈ known.chunks) fun _ => True := by
  have hreturns := retrieve_returns pipeline query principal
    (A := PipeGivenWithin corpus known) (G := PipeAsksWithin known question principal)
    (P := fun chunk => chunk ∈ corpus) (R := fun _ => True) indexVersion
    (fun o ho => by cases o <;> trivial) (fun _ _ hits hanswer => hanswer.2 hits rfl)
    (E := fun _ => True) (fun _ _ hits hanswer => hanswer.2 hits rfl) (fun _ _ _ _ _ => trivial)
    (fun _ _ _ _ _ => trivial) fun _ _ => trivial
  refine hreturns.mono ?_ fun _ h => h
  rintro result ⟨-, hshown⟩ s hs
  exact hcovers s.chunk (hshown s hs).2 (hshown s hs).1

/-- What generation hands over, an answer or a refusal. -/
def outcomeOf : Except Answer Answer → Answer
  | .ok answer => answer
  | .error refusal => refusal

theorem groundAnswer_offers {scored : List (ScoredChunk ℚ)}
    (hscored : ∀ s ∈ scored, s.chunk ∈ known.chunks) {rawText : String}
    (htext : known.completed rawText) (scoreThreshold : ℚ) (redact : Bool) (traceId : String)
    (usage : Usage) :
    known.view.Offers (groundAnswer scored scoreThreshold redact traceId rawText usage) := by
  constructor
  · unfold groundAnswer
    dsimp only
    split
    · exact .unknown
    · dsimp only
      split_ifs
      · exact .redacted (.completed htext)
      · exact .completed htext
  · intro c hc
    obtain ⟨s, hs, rfl⟩ := mem_groundAnswer_citations hc
    exact ⟨s, hscored s hs, Or.inl rfl⟩

theorem uncited_offers {answer : Answer} (htext : known.HasText answer.text)
    (hnone : answer.citations = []) : known.view.Offers answer := by
  refine ⟨htext, ?_⟩
  rw [hnone]
  rintro c ⟨⟩

/-- Generation prompts with the chunks it is given and cites nothing else. -/
theorem generate_within (traceId : String) {result : QueryResult}
    (hresult : ∀ s ∈ result.results, s.chunk ∈ known.chunks) :
    Prog.SpecE (PipeGivenWithin corpus known) (PipeAsksWithin known query principal)
      (pipeline.generate query traceId result)
      (fun generated => known.view.Offers (outcomeOf generated)) fun _ => True := by
  unfold OnlinePipeline.generate
  simp only [Prog.specE_bind, Prog.specE_attempt]
  refine ⟨trivial, fun generationTrace _ => ?_⟩
  have hfail : ∀ exn : Exn,
      Prog.SpecE (PipeGivenWithin corpus known) (PipeAsksWithin known query principal)
      (if exn.cls = .llm then
        (pure (.error (pipeline.refuse "llm_unavailable" traceId)) : Pipe (Except Answer Answer))
      else throw exn)
      (fun generated => known.view.Offers (outcomeOf generated)) fun _ => True := by
    intro exn
    split_ifs
    · exact uncited_offers .unknown rfl
    · trivial
  unfold generateGrounded
  dsimp only
  split_ifs
  · exact uncited_offers .unknown rfl
  · simp only [Prog.specE_bind]
    refine ⟨⟨_, result.results, hresult, rfl⟩, ?_⟩
    rintro (exn | ⟨rawText, usage⟩) hreply
    · exact hfail exn
    · exact groundAnswer_offers hresult (hreply.1 _ rfl) _ _ _ _

theorem lookupCache_within {key : AnswerKey} (hkey : key.scope.acl = aclFingerprint principal) :
    Prog.SpecE (PipeGivenWithin corpus known) (PipeAsksWithin known question principal)
      (pipeline.lookupCache key query)
      (fun found => ∀ answer, found = some answer → known.view.Offers answer)
      fun _ => True := by
  unfold OnlinePipeline.lookupCache
  by_cases hcache : pipeline.settings.cacheEnabled = true
  · rw [if_pos hcache]
    simp only [Prog.specE_bind]
    refine ⟨hkey, ?_⟩
    rintro (exn | _ | hit) hfound
    · trivial
    · change Prog.SpecE _ _ (if pipeline.semanticCache then _ else _ : Pipe _) _ _
      split_ifs
      · refine ⟨hkey, ?_⟩
        rintro (exn | found) hnear
        · trivial
        · rintro answer rfl
          exact hnear.2 answer rfl
      · rintro answer ⟨⟩
    · rintro answer ⟨⟩
      exact hfound.2 hit rfl
  · rw [if_neg hcache]
    rintro answer ⟨⟩

variable (corpus question) in
theorem storeAnswer_within {key : AnswerKey} (hkey : key.scope.acl = aclFingerprint principal)
    (answer : Answer) (hanswer : known.view.Offers answer) :
    Prog.SpecE (PipeGivenWithin corpus known) (PipeAsksWithin known question principal)
      (pipeline.storeAnswer key query answer) (fun _ => True) fun _ => True := by
  unfold OnlinePipeline.storeAnswer
  by_cases hkeep : pipeline.shouldCache answer = true
  · rw [if_pos hkeep]
    simp only [Prog.specE_bind]
    refine ⟨⟨hkey, hanswer⟩, ?_⟩
    rintro (exn | _) -
    · trivial
    · dsimp only
      split_ifs
      · refine ⟨⟨hkey, hanswer⟩, ?_⟩
        rintro (exn | _) -
        · trivial
        · trivial
      · trivial
  · rw [if_neg hkeep]
    trivial

theorem execution_within (hcovers : Covers corpus known principal) (traceId indexVersion : String)
    {key : AnswerKey} (hkey : key.scope.acl = aclFingerprint principal) :
    Prog.SpecE (PipeGivenWithin corpus known) (PipeAsksWithin known query principal)
      (pipeline.execute query traceId principal indexVersion key) known.view.Offers
      fun _ => True := by
  have hgrounded : Prog.SpecE (PipeGivenWithin corpus known) (PipeAsksWithin known query principal)
      (pipeline.ground query traceId principal indexVersion key) known.view.Offers
      fun _ => True := by
    simp only [OnlinePipeline.ground, Prog.specE_bind]
    refine (retrieve_within pipeline query hcovers indexVersion).mono ?_ fun _ h => h
    intro result hresult
    refine (generate_within pipeline query traceId hresult).mono ?_ fun _ h => h
    rintro (refusal | grounded) hoffers
    · exact hoffers
    · simp only [Prog.specE_bind]
      refine ⟨trivial, fun answerTrace _ => ?_⟩
      have hstamped : known.view.Offers
          { grounded with traceId := answerTrace, indexVersion := indexVersion } :=
        ⟨hoffers.text, hoffers.citations⟩
      have hstored := storeAnswer_within corpus pipeline query query hkey _ hstamped
      exact hstored.mono (fun _ _ => hstamped) fun _ h => h
  unfold OnlinePipeline.execute
  cases routeQuery query with
  | refuse => exact uncited_offers .unknown rfl
  | chitchat => exact uncited_offers .greeting rfl
  | factual => exact hgrounded
  | procedural => exact hgrounded
  | complex => exact hgrounded

/-- The pipeline answers from what is known, its caches on or off. -/
theorem answer_within (hcovers : Covers corpus known principal) :
    Prog.SpecE (PipeGivenWithin corpus known) (PipeAsksWithin known query principal)
      (pipeline.answer query principal) known.view.Offers fun _ => True := by
  rw [answer_eq, OnlinePipeline.activeIndexVersion]
  simp only [Prog.specE_bind, Prog.specE_pure]
  refine ⟨trivial, fun traceId _ => ⟨trivial, fun resolved _ => ?_⟩⟩
  refine (lookupCache_within pipeline query rfl).mono ?_ fun _ h => h
  rintro (_ | hit) hfound
  · exact execution_within pipeline query hcovers traceId _ rfl
  · have hoffers := hfound hit rfl
    exact ⟨hoffers.text, hoffers.citations⟩

/-- The passages of allowed chunks are a known result. -/
theorem resultOf_known (hcovers : Covers corpus known principal) (topK : ℤ)
    {results : List (ScoredChunk ℚ)} (hresults : ∀ s ∈ results, s.chunk ∈ corpus) :
    known.HasResult (RetrievalTool.resultOf principal topK results) := by
  refine ⟨?_, rfl, ?_, Or.inl rfl, Or.inl rfl⟩
  · intro source hsource
    obtain ⟨scored, hscored, hallowed, rfl⟩ := RetrievalTool.mem_resultOf hsource
    exact ⟨scored, hcovers scored.chunk (hresults scored hscored) hallowed, rfl⟩
  · rintro error ⟨⟩

/-- A tool that is run for a known call returns a known result or raises a known exception. -/
theorem runTool_within (hcovers : Covers corpus known principal) {call : ToolCall}
    (hcall : known.HasCall call) :
    Prog.SpecE (PipeGivenWithin corpus known) (PipeAsksWithin known question principal)
      (runTool pipeline call.name call.arguments principal) known.HasResult known.HasRaised := by
  have htool := runTool_returns (given_serves corpus known question principal pipeline) call.name
    call.arguments fun exn hexn => .own hcall hexn
  refine htool.mono ?_ fun _ h => h
  rintro given ⟨topK, results, hresults, rfl⟩
  exact resultOf_known hcovers topK hresults

end Pipeline

/-- The collaborators of the runtime in a deployment: the pipeline answers fallbacks, and the
built tools search through it. -/
def serveAll [Runtime] (pipeline : OnlinePipeline) :
    (o : AgentOp) → Prog ServiceOp ServiceResp (AgentResp o)
  | .answer question principal => serve pipeline (.answer question principal)
  | o => serveTools pipeline o

section Route

variable [Runtime] {corpus : Set Chunk} {known : Knowledge} {question : String}
  {principal : Principal}

/-- The tools an agent of the service may call. -/
def AppState.tools (state : AppState) : Set Tool :=
  {tool | ∃ rt ∈ state.agent, tool ∈ rt.tools.tools}

/-- A part of the pipeline, inside the service. -/
theorem onPipeline_within {α : Type} {p : Prog PipeOp PipeResp α} {Q : α → Prop}
    (h : Prog.Spec (PipeGivenWithin corpus known) (PipeAsksWithin known question principal) p Q) :
    Prog.Spec (fun o => GivenWithin corpus known (.inl o))
      (fun o => AsksWithin known question principal (.inl o)) (Prog.interp onPipeline p) Q :=
  h.interp fun _ ho => ⟨ho, fun _ hr => hr⟩

theorem serveAll_within (pipeline : OnlinePipeline) (hcovers : Covers corpus known principal)
    (o : AgentOp) (ho : known.view.Asks question principal o) :
    Prog.Spec (fun o => GivenWithin corpus known (.inl o))
      (fun o => AsksWithin known question principal (.inl o)) (serveAll pipeline o)
      (known.view.Answers o) := by
  cases o with
  | answer q p =>
      obtain ⟨rfl, rfl⟩ := ho
      refine (onPipeline_within (answer_within pipeline q hcovers)).mono ?_
      rintro r hr answer rfl
      exact hr
  | runTool name arguments p budget =>
      obtain ⟨rfl, call, hcall, rfl, rfl⟩ := ho
      unfold serveAll serveTools
      rw [Prog.spec_bind]
      refine (onPipeline_within (runTool_within pipeline hcovers hcall)).mono ?_
      rintro (exn | result) houtcome
      · refine ⟨trivial, ?_⟩
        rintro (_ | _) -
        · refine ⟨?_, ?_⟩
          · rintro given ⟨⟩
          · rintro _ ⟨⟩
            exact houtcome
        · exact ⟨by rintro given ⟨⟩, by rintro exn ⟨⟩⟩
      · refine ⟨trivial, ?_⟩
        rintro (_ | _) -
        · refine ⟨?_, ?_⟩
          · rintro _ ⟨⟩
            exact houtcome
          · rintro exn ⟨⟩
        · exact ⟨by rintro given ⟨⟩, by rintro exn ⟨⟩⟩
  | activeIndexVersion => exact ⟨trivial, fun _ _ => trivial⟩
  | available tool call => trivial
  | spec name => trivial
  | chat messages tools => exact ⟨ho, fun _ hr => hr.1⟩
  | critique messages => exact ⟨ho, fun _ hr => hr.1⟩
  | toolCacheGet key => exact ⟨ho, fun _ hr => hr.2⟩
  | toolCacheSet key given => exact ⟨ho, fun _ _ => trivial⟩
  | _ => exact ⟨trivial, fun _ _ => trivial⟩

/-- A part of the runtime, served by the deployment. -/
theorem ofAgent_within {α : Type} (pipeline : OnlinePipeline)
    (hcovers : Covers corpus known principal) {p : AgentProg α} {Q : α → Prop}
    (h : Prog.Spec known.view.Answers (known.view.Asks question principal) p Q) :
    Prog.Spec (GivenWithin corpus known) (AsksWithin known question principal)
      (ofAgent (serveAll pipeline) p) Q :=
  (h.interp (serveAll_within pipeline hcovers)).interp fun _ ho => ⟨ho, fun _ hr => hr⟩

variable (state : AppState) (rt : AgentRuntime) (body : QueryRequest)

theorem agentAnswerKey_within (hcovers : Covers corpus known principal) (budget : Budget) :
    Prog.SpecE (GivenWithin corpus known) (AsksWithin known body.query.val principal)
      (agentAnswerKey (serveAll state.pipeline) state rt body principal budget)
      (fun key => key.scope.acl = aclFingerprint principal) fun _ => True := by
  have hallowed : Prog.Spec known.view.Answers (known.view.Asks body.query.val principal)
      (allowedFor rt.tools rt.allowEgress) fun _ => True :=
    ((Prog.asks_iff _).mp (allowedTools_asks rt.allowEgress rt.tools.tools)).strengthen
      (fun _ _ _ _ => trivial) fun _ ho => View.asks_of_listing ho
  unfold agentAnswerKey
  simp only [Prog.specE_bind]
  refine (ofAgent_within state.pipeline hcovers hallowed).mono ?_
  rintro (exn | tools) -
  · trivial
  · exact ⟨trivial, fun _ _ => rfl⟩

theorem lookupAgentAnswer_within {key : AnswerKey}
    (hkey : key.scope.acl = aclFingerprint principal) :
    Prog.SpecE (GivenWithin corpus known) (AsksWithin known body.query.val principal)
      (lookupAgentAnswer state key)
      (fun found => ∀ response, found = some response → known.HasResponse response)
      fun _ => True := by
  unfold lookupAgentAnswer
  split_ifs
  · simp only [Prog.specE_bind]
    refine ⟨hkey, ?_⟩
    rintro (exn | _ | payload) hfound
    · trivial
    · rintro response ⟨⟩
    · intro response hresponse
      exact (hfound.2 payload rfl).replay hresponse
  · rintro response ⟨⟩

theorem storeAgentAnswer_within {key : AnswerKey}
    (hkey : key.scope.acl = aclFingerprint principal) {answer : AgentAnswer}
    (hanswer : known.view.Shows answer) :
    Prog.Spec (GivenWithin corpus known) (AsksWithin known body.query.val principal)
      (storeAgentAnswer state key answer).run fun _ => True := by
  unfold storeAgentAnswer
  split_ifs
  · exact ⟨⟨hkey, hanswer⟩, fun _ _ => trivial⟩
  · trivial

theorem runAgent_within (hcovers : Covers corpus known principal)
    (hlists : known.view.Lists rt.tools) :
    Prog.Spec (GivenWithin corpus known) (AsksWithin known body.query.val principal)
      (runAgent (serveAll state.pipeline) state rt body principal)
      fun out => ∀ response, out = some (.ok response) → known.HasResponse response := by
  unfold runAgent
  extract_lets budget
  have hopen : Prog.SpecE (GivenWithin corpus known) (AsksWithin known body.query.val principal)
      (openAgentRequest (serveAll state.pipeline) state rt body principal budget)
      (fun opened => opened.1.scope.acl = aclFingerprint principal
        ∧ ∀ response, opened.2 = some response → known.HasResponse response) fun _ => True := by
    unfold openAgentRequest
    simp only [Prog.specE_bind]
    refine (agentAnswerKey_within state rt body hcovers budget).mono ?_ fun _ h => h
    intro key hkey
    refine (lookupAgentAnswer_within state body hkey).mono ?_ fun _ h => h
    intro found hfound
    exact ⟨hkey, hfound⟩
  rw [Prog.spec_bind]
  refine Prog.Spec.mono hopen ?_
  rintro (exn | ⟨key, _ | hit⟩) hopened
  · rintro response ⟨⟩
  · dsimp only
    rw [Prog.spec_bind]
    refine (ofAgent_within state.pipeline hcovers (run_seen hlists)).mono ?_
    rintro (_ | exn | answer) hseen
    · rintro response ⟨⟩
    · rintro response ⟨⟩
    · have hshows := hseen answer rfl
      dsimp only
      rw [Prog.spec_bind]
      refine (storeAgentAnswer_within state body hopened.1 hshows).mono ?_
      rintro (exn | _) -
      · rintro response ⟨⟩
      · rintro response ⟨⟩
        exact hshows
  · rintro response ⟨⟩
    exact hopened.2 hit rfl

/-- A request asks and answers within what is known, whichever way it takes. -/
theorem queryRoute_within (hcovers : Covers corpus known principal)
    (htools : state.tools ⊆ known.tools) :
    Prog.Spec (GivenWithin corpus known) (AsksWithin known body.query.val principal)
      (queryRoute (serveAll state.pipeline) state body principal)
      fun out => ∀ response, out = some (.ok response) → known.HasResponse response := by
  unfold queryRoute
  extract_lets useAgent
  split
  · rename_i rt huse hrt
    refine runAgent_within state rt body hcovers ?_
    intro tool htool
    exact htools ⟨rt, hrt, htool⟩
  · have hanswer : Prog.Spec (GivenWithin corpus known) (AsksWithin known body.query.val principal)
        (ofPipeline (state.pipeline.answer body.query.val principal)).run _ :=
      (onPipeline_within (answer_within state.pipeline body.query.val hcovers)).interp
        fun _ ho => ⟨ho, fun _ hr => hr⟩
    rw [Prog.spec_bind]
    refine hanswer.mono ?_
    rintro (exn | answer) hcites
    · rintro response ⟨⟩
    · rintro response ⟨⟩
      exact hcites

end Route

/-- What requests share. -/
structure SharedStores where
  answers : SharedCaches
  tools : MemoryCache ToolKey ToolResult := {}

section Stores

variable [Runtime]

/-- How the stores and the world answer an operation of a request, and what becomes of the
stores. A search may hit any chunk of the corpus, whoever asks. -/
def TenantCell [Math ℚ] (corpus : Set Chunk) (s : SharedStores) (t : List RequestEvent) :
    (o : RequestOp) → RequestResp o → SharedStores → Prop
  | .inl (.inl (.toolCacheGet key)), r, s' =>
      (∃ now, r = .ok ((s.tools.get now key).1.map ToolResult.reloaded)
        ∧ s' = { s with tools := (s.tools.get now key).2 })
      ∨ r = .ok none ∧ s' = s
  | .inl (.inl (.toolCacheSet key given)), _, s' =>
      (∃ now ttlSeconds, s' = { s with tools := s.tools.set now key given ttlSeconds }) ∨ s' = s
  | .inl (.inr (.search _ _ _ _)), r, s' =>
      (∀ hits, r = .ok hits → ∀ hit ∈ hits, hit.chunk ∈ corpus) ∧ s' = s
  | .inl (.inr (.lexicalSearch _ _ _ _)), r, s' =>
      (∀ hits, r = .ok hits → ∀ hit ∈ hits, hit.chunk ∈ corpus) ∧ s' = s
  | o, r, s' => CacheCell s.answers t o r s'.answers ∧ s'.tools = s.tools

/-- Outside the requests, entries only ever disappear. -/
structure Lapses (s s' : SharedStores) : Prop where
  results : ∀ key entry, s'.tools.store.get? key = some entry → s.tools.store.get? key = some entry
  exact : ∀ key entry, s'.answers.exact.store.get? key = some entry →
    s.answers.exact.store.get? key = some entry
  semantic : ∀ scope bucket', s'.answers.semantic.buckets.get? scope = some bucket' →
    ∃ bucket, s.answers.semantic.buckets.get? scope = some bucket ∧ bucket' ⊆ bucket

variable (known : String → Knowledge)

/-- What the answer caches keep under a fingerprint, its callers may know. -/
structure AnswersKept (caches : SharedCaches) : Prop where
  exact : ∀ key payload expires, caches.exact.store.get? key = some (payload, expires) →
    (known key.scope.acl).HasPayload payload
  semantic : ∀ scope bucket, caches.semantic.buckets.get? scope = some bucket →
    ∀ e ∈ bucket, (known scope.acl).HasPayload e.value

def ResultsKept (tools : MemoryCache ToolKey ToolResult) : Prop :=
  ∀ key given expires, tools.store.get? key = some (given, expires) →
    (known key.acl).HasResult given

variable {known} {caches : SharedCaches} {tools : MemoryCache ToolKey ToolResult}

theorem AnswersKept.get (h : AnswersKept known caches) (now : ℚ) (key : AnswerKey) :
    (∀ payload, (caches.exact.get now key).1 = some payload →
      (known key.scope.acl).HasPayload payload)
    ∧ AnswersKept known { caches with exact := (caches.exact.get now key).2 } := by
  constructor
  · intro payload hfound
    obtain ⟨expires, hget, -⟩ := MemoryCache.get_hit hfound
    exact h.exact key payload expires hget
  · exact ⟨fun key' payload expires hget =>
      h.exact key' payload expires (MemoryCache.get_store hget), h.semantic⟩

theorem AnswersKept.set (h : AnswersKept known caches) (now : ℚ) {key : AnswerKey}
    {payload : Payload} (hpayload : (known key.scope.acl).HasPayload payload)
    (ttlSeconds : Option ℤ) :
    AnswersKept known { caches with exact := caches.exact.set now key payload ttlSeconds } := by
  refine ⟨?_, h.semantic⟩
  intro key' payload' expires hget
  change (caches.exact.store.set key _).get? key' = _ at hget
  rw [Dict.get?_set] at hget
  split_ifs at hget with hkey
  · cases hget
    exact hkey ▸ hpayload
  · exact h.exact key' payload' expires hget

theorem AnswersKept.near [Math ℚ] (h : AnswersKept known caches)
    {embedQuery : String → Except Exn Vector} {query : String} {scope : AnswerScope}
    {payload : Payload} (hfound : caches.semantic.get embedQuery query scope = .ok (some payload)) :
    (known scope.acl).HasPayload payload := by
  obtain ⟨bucket, hbucket, e, he, rfl⟩ := SemanticCache.get_hit hfound
  exact h.semantic scope bucket hbucket e he

theorem AnswersKept.place (h : AnswersKept known caches)
    {embedQuery : String → Except Exn Vector} {query : String} {scope : AnswerScope}
    {payload : Payload} (hpayload : (known scope.acl).HasPayload payload)
    {semantic : SemanticCache AnswerScope ℚ Payload}
    (hset : caches.semantic.set embedQuery query payload scope = .ok semantic) :
    AnswersKept known { caches with semantic := semantic } := by
  refine ⟨h.exact, ?_⟩
  intro scope' bucket' hbucket' e he
  rcases SemanticCache.set_entry hset hbucket' he with ⟨rfl, hvalue⟩ | ⟨bucket, hbucket, hold⟩
  · exact hvalue ▸ hpayload
  · exact h.semantic scope' bucket hbucket e hold

theorem ResultsKept.set (h : ResultsKept known tools) (now : ℚ) {key : ToolKey}
    {given : ToolResult} (hgiven : (known key.acl).HasResult given) (ttlSeconds : Option ℤ) :
    ResultsKept known (tools.set now key given ttlSeconds) := by
  intro key' given' expires hget
  change (tools.store.set key _).get? key' = _ at hget
  rw [Dict.get?_set] at hget
  split_ifs at hget with hkey
  · cases hget
    exact hkey ▸ hgiven
  · exact h key' given' expires hget

/-- What the pipeline reads from a known text is known. -/
theorem readAs_within {mine : Knowledge} {found : Option Payload}
    {r : Except Exn (Option Answer)} (h : ReadAs found r)
    (hfound : ∀ payload, found = some payload → mine.HasPayload payload) :
    ∀ answer, r = .ok (some answer) → mine.view.Offers answer := by
  rintro answer rfl
  cases found with
  | none => cases h
  | some payload =>
      rw [ReadAs] at h
      cases hread : payload.asAnswer with
      | none =>
          rw [hread] at h
          obtain ⟨exn, ⟨⟩⟩ := h
      | some stored =>
          rw [hread] at h
          cases h
          exact (hfound payload rfl).asAnswer hread

variable (known) in
/-- What is kept under a fingerprint, its callers may know. -/
structure StoresKept (s : SharedStores) : Prop where
  answers : AnswersKept known s.answers
  results : ResultsKept known s.tools

variable {s s' : SharedStores}

theorem StoresKept.lapse (hs : StoresKept known s) (h : Lapses s s') : StoresKept known s' := by
  refine ⟨⟨?_, ?_⟩, ?_⟩
  · intro key payload expires hget
    exact hs.answers.exact key payload expires (h.exact key _ hget)
  · intro scope bucket' hbucket' e he
    obtain ⟨bucket, hbucket, hsub⟩ := h.semantic scope bucket' hbucket'
    exact hs.answers.semantic scope bucket hbucket e (hsub he)
  · intro key given expires hget
    exact hs.results key given expires (h.results key _ hget)

theorem StoresKept.answered (hs : StoresKept known s) (htools : s'.tools = s.tools)
    (hanswers : AnswersKept known s'.answers) : StoresKept known s' :=
  ⟨hanswers, htools ▸ hs.results⟩

variable {corpus : Set Chunk} {question : String} {principal : Principal}

/-- Stores hand out what callers with the fingerprint may know, and are given such. -/
theorem tenantCell_within [Math ℚ] {t : List RequestEvent} {o : RequestOp} {r : RequestResp o}
    (hs : StoresKept known s)
    (ho : AsksWithin (known (aclFingerprint principal)) question principal o)
    (h : TenantCell corpus s t o r s') :
    (known (aclFingerprint principal)).Finds corpus o r ∧ StoresKept known s' := by
  rcases o with (o | o) | o
  · cases o with
    | toolCacheGet key =>
        rcases h with ⟨now, rfl, rfl⟩ | ⟨rfl, rfl⟩
        · constructor
          · intro given hgiven
            obtain ⟨stored, hstored, rfl⟩ := Option.map_eq_some_iff.mp (Except.ok.inj hgiven)
            obtain ⟨expires, hget, -⟩ := MemoryCache.get_hit hstored
            have hkept := hs.results key stored expires hget
            rw [show key.acl = aclFingerprint principal from ho] at hkept
            exact hkept.reloaded
          · exact ⟨hs.answers, fun key' given expires hget =>
              hs.results key' given expires (MemoryCache.get_store hget)⟩
        · exact ⟨by rintro given ⟨⟩, hs⟩
    | toolCacheSet key given =>
        refine ⟨trivial, ?_⟩
        rcases h with ⟨now, ttlSeconds, rfl⟩ | rfl
        · exact ⟨hs.answers, hs.results.set now (ho.1 ▸ ho.2) ttlSeconds⟩
        · exact hs
    | _ =>
        obtain ⟨hsame, htools⟩ := h
        exact ⟨trivial, hs.answered htools (hsame ▸ hs.answers)⟩
  · cases o with
    | search vector topK p version =>
        obtain ⟨hr, rfl⟩ := h
        exact ⟨hr, hs⟩
    | lexicalSearch query topK p version =>
        obtain ⟨hr, rfl⟩ := h
        exact ⟨hr, hs⟩
    | cacheGet key =>
        obtain ⟨⟨now, hread, hcaches⟩ | ⟨rfl, hcaches⟩, htools⟩ := h
        · obtain ⟨hfound, hkept⟩ := hs.answers.get now key
          rw [show key.scope.acl = aclFingerprint principal from ho] at hfound
          exact ⟨readAs_within hread hfound, hs.answered htools (hcaches ▸ hkept)⟩
        · exact ⟨by rintro answer ⟨⟩, hs.answered htools (hcaches ▸ hs.answers)⟩
    | cacheSet key answer =>
        refine ⟨trivial, ?_⟩
        obtain ⟨⟨now, ttlSeconds, hcaches⟩ | hcaches, htools⟩ := h
        · have hpayload : (known key.scope.acl).HasPayload (.plain answer) := ho.1 ▸ ho.2
          exact hs.answered htools (hcaches ▸ hs.answers.set now hpayload ttlSeconds)
        · exact hs.answered htools (hcaches ▸ hs.answers)
    | semanticGet query scope =>
        obtain ⟨⟨hcaches, embedQuery, hread⟩, htools⟩ := h
        refine ⟨?_, hs.answered htools (hcaches ▸ hs.answers)⟩
        cases hget : s.answers.semantic.get embedQuery query scope with
        | error exn =>
            rw [hget] at hread
            cases hread
            rintro answer ⟨⟩
        | ok found =>
            rw [hget] at hread
            refine readAs_within hread ?_
            rintro payload rfl
            have hkept := hs.answers.near hget
            rwa [show scope.acl = aclFingerprint principal from ho] at hkept
    | semanticSet query answer scope =>
        refine ⟨trivial, ?_⟩
        obtain ⟨⟨embedQuery, hset⟩, htools⟩ := h
        have hpayload : (known scope.acl).HasPayload (.plain answer) := ho.1 ▸ ho.2
        cases hresult : s.answers.semantic.set embedQuery query (.plain answer) scope with
        | error exn =>
            rw [hresult] at hset
            exact hs.answered htools (hset.2 ▸ hs.answers)
        | ok semantic =>
            rw [hresult] at hset
            exact hs.answered htools (hset.2 ▸ hs.answers.place hpayload hresult)
    | _ =>
        obtain ⟨hsame, htools⟩ := h
        exact ⟨trivial, hs.answered htools (hsame ▸ hs.answers)⟩
  · cases o with
    | cacheGet key =>
        obtain ⟨⟨now, rfl, hcaches⟩ | ⟨rfl, hcaches⟩, htools⟩ := h
        · obtain ⟨hfound, hkept⟩ := hs.answers.get now key
          rw [show key.scope.acl = aclFingerprint principal from ho] at hfound
          refine ⟨?_, hs.answered htools (hcaches ▸ hkept)⟩
          intro payload hpayload
          exact hfound payload (Except.ok.inj hpayload)
        · exact ⟨by rintro payload ⟨⟩, hs.answered htools (hcaches ▸ hs.answers)⟩
    | cacheSet key answer =>
        refine ⟨trivial, ?_⟩
        obtain ⟨⟨now, ttlSeconds, hcaches⟩ | hcaches, htools⟩ := h
        · have hpayload : (known key.scope.acl).HasPayload (.agent answer) := ho.1 ▸ ho.2
          exact hs.answered htools (hcaches ▸ hs.answers.set now hpayload ttlSeconds)
        · exact hs.answered htools (hcaches ▸ hs.answers)

end Stores

/-- There is nothing that is not known. -/
def everything : Knowledge where
  chunks := Set.univ
  said _ := True
  completed _ := True
  raised _ := True
  tools := Set.univ

/-- Where anything said or raised is known, nothing is asked of the models and backends. -/
theorem Knowledge.hears_of_all {known : Knowledge} (hsaid : ∀ message, known.said message)
    (hcompleted : ∀ text, known.completed text) (hraised : ∀ exn, known.raised exn)
    (o : RequestOp) (r : RequestResp o) : known.Hears o r := by
  rcases o with (o | o) | o
  · cases o with
    | chat messages tools => exact fun completion _ => hsaid completion.message
    | critique messages => exact fun completion _ => hsaid completion.message
    | _ => trivial
  · cases o with
    | complete prompt => exact fun reply _ => hcompleted reply.1
    | _ => exact fun exn _ => hraised exn
  · cases o with
    | cacheGet key => trivial
    | cacheSet key answer => trivial

/-- The same tenant and the same groups. -/
def SameReach (p q : Principal) : Prop := p.tenant = q.tenant ∧ p.groups = q.groups

/-- All of the corpus a principal is allowed to see. -/
def allowedChunks (corpus : Set Chunk) (principal : Principal) : Set Chunk :=
  {chunk | chunk ∈ corpus ∧ isAllowed principal chunk.acl = true}

section Tenants

variable [Runtime] [Math ℚ] {ι α : Type} [DecidableEq ι]

/-- The caches are empty and no request has begun. -/
def openStores (threshold : ℚ) (maxEntriesPerScope : Nat) (programs : ι → RequestProg α) :
    Pool RequestOp RequestResp ι SharedStores α :=
  Pool.start
    { answers :=
        ⟨{}, { threshold := threshold, maxEntriesPerScope := maxEntriesPerScope }⟩ }
    programs

variable {corpus : Set Chunk} {threshold : ℚ} {maxEntriesPerScope : Nat}
  {programs : ι → RequestProg α} {who : ι → Principal} {question : ι → String}
  {q : Pool RequestOp RequestResp ι SharedStores α}

/-- Whatever is known under each fingerprint, requests that keep within it alone keep within it
together, as long as models only say to them what is known. -/
theorem pool_within
    (h : Pool.Reaches (TenantCell corpus) Lapses
      (openStores threshold maxEntriesPerScope programs) q)
    {known : String → Knowledge} {Q : ι → α → Prop}
    (hprograms : ∀ j, Prog.Spec (GivenWithin corpus (known (aclFingerprint (who j))))
      (AsksWithin (known (aclFingerprint (who j))) (question j) (who j)) (programs j) (Q j))
    (hhears : ∀ j, ∀ e ∈ q.done j,
      AsksWithin (known (aclFingerprint (who j))) (question j) (who j) e.op →
      (known (aclFingerprint (who j))).Hears e.op e.resp) (i : ι) :
    (∀ e ∈ q.done i, AsksWithin (known (aclFingerprint (who i))) (question i) (who i) e.op)
      ∧ ∀ a, q.rest i = .ret a → Q i a := by
  have hempty : StoresKept known
      { answers :=
          ⟨{}, { threshold := threshold, maxEntriesPerScope := maxEntriesPerScope }⟩ } := by
    refine ⟨⟨?_, ?_⟩, ?_⟩
    · rintro key payload expires ⟨⟩
    · rintro scope bucket ⟨⟩
    · rintro key given expires ⟨⟩
  obtain ⟨-, hpool⟩ := Pool.spec_recorded (J := StoresKept known)
    (A := fun j => GivenWithin corpus (known (aclFingerprint (who j))))
    (G := fun j => AsksWithin (known (aclFingerprint (who j))) (question j) (who j)) h
    (fun s t j o r s' hrecorded hs ho hcell => by
      obtain ⟨hfinds, hs'⟩ := tenantCell_within hs ho hcell
      exact ⟨⟨hhears j ⟨o, r⟩ hrecorded ho, hfinds⟩, hs'⟩)
    (fun s s' hs hlapse => hs.lapse hlapse) hempty hprograms
  exact hpool i

/-- A request keeps within what its caller may know, if no other caller's names clash with the
caller's in the fingerprint. -/
theorem isolated_of_specs
    (h : Pool.Reaches (TenantCell corpus) Lapses
      (openStores threshold maxEntriesPerScope programs) q)
    {Q : ι → Knowledge → α → Prop}
    {tools : Set Tool}
    (hprograms : ∀ j known, Covers corpus known (who j) → tools ⊆ known.tools →
      Prog.Spec (GivenWithin corpus known) (AsksWithin known (question j) (who j)) (programs j)
        (Q j known)) (i : ι)
    (hclear : ∀ j, ¬ DelimiterClash (who j) (who i)) {known : Knowledge}
    (hchunks : known.chunks = allowedChunks corpus (who i)) (htools : tools ⊆ known.tools)
    (hhears : ∀ j, SameReach (who j) (who i) → ∀ e ∈ q.done j,
      AsksWithin known (question j) (who j) e.op → known.Hears e.op e.resp) :
    (∀ e ∈ q.done i, AsksWithin known (question i) (who i) e.op)
      ∧ ∀ a, q.rest i = .ret a → Q i known a := by
  -- Nothing is said of what is kept under other fingerprints.
  let under : String → Knowledge := fun acl =>
    if acl = aclFingerprint (who i) then known else everything
  have hown : under (aclFingerprint (who i)) = known := if_pos rfl
  have hother : ∀ j, aclFingerprint (who j) ≠ aclFingerprint (who i) →
      under (aclFingerprint (who j)) = everything := fun j hprint => if_neg hprint
  have hsame : ∀ j, aclFingerprint (who j) = aclFingerprint (who i) →
      SameReach (who j) (who i) := by
    intro j hprint
    rcases (fingerprint_eq_iff _ _).mp hprint with hsame | hclash
    · exact hsame
    · exact absurd hclash (hclear j)
  have hcovers : ∀ j, Covers corpus (under (aclFingerprint (who j))) (who j) := by
    intro j chunk hchunk hallowed
    by_cases hprint : aclFingerprint (who j) = aclFingerprint (who i)
    · rw [hprint, hown, hchunks]
      refine ⟨hchunk, ?_⟩
      rw [← (reach_iff _ _).mpr (hsame j hprint)]
      exact hallowed
    · rw [hother j hprint]
      exact Set.mem_univ chunk
  have hlisted : ∀ j, tools ⊆ (under (aclFingerprint (who j))).tools := by
    intro j
    by_cases hprint : aclFingerprint (who j) = aclFingerprint (who i)
    · rw [hprint, hown]
      exact htools
    · rw [hother j hprint]
      exact Set.subset_univ tools
  have hheard : ∀ j, ∀ e ∈ q.done j,
      AsksWithin (under (aclFingerprint (who j))) (question j) (who j) e.op →
      (under (aclFingerprint (who j))).Hears e.op e.resp := by
    intro j e he hasks
    by_cases hprint : aclFingerprint (who j) = aclFingerprint (who i)
    · rw [hprint, hown] at hasks ⊢
      exact hhears j (hsame j hprint) e he hasks
    · rw [hother j hprint]
      exact Knowledge.hears_of_all (fun _ => trivial) (fun _ => trivial) (fun _ => trivial) e.op
        e.resp
  have hwithin := pool_within h (fun j => hprograms j _ (hcovers j) (hlisted j)) hheard i
  rwa [hown] at hwithin

end Tenants

end Rag
