import Rag.Agent.Success
import Rag.Api.Query
import Rag.Cache.Memory
import Rag.Cache.Semantic
import Rag.Lib.Pool
import Rag.Pipelines.Execution

/-!
What the answer caches hold.

Any number of requests run interleaved over one exact cache and one semantic cache. The
pipeline stores an answer it has grounded, the route one the agent gave under its own
power, and a lookup returns what was stored; so by assume and guarantee every stored value
is a real answer, and no refusal is ever replayed.

Clocks, embedders, time to live and the loss of entries are left open, and a backend that
is down misses and drops what it is given.
-/

namespace Rag

open Py Interaction AgentRuntime

/-- Who uses the caches: the route, and those who run a turn themselves. -/
inductive Caller where
  | query (state : AppState) (body : QueryRequest) (principal : Principal)
  | turn (pipeline : OnlinePipeline) (rt : AgentRuntime) (question : String)
      (principal : Principal) (budget : Option Budget)

def Caller.program [Runtime] : Caller → RequestProg (Option (Except Exn Response))
  | .query state body principal => queryRoute (serve state.pipeline) state body principal
  | .turn pipeline rt question principal budget =>
      (ofAgent (serve pipeline) (rt.run question principal budget)).map
        (Option.map (Except.map Response.agent))

/-- One exact and one semantic cache. -/
structure SharedCaches where
  exact : MemoryCache AnswerKey Payload := {}
  semantic : SemanticCache AnswerScope ℚ Payload

/-- What the pipeline makes of a value it has read: text that is no answer raises. -/
def ReadAs : Option Payload → Except Exn (Option Answer) → Prop
  | none, r => r = .ok none
  | some payload, r =>
      match payload.asAnswer with
      | some answer => r = .ok (some answer)
      | none => ∃ exn, r = .error exn

section Cell

variable [Runtime] [Math ℚ]

/-- How the caches answer an operation of a request, and what becomes of them. All other
operations are answered from outside. -/
def CacheCell (caches : SharedCaches) (_ : List RequestEvent) :
    (o : RequestOp) → RequestResp o → SharedCaches → Prop
  | .inl (.inr (.cacheGet key)), r, caches' =>
      (∃ now, ReadAs (caches.exact.get now key).1 r
        ∧ caches' = { caches with exact := (caches.exact.get now key).2 })
      ∨ r = .ok none ∧ caches' = caches
  | .inr (.cacheGet key), r, caches' =>
      (∃ now, r = .ok (caches.exact.get now key).1
        ∧ caches' = { caches with exact := (caches.exact.get now key).2 })
      ∨ r = .ok none ∧ caches' = caches
  | .inl (.inr (.cacheSet key answer)), _, caches' =>
      (∃ now ttlSeconds,
        caches' = { caches with exact := caches.exact.set now key (.plain answer) ttlSeconds })
      ∨ caches' = caches
  | .inr (.cacheSet key answer), _, caches' =>
      (∃ now ttlSeconds,
        caches' = { caches with exact := caches.exact.set now key (.agent answer) ttlSeconds })
      ∨ caches' = caches
  | .inl (.inr (.semanticGet query scope)), r, caches' =>
      caches' = caches ∧ ∃ embedQuery,
        match caches.semantic.get embedQuery query scope with
        | .error exn => r = .error exn
        | .ok found => ReadAs found r
  | .inl (.inr (.semanticSet query answer scope)), r, caches' =>
      ∃ embedQuery, match caches.semantic.set embedQuery query (.plain answer) scope with
        | .error exn => r = .error exn ∧ caches' = caches
        | .ok semantic => r = .ok () ∧ caches' = { caches with semantic := semantic }
  | _, _, caches' => caches' = caches

end Cell

/-- The value is stored in one of the caches. -/
def SharedCaches.Stores (caches : SharedCaches) (payload : Payload) : Prop :=
  (∃ key expires, caches.exact.store.get? key = some (payload, expires))
    ∨ ∃ scope bucket, caches.semantic.buckets.get? scope = some bucket ∧
      ∃ e ∈ bucket, e.value = payload

/-- Outside the requests, entries only ever disappear. -/
def LosesEntries (caches caches' : SharedCaches) : Prop :=
  ∀ payload, caches'.Stores payload → caches.Stores payload

/-- A stored value decodes to a real answer, and to one the agent gave under its own power
where the agent's route stored it. -/
def RealPayload : Payload → Prop
  | .plain answer => RealAnswer answer
  | .agent answer => OwnAnswer answer
  | .corrupt => False

/-- A turn the agent did not complete under its own power. -/
def Response.Degraded : Response → Prop
  | .plain _ => False
  | .agent answer => answer.fallbackUsed = true ∨ answer.stopReason ∉ answerableStops

/-- A cached response is a real answer; one of a degraded turn hands over what the pipeline
had cached. -/
def Replays (response : Response) : Prop :=
  response.answer.cached = true → RealAnswer response.answer
    ∧ (response.Degraded → ∃ answer, response = .agent answer ∧ answer.fallbackUsed = true
      ∧ answer.stopReason = .fallbackPipeline)

theorem OwnAnswer.real {answer : AgentAnswer} (h : OwnAnswer answer) :
    RealAnswer answer.toAnswer :=
  ⟨h.answered, h.unexplained, h.cited⟩

theorem RealPayload.written {payload : Payload} (h : RealPayload payload) {answer : Answer}
    (hwritten : payload.written = some answer) : RealAnswer answer := by
  cases payload with
  | plain stored =>
      cases hwritten
      exact h
  | agent stored =>
      cases hwritten
      exact OwnAnswer.real h
  | corrupt => cases hwritten

section Stores

variable {caches caches' : SharedCaches} {payload : Payload}

theorem stores_exact_set {now : ℚ} {key : AnswerKey} {value : Payload} {ttlSeconds : Option ℤ}
    (h : SharedCaches.Stores
      { caches with exact := caches.exact.set now key value ttlSeconds } payload) :
    payload = value ∨ caches.Stores payload := by
  rcases h with ⟨key', expires, hget⟩ | h
  · change (caches.exact.store.set key _).get? key' = _ at hget
    rw [Dict.get?_set] at hget
    split_ifs at hget
    · cases hget
      exact Or.inl rfl
    · exact Or.inr (Or.inl ⟨key', expires, hget⟩)
  · exact Or.inr (Or.inr h)

theorem stores_exact_get {now : ℚ} {key : AnswerKey}
    (h : SharedCaches.Stores { caches with exact := (caches.exact.get now key).2 } payload) :
    caches.Stores payload := by
  rcases h with ⟨key', expires, hget⟩ | h
  · exact Or.inl ⟨key', expires, MemoryCache.get_store hget⟩
  · exact Or.inr h

theorem stores_of_exact_hit {now : ℚ} {key : AnswerKey}
    (h : (caches.exact.get now key).1 = some payload) : caches.Stores payload := by
  obtain ⟨expires, hget, -⟩ := MemoryCache.get_hit h
  exact Or.inl ⟨key, expires, hget⟩

variable [Runtime]

theorem stores_semantic_set {embedQuery : String → Except Exn Vector} {query : String}
    {value : Payload} {scope : AnswerScope} {semantic : SemanticCache AnswerScope ℚ Payload}
    (hset : caches.semantic.set embedQuery query value scope = .ok semantic)
    (h : SharedCaches.Stores { caches with semantic := semantic } payload) :
    payload = value ∨ caches.Stores payload := by
  rcases h with h | ⟨scope', bucket, hbucket, e, he, hvalue⟩
  · exact Or.inr (Or.inl h)
  · rcases SemanticCache.set_holds hset hbucket he hvalue with rfl | hold
    · exact Or.inl rfl
    · exact Or.inr (Or.inr ⟨scope', hold⟩)

theorem stores_of_semantic_hit [Math ℚ] {embedQuery : String → Except Exn Vector}
    {query : String} {scope : AnswerScope}
    (h : caches.semantic.get embedQuery query scope = .ok (some payload)) :
    caches.Stores payload := by
  obtain ⟨bucket, hbucket, hin⟩ := SemanticCache.get_hit h
  exact Or.inr ⟨scope, bucket, hbucket, hin⟩

end Stores

/-- The caches hand out real answers. -/
def HitsReal : (o : RequestOp) → RequestResp o → Prop
  | .inl (.inr (.cacheGet _)), r => ∀ answer, r = .ok (some answer) → RealAnswer answer
  | .inl (.inr (.semanticGet _ _)), r => ∀ answer, r = .ok (some answer) → RealAnswer answer
  | .inr (.cacheGet _), r => ∀ payload, r = .ok (some payload) → RealPayload payload
  | _, _ => True

/-- A request stores real answers. -/
def StoresReal : RequestOp → Prop
  | .inl (.inr (.cacheSet _ answer)) => RealAnswer answer
  | .inl (.inr (.semanticSet _ answer _)) => RealAnswer answer
  | .inr (.cacheSet _ answer) => OwnAnswer answer
  | _ => True

theorem readAs_real {found : Option Payload} {r : Except Exn (Option Answer)}
    (h : ReadAs found r) (hreal : ∀ payload, found = some payload → RealPayload payload) :
    ∀ answer, r = .ok (some answer) → RealAnswer answer := by
  rintro answer rfl
  cases found with
  | none => cases h
  | some payload =>
      have hdecoded : payload.asAnswer = some answer := by
        rw [ReadAs] at h
        split at h
        · rename_i decoded hdecoded
          rw [hdecoded]
          exact (Except.ok.inj h).symm
        · obtain ⟨exn, h⟩ := h
          cases h
      exact (hreal payload rfl).written (Payload.written_of_asAnswer hdecoded)

/-- Caches of real answers hand out real answers, and real stores keep them so. -/
theorem cacheCell_real [Runtime] [Math ℚ] {caches caches' : SharedCaches} {t : List RequestEvent}
    {o : RequestOp} {r : RequestResp o} (hcaches : ∀ payload, caches.Stores payload →
      RealPayload payload) (ho : StoresReal o) (h : CacheCell caches t o r caches') :
    HitsReal o r ∧ ∀ payload, caches'.Stores payload → RealPayload payload := by
  rcases o with (o | o) | o
  · cases h
    exact ⟨trivial, hcaches⟩
  · cases o with
    | cacheGet key =>
        rcases h with ⟨now, hread, rfl⟩ | ⟨rfl, rfl⟩
        · refine ⟨readAs_real hread ?_, ?_⟩
          · intro payload hfound
            exact hcaches payload (stores_of_exact_hit hfound)
          · intro payload hstores
            exact hcaches payload (stores_exact_get hstores)
        · exact ⟨by rintro answer ⟨⟩, hcaches⟩
    | cacheSet key answer =>
        rcases h with ⟨now, ttlSeconds, rfl⟩ | rfl
        · refine ⟨trivial, ?_⟩
          intro payload hstores
          rcases stores_exact_set hstores with rfl | hold
          · exact ho
          · exact hcaches payload hold
        · exact ⟨trivial, hcaches⟩
    | semanticGet query scope =>
        obtain ⟨rfl, embedQuery, hread⟩ := h
        refine ⟨?_, hcaches⟩
        cases hget : caches'.semantic.get embedQuery query scope with
        | error exn =>
            rw [hget] at hread
            cases hread
            rintro answer ⟨⟩
        | ok found =>
            rw [hget] at hread
            refine readAs_real hread ?_
            rintro payload rfl
            exact hcaches payload (stores_of_semantic_hit hget)
    | semanticSet query answer scope =>
        obtain ⟨embedQuery, hset⟩ := h
        refine ⟨trivial, ?_⟩
        cases hresult : caches.semantic.set embedQuery query (.plain answer) scope with
        | error exn =>
            rw [hresult] at hset
            obtain ⟨-, rfl⟩ := hset
            exact hcaches
        | ok semantic =>
            rw [hresult] at hset
            obtain ⟨-, rfl⟩ := hset
            intro payload hstores
            rcases stores_semantic_set hresult hstores with rfl | hold
            · exact ho
            · exact hcaches payload hold
    | _ =>
        cases h
        exact ⟨trivial, hcaches⟩
  · cases o with
    | cacheGet key =>
        rcases h with ⟨now, rfl, rfl⟩ | ⟨rfl, rfl⟩
        · refine ⟨?_, ?_⟩
          · intro payload hfound
            exact hcaches payload (stores_of_exact_hit (Except.ok.inj hfound))
          · intro payload hstores
            exact hcaches payload (stores_exact_get hstores)
        · exact ⟨by rintro payload ⟨⟩, hcaches⟩
    | cacheSet key answer =>
        rcases h with ⟨now, ttlSeconds, rfl⟩ | rfl
        · refine ⟨trivial, ?_⟩
          intro payload hstores
          rcases stores_exact_set hstores with rfl | hold
          · exact ho
          · exact hcaches payload hold
        · exact ⟨trivial, hcaches⟩

section Pipeline

variable [Runtime] (pipeline : OnlinePipeline) (query : String) (principal : Principal)

/-- `HitsReal` on what the pipeline asks. -/
abbrev PipeHitsReal (o : PipeOp) (r : PipeResp o) : Prop := HitsReal (.inl (.inr o)) r

/-- `StoresReal` on what the pipeline asks. -/
abbrev PipeStoresReal (o : PipeOp) : Prop := StoresReal (.inl (.inr o))

/-- A proper answer, and a real one if it is cached. -/
def ProperReply (answer : Answer) : Prop :=
  ProperAnswer answer ∧ (answer.cached = true → RealAnswer answer)

omit [Runtime] in
theorem RealAnswer.replayed {answer : Answer} (h : RealAnswer answer) (traceId : String) :
    ProperReply { answer with traceId := traceId, cached := true } := by
  have hreal : RealAnswer { answer with traceId := traceId, cached := true } :=
    ⟨h.answered, h.unexplained, h.cited⟩
  exact ⟨hreal.proper, fun _ => hreal⟩

omit [Runtime] in
theorem lookupCache_real (key : AnswerKey) :
    Prog.SpecE PipeHitsReal PipeStoresReal (pipeline.lookupCache key query)
      (fun found => ∀ answer, found = some answer → RealAnswer answer) fun _ => True := by
  unfold OnlinePipeline.lookupCache
  by_cases hcache : pipeline.settings.cacheEnabled = true
  · rw [if_pos hcache]
    simp only [Prog.specE_bind]
    refine ⟨trivial, ?_⟩
    rintro (exn | _ | hit) hreal
    · trivial
    · change Prog.SpecE _ _ (if pipeline.semanticCache then _ else _ : Pipe _) _ _
      split_ifs
      · refine ⟨trivial, ?_⟩
        rintro (exn | found) hnear
        · trivial
        · rintro answer rfl
          exact hnear answer rfl
      · rintro answer ⟨⟩
    · rintro answer ⟨⟩
      exact hreal hit rfl
  · rw [if_neg hcache]
    rintro answer ⟨⟩

omit [Runtime] in
theorem storesReal_of_execution {o : PipeOp} (h : ExecutionOp o) : PipeStoresReal o := by
  cases o with
  | cacheGet => exact h.elim
  | semanticGet => exact h.elim
  | cacheSet => exact h
  | semanticSet => exact h
  | _ => exact True.intro

/-- Over caches of real answers a call stores real answers and returns a proper one. -/
theorem answer_real :
    Prog.SpecE PipeHitsReal PipeStoresReal (pipeline.answer query principal) ProperReply
      fun _ => True := by
  have hexecution : ∀ traceId indexVersion key, Prog.SpecE PipeHitsReal PipeStoresReal
      (pipeline.execute query traceId principal indexVersion key) ProperReply fun _ => True := by
    intro traceId indexVersion key
    have hspec := Spec.of_recorded fun t =>
      execution_spec pipeline query traceId t principal indexVersion key
    refine (hspec.strengthen (fun _ _ _ _ => trivial) fun _ => storesReal_of_execution).mono ?_
    rintro (exn | answer) h
    · trivial
    · refine ⟨h.2, ?_⟩
      intro hcached
      rw [h.1] at hcached
      cases hcached
  rw [answer_eq, OnlinePipeline.activeIndexVersion]
  simp only [Prog.specE_bind, Prog.specE_pure]
  refine ⟨trivial, fun traceId _ => ⟨trivial, fun resolved _ => ?_⟩⟩
  refine (lookupCache_real pipeline query _).mono ?_ fun _ h => h
  rintro (_ | hit) hfound
  · exact hexecution _ _ _
  · exact (hfound hit rfl).replayed traceId

end Pipeline

section Turns

variable [Runtime] (pipeline : OnlinePipeline) (rt : AgentRuntime)

/-- The pipeline answers a fallback properly. -/
def FallbacksProper : (o : AgentOp) → AgentResp o → Prop
  | .answer _ _, r => ∀ answer, r = .ok answer → ProperReply answer
  | _, _ => True

/-- What a turn hands over. -/
structure TurnReply (answer : AgentAnswer) : Prop where
  reply : ProperReply answer.toAnswer
  replayed : answer.cached = true → answer.fallbackUsed = true
    ∧ answer.stopReason = .fallbackPipeline
  own : answer.refused = false → answer.fallbackUsed = false → OwnAnswer answer

omit [Runtime] in
theorem OwnAnswer.turnReply {answer : AgentAnswer} (h : OwnAnswer answer)
    (hcached : answer.cached = false) : TurnReply answer where
  reply := ⟨h.real.proper, fun _ => h.real⟩
  replayed := by simp [hcached]
  own := fun _ _ => h

omit [Runtime] in
theorem SteppedAside.turnReply {answer : AgentAnswer} {outcome : Except Exn Answer}
    (h : SteppedAside answer outcome)
    (hproper : ∀ fallback, outcome = .ok fallback → ProperReply fallback) : TurnReply answer := by
  cases outcome with
  | error exn =>
      obtain ⟨hrefused, hcitations, hreason, hcached, -, -⟩ := h
      refine ⟨⟨?_, by simp [hcached]⟩, by simp [hcached], by simp [hrefused]⟩
      rw [ProperAnswer, if_pos hrefused]
      exact ⟨hcitations, hreason⟩
  | ok fallback =>
      obtain ⟨hrefused, hcitations, hreason, hcached, hfallback, hstop⟩ := h
      obtain ⟨hanswer, hreal⟩ := hproper fallback rfl
      refine ⟨⟨?_, ?_⟩, fun _ => ⟨hfallback, hstop⟩, by simp [hfallback]⟩
      · rw [ProperAnswer, hrefused, hcitations, hreason]
        exact hanswer
      · intro hhit
        rw [hcached] at hhit
        have hstored := hreal hhit
        exact ⟨hrefused.trans hstored.answered, hreason.trans hstored.unexplained,
          hcitations ▸ hstored.cited⟩

theorem run_reply (question : String) (principal : Principal) (budget : Option Budget) :
    Prog.Spec FallbacksProper (fun _ => True) (rt.run question principal budget)
      fun out => ∀ answer, out = some (.ok answer) → TurnReply answer := by
  refine Prog.Spec.of_runs ?_
  rintro t out hr hproper answer rfl
  obtain ⟨exit, hleft⟩ := run_left hr
  rcases left_cases hleft with ⟨-, hown, hcached⟩ | ⟨-, outcome, hin, haside⟩
  · exact hown.turnReply hcached
  · exact haside.turnReply (hproper _ hin)

/-- The collaborators of a turn, the pipeline among them. -/
theorem serve_real (o : AgentOp) :
    Prog.Spec (fun o => HitsReal (.inl o)) (fun o => StoresReal (.inl o)) (serve pipeline o)
      (FallbacksProper o) := by
  by_cases ho : ∃ question principal, o = .answer question principal
  · obtain ⟨question, principal, rfl⟩ := ho
    have hpipeline : Prog.Spec (fun o => HitsReal (.inl o)) (fun o => StoresReal (.inl o))
        (Prog.interp onPipeline (pipeline.answer question principal).run) _ :=
      Prog.Spec.interp (answer_real pipeline question principal) fun o ho => ⟨ho, fun _ hr => hr⟩
    refine hpipeline.mono ?_
    rintro r hr answer rfl
    exact hr
  · rw [serve_eq fun question principal h => ho ⟨question, principal, h⟩]
    refine ⟨trivial, ?_⟩
    intro r _
    cases o with
    | answer question principal => exact absurd ⟨question, principal, rfl⟩ ho
    | _ => trivial

theorem turn_real (question : String) (principal : Principal) (budget : Option Budget) :
    Prog.Spec HitsReal StoresReal (ofAgent (serve pipeline) (rt.run question principal budget))
      fun out => ∀ answer, out = some (.ok answer) → TurnReply answer := by
  have hserved := Prog.Spec.interp (run_reply rt question principal budget) fun o _ =>
    serve_real pipeline o
  exact hserved.interp fun o ho => ⟨ho, fun _ hr => hr⟩

end Turns

section Route

variable [Runtime] (state : AppState) (rt : AgentRuntime) (body : QueryRequest)
  (principal : Principal)

omit [Runtime] in
theorem RealPayload.replays {payload : Payload} (h : RealPayload payload) {response : Response}
    (hresponse : payload.replay = some response) : Replays response := by
  have hagent : ∀ answer : AgentAnswer, RealAnswer answer.toAnswer →
      answer.fallbackUsed = false → answer.stopReason ∈ answerableStops →
      Replays (.agent { answer with cached := true }) := by
    intro answer hreal hfallback hstop _
    refine ⟨⟨hreal.answered, hreal.unexplained, hreal.cited⟩, ?_⟩
    rintro (hused | hstopped)
    · rw [hfallback] at hused
      cases hused
    · exact absurd hstop hstopped
  rw [Payload.replay] at hresponse
  cases hdecoded : payload.asAgentAnswer with
  | none =>
      rw [hdecoded] at hresponse
      obtain ⟨answer, hanswer, rfl⟩ := Option.map_eq_some_iff.mp hresponse
      have hreal := h.written (Payload.written_of_asAnswer hanswer)
      intro _
      exact ⟨⟨hreal.answered, hreal.unexplained, hreal.cited⟩, fun hdegraded => hdegraded.elim⟩
  | some answer =>
      rw [hdecoded] at hresponse
      cases hresponse
      cases payload with
      | plain stored =>
          obtain ⟨-, hstored⟩ := Option.ite_none_right_eq_some.mp hdecoded
          cases hstored
          exact hagent _ h rfl (by simp [answerableStops])
      | agent stored =>
          obtain ⟨-, hstored⟩ := Option.ite_none_right_eq_some.mp hdecoded
          cases hstored
          exact hagent _ h.real h.agent h.answerable
      | corrupt => cases h

omit [Runtime] in
theorem lookupAgentAnswer_real (key : AnswerKey) :
    Prog.SpecE HitsReal StoresReal (lookupAgentAnswer state key)
      (fun found => ∀ response, found = some response → Replays response) fun _ => True := by
  unfold lookupAgentAnswer
  split_ifs
  · simp only [Prog.specE_bind]
    refine ⟨trivial, ?_⟩
    rintro (exn | _ | payload) hreal
    · trivial
    · rintro response ⟨⟩
    · intro response hresponse
      exact (hreal payload rfl).replays hresponse
  · rintro response ⟨⟩

omit [Runtime] in
theorem storeAgentAnswer_real (key : AnswerKey) {answer : AgentAnswer} (h : TurnReply answer) :
    Prog.SpecE HitsReal StoresReal (storeAgentAnswer state key answer) (fun _ => True)
      fun _ => True := by
  unfold storeAgentAnswer
  split_ifs with hgate
  · have hown : OwnAnswer answer := by
      simp only [storesAgentAnswer, Bool.and_eq_true, Bool.not_eq_true'] at hgate
      exact h.own hgate.1.1.2 hgate.1.2
    refine ⟨hown, ?_⟩
    rintro (exn | _) -
    · trivial
    · trivial
  · trivial

theorem agentAnswerKey_real (budget : Budget) :
    Prog.SpecE HitsReal StoresReal
      (agentAnswerKey (serve state.pipeline) state rt body principal budget) (fun _ => True)
      fun _ => True := by
  have htools : Prog.Spec HitsReal StoresReal
      (ofAgent (serve state.pipeline) (allowedFor rt.tools rt.allowEgress)) fun _ => True := by
    have hserved : Prog.Spec (fun o => HitsReal (.inl o)) (fun o => StoresReal (.inl o))
        (Prog.interp (serve state.pipeline) (allowedFor rt.tools rt.allowEgress)) fun _ => True :=
      Prog.Spec.interp (A := FallbacksProper) (G := fun _ => True)
        (Prog.Spec.of_runs fun _ _ _ _ => trivial) fun o _ => serve_real state.pipeline o
    exact hserved.interp fun o ho => ⟨ho, fun _ hr => hr⟩
  unfold agentAnswerKey
  simp only [Prog.specE_bind]
  refine htools.mono ?_
  rintro (exn | tools) -
  · trivial
  · exact ⟨trivial, fun _ _ => trivial⟩

theorem runAgent_real :
    Prog.Spec HitsReal StoresReal (runAgent (serve state.pipeline) state rt body principal)
      fun out => ∀ response, out = some (.ok response) → Replays response := by
  unfold runAgent
  extract_lets budget
  have hopen : Prog.SpecE HitsReal StoresReal
      (openAgentRequest (serve state.pipeline) state rt body principal budget)
      (fun opened => ∀ response, opened.2 = some response → Replays response)
      fun _ => True := by
    unfold openAgentRequest
    simp only [Prog.specE_bind]
    refine (agentAnswerKey_real state rt body principal budget).mono ?_ fun _ h => h
    intro key _
    exact (lookupAgentAnswer_real state key).mono (fun _ h => h) fun _ h => h
  rw [Prog.spec_bind]
  refine Prog.Spec.mono hopen ?_
  rintro (exn | ⟨key, _ | hit⟩) hfound
  · rintro response ⟨⟩
  · dsimp only
    rw [Prog.spec_bind]
    refine (turn_real state.pipeline rt body.query.val principal (some budget)).mono ?_
    rintro (_ | exn | answer) hreply
    · rintro response ⟨⟩
    · rintro response ⟨⟩
    · have hturn := hreply answer rfl
      dsimp only
      rw [Prog.spec_bind]
      refine Prog.Spec.mono (storeAgentAnswer_real state key hturn) ?_
      rintro (exn | _) -
      · rintro response ⟨⟩
      · rintro response ⟨⟩ hcached
        obtain ⟨hfallback, hstop⟩ := hturn.replayed hcached
        exact ⟨hturn.reply.2 hcached, fun _ => ⟨answer, rfl, hfallback, hstop⟩⟩
  · rintro response ⟨⟩
    exact hfound hit rfl

theorem queryRoute_real :
    Prog.Spec HitsReal StoresReal (queryRoute (serve state.pipeline) state body principal)
      fun out => ∀ response, out = some (.ok response) → Replays response := by
  have hfast : Prog.Spec HitsReal StoresReal (do
      let answer ← (ofPipeline (state.pipeline.answer body.query.val principal)).run
      pure (some (answer.map Response.plain)) : RequestProg (Option (Except Exn Response)))
      fun out => ∀ response, out = some (.ok response) → Replays response := by
    have hanswer : Prog.Spec HitsReal StoresReal
        (ofPipeline (state.pipeline.answer body.query.val principal)).run _ :=
      Prog.Spec.interp (Prog.Spec.interp
        (answer_real state.pipeline body.query.val principal) fun o ho => ⟨ho, fun _ hr => hr⟩)
        fun o ho => ⟨ho, fun _ hr => hr⟩
    rw [Prog.spec_bind]
    refine hanswer.mono ?_
    rintro (exn | answer) hreply
    · rintro response ⟨⟩
    · rintro response ⟨⟩ hcached
      exact ⟨hreply.2 hcached, fun hdegraded => hdegraded.elim⟩
  unfold queryRoute
  extract_lets useAgent
  split
  · exact runAgent_real state _ body principal
  · exact hfast

end Route

section Pools

variable [Runtime] [Math ℚ]

/-- What a caller gets. -/
def Caller.Replied : Caller → Response → Prop
  | .query _ _ _, response => Replays response
  | .turn _ _ _ _ _, response => ∃ answer, response = .agent answer ∧ TurnReply answer

omit [Runtime] [Math ℚ] in
theorem Caller.Replied.replays {caller : Caller} {response : Response}
    (h : caller.Replied response) : Replays response := by
  cases caller with
  | query state body principal => exact h
  | turn pipeline rt question principal budget =>
      obtain ⟨answer, rfl, hturn⟩ := h
      intro hcached
      obtain ⟨hfallback, hstop⟩ := hturn.replayed hcached
      exact ⟨hturn.reply.2 hcached, fun _ => ⟨answer, rfl, hfallback, hstop⟩⟩

omit [Math ℚ] in
theorem program_real (caller : Caller) :
    Prog.Spec HitsReal StoresReal caller.program
      fun out => ∀ response, out = some (.ok response) → caller.Replied response := by
  cases caller with
  | query state body principal => exact queryRoute_real state body principal
  | turn pipeline rt question principal budget =>
      rw [Caller.program, Prog.map, Prog.spec_bind]
      refine (turn_real pipeline rt question principal budget).mono ?_
      rintro (_ | exn | answer) hreply
      · rintro response ⟨⟩
      · rintro response ⟨⟩
      · rintro response ⟨⟩
        exact ⟨answer, rfl, hreply answer rfl⟩

variable {ι : Type} [DecidableEq ι]

/-- The caches are empty and no caller has begun. -/
def openCaches (threshold : ℚ) (maxEntriesPerScope : Nat) (callers : ι → Caller) :
    Pool RequestOp RequestResp ι SharedCaches (Option (Except Exn Response)) :=
  Pool.start ⟨{}, { threshold := threshold, maxEntriesPerScope := maxEntriesPerScope }⟩
    fun i => (callers i).program

variable {threshold : ℚ} {maxEntriesPerScope : Nat} {callers : ι → Caller}
  {q : Pool RequestOp RequestResp ι SharedCaches (Option (Except Exn Response))}

/-- Everything stored is real, every lookup was answered so, and so are the replies. -/
theorem pool_real
    (h : Pool.Reaches CacheCell LosesEntries (openCaches threshold maxEntriesPerScope callers) q) :
    (∀ payload, q.shared.Stores payload → RealPayload payload)
      ∧ ∀ i, (∀ e ∈ q.done i, HitsReal e.op e.resp)
        ∧ ∀ response, q.rest i = .ret (some (.ok response)) → (callers i).Replied response := by
  have hempty : ∀ payload, ¬ SharedCaches.Stores
      ⟨{}, { threshold := threshold, maxEntriesPerScope := maxEntriesPerScope }⟩ payload := by
    rintro payload (⟨key, expires, hget⟩ | ⟨scope, bucket, hget, -⟩)
    · cases hget
    · cases hget
  obtain ⟨hcaches, hreplies⟩ := Pool.spec
    (J := fun caches => ∀ payload, caches.Stores payload → RealPayload payload)
    (fun caches t o r caches' hJ ho hcell => cacheCell_real hJ ho hcell)
    (fun caches caches' hJ hloses payload hstores => hJ payload (hloses payload hstores))
    (fun payload hstores => absurd hstores (hempty payload))
    (fun i => program_real (callers i)) h
  exact ⟨hcaches, fun i => ⟨(hreplies i).1, fun response hdone =>
    (hreplies i).2 _ hdone response rfl⟩⟩

/-- Whatever the models, tools and backends do and however requests interleave, everything
the caches hold was written from a real answer, under the agent's own power where the agent's
route stored it, and decodes to that answer if the scores of its citations are finite. No cached
response is a refusal, and one of a degraded turn is a fallback to an answer the pipeline had
cached. -/
theorem caches_hold_real_answers
    (h : Pool.Reaches CacheCell LosesEntries (openCaches threshold maxEntriesPerScope callers) q) :
    (∀ payload, q.shared.Stores payload →
      (∃ answer, payload.written = some answer ∧ answer.refused = false
        ∧ answer.refusalReason = none ∧ answer.citations ≠ []
        ∧ payload.asAnswer = if answer.storable then some answer else none)
      ∧ ∀ answer, payload = .agent answer →
        answer.fallbackUsed = false ∧ answer.stopReason ∈ answerableStops)
    ∧ ∀ i response, q.rest i = .ret (some (.ok response)) → response.answer.cached = true →
      response.answer.refused = false ∧ response.answer.refusalReason = none
        ∧ response.answer.citations ≠ []
        ∧ (response.Degraded → ∃ answer, response = .agent answer
          ∧ answer.fallbackUsed = true ∧ answer.stopReason = .fallbackPipeline) := by
  obtain ⟨hcaches, hreplies⟩ := pool_real h
  constructor
  · intro payload hstores
    have hreal := hcaches payload hstores
    cases payload with
    | plain answer =>
        exact ⟨⟨answer, rfl, hreal.answered, hreal.unexplained, hreal.cited,
          Option.filter_some⟩, by simp⟩
    | agent answer =>
        refine ⟨⟨_, rfl, hreal.answered, hreal.unexplained, hreal.cited, Option.filter_some⟩, ?_⟩
        rintro _ ⟨⟩
        exact ⟨hreal.agent, hreal.answerable⟩
    | corrupt => cases hreal
  · intro i response hdone hcached
    obtain ⟨hreal, hdegraded⟩ := ((hreplies i).2 response hdone).replays hcached
    exact ⟨hreal.answered, hreal.unexplained, hreal.cited, hdegraded⟩

end Pools

section Replay

variable [Runtime]

/-- A reading `ReadAs` allows. -/
def readBack : Option Payload → Except Exn (Option Answer)
  | none => .ok none
  | some payload =>
      match payload.asAnswer with
      | some answer => .ok (some answer)
      | none => .error (valueError "")

omit [Runtime] in
theorem readAs_readBack (found : Option Payload) : ReadAs found (readBack found) := by
  cases found with
  | none => rfl
  | some payload =>
      rw [ReadAs, readBack]
      cases payload.asAnswer with
      | none => exact ⟨_, rfl⟩
      | some answer => rfl

/-- The caches at time zero, the embedder down; `f` answers everything else. -/
def exactOnly [Math ℚ] (f : (o : ServiceOp) → ServiceResp o) (caches : SharedCaches)
    (_ : List RequestEvent) : (o : RequestOp) → RequestResp o × SharedCaches
  | .inl (.inr (.cacheGet key)) =>
      let found := caches.exact.get 0 key
      (readBack found.1, { caches with exact := found.2 })
  | .inr (.cacheGet key) =>
      let found := caches.exact.get 0 key
      (.ok found.1, { caches with exact := found.2 })
  | .inl (.inr (.cacheSet key answer)) =>
      (.ok (), { caches with exact := caches.exact.set 0 key (.plain answer) (some 3600) })
  | .inr (.cacheSet key answer) =>
      (.ok (), { caches with exact := caches.exact.set 0 key (.agent answer) (some 3600) })
  | .inl (.inr (.semanticGet query scope)) =>
      let found := caches.semantic.get (fun _ => .error (valueError "")) query scope
      (found.bind readBack, caches)
  | .inl (.inr (.semanticSet _ _ _)) => (.error (valueError ""), caches)
  | .inl o => (f o, caches)

theorem exactOnly_allowed [Math ℚ] (f : (o : ServiceOp) → ServiceResp o) (caches : SharedCaches)
    (t : List RequestEvent) (o : RequestOp) :
    CacheCell caches t o (exactOnly f caches t o).1 (exactOnly f caches t o).2 := by
  rcases o with (o | o) | o
  · rfl
  · cases o with
    | cacheGet key => exact Or.inl ⟨0, readAs_readBack _, rfl⟩
    | cacheSet key answer => exact Or.inl ⟨0, some 3600, rfl⟩
    | semanticGet query scope =>
        refine ⟨rfl, fun _ => .error (valueError ""), ?_⟩
        change match caches.semantic.get (fun _ => .error (valueError "")) query scope with
          | .error exn => (caches.semantic.get (fun _ => .error (valueError "")) query scope).bind
              readBack = .error exn
          | .ok found => ReadAs found
              ((caches.semantic.get (fun _ => .error (valueError "")) query scope).bind readBack)
        cases caches.semantic.get (fun _ => .error (valueError "")) query scope with
        | error exn => rfl
        | ok found => exact readAs_readBack found
    | semanticSet query answer scope => exact ⟨fun _ => .error (valueError ""), rfl, rfl⟩
    | _ => rfl
  · cases o with
    | cacheGet key => exact Or.inl ⟨0, rfl, rfl⟩
    | cacheSet key answer => exact Or.inl ⟨0, some 3600, rfl⟩

end Replay

def cachingPipeline : OnlinePipeline where
  settings := { piiRedactionEnabled := false }

def replayState : AppState where
  pipeline := cachingPipeline
  settings := {}
  agent := some bareRuntime

/-- The same question to the pipeline and then to the agent. -/
def askTwice (agent : Bool) : Caller :=
  .query replayState ⟨⟨"q", by decide⟩, if agent then .agent else .fast, none, none, none, none,
    none, none⟩ bareTurn.principal

/-- The pipeline grounds an answer; then the planner is down and the agent falls back. -/
@[irreducible] def askedTwice [Runtime] [Math ℚ] :
    Pool RequestOp RequestResp Bool SharedCaches (Option (Except Exn Response)) :=
  ((openCaches 1 256 askTwice).finish (exactOnly mixedAnswers) false).finish
    (exactOnly mixedAnswers) true

/-- A caller served by `exactOnly` from beginning to end. -/
theorem finish_reached [Runtime] [Math ℚ] {ι : Type} [DecidableEq ι]
    (f : (o : ServiceOp) → ServiceResp o)
    (p : Pool RequestOp RequestResp ι SharedCaches (Option (Except Exn Response))) (i : ι) :
    Pool.Reaches CacheCell LosesEntries p (p.finish (exactOnly f) i) :=
  Pool.reaches_finish (fun caches t o => ⟨caches, .refl, exactOnly_allowed f caches t o⟩) p i

theorem askedTwice_reached [Runtime] [Math ℚ] :
    Pool.Reaches CacheCell LosesEntries (openCaches 1 256 askTwice) askedTwice := by
  rw [askedTwice]
  exact (finish_reached mixedAnswers _ false).trans (finish_reached mixedAnswers _ true)

/-- The reply is a cached answer, handed over as a fallback. -/
def repliesWithReplay : Option (Except Exn Response) → Bool
  | some (.ok (.agent answer)) => answer.cached && answer.fallbackUsed
  | _ => false

/-- The second caller gets the first one's answer, as a fallback. -/
theorem askedTwice_replays :
    let _ := Runtime.ascii
    let _ := unitMath
    ∃ answer, askedTwice.rest true = .ret (some (.ok (.agent answer)))
      ∧ answer.cached = true ∧ answer.fallbackUsed = true := by
  intro _ _
  have hreplayed : (askedTwice.rest true).value?.map repliesWithReplay = some true := by
    decide +kernel
  obtain ⟨out, hout, hagent⟩ := Option.map_eq_some_iff.mp hreplayed
  rcases out with _ | exn | answer | answer
  · cases hagent
  · cases hagent
  · cases hagent
  · have hmarks : answer.cached = true ∧ answer.fallbackUsed = true := by
      simpa [repliesWithReplay] using hagent
    exact ⟨answer, Prog.eq_ret_of_value? hout, hmarks⟩

theorem caches_hold_real_answers_askedTwice :
    let _ := Runtime.ascii
    let _ := unitMath
    ∃ response, askedTwice.rest true = .ret (some (.ok response))
      ∧ response.answer.cached = true ∧ response.answer.refused = false
      ∧ response.answer.citations ≠ [] := by
  intro _ _
  obtain ⟨answer, hdone, hcached, -⟩ := askedTwice_replays
  obtain ⟨hrefused, -, hcitations, -⟩ :=
    (caches_hold_real_answers askedTwice_reached).2 true (.agent answer) hdone hcached
  exact ⟨.agent answer, hdone, hcached, hrefused, hcitations⟩

/-- A page whose score is an infinity. -/
def unboundedResult : ToolResult where
  callId := "c1"
  name := "search"
  sources := [{ kind := .web, ref := "page1", score := .inf }]

/-- The planner finds the page and cites it, and the critic approves. -/
def unboundedAnswers : (o : ServiceOp) → ServiceResp o
  | .inl (.chat messages _) =>
      .ok (if messages.length = 2 then searchCompletion else completionOf "Found in [page1]." 1)
  | .inl (.critique _) =>
      .ok (completionOf "\x7b\"sufficient\": true, \"grounded\": true\x7d" 1)
  | .inl o => searchAnswers unboundedResult o
  | .inr o => mixedAnswers (.inr o)

def unboundedCaller (_ : Bool) : Caller :=
  .query { replayState with agent := some { searchRuntime with piiRedactionEnabled := false } }
    ⟨⟨"q", by decide⟩, .agent, none, none, none, none, none, none⟩ searchTurn.principal

/-- The agent answers a question from the page. -/
@[irreducible] def unboundedStored [Runtime] [Math ℚ] :
    Pool RequestOp RequestResp Bool SharedCaches (Option (Except Exn Response)) :=
  (openCaches 1 256 unboundedCaller).finish (exactOnly unboundedAnswers) false

theorem unboundedStored_reached [Runtime] [Math ℚ] :
    Pool.Reaches CacheCell LosesEntries (openCaches 1 256 unboundedCaller) unboundedStored := by
  rw [unboundedStored]
  exact finish_reached unboundedAnswers _ false

/-- What is stored of the answer cannot be read again. -/
theorem unboundedStored_unreadable :
    let _ := Runtime.ascii
    let _ := unitMath
    ∃ payload, unboundedStored.shared.Stores payload ∧ payload.asAnswer = none := by
  intro _ _
  have hstored : unboundedStored.shared.exact.store.items.map
      (fun item => item.2.1.asAnswer.isNone) = [true] := by
    decide +kernel
  obtain ⟨⟨key, payload, expires⟩, hitem, hnone⟩ :
      ∃ item ∈ unboundedStored.shared.exact.store.items, item.2.1.asAnswer.isNone = true := by
    apply List.mem_map.mp
    rw [hstored]
    exact List.mem_singleton_self _
  exact ⟨payload, Or.inl ⟨key, expires, Dict.get?_iff.mpr hitem⟩, Option.isNone_iff_eq_none.mp hnone⟩

/-- A stored answer need not decode, since JSON has no infinite score, and a cached response can be
a fallback: the pipeline's own hit is handed over as such. -/
theorem cached_fallbacks_are_degraded :
    (¬ ∀ (_ : Runtime) (_ : Math ℚ) (callers : Bool → Caller) (threshold : ℚ)
      (maxEntriesPerScope : Nat)
      (q : Pool RequestOp RequestResp Bool SharedCaches (Option (Except Exn Response))),
      Pool.Reaches CacheCell LosesEntries (openCaches threshold maxEntriesPerScope callers) q →
      ∀ payload, q.shared.Stores payload → ∃ answer, payload.asAnswer = some answer)
    ∧ ¬ ∀ (_ : Runtime) (_ : Math ℚ) (callers : Bool → Caller) (threshold : ℚ)
      (maxEntriesPerScope : Nat)
      (q : Pool RequestOp RequestResp Bool SharedCaches (Option (Except Exn Response))),
      Pool.Reaches CacheCell LosesEntries (openCaches threshold maxEntriesPerScope callers) q →
      ∀ i response, q.rest i = .ret (some (.ok response)) → response.answer.cached = true →
        response.answer.refused = false ∧ ¬ response.Degraded := by
  let _ := Runtime.ascii
  let _ := unitMath
  constructor
  · intro h
    obtain ⟨payload, hstored, hnone⟩ := unboundedStored_unreadable
    obtain ⟨answer, hanswer⟩ := h Runtime.ascii unitMath unboundedCaller 1 256 unboundedStored
      unboundedStored_reached payload hstored
    rw [hnone] at hanswer
    cases hanswer
  · intro h
    obtain ⟨answer, hdone, hcached, hfallback⟩ := askedTwice_replays
    have hreplay := h Runtime.ascii unitMath askTwice 1 256 askedTwice askedTwice_reached true
      (.agent answer) hdone hcached
    exact hreplay.2 (Or.inl hfallback)

end Rag
