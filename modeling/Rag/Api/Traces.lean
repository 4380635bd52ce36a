import Rag.Agent.Rendering
import Rag.Cache.RealAnswers
import Rag.Pipelines.Outcome

/-!
Which trace id a response carries.

Every path of a request stamps its answer with the trace id of the request, answers from the
caches of the pipeline among them. Only a hit in the answer cache of the agent hands the stored
answer over with the id it was stored with. So a response carries the id of its request exactly
when no stored answer of another id was handed over (`trace_own_iff`).
-/

namespace Rag

open Py Interaction AgentRuntime

/-- Whoever looks the trace up gets the id of the request. -/
def PipeInTrace (id : String) : (o : PipeOp) → PipeResp o → Prop
  | .startTrace, r => r = id
  | .currentTraceId, r => r = id
  | _, _ => True

def AgentInTrace (id : String) : (o : AgentOp) → AgentResp o → Prop
  | .startTrace, r => r = id
  | .currentTraceId, r => r = id
  | _, _ => True

def ServiceInTrace (id : String) : (o : ServiceOp) → ServiceResp o → Prop
  | .inl o, r => AgentInTrace id o r
  | .inr o, r => PipeInTrace id o r

/-- What the middleware has set is visible wherever the request runs. -/
def InTrace (id : String) (e : RequestEvent) : Prop :=
  match e with
  | ⟨.inl o, r⟩ => ServiceInTrace id o r
  | ⟨.inr _, _⟩ => True

/-- If the lookup in the answer cache of the agent finds an answer, it carries this id. -/
def ReplaysOwn (id : String) (e : RequestEvent) : Prop :=
  match e with
  | ⟨.inr (.cacheGet _), .ok (some payload)⟩ =>
      ∀ response, payload.replay = some response → response.answer.traceId = id
  | _ => True

section Pipeline

/-- Nothing is promised of what is only done for its effect. -/
theorem specE_any {A : (o : PipeOp) → PipeResp o → Prop} {α : Type} (p : Pipe α) :
    Prog.SpecE A (fun _ => True) p (fun _ => True) fun _ => True := by
  refine Prog.Spec.of_runs ?_
  rintro t (exn | a) - -
  · trivial
  · trivial

variable [Runtime] {id : String} (pipeline : OnlinePipeline) (query : String)
  (principal : Principal)

/-- A refusal of generation carries the id it was given. -/
theorem generate_traced (result : QueryResult) :
    Prog.SpecE (PipeInTrace id) (fun _ => True) (pipeline.generate query id result)
      (fun generated => ∀ refusal, generated = .error refusal → refusal.traceId = id)
      fun _ => True := by
  refine Prog.Spec.of_runs ?_
  rintro t (exn | generated) hr -
  · trivial
  rintro refusal rfl
  rw [generate_eq] at hr
  obtain ⟨generationTrace, u, rfl, hnext⟩ := (Prog.runs_call_iff _ _ _ _).mp hr
  split_ifs at hnext
  · obtain ⟨-, hgenerated⟩ := (Prog.runs_ret_iff _ _ _).mp hnext
    cases hgenerated
  · obtain ⟨answered, v, rfl, hdone⟩ := (Prog.runs_call_iff _ _ _ _).mp hnext
    obtain ⟨-, hgenerated⟩ := (Prog.runs_ret_iff _ _ _).mp hdone
    rcases answered with exn | ⟨rawText, usage⟩
    · rw [afterCompletion] at hgenerated
      split_ifs at hgenerated
      cases hgenerated
      rfl
    · cases hgenerated

theorem execute_traced (indexVersion : String) (key : AnswerKey) :
    Prog.SpecE (PipeInTrace id) (fun _ => True)
      (pipeline.execute query id principal indexVersion key) (fun answer => answer.traceId = id)
      fun _ => True := by
  have hgrounded : Prog.SpecE (PipeInTrace id) (fun _ => True)
      (pipeline.ground query id principal indexVersion key) (fun answer => answer.traceId = id)
      fun _ => True := by
    simp only [OnlinePipeline.ground, Prog.specE_bind]
    refine (specE_any _).mono ?_ fun _ h => h
    intro result _
    refine (generate_traced pipeline query result).mono ?_ fun _ h => h
    rintro (refusal | grounded) hrefusal
    · exact hrefusal refusal rfl
    · simp only [Prog.specE_bind]
      refine ⟨trivial, fun answerTrace htrace => ?_⟩
      exact (specE_any (pipeline.storeAnswer key query _)).mono (fun _ _ => htrace) fun _ h => h
  unfold OnlinePipeline.execute
  cases routeQuery query with
  | refuse => exact rfl
  | chitchat => exact rfl
  | factual => exact hgrounded
  | procedural => exact hgrounded
  | complex => exact hgrounded

/-- Whatever the caches hold, an answer of the pipeline carries the id of the request. -/
theorem answer_traced :
    Prog.SpecE (PipeInTrace id) (fun _ => True) (pipeline.answer query principal)
      (fun answer => answer.traceId = id) fun _ => True := by
  rw [answer_eq, OnlinePipeline.activeIndexVersion]
  simp only [Prog.specE_bind, Prog.specE_pure]
  refine ⟨trivial, ?_⟩
  rintro traceId rfl
  refine ⟨trivial, fun resolved _ => ?_⟩
  refine (specE_any (pipeline.lookupCache _ query)).mono ?_ fun _ h => h
  rintro (_ | hit) -
  · exact execute_traced pipeline query principal _ _
  · exact rfl

end Pipeline

/-- The trace as a turn finds it: an answer of the pipeline carries its id. -/
def TurnInTrace (id : String) : (o : AgentOp) → AgentResp o → Prop
  | .answer _ _, r => ∀ answer, r = .ok answer → answer.traceId = id
  | o, r => AgentInTrace id o r

section Turns

variable {rt : AgentRuntime} {id : String} {t : List AgentEvent} {answer : AgentAnswer}

theorem buildAnswer_traced {e : TurnEnd} {base : Answer} {indexVersion : Option String}
    {fallbackUsed : Bool} {degradedReason : Option String}
    (hbase : base.traceId = "" ∨ base.traceId = id)
    (htraced : ∀ e ∈ t, TurnInTrace id e.op e.resp)
    (h : Prog.Runs (buildAnswer rt e base indexVersion fallbackUsed degradedReason) t answer) :
    answer.traceId = id := by
  obtain ⟨u, traceId, v, hu, hv, rfl⟩ := (Prog.runs_bind_iff _ _ _ _).mp h
  obtain ⟨w, version, w', -, hw', rfl⟩ := (Prog.runs_bind_iff _ _ _ _).mp hv
  obtain ⟨-, rfl⟩ := (Prog.runs_ret_iff _ _ _).mp hw'
  change traceId = id
  unfold traceIdOr at hu
  split_ifs at hu with hempty
  · obtain ⟨r, u', rfl, hdone⟩ := (Prog.runs_call_iff _ _ _ _).mp hu
    obtain ⟨-, rfl⟩ := (Prog.runs_ret_iff _ _ _).mp hdone
    exact htraced ⟨.currentTraceId, r⟩ (by simp)
  · obtain ⟨-, rfl⟩ := (Prog.runs_ret_iff _ _ _).mp hu
    exact hbase.resolve_left hempty

theorem fallbackAnswer_traced {e : TurnEnd} {reason : String} {outcome : Except Exn Answer}
    (hend : e.traceId = id) (houtcome : ∀ fallback, outcome = .ok fallback → fallback.traceId = id)
    (htraced : ∀ e ∈ t, TurnInTrace id e.op e.resp)
    (h : Prog.Runs (fallbackAnswer rt e reason outcome) t answer) : answer.traceId = id := by
  cases outcome with
  | error exn => exact buildAnswer_traced (.inr hend) htraced h
  | ok fallback =>
      refine buildAnswer_traced (.inr ?_) htraced h
      dsimp only
      rw [houtcome fallback rfl, hend, ite_self]

variable [Runtime] {turn : Turn} {s : LoopState} {stop : StopReason}

theorem finalize_traced (hturn : turn.traceId = id)
    (htraced : ∀ e ∈ t, TurnInTrace id e.op e.resp)
    (h : Prog.Runs (finalize rt turn s stop) t answer) : answer.traceId = id := by
  unfold finalize at h
  extract_lets authorised text citations e reason last at h
  split at h
  · exact buildAnswer_traced (.inr hturn) htraced h
  · obtain ⟨outcome, u, rfl, hu⟩ := (Prog.runs_perform_bind_iff _ _ _ _).mp h
    exact fallbackAnswer_traced hturn
      (htraced ⟨.answer turn.question turn.principal, outcome⟩ List.mem_cons_self)
      (fun e he => htraced e (List.mem_cons_of_mem _ he)) hu

/-- The planner-error branch hands over an answer of the trace. -/
theorem loop_returned_traced {n : Nat} (hturn : turn.traceId = id)
    (htraced : ∀ e ∈ t, TurnInTrace id e.op e.resp)
    (h : Prog.Runs (Prog.iterate (iteration rt turn) n s) t (some (.returned answer))) :
    answer.traceId = id := by
  obtain ⟨t₁, s', t₂, rfl, -, hexit⟩ :=
    Prog.runs_iterate (I := fun _ _ => True) (h := []) (fun _ _ _ _ _ _ => trivial) trivial h
  have hpass := iteration_pass hexit
  cases hpass with
  | planned elapsed r u _ hopen htime hplanned =>
      generalize hx : (Sum.inr (LoopExit.returned answer) : LoopState ⊕ LoopExit) = x at hplanned
      cases hplanned with
      | fallback exn outcome u _ hu =>
          cases hx
          exact fallbackAnswer_traced (e := plannerFailedEnd rt turn (stepped s')) hturn
            (htraced ⟨.answer turn.question turn.principal, outcome⟩ (by simp))
            (fun e he => htraced e (by simp [he])) hu
      | toolsFailed c u failure hcalls hu => cases failure <;> cases hx
      | criticFailed c hcalls hdraft hopen failure => cases failure <;> cases hx
      | _ => cases hx

/-- The answer of a turn carries the id the turn was started under. -/
theorem run_traced (question : String) (principal : Principal) (budget : Option Budget) :
    Prog.Spec (TurnInTrace id) (fun _ => True) (rt.run question principal budget)
      fun out => ∀ answer, out = some (.ok answer) → answer.traceId = id := by
  refine Prog.Spec.of_runs ?_
  rintro t out hr htraced answer rfl
  obtain ⟨exit, turn, pre, loop, post, hopen, hloop, hleave, rfl⟩ := run_left hr
  obtain ⟨u, -, rfl⟩ := hopen.events
  have hturn : turn.traceId = id := htraced ⟨.startTrace, turn.traceId⟩ (by simp)
  have hpost : ∀ e ∈ post, TurnInTrace id e.op e.resp := fun e he => htraced e (by simp [he])
  rcases leave_finalized hleave with ⟨s, stop, -, hfinal⟩ | ⟨rfl, rfl⟩
  · exact finalize_traced hturn hpost hfinal
  · exact loop_returned_traced hturn (fun e he => htraced e (by simp [he])) hloop

end Turns

/-- Asked of the service, not of the answer cache of the agent. -/
def OfService (o : RequestOp) : Prop := o.isLeft = true

/-- The trace as the operations of a request find it. -/
def RequestInTrace (id : String) (o : RequestOp) (r : RequestResp o) : Prop := InTrace id ⟨o, r⟩

theorem replaysOwn_of_service {id : String} {e : RequestEvent} (h : OfService e.op) :
    ReplaysOwn id e := by
  obtain ⟨o | o, r⟩ := e
  · trivial
  · cases h

section Route

variable {id : String}

theorem onService_traced (o : ServiceOp) :
    Prog.Spec (RequestInTrace id) OfService (onService o) (ServiceInTrace id o) :=
  ⟨rfl, fun _ hr => hr⟩

theorem ofPipeline_traced {α : Type} {p : Pipe α} {Q : α → Prop}
    (h : Prog.SpecE (PipeInTrace id) (fun _ => True) p Q fun _ => True) :
    Prog.SpecE (RequestInTrace id) OfService (ofPipeline p) Q fun _ => True := by
  have hserved : Prog.Spec (ServiceInTrace id) (fun _ => True) (Prog.interp onPipeline p.run) _ :=
    Prog.Spec.interp h fun o _ => ⟨trivial, fun _ hr => hr⟩
  exact hserved.interp fun o _ => onService_traced o

variable [Runtime] {state : AppState} {rt : AgentRuntime} {body : QueryRequest}
  {principal : Principal} {response : Response} {t : List RequestEvent}

theorem serve_traced (pipeline : OnlinePipeline) (o : AgentOp) :
    Prog.Spec (ServiceInTrace id) (fun _ => True) (serve pipeline o) (TurnInTrace id o) := by
  by_cases ho : ∃ question principal, o = .answer question principal
  · obtain ⟨question, principal, rfl⟩ := ho
    have hpipeline : Prog.Spec (ServiceInTrace id) (fun _ => True)
        (Prog.interp onPipeline (pipeline.answer question principal).run) _ :=
      Prog.Spec.interp (answer_traced pipeline question principal)
        fun o _ => ⟨trivial, fun _ hr => hr⟩
    refine hpipeline.mono ?_
    rintro r hr answer rfl
    exact hr
  · rw [serve_eq fun question principal h => ho ⟨question, principal, h⟩]
    refine ⟨trivial, ?_⟩
    intro r hr
    cases o with
    | answer question principal => exact absurd ⟨question, principal, rfl⟩ ho
    | _ => exact hr

theorem ofAgent_traced (pipeline : OnlinePipeline) {α : Type} {p : AgentProg α} {Q : α → Prop}
    (h : Prog.Spec (TurnInTrace id) (fun _ => True) p Q) :
    Prog.Spec (RequestInTrace id) OfService (ofAgent (serve pipeline) p) Q :=
  (h.interp fun o _ => serve_traced pipeline o).interp fun o _ => onService_traced o

/-- The key of a request is computed by the service. -/
theorem agentAnswerKey_service (budget : Budget) :
    Prog.SpecE (RequestInTrace id) OfService
      (agentAnswerKey (serve state.pipeline) state rt body principal budget) (fun _ => True)
      fun _ => True := by
  have hnothing : ∀ {α : Type} (p : AgentProg (Except Exn α)), Prog.Spec (TurnInTrace id)
      (fun _ => True) p fun _ => True := fun p => Prog.Spec.of_runs fun _ _ _ _ => trivial
  unfold agentAnswerKey
  simp only [Prog.specE_bind]
  refine (ofAgent_traced state.pipeline (hnothing _)).mono ?_
  rintro (exn | tools) -
  · trivial
  · exact ofPipeline_traced (specE_any state.pipeline.activeIndexVersion)

omit [Runtime] in
/-- What the lookup hands over is what its one event was answered with. -/
theorem lookupAgentAnswer_traced {key : AnswerKey} {found : Option Response}
    (h : Prog.Runs (lookupAgentAnswer state key).run t (.ok found)) :
    (∀ e ∈ t, ReplaysOwn id e) ↔ ∀ hit, found = some hit → hit.answer.traceId = id := by
  unfold lookupAgentAnswer at h
  split_ifs at h
  · obtain ⟨t₁, raw, t₂, rfl, hget, hfound⟩ := (Prog.runsE_bind_ok_iff _ _ _ _).mp h
    obtain ⟨r, u, rfl, hdone⟩ := (Prog.runs_call_iff _ _ _ _).mp hget
    obtain ⟨rfl, rfl⟩ := (Prog.runs_ret_iff _ _ _).mp hdone
    obtain ⟨rfl, hraw⟩ := (Prog.runsE_pure_iff _ _ _).mp hfound
    cases hraw
    rw [List.append_nil]
    cases raw with
    | none => simp [ReplaysOwn]
    | some payload => simp [ReplaysOwn]
  · obtain ⟨rfl, hnone⟩ := (Prog.runsE_pure_iff _ _ _).mp h
    cases hnone
    simp

omit [Runtime] in
/-- Storing an answer hands nothing over. -/
theorem storeAgentAnswer_traced {key : AnswerKey} {answer : AgentAnswer} {r : Except Exn Unit}
    (h : Prog.Runs (storeAgentAnswer state key answer).run t r) : ∀ e ∈ t, ReplaysOwn id e := by
  unfold storeAgentAnswer at h
  split_ifs at h
  · obtain ⟨r', u, rfl, hdone⟩ := (Prog.runs_call_iff _ _ _ _).mp h
    obtain ⟨rfl, -⟩ := (Prog.runs_ret_iff _ _ _).mp hdone
    intro e he
    rw [List.mem_singleton.mp he]
    trivial
  · obtain ⟨rfl, -⟩ := (Prog.runsE_pure_iff _ _ _).mp h
    intro e he
    cases he

theorem runAgent_traced
    (h : Prog.Runs (runAgent (serve state.pipeline) state rt body principal) t
      (some (.ok response)))
    (htraced : ∀ e ∈ t, InTrace id e) :
    response.answer.traceId = id ↔ ∀ e ∈ t, ReplaysOwn id e := by
  unfold runAgent at h
  extract_lets budget at h
  obtain ⟨t₁, opened, t₂, hopen, hrest, rfl⟩ := (Prog.runs_bind_iff _ _ _ _).mp h
  rcases opened with exn | ⟨key, found⟩
  · obtain ⟨-, hnone⟩ := (Prog.runs_ret_iff _ _ _).mp hrest
    cases hnone
  obtain ⟨u₁, key', u₂, rfl, hkey, hlooked⟩ := (Prog.runsE_bind_ok_iff _ _ _ _).mp hopen
  obtain ⟨u₃, found', u₄, rfl, hlookup, hpair⟩ := (Prog.runsE_bind_ok_iff _ _ _ _).mp hlooked
  obtain ⟨rfl, hpaired⟩ := (Prog.runsE_pure_iff _ _ _).mp hpair
  cases hpaired
  have hserved := ((agentAnswerKey_service budget).runs hkey
    fun e he => htraced e (by simp [he])).1
  have hkeyed : ∀ e ∈ u₁, ReplaysOwn id e := fun e he => replaysOwn_of_service (hserved e he)
  have hfound : (∀ e ∈ u₃, ReplaysOwn id e) ↔ ∀ hit, found = some hit → hit.answer.traceId = id :=
    lookupAgentAnswer_traced hlookup
  cases found with
  | some hit =>
      obtain ⟨rfl, hresponse⟩ := (Prog.runs_ret_iff _ _ _).mp hrest
      cases hresponse
      rw [List.append_nil, List.append_nil, List.forall_mem_append, and_iff_right hkeyed, hfound]
      simp
  | none =>
      obtain ⟨v₁, turned, v₂, hturn, hstore, rfl⟩ := (Prog.runs_bind_iff _ _ _ _).mp hrest
      obtain ⟨hasked, htrace⟩ := (ofAgent_traced state.pipeline
        (run_traced body.query.val principal (some budget))).runs hturn
        fun e he => htraced e (by simp [he])
      have hasked' : ∀ e ∈ v₁, ReplaysOwn id e := fun e he => replaysOwn_of_service (hasked e he)
      rcases turned with _ | exn | answer
      · obtain ⟨-, hnone⟩ := (Prog.runs_ret_iff _ _ _).mp hstore
        cases hnone
      · obtain ⟨-, hnone⟩ := (Prog.runs_ret_iff _ _ _).mp hstore
        cases hnone
      · obtain ⟨w₁, stored, w₂, hset, hdone, rfl⟩ := (Prog.runs_bind_iff _ _ _ _).mp hstore
        obtain ⟨rfl, hresponse⟩ := (Prog.runs_ret_iff _ _ _).mp hdone
        cases stored with
        | error exn => cases hresponse
        | ok _ =>
            cases hresponse
            have hown : answer.traceId = id := htrace answer rfl
            have hstored : ∀ e ∈ w₁, ReplaysOwn id e := storeAgentAnswer_traced hset
            refine iff_of_true hown ?_
            rw [List.append_nil, List.append_nil, List.forall_mem_append, List.forall_mem_append,
              List.forall_mem_append, hfound]
            exact ⟨⟨hkeyed, fun hit hnone => by cases hnone⟩, hasked', hstored⟩

/-- A response carries the id of its request exactly when no answer of another id was replayed. -/
theorem queryRoute_traced
    (h : Prog.Runs (queryRoute (serve state.pipeline) state body principal) t
      (some (.ok response)))
    (htraced : ∀ e ∈ t, InTrace id e) :
    response.answer.traceId = id ↔ ∀ e ∈ t, ReplaysOwn id e := by
  have hfast : Prog.Runs (do
      let answer ← (ofPipeline (state.pipeline.answer body.query.val principal)).run
      pure (some (answer.map Response.plain)) : RequestProg (Option (Except Exn Response))) t
      (some (.ok response)) → (response.answer.traceId = id ↔ ∀ e ∈ t, ReplaysOwn id e) := by
    intro hr
    obtain ⟨t₁, answered, t₂, hanswer, hdone, rfl⟩ := (Prog.runs_bind_iff _ _ _ _).mp hr
    obtain ⟨rfl, hresponse⟩ := (Prog.runs_ret_iff _ _ _).mp hdone
    obtain ⟨hserved, htrace⟩ := (ofPipeline_traced
      (answer_traced state.pipeline body.query.val principal)).runs hanswer
      fun e he => htraced e (by simp [he])
    cases answered with
    | error exn => cases hresponse
    | ok answer =>
        cases hresponse
        refine iff_of_true htrace ?_
        rw [List.append_nil]
        exact fun e he => replaysOwn_of_service (hserved e he)
  unfold queryRoute at h
  extract_lets useAgent at h
  split at h
  · exact runAgent_traced h htraced
  · exact hfast h

end Route

section Pools

variable [Runtime] [Math ℚ] {ι : Type} [DecidableEq ι]

/-- A request to the route. -/
structure Inbound where
  state : AppState
  body : QueryRequest
  principal : Principal

/-- The caches are empty and no request has begun. -/
def openRoute (threshold : ℚ) (maxEntriesPerScope : Nat) (requests : ι → Inbound) :
    Pool RequestOp RequestResp ι SharedCaches (Option (Except Exn Response)) :=
  openCaches threshold maxEntriesPerScope fun i =>
    .query (requests i).state (requests i).body (requests i).principal

/-- Any number of requests share the caches, one after the other or interleaved. A response
carries the id of its request exactly when no answer of another id was handed over from the answer
cache of the agent. -/
theorem trace_own_iff {threshold : ℚ} {maxEntriesPerScope : Nat} {requests : ι → Inbound}
    {ids : ι → String}
    {q : Pool RequestOp RequestResp ι SharedCaches (Option (Except Exn Response))}
    (h : Pool.Reaches CacheCell LosesEntries (openRoute threshold maxEntriesPerScope requests) q)
    (htraced : ∀ i, ∀ e ∈ q.done i, InTrace (ids i) e) {i : ι} {response : Response}
    (hdone : q.rest i = .ret (some (.ok response))) :
    response.answer.traceId = ids i ↔ ∀ e ∈ q.done i, ReplaysOwn (ids i) e := by
  have hsteps := Pool.reaches_steps h i
  rw [hdone] at hsteps
  exact queryRoute_traced hsteps (htraced i)

end Pools

/-- The request has this id, and the planner cites what it has found. -/
def tracedAnswers (id : String) : (o : ServiceOp) → ServiceResp o
  | .inl .startTrace => id
  | .inl .currentTraceId => id
  | .inl o => citingAnswers o
  | .inr .startTrace => id
  | .inr .currentTraceId => id
  | .inr o => mixedAnswers (.inr o)

theorem exactOnly_inTrace [Runtime] [Math ℚ] (id : String) (caches : SharedCaches)
    (t : List RequestEvent) (o : RequestOp) :
    InTrace id ⟨o, (exactOnly (tracedAnswers id) caches t o).1⟩ := by
  rcases o with (o | o) | o
  · cases o <;> trivial
  · cases o <;> trivial
  · trivial

/-- What a handler always gives, every event of the run it drives has. -/
theorem drive_events {Op : Type} {Resp : Op → Type} {σ α : Type} {P : Event Op Resp → Prop}
    {handle : σ → List (Event Op Resp) → (o : Op) → Resp o × σ}
    (hhandle : ∀ s t o, P ⟨o, (handle s t o).1⟩) (p : Prog Op Resp α) (s : σ)
    (t : List (Event Op Resp)) (ht : ∀ e ∈ t, P e) : ∀ e ∈ (Pool.drive handle p t s).1, P e := by
  induction p generalizing s t with
  | ret a => exact ht
  | call o k ih =>
      refine ih _ _ _ ?_
      intro e he
      rcases List.mem_append.mp he with he | he
      · exact ht e he
      · rw [List.mem_singleton.mp he]
        exact hhandle s t o

def citingRequest (_ : Bool) : Inbound where
  state := {
    pipeline := cachingPipeline
    settings := {}
    agent := some { searchRuntime with piiRedactionEnabled := false } }
  body := ⟨⟨"why", by decide⟩, .agent, none, none, none, none, none, none⟩
  principal := searchTurn.principal

def firstOrSecond (second : Bool) : String := if second then "second" else "first"

/-- The agent answers, and then the same question comes again. -/
@[irreducible] def citedTwice [Runtime] [Math ℚ] :
    Pool RequestOp RequestResp Bool SharedCaches (Option (Except Exn Response)) :=
  ((openRoute 1 256 citingRequest).finish (exactOnly (tracedAnswers "first")) false).finish
    (exactOnly (tracedAnswers "second")) true

theorem citedTwice_reached [Runtime] [Math ℚ] :
    Pool.Reaches CacheCell LosesEntries (openRoute 1 256 citingRequest) citedTwice := by
  rw [citedTwice]
  exact (finish_reached (tracedAnswers "first") _ false).trans
    (finish_reached (tracedAnswers "second") _ true)

theorem citedTwice_inTrace [Runtime] [Math ℚ] (i : Bool) :
    ∀ e ∈ citedTwice.done i, InTrace (firstOrSecond i) e := by
  unfold citedTwice
  cases i with
  | false =>
      refine drive_events (exactOnly_inTrace "first") _ _ _ ?_
      intro e he
      cases he
  | true =>
      refine drive_events (exactOnly_inTrace "second") _ _ _ ?_
      intro e he
      cases he

/-- The trace id of a response. -/
def repliedTrace : Option (Except Exn Response) → Option String
  | some (.ok response) => some response.answer.traceId
  | _ => none

theorem citedTwice_replies (i : Bool) :
    let _ := Runtime.ascii
    let _ := unitMath
    ∃ response, citedTwice.rest i = .ret (some (.ok response))
      ∧ response.answer.traceId = "first" := by
  intro _ _
  have hreplied : (citedTwice.rest i).value?.map repliedTrace = some (some "first") := by
    cases i <;> decide +kernel
  obtain ⟨out, hout, htrace⟩ := Option.map_eq_some_iff.mp hreplied
  rcases out with _ | exn | response
  · cases htrace
  · cases htrace
  · exact ⟨response, Prog.eq_ret_of_value? hout, Option.some.inj htrace⟩

theorem trace_own_iff_first :
    let _ := Runtime.ascii
    let _ := unitMath
    ∀ e ∈ citedTwice.done false, ReplaysOwn "first" e := by
  intro _ _
  obtain ⟨response, hdone, htrace⟩ := citedTwice_replies false
  have howned : response.answer.traceId = firstOrSecond false := htrace
  exact (trace_own_iff citedTwice_reached citedTwice_inTrace hdone).mp howned

/-- The second request is answered under the id of the first. -/
theorem replayed_answer_keeps_trace :
    ¬ ∀ (_ : Runtime) (_ : Math ℚ) (threshold : ℚ) (maxEntriesPerScope : Nat)
      (requests : Bool → Inbound) (ids : Bool → String)
      (q : Pool RequestOp RequestResp Bool SharedCaches (Option (Except Exn Response))),
      Pool.Reaches CacheCell LosesEntries (openRoute threshold maxEntriesPerScope requests) q →
      (∀ i, ∀ e ∈ q.done i, InTrace (ids i) e) →
      ∀ i response, q.rest i = .ret (some (.ok response)) → response.answer.traceId = ids i := by
  intro h
  let _ := Runtime.ascii
  let _ := unitMath
  obtain ⟨response, hdone, htrace⟩ := citedTwice_replies true
  have hown := h Runtime.ascii unitMath 1 256 citingRequest firstOrSecond citedTwice
    citedTwice_reached citedTwice_inTrace true response hdone
  rw [htrace] at hown
  exact absurd hown (by decide)

end Rag
