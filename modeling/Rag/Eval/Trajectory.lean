import Rag.Agent.Admission
import Rag.Agent.Spend
import Rag.Agent.Verdicts
import Rag.Eval.AgentEval
import Rag.Lib.JsonDepth

/-!
One scripted example, from its first turn to its last.

Over backends that hold one index and keep within the deadlines (`Steady`), a turn of the script
either searches or drafts, and the state it leaves the loop in is a function of the state before it
(`afterTurn`). As long as no budget is spent, the loop takes the leading turns of an example one by
one and leaves the scripts where the next turn begins (`loop_leads`).
-/

namespace Rag

open Py Interaction AgentRuntime

namespace EchoChatLLM

/-- The turns the model has yet to emit. -/
def left (llm : EchoChatLLM) : List ScriptedTurn := llm.script.drop llm.cursor

def moved (llm : EchoChatLLM) : EchoChatLLM := { llm with cursor := llm.cursor + 1 }

variable {llm : EchoChatLLM} {turn : ScriptedTurn} {rest : List ScriptedTurn}

theorem chat_of_left (h : llm.left = turn :: rest) (messages : List Message) :
    llm.chat messages = (completion llm.modelName messages turn, llm.moved) := by
  have hturn : llm.script[llm.cursor]? = some turn := by
    rw [← List.head?_drop]
    exact congrArg List.head? h
  rw [chat, hturn]
  rfl

theorem left_moved (h : llm.left = turn :: rest) : llm.moved.left = rest := by
  have htail : (llm.script.drop llm.cursor).tail = rest := congrArg List.tail h
  rwa [List.tail_drop] at htail

end EchoChatLLM

/-- A literal flag. -/
def isFlag (flag : Bool) : Option Json → Bool
  | some (.bool b) => b == flag
  | _ => false

def isList : Option Json → Bool
  | some (.arr _) => true
  | _ => false

def isFloat : Option Json → Bool
  | some (.float _) => true
  | _ => false

/-- The object the prompt of the critic asks for, with both flags as given. -/
def isReply (flag : Bool) : Json → Bool
  | .obj raw =>
      isFlag flag (Json.lookup raw "sufficient") && isFlag flag (Json.lookup raw "grounded")
        && isList (Json.lookup raw "reasons") && isList (Json.lookup raw "missing")
        && isFloat (Json.lookup raw "confidence")
  | _ => false

section Replies

variable [Runtime]

omit [Runtime] in
theorem lookup_of_isFlag {flag : Bool} {found : Option Json} (h : isFlag flag found = true) :
    found = some (.bool flag) := by
  unfold isFlag at h
  split at h
  · rw [eq_of_beq h]
  · cases h

omit [Runtime] in
theorem readsAsList_of_isList {found : Option Json} (h : isList found = true) :
    ReadsAsList found := by
  unfold isList at h
  split at h
  · trivial
  · cases h

theorem readsAsFloat_of_isFloat {found : Option Json} (h : isFloat found = true) :
    ReadsAsFloat found := by
  unfold isFloat at h
  split at h
  · trivial
  · cases h

theorem verdictOf_reply {flag : Bool} {raw : List (String × Json)}
    (h : isReply flag (.obj raw) = true) :
    ∃ verdict, verdictOf raw = .ok verdict ∧ (verdict.sufficient && verdict.grounded) = flag := by
  simp only [isReply, Bool.and_eq_true] at h
  obtain ⟨⟨⟨⟨hsufficient, hgrounded⟩, hreasons⟩, hmissing⟩, hconfidence⟩ := h
  obtain ⟨verdict, hverdict⟩ := verdictOf_ok_iff.mpr ⟨readsAsList_of_isList hreasons,
    readsAsList_of_isList hmissing, readsAsFloat_of_isFloat hconfidence⟩
  refine ⟨verdict, hverdict, ?_⟩
  obtain ⟨hleft, hright⟩ := verdictOf_flags hverdict
  rw [hleft, hright, verdictFlag, verdictFlag, lookup_of_isFlag hsufficient,
    lookup_of_isFlag hgrounded]
  cases flag <;> rfl

/-- A reply of two levels is read whatever the nesting limit above is. -/
theorem parseVerdict_reply (hdepth : 2 ≤ Runtime.maxDepth) {flag : Bool} {reply : String}
    (hopen : reply.toList.head? = some '\x7b') (hblock : jsonBlock reply = some reply)
    (hread : (Json.readValue 2 reply.toList).toOption.map (fun r => isReply flag r.1 && r.2.isEmpty)
      = some true) :
    ∃ verdict, parseVerdict reply = .ok verdict
      ∧ (verdict.sufficient && verdict.grounded) = flag := by
  obtain ⟨⟨v, rest⟩, hvalue, hchecked⟩ := Option.map_eq_some_iff.mp hread
  obtain ⟨hreply, hrest⟩ := Bool.and_eq_true_iff.mp hchecked
  have hend : rest = [] := List.isEmpty_iff.mp hrest
  obtain ⟨cs, hchars⟩ := List.head?_eq_some_iff.mp hopen
  have hloads : Json.loads reply = .ok v := by
    have hdeep : Json.readValue Runtime.maxDepth ('\x7b' :: cs) = .ok (v, rest) := by
      rw [← hchars]
      refine Json.readValue_of_le hdepth _ _ ?_
      cases hcase : Json.readValue 2 reply.toList with
      | error e =>
          rw [hcase] at hvalue
          cases hvalue
      | ok r =>
          rw [hcase] at hvalue
          cases hvalue
          rfl
    rw [Json.loads, hchars]
    change (Json.readValue Runtime.maxDepth ('\x7b' :: cs) >>= _) = _
    rw [hdeep, hend]
    rfl
  cases v with
  | obj raw =>
      obtain ⟨verdict, hverdict, hflags⟩ := verdictOf_reply hreply
      refine ⟨verdict, ?_, hflags⟩
      simp only [parseVerdict, hblock, hloads, hverdict]
  | _ => cases hreply

/-- The verdicts the two replies spell. -/
def approval : Verdict := (parseVerdict approveReply).toOption.getD critiqueParseError

def rejection : Verdict := (parseVerdict rejectReply).toOption.getD critiqueParseError

theorem parseVerdict_approveReply (hdepth : 2 ≤ Runtime.maxDepth) :
    parseVerdict approveReply = .ok approval
      ∧ (approval.sufficient && approval.grounded) = true := by
  obtain ⟨verdict, hverdict, hflags⟩ := @parseVerdict_reply _ hdepth true approveReply
    (by decide +kernel) (by decide +kernel) (by decide +kernel)
  have happroval : approval = verdict := by
    rw [approval, hverdict]
    rfl
  rw [happroval]
  exact ⟨hverdict, hflags⟩

theorem parseVerdict_rejectReply (hdepth : 2 ≤ Runtime.maxDepth) :
    parseVerdict rejectReply = .ok rejection
      ∧ (rejection.sufficient && rejection.grounded) = false := by
  obtain ⟨verdict, hverdict, hflags⟩ := @parseVerdict_reply _ hdepth false rejectReply
    (by decide +kernel) (by decide +kernel) (by decide +kernel)
  have hrejection : rejection = verdict := by
    rw [rejection, hverdict]
    rfl
  rw [hrejection]
  exact ⟨hverdict, hflags⟩

end Replies

/-- What retrieval reads of the index. -/
def ReadsIndex : PipeOp → Prop
  | .resolveAlias _ => True
  | .embed _ => True
  | .search _ _ _ _ => True
  | .lexicalSearch _ _ _ _ => True
  | .rerank _ _ _ => True
  | _ => False

theorem Searches.readsIndex {principal : Principal} {indexVersion : Option String} {o : PipeOp}
    (h : Searches principal indexVersion o) : ReadsIndex o := by
  cases o with
  | embed | search | lexicalSearch => trivial
  | _ => cases h

/-- Whatever state the backends are in, they answer retrieval from one index, and no deadline
passes. -/
structure Steady {σ : Type} (backend : σ → (o : ServiceOp) → ServiceResp o × σ)
    (index : (o : PipeOp) → PipeResp o) (limit : ℚ) : Prop where
  reads : ∀ s o, ReadsIndex o → (backend s (.inr o)).1 = index o
  inTime : ∀ s, (backend s (.inl .elapsed)).1 < limit
  notLate : ∀ s, (backend s (.inl .deadline)).1 = false

section Retrieval

variable [Runtime] (pipeline : OnlinePipeline) (principal : Principal)
  (index : (o : PipeOp) → PipeResp o) (question : String)

/-- What `retrieve_only` finds in the index. -/
def foundIn : Except Exn (List (ScoredChunk ℚ)) :=
  (Prog.against (fun (_ : Unit) o => (index o, ()))
    (pipeline.retrieveOnly question principal).run ()).1.map QueryResult.results

/-- What retrieval finds in a version is settled by the answers of the index. -/
theorem retrieve_settled {A : (o : PipeOp) → PipeResp o → Prop}
    (hA : ∀ o r, ReadsIndex o → A o r → r = index o) (version : String) :
    ∃ found : Except Exn (List (ScoredChunk ℚ)),
      Prog.SpecE A (fun _ => True) (pipeline.retrieve question principal version)
        (fun result => found = .ok result.results) fun exn => found = .error exn := by
  let variants := pipeline.queryVariants question
  have hsearches : Prog.Asks (Searches principal (some version))
      (retrieveMulti pipeline.retriever variants principal
        pipeline.settings.retrieval.topK (some version)
        (pipeline.denseVariants variants)).run := by
    rw [Prog.asks_iff]
    refine Prog.Spec.mono (retrieveMulti_spec (P := fun _ => True) (E := fun _ => True) pipeline
      _ _ _ _ _ (fun _ ho => ho) ?_ ?_ ?_ ?_) fun _ _ => trivial
    · intro _ _ _ _ _
      trivial
    · intro _ _ _ _ _
      trivial
    · intro _ _ _ _ _
      trivial
    · intro _ _
      trivial
  obtain ⟨scored, hscored⟩ := hsearches.determined fun o r ho hr => hA o r ho.readsIndex hr
  let reranked : List (ScoredChunk ℚ) → Except Exn (List (ScoredChunk ℚ)) := fun candidates =>
    (index (.rerank (variants.headD question) candidates
      pipeline.settings.retrieval.rerankTopK)).map Subtype.val
  refine ⟨scored >>= reranked, ?_⟩
  unfold OnlinePipeline.retrieve
  simp only [Prog.specE_bind, Prog.specE_total]
  refine ⟨trivial, fun _ _ => ?_⟩
  refine Prog.Spec.mono (Prog.Spec.strengthen hscored (fun _ _ _ hr => hr) fun _ _ => trivial) ?_
  intro outcome houtcome
  rw [houtcome]
  clear hscored houtcome
  cases scored with
  | error exn => rfl
  | ok candidates =>
      refine ⟨trivial, ?_⟩
      intro answered hanswered
      have hreranked : answered = index (.rerank (variants.headD question) candidates
        pipeline.settings.retrieval.rerankTopK) := hA (.rerank _ _ _) answered trivial hanswered
      have hvalue : (Except.ok candidates >>= reranked) = answered.map Subtype.val := by
        rw [hreranked]
        rfl
      rw [hvalue]
      cases answered <;> rfl

theorem retrieveOnly_settled {A : (o : PipeOp) → PipeResp o → Prop}
    (hA : ∀ o r, ReadsIndex o → A o r → r = index o) :
    ∃ found : Except Exn (List (ScoredChunk ℚ)),
      Prog.SpecE A (fun _ => True) (pipeline.retrieveOnly question principal)
        (fun result => found = .ok result.results) fun exn => found = .error exn := by
  obtain ⟨found, hfound⟩ := retrieve_settled pipeline principal index question hA
    (pipeline.versionOf (index (.resolveAlias pipeline.settings.collectionAlias)))
  refine ⟨found, ?_⟩
  unfold OnlinePipeline.retrieveOnly OnlinePipeline.activeIndexVersion
  simp only [Prog.specE_bind, Prog.specE_total, Prog.specE_pure]
  refine ⟨trivial, fun _ _ => ⟨trivial, fun resolved hresolved => ?_⟩⟩
  have hversion : resolved = index (.resolveAlias pipeline.settings.collectionAlias) :=
    hA (.resolveAlias _) resolved trivial hresolved
  rw [hversion]
  exact hfound

variable {pipeline principal index question} {σ : Type}
  {backend : σ → (o : ServiceOp) → ServiceResp o × σ} {limit : ℚ}

omit [Runtime] in
/-- A program of the pipeline over the backends is answered by the backends. -/
theorem against_onPipeline {α : Type} (p : Prog PipeOp PipeResp α) (s : σ) :
    Prog.against backend (Prog.interp onPipeline p) s
      = Prog.against (fun s o => backend s (.inr o)) p s :=
  Prog.against_interp onPipeline p s

theorem foundIn_of_spec {found : Except Exn (List (ScoredChunk ℚ))}
    (h : Prog.SpecE (fun o r => ReadsIndex o → r = index o) (fun _ => True)
      (pipeline.retrieveOnly question principal) (fun result => found = .ok result.results)
      fun exn => found = .error exn) : foundIn pipeline principal index question = found := by
  have hvalue := @Prog.Spec.against _ _ _ _ (fun (_ : Unit) o => (index o, ())) _ _ _ _ h
    (fun _ _ _ _ => rfl) ()
  rw [foundIn]
  split at hvalue
  · rename_i result hresult
    rw [hresult, hvalue]
    rfl
  · rename_i exn hexn
    rw [hexn, hvalue]
    rfl

/-- Retrieval under the same index finds the same, whatever happened in between. -/
theorem retrieveOnly_found :
    Prog.SpecE (fun o r => ReadsIndex o → r = index o) (fun _ => True)
      (pipeline.retrieveOnly question principal)
      (fun result => foundIn pipeline principal index question = .ok result.results)
      fun exn => foundIn pipeline principal index question = .error exn := by
  obtain ⟨found, hfound⟩ := retrieveOnly_settled pipeline principal index question
    (A := fun o r => ReadsIndex o → r = index o) fun _ _ ho hr => hr ho
  rw [foundIn_of_spec hfound]
  exact hfound

end Retrieval

section Search

variable [Runtime] {pipeline : OnlinePipeline} {principal : Principal}
  {index : (o : PipeOp) → PipeResp o} {σ : Type}
  {backend : σ → (o : ServiceOp) → ServiceResp o × σ} {limit : ℚ}

/-- The passages the retrieval tool makes of what was found. -/
def passagesFrom (settings : Settings) (principal : Principal)
    (found : Except Exn (List (ScoredChunk ℚ))) : Except Exn ToolResult :=
  found.map (RetrievalTool.resultOf principal (max 1 (min settings.topK 20)))

/-- The result of a call for them. -/
def retrievalResult (settings : Settings) (principal : Principal)
    (found : Except Exn (List (ScoredChunk ℚ))) (call : ToolCall) : ToolResult :=
  match passagesFrom settings principal found with
  | .ok result => call.identify result
  | .error exn => call.failed (exn.name ++ ": " ++ exn.text)

theorem runTool_found (question : String) :
    Prog.SpecE (fun o r => ReadsIndex o → r = index o) (fun _ => True)
      (runTool pipeline "retrieval_search" [("query", .str question)] principal)
      (fun result => passagesFrom pipeline.settings principal
        (foundIn pipeline principal index question) = .ok result)
      fun exn => passagesFrom pipeline.settings principal
        (foundIn pipeline principal index question) = .error exn := by
  have hquery : RetrievalTool.queryOf [("query", .str question)] = .ok question := rfl
  have htop : RetrievalTool.topKOf pipeline.settings [("query", .str question)]
      = .ok (max 1 (min pipeline.settings.topK 20)) := by
    rw [RetrievalTool.topKOf]
    change RetrievalTool.asInt (.int pipeline.settings.topK) >>= _ = _
    rfl
  change Prog.SpecE _ _ (RetrievalTool.run pipeline [("query", .str question)] principal) _ _
  unfold RetrievalTool.run
  simp only [Prog.specE_bind, Prog.specE_lift, hquery, htop]
  refine Prog.SpecE.mono (retrieveOnly_found) ?_ ?_
  · intro result hfound
    rw [Prog.specE_pure, passagesFrom, hfound]
    rfl
  · intro exn hfound
    rw [passagesFrom, hfound]
    rfl

/-- What neither model is asked goes to the backends. -/
theorem serveBench_backends {o : AgentOp} (h : o.isModel = false) (b : Bench σ) :
    serveBench pipeline backend b o
      = ((Prog.against backend (hosted pipeline o) b.backends).1,
        { b with backends := (Prog.against backend (hosted pipeline o) b.backends).2 }) := by
  cases o with
  | chat | critique => cases h
  | _ => rfl

/-- The backends answer the retrieval tool from the index, within the deadline. -/
theorem serve_retrieval (hsteady : Steady backend index limit) (question : String)
    (budget : BudgetTracker) (b : Bench σ) :
    ∃ w, serveBench pipeline backend b
        (.runTool "retrieval_search" [("query", .str question)] principal budget)
      = ((passagesFrom pipeline.settings principal
          (foundIn pipeline principal index question)).mapError Failure.raised,
        { b with backends := w }) := by
  have hserve : ∀ s o, ReadsIndex o → (backend s (.inr o)).1 = index o := hsteady.reads
  have hvalue := @Prog.Spec.against _ _ _ _ (fun s o => backend s (.inr o)) _ _ _ _
    (@runTool_found _ pipeline principal index question) (fun s o _ ho => hserve s o ho) b.backends
  have houtcome : (Prog.against backend (Prog.interp onPipeline
      (runTool pipeline "retrieval_search" [("query", .str question)] principal).run)
      b.backends).1 = passagesFrom pipeline.settings principal
        (foundIn pipeline principal index question) := by
    rw [against_onPipeline]
    split at hvalue
    · rename_i result hresult
      exact hresult.trans hvalue.symm
    · rename_i exn hexn
      exact hexn.trans hvalue.symm
  obtain ⟨w, hw⟩ : ∃ w, Prog.against backend (hosted pipeline
      (.runTool "retrieval_search" [("query", .str question)] principal budget)) b.backends
      = ((passagesFrom pipeline.settings principal
          (foundIn pipeline principal index question)).mapError Failure.raised, w) := by
    have hhosted : hosted pipeline
        (.runTool "retrieval_search" [("query", .str question)] principal budget)
      = Prog.interp onPipeline
          (runTool pipeline "retrieval_search" [("query", .str question)] principal).run
        >>= fun outcome => onAgent .deadline >>= fun late =>
          pure (if late then .error Failure.deadline
            else Except.mapError Failure.raised outcome) := rfl
    rw [hhosted, Prog.against_bind, houtcome, Prog.against_bind]
    refine ⟨_, Prod.ext ?_ rfl⟩
    change (if (backend _ (.inl .deadline)).1 then _ else _) = _
    rw [hsteady.notLate]
    rfl
  exact ⟨w, by rw [serveBench_backends rfl, hw]⟩

theorem validate_retrieval (hdepth : 1 ≤ Runtime.maxDepth) (question : String) :
    validateArguments [("query", .str question)] RetrievalTool.tool.parameters
      = .ok [("query", .str question)] := by
  have hlimit : ¬ Runtime.maxDepth < (Json.obj [("query", .str question)]).depth := by
    change ¬ Runtime.maxDepth < 1
    omega
  have hextra : unexpectedFields [("query", .str question)]
      (declaredProperties RetrievalTool.tool.parameters) = [] := by
    rfl
  have hrequired : iterItems (schemaField RetrievalTool.tool.parameters "required" (.arr []))
      = some [.str "query"] := rfl
  have hmissing : missingFields [("query", .str question)] [.str "query"] = .ok [] := rfl
  have hfields : checkFields (declaredProperties RetrievalTool.tool.parameters)
      [("query", .str question)] = .ok () := rfl
  rw [validateArguments_eq, hextra, hrequired]
  simp only [hmissing, hfields, if_neg hlimit]
  simp

theorem runChecked_retrieval (hsteady : Steady backend index limit) (id question version : String)
    (budget : BudgetTracker) (b : Bench σ) :
    ∃ w, Prog.against (serveBench pipeline backend)
        (runChecked (evalRuntime pipeline).tools principal version (retrievalCall id question)
          [("query", .str question)] budget) b
      = (.ok (retrievalResult pipeline.settings principal
          (foundIn pipeline principal index question) (retrievalCall id question)),
        { b with backends := w }) := by
  obtain ⟨w, hw⟩ : ∃ w, serveBench pipeline backend b (.runTool (retrievalCall id question).name
        [("query", .str question)] principal budget)
      = ((passagesFrom pipeline.settings principal
          (foundIn pipeline principal index question)).mapError Failure.raised,
        { b with backends := w }) := serve_retrieval hsteady question budget b
  have hlookup : ∀ key, cachedResult (evalRuntime pipeline).tools key = pure (.ok none) :=
    fun _ => rfl
  have hstore : ∀ key result, storeResult (evalRuntime pipeline).tools key result
      = pure (.ok result) := fun _ _ => rfl
  refine ⟨w, ?_⟩
  unfold runChecked
  simp only [hlookup, hstore, pure_bind]
  rw [Prog.perform_bind, Prog.against_call, hw]
  cases hfound : passagesFrom pipeline.settings principal
      (foundIn pipeline principal index question) with
  | error exn =>
      rw [retrievalResult, hfound]
      rfl
  | ok result =>
      rw [retrievalResult, hfound]
      rfl

/-- A scripted search runs the tool and reports what it found. -/
theorem execute_retrieval (hsteady : Steady backend index limit) (hdepth : 1 ≤ Runtime.maxDepth)
    (id question version : String) (budget : BudgetTracker) (b : Bench σ) :
    ∃ w, Prog.against (serveBench pipeline backend)
        (execute (evalRuntime pipeline).tools (evalRuntime pipeline).allowEgress principal version
          (retrievalCall id question) budget) b
      = (.ok (retrievalResult pipeline.settings principal
          (foundIn pipeline principal index question) (retrievalCall id question)),
        { b with backends := w }) := by
  have hget : (evalRuntime pipeline).tools.get (retrievalCall id question).name
      = some RetrievalTool.tool := rfl
  have hvalid : validateArguments (retrievalCall id question).arguments
      RetrievalTool.tool.parameters = .ok [("query", .str question)] :=
    validate_retrieval hdepth question
  have hgate : (RetrievalTool.tool.requiresEgress && !(evalRuntime pipeline).allowEgress) = false :=
    rfl
  obtain ⟨w₁, hentered⟩ : ∃ w, serveBench pipeline backend b (.enter (retrievalCall id question))
      = ((), { b with backends := w }) := ⟨_, serveBench_backends rfl b⟩
  obtain ⟨w₂, havailable⟩ : ∃ w, serveBench pipeline backend { b with backends := w₁ }
        (.available (retrievalCall id question).name (some (retrievalCall id question)))
      = (.ok true, { b with backends := w }) := ⟨_, serveBench_backends rfl _⟩
  obtain ⟨w, hchecked⟩ := @runChecked_retrieval _ pipeline principal _ _ _ _ hsteady id question
    version budget { b with backends := w₂ }
  refine ⟨w, ?_⟩
  unfold execute dispatch
  rw [Prog.perform_bind, Prog.against_call, hentered]
  simp only [hget, hgate, Bool.false_eq_true, if_false]
  rw [Prog.perform_bind, Prog.against_call, havailable]
  simp only [hvalid]
  exact hchecked

end Search

end Rag
