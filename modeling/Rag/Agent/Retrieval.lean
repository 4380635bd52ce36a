import Rag.Agent.Provenance

/-!
`rag.agent.tools.retrieval`, `rag.agent.tools.stubs` and the registry built of them.

Only the retrieval tool has a backend, the pipeline, and it resolves the index version anew
in every call. `serveTools` puts the tools and the version lookup under the runtime; what
the pipeline answers in a fallback is left open there.
-/

namespace Rag

open Py Interaction

/-- A tool with what it says of itself and what it does. -/
structure BuiltTool where
  tool : Tool
  available : Bool := true
  run : List (String × Json) → Principal → Pipe ToolResult

def fieldSchema (type description : String) : Json :=
  .obj [("type", .str type), ("description", .str description)]

def objectSchema (properties : List (String × Json)) : List (String × Json) :=
  [("type", .str "object"), ("properties", .obj properties), ("required", .arr [.str "query"]),
    ("additionalProperties", .bool false)]

namespace RetrievalTool

def tool : Tool where
  name := "retrieval_search"
  description := "Search the indexed corpus with hybrid dense+lexical retrieval. "
    ++ "Use for factual questions about internal documents. "
    ++ "Returns passages the caller is allowed to see."
  parameters := objectSchema [
    ("query", fieldSchema "string" "Search query; rewrite/expand as needed for multi-hop."),
    ("top_k", fieldSchema "integer" "Maximum passages to return (1-20).")]

/-- `int(value)`. The argument check lets nothing but integers through. -/
def asInt : Json → Except Exn ℤ
  | .int n => .ok n
  | value => .error (typeError ("int() argument must be a string, a bytes-like object or a real "
      ++ "number, not '" ++ value.typeName ++ "'"))

section Run

variable [Runtime]

def queryOf (arguments : List (String × Json)) : Except Exn String :=
  match Json.lookup arguments "query" with
  | some value => .ok value.toStr
  | none => .error (keyError "query")

omit [Runtime] in
/-- `max(1, min(int(arguments.get("top_k") or settings.top_k), 20))` -/
def topKOf (settings : Settings) (arguments : List (String × Json)) : Except Exn ℤ := do
  let value := (Json.lookup arguments "top_k").getD .null
  let requested ← asInt (if value.truthy then value else .int settings.topK)
  .ok (max 1 (min requested 20))

omit [Runtime] in
def passage (source : Source) : String :=
  "[" ++ source.ref ++ "] score=" ++ source.score.format 4 ++ " doc=" ++ source.docId ++ "\n"
    ++ source.quote

/-- Defense in depth: the ACL is checked again although retrieval already filtered. -/
def resultOf (principal : Principal) (topK : ℤ) (results : List (ScoredChunk ℚ)) : ToolResult :=
  let sources := ((takeInt topK results).filter fun s =>
    isAllowed principal s.chunk.acl).map sourceFromScored
  { callId := ""
    name := tool.name
    ok := true
    content := if sources = [] then "No authorised passages found."
      else join "\n\n" (sources.map passage)
    sources := sources }

theorem mem_resultOf {principal : Principal} {topK : ℤ} {results : List (ScoredChunk ℚ)}
    {source : Source} (h : source ∈ (resultOf principal topK results).sources) :
    ∃ scored ∈ results, isAllowed principal scored.chunk.acl = true
      ∧ source = sourceFromScored scored := by
  obtain ⟨scored, hscored, rfl⟩ := List.mem_map.mp h
  obtain ⟨htaken, hallowed⟩ := List.mem_filter.mp hscored
  exact ⟨scored, takeInt_subset _ _ htaken, hallowed, rfl⟩

def run (pipeline : OnlinePipeline) (arguments : List (String × Json)) (principal : Principal) :
    Pipe ToolResult := do
  let query ← liftM (queryOf arguments)
  let topK ← liftM (topKOf pipeline.settings arguments)
  let result ← pipeline.retrieveOnly query principal
  pure (resultOf principal topK result.results)

end Run

end RetrievalTool

/-- External web search. Requires egress grant; not implemented in this phase. -/
def webSearchTool : BuiltTool where
  tool := {
    name := "web_search"
    description := "Search the public web for up-to-date information not in the corpus. "
      ++ "Requires egress permission."
    parameters := objectSchema [("query", fieldSchema "string" "Web search query."),
      ("max_results", fieldSchema "integer" "Max results (1-10).")]
    requiresEgress := true }
  available := false
  run _ _ := throw (missingBackendError "WebSearchTool" "web")

/-- Knowledge-graph query. Declared only; needs offline extraction and a store. -/
def graphQueryTool : BuiltTool where
  tool := {
    name := "graph_query"
    description := "Query the knowledge graph for entities and relations."
    parameters := objectSchema
      [("query", fieldSchema "string" "Natural-language or structured graph query.")] }
  available := false
  run _ _ := throw (missingBackendError "GraphQueryTool" "graph")

section Registry

variable [Runtime] (pipeline : OnlinePipeline)

def builtTools : List BuiltTool :=
  [{ tool := RetrievalTool.tool, run := RetrievalTool.run pipeline }, webSearchTool,
    graphQueryTool]

def buildToolRegistry (resultCache : Bool) : ToolRegistry where
  tools := (builtTools pipeline).map BuiltTool.tool
  nodup := by
    have hnames : ((builtTools pipeline).map BuiltTool.tool).map Tool.name
        = ["retrieval_search", "web_search", "graph_query"] := rfl
    rw [hnames]
    decide
  resultCache := resultCache

def findTool (name : String) : Option BuiltTool :=
  (builtTools pipeline).find? fun built => built.tool.name = name

/-- `tool.run` of the tool with this name. The registry asks for no other. -/
def runTool (name : String) (arguments : List (String × Json)) (principal : Principal) :
    Pipe ToolResult :=
  match findTool pipeline name with
  | some built => built.run arguments principal
  | none => throw (keyError name)

/-- The tools answer for themselves, and the version is looked up through the alias. A tool
that runs past the deadline runs on, but its result is dropped. -/
def serveTools : (o : AgentOp) → Prog ServiceOp ServiceResp (AgentResp o)
  | .activeIndexVersion => do
      let resolved ← onPipeline (.resolveAlias pipeline.settings.collectionAlias)
      pure (pipeline.versionOf resolved)
  | .available name _ => pure (.ok ((findTool pipeline name).any BuiltTool.available))
  | .spec name =>
      pure (match findTool pipeline name with
        | some built => .ok ⟨built.tool.name, built.tool.description, built.tool.parameters⟩
        | none => .error (keyError name))
  | .runTool name arguments principal _ => do
      let outcome ← Prog.interp onPipeline (runTool pipeline name arguments principal).run
      let late ← onAgent .deadline
      pure (if late then .error .deadline else outcome.mapError .raised)
  | o => onAgent o

end Registry

section Returns

variable [Runtime]

/-- What retrieval and the tools raise by themselves in a call with this name and these
arguments. -/
inductive ToolError (name : String) (arguments : List (String × Json)) : Exn → Prop
  | notBuilt : ToolError name arguments (keyError name)
  | noQuery {exn : Exn} (h : RetrievalTool.queryOf arguments = .error exn) :
      ToolError name arguments exn
  | noInteger {settings : Settings} {exn : Exn}
      (h : RetrievalTool.topKOf settings arguments = .error exn) : ToolError name arguments exn
  | fusion {exn : Exn} (h : exn ∈ fusionErrors) : ToolError name arguments exn
  | noBackend {exn : Exn} (h : exn ∈ [missingBackendError "WebSearchTool" "web",
      missingBackendError "GraphQueryTool" "graph"]) : ToolError name arguments exn

variable (pipeline : OnlinePipeline) (principal : Principal)

/-- Retrieval may ask what it asks for the principal, its searches in the live version hit
chunks with `P`, and its backends raise exceptions with `E`. -/
structure Serves (A : (o : PipeOp) → PipeResp o → Prop) (G : PipeOp → Prop) (P : Chunk → Prop)
    (E : Exn → Prop) : Prop where
  starts : G .startTrace
  resolves : ∀ aliasName, G (.resolveAlias aliasName)
  retrieves : ∀ indexVersion o, Retrieves principal (some indexVersion) o → G o
  hits : ∀ aliasName resolved v k found, A (.resolveAlias aliasName) resolved →
    A (.search v k principal (some (pipeline.versionOf resolved))) (.ok found) →
    ∀ hit ∈ found, P hit.chunk
  lexicalHits : ∀ aliasName resolved q k found, A (.resolveAlias aliasName) resolved →
    A (.lexicalSearch q k principal (some (pipeline.versionOf resolved))) (.ok found) →
    ∀ hit ∈ found, P hit.chunk
  raises : ∀ o r exn, A o r → BackendRaises o r exn → E exn

variable {pipeline principal} {A : (o : PipeOp) → PipeResp o → Prop} {G : PipeOp → Prop}
  {P : Chunk → Prop} {E : Exn → Prop}

theorem retrieveOnly_returns (hserves : Serves pipeline principal A G P E)
    (hfusion : ∀ exn ∈ fusionErrors, E exn) (query : String) :
    Prog.SpecE A G (pipeline.retrieveOnly query principal)
      (fun result => ∀ s ∈ result.results, P s.chunk) E := by
  unfold OnlinePipeline.retrieveOnly OnlinePipeline.activeIndexVersion
  simp only [Prog.specE_bind, Prog.specE_pure]
  refine ⟨hserves.starts, fun _ _ => ⟨hserves.resolves _, fun resolved hresolved => ?_⟩⟩
  have hretrieve := retrieve_returns pipeline query principal (R := fun _ => True)
    (pipeline.versionOf resolved) (hserves.retrieves _)
    (fun v k found => hserves.hits _ resolved v k found hresolved)
    (fun q k found => hserves.lexicalHits _ resolved q k found hresolved)
    (fun _ _ _ _ _ => trivial) hserves.raises hfusion
  refine hretrieve.mono ?_ fun _ h => h
  rintro result ⟨-, hshown⟩ s hs
  exact (hshown s hs).2

theorem retrievalTool_returns (hserves : Serves pipeline principal A G P E) (name : String)
    (arguments : List (String × Json)) (hown : ∀ exn, ToolError name arguments exn → E exn) :
    Prog.SpecE A G (RetrievalTool.run pipeline arguments principal)
      (fun given => ∃ topK results, (∀ s ∈ results, P s.chunk)
        ∧ given = RetrievalTool.resultOf principal topK results) E := by
  unfold RetrievalTool.run
  simp only [Prog.specE_bind, Prog.specE_lift]
  cases hquery : RetrievalTool.queryOf arguments with
  | error exn => exact hown exn (.noQuery hquery)
  | ok query =>
      cases htopK : RetrievalTool.topKOf pipeline.settings arguments with
      | error exn => exact hown exn (.noInteger htopK)
      | ok topK =>
          have hfusion : ∀ exn ∈ fusionErrors, E exn := fun exn hexn => hown exn (.fusion hexn)
          refine (retrieveOnly_returns hserves hfusion query).mono ?_ fun _ h => h
          intro result hresult
          exact ⟨topK, result.results, hresult, rfl⟩

/-- Of the built tools only retrieval returns anything. A tool raises what a backend raised to
it, or one of its own exceptions. -/
theorem runTool_returns (hserves : Serves pipeline principal A G P E) (name : String)
    (arguments : List (String × Json)) (hown : ∀ exn, ToolError name arguments exn → E exn) :
    Prog.SpecE A G (runTool pipeline name arguments principal)
      (fun given => ∃ topK results, (∀ s ∈ results, P s.chunk)
        ∧ given = RetrievalTool.resultOf principal topK results) E := by
  unfold runTool
  split
  · rename_i built hbuilt
    have hmem : built ∈ builtTools pipeline := List.mem_of_find?_eq_some hbuilt
    simp only [builtTools, List.mem_cons, List.not_mem_nil, or_false] at hmem
    rcases hmem with rfl | rfl | rfl
    · exact retrievalTool_returns hserves name arguments hown
    · exact hown _ (.noBackend (by simp))
    · exact hown _ (.noBackend (by simp))
  · exact hown _ .notBuilt

end Returns

end Rag
