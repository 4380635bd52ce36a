import Rag.Pipelines.Online

/-!
`rag.settings`: how the retrieval knobs are put together.

`Settings` reads every knob from its environment variable or takes its default, and
`retrieval_config` merges what `configs/retrieval.yaml` says with a dump of the settings. The
dump has all knobs, those that were never set included, so it hides the whole file.

`Pydantic` stands for validation: it coerces what a variable or the file holds to the type of
a field. The environment holds the variables of the process over those of `.env`.
-/

namespace Rag

open Py

inductive FieldType where
  | int
  | float
  | bool

@[reducible] def FieldType.Value : FieldType → Type
  | .int => ℤ
  | .float => PyFloat
  | .bool => Bool

/-- A field of `RetrievalConfig`, which is a field of `Settings` as well. -/
inductive Knob where
  | topK
  | rerankTopK
  | rrfK
  | denseWeight
  | lexicalWeight
  | rewriteEnabled
  | multiQueryEnabled
  | multiQueryCount
  | hydeEnabled
  | cacheEnabled
  | semanticCacheEnabled
deriving DecidableEq

namespace Knob

/-- `RetrievalConfig.model_fields` -/
def all : List Knob :=
  [.topK, .rerankTopK, .rrfK, .denseWeight, .lexicalWeight, .rewriteEnabled, .multiQueryEnabled,
    .multiQueryCount, .hydeEnabled, .cacheEnabled, .semanticCacheEnabled]

def name : Knob → String
  | .topK => "top_k"
  | .rerankTopK => "rerank_top_k"
  | .rrfK => "rrf_k"
  | .denseWeight => "dense_weight"
  | .lexicalWeight => "lexical_weight"
  | .rewriteEnabled => "rewrite_enabled"
  | .multiQueryEnabled => "multi_query_enabled"
  | .multiQueryCount => "multi_query_count"
  | .hydeEnabled => "hyde_enabled"
  | .cacheEnabled => "cache_enabled"
  | .semanticCacheEnabled => "semantic_cache_enabled"

/-- The environment variable of a field: `RAG_` and the name of the field in upper case. -/
def variableName (knob : Knob) : String :=
  "RAG_" ++ String.ofList (knob.name.toList.map Char.toUpper)

@[reducible] def type : Knob → FieldType
  | .topK => .int
  | .rerankTopK => .int
  | .rrfK => .int
  | .denseWeight => .float
  | .lexicalWeight => .float
  | .rewriteEnabled => .bool
  | .multiQueryEnabled => .bool
  | .multiQueryCount => .int
  | .hydeEnabled => .bool
  | .cacheEnabled => .bool
  | .semanticCacheEnabled => .bool

abbrev Value (knob : Knob) : Type := knob.type.Value

/-- The defaults of `RetrievalConfig`. -/
def configDefault : (knob : Knob) → knob.Value
  | .topK => (10 : ℤ)
  | .rerankTopK => (5 : ℤ)
  | .rrfK => (60 : ℤ)
  | .denseWeight => .finite 1
  | .lexicalWeight => .finite 1
  | .rewriteEnabled => true
  | .multiQueryEnabled => false
  | .multiQueryCount => (3 : ℤ)
  | .hydeEnabled => false
  | .cacheEnabled => true
  | .semanticCacheEnabled => true

/-- The defaults of `Settings`. -/
def settingsDefault : (knob : Knob) → knob.Value
  | .topK => (10 : ℤ)
  | .rerankTopK => (5 : ℤ)
  | .rrfK => (60 : ℤ)
  | .denseWeight => .finite 1
  | .lexicalWeight => .finite 1
  | .rewriteEnabled => true
  | .multiQueryEnabled => false
  | .multiQueryCount => (3 : ℤ)
  | .hydeEnabled => false
  | .cacheEnabled => true
  | .semanticCacheEnabled => true

theorem settingsDefault_eq (knob : Knob) : knob.settingsDefault = knob.configDefault := by
  cases knob <;> rfl

theorem mem_all (knob : Knob) : knob ∈ all := by
  cases knob <;> decide

theorem name_injective : Function.Injective name := by
  intro a b h
  revert h
  cases a <;> cases b <;> decide

theorem nodup_names : (all.map name).Nodup :=
  (by decide : all.Nodup).map name_injective

end Knob

/-- A value for every field. -/
abbrev Knobs : Type := (knob : Knob) → knob.Value

/-- The knobs the pipeline is run with; a weight has to be a number. -/
def Knobs.resolved (knobs : Knobs) : Option RetrievalConfig :=
  match knobs .denseWeight, knobs .lexicalWeight with
  | .finite denseWeight, .finite lexicalWeight => some {
      topK := knobs .topK
      rerankTopK := knobs .rerankTopK
      rrfK := knobs .rrfK
      denseWeight := denseWeight
      lexicalWeight := lexicalWeight
      rewriteEnabled := knobs .rewriteEnabled
      multiQueryEnabled := knobs .multiQueryEnabled
      multiQueryCount := knobs .multiQueryCount
      hydeEnabled := knobs .hydeEnabled }
  | _, _ => none

example : Knobs.resolved Knob.configDefault = some {} := rfl

/-- `model_dump` of a value. -/
def FieldType.dump : (type : FieldType) → type.Value → Json
  | .int, n => .int n
  | .float, x => .float x
  | .bool, b => .bool b

/-- Validation by type. A value that has the type already is left as it is. -/
structure Pydantic where
  validate : (type : FieldType) → Json → Except Exn type.Value
  validate_dump : ∀ (type : FieldType) (value : type.Value),
    validate type (type.dump value) = .ok value

/-- A model is built from the values of its fields; the first that fails ends it. -/
def gatherKnobs (field : (knob : Knob) → Except Exn knob.Value) : Except Exn Knobs := do
  let topK ← field .topK
  let rerankTopK ← field .rerankTopK
  let rrfK ← field .rrfK
  let denseWeight ← field .denseWeight
  let lexicalWeight ← field .lexicalWeight
  let rewriteEnabled ← field .rewriteEnabled
  let multiQueryEnabled ← field .multiQueryEnabled
  let multiQueryCount ← field .multiQueryCount
  let hydeEnabled ← field .hydeEnabled
  let cacheEnabled ← field .cacheEnabled
  let semanticCacheEnabled ← field .semanticCacheEnabled
  pure fun
    | .topK => topK
    | .rerankTopK => rerankTopK
    | .rrfK => rrfK
    | .denseWeight => denseWeight
    | .lexicalWeight => lexicalWeight
    | .rewriteEnabled => rewriteEnabled
    | .multiQueryEnabled => multiQueryEnabled
    | .multiQueryCount => multiQueryCount
    | .hydeEnabled => hydeEnabled
    | .cacheEnabled => cacheEnabled
    | .semanticCacheEnabled => semanticCacheEnabled

theorem gatherKnobs_of_ok {field : (knob : Knob) → Except Exn knob.Value} {knobs : Knobs}
    (h : ∀ knob, field knob = .ok (knobs knob)) : gatherKnobs field = .ok knobs := by
  simp only [gatherKnobs, h]
  change Except.ok _ = _
  congr 1
  funext knob
  cases knob <;> rfl

section Merge

variable (pydantic : Pydantic) (environment : Dict String String) (base : Dict String Json)

/-- `Settings()`, as far as the knobs go: the variable of a field, or its default. -/
def loadSettings : Except Exn Knobs :=
  gatherKnobs fun knob =>
    match environment.get? knob.variableName with
    | some text => pydantic.validate knob.type (.str text)
    | none => .ok knob.settingsDefault

/-- `self.model_dump(include=...)` -/
def dumpKnobs (settings : Knobs) : Dict String Json :=
  ⟨Knob.all.map fun knob => (knob.name, knob.type.dump (settings knob)), by
    rw [List.map_map]
    exact Knob.nodup_names⟩

/-- `{k: v for k, v in base.items() if k in known}` -/
def knownEntries : Dict String Json :=
  ⟨base.items.filter fun item => item.1 ∈ Knob.all.map Knob.name,
    base.nodup.sublist (List.filter_sublist.map Prod.fst)⟩

/-- `RetrievalConfig.model_validate(entries)` -/
def validateConfig (entries : Dict String Json) : Except Exn Knobs :=
  gatherKnobs fun knob =>
    match entries.get? knob.name with
    | some value => pydantic.validate knob.type value
    | none => .ok knob.configDefault

/-- `_load_yaml(path)`: no file and an empty one are an empty mapping. -/
def loadYaml (path : String) (document : Option Json) : Except Exn (Dict String Json) :=
  match document with
  | none => .ok .empty
  | some value =>
      if value.truthy then
        match value with
        | .obj members => .ok (members.foldl (fun d member => d.set member.1 member.2) .empty)
        | _ => .error (typeError ("Expected mapping in " ++ path))
      else .ok .empty

/-- Retrieval knobs. YAML provides defaults; env vars always win. -/
def retrievalConfig (settings : Knobs) (path : String) (document : Option Json) :
    Except Exn Knobs := do
  let base ← loadYaml path document
  validateConfig pydantic ((knownEntries base).merge (dumpKnobs settings))

end Merge

section Precedence

variable {pydantic : Pydantic} {environment : Dict String String} {base : Dict String Json}
  {settings : Knobs} {path : String} {document : Option Json}

/-- What a field is to be: the variable where it is set, else the value of the file where it has
the key, else the default. -/
def precedence (pydantic : Pydantic) (environment : Dict String String)
    (base : Dict String Json) (knob : Knob) : Except Exn knob.Value :=
  match environment.get? knob.variableName with
  | some text => pydantic.validate knob.type (.str text)
  | none =>
      match base.get? knob.name with
      | some value => pydantic.validate knob.type value
      | none => .ok knob.configDefault

theorem gatherKnobs_field {field : (knob : Knob) → Except Exn knob.Value} {knobs : Knobs}
    (h : gatherKnobs field = .ok knobs) (knob : Knob) : field knob = .ok (knobs knob) := by
  unfold gatherKnobs at h
  obtain ⟨topK, htopK, h⟩ := ok_of_bind h
  obtain ⟨rerankTopK, hrerankTopK, h⟩ := ok_of_bind h
  obtain ⟨rrfK, hrrfK, h⟩ := ok_of_bind h
  obtain ⟨denseWeight, hdenseWeight, h⟩ := ok_of_bind h
  obtain ⟨lexicalWeight, hlexicalWeight, h⟩ := ok_of_bind h
  obtain ⟨rewriteEnabled, hrewriteEnabled, h⟩ := ok_of_bind h
  obtain ⟨multiQueryEnabled, hmultiQueryEnabled, h⟩ := ok_of_bind h
  obtain ⟨multiQueryCount, hmultiQueryCount, h⟩ := ok_of_bind h
  obtain ⟨hydeEnabled, hhydeEnabled, h⟩ := ok_of_bind h
  obtain ⟨cacheEnabled, hcacheEnabled, h⟩ := ok_of_bind h
  obtain ⟨semanticCacheEnabled, hsemanticCacheEnabled, h⟩ := ok_of_bind h
  cases h
  cases knob <;> assumption

theorem get?_dumpKnobs (settings : Knobs) (knob : Knob) :
    (dumpKnobs settings).get? knob.name = some (knob.type.dump (settings knob)) := by
  apply Dict.get?_iff.mpr
  exact List.mem_map_of_mem knob.mem_all

/-- The dump of the settings decides every field, whatever the file holds. -/
theorem retrievalConfig_eq (hbase : loadYaml path document = .ok base) :
    retrievalConfig pydantic settings path document = .ok settings := by
  rw [retrievalConfig, hbase]
  change validateConfig pydantic ((knownEntries base).merge (dumpKnobs settings)) = .ok settings
  apply gatherKnobs_of_ok
  intro knob
  rw [Dict.get?_merge, get?_dumpKnobs, Option.some_or]
  exact pydantic.validate_dump knob.type (settings knob)

/-- A field of the settings is its variable, or the default. -/
theorem loadSettings_field (h : loadSettings pydantic environment = .ok settings) (knob : Knob) :
    (∀ text, environment.get? knob.variableName = some text →
      pydantic.validate knob.type (.str text) = .ok (settings knob))
    ∧ (environment.get? knob.variableName = none → settings knob = knob.configDefault) := by
  have hfield := gatherKnobs_field h knob
  constructor
  · intro text htext
    rw [htext] at hfield
    exact hfield
  · intro hunset
    rw [hunset] at hfield
    rw [← knob.settingsDefault_eq]
    exact (Except.ok.inj hfield).symm

/-- The configuration follows the precedence of the three layers exactly when the file says
nothing but the defaults of the fields whose variables are not set. -/
theorem retrievalConfig_precedence_iff (hsettings : loadSettings pydantic environment = .ok settings)
    (hbase : loadYaml path document = .ok base) :
    ∃ config, retrievalConfig pydantic settings path document = .ok config
      ∧ ((∀ knob, precedence pydantic environment base knob = .ok (config knob))
        ↔ ∀ (knob : Knob) (value : Json), environment.get? knob.variableName = none →
          base.get? knob.name = some value →
          pydantic.validate knob.type value = .ok knob.configDefault) := by
  refine ⟨settings, retrievalConfig_eq hbase, ?_⟩
  constructor
  · intro hprecedence knob value hunset hvalue
    have hknob := hprecedence knob
    rw [precedence, hunset, hvalue, (loadSettings_field hsettings knob).2 hunset] at hknob
    exact hknob
  · intro hsilent knob
    obtain ⟨hset, hdefault⟩ := loadSettings_field hsettings knob
    rw [precedence]
    cases hvariable : environment.get? knob.variableName with
    | some text => exact hset text hvariable
    | none =>
        rw [hdefault hvariable]
        cases hvalue : base.get? knob.name with
        | some value => exact hsilent knob value hvariable hvalue
        | none => rfl

end Precedence

section Examples

/-- Validation of what the examples hold. -/
def samplePydantic : Pydantic where
  validate
    | .int, .int n => .ok n
    | .int, .str "20" => .ok (20 : ℤ)
    | .float, .float x => .ok x
    | .float, .int n => .ok (.finite n)
    | .bool, .bool b => .ok b
    | _, _ => .error (valueError "validation error")
  validate_dump := by
    intro type value
    cases type <;> rfl

/-- The file asks for fifty candidates, and for what is the default of fusion. -/
def sampleDocument : Option Json := some (.obj [("top_k", .int 50), ("rrf_k", .int 60)])

def sampleBase : Dict String Json := (Dict.empty.set "top_k" (.int 50)).set "rrf_k" (.int 60)

def sampleEnvironment : Dict String String := Dict.empty.set "RAG_TOP_K" "20"

def sampleSettings : Knobs
  | .topK => (20 : ℤ)
  | knob => knob.configDefault

theorem sampleEnvironment_get? (knob : Knob) :
    sampleEnvironment.get? knob.variableName = if knob = .topK then some "20" else none := by
  cases knob <;> decide

theorem sampleSettings_load : loadSettings samplePydantic sampleEnvironment = .ok sampleSettings := by
  apply gatherKnobs_of_ok
  intro knob
  rw [sampleEnvironment_get?]
  cases knob <;> rfl

/-- The variable wins over the file, which is silent otherwise. -/
theorem retrievalConfig_precedence_iff_variable :
    ∃ config, retrievalConfig samplePydantic sampleSettings "configs/retrieval.yaml" sampleDocument
        = .ok config
      ∧ ∀ knob, precedence samplePydantic sampleEnvironment sampleBase knob = .ok (config knob) := by
  have hbase : loadYaml "configs/retrieval.yaml" sampleDocument = .ok sampleBase := rfl
  obtain ⟨config, hconfig, hiff⟩ := retrievalConfig_precedence_iff sampleSettings_load hbase
  refine ⟨config, hconfig, hiff.mpr ?_⟩
  intro knob value hunset hvalue
  rw [sampleEnvironment_get?] at hunset
  cases knob <;> cases hunset <;> cases hvalue
  rfl

/-- A file alone changes nothing. -/
theorem yaml_layer_ignored :
    ¬ ∀ (pydantic : Pydantic) (environment : Dict String String) (settings : Knobs) (path : String)
      (document : Option Json) (base : Dict String Json) (config : Knobs),
      loadSettings pydantic environment = .ok settings →
      loadYaml path document = .ok base →
      retrievalConfig pydantic settings path document = .ok config →
      ∀ knob, precedence pydantic environment base knob = .ok (config knob) := by
  intro h
  have hload : loadSettings samplePydantic .empty = .ok Knob.settingsDefault :=
    gatherKnobs_of_ok fun _ => rfl
  have hbase : loadYaml "configs/retrieval.yaml" sampleDocument = .ok sampleBase := rfl
  have hfifty := h samplePydantic .empty Knob.settingsDefault "configs/retrieval.yaml"
    sampleDocument sampleBase _ hload hbase (retrievalConfig_eq hbase) .topK
  have hsame : (50 : ℤ) = 10 := Except.ok.inj hfifty
  exact absurd hsame (by decide)

end Examples

end Rag
