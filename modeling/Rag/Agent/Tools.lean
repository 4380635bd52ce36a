import Rag.Agent.Ops

/-!
`rag.agent.tools.registry` and `rag.agent.tools.cache`.

A call passes the allow-lists and the argument check before the tool runs. What raises
past `execute` is what its one `except` clause around `tool.run` does not cover: the
availability query, an argument check over a malformed schema, and the result cache.
-/

namespace Rag

open Py Interaction

/-- A declared tool. -/
structure Tool where
  name : String
  description : String
  parameters : List (String × Json)
  requiresEgress : Bool := false

/-- Name → Tool map; registering a name twice is refused. -/
structure ToolRegistry where
  tools : List Tool
  nodup : (tools.map Tool.name).Nodup
  resultCache : Bool := false

def ToolRegistry.get (registry : ToolRegistry) (name : String) : Option Tool :=
  registry.tools.find? fun tool => tool.name = name

section Validate

variable [Runtime]

/-- The elements an iterated JSON value yields, `none` for a value without `iter`. -/
def iterItems : Json → Option (List Json)
  | .arr items => some items
  | .str s => some (s.toList.map fun c => .str (String.singleton c))
  | .obj fields => some ((fields.map Prod.fst).eraseDups.map .str)
  | _ => none

def hashable : Json → Bool
  | .arr _ => false
  | .obj _ => false
  | _ => true

/-- `[key for key in required if key not in arguments]`. -/
def missingFields (arguments : List (String × Json)) : List Json → Except Exn (List Json)
  | [] => .ok []
  | key :: rest =>
      if hashable key then do
        let tail ← missingFields arguments rest
        match key with
        | .str name =>
            .ok (if (Json.lookup arguments name).isSome then tail else key :: tail)
        | _ => .ok (key :: tail)
      else .error (typeError ("unhashable type: '" ++ key.typeName ++ "'"))

/-- The kinds a schema's `type` names. -/
def expectedKinds (expected : Json) : Except Exn (List Json) :=
  match expected with
  | .str s => .ok [.str s]
  | _ =>
      match iterItems expected with
      | none => .error (typeError ("'" ++ expected.typeName ++ "' object is not iterable"))
      | some kinds =>
          match kinds.find? fun kind => !hashable kind with
          | some kind => .error (typeError ("unhashable type: '" ++ kind.typeName ++ "'"))
          | none => .ok kinds

def isKind (name : String) : Json → Bool
  | .str s => s = name
  | _ => false

def matchesType (value : Json) (kinds : List Json) : Bool :=
  match value with
  | .str _ => kinds.any (isKind "string")
  | .int _ => kinds.any (isKind "number") || kinds.any (isKind "integer")
  | .float _ => kinds.any (isKind "number")
  | .bool _ => kinds.any (isKind "boolean")
  | .arr _ => kinds.any (isKind "array")
  | .obj _ => kinds.any (isKind "object")
  | .null => kinds.any (isKind "null")

/-- The shallow type check of one argument. -/
def checkField (properties : List (String × Json)) (key : String) (value : Json) :
    Except Exn Unit :=
  let prop := match Json.lookup properties key with
    | some p => if p.truthy then p else .obj []
    | none => .obj []
  match prop with
  | .obj fields =>
      match Json.lookup fields "type" with
      | none => .ok ()
      | some expected =>
          if expected.truthy then do
            let kinds ← expectedKinds expected
            if matchesType value kinds then .ok ()
            else
              .error (valueError ("field " ++ Runtime.repr (.str key) ++ " expected "
                ++ expected.toStr ++ ", got " ++ value.typeName))
          else .ok ()
  | p => .error ⟨.other, "AttributeError", "'" ++ p.typeName ++ "' object has no attribute 'get'"⟩

def checkFields (properties : List (String × Json)) :
    List (String × Json) → Except Exn Unit
  | [] => .ok ()
  | (key, value) :: rest => do
      checkField properties key value
      checkFields properties rest

/-- `schema.get(key) or default`. -/
def schemaField (schema : List (String × Json)) (key : String) (default : Json) : Json :=
  match Json.lookup schema key with
  | some v => if v.truthy then v else default
  | none => default

/-- `additional is False`. -/
def forbidsExtra (schema : List (String × Json)) : Bool :=
  match Json.lookup schema "additionalProperties" with
  | none => true
  | some (.bool b) => !b
  | some _ => false

/-- The argument keys outside the declared properties, sorted. -/
def unexpectedFields (arguments properties : List (String × Json)) : List String :=
  (((arguments.map Prod.fst).filter fun key =>
    (Json.lookup properties key).isNone).eraseDups).insertionSort (· ≤ ·)

/-- Validate tool arguments against a JSON-schema-ish parameters object. -/
def validateArguments (arguments schema : List (String × Json)) :
    Except Exn (List (String × Json)) := do
  let properties := match schemaField schema "properties" (.obj []) with
    | .obj fields => fields
    | _ => []
  let unexpected := unexpectedFields arguments properties
  if forbidsExtra schema && unexpected ≠ [] then
    throw (valueError ("unexpected fields: " ++ Runtime.repr (.arr (unexpected.map .str))))
  let required := schemaField schema "required" (.arr [])
  match iterItems required with
  | none => throw (typeError ("'" ++ required.typeName ++ "' object is not iterable"))
  | some keys =>
      let missing ← missingFields arguments keys
      if missing ≠ [] then
        throw (valueError ("missing required fields: " ++ Runtime.repr (.arr missing)))
      checkFields properties arguments
      if Runtime.maxDepth < (Json.obj arguments).depth then throw recursionError
      pure arguments

end Validate

/-- A failed result of a call. -/
def ToolCall.failed (call : ToolCall) (error : String) : ToolResult where
  callId := call.id
  name := call.name
  ok := false
  error := some error

/-- Identity fields come from the call, never from the tool. -/
def ToolCall.identify (call : ToolCall) (result : ToolResult) : ToolResult :=
  { result with callId := call.id, name := call.name }

section Execute

variable [Runtime] (registry : ToolRegistry) (allowEgress : Bool) (principal : Principal)
  (indexVersion : String)

/-- `ToolResultCache.get`; without a cache every lookup misses. -/
def cachedResult (key : ToolKey) : AgentProg (Except Failure (Option ToolResult)) :=
  if registry.resultCache then do
    let found ← AgentOp.ask (.toolCacheGet key)
    pure (found.mapError .raised)
  else pure (.ok none)

/-- `ToolResultCache.set`, which keeps successful results only and drops the call id. -/
def storeResult (key : ToolKey) (result : ToolResult) : AgentProg (Except Failure ToolResult) :=
  if registry.resultCache && result.ok then do
    let stored ← AgentOp.ask (.toolCacheSet key { result with callId := "" })
    pure ((stored.mapError .raised).map fun _ => result)
  else pure (.ok result)

/-- Run a tool whose call has passed every check. -/
def runChecked (call : ToolCall) (arguments : List (String × Json)) (budget : BudgetTracker) :
    AgentProg (Except Failure ToolResult) := do
  let key := toolKey call.name arguments principal indexVersion
  match ← cachedResult registry key with
  | .error failure => pure (.error failure)
  | .ok (some cached) => pure (.ok (call.identify cached))
  | .ok none =>
      match ← AgentOp.ask (.runTool call.name arguments principal budget) with
      | .error .deadline => pure (.error .deadline)
      | .error (.raised exn) => pure (.ok (call.failed (exn.name ++ ": " ++ exn.text)))
      | .ok result => storeResult registry key (call.identify result)

/-- The checks of `execute` in their order, and the run behind them. -/
def dispatch (call : ToolCall) (budget : BudgetTracker) :
    AgentProg (Except Failure ToolResult) :=
  match registry.get call.name with
  | none => pure (.ok (call.failed ("unknown_tool:" ++ call.name)))
  | some tool =>
      if tool.requiresEgress && !allowEgress then pure (.ok (call.failed "egress_denied"))
      else do
        match ← AgentOp.ask (.available call.name (some call)) with
        | .error exn => pure (.error (.raised exn))
        | .ok false => pure (.ok (call.failed ("tool_unavailable:" ++ call.name)))
        | .ok true =>
            match validateArguments call.arguments tool.parameters with
            | .error exn =>
                if exn.cls = .value then
                  pure (.ok (call.failed ("invalid_arguments:" ++ exn.text)))
                else pure (.error (.raised exn))
            | .ok arguments =>
                runChecked registry principal indexVersion call arguments budget

def execute (call : ToolCall) (budget : BudgetTracker) :
    AgentProg (Except Failure ToolResult) := do
  AgentOp.ask (.enter call)
  dispatch registry allowEgress principal indexVersion call budget

end Execute

section Offer

variable (registry : ToolRegistry) (allowEgress : Bool)

/-- The tools that are available and egress-cleared, each asked once. -/
def allowedTools : List Tool → AgentProg (Except Exn (List Tool))
  | [] => pure (.ok [])
  | tool :: rest => do
      match ← AgentOp.ask (.available tool.name none) with
      | .error exn => pure (.error exn)
      | .ok available =>
          let tail ← allowedTools rest
          pure (tail.map fun tools =>
            if available && (allowEgress || !tool.requiresEgress) then tool :: tools else tools)

/-- Tools the planner may be offered. -/
def allowedFor : AgentProg (Except Exn (List Tool)) := allowedTools allowEgress registry.tools

def specsOf : List Tool → AgentProg (Except Exn (List ToolSpec))
  | [] => pure (.ok [])
  | tool :: rest => do
      match ← AgentOp.ask (.spec tool.name) with
      | .error exn => pure (.error exn)
      | .ok spec =>
          let tail ← specsOf rest
          pure (tail.map fun specs => spec :: specs)

def specs : AgentProg (Except Exn (List ToolSpec)) := do
  match ← allowedFor registry allowEgress with
  | .error exn => pure (.error exn)
  | .ok tools => specsOf tools

end Offer

end Rag
