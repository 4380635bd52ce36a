import Rag.Lexical.OpenSearch
import Rag.Security.Acl

/-!
How the adapters read back what they have stored: `_from_payload` of `rag.vectordb.qdrant` and
`_from_source` of `rag.lexical.opensearch`.

Both readers accept more than the writers produce: a field that is missing or null has a default,
and other types are converted. A reader that raises, in a conversion or in the check of the record
it builds, has no value. On what the writers produce no default applies (`fromPayload_toPayload`,
`fromSource_toSource`).
-/

namespace Rag

open Py

/-- The digits of a literal of `int()`; an underscore may stand between two of them. -/
def unsignedInt (cs : List Char) : Option ℕ :=
  let groups := cs.splitOn '_'
  let digits := groups.flatten
  if (∀ group ∈ groups, group ≠ [] ∧ group.all Json.isDigit) ∧ digits.length ≤ Json.maxIntDigits then
    some (Json.digitsValue digits)
  else none

section Conversions

variable [Runtime]

/-- `int(text)` -/
def intOfText (text : String) : Option ℤ :=
  let cs := (strip text).toList.map fun c =>
    match Runtime.decimal c with
    | some d => Char.ofNat (48 + d)
    | none => c
  match cs with
  | '-' :: rest => (unsignedInt rest).map fun n => -(n : ℤ)
  | '+' :: rest => (unsignedInt rest).map fun n => (n : ℤ)
  | _ => (unsignedInt cs).map fun n => (n : ℤ)

/-- `int(value)`; a float loses its fraction. -/
def intOfJson : Json → Option ℤ
  | .int n => some n
  | .bool b => some (if b then 1 else 0)
  | .float (.finite q) => some (q.num.tdiv q.den)
  | .str s => intOfText s
  | _ => none

/-- What an iteration over a value runs through. -/
def elementsOf : Json → Option (List Json)
  | .arr items => some items
  | .str s => some (s.toList.map fun c => .str (String.singleton c))
  | .obj fields => some ((fields.map Prod.fst).eraseDups.map .str)
  | _ => none

def textOf : Json → Option String
  | .str s => some s
  | _ => none

/-- `str(fields.get(key, default))` -/
def textField (fields : List (String × Json)) (key default : String) : String :=
  ((Json.lookup fields key).getD (.str default)).toStr

/-- `int(fields.get(key, 0))` -/
def intField (fields : List (String × Json)) (key : String) : Option ℤ :=
  intOfJson ((Json.lookup fields key).getD (.int 0))

/-- `fields.get(key)`, with nothing for what an `or` replaces. -/
def truthyField (fields : List (String × Json)) (key : String) : Option Json :=
  (Json.lookup fields key).filter Json.truthy

/-- `frozenset(fields.get(key) or ())`, the elements of which have to be strings. -/
def groupsField (fields : List (String × Json)) (key : String) : Option (Finset String) :=
  match truthyField fields key with
  | none => some ∅
  | some value => do
      let items ← elementsOf value
      let names ← items.mapM textOf
      some names.toFinset

/-- One item of what `dict` is built from. -/
def pairOf (item : Json) : Option (String × Json) :=
  match elementsOf item with
  | some [.str key, value] => some (key, value)
  | _ => none

/-- `dict(fields.get(key) or {})`, the keys of which have to be strings. -/
def objectField (fields : List (String × Json)) (key : String) :
    Option (List (String × Json)) :=
  match truthyField fields key with
  | none => some []
  | some (.obj members) => some members
  | some value => do
      let items ← elementsOf value
      items.mapM pairOf

/-- `fields.get(key)` where a string or null is expected. -/
def textOrNullField (fields : List (String × Json)) (key : String) : Option (Option String) :=
  match Json.lookup fields key with
  | none => some none
  | some .null => some none
  | some value => (textOf value).map some

/-- The chunk that the fields of a record spell; `recordId` stands in for a missing id. -/
def chunkOf (recordId : String) (fields : List (String × Json)) : Option Chunk := do
  let ordinal ← intField fields "ordinal"
  let spanStart ← intField fields "span_start"
  let spanEnd ← intField fields "span_end"
  let allowGroups ← groupsField fields "allow_groups"
  let embeddingModel ← textOrNullField fields "embedding_model"
  let metadata ← objectField fields "metadata"
  some {
    chunkId := textField fields "chunk_id" recordId
    docId := textField fields "doc_id" ""
    ordinal := ordinal
    text := textField fields "text" ""
    span := (spanStart, spanEnd)
    acl := {
      tenant := textField fields "tenant" ""
      allowGroups := allowGroups
      classification := textField fields "classification" "internal" }
    indexVersion := textField fields "index_version" ""
    embeddingModel := embeddingModel
    metadata := metadata }

/-- `_from_payload` -/
def fromPayload (pointId : String) (payload : List (String × Json)) : Option Chunk :=
  chunkOf pointId payload

/-- `_from_source` -/
def fromSource (docId : String) (source : List (String × Json)) : Option Chunk :=
  chunkOf docId source

variable {fields : List (String × Json)} {key : String}

theorem textField_of_lookup {s : String} (h : Json.lookup fields key = some (.str s))
    (default : String) : textField fields key default = s := by
  rw [textField, h]
  rfl

theorem intField_of_lookup {n : ℤ} (h : Json.lookup fields key = some (.int n)) :
    intField fields key = some n := by
  rw [intField, h]
  rfl

omit [Runtime] in
theorem mapM_textOf (names : List String) : (names.map Json.str).mapM textOf = some names := by
  induction names with
  | nil => rfl
  | cons name rest ih =>
      rw [List.map_cons, List.mapM_cons, ih]
      rfl

omit [Runtime] in
/-- Sorting forgets nothing, and an empty array stands for no groups as a missing one does. -/
theorem groupsField_of_lookup {groups : Finset String}
    (h : Json.lookup fields key = some (groupsJson groups)) :
    groupsField fields key = some groups := by
  have hsorted : (sortedNames groups).toFinset = groups := Finset.sort_toFinset groups _
  by_cases hempty : sortedNames groups = []
  · have hnone : truthyField fields key = none := by
      rw [truthyField, h, groupsJson, hempty]
      rfl
    rw [groupsField, hnone, ← hsorted, hempty]
    rfl
  · have hsome : truthyField fields key = some (groupsJson groups) := by
      rw [truthyField, h, Option.filter_eq_some_iff]
      refine ⟨rfl, ?_⟩
      simpa [groupsJson, Json.truthy] using hempty
    rw [groupsField, hsome, groupsJson]
    simp only [elementsOf, Option.bind_eq_bind, Option.bind_some, mapM_textOf, hsorted]

omit [Runtime] in
theorem groupsField_of_missing (h : Json.lookup fields key = none) :
    groupsField fields key = some ∅ := by
  rw [groupsField, truthyField, h]
  rfl

omit [Runtime] in
theorem textOrNullField_of_lookup {value : Option String}
    (h : Json.lookup fields key = some (textOrNull value)) :
    textOrNullField fields key = some value := by
  rw [textOrNullField, h]
  cases value <;> rfl

omit [Runtime] in
theorem objectField_of_lookup {members : List (String × Json)}
    (h : Json.lookup fields key = some (.obj members)) :
    objectField fields key = some members := by
  rw [objectField, truthyField, h]
  cases members <;> rfl

/-- The fields are those of `chunk`, whatever else the record holds. -/
structure Spells (fields : List (String × Json)) (chunk : Chunk) : Prop where
  chunkId : Json.lookup fields "chunk_id" = some (.str chunk.chunkId)
  docId : Json.lookup fields "doc_id" = some (.str chunk.docId)
  ordinal : Json.lookup fields "ordinal" = some (.int chunk.ordinal)
  text : Json.lookup fields "text" = some (.str chunk.text)
  spanStart : Json.lookup fields "span_start" = some (.int chunk.span.1)
  spanEnd : Json.lookup fields "span_end" = some (.int chunk.span.2)
  tenant : Json.lookup fields "tenant" = some (.str chunk.acl.tenant)
  allowGroups : groupsField fields "allow_groups" = some chunk.acl.allowGroups
  classification : Json.lookup fields "classification" = some (.str chunk.acl.classification)
  indexVersion : Json.lookup fields "index_version" = some (.str chunk.indexVersion)
  embeddingModel : Json.lookup fields "embedding_model" = some (textOrNull chunk.embeddingModel)
  metadata : Json.lookup fields "metadata" = some (.obj chunk.metadata)

/-- The id of the record is not asked for. -/
theorem Spells.chunkOf {chunk : Chunk} (h : Spells fields chunk) (recordId : String) :
    chunkOf recordId fields = some chunk := by
  rw [Rag.chunkOf, intField_of_lookup h.ordinal, intField_of_lookup h.spanStart,
    intField_of_lookup h.spanEnd, h.allowGroups, textOrNullField_of_lookup h.embeddingModel,
    objectField_of_lookup h.metadata, textField_of_lookup h.chunkId, textField_of_lookup h.docId,
    textField_of_lookup h.text, textField_of_lookup h.tenant,
    textField_of_lookup h.classification, textField_of_lookup h.indexVersion]
  rfl

omit [Runtime] in
theorem spells_toPayload (chunk : Chunk) : Spells (toPayload chunk) chunk where
  allowGroups := groupsField_of_lookup rfl
  chunkId := rfl
  docId := rfl
  ordinal := rfl
  text := rfl
  spanStart := rfl
  spanEnd := rfl
  tenant := rfl
  classification := rfl
  indexVersion := rfl
  embeddingModel := rfl
  metadata := rfl

omit [Runtime] in
/-- The two records differ in the groups only. -/
theorem lookup_toSource (chunk : Chunk) (h : key ≠ "allow_groups") :
    Json.lookup (toSource chunk) key = Json.lookup (toPayload chunk) key := by
  have hne : ("allow_groups" == key) = false := beq_eq_false_iff_ne.mpr h.symm
  unfold toSource
  split_ifs
  · simp only [Json.lookup, toPayload, List.append_nil, List.reverse_cons, List.reverse_nil,
      List.nil_append, List.cons_append, List.find?_cons, hne]
  · simp only [Json.lookup, toPayload, List.reverse_cons, List.reverse_nil, List.nil_append,
      List.cons_append, List.find?_cons, hne]

omit [Runtime] in
theorem groupsField_toSource (chunk : Chunk) :
    groupsField (toSource chunk) "allow_groups" = some chunk.acl.allowGroups := by
  unfold toSource
  split_ifs with hgroups
  · rw [hgroups]
    exact groupsField_of_missing rfl
  · exact groupsField_of_lookup rfl

omit [Runtime] in
theorem spells_toSource (chunk : Chunk) : Spells (toSource chunk) chunk := by
  have h := spells_toPayload chunk
  exact {
    allowGroups := groupsField_toSource chunk
    chunkId := (lookup_toSource chunk (by decide)).trans h.chunkId
    docId := (lookup_toSource chunk (by decide)).trans h.docId
    ordinal := (lookup_toSource chunk (by decide)).trans h.ordinal
    text := (lookup_toSource chunk (by decide)).trans h.text
    spanStart := (lookup_toSource chunk (by decide)).trans h.spanStart
    spanEnd := (lookup_toSource chunk (by decide)).trans h.spanEnd
    tenant := (lookup_toSource chunk (by decide)).trans h.tenant
    classification := (lookup_toSource chunk (by decide)).trans h.classification
    indexVersion := (lookup_toSource chunk (by decide)).trans h.indexVersion
    embeddingModel := (lookup_toSource chunk (by decide)).trans h.embeddingModel
    metadata := (lookup_toSource chunk (by decide)).trans h.metadata }

theorem fromPayload_toPayload (pointId : String) (chunk : Chunk) :
    fromPayload pointId (toPayload chunk) = some chunk :=
  (spells_toPayload chunk).chunkOf pointId

theorem fromSource_toSource (docId : String) (chunk : Chunk) :
    fromSource docId (toSource chunk) = some chunk :=
  (spells_toSource chunk).chunkOf docId

/-- Whatever the ids under which a chunk is stored, both adapters return the chunk, and the check
of the ACL after retrieval decides on the one that was indexed. -/
theorem decoded_as_indexed (chunk : Chunk) (recordId : String) :
    fromPayload recordId (toPayload chunk) = some chunk
      ∧ fromSource recordId (toSource chunk) = some chunk
      ∧ ∀ principal : Principal,
        (fromPayload recordId (toPayload chunk)).map (fun c => isAllowed principal c.acl)
            = some (isAllowed principal chunk.acl)
          ∧ (fromSource recordId (toSource chunk)).map (fun c => isAllowed principal c.acl)
            = some (isAllowed principal chunk.acl) := by
  have hpayload := fromPayload_toPayload recordId chunk
  have hsource := fromSource_toSource recordId chunk
  refine ⟨hpayload, hsource, ?_⟩
  intro principal
  rw [hpayload, hsource]
  exact ⟨rfl, rfl⟩

end Conversions

end Rag
