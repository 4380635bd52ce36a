import Rag.Agent.Transcript

/-!
Which tool calls get through `ToolRegistry.execute`.

A call reaches its tool, or the result cache, only behind the checks that also decide what
the planner is offered, and with arguments its schema admits. Any other call fails without
touching either. An availability query that raises, and a part of a schema that the check of
the arguments comes to and cannot read, are let through as exceptions.
-/

namespace Rag

open Py Interaction

/-- The JSON types a value has. -/
def kindsOf : Json → List String
  | .str _ => ["string"]
  | .int _ => ["number", "integer"]
  | .float _ => ["number"]
  | .bool _ => ["boolean"]
  | .arr _ => ["array"]
  | .obj _ => ["object"]
  | .null => ["null"]

/-- A `type` names this kind, by itself or as one of several. -/
def Declares : Json → String → Prop
  | .str s, kind => kind = s
  | expected, kind => ∃ items, iterItems expected = some items ∧ .str kind ∈ items

/-- `schema.get("properties") or {}`, an object in any case. -/
def declaredProperties (schema : List (String × Json)) : List (String × Json) :=
  match schemaField schema "properties" (.obj []) with
  | .obj fields => fields
  | _ => []

/-- The value has one of the types its property declares. -/
def FieldFits (properties : List (String × Json)) (key : String) (value : Json) : Prop :=
  ∀ fields expected, Json.lookup properties key = some (.obj fields) →
    Json.lookup fields "type" = some expected → expected.truthy = true →
    ∃ kind ∈ kindsOf value, Declares expected kind

/-- The keys are declared, where only declared ones are allowed. -/
def OnlyDeclared (arguments schema : List (String × Json)) : Prop :=
  forbidsExtra schema = true → ∀ item ∈ arguments,
    (Json.lookup (declaredProperties schema) item.1).isSome = true

/-- The required keys are there. -/
def HasRequired (arguments schema : List (String × Json)) : Prop :=
  ∀ keys, iterItems (schemaField schema "required" (.arr [])) = some keys →
    ∀ key ∈ keys, ∃ name, key = .str name ∧ (Json.lookup arguments name).isSome = true

/-- The arguments a schema admits. -/
structure ArgumentsFit (arguments schema : List (String × Json)) : Prop where
  declared : OnlyDeclared arguments schema
  required : HasRequired arguments schema
  typed : ∀ item ∈ arguments, FieldFits (declaredProperties schema) item.1 item.2

/-- A declared property no value can be checked against. -/
def PropertyMalformed : Json → Prop
  | .obj fields => ∃ expected exn, Json.lookup fields "type" = some expected
      ∧ expected.truthy = true ∧ expectedKinds expected = .error exn
  | p => p.truthy = true

/-- The check comes to a part of the schema that Python cannot iterate, hash or look into: the
list of required keys, or the property of the first argument that does not pass. -/
inductive Unreadable (arguments schema : List (String × Json)) : Prop
  | required (declared : OnlyDeclared arguments schema)
      (unreadable : ∀ keys, iterItems (schemaField schema "required" (.arr [])) = some keys →
        ∃ key ∈ keys, hashable key = false)
  | property (declared : OnlyDeclared arguments schema) (present : HasRequired arguments schema)
      (before after : List (String × Json)) (key : String) (value p : Json)
      (split : arguments = before ++ (key, value) :: after)
      (passed : ∀ item ∈ before, FieldFits (declaredProperties schema) item.1 item.2)
      (found : Json.lookup (declaredProperties schema) key = some p)
      (malformed : PropertyMalformed p)

section Validate

theorem matchesType_iff (value : Json) (kinds : List Json) :
    matchesType value kinds = true ↔ ∃ kind ∈ kindsOf value, .str kind ∈ kinds := by
  have hkind : ∀ name, kinds.any (isKind name) = true ↔ .str name ∈ kinds := by
    intro name
    rw [List.any_eq_true]
    constructor
    · rintro ⟨kind, hin, his⟩
      cases kind <;> simp [isKind] at his
      rw [← his]
      exact hin
    · intro hin
      exact ⟨_, hin, by simp [isKind]⟩
  cases value <;> simp [matchesType, kindsOf, hkind]

theorem expectedKinds_iff {expected : Json} {kinds : List Json}
    (h : expectedKinds expected = .ok kinds) (kind : String) :
    .str kind ∈ kinds ↔ Declares expected kind := by
  have hother : ∀ e : Json, (∀ s, e ≠ .str s) → expectedKinds e = .ok kinds →
      iterItems e = some kinds := by
    intro e hne he
    unfold expectedKinds at he
    split at he
    · rename_i s
      exact absurd rfl (hne s)
    · split at he
      · cases he
      · rename_i items hitems
        split at he
        · cases he
        · cases he
          exact hitems
  cases expected with
  | str s =>
      cases h
      simp [Declares]
  | _ =>
      have hitems := hother _ (by simp) h
      simp [Declares, hitems]

/-- A missing required field is reported as such, unless the list of them is malformed. -/
theorem missingFields_cases (arguments : List (String × Json)) (keys : List Json) :
    (∃ exn, missingFields arguments keys = .error exn ∧ exn.cls ≠ .value
        ∧ ∃ key ∈ keys, hashable key = false)
      ∨ ∃ missing, missingFields arguments keys = .ok missing
        ∧ (missing = [] ↔ ∀ key ∈ keys, ∃ name, key = .str name
          ∧ (Json.lookup arguments name).isSome = true) := by
  induction keys with
  | nil => exact Or.inr ⟨[], rfl, by simp⟩
  | cons key rest ih =>
      rw [missingFields]
      by_cases hhash : hashable key = true
      · rw [if_pos hhash]
        rcases ih with ⟨exn, hexn, hcls, key', hin, hbad⟩ | ⟨missing, hmissing, hiff⟩
        · left
          refine ⟨exn, ?_, hcls, key', List.mem_cons_of_mem _ hin, hbad⟩
          rw [hexn]
          rfl
        · right
          rw [hmissing]
          cases key with
          | str name =>
              refine ⟨_, rfl, ?_⟩
              by_cases hsome : (Json.lookup arguments name).isSome = true
              · rw [if_pos hsome, hiff]
                simp [hsome]
              · rw [if_neg hsome]
                simp [hsome]
          | _ => exact ⟨_, rfl, by simp⟩
      · left
        rw [if_neg hhash]
        exact ⟨_, rfl, by simp [typeError], key, List.mem_cons_self, by simpa using hhash⟩

theorem expectedKinds_error {expected : Json} {exn : Exn}
    (h : expectedKinds expected = .error exn) : exn.cls ≠ .value := by
  unfold expectedKinds at h
  split at h
  · cases h
  · split at h
    · cases h
      simp [typeError]
    · split at h
      · cases h
        simp [typeError]
      · cases h

variable [Runtime]

/-- A value of the wrong type is reported as such, unless the property is malformed. -/
theorem checkField_cases (properties : List (String × Json)) (key : String) (value : Json) :
    checkField properties key value = .ok () ∧ FieldFits properties key value
      ∨ ∃ exn, checkField properties key value = .error exn
        ∧ (exn.cls = .value ∧ ¬ FieldFits properties key value
          ∨ exn.cls ≠ .value
            ∧ ∃ p, Json.lookup properties key = some p ∧ PropertyMalformed p) := by
  have hobject : ∀ fields, Json.lookup properties key = some (.obj fields) →
      (.obj fields : Json).truthy = true →
      checkField properties key value = .ok () ∧ FieldFits properties key value
      ∨ ∃ exn, checkField properties key value = .error exn
        ∧ (exn.cls = .value ∧ ¬ FieldFits properties key value
          ∨ exn.cls ≠ .value
            ∧ ∃ p, Json.lookup properties key = some p ∧ PropertyMalformed p) := by
    intro fields hlookup htruthy
    unfold checkField
    simp only [hlookup, if_pos htruthy]
    cases htype : Json.lookup fields "type" with
    | none =>
        refine Or.inl ⟨rfl, ?_⟩
        intro fields' expected hfields hexpected
        rw [hlookup] at hfields
        cases hfields
        rw [htype] at hexpected
        cases hexpected
    | some expected =>
        dsimp only
        by_cases hexpected : expected.truthy = true
        · rw [if_pos hexpected]
          have hfits : ∀ {P : Prop}, (P ↔ ∃ kind ∈ kindsOf value, Declares expected kind) →
              (FieldFits properties key value ↔ P) := by
            intro P hP
            rw [hP]
            constructor
            · intro hall
              exact hall fields expected hlookup htype hexpected
            · intro hkind fields' expected' hfields' hexpected' _
              rw [hlookup] at hfields'
              cases hfields'
              rw [htype] at hexpected'
              cases hexpected'
              exact hkind
          cases hkinds : expectedKinds expected with
          | error exn =>
              have hmalformed : PropertyMalformed (.obj fields) :=
                ⟨expected, exn, htype, hexpected, hkinds⟩
              exact Or.inr ⟨exn, rfl, Or.inr ⟨expectedKinds_error hkinds, _, rfl, hmalformed⟩⟩
          | ok kinds =>
              have hmatches : matchesType value kinds = true
                  ↔ ∃ kind ∈ kindsOf value, Declares expected kind := by
                rw [matchesType_iff]
                simp only [expectedKinds_iff hkinds]
              rw [hfits hmatches]
              by_cases hmatch : matchesType value kinds = true
              · left
                refine ⟨?_, hmatch⟩
                change (if matchesType value kinds = true then _ else _) = _
                rw [if_pos hmatch]
              · right
                refine ⟨valueError ("field " ++ Runtime.repr (.str key) ++ " expected "
                  ++ expected.toStr ++ ", got " ++ value.typeName), ?_, Or.inl ⟨rfl, hmatch⟩⟩
                change (if matchesType value kinds = true then _ else _) = _
                rw [if_neg hmatch]
        · rw [if_neg hexpected]
          refine Or.inl ⟨rfl, ?_⟩
          intro fields' expected' hfields' hexpected' htruthy'
          rw [hlookup] at hfields'
          cases hfields'
          rw [htype] at hexpected'
          cases hexpected'
          exact absurd htruthy' hexpected
  cases hlookup : Json.lookup properties key with
  | none =>
      left
      refine ⟨?_, ?_⟩
      · unfold checkField
        simp only [hlookup]
        rfl
      · intro fields expected hfields
        rw [hlookup] at hfields
        cases hfields
  | some p =>
      by_cases htruthy : p.truthy = true
      · cases p with
        | obj fields =>
            rw [← hlookup]
            exact hobject fields hlookup htruthy
        | null => cases htruthy
        | _ =>
            right
            unfold checkField
            simp only [hlookup, if_pos htruthy]
            exact ⟨_, rfl, Or.inr ⟨by simp, _, rfl, htruthy⟩⟩
      · left
        refine ⟨?_, ?_⟩
        · unfold checkField
          simp only [hlookup, if_neg htruthy]
          rfl
        · intro fields expected hfields hexpected
          rw [hlookup] at hfields
          cases hfields
          have hnone : fields = [] := by simpa [Json.truthy] using htruthy
          rw [hnone] at hexpected
          cases hexpected

theorem checkFields_cases (properties arguments : List (String × Json)) :
    checkFields properties arguments = .ok ()
        ∧ (∀ item ∈ arguments, FieldFits properties item.1 item.2)
      ∨ ∃ exn, checkFields properties arguments = .error exn
        ∧ (exn.cls = .value ∧ ¬ (∀ item ∈ arguments, FieldFits properties item.1 item.2)
          ∨ exn.cls ≠ .value ∧ ∃ before key value after p,
            arguments = before ++ (key, value) :: after
            ∧ (∀ item ∈ before, FieldFits properties item.1 item.2)
            ∧ Json.lookup properties key = some p ∧ PropertyMalformed p) := by
  induction arguments with
  | nil => exact Or.inl ⟨rfl, by simp⟩
  | cons item rest ih =>
      rw [checkFields]
      rcases checkField_cases properties item.1 item.2 with ⟨hok, hfits⟩ | ⟨exn, hexn, hcase⟩
      · rw [hok]
        rcases ih with ⟨hrest, hall⟩ | ⟨exn, hexn, hcase⟩
        · exact Or.inl ⟨hrest, List.forall_mem_cons.mpr ⟨hfits, hall⟩⟩
        · right
          refine ⟨exn, hexn, ?_⟩
          rcases hcase with
            ⟨hvalue, hnot⟩ | ⟨hother, before, key, v, after, p, rfl, hpassed, hfound, hmalformed⟩
          · refine Or.inl ⟨hvalue, fun hall => hnot ?_⟩
            exact fun other hin => hall other (List.mem_cons_of_mem _ hin)
          · exact Or.inr ⟨hother, item :: before, key, v, after, p, rfl,
              List.forall_mem_cons.mpr ⟨hfits, hpassed⟩, hfound, hmalformed⟩
      · right
        rw [hexn]
        refine ⟨exn, rfl, ?_⟩
        rcases hcase with ⟨hvalue, hnot⟩ | ⟨hother, p, hp⟩
        · exact Or.inl ⟨hvalue, fun hall => hnot (hall item List.mem_cons_self)⟩
        · exact Or.inr ⟨hother, [], item.1, item.2, rest, p, rfl, by simp, hp⟩

omit [Runtime] in
theorem unexpectedFields_eq_nil_iff (arguments properties : List (String × Json)) :
    unexpectedFields arguments properties = []
      ↔ ∀ item ∈ arguments, (Json.lookup properties item.1).isSome = true := by
  rw [unexpectedFields, List.eq_nil_iff_forall_not_mem]
  simp only [List.mem_insertionSort, List.mem_eraseDups, List.mem_filter, List.mem_map]
  constructor
  · intro h item hitem
    by_contra hnone
    exact h item.1 ⟨⟨item, hitem, rfl⟩, by simpa using hnone⟩
  · rintro h key ⟨⟨item, hitem, rfl⟩, hnone⟩
    simp [Option.isSome_iff_ne_none.mp (h item hitem)] at hnone

/-- The checks of `validateArguments` in their order. -/
theorem validateArguments_eq (arguments schema : List (String × Json)) :
    validateArguments arguments schema =
      if (forbidsExtra schema
          && decide (unexpectedFields arguments (declaredProperties schema) ≠ [])) = true then
        .error (valueError ("unexpected fields: " ++ Runtime.repr
          (.arr ((unexpectedFields arguments (declaredProperties schema)).map .str))))
      else
        match iterItems (schemaField schema "required" (.arr [])) with
        | none => .error (typeError ("'" ++ (schemaField schema "required" (.arr [])).typeName
            ++ "' object is not iterable"))
        | some keys =>
            match missingFields arguments keys with
            | .error exn => .error exn
            | .ok missing =>
                if missing ≠ [] then
                  .error (valueError ("missing required fields: " ++ Runtime.repr (.arr missing)))
                else
                  match checkFields (declaredProperties schema) arguments with
                  | .error exn => .error exn
                  | .ok _ =>
                      if Runtime.maxDepth < (Json.obj arguments).depth then .error recursionError
                      else .ok arguments := by
  change (do
    if (forbidsExtra schema
        && decide (unexpectedFields arguments (declaredProperties schema) ≠ [])) = true then
      throw (valueError ("unexpected fields: " ++ Runtime.repr
        (.arr ((unexpectedFields arguments (declaredProperties schema)).map .str))))
    match iterItems (schemaField schema "required" (.arr [])) with
    | none => throw (typeError ("'" ++ (schemaField schema "required" (.arr [])).typeName
        ++ "' object is not iterable"))
    | some keys =>
        let missing ← missingFields arguments keys
        if missing ≠ [] then
          throw (valueError ("missing required fields: " ++ Runtime.repr (.arr missing)))
        checkFields (declaredProperties schema) arguments
        if Runtime.maxDepth < (Json.obj arguments).depth then throw recursionError
        pure arguments : Except Exn (List (String × Json))) = _
  by_cases hextra : (forbidsExtra schema
      && decide (unexpectedFields arguments (declaredProperties schema) ≠ [])) = true
  · rw [if_pos hextra, if_pos hextra]
    rfl
  · rw [if_neg hextra, if_neg hextra]
    cases iterItems (schemaField schema "required" (.arr [])) with
    | none => rfl
    | some keys =>
        dsimp only
        cases missingFields arguments keys with
        | error exn => rfl
        | ok missing =>
            by_cases hmissing : missing ≠ []
            · change (if missing ≠ [] then _ else _) = _
              rw [if_pos hmissing]
              dsimp only
              rw [if_pos hmissing]
              rfl
            · change (if missing ≠ [] then _ else _) = _
              rw [if_neg hmissing]
              dsimp only
              rw [if_neg hmissing]
              cases checkFields (declaredProperties schema) arguments with
              | error exn => rfl
              | ok _ =>
                  change (if Runtime.maxDepth < (Json.obj arguments).depth then _ else _) = _
                  split_ifs <;> rfl

/-- The check accepts the arguments a schema admits, up to the nesting Python can write, and
reports any others, up to the schemas it cannot read. -/
theorem validateArguments_cases (arguments schema : List (String × Json)) :
    ArgumentsFit arguments schema
        ∧ (validateArguments arguments schema = .ok arguments
          ∨ validateArguments arguments schema = .error recursionError)
      ∨ ¬ ArgumentsFit arguments schema
        ∧ (∃ exn, validateArguments arguments schema = .error exn ∧ exn.cls = .value)
      ∨ Unreadable arguments schema
        ∧ ∃ exn, validateArguments arguments schema = .error exn ∧ exn.cls ≠ .value := by
  rw [validateArguments_eq]
  by_cases hextra : (forbidsExtra schema
      && decide (unexpectedFields arguments (declaredProperties schema) ≠ [])) = true
  · right
    left
    rw [if_pos hextra]
    obtain ⟨hforbids, hfound⟩ := Bool.and_eq_true_iff.mp hextra
    refine ⟨?_, _, rfl, rfl⟩
    intro hfits
    have hnone := (unexpectedFields_eq_nil_iff _ _).mpr (hfits.declared hforbids)
    simp [hnone] at hfound
  rw [if_neg hextra]
  have hdeclared : OnlyDeclared arguments schema := by
    intro hforbids
    apply (unexpectedFields_eq_nil_iff _ _).mp
    simpa [hforbids] using hextra
  cases hrequired : iterItems (schemaField schema "required" (.arr [])) with
  | none =>
      right
      right
      refine ⟨.required hdeclared ?_, _, rfl, by simp [typeError]⟩
      intro keys hkeys
      rw [hrequired] at hkeys
      cases hkeys
  | some keys =>
      dsimp only
      rcases missingFields_cases arguments keys with
        ⟨exn, hexn, hcls, key, hin, hbad⟩ | ⟨missing, hmissing, hall⟩
      · right
        right
        rw [hexn]
        refine ⟨.required hdeclared ?_, exn, rfl, hcls⟩
        intro keys' hkeys'
        rw [hrequired] at hkeys'
        cases hkeys'
        exact ⟨key, hin, hbad⟩
      · rw [hmissing]
        dsimp only
        by_cases hnone : missing = []
        · rw [if_neg (by simpa using hnone)]
          have hpresent : HasRequired arguments schema := by
            intro keys' hkeys'
            rw [hrequired] at hkeys'
            cases hkeys'
            exact hall.mp hnone
          rcases checkFields_cases (declaredProperties schema) arguments with
            ⟨hok, htyped⟩ | ⟨exn, hexn, hcase⟩
          · left
            rw [hok]
            refine ⟨⟨hdeclared, hpresent, htyped⟩, ?_⟩
            dsimp only
            split_ifs
            · exact Or.inr rfl
            · exact Or.inl rfl
          · right
            rw [hexn]
            rcases hcase with
              ⟨hvalue, hnot⟩ | ⟨hother, before, key, v, after, p, hsplit, hpassed, hfound, hbad⟩
            · exact Or.inl ⟨fun hfits => hnot hfits.typed, exn, rfl, hvalue⟩
            · exact Or.inr ⟨.property hdeclared hpresent before after key v p hsplit hpassed hfound
                hbad, exn, rfl, hother⟩
        · right
          left
          rw [if_pos hnone]
          refine ⟨?_, _, rfl, rfl⟩
          intro hfits
          exact hnone (hall.mpr (hfits.required keys hrequired))

/-- The check hands on the arguments as they are. -/
theorem validateArguments_ok {arguments schema accepted : List (String × Json)}
    (h : validateArguments arguments schema = .ok accepted) : accepted = arguments := by
  rcases validateArguments_cases arguments schema with
    ⟨-, hok | hexn⟩ | ⟨-, exn, hexn, -⟩ | ⟨-, exn, hexn, -⟩
  · rw [hok] at h
    cases h
    rfl
  · rw [hexn] at h
    cases h
  · rw [hexn] at h
    cases h
  · rw [hexn] at h
    cases h

end Validate

section Offers

variable {registry : ToolRegistry} {allowEgress : Bool}

theorem allowedTools_runs {tools : List Tool} {u : List AgentEvent} {offered : List Tool}
    (hnodup : (tools.map Tool.name).Nodup)
    (h : Prog.Runs (allowedTools allowEgress tools) u (.ok offered)) :
    (∀ e ∈ u, ∃ tool ∈ tools, e.op = .available tool.name none)
      ∧ ∀ tool, tool ∈ offered ↔ tool ∈ tools
        ∧ (⟨.available tool.name none, .ok true⟩ : AgentEvent) ∈ u
        ∧ (allowEgress = true ∨ tool.requiresEgress = false) := by
  induction tools generalizing u offered with
  | nil =>
      obtain ⟨rfl, hoffered⟩ := (Prog.runs_ret_iff _ _ _).mp h
      cases hoffered
      simp
  | cons tool rest ih =>
      obtain ⟨hnew, hrest⟩ := List.nodup_cons.mp hnodup
      obtain ⟨answer, v, rfl, hv⟩ := (Prog.runs_perform_bind_iff _ _ _ _).mp h
      cases answer with
      | error exn =>
          obtain ⟨-, hoffered⟩ := (Prog.runs_ret_iff _ _ _).mp hv
          cases hoffered
      | ok available =>
          obtain ⟨w, tail, w', hw, hw', rfl⟩ := (Prog.runs_bind_iff _ _ _ _).mp hv
          obtain ⟨rfl, hoffered⟩ := (Prog.runs_ret_iff _ _ _).mp hw'
          cases tail with
          | error exn => cases hoffered
          | ok tail =>
              obtain ⟨hasked, htail⟩ := ih hrest hw
              have hmine : (⟨.available tool.name none, .ok true⟩ : AgentEvent) ∉ w := by
                intro hin
                obtain ⟨other, hother, hop⟩ := hasked _ hin
                have hname : tool.name = other.name := (AgentOp.available.inj hop).1
                exact hnew (hname ▸ List.mem_map_of_mem hother)
              have hothers : ∀ other ∈ rest,
                  ((⟨.available other.name none, .ok true⟩ : AgentEvent)
                    ∈ (⟨.available tool.name none, .ok available⟩ : AgentEvent) :: w
                  ↔ (⟨.available other.name none, .ok true⟩ : AgentEvent) ∈ w) := by
                intro other hother
                have hname : other.name ≠ tool.name := fun heq =>
                  hnew (heq ▸ List.mem_map_of_mem hother)
                simp [hname]
              have hoff : offered = if available && (allowEgress || !tool.requiresEgress) then
                  tool :: tail else tail := by
                cases hoffered
                rfl
              have hheld : tool ∉ rest := fun hin => hnew (List.mem_map_of_mem hin)
              rw [List.append_nil]
              refine ⟨?_, fun other => ?_⟩
              · intro e he
                rcases List.mem_cons.mp he with rfl | he
                · exact ⟨tool, List.mem_cons_self, rfl⟩
                · obtain ⟨other, hother, hop⟩ := hasked e he
                  exact ⟨other, List.mem_cons_of_mem _ hother, hop⟩
              · by_cases hsame : other = tool
                · subst hsame
                  have hnot : other ∉ tail := fun hin => hheld ((htail other).mp hin).1
                  rw [hoff]
                  cases available <;> cases allowEgress <;> cases hegress : other.requiresEgress <;>
                    simp [hnot, hmine]
                · have hin : other ∈ offered ↔ other ∈ tail := by
                    rw [hoff]
                    split_ifs <;> simp [hsame]
                  rw [hin, htail other]
                  constructor
                  · rintro ⟨hmem, hyes, hclear⟩
                    exact ⟨List.mem_cons_of_mem _ hmem, (hothers other hmem).mpr hyes, hclear⟩
                  · rintro ⟨hmem, hyes, hclear⟩
                    have hmem' : other ∈ rest := by simpa [hsame] using hmem
                    exact ⟨hmem', (hothers other hmem').mp hyes, hclear⟩

/-- The tools on offer are the registered ones that answered to be available and are
cleared for egress, which is what `OfferedTo` asks of the one a call names. -/
theorem mem_allowedFor_iff {u : List AgentEvent} {offered : List Tool}
    (h : Prog.Runs (allowedFor registry allowEgress) u (.ok offered)) (tool : Tool) :
    tool ∈ offered ↔ tool ∈ registry.tools
      ∧ (⟨.available tool.name none, .ok true⟩ : AgentEvent) ∈ u
      ∧ (allowEgress = true ∨ tool.requiresEgress = false) :=
  (allowedTools_runs registry.nodup h).2 tool

end Offers

/-- Runs a tool, or looks into the result cache or writes to it. -/
def AgentOp.touches : AgentOp → Bool
  | .runTool _ _ _ _ => true
  | .toolCacheGet _ => true
  | .toolCacheSet _ _ => true
  | _ => false

/-- The tool a call names, on offer when it was asked about. -/
structure OfferedTo (registry : ToolRegistry) (allowEgress : Bool) (call : ToolCall)
    (t : List AgentEvent) (tool : Tool) : Prop where
  registered : tool ∈ registry.tools
  named : tool.name = call.name
  available : (⟨.available call.name (some call), .ok true⟩ : AgentEvent) ∈ t
  cleared : allowEgress = true ∨ tool.requiresEgress = false

/-- A call that would have been offered, with arguments that fit. -/
def Admitted (registry : ToolRegistry) (allowEgress : Bool) (call : ToolCall)
    (t : List AgentEvent) : Prop :=
  ∃ tool, OfferedTo registry allowEgress call t tool
    ∧ ArgumentsFit call.arguments tool.parameters

/-- How a run of `execute` relates to the checks. -/
structure Gated (registry : ToolRegistry) (allowEgress : Bool) (call : ToolCall)
    (t : List AgentEvent) (r : Except Failure ToolResult) : Prop where
  touched : ∀ e ∈ t, e.op.touches = true → Admitted registry allowEgress call t
  ran : ∀ e ∈ t, ∀ tool arguments p b, e.op = .runTool tool arguments p b →
    tool = call.name ∧ arguments = call.arguments
  refused : ¬ Admitted registry allowEgress call t →
    (∃ result, r = .ok result ∧ result.ok = false)
      ∨ ∃ exn, r = .error (.raised exn)
        ∧ ((⟨.available call.name (some call), .error exn⟩ : AgentEvent) ∈ t
          ∨ ∃ tool, OfferedTo registry allowEgress call t tool
            ∧ Unreadable call.arguments tool.parameters)
  identified : ∀ result, r = .ok result → Identifies call result
  written : ∀ e ∈ t, ∀ key result, e.op = .toolCacheSet key result → result.ok = true
  answered : ∀ tool arguments p b answer,
    (⟨.runTool tool arguments p b, answer⟩ : AgentEvent) ∈ t → answer ≠ .error .deadline →
    (∃ result, r = .ok result)
      ∨ ∃ key result exn, (⟨.toolCacheSet key result, .error exn⟩ : AgentEvent) ∈ t

section Execute

variable [Runtime] {registry : ToolRegistry} {allowEgress : Bool} {principal : Principal}
  {indexVersion : String} {call : ToolCall} {budget : BudgetTracker} {t : List AgentEvent}
  {r : Except Failure ToolResult}

/-- The operations behind the checks. -/
def CheckedOp (call : ToolCall) (arguments : List (String × Json)) : AgentOp → Prop
  | .runTool tool arguments' _ _ => tool = call.name ∧ arguments' = arguments
  | .toolCacheGet _ => True
  | .toolCacheSet _ result => result.ok = true
  | _ => False

omit [Runtime] in
theorem storeResult_runs {key : ToolKey} {result : ToolResult} (call : ToolCall)
    (arguments : List (String × Json))
    (h : Prog.Runs (storeResult registry key result) t r) :
    (∀ e ∈ t, CheckedOp call arguments e.op) ∧ (∀ e ∈ t, ∀ tool args p b,
        e.op ≠ .runTool tool args p b)
      ∧ ((∃ x, r = .ok x)
        ∨ ∃ key result exn, (⟨.toolCacheSet key result, .error exn⟩ : AgentEvent) ∈ t) := by
  unfold storeResult at h
  split_ifs at h with hkeep
  · obtain ⟨stored, u, rfl, hdone⟩ := (Prog.runs_perform_bind_iff _ _ _ _).mp h
    obtain ⟨rfl, rfl⟩ := (Prog.runs_ret_iff _ _ _).mp hdone
    have hok : result.ok = true := (Bool.and_eq_true_iff.mp hkeep).2
    refine ⟨by simpa [CheckedOp] using hok, by simp, ?_⟩
    cases stored with
    | error exn => exact Or.inr ⟨_, _, exn, List.mem_cons_self⟩
    | ok _ => exact Or.inl ⟨_, rfl⟩
  · obtain ⟨rfl, rfl⟩ := (Prog.runs_ret_iff _ _ _).mp h
    exact ⟨by simp, by simp, Or.inl ⟨_, rfl⟩⟩

/-- Behind the checks: a hit, or the tool and the store of what it returned. -/
theorem runChecked_runs {arguments : List (String × Json)}
    (h : Prog.Runs (runChecked registry principal indexVersion call arguments budget) t r) :
    (∀ e ∈ t, CheckedOp call arguments e.op)
      ∧ ∀ tool args p b answer, (⟨.runTool tool args p b, answer⟩ : AgentEvent) ∈ t →
        answer ≠ .error .deadline → (∃ result, r = .ok result)
          ∨ ∃ key result exn, (⟨.toolCacheSet key result, .error exn⟩ : AgentEvent) ∈ t := by
  have hrun : ∀ key u, Prog.Runs (runFresh registry principal call arguments budget key) u r →
      (∀ e ∈ u, CheckedOp call arguments e.op)
      ∧ ∀ tool args p b answer, (⟨.runTool tool args p b, answer⟩ : AgentEvent) ∈ u →
        answer ≠ .error .deadline → (∃ result, r = .ok result)
          ∨ ∃ key result exn, (⟨.toolCacheSet key result, .error exn⟩ : AgentEvent) ∈ u := by
    intro key u hu
    obtain ⟨answer, v, rfl, hv⟩ := (Prog.runs_perform_bind_iff _ _ _ _).mp hu
    rcases answer with (exn | _) | result
    · obtain ⟨rfl, rfl⟩ := (Prog.runs_ret_iff _ _ _).mp hv
      exact ⟨by simp [CheckedOp], fun _ _ _ _ _ _ _ => Or.inl ⟨_, rfl⟩⟩
    · obtain ⟨rfl, rfl⟩ := (Prog.runs_ret_iff _ _ _).mp hv
      refine ⟨by simp [CheckedOp], ?_⟩
      intro tool args p b answer hin hanswer
      cases List.mem_singleton.mp hin
      exact absurd rfl hanswer
    · obtain ⟨hops, -, hend⟩ := storeResult_runs call arguments hv
      refine ⟨?_, ?_⟩
      · intro e he
        rcases List.mem_cons.mp he with rfl | he
        · exact ⟨rfl, rfl⟩
        · exact hops e he
      · intro _ _ _ _ _ _ _
        rcases hend with hok | ⟨key', kept, exn, hin⟩
        · exact Or.inl hok
        · exact Or.inr ⟨key', kept, exn, List.mem_cons_of_mem _ hin⟩
  unfold runChecked cachedResult at h
  dsimp only at h
  split_ifs at h
  · rw [bind_assoc] at h
    obtain ⟨found, u, rfl, hu⟩ := (Prog.runs_perform_bind_iff _ _ _ _).mp h
    rcases found with exn | _ | cached
    · obtain ⟨rfl, rfl⟩ := (Prog.runs_ret_iff _ _ _).mp hu
      exact ⟨by simp [CheckedOp], by simp⟩
    · obtain ⟨hops, hend⟩ := hrun (toolKey call.name arguments principal indexVersion) u hu
      refine ⟨?_, ?_⟩
      · intro e he
        rcases List.mem_cons.mp he with rfl | he
        · trivial
        · exact hops e he
      · intro tool args p b answer hin hanswer
        rcases List.mem_cons.mp hin with hhead | hin
        · cases hhead
        · rcases hend tool args p b answer hin hanswer with hok | ⟨key', kept, exn, hset⟩
          · exact Or.inl hok
          · exact Or.inr ⟨key', kept, exn, List.mem_cons_of_mem _ hset⟩
    · obtain ⟨rfl, rfl⟩ := (Prog.runs_ret_iff _ _ _).mp hu
      exact ⟨by simp [CheckedOp], by simp⟩
  · exact hrun (toolKey call.name arguments principal indexVersion) t h

omit [Runtime] in
theorem ToolRegistry.get_some {tool : Tool} {name : String} (h : registry.get name = some tool) :
    tool ∈ registry.tools ∧ tool.name = name :=
  ⟨List.mem_of_find?_eq_some h, by simpa using List.find?_some h⟩

omit [Runtime] in
/-- A run that stops at a check: nothing was touched. -/
theorem gated_of_untouched (ht : ∀ e ∈ t, e.op.touches = false)
    (hidentified : ∀ result, r = .ok result → Identifies call result)
    (hrefused : ¬ Admitted registry allowEgress call t →
      (∃ result, r = .ok result ∧ result.ok = false)
        ∨ ∃ exn, r = .error (.raised exn)
          ∧ ((⟨.available call.name (some call), .error exn⟩ : AgentEvent) ∈ t
            ∨ ∃ tool, OfferedTo registry allowEgress call t tool
              ∧ Unreadable call.arguments tool.parameters)) :
    Gated registry allowEgress call t r where
  touched e he htouches := by
    rw [ht e he] at htouches
    cases htouches
  ran e he tool arguments p b hop := by
    have hnot := ht e he
    rw [hop] at hnot
    cases hnot
  refused := hrefused
  identified := hidentified
  written e he key result hop := by
    have hnot := ht e he
    rw [hop] at hnot
    cases hnot
  answered tool arguments p b answer hin _ := by
    have hnot := ht _ hin
    cases hnot

theorem gated_of_runs
    (h : Prog.Runs (execute registry allowEgress principal indexVersion call budget) t r) :
    Gated registry allowEgress call t r := by
  have hidentified : ∀ result, r = .ok result → Identifies call result :=
    ((execute_identifies registry allowEgress principal indexVersion call budget).runs h
      fun _ _ => trivial).2
  obtain ⟨_, u, rfl, hu⟩ := (Prog.runs_perform_bind_iff _ _ _ _).mp h
  change Prog.Runs (dispatch registry allowEgress principal indexVersion call budget) u r at hu
  unfold dispatch at hu
  have hfailed : ∀ (v : List AgentEvent) (error : String), (∀ e ∈ v, e.op.touches = false) →
      r = .ok (call.failed error) →
      Gated registry allowEgress call (⟨.enter call, ()⟩ :: v) r := by
    intro v error hv hr
    refine gated_of_untouched ?_ hidentified fun _ => Or.inl ⟨_, hr, rfl⟩
    intro e he
    rcases List.mem_cons.mp he with rfl | he
    · rfl
    · exact hv e he
  cases hget : registry.get call.name with
  | none =>
      rw [hget] at hu
      obtain ⟨rfl, rfl⟩ := (Prog.runs_ret_iff _ _ _).mp hu
      exact hfailed [] _ (by simp) rfl
  | some tool =>
      obtain ⟨hregistered, hnamed⟩ := ToolRegistry.get_some hget
      rw [hget] at hu
      dsimp only at hu
      split_ifs at hu with hegress
      · obtain ⟨rfl, rfl⟩ := (Prog.runs_ret_iff _ _ _).mp hu
        exact hfailed [] _ (by simp) rfl
      · have hcleared : allowEgress = true ∨ tool.requiresEgress = false := by
          cases allowEgress <;> cases hneeds : tool.requiresEgress <;> simp [hneeds] at hegress ⊢
        obtain ⟨answer, v, rfl, hv⟩ := (Prog.runs_perform_bind_iff _ _ _ _).mp hu
        rcases answer with exn | available
        · obtain ⟨rfl, rfl⟩ := (Prog.runs_ret_iff _ _ _).mp hv
          refine gated_of_untouched (by simp [AgentOp.touches]) hidentified fun _ => ?_
          exact Or.inr ⟨exn, rfl, Or.inl (by simp)⟩
        · cases available with
          | false =>
              obtain ⟨rfl, rfl⟩ := (Prog.runs_ret_iff _ _ _).mp hv
              exact hfailed _ _ (by simp [AgentOp.touches]) rfl
          | true =>
              dsimp only at hv
              have hoffered : ∀ w : List AgentEvent, OfferedTo registry allowEgress call
                  (⟨.enter call, ()⟩ :: ⟨.available call.name (some call), .ok true⟩ :: w) tool :=
                fun w => ⟨hregistered, hnamed, by simp, hcleared⟩
              rcases validateArguments_cases call.arguments tool.parameters with
                ⟨hfits, hvalid⟩ | ⟨hunfit, exn, hinvalid, hcls⟩ | ⟨hunreadable, exn, hinvalid, hcls⟩
              · rcases hvalid with hvalid | hdeep
                · rw [hvalid] at hv
                  dsimp only at hv
                  obtain ⟨hops, hend⟩ := runChecked_runs hv
                  have hadmitted : Admitted registry allowEgress call (⟨.enter call, ()⟩
                      :: ⟨.available call.name (some call), .ok true⟩ :: v) :=
                    ⟨tool, hoffered v, hfits⟩
                  refine ⟨fun _ _ _ => hadmitted, ?_, fun hnot => absurd hadmitted hnot,
                    hidentified, ?_, ?_⟩
                  · intro e he name args p b hop
                    rcases List.mem_cons.mp he with rfl | he
                    · cases hop
                    · rcases List.mem_cons.mp he with rfl | he
                      · cases hop
                      · have hchecked := hops e he
                        rw [hop] at hchecked
                        exact hchecked
                  · intro e he key result hop
                    rcases List.mem_cons.mp he with rfl | he
                    · cases hop
                    · rcases List.mem_cons.mp he with rfl | he
                      · cases hop
                      · have hchecked := hops e he
                        rw [hop] at hchecked
                        exact hchecked
                  · intro name args p b answer hin hanswer
                    have hin' : (⟨.runTool name args p b, answer⟩ : AgentEvent) ∈ v := by
                      simpa using hin
                    rcases hend name args p b answer hin' hanswer with hok | ⟨key, kept, exn, hset⟩
                    · exact Or.inl hok
                    · exact Or.inr ⟨key, kept, exn, by simp [hset]⟩
                · rw [hdeep] at hv
                  dsimp only at hv
                  rw [if_neg (by simp [recursionError])] at hv
                  obtain ⟨rfl, rfl⟩ := (Prog.runs_ret_iff _ _ _).mp hv
                  refine gated_of_untouched (by simp [AgentOp.touches]) hidentified fun hnot => ?_
                  exact absurd ⟨tool, hoffered [], hfits⟩ hnot
              · rw [hinvalid] at hv
                dsimp only at hv
                rw [if_pos hcls] at hv
                obtain ⟨rfl, rfl⟩ := (Prog.runs_ret_iff _ _ _).mp hv
                exact hfailed _ _ (by simp [AgentOp.touches]) rfl
              · rw [hinvalid] at hv
                dsimp only at hv
                rw [if_neg hcls] at hv
                obtain ⟨rfl, rfl⟩ := (Prog.runs_ret_iff _ _ _).mp hv
                refine gated_of_untouched (by simp [AgentOp.touches]) hidentified fun _ => ?_
                exact Or.inr ⟨exn, rfl, Or.inr ⟨tool, hoffered [], hunreadable⟩⟩

end Execute

/-- Whatever is registered, called and cached: `execute` touches a tool or the cache only
for a call that would have been offered and whose arguments fit. Any other call fails, or
ends in the exception of the availability query or of the part of the schema the check came
to and could not read. -/
theorem execute_gated [Runtime] (registry : ToolRegistry) (allowEgress : Bool)
    (principal : Principal) (indexVersion : String) (call : ToolCall) (budget : BudgetTracker)
    (env : Prog.Env AgentOp AgentResp) :
    Gated registry allowEgress call
      ((execute registry allowEgress principal indexVersion call budget).trace env)
      ((execute registry allowEgress principal indexVersion call budget).result env) :=
  gated_of_runs (Prog.runs_trace env _)

/-- Every declared property is an object. -/
def ObjectProperties (registry : ToolRegistry) : Prop :=
  ∀ tool ∈ registry.tools, ∀ item ∈ declaredProperties tool.parameters,
    ∃ fields, item.2 = .obj fields

/-- A tool whose one property declares the type `5`. -/
def fiveTool : Tool where
  name := "search"
  description := "Search."
  parameters := [("properties", .obj [("q", .obj [("type", .int 5)])])]

def fiveRegistry : ToolRegistry := ⟨[fiveTool], List.nodup_singleton _, false⟩

def fiveCall : ToolCall := ⟨"1", "search", [("q", .str "x")]⟩

/-- Everything is available; no tool gets to run. -/
def availableAnswers : (o : AgentOp) → AgentResp o
  | .available _ _ => .ok true
  | .startTrace => ""
  | .currentTraceId => ""
  | .activeIndexVersion => ""
  | .spec _ => .error indexError
  | .elapsed => 0
  | .chat _ _ => .error .deadline
  | .critique _ => .error .deadline
  | .schedule => []
  | .enter _ => ()
  | .runTool _ _ _ _ => .error .deadline
  | .toolCacheGet _ => .ok none
  | .toolCacheSet _ _ => .ok ()
  | .answer _ _ => .error indexError
  | .deadline => false

theorem fiveCall_unfit : ¬ ArgumentsFit fiveCall.arguments fiveTool.parameters := by
  intro hfits
  obtain ⟨kind, -, items, hitems, -⟩ := hfits.typed ("q", .str "x") (by simp [fiveCall])
    [("type", .int 5)] (.int 5) rfl rfl rfl
  cases hitems

/-- The check of an argument against the type `5` raises a `TypeError` out of `execute`. -/
theorem malformed_schema_escapes : ¬ ∀ (_ : Runtime) (registry : ToolRegistry) (allowEgress : Bool)
    (principal : Principal) (indexVersion : String) (call : ToolCall) (budget : BudgetTracker)
    (env : Prog.Env AgentOp AgentResp), ObjectProperties registry →
    let run := execute registry allowEgress principal indexVersion call budget
    ¬ Admitted registry allowEgress call (run.trace env) →
    ∃ result, run.result env = .ok result ∧ result.ok = false := by
  intro h
  have hobjects : ObjectProperties fiveRegistry := by
    intro tool htool item hitem
    rw [List.mem_singleton.mp htool] at hitem
    rw [List.mem_singleton.mp hitem]
    exact ⟨_, rfl⟩
  obtain ⟨result, hresult, -⟩ := h Runtime.ascii fiveRegistry true ⟨"u", ∅, "acme"⟩ "v1" fiveCall
    { budget := {} } (fun _ => availableAnswers) hobjects (by
      rintro ⟨tool, hoffered, hfits⟩
      rw [List.mem_singleton.mp hoffered.registered] at hfits
      exact fiveCall_unfit hfits)
  cases hresult

end Rag
