import Rag.Agent.Critic

/-!
When the reading of a critic reply is total and fails closed.

A reply is approved by two truthy flags, not by two literal ones, and the other three fields are
converted without a check. So the reading is safe exactly for the texts of `ReadsSafely`
(`parseVerdict_safe_iff`).
-/

namespace Rag

open Py

theorem jsonBlock_infix {text block : String} (h : jsonBlock text = some block) :
    block.toList <:+: text.toList := by
  unfold jsonBlock at h
  dsimp only at h
  split_ifs at h
  cases h
  rw [String.toList_ofList]
  have hprefix : ((text.toList.dropWhile fun c => c ≠ '\x7b').reverse.dropWhile
      fun c => c ≠ '\x7d').reverse <+: text.toList.dropWhile fun c => c ≠ '\x7b' := by
    rw [← List.reverse_suffix, List.reverse_reverse]
    exact List.dropWhile_suffix _
  exact hprefix.isInfix.trans (List.dropWhile_suffix _).isInfix

section Fields

variable [Runtime]

/-- `list(value or [])` does not raise. -/
def ReadsAsList : Option Json → Prop
  | some (.arr _) => True
  | some (.str _) => True
  | some (.obj _) => True
  | some v => v.truthy = false
  | none => True

/-- `float(value or 0.0)` does not raise. -/
def ReadsAsFloat : Option Json → Prop
  | some (.bool _) => True
  | some (.int n) => |(n : ℚ)| < PyFloat.overflow
  | some (.float _) => True
  | some (.str s) => s = "" ∨ (floatOfText s).isSome = true
  | some v => v.truthy = false
  | none => True

omit [Runtime] in
/-- The zero of a missing flag. -/
theorem overflow_of_not_truthy {n : ℤ} (h : (Json.int n).truthy = false) :
    |(n : ℚ)| < PyFloat.overflow := by
  have hzero : n = 0 := by simpa [Json.truthy] using h
  rw [hzero]
  decide +kernel

theorem verdictList_ok_iff {raw : List (String × Json)} {key : String} :
    (∃ items, verdictList raw key = .ok items) ↔ ReadsAsList (Json.lookup raw key) := by
  unfold verdictList
  cases Json.lookup raw key with
  | none => exact iff_of_true ⟨_, rfl⟩ trivial
  | some v =>
      cases v <;> simp only [ReadsAsList] <;> split_ifs with h <;> simp_all

theorem verdictFloat_ok_iff {raw : List (String × Json)} {key : String} :
    (∃ x, verdictFloat raw key = .ok x) ↔ ReadsAsFloat (Json.lookup raw key) := by
  unfold verdictFloat
  cases Json.lookup raw key with
  | none => exact iff_of_true ⟨_, rfl⟩ trivial
  | some v =>
      cases v with
      | int n =>
          simp only [ReadsAsFloat]
          split_ifs with h hbig
          · exact iff_of_false (fun ⟨_, hok⟩ => by cases hok) hbig.not_gt
          · exact iff_of_true ⟨_, rfl⟩ (Rat.not_le.mp hbig)
          · exact iff_of_true ⟨_, rfl⟩ (overflow_of_not_truthy (by simpa using h))
      | str s =>
          by_cases hempty : s = ""
          · simp [ReadsAsFloat, Json.truthy, hempty]
          · cases hfloat : floatOfText s <;> simp [ReadsAsFloat, Json.truthy, hempty, hfloat]
      | _ =>
          simp only [ReadsAsFloat]
          split_ifs with h <;> simp_all

/-- The fields that are converted without a check. -/
structure Converts (raw : List (String × Json)) : Prop where
  reasons : ReadsAsList (Json.lookup raw "reasons")
  missing : ReadsAsList (Json.lookup raw "missing")
  confidence : ReadsAsFloat (Json.lookup raw "confidence")

theorem verdictOf_ok_iff {raw : List (String × Json)} :
    (∃ verdict, verdictOf raw = .ok verdict) ↔ Converts raw := by
  constructor
  · rintro ⟨verdict, h⟩
    obtain ⟨reasons, hreasons, h⟩ := ok_of_bind h
    obtain ⟨missing, hmissing, h⟩ := ok_of_bind h
    obtain ⟨confidence, hconfidence, -⟩ := ok_of_bind h
    exact ⟨verdictList_ok_iff.mp ⟨_, hreasons⟩, verdictList_ok_iff.mp ⟨_, hmissing⟩,
      verdictFloat_ok_iff.mp ⟨_, hconfidence⟩⟩
  · intro h
    obtain ⟨reasons, hreasons⟩ := verdictList_ok_iff.mpr h.reasons
    obtain ⟨missing, hmissing⟩ := verdictList_ok_iff.mpr h.missing
    obtain ⟨confidence, hconfidence⟩ := verdictFloat_ok_iff.mpr h.confidence
    unfold verdictOf
    rw [hreasons, hmissing, hconfidence]
    exact ⟨_, rfl⟩

theorem verdictOf_flags {raw : List (String × Json)} {verdict : Verdict}
    (h : verdictOf raw = .ok verdict) :
    verdict.sufficient = verdictFlag raw "sufficient"
      ∧ verdict.grounded = verdictFlag raw "grounded" := by
  obtain ⟨reasons, -, h⟩ := ok_of_bind h
  obtain ⟨missing, -, h⟩ := ok_of_bind h
  obtain ⟨confidence, -, h⟩ := ok_of_bind h
  cases h
  exact ⟨rfl, rfl⟩

/-- Both flags of the object are the literal `true`. -/
def Approves (raw : List (String × Json)) : Prop :=
  Json.lookup raw "sufficient" = some (.bool true) ∧ Json.lookup raw "grounded" = some (.bool true)

/-- Some part of the text is a JSON object that approves. -/
def ContainsApproval (text : String) : Prop :=
  ∃ block raw, block.toList <:+: text.toList ∧ Json.loads block = .ok (.obj raw) ∧ Approves raw

/-- Reading a reply does not raise, and approves only what the reply literally approves. -/
def Safe (text : String) : Prop :=
  ∃ verdict, parseVerdict text = .ok verdict
    ∧ (verdict.sufficient = true → verdict.grounded = true → ContainsApproval text)

/-- What an object says without raising and without a flag that is truthy and not `true`, unless
another object in the text approves. -/
structure SafeObject (text : String) (raw : List (String × Json)) : Prop where
  converts : Converts raw
  flags : verdictFlag raw "sufficient" = false ∨ verdictFlag raw "grounded" = false
    ∨ Approves raw ∨ ContainsApproval text

/-- The text has no block, or its block is not JSON in the way that is caught, or is JSON but no
object, or is a safe object. -/
def ReadsSafely (text : String) : Prop :=
  ∀ block, jsonBlock text = some block → Json.loads block = .error .decode
    ∨ ∃ value, Json.loads block = .ok value ∧ ∀ raw, value = .obj raw → SafeObject text raw

theorem safe_of_rejected {text : String} {verdict : Verdict} (h : parseVerdict text = .ok verdict)
    (hrejected : verdict.sufficient = false) : Safe text := by
  refine ⟨verdict, h, ?_⟩
  rw [hrejected]
  intro hfalse
  cases hfalse

/-- A reply whose block is an object is read safely exactly when the object is safe. -/
theorem safe_object_iff {text block : String} {raw : List (String × Json)}
    (hblock : jsonBlock text = some block) (hloads : Json.loads block = .ok (.obj raw)) :
    Safe text ↔ SafeObject text raw := by
  have hparse : parseVerdict text = verdictOf raw := by
    simp only [parseVerdict, hblock, hloads]
  constructor
  · rintro ⟨verdict, hverdict, happroved⟩
    rw [hparse] at hverdict
    obtain ⟨hsufficient, hgrounded⟩ := verdictOf_flags hverdict
    refine ⟨verdictOf_ok_iff.mp ⟨verdict, hverdict⟩, ?_⟩
    rw [← hsufficient, ← hgrounded]
    cases hs : verdict.sufficient with
    | false => exact .inl rfl
    | true =>
        cases hg : verdict.grounded with
        | false => exact .inr (.inl rfl)
        | true => exact .inr (.inr (.inr (happroved hs hg)))
  · rintro ⟨hconverts, hflags⟩
    obtain ⟨verdict, hverdict⟩ := verdictOf_ok_iff.mpr hconverts
    obtain ⟨hsufficient, hgrounded⟩ := verdictOf_flags hverdict
    refine ⟨verdict, hparse.trans hverdict, ?_⟩
    rw [hsufficient, hgrounded]
    intro hs hg
    rcases hflags with hfalse | hfalse | happroves | hcontains
    · rw [hs] at hfalse
      cases hfalse
    · rw [hg] at hfalse
      cases hfalse
    · exact ⟨block, raw, jsonBlock_infix hblock, hloads, happroves⟩
    · exact hcontains

/-- The reading of a reply is total and fails closed exactly on the texts that read safely. -/
theorem parseVerdict_safe_iff (text : String) : Safe text ↔ ReadsSafely text := by
  cases hblock : jsonBlock text with
  | none =>
      refine iff_of_true (@safe_of_rejected _ _ critiqueParseError ?_ rfl) ?_
      · simp only [parseVerdict, hblock]
      · intro block hsome
        rw [hblock] at hsome
        cases hsome
  | some block =>
      have hreads : ReadsSafely text ↔ Json.loads block = .error .decode
          ∨ ∃ value, Json.loads block = .ok value ∧ ∀ raw, value = .obj raw → SafeObject text raw := by
        constructor
        · intro h
          exact h block hblock
        · intro h other hother
          rw [hblock] at hother
          cases hother
          exact h
      rw [hreads]
      cases hloads : Json.loads block with
      | error e =>
          cases e with
          | decode =>
              refine iff_of_true (@safe_of_rejected _ _ critiqueParseError ?_ rfl) (.inl rfl)
              simp only [parseVerdict, hblock, hloads]
          | intDigits =>
              refine iff_of_false ?_ (by simp)
              rintro ⟨verdict, hverdict, -⟩
              simp [parseVerdict, hblock, hloads] at hverdict
          | recursion =>
              refine iff_of_false ?_ (by simp)
              rintro ⟨verdict, hverdict, -⟩
              simp [parseVerdict, hblock, hloads] at hverdict
      | ok value =>
          cases value with
          | obj raw =>
              rw [safe_object_iff hblock hloads]
              simp
          | _ =>
              refine iff_of_true (@safe_of_rejected _ _
                { sufficient := false, grounded := false, reasons := ["critic_parse_error"] }
                ?_ rfl) (by simp)
              simp only [parseVerdict, hblock, hloads]

end Fields

/-- The characters begin with an object whose flag is the literal `true`. -/
def literallyTrue [Runtime] (cs : List Char) (key : String) : Bool :=
  match Json.readValue Runtime.maxDepth (Json.skipSpace cs) with
  | .ok (.obj raw, _) =>
      match Json.lookup raw key with
      | some (.bool b) => b
      | _ => false
  | _ => false

theorem readValue_of_loads [Runtime] {text : String} {value : Json}
    (h : Json.loads text = .ok value) :
    ∃ rest, Json.readValue Runtime.maxDepth (Json.skipSpace text.toList) = .ok (value, rest) := by
  unfold Json.loads at h
  split at h
  · cases h
  · cases hread : Json.readValue Runtime.maxDepth (Json.skipSpace text.toList) with
    | error e =>
        rw [hread] at h
        cases h
    | ok read =>
        obtain ⟨v, rest⟩ := read
        rw [hread] at h
        dsimp only [bind, Except.bind] at h
        split_ifs at h
        cases h
        exact ⟨rest, rfl⟩

theorem literallyTrue_of_approves [Runtime] {block : String} {raw : List (String × Json)}
    (hloads : Json.loads block = .ok (.obj raw)) (happroves : Approves raw) :
    literallyTrue block.toList "sufficient" = true := by
  obtain ⟨rest, hread⟩ := readValue_of_loads hloads
  simp only [literallyTrue, hread, happroves.1]

theorem not_containsApproval [Runtime] {text : String}
    (h : ∀ rest ∈ text.toList.tails, ∀ cs ∈ rest.inits, literallyTrue cs "sufficient" = false) :
    ¬ ContainsApproval text := by
  rintro ⟨block, raw, hinfix, hloads, happroves⟩
  obtain ⟨rest, hprefix, hsuffix⟩ := List.infix_iff_prefix_suffix.mp hinfix
  have hfalse := h rest ((List.mem_tails _ _).mpr hsuffix) block.toList
    ((List.mem_inits _ _).mpr hprefix)
  rw [literallyTrue_of_approves hloads happroves] at hfalse
  cases hfalse

/-- A reply that denies both flags with strings. -/
def deniedReply : String := "\x7b\"sufficient\": \"false\", \"grounded\": \"false\"\x7d"

/-- The reply approves, and no part of it says so. -/
theorem denied_reply_approves : ¬ ∀ (_ : Runtime) (text : String), Safe text := by
  intro h
  let _ := Runtime.ascii
  obtain ⟨verdict, hverdict, hsafe⟩ := h Runtime.ascii deniedReply
  have hflags : (parseVerdict deniedReply).toOption.map (fun v => (v.sufficient, v.grounded))
      = some (true, true) := by decide +kernel
  rw [hverdict] at hflags
  obtain ⟨hsufficient, hgrounded⟩ := Prod.mk.inj (Option.some.inj hflags)
  exact not_containsApproval (by decide +kernel) (hsafe hsufficient hgrounded)

end Rag
