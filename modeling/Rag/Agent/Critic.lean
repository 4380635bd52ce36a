import Rag.Agent.Evidence
import Rag.Errors
import Rag.Prompts

/-!
`rag.agent.critic`: how the text of a critic completion becomes a verdict.

`parseVerdict` guards against text that is not JSON, and only against that. A JSON object
whose fields have other types than the prompt asks for is read with the conversions of
the source (`list`, `str`, `float`), and those raise.
-/

namespace Rag

open Py

/-- `re.search(r"\{.*\}", text, DOTALL)`: from the first opening to the last closing
brace, when that comes later. -/
def jsonBlock (text : String) : Option String :=
  let fromOpen := text.toList.dropWhile fun c => c ≠ '\x7b'
  let block := (fromOpen.reverse.dropWhile fun c => c ≠ '\x7d').reverse
  if block = [] then none else some (String.ofList block)

def critiqueParseError : Verdict where
  sufficient := false
  grounded := false
  reasons := ["critic_parse_error"]
  missing := ["retry with clearer evidence"]

section Float

/-- Underscores may stand between two digits; `afterDigit` says that one came before. -/
def dropUnderscores (afterDigit : Bool) : List Char → Option (List Char)
  | [] => some []
  | '_' :: c :: rest =>
      if afterDigit && Json.isDigit c then (dropUnderscores true rest).map (c :: ·) else none
  | c :: rest =>
      if c = '_' then none else (dropUnderscores (Json.isDigit c) rest).map (c :: ·)

/-- An unsigned literal of `float()`. -/
def unsignedFloat (negative : Bool) (cs : List Char) : Option PyFloat :=
  let word := String.ofList (cs.map Char.toLower)
  if word = "inf" ∨ word = "infinity" then some (if negative then .negInf else .inf)
  else if word = "nan" then some .nan
  else
    let whole := cs.takeWhile Json.isDigit
    let rest := cs.dropWhile Json.isDigit
    let (fraction, rest) := match rest with
      | '.' :: tail => (tail.takeWhile Json.isDigit, tail.dropWhile Json.isDigit)
      | _ => ([], rest)
    let (exponent, rest) := Json.readExponent rest
    if rest ≠ [] ∨ (whole = [] ∧ fraction = []) then none
    else some (Json.decimalValue negative whole fraction (exponent.getD 0))

/-- The whitespace `float()` strips: `isspace` apart from the four separators of ASCII. -/
def isFloatSpace (c : Char) : Bool := isSpace c && !(28 ≤ c.toNat && c.toNat ≤ 31)

/-- `float(text)`, `none` where it raises `ValueError`. -/
def floatOfText [Runtime] (text : String) : Option PyFloat := do
  let trimmed := ((text.toList.dropWhile isFloatSpace).reverse.dropWhile isFloatSpace).reverse
  let digits := trimmed.map fun c =>
    match Runtime.decimal c with
    | some d => Char.ofNat (48 + d)
    | none => c
  let cs ← dropUnderscores false digits
  match cs with
  | '-' :: rest => unsignedFloat true rest
  | '+' :: rest => unsignedFloat false rest
  | _ => unsignedFloat false cs

end Float

section Fields

variable [Runtime]

/-- `raw.get(key, False)` under `bool`. -/
def verdictFlag (raw : List (String × Json)) (key : String) : Bool :=
  match Json.lookup raw key with
  | some v => v.truthy
  | none => false

/-- `[str(x) for x in (raw.get(key) or [])]`. -/
def verdictList (raw : List (String × Json)) (key : String) : Except Exn (List String) :=
  match Json.lookup raw key with
  | none => .ok []
  | some v =>
      if v.truthy then
        match v with
        | .arr items => .ok (items.map Json.toStr)
        | .str s => .ok (s.toList.map String.singleton)
        | .obj fields => .ok ((fields.map Prod.fst).eraseDups)
        | v => .error (typeError ("'" ++ v.typeName ++ "' object is not iterable"))
      else .ok []

/-- `float(raw.get(key) or 0.0)`. -/
def verdictFloat (raw : List (String × Json)) (key : String) : Except Exn PyFloat :=
  match Json.lookup raw key with
  | none => .ok (.finite 0)
  | some v =>
      if v.truthy then
        match v with
        | .bool _ => .ok (.finite 1)
        | .int n =>
            if PyFloat.overflow ≤ |(n : ℚ)| then
              .error ⟨.other, "OverflowError", "int too large to convert to float"⟩
            else .ok (PyFloat.round n)
        | .float x => .ok x
        | .str s =>
            match floatOfText s with
            | some x => .ok x
            | none =>
                .error (valueError ("could not convert string to float: " ++ Runtime.repr (.str s)))
        | v =>
            .error (typeError ("float() argument must be a string or a real number, not '"
              ++ v.typeName ++ "'"))
      else .ok (.finite 0)

/-- The verdict a parsed object spells. -/
def verdictOf (raw : List (String × Json)) : Except Exn Verdict := do
  let reasons ← verdictList raw "reasons"
  let missing ← verdictList raw "missing"
  let confidence ← verdictFloat raw "confidence"
  .ok {
    sufficient := verdictFlag raw "sufficient"
    grounded := verdictFlag raw "grounded"
    reasons := reasons
    missing := missing
    confidence := confidence }

def parseVerdict (text : String) : Except Exn Verdict :=
  match jsonBlock text with
  | none => .ok critiqueParseError
  | some block =>
      match Json.loads block with
      | .error .decode => .ok critiqueParseError
      | .error .intDigits =>
          .error (valueError "Exceeds the limit (4300 digits) for integer string conversion")
      | .error .recursion => .error recursionError
      | .ok (.obj raw) => verdictOf raw
      | .ok _ =>
          .ok { sufficient := false, grounded := false, reasons := ["critic_parse_error"] }

theorem verdictList_error_isTimeout {raw : List (String × Json)} {key : String} {exn : Exn}
    (h : verdictList raw key = .error exn) : exn.isTimeout = false := by
  unfold verdictList at h
  split at h
  · cases h
  · split_ifs at h
    split at h <;> cases h
    rfl

theorem verdictFloat_error_isTimeout {raw : List (String × Json)} {key : String} {exn : Exn}
    (h : verdictFloat raw key = .error exn) : exn.isTimeout = false := by
  unfold verdictFloat at h
  split at h
  · cases h
  · split_ifs at h
    split at h
    · cases h
    · split_ifs at h
      cases h
      rfl
    · cases h
    · split at h <;> cases h
      rfl
    · cases h
      rfl

theorem verdictOf_error_isTimeout {raw : List (String × Json)} {exn : Exn}
    (h : verdictOf raw = .error exn) : exn.isTimeout = false := by
  unfold verdictOf at h
  cases hreasons : verdictList raw "reasons" with
  | error e =>
      rw [hreasons] at h
      cases h
      exact verdictList_error_isTimeout hreasons
  | ok reasons =>
      cases hmissing : verdictList raw "missing" with
      | error e =>
          rw [hreasons, hmissing] at h
          cases h
          exact verdictList_error_isTimeout hmissing
      | ok missing =>
          cases hconfidence : verdictFloat raw "confidence" with
          | error e =>
              rw [hreasons, hmissing, hconfidence] at h
              cases h
              exact verdictFloat_error_isTimeout hconfidence
          | ok confidence =>
              rw [hreasons, hmissing, hconfidence] at h
              cases h

/-- What reading a reply raises is never a `TimeoutError`. -/
theorem parseVerdict_error_isTimeout {text : String} {exn : Exn}
    (h : parseVerdict text = .error exn) : exn.isTimeout = false := by
  unfold parseVerdict at h
  split at h
  · cases h
  · split at h
    · cases h
    · cases h
      rfl
    · cases h
      rfl
    · exact verdictOf_error_isTimeout h
    · cases h

end Fields

end Rag
