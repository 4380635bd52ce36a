import Rag.Lib.Double
import Rag.Lib.Text

/-!
JSON values as Python's `json` module reads and writes them.

`dumps` is the compact writer with sorted keys and ASCII escapes. `loads` is the
reader, with the three ways in which it fails kept apart: text that is not JSON
(`JSONDecodeError`), an integer literal beyond the interpreter's digit limit
(a plain `ValueError`) and nesting beyond the recursion limit (`RecursionError`).
A float literal denotes the double nearest to it. What only the interpreter
knows (case tables, digit tables, `repr`) is collected in `Runtime`.
-/

namespace Py

inductive Json where
  | null
  | bool (b : Bool)
  | int (n : ℤ)
  | float (x : PyFloat)
  | str (s : String)
  | arr (items : List Json)
  | obj (fields : List (String × Json))

/-- Behaviour of the interpreter that its documentation leaves to tables. -/
class Runtime where
  /-- `str.lower` -/
  lower : String → String
  /-- `\w` -/
  isWord : Char → Bool
  /-- The value of a character `\d` matches. -/
  decimal : Char → Option Nat
  /-- `float.__repr__` on a finite float -/
  floatRepr : ℚ → String
  /-- `str` of a value built from JSON that is not a string, and `repr` of any -/
  str : Json → String
  repr : Json → String
  /-- Nesting at which the JSON reader and writer raise `RecursionError`. -/
  maxDepth : Nat

namespace Json

/-- `dict.get` on an object; a later duplicate of a key replaces an earlier one. -/
def lookup (fields : List (String × Json)) (key : String) : Option Json :=
  (fields.reverse.find? fun f => f.1 == key).map Prod.snd

/-- `bool(value)`. -/
def truthy : Json → Bool
  | .null => false
  | .bool b => b
  | .int n => n ≠ 0
  | .float x => x ≠ .finite 0
  | .str s => s ≠ ""
  | .arr items => items ≠ []
  | .obj fields => fields ≠ []

/-- `str(value)`; a string is its own. -/
def toStr [Runtime] : Json → String
  | .str s => s
  | v => Runtime.str v

/-- `type(value).__name__`. -/
def typeName : Json → String
  | .null => "NoneType"
  | .bool _ => "bool"
  | .int _ => "int"
  | .float _ => "float"
  | .str _ => "str"
  | .arr _ => "list"
  | .obj _ => "dict"

def hexDigit (n : Nat) : Char :=
  if n < 10 then Char.ofNat (48 + n) else Char.ofNat (87 + n)

/-- `\uXXXX` of one UTF-16 unit. -/
def escapeUnit (n : Nat) : List Char :=
  ['\\', 'u', hexDigit (n / 4096 % 16), hexDigit (n / 256 % 16), hexDigit (n / 16 % 16),
    hexDigit (n % 16)]

def escapeChar (c : Char) : List Char :=
  if c = '"' then ['\\', '"']
  else if c = '\\' then ['\\', '\\']
  else if c = '\n' then ['\\', 'n']
  else if c = '\r' then ['\\', 'r']
  else if c = '\t' then ['\\', 't']
  else if c = Char.ofNat 12 then ['\\', 'f']
  else if c = Char.ofNat 8 then ['\\', 'b']
  else if 32 ≤ c.toNat ∧ c.toNat ≤ 126 then [c]
  else if c.toNat < 0x10000 then escapeUnit c.toNat
  else
    let v := c.toNat - 0x10000
    escapeUnit (0xd800 + v / 0x400) ++ escapeUnit (0xdc00 + v % 0x400)

def quote (s : String) : String :=
  String.ofList ('"' :: s.toList.flatMap escapeChar ++ ['"'])

def dumpsFloat [Runtime] : PyFloat → String
  | .finite q => Runtime.floatRepr q
  | .inf => "Infinity"
  | .negInf => "-Infinity"
  | .nan => "NaN"

/-- One `key:value` member per field, in the order of the keys. -/
def sortMembers (members : List (String × String)) : List String :=
  (members.insertionSort fun a b => a.1 ≤ b.1).map fun m => quote m.1 ++ ":" ++ m.2

mutual

/-- What a JSON round trip through pydantic leaves of a value: a float that JSON cannot write
comes back as null. -/
def reloaded : Json → Json
  | .float .inf => .null
  | .float .negInf => .null
  | .float .nan => .null
  | .arr items => .arr (reloadedItems items)
  | .obj fields => .obj (reloadedFields fields)
  | v => v

def reloadedItems : List Json → List Json
  | [] => []
  | v :: rest => reloaded v :: reloadedItems rest

def reloadedFields : List (String × Json) → List (String × Json)
  | [] => []
  | (key, v) :: rest => (key, reloaded v) :: reloadedFields rest

end

mutual

/-- `json.dumps(value, sort_keys=True, separators=(",", ":"))`. -/
def dumps [Runtime] : Json → String
  | .null => "null"
  | .bool b => if b then "true" else "false"
  | .int n => toString n
  | .float x => dumpsFloat x
  | .str s => quote s
  | .arr items => "[" ++ join "," (dumpsItems items) ++ "]"
  | .obj fields => "\x7b" ++ join "," (sortMembers (dumpsFields fields)) ++ "\x7d"

def dumpsItems [Runtime] : List Json → List String
  | [] => []
  | v :: rest => dumps v :: dumpsItems rest

def dumpsFields [Runtime] : List (String × Json) → List (String × String)
  | [] => []
  | (key, v) :: rest => (key, dumps v) :: dumpsFields rest

end

mutual

/-- Nesting depth, which is what the recursion limit is compared with. -/
def depth : Json → Nat
  | .arr items => depthItems items + 1
  | .obj fields => depthFields fields + 1
  | _ => 0

def depthItems : List Json → Nat
  | [] => 0
  | v :: rest => max (depth v) (depthItems rest)

def depthFields : List (String × Json) → Nat
  | [] => 0
  | (_, v) :: rest => max (depth v) (depthFields rest)

end

inductive Error where
  /-- `JSONDecodeError` -/
  | decode
  /-- `ValueError`: an integer literal exceeds the digit limit -/
  | intDigits
  /-- `RecursionError` -/
  | recursion
deriving DecidableEq

def hexValue (c : Char) : Option Nat :=
  let n := c.toNat
  if 48 ≤ n ∧ n ≤ 57 then some (n - 48)
  else if 97 ≤ n ∧ n ≤ 102 then some (n - 87)
  else if 65 ≤ n ∧ n ≤ 70 then some (n - 55)
  else none

/-- The four digits after `\u`. -/
def readUnit : List Char → Option (Nat × List Char)
  | a :: b :: c :: d :: rest => do
      let a ← hexValue a
      let b ← hexValue b
      let c ← hexValue c
      let d ← hexValue d
      pure (a * 4096 + b * 256 + c * 16 + d, rest)
  | _ => none

/-- One `\uXXXX`, or a surrogate pair of them. A lone surrogate has no scalar value
and reads as the replacement character. -/
def readUnicode (cs : List Char) : Option (Char × List Char) := do
  let (hi, rest) ← readUnit cs
  if 0xd800 ≤ hi ∧ hi ≤ 0xdbff then
    match rest with
    | '\\' :: 'u' :: tail =>
        let (lo, rest') ← readUnit tail
        if 0xdc00 ≤ lo ∧ lo ≤ 0xdfff then
          pure (Char.ofNat (0x10000 + (hi - 0xd800) * 0x400 + (lo - 0xdc00)), rest')
        else pure (Char.ofNat 0xfffd, rest)
    | _ => pure (Char.ofNat 0xfffd, rest)
  else if 0xdc00 ≤ hi ∧ hi ≤ 0xdfff then pure (Char.ofNat 0xfffd, rest)
  else pure (Char.ofNat hi, rest)

/-- One character of a string literal, escapes resolved. -/
def readChar : List Char → Option (Char × List Char)
  | '\\' :: 'u' :: rest => readUnicode rest
  | '\\' :: c :: rest =>
      if c = '"' ∨ c = '\\' ∨ c = '/' then some (c, rest)
      else if c = 'n' then some ('\n', rest)
      else if c = 'r' then some ('\r', rest)
      else if c = 't' then some ('\t', rest)
      else if c = 'f' then some (Char.ofNat 12, rest)
      else if c = 'b' then some (Char.ofNat 8, rest)
      else none
  | c :: rest => if c.toNat < 32 ∨ c = '\\' then none else some (c, rest)
  | [] => none

theorem hexValue_hexDigit : ∀ n < 16, hexValue (hexDigit n) = some n := by
  decide

theorem readUnit_escapeUnit {n : Nat} (hn : n < 0x10000) (rest : List Char) :
    readUnit ((escapeUnit n).drop 2 ++ rest) = some (n, rest) := by
  have hdigit : ∀ m, hexValue (hexDigit (m % 16)) = some (m % 16) := fun m =>
    hexValue_hexDigit _ (Nat.mod_lt _ (by decide))
  simp only [escapeUnit, List.drop_succ_cons, List.drop_zero, List.cons_append, List.nil_append,
    readUnit, hdigit, Option.bind_eq_bind, Option.bind_some, Option.pure_def, Option.some.injEq,
    Prod.mk.injEq, and_true]
  omega

theorem readUnicode_escapeUnit {c : Char} (hc : c.toNat < 0x10000) (rest : List Char) :
    readUnicode ((escapeUnit c.toNat).drop 2 ++ rest) = some (c, rest) := by
  have hvalid : c.toNat < 0xd800 ∨ 0xdfff < c.toNat := by
    rcases c.valid with h | h
    · exact Or.inl h
    · exact Or.inr h.1
  rw [readUnicode, readUnit_escapeUnit hc]
  have hhi : ¬ (0xd800 ≤ c.toNat ∧ c.toNat ≤ 0xdbff) := by omega
  have hlo : ¬ (0xdc00 ≤ c.toNat ∧ c.toNat ≤ 0xdfff) := by omega
  simp [hhi, hlo, Char.ofNat_toNat]

theorem readUnicode_escapePair (hi lo : Nat) (hhi : 0xd800 ≤ hi ∧ hi ≤ 0xdbff)
    (hlo : 0xdc00 ≤ lo ∧ lo ≤ 0xdfff) (rest : List Char) :
    readUnicode ((escapeUnit hi).drop 2 ++ (escapeUnit lo ++ rest))
      = some (Char.ofNat (0x10000 + (hi - 0xd800) * 0x400 + (lo - 0xdc00)), rest) := by
  have hcons : escapeUnit lo ++ rest = '\\' :: 'u' :: ((escapeUnit lo).drop 2 ++ rest) := rfl
  rw [readUnicode, readUnit_escapeUnit (by omega), hcons]
  simp only [Option.bind_eq_bind, Option.bind_some, if_pos hhi,
    readUnit_escapeUnit (show lo < 0x10000 by omega), if_pos hlo, Option.pure_def]

/-- Escapes are a code that reading inverts, whatever comes after. -/
theorem readChar_escapeChar (c : Char) (rest : List Char) :
    readChar (escapeChar c ++ rest) = some (c, rest) := by
  unfold escapeChar
  split_ifs with h₁ h₂ h₃ h₄ h₅ h₆ h₇ h₈ h₉
  iterate 7 · subst_vars; rfl
  · have hctl : ¬ (c.toNat < 32 ∨ c = '\\') := by
      rintro (h | h)
      · omega
      · exact h₂ h
    rw [List.singleton_append, readChar.eq_def]
    split
    · simp_all
    · simp_all
    · simp_all
    · simp_all
  · exact readUnicode_escapeUnit h₉ rest
  · have hmax : c.toNat < 0x110000 := by
      rcases c.valid with h | h
      · exact Nat.lt_trans h (by decide)
      · exact h.2
    have hcode : 0x10000 + (0xd800 + (c.toNat - 0x10000) / 0x400 - 0xd800) * 0x400
        + (0xdc00 + (c.toNat - 0x10000) % 0x400 - 0xdc00) = c.toNat := by omega
    have hpair := readUnicode_escapePair (0xd800 + (c.toNat - 0x10000) / 0x400)
      (0xdc00 + (c.toNat - 0x10000) % 0x400) (by omega) (by omega) rest
    rw [hcode, Char.ofNat_toNat] at hpair
    rw [List.append_assoc]
    exact hpair

theorem escape_injective : Function.Injective fun cs : List Char => cs.flatMap escapeChar := by
  intro cs
  induction cs with
  | nil =>
      rintro (_ | ⟨d, ds⟩) h
      · rfl
      · have hread := readChar_escapeChar d (ds.flatMap escapeChar)
        simp only [List.flatMap_nil, List.flatMap_cons] at h
        rw [← h] at hread
        cases hread
  | cons c cs ih =>
      rintro (_ | ⟨d, ds⟩) h
      · have hread := readChar_escapeChar c (cs.flatMap escapeChar)
        simp only [List.flatMap_nil, List.flatMap_cons] at h
        rw [h] at hread
        cases hread
      · have hc := readChar_escapeChar c (cs.flatMap escapeChar)
        have hd := readChar_escapeChar d (ds.flatMap escapeChar)
        simp only [List.flatMap_cons] at h
        rw [h, hd] at hc
        obtain ⟨rfl, htail⟩ : d = c ∧ ds.flatMap escapeChar = cs.flatMap escapeChar := by
          simpa using hc
        rw [ih htail.symm]

theorem quote_injective : Function.Injective quote := by
  intro s t h
  have hchars : '"' :: s.toList.flatMap escapeChar ++ ['"']
      = '"' :: t.toList.flatMap escapeChar ++ ['"'] := String.ofList_injective h
  have hbody : s.toList.flatMap escapeChar = t.toList.flatMap escapeChar := by
    simpa using hchars
  exact String.toList_inj.mp (escape_injective hbody)

/-- The rest of a string literal, up to its closing quote. Each round reads at least
one character, so a bound of the text's length is never the reason to stop. -/
def readString : Nat → List Char → Option (List Char × List Char)
  | _, '"' :: rest => some ([], rest)
  | n + 1, cs => do
      let (c, rest) ← readChar cs
      let (tail, rest) ← readString n rest
      pure (c :: tail, rest)
  | 0, _ => none

def isDigit (c : Char) : Bool := 48 ≤ c.toNat && c.toNat ≤ 57

def digitsValue (cs : List Char) : Nat := cs.foldl (fun n c => n * 10 + (c.toNat - 48)) 0

def skipSpace (cs : List Char) : List Char :=
  cs.dropWhile fun c => c = ' ' || c = '\t' || c = '\n' || c = '\r'

/-- `-?(0|[1-9]\d*)`. -/
def readInteger (cs : List Char) : Option (Bool × List Char × List Char) :=
  let (negative, cs) := match cs with
    | '-' :: rest => (true, rest)
    | _ => (false, cs)
  match cs with
  | '0' :: rest => some (negative, ['0'], rest)
  | c :: _ => if isDigit c then some (negative, cs.takeWhile isDigit, cs.dropWhile isDigit)
      else none
  | [] => none

/-- `(\.\d+)?`. -/
def readFraction (cs : List Char) : List Char × List Char :=
  match cs with
  | '.' :: rest =>
      if (rest.takeWhile isDigit).isEmpty then ([], cs)
      else (rest.takeWhile isDigit, rest.dropWhile isDigit)
  | _ => ([], cs)

/-- `([eE][-+]?\d+)?`. -/
def readExponent (cs : List Char) : Option ℤ × List Char :=
  match cs with
  | e :: rest =>
      if e = 'e' ∨ e = 'E' then
        let (negative, digits) := match rest with
          | '-' :: ds => (true, ds)
          | '+' :: ds => (false, ds)
          | _ => (false, rest)
        if (digits.takeWhile isDigit).isEmpty then (none, cs)
        else
          let n : ℤ := digitsValue (digits.takeWhile isDigit)
          (some (if negative then -n else n), digits.dropWhile isDigit)
      else (none, cs)
  | [] => (none, cs)

/-- The float a decimal literal denotes. -/
def decimalValue (negative : Bool) (whole fraction : List Char) (exponent : ℤ) : PyFloat :=
  let m : ℚ := digitsValue (whole ++ fraction)
  let q := m * (10 : ℚ) ^ (exponent - fraction.length)
  PyFloat.round (if negative then -q else q)

/-- `sys.int_info.default_max_str_digits` -/
def maxIntDigits : Nat := 4300

def readNumber (cs : List Char) : Option (Except Error (Json × List Char)) := do
  let (negative, whole, rest) ← readInteger cs
  let (fraction, rest) := readFraction rest
  let (exponent, rest) := readExponent rest
  if fraction = [] ∧ exponent = none then
    if maxIntDigits < whole.length then pure (.error .intDigits)
    else
      let n : ℤ := digitsValue whole
      pure (.ok (.int (if negative then -n else n), rest))
  else pure (.ok (.float (decimalValue negative whole fraction (exponent.getD 0)), rest))

/-- `null`, `true`, `false`, `NaN`, `Infinity` and `-Infinity`. -/
def constants : List (List Char × Json) :=
  [("null".toList, .null), ("true".toList, .bool true), ("false".toList, .bool false),
    ("NaN".toList, .float .nan), ("Infinity".toList, .float .inf),
    ("-Infinity".toList, .float .negInf)]

def readScalar (cs : List Char) : Except Error (Json × List Char) :=
  match readNumber cs with
  | some r => r
  | none =>
      match constants.find? fun c => c.1.isPrefixOf cs with
      | some (word, v) => .ok (v, cs.drop word.length)
      | none => .error .decode

/-- The members of an array or an object after its opening bracket: `item` reads one of
them, `close` ends the list. -/
def readMembers {α : Type} (item : List Char → Except Error (α × List Char)) (close : Char) :
    Nat → List Char → Except Error (List α × List Char)
  | 0, _ => .error .decode
  | n + 1, cs => do
      let (v, rest) ← item cs
      match skipSpace rest with
      | [] => .error .decode
      | c :: rest =>
          if c = close then .ok ([v], rest)
          else if c = ',' then do
            let (vs, rest) ← readMembers item close n (skipSpace rest)
            .ok (v :: vs, rest)
          else .error .decode

/-- `"key" : value`. -/
def readMember (value : List Char → Except Error (Json × List Char)) (cs : List Char) :
    Except Error ((String × Json) × List Char) :=
  match cs with
  | '"' :: rest =>
      match readString rest.length rest with
      | none => .error .decode
      | some (key, rest) =>
          match skipSpace rest with
          | ':' :: rest => do
              let (v, rest) ← value (skipSpace rest)
              .ok ((String.ofList key, v), rest)
          | _ => .error .decode
  | _ => .error .decode

/-- One value at most `depth` brackets deep. -/
def readValue : Nat → List Char → Except Error (Json × List Char)
  | _, '"' :: rest =>
      match readString rest.length rest with
      | none => .error .decode
      | some (s, rest) => .ok (.str (String.ofList s), rest)
  | 0, '[' :: _ => .error .recursion
  | 0, '\x7b' :: _ => .error .recursion
  | depth + 1, '[' :: rest =>
      match skipSpace rest with
      | ']' :: rest => .ok (.arr [], rest)
      | cs => do
          let (items, rest) ← readMembers (readValue depth) ']' cs.length cs
          .ok (.arr items, rest)
  | depth + 1, '\x7b' :: rest =>
      match skipSpace rest with
      | '\x7d' :: rest => .ok (.obj [], rest)
      | cs => do
          let (fields, rest) ← readMembers (readMember (readValue depth)) '\x7d' cs.length cs
          .ok (.obj fields, rest)
  | _, cs => readScalar cs

/-- `json.loads(text)`. -/
def loads [Runtime] (text : String) : Except Error Json :=
  match text.toList with
  | '\uFEFF' :: _ => .error .decode
  | cs => do
      let (v, rest) ← readValue Runtime.maxDepth (skipSpace cs)
      if skipSpace rest = [] then .ok v else .error .decode

section Numbers

theorem toList_intText (n : ℤ) : (toString n).toList =
    match n with
    | .ofNat m => Nat.toDigits 10 m
    | .negSucc m => '-' :: Nat.toDigits 10 (m + 1) := by
  cases n with
  | ofNat m => exact Nat.toList_repr
  | negSucc m =>
      change ("-" ++ Nat.repr (m + 1)).toList = _
      rw [String.toList_append, Nat.toList_repr]
      rfl

theorem digits_injective {m n : Nat} (h : Nat.toDigits 10 m = Nat.toDigits 10 n) : m = n := by
  have hvalue := congrArg (fun cs => Nat.ofDigitChars 10 cs 0) h
  simpa using hvalue

/-- An integer is written with digits, after a minus sign if it is negative. -/
theorem isDigit_of_mem_intText {n : ℤ} {c : Char} (h : c ∈ (toString n).toList) :
    c = '-' ∨ c.isDigit = true := by
  rw [toList_intText] at h
  cases n with
  | ofNat m => exact Or.inr (Nat.isDigit_of_mem_toDigits (by decide) (by decide) h)
  | negSucc m =>
      rcases List.mem_cons.mp h with rfl | h
      · exact Or.inl rfl
      · exact Or.inr (Nat.isDigit_of_mem_toDigits (by decide) (by decide) h)

theorem minus_not_mem_digits (m : Nat) : '-' ∉ Nat.toDigits 10 m := by
  intro h
  exact absurd (Nat.isDigit_of_mem_toDigits (by decide) (by decide) h) (by decide)

theorem intText_injective : Function.Injective fun n : ℤ => toString n := by
  intro m n h
  have hchars := congrArg String.toList h
  dsimp only at hchars
  rw [toList_intText, toList_intText] at hchars
  cases m with
  | ofNat a =>
      cases n with
      | ofNat b => rw [digits_injective hchars]
      | negSucc b =>
          have hminus : '-' ∈ Nat.toDigits 10 a := by
            have hcons : Nat.toDigits 10 a = '-' :: Nat.toDigits 10 (b + 1) := hchars
            rw [hcons]
            exact List.mem_cons_self
          exact absurd hminus (minus_not_mem_digits a)
  | negSucc a =>
      cases n with
      | ofNat b =>
          have hminus : '-' ∈ Nat.toDigits 10 b := by
            have hcons : '-' :: Nat.toDigits 10 (a + 1) = Nat.toDigits 10 b := hchars
            rw [← hcons]
            exact List.mem_cons_self
          exact absurd hminus (minus_not_mem_digits b)
      | negSucc b =>
          have hdigits := digits_injective (List.cons.inj hchars).2
          rw [Nat.succ.inj hdigits]

end Numbers

def asciiQuote (s : String) : String :=
  let delimiter := if s.toList.contains '\'' && !s.toList.contains '"' then '"' else '\''
  let escaped := s.toList.flatMap fun c =>
    if c = delimiter ∨ c = '\\' then ['\\', c] else [c]
  String.ofList (delimiter :: escaped ++ [delimiter])

mutual

def asciiRepr : Json → String
  | .null => "None"
  | .bool b => if b then "True" else "False"
  | .int n => toString n
  | .float (.finite q) => formatFixed 1 q
  | .float .inf => "inf"
  | .float .negInf => "-inf"
  | .float .nan => "nan"
  | .str s => asciiQuote s
  | .arr items => "[" ++ join ", " (asciiReprItems items) ++ "]"
  | .obj fields => "\x7b" ++ join ", " (asciiReprFields fields) ++ "\x7d"

def asciiReprItems : List Json → List String
  | [] => []
  | v :: rest => asciiRepr v :: asciiReprItems rest

def asciiReprFields : List (String × Json) → List String
  | [] => []
  | (key, v) :: rest => (asciiQuote key ++ ": " ++ asciiRepr v) :: asciiReprFields rest

end

end Json

/-- CPython on ASCII text and floats of one decimal. -/
@[reducible] def Runtime.ascii : Runtime where
  lower s := String.ofList (s.toList.map Char.toLower)
  isWord c := c.isAlphanum || c = '_'
  decimal c := if Json.isDigit c then some (c.toNat - 48) else none
  floatRepr := formatFixed 1
  str := Json.asciiRepr
  repr := Json.asciiRepr
  maxDepth := 1000

end Py
