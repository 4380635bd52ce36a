import Rag.Lib.Regex

/-!
`rag.security.pii`: the three patterns and their replacements, applied in order.
-/

namespace Rag

open Py Py.Regex

def isAsciiAlpha (c : Char) : Bool :=
  (65 ≤ c.toNat && c.toNat ≤ 90) || (97 ≤ c.toNat && c.toNat ≤ 122)

def isAsciiAlnum (c : Char) : Bool := isAsciiAlpha c || Json.isDigit c

section Patterns

variable [Runtime]

/-- `\d` -/
def isDecimal (c : Char) : Bool := (Runtime.decimal c).isSome

def emailPattern : List Item :=
  [.boundary, .rep (fun c => isAsciiAlnum c || "._%+-".toList.contains c) 1 none, .char '@',
    .rep (fun c => isAsciiAlnum c || ".-".toList.contains c) 1 none, .char '.',
    .rep isAsciiAlpha 2 none, .boundary]

/-- `[-.]?` -/
def phoneSeparator : Item := .rep (fun c => c = '-' || c = '.') 0 (some 1)

def phonePattern : List Item :=
  [.boundary, .times isDecimal 3, phoneSeparator, .times isDecimal 3, phoneSeparator,
    .times isDecimal 4, .boundary]

def ssnPattern : List Item :=
  [.boundary, .times isDecimal 3, .char '-', .times isDecimal 2, .char '-',
    .times isDecimal 4, .boundary]

def patterns : List (List Item × String) :=
  [(emailPattern, "[REDACTED_EMAIL]"), (phonePattern, "[REDACTED_PHONE]"),
    (ssnPattern, "[REDACTED_SSN]")]

/-- Redact common PII patterns from text. -/
def redactPii (text : String) : String :=
  patterns.foldl (fun result p => sub p.1 p.2 result) text

end Patterns

end Rag
