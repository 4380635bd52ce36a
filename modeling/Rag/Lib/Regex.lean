import Rag.Lib.Json

/-!
The fragment of Python's `re` that flat patterns use: character classes with greedy
bounded repetition, and word boundaries, matched with backtracking from the left.
-/

namespace Py

namespace Regex

/-- One item of a flat pattern. -/
inductive Item where
  /-- `\b` -/
  | boundary
  /-- `[..]{lo,hi}`; no upper bound is `none` -/
  | rep (cls : Char → Bool) (lo : Nat) (hi : Option Nat)

/-- One occurrence of `c`. -/
def Item.char (c : Char) : Item := .rep (· == c) 1 (some 1)

/-- Exactly `n` characters of a class. -/
def Item.times (cls : Char → Bool) (n : Nat) : Item := .rep cls n (some n)

/-- Greedy repetition: take as much as the class and the bound allow, then give back
one character at a time until `rest` matches. -/
def repeatMatch (cls : Char → Bool) (rest : Option Char → List Char → Option (List Char)) :
    Nat → Option Nat → Option Char → List Char → Option (List Char)
  | lo, hi, previous, c :: cs =>
      let longer :=
        if cls c && hi != some 0 then
          repeatMatch cls rest (lo - 1) (hi.map (· - 1)) (some c) cs
        else none
      match longer with
      | some tail => some tail
      | none => if lo = 0 then rest previous (c :: cs) else none
  | lo, _, previous, [] => if lo = 0 then rest previous [] else none

def isWordAt [Runtime] : Option Char → Bool
  | some c => Runtime.isWord c
  | none => false

/-- What is left of the text after the longest match in backtracking order. `previous`
is the character before the position. -/
def matchItems [Runtime] : List Item → Option Char → List Char → Option (List Char)
  | [], _, cs => some cs
  | .boundary :: items, previous, cs =>
      if isWordAt previous != isWordAt cs.head? then matchItems items previous cs else none
  | .rep cls lo hi :: items, previous, cs =>
      repeatMatch cls (matchItems items) lo hi previous cs

/-- Replace the matches from left to right; `skip` characters belong to the match that
has just been replaced. Patterns here match no empty text. -/
def subFrom [Runtime] (pattern : List Item) (replacement : List Char) :
    Nat → Option Char → List Char → List Char
  | _, _, [] => []
  | skip + 1, _, c :: cs => subFrom pattern replacement skip (some c) cs
  | 0, previous, c :: cs =>
      match matchItems pattern previous (c :: cs) with
      | some tail => replacement ++ subFrom pattern replacement (cs.length - tail.length) (some c) cs
      | none => c :: subFrom pattern replacement 0 (some c) cs

/-- `pattern.sub(replacement, text)`. -/
def sub [Runtime] (pattern : List Item) (replacement text : String) : String :=
  String.ofList (subFrom pattern replacement.toList 0 none text.toList)

end Regex

end Py
