import Mathlib.Data.List.Basic
import Mathlib.Data.List.TakeWhile
import Mathlib.Data.Rat.Defs
import Mathlib.Data.Finset.Sort
import Mathlib.Data.String.Basic

/-!
The parts of Python's string and sequence behaviour that programs modelled here rely
on: slices with signed bounds, `strip`, stable descending sorts, fixed-point
formatting, and `sep.join`, whose ambiguity is characterised at the end.

Strings are sequences of Unicode scalar values. A lone surrogate, which Python admits
in a `str`, has no counterpart.
-/

namespace Py

/-- `xs[:n]`: a negative bound counts from the end. -/
def takeInt {α : Type} (n : ℤ) (xs : List α) : List α :=
  if 0 ≤ n then xs.take n.toNat else xs.take (xs.length - n.natAbs)

theorem takeInt_subset {α : Type} (n : ℤ) (xs : List α) : takeInt n xs ⊆ xs := by
  unfold takeInt
  split <;> exact List.take_subset _ _

/-- `s[:n]` on a string. -/
def slice (n : ℤ) (s : String) : String := String.ofList (takeInt n s.toList)

/-- The characters `str.isspace` accepts, which are also those of `\s`. -/
def isSpace (c : Char) : Bool :=
  let n := c.toNat
  (9 ≤ n && n ≤ 13) || (28 ≤ n && n ≤ 32) || n == 0x85 || n == 0xa0 || n == 0x1680 ||
    (0x2000 ≤ n && n ≤ 0x200a) || n == 0x2028 || n == 0x2029 || n == 0x202f ||
    n == 0x205f || n == 0x3000

def stripChars (cs : List Char) : List Char :=
  ((cs.dropWhile isSpace).reverse.dropWhile isSpace).reverse

/-- `s.strip()`. -/
def strip (s : String) : String := String.ofList (stripChars s.toList)

/-- Collapse every run of whitespace to one space; `inRun` remembers that the run the
scan is in has already been written. -/
def collapseSpace (inRun : Bool) : List Char → List Char
  | [] => []
  | c :: rest =>
      if isSpace c then
        if inRun then collapseSpace true rest else ' ' :: collapseSpace true rest
      else c :: collapseSpace false rest

/-- `re.sub(r"\s+", " ", s)`. -/
def collapse (s : String) : String := String.ofList (collapseSpace false s.toList)

/-- `s.startswith(t)`. -/
def startsWith (s t : String) : Bool := t.toList.isPrefixOf s.toList

/-- `s.removeprefix(t)`. -/
def removePrefix (s t : String) : String :=
  if startsWith s t then String.ofList (s.toList.drop t.toList.length) else s

@[simp] theorem removePrefix_append (s t : String) : removePrefix (t ++ s) t = s := by
  have hstarts : startsWith (t ++ s) t = true := by
    simp [startsWith, String.toList_append]
  rw [removePrefix, if_pos hstarts, String.toList_append, List.drop_left, String.ofList_toList]

/-- `t in s`. -/
def contains (s t : String) : Bool := s.toList.tails.any fun tail => t.toList.isPrefixOf tail

/-- `sorted(xs, key=key, reverse=True)`: descending, equal keys in their given order. -/
def sortedDesc {α K : Type} [LinearOrder K] (key : α → K) (xs : List α) : List α :=
  xs.insertionSort fun a b => key b ≤ key a

theorem sortedDesc_perm {α K : Type} [LinearOrder K] (key : α → K) (xs : List α) :
    (sortedDesc key xs).Perm xs :=
  List.perm_insertionSort _ _

theorem mem_sortedDesc {α K : Type} [LinearOrder K] {key : α → K} {xs : List α} {a : α} :
    a ∈ sortedDesc key xs ↔ a ∈ xs :=
  (sortedDesc_perm key xs).mem_iff

theorem sortedDesc_pairwise {α K : Type} [LinearOrder K] (key : α → K) (xs : List α) :
    (sortedDesc key xs).Pairwise fun a b => key b ≤ key a := by
  have htotal : Std.Total fun a b : α => key b ≤ key a := ⟨fun a b => le_total (key b) (key a)⟩
  have htrans : IsTrans α fun a b => key b ≤ key a := ⟨fun _ _ _ hab hbc => hbc.trans hab⟩
  exact List.pairwise_insertionSort _ xs

/-- `|x| * 10 ^ digits` rounded half to even. -/
def scaled (digits : Nat) (x : ℚ) : Nat :=
  let n := x.num.natAbs * 10 ^ digits
  let q := n / x.den
  let r := n % x.den
  if 2 * r < x.den then q else if x.den < 2 * r then q + 1 else q + q % 2

/-- `f"{x:.{digits}f}"`. -/
def formatFixed (digits : Nat) (x : ℚ) : String :=
  let m := scaled digits x
  let fraction := toString (m % 10 ^ digits)
  let padded := String.ofList (List.replicate (digits - fraction.length) '0') ++ fraction
  (if x < 0 then "-" else "") ++ toString (m / 10 ^ digits) ++ "." ++ padded

/-- `sep.join(parts)`. -/
def join (sep : String) (parts : List String) : String := sep.intercalate parts

/-- `sorted(names)` of a set of strings: by code points. -/
def sortedNames (names : Finset String) : List String := names.sort (· ≤ ·)

theorem sortedNames_injective : Function.Injective sortedNames := by
  intro s t h
  have hs := congrArg List.toFinset h
  simpa [sortedNames] using hs

theorem sortedNames_toFinset {names : List String} (hnodup : names.Nodup)
    (hsorted : names.Pairwise (· ≤ ·)) : sortedNames names.toFinset = names :=
  (List.toFinset_sort (· ≤ ·) hnodup).mpr hsorted

theorem join_cons_inj (sep a b : String) (rest : List String) :
    join sep (a :: rest) = join sep (b :: rest) ↔ a = b := by
  cases rest with
  | nil => simp [join]
  | cons c rest =>
      rw [join, join, String.intercalate_cons_cons, String.intercalate_cons_cons]
      simp [String.append_assoc]

/-- The pieces between separators that joining `parts` with the one-character separator `sep`
leaves: all that survives of the parts. No part at all leaves the same piece as one empty part. -/
def pieces (sep : Char) (parts : List String) : List (List Char) :=
  if parts = [] then [[]] else parts.flatMap fun p => p.toList.splitOn sep

theorem splitOn_intercalate_flatMap (sep : Char) (parts : List (List Char)) (h : parts ≠ []) :
    ([sep].intercalate parts).splitOn sep = parts.flatMap fun p => p.splitOn sep := by
  induction parts with
  | nil => exact absurd rfl h
  | cons p parts ih =>
      cases parts with
      | nil => simp
      | cons q rest =>
          rw [List.intercalate_cons_cons, List.append_assoc, List.singleton_append,
            List.splitOn_append_cons_self, ih (by simp)]
          rfl

theorem toList_join (sep : Char) (parts : List String) :
    (join (String.singleton sep) parts).toList
      = [sep].intercalate (parts.map String.toList) := by
  rw [join, String.toList_intercalate, String.toList_singleton]

theorem splitOn_join (sep : Char) (parts : List String) :
    (join (String.singleton sep) parts).toList.splitOn sep = pieces sep parts := by
  rw [toList_join, pieces]
  split_ifs with h
  · subst h
    rfl
  · rw [splitOn_intercalate_flatMap _ _ (by simpa using h), List.flatMap_map]

theorem join_eq_join_iff (sep : Char) (ps qs : List String) :
    join (String.singleton sep) ps = join (String.singleton sep) qs
      ↔ pieces sep ps = pieces sep qs := by
  rw [← splitOn_join, ← splitOn_join]
  constructor
  · intro h
    rw [h]
  · intro h
    have hjoin := congrArg ([sep].intercalate ·) h
    simpa only [List.intercalate_splitOn, String.toList_inj] using hjoin

/-- Names that neither are empty nor contain the separator are recovered. -/
theorem pieces_of_clean {sep : Char} {parts : List String}
    (h : ∀ p ∈ parts, sep ∉ p.toList ∧ p ≠ "") :
    pieces sep parts = if parts = [] then [[]] else parts.map String.toList := by
  rw [pieces]
  split_ifs
  · rfl
  · induction parts with
    | nil => rfl
    | cons p rest ih =>
        have hp := h p List.mem_cons_self
        rw [List.flatMap_cons, List.splitOn_eq_singleton hp.1, List.map_cons]
        cases rest with
        | nil => rfl
        | cons q rest =>
            rw [ih (fun r hr => h r (List.mem_cons_of_mem _ hr)) (by simp)]
            rfl

theorem pieces_injOn_clean {sep : Char} {ps qs : List String}
    (hp : ∀ p ∈ ps, sep ∉ p.toList ∧ p ≠ "") (hq : ∀ q ∈ qs, sep ∉ q.toList ∧ q ≠ "")
    (h : pieces sep ps = pieces sep qs) : ps = qs := by
  rw [pieces_of_clean hp, pieces_of_clean hq] at h
  have hne : ∀ rs : List String, (∀ r ∈ rs, sep ∉ r.toList ∧ r ≠ "") → rs ≠ [] →
      rs.map String.toList ≠ [[]] := by
    intro rs hrs hcons hnil
    obtain ⟨r, rfl⟩ : ∃ r, rs = [r] :=
      List.length_eq_one_iff.mp (by simpa using congrArg List.length hnil)
    have hr := (hrs r List.mem_cons_self).2
    exact hr (String.toList_inj.mp (by simpa using hnil))
  split_ifs at h with h₁ h₂ h₂
  · rw [h₁, h₂]
  · exact absurd h.symm (hne qs hq h₂)
  · exact absurd h (hne ps hp h₁)
  · exact List.map_injective_iff.mpr (fun a b => String.toList_inj.mp) h

theorem contains_iff (s t : String) : contains s t = true ↔ t.toList <:+: s.toList := by
  rw [contains, List.any_eq_true, List.infix_iff_prefix_suffix]
  constructor
  · rintro ⟨tail, htail, hstart⟩
    exact ⟨tail, by simpa using hstart, (List.mem_tails _ _).mp htail⟩
  · rintro ⟨tail, hstart, htail⟩
    exact ⟨tail, (List.mem_tails _ _).mpr htail, by simpa using hstart⟩

/-- What stands before and after the last occurrence of `sep`, if there is one. -/
def cutLast (sep : List Char) : List Char → Option (List Char × List Char)
  | [] => none
  | c :: rest =>
      match cutLast sep rest with
      | some (before, after) => some (c :: before, after)
      | none => if sep.isPrefixOf (c :: rest) then some ([], (c :: rest).drop sep.length) else none

/-- `s.rsplit(sep, 1)` -/
def rsplit (s sep : String) : List String :=
  match cutLast sep.toList s.toList with
  | some (before, after) => [String.ofList before, String.ofList after]
  | none => [s]

theorem cutLast_append {sep before after : List Char} {s : List Char}
    (h : cutLast sep s = some (before, after)) (front : List Char) :
    cutLast sep (front ++ s) = some (front ++ before, after) := by
  induction front with
  | nil => exact h
  | cons c front ih => rw [List.cons_append, cutLast, ih, List.cons_append]

theorem cutLast_eq_none_iff {sep : List Char} (hsep : sep ≠ []) (s : List Char) :
    cutLast sep s = none ↔ ¬ sep <:+: s := by
  induction s with
  | nil => simp [cutLast, hsep]
  | cons c rest ih =>
      rw [cutLast, List.infix_cons_iff, not_or, ← ih]
      cases hrest : cutLast sep rest with
      | some parts => simp
      | none => simp [ List.isPrefixOf_iff_prefix]

theorem cutLast_length {sep s before after : List Char}
    (h : cutLast sep s = some (before, after)) :
    before.length + sep.length + after.length = s.length := by
  induction s generalizing before with
  | nil => cases h
  | cons c rest ih =>
      rw [cutLast] at h
      cases hrest : cutLast sep rest with
      | some parts =>
          obtain ⟨b, a⟩ := parts
          rw [hrest] at h
          cases h
          have hlen := ih hrest
          rw [List.length_cons, List.length_cons]
          omega
      | none =>
          rw [hrest] at h
          dsimp only at h
          split_ifs at h with hstart
          cases h
          have hle := ( List.isPrefixOf_iff_prefix.mp hstart).length_le
          rw [List.length_drop, List.length_nil]
          omega

/-- The separator put between two texts is the last one exactly when it does not occur
again further right. -/
theorem cutLast_joined_iff {sep : List Char} (hsep : sep ≠ []) (before after : List Char) :
    cutLast sep (before ++ (sep ++ after)) = some (before, after)
      ↔ ¬ sep <:+: (sep ++ after).tail := by
  obtain ⟨c, sep', rfl⟩ := List.exists_cons_of_ne_nil hsep
  rw [← cutLast_eq_none_iff hsep, List.cons_append, List.tail_cons]
  cases hrest : cutLast (c :: sep') (sep' ++ after) with
  | none =>
      have hcut : cutLast (c :: sep') (c :: (sep' ++ after)) = some ([], after) := by
        rw [cutLast, hrest]
        simp
      simpa using cutLast_append hcut before
  | some parts =>
      obtain ⟨b, a⟩ := parts
      have hcut : cutLast (c :: sep') (c :: (sep' ++ after)) = some (c :: b, a) := by
        rw [cutLast, hrest]
      rw [cutLast_append hcut before]
      simp

/-- Where `t` begins for the first time. -/
def firstIndex (t : List Char) : List Char → Option Nat
  | [] => if t = [] then some 0 else none
  | c :: s => if t.isPrefixOf (c :: s) then some 0 else (firstIndex t s).map (· + 1)

/-- `s.find(t, start)` -/
def find (s t : String) (start : Nat) : Option Nat :=
  if s.length < start then none
  else (firstIndex t.toList (s.toList.drop start)).map (start + ·)

/-- Put a character in front of the first piece. -/
def consFirst (c : Char) : List (List Char) → List (List Char)
  | [] => [[c]]
  | p :: ps => (c :: p) :: ps

/-- The pieces between the occurrences of `sep`, from left to right; `skip` characters belong
to the occurrence that has just been found. -/
def cutAt (sep : List Char) : Nat → List Char → List (List Char)
  | _, [] => [[]]
  | skip + 1, _ :: s => cutAt sep skip s
  | 0, c :: s =>
      if sep.isPrefixOf (c :: s) then [] :: cutAt sep (sep.length - 1) s
      else consFirst c (cutAt sep 0 s)

/-- `s.split(sep)` for a separator that is not empty -/
def split (s sep : String) : List String := (cutAt sep.toList 0 s.toList).map String.ofList

/-- The position a signed slice bound stands for. -/
def sliceBound (length : Nat) (i : ℤ) : Nat :=
  if 0 ≤ i then min i.toNat length else length - i.natAbs

/-- `s[i:j]` -/
def sliceBetween (i j : ℤ) (s : String) : String :=
  String.ofList ((s.toList.take (sliceBound s.length j)).drop (sliceBound s.length i))

/-- `range(0, stop, step)` for a positive step -/
def rangeStep (stop step : Nat) : List Nat :=
  (List.range ((stop + step - 1) / step)).map (· * step)

/-- `strip` leaves nothing exactly of what is all whitespace. -/
theorem strip_ne_empty_iff (s : String) :
    strip s ≠ "" ↔ ∃ c ∈ s.toList, isSpace c = false := by
  have hempty : strip s = "" ↔ ∀ c ∈ s.toList, isSpace c = true := by
    rw [strip, stripChars, String.ofList_eq_empty_iff, List.reverse_eq_nil_iff,
      List.dropWhile_eq_nil_iff]
    constructor
    · intro h
      by_contra hspace
      push Not at hspace
      obtain ⟨c, hc, hword⟩ := hspace
      have hkept : (s.toList.dropWhile isSpace) ≠ [] := by
        intro hnil
        exact hword (List.dropWhile_eq_nil_iff.mp hnil c hc)
      have hhead := List.head_dropWhile_not isSpace hkept
      have hall := h _ (List.mem_reverse.mpr (List.head_mem hkept))
      rw [hall] at hhead
      cases hhead
    · intro h c hc
      exact h c ((List.dropWhile_sublist _).mem (List.mem_reverse.mp hc))
  rw [ne_eq, hempty]
  push Not
  simp

/-- What `strip` leaves ends in a character that is not whitespace. -/
theorem exists_word_of_strip {s : String} (h : strip s ≠ "") :
    ∃ c ∈ (strip s).toList, isSpace c = false := by
  have hkept : (s.toList.dropWhile isSpace).reverse.dropWhile isSpace ≠ [] := by
    intro hnil
    apply h
    rw [strip, stripChars, hnil]
    rfl
  refine ⟨_, ?_, List.head_dropWhile_not isSpace hkept⟩
  rw [strip, stripChars, String.toList_ofList, List.mem_reverse]
  exact List.head_mem hkept

theorem mem_toList_join {sep s : String} {parts : List String} (hs : s ∈ parts) {c : Char}
    (hc : c ∈ s.toList) : c ∈ (join sep parts).toList := by
  rw [join, String.toList_intercalate]
  induction parts with
  | nil => cases hs
  | cons p rest ih =>
      cases rest with
      | nil =>
          rw [List.mem_singleton] at hs
          subst hs
          simpa using hc
      | cons q rest =>
          rw [List.map_cons, List.map_cons, List.intercalate_cons_cons, List.mem_append,
            List.mem_append]
          rcases List.mem_cons.mp hs with rfl | hs
          · exact Or.inl (Or.inl hc)
          · exact Or.inr (ih hs)

end Py
