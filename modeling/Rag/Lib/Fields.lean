import Rag.Lib.Strip

/-!
The fields of a text: the runs of characters that are not whitespace.

`split()` returns all of them, and `split(None, 1)` the first and what follows it. Where that
cuts a text is characterised: whitespace, the first field, whitespace, and a rest that begins
with a field.
-/

namespace Py

/-- The fields from a position on, with the part of a field that has been read, reversed. -/
def fieldsFrom (read : List Char) : List Char → List (List Char)
  | [] => if read = [] then [] else [read.reverse]
  | c :: rest =>
      if isSpace c then
        if read = [] then fieldsFrom [] rest else read.reverse :: fieldsFrom [] rest
      else fieldsFrom (c :: read) rest

/-- `s.split()` -/
def fields (s : String) : List String := (fieldsFrom [] s.toList).map String.ofList

/-- `s.split(None, 1)` -/
def splitOnce (s : String) : List String :=
  let rest := s.toList.dropWhile isSpace
  let field := rest.takeWhile fun c => !isSpace c
  let tail := (rest.dropWhile fun c => !isSpace c).dropWhile isSpace
  if field = [] then []
  else if tail = [] then [String.ofList field]
  else [String.ofList field, String.ofList tail]

/-- `s.isascii()` -/
def isAscii (s : String) : Bool := s.toList.all fun c => c.toNat < 128

/-- The first field, the rest, and the whitespace before and between them. -/
structure Fielded (s : List Char) (before field gap tail : List Char) : Prop where
  laid : s = before ++ (field ++ (gap ++ tail))
  before_blank : ∀ c ∈ before, isSpace c = true
  field_word : ∀ c ∈ field, isSpace c = false
  field_ne : field ≠ []
  gap_blank : ∀ c ∈ gap, isSpace c = true
  gap_ne : gap ≠ []
  tail_word : ∀ c ∈ tail.head?, isSpace c = false
  tail_ne : tail ≠ []

theorem takeWhile_word {field gap tail : List Char} (hfield : ∀ c ∈ field, isSpace c = false)
    (hgap : ∀ c ∈ gap, isSpace c = true) (hne : gap ≠ []) :
    (field ++ (gap ++ tail)).takeWhile (fun c => !isSpace c) = field
      ∧ (field ++ (gap ++ tail)).dropWhile (fun c => !isSpace c) = gap ++ tail := by
  obtain ⟨c, rest, rfl⟩ := List.exists_cons_of_ne_nil hne
  have hc : isSpace c = true := hgap c List.mem_cons_self
  have hword : ∀ d ∈ field, (!isSpace d) = true := by
    intro d hd
    rw [hfield d hd]
    rfl
  rw [List.takeWhile_append_of_pos hword, List.dropWhile_append_of_pos hword]
  simp [hc]

theorem Fielded.splitOnce_eq {s : String} {before field gap tail : List Char}
    (h : Fielded s.toList before field gap tail) :
    splitOnce s = [String.ofList field, String.ofList tail] := by
  obtain ⟨c, rest, hfield⟩ := List.exists_cons_of_ne_nil h.field_ne
  have hhead : (field ++ (gap ++ tail)).dropWhile isSpace = field ++ (gap ++ tail) := by
    have hc : isSpace c = false := h.field_word c (by rw [hfield]; exact List.mem_cons_self)
    rw [hfield, List.cons_append]
    apply List.dropWhile_cons_of_neg
    simp [hc]
  have hrest : s.toList.dropWhile isSpace = field ++ (gap ++ tail) := by
    rw [h.laid, List.dropWhile_append_of_pos h.before_blank, hhead]
  obtain ⟨htake, hdrop⟩ := @takeWhile_word field gap tail h.field_word h.gap_blank h.gap_ne
  have htail : (gap ++ tail).dropWhile isSpace = tail := by
    rw [List.dropWhile_append_of_pos h.gap_blank, dropWhile_of_head h.tail_word]
  unfold splitOnce
  simp only [hrest, htake, hdrop, htail, if_neg h.field_ne, if_neg h.tail_ne]

theorem fielded_of_splitOnce {s a b : String} (h : splitOnce s = [a, b]) :
    ∃ before gap, Fielded s.toList before a.toList gap b.toList := by
  let rest := s.toList.dropWhile isSpace
  let field := rest.takeWhile fun c => !isSpace c
  let behind := rest.dropWhile fun c => !isSpace c
  have hsplit : (if field = [] then [] else if behind.dropWhile isSpace = [] then
      [String.ofList field] else [String.ofList field, String.ofList (behind.dropWhile isSpace)])
      = [a, b] := h
  by_cases hfield : field = []
  · rw [if_pos hfield] at hsplit
    cases hsplit
  rw [if_neg hfield] at hsplit
  by_cases htail : behind.dropWhile isSpace = []
  · rw [if_pos htail] at hsplit
    cases hsplit
  rw [if_neg htail] at hsplit
  simp only [List.cons.injEq, and_true] at hsplit
  obtain ⟨rfl, rfl⟩ := hsplit
  rw [String.toList_ofList, String.toList_ofList]
  refine ⟨s.toList.takeWhile isSpace, behind.takeWhile isSpace, ?_⟩
  constructor
  · have hrest : s.toList.takeWhile isSpace ++ rest = s.toList := List.takeWhile_append_dropWhile
    have hmiddle : field ++ behind = rest := List.takeWhile_append_dropWhile
    have hend : behind.takeWhile isSpace ++ behind.dropWhile isSpace = behind :=
      List.takeWhile_append_dropWhile
    rw [hend, hmiddle, hrest]
  · intro c hc
    exact List.mem_takeWhile_imp hc
  · intro c hc
    have hword := List.mem_takeWhile_imp hc
    simpa using hword
  · exact hfield
  · intro c hc
    exact List.mem_takeWhile_imp hc
  · -- what is behind the first field begins with whitespace
    intro hnil
    obtain ⟨c, more, hbehind⟩ : ∃ c more, behind = c :: more := by
      apply List.exists_cons_of_ne_nil
      intro hempty
      apply htail
      rw [hempty]
      rfl
    have hc : isSpace c = true := by
      have hhead := List.head?_dropWhile_not (fun c => !isSpace c) rest
      have hcons : rest.dropWhile (fun c => !isSpace c) = c :: more := hbehind
      rw [hcons] at hhead
      simpa using hhead
    rw [hbehind, List.takeWhile_cons_of_pos hc] at hnil
    cases hnil
  · exact head_of_dropWhile behind
  · exact htail

theorem stripChars_append_blank {cs after : List Char} (hcs : Trimmed cs) (hne : cs ≠ [])
    (hafter : ∀ c ∈ after, isSpace c = true) : stripChars (cs ++ after) = cs := by
  have hfirst : (cs ++ after).dropWhile isSpace = cs ++ after := by
    apply dropWhile_of_head
    intro c hc
    rw [List.head?_append_of_ne_nil _ hne] at hc
    exact hcs.first c hc
  have hback : (cs.reverse).dropWhile isSpace = cs.reverse := by
    apply dropWhile_of_head
    simpa using hcs.last
  have hblank : ∀ c ∈ after.reverse, isSpace c = true := by
    intro c hc
    exact hafter c (List.mem_reverse.mp hc)
  rw [stripChars, hfirst, List.reverse_append, List.dropWhile_append_of_pos hblank, hback,
    List.reverse_reverse]

end Py
