import Rag.Lib.Text
import Mathlib.Data.List.TakeWhile

/-!
What `str.strip` takes off and what it leaves.

A text is whitespace, a trimmed middle and whitespace again, and `strip` returns the
middle. Stripping twice is therefore stripping once.
-/

namespace Py

/-- Neither the first nor the last character is whitespace. -/
structure Trimmed (cs : List Char) : Prop where
  first : ∀ c ∈ cs.head?, isSpace c = false
  last : ∀ c ∈ cs.getLast?, isSpace c = false

theorem dropWhile_of_head {cs : List Char} (h : ∀ c ∈ cs.head?, isSpace c = false) :
    cs.dropWhile isSpace = cs := by
  cases cs with
  | nil => rfl
  | cons c cs =>
      apply List.dropWhile_cons_of_neg
      simp [h c rfl]

theorem head_of_dropWhile (cs : List Char) :
    ∀ c ∈ (cs.dropWhile isSpace).head?, isSpace c = false := by
  intro c hc
  have hhead := List.head?_dropWhile_not isSpace cs
  rw [hc] at hhead
  exact hhead

theorem stripChars_of_trimmed {cs : List Char} (h : Trimmed cs) : stripChars cs = cs := by
  have hlast : ∀ c ∈ cs.reverse.head?, isSpace c = false := by
    simpa using h.last
  rw [stripChars, dropWhile_of_head h.first, dropWhile_of_head hlast, List.reverse_reverse]

/-- The whitespace in front, the middle, and the whitespace behind. -/
theorem stripChars_split (cs : List Char) :
    ∃ before after, cs = before ++ stripChars cs ++ after
      ∧ (∀ c ∈ before, isSpace c = true) ∧ ∀ c ∈ after, isSpace c = true := by
  let rest := cs.dropWhile isSpace
  refine ⟨cs.takeWhile isSpace, (rest.reverse.takeWhile isSpace).reverse, ?_, ?_, ?_⟩
  · have hback : rest = stripChars cs ++ (rest.reverse.takeWhile isSpace).reverse := by
      rw [stripChars, ← List.reverse_append, List.takeWhile_append_dropWhile,
        List.reverse_reverse]
    rw [List.append_assoc, ← hback, List.takeWhile_append_dropWhile]
  · intro c hc
    exact List.mem_takeWhile_imp hc
  · intro c hc
    exact List.mem_takeWhile_imp (List.mem_reverse.mp hc)

theorem stripChars_trimmed (cs : List Char) : Trimmed (stripChars cs) := by
  constructor
  · -- the middle is what is left of a text that starts with no whitespace
    intro c hc
    have hrest := head_of_dropWhile cs
    have hback := List.takeWhile_append_dropWhile (p := isSpace)
      (l := (cs.dropWhile isSpace).reverse)
    have hfront : cs.dropWhile isSpace = stripChars cs
        ++ ((cs.dropWhile isSpace).reverse.takeWhile isSpace).reverse := by
      rw [stripChars, ← List.reverse_append, hback, List.reverse_reverse]
    apply hrest
    rw [hfront, List.head?_append, hc]
    rfl
  · intro c hc
    rw [stripChars, List.getLast?_reverse] at hc
    exact head_of_dropWhile _ c hc

theorem strip_strip (s : String) : strip (strip s) = strip s := by
  rw [strip, strip, String.toList_ofList, stripChars_of_trimmed (stripChars_trimmed _)]

end Py
