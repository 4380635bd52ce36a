import Mathlib.Data.List.Basic

/-!
Filling lines with parts, greedily.

A part is put at the end of the line so far, or opens a new line when the line cannot take it.
What comes of this is the only division of the parts into lines in which no part could have
opened a line earlier and every new line had to be opened (`fills_iff`).
-/

namespace Filling

variable {α : Type} (opens : List α → α → Prop)

/-- No part of the line, its first one apart, had to open a line. -/
def Taken (line : List α) : Prop :=
  ∀ front next later, line = front ++ next :: later → front ≠ [] → ¬ opens front next

/-- The parts, divided into lines of which each took what it could. -/
structure Fills (parts : List α) (lines : List (List α)) : Prop where
  flatten_eq : lines.flatten = parts
  nonempty : [] ∉ lines
  taken : ∀ line ∈ lines, Taken opens line
  opened : lines.IsChain fun line next => ∃ first ∈ next.head?, opens line first

section Taken

variable {opens} {line : List α} {part : α}

theorem taken_singleton (part : α) : Taken opens [part] := by
  intro front next later h hfront
  cases front with
  | nil => exact absurd rfl hfront
  | cons first front => simp at h

theorem taken_append (h : Taken opens line) (hpart : ¬ opens line part) :
    Taken opens (line ++ [part]) := by
  intro front next later heq hfront
  rcases List.eq_nil_or_concat later with rfl | ⟨before, last, rfl⟩
  · obtain ⟨rfl, hlast⟩ := List.append_inj' heq rfl
    cases hlast
    exact hpart
  · have hcut : line ++ [part] = (front ++ next :: before) ++ [last] := by simpa using heq
    exact h front next before (List.append_inj' hcut rfl).1 hfront

end Taken

section Lists

variable [∀ line part, Decidable (opens line part)]

/-- Fill lines, the first of which holds `line` already. -/
def fillFrom (line : List α) : List α → List (List α)
  | [] => [line]
  | part :: parts =>
      if opens line part then line :: fillFrom [part] parts else fillFrom (line ++ [part]) parts

def fill : List α → List (List α)
  | [] => []
  | part :: parts => fillFrom opens [part] parts

variable {opens} {line parts : List α}

/-- A line that takes nothing more is followed by what fills anew. -/
theorem fillFrom_of_opens (h : ∀ part, opens line part) (parts : List α) :
    fillFrom opens line parts = line :: fill opens parts := by
  cases parts with
  | nil => rfl
  | cons part parts => rw [fillFrom, if_pos (h part), fill]

/-- Filling begins with the line it is given. -/
theorem fillFrom_head (line parts : List α) :
    ∃ later rest, fillFrom opens line parts = (line ++ later) :: rest := by
  induction parts generalizing line with
  | nil => exact ⟨[], [], by simp [fillFrom]⟩
  | cons part parts ih =>
      rw [fillFrom]
      split_ifs
      · exact ⟨[], fillFrom opens [part] parts, by simp⟩
      · obtain ⟨later, rest, h⟩ := ih (line ++ [part])
        exact ⟨part :: later, rest, by simp [h]⟩

theorem fillFrom_fills (hline : line ≠ []) (htaken : Taken opens line) :
    Fills opens (line ++ parts) (fillFrom opens line parts) := by
  induction parts generalizing line with
  | nil =>
      refine ⟨by simp [fillFrom], ?_, ?_, .singleton _⟩
      · simpa [fillFrom] using hline.symm
      · simpa [fillFrom] using htaken
  | cons part parts ih =>
      rw [fillFrom]
      split_ifs with hopens
      · have hrest := ih (List.cons_ne_nil part []) (taken_singleton part)
        refine ⟨by simp [hrest.flatten_eq], ?_, ?_, ?_⟩
        · simpa [hline.symm] using hrest.nonempty
        · intro l hl
          rcases List.mem_cons.mp hl with rfl | hl
          · exact htaken
          · exact hrest.taken l hl
        · obtain ⟨later, rest, hhead⟩ : ∃ later rest,
              fillFrom opens [part] parts = ([part] ++ later) :: rest := fillFrom_head [part] parts
          have hopened := hrest.opened
          rw [hhead] at hopened ⊢
          exact List.isChain_cons_cons.mpr ⟨⟨part, rfl, hopens⟩, hopened⟩
      · have hrest := ih (by simp) (taken_append htaken hopens)
        simpa using hrest

theorem Fills.eq_fillFrom {later : List α} {rest : List (List α)} (hline : line ≠ [])
    (h : Fills opens (line ++ parts) ((line ++ later) :: rest)) :
    (line ++ later) :: rest = fillFrom opens line parts := by
  induction parts generalizing line later rest with
  | nil =>
      have hflat : later = [] ∧ rest.flatten = [] := by simpa using h.flatten_eq
      have hrest : rest = [] := by
        by_contra hsome
        obtain ⟨first, others, rfl⟩ := List.exists_cons_of_ne_nil hsome
        have hfirst : first = [] := List.flatten_eq_nil_iff.mp hflat.2 first List.mem_cons_self
        exact h.nonempty (by simp [hfirst])
      rw [hflat.1, hrest, List.append_nil, fillFrom]
  | cons part parts ih =>
      have hflat : later ++ rest.flatten = part :: parts := by simpa using h.flatten_eq
      cases later with
      | nil =>
          -- The line ends here, so the next one had to be opened.
          rw [List.append_nil] at h ⊢
          have hsome : rest ≠ [] := by
            rintro rfl
            simp at hflat
          obtain ⟨next, others, rfl⟩ := List.exists_cons_of_ne_nil hsome
          have hnext : next ≠ [] := by
            rintro rfl
            exact h.nonempty (by simp)
          obtain ⟨first, tail, rfl⟩ := List.exists_cons_of_ne_nil hnext
          obtain ⟨⟨_, hfirst, hopens⟩, hopened⟩ := List.isChain_cons_cons.mp h.opened
          cases hfirst
          simp only [List.flatten_cons, List.cons_append, List.nil_append] at hflat
          obtain ⟨rfl, htail⟩ := List.cons.inj hflat
          have hrest : Fills opens ([first] ++ parts) (([first] ++ tail) :: others) :=
            ⟨by simp [htail], fun hin => h.nonempty (List.mem_cons_of_mem _ hin),
              fun l hl => h.taken l (List.mem_cons_of_mem _ hl), hopened⟩
          rw [fillFrom, if_pos hopens]
          exact congrArg (line :: ·) (ih (List.cons_ne_nil first []) hrest)
      | cons first later =>
          obtain ⟨rfl, htail⟩ := List.cons.inj hflat
          have hopens := h.taken _ List.mem_cons_self line first later rfl hline
          rw [fillFrom, if_neg hopens]
          have hline' : line ++ first :: later = line ++ [first] ++ later := by simp
          rw [hline'] at h ⊢
          exact ih (by simp) (by simpa using h)

/-- Filling is the only division into lines that took what they could. -/
theorem fills_iff {lines : List (List α)} : Fills opens parts lines ↔ lines = fill opens parts := by
  cases parts with
  | nil =>
      constructor
      · intro h
        cases lines with
        | nil => rfl
        | cons line lines =>
            have hline : line = [] := List.flatten_eq_nil_iff.mp h.flatten_eq line List.mem_cons_self
            exact absurd (by simp [hline]) h.nonempty
      · rintro rfl
        exact ⟨rfl, by simp [fill], by simp [fill], .nil⟩
  | cons part parts =>
      constructor
      · intro h
        cases lines with
        | nil => cases h.flatten_eq
        | cons line lines =>
            have hline : line ≠ [] := by
              rintro rfl
              exact h.nonempty (by simp)
            obtain ⟨first, later, rfl⟩ := List.exists_cons_of_ne_nil hline
            obtain ⟨rfl, -⟩ := List.cons.inj h.flatten_eq
            have hfilled : Fills opens ([first] ++ parts) (([first] ++ later) :: lines) := h
            exact hfilled.eq_fillFrom (List.cons_ne_nil first [])
      · rintro rfl
        exact fillFrom_fills (by simp) (taken_singleton part)

end Lists

end Filling
