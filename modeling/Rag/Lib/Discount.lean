import Mathlib.Algebra.BigOperators.Group.Finset.Piecewise
import Mathlib.Algebra.Order.BigOperators.Group.Finset
import Mathlib.Algebra.Order.Group.Defs

/-!
Sums of positive, decreasing weights over sets of positions.

A set of positions is weighed against the first `m`. What both have in common cancels, so what
decides is how the positions behind the first `m` compare with those of the first `m` that are
missing. A set of at most `m` positions never has the advantage.
-/

namespace Discount

open Finset

variable {K : Type*} [AddCommGroup K] [LinearOrder K] [IsOrderedAddMonoid K] {w : ℕ → K}
  {hits : Finset ℕ} {m : ℕ}

/-- The positions behind the first `m`, if any, weigh less than the missing ones. -/
def Outweighed (w : ℕ → K) (m : ℕ) (hits : Finset ℕ) : Prop :=
  hits \ range m = ∅ ∨ ∑ i ∈ hits \ range m, w i < ∑ i ∈ range m \ hits, w i

theorem sum_eq_zero_iff (hpos : ∀ i, 0 < w i) (s : Finset ℕ) : ∑ i ∈ s, w i = 0 ↔ s = ∅ := by
  constructor
  · intro hsum
    by_contra hne
    have hlt := sum_pos (fun i _ => hpos i) (nonempty_iff_ne_empty.mpr hne)
    rw [hsum] at hlt
    exact lt_irrefl _ hlt
  · intro hempty
    rw [hempty, sum_empty]

theorem range_subset_iff : range m ⊆ hits ↔ range m \ hits = ∅ :=
  sdiff_eq_empty_iff_subset.symm

omit [LinearOrder K] [IsOrderedAddMonoid K] in
/-- The common positions cancel. -/
theorem sum_sub_sum (w : ℕ → K) (m : ℕ) (hits : Finset ℕ) :
    ∑ i ∈ hits, w i - ∑ i ∈ range m, w i
      = ∑ i ∈ hits \ range m, w i - ∑ i ∈ range m \ hits, w i := by
  have hhits := sum_inter_add_sum_sdiff hits (range m) w
  have hfirst := sum_inter_add_sum_sdiff (range m) hits w
  rw [inter_comm] at hfirst
  rw [← hhits, ← hfirst, add_sub_add_left_eq_sub]

/-- No more than the first `m` weigh, and as much only with all of them. -/
theorem sum_le_and_eq_iff (hpos : ∀ i, 0 < w i) :
    ((∑ i ∈ hits, w i ≤ ∑ i ∈ range m, w i)
      ∧ (∑ i ∈ hits, w i = ∑ i ∈ range m, w i ↔ range m ⊆ hits)) ↔ Outweighed w m hits := by
  have hlate := sum_eq_zero_iff hpos (hits \ range m)
  have hmissing := sum_eq_zero_iff hpos (range m \ hits)
  have hnonneg : 0 ≤ ∑ i ∈ range m \ hits, w i := sum_nonneg fun i _ => (hpos i).le
  rw [← sub_nonpos, ← sub_eq_zero, sum_sub_sum, sub_nonpos, sub_eq_zero, range_subset_iff,
    Outweighed, ← hlate, ← hmissing]
  constructor
  · intro h
    obtain ⟨hle, heq⟩ := h
    by_cases hsame : ∑ i ∈ hits \ range m, w i = ∑ i ∈ range m \ hits, w i
    · left
      rw [hsame]
      exact heq.mp hsame
    · right
      exact lt_of_le_of_ne hle hsame
  · intro h
    cases h with
    | inl hzero =>
        rw [hzero]
        exact ⟨hnonneg, eq_comm⟩
    | inr hlt =>
        constructor
        · exact hlt.le
        · constructor
          · intro hsame
            exact absurd hsame hlt.ne
          · intro hzero
            have hlow : 0 ≤ ∑ i ∈ hits \ range m, w i := sum_nonneg fun i _ => (hpos i).le
            rw [hzero] at hlt
            exact absurd hlow (not_le.mpr hlt)

omit [IsOrderedAddMonoid K] in
theorem outweighed_of_subset_range (h : hits ⊆ range m) : Outweighed w m hits := by
  left
  rw [sdiff_eq_empty_iff_subset]
  exact h

/-- Fewer positions that leave the same ones missing. -/
theorem Outweighed.subset (hpos : ∀ i, 0 < w i) {fewer : Finset ℕ} (h : Outweighed w m hits)
    (hsub : fewer ⊆ hits) (hsame : range m \ fewer = range m \ hits) : Outweighed w m fewer := by
  have hlate : fewer \ range m ⊆ hits \ range m := sdiff_subset_sdiff hsub subset_rfl
  cases h with
  | inl hnone =>
      left
      rw [hnone] at hlate
      exact subset_empty.mp hlate
  | inr hlt =>
      right
      rw [hsame]
      apply lt_of_le_of_lt _ hlt
      apply sum_le_sum_of_subset_of_nonneg hlate
      intro i _ _
      exact (hpos i).le

/-- As many positions as there are places: what stands behind is made up for by what is missing. -/
theorem outweighed_of_card_le (hpos : ∀ i, 0 < w i) (hanti : StrictAnti w)
    (hcard : hits.card ≤ m) : Outweighed w m hits := by
  by_cases hempty : hits \ range m = ∅
  · left
    exact hempty
  · right
    have hhits := card_inter_add_card_sdiff hits (range m)
    have hfirst := card_inter_add_card_sdiff (range m) hits
    rw [inter_comm, card_range] at hfirst
    have hfew : (hits \ range m).card ≤ (range m \ hits).card := by omega
    have hsome : (range m \ hits).Nonempty := by
      have hlate := card_pos.mpr (nonempty_iff_ne_empty.mpr hempty)
      apply card_pos.mp
      omega
    calc ∑ i ∈ hits \ range m, w i
        ≤ (hits \ range m).card • w m := by
          apply sum_le_card_nsmul
          intro i hi
          apply hanti.antitone
          have hbehind := (mem_sdiff.mp hi).2
          rw [mem_range] at hbehind
          omega
      _ ≤ (range m \ hits).card • w m := nsmul_le_nsmul_left (hpos m).le hfew
      _ = ∑ i ∈ range m \ hits, w m := (sum_const _).symm
      _ < ∑ i ∈ range m \ hits, w i := by
          apply sum_lt_sum_of_nonempty hsome
          intro i hi
          apply hanti
          exact mem_range.mp (mem_sdiff.mp hi).1

end Discount
