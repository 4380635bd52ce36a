import Mathlib.Data.List.Nodup
import Mathlib.Data.List.Dedup

/-!
What a list names, each name once and in the order in which it is first named.

`pick` says what an element names, if anything. The names come in the order of `firstAt`
(`firsts_pairwise`), and this is all there is to know about them: two ways of naming give the
same list when they name the same and the order of the one follows the order of the other
(`firsts_congr_of_order`).
-/

namespace Naming

variable {τ ρ : Type} [DecidableEq ρ]

/-- The names, each at its first occurrence. -/
def firsts (pick : τ → Option ρ) (xs : List τ) : List ρ := (xs.filterMap pick).eraseDups

/-- Where `r` is named for the first time; the length of the list if nowhere. -/
def firstAt (pick : τ → Option ρ) (r : ρ) (xs : List τ) : Nat := xs.findIdx fun x => pick x = some r

variable {pick other : τ → Option ρ} {xs : List τ} {r s : ρ}

theorem mem_firsts : r ∈ firsts pick xs ↔ ∃ x ∈ xs, pick x = some r := by
  rw [firsts, List.mem_eraseDups, List.mem_filterMap]

theorem firsts_cons_none {x : τ} (h : pick x = none) :
    firsts pick (x :: xs) = firsts pick xs := by
  rw [firsts, List.filterMap_cons_none h, firsts]

/-- What has been named is not named again. -/
theorem firsts_cons_some {x : τ} (h : pick x = some r) :
    firsts pick (x :: xs) = r :: firsts (fun x => (pick x).filter (· ≠ r)) xs := by
  rw [firsts, List.filterMap_cons_some h, List.eraseDups_cons, firsts, List.filter_filterMap]
  congr 3
  funext y
  cases pick y with
  | none => rfl
  | some s => by_cases hs : s = r <;> simp [Option.filter, hs]

theorem firstAt_cons_none {x : τ} (h : pick x = none) :
    firstAt pick r (x :: xs) = firstAt pick r xs + 1 := by
  rw [firstAt, List.findIdx_cons, h]
  rfl

theorem firstAt_cons_self {x : τ} (h : pick x = some r) : firstAt pick r (x :: xs) = 0 := by
  rw [firstAt, List.findIdx_cons, h]
  simp

theorem firstAt_cons_ne {x : τ} (h : pick x = some s) (hne : r ≠ s) :
    firstAt pick r (x :: xs)
      = firstAt (fun x => (pick x).filter (· ≠ s)) r xs + 1 := by
  have hcongr : ∀ y, (decide ((pick y).filter (· ≠ s) = some r)) = decide (pick y = some r) := by
    intro y
    rw [decide_eq_decide, Option.filter_eq_some_iff]
    constructor
    · exact And.left
    · intro hy
      exact ⟨hy, by simpa using hne⟩
  have hx : decide (pick x = some r) = false := by
    rw [h]
    simpa using hne.symm
  simp only [firstAt, List.findIdx_cons, hx, hcongr]
  rfl

theorem firstAt_lt_length : firstAt pick r xs < xs.length ↔ ∃ x ∈ xs, pick x = some r := by
  rw [firstAt, List.findIdx_lt_length]
  simp

/-- The names come in the order in which they are first named. -/
theorem firsts_pairwise (pick : τ → Option ρ) (xs : List τ) :
    (firsts pick xs).Pairwise fun a b => firstAt pick a xs < firstAt pick b xs := by
  induction xs generalizing pick with
  | nil => exact List.Pairwise.nil
  | cons x xs ih =>
      cases hpick : pick x with
      | none =>
          rw [firsts_cons_none hpick]
          refine (ih pick).imp ?_
          intro a b hab
          rw [firstAt_cons_none hpick, firstAt_cons_none hpick]
          omega
      | some r =>
          have hne : ∀ a ∈ firsts (fun x => (pick x).filter (· ≠ r)) xs, a ≠ r := by
            intro a ha
            obtain ⟨y, -, hy⟩ := mem_firsts.mp ha
            simpa using (Option.filter_eq_some_iff.mp hy).2
          rw [firsts_cons_some hpick, List.pairwise_cons]
          constructor
          · intro a ha
            rw [firstAt_cons_self hpick, firstAt_cons_ne hpick (hne a ha)]
            exact Nat.succ_pos _
          · refine (ih fun x => (pick x).filter (· ≠ r)).imp_of_mem ?_
            intro a b ha hb hab
            rw [firstAt_cons_ne hpick (hne a ha), firstAt_cons_ne hpick (hne b hb)]
            omega

theorem firsts_nodup (pick : τ → Option ρ) (xs : List τ) : (firsts pick xs).Nodup := by
  refine (firsts_pairwise pick xs).imp ?_
  rintro a b hlt rfl
  exact Nat.lt_irrefl _ hlt

/-- The order can be read off the list. -/
theorem firstAt_lt_of_firsts_eq (h : firsts pick xs = firsts other xs)
    (hr : r ∈ firsts pick xs) (hs : s ∈ firsts pick xs)
    (hlt : firstAt pick r xs < firstAt pick s xs) : firstAt other r xs < firstAt other s xs := by
  obtain ⟨i, hi, rfl⟩ := List.mem_iff_getElem.mp hr
  obtain ⟨j, hj, rfl⟩ := List.mem_iff_getElem.mp hs
  have hpick := List.pairwise_iff_getElem.mp (firsts_pairwise pick xs)
  have hother := List.pairwise_iff_getElem.mp (h ▸ firsts_pairwise other xs)
  rcases Nat.lt_trichotomy i j with hij | rfl | hji
  · exact hother i j hi hj hij
  · exact absurd hlt (Nat.lt_irrefl _)
  · exact absurd hlt (Nat.lt_asymm (hpick j i hj hi hji))

theorem firsts_congr_of_order
    (hmem : ∀ r, (∃ x ∈ xs, other x = some r) ↔ ∃ x ∈ xs, pick x = some r)
    (horder : ∀ r s, r ∈ firsts pick xs → s ∈ firsts pick xs →
      firstAt other r xs < firstAt other s xs → firstAt pick r xs < firstAt pick s xs) :
    firsts other xs = firsts pick xs := by
  have hsame : ∀ r, r ∈ firsts other xs ↔ r ∈ firsts pick xs := by
    intro r
    rw [mem_firsts, mem_firsts, hmem]
  have hperm : (firsts other xs).Perm (firsts pick xs) :=
    (List.perm_ext_iff_of_nodup (firsts_nodup _ _) (firsts_nodup _ _)).mpr hsame
  have hsorted : (firsts other xs).Pairwise fun a b => firstAt pick a xs < firstAt pick b xs := by
    refine (firsts_pairwise other xs).imp_of_mem ?_
    intro a b ha hb hlt
    exact horder a b ((hsame a).mp ha) ((hsame b).mp hb) hlt
  refine hperm.eq_of_pairwise ?_ hsorted (firsts_pairwise pick xs)
  intro a b _ _ hab hba
  exact absurd hab (Nat.lt_asymm hba)

end Naming
