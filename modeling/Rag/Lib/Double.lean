import Rag.Lib.Text
import Mathlib.Data.List.Sort
import Mathlib.Data.Rat.Floor
import Mathlib.Order.WithBot
import Mathlib.Algebra.Order.Field.Power
import Mathlib.Tactic.Linarith

/-!
Python's floats: IEEE doubles, every operation rounded to nearest.

A finite float is the rational it denotes, so zero has no sign. Arithmetic is that of the
rationals followed by `PyFloat.round`, which underflows to multiples of the least subnormal
and overflows to an infinity. Every comparison with a NaN is false; the others compare ranks.
-/

namespace Py

inductive PyFloat where
  | finite (q : ℚ)
  | inf
  | negInf
  | nan
deriving DecidableEq

namespace PyFloat

/-- The nearest integer, and the even one of two. -/
def roundEven (x : ℚ) : ℤ :=
  let n := ⌊x⌋
  if x - n < 1 / 2 then n else if 1 / 2 < x - n then n + 1 else n + n % 2

/-- `2 ^ binade q ≤ |q| < 2 ^ (binade q + 1)` for `q ≠ 0`. -/
def binade (q : ℚ) : ℤ :=
  let e : ℤ := Nat.log2 q.num.natAbs - Nat.log2 q.den
  if (2 : ℚ) ^ e ≤ |q| then e else e - 1

/-- The distance of the doubles around `q`. -/
def ulp (q : ℚ) : ℚ := (2 : ℚ) ^ max (binade q - 52) (-1074)

/-- The least magnitude that rounds beyond the largest double. -/
def overflow : ℚ := 2 ^ 1024 - 2 ^ 970

/-- The double nearest to a rational. -/
def round (q : ℚ) : PyFloat :=
  if overflow ≤ q then .inf
  else if q ≤ -overflow then .negInf
  else .finite (roundEven (q / ulp q) * ulp q)

theorem ulp_pos (q : ℚ) : 0 < ulp q := zpow_pos (by norm_num) _

theorem roundEven_nonneg {x : ℚ} (h : 0 ≤ x) : 0 ≤ roundEven x := by
  have hfloor : 0 ≤ ⌊x⌋ := Int.floor_nonneg.mpr h
  unfold roundEven
  dsimp only
  split_ifs <;> omega

theorem roundEven_le {x : ℚ} (h : 0 ≤ x) : (roundEven x : ℚ) ≤ 2 * x := by
  have hfloor : (⌊x⌋ : ℚ) ≤ x := Int.floor_le x
  have hnonneg : (0 : ℚ) ≤ ⌊x⌋ := by exact_mod_cast Int.floor_nonneg.mpr h
  unfold roundEven
  dsimp only
  split_ifs with hlow hhigh
  · linarith
  · push_cast
    linarith
  · -- on a tie the floor itself is left where it is zero
    have hfloor0 : 0 ≤ ⌊x⌋ := Int.floor_nonneg.mpr h
    have hbit : ⌊x⌋ % 2 = 0 ∨ ⌊x⌋ % 2 = 1 := by omega
    rcases hbit with heven | hodd
    · rw [heven]
      push_cast
      linarith
    · rw [hodd]
      have hone : (1 : ℚ) ≤ ⌊x⌋ := by
        have hpos : 1 ≤ ⌊x⌋ := by omega
        exact_mod_cast hpos
      push_cast
      linarith

/-- Rounding at most doubles a number that is not negative. -/
theorem round_of_nonneg {q : ℚ} (h : 0 ≤ q) (hsmall : q < overflow) :
    ∃ r, round q = .finite r ∧ 0 ≤ r ∧ r ≤ 2 * q := by
  have hpositive : (0 : ℚ) < overflow := lt_of_le_of_lt h hsmall
  have hscaled : 0 ≤ q / ulp q := div_nonneg h (ulp_pos q).le
  refine ⟨roundEven (q / ulp q) * ulp q, ?_, ?_, ?_⟩
  · rw [round, if_neg (not_le_of_gt hsmall), if_neg (by linarith)]
  · apply mul_nonneg _ (ulp_pos q).le
    exact_mod_cast roundEven_nonneg hscaled
  · have hbound := mul_le_mul_of_nonneg_right (roundEven_le hscaled) (ulp_pos q).le
    have hback : 2 * (q / ulp q) * ulp q = 2 * q := by
      rw [mul_assoc, div_mul_cancel₀ _ (ulp_pos q).ne']
    rwa [hback] at hbound

@[simp] theorem round_zero : round 0 = .finite 0 := by decide +kernel

/-- Where a float stands among the others; a NaN stands nowhere. -/
def rank : PyFloat → WithBot (WithTop ℚ)
  | .finite q => ((q : WithTop ℚ) : WithBot (WithTop ℚ))
  | .inf => ((⊤ : WithTop ℚ) : WithBot (WithTop ℚ))
  | .negInf => ⊥
  | .nan => ⊥

/-- `math.isfinite` -/
def isFinite : PyFloat → Bool
  | .finite _ => true
  | _ => false

/-- `a < b` -/
def lt : PyFloat → PyFloat → Bool
  | .nan, _ => false
  | _, .nan => false
  | _, .negInf => false
  | .negInf, _ => true
  | .inf, _ => false
  | _, .inf => true
  | .finite a, .finite b => a < b

/-- `a <= b` -/
def le : PyFloat → PyFloat → Bool
  | .nan, _ => false
  | _, .nan => false
  | .negInf, _ => true
  | _, .negInf => false
  | _, .inf => true
  | .inf, _ => false
  | .finite a, .finite b => a ≤ b

instance : LT PyFloat := ⟨fun a b => a.lt b = true⟩

instance : LE PyFloat := ⟨fun a b => a.le b = true⟩

instance (a b : PyFloat) : Decidable (a < b) := inferInstanceAs (Decidable (a.lt b = true))

instance (a b : PyFloat) : Decidable (a ≤ b) := inferInstanceAs (Decidable (a.le b = true))

theorem lt_iff {a b : PyFloat} (ha : a ≠ .nan) (hb : b ≠ .nan) : a < b ↔ a.rank < b.rank := by
  have hinf : ∀ q : ℚ, rank (.finite q) < rank .inf := fun q =>
    WithBot.coe_lt_coe.mpr (WithTop.coe_lt_top q)
  change a.lt b = true ↔ _
  cases a <;> cases b <;> simp_all [lt, rank]

theorem le_iff {a b : PyFloat} (ha : a ≠ .nan) (hb : b ≠ .nan) : a ≤ b ↔ a.rank ≤ b.rank := by
  change a.le b = true ↔ _
  cases a <;> cases b <;> simp_all [le, rank]

theorem ne_nan_of_lt {a b : PyFloat} (h : a < b) : a ≠ .nan ∧ b ≠ .nan := by
  change a.lt b = true at h
  cases a <;> cases b <;> simp_all [lt]

theorem ne_nan_of_le {a b : PyFloat} (h : a ≤ b) : a ≠ .nan ∧ b ≠ .nan := by
  change a.le b = true at h
  cases a <;> cases b <;> simp_all [le]

theorem rank_injective {a b : PyFloat} (ha : a ≠ .nan) (hb : b ≠ .nan) (h : a.rank = b.rank) :
    a = b := by
  cases a <;> cases b <;> simp_all [rank]

protected theorem not_le {a b : PyFloat} (ha : a ≠ .nan) (hb : b ≠ .nan) : ¬ a ≤ b ↔ b < a := by
  rw [le_iff ha hb, lt_iff hb ha, lt_iff_not_ge]

protected theorem not_lt {a b : PyFloat} (ha : a ≠ .nan) (hb : b ≠ .nan) : ¬ a < b ↔ b ≤ a := by
  rw [← PyFloat.not_le hb ha, not_not]

protected theorem le_refl {a : PyFloat} (h : a ≠ .nan) : a ≤ a := (le_iff h h).mpr le_rfl

protected theorem lt_irrefl (a : PyFloat) : ¬ a < a := by
  intro h
  obtain ⟨ha, -⟩ := ne_nan_of_lt h
  exact absurd ((lt_iff ha ha).mp h) (lt_irrefl _)

protected theorem lt_of_le_of_lt {a b c : PyFloat} (hab : a ≤ b) (hbc : b < c) : a < c := by
  obtain ⟨ha, hb⟩ := ne_nan_of_le hab
  obtain ⟨-, hc⟩ := ne_nan_of_lt hbc
  exact (lt_iff ha hc).mpr (((le_iff ha hb).mp hab).trans_lt ((lt_iff hb hc).mp hbc))

protected theorem le_of_lt {a b : PyFloat} (h : a < b) : a ≤ b := by
  obtain ⟨ha, hb⟩ := ne_nan_of_lt h
  exact (le_iff ha hb).mpr ((lt_iff ha hb).mp h).le

protected theorem not_lt_of_le {a b : PyFloat} (h : a ≤ b) : ¬ b < a := by
  obtain ⟨ha, hb⟩ := ne_nan_of_le h
  exact (PyFloat.not_lt hb ha).mpr h

protected theorem le_antisymm {a b : PyFloat} (hab : a ≤ b) (hba : b ≤ a) : a = b := by
  obtain ⟨ha, hb⟩ := ne_nan_of_le hab
  exact rank_injective ha hb (((le_iff ha hb).mp hab).antisymm ((le_iff hb ha).mp hba))

/-- `a + b` -/
def add : PyFloat → PyFloat → PyFloat
  | .finite a, .finite b => round (a + b)
  | .nan, _ => .nan
  | _, .nan => .nan
  | .inf, .negInf => .nan
  | .negInf, .inf => .nan
  | .inf, _ => .inf
  | _, .inf => .inf
  | _, _ => .negInf

/-- Greater than zero, less, or neither. -/
def sign : PyFloat → ℤ
  | .finite q => if 0 < q then 1 else if q < 0 then -1 else 0
  | .inf => 1
  | .negInf => -1
  | .nan => 0

/-- An infinite result of a sign; without one the operation is undefined. -/
def signedInf (s : ℤ) : PyFloat := if 0 < s then .inf else if s < 0 then .negInf else .nan

/-- `a * b` -/
def mul : PyFloat → PyFloat → PyFloat
  | .finite a, .finite b => round (a * b)
  | a, b => signedInf (a.sign * b.sign)

/-- `a / b` for `b ≠ 0`; a division by zero raises. -/
def div : PyFloat → PyFloat → PyFloat
  | .finite a, .finite b => round (a / b)
  | .finite _, .nan => .nan
  | .finite _, _ => .finite 0
  | a, .finite b => signedInf (a.sign * sign (.finite b))
  | _, _ => .nan

/-- Rounding does not reach a bound from less than half of it. -/
theorem not_le_round {bound q : ℚ} (hq : 0 ≤ q) (hhalf : 2 * q < bound)
    (hbound : bound ≤ overflow) : ¬ finite bound ≤ round q := by
  obtain ⟨r, hround, -, hdouble⟩ := round_of_nonneg hq (by linarith)
  rw [hround, PyFloat.not_le (by simp) (by simp)]
  change decide (r < bound) = true
  rw [decide_eq_true_iff]
  linarith

/-- A sum of numbers is a number. -/
theorem add_finite_ne_nan {a : PyFloat} (h : a ≠ .nan) (q : ℚ) : add a (.finite q) ≠ .nan := by
  cases a with
  | finite p =>
      rw [add, round]
      split_ifs <;> simp
  | inf => simp [add]
  | negInf => simp [add]
  | nan => exact absurd rfl h

instance : Zero PyFloat := ⟨.finite 0⟩

instance : One PyFloat := ⟨.finite 1⟩

instance : Add PyFloat := ⟨add⟩

instance : Mul PyFloat := ⟨mul⟩

instance : Div PyFloat := ⟨div⟩

/-- `f"{x:.{digits}f}"` -/
def format (digits : Nat) : PyFloat → String
  | .finite q => formatFixed digits q
  | .inf => "inf"
  | .negInf => "-inf"
  | .nan => "nan"

section Sorting

variable {α : Type} {key : α → PyFloat} {xs : List α}

/-- `sorted(xs, key=key, reverse=True)`. Where a key is a NaN the comparisons order nothing, and
this is the order one sort by comparisons leaves. -/
def sortedDesc (key : α → PyFloat) (xs : List α) : List α :=
  xs.insertionSort fun a b => ¬ key a < key b

theorem sortedDesc_perm (key : α → PyFloat) (xs : List α) : (sortedDesc key xs).Perm xs :=
  List.perm_insertionSort _ _

theorem mem_sortedDesc {a : α} : a ∈ sortedDesc key xs ↔ a ∈ xs :=
  (sortedDesc_perm key xs).mem_iff

/-- Keys that are numbers are sorted by their ranks. -/
theorem sortedDesc_eq_rank (h : ∀ a ∈ xs, key a ≠ .nan) :
    sortedDesc key xs = Py.sortedDesc (fun a => (key a).rank) xs := by
  have hrel : ∀ a ∈ xs, ∀ b ∈ xs, (¬ key a < key b) ↔ (key b).rank ≤ (key a).rank := by
    intro a ha b hb
    rw [lt_iff (h a ha) (h b hb), not_lt]
  simpa [sortedDesc, Py.sortedDesc] using List.map_insertionSort _ _ id xs hrel

theorem sortedDesc_pairwise (h : ∀ a ∈ xs, key a ≠ .nan) :
    (sortedDesc key xs).Pairwise fun a b => key b ≤ key a := by
  rw [sortedDesc_eq_rank h]
  have hsorted := Py.sortedDesc_pairwise (fun a => (key a).rank) xs
  refine hsorted.imp_of_mem ?_
  intro a b ha hb hle
  exact (le_iff (h b (Py.mem_sortedDesc.mp hb)) (h a (Py.mem_sortedDesc.mp ha))).mpr hle

end Sorting

example : (List.replicate 8 (round (125 / 10000))).foldl add 0 < round (1 / 10) := by
  decide +kernel

end PyFloat

end Py
