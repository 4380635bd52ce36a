import Mathlib.Data.List.DropRight
import Mathlib.Data.List.Nodup

/-!
The keys that a bounded collection in order of insertion holds.

A key that is held keeps its place when it comes again. One that is not held is inserted, again if
it was held once and has been pushed out since; `insertions` is the record of that, and what is held
are the last keys of the record, at most `limit` of them.
-/

namespace Recent

variable {κ : Type} [DecidableEq κ]

/-- The insertions that a sequence of keys makes. -/
def insertions (limit : Nat) (keys : List κ) : List κ :=
  keys.foldl (fun log key => if key ∈ log.rtake limit then log else log ++ [key]) []

/-- The keys held after a sequence of keys, the oldest insertion first. -/
def held (limit : Nat) (keys : List κ) : List κ := (insertions limit keys).rtake limit

/-- The oldest key is pushed out when there is one too many. -/
def push {ε : Type} (limit : Nat) (xs : List ε) (x : ε) : List ε :=
  if limit < (xs ++ [x]).length then (xs ++ [x]).drop 1 else xs ++ [x]

theorem insertions_snoc (limit : Nat) (keys : List κ) (key : κ) :
    insertions limit (keys ++ [key]) = if key ∈ held limit keys then insertions limit keys
      else insertions limit keys ++ [key] := by
  rw [insertions, List.foldl_append]
  rfl

theorem held_nil (limit : Nat) : held limit ([] : List κ) = [] := List.rtake_nil _

theorem held_of_mem {limit : Nat} {keys : List κ} {key : κ} (h : key ∈ held limit keys) :
    held limit (keys ++ [key]) = held limit keys := by
  rw [held, insertions_snoc, if_pos h, held]

omit [DecidableEq κ] in
theorem rtake_snoc (limit : Nat) (log : List κ) (key : κ) :
    (log ++ [key]).rtake limit = push limit (log.rtake limit) key := by
  have hlength : (log.rtake limit).length = min limit log.length := by
    rw [List.rtake, List.length_drop]
    omega
  rw [push, List.length_append, hlength, List.length_singleton]
  unfold List.rtake
  rw [List.length_append, List.length_singleton]
  split_ifs with hfull
  · -- the record is at least as long as the bound, so the oldest key goes
    have hdrop : log.length + 1 - limit = (log.length - limit) + 1 := by omega
    rw [hdrop, ← List.drop_append_of_le_length (Nat.sub_le _ _), List.drop_drop]
  · have hall : log.length - limit = 0 := by omega
    have hall' : log.length + 1 - limit = 0 := by omega
    rw [hall, hall', List.drop_zero, List.drop_zero]

theorem held_of_not_mem {limit : Nat} {keys : List κ} {key : κ} (h : key ∉ held limit keys) :
    held limit (keys ++ [key]) = push limit (held limit keys) key := by
  rw [held, insertions_snoc, if_neg h, rtake_snoc, held]

theorem push_sublist {ε : Type} (limit : Nat) (xs : List ε) (x : ε) :
    (push limit xs x).Sublist (xs ++ [x]) := by
  unfold push
  split_ifs
  · exact List.drop_sublist _ _
  · exact List.Sublist.refl _

theorem map_push {ε ε' : Type} (f : ε → ε') (limit : Nat) (xs : List ε) (x : ε) :
    (push limit xs x).map f = push limit (xs.map f) (f x) := by
  unfold push
  simp only [List.length_append, List.length_map, List.length_singleton]
  split_ifs
  · rw [List.map_drop, List.map_append, List.map_singleton]
  · rw [List.map_append, List.map_singleton]

theorem held_length_le (limit : Nat) (keys : List κ) : (held limit keys).length ≤ limit := by
  rw [held, List.rtake, List.length_drop]
  omega

theorem held_nodup (limit : Nat) (keys : List κ) : (held limit keys).Nodup := by
  induction keys using List.reverseRecOn with
  | nil =>
      rw [held_nil]
      exact List.nodup_nil
  | append_singleton keys key ih =>
      by_cases h : key ∈ held limit keys
      · rwa [held_of_mem h]
      · rw [held_of_not_mem h]
        refine List.Nodup.sublist (push_sublist _ _ _) ?_
        exact ih.append (List.nodup_singleton key) (List.disjoint_singleton.mpr h)

end Recent
