import Rag.Lib.Dict
import Mathlib.Data.List.Perm.Subperm
import Mathlib.Logic.Function.Basic

/-!
A dictionary that somebody else keeps, under other keys and in another encoding.

`Encodes` relates the two entry by entry and in their order. As long as no two keys get the same
name, writes and removals on one side are writes and removals on the other.
-/

namespace Py.Dict

variable {κ κ' ν μ : Type}

/-- The table holds the entries of the dictionary, renamed and encoded. -/
def Encodes (name : κ → κ') (encode : ν → μ) (d : Dict κ ν) (table : Dict κ' μ) : Prop :=
  table.items = d.items.map fun item => (name item.1, encode item.2)

variable {name : κ → κ'} {encode : ν → μ} {d : Dict κ ν} {table : Dict κ' μ}

theorem encodes_empty : Encodes name encode (.empty : Dict κ ν) .empty := rfl

theorem Encodes.length (h : Encodes name encode d table) :
    table.items.length = d.items.length := by
  rw [h, List.length_map]

variable [DecidableEq κ] [DecidableEq κ']

theorem Encodes.set (hname : Function.Injective name) (h : Encodes name encode d table) (key : κ)
    (value : ν) : Encodes name encode (d.set key value) (table.set (name key) (encode value)) := by
  show Items.assign (name key) (encode value) table.items = (Items.assign key value d.items).map _
  rw [h]
  induction d.items with
  | nil => rfl
  | cons item rest ih =>
      by_cases hitem : item.1 = key
      · simp [Items.assign, hitem]
      · have hne : name item.1 ≠ name key := fun heq => hitem (hname heq)
        simp only [List.map_cons, Items.assign, if_neg hitem, if_neg hne, ih]

theorem Encodes.erase (hname : Function.Injective name) (h : Encodes name encode d table)
    (key : κ) : Encodes name encode (d.erase key) (table.erase (name key)) := by
  show table.items.filter _ = (d.items.filter _).map _
  rw [h, List.filter_map]
  congr 1
  apply List.filter_congr
  intro item _
  simp [hname.eq_iff]

theorem Encodes.foldl_set (hname : Function.Injective name) (h : Encodes name encode d table)
    (entries : List (κ × ν)) :
    Encodes name encode (entries.foldl (fun d entry => d.set entry.1 entry.2) d)
      ((entries.map fun entry => (name entry.1, encode entry.2)).foldl
        (fun table entry => table.set entry.1 entry.2) table) := by
  induction entries generalizing d table with
  | nil => exact h
  | cons entry rest ih => exact ih (h.set hname entry.1 entry.2)

theorem Encodes.foldl_erase (hname : Function.Injective name) (h : Encodes name encode d table)
    (keys : List κ) :
    Encodes name encode (keys.foldl Dict.erase d) ((keys.map name).foldl Dict.erase table) := by
  induction keys generalizing d table with
  | nil => exact h
  | cons key rest ih => exact ih (h.erase hname key)

end Py.Dict

namespace List

variable {α β : Type} {f : α → β}

theorem exists_map_of_perm {m l : List β} (h : m.Perm l) (xs : List α) (hm : m = xs.map f) :
    ∃ ys : List α, ys.Perm xs ∧ l = ys.map f := by
  induction h generalizing xs with
  | nil => exact ⟨xs, .refl xs, hm⟩
  | cons b _ ih =>
      cases xs with
      | nil => cases hm
      | cons x xs =>
          cases hm
          obtain ⟨ys, hperm, rfl⟩ := ih xs rfl
          exact ⟨x :: ys, hperm.cons x, rfl⟩
  | swap b c rest =>
      match xs, hm with
      | x :: y :: xs, hm =>
          cases hm
          exact ⟨y :: x :: xs, .swap x y xs, rfl⟩
  | trans _ _ ih ih' =>
      obtain ⟨ys, hperm, rfl⟩ := ih xs hm
      obtain ⟨zs, hperm', rfl⟩ := ih' ys rfl
      exact ⟨zs, hperm'.trans hperm, rfl⟩

/-- What is chosen among images are the images of what is chosen. -/
theorem exists_map_of_subperm {l : List β} {xs : List α} (h : l.Subperm (xs.map f)) :
    ∃ ys : List α, ys.Subperm xs ∧ l = ys.map f := by
  obtain ⟨kept, hperm, hsub⟩ := h
  obtain ⟨zs, hzs, rfl⟩ := List.sublist_map_iff.mp hsub
  obtain ⟨ys, hys, rfl⟩ := exists_map_of_perm hperm zs rfl
  exact ⟨ys, ⟨zs, hys.symm, hzs⟩, rfl⟩

end List
