import Mathlib.Data.List.Nodup
import Mathlib.Data.List.Basic
import Mathlib.Data.List.Dedup
import Mathlib.Data.List.Induction

/-!
Insertion-ordered dictionaries, as Python's `dict` is: assigning to a present key
replaces its value in place, assigning to a new key appends it, and iteration follows
that order. The keys of a `Dict` are distinct by construction.
-/

namespace Py

variable {κ ν : Type}

namespace Items

variable [DecidableEq κ]

/-- `items[key] = value` -/
def assign (key : κ) (value : ν) : List (κ × ν) → List (κ × ν)
  | [] => [(key, value)]
  | item :: rest => if item.1 = key then (key, value) :: rest else item :: assign key value rest

theorem keys_assign (key : κ) (value : ν) (items : List (κ × ν)) :
    (assign key value items).map Prod.fst
      = if key ∈ items.map Prod.fst then items.map Prod.fst
        else items.map Prod.fst ++ [key] := by
  induction items with
  | nil => rfl
  | cons item rest ih =>
      by_cases h : item.1 = key
      · simp [assign, h]
      · have hne : key ≠ item.1 := fun h' => h h'.symm
        simp only [assign, if_neg h, List.map_cons, ih, List.mem_cons, hne, false_or]
        split_ifs <;> simp

theorem nodup_assign {items : List (κ × ν)} (h : (items.map Prod.fst).Nodup) (key : κ)
    (value : ν) : ((assign key value items).map Prod.fst).Nodup := by
  rw [keys_assign]
  split_ifs with hmem
  · exact h
  · rw [List.nodup_append]
    refine ⟨h, List.nodup_singleton _, ?_⟩
    intro a ha b hb
    rw [List.mem_singleton] at hb
    rintro rfl
    exact hmem (hb ▸ ha)

theorem mem_assign {key : κ} {value : ν} {items : List (κ × ν)} {item : κ × ν}
    (h : item ∈ assign key value items) : item = (key, value) ∨ item ∈ items := by
  induction items with
  | nil => simpa [assign] using h
  | cons head rest ih =>
      rw [assign] at h
      split_ifs at h
      · rcases List.mem_cons.mp h with rfl | h
        · exact Or.inl rfl
        · exact Or.inr (List.mem_cons_of_mem _ h)
      · rcases List.mem_cons.mp h with rfl | h
        · exact Or.inr List.mem_cons_self
        · rcases ih h with h | h
          · exact Or.inl h
          · exact Or.inr (List.mem_cons_of_mem _ h)

end Items

/-- A dictionary with distinct keys in insertion order. -/
@[ext]
structure Dict (κ ν : Type) where
  items : List (κ × ν)
  nodup : (items.map Prod.fst).Nodup

namespace Dict

def empty : Dict κ ν := ⟨[], List.nodup_nil⟩

def values (d : Dict κ ν) : List ν := d.items.map Prod.snd

def keys (d : Dict κ ν) : List κ := d.items.map Prod.fst

variable [DecidableEq κ]

/-- `d.get(key)` -/
def get? (d : Dict κ ν) (key : κ) : Option ν :=
  (d.items.find? fun item => item.1 = key).map Prod.snd

/-- `d[key] = value` -/
def set (d : Dict κ ν) (key : κ) (value : ν) : Dict κ ν :=
  ⟨Items.assign key value d.items, Items.nodup_assign d.nodup key value⟩

/-- `d.pop(key, None)` -/
def erase (d : Dict κ ν) (key : κ) : Dict κ ν :=
  ⟨d.items.filter fun item => item.1 ≠ key,
    d.nodup.sublist (List.filter_sublist.map Prod.fst)⟩

theorem get?_eq_some {d : Dict κ ν} {key : κ} {value : ν} (h : d.get? key = some value) :
    (key, value) ∈ d.items := by
  obtain ⟨item, hfind, rfl⟩ := Option.map_eq_some_iff.mp h
  have hkey : item.1 = key := by simpa using List.find?_some hfind
  have hmem := List.mem_of_find?_eq_some hfind
  rw [← hkey]
  exact hmem

theorem mem_values_of_get? {d : Dict κ ν} {key : κ} {value : ν}
    (h : d.get? key = some value) : value ∈ d.values :=
  List.mem_map.mpr ⟨_, get?_eq_some h, rfl⟩

theorem mem_values_set {d : Dict κ ν} {key : κ} {value v : ν}
    (h : v ∈ (d.set key value).values) : v = value ∨ v ∈ d.values := by
  obtain ⟨item, hitem, rfl⟩ := List.mem_map.mp h
  rcases Items.mem_assign hitem with rfl | hitem
  · exact Or.inl rfl
  · exact Or.inr (List.mem_map.mpr ⟨item, hitem, rfl⟩)

/-- Reading a key back: a present key has exactly one value. -/
theorem get?_iff {d : Dict κ ν} {key : κ} {value : ν} :
    d.get? key = some value ↔ (key, value) ∈ d.items := by
  constructor
  · exact get?_eq_some
  · intro h
    have hpair : d.items.find? (fun item => item.1 = key) = some (key, value) := by
      have hnodup := d.nodup
      revert h hnodup
      induction d.items with
      | nil => simp
      | cons item rest ih =>
          intro h hnodup
          rw [List.map_cons, List.nodup_cons] at hnodup
          by_cases hkey : item.1 = key
          · rcases List.mem_cons.mp h with rfl | h
            · simp
            · exact absurd (List.mem_map.mpr ⟨_, h, hkey.symm⟩) hnodup.1
          · rcases List.mem_cons.mp h with rfl | h
            · exact absurd rfl hkey
            · simpa [List.find?_cons, hkey] using ih h hnodup.2
    rw [get?, hpair]
    rfl

theorem get?_set (d : Dict κ ν) (key key' : κ) (value : ν) :
    (d.set key value).get? key' = if key' = key then some value else d.get? key' := by
  have hfind : (Items.assign key value d.items).find? (fun item => item.1 = key')
      = if key' = key then some (key, value) else d.items.find? fun item => item.1 = key' := by
    induction d.items with
    | nil => by_cases h : key' = key <;> simp [Items.assign, h, eq_comm]
    | cons item rest ih =>
        rw [Items.assign]
        by_cases hitem : item.1 = key
        · by_cases h : key' = key
          · simp [hitem, h]
          · have hne : key ≠ key' := fun h' => h h'.symm
            simp [hitem, h, hne]
        · rw [if_neg hitem, List.find?_cons, List.find?_cons, ih]
          by_cases h : key' = key
          · subst h
            simp [hitem]
          · simp [h]
  rw [get?, set, hfind]
  split_ifs <;> rfl

theorem get?_erase (d : Dict κ ν) (key key' : κ) :
    (d.erase key).get? key' = if key' = key then none else d.get? key' := by
  rw [get?, erase, get?]
  dsimp only
  rw [List.find?_filter]
  split_ifs with h
  · subst h
    simp
  · congr 2
    funext item
    by_cases hitem : item.1 = key'
    · simp [hitem, h]
    · simp [hitem]

theorem erase_of_get?_none {d : Dict κ ν} {key : κ} (h : d.get? key = none) :
    d.erase key = d := by
  ext1
  refine List.filter_eq_self.mpr ?_
  intro item hitem
  have hfind := List.find?_eq_none.mp (Option.map_eq_none_iff.mp h) item hitem
  simpa using hfind

/-- A present key takes its value out of the rest. -/
theorem values_perm_of_get? {d : Dict κ ν} {key : κ} {value : ν} (h : d.get? key = some value) :
    d.values.Perm (value :: (d.erase key).values) := by
  have hmem := get?_eq_some h
  have hnodup := d.nodup
  change (d.items.map Prod.snd).Perm (value :: (d.items.filter _).map Prod.snd)
  clear h
  revert hmem hnodup
  induction d.items with
  | nil => simp
  | cons item rest ih =>
      intro hmem hnodup
      rw [List.map_cons, List.nodup_cons] at hnodup
      rcases List.mem_cons.mp hmem with rfl | hmem
      · have hrest : rest.filter (fun item => item.1 ≠ key) = rest := by
          refine List.filter_eq_self.mpr ?_
          intro item hitem
          have hne : item.1 ≠ key := by
            intro h
            exact hnodup.1 (List.mem_map.mpr ⟨item, hitem, h⟩)
          simpa using hne
        rw [List.filter_cons_of_neg (by simp), hrest]
        exact List.Perm.refl _
      · have hne : item.1 ≠ key := by
          intro h
          exact hnodup.1 (List.mem_map.mpr ⟨_, hmem, h.symm⟩)
        have htail := (ih hmem hnodup.2).cons item.2
        simpa [hne] using htail.trans (.swap _ _ _)

theorem values_set_perm (d : Dict κ ν) (key : κ) (value : ν) :
    (d.set key value).values.Perm (value :: (d.erase key).values) := by
  have hget : (d.set key value).get? key = some value := by rw [get?_set, if_pos rfl]
  have hperm := values_perm_of_get? hget
  have herase : (d.set key value).erase key = d.erase key := by
    ext1
    change (Items.assign key value d.items).filter _ = d.items.filter _
    induction d.items with
    | nil => simp [Items.assign]
    | cons item rest ih =>
        rw [Items.assign]
        by_cases h : item.1 = key
        · simp [h]
        · rw [if_neg h, List.filter_cons, List.filter_cons, ih]
  rwa [herase] at hperm

variable {μ : Type}

omit [DecidableEq κ] in
theorem nodup_map_snd (f : ν → μ) {items : List (κ × ν)} (h : (items.map Prod.fst).Nodup) :
    ((items.map fun item => (item.1, f item.2)).map Prod.fst).Nodup := by
  rw [List.map_map]
  exact h

/-- `{key: f(value) for key, value in d.items()}` -/
def mapValues (f : ν → μ) (d : Dict κ ν) : Dict κ μ :=
  ⟨d.items.map fun item => (item.1, f item.2), nodup_map_snd f d.nodup⟩

omit [DecidableEq κ] in
@[simp] theorem items_mapValues (f : ν → μ) (d : Dict κ ν) :
    (d.mapValues f).items = d.items.map fun item => (item.1, f item.2) := rfl

omit [DecidableEq κ] in
@[simp] theorem values_mapValues (f : ν → μ) (d : Dict κ ν) :
    (d.mapValues f).values = d.values.map f := by
  simp [values, mapValues]

theorem get?_mapValues (f : ν → μ) (d : Dict κ ν) (key : κ) :
    (d.mapValues f).get? key = (d.get? key).map f := by
  simp only [get?, mapValues, List.find?_map, Option.map_map]
  rfl

theorem set_mapValues (f : ν → μ) (d : Dict κ ν) (key : κ) (value : ν) :
    (d.set key value).mapValues f = (d.mapValues f).set key (f value) := by
  ext1
  change (Items.assign key value d.items).map _ = Items.assign key (f value) (d.items.map _)
  induction d.items with
  | nil => rfl
  | cons item rest ih =>
      rw [Items.assign, List.map_cons, Items.assign]
      split_ifs
      · rfl
      · rw [List.map_cons, ih]

theorem erase_mapValues (f : ν → μ) (d : Dict κ ν) (key : κ) :
    (d.erase key).mapValues f = (d.mapValues f).erase key := by
  ext1
  change (d.items.filter _).map _ = (d.items.map _).filter _
  rw [List.filter_map]
  rfl

/-- Rewrite every value in place, knowing its key. -/
def mapEntries (f : κ → ν → μ) (d : Dict κ ν) : Dict κ μ :=
  ⟨d.items.map fun item => (item.1, f item.1 item.2), by
    rw [List.map_map]
    exact d.nodup⟩

theorem get?_mapEntries (f : κ → ν → μ) (d : Dict κ ν) (key : κ) :
    (d.mapEntries f).get? key = (d.get? key).map (f key) := by
  simp only [get?, mapEntries, List.find?_map, Option.map_map]
  cases hfind : d.items.find? fun item => item.1 = key with
  | none =>
      rw [Option.map_eq_none_iff.mpr, Option.map_none]
      exact hfind
  | some item =>
      have hkey : item.1 = key := by simpa using List.find?_some hfind
      have hcomp : d.items.find? ((fun item => decide (item.1 = key)) ∘
          fun item => (item.1, f item.1 item.2)) = some item := hfind
      rw [hcomp]
      simp [hkey]

end Dict

/-- `{key(x): x for x in xs}`: a later element replaces an earlier one of its key. -/
def Dict.index [DecidableEq κ] (key : ν → κ) (xs : List ν) : Dict κ ν :=
  xs.foldl (fun d x => d.set (key x) x) .empty

theorem Dict.mem_values_foldl [DecidableEq κ] (key : ν → κ) (xs : List ν) (d : Dict κ ν) {v : ν}
    (h : v ∈ (xs.foldl (fun d x => d.set (key x) x) d).values) : v ∈ xs ∨ v ∈ d.values := by
  induction xs generalizing d with
  | nil => exact Or.inr h
  | cons x xs ih =>
      rcases ih _ h with h | h
      · exact Or.inl (List.mem_cons_of_mem _ h)
      · rcases Dict.mem_values_set h with rfl | h
        · exact Or.inl List.mem_cons_self
        · exact Or.inr h

theorem Dict.mem_values_index [DecidableEq κ] {key : ν → κ} {xs : List ν} {v : ν}
    (h : v ∈ (Dict.index key xs).values) : v ∈ xs := by
  rcases Dict.mem_values_foldl key xs .empty h with h | h
  · exact h
  · cases h

namespace Dict

variable [DecidableEq κ]

/-- `d[key(x)] = x` for every `x`, one after the other. -/
def setAll (key : ν → κ) (d : Dict κ ν) (xs : List ν) : Dict κ ν :=
  xs.foldl (fun d x => d.set (key x) x) d

/-- Every value is stored under its own key. -/
def KeyedBy (key : ν → κ) (d : Dict κ ν) : Prop := ∀ item ∈ d.items, key item.2 = item.1

variable {key : ν → κ} {d : Dict κ ν} {xs : List ν} {v : ν}

omit [DecidableEq κ] in
theorem keyedBy_empty : KeyedBy key (.empty : Dict κ ν) := by
  intro item hitem
  cases hitem

theorem KeyedBy.set (h : d.KeyedBy key) (x : ν) : (d.set (key x) x).KeyedBy key := by
  intro item hitem
  rcases Items.mem_assign hitem with rfl | hold
  · rfl
  · exact h item hold

theorem KeyedBy.setAll (h : d.KeyedBy key) (xs : List ν) : (d.setAll key xs).KeyedBy key := by
  induction xs generalizing d with
  | nil => exact h
  | cons x xs ih => exact ih (h.set x)

theorem KeyedBy.mem_values_iff (h : d.KeyedBy key) : v ∈ d.values ↔ d.get? (key v) = some v := by
  constructor
  · intro hv
    obtain ⟨item, hitem, rfl⟩ := List.mem_map.mp hv
    rw [h item hitem]
    exact get?_iff.mpr hitem
  · exact mem_values_of_get?

theorem setAll_append (key : ν → κ) (d : Dict κ ν) (xs : List ν) (x : ν) :
    d.setAll key (xs ++ [x]) = (d.setAll key xs).set (key x) x := by
  rw [setAll, List.foldl_append]
  rfl

theorem index_append (key : ν → κ) (xs : List ν) (x : ν) :
    Dict.index key (xs ++ [x]) = (Dict.index key xs).set (key x) x :=
  setAll_append key .empty xs x

/-- A key that is not written keeps its value; one that is written has a written value. -/
theorem get?_setAll (d : Dict κ ν) (k : κ) :
    (d.setAll key xs).get? k
      = if k ∈ xs.map key then (Dict.index key xs).get? k else d.get? k := by
  induction xs using List.reverseRecOn with
  | nil => simp [setAll]
  | append_singleton xs x ih =>
      rw [setAll_append, index_append, get?_set, get?_set, ih]
      by_cases hk : k = key x
      · simp [hk]
      · simp [hk]

/-- What is held after writing `xs`: what was written last under its key, and what was held
under a key that was not written. -/
theorem KeyedBy.mem_setAll_iff (h : d.KeyedBy key) :
    v ∈ (d.setAll key xs).values
      ↔ v ∈ (Dict.index key xs).values ∨ v ∈ d.values ∧ key v ∉ xs.map key := by
  have hindex : (Dict.index key xs).KeyedBy key := keyedBy_empty.setAll xs
  rw [(h.setAll xs).mem_values_iff, get?_setAll, h.mem_values_iff, hindex.mem_values_iff]
  split_ifs with hmem
  · simp [hmem]
  · constructor
    · intro hv
      exact Or.inr ⟨hv, hmem⟩
    · rintro (hv | ⟨hv, -⟩)
      · have hwritten := mem_values_index (mem_values_of_get? hv)
        exact absurd (List.mem_map_of_mem hwritten) hmem
      · exact hv

/-- Under distinct keys everything written is held. -/
theorem mem_index_iff (h : (xs.map key).Nodup) : v ∈ (Dict.index key xs).values ↔ v ∈ xs := by
  refine ⟨mem_values_index, ?_⟩
  intro hv
  induction xs using List.reverseRecOn with
  | nil => cases hv
  | append_singleton xs x ih =>
      have hkeyed : (Dict.index key xs).KeyedBy key := keyedBy_empty.setAll xs
      rw [List.map_append, List.nodup_append] at h
      rw [index_append, (hkeyed.set x).mem_values_iff, get?_set]
      rcases List.mem_append.mp hv with hold | hlast
      · have hne : key v ≠ key x := h.2.2 _ (List.mem_map_of_mem hold) _ (by simp)
        rw [if_neg hne]
        exact hkeyed.mem_values_iff.mp (ih h.1 hold)
      · rw [List.mem_singleton] at hlast
        rw [hlast, if_pos rfl]

/-- A new key is appended. -/
theorem items_set_of_not_mem {k : κ} (h : k ∉ d.keys) (value : ν) :
    (d.set k value).items = d.items ++ [(k, value)] := by
  obtain ⟨items, hnodup⟩ := d
  change Items.assign k value items = items ++ [(k, value)]
  change k ∉ items.map Prod.fst at h
  clear hnodup
  induction items with
  | nil => rfl
  | cons item rest ih =>
      rw [List.map_cons, List.mem_cons, not_or] at h
      rw [Items.assign, if_neg fun heq => h.1 heq.symm, ih h.2, List.cons_append]

/-- Under distinct keys the elements are held in their order. -/
theorem items_index (h : (xs.map key).Nodup) :
    (Dict.index key xs).items = xs.map fun x => (key x, x) := by
  induction xs using List.reverseRecOn with
  | nil => rfl
  | append_singleton xs x ih =>
      rw [List.map_append, List.nodup_append] at h
      have hfresh : key x ∉ (Dict.index key xs).keys := by
        rw [keys, ih h.1, List.map_map]
        intro hmem
        exact h.2.2 (key x) hmem (key x) (by simp) rfl
      rw [index_append, items_set_of_not_mem hfresh, ih h.1, List.map_append]
      rfl

theorem mem_keys_set (k x : κ) (value : ν) :
    k ∈ (d.set x value).keys ↔ k = x ∨ k ∈ d.keys := by
  rw [keys, set, Items.keys_assign]
  split_ifs with hmem
  · constructor
    · exact Or.inr
    · rintro (rfl | hk)
      · exact hmem
      · exact hk
  · rw [List.mem_append, List.mem_singleton]
    exact or_comm

theorem keys_index_perm (key : ν → κ) (xs : List ν) :
    (Dict.index key xs).keys.Perm (xs.map key).dedup := by
  apply (List.perm_ext_iff_of_nodup (Dict.index key xs).nodup (List.nodup_dedup _)).mpr
  intro k
  rw [List.mem_dedup]
  change k ∈ (Dict.index key xs).keys ↔ _
  induction xs using List.reverseRecOn with
  | nil => exact Iff.rfl
  | append_singleton xs x ih =>
      rw [index_append, mem_keys_set, ih, List.map_append, List.mem_append, or_comm]
      simp

/-- A search of the keys is one of what they were taken from. -/
theorem find?_keys_index (key : ν → κ) (xs : List ν) (p : κ → Bool) :
    (Dict.index key xs).keys.find? p = (xs.map key).find? p := by
  induction xs using List.reverseRecOn with
  | nil => rfl
  | append_singleton xs x ih =>
      rw [index_append, keys, set, Items.keys_assign, List.map_append, List.find?_append]
      split_ifs with hmem
      · -- a known key is found before its last occurrence, if it is one to find
        have hknown : key x ∈ xs.map key := by
          rw [← List.mem_dedup, ← (keys_index_perm key xs).mem_iff]
          exact hmem
        rw [← keys, ih]
        cases hfound : (xs.map key).find? p with
        | some k => rfl
        | none =>
            have hx := List.find?_eq_none.mp hfound (key x) hknown
            simp [hx]
      · rw [List.find?_append, ← keys, ih]
        rfl

theorem setAll_mapValues {μ : Type} (f : ν → μ) (key : ν → κ) (key' : μ → κ)
    (hkey : ∀ v, key' (f v) = key v) (d : Dict κ ν) (xs : List ν) :
    (d.setAll key xs).mapValues f = (d.mapValues f).setAll key' (xs.map f) := by
  induction xs generalizing d with
  | nil => rfl
  | cons x xs ih =>
      have hstep : (d.set (key x) x).mapValues f = (d.mapValues f).set (key' (f x)) (f x) := by
        rw [set_mapValues, hkey]
      rw [List.map_cons]
      change ((d.set (key x) x).setAll key xs).mapValues f
        = ((d.mapValues f).set (key' (f x)) (f x)).setAll key' (xs.map f)
      rw [ih, hstep]

/-- `{**d, **e}`: the entries of `e` are assigned over those of `d`. -/
def merge (d e : Dict κ ν) : Dict κ ν := e.items.foldl (fun d item => d.set item.1 item.2) d

/-- A key has the value of the second, or that of the first where the second has none. -/
theorem get?_merge (d e : Dict κ ν) (k : κ) : (d.merge e).get? k = (e.get? k).or (d.get? k) := by
  obtain ⟨items, hnodup⟩ := e
  change (items.foldl (fun d item => d.set item.1 item.2) d).get? k
    = ((items.find? fun item => item.1 = k).map Prod.snd).or (d.get? k)
  induction items generalizing d with
  | nil => rfl
  | cons item rest ih =>
      rw [List.map_cons, List.nodup_cons] at hnodup
      rw [List.foldl_cons, ih _ hnodup.2, get?_set, List.find?_cons]
      by_cases hk : item.1 = k
      · have hrest : rest.find? (fun item => item.1 = k) = none := by
          apply List.find?_eq_none.mpr
          intro later hlater
          have hne : later.1 ≠ k := by
            intro heq
            apply hnodup.1
            rw [hk, ← heq]
            exact List.mem_map_of_mem hlater
          simpa using hne
        simp [hrest, hk]
      · have hk' : k ≠ item.1 := fun heq => hk heq.symm
        simp [hk, hk']

/-- Nothing is overwritten exactly when the keys are distinct. -/
theorem length_index_eq_iff (key : ν → κ) (xs : List ν) :
    (Dict.index key xs).items.length = xs.length ↔ (xs.map key).Nodup := by
  have hlength : (Dict.index key xs).items.length = (xs.map key).dedup.length := by
    have hperm := (keys_index_perm key xs).length_eq
    rwa [keys, List.length_map] at hperm
  have hmap : (xs.map key).length = xs.length := List.length_map key
  rw [hlength, ← hmap]
  constructor
  · intro h
    exact List.dedup_eq_self.mp ((List.dedup_sublist _).eq_of_length h)
  · intro h
    rw [List.dedup_eq_self.mpr h]

end Dict

end Py
