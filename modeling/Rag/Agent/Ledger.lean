import Rag.Agent.Evidence

/-!
What the evidence ledger holds after any number of tool results.

The entry of a ref is the first of its best observations (`FirstBest`), whatever came between, so
its score is the maximum over its observations and does not depend on their order. That takes
scores that compare: a NaN is neither better nor worse than anything, so what stands under a ref
then depends on which observation came first (`nan_keeps_first`). What one call adds are the first
occurrences of the refs it brings in, whatever the scores.
-/

namespace Rag

open Py

/-- `s` is the first observation of the ref with the maximal score. -/
def FirstBest (observations : List Source) (ref : String) (s : Source) : Prop :=
  ∃ before after, observations = before ++ s :: after ∧ s.ref = ref
    ∧ (∀ o ∈ before, o.ref = ref → o.score < s.score)
    ∧ ∀ o ∈ after, o.ref = ref → o.score ≤ s.score

/-- No observation of the ref is scored with a NaN. -/
def Comparable (observations : List Source) (ref : String) : Prop :=
  ∀ o ∈ observations, o.ref = ref → o.score ≠ .nan

/-- The sources of a batch whose ref is neither known nor that of an earlier one. -/
def firstOccurrences (known : List String) (batch : List Source) : List Source :=
  (batch.zipIdx.filter fun o =>
    o.1.ref ∉ known ∧ o.1.ref ∉ (batch.take o.2).map Source.ref).map Prod.fst

/-- What stands under a ref after one more observation of it. -/
def keepBetter (previous : Option Source) (source : Source) : Source :=
  match previous with
  | none => source
  | some best => if best.score < source.score then source else best

section Best

variable {observations : List Source} {ref : String} {s : Source}

theorem FirstBest.mem (h : FirstBest observations ref s) : s ∈ observations ∧ s.ref = ref := by
  obtain ⟨before, after, rfl, href, -⟩ := h
  exact ⟨by simp, href⟩

theorem FirstBest.score_le (h : FirstBest observations ref s) (hc : Comparable observations ref)
    {o : Source} (ho : o ∈ observations) (href : o.ref = ref) : o.score ≤ s.score := by
  obtain ⟨hs, hsref⟩ := h.mem
  obtain ⟨before, after, rfl, -, hbefore, hafter⟩ := h
  rcases List.mem_append.mp ho with ho | ho
  · exact PyFloat.le_of_lt (hbefore o ho href)
  · rcases List.mem_cons.mp ho with rfl | ho
    · exact PyFloat.le_refl (hc o hs hsref)
    · exact hafter o ho href

theorem Comparable.of_append {more : List Source} (hc : Comparable (observations ++ more) ref) :
    Comparable observations ref := fun o ho => hc o (List.mem_append_left more ho)

/-- One more observation keeps the best, unless it is better. -/
theorem FirstBest.snoc (h : FirstBest observations ref s) {o : Source} (href : o.ref = ref)
    (hc : Comparable (observations ++ [o]) ref) :
    FirstBest (observations ++ [o]) ref (keepBetter (some s) o) := by
  rw [keepBetter]
  split_ifs with hbetter
  · refine ⟨observations, [], rfl, href, ?_, by simp⟩
    intro p hp hpref
    exact PyFloat.lt_of_le_of_lt (h.score_le hc.of_append hp hpref) hbetter
  · have hs : s.score ≠ .nan := hc.of_append s h.mem.1 h.mem.2
    have ho : o.score ≠ .nan := hc o (by simp) href
    obtain ⟨before, after, rfl, hsref, hbefore, hafter⟩ := h
    refine ⟨before, after ++ [o], by simp, hsref, hbefore, ?_⟩
    intro p hp hpref
    rcases List.mem_append.mp hp with hp | hp
    · exact hafter p hp hpref
    · rw [List.mem_singleton.mp hp]
      exact (PyFloat.not_lt hs ho).mp hbetter

theorem FirstBest.skip (h : FirstBest observations ref s) {o : Source} (href : o.ref ≠ ref) :
    FirstBest (observations ++ [o]) ref s := by
  obtain ⟨before, after, rfl, hsref, hbefore, hafter⟩ := h
  refine ⟨before, after ++ [o], by simp, hsref, hbefore, ?_⟩
  intro p hp hpref
  rcases List.mem_append.mp hp with hp | hp
  · exact hafter p hp hpref
  · rw [List.mem_singleton.mp hp] at hpref
    exact absurd hpref href

theorem FirstBest.unique {s' : Source} (h : FirstBest observations ref s)
    (h' : FirstBest observations ref s') : s = s' := by
  obtain ⟨before, after, hsplit, href, hbefore, hafter⟩ := h
  obtain ⟨before', after', hsplit', href', hbefore', hafter'⟩ := h'
  rw [hsplit] at hsplit'
  rcases List.append_eq_append_iff.mp hsplit' with ⟨mid, hmid, hrest⟩ | ⟨mid, hmid, hrest⟩
  · cases mid with
    | nil => exact (List.cons.inj hrest).1
    | cons o mid =>
        obtain ⟨ho, hrest⟩ := List.cons.inj hrest
        have hless := hbefore' s (by simp [hmid, ho]) href
        have hmore := hafter s' (by simp [hrest]) href'
        exact absurd hless (PyFloat.not_lt_of_le hmore)
  · cases mid with
    | nil => exact (List.cons.inj hrest).1.symm
    | cons o mid =>
        obtain ⟨ho, hrest⟩ := List.cons.inj hrest
        have hless := hbefore s' (by simp [hmid, ho]) href'
        have hmore := hafter' s (by simp [hrest]) href
        exact absurd hless (PyFloat.not_lt_of_le hmore)

end Best

namespace EvidenceLedger

/-- The ledger after a sequence of calls. -/
def addAll (ledger : EvidenceLedger) (batches : List (List Source)) : EvidenceLedger :=
  batches.foldl (fun ledger batch => (ledger.add batch).1) ledger

theorem get?_addOne (ledger : EvidenceLedger) (source : Source) (ref : String) :
    (ledger.addOne source).1.byRef.get? ref
      = if ref = source.ref then some (keepBetter (ledger.byRef.get? ref) source)
        else ledger.byRef.get? ref := by
  unfold addOne
  cases hget : ledger.byRef.get? source.ref with
  | none =>
      dsimp only
      rw [Dict.get?_set]
      split_ifs with href
      · rw [href, hget]
        rfl
      · rfl
  | some previous =>
      dsimp only
      split_ifs with hbetter href href
      · rw [Dict.get?_set, if_pos href, href, hget, keepBetter]
        simp only [if_pos hbetter]
      · rw [Dict.get?_set, if_neg href]
      · rw [href, hget, keepBetter]
        simp only [if_neg hbetter]
      · rfl

theorem addOne_new (ledger : EvidenceLedger) (source : Source) :
    (ledger.addOne source).2 = if (ledger.byRef.get? source.ref).isSome then [] else [source] := by
  unfold addOne
  cases ledger.byRef.get? source.ref with
  | none => rfl
  | some previous =>
      dsimp only
      rw [Option.isSome_some, if_pos rfl]
      split_ifs <;> rfl

theorem add_append (ledger : EvidenceLedger) (xs ys : List Source) :
    ledger.add (xs ++ ys)
      = (((ledger.add xs).1.add ys).1, (ledger.add xs).2 ++ ((ledger.add xs).1.add ys).2) := by
  induction xs generalizing ledger with
  | nil => rfl
  | cons x xs ih =>
      rw [List.cons_append, add, add]
      dsimp only
      rw [ih, List.append_assoc]

theorem add_snoc (ledger : EvidenceLedger) (xs : List Source) (x : Source) :
    ledger.add (xs ++ [x]) = (((ledger.add xs).1.addOne x).1,
      (ledger.add xs).2 ++ ((ledger.add xs).1.addOne x).2) := by
  rw [add_append, add]
  dsimp only
  rw [add, List.append_nil]

/-- Several calls merge what one call would merge. -/
theorem addAll_eq (ledger : EvidenceLedger) (batches : List (List Source)) :
    ledger.addAll batches = (ledger.add batches.flatten).1 := by
  induction batches generalizing ledger with
  | nil => rfl
  | cons batch rest ih =>
      rw [List.flatten_cons, add_append, addAll, List.foldl_cons]
      exact ih (ledger.add batch).1

/-- Under the ref of every observation stands one of its observations that none of them beats, the
first best where they compare, and nothing else is held. -/
structure Holds (ledger : EvidenceLedger) (observations : List Source) : Prop where
  known : ∀ o ∈ observations, (ledger.byRef.get? o.ref).isSome
  observed : ∀ ref s, ledger.byRef.get? ref = some s → s ∈ observations ∧ s.ref = ref
  unbeaten : ∀ o ∈ observations, ∀ s, ledger.byRef.get? o.ref = some s → ¬ s.score < o.score
  best : ∀ ref s, ledger.byRef.get? ref = some s → Comparable observations ref →
    FirstBest observations ref s

variable {ledger : EvidenceLedger} {observations : List Source}

theorem Holds.isSome_iff (h : ledger.Holds observations) (ref : String) :
    (ledger.byRef.get? ref).isSome ↔ ref ∈ observations.map Source.ref := by
  constructor
  · intro hsome
    obtain ⟨s, hs⟩ := Option.isSome_iff_exists.mp hsome
    obtain ⟨hmem, href⟩ := h.observed ref s hs
    exact List.mem_map.mpr ⟨s, hmem, href⟩
  · intro hmem
    obtain ⟨o, ho, rfl⟩ := List.mem_map.mp hmem
    exact h.known o ho

theorem Holds.get?_iff (h : ledger.Holds observations) {ref : String}
    (hc : Comparable observations ref) {s : Source} :
    ledger.byRef.get? ref = some s ↔ FirstBest observations ref s := by
  constructor
  · intro hs
    exact h.best ref s hs hc
  · intro hbest
    obtain ⟨hmem, href⟩ := hbest.mem
    obtain ⟨s', hs'⟩ := Option.isSome_iff_exists.mp (h.known s hmem)
    rw [href] at hs'
    rw [hs', (h.best ref s' hs' hc).unique hbest]

theorem Holds.addOne (h : ledger.Holds observations) (source : Source) :
    (ledger.addOne source).1.Holds (observations ++ [source]) where
  known := by
    intro o ho
    rw [get?_addOne]
    split_ifs with href
    · rfl
    · rcases List.mem_append.mp ho with ho | ho
      · exact h.known o ho
      · exact absurd (congrArg Source.ref (List.mem_singleton.mp ho)) href
  observed := by
    intro ref s hs
    rw [get?_addOne] at hs
    split_ifs at hs with href
    · obtain rfl := Option.some.inj hs
      cases hget : ledger.byRef.get? ref with
      | none => exact ⟨by simp [keepBetter], href.symm⟩
      | some best =>
          obtain ⟨hmem, hbestref⟩ := h.observed ref best hget
          rw [keepBetter]
          split_ifs
          · exact ⟨by simp, href.symm⟩
          · exact ⟨List.mem_append_left _ hmem, hbestref⟩
    · obtain ⟨hmem, hsref⟩ := h.observed ref s hs
      exact ⟨List.mem_append_left _ hmem, hsref⟩
  unbeaten := by
    intro o ho s hs
    rw [get?_addOne] at hs
    split_ifs at hs with href
    · obtain rfl := Option.some.inj hs
      rcases List.mem_append.mp ho with ho | ho
      · obtain ⟨best, hget⟩ := Option.isSome_iff_exists.mp (h.known o ho)
        rw [hget, keepBetter]
        split_ifs with hbetter
        · -- what beats the new one would have beaten the old one
          intro hbeaten
          exact h.unbeaten o ho best hget
            (PyFloat.lt_of_le_of_lt (PyFloat.le_of_lt hbetter) hbeaten)
        · exact h.unbeaten o ho best hget
      · rw [List.mem_singleton.mp ho]
        unfold keepBetter
        split
        · exact PyFloat.lt_irrefl _
        · split_ifs with hbetter
          · exact PyFloat.lt_irrefl _
          · exact hbetter
    · rcases List.mem_append.mp ho with ho | ho
      · exact h.unbeaten o ho s hs
      · exact absurd (congrArg Source.ref (List.mem_singleton.mp ho)) href
  best := by
    intro ref s hs hc
    rw [get?_addOne] at hs
    split_ifs at hs with href
    · obtain rfl := Option.some.inj hs
      cases hget : ledger.byRef.get? ref with
      | some best => exact (h.best ref best hget hc.of_append).snoc href.symm hc
      | none =>
          refine ⟨observations, [], rfl, href.symm, ?_, by simp⟩
          -- an earlier observation of the ref would be held
          intro o ho horef
          have hsome := h.known o ho
          rw [horef, hget] at hsome
          exact absurd hsome (by simp)
    · exact (h.best ref s hs hc.of_append).skip (Ne.symm href)

theorem Holds.add (h : ledger.Holds observations) (batch : List Source) :
    (ledger.add batch).1.Holds (observations ++ batch) := by
  induction batch using List.reverseRecOn with
  | nil => simpa [EvidenceLedger.add] using h
  | append_singleton batch x ih =>
      rw [add_snoc, ← List.append_assoc]
      exact ih.addOne x

/-- A ledger that has recorded nothing. -/
theorem holds_fresh (maxChars maxQuoteChars : ℤ) :
    (⟨maxChars, maxQuoteChars, .empty⟩ : EvidenceLedger).Holds [] where
  known := by simp
  observed := by simp [Dict.get?, Dict.empty]
  unbeaten := by simp
  best := by simp [Dict.get?, Dict.empty]

theorem holds_addAll (maxChars maxQuoteChars : ℤ) (batches : List (List Source)) :
    ((⟨maxChars, maxQuoteChars, .empty⟩ : EvidenceLedger).addAll batches).Holds
      batches.flatten := by
  rw [addAll_eq]
  exact (holds_fresh maxChars maxQuoteChars).add batches.flatten

/-- What is held is held under its own ref. -/
theorem Holds.keyedBy (h : ledger.Holds observations) : ledger.byRef.KeyedBy Source.ref := by
  intro item hitem
  have hget : ledger.byRef.get? item.1 = some item.2 := Dict.get?_iff.mpr hitem
  exact (h.observed _ _ hget).2

theorem Holds.mem_values_iff (h : ledger.Holds observations) {s : Source}
    (hc : Comparable observations s.ref) :
    s ∈ ledger.byRef.values ↔ FirstBest observations s.ref s := by
  rw [h.keyedBy.mem_values_iff, h.get?_iff hc]

theorem Holds.refs (h : ledger.Holds observations) :
    ledger.byRef.values.map Source.ref = ledger.byRef.keys := by
  rw [Dict.values, Dict.keys, List.map_map]
  exact List.map_congr_left fun item hitem => h.keyedBy item hitem

theorem Holds.addOne_of_mem (h : ledger.Holds observations) {source : Source}
    (hmem : source ∈ observations) : ledger.addOne source = (ledger, []) := by
  obtain ⟨best, hbest⟩ := Option.isSome_iff_exists.mp (h.known source hmem)
  unfold EvidenceLedger.addOne
  rw [hbest]
  exact if_neg (h.unbeaten source hmem best hbest)

/-- What has been observed adds nothing. -/
theorem Holds.add_of_subset (h : ledger.Holds observations) {batch : List Source}
    (hsub : ∀ s ∈ batch, s ∈ observations) : ledger.add batch = (ledger, []) := by
  induction batch with
  | nil => rfl
  | cons source rest ih =>
      rw [EvidenceLedger.add, h.addOne_of_mem (hsub source List.mem_cons_self)]
      dsimp only
      rw [ih fun s hs => hsub s (List.mem_cons_of_mem _ hs)]
      rfl

end EvidenceLedger

theorem firstOccurrences_snoc (known : List String) (batch : List Source) (x : Source) :
    firstOccurrences known (batch ++ [x])
      = firstOccurrences known batch
        ++ if x.ref ∈ known ++ batch.map Source.ref then [] else [x] := by
  rw [firstOccurrences, List.zipIdx_append, List.filter_append, List.map_append]
  congr 1
  · rw [firstOccurrences]
    congr 1
    refine List.filter_congr ?_
    intro o ho
    have hlt : o.2 < batch.length := by
      have := List.mem_zipIdx ho
      omega
    rw [List.take_append_of_le_length hlt.le]
  · by_cases hx : x.ref ∈ known ++ batch.map Source.ref
    · rw [if_pos hx]
      rcases List.mem_append.mp hx with hk | hb
      · simp [hk]
      · simp [List.mem_map.mp hb]
    · rw [if_neg hx]
      rw [List.mem_append, not_or] at hx
      simp only [List.zipIdx_singleton, List.filter_cons, Nat.zero_add, List.take_left', hx.1, hx.2]
      simp

theorem EvidenceLedger.Holds.added {ledger : EvidenceLedger} {observations : List Source}
    (h : ledger.Holds observations) (batch : List Source) :
    (ledger.add batch).2 = firstOccurrences (observations.map Source.ref) batch := by
  induction batch using List.reverseRecOn with
  | nil => rfl
  | append_singleton batch x ih =>
      rw [firstOccurrences_snoc, EvidenceLedger.add_snoc, EvidenceLedger.addOne_new, ← ih,
        ← List.map_append]
      simp only [(h.add batch).isSome_iff]

theorem firstOccurrences_sublist (known : List String) (batch : List Source) :
    (firstOccurrences known batch).Sublist batch := by
  have hfilter := (List.filter_sublist (p := fun o : Source × Nat =>
    o.1.ref ∉ known ∧ o.1.ref ∉ (batch.take o.2).map Source.ref) (l := batch.zipIdx)).map Prod.fst
  rwa [List.zipIdx_map_fst] at hfilter

theorem firstOccurrences_nodup (known : List String) (batch : List Source) :
    ((firstOccurrences known batch).map Source.ref).Nodup := by
  induction batch using List.reverseRecOn with
  | nil => exact List.nodup_nil
  | append_singleton batch x ih =>
      rw [firstOccurrences_snoc]
      split_ifs with hx
      · simpa using ih
      · rw [List.map_append, List.nodup_append]
        refine ⟨ih, by simp, ?_⟩
        intro a ha b hb
        rintro rfl
        have hmem := ((firstOccurrences_sublist known batch).map Source.ref).subset ha
        rw [List.map_singleton, List.mem_singleton] at hb
        exact hx (List.mem_append_right _ (hb ▸ hmem))

/-- The score that stands under a ref is the best of its observations, whatever their order. -/
theorem FirstBest.score_eq_of_perm {observations observations' : List Source} {ref : String}
    {s s' : Source} (hperm : observations.Perm observations') (hc : Comparable observations ref)
    (h : FirstBest observations ref s) (h' : FirstBest observations' ref s') :
    s.score = s'.score := by
  have hc' : Comparable observations' ref := fun o ho => hc o (hperm.mem_iff.mpr ho)
  apply PyFloat.le_antisymm
  · exact h'.score_le hc' (hperm.mem_iff.mp h.mem.1) h.mem.2
  · exact h.score_le hc (hperm.mem_iff.mpr h'.mem.1) h'.mem.2

theorem EvidenceLedger.Holds.score_eq {ledger ledger' : EvidenceLedger}
    {observations observations' : List Source} (h : ledger.Holds observations)
    (h' : ledger'.Holds observations') (hperm : observations.Perm observations') {ref : String}
    (hc : Comparable observations ref) :
    (ledger.byRef.get? ref).map Source.score = (ledger'.byRef.get? ref).map Source.score := by
  have hknown : (ledger.byRef.get? ref).isSome ↔ (ledger'.byRef.get? ref).isSome := by
    rw [h.isSome_iff, h'.isSome_iff]
    exact (hperm.map _).mem_iff
  cases hget : ledger.byRef.get? ref with
  | none =>
      rw [hget] at hknown
      cases hget' : ledger'.byRef.get? ref with
      | none => rfl
      | some s' =>
          rw [hget'] at hknown
          exact absurd (hknown.mpr rfl) (by simp)
  | some s =>
      rw [hget] at hknown
      obtain ⟨s', hget'⟩ := Option.isSome_iff_exists.mp (hknown.mp rfl)
      rw [hget']
      have hc' : Comparable observations' ref := fun o ho => hc o (hperm.mem_iff.mpr ho)
      exact congrArg some
        ((h.best _ _ hget hc).score_eq_of_perm hperm hc (h'.best _ _ hget' hc'))

/-- After any calls of `add` on a fresh ledger, whatever they bring. Which observation of a ref is
kept, and the order of the sources, is settled where the scores compare. -/
theorem ledger_keeps_best (maxChars maxQuoteChars : ℤ) (batches : List (List Source)) :
    let fresh : EvidenceLedger := ⟨maxChars, maxQuoteChars, .empty⟩
    let ledger := fresh.addAll batches
    let observed := batches.flatten
    (∀ ref ∈ observed.map Source.ref, ∃! s, s ∈ ledger.byRef.values ∧ s.ref = ref)
      ∧ (ledger.byRef.values.map Source.ref).Nodup
      ∧ (∀ s ∈ ledger.byRef.values, s ∈ observed)
      ∧ (∀ s, Comparable observed s.ref →
        (s ∈ ledger.byRef.values ↔ FirstBest observed s.ref s))
      ∧ (∀ batch, (ledger.add batch).2 = firstOccurrences (observed.map Source.ref) batch
        ∧ ((ledger.add batch).2.map Source.ref).Nodup
        ∧ (ledger.add batch).2.Sublist batch)
      ∧ (∀ batch ∈ batches, ledger.add batch = (ledger, []))
      ∧ ledger.sources.Perm ledger.byRef.values
      ∧ ((∀ s ∈ ledger.byRef.values, s.score ≠ .nan) →
        ledger.sources.Pairwise fun s t => t.score ≤ s.score)
      ∧ ∀ batches', batches'.flatten.Perm observed → ∀ ref, Comparable observed ref →
          ((fresh.addAll batches').byRef.get? ref).map Source.score
            = (ledger.byRef.get? ref).map Source.score := by
  intro fresh ledger observed
  have h : ledger.Holds observed := EvidenceLedger.holds_addAll maxChars maxQuoteChars batches
  refine ⟨?_, ?_, ?_, fun s hc => h.mem_values_iff hc, ?_, ?_, PyFloat.sortedDesc_perm _ _,
    PyFloat.sortedDesc_pairwise, ?_⟩
  · intro ref href
    obtain ⟨s, hs⟩ := Option.isSome_iff_exists.mp ((h.isSome_iff ref).mpr href)
    obtain ⟨-, hsref⟩ := h.observed ref s hs
    refine ⟨s, ⟨Dict.mem_values_of_get? hs, hsref⟩, ?_⟩
    rintro s' ⟨hs', hsref'⟩
    rw [h.keyedBy.mem_values_iff, hsref', hs] at hs'
    exact (Option.some.inj hs').symm
  · rw [h.refs]
    exact ledger.byRef.nodup
  · intro s hs
    rw [h.keyedBy.mem_values_iff] at hs
    exact (h.observed _ _ hs).1
  · intro batch
    rw [h.added]
    exact ⟨rfl, firstOccurrences_nodup _ _, firstOccurrences_sublist _ _⟩
  · intro batch hbatch
    exact h.add_of_subset fun s hs => List.mem_flatten.mpr ⟨batch, hbatch, hs⟩
  · intro batches' hperm ref hc
    have hc' : Comparable batches'.flatten ref := fun o ho => hc o (hperm.mem_iff.mp ho)
    exact (EvidenceLedger.holds_addAll maxChars maxQuoteChars batches').score_eq h hperm hc'

/-- A NaN that comes first stays, and one that comes later is dropped. -/
theorem nan_keeps_first : ¬ ∀ (maxChars maxQuoteChars : ℤ) (batches batches' : List (List Source)),
    batches'.flatten.Perm batches.flatten → ∀ ref,
      (((⟨maxChars, maxQuoteChars, .empty⟩ : EvidenceLedger).addAll batches').byRef.get? ref).map
          Source.score
        = (((⟨maxChars, maxQuoteChars, .empty⟩ : EvidenceLedger).addAll batches).byRef.get? ref).map
          Source.score := by
  intro h
  let unscored : Source := { kind := .tool, ref := "r", score := .nan }
  let plain : Source := { kind := .tool, ref := "r", score := 1 }
  have hkept := h 6000 500 [[unscored, plain]] [[plain, unscored]] (List.Perm.swap _ _ _) "r"
  have hfirst : (1 : PyFloat) = .nan := Option.some.inj hkept
  cases hfirst

end Rag
