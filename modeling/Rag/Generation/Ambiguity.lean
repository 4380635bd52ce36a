import Rag.Generation.Resolution

/-!
When the order of the sources does not matter to the citations.

A marker that equals no reference and abbreviates several stands for the first of them in the
list. The citations of a text are the same in every order of the sources exactly when each
reference that a marker may stand for is settled by some marker, one that can stand for nothing
else, and no reference is mentioned before another one that is settled earlier
(`same_citations_iff`).
-/

namespace Rag

open Py Naming

section Markers

variable (refs : List String) (token ref : String)

/-- The marker equals the reference, or equals none and names this one. -/
def MayStand : Prop := ref ∈ refs ∧ (token = ref ∨ token ∉ refs ∧ Names token ref)

instance : Decidable (MayStand refs token ref) := inferInstanceAs (Decidable (_ ∧ _))

/-- The marker can stand for nothing else. -/
def Settles : Prop := MayStand refs token ref ∧ ∀ r ∈ refs, MayStand refs token r → r = ref

instance : Decidable (Settles refs token ref) := inferInstanceAs (Decidable (_ ∧ _))

variable (tokens : List String)

/-- Where a marker may stand for the reference for the first time. -/
def mentionedAt : Nat := tokens.findIdx fun token => MayStand refs token ref

/-- Where the reference is settled for the first time. -/
def settledAt : Nat := tokens.findIdx fun token => Settles refs token ref

/-- Whatever a marker may stand for is settled, and nothing is mentioned before what is settled
earlier. -/
structure Determined : Prop where
  settled : ∀ token ∈ tokens, ∀ ref, MayStand refs token ref → ∃ u ∈ tokens, Settles refs u ref
  ordered : ∀ ref other, settledAt refs other tokens < settledAt refs ref tokens →
    settledAt refs other tokens < mentionedAt refs ref tokens

end Markers

section Picks

variable {refs refs' : List String} {token ref other : String}

theorem MayStand.perm (hperm : refs'.Perm refs) :
    MayStand refs' token ref ↔ MayStand refs token ref := by
  rw [MayStand, MayStand, hperm.mem_iff, hperm.mem_iff]

theorem Settles.perm (hperm : refs'.Perm refs) :
    Settles refs' token ref ↔ Settles refs token ref := by
  simp only [Settles, MayStand.perm hperm, hperm.mem_iff]

theorem Settles.unique (h : Settles refs token ref) (hother : MayStand refs token other) :
    other = ref :=
  h.2 other hother.1 hother

/-- The reference a marker settles. -/
def settledRef (refs : List String) (token : String) : Option String :=
  refs.find? fun ref => Settles refs token ref

theorem settledRef_eq_some : settledRef refs token = some ref ↔ Settles refs token ref := by
  constructor
  · intro h
    simpa using List.find?_some h
  · intro h
    cases hfound : settledRef refs token with
    | none =>
        have hnone := List.find?_eq_none.mp hfound ref h.1.1
        exact absurd h (by simpa using hnone)
    | some found =>
        have hsettles : Settles refs token found := by simpa using List.find?_some hfound
        rw [hsettles.unique h.1]

theorem pickRef_mayStand (h : pickRef refs token = some ref) : MayStand refs token ref := by
  unfold pickRef at h
  split_ifs at h with hexact
  · cases h
    exact ⟨hexact, .inl rfl⟩
  · have hnames : Names token ref := by simpa using List.find?_some h
    exact ⟨List.mem_of_find?_eq_some h, .inr ⟨hexact, hnames⟩⟩

theorem pickRef_of_settles (h : Settles refs token ref) : pickRef refs token = some ref := by
  cases hpick : pickRef refs token with
  | some picked => rw [h.unique (pickRef_mayStand hpick)]
  | none =>
      unfold pickRef at hpick
      split_ifs at hpick with hexact
      rcases h.1 with ⟨hmem, rfl | ⟨-, hnames⟩⟩
      · exact absurd hmem hexact
      · have hnone := List.find?_eq_none.mp hpick ref hmem
        exact absurd hnames (by simpa using hnone)

/-- The first reference is picked wherever it may be. -/
theorem pickRef_first_iff (rest : List String) :
    pickRef (ref :: rest) token = some ref ↔ MayStand (ref :: rest) token ref := by
  refine ⟨pickRef_mayStand, ?_⟩
  rintro ⟨-, rfl | ⟨hexact, hnames⟩⟩
  · rw [pickRef, if_pos List.mem_cons_self]
  · rw [pickRef, if_neg hexact, List.find?_cons_of_pos (by simpa using hnames)]

/-- The last reference is picked only where nothing else may be. -/
theorem pickRef_last_iff {front : List String} (hlast : ref ∉ front) :
    pickRef (front ++ [ref]) token = some ref ↔ Settles (front ++ [ref]) token ref := by
  refine ⟨fun h => ⟨pickRef_mayStand h, ?_⟩, pickRef_of_settles⟩
  rintro other hmem ⟨-, rfl | ⟨hexact, hnames⟩⟩
  · rw [pickRef, if_pos hmem] at h
    exact Option.some.inj h
  · rw [pickRef, if_neg hexact, List.find?_append] at h
    rcases List.mem_append.mp hmem with hfront | hother
    · cases hfound : front.find? fun ref => decide (Names token ref) with
      | none =>
          have hnone := List.find?_eq_none.mp hfound other hfront
          exact absurd hnames (by simpa using hnone)
      | some found =>
          rw [hfound, Option.some_or] at h
          cases h
          exact absurd (List.mem_of_find?_eq_some hfound) hlast
    · exact List.mem_singleton.mp hother

end Picks

section Orders

variable {refs tokens : List String} {ref other : String}

theorem settledAt_eq (refs tokens : List String) (ref : String) :
    settledAt refs ref tokens = firstAt (settledRef refs) ref tokens := by
  simp only [settledAt, firstAt, settledRef_eq_some]

theorem settledAt_perm {refs' : List String} (hperm : refs'.Perm refs) :
    settledAt refs' ref tokens = settledAt refs ref tokens := by
  simp only [settledAt, Settles.perm hperm]

theorem mentionedAt_perm {refs' : List String} (hperm : refs'.Perm refs) :
    mentionedAt refs' ref tokens = mentionedAt refs ref tokens := by
  simp only [mentionedAt, MayStand.perm hperm]

theorem Determined.perm {refs' : List String} (hperm : refs'.Perm refs)
    (h : Determined refs tokens) : Determined refs' tokens := by
  constructor
  · intro token htoken ref hmay
    obtain ⟨u, hu, hsettles⟩ := h.settled token htoken ref ((MayStand.perm hperm).mp hmay)
    exact ⟨u, hu, (Settles.perm hperm).mpr hsettles⟩
  · intro ref other hlt
    rw [settledAt_perm hperm, settledAt_perm hperm] at hlt
    rw [settledAt_perm hperm, mentionedAt_perm hperm]
    exact h.ordered ref other hlt

theorem mentionedAt_le_pick (refs tokens : List String) (ref : String) :
    mentionedAt refs ref tokens ≤ firstAt (pickRef refs) ref tokens := by
  refine List.findIdx_le_findIdx ?_
  intro token _ hpick
  exact decide_eq_true (pickRef_mayStand (of_decide_eq_true hpick))

theorem pick_le_settledAt (refs tokens : List String) (ref : String) :
    firstAt (pickRef refs) ref tokens ≤ settledAt refs ref tokens := by
  refine List.findIdx_le_findIdx ?_
  intro token _ hsettles
  exact decide_eq_true (pickRef_of_settles (of_decide_eq_true hsettles))

theorem pick_first (rest : List String) :
    firstAt (pickRef (ref :: rest)) ref tokens = mentionedAt (ref :: rest) ref tokens := by
  simp only [firstAt, mentionedAt, pickRef_first_iff]

theorem pick_last {front : List String} (hlast : ref ∉ front) :
    firstAt (pickRef (front ++ [ref])) ref tokens = settledAt (front ++ [ref]) ref tokens := by
  simp only [firstAt, settledAt, pickRef_last_iff hlast]

/-- What is settled first is settled by a marker. -/
theorem settles_of_settledAt (h : settledAt refs ref tokens < tokens.length) :
    ∃ token ∈ tokens, Settles refs token ref := by
  obtain ⟨token, htoken, hsettles⟩ := List.findIdx_lt_length.mp h
  exact ⟨token, htoken, of_decide_eq_true hsettles⟩

/-- No marker mentions one reference and settles another. -/
theorem mentionedAt_ne_settledAt (hne : ref ≠ other)
    (h : settledAt refs other tokens < tokens.length) :
    mentionedAt refs ref tokens ≠ settledAt refs other tokens := by
  intro heq
  have hmentions := @List.findIdx_getElem _ (fun token => decide (MayStand refs token ref)) tokens
    (heq.trans_lt h)
  have hsettles := @List.findIdx_getElem _ (fun token => decide (Settles refs token other)) tokens h
  have hmay := of_decide_eq_true hmentions
  have hsettled : Settles refs tokens[mentionedAt refs ref tokens] other := by
    simp only [heq]
    exact of_decide_eq_true hsettles
  exact hne (hsettled.unique hmay)

theorem settledAt_inj (h : settledAt refs ref tokens = settledAt refs other tokens)
    (hwithin : settledAt refs ref tokens < tokens.length) : ref = other := by
  have href := @List.findIdx_getElem _ (fun token => decide (Settles refs token ref)) tokens hwithin
  have hother := @List.findIdx_getElem _ (fun token => decide (Settles refs token other)) tokens
    (h.symm.trans_lt hwithin)
  have hsettled : Settles refs tokens[settledAt refs ref tokens] other := by
    simp only [h]
    exact of_decide_eq_true hother
  exact hsettled.unique (of_decide_eq_true href : Settles refs _ ref).1

/-- In every order the markers of determined references pick what they settle. -/
theorem Determined.firsts_pick (h : Determined refs tokens) :
    firsts (pickRef refs) tokens = firsts (settledRef refs) tokens := by
  apply firsts_congr_of_order
  · intro ref
    constructor
    · rintro ⟨token, htoken, hpick⟩
      obtain ⟨u, hu, hsettles⟩ := h.settled token htoken ref (pickRef_mayStand hpick)
      exact ⟨u, hu, settledRef_eq_some.mpr hsettles⟩
    · rintro ⟨token, htoken, hsettled⟩
      exact ⟨token, htoken, pickRef_of_settles (settledRef_eq_some.mp hsettled)⟩
  · intro ref other hmem hother hlt
    rw [← settledAt_eq, ← settledAt_eq]
    by_contra hnot
    have hne : ref ≠ other := by
      rintro rfl
      exact lt_irrefl _ hlt
    have hwithin : settledAt refs ref tokens < tokens.length := by
      rw [settledAt_eq]
      exact firstAt_lt_length.mpr (mem_firsts.mp hmem)
    have hle := mentionedAt_le_pick refs tokens ref
    have hge := pick_le_settledAt refs tokens other
    rcases lt_or_eq_of_le (not_lt.mp hnot) with hbefore | hsame
    · have hmentioned := h.ordered ref other hbefore
      omega
    · exact hne (settledAt_inj hsame.symm hwithin)

/-- The order in which references are mentioned decides the citations: whatever the markers pick
in every order of the references is settled, in that order. -/
theorem determined_of_same {all : List String} (hnodup : refs.Nodup)
    (h : ∀ order : List String, order.Perm refs → firsts (pickRef order) tokens = all) :
    Determined refs tokens := by
  constructor
  · intro token htoken ref hmay
    obtain ⟨front, back, rfl⟩ := List.append_of_mem hmay.1
    have hfirst : (ref :: (front ++ back)).Perm (front ++ ref :: back) := List.perm_middle.symm
    have hlast : (front ++ back ++ [ref]).Perm (front ++ ref :: back) :=
      (List.perm_append_singleton ref (front ++ back)).trans hfirst
    have hfresh : ref ∉ front ++ back :=
      (List.nodup_cons.mp (hfirst.nodup_iff.mpr hnodup)).1
    have hmem : ref ∈ all := by
      rw [← h _ hfirst]
      refine mem_firsts.mpr ⟨token, htoken, (pickRef_first_iff _).mpr ?_⟩
      exact (MayStand.perm hfirst).mpr hmay
    rw [← h _ hlast] at hmem
    obtain ⟨u, hu, hpick⟩ := mem_firsts.mp hmem
    exact ⟨u, hu, (Settles.perm hlast).mp ((pickRef_last_iff hfresh).mp hpick)⟩
  · intro ref other hlt
    by_contra hnot
    have hwithin : settledAt refs other tokens < tokens.length :=
      hlt.trans_le List.findIdx_le_length
    have hmentioned : mentionedAt refs ref tokens < tokens.length :=
      (not_lt.mp hnot).trans_lt hwithin
    have hne : ref ≠ other := by
      rintro rfl
      exact lt_irrefl _ hlt
    have href : ref ∈ refs := by
      obtain ⟨token, -, hmay⟩ := List.findIdx_lt_length.mp hmentioned
      exact (of_decide_eq_true hmay : MayStand refs token ref).1
    have hother : other ∈ refs := by
      obtain ⟨token, -, hsettles⟩ := settles_of_settledAt hwithin
      exact hsettles.1.1
    obtain ⟨front, back, rfl⟩ := List.append_of_mem href
    have hmiddle : (ref :: (front ++ back)).Perm (front ++ ref :: back) := List.perm_middle.symm
    have hfresh : ref ∉ front ++ back :=
      (List.nodup_cons.mp (hmiddle.nodup_iff.mpr hnodup)).1
    have hrest : other ∈ front ++ back := by
      rcases List.mem_cons.mp (hmiddle.mem_iff.mpr hother) with heq | hrest
      · exact absurd heq.symm hne
      · exact hrest
    obtain ⟨left, right, hsplit⟩ := List.append_of_mem hrest
    -- one order has the reference first and the other last, one has the reference last
    have hperm : (left ++ right ++ [other]).Perm (front ++ back) := by
      rw [hsplit]
      exact (List.perm_append_singleton other (left ++ right)).trans List.perm_middle.symm
    have hahead : (ref :: (left ++ right) ++ [other]).Perm (front ++ ref :: back) :=
      (hperm.cons ref).trans hmiddle
    have hbehind : (front ++ back ++ [ref]).Perm (front ++ ref :: back) :=
      (List.perm_append_singleton ref (front ++ back)).trans hmiddle
    have hlast : other ∉ ref :: (left ++ right) := by
      have hswap := (List.perm_append_singleton other (ref :: (left ++ right))).symm.trans hahead
      exact (List.nodup_cons.mp (hswap.nodup_iff.mpr hnodup)).1
    have hearly : firstAt (pickRef (ref :: (left ++ right) ++ [other])) ref tokens
        < firstAt (pickRef (ref :: (left ++ right) ++ [other])) other tokens := by
      rw [pick_last hlast, List.cons_append, pick_first, ← List.cons_append,
        mentionedAt_perm hahead, settledAt_perm hahead]
      exact lt_of_le_of_ne (not_lt.mp hnot) (mentionedAt_ne_settledAt hne hwithin)
    have hsame := (h _ hahead).trans (h _ hbehind).symm
    have hpicked : ∀ r, firstAt (pickRef (ref :: (left ++ right) ++ [other])) r tokens < tokens.length →
        r ∈ firsts (pickRef (ref :: (left ++ right) ++ [other])) tokens :=
      fun r hr => mem_firsts.mpr (firstAt_lt_length.mp hr)
    have hlate : firstAt (pickRef (front ++ back ++ [ref])) ref tokens
        < firstAt (pickRef (front ++ back ++ [ref])) other tokens := by
      refine firstAt_lt_of_firsts_eq hsame (hpicked ref ?_) (hpicked other ?_) hearly
      · rw [List.cons_append, pick_first, ← List.cons_append, mentionedAt_perm hahead]
        exact hmentioned
      · rw [pick_last hlast, settledAt_perm hahead]
        exact hwithin
    rw [pick_last hfresh, settledAt_perm hbehind] at hlate
    have hle := pick_le_settledAt (front ++ back ++ [ref]) tokens other
    rw [settledAt_perm hbehind] at hle
    omega

/-- The same references are picked in every order exactly when the markers determine them. -/
theorem same_picks_iff (hnodup : refs.Nodup) :
    (∀ order : List String, order.Perm refs →
      firsts (pickRef order) tokens = firsts (pickRef refs) tokens) ↔ Determined refs tokens := by
  refine ⟨determined_of_same hnodup, ?_⟩
  intro h order hperm
  have hsettled : settledRef order = settledRef refs := by
    funext token
    apply Option.ext
    intro ref
    rw [settledRef_eq_some, settledRef_eq_some, Settles.perm hperm]
  rw [(h.perm hperm).firsts_pick, h.firsts_pick, hsettled]

end Orders

/-- Markers that may stand for one reference at most determine the references. -/
theorem determined_of_unambiguous {refs tokens : List String}
    (h : ∀ token ∈ tokens, ∀ ref ∈ refs, ∀ other ∈ refs, MayStand refs token ref →
      MayStand refs token other → other = ref) : Determined refs tokens := by
  have hsettles : ∀ token ∈ tokens, ∀ ref, MayStand refs token ref → Settles refs token ref :=
    fun token htoken ref hmay => ⟨hmay, fun other hother hstands =>
      h token htoken ref hmay.1 other hother hmay hstands⟩
  constructor
  · intro token htoken ref hmay
    exact ⟨token, htoken, hsettles token htoken ref hmay⟩
  · intro ref other hlt
    refine hlt.trans_le (List.findIdx_le_findIdx ?_)
    intro token htoken hmay
    exact decide_eq_true (hsettles token htoken ref (of_decide_eq_true hmay))

def explicitRefs (answerText : String) (sources : List Source) : List String :=
  (resolveSourceCitations answerText sources true).map Citation.ref

theorem explicitRefs_eq (answerText : String) (sources : List Source) :
    explicitRefs answerText sources
      = firsts (pickRef (sources.map Source.ref)) (markers answerText) := by
  have hcited := @resolveHits_cited _ citationFromSource Source.ref sources (fun _ => rfl)
    (markers answerText)
  rw [explicitRefs, resolveSourceCitations_explicit]
  refine hcited.inOrder.trans ?_
  congr 1
  funext token
  exact resolvedRef_index sources token

/-- An order of the references is one of the sources. -/
theorem exists_perm_map {α β : Type} {f : α → β} {xs : List α} {ys : List β}
    (h : ys.Perm (xs.map f)) : ∃ order : List α, order.Perm xs ∧ order.map f = ys := by
  induction xs generalizing ys with
  | nil => exact ⟨[], .nil, (List.perm_nil.mp h).symm⟩
  | cons x xs ih =>
      obtain ⟨front, back, rfl⟩ := List.append_of_mem (h.mem_iff.mpr List.mem_cons_self)
      have hrest : (front ++ back).Perm (xs.map f) :=
        (List.perm_middle.symm.trans h).cons_inv
      obtain ⟨order, hperm, hmap⟩ := ih hrest
      obtain ⟨left, right, rfl, rfl, rfl⟩ := List.map_eq_append_iff.mp hmap
      exact ⟨left ++ x :: right, List.perm_middle.trans (hperm.cons x), by simp⟩

/-- The citations of a text are the same in every order of its sources exactly when the markers
determine them. -/
theorem same_citations_iff {answerText : String} {sources : List Source}
    (hnodup : (sources.map Source.ref).Nodup) :
    (∀ order : List Source, order.Perm sources →
      explicitRefs answerText order = explicitRefs answerText sources)
    ↔ Determined (sources.map Source.ref) (markers answerText) := by
  rw [← same_picks_iff hnodup]
  constructor
  · intro h order hperm
    obtain ⟨other, hother, rfl⟩ := exists_perm_map hperm
    have hsame := h other hother
    rwa [explicitRefs_eq, explicitRefs_eq] at hsame
  · intro h order hperm
    rw [explicitRefs_eq, explicitRefs_eq]
    exact h _ (hperm.map Source.ref)

section Examples

/-- Markers that are the references themselves. -/
theorem same_citations_iff_exact :
    explicitRefs "[ab-2] and [ab-1]" [webPage "ab-2", webPage "ab-1"] = ["ab-2", "ab-1"] := by
  have hmarkers : markers "[ab-2] and [ab-1]" = ["ab-2", "ab-1"] := by decide +kernel
  have hdetermined : Determined ["ab-1", "ab-2"] (markers "[ab-2] and [ab-1]") := by
    rw [hmarkers]
    exact determined_of_unambiguous (by decide +kernel)
  have hiff := @same_citations_iff "[ab-2] and [ab-1]" [webPage "ab-1", webPage "ab-2"] (by decide)
  rw [hiff.mpr hdetermined _ (List.Perm.swap _ _ _)]
  decide +kernel

/-- What an ambiguous marker cites depends on which source comes first. -/
theorem ambiguous_marker_follows_order :
    ¬ ∀ (answerText : String) (sources order : List Source), (sources.map Source.ref).Nodup →
      order.Perm sources → explicitRefs answerText order = explicitRefs answerText sources := by
  intro h
  have hsame := h "As said [note]." [webPage "note-1", webPage "note-2"]
    [webPage "note-2", webPage "note-1"] (by decide) (List.Perm.swap _ _ _)
  exact absurd hsame (by decide +kernel)

end Examples

end Rag
