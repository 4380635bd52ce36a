import Rag.Lib.Regex

/-!
What a flat pattern matches, and that substitution leaves no match behind.

`Fits` reads a pattern declaratively; the backtracking matcher finds a match exactly
where there is one. A pattern fenced by word boundaries is not matched anywhere in a text
it has been substituted in, as long as the replacement is bracketed by characters no item
accepts: what is left between two replacements sees the same boundaries as before.
-/

namespace Py

namespace Regex

/-- The character before a position that `u` leads up to. -/
def lastOf : Option Char → List Char → Option Char
  | previous, [] => previous
  | _, c :: u => lastOf (some c) u

theorem lastOf_append (previous : Option Char) (u v : List Char) :
    lastOf previous (u ++ v) = lastOf (lastOf previous u) v := by
  induction u generalizing previous with
  | nil => rfl
  | cons c u ih => exact ih (some c)

theorem lastOf_mem (previous : Option Char) {u : List Char} (h : u ≠ []) :
    ∃ c ∈ u, lastOf previous u = some c := by
  induction u generalizing previous with
  | nil => exact absurd rfl h
  | cons c u ih =>
      by_cases hu : u = []
      · subst hu
        exact ⟨c, List.mem_cons_self, rfl⟩
      · obtain ⟨d, hd, hlast⟩ := ih (some c) hu
        exact ⟨d, List.mem_cons_of_mem _ hd, hlast⟩

theorem lastOf_congr {u : List Char} (h : u ≠ []) (previous previous' : Option Char) :
    lastOf previous u = lastOf previous' u := by
  cases u with
  | nil => exact absurd rfl h
  | cons c u => rfl

/-- A character an item can consume. -/
def Item.Accepts : Item → Char → Prop
  | .boundary, _ => False
  | .rep cls _ _, c => cls c = true

section Fits

variable [Runtime]

/-- `w` fits the pattern between the characters `previous` and `next`. -/
def Fits : List Item → Option Char → List Char → Option Char → Prop
  | [], _, w, _ => w = []
  | .boundary :: items, previous, w, next =>
      isWordAt previous ≠ isWordAt (w.head?.or next) ∧ Fits items previous w next
  | .rep cls lo hi :: items, previous, w, next => ∃ u v, w = u ++ v
      ∧ (∀ c ∈ u, cls c = true) ∧ lo ≤ u.length ∧ (∀ n, hi = some n → u.length ≤ n)
      ∧ Fits items (lastOf previous u) v next

omit [Runtime] in
theorem repeatMatch_sound {cls : Char → Bool}
    {rest : Option Char → List Char → Option (List Char)} {cs tail : List Char} {lo : Nat}
    {hi : Option Nat} {previous : Option Char}
    (h : repeatMatch cls rest lo hi previous cs = some tail) :
    ∃ u v, cs = u ++ v ∧ (∀ c ∈ u, cls c = true) ∧ lo ≤ u.length
      ∧ (∀ n, hi = some n → u.length ≤ n) ∧ rest (lastOf previous u) v = some tail := by
  induction cs generalizing lo hi previous with
  | nil =>
      rw [repeatMatch] at h
      split_ifs at h with hlo
      exact ⟨[], [], rfl, by simp, by simp [hlo], by simp, h⟩
  | cons c cs ih =>
      have hhere : lo = 0 → rest previous (c :: cs) = some tail →
          ∃ u v, c :: cs = u ++ v ∧ (∀ c ∈ u, cls c = true) ∧ lo ≤ u.length
            ∧ (∀ n, hi = some n → u.length ≤ n) ∧ rest (lastOf previous u) v = some tail :=
        fun hlo hrest => ⟨[], c :: cs, rfl, by simp, by simp [hlo], by simp, hrest⟩
      rw [repeatMatch] at h
      split at h
      · rename_i longer hlonger
        cases h
        split_ifs at hlonger with htake
        obtain ⟨hcls, hbound⟩ := Bool.and_eq_true_iff.mp htake
        obtain ⟨u, v, rfl, hu, hlo, hhi, hrest⟩ := ih hlonger
        refine ⟨c :: u, v, rfl, ?_, ?_, ?_, hrest⟩
        · simpa [hcls] using hu
        · simp only [List.length_cons]
          omega
        · rintro n rfl
          have hle := hhi (n - 1) rfl
          have hpos : n ≠ 0 := by
            rintro rfl
            simp at hbound
          simp only [List.length_cons]
          omega
      · split_ifs at h with hlo
        exact hhere hlo h

omit [Runtime] in
theorem repeatMatch_complete {cls : Char → Bool}
    {rest : Option Char → List Char → Option (List Char)} {u v : List Char} (lo : Nat)
    (hi : Option Nat) (previous : Option Char) (hu : ∀ c ∈ u, cls c = true)
    (hlo : lo ≤ u.length) (hhi : ∀ n, hi = some n → u.length ≤ n)
    (hrest : (rest (lastOf previous u) v).isSome) :
    (repeatMatch cls rest lo hi previous (u ++ v)).isSome := by
  induction u generalizing lo hi previous with
  | nil =>
      have hzero : lo = 0 := by simpa using hlo
      cases v with
      | nil => simpa [repeatMatch, hzero, lastOf] using hrest
      | cons d v =>
          rw [List.nil_append, repeatMatch]
          split
          · rfl
          · rw [if_pos hzero]
            exact hrest
  | cons c u ih =>
      have hhead : cls c = true := hu c List.mem_cons_self
      have hbound : (hi != some 0) = true := by
        rw [bne_iff_ne]
        rintro rfl
        simpa using hhi 0 rfl
      have hlonger := ih (lo - 1) (hi.map (· - 1)) (some c)
        (fun d hd => hu d (List.mem_cons_of_mem _ hd)) (by simp only [List.length_cons] at hlo; omega)
        (by
          intro n hn
          obtain ⟨m, hm, rfl⟩ := Option.map_eq_some_iff.mp hn
          have hle := hhi m hm
          simp only [List.length_cons] at hle
          omega)
        hrest
      obtain ⟨tail, htail⟩ := Option.isSome_iff_exists.mp hlonger
      rw [List.cons_append, repeatMatch]
      rw [if_pos (by rw [hhead, hbound]; rfl), htail]
      rfl

omit [Runtime] in
theorem head?_append_or (w tail : List Char) : (w ++ tail).head? = w.head?.or tail.head? := by
  cases w <;> rfl

theorem matchItems_sound {items : List Item} {previous : Option Char} {cs tail : List Char}
    (h : matchItems items previous cs = some tail) :
    ∃ w, cs = w ++ tail ∧ Fits items previous w tail.head? := by
  induction items generalizing previous cs with
  | nil =>
      cases h
      exact ⟨[], rfl, rfl⟩
  | cons item items ih =>
      cases item with
      | boundary =>
          rw [matchItems] at h
          split_ifs at h with hboundary
          obtain ⟨w, rfl, hw⟩ := ih h
          rw [head?_append_or, bne_iff_ne] at hboundary
          exact ⟨w, rfl, hboundary, hw⟩
      | rep cls lo hi =>
          rw [matchItems] at h
          obtain ⟨u, v, rfl, hu, hlo, hhi, hrest⟩ := repeatMatch_sound h
          obtain ⟨w, rfl, hw⟩ := ih hrest
          exact ⟨u ++ w, by simp, u, w, rfl, hu, hlo, hhi, hw⟩

theorem matchItems_complete {items : List Item} {previous : Option Char} {w tail : List Char}
    (h : Fits items previous w tail.head?) : (matchItems items previous (w ++ tail)).isSome := by
  induction items generalizing previous w with
  | nil =>
      cases h
      rfl
  | cons item items ih =>
      cases item with
      | boundary =>
          rw [matchItems, if_pos]
          · exact ih h.2
          · rw [head?_append_or, bne_iff_ne]
            exact h.1
      | rep cls lo hi =>
          obtain ⟨u, v, rfl, hu, hlo, hhi, hrest⟩ := h
          rw [matchItems, List.append_assoc]
          exact repeatMatch_complete _ _ _ hu hlo hhi (ih hrest)

/-- Boundaries only look at whether their neighbours are word characters. -/
theorem Fits.move {items : List Item} {previous previous' : Option Char} {w : List Char}
    {next next' : Option Char} (h : Fits items previous w next)
    (hprevious : isWordAt previous' = isWordAt previous) (hnext : isWordAt next' = isWordAt next) :
    Fits items previous' w next' := by
  induction items generalizing previous previous' w with
  | nil => exact h
  | cons item items ih =>
      cases item with
      | boundary =>
          refine ⟨?_, ih h.2 hprevious⟩
          rw [hprevious]
          have hhead : isWordAt (w.head?.or next') = isWordAt (w.head?.or next) := by
            cases w with
            | nil => exact hnext
            | cons c w => rfl
          rw [hhead]
          exact h.1
      | rep cls lo hi =>
          obtain ⟨u, v, rfl, hu, hlo, hhi, hrest⟩ := h
          refine ⟨u, v, rfl, hu, hlo, hhi, ih hrest ?_⟩
          cases u with
          | nil => exact hprevious
          | cons c u => rfl

theorem Fits.accepted {items : List Item} {previous next : Option Char} {w : List Char}
    (h : Fits items previous w next) : ∀ c ∈ w, ∃ item ∈ items, item.Accepts c := by
  induction items generalizing previous w with
  | nil =>
      rw [Fits] at h
      simp [h]
  | cons item items ih =>
      intro c hc
      cases item with
      | boundary =>
          obtain ⟨item, hitem, haccepts⟩ := ih h.2 c hc
          exact ⟨item, List.mem_cons_of_mem _ hitem, haccepts⟩
      | rep cls lo hi =>
          obtain ⟨u, v, rfl, hu, -, -, hrest⟩ := h
          rcases List.mem_append.mp hc with hc | hc
          · exact ⟨_, List.mem_cons_self, hu c hc⟩
          · obtain ⟨item, hitem, haccepts⟩ := ih hrest c hc
            exact ⟨item, List.mem_cons_of_mem _ hitem, haccepts⟩

/-- An item that has to be there is. -/
theorem Fits.consumes {items : List Item} {previous next : Option Char} {w : List Char}
    (h : Fits items previous w next) {cls : Char → Bool} {lo : Nat} {hi : Option Nat}
    (hitem : .rep cls (lo + 1) hi ∈ items) : ∃ c ∈ w, cls c = true := by
  induction items generalizing previous w with
  | nil => cases hitem
  | cons item items ih =>
      rcases List.mem_cons.mp hitem with rfl | hin
      · obtain ⟨u, v, rfl, hu, hlo, -, -⟩ := h
        cases u with
        | nil => simp at hlo
        | cons c u => exact ⟨c, by simp, hu c List.mem_cons_self⟩
      · cases item with
        | boundary => exact ih h.2 hin
        | rep cls' lo' hi' =>
            obtain ⟨u, v, rfl, -, -, -, hrest⟩ := h
            obtain ⟨c, hc, hcls⟩ := ih hrest hin
            exact ⟨c, List.mem_append_right _ hc, hcls⟩

/-- A pattern that ends in characters of a class and a boundary. -/
theorem Fits.ends {items : List Item} {cls : Char → Bool} {lo : Nat} {hi : Option Nat}
    {previous next : Option Char} {w : List Char}
    (h : Fits (items ++ [.rep cls (lo + 1) hi, .boundary]) previous w next)
    (hcls : ∀ c, cls c = true → Runtime.isWord c = true) :
    isWordAt (lastOf previous w) = true ∧ isWordAt next = false := by
  induction items generalizing previous w with
  | nil =>
      obtain ⟨u, v, rfl, hu, hlo, -, hboundary, hempty⟩ := h
      cases hempty
      have hne : u ≠ [] := by
        rintro rfl
        simp at hlo
      obtain ⟨c, hc, hlast⟩ := lastOf_mem previous hne
      rw [List.append_nil, hlast]
      rw [hlast] at hboundary
      have hword : isWordAt (some c) = true := hcls c (hu c hc)
      refine ⟨hword, ?_⟩
      rw [hword] at hboundary
      simpa using hboundary
  | cons item items ih =>
      cases item with
      | boundary => exact ih h.2
      | rep cls' lo' hi' =>
          obtain ⟨u, v, rfl, -, -, -, hrest⟩ := h
          rw [lastOf_append]
          exact ih hrest

/-- Whether the pattern matches somewhere. -/
def searchFrom (pattern : List Item) : Option Char → List Char → Bool
  | previous, [] => (matchItems pattern previous []).isSome
  | previous, c :: cs =>
      (matchItems pattern previous (c :: cs)).isSome || searchFrom pattern (some c) cs

/-- `pattern.search(text) is not None`. -/
def search (pattern : List Item) (text : String) : Bool := searchFrom pattern none text.toList

theorem searchFrom_eq_false_iff (pattern : List Item) (previous : Option Char) (cs : List Char) :
    searchFrom pattern previous cs = false
      ↔ ∀ u v, cs = u ++ v → matchItems pattern (lastOf previous u) v = none := by
  induction cs generalizing previous with
  | nil =>
      rw [searchFrom, Option.isSome_eq_false_iff, Option.isNone_iff_eq_none]
      constructor
      · intro h u v huv
        obtain ⟨rfl, rfl⟩ := List.append_eq_nil_iff.mp huv.symm
        exact h
      · intro h
        exact h [] [] rfl
  | cons c cs ih =>
      rw [searchFrom, Bool.or_eq_false_iff, ih, Option.isSome_eq_false_iff,
        Option.isNone_iff_eq_none]
      constructor
      · rintro ⟨hhere, hlater⟩ u v huv
        cases u with
        | nil =>
            rw [List.nil_append] at huv
            rw [← huv]
            exact hhere
        | cons d u =>
            obtain ⟨rfl, rfl⟩ := List.cons.inj huv
            exact hlater u v rfl
      · intro h
        exact ⟨h [] (c :: cs) rfl, fun u v huv => h (c :: u) v (by rw [huv]; rfl)⟩

/-- A search finds nothing exactly when no part of the text fits the pattern where it stands. -/
theorem search_eq_false_iff (pattern : List Item) (text : String) :
    search pattern text = false
      ↔ ∀ u w v, text.toList = u ++ w ++ v → ¬ Fits pattern (lastOf none u) w v.head? := by
  rw [search, searchFrom_eq_false_iff]
  constructor
  · intro h u w v htext hfits
    have hmatch := matchItems_complete hfits
    rw [h u (w ++ v) (by rw [htext, List.append_assoc])] at hmatch
    cases hmatch
  · intro h u v htext
    cases hmatch : matchItems pattern (lastOf none u) v with
    | none => rfl
    | some tail =>
        obtain ⟨w, rfl, hfits⟩ := matchItems_sound hmatch
        exact absurd hfits (h u w tail (by rw [htext, List.append_assoc]))

/-- Where nothing matches, nothing is replaced. -/
theorem subFrom_of_clear {pattern : List Item} (replacement : List Char)
    {previous : Option Char} {cs : List Char} (h : searchFrom pattern previous cs = false) :
    subFrom pattern replacement 0 previous cs = cs := by
  induction cs generalizing previous with
  | nil => rfl
  | cons c cs ih =>
      rw [searchFrom, Bool.or_eq_false_iff, Option.isSome_eq_false_iff,
        Option.isNone_iff_eq_none] at h
      rw [subFrom, h.1]
      exact congrArg (c :: ·) (ih h.2)

theorem sub_of_clear {pattern : List Item} {text : String} (replacement : String)
    (h : search pattern text = false) : sub pattern replacement text = text := by
  rw [sub, subFrom_of_clear _ h, String.ofList_toList]

/-- A text without a character some item needs is not matched anywhere. -/
theorem search_of_missing {pattern : List Item} {text : String} (cls : Char → Bool) (lo : Nat)
    (hi : Option Nat) (hitem : .rep cls (lo + 1) hi ∈ pattern)
    (hmissing : ∀ c ∈ text.toList, cls c = false) : search pattern text = false := by
  rw [search, searchFrom_eq_false_iff]
  intro u v huv
  cases hmatch : matchItems pattern (lastOf none u) v with
  | none => rfl
  | some tail =>
      obtain ⟨w, rfl, hfits⟩ := matchItems_sound hmatch
      obtain ⟨c, hc, hcls⟩ := hfits.consumes hitem
      have hin : c ∈ text.toList := by simp [huv, hc]
      rw [hmissing c hin] at hcls
      cases hcls

/-- A pattern between word boundaries that ends in word characters, accepts neither bracket
and needs a character the text between the brackets lacks. -/
structure Fenced (opening closing : Char) (inner : List Char) (pattern : List Item) : Prop where
  starts : ∃ items, pattern = .boundary :: items
  ends : ∃ items cls lo hi, pattern = items ++ [.rep cls (lo + 1) hi, .boundary]
    ∧ ∀ c, cls c = true → Runtime.isWord c = true
  avoids : ∀ item ∈ pattern, ¬ item.Accepts opening ∧ ¬ item.Accepts closing
  needs : ∃ cls lo hi, .rep cls (lo + 1) hi ∈ pattern ∧ ∀ c ∈ inner, cls c = false

section Fenced

variable {opening closing : Char} {inner : List Char} {P Q : List Item}

theorem Fenced.match_ends (hP : Fenced opening closing inner P) {previous next : Option Char}
    {w : List Char} (h : Fits P previous w next) :
    isWordAt (lastOf previous w) = true ∧ isWordAt next = false := by
  obtain ⟨items, cls, lo, hi, rfl, hcls⟩ := hP.ends
  exact h.ends hcls

theorem Fenced.match_starts (hP : Fenced opening closing inner P) {previous next : Option Char}
    {w : List Char} (h : Fits P previous w next) :
    w ≠ [] ∧ isWordAt previous ≠ isWordAt w.head? := by
  obtain ⟨cls, lo, hi, hitem, -⟩ := hP.needs
  obtain ⟨c, hc, -⟩ := h.consumes hitem
  obtain ⟨items, rfl⟩ := hP.starts
  have hboundary := h.1
  cases w with
  | nil => cases hc
  | cons d w => exact ⟨by simp, hboundary⟩

theorem Fenced.match_avoids (hP : Fenced opening closing inner P) {previous next : Option Char}
    {w : List Char} (h : Fits P previous w next) : opening ∉ w ∧ closing ∉ w := by
  constructor
  · intro hin
    obtain ⟨item, hitem, haccepts⟩ := h.accepted _ hin
    exact (hP.avoids item hitem).1 haccepts
  · intro hin
    obtain ⟨item, hitem, haccepts⟩ := h.accepted _ hin
    exact (hP.avoids item hitem).2 haccepts

/-- Nothing matches from inside a replacement. -/
theorem Fenced.none_inside (hQ : Fenced opening closing inner Q) {s : List Char}
    (hs : s ⊆ opening :: inner) (rest : List Char) (previous : Option Char) :
    matchItems Q previous (s ++ closing :: rest) = none := by
  cases hmatch : matchItems Q previous (s ++ closing :: rest) with
  | none => rfl
  | some tail =>
      obtain ⟨w, hw, hfits⟩ := matchItems_sound hmatch
      obtain ⟨hopening, hclosing⟩ := hQ.match_avoids hfits
      obtain ⟨cls, lo, hi, hitem, hinner⟩ := hQ.needs
      obtain ⟨c, hc, hcls⟩ := hfits.consumes hitem
      -- The match ends before the closing bracket, so it is a part of `s`.
      have hin : c ∈ s := by
        rcases List.append_eq_append_iff.mp hw with ⟨a, rfl, ha⟩ | ⟨a, rfl, -⟩
        · cases a with
          | nil => simpa using hc
          | cons d a =>
              obtain ⟨rfl, -⟩ := List.cons.inj ha
              exact absurd (by simp) hclosing
        · exact List.mem_append_left _ hc
      rcases List.mem_cons.mp (hs hin) with rfl | hin
      · exact absurd hc hopening
      · rw [hinner c hin] at hcls
        cases hcls

theorem Fenced.search_replaced (hQ : Fenced opening closing inner Q) (previous : Option Char)
    (rest : List Char) :
    searchFrom Q previous (opening :: inner ++ closing :: rest)
      = searchFrom Q (some closing) rest := by
  have hskip : ∀ s : List Char, s ⊆ opening :: inner → ∀ previous,
      searchFrom Q previous (s ++ closing :: rest) = searchFrom Q (some closing) rest := by
    intro s hs
    induction s with
    | nil =>
        intro previous
        have hnone := hQ.none_inside hs rest previous
        rw [List.nil_append] at hnone ⊢
        rw [searchFrom, hnone]
        rfl
    | cons c s ih =>
        intro previous
        have hnone := hQ.none_inside hs rest previous
        rw [List.cons_append] at hnone ⊢
        rw [searchFrom, hnone]
        exact ih (fun d hd => hs (List.mem_cons_of_mem _ hd)) (some c)
  exact hskip (opening :: inner) (List.Subset.refl _) previous

/-- Up to the next replacement the text is the one that was there. -/
theorem subFrom_keeps {w out cs : List Char} {previous : Option Char}
    (h : subFrom P (opening :: inner ++ [closing]) 0 previous cs = w ++ out)
    (hw : opening ∉ w) :
    ∃ rest, cs = w ++ rest ∧ (out.head? = rest.head?
      ∨ out.head? = some opening ∧ (matchItems P (lastOf previous w) rest).isSome) := by
  induction w generalizing previous cs with
  | nil =>
      refine ⟨cs, rfl, ?_⟩
      cases cs with
      | nil =>
          rw [subFrom, List.nil_append] at h
          exact Or.inl (by rw [← h])
      | cons c cs =>
          rw [subFrom] at h
          split at h
          · rename_i tail hmatch
            right
            rw [List.nil_append] at h
            rw [← h]
            exact ⟨rfl, by rw [lastOf, hmatch]; rfl⟩
          · left
            rw [List.nil_append] at h
            rw [← h]
            rfl
  | cons d w ih =>
      cases cs with
      | nil =>
          rw [subFrom] at h
          cases h
      | cons c cs =>
          rw [subFrom] at h
          split at h
          · have hd := (List.cons.inj h).1
            exact absurd (hd ▸ List.mem_cons_self) hw
          · obtain ⟨hd, hlater⟩ := List.cons.inj h
            obtain ⟨rest, hcs, hrest⟩ := ih hlater fun hin => hw (List.mem_cons_of_mem _ hin)
            exact ⟨rest, by rw [hd, hcs]; rfl, by rw [← hd]; exact hrest⟩

/-- Where the output stands next to the input: at the same character, or behind a
replacement whose match ended in a word character before something else. -/
def Joined (closing : Char) (skip : Nat) (previous seen : Option Char) (cs : List Char) : Prop :=
  (skip = 0 ∧ seen = previous)
    ∨ (seen = some closing ∧ isWordAt (lastOf previous (cs.take skip)) = true
      ∧ isWordAt (cs.drop skip).head? = false)

/-- A match of `Q` in the output at a place `P` leaves alone was one in the input. -/
theorem Fenced.match_before (hP : Fenced opening closing inner P)
    (hQ : Fenced opening closing inner Q) (hopening : Runtime.isWord opening = false)
    (hclosing : Runtime.isWord closing = false) {cs : List Char} {previous seen : Option Char}
    (hseen : Joined closing 0 previous seen cs)
    (h : (matchItems Q seen (subFrom P (opening :: inner ++ [closing]) 0 previous cs)).isSome) :
    (matchItems Q previous cs).isSome := by
  obtain ⟨tail, htail⟩ := Option.isSome_iff_exists.mp h
  obtain ⟨w, hw, hfits⟩ := matchItems_sound htail
  obtain ⟨hne, hstart⟩ := hQ.match_starts hfits
  obtain ⟨hlast, hnext⟩ := hQ.match_ends hfits
  obtain ⟨rest, rfl, hrest⟩ := subFrom_keeps hw (hQ.match_avoids hfits).1
  have hafter : isWordAt rest.head? = isWordAt tail.head? := by
    rcases hrest with hsame | ⟨hbracket, hmatch⟩
    · rw [hsame]
    · obtain ⟨tail', htail'⟩ := Option.isSome_iff_exists.mp hmatch
      obtain ⟨w', rfl, hfits'⟩ := matchItems_sound htail'
      obtain ⟨hne', hstart'⟩ := hP.match_starts hfits'
      rw [lastOf_congr hne previous seen, hlast] at hstart'
      rw [hbracket, List.head?_append_of_ne_nil _ hne']
      have hother : isWordAt w'.head? = false := by simpa using hstart'.symm
      rw [hother]
      exact hopening.symm
  rcases hseen with ⟨-, rfl⟩ | ⟨rfl, -, hother⟩
  · exact matchItems_complete (hfits.move rfl hafter)
  · -- Behind a replacement no boundary is left for `Q` to start at.
    rw [List.drop_zero, List.head?_append_of_ne_nil _ hne] at hother
    rw [hother] at hstart
    exact absurd hclosing hstart

/-- Wherever `Q` matches in the input, so does `P`: then `Q` matches nowhere in the output
of substituting `P`. -/
theorem Fenced.search_subFrom (hP : Fenced opening closing inner P)
    (hQ : Fenced opening closing inner Q) (hopening : Runtime.isWord opening = false)
    (hclosing : Runtime.isWord closing = false) (cs : List Char) (skip : Nat)
    (previous seen : Option Char) (hseen : Joined closing skip previous seen cs)
    (hcovered : ∀ u v, cs = u ++ v → (matchItems Q (lastOf previous u) v).isSome →
      (matchItems P (lastOf previous u) v).isSome) :
    searchFrom Q seen (subFrom P (opening :: inner ++ [closing]) skip previous cs) = false := by
  induction cs generalizing skip previous seen with
  | nil =>
      have hnone : matchItems Q seen [] = none := by
        cases hmatch : matchItems Q seen [] with
        | none => rfl
        | some tail =>
            obtain ⟨w, hw, hfits⟩ := matchItems_sound hmatch
            obtain ⟨rfl, -⟩ := List.append_eq_nil_iff.mp hw.symm
            exact absurd rfl (hQ.match_starts hfits).1
      cases skip <;> rw [subFrom, searchFrom, hnone] <;> rfl
  | cons c cs ih =>
      have hlater : ∀ u v, cs = u ++ v → (matchItems Q (lastOf (some c) u) v).isSome →
          (matchItems P (lastOf (some c) u) v).isSome :=
        fun u v huv hmatch => hcovered (c :: u) v (by rw [huv]; rfl) hmatch
      cases skip with
      | succ skip =>
          rw [subFrom]
          rcases hseen with ⟨hzero, -⟩ | hbehind
          · cases hzero
          · exact ih skip (some c) seen (Or.inr hbehind) hlater
      | zero =>
          have hhere : matchItems P previous (c :: cs) = none →
              matchItems Q seen (subFrom P (opening :: inner ++ [closing]) 0 previous (c :: cs))
                = none := by
            intro hnone
            rw [← Option.not_isSome_iff_eq_none]
            intro hmatch
            have hinput := hP.match_before hQ hopening hclosing hseen hmatch
            have hcovers := hcovered [] (c :: cs) rfl hinput
            rw [lastOf, hnone] at hcovers
            cases hcovers
          cases hmatch : matchItems P previous (c :: cs) with
          | none =>
              have hnone := hhere hmatch
              rw [subFrom, hmatch] at hnone ⊢
              rw [searchFrom, hnone]
              exact ih 0 (some c) (some c) (Or.inl ⟨rfl, rfl⟩) hlater
          | some tail =>
              obtain ⟨w, hw, hfits⟩ := matchItems_sound hmatch
              obtain ⟨hne, -⟩ := hP.match_starts hfits
              obtain ⟨hlast, hnext⟩ := hP.match_ends hfits
              cases w with
              | nil => exact absurd rfl hne
              | cons d u =>
                  have hcs : cs = u ++ tail := (List.cons.inj hw).2
                  obtain rfl : c = d := (List.cons.inj hw).1
                  subst hcs
                  have hskip : (u ++ tail).length - tail.length = u.length := by simp
                  rw [subFrom, hmatch]
                  dsimp only
                  rw [hskip, List.cons_append, List.cons_append, List.append_assoc,
                    List.singleton_append, ← List.cons_append, hQ.search_replaced]
                  refine ih u.length (some c) (some closing) (Or.inr ⟨rfl, ?_, ?_⟩) hlater
                  · rw [List.take_left]
                    exact hlast
                  · rw [List.drop_left]
                    exact hnext

/-- Substituting a fenced pattern leaves no match of it, and no match of one that had
none. -/
theorem Fenced.search_sub (hP : Fenced opening closing inner P)
    (hQ : Fenced opening closing inner Q) (hopening : Runtime.isWord opening = false)
    (hclosing : Runtime.isWord closing = false) (text : String)
    (h : Q = P ∨ search Q text = false) :
    search Q (sub P (String.ofList (opening :: inner ++ [closing])) text) = false := by
  rw [search, sub, String.toList_ofList, String.toList_ofList]
  refine hP.search_subFrom hQ hopening hclosing _ 0 none none (Or.inl ⟨rfl, rfl⟩) ?_
  intro u v huv hmatch
  rcases h with rfl | hsearch
  · exact hmatch
  · rw [(searchFrom_eq_false_iff Q none _).mp hsearch u v huv] at hmatch
    cases hmatch

end Fenced

end Fits

end Regex

end Py
