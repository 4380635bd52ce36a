import Rag.Agent.Rendering

/-!
What a rendering shows, and how long it is.

The parts are the entries of a beginning of the sources and, unless that is all of them, a line
that counts the rest (`Rendered`). No entry after the first one exceeds what is left of the
budget. The first one is shown whatever is left, and a negative rest cuts its quote from the
end: it then shows all but the last characters of the quote.
-/

namespace Rag

open Py

theorem length_slice_neg {n : ℤ} (hn : n < 0) (s : String) :
    ((slice n s).length : ℤ) = max 0 (s.length + n) := by
  rw [← String.length_toList, slice, String.toList_ofList, takeInt, if_neg (not_le.mpr hn),
    List.length_take, String.length_toList]
  omega

def entryOf (src : Source) (excerpt : String) : String := sourceHeader src ++ "\n" ++ excerpt

/-- The line that stands for what is not shown. -/
def omissionLine (omitted : Nat) : String :=
  "(" ++ toString omitted ++ " weaker source(s) omitted to stay within the prompt budget)"

/-- The parts show the sources of `shown`, each with an excerpt that begins its quote, and state
how many others there are. -/
structure Rendered (parts : List String) (sources shown omitted : List Source)
    (excerpts : List String) : Prop where
  split : sources = shown ++ omitted
  excerpted : List.Forall₂ (fun excerpt src => excerpt.toList <+: src.quote.toList) excerpts shown
  parts_eq : parts = List.zipWith entryOf shown excerpts
    ++ if omitted = [] then [] else [omissionLine omitted.length]

section Parts

variable {parts : List String} {sources shown omitted shown' omitted' : List Source}
  {excerpts excerpts' : List String}

theorem Rendered.cons (h : Rendered parts sources shown omitted excerpts) {src : Source}
    {excerpt : String} (hexcerpt : excerpt.toList <+: src.quote.toList) :
    Rendered (entryOf src excerpt :: parts) (src :: sources) (src :: shown) omitted
      (excerpt :: excerpts) where
  split := congrArg (src :: ·) h.split
  excerpted := .cons hexcerpt h.excerpted
  parts_eq := congrArg (entryOf src excerpt :: ·) h.parts_eq

/-- The first part is an entry or a line of omission. -/
theorem Rendered.not_both (h : Rendered parts sources [] omitted excerpts) {src : Source}
    (h' : Rendered parts sources (src :: shown') omitted' excerpts') : False := by
  obtain ⟨hsplit, hexcerpted, hparts⟩ := h
  obtain ⟨hsplit', hexcerpted', hparts'⟩ := h'
  cases hexcerpted
  cases hexcerpted' with
  | cons _ _ =>
      have hsome : omitted ≠ [] := by
        rintro rfl
        rw [hsplit] at hsplit'
        cases hsplit'
      rw [hparts', if_neg hsome] at hparts
      exact note_ne_entry _ _ _ (List.cons.inj hparts).1.symm

/-- What is shown can be read off the parts. -/
theorem Rendered.unique (h : Rendered parts sources shown omitted excerpts)
    (h' : Rendered parts sources shown' omitted' excerpts') :
    omitted' = omitted ∧ excerpts' = excerpts := by
  induction shown generalizing parts sources shown' excerpts excerpts' with
  | nil =>
      cases shown' with
      | cons src rest => exact (h.not_both h').elim
      | nil =>
          have hexcerpts := h.excerpted
          have hexcerpts' := h'.excerpted
          cases hexcerpts
          cases hexcerpts'
          exact ⟨h'.split.symm.trans h.split, rfl⟩
  | cons src rest ih =>
      cases shown' with
      | nil => exact (h'.not_both h).elim
      | cons src' rest' =>
          obtain ⟨hsplit, hexcerpted, hparts⟩ := h
          obtain ⟨hsplit', hexcerpted', hparts'⟩ := h'
          cases hexcerpted with
          | @cons excerpt _ excerpts _ hexcerpt hexcerpted =>
              cases hexcerpted' with
              | @cons excerpt' _ excerpts' _ hexcerpt' hexcerpted' =>
                  obtain ⟨rfl, hrest⟩ := List.cons.inj (hsplit.symm.trans hsplit')
                  obtain ⟨hentry, hothers⟩ := List.cons.inj (hparts.symm.trans hparts')
                  have hsame : excerpt' = excerpt := ((String.append_right_inj _).mp hentry).symm
                  obtain ⟨homitted, hexcerpts⟩ :=
                    ih ⟨rfl, hexcerpted, rfl⟩ ⟨hrest, hexcerpted', hothers⟩
                  rw [homitted, hsame, hexcerpts]
                  exact ⟨rfl, rfl⟩

end Parts

/-- The length of the parts, each with the separator that follows it. -/
def separatedLength (parts : List String) : ℤ := (parts.map fun p => (p.length : ℤ) + 2).sum

theorem length_join {parts : List String} (h : parts ≠ []) :
    ((join "\n\n" parts).length : ℤ) + 2 = separatedLength parts := by
  induction parts with
  | nil => exact absurd rfl h
  | cons p rest ih =>
      cases rest with
      | nil => simp [join, separatedLength]
      | cons q rest =>
          have hrest := ih (List.cons_ne_nil q rest)
          rw [join] at hrest ⊢
          rw [String.intercalate_cons_cons, String.length_append, String.length_append,
            separatedLength, List.map_cons, List.sum_cons, ← separatedLength, ← hrest]
          have hsep : "\n\n".length = 2 := rfl
          rw [hsep]
          push_cast
          omega

/-- What a line on `omitted` sources takes, with its separator. -/
def omissionCost (omitted : List Source) : ℤ :=
  if omitted = [] then 0 else (omissionLine omitted.length).length + 2

section Rendering

variable {maxChars maxQuoteChars : ℤ}

/-- When the budget is used up, the rest is counted. -/
theorem renderFrom_spent {used : ℤ} (hused : maxChars + 2 < used) {index : Nat} (hindex : 0 < index)
    (sources : List Source) :
    renderFrom maxChars maxQuoteChars index used sources
      = if sources = [] then [] else [omissionLine sources.length] := by
  cases sources with
  | nil => rfl
  | cons src rest =>
      have hmin : minQuoteChars = 120 := rfl
      rw [renderFrom, if_pos ⟨by omega, hindex⟩, if_neg (List.cons_ne_nil _ _)]
      rfl

/-- After the first entry no quote exceeds its bound, and the entries stay within what is left. -/
theorem renderFrom_within (maxChars : ℤ) (hquote : 0 ≤ maxQuoteChars) {index : Nat}
    (hindex : 0 < index) (used : ℤ) (sources : List Source) :
    ∃ shown omitted excerpts,
      Rendered (renderFrom maxChars maxQuoteChars index used sources) sources shown omitted excerpts
      ∧ (∀ excerpt ∈ excerpts, (excerpt.length : ℤ) ≤ maxQuoteChars)
      ∧ (used ≤ maxChars + 2 →
        used + separatedLength (renderFrom maxChars maxQuoteChars index used sources)
          ≤ maxChars + 2 + omissionCost omitted) := by
  induction sources generalizing index used with
  | nil =>
      refine ⟨[], [], [], ⟨rfl, .nil, rfl⟩, by simp, ?_⟩
      intro hused
      simpa [renderFrom, separatedLength, omissionCost] using hused
  | cons src rest ih =>
      have hmin : minQuoteChars = 120 := rfl
      rw [renderFrom]
      dsimp only
      split_ifs with homitted
      · refine ⟨[], src :: rest, [], ⟨rfl, .nil, rfl⟩, by simp, ?_⟩
        intro hused
        have hline : omissionCost (src :: rest)
            = (omissionLine (rest.length + 1)).length + 2 := if_neg (List.cons_ne_nil _ _)
        rw [separatedLength, List.map_singleton, List.sum_singleton, hline, omissionLine]
        omega
      · -- the entry takes no more than its room
        have hroom : minQuoteChars ≤ maxChars - used - (sourceHeader src).length - 1 := by
          by_contra hless
          exact homitted ⟨not_le.mp hless, hindex⟩
        have hexcerpt := length_slice (show 0 ≤ min maxQuoteChars
          (maxChars - used - (sourceHeader src).length - 1) by omega) src.quote
        obtain ⟨shown, omitted, excerpts, hrendered, hquotes, hlength⟩ :=
          ih (show 0 < index + 1 by omega) (used + (sourceHeader src ++ "\n" ++ slice (min maxQuoteChars
            (maxChars - used - (sourceHeader src).length - 1)) src.quote).length + 2)
        refine ⟨src :: shown, omitted, _ :: excerpts, hrendered.cons (slice_isPrefix _ _), ?_, ?_⟩
        · intro excerpt hmem
          rcases List.mem_cons.mp hmem with rfl | hmem
          · omega
          · exact hquotes excerpt hmem
        · intro _
          have hentry := length_entry (sourceHeader src) (slice (min maxQuoteChars
            (maxChars - used - (sourceHeader src).length - 1)) src.quote)
          have hrest := hlength (by rw [hentry]; push_cast; omega)
          rw [separatedLength, List.map_cons, List.sum_cons, ← separatedLength]
          omega

end Rendering

/-- No excerpt exceeds `maxQuoteChars`, and the whole exceeds `maxChars` by no more than the first
header, one line of omission and its separator. -/
def WithinBudgets (first : Source) (rest : List Source) (maxChars maxQuoteChars : ℤ) : Prop :=
  ∃ shown omitted excerpts,
    Rendered (renderFrom maxChars maxQuoteChars 0 0 (first :: rest)) (first :: rest) shown omitted
      excerpts
    ∧ (∀ excerpt ∈ excerpts, (excerpt.length : ℤ) ≤ maxQuoteChars)
    ∧ ((renderSources (first :: rest) maxChars maxQuoteChars).length : ℤ)
      ≤ maxChars + (sourceHeader first).length + ((omissionLine omitted.length).length + 2)

/-- The first header fits, or what a cut from the end leaves of the first quote is short. -/
def FirstFits (first : Source) (rest : List Source) (maxChars maxQuoteChars : ℤ) : Prop :=
  let room := maxChars - (sourceHeader first).length - 1
  let left := max 0 (first.quote.length + room)
  0 ≤ room ∨ left ≤ maxQuoteChars
    ∧ 1 + left ≤ maxChars + if rest = [] then ((omissionLine 0).length : ℤ) + 2 else 0

section First

variable {first : Source} {rest : List Source} {maxChars maxQuoteChars : ℤ}

/-- The first entry is shown whatever is left of the budget. -/
theorem renderFrom_first (first : Source) (rest : List Source) (maxChars maxQuoteChars : ℤ) :
    let excerpt := slice (min maxQuoteChars (maxChars - (sourceHeader first).length - 1)) first.quote
    renderFrom maxChars maxQuoteChars 0 0 (first :: rest)
      = entryOf first excerpt :: renderFrom maxChars maxQuoteChars 1
          ((sourceHeader first).length + 1 + excerpt.length + 2) rest := by
  intro excerpt
  have hlength := length_entry (sourceHeader first) excerpt
  rw [renderFrom, if_neg (by simp)]
  dsimp only
  rw [sub_zero, zero_add]
  simp only [hlength, excerpt, entryOf]
  push_cast
  rw [zero_add]

theorem length_renderSources (first : Source) (rest : List Source) (maxChars maxQuoteChars : ℤ) :
    let excerpt := slice (min maxQuoteChars (maxChars - (sourceHeader first).length - 1)) first.quote
    ((renderSources (first :: rest) maxChars maxQuoteChars).length : ℤ)
      = (sourceHeader first).length + 1 + excerpt.length
        + separatedLength (renderFrom maxChars maxQuoteChars 1
          ((sourceHeader first).length + 1 + excerpt.length + 2) rest) := by
  intro excerpt
  have hfirst := renderFrom_first first rest maxChars maxQuoteChars
  have hsome : renderFrom maxChars maxQuoteChars 0 0 (first :: rest) ≠ [] := by
    rw [hfirst]
    exact List.cons_ne_nil _ _
  have hjoin := length_join hsome
  have hentry := length_entry (sourceHeader first) excerpt
  rw [renderSources, if_neg (List.cons_ne_nil _ _)]
  rw [hfirst] at hjoin ⊢
  rw [separatedLength, List.map_cons, List.sum_cons, ← separatedLength, entryOf] at hjoin
  rw [entryOf]
  simp only [excerpt] at hentry ⊢
  omega

/-- The budgets are a matter of what is shown. -/
theorem withinBudgets_iff_of_rendered {shown omitted : List Source} {excerpts : List String}
    (h : Rendered (renderFrom maxChars maxQuoteChars 0 0 (first :: rest)) (first :: rest) shown
      omitted excerpts) :
    WithinBudgets first rest maxChars maxQuoteChars
      ↔ (∀ excerpt ∈ excerpts, (excerpt.length : ℤ) ≤ maxQuoteChars)
        ∧ ((renderSources (first :: rest) maxChars maxQuoteChars).length : ℤ)
          ≤ maxChars + (sourceHeader first).length + ((omissionLine omitted.length).length + 2) := by
  constructor
  · rintro ⟨shown', omitted', excerpts', h', hbudgets⟩
    obtain ⟨homitted, hexcerpts⟩ := h.unique h'
    rwa [homitted, hexcerpts] at hbudgets
  · intro hbudgets
    exact ⟨shown, omitted, excerpts, h, hbudgets⟩

/-- With room for the first header everything stays within the budgets. -/
theorem rendered_of_room (rest : List Source) (hquote : 0 ≤ maxQuoteChars)
    (hroom : 0 ≤ maxChars - (sourceHeader first).length - 1) :
    WithinBudgets first rest maxChars maxQuoteChars := by
  have hexcerpt := length_slice (show 0 ≤ min maxQuoteChars
    (maxChars - (sourceHeader first).length - 1) by omega) first.quote
  have hlength := length_renderSources first rest maxChars maxQuoteChars
  have hfirst := renderFrom_first first rest maxChars maxQuoteChars
  dsimp only at hlength hfirst
  obtain ⟨shown, omitted, excerpts, hrendered, hquotes, hrest⟩ :=
    renderFrom_within maxChars hquote Nat.one_pos ((sourceHeader first).length + 1
      + (slice (min maxQuoteChars (maxChars - (sourceHeader first).length - 1))
        first.quote).length + 2) rest
  refine ⟨first :: shown, omitted, _ :: excerpts,
    hfirst ▸ hrendered.cons (slice_isPrefix _ _), ?_, ?_⟩
  · intro excerpt hmem
    rcases List.mem_cons.mp hmem with rfl | hmem
    · omega
    · exact hquotes excerpt hmem
  · have hcost : omissionCost omitted ≤ (omissionLine omitted.length).length + 2 := by
      unfold omissionCost
      split_ifs <;> omega
    have hused := hrest (by omega)
    omega

/-- Without, the first entry is all that is shown, with what the cut from the end leaves. -/
theorem rendered_of_no_room (rest : List Source) (hquote : 0 ≤ maxQuoteChars)
    (hroom : maxChars - (sourceHeader first).length - 1 < 0) :
    ∃ excerpt,
      (excerpt.length : ℤ) = max 0 (first.quote.length + (maxChars - (sourceHeader first).length - 1))
      ∧ Rendered (renderFrom maxChars maxQuoteChars 0 0 (first :: rest)) (first :: rest) [first] rest
        [excerpt]
      ∧ ((renderSources (first :: rest) maxChars maxQuoteChars).length : ℤ)
        = (sourceHeader first).length + 1 + excerpt.length + omissionCost rest := by
  have hlength := length_renderSources first rest maxChars maxQuoteChars
  have hfirst := renderFrom_first first rest maxChars maxQuoteChars
  have hmin : min maxQuoteChars (maxChars - (sourceHeader first).length - 1)
      = maxChars - (sourceHeader first).length - 1 := by
    omega
  have hexcerpt := length_slice_neg hroom first.quote
  dsimp only at hlength hfirst
  rw [hmin] at hlength hfirst
  rw [renderFrom_spent (by omega) Nat.one_pos] at hlength hfirst
  refine ⟨slice (maxChars - (sourceHeader first).length - 1) first.quote, hexcerpt, ?_, ?_⟩
  · rw [hfirst]
    exact ⟨rfl, .cons (slice_isPrefix _ _) .nil, rfl⟩
  · rw [hlength, omissionCost]
    split_ifs <;> simp [separatedLength]

end First

/-- Whatever the sources and the budgets, the sources shown are a beginning of the list and the
line counts the others. Both budgets are kept exactly when the first header fits or the cut
happens to leave little of the first quote. -/
theorem rendered_within_budgets_iff (first : Source) (rest : List Source)
    (maxChars maxQuoteChars : ℤ) (hquote : 0 ≤ maxQuoteChars) :
    (∃ shown omitted excerpts, Rendered (renderFrom maxChars maxQuoteChars 0 0 (first :: rest))
      (first :: rest) shown omitted excerpts)
    ∧ (WithinBudgets first rest maxChars maxQuoteChars
      ↔ FirstFits first rest maxChars maxQuoteChars) := by
  unfold FirstFits
  dsimp only
  by_cases hroom : 0 ≤ maxChars - (sourceHeader first).length - 1
  · have hwithin := rendered_of_room rest hquote hroom
    have hshown := hwithin
    obtain ⟨shown, omitted, excerpts, hrendered, -⟩ := hshown
    exact ⟨⟨shown, omitted, excerpts, hrendered⟩, iff_of_true hwithin (Or.inl hroom)⟩
  · obtain ⟨excerpt, hexcerpt, hrendered, hlength⟩ :=
      rendered_of_no_room rest hquote (not_le.mp hroom)
    refine ⟨⟨[first], rest, [excerpt], hrendered⟩, ?_⟩
    rw [withinBudgets_iff_of_rendered hrendered, List.forall_mem_singleton, hlength, hexcerpt,
      or_iff_right hroom, omissionCost]
    refine and_congr_right fun _ => ?_
    split_ifs with hlast
    · subst hlast
      rw [List.length_nil]
      omega
    · omega

def titledSource (title quote : String) : Source where
  kind := .chunk
  ref := "c1"
  docId := "d1"
  title := title
  quote := quote

theorem length_titledSource {title : String} (h : title ≠ "") (quote : String) :
    (sourceHeader (titledSource title quote)).length = 42 + title.length := by
  have hscore : (PyFloat.format 4 0).length = 6 := by decide +kernel
  have htitle : (titledSource title quote).title ≠ "" := h
  have hprefix : "[".length + "c1".length + "] kind=".length + "chunk".length + " doc=".length
      + "d1".length + " score=".length = 29 := by
    decide +kernel
  have hlabel : " title=".length = 7 := by decide +kernel
  rw [sourceHeader, if_neg htitle]
  simp only [String.length_append, hscore, titledSource, SourceKind.value, hlabel] at hprefix ⊢
  omega

def longText (n : Nat) : String := String.ofList (List.replicate n 'x')

theorem length_longText (n : Nat) : (longText n).length = n := by
  rw [longText, String.length_ofList, List.length_replicate]

theorem longText_ne_empty {n : Nat} (h : 0 < n) : longText n ≠ "" := by
  intro hempty
  have hlength := length_longText n
  rw [hempty] at hlength
  exact absurd hlength (Nat.ne_of_lt h)

theorem rendered_within_budgets_iff_titled :
    ¬ FirstFits (titledSource (longText 6000) (longText 800)) [] 6000 500
      ∧ ¬ WithinBudgets (titledSource (longText 6000) (longText 800)) [] 6000 500 := by
  have hfits : ¬ FirstFits (titledSource (longText 6000) (longText 800)) [] 6000 500 := by
    unfold FirstFits
    rw [length_titledSource (longText_ne_empty (by decide)), length_longText, titledSource,
      length_longText]
    omega
  exact ⟨hfits, fun h => hfits ((rendered_within_budgets_iff _ [] 6000 500 (by decide)).2.mp h)⟩

/-- With the default budgets 757 characters of a quote are shown. -/
theorem long_title_shows_quote : ¬ ∀ (first : Source) (rest : List Source)
    (maxChars maxQuoteChars : ℤ), 0 ≤ maxChars → 0 ≤ maxQuoteChars →
    WithinBudgets first rest maxChars maxQuoteChars := by
  intro h
  let first := titledSource (longText 6000) (longText 800)
  have hheader : (sourceHeader first).length = 6042 := by
    rw [length_titledSource (longText_ne_empty (by decide)), length_longText]
  have hquote : first.quote.length = 800 := length_longText 800
  have hroom : (6000 : ℤ) - (sourceHeader first).length - 1 < 0 := by omega
  obtain ⟨excerpt, hexcerpt, hrendered, -⟩ :=
    rendered_of_no_room [] (show (0 : ℤ) ≤ 500 by decide) hroom
  have hshort := ((withinBudgets_iff_of_rendered hrendered).mp
    (h first [] 6000 500 (by decide) (by decide))).1 excerpt (List.mem_singleton_self _)
  omega

end Rag
