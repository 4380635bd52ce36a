import Rag.Chunking.MarkdownAware
import Rag.Lib.Layout

/-!
What `split_text` keeps of the text it cuts.

The pieces always stand in the text one after the other. A separator between two pieces is
in neither, which costs nothing where the separator is whitespace. The full stop of `". "` is
not, and at least one is lost from every line that has to be cut there, which is a line that
is too long and contains the separator.
-/

namespace Rag

open Py

/-- The pieces have every character of the text that is not whitespace. -/
def Kept (pieces : List (List Char)) (text : List Char) : Prop :=
  (words text).length = (pieces.flatMap words).length

theorem kept_singleton (cs : List Char) : Kept [cs] cs := by
  simp [Kept]

theorem kept_append_iff {pieces later : List (List Char)} {text tail : List Char}
    (h : Scattered pieces text) (hlater : Scattered later tail) :
    Kept (pieces ++ later) (text ++ tail) ↔ Kept pieces text ∧ Kept later tail := by
  have hle := h.words_length
  have hle' := hlater.words_length
  simp only [Kept, words_append, List.flatMap_append, List.length_append]
  omega

theorem kept_widen_iff {pieces : List (List Char)} {front text : List Char}
    (h : Scattered pieces text) : Kept pieces (front ++ text) ↔ Blank front ∧ Kept pieces text := by
  have hle := h.words_length
  rw [← words_eq_nil_iff, ← List.length_eq_zero_iff]
  simp only [Kept, words_append, List.length_append]
  omega

/-- The pieces stand in the text, and nothing of it is lost exactly under `Keep`. -/
structure Cuts (Keep : Prop) (text : List Char) (pieces : List String) : Prop where
  scattered : Scattered (pieces.map String.toList) text
  kept_iff : Kept (pieces.map String.toList) text ↔ Keep

theorem Cuts.congr {Keep Keep' : Prop} {text : List Char} {pieces : List String}
    (h : Cuts Keep text pieces) (hkeep : Keep ↔ Keep') : Cuts Keep' text pieces :=
  ⟨h.scattered, h.kept_iff.trans hkeep⟩

theorem Cuts.append {Keep Keep' : Prop} {text tail : List Char} {pieces later : List String}
    (h : Cuts Keep text pieces) (hlater : Cuts Keep' tail later) :
    Cuts (Keep ∧ Keep') (text ++ tail) (pieces ++ later) := by
  constructor
  · rw [List.map_append]
    exact h.scattered.append hlater.scattered
  · rw [List.map_append, kept_append_iff h.scattered hlater.scattered, h.kept_iff,
      hlater.kept_iff]

theorem Cuts.widen {Keep : Prop} {text : List Char} {pieces : List String}
    (h : Cuts Keep text pieces) (front : List Char) :
    Cuts (Blank front ∧ Keep) (front ++ text) pieces :=
  ⟨h.scattered.widen front, by rw [kept_widen_iff h.scattered, h.kept_iff]⟩

theorem cuts_singleton (s : String) : Cuts True s.toList [s] :=
  ⟨scattered_singleton s.toList, by simp [kept_singleton]⟩

theorem cuts_nil {text : List Char} (h : Blank text) : Cuts True text [] :=
  ⟨trivial, by simp [Kept, words_eq_nil_iff.mpr h]⟩

/-- A piece that is put down only when it is there. -/
theorem cuts_packed (current : String) :
    Cuts True current.toList (if current = "" then [] else [current]) := by
  split_ifs with h
  · subst h
    exact cuts_nil (by simp [Blank])
  · exact cuts_singleton current

theorem scattered_flatten (pieces : List (List Char)) : Scattered pieces pieces.flatten := by
  induction pieces with
  | nil => trivial
  | cons piece pieces ih => exact ⟨[], pieces.flatten, by simp, trivial, ih⟩

theorem cuts_flatten (pieces : List String) :
    Cuts True (pieces.map String.toList).flatten pieces := by
  refine ⟨scattered_flatten _, ?_⟩
  simp [Kept, words, List.filter_flatten, List.flatMap_def, Function.comp_def]

theorem windows_flatten (cs : List Char) (n k : Nat) :
    ((List.range k).map fun j => (cs.drop (j * n)).take n).flatten = cs.take (k * n) := by
  induction k with
  | zero => simp
  | succ k ih =>
      rw [List.range_succ, List.map_append, List.flatten_append, ih, Nat.succ_mul,
        List.take_add]
      simp

/-- The windows, counted in steps of the size. -/
theorem cutEvery_eq {n : Nat} (hn : 0 < n) (text : String) :
    cutEvery (n : ℤ) text = .ok ((List.range ((text.length + n - 1) / n)).map fun j =>
      String.ofList ((text.toList.drop (j * n)).take n)) := by
  rw [cutEvery, if_neg (by omega), if_neg (by omega), rangeStep, Int.toNat_natCast]
  congr 1
  simp only [List.bind_eq_flatMap, List.pure_def, List.map_flatMap, List.flatMap_map, List.map_cons,
    List.map_nil]
  rw [← List.map_eq_flatMap]
  apply List.map_congr_left
  intro j hj
  have hlt := (Nat.lt_div_iff_mul_lt hn).mp (List.mem_range.mp hj)
  have hi : sliceBound text.length ((j * n : ℕ) : ℤ) = j * n := by
    rw [sliceBound, if_pos (Int.natCast_nonneg _), Int.toNat_natCast]
    apply Nat.min_eq_left
    omega
  have hj : sliceBound text.length (((j * n : ℕ) : ℤ) + n) = min (j * n + n) text.length := by
    rw [sliceBound, if_pos (by omega)]
    congr 1
  rw [sliceBetween, hi, hj, List.drop_take]
  congr 1
  apply List.take_eq_take_iff.mpr
  rw [List.length_drop, String.length_toList]
  omega

theorem cutEvery_cuts {size : ℤ} (hsize : 0 < size) {text : String} {pieces : List String}
    (h : cutEvery size text = .ok pieces) : Cuts True text.toList pieces := by
  obtain ⟨n, rfl⟩ := Int.eq_ofNat_of_zero_le hsize.le
  have hn : 0 < n := by omega
  rw [cutEvery_eq hn] at h
  cases h
  have hcover : text.length ≤ (text.length + n - 1) / n * n := by
    have hdiv := Nat.div_add_mod (text.length + n - 1) n
    have hmod := Nat.mod_lt (text.length + n - 1) hn
    rw [Nat.mul_comm] at hdiv
    omega
  have hall := windows_flatten text.toList n ((text.length + n - 1) / n)
  rw [List.take_of_length_le (by rwa [String.length_toList])] at hall
  have hcuts := cuts_flatten ((List.range ((text.length + n - 1) / n)).map fun j =>
    String.ofList ((text.toList.drop (j * n)).take n))
  rw [List.map_map] at hcuts
  simp only [Function.comp_def, String.toList_ofList] at hcuts
  rwa [hall] at hcuts

section Pack

variable {sep : String} {size : ℤ} {inner : String → Except Exn (List String)}

/-- What one part does: it is packed with what is there, or that is put down and the part,
cut by `inner` when it is too long, begins what comes later. -/
theorem packParts_cons {part current : String} {parts pieces : List String}
    (h : packParts sep size inner (part :: parts) current = .ok pieces) :
    ((if current = "" then part else current ++ sep ++ part).length ≤ size
      ∧ packParts sep size inner parts (if current = "" then part else current ++ sep ++ part)
        = .ok pieces)
    ∨ size < (if current = "" then part else current ++ sep ++ part).length
      ∧ ∃ later, pieces = (if current = "" then [] else [current]) ++ later
        ∧ (size < part.length ∧ (∃ cut rest, inner part = .ok cut
            ∧ packParts sep size inner parts "" = .ok rest ∧ later = cut ++ rest)
          ∨ part.length ≤ size ∧ packParts sep size inner parts part = .ok later) := by
  rw [packParts] at h
  dsimp only at h
  by_cases hfits : (if current = "" then part else current ++ sep ++ part).length ≤ size
  · rw [if_pos hfits] at h
    exact .inl ⟨hfits, h⟩
  · rw [if_neg hfits] at h
    refine .inr ⟨not_le.mp hfits, ?_⟩
    by_cases hlong : size < part.length
    · rw [if_pos hlong] at h
      obtain ⟨cut, hcut, hafter⟩ := ok_of_bind h
      obtain ⟨rest, hrest, hpieces⟩ := ok_of_bind hafter
      cases hpieces
      exact ⟨cut ++ rest, List.append_assoc .., .inl ⟨hlong, cut, rest, hcut, hrest, rfl⟩⟩
    · rw [if_neg hlong] at h
      obtain ⟨rest, hrest, hpieces⟩ := ok_of_bind h
      cases hpieces
      exact ⟨rest, rfl, .inr ⟨not_lt.mp hlong, hrest⟩⟩

variable {Keep : String → Prop}

/-- Every separator that is not whitespace has been packed, and every part that is too long is
kept when it is cut. -/
def Packs (sep : String) (size : ℤ) (Keep : String → Prop) (current : String)
    (parts : List String) : Prop :=
  (Blank sep.toList ∨ parts = [] ∨ current ≠ ""
    ∧ ((current.toList ++ behind sep.toList (parts.map String.toList)).length : ℤ) ≤ size)
  ∧ ∀ part ∈ parts, size < part.length → Keep part

theorem packs_short {part : String} {parts : List String} (h : part.length ≤ size) :
    Blank sep.toList ∧ Packs sep size Keep part parts ↔ Packs sep size Keep "" (part :: parts) := by
  by_cases hsep : Blank sep.toList <;> simp [Packs, hsep, not_lt.mpr h]

/-- Packing one part more changes nothing about what is to be packed. -/
theorem packs_packed {part current : String} {parts : List String} (hcurrent : current ≠ "")
    (h : (current ++ sep ++ part).length ≤ size) :
    Packs sep size Keep (current ++ sep ++ part) parts
      ↔ Packs sep size Keep current (part :: parts) := by
  have hpart : ¬ size < part.length := by
    rw [String.length_append] at h
    omega
  have hcandidate : current ++ sep ++ part ≠ "" := by simp [hcurrent]
  by_cases hparts : parts = []
  · subst hparts
    have hall : (current.toList.length : ℤ) + (sep.toList.length + part.toList.length) ≤ size := by
      rw [String.length_append, String.length_append] at h
      simp only [String.length_toList]
      omega
    simp [Packs, hcurrent, hpart, hall]
  · simp [Packs, hcurrent, hpart, hcandidate, hparts]

/-- Once something has been put down, the separator behind it is lost. -/
theorem packs_dropped {part current : String} {parts : List String}
    (h : size < (if current = "" then part else current ++ sep ++ part).length) {Later : Prop}
    (hlater : Blank sep.toList → (Later ↔ ∀ p ∈ part :: parts, size < p.length → Keep p)) :
    True ∧ Blank sep.toList ∧ Later ↔ Packs sep size Keep current (part :: parts) := by
  by_cases hsep : Blank sep.toList
  · rw [Packs, ← hlater hsep]
    simp [hsep]
  · by_cases hcurrent : current = ""
    · simp [Packs, hsep, hcurrent]
    · rw [if_neg hcurrent] at h
      have hall : ¬ ((current.toList
          ++ behind sep.toList ((part :: parts).map String.toList)).length : ℤ) ≤ size := by
        simp only [List.map_cons, behind_cons, List.length_append, String.length_toList]
        rw [String.length_append, String.length_append] at h
        omega
      simp only [Packs, hsep, hall]
      simp

theorem packParts_cuts (hinner : ∀ part cut, inner part = .ok cut → Cuts (Keep part) part.toList cut)
    {current : String} {parts pieces : List String}
    (h : packParts sep size inner parts current = .ok pieces) :
    Cuts (Packs sep size Keep current parts)
      (current.toList ++ behind sep.toList (parts.map String.toList)) pieces := by
  induction parts generalizing current pieces with
  | nil =>
      cases h
      have hpacked := cuts_packed current
      simpa [Packs] using hpacked
  | cons part parts ih =>
      rcases packParts_cons h with ⟨hfits, hrest⟩ | ⟨hlong, later, rfl, hlater⟩
      · by_cases hcurrent : current = ""
        · subst hcurrent
          rw [if_pos rfl] at hfits hrest
          have hcuts := ((ih hrest).widen sep.toList).congr (packs_short hfits)
          simpa using hcuts
        · rw [if_neg hcurrent] at hfits hrest
          have hcuts := (ih hrest).congr (packs_packed hcurrent hfits)
          simpa using hcuts
      · rcases hlater with ⟨hpart, cut, rest, hcut, hrest, rfl⟩ | ⟨hpart, hrest⟩
        · have hlater := (hinner part cut hcut).append (ih hrest)
          have hkeep : Blank sep.toList → (Keep part ∧ Packs sep size Keep "" parts
              ↔ ∀ p ∈ part :: parts, size < p.length → Keep p) := by
            intro hsep
            simp [Packs, hsep, hpart]
          have hcuts := ((cuts_packed current).append (hlater.widen sep.toList)).congr
            (packs_dropped hlong hkeep)
          simpa using hcuts
        · have hlater := ih hrest
          have hkeep : Blank sep.toList → (Packs sep size Keep part parts
              ↔ ∀ p ∈ part :: parts, size < p.length → Keep p) := by
            intro hsep
            simp [Packs, hsep, not_lt.mpr hpart]
          have hcuts := ((cuts_packed current).append (hlater.widen sep.toList)).congr
            (packs_dropped hlong hkeep)
          simpa using hcuts

/-- A text that is too long, cut at its separators. -/
theorem packParts_text (hinner : ∀ part cut, inner part = .ok cut → Cuts (Keep part) part.toList cut)
    {first : String} {rest pieces : List String}
    (hlong : size < (first.toList ++ behind sep.toList (rest.map String.toList)).length)
    (h : packParts sep size inner (first :: rest) "" = .ok pieces) :
    Cuts ((Blank sep.toList ∨ rest = []) ∧ ∀ part ∈ first :: rest, size < part.length → Keep part)
      (first.toList ++ behind sep.toList (rest.map String.toList)) pieces := by
  rcases packParts_cons h with ⟨hfits, hrest⟩ | ⟨hpart, later, rfl, hlater⟩
  · rw [if_pos rfl] at hfits hrest
    refine (packParts_cuts hinner hrest).congr ?_
    simp only [Packs, not_le.mpr hlong]
    simp [not_lt.mpr hfits]
  · rw [if_pos rfl] at hpart
    rcases hlater with ⟨-, cut, tail, hcut, htail, rfl⟩ | ⟨hshort, -⟩
    · have hcuts := (hinner first cut hcut).append (packParts_cuts hinner htail)
      refine Cuts.congr (by simpa using hcuts) ?_
      simp [Packs, hpart]
      tauto
    · omega

end Pack

/-- No line that is longer than the size contains `". "`. -/
def Unbroken (size : ℤ) (text : List Char) : Prop :=
  ∀ line ∈ cutAt ['\n'] 0 text, size < line.length → ¬ ['.', ' '] <:+: line

section Levels

variable {size : ℤ}

theorem unbroken_of_short {text : List Char} (h : (text.length : ℤ) ≤ size) :
    Unbroken size text := by
  intro line hline hlong
  obtain ⟨first, rest, hcut, hjoin, -⟩ := cutAt_rejoin (List.cons_ne_nil '\n' []) text
  rw [hcut] at hline
  have hle := (infix_rejoined hline hjoin).length_le
  omega

theorem unbroken_nil : Unbroken size [] := by
  intro line hline hlong
  rw [List.mem_singleton.mp hline]
  simp

theorem unbroken_around {front back : List Char} :
    Unbroken size (front ++ '\n' :: back) ↔ Unbroken size front ∧ Unbroken size back := by
  simp only [Unbroken, cutAt_around, List.mem_append, or_imp, forall_and]

theorem unbroken_paragraphs (first : List Char) (rest : List (List Char)) :
    Unbroken size (first ++ behind ['\n', '\n'] rest)
      ↔ ∀ part ∈ first :: rest, Unbroken size part := by
  induction rest generalizing first with
  | nil => simp
  | cons part rest ih =>
      have hbehind : first ++ behind ['\n', '\n'] (part :: rest)
          = first ++ '\n' :: ([] ++ '\n' :: (part ++ behind ['\n', '\n'] rest)) := by
        simp
      rw [hbehind, unbroken_around, unbroken_around, ih]
      simp only [unbroken_nil, true_and, List.forall_mem_cons]

/-- A text that fits is one piece, or none when it is blank. -/
theorem cuts_whole (text : String) : Cuts True text.toList (if strip text = "" then [] else [text]) := by
  split_ifs with hstrip
  · apply cuts_nil
    intro c hc
    by_contra hspace
    exact (strip_ne_empty_iff text).mpr ⟨c, hc, by simpa using hspace⟩ hstrip
  · exact cuts_singleton text

/-- What one level does, in terms of the next. -/
theorem splitText_cons {sep : String} (hsep : sep ≠ "") {rest : List String}
    {Keep : String → Prop}
    (hinner : ∀ part cut, splitText size rest part = .ok cut → Cuts (Keep part) part.toList cut)
    {text : String} {pieces : List String} (h : splitText size (sep :: rest) text = .ok pieces) :
    Cuts (text.length ≤ size ∨ (Blank sep.toList ∨ ¬ sep.toList <:+: text.toList)
        ∧ ∀ part ∈ split text sep, size < part.length → Keep part) text.toList pieces := by
  rw [splitText, if_neg hsep] at h
  by_cases hfits : text.length ≤ size
  · rw [if_pos hfits] at h
    cases h
    exact (cuts_whole text).congr (by simp [hfits])
  · rw [if_neg hfits] at h
    have hsep' : sep.toList ≠ [] := by simpa using hsep
    obtain ⟨first, parts, hcut, hjoin, hsingle⟩ := cutAt_rejoin hsep' text.toList
    have hsplit : split text sep = String.ofList first :: parts.map String.ofList := by
      rw [split, hcut, List.map_cons]
    have hparts : (parts.map String.ofList).map String.toList = parts := by
      simp [Function.comp_def]
    rw [hsplit] at h
    have htext : (String.ofList first).toList
        ++ behind sep.toList ((parts.map String.ofList).map String.toList) = text.toList := by
      rw [hparts, String.toList_ofList, hjoin]
    have hlong : size < ((String.ofList first).toList
        ++ behind sep.toList ((parts.map String.ofList).map String.toList)).length := by
      rw [htext, String.length_toList]
      omega
    have hcuts := packParts_text hinner hlong h
    rw [htext] at hcuts
    refine hcuts.congr ?_
    rw [hsplit, List.map_eq_nil_iff, hsingle]
    simp [hfits]

theorem splitText_positions (hsize : 0 < size) (text : String) (pieces : List String)
    (h : splitText size [""] text = .ok pieces) : Cuts True text.toList pieces := by
  rw [splitText] at h
  by_cases hfits : text.length ≤ size
  · rw [if_pos hfits] at h
    cases h
    exact cuts_whole text
  · rw [if_neg hfits, if_pos rfl] at h
    exact cutEvery_cuts hsize h

theorem splitText_blanks (hsize : 0 < size) (text : String) (pieces : List String)
    (h : splitText size [" ", ""] text = .ok pieces) : Cuts True text.toList pieces := by
  have hblank : Blank " ".toList := by simp [Blank, isSpace]
  refine (splitText_cons (by decide) (splitText_positions hsize) h).congr ?_
  simp only [hblank, true_or, implies_true, and_true, or_true]

/-- A line that has to be cut at `". "` loses a full stop. -/
theorem splitText_sentences (hsize : 0 < size) (text : String) (pieces : List String)
    (h : splitText size [". ", " ", ""] text = .ok pieces) :
    Cuts (size < text.length → ¬ ['.', ' '] <:+: text.toList) text.toList pieces := by
  have hword : ¬ Blank ". ".toList := by
    intro hblank
    have hdot := hblank '.' (by simp)
    revert hdot
    decide
  have hsep : ". ".toList = ['.', ' '] := rfl
  refine (splitText_cons (by decide) (splitText_blanks hsize) h).congr ?_
  rw [← hsep]
  simp only [hword, false_or, implies_true, and_true, ← not_lt]
  tauto

theorem splitText_lines (hsize : 0 < size) (text : String) (pieces : List String)
    (h : splitText size ["\n", ". ", " ", ""] text = .ok pieces) :
    Cuts (Unbroken size text.toList) text.toList pieces := by
  have hblank : Blank "\n".toList := by simp [Blank, isSpace]
  refine (splitText_cons (by decide) (splitText_sentences hsize) h).congr ?_
  have hlines : (∀ part ∈ split text "\n", size < part.length →
        size < part.length → ¬ ['.', ' '] <:+: part.toList) ↔ Unbroken size text.toList := by
    simp [split, Unbroken]
  rw [hlines]
  constructor
  · rintro (hfits | ⟨-, hkeep⟩)
    · exact unbroken_of_short (by rwa [String.length_toList])
    · exact hkeep
  · intro hkeep
    exact .inr ⟨.inl hblank, hkeep⟩

/-- What `split_text` keeps. -/
theorem splitText_cuts (hsize : 0 < size) {text : String} {pieces : List String}
    (h : splitText size separators text = .ok pieces) :
    Cuts (Unbroken size text.toList) text.toList pieces := by
  have hblank : Blank "\n\n".toList := by simp [Blank, isSpace]
  refine (splitText_cons (by decide) (splitText_lines hsize) h).congr ?_
  obtain ⟨first, rest, hcut, hjoin, -⟩ := cutAt_rejoin (List.cons_ne_nil '\n' ['\n']) text.toList
  have hparts : (∀ part ∈ split text "\n\n", size < part.length → Unbroken size part.toList)
      ↔ Unbroken size text.toList := by
    rw [← hjoin, unbroken_paragraphs, split]
    change (∀ part ∈ (cutAt ['\n', '\n'] 0 text.toList).map String.ofList, _) ↔ _
    rw [hcut, List.forall_mem_map]
    refine forall₂_congr fun part _ => ?_
    rw [String.toList_ofList, String.length_ofList]
    constructor
    · intro hlong
      by_cases hpart : size < part.length
      · exact hlong hpart
      · exact unbroken_of_short (not_lt.mp hpart)
    · intro hkeep _
      exact hkeep
  rw [hparts]
  constructor
  · rintro (hfits | ⟨-, hkeep⟩)
    · exact unbroken_of_short (by rwa [String.length_toList])
    · exact hkeep
  · intro hkeep
    exact .inr ⟨.inl hblank, hkeep⟩

theorem unbroken_of_blank {text : List Char} (h : Blank text) : Unbroken size text := by
  intro line hline _ hoccurs
  obtain ⟨first, rest, hcut, hjoin, -⟩ := cutAt_rejoin (List.cons_ne_nil '\n' []) text
  rw [hcut] at hline
  have hdot := h '.' ((infix_rejoined hline hjoin).subset (hoccurs.subset (by simp)))
  revert hdot
  decide

/-- The sections follow one another, and a new one begins where a line does. -/
theorem splitHeadings_spec (size : ℤ) (lineStart : Bool) (front text : List Char)
    (hfront : lineStart = true → front = [] ∨ ∃ line, front = line ++ ['\n']) :
    ∃ first rest, splitHeadings lineStart text = first :: rest
      ∧ (first :: rest).flatten = text
      ∧ (Unbroken size (front ++ text)
        ↔ Unbroken size (front ++ first) ∧ ∀ s ∈ rest, Unbroken size s) := by
  induction text generalizing lineStart front with
  | nil => exact ⟨[], [], by cases lineStart <;> rfl, rfl, by simp⟩
  | cons c text ih =>
      have hline : (c = '\n' : Bool) = true → ∀ front : List Char,
          front ++ [c] = [] ∨ ∃ line, front ++ [c] = line ++ ['\n'] := by
        intro hc front
        exact .inr ⟨front, by rw [of_decide_eq_true hc]⟩
      by_cases hheading : (lineStart && isHeading (c :: text)) = true
      · obtain ⟨first, rest, hcut, hjoin, hkeep⟩ := ih (c = '\n') [c] fun hc => hline hc []
        refine ⟨[], (c :: first) :: rest, ?_, ?_, ?_⟩
        · rw [splitHeadings, if_pos hheading, hcut]
          rfl
        · simpa using hjoin
        · have hlineStart : lineStart = true := by
            cases lineStart with
            | true => rfl
            | false => cases hheading
          have hsplit : Unbroken size (front ++ c :: text)
              ↔ Unbroken size front ∧ Unbroken size (c :: text) := by
            rcases hfront hlineStart with rfl | ⟨line, rfl⟩
            · simp [unbroken_nil]
            · have haround : line ++ ['\n'] ++ c :: text = line ++ '\n' :: (c :: text) := by simp
              rw [haround, unbroken_around, unbroken_around]
              simp [unbroken_nil]
          rw [hsplit, List.forall_mem_cons]
          have hkeep' : Unbroken size (c :: text)
              ↔ Unbroken size (c :: first) ∧ ∀ s ∈ rest, Unbroken size s := hkeep
          rw [hkeep', List.append_nil]
      · obtain ⟨first, rest, hcut, hjoin, hkeep⟩ :=
          ih (c = '\n') (front ++ [c]) fun hc => hline hc front
        refine ⟨c :: first, rest, ?_, ?_, ?_⟩
        · rw [splitHeadings, if_neg hheading, hcut]
          rfl
        · simpa using hjoin
        · simpa using hkeep

theorem sectionPieces_cons {s : String} {sections pieces : List String}
    (h : sectionPieces size (s :: sections) = .ok pieces) :
    ∃ cut later, (if s.length ≤ size then .ok [s] else splitText size separators s) = .ok cut
      ∧ sectionPieces size sections = .ok later ∧ pieces = cut ++ later := by
  rw [sectionPieces] at h
  by_cases hfits : s.length ≤ size
  · rw [if_pos hfits] at h
    obtain ⟨cut, hcut, hafter⟩ := ok_of_bind h
    obtain ⟨later, hlater, hpieces⟩ := ok_of_bind hafter
    cases hpieces
    exact ⟨cut, later, by rw [if_pos hfits, hcut], hlater, rfl⟩
  · rw [if_neg hfits] at h
    obtain ⟨cut, hcut, hafter⟩ := ok_of_bind h
    obtain ⟨later, hlater, hpieces⟩ := ok_of_bind hafter
    cases hpieces
    exact ⟨cut, later, by rw [if_neg hfits, hcut], hlater, rfl⟩

/-- What is kept of a text cut at its headings. -/
theorem sectionPieces_cuts (hsize : 0 < size) {sections : List (List Char)} {pieces : List String}
    (h : sectionPieces size ((sections.map String.ofList).filter fun s => strip s ≠ "")
      = .ok pieces) : Cuts (∀ s ∈ sections, Unbroken size s) sections.flatten pieces := by
  induction sections generalizing pieces with
  | nil =>
      cases h
      exact (cuts_nil (by simp [Blank])).congr (by simp)
  | cons s sections ih =>
      rw [List.flatten_cons, List.forall_mem_cons]
      by_cases hstrip : strip (String.ofList s) = ""
      · have hblank : Blank s := by
          intro c hc
          by_contra hspace
          exact (strip_ne_empty_iff _).mpr ⟨c, by simpa using hc, by simpa using hspace⟩ hstrip
        rw [List.map_cons, List.filter_cons_of_neg (by simpa using hstrip)] at h
        exact ((ih h).widen s).congr (by simp [hblank, unbroken_of_blank hblank])
      · rw [List.map_cons, List.filter_cons_of_pos (by simpa using hstrip)] at h
        obtain ⟨cut, later, hcut, hlater, rfl⟩ := sectionPieces_cons h
        have hsection : Cuts (Unbroken size s) s cut := by
          by_cases hfits : (String.ofList s).length ≤ size
          · rw [if_pos hfits] at hcut
            cases hcut
            have hshort : Unbroken size s := unbroken_of_short (by simpa using hfits)
            simpa [hshort] using cuts_singleton (String.ofList s)
          · rw [if_neg hfits] at hcut
            simpa using splitText_cuts hsize hcut
        exact hsection.append (ih hlater)

/-- What is kept of a markdown text. -/
theorem markdownSections_cuts (hsize : 0 < size) {text : String} {pieces : List String}
    (h : sectionPieces size (markdownSections text) = .ok pieces) :
    Cuts (Unbroken size text.toList) text.toList pieces := by
  obtain ⟨first, rest, hcut, hjoin, hkeep⟩ :=
    splitHeadings_spec size true [] text.toList fun _ => .inl rfl
  rw [markdownSections, hcut] at h
  have hcuts := sectionPieces_cuts hsize h
  rw [hjoin] at hcuts
  refine hcuts.congr ?_
  rw [List.forall_mem_cons]
  exact hkeep.symm

end Levels

end Rag
