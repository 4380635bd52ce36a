import Rag.Lib.Strip

/-!
Pieces that stand in a text one after the other, and how they are found again.

Pieces cut from a text keep their order and do not overlap. Looking each of them up from
the end of the one before therefore never misses; it finds the true place of a piece when
only whitespace lies in between. How many characters that are not whitespace the pieces
have decides whether that is so.
-/

namespace Py

/-- The characters that are not whitespace. -/
def words (cs : List Char) : List Char := cs.filter fun c => !isSpace c

def Blank (cs : List Char) : Prop := ∀ c ∈ cs, isSpace c = true

/-- The pieces stand in the text one after the other. `Gap` holds of what lies before,
between and behind them. -/
def Laid (Gap : List Char → Prop) : List (List Char) → List Char → Prop
  | [], text => Gap text
  | piece :: pieces, text =>
      ∃ before rest, text = before ++ piece ++ rest ∧ Gap before ∧ Laid Gap pieces rest

/-- Anything may lie between the pieces. -/
def Scattered : List (List Char) → List Char → Prop := Laid fun _ => True

@[simp] theorem words_append (cs ds : List Char) : words (cs ++ ds) = words cs ++ words ds :=
  List.filter_append ..

theorem words_eq_nil_iff {cs : List Char} : words cs = [] ↔ Blank cs := by
  rw [words, List.filter_eq_nil_iff, Blank]
  simp

theorem Blank.append {cs ds : List Char} (hcs : Blank cs) (hds : Blank ds) :
    Blank (cs ++ ds) := by
  intro c hc
  rcases List.mem_append.mp hc with hc | hc
  · exact hcs c hc
  · exact hds c hc

theorem Blank.subset {cs ds : List Char} (hcs : Blank cs) (h : ds ⊆ cs) : Blank ds :=
  fun c hc => hcs c (h hc)

section Counting

variable {Gap : List Char → Prop} {pieces : List (List Char)} {text : List Char}

theorem Laid.scattered (h : Laid Gap pieces text) : Scattered pieces text := by
  induction pieces generalizing text with
  | nil => trivial
  | cons piece pieces ih =>
      obtain ⟨before, rest, htext, -, hrest⟩ := h
      exact ⟨before, rest, htext, trivial, ih hrest⟩

theorem Scattered.words_length (h : Scattered pieces text) :
    (pieces.flatMap words).length ≤ (words text).length := by
  induction pieces generalizing text with
  | nil => simp
  | cons piece pieces ih =>
      obtain ⟨before, rest, rfl, -, hrest⟩ := h
      have hle := ih hrest
      simp only [List.flatMap_cons, words_append, List.length_append]
      omega

/-- Only whitespace lies between the pieces exactly when they have as many other characters
as the text. -/
theorem Scattered.laid_blank_iff (h : Scattered pieces text) :
    Laid Blank pieces text ↔ (words text).length = (pieces.flatMap words).length := by
  induction pieces generalizing text with
  | nil => simp [Laid, ← words_eq_nil_iff]
  | cons piece pieces ih =>
      constructor
      · rintro ⟨before, rest, rfl, hbefore, hlaid⟩
        have hrest := (ih hlaid.scattered).mp hlaid
        simp [words_eq_nil_iff.mpr hbefore, hrest]
      · intro hcount
        obtain ⟨before, rest, rfl, -, hrest⟩ := h
        have hle := Scattered.words_length hrest
        simp only [List.flatMap_cons, words_append, List.length_append] at hcount
        have hbefore : words before = [] := List.eq_nil_of_length_eq_zero (by omega)
        exact ⟨before, rest, rfl, words_eq_nil_iff.mp hbefore, (ih hrest).mpr (by omega)⟩

theorem Scattered.widen (h : Scattered pieces text) (front : List Char) :
    Scattered pieces (front ++ text) := by
  cases pieces with
  | nil => trivial
  | cons piece pieces =>
      obtain ⟨before, rest, rfl, -, hrest⟩ := h
      exact ⟨front ++ before, rest, by simp, trivial, hrest⟩

theorem Laid.widen_blank (h : Laid Blank pieces text) {front : List Char} (hfront : Blank front) :
    Laid Blank pieces (front ++ text) := by
  cases pieces with
  | nil => exact hfront.append h
  | cons piece pieces =>
      obtain ⟨before, rest, rfl, hbefore, hrest⟩ := h
      exact ⟨front ++ before, rest, by simp, hfront.append hbefore, hrest⟩

theorem Scattered.append {later : List (List Char)} {tail : List Char}
    (h : Scattered pieces text) (hlater : Scattered later tail) :
    Scattered (pieces ++ later) (text ++ tail) := by
  induction pieces generalizing text with
  | nil => exact hlater.widen text
  | cons piece pieces ih =>
      obtain ⟨before, rest, rfl, -, hrest⟩ := h
      exact ⟨before, rest ++ tail, by simp, trivial, ih hrest⟩

theorem scattered_singleton (cs : List Char) : Scattered [cs] cs :=
  ⟨[], [], by simp, trivial, trivial⟩

end Counting

/-- A piece that begins at a later position comes first when the gap before it is one. -/
theorem Laid.cons_of_prefix {Gap : List Char → Prop} {piece text : List Char}
    {pieces : List (List Char)} {cursor i : Nat} (hle : cursor ≤ i)
    (hstart : piece <+: text.drop i) (hgap : Gap ((text.drop cursor).take (i - cursor)))
    (hrest : Laid Gap pieces (text.drop (i + piece.length))) :
    Laid Gap (piece :: pieces) (text.drop cursor) := by
  obtain ⟨rest, hpiece⟩ := hstart
  have hbehind : text.drop (i + piece.length) = rest := by
    rw [← List.drop_drop, ← hpiece, List.drop_left]
  have hat : (text.drop cursor).drop (i - cursor) = piece ++ rest := by
    rw [hpiece, List.drop_drop, Nat.add_sub_cancel' hle]
  refine ⟨(text.drop cursor).take (i - cursor), rest, ?_, hgap, hbehind ▸ hrest⟩
  rw [List.append_assoc, ← hat, List.take_append_drop]

theorem firstIndex_some {t s : List Char} {i : Nat} (h : firstIndex t s = some i) :
    t <+: s.drop i ∧ i ≤ s.length := by
  induction s generalizing i with
  | nil =>
      rw [firstIndex] at h
      split_ifs at h with hnil
      cases h
      simp [hnil]
  | cons c s ih =>
      rw [firstIndex] at h
      split_ifs at h with hstart
      · cases h
        exact ⟨List.isPrefixOf_iff_prefix.mp hstart, Nat.zero_le _⟩
      · obtain ⟨j, hj, rfl⟩ := Option.map_eq_some_iff.mp h
        obtain ⟨hfirst, hle⟩ := ih hj
        exact ⟨hfirst, Nat.succ_le_succ hle⟩

/-- What stands in a text is found there or earlier. -/
theorem firstIndex_append (before t rest : List Char) :
    ∃ i ≤ before.length, firstIndex t (before ++ t ++ rest) = some i := by
  induction before with
  | nil =>
      refine ⟨0, Nat.le_refl _, ?_⟩
      cases ht : t ++ rest with
      | nil =>
          have hnil := List.append_eq_nil_iff.mp ht
          simp [firstIndex, hnil]
      | cons c s =>
          have hstart : t.isPrefixOf (c :: s) := by
            rw [← ht]
            simp
          simp [firstIndex, ht, hstart]
  | cons c before ih =>
      obtain ⟨i, hle, hi⟩ := ih
      rw [List.cons_append, List.cons_append, firstIndex]
      split_ifs with hstart
      · exact ⟨0, Nat.zero_le _, rfl⟩
      · refine ⟨i + 1, Nat.succ_le_succ hle, ?_⟩
        rw [hi]
        rfl

/-- The whitespace a text starts with is that of any part it starts with which is not
blank. -/
theorem takeWhile_append_of_not_blank {t : List Char} (h : ¬ Blank t) (rest : List Char) :
    (t ++ rest).takeWhile isSpace = t.takeWhile isSpace := by
  induction t with
  | nil => exact absurd (fun c hc => by cases hc) h
  | cons c t ih =>
      rw [List.cons_append, List.takeWhile_cons, List.takeWhile_cons]
      split_ifs with hc
      · have ht : ¬ Blank t := by
          intro ht
          apply h
          intro d hd
          rcases List.mem_cons.mp hd with rfl | hd
          · exact hc
          · exact ht d hd
        rw [ih ht]
      · rfl

/-- Behind whitespace only, a piece that is not blank is found exactly where it stands. -/
theorem eq_length_of_blank {before t rest : List Char} {i : Nat} (hbefore : Blank before)
    (ht : ¬ Blank t) (hle : i ≤ before.length) (h : t <+: (before ++ t ++ rest).drop i) :
    i = before.length := by
  obtain ⟨more, hmore⟩ := h
  have hdrop : (before ++ t ++ rest).drop i = before.drop i ++ (t ++ rest) := by
    rw [List.append_assoc, List.drop_append_of_le_length hle]
  have hlead := congrArg (fun s => (s.takeWhile isSpace).length) (hmore.trans hdrop)
  have hblank : ∀ c ∈ before.drop i, isSpace c = true :=
    fun c hc => hbefore c (List.mem_of_mem_drop hc)
  rw [takeWhile_append_of_not_blank ht, List.takeWhile_append_of_pos hblank,
    takeWhile_append_of_not_blank ht, List.length_append, List.length_drop] at hlead
  omega

/-- Within the text a slice bound is the position itself. -/
theorem sliceBound_of_le {length i : Nat} (h : i ≤ length) : sliceBound length i = i := by
  rw [sliceBound, if_pos (Int.natCast_nonneg _), Int.toNat_natCast, Nat.min_eq_left h]

/-- Two slices that meet make one. -/
theorem sliceBetween_append {text : String} {i j k : Nat} (hij : i ≤ j) (hjk : j ≤ k)
    (hk : k ≤ text.length) :
    sliceBetween i j text ++ sliceBetween j k text = sliceBetween i k text := by
  rw [sliceBetween, sliceBetween, sliceBetween, sliceBound_of_le hk,
    sliceBound_of_le (hjk.trans hk), sliceBound_of_le (hij.trans (hjk.trans hk)),
    ← String.ofList_append]
  congr 1
  have hj : text.toList.take k = text.toList.take j ++ (text.toList.take k).drop j := by
    rw [List.drop_take, ← List.take_add, Nat.add_sub_cancel' hjk]
  have hlength : i ≤ (text.toList.take j).length := by
    rw [List.length_take, String.length_toList]
    omega
  conv_rhs => rw [hj, List.drop_append_of_le_length hlength]

theorem length_sliceBetween {text : String} {i j : Nat} (hj : j ≤ text.length) :
    (sliceBetween i j text).length = j - i := by
  by_cases hi : i ≤ text.length
  · rw [sliceBetween, String.length_ofList, sliceBound_of_le hj, sliceBound_of_le hi,
      List.length_drop, List.length_take, String.length_toList, Nat.min_eq_left hj]
  · have hbound : sliceBound text.length i = text.length := by
      rw [sliceBound, if_pos (Int.natCast_nonneg _), Int.toNat_natCast]
      omega
    rw [sliceBetween, String.length_ofList, sliceBound_of_le hj, hbound, List.length_drop,
      List.length_take, String.length_toList]
    omega

/-- A slice of the right length is a piece exactly when the piece begins where it does. -/
theorem sliceBetween_eq_iff {text piece : String} {i : Nat} (h : i + piece.length ≤ text.length) :
    sliceBetween i ((i + piece.length : ℕ) : ℤ) text = piece
      ↔ piece.toList <+: text.toList.drop i := by
  have hi : sliceBound text.length i = i := by
    simp [sliceBound]
    omega
  have hj : sliceBound text.length ((i + piece.length : ℕ) : ℤ) = i + piece.length := by
    rw [sliceBound, if_pos (Int.natCast_nonneg _), Int.toNat_natCast, Nat.min_eq_left h]
  rw [sliceBetween, hi, hj, List.drop_take, Nat.add_sub_cancel_left, List.prefix_iff_eq_take,
    String.length_toList, String.ofList_eq]
  exact eq_comm

theorem find_some {text piece : String} {start i : Nat} (h : find text piece start = some i) :
    start ≤ i ∧ piece.toList <+: text.toList.drop i ∧ i + piece.length ≤ text.length := by
  unfold find at h
  split_ifs at h with hlt
  obtain ⟨j, hj, rfl⟩ := Option.map_eq_some_iff.mp h
  obtain ⟨hfirst, hle⟩ := firstIndex_some hj
  rw [List.drop_drop] at hfirst
  have hlength := hfirst.length_le
  rw [List.length_drop, String.length_toList, String.length_toList] at hlength
  rw [List.length_drop, String.length_toList] at hle
  exact ⟨Nat.le_add_right _ _, hfirst, by omega⟩

section Find

variable {text piece : String} {pieces : List (List Char)} {cursor : Nat}

theorem find_of_drop {before rest : List Char} (hcursor : cursor ≤ text.length)
    (h : text.toList.drop cursor = before ++ piece.toList ++ rest) :
    ∃ i ≤ before.length, find text piece cursor = some (cursor + i) := by
  obtain ⟨i, hle, hi⟩ := firstIndex_append before piece.toList rest
  refine ⟨i, hle, ?_⟩
  rw [find, if_neg (Nat.not_lt.mpr hcursor), h, hi]
  rfl

/-- The first piece is found, and the others stand behind it. -/
theorem find_scattered (hcursor : cursor ≤ text.length)
    (h : Scattered (piece.toList :: pieces) (text.toList.drop cursor)) :
    ∃ i, find text piece cursor = some i
      ∧ Scattered pieces (text.toList.drop (i + piece.length)) := by
  obtain ⟨before, rest, htext, -, hrest⟩ := h
  obtain ⟨i, hle, hi⟩ := find_of_drop hcursor htext
  refine ⟨cursor + i, hi, ?_⟩
  have hdrop : text.toList.drop (cursor + i + piece.length)
      = (before ++ piece.toList).drop (i + piece.length) ++ rest := by
    rw [Nat.add_assoc, ← List.drop_drop, htext, List.drop_append_of_le_length]
    rw [List.length_append, String.length_toList]
    omega
  rw [hdrop]
  exact Scattered.widen hrest _

/-- With whitespace only in front of it, only whitespace is passed over in finding the first
piece, and with whitespace only behind it, only whitespace in between is left. -/
theorem find_laid_blank (hcursor : cursor ≤ text.length)
    (h : Laid Blank (piece.toList :: pieces) (text.toList.drop cursor)) :
    ∃ i, find text piece cursor = some (cursor + i)
      ∧ Blank ((text.toList.drop cursor).take i)
      ∧ Laid Blank pieces (text.toList.drop (cursor + i + piece.length)) := by
  obtain ⟨before, rest, htext, hbefore, hrest⟩ := h
  obtain ⟨i, hle, hi⟩ := find_of_drop hcursor htext
  have hfirst := (find_some hi).2.1
  rw [← List.drop_drop, htext] at hfirst
  refine ⟨i, hi, ?_, ?_⟩
  · rw [htext, List.append_assoc, List.take_append_of_le_length hle]
    exact hbefore.subset (List.take_subset _ _)
  · have hdrop : text.toList.drop (cursor + i + piece.length)
        = (before ++ piece.toList).drop (i + piece.length) ++ rest := by
      rw [Nat.add_assoc, ← List.drop_drop, htext, List.drop_append_of_le_length]
      rw [List.length_append, String.length_toList]
      omega
    -- a piece of whitespace may be found too early, any other is found where it stands
    have hbehind : Blank ((before ++ piece.toList).drop (i + piece.length)) := by
      by_cases hpiece : Blank piece.toList
      · exact (hbefore.append hpiece).subset (List.drop_subset _ _)
      · have hexact := eq_length_of_blank hbefore hpiece hle hfirst
        rw [List.drop_eq_nil_of_le]
        · intro c hc
          cases hc
        · rw [List.length_append, String.length_toList, hexact]
    rw [hdrop]
    exact hrest.widen_blank hbehind

end Find

/-- What follows the first of the parts: each of the others behind a separator. -/
def behind (sep : List Char) (parts : List (List Char)) : List Char :=
  parts.flatMap fun part => sep ++ part

@[simp] theorem behind_nil (sep : List Char) : behind sep [] = [] := rfl

@[simp] theorem behind_cons (sep part : List Char) (parts : List (List Char)) :
    behind sep (part :: parts) = sep ++ part ++ behind sep parts := rfl

theorem cutAt_skip (sep : List Char) {n : Nat} {s : List Char} (h : n ≤ s.length) :
    cutAt sep n s = cutAt sep 0 (s.drop n) := by
  induction s generalizing n with
  | nil =>
      have hn : n = 0 := by simpa using h
      subst hn
      rfl
  | cons c s ih =>
      cases n with
      | zero => rfl
      | succ n =>
          rw [cutAt, List.drop_succ_cons]
          exact ih (Nat.le_of_succ_le_succ h)

/-- Behind a separator the splitting starts again. -/
theorem cutAt_append {sep : List Char} (hsep : sep ≠ []) (s : List Char) :
    cutAt sep 0 (sep ++ s) = [] :: cutAt sep 0 s := by
  obtain ⟨c, rest, rfl⟩ := List.exists_cons_of_ne_nil hsep
  have hstart : (c :: rest).isPrefixOf (c :: (rest ++ s)) = true := by simp
  have hskip : rest.length ≤ (rest ++ s).length := by simp
  rw [List.cons_append, cutAt, if_pos hstart, List.length_cons, Nat.add_sub_cancel,
    cutAt_skip _ hskip, List.drop_left]

/-- Putting the separators back gives the text; there is one part exactly when the separator
does not occur. -/
theorem cutAt_rejoin {sep : List Char} (hsep : sep ≠ []) (s : List Char) :
    ∃ first rest, cutAt sep 0 s = first :: rest ∧ first ++ behind sep rest = s
      ∧ (rest = [] ↔ ¬ sep <:+: s) := by
  induction hlength : s.length using Nat.strong_induction_on generalizing s with
  | _ n ih =>
      subst hlength
      cases s with
      | nil => exact ⟨[], [], rfl, rfl, by simp [hsep]⟩
      | cons c s =>
          by_cases hstart : sep <+: c :: s
          · obtain ⟨later, hlater⟩ := hstart
            have hpos := List.length_pos_of_ne_nil hsep
            have hlt : later.length < (c :: s).length := by
              rw [← hlater, List.length_append]
              omega
            obtain ⟨first, rest, hcut, hjoin, -⟩ := ih _ hlt later rfl
            refine ⟨[], first :: rest, ?_, ?_, ?_⟩
            · rw [← hlater, cutAt_append hsep, hcut]
            · rw [List.nil_append, behind_cons, List.append_assoc, hjoin, hlater]
            · have hoccurs : sep <:+: c :: s := ⟨[], later, by simpa using hlater⟩
              simp [hoccurs]
          · obtain ⟨first, rest, hcut, hjoin, hsingle⟩ := ih _ (Nat.lt_succ_self _) s rfl
            have hstart' : ¬ sep.isPrefixOf (c :: s) = true := by
              simpa [List.isPrefixOf_iff_prefix] using hstart
            refine ⟨c :: first, rest, ?_, ?_, ?_⟩
            · rw [cutAt, if_neg hstart', hcut]
              rfl
            · rw [List.cons_append, hjoin]
            · rw [List.infix_cons_iff, hsingle]
              simp [hstart]

theorem infix_rejoined {sep first s part : List Char} {rest : List (List Char)}
    (hpart : part ∈ first :: rest) (hjoin : first ++ behind sep rest = s) : part <:+: s := by
  subst hjoin
  rcases List.mem_cons.mp hpart with rfl | hrest
  · exact (List.prefix_append _ _).isInfix
  · obtain ⟨before, after, rfl⟩ := List.append_of_mem hrest
    exact ⟨first ++ behind sep before ++ sep, behind sep after, by simp [behind]⟩

/-- The parts at a separator of one character, around one occurrence of it. -/
theorem cutAt_around (c : Char) (front back : List Char) :
    cutAt [c] 0 (front ++ c :: back) = cutAt [c] 0 front ++ cutAt [c] 0 back := by
  have hne : [c] ≠ [] := by simp
  induction front with
  | nil => exact cutAt_append hne back
  | cons d front ih =>
      rw [List.cons_append, cutAt, cutAt, ih]
      obtain ⟨first, rest, hcut, -, -⟩ := cutAt_rejoin hne front
      by_cases hd : c = d
      · subst hd
        simp [ih]
      · simp [ hd, hcut, consFirst]

/-- A text without the separator is its only part. -/
theorem cutAt_of_not_mem {c : Char} {s : List Char} (h : c ∉ s) : cutAt [c] 0 s = [s] := by
  have hne : [c] ≠ [] := by simp
  obtain ⟨first, rest, hcut, hjoin, hsingle⟩ := cutAt_rejoin hne s
  have hnone : rest = [] := by
    apply hsingle.mpr
    intro hoccurs
    exact h (hoccurs.subset List.mem_cons_self)
  subst hnone
  rw [behind_nil, List.append_nil] at hjoin
  rw [hcut, hjoin]

/-- Parts without the separator are the parts of the text that joins them. -/
theorem cutAt_behind {c : Char} {first : List Char} {rest : List (List Char)}
    (h : ∀ part ∈ first :: rest, c ∉ part) :
    cutAt [c] 0 (first ++ behind [c] rest) = first :: rest := by
  induction rest generalizing first with
  | nil =>
      rw [behind_nil, List.append_nil]
      exact cutAt_of_not_mem (h first List.mem_cons_self)
  | cons part rest ih =>
      obtain ⟨hfirst, hrest⟩ := List.forall_mem_cons.mp h
      rw [behind_cons, List.append_assoc, List.singleton_append, cutAt_around,
        cutAt_of_not_mem hfirst, ih hrest]
      rfl

end Py
