import Rag.Lib.Strip

/-!
`len(text.split())`, and when one text can stand for another in it.

A word begins at a character that is no whitespace and does not follow one, so the count is kept
by a scan that knows whether it is inside a word. How many words one text has more than another
is the same wherever they stand, when they do so from either state of the scan and leave it in
the same one.
-/

namespace Py

/-- The words that begin in a text. -/
def wordsFrom (inWord : Bool) : List Char → Nat
  | [] => 0
  | c :: rest =>
      if isSpace c then wordsFrom false rest
      else (if inWord then 0 else 1) + wordsFrom true rest

/-- `len(text.split())` -/
def wordCount (text : String) : Nat := wordsFrom false text.toList

/-- Past a character that is no whitespace the scan is inside a word. -/
theorem wordsFrom_append_cons {d : Char} (hd : isSpace d = false) (inWord : Bool)
    (cs rest : List Char) :
    wordsFrom inWord (cs ++ d :: rest) = wordsFrom inWord (cs ++ [d]) + wordsFrom true rest := by
  induction cs generalizing inWord with
  | nil => simp [wordsFrom, hd]
  | cons c cs ih =>
      simp only [List.cons_append, wordsFrom]
      split_ifs
      · exact ih false
      · rw [ih true, Nat.add_assoc]
      · rw [ih true, Nat.add_assoc]

/-- A text with a word in it has one. -/
theorem wordsFrom_pos {d : Char} (hd : isSpace d = false) {cs : List Char} (h : d ∈ cs) :
    0 < wordsFrom false cs := by
  induction cs with
  | nil => cases h
  | cons c cs ih =>
      simp only [wordsFrom, Bool.false_eq_true, if_false]
      split_ifs with hspace
      · rcases List.mem_cons.mp h with rfl | htail
        · rw [hd] at hspace
          cases hspace
        · exact ih htail
      · omega

/-- The second text counts `n` words more, wherever they stand. -/
def MoreWords (n : Nat) (cs ds : List Char) : Prop :=
  ∀ inWord rest, wordsFrom inWord (cs ++ rest) + n = wordsFrom inWord (ds ++ rest)

/-- Between two characters that are no whitespace only the number of words counts. -/
theorem moreWords_enclosed {c d : Char} (hc : isSpace c = false) (hd : isSpace d = false)
    {n : Nat} {cs ds : List Char}
    (h : wordsFrom false (c :: (cs ++ [d])) + n = wordsFrom false (c :: (ds ++ [d]))) :
    MoreWords n (c :: (cs ++ [d])) (c :: (ds ++ [d])) := by
  have hinside : wordsFrom true (cs ++ [d]) + n = wordsFrom true (ds ++ [d]) := by
    simp only [wordsFrom, hc, Bool.false_eq_true, if_false] at h
    omega
  intro inWord rest
  simp only [List.cons_append, List.append_assoc, List.nil_append, wordsFrom, hc,
    Bool.false_eq_true, if_false]
  rw [wordsFrom_append_cons hd true cs, wordsFrom_append_cons hd true ds]
  omega

theorem MoreWords.behind {n : Nat} {cs ds : List Char} (h : MoreWords n cs ds)
    (front : List Char) : MoreWords n (front ++ cs) (front ++ ds) := by
  induction front with
  | nil => exact h
  | cons c front ih =>
      intro inWord rest
      simp only [List.cons_append, wordsFrom]
      have hfalse := ih false rest
      have htrue := ih true rest
      split_ifs <;> omega

theorem MoreWords.before {n : Nat} {cs ds : List Char} (h : MoreWords n cs ds)
    (back : List Char) : MoreWords n (cs ++ back) (ds ++ back) := by
  intro inWord rest
  rw [List.append_assoc, List.append_assoc]
  exact h inWord (back ++ rest)

theorem MoreWords.wordCount_eq {n : Nat} {s t : String} (h : MoreWords n s.toList t.toList) :
    wordCount s + n = wordCount t := by
  have hwhole := h false []
  simpa [wordCount] using hwhole

theorem wordsFrom_le (inWord : Bool) (cs : List Char) :
    wordsFrom inWord cs ≤ (String.ofList cs).utf8ByteSize := by
  induction cs generalizing inWord with
  | nil => exact Nat.zero_le _
  | cons c cs ih =>
      have hc := c.utf8Size_pos
      rw [String.ofList_cons, String.utf8ByteSize_append, String.utf8ByteSize_singleton, wordsFrom]
      have hfalse := ih false
      have htrue := ih true
      split_ifs <;> omega

/-- A text has no more words than bytes. -/
theorem wordCount_le (s : String) : wordCount s ≤ s.utf8ByteSize := by
  have hbound := wordsFrom_le false s.toList
  rwa [String.ofList_toList] at hbound

/-- Nothing is stripped from the end of a text that ends between two characters that are no
whitespace. -/
theorem strip_append_enclosed (s : String) {t : String} {c d : Char} (hc : isSpace c = false)
    (hd : isSpace d = false) {cs : List Char} (ht : t.toList = c :: (cs ++ [d])) :
    (strip (s ++ t)).toList = s.toList.dropWhile isSpace ++ t.toList := by
  have hhead : t.toList.dropWhile isSpace = t.toList := by
    rw [ht]
    refine dropWhile_of_head ?_
    intro e he
    cases he
    exact hc
  have hfront : (s.toList ++ t.toList).dropWhile isSpace
      = s.toList.dropWhile isSpace ++ t.toList := by
    rw [List.dropWhile_append]
    split_ifs with hblank
    · rw [List.isEmpty_iff.mp hblank, hhead, List.nil_append]
    · rfl
  have hend : t.toList.reverse = d :: (cs.reverse ++ [c]) := by
    rw [ht, List.reverse_cons, List.reverse_append]
    rfl
  have hlast : (t.toList.reverse ++ (s.toList.dropWhile isSpace).reverse).dropWhile isSpace
      = t.toList.reverse ++ (s.toList.dropWhile isSpace).reverse := by
    refine dropWhile_of_head ?_
    intro e he
    rw [hend] at he
    cases he
    exact hd
  rw [strip, String.toList_ofList, stripChars, String.toList_append, hfront, List.reverse_append,
    hlast, List.reverse_append, List.reverse_reverse, List.reverse_reverse]

end Py
