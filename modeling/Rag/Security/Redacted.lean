import Rag.Security.Pii
import Rag.Lib.RegexSearch

/-!
`redact_pii` leaves no match of any of its patterns.

Each pattern is fenced by word boundaries and each replacement stands in brackets, so a
replacement neither matches nor lets its neighbours match. That needs a little of what is
known about `\w` and `\d`.
-/

namespace Rag

open Py Py.Regex

section Redacted

variable [Runtime]

/-- What `re` promises about `\w` and `\d`: digits are word characters, and on ASCII they
are `[A-Za-z0-9_]` and `[0-9]`. -/
structure CharClasses : Prop where
  decimal_word : ∀ c, isDecimal c = true → Runtime.isWord c = true
  ascii_word : ∀ c : Char, c.toNat < 128 → Runtime.isWord c = (isAsciiAlnum c || c == '_')
  ascii_decimal : ∀ c : Char, c.toNat < 128 → isDecimal c = Json.isDigit c

/-- No pattern of `redact_pii` matches anywhere in the text. -/
def Clean (text : String) : Prop := ∀ p ∈ patterns, search p.1 text = false

instance (text : String) : Decidable (Clean text) :=
  inferInstanceAs (Decidable (∀ p ∈ patterns, search p.1 text = false))

/-- Letters and underscores, which is what stands between the brackets. -/
def Plain (inner : List Char) : Prop := ∀ c ∈ inner, isAsciiAlpha c = true ∨ c = '_'

omit [Runtime] in
theorem isAsciiAlpha_lt {c : Char} (h : isAsciiAlpha c = true) : c.toNat < 128 := by
  simp only [isAsciiAlpha, Bool.or_eq_true, Bool.and_eq_true, decide_eq_true_eq] at h
  omega

theorem CharClasses.alpha_word (h : CharClasses) {c : Char} (hc : isAsciiAlpha c = true) :
    Runtime.isWord c = true := by
  rw [h.ascii_word c (isAsciiAlpha_lt hc), isAsciiAlnum, hc]
  rfl

theorem CharClasses.plain_decimal (h : CharClasses) {c : Char}
    (hc : isAsciiAlpha c = true ∨ c = '_') : isDecimal c = false := by
  rcases hc with hc | rfl
  · rw [h.ascii_decimal c (isAsciiAlpha_lt hc)]
    simp only [isAsciiAlpha, Bool.or_eq_true, Bool.and_eq_true, decide_eq_true_eq] at hc
    simp only [Json.isDigit, Bool.and_eq_false_iff, decide_eq_false_iff_not]
    omega
  · exact h.ascii_decimal '_' (by decide)

theorem emailPattern_fenced (h : CharClasses) {inner : List Char} (hinner : Plain inner) :
    Fenced '[' ']' inner emailPattern where
  starts := ⟨_, rfl⟩
  ends := ⟨emailPattern.take 5, isAsciiAlpha, 1, none, rfl, fun _ => h.alpha_word⟩
  avoids := by
    intro item hitem
    simp only [emailPattern, List.mem_cons, List.not_mem_nil, or_false] at hitem
    rcases hitem with rfl | rfl | rfl | rfl | rfl | rfl | rfl
    · exact ⟨id, id⟩
    all_goals
      constructor <;> intro haccepts
      · exact absurd haccepts (by simp [Item.Accepts, Item.char]; try decide)
      · exact absurd haccepts (by simp [Item.Accepts, Item.char]; try decide)
  needs := by
    refine ⟨(· == '@'), 0, some 1, by simp [emailPattern, Item.char], ?_⟩
    intro c hc
    rw [beq_eq_false_iff_ne]
    rintro rfl
    have hplain := hinner '@' hc
    revert hplain
    decide

/-- Digit classes accept no bracket. -/
theorem CharClasses.times_avoids (h : CharClasses) (n : Nat) :
    ¬ (Item.times isDecimal n).Accepts '[' ∧ ¬ (Item.times isDecimal n).Accepts ']' := by
  constructor <;> intro haccepts
  · rw [Item.times, Item.Accepts, h.ascii_decimal '[' (by decide)] at haccepts
    revert haccepts
    decide
  · rw [Item.times, Item.Accepts, h.ascii_decimal ']' (by decide)] at haccepts
    revert haccepts
    decide

theorem phonePattern_fenced (h : CharClasses) {inner : List Char} (hinner : Plain inner) :
    Fenced '[' ']' inner phonePattern where
  starts := ⟨_, rfl⟩
  ends := ⟨phonePattern.take 5, isDecimal, 3, some 4, rfl, h.decimal_word⟩
  avoids := by
    intro item hitem
    simp only [phonePattern, List.mem_cons, List.not_mem_nil, or_false] at hitem
    rcases hitem with rfl | rfl | rfl | rfl | rfl | rfl | rfl
    · exact ⟨id, id⟩
    · exact h.times_avoids 3
    · simp [phoneSeparator, Item.Accepts]
    · exact h.times_avoids 3
    · simp [phoneSeparator, Item.Accepts]
    · exact h.times_avoids 4
    · exact ⟨id, id⟩
  needs := ⟨isDecimal, 2, some 3, by simp [phonePattern, Item.times],
    fun c hc => h.plain_decimal (hinner c hc)⟩

theorem ssnPattern_fenced (h : CharClasses) {inner : List Char} (hinner : Plain inner) :
    Fenced '[' ']' inner ssnPattern where
  starts := ⟨_, rfl⟩
  ends := ⟨ssnPattern.take 5, isDecimal, 3, some 4, rfl, h.decimal_word⟩
  avoids := by
    intro item hitem
    simp only [ssnPattern, List.mem_cons, List.not_mem_nil, or_false] at hitem
    rcases hitem with rfl | rfl | rfl | rfl | rfl | rfl | rfl
    · exact ⟨id, id⟩
    · exact h.times_avoids 3
    · simp [Item.char, Item.Accepts]
    · exact h.times_avoids 2
    · simp [Item.char, Item.Accepts]
    · exact h.times_avoids 4
    · exact ⟨id, id⟩
  needs := ⟨isDecimal, 2, some 3, by simp [ssnPattern, Item.times],
    fun c hc => h.plain_decimal (hinner c hc)⟩

theorem patterns_fenced (h : CharClasses) {inner : List Char} (hinner : Plain inner) :
    ∀ p ∈ patterns, Fenced '[' ']' inner p.1 := by
  intro p hp
  simp only [patterns, List.mem_cons, List.not_mem_nil, or_false] at hp
  rcases hp with rfl | rfl | rfl
  · exact emailPattern_fenced h hinner
  · exact phonePattern_fenced h hinner
  · exact ssnPattern_fenced h hinner

theorem patterns_replaced : ∀ p ∈ patterns, ∃ inner, Plain inner
    ∧ p.2 = String.ofList ('[' :: inner ++ [']']) := by
  intro p hp
  simp only [patterns, List.mem_cons, List.not_mem_nil, or_false] at hp
  have hplain : ∀ inner : List Char, (inner.all fun c => isAsciiAlpha c || c == '_') = true →
      Plain inner := by
    intro inner hall c hc
    simpa using List.all_eq_true.mp hall c hc
  rcases hp with rfl | rfl | rfl
  · have hbracketed : "[REDACTED_EMAIL]" = String.ofList ('[' :: "REDACTED_EMAIL".toList ++ [']']) := by
      decide
    exact ⟨"REDACTED_EMAIL".toList, hplain _ (by decide), hbracketed⟩
  · have hbracketed : "[REDACTED_PHONE]" = String.ofList ('[' :: "REDACTED_PHONE".toList ++ [']']) := by
      decide
    exact ⟨"REDACTED_PHONE".toList, hplain _ (by decide), hbracketed⟩
  · have hbracketed : "[REDACTED_SSN]" = String.ofList ('[' :: "REDACTED_SSN".toList ++ [']']) := by
      decide
    exact ⟨"REDACTED_SSN".toList, hplain _ (by decide), hbracketed⟩

/-- Substituting one of the patterns clears it and brings no other one in. -/
theorem search_sub_pattern (h : CharClasses) {p q : List Item × String} (hp : p ∈ patterns)
    (hq : q ∈ patterns) (text : String) (hclear : q.1 = p.1 ∨ search q.1 text = false) :
    search q.1 (sub p.1 p.2 text) = false := by
  obtain ⟨inner, hinner, hreplaced⟩ := patterns_replaced p hp
  have hopening : Runtime.isWord '[' = false := h.ascii_word '[' (by decide)
  have hclosing : Runtime.isWord ']' = false := h.ascii_word ']' (by decide)
  rw [hreplaced]
  exact (patterns_fenced h hinner p hp).search_sub (patterns_fenced h hinner q hq) hopening
    hclosing text hclear

/-- What has been redacted needs no further redaction. -/
theorem redactPii_clean (h : CharClasses) (text : String) : Clean (redactPii text) := by
  have hfold : ∀ (done rest : List (List Item × String)) (text : String),
      (∀ p ∈ done ++ rest, p ∈ patterns) → (∀ q ∈ done, search q.1 text = false) →
      ∀ q ∈ done ++ rest,
        search q.1 (rest.foldl (fun result p => sub p.1 p.2 result) text) = false := by
    intro done rest
    induction rest generalizing done with
    | nil =>
        intro text _ hdone q hq
        exact hdone q (by simpa using hq)
    | cons p rest ih =>
        intro text hin hdone q hq
        have hp : p ∈ patterns := hin p (by simp)
        have hstep : ∀ q ∈ done ++ [p], search q.1 (sub p.1 p.2 text) = false := by
          intro q hq
          rcases List.mem_append.mp hq with hq | hq
          · exact search_sub_pattern h hp (hin q (by simp [hq])) text (Or.inr (hdone q hq))
          · rw [List.mem_singleton.mp hq]
            exact search_sub_pattern h hp hp text (Or.inl rfl)
        refine ih (done ++ [p]) (sub p.1 p.2 text) ?_ hstep q ?_
        · simpa using hin
        · simpa using hq
  exact hfold [] patterns text (fun p hp => hp) (by simp)

/-- Nothing is redacted in a clean text. -/
theorem redactPii_of_clean {text : String} (h : Clean text) : redactPii text = text := by
  have hfold : ∀ rest : List (List Item × String), (∀ p ∈ rest, search p.1 text = false) →
      rest.foldl (fun result p => sub p.1 p.2 result) text = text := by
    intro rest
    induction rest with
    | nil => exact fun _ => rfl
    | cons p rest ih =>
        intro hclear
        rw [List.foldl_cons, sub_of_clear p.2 (hclear p List.mem_cons_self)]
        exact ih fun q hq => hclear q (List.mem_cons_of_mem _ hq)
  exact hfold patterns h

/-- Nothing in a redacted text fits a pattern between its neighbours, and redacting it again
changes nothing. -/
theorem redaction_complete (h : CharClasses) (text : String) :
    (∀ p ∈ patterns, ∀ u w v, (redactPii text).toList = u ++ w ++ v →
      ¬ Fits p.1 (lastOf none u) w v.head?)
    ∧ redactPii (redactPii text) = redactPii text := by
  have hclean := redactPii_clean h text
  constructor
  · intro p hp
    exact (search_eq_false_iff p.1 _).mp (hclean p hp)
  · exact redactPii_of_clean hclean

/-- Without an at sign and without a digit there is nothing to redact. -/
theorem clean_of_plain {text : String}
    (hplain : ∀ c ∈ text.toList, c ≠ '@' ∧ isDecimal c = false) : Clean text := by
  intro p hp
  simp only [patterns, List.mem_cons, List.not_mem_nil, or_false] at hp
  rcases hp with rfl | rfl | rfl
  · exact search_of_missing (· == '@') 0 (some 1)
      (by simp [emailPattern, Item.char]) fun c hc => by simpa using (hplain c hc).1
  · exact search_of_missing isDecimal 2 (some 3)
      (by simp [phonePattern, Item.times]) fun c hc => (hplain c hc).2
  · exact search_of_missing isDecimal 2 (some 3)
      (by simp [ssnPattern, Item.times]) fun c hc => (hplain c hc).2

theorem CharClasses.clean_ascii (h : CharClasses) {text : String}
    (htext : (text.toList.all fun c => c.toNat < 128 && c != '@' && !Json.isDigit c) = true) :
    Clean text := by
  apply clean_of_plain
  intro c hc
  have hall := List.all_eq_true.mp htext c hc
  simp only [Bool.and_eq_true, decide_eq_true_eq, bne_iff_ne, Bool.not_eq_true'] at hall
  refine ⟨hall.1.2, ?_⟩
  rw [h.ascii_decimal c hall.1.1]
  exact hall.2

end Redacted

theorem charClasses_ascii : let _ := Runtime.ascii
    CharClasses := by
  intro _
  have hclass : ∀ c : Char, c.isAlphanum = isAsciiAlnum c := by
    intro c
    delta Char.isAlphanum Char.isAlpha Char.isUpper Char.isLower Char.isDigit
    simp only [isAsciiAlnum, isAsciiAlpha, Json.isDigit, Char.toNat, UInt32.le_iff_toNat_le,
      Bool.decide_and]
    rfl
  have hdigit : ∀ c : Char, isDecimal c = Json.isDigit c := by
    intro c
    rw [isDecimal]
    change (if Json.isDigit c = true then some (c.toNat - 48) else none).isSome = _
    split_ifs with h
    · simp [h]
    · simp [h]
  refine ⟨?_, ?_, ?_⟩
  · intro c hc
    change (c.isAlphanum || c == '_') = true
    rw [hdigit] at hc
    rw [hclass, isAsciiAlnum, hc]
    simp
  · intro c _
    change (c.isAlphanum || c == '_') = _
    rw [hclass]
  · intro c _
    exact hdigit c

/-- The replacement of an address leaves a number behind it as it was found. -/
theorem redaction_complete_mixed : let _ := Runtime.ascii
    redactPii "a@b.co,555-123-4567" = "[REDACTED_EMAIL],[REDACTED_PHONE]"
      ∧ redactPii (redactPii "a@b.co,555-123-4567") = redactPii "a@b.co,555-123-4567" := by
  intro _
  exact ⟨by decide +kernel, (redaction_complete charClasses_ascii "a@b.co,555-123-4567").2⟩

end Rag
