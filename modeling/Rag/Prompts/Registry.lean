import Rag.Errors
import Rag.Lib.Dict

/-!
`PromptTemplate` of `rag.prompts.registry`: templates and their rendering.

A template is rendered in one pass over its text. A body written as literal text and
placeholders renders to that text with the values in place of the placeholders, whatever the
values hold: what looks like a placeholder inside a value is left as it is.
-/

namespace Rag

open Py

section Scan

variable [Runtime]

/-- `_PLACEHOLDER` at the start of a text: the name it captures and what follows the match. No
character is both a space and part of a word, so greedy matching never has to give back. -/
def placeholderAt : List Char → Option (String × List Char)
  | '{' :: '{' :: cs =>
      let inner := cs.dropWhile isSpace
      match inner.takeWhile Runtime.isWord, (inner.dropWhile Runtime.isWord).dropWhile isSpace with
      | c :: word, '}' :: '}' :: tail => some (String.ofList (c :: word), tail)
      | _, _ => none
  | _ => none

/-- The matches of `_PLACEHOLDER` and the characters between them, from left to right; `skip`
characters belong to the match that has just been found. -/
def finditer : Nat → List Char → List (Char ⊕ String)
  | _, [] => []
  | skip + 1, _ :: cs => finditer skip cs
  | 0, c :: cs =>
      match placeholderAt (c :: cs) with
      | some (name, tail) => .inr name :: finditer (cs.length - tail.length) cs
      | none => .inl c :: finditer 0 cs

/-- `_PLACEHOLDER.findall(text)` -/
def findall (text : String) : List String := (finditer 0 text.toList).filterMap Sum.getRight?

/-- A text with every match replaced. -/
def replaceMatches (repl : String → Except Exn String) :
    List (Char ⊕ String) → Except Exn (List Char)
  | [] => .ok []
  | .inl c :: rest => do
      let tail ← replaceMatches repl rest
      .ok (c :: tail)
  | .inr name :: rest => do
      let value ← repl name
      let tail ← replaceMatches repl rest
      .ok (value.toList ++ tail)

structure PromptTemplate where
  name : String
  version : String
  body : String

/-- The names without a value, sorted. -/
def missingNames (names : List String) (kwargs : Dict String String) : List String :=
  sortedNames (names.toFinset.filter fun name => kwargs.get? name = none)

def missingPlaceholders (name version : String) (missing : List String) : Exn :=
  keyError ("Missing placeholders for " ++ name ++ "@" ++ version ++ ": "
    ++ Runtime.repr (.arr (missing.map .str)))

def PromptTemplate.render (self : PromptTemplate) (kwargs : Dict String String) :
    Except Exn String :=
  match missingNames (findall self.body) kwargs with
  | [] => (replaceMatches (fun name =>
      match kwargs.get? name with
      | some value => .ok value
      | none => .error (keyError name)) (finditer 0 self.body.toList)).map String.ofList
  | missing => .error (missingPlaceholders self.name self.version missing)

end Scan

/-- A part of a template as its author writes it; a placeholder may be spaced. -/
inductive Segment where
  | text (value : String)
  | hole (name : String) (before : String := "") (after : String := "")

namespace Segment

def source : Segment → String
  | .text value => value
  | .hole name before after => "\x7b\x7b" ++ before ++ name ++ after ++ "\x7d\x7d"

def filled (kwargs : Dict String String) : Segment → String
  | .text value => value
  | .hole name _ _ => (kwargs.get? name).getD ""

def name? : Segment → Option String
  | .text _ => none
  | .hole name _ _ => some name

end Segment

/-- Behind every opening brace stands another character than an opening brace. -/
def bare : List Char → Bool
  | [] => true
  | c :: cs => (c != '{' || cs.head?.any (· != '{')) && bare cs

/-- The text of a template. -/
def sourceOf : List Segment → String
  | [] => ""
  | s :: rest => s.source ++ sourceOf rest

/-- The text with its placeholders filled. -/
def fillHoles (kwargs : Dict String String) : List Segment → String
  | [] => ""
  | s :: rest => s.filled kwargs ++ fillHoles kwargs rest

/-- The placeholders in their order. -/
def holes (segments : List Segment) : List String := segments.filterMap Segment.name?

section Rendering

variable [Runtime]

/-- What `re` promises about `\w` and `\s`. -/
structure WordClasses : Prop where
  ascii : ∀ c : Char, c.toNat < 128 → Runtime.isWord c = (c.isAlphanum || c == '_')
  space : ∀ c, isSpace c = true → Runtime.isWord c = false

/-- A text holds nothing that could begin a placeholder, and a hole has a word for a name, with
nothing but whitespace around it. -/
def Segment.Written : Segment → Prop
  | .text value => bare value.toList = true
  | .hole name before after => name ≠ "" ∧ (∀ c ∈ name.toList, Runtime.isWord c = true)
      ∧ (∀ c ∈ before.toList, isSpace c = true) ∧ ∀ c ∈ after.toList, isSpace c = true

/-- The pieces a scan of the template gives. -/
def Segment.pieces : Segment → List (Char ⊕ String)
  | .text value => value.toList.map .inl
  | .hole name _ _ => [.inr name]

theorem finditer_drop (n : Nat) (cs : List Char) : finditer n cs = finditer 0 (cs.drop n) := by
  induction n generalizing cs with
  | zero => rfl
  | succ n ih =>
      cases cs with
      | nil => rfl
      | cons c cs =>
          rw [finditer, ih]
          rfl

theorem placeholderAt_of_ne {c : Char} (hc : c ≠ '{') (cs : List Char) :
    placeholderAt (c :: cs) = none := by
  unfold placeholderAt
  split
  · rename_i heq
    exact absurd (List.cons.inj heq).1 hc
  · rfl

theorem placeholderAt_of_next {d : Char} (hd : d ≠ '{') (cs : List Char) :
    placeholderAt ('{' :: d :: cs) = none := by
  unfold placeholderAt
  split
  · rename_i heq
    exact absurd (List.cons.inj (List.cons.inj heq).2).1 hd
  · rfl

theorem finditer_cons {c : Char} {cs : List Char} (h : placeholderAt (c :: cs) = none) :
    finditer 0 (c :: cs) = .inl c :: finditer 0 cs := by
  rw [finditer, h]

theorem finditer_bare {text : List Char} (h : bare text = true) (rest : List Char) :
    finditer 0 (text ++ rest) = text.map .inl ++ finditer 0 rest := by
  induction text with
  | nil => rfl
  | cons c text ih =>
      rw [bare, Bool.and_eq_true, Bool.or_eq_true] at h
      obtain ⟨hfirst, hbare⟩ := h
      have hnone : placeholderAt (c :: (text ++ rest)) = none := by
        by_cases hc : c = '{'
        · subst hc
          cases text with
          | nil => simp at hfirst
          | cons d text => exact placeholderAt_of_next (by simpa using hfirst) _
        · exact placeholderAt_of_ne hc _
      rw [List.cons_append, finditer_cons hnone, ih hbare]
      rfl

omit [Runtime] in
/-- Whitespace in front of a word is skipped. -/
theorem dropWhile_spaces {before : List Char} (hbefore : ∀ c ∈ before, isSpace c = true) {d : Char}
    (hd : isSpace d = false) (rest : List Char) :
    (before ++ d :: rest).dropWhile isSpace = d :: rest := by
  rw [List.dropWhile_append_of_pos hbefore]
  exact List.dropWhile_cons_of_neg (by simp [hd])

/-- A placeholder as `Segment.source` writes it is found whole. -/
theorem placeholderAt_hole (hclasses : WordClasses) {name before after : List Char}
    (hname : name ≠ []) (hword : ∀ c ∈ name, Runtime.isWord c = true)
    (hbefore : ∀ c ∈ before, isSpace c = true) (hafter : ∀ c ∈ after, isSpace c = true)
    (rest : List Char) :
    placeholderAt ('{' :: '{' :: (before ++ (name ++ (after ++ '}' :: '}' :: rest))))
      = some (String.ofList name, rest) := by
  obtain ⟨c, word, rfl⟩ := List.exists_cons_of_ne_nil hname
  have hnoWord : ∀ d ∈ after, Runtime.isWord d = false :=
    fun d hd => hclasses.space d (hafter d hd)
  have hspace : isSpace c = false := by
    by_contra h
    have hnone := hclasses.space c (by simpa using h)
    rw [hword c List.mem_cons_self] at hnone
    cases hnone
  have hinner : (before ++ (c :: word ++ (after ++ '}' :: '}' :: rest))).dropWhile isSpace
      = c :: word ++ (after ++ '}' :: '}' :: rest) := dropWhile_spaces hbefore hspace _
  obtain ⟨next, tail, hnext, htail⟩ : ∃ next tail, after ++ '}' :: '}' :: rest = next :: tail
      ∧ Runtime.isWord next = false := by
    cases after with
    | nil => exact ⟨'}', '}' :: rest, rfl, hclasses.ascii '}' (by decide)⟩
    | cons d after =>
        exact ⟨d, after ++ '}' :: '}' :: rest, rfl, hnoWord d List.mem_cons_self⟩
  have htake : (c :: word ++ (after ++ '}' :: '}' :: rest)).takeWhile Runtime.isWord
      = c :: word := by
    rw [List.takeWhile_append_of_pos hword, hnext]
    simp [htail]
  have hdrop : (c :: word ++ (after ++ '}' :: '}' :: rest)).dropWhile Runtime.isWord
      = after ++ '}' :: '}' :: rest := by
    rw [List.dropWhile_append_of_pos hword, hnext]
    simp [htail]
  have hclosing : (after ++ '}' :: '}' :: rest).dropWhile isSpace = '}' :: '}' :: rest :=
    dropWhile_spaces hafter (by decide) _
  simp only [placeholderAt, hinner, htake, hdrop, hclosing]

/-- What a match has used up is skipped. -/
theorem finditer_match {c : Char} {cs rest : List Char} {name : String} (used : List Char)
    (hcs : cs = used ++ rest) (h : placeholderAt (c :: cs) = some (name, rest)) :
    finditer 0 (c :: cs) = .inr name :: finditer 0 rest := by
  have hskipped : cs.drop (cs.length - rest.length) = rest := by
    rw [hcs, List.length_append, Nat.add_sub_cancel, List.drop_left]
  rw [finditer, h]
  show .inr name :: finditer _ _ = _
  rw [finditer_drop, hskipped]

theorem finditer_segment (hclasses : WordClasses) {s : Segment} (h : s.Written)
    (rest : List Char) :
    finditer 0 (s.source.toList ++ rest) = s.pieces ++ finditer 0 rest := by
  cases s with
  | text value => exact finditer_bare h rest
  | hole name before after =>
      obtain ⟨hne, hword, hbefore, hafter⟩ := h
      have hname : name.toList ≠ [] := by simpa using hne
      have hsource : (Segment.hole name before after).source.toList ++ rest
          = '{' :: '{' :: (before.toList ++ (name.toList ++ (after.toList ++ '}' :: '}' :: rest)))
          := by
        simp [Segment.source]
      have hfound := placeholderAt_hole hclasses hname hword hbefore hafter rest
      rw [hsource, finditer_match
        ('{' :: (before.toList ++ (name.toList ++ (after.toList ++ ['}', '}'])))) (by simp) hfound,
        String.ofList_toList]
      rfl

/-- The scan of a written template finds its parts. -/
theorem finditer_sourceOf (hclasses : WordClasses) {segments : List Segment}
    (h : ∀ s ∈ segments, s.Written) :
    finditer 0 (sourceOf segments).toList = segments.flatMap Segment.pieces := by
  induction segments with
  | nil => rfl
  | cons s rest ih =>
      rw [sourceOf, String.toList_append, finditer_segment hclasses (h s List.mem_cons_self),
        ih fun s hs => h s (List.mem_cons_of_mem _ hs), List.flatMap_cons]

theorem findall_sourceOf (hclasses : WordClasses) {segments : List Segment}
    (h : ∀ s ∈ segments, s.Written) : findall (sourceOf segments) = holes segments := by
  have hpieces : ∀ s : Segment, s.pieces.filterMap Sum.getRight? = s.name?.toList := by
    intro s
    cases s with
    | text value => simp [Segment.pieces, Segment.name?, List.filterMap_map]
    | hole name before after => rfl
  rw [findall, finditer_sourceOf hclasses h, holes, List.filterMap_flatMap]
  clear h
  induction segments with
  | nil => rfl
  | cons s rest ih =>
      rw [List.flatMap_cons, ih, hpieces]
      cases hname : s.name? <;> simp [hname]

omit [Runtime] in
theorem replaceMatches_text (repl : String → Except Exn String) (text : List Char)
    {rest : List (Char ⊕ String)} {tail : List Char} (h : replaceMatches repl rest = .ok tail) :
    replaceMatches repl (text.map .inl ++ rest) = .ok (text ++ tail) := by
  induction text with
  | nil => exact h
  | cons c text ih =>
      rw [List.map_cons, List.cons_append, replaceMatches, ih]
      rfl

omit [Runtime] in
/-- A replacement that finds every name of the template fills it, and does not look at what it
has put in. -/
theorem replaceMatches_segments {repl : String → Except Exn String}
    {kwargs : Dict String String} {segments : List Segment}
    (h : ∀ name ∈ holes segments, repl name = .ok ((kwargs.get? name).getD "")) :
    replaceMatches repl (segments.flatMap Segment.pieces)
      = .ok (fillHoles kwargs segments).toList := by
  induction segments with
  | nil => rfl
  | cons s rest ih =>
      rw [List.flatMap_cons, fillHoles, String.toList_append]
      cases s with
      | text value =>
          exact replaceMatches_text repl _ (ih h)
      | hole name before after =>
          have hrest := ih fun other hother => h other (List.mem_cons_of_mem _ hother)
          show replaceMatches repl (.inr name :: rest.flatMap Segment.pieces) = _
          rw [replaceMatches, h name List.mem_cons_self, hrest]
          rfl

omit [Runtime] in
theorem missingNames_eq_nil {names : List String} {kwargs : Dict String String}
    (h : missingNames names kwargs = []) {name : String} (hname : name ∈ names) :
    ∃ value, kwargs.get? name = some value := by
  have hempty : names.toFinset.filter (fun name => kwargs.get? name = none) = ∅ := by
    have hsorted := Finset.sort_toFinset
      (names.toFinset.filter fun name => kwargs.get? name = none) (· ≤ ·)
    rw [missingNames, sortedNames] at h
    rw [← hsorted, h]
    rfl
  cases hfound : kwargs.get? name with
  | some value => exact ⟨value, rfl⟩
  | none =>
      have hmem : name ∈ names.toFinset.filter fun name => kwargs.get? name = none := by
        simp [hname, hfound]
      rw [hempty] at hmem
      cases hmem

/-- A written template whose placeholders all have values renders to its text with the values
in their places. -/
theorem render_supplied (hclasses : WordClasses) (name version : String)
    {segments : List Segment} (hwritten : ∀ s ∈ segments, s.Written) {kwargs : Dict String String}
    (hmissing : missingNames (holes segments) kwargs = []) :
    PromptTemplate.render ⟨name, version, sourceOf segments⟩ kwargs
      = .ok (fillHoles kwargs segments) := by
  have hfilled : replaceMatches (fun name =>
      match kwargs.get? name with
      | some value => .ok value
      | none => .error (keyError name)) (segments.flatMap Segment.pieces)
      = .ok (fillHoles kwargs segments).toList := by
    apply replaceMatches_segments
    intro hole hhole
    obtain ⟨value, hvalue⟩ := missingNames_eq_nil hmissing hhole
    rw [hvalue]
    rfl
  rw [PromptTemplate.render, findall_sourceOf hclasses hwritten, hmissing]
  show (replaceMatches _ (finditer 0 (sourceOf segments).toList)).map String.ofList = _
  rw [finditer_sourceOf hclasses hwritten, hfilled]
  exact congrArg Except.ok String.ofList_toList

/-- A written template renders to its text with the values in the places of the placeholders,
or names the placeholders that have no value. -/
theorem render_written (hclasses : WordClasses) (name version : String)
    (segments : List Segment) (hwritten : ∀ s ∈ segments, s.Written)
    (kwargs : Dict String String) :
    PromptTemplate.render ⟨name, version, sourceOf segments⟩ kwargs
      = match missingNames (holes segments) kwargs with
        | [] => .ok (fillHoles kwargs segments)
        | missing => .error (missingPlaceholders name version missing) := by
  cases hmissing : missingNames (holes segments) kwargs with
  | nil => exact render_supplied hclasses name version hwritten hmissing
  | cons first rest =>
      rw [PromptTemplate.render, findall_sourceOf hclasses hwritten, hmissing]

end Rendering

/-- A text is checked on its characters. -/
theorem bare_text {text : String} {cs : List Char} (htext : text = String.ofList cs)
    (h : bare cs = true) : bare text.toList = true := by
  rw [htext, String.toList_ofList]
  exact h

theorem isSpace_ascii (c : Char) (h : isSpace c = true) : (c.isAlphanum || c == '_') = false := by
  have hunderscore : c ≠ '_' := by
    rintro rfl
    revert h
    decide
  simp only [isSpace, Char.toNat, Bool.or_eq_true, Bool.and_eq_true, decide_eq_true_eq,
    beq_iff_eq] at h
  delta Char.isAlphanum Char.isAlpha Char.isUpper Char.isLower Char.isDigit
  simp only [Bool.or_eq_false_iff, Bool.and_eq_false_iff, decide_eq_false_iff_not, ge_iff_le,
    UInt32.le_iff_toNat_le, UInt32.reduceToNat, beq_eq_false_iff_ne, Char.reduceVal]
  refine ⟨⟨⟨?_, ?_⟩, ?_⟩, hunderscore⟩
  all_goals omega

theorem wordClasses_ascii : @WordClasses Runtime.ascii := by
  refine @WordClasses.mk Runtime.ascii ?_ ?_
  · intro c _
    rfl
  · exact isSpace_ascii

/-- A value that looks like a placeholder stays as it is. -/
theorem render_braces :
    (∀ s ∈ [Segment.text "Q: ", .hole "q"], @Segment.Written Runtime.ascii s)
    ∧ @PromptTemplate.render Runtime.ascii ⟨"ask", "v1", sourceOf [.text "Q: ", .hole "q"]⟩
        (Dict.empty.set "q" "\x7b\x7bq\x7d\x7d") = .ok "Q: \x7b\x7bq\x7d\x7d" := by
  have hwritten : ∀ s ∈ [Segment.text "Q: ", .hole "q"], @Segment.Written Runtime.ascii s := by
    rw [List.forall_mem_cons, List.forall_mem_singleton]
    have hword : "q".toList.all (@Runtime.isWord Runtime.ascii) = true := by decide +kernel
    exact ⟨bare_text rfl (by decide), by decide, List.all_eq_true.mp hword, by simp, by simp⟩
  refine ⟨hwritten, ?_⟩
  rw [@render_written Runtime.ascii wordClasses_ascii "ask" "v1" _ hwritten]
  decide +kernel

end Rag
