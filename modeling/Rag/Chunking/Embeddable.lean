import Rag.Chunking.Coverage
import Rag.Lib.Filling

/-!
Which texts are cut into chunks that can be embedded: not blank, and within the size.

The fixed chunker drops blank windows. The recursive one keeps what it has packed, blank or not,
so its chunks are not blank exactly when no line it fills with the parts of the text is
(`Written`). The semantic chunker adds up the sentences of a group without the spaces that join
them, so its chunks fit exactly when its groups still do with these (`FitsJoined`).
-/

namespace Rag

open Py Filling

/-- Neither blank nor longer than the size. -/
structure Embeddable (size : ℤ) (text : String) : Prop where
  written : strip text ≠ ""
  fits : (text.length : ℤ) ≤ size

/-- The parts of a line joined; the separator behind an empty beginning is dropped. -/
def packedLine (sep : String) (line : List String) : String :=
  line.foldl (fun current part => if current = "" then part else current ++ sep ++ part) ""

theorem packedLine_append (sep : String) (line : List String) (part : String) :
    packedLine sep (line ++ [part])
      = if packedLine sep line = "" then part else packedLine sep line ++ sep ++ part := by
  rw [packedLine, List.foldl_append]
  rfl

/-- The line cannot take the part. -/
def Overflows (sep : String) (size : ℤ) (line : List String) (part : String) : Prop :=
  size < (packedLine sep (line ++ [part])).length

instance (sep : String) (size : ℤ) (line : List String) (part : String) :
    Decidable (Overflows sep size line part) := inferInstanceAs (Decidable (_ < _))

/-- A line that fits is empty or as `P` wants it, a part that is too long as `Keep` does. -/
def GoodLine (P Keep : String → Prop) (sep : String) (size : ℤ) (line : List String) : Prop :=
  ((packedLine sep line).length ≤ size → packedLine sep line = "" ∨ P (packedLine sep line))
  ∧ (size < (packedLine sep line).length → Keep (packedLine sep line))

section Pack

variable {P Keep : String → Prop} {sep : String} {size : ℤ}
  {inner : String → Except Exn (List String)}

theorem goodLine_of_fits {line : List String} (h : (packedLine sep line).length ≤ size) :
    GoodLine P Keep sep size line ↔ packedLine sep line = "" ∨ P (packedLine sep line) := by
  simp [GoodLine, h, not_lt.mpr h]

theorem goodLine_long {part : String} (h : size < part.length) :
    GoodLine P Keep sep size [part] ↔ Keep part := by
  have hpacked : packedLine sep [part] = part := rfl
  simp [GoodLine, hpacked, h, not_le.mpr h]

/-- A part that is too long is a line of its own. -/
theorem overflows_long (hsize : 0 ≤ size) {part : String} (h : size < part.length)
    (next : String) : Overflows sep size [part] next := by
  have hsome : part ≠ "" := by
    rintro rfl
    simp at h
    omega
  have hpacked : packedLine sep [part] = part := rfl
  rw [Overflows, packedLine_append, hpacked, if_neg hsome, String.length_append,
    String.length_append]
  omega

/-- An empty line in front changes nothing. -/
theorem goodLines_nil (hsize : 0 ≤ size) (parts : List String) :
    (∀ l ∈ fillFrom (Overflows sep size) [] parts, GoodLine P Keep sep size l)
      ↔ ∀ l ∈ fill (Overflows sep size) parts, GoodLine P Keep sep size l := by
  have hempty : GoodLine P Keep sep size [] := by
    rw [goodLine_of_fits (by simpa [packedLine] using hsize)]
    exact .inl rfl
  cases parts with
  | nil => simp [fillFrom, fill, hempty]
  | cons part parts =>
      rw [fillFrom, fill]
      split_ifs
      · simp [hempty]
      · rfl

/-- The pieces packed from a line on are as wanted exactly when the lines are. -/
theorem packParts_lines (hsize : 0 ≤ size)
    (hinner : ∀ part cut, inner part = .ok cut → ((∀ piece ∈ cut, P piece) ↔ Keep part))
    {line parts pieces : List String} (hline : (packedLine sep line).length ≤ size)
    (h : packParts sep size inner parts (packedLine sep line) = .ok pieces) :
    (∀ piece ∈ pieces, P piece)
      ↔ ∀ l ∈ fillFrom (Overflows sep size) line parts, GoodLine P Keep sep size l := by
  have hpacked : ∀ {line : List String}, (packedLine sep line).length ≤ size →
      ((∀ piece ∈ (if packedLine sep line = "" then [] else [packedLine sep line]), P piece)
        ↔ GoodLine P Keep sep size line) := by
    intro line hfits
    rw [goodLine_of_fits hfits]
    split_ifs with hempty <;> simp [hempty]
  induction parts generalizing line pieces with
  | nil =>
      cases h
      rw [hpacked hline]
      simp [fillFrom]
  | cons part parts ih =>
      have hopens : Overflows sep size line part ↔ size < ((if packedLine sep line = "" then part
          else packedLine sep line ++ sep ++ part).length : ℤ) := by
        rw [Overflows, packedLine_append]
      rw [fillFrom]
      rcases packParts_cons h with ⟨hfits, hrest⟩ | ⟨hlong, later, rfl, hlater⟩
      · rw [if_neg (by rw [hopens]; exact not_lt.mpr hfits)]
        rw [← packedLine_append] at hfits hrest
        exact ih hfits hrest
      · rw [if_pos (hopens.mpr hlong), List.forall_mem_append, List.forall_mem_cons, hpacked hline]
        refine and_congr_right fun _ => ?_
        rcases hlater with ⟨hpart, cut, rest, hcut, hrest, rfl⟩ | ⟨hpart, hrest⟩
        · have hempty : ((packedLine sep []).length : ℤ) ≤ size := by simpa [packedLine] using hsize
          have hanew : (∀ piece ∈ rest, P piece)
              ↔ ∀ l ∈ fill (Overflows sep size) parts, GoodLine P Keep sep size l :=
            (ih hempty hrest).trans (goodLines_nil hsize parts)
          rw [fillFrom_of_opens (overflows_long hsize hpart), List.forall_mem_cons,
            List.forall_mem_append, hinner part cut hcut, goodLine_long hpart, hanew]
        · exact @ih [part] later hpart hrest

end Pack

/-- No window of a text that is cut at every position is blank. -/
def WrittenWindows (size : ℤ) (text : String) : Prop :=
  ∀ j : Nat, j * size.toNat < text.length →
    strip (String.ofList ((text.toList.drop (j * size.toNat)).take size.toNat)) ≠ ""

/-- A text that fits, or one whose lines are not blank: with the first separator its parts are
filled into lines, and a part that is too long for a line is cut by the separators behind. -/
def Written (size : ℤ) : List String → String → Prop
  | [], text => size < text.length → WrittenWindows size text
  | sep :: rest, text => size < text.length →
      if sep = "" then WrittenWindows size text
      else ∀ lines, Fills (Overflows sep size) (split text sep) lines →
        ∀ line ∈ lines, GoodLine (fun packed => strip packed ≠ "") (Written size rest) sep size line

section Levels

variable {size : ℤ} {text : String} {pieces : List String} {P : String → Prop}

theorem embeddable_of_fits (hfits : (text.length : ℤ) ≤ size) :
    Embeddable size text ↔ strip text ≠ "" :=
  ⟨fun h => h.written, fun h => ⟨h, hfits⟩⟩

/-- Stripping neither makes a text blank nor longer. -/
theorem embeddable_strip (hfits : (text.length : ℤ) ≤ size) :
    Embeddable size (strip text) ↔ strip text ≠ "" := by
  have hshorter : ((strip text).length : ℤ) ≤ size := by
    obtain ⟨before, after, hsplit, -, -⟩ := stripChars_split text.toList
    have hlength := congrArg List.length hsplit
    rw [List.length_append, List.length_append, String.length_toList] at hlength
    rw [strip, String.length_ofList]
    omega
  rw [embeddable_of_fits hshorter, strip_strip]

theorem whole_written (hP : P text ↔ strip text ≠ "") :
    ∀ piece ∈ (if strip text = "" then [] else [text]), P piece := by
  split_ifs with hblank
  · simp
  · intro piece hpiece
    rw [List.mem_singleton.mp hpiece]
    exact hP.mpr hblank

theorem cutEvery_written_iff (hsize : 0 < size)
    (hP : ∀ t : String, (t.length : ℤ) ≤ size → (P t ↔ strip t ≠ ""))
    (h : cutEvery size text = .ok pieces) :
    (∀ piece ∈ pieces, P piece) ↔ WrittenWindows size text := by
  obtain ⟨n, rfl⟩ := Int.eq_ofNat_of_zero_le hsize.le
  have hn : 0 < n := by omega
  rw [cutEvery_eq hn] at h
  cases h
  rw [List.forall_mem_map]
  refine forall_congr' fun j => ?_
  rw [List.mem_range, Nat.lt_div_iff_mul_lt hn, Int.toNat_natCast]
  have hbound : j * n < text.length + n - 1 - (n - 1) ↔ j * n < text.length := by omega
  rw [hbound]
  refine imp_congr_right fun _ => hP _ ?_
  rw [String.length_ofList, List.length_take]
  omega

/-- The pieces of a text, as far as being written goes. -/
theorem splitText_written_iff (hsize : 0 < size)
    (hP : ∀ t : String, (t.length : ℤ) ≤ size → (P t ↔ strip t ≠ "")) {seps : List String}
    (h : splitText size seps text = .ok pieces) :
    (∀ piece ∈ pieces, P piece) ↔ Written size seps text := by
  induction seps generalizing text pieces with
  | nil =>
      rw [splitText] at h
      rw [Written]
      by_cases hfits : (text.length : ℤ) ≤ size
      · rw [if_pos hfits] at h
        cases h
        exact iff_of_true (whole_written (hP text hfits)) fun hlong => absurd hlong (not_lt.mpr hfits)
      · rw [if_neg hfits] at h
        rw [cutEvery_written_iff hsize hP h]
        simp [not_le.mp hfits]
  | cons sep rest ih =>
      rw [splitText] at h
      rw [Written]
      by_cases hfits : (text.length : ℤ) ≤ size
      · rw [if_pos hfits] at h
        cases h
        exact iff_of_true (whole_written (hP text hfits)) fun hlong => absurd hlong (not_lt.mpr hfits)
      rw [if_neg hfits] at h
      simp only [not_le.mp hfits, true_implies]
      by_cases hsep : sep = ""
      · rw [if_pos hsep] at h ⊢
        exact cutEvery_written_iff hsize hP h
      · rw [if_neg hsep] at h ⊢
        have hempty : ((packedLine sep []).length : ℤ) ≤ size := by
          simpa [packedLine] using hsize.le
        have hlines : (∀ piece ∈ pieces, P piece)
            ↔ ∀ l ∈ fill (Overflows sep size) (split text sep),
              GoodLine P (Written size rest) sep size l :=
          (packParts_lines hsize.le (fun part cut hcut => ih hcut) hempty h).trans
            (goodLines_nil hsize.le _)
        have hgood : ∀ line, GoodLine P (Written size rest) sep size line
            ↔ GoodLine (fun packed => strip packed ≠ "") (Written size rest) sep size line := by
          intro line
          exact and_congr_left fun _ => forall_congr' fun hline => or_congr_right (hP _ hline)
        simp only [hlines, hgood, fills_iff, forall_eq]

/-- The pieces of all sections that are not blank, stripped. -/
theorem sectionPieces_written_iff (hsize : 0 < size) {sections : List String}
    (hsections : ∀ s ∈ sections, strip s ≠ "") (h : sectionPieces size sections = .ok pieces) :
    (∀ piece ∈ pieces, Embeddable size (strip piece))
      ↔ ∀ s ∈ sections, Written size separators s := by
  induction sections generalizing pieces with
  | nil =>
      cases h
      simp
  | cons s sections ih =>
      obtain ⟨hs, hrest⟩ := List.forall_mem_cons.mp hsections
      obtain ⟨cut, later, hcut, hlater, rfl⟩ := sectionPieces_cons h
      have hsection : (∀ piece ∈ cut, Embeddable size (strip piece))
          ↔ Written size separators s := by
        by_cases hfits : (s.length : ℤ) ≤ size
        · rw [if_pos hfits] at hcut
          cases hcut
          have hwritten : Written size separators s := by
            rw [separators, Written]
            exact fun hlong => absurd hlong (not_lt.mpr hfits)
          simp [embeddable_strip hfits, hs, hwritten]
        · rw [if_neg hfits] at hcut
          exact splitText_written_iff hsize (fun t => embeddable_strip) hcut
      rw [List.forall_mem_append, List.forall_mem_cons, hsection, ih hrest hlater]

end Levels

section Chunkers

variable {shortId : List String → String} {document : Document} {indexVersion : String}
  {size overlap : ℤ} {chunks : List Chunk}

theorem fixedWindows_embeddable {text : String} (hsize : 0 < size) (starts : List Nat) :
    ∀ piece ∈ fixedWindows text size starts, Embeddable size piece.text := by
  intro piece hpiece
  obtain ⟨start, -, hwindow⟩ := mem_fixedWindows hpiece
  obtain ⟨hwritten, hspan, htext⟩ := mem_windowAt hwindow
  constructor
  · exact hwritten
  · rw [htext, hspan]
    simp only [sliceBetween, String.length_ofList, List.length_drop, List.length_take, sliceBound]
    split_ifs <;> omega

theorem fixedChunks_embeddable (hsize : 0 < size) :
    ∀ chunk ∈ fixedChunks shortId document indexVersion size overlap,
      Embeddable size chunk.text := by
  unfold fixedChunks
  extract_lets text step
  split_ifs
  · intro chunk hchunk
    cases hchunk
  · apply (forall_mem_chunksOf fun text _ => Embeddable size text).mpr
    exact fixedWindows_embeddable hsize _

/-- What holds of all texts of a list of pieces, by their texts. -/
theorem forall_text_iff {P : String → Prop} (pieces : List Piece) :
    (∀ piece ∈ pieces, P piece.text) ↔ ∀ text ∈ pieces.map Piece.text, P text :=
  List.forall_mem_map.symm

theorem written_of_empty (hsize : 0 < size) : Written size separators "" := by
  rw [separators, Written]
  intro hlong
  simp at hlong
  omega

theorem recursiveChunks_embeddable_iff (hsize : 0 < size)
    (h : recursiveChunks shortId document indexVersion size overlap = .ok chunks) :
    (∀ chunk ∈ chunks, Embeddable size chunk.text)
      ↔ Written size separators (document.text.getD "") := by
  rcases recursiveChunks_cases h with ⟨hempty, rfl⟩ | ⟨pieces, hpieces, rfl⟩
  · rw [hempty]
    exact iff_of_true (fun chunk hchunk => by cases hchunk) (written_of_empty hsize)
  · refine (forall_mem_chunksOf fun text _ => Embeddable size text).trans ?_
    rw [forall_text_iff, locate_text]
    exact splitText_written_iff hsize (fun t => embeddable_of_fits) hpieces

/-- Every section of a markdown text is written; a text without sections is cut as it is. -/
def WrittenSections (size : ℤ) (text : String) : Prop :=
  if markdownSections text = [] then Written size separators text
  else ∀ s ∈ markdownSections text, Written size separators s

theorem writtenSections_of_empty (hsize : 0 < size) : WrittenSections size "" := by
  have hnone : markdownSections "" = [] := by decide +kernel
  rw [WrittenSections, if_pos hnone]
  exact written_of_empty hsize

theorem markdownChunks_embeddable_iff (hsize : 0 < size)
    (h : markdownChunks shortId document indexVersion size overlap = .ok chunks) :
    (∀ chunk ∈ chunks, Embeddable size chunk.text)
      ↔ WrittenSections size (document.text.getD "") := by
  unfold markdownChunks at h
  extract_lets text sections at h
  split_ifs at h with hempty hnone
  · cases h
    have hempty' : document.text.getD "" = "" := hempty
    rw [hempty']
    exact iff_of_true (fun chunk hchunk => by cases hchunk) (writtenSections_of_empty hsize)
  · rw [WrittenSections, if_pos hnone]
    exact recursiveChunks_embeddable_iff hsize h
  · rw [WrittenSections, if_neg hnone]
    obtain ⟨pieces, hpieces, hchunks⟩ := ok_of_bind h
    cases hchunks
    refine (forall_mem_chunksOf fun text _ => Embeddable size text).trans ?_
    rw [List.forall_mem_map]
    refine (forall_text_iff (P := fun text => Embeddable size (strip text)) _).trans ?_
    rw [locate_text]
    refine sectionPieces_written_iff hsize ?_ hpieces
    intro s hs
    simpa using (List.mem_filter.mp hs).2

end Chunkers

section Groups

variable {K : Type} [LinearOrder K] {size : ℤ} {threshold : K}

/-- The sentence is far from the one before it, or the group is too long with it. -/
def OpensGroup (size : ℤ) (threshold : K) (group : List (K × String)) (next : K × String) : Prop :=
  threshold ≤ next.1 ∨ size < (group.map fun s => s.2.length).sum + next.2.length

instance (group : List (K × String)) (next : K × String) :
    Decidable (OpensGroup size threshold group next) := inferInstanceAs (Decidable (_ ∨ _))

/-- The sentences of a group and the spaces between them. -/
def joinedLength (group : List (K × String)) : ℤ :=
  (group.map fun s => s.2.length).sum + ((group.length : ℤ) - 1)

/-- The grouping loop fills groups. -/
theorem groupSentences_fill {distances : List K} {line : List (K × String)}
    {sentences : List String} {groups : List (List String)}
    (h : groupSentences size threshold distances (line.map Prod.snd) sentences = .ok groups) :
    groups = (fillFrom (OpensGroup size threshold) line (distances.zip sentences)).map
      (List.map Prod.snd) := by
  induction sentences generalizing distances line groups with
  | nil => cases distances <;> cases h <;> simp [fillFrom]
  | cons s sentences ih =>
      cases distances with
      | nil => cases h
      | cons distance distances =>
          have hlength : ((line.map Prod.snd).map String.length).sum
              = (line.map fun s => s.2.length).sum := by
            rw [List.map_map]
            rfl
          rw [groupSentences, hlength] at h
          rw [List.zip_cons_cons, fillFrom]
          by_cases hopens : threshold ≤ distance
              ∨ size < ((line.map fun s => s.2.length).sum + s.length : ℤ)
          · rw [if_pos (by exact_mod_cast hopens)] at h
            rw [if_pos (by exact_mod_cast hopens)]
            obtain ⟨later, hlater, hgroups⟩ := ok_of_bind h
            cases hgroups
            rw [List.map_cons, ← @ih distances [(distance, s)] later hlater]
          · rw [if_neg (by exact_mod_cast hopens)] at h
            rw [if_neg (by exact_mod_cast hopens)]
            exact ih (by simpa using h)

omit [LinearOrder K] in
theorem length_body {group : List (K × String)} (h : group ≠ []) :
    ((Group.body (group.map Prod.snd)).length : ℤ) = joinedLength group := by
  obtain ⟨first, rest, rfl⟩ := List.exists_cons_of_ne_nil h
  rw [← String.length_toList, List.map_cons, body_cons, List.length_append, String.length_toList,
    joinedLength, List.map_cons, List.sum_cons, List.length_cons]
  have hrest : ((rest.map Prod.snd).flatMap fun next => ' ' :: next.toList).length
      = (rest.map fun s => s.2.length).sum + rest.length := by
    induction rest with
    | nil => rfl
    | cons next rest ih =>
        simp only [List.map_cons, List.flatMap_cons, List.length_append, List.length_cons,
          String.length_toList, List.sum_cons, ih (by simp)]
        omega
  rw [hrest]
  push_cast
  ring

end Groups

section Semantic

variable {K : Type} [Field K] [LinearOrder K] [Math K] {shortId : List String → String}
  {document : Document} {indexVersion : String} {size overlap : ℤ} {chunks : List Chunk}

/-- The groups that the sentences fill still fit with the spaces that join them. -/
def FitsJoined (embed : List String → Except Exn (List (List K))) (size : ℤ) (text : String) :
    Prop :=
  ∀ first second rest vectors groups, splitSentences text = first :: second :: rest →
    embed (first :: second :: rest) = .ok vectors →
    Fills (OpensGroup size (percentile (sentenceDistances vectors) breakpointPercentile))
      ((0, first) :: (sentenceDistances vectors).zip (second :: rest)) groups →
    ∀ group ∈ groups, joinedLength group ≤ size

/-- What the semantic chunker wants of a text: that the groups fit when there are two sentences,
and what the recursive one wants when there are not, or no embedder. -/
def WrittenGroups (embedder : Option (List String → Except Exn (List (List K)))) (size : ℤ)
    (text : String) : Prop :=
  match embedder with
  | none => Written size separators text
  | some embed =>
      if 2 ≤ (splitSentences text).length then FitsJoined embed size text
      else Written size separators text

omit [Field K] [LinearOrder K] [Math K] in
theorem locateGroups_text {text : String} {groups : List (List String)}
    (hgroups : ∀ g ∈ groups, SentenceGroup g) (ordinal : Nat) (cursor : ℤ) :
    (locateGroups text ordinal cursor groups).map (fun numbered => numbered.2.text)
      = groups.map Group.body := by
  induction groups generalizing ordinal cursor with
  | nil => rfl
  | cons group groups ih =>
      obtain ⟨hgroup, hrest⟩ := List.forall_mem_cons.mp hgroups
      rw [locateGroups_cons hgroup]
      dsimp only
      rw [List.map_cons, List.map_cons, ih hrest]

omit [Field K] [LinearOrder K] [Math K] in
theorem SentenceGroup.embeddable_iff {group : List (K × String)}
    (h : SentenceGroup (group.map Prod.snd)) :
    Embeddable size (Group.body (group.map Prod.snd)) ↔ joinedLength group ≤ size := by
  have hne : group ≠ [] := by
    rintro rfl
    exact h.ne_nil rfl
  obtain ⟨s, hs⟩ := List.exists_mem_of_ne_nil _ h.ne_nil
  have hwritten : strip (Group.body (group.map Prod.snd)) ≠ "" := by
    have hword : ∃ c ∈ s.toList, isSpace c = false := by
      have hblank := (h.sentences s hs).not_blank
      simpa [Blank] using hblank
    exact strip_join_ne_empty ⟨s, hs, hword⟩
  rw [← length_body hne]
  exact ⟨fun hbody => hbody.fits, fun hfits => ⟨hwritten, hfits⟩⟩

theorem semanticSplit_embeddable_iff {embed : List String → Except Exn (List (List K))}
    (hsize : 0 < size)
    (h : semanticSplit shortId embed document (document.text.getD "") indexVersion size
      = .ok chunks) :
    (∀ chunk ∈ chunks, Embeddable size chunk.text)
      ↔ WrittenGroups (some embed) size (document.text.getD "") := by
  rw [WrittenGroups]
  rw [semanticSplit] at h
  split at h
  · rename_i first second rest hsentences
    obtain ⟨vectors, hembed, hafter⟩ := ok_of_bind h
    obtain ⟨groups, hgroups, hchunks⟩ := ok_of_bind hafter
    cases hchunks
    have hall : ∀ s ∈ first :: second :: rest, Sentence s :=
      fun s hs => sentence_of_mem (hsentences ▸ hs)
    obtain ⟨hfirst, hrest⟩ := List.forall_mem_cons.mp hall
    have hsingle : SentenceGroup [first] := ⟨List.cons_ne_nil _ _, by simpa using hfirst⟩
    have hgroup := (groupSentences_spec hsingle hrest hgroups).2
    have hfilled := @groupSentences_fill _ _ _ _ _ [((0 : K), first)] _ _ hgroups
    rw [if_pos (by rw [hsentences]; simp), List.forall_mem_map]
    have htexts : (∀ numbered ∈ locateGroups (document.text.getD "") 0 0 groups,
          Embeddable size numbered.2.text)
        ↔ ∀ body ∈ groups.map Group.body, Embeddable size body := by
      rw [← locateGroups_text hgroup 0 0, List.forall_mem_map]
    refine htexts.trans ?_
    rw [hfilled] at hgroup ⊢
    rw [List.forall_mem_map, List.forall_mem_map]
    rw [List.forall_mem_map] at hgroup
    constructor
    · intro hfits first' second' rest' vectors' groups' hsentences' hembed' hfills group hin
      rw [hsentences] at hsentences'
      cases hsentences'
      rw [hembed] at hembed'
      cases hembed'
      rw [fills_iff] at hfills
      subst hfills
      exact (hgroup group hin).embeddable_iff.mp (hfits group hin)
    · intro hfits group hin
      exact (hgroup group hin).embeddable_iff.mpr
        (hfits first second rest vectors _ hsentences hembed (fills_iff.mpr rfl) group hin)
  · rename_i hfew
    have hshort : ¬ 2 ≤ (splitSentences (document.text.getD "")).length := by
      intro hlong
      rcases hcut : splitSentences (document.text.getD "") with _ | ⟨first, _ | ⟨second, rest⟩⟩
      · simp [hcut] at hlong
      · simp [hcut] at hlong
      · exact hfew first second rest hcut
    rw [if_neg hshort]
    exact recursiveChunks_embeddable_iff hsize h

theorem semanticChunks_embeddable_iff {embedder : Option (List String → Except Exn (List (List K)))}
    (hsize : 0 < size)
    (h : semanticChunks shortId embedder document indexVersion size overlap = .ok chunks) :
    (∀ chunk ∈ chunks, Embeddable size chunk.text)
      ↔ WrittenGroups embedder size (document.text.getD "") := by
  unfold semanticChunks at h
  extract_lets text at h
  split_ifs at h with hempty
  · cases h
    have hempty' : document.text.getD "" = "" := hempty
    have hnone : splitSentences "" = [] := by decide +kernel
    refine iff_of_true (fun chunk hchunk => by cases hchunk) ?_
    rw [hempty']
    cases embedder with
    | none => exact written_of_empty hsize
    | some embed =>
        rw [WrittenGroups, hnone, if_neg (by simp)]
        exact written_of_empty hsize
  · cases embedder with
    | none =>
        obtain ⟨cut, hcut, hmarked⟩ := ok_of_bind h
        cases hmarked
        rw [List.forall_mem_map]
        exact recursiveChunks_embeddable_iff hsize hcut
    | some embed => exact semanticSplit_embeddable_iff hsize h

/-- What the strategy wants of a text. -/
def CutsWritten (embedder : Option (List String → Except Exn (List (List K)))) (strategy : String)
    (size : ℤ) (text : String) : Prop :=
  (strategy = "recursive" → Written size separators text)
  ∧ (strategy = "markdown_aware" → WrittenSections size text)
  ∧ (strategy = "semantic" → WrittenGroups embedder size text)

end Semantic

section Examples

end Examples

end Rag
