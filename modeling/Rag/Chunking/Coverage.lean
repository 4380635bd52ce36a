import Rag.Chunking.Spans

/-!
What of a text the spans of its chunks cover.

The windows of the fixed chunker leave nothing out. Pieces that are looked up cover what is
not whitespace exactly when `split_text` has kept all of it, and that depends on the lines
of the text alone.
-/

namespace Rag

open Py

/-- Every position of a character that is not whitespace lies in one of the spans. -/
def Covered (text : String) (spans : List (ℤ × ℤ)) : Prop :=
  ∀ (i : Nat) (c : Char), text.toList[i]? = some c → isSpace c = false →
    ∃ span ∈ spans, span.1 ≤ i ∧ i < span.2

/-- No line that is longer than the size contains `". "`. -/
def LinesFit (size : ℤ) (text : String) : Prop :=
  ∀ line ∈ split text "\n", size < line.length → contains line ". " = false

theorem unbroken_iff {size : ℤ} {text : String} :
    Unbroken size text.toList ↔ LinesFit size text := by
  have hcontains : ∀ line : String, contains line ". " = false ↔ ¬ ['.', ' '] <:+: line.toList := by
    intro line
    have hsep : ". ".toList = ['.', ' '] := rfl
    rw [← hsep, ← contains_iff, Bool.not_eq_true]
  simp only [LinesFit, split, hcontains]
  simp [Unbroken]

theorem mem_drop_iff {cs : List Char} {c : Char} {n : Nat} :
    c ∈ cs.drop n ↔ ∃ i, n ≤ i ∧ cs[i]? = some c := by
  rw [List.mem_iff_getElem?]
  simp only [List.getElem?_drop]
  constructor
  · rintro ⟨j, hj⟩
    exact ⟨n + j, Nat.le_add_right _ _, hj⟩
  · rintro ⟨i, hle, hi⟩
    exact ⟨i - n, by rwa [Nat.add_sub_cancel' hle]⟩

section Locate

variable {text : String}

/-- Coverage of what lies from the cursor on. -/
def CoveredFrom (text : String) (cursor : Nat) (pieces : List Piece) : Prop :=
  ∀ (i : Nat) (c : Char), cursor ≤ i → text.toList[i]? = some c → isSpace c = false →
    ∃ piece ∈ pieces, piece.span.1 ≤ i ∧ i < piece.span.2

theorem locate_start {pieces : List String} {cursor : Nat} (hcursor : cursor ≤ text.length)
    (h : Scattered (pieces.map String.toList) (text.toList.drop cursor)) :
    ∀ piece ∈ locate text id cursor pieces, (cursor : ℤ) ≤ piece.span.1 := by
  induction pieces generalizing cursor with
  | nil =>
      intro piece hpiece
      cases hpiece
  | cons piece pieces ih =>
      obtain ⟨i, hi, hrest⟩ := find_scattered hcursor h
      obtain ⟨hle, -, hstop⟩ := find_some hi
      rw [locate_cons hi, List.forall_mem_cons]
      refine ⟨by dsimp only; omega, ?_⟩
      intro later hlater
      have hstart := ih hstop hrest later hlater
      omega

/-- Located pieces cover all but whitespace exactly when only whitespace lies between them. -/
theorem coveredFrom_locate_iff {pieces : List String} {cursor : Nat}
    (hcursor : cursor ≤ text.length)
    (h : Scattered (pieces.map String.toList) (text.toList.drop cursor)) :
    CoveredFrom text cursor (locate text id cursor pieces)
      ↔ Laid Blank (pieces.map String.toList) (text.toList.drop cursor) := by
  induction pieces generalizing cursor with
  | nil =>
      constructor
      · intro hcovered c hc
        obtain ⟨i, hle, hi⟩ := mem_drop_iff.mp hc
        by_contra hspace
        obtain ⟨piece, hpiece, -⟩ := hcovered i c hle hi (by simpa using hspace)
        cases hpiece
      · intro hblank i c hle hi hspace
        have hc := hblank c (mem_drop_iff.mpr ⟨i, hle, hi⟩)
        rw [hspace] at hc
        cases hc
  | cons piece pieces ih =>
      constructor
      · intro hcovered
        obtain ⟨start, hstart, hrest⟩ := find_scattered hcursor h
        obtain ⟨hle, hprefix, hstop⟩ := find_some hstart
        rw [locate_cons hstart] at hcovered
        have hlater := locate_start hstop hrest
        apply Laid.cons_of_prefix hle hprefix
        · -- what the search has passed over lies before all that is located
          intro c hc
          obtain ⟨j, hj⟩ := List.mem_iff_getElem?.mp hc
          have hlt : j < start - cursor := by
            have hbound := (List.getElem?_eq_some_iff.mp hj).1
            rw [List.length_take] at hbound
            omega
          rw [List.getElem?_take_of_lt hlt, List.getElem?_drop] at hj
          by_contra hspace
          obtain ⟨other, hother, hbefore, -⟩ :=
            hcovered (cursor + j) c (by omega) hj (by simpa using hspace)
          rcases List.mem_cons.mp hother with rfl | hother
          · dsimp only at hbefore
            omega
          · have hstart' := hlater other hother
            omega
        · rw [String.length_toList]
          apply (ih hstop hrest).mp
          intro i c hi hc hspace
          obtain ⟨other, hother, hbounds⟩ := hcovered i c (by omega) hc hspace
          rcases List.mem_cons.mp hother with rfl | hother
          · dsimp only at hbounds
            omega
          · exact ⟨other, hother, hbounds⟩
      · intro hlaid i c hle hi hspace
        obtain ⟨passed, hstart, hblank, hrest⟩ := find_laid_blank hcursor hlaid
        have hstop := (find_some hstart).2.2
        rw [locate_cons hstart]
        by_cases hpassed : i < cursor + passed
        · have hc : c ∈ (text.toList.drop cursor).take passed := by
            rw [List.mem_iff_getElem?]
            refine ⟨i - cursor, ?_⟩
            rw [List.getElem?_take_of_lt (by omega), List.getElem?_drop, Nat.add_sub_cancel' hle, hi]
          rw [hblank c hc] at hspace
          cases hspace
        · by_cases hin : i < cursor + passed + piece.length
          · exact ⟨_, List.mem_cons_self, by dsimp only; omega, by dsimp only; omega⟩
          · obtain ⟨other, hother, hbounds⟩ :=
              (ih hstop hrest.scattered).mpr hrest i c (by omega) hi hspace
            exact ⟨other, List.mem_cons_of_mem _ hother, hbounds⟩

/-- Located from the beginning, pieces cover what `split_text` has kept. -/
theorem covered_locate_iff {Keep : Prop} {pieces : List String} (h : Cuts Keep text.toList pieces) :
    Covered text ((locate text id 0 pieces).map Piece.span) ↔ Keep := by
  have hscattered : Scattered (pieces.map String.toList) (text.toList.drop 0) := h.scattered
  have hfrom := coveredFrom_locate_iff (Nat.zero_le _) hscattered
  rw [← h.kept_iff, Kept, ← h.scattered.laid_blank_iff]
  refine Iff.trans ?_ hfrom
  simp [Covered, CoveredFrom]

end Locate

section Windows

variable {text : String} {size : ℤ}

/-- A window with a character that is not whitespace is not blank. -/
theorem strip_window_ne_empty {start stop i : Nat} {c : Char} (hi : text.toList[i]? = some c)
    (hspace : isSpace c = false) (hle : start ≤ i) (hlt : i < stop) (hstop : stop ≤ text.length) :
    strip (sliceBetween start stop text) ≠ "" := by
  rw [strip_ne_empty_iff]
  refine ⟨c, ?_, hspace⟩
  have hstart' : sliceBound text.length start = start := by
    simp [sliceBound]
    omega
  have hstop' : sliceBound text.length stop = stop := by
    simp [sliceBound]
    omega
  rw [sliceBetween, String.toList_ofList, hstart', hstop', mem_drop_iff]
  exact ⟨i, hle, by rw [List.getElem?_take_of_lt hlt, hi]⟩

theorem fixedWindows_covers {starts : List Nat} (hsorted : starts.Pairwise (· ≤ ·)) {i : Nat}
    {c : Char} (hi : text.toList[i]? = some c) (hspace : isSpace c = false) {start : Nat}
    (hstart : start ∈ starts) (hle : start ≤ i) (hlt : (i : ℤ) < start + size) :
    ∃ piece ∈ fixedWindows text size starts, piece.span.1 ≤ i ∧ i < piece.span.2 := by
  have hend : i < text.length := by
    rw [← String.length_toList]
    exact (List.getElem?_eq_some_iff.mp hi).1
  induction starts with
  | nil => cases hstart
  | cons first starts ih =>
      obtain ⟨hfirst, hrest⟩ := List.pairwise_cons.mp hsorted
      rw [fixedWindows_cons]
      by_cases hin : first ≤ i ∧ (i : ℤ) < min (first + size) text.length
      · obtain ⟨stop, hstop⟩ := Int.eq_ofNat_of_zero_le
          (show (0 : ℤ) ≤ min (first + size) text.length by omega)
        have hblank : strip (sliceBetween first (stop : ℤ) text) ≠ "" :=
          strip_window_ne_empty hi hspace hin.1 (by omega) (by omega)
        rw [windowAt, hstop, if_neg hblank]
        exact ⟨_, List.mem_cons_self, by dsimp only; omega, by dsimp only; omega⟩
      · -- a window that reaches the end from before `start` would hold the position
        have hlater : start ∈ starts := by
          rcases List.mem_cons.mp hstart with rfl | hlater
          · omega
          · exact hlater
        have hbefore := hfirst start hlater
        obtain ⟨piece, hpiece, hbounds⟩ := ih hrest hlater
        have hmore : ¬ (text.length : ℤ) ≤ first + size := by omega
        rw [if_neg hmore]
        exact ⟨piece, List.mem_append_right _ hpiece, hbounds⟩

theorem rangeStep_sorted (stop step : Nat) : (rangeStep stop step).Pairwise (· ≤ ·) := by
  rw [rangeStep, List.pairwise_map]
  exact List.pairwise_lt_range.imp fun hlt => Nat.mul_le_mul_right step hlt.le

/-- The last start that is not behind a position. -/
theorem mem_rangeStep {stop step i : Nat} (hstep : 0 < step) (hi : i < stop) :
    i / step * step ∈ rangeStep stop step := by
  rw [rangeStep, List.mem_map]
  refine ⟨i / step, List.mem_range.mpr ?_, rfl⟩
  have hle := Nat.div_mul_le_self i step
  exact (Nat.lt_div_iff_mul_lt hstep).mpr (by omega)

end Windows

section Chunks

variable {K : Type} [Field K] [LinearOrder K] [Math K] {shortId : List String → String}

theorem map_span_chunksOf {document : Document} {indexVersion chunker : String}
    {pieces : List Piece} : (document.chunksOf shortId indexVersion chunker pieces).map Chunk.span
      = pieces.map Piece.span := by
  apply List.ext_getElem
  · simp [Document.chunksOf]
  · intro i hi hi'
    simp [Document.chunksOf, Document.chunkOf]

theorem covered_nil {spans : List (ℤ × ℤ)} : Covered "" spans := by
  intro i c hi
  simp at hi

theorem linesFit_nil {size : ℤ} : LinesFit size "" := by
  rw [← unbroken_iff]
  exact unbroken_nil

theorem fixedChunks_covered {document : Document} {indexVersion : String} {size overlap : ℤ}
    (hsize : 0 < size) (hoverlap : 0 ≤ overlap) : Covered (document.text.getD "")
      ((fixedChunks shortId document indexVersion size overlap).map Chunk.span) := by
  unfold fixedChunks
  extract_lets text step
  split_ifs with htext
  · rw [show document.text.getD "" = "" from htext]
    exact covered_nil
  · rw [map_span_chunksOf]
    intro i c hi hspace
    have hend : i < text.length := by
      rw [← String.length_toList]
      exact (List.getElem?_eq_some_iff.mp hi).1
    have hstep : step = max (size - overlap) 1 := rfl
    obtain ⟨n, hn⟩ := Int.eq_ofNat_of_zero_le (show 0 ≤ step by omega)
    rw [hn, Int.toNat_natCast]
    have hpos : 0 < n := by omega
    have hle := Nat.div_mul_le_self i n
    have hlt := Nat.lt_div_mul_add hpos (a := i)
    have hwithin : (i : ℤ) < ((i / n * n : ℕ) : ℤ) + size := by omega
    obtain ⟨piece, hpiece, hbounds⟩ := fixedWindows_covers (rangeStep_sorted text.length n) hi
      hspace (mem_rangeStep hpos hend) hle hwithin
    exact ⟨piece.span, List.mem_map_of_mem hpiece, hbounds⟩

theorem recursiveChunks_covered_iff {document : Document} {indexVersion : String}
    {size overlap : ℤ} {chunks : List Chunk} (hsize : 0 < size) (hoverlap : 0 ≤ overlap)
    (h : recursiveChunks shortId document indexVersion size overlap = .ok chunks) :
    Covered (document.text.getD "") (chunks.map Chunk.span)
      ↔ LinesFit size (document.text.getD "") := by
  rcases recursiveChunks_cases h with ⟨htext, rfl⟩ | ⟨pieces, hpieces, rfl⟩
  · rw [htext]
    exact iff_of_true covered_nil linesFit_nil
  · rw [recursive_advance hoverlap, map_span_chunksOf, ← unbroken_iff]
    exact covered_locate_iff (splitText_cuts hsize hpieces)

theorem markdownChunks_covered_iff {document : Document} {indexVersion : String}
    {size overlap : ℤ} {chunks : List Chunk} (hsize : 0 < size) (hoverlap : 0 ≤ overlap)
    (h : markdownChunks shortId document indexVersion size overlap = .ok chunks) :
    Covered (document.text.getD "") (chunks.map Chunk.span)
      ↔ LinesFit size (document.text.getD "") := by
  rcases markdownChunks_cases h with ⟨htext, rfl⟩ | ⟨-, h⟩ | ⟨pieces, hpieces, rfl⟩
  · rw [htext]
    exact iff_of_true covered_nil linesFit_nil
  · exact recursiveChunks_covered_iff hsize hoverlap h
  · rw [map_span_chunksOf, List.map_map, ← unbroken_iff]
    exact covered_locate_iff (markdownSections_cuts hsize hpieces)

/-- The fixed chunker covers every text. The two that use `split_text` cover a text exactly when
none of its lines has to be cut at `". "`. -/
theorem chunk_covered_iff [Runtime]
    {embedder : Option (List String → Except Exn (List (List K)))} {document : Document}
    {indexVersion : String} {config : ChunkingConfig} {chunks : List Chunk}
    (hstrategy : config.strategyFor document ∈ ["fixed", "recursive", "markdown_aware"])
    (hoverlap : 0 ≤ (config.mimeCfg document).overlap)
    (h : chunkDocument shortId embedder document indexVersion config = .ok chunks) :
    Covered (document.text.getD "") (chunks.map Chunk.span)
      ↔ config.strategyFor document = "fixed"
        ∨ LinesFit (config.mimeCfg document).size (document.text.getD "") := by
  obtain ⟨hlt, hchunks⟩ := chunkWith_of_chunkDocument h
  have hsize : 0 < (config.mimeCfg document).size := by omega
  generalize config.strategyFor document = strategy at hstrategy hchunks ⊢
  unfold chunkWith at hchunks
  split_ifs at hchunks with hfixed hrecursive hmarkdown hsemantic
  · cases hchunks
    exact iff_of_true (fixedChunks_covered hsize hoverlap) (.inl hfixed)
  · rw [recursiveChunks_covered_iff hsize hoverlap hchunks]
    simp [hfixed]
  · rw [markdownChunks_covered_iff hsize hoverlap hchunks]
    simp [hfixed]
  · rw [hsemantic] at hstrategy
    simp at hstrategy

end Chunks

section Examples

/-- A document that is cut recursively into pieces of at most three characters. -/
def pdfDoc (text : String) : Document where
  docId := "d"
  sourceUri := "file:///d.pdf"
  mimeType := "application/pdf"
  checksum := "c"
  text := some text
  acl := { tenant := "default" }

def smallPieces : ChunkingConfig where
  strategies := Dict.empty.set "application/pdf" { size := 3, overlap := 0 }

/-- Cut at the space, nothing but the space is lost. -/
theorem chunk_covered_iff_words :
    let _ := Runtime.ascii
    let _ := unitMath
    ∃ chunks, chunkDocument (K := ℚ) spelledOut none (pdfDoc "ab cd") "v1" smallPieces = .ok chunks
      ∧ chunks.map Chunk.text = ["ab", "cd"]
      ∧ Covered "ab cd" (chunks.map Chunk.span) := by
  intro _ _
  obtain ⟨chunks, hchunks, htexts⟩ : ∃ chunks,
      chunkDocument (K := ℚ) spelledOut none (pdfDoc "ab cd") "v1" smallPieces = .ok chunks
        ∧ chunks.map Chunk.text = ["ab", "cd"] := ok_of_toOption (by decide +kernel)
  have hlines : split "ab cd" "\n" = ["ab cd"] := by decide +kernel
  refine ⟨chunks, hchunks, htexts,
    (chunk_covered_iff (by decide) (by decide) hchunks).mpr (.inr ?_)⟩
  intro line hline _
  have hsame : line ∈ split "ab cd" "\n" := hline
  rw [hlines, List.mem_singleton] at hsame
  rw [hsame]
  decide +kernel

/-- Cut at the full stop, the full stop is in no span. -/
theorem full_stop_uncovered :
    ¬ ∀ (_ : Runtime) (_ : Math ℚ) (shortId : List String → String)
      (embedder : Option (List String → Except Exn (List (List ℚ)))) (document : Document)
      (indexVersion : String) (config : ChunkingConfig) (chunks : List Chunk),
      config.strategyFor document ∈ ["fixed", "recursive", "markdown_aware"] →
      0 ≤ (config.mimeCfg document).overlap →
      chunkDocument shortId embedder document indexVersion config = .ok chunks →
      Covered (document.text.getD "") (chunks.map Chunk.span) := by
  intro h
  let _ := Runtime.ascii
  let _ := unitMath
  obtain ⟨chunks, hchunks, hspans⟩ : ∃ chunks,
      chunkDocument (K := ℚ) spelledOut none (pdfDoc "ab. cd") "v1" smallPieces = .ok chunks
        ∧ chunks.map Chunk.span = [(0, 2), (4, 6)] := ok_of_toOption (by decide +kernel)
  have hcovered := h Runtime.ascii unitMath spelledOut none (pdfDoc "ab. cd") "v1" smallPieces
    chunks (by decide) (by decide) hchunks
  rw [hspans] at hcovered
  obtain ⟨span, hspan, hlow, hhigh⟩ := hcovered 2 '.' (by decide +kernel) (by decide)
  simp only [List.mem_cons, List.not_mem_nil, or_false] at hspan
  rcases hspan with rfl | rfl
  · exact absurd hhigh (by decide)
  · exact absurd hlow (by decide)

end Examples

end Rag
