import Rag.Chunking.Embeddable

/-!
What `split_text` returns, and where the recursive chunker finds it again.

Whatever the separators, `split_text` returns pieces of at most the size that stand in the text
one after the other. Such pieces are found when each of them is looked for from the end of the
one before: what is found may lie in front of the place the piece was cut from, but never
behind it, so it does not reach into the place of the next.
-/

namespace Rag

open Py

/-- Neither empty nor longer than the size. -/
def Bounded (size : ℤ) (pieces : List String) : Prop :=
  ∀ piece ∈ pieces, piece ≠ "" ∧ (piece.length : ℤ) ≤ size

theorem Bounded.append {size : ℤ} {pieces later : List String} (h : Bounded size pieces)
    (hlater : Bounded size later) : Bounded size (pieces ++ later) := by
  intro piece hpiece
  rcases List.mem_append.mp hpiece with hpiece | hpiece
  · exact h piece hpiece
  · exact hlater piece hpiece

section Bounds

variable {size : ℤ}

/-- A text that is put down only when it is not empty. -/
theorem bounded_unless {p : Prop} [Decidable p] {text : String} (h : (text.length : ℤ) ≤ size)
    (hsome : ¬ p → text ≠ "") : Bounded size (if p then [] else [text]) := by
  split_ifs with hp
  · intro piece hpiece
    cases hpiece
  · intro piece hpiece
    rw [List.mem_singleton.mp hpiece]
    exact ⟨hsome hp, h⟩

theorem bounded_whole {text : String} (h : (text.length : ℤ) ≤ size) :
    Bounded size (if strip text = "" then [] else [text]) := by
  apply bounded_unless h
  intro hwritten hempty
  apply hwritten
  rw [hempty]
  rfl

/-- Each window begins before the end of the text. -/
theorem cutEvery_bounded (hsize : 1 ≤ size) (text : String) :
    ∃ pieces, cutEvery size text = .ok pieces ∧ Bounded size pieces := by
  obtain ⟨n, rfl⟩ := Int.eq_ofNat_of_zero_le (show 0 ≤ size by omega)
  have hn : 0 < n := by omega
  refine ⟨_, cutEvery_eq hn text, ?_⟩
  intro piece hpiece
  obtain ⟨j, hj, rfl⟩ := List.mem_map.mp hpiece
  have hstart : j * n < text.length := by
    have hlt := (Nat.lt_div_iff_mul_lt hn).mp (List.mem_range.mp hj)
    omega
  have hlength : (String.ofList ((text.toList.drop (j * n)).take n)).length
      = min n (text.length - j * n) := by
    rw [String.length_ofList, List.length_take, List.length_drop, String.length_toList]
  constructor
  · intro hempty
    rw [hempty, String.length_empty] at hlength
    omega
  · rw [hlength]
    omega

/-- Packing keeps `current` within the size, and cuts whatever part does not fit into it. -/
theorem packParts_bounded {sep : String} {inner : String → Except Exn (List String)}
    (hinner : ∀ part, ∃ cut, inner part = .ok cut ∧ Bounded size cut) (hsize : 1 ≤ size)
    (parts : List String) {current : String} (hcurrent : (current.length : ℤ) ≤ size) :
    ∃ pieces, packParts sep size inner parts current = .ok pieces ∧ Bounded size pieces := by
  induction parts generalizing current with
  | nil => exact ⟨_, rfl, bounded_unless hcurrent id⟩
  | cons part parts ih =>
      rw [packParts]
      dsimp only
      by_cases hfits : ((if current = "" then part else current ++ sep ++ part).length : ℤ) ≤ size
      · rw [if_pos hfits]
        exact ih hfits
      · rw [if_neg hfits]
        by_cases hlong : size < part.length
        · obtain ⟨cut, hcut, hbounded⟩ := hinner part
          have hempty : ((("" : String).length : ℕ) : ℤ) ≤ size := by
            rw [String.length_empty]
            omega
          obtain ⟨rest, hrest, hlater⟩ := ih hempty
          rw [if_pos hlong, hcut, hrest]
          exact ⟨_, rfl, ((bounded_unless hcurrent id).append hbounded).append hlater⟩
        · obtain ⟨rest, hrest, hlater⟩ := ih (not_lt.mp hlong)
          rw [if_neg hlong, hrest]
          exact ⟨_, rfl, (bounded_unless hcurrent id).append hlater⟩

/-- The empty separator cuts at every position, as no separator does. -/
theorem splitText_empty (rest : List String) (text : String) :
    splitText size ("" :: rest) text = splitText size [] text := by
  rw [splitText, splitText, if_pos rfl]

theorem splitText_nil_bounded (hsize : 1 ≤ size) (text : String) :
    ∃ pieces, splitText size [] text = .ok pieces ∧ Bounded size pieces := by
  rw [splitText]
  by_cases hfits : (text.length : ℤ) ≤ size
  · rw [if_pos hfits]
    exact ⟨_, rfl, bounded_whole hfits⟩
  · rw [if_neg hfits]
    exact cutEvery_bounded hsize text

/-- `split_text` returns, for any separators. -/
theorem splitText_bounded (hsize : 1 ≤ size) (seps : List String) (text : String) :
    ∃ pieces, splitText size seps text = .ok pieces ∧ Bounded size pieces := by
  induction seps generalizing text with
  | nil => exact splitText_nil_bounded hsize text
  | cons sep rest ih =>
      by_cases hsep : sep = ""
      · rw [hsep, splitText_empty]
        exact splitText_nil_bounded hsize text
      · rw [splitText]
        by_cases hfits : (text.length : ℤ) ≤ size
        · rw [if_pos hfits]
          exact ⟨_, rfl, bounded_whole hfits⟩
        · rw [if_neg hfits, if_neg hsep]
          apply packParts_bounded ih hsize
          rw [String.length_empty]
          omega

end Bounds

/-- One level after the other, `split_text` keeps the order of what it cuts. -/
theorem splitText_scattered {size : ℤ} (hsize : 1 ≤ size) (seps : List String) {text : String}
    {pieces : List String} (h : splitText size seps text = .ok pieces) :
    Scattered (pieces.map String.toList) text.toList := by
  induction seps generalizing text pieces with
  | nil =>
      rw [← splitText_empty []] at h
      exact (splitText_positions hsize text pieces h).scattered
  | cons sep rest ih =>
      by_cases hsep : sep = ""
      · rw [hsep, splitText_empty, ← splitText_empty []] at h
        exact (splitText_positions hsize text pieces h).scattered
      · -- how much is kept of a part does not matter here
        let Keep (part : String) : Prop := ∀ cut, splitText size rest part = .ok cut →
          Kept (cut.map String.toList) part.toList
        have hinner : ∀ part cut, splitText size rest part = .ok cut →
            Cuts (Keep part) part.toList cut := by
          intro part cut hcut
          constructor
          · exact ih hcut
          · constructor
            · intro hkept other hother
              rw [hcut] at hother
              cases hother
              exact hkept
            · intro hkept
              exact hkept cut hcut
        exact (splitText_cons hsep hinner h).scattered

/-- Every piece is found from the cursor, which `advance` then moves. -/
def Found (text : String) (advance : ℤ → ℤ) : ℤ → List String → Prop
  | _, [] => True
  | cursor, piece :: rest => ∃ i : Nat, find text piece cursor.toNat = some i
      ∧ Found text advance (advance (i + piece.length)) rest

section Located

variable {text : String}

theorem found_of_scattered {pieces : List String} {cursor : Nat} (hcursor : cursor ≤ text.length)
    (h : Scattered (pieces.map String.toList) (text.toList.drop cursor)) :
    Found text id cursor pieces := by
  induction pieces generalizing cursor with
  | nil => trivial
  | cons piece pieces ih =>
      obtain ⟨i, hi, hrest⟩ := find_scattered hcursor h
      have hstop := (find_some hi).2.2
      exact ⟨i, hi, ih hstop hrest⟩

/-- One span ends before the other begins. -/
theorem locate_apart {pieces : List String} {cursor : Nat} (hcursor : cursor ≤ text.length)
    (h : Scattered (pieces.map String.toList) (text.toList.drop cursor)) :
    ((locate text id cursor pieces).map Piece.span).Pairwise
      fun span later => span.2 ≤ later.1 := by
  induction pieces generalizing cursor with
  | nil => exact List.Pairwise.nil
  | cons piece pieces ih =>
      obtain ⟨i, hi, hrest⟩ := find_scattered hcursor h
      have hstop := (find_some hi).2.2
      rw [locate_cons hi, List.map_cons, List.pairwise_cons, List.forall_mem_map]
      exact ⟨locate_start hstop hrest, ih hstop hrest⟩

theorem map_text_chunksOf {shortId : List String → String} {document : Document}
    {indexVersion chunker : String} {pieces : List Piece} :
    (document.chunksOf shortId indexVersion chunker pieces).map Chunk.text
      = pieces.map Piece.text := by
  apply List.ext_getElem
  · simp [Document.chunksOf]
  · intro i hi hi'
    simp [Document.chunksOf, Document.chunkOf]

end Located

/-- The chunks are numbered, and each stands where its span says, behind the one before. -/
structure InOrder (text : String) (chunks : List Chunk) : Prop where
  traceable : ∀ chunk ∈ chunks, Traceable text chunk.text chunk.span
  filled : ∀ chunk ∈ chunks, chunk.span.1 < chunk.span.2
  apart : chunks.Pairwise fun chunk later => chunk.span.2 ≤ later.span.1
  numbered : ∀ (i : Nat) (chunk : Chunk), chunks[i]? = some chunk → chunk.ordinal = i

section Chunks

variable {shortId : List String → String} {document : Document} {indexVersion : String}
  {size overlap : ℤ} {pieces : List String}

theorem Traceable.length_eq {text cut : String} {span : ℤ × ℤ} (h : Traceable text cut span) :
    (cut.length : ℤ) = span.2 - span.1 := by
  obtain ⟨i, hi⟩ := Int.eq_ofNat_of_zero_le h.start_nonneg
  obtain ⟨j, hj⟩ := Int.eq_ofNat_of_zero_le (h.start_nonneg.trans h.start_le_stop)
  have hle := h.start_le_stop
  have hstop := h.stop_le
  rw [← h.slice_eq, hi, hj, length_sliceBetween (by omega)]
  omega

theorem inOrder_chunksOf {text chunker : String} (hbounded : Bounded size pieces)
    (h : Scattered (pieces.map String.toList) (text.toList.drop 0)) :
    InOrder text (document.chunksOf shortId indexVersion chunker (locate text id 0 pieces)) := by
  have htraceable : ∀ chunk ∈ document.chunksOf shortId indexVersion chunker
      (locate text id 0 pieces), Traceable text chunk.text chunk.span := by
    apply (forall_mem_chunksOf (Traceable text)).mpr
    exact located_traceable h
  have htexts : (document.chunksOf shortId indexVersion chunker (locate text id 0 pieces)).map
      Chunk.text = pieces := by
    rw [map_text_chunksOf, locate_text]
  constructor
  · exact htraceable
  · intro chunk hchunk
    have hmem : chunk.text ∈ pieces := htexts ▸ List.mem_map_of_mem hchunk
    have hlength := (htraceable chunk hchunk).length_eq
    have hpos : 0 < chunk.text.length := by
      rw [Nat.pos_iff_ne_zero, ne_eq, String.length_eq_zero_iff]
      exact (hbounded chunk.text hmem).1
    omega
  · rw [← List.pairwise_map (f := Chunk.span) (R := fun span later => span.2 ≤ later.1),
      map_span_chunksOf]
    exact locate_apart (Nat.zero_le _) h
  · intro i chunk hchunk
    exact (numbered_chunksOf document indexVersion chunker _ i chunk hchunk).ordinal_eq

/-- An empty text has no pieces, so the shortcut for it changes nothing. -/
theorem recursiveChunks_of_pieces (hsize : 1 ≤ size)
    (h : splitText size separators (document.text.getD "") = .ok pieces) :
    recursiveChunks shortId document indexVersion size overlap
      = .ok (document.chunksOf shortId indexVersion "recursive"
          (locate (document.text.getD "") (fun stop => max (stop - overlap) stop) 0 pieces)) := by
  unfold recursiveChunks
  extract_lets text
  by_cases htext : text = ""
  · have hfits : (("".length : ℕ) : ℤ) ≤ size := by
      rw [String.length_empty]
      omega
    have hnone : splitText size separators "" = .ok [] := by
      rw [separators, splitText, if_pos hfits]
      rfl
    have hpieces : splitText size separators text = .ok pieces := h
    rw [htext, hnone] at hpieces
    cases hpieces
    rw [if_pos htext]
    rfl
  · rw [if_neg htext, h]
    rfl

/-- `split_text` returns for every text and all separators, with bounded pieces that stand in the
text one after the other. So the recursive chunker finds each of its pieces from the cursor, and
its chunks are these pieces, in order and apart. -/
theorem recursiveChunks_in_order (hsize : 1 ≤ size) (hoverlap : 0 ≤ overlap) :
    (∀ (seps : List String) (text : String), ∃ pieces, splitText size seps text = .ok pieces
      ∧ Bounded size pieces ∧ Scattered (pieces.map String.toList) text.toList)
    ∧ ∃ pieces chunks, splitText size separators (document.text.getD "") = .ok pieces
      ∧ recursiveChunks shortId document indexVersion size overlap = .ok chunks
      ∧ Found (document.text.getD "") (fun stop => max (stop - overlap) stop) 0 pieces
      ∧ chunks.map Chunk.text = pieces
      ∧ InOrder (document.text.getD "") chunks := by
  constructor
  · intro seps text
    obtain ⟨pieces, hpieces, hbounded⟩ := splitText_bounded hsize seps text
    exact ⟨pieces, hpieces, hbounded, splitText_scattered hsize seps hpieces⟩
  · obtain ⟨pieces, hpieces, hbounded⟩ := splitText_bounded hsize separators (document.text.getD "")
    have hscattered : Scattered (pieces.map String.toList)
        ((document.text.getD "").toList.drop 0) := splitText_scattered hsize separators hpieces
    refine ⟨pieces, _, hpieces, recursiveChunks_of_pieces hsize hpieces, ?_, ?_, ?_⟩
    · rw [recursive_advance hoverlap]
      exact found_of_scattered (Nat.zero_le _) hscattered
    · rw [map_text_chunksOf, locate_text]
    · rw [recursive_advance hoverlap]
      exact inOrder_chunksOf hbounded hscattered

/-- The second word begins like the first, and is found behind it. -/
theorem recursiveChunks_in_order_repeats :
    ∃ chunks, recursiveChunks spelledOut (pdfDoc "aa aaaa") "v1" 3 1 = .ok chunks
      ∧ chunks.map (fun chunk => (chunk.text, chunk.span))
        = [("aa", (0, 2)), ("aaa", (3, 6)), ("a", (6, 7))]
      ∧ InOrder "aa aaaa" chunks := by
  obtain ⟨-, pieces, chunks, -, hchunks, -, -, horder⟩ :=
    @recursiveChunks_in_order spelledOut (pdfDoc "aa aaaa") "v1" 3 1 (by decide) (by decide)
  obtain ⟨cut, hcut, hspans⟩ : ∃ cut,
      recursiveChunks spelledOut (pdfDoc "aa aaaa") "v1" 3 1 = .ok cut
      ∧ cut.map (fun chunk => (chunk.text, chunk.span))
        = [("aa", (0, 2)), ("aaa", (3, 6)), ("a", (6, 7))] := ok_of_toOption (by decide +kernel)
  rw [hcut] at hchunks
  cases hchunks
  exact ⟨chunks, hcut, hspans, horder⟩

end Chunks

end Rag
