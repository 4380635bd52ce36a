import Rag.Chunking.Embeddable

/-!
How the windows of the fixed chunker tile a text.

A window that is followed by another is full and ends before the text does, so the next one
begins in it and ends behind it. Blank windows leave gaps in the row, and what lies in such a
gap is whitespace.
-/

namespace Rag

open Py

section Windows

variable {text : String} {size : ℤ}

/-- A window that has another behind it is full, and the text goes on behind it. -/
structure Before (text : String) (size : ℤ) (window later : ℤ × ℤ) : Prop where
  start_lt : window.1 < later.1
  full : window.2 = window.1 + size
  stop_lt : window.2 < text.length
  later_stop : later.2 = min (later.1 + size) text.length

theorem fixedWindows_before {starts : List Nat} (hsorted : starts.Pairwise (· < ·)) :
    ((fixedWindows text size starts).map Piece.span).Pairwise (Before text size) := by
  induction starts with
  | nil => exact List.Pairwise.nil
  | cons start rest ih =>
      obtain ⟨hfirst, hrest⟩ := List.pairwise_cons.mp hsorted
      rw [fixedWindows_cons, List.map_append, List.pairwise_append]
      constructor
      · unfold windowAt
        extract_lets stop
        split_ifs
        · exact List.Pairwise.nil
        · exact List.pairwise_singleton _ _
      · constructor
        · split_ifs
          · exact List.Pairwise.nil
          · exact ih hrest
        · intro window hwindow later hlater
          obtain ⟨piece, hpiece, rfl⟩ := List.mem_map.mp hwindow
          obtain ⟨next, hnext, rfl⟩ := List.mem_map.mp hlater
          split_ifs at hnext with hend
          · cases hnext
          · obtain ⟨behind, hbehind, hwithin⟩ := mem_fixedWindows hnext
            have hlt := hfirst behind hbehind
            rw [(mem_windowAt hpiece).2.1, (mem_windowAt hwithin).2.1]
            constructor
            · dsimp only
              omega
            · dsimp only
              omega
            · dsimp only
              omega
            · rfl

/-- Neither of two such windows lies in the other. -/
theorem Before.apart {window later : ℤ × ℤ} (h : Before text size window later) :
    ¬ (later.1 ≤ window.1 ∧ window.2 ≤ later.2) ∧ ¬ (window.1 ≤ later.1 ∧ later.2 ≤ window.2) := by
  have hstart := h.start_lt
  have hfull := h.full
  have hstop := h.stop_lt
  have hlater := h.later_stop
  constructor
  · omega
  · omega

/-- Of two windows in such a row the one that begins first is the one before. -/
theorem before_of_lt {spans : List (ℤ × ℤ)} (h : spans.Pairwise (Before text size))
    {window later : ℤ × ℤ} (hwindow : window ∈ spans) (hlater : later ∈ spans)
    (hlt : window.1 < later.1) : Before text size window later := by
  induction spans with
  | nil => cases hwindow
  | cons first spans ih =>
      obtain ⟨hfirst, hrest⟩ := List.pairwise_cons.mp h
      rcases List.mem_cons.mp hwindow with rfl | hbehind
      · rcases List.mem_cons.mp hlater with rfl | hnext
        · omega
        · exact hfirst later hnext
      · rcases List.mem_cons.mp hlater with rfl | hnext
        · have hback := (hfirst window hbehind).start_lt
          omega
        · exact ih hrest hbehind hnext

end Windows

/-- The second chunk goes on with the last `overlap` characters of the first. -/
structure Continues (overlap : ℤ) (first second : Chunk) : Prop where
  positions : ∀ i : ℤ,
    (first.span.1 ≤ i ∧ i < first.span.2) ∧ (second.span.1 ≤ i ∧ i < second.span.2)
      ↔ second.span.1 ≤ i ∧ i < second.span.1 + overlap
  texts : ∃ front shared back : String, first.text = front ++ shared
    ∧ second.text = shared ++ back ∧ (shared.length : ℤ) = overlap

/-- Chunks that tile a text in windows of `size` characters, of which `overlap` are shared. -/
structure Tiles (text : String) (size overlap : ℤ) (chunks : List Chunk) : Prop where
  embeddable : ∀ chunk ∈ chunks, Embeddable size chunk.text
  traceable : ∀ chunk ∈ chunks, Traceable text chunk.text chunk.span
  numbered : ∀ (i : Nat) (chunk : Chunk), chunks[i]? = some chunk → chunk.ordinal = i
  rising : chunks.Pairwise fun first second => first.span.1 < second.span.1
  stepped : ∀ chunk ∈ chunks, size - overlap ∣ chunk.span.1
  covered : Covered text (chunks.map Chunk.span)
  shared : ∀ first ∈ chunks, ∀ second ∈ chunks,
    second.span.1 = first.span.1 + (size - overlap) → Continues overlap first second
  apart : chunks.Pairwise fun first second =>
    ¬ (second.span.1 ≤ first.span.1 ∧ first.span.2 ≤ second.span.2)
    ∧ ¬ (first.span.1 ≤ second.span.1 ∧ second.span.2 ≤ first.span.2)

section Tiling

variable {shortId : List String → String} {text : String} {document : Document}
  {indexVersion : String} {size overlap : ℤ}

theorem rangeStep_increasing (stop : Nat) {step : Nat} (hstep : 0 < step) :
    (rangeStep stop step).Pairwise (· < ·) := by
  rw [rangeStep, List.pairwise_map]
  exact List.pairwise_lt_range.imp fun hlt => Nat.mul_lt_mul_of_pos_right hlt hstep

/-- The windows `overlap` back from where the one before ends. -/
theorem continues_of_before {first second : Chunk} (hoverlap : 0 ≤ overlap)
    (hfirst : Traceable text first.text first.span)
    (hsecond : Traceable text second.text second.span)
    (h : Before text size first.span second.span)
    (hstep : second.span.1 = first.span.1 + (size - overlap)) : Continues overlap first second := by
  obtain ⟨i, hi⟩ := Int.eq_ofNat_of_zero_le hfirst.start_nonneg
  obtain ⟨j, hj⟩ := Int.eq_ofNat_of_zero_le hsecond.start_nonneg
  have hstart := h.start_lt
  have hfull := h.full
  have hstop := h.stop_lt
  have hlater := h.later_stop
  obtain ⟨k, hk⟩ := Int.eq_ofNat_of_zero_le (show 0 ≤ first.span.2 by omega)
  obtain ⟨l, hl⟩ := Int.eq_ofNat_of_zero_le (show 0 ≤ second.span.2 by omega)
  constructor
  · intro p
    omega
  · refine ⟨sliceBetween i j text, sliceBetween j k text, sliceBetween k l text, ?_, ?_, ?_⟩
    · rw [sliceBetween_append (by omega) (by omega) (by omega), ← hfirst.slice_eq, hi, hk]
    · rw [sliceBetween_append (by omega) (by omega) (by omega), ← hsecond.slice_eq, hj, hl]
    · rw [length_sliceBetween (by omega)]
      omega

theorem before_fixedChunks :
    ((fixedChunks shortId document indexVersion size overlap).map Chunk.span).Pairwise
      (Before (document.text.getD "") size) := by
  unfold fixedChunks
  extract_lets text step
  split_ifs
  · exact List.Pairwise.nil
  · rw [map_span_chunksOf]
    apply fixedWindows_before
    apply rangeStep_increasing
    omega

theorem stepped_fixedChunks (hlt : overlap < size) :
    ∀ chunk ∈ fixedChunks shortId document indexVersion size overlap,
      size - overlap ∣ chunk.span.1 := by
  unfold fixedChunks
  extract_lets text step
  split_ifs
  · intro chunk hchunk
    cases hchunk
  · apply (forall_mem_chunksOf fun _ span => size - overlap ∣ span.1).mpr
    intro piece hpiece
    obtain ⟨start, hstart, hwindow⟩ := mem_fixedWindows hpiece
    obtain ⟨i, -, rfl⟩ := List.mem_map.mp hstart
    have hstep : (step.toNat : ℤ) = size - overlap := by omega
    rw [(mem_windowAt hwindow).2.1]
    push_cast
    rw [hstep]
    exact dvd_mul_left _ _

/-- Fixed windows tile every text: no chunk is blank or too long, each is where its span says, only
whitespace is left out, and consecutive windows have exactly the overlap in common. -/
theorem fixedChunks_tile (hsize : 1 ≤ size) (hoverlap : 0 ≤ overlap) (hlt : overlap < size) :
    Tiles (document.text.getD "") size overlap
      (fixedChunks shortId document indexVersion size overlap) := by
  have htraceable : ∀ chunk ∈ fixedChunks shortId document indexVersion size overlap,
      Traceable (document.text.getD "") chunk.text chunk.span := fixedChunks_traceable hsize
  have hrow : ((fixedChunks shortId document indexVersion size overlap).map Chunk.span).Pairwise
      (Before (document.text.getD "") size) := before_fixedChunks
  have hbefore := List.pairwise_map.mp hrow
  constructor
  · exact fixedChunks_embeddable hsize
  · exact htraceable
  · intro i chunk hchunk
    exact (numbered_fixedChunks document indexVersion size overlap i chunk hchunk).ordinal_eq
  · exact hbefore.imp fun h => h.start_lt
  · exact stepped_fixedChunks hlt
  · exact fixedChunks_covered hsize hoverlap
  · intro first hfirst second hsecond hstep
    apply continues_of_before hoverlap (htraceable first hfirst) (htraceable second hsecond) _ hstep
    apply before_of_lt hrow (List.mem_map_of_mem hfirst) (List.mem_map_of_mem hsecond)
    omega
  · exact hbefore.imp fun h => h.apart

/-- The window at four, all blanks, makes no chunk, and the one that reaches the end is the
last. -/
theorem fixedChunks_tile_blanks :
    (fixedChunks spelledOut (pdfDoc "abc    de") "v1" 3 1).map (fun c => (c.text, c.span))
        = [("abc", (0, 3)), ("c  ", (2, 5)), (" de", (6, 9))]
      ∧ Tiles "abc    de" 3 1 (fixedChunks spelledOut (pdfDoc "abc    de") "v1" 3 1) := by
  constructor
  · decide +kernel
  · exact @fixedChunks_tile spelledOut (pdfDoc "abc    de") "v1" 3 1 (by decide) (by decide)
      (by decide)

end Tiling

end Rag
