import Rag.Chunking.Base

/-!
`rag.chunking.fixed`: fixed-size character windows with overlap.
-/

namespace Rag

open Py

/-- The windows at the given starts. A blank window makes no chunk, and the window that
reaches the end is the last. -/
def fixedWindows (text : String) (size : ℤ) : List Nat → List Piece
  | [] => []
  | start :: rest =>
      let stop := min (start + size) text.length
      let piece := sliceBetween start stop text
      let later := if text.length ≤ stop then [] else fixedWindows text size rest
      if strip piece = "" then later else ⟨piece, (start, stop)⟩ :: later

section Windows

variable {text : String} {size : ℤ}

/-- The window at `start`, if it makes a chunk. -/
def windowAt (text : String) (size : ℤ) (start : Nat) : List Piece :=
  let stop := min (start + size) text.length
  if strip (sliceBetween start stop text) = "" then []
  else [⟨sliceBetween start stop text, (start, stop)⟩]

theorem fixedWindows_cons (start : Nat) (rest : List Nat) :
    fixedWindows text size (start :: rest)
      = windowAt text size start
        ++ if (text.length : ℤ) ≤ start + size then [] else fixedWindows text size rest := by
  have hend : (text.length : ℤ) ≤ min (start + size) text.length
      ↔ (text.length : ℤ) ≤ start + size := by
    omega
  rw [fixedWindows, windowAt]
  simp only [hend]
  split_ifs
  · rfl
  · rfl
  · rfl
  · rfl

theorem mem_windowAt {start : Nat} {piece : Piece} (h : piece ∈ windowAt text size start) :
    strip piece.text ≠ "" ∧ piece.span = ((start : ℤ), min (start + size) text.length)
      ∧ piece.text = sliceBetween piece.span.1 piece.span.2 text := by
  unfold windowAt at h
  extract_lets stop at h
  split_ifs at h with hblank
  · cases h
  · rw [List.mem_singleton.mp h]
    exact ⟨hblank, rfl, rfl⟩

/-- Every window begins at one of the starts. -/
theorem mem_fixedWindows {starts : List Nat} {piece : Piece}
    (h : piece ∈ fixedWindows text size starts) :
    ∃ start ∈ starts, piece ∈ windowAt text size start := by
  induction starts with
  | nil => cases h
  | cons start rest ih =>
      rw [fixedWindows_cons] at h
      rcases List.mem_append.mp h with hfirst | hlater
      · exact ⟨start, List.mem_cons_self, hfirst⟩
      · split_ifs at hlater
        · cases hlater
        · obtain ⟨later, hmem, hwindow⟩ := ih hlater
          exact ⟨later, List.mem_cons_of_mem _ hmem, hwindow⟩

end Windows

variable (shortId : List String → String)

def fixedChunks (document : Document) (indexVersion : String) (size overlap : ℤ) : List Chunk :=
  let text := document.text.getD ""
  if text = "" then []
  else
    let step := max (size - overlap) 1
    document.chunksOf shortId indexVersion "fixed"
      (fixedWindows text size (rangeStep text.length step.toNat))

variable {shortId}

theorem numbered_fixedChunks (document : Document) (indexVersion : String) (size overlap : ℤ) :
    Numbered shortId document.docId indexVersion
      (fixedChunks shortId document indexVersion size overlap) := by
  unfold fixedChunks
  extract_lets text step
  split_ifs
  · exact numbered_nil _ _
  · exact numbered_chunksOf document indexVersion "fixed" _

end Rag
