import Rag.Chunking.Base

/-!
`rag.chunking.recursive`: split on natural separators until the size fits.
-/

namespace Rag

open Py

/-- `_SEPARATORS` -/
def separators : List String := ["\n\n", "\n", ". ", " ", ""]

/-- `[text[i : i + size] for i in range(0, len(text), size)]` -/
def cutEvery (size : ℤ) (text : String) : Except Exn (List String) :=
  if size = 0 then .error (valueError "range() arg 3 must not be zero")
  else if size < 0 then .ok []
  else .ok ((rangeStep text.length size.toNat).map fun i => sliceBetween i (i + size) text)

/-- The loop over the parts: pack parts while they fit, and split a part that is too long by
`inner`. -/
def packParts (sep : String) (size : ℤ) (inner : String → Except Exn (List String)) :
    List String → String → Except Exn (List String)
  | [], current => .ok (if current = "" then [] else [current])
  | part :: parts, current =>
      let candidate := if current = "" then part else current ++ sep ++ part
      if candidate.length ≤ size then packParts sep size inner parts candidate
      else do
        let packed := if current = "" then [] else [current]
        if size < part.length then
          let pieces ← inner part
          let rest ← packParts sep size inner parts ""
          pure (packed ++ pieces ++ rest)
        else
          let rest ← packParts sep size inner parts part
          pure (packed ++ rest)

/-- Split text to fit `size`, preferring the largest natural boundary. -/
def splitText (size : ℤ) : List String → String → Except Exn (List String)
  | [], text =>
      if text.length ≤ size then .ok (if strip text = "" then [] else [text])
      else cutEvery size text
  | sep :: rest, text =>
      if text.length ≤ size then .ok (if strip text = "" then [] else [text])
      else if sep = "" then cutEvery size text
      else packParts sep size (splitText size rest) (split text sep) ""

/-- Where the pieces stand: each is looked for from the cursor, which it then moves. -/
def locate (text : String) (advance : ℤ → ℤ) : ℤ → List String → List Piece
  | _, [] => []
  | cursor, piece :: rest =>
      let start := (find text piece cursor.toNat).elim cursor fun i => (i : ℤ)
      let stop := start + piece.length
      ⟨piece, (start, stop)⟩ :: locate text advance (advance stop) rest

variable (shortId : List String → String)

def recursiveChunks (document : Document) (indexVersion : String) (size overlap : ℤ) :
    Except Exn (List Chunk) :=
  let text := document.text.getD ""
  if text = "" then .ok []
  else do
    let pieces ← splitText size separators text
    pure (document.chunksOf shortId indexVersion "recursive"
      (locate text (fun stop => max (stop - overlap) stop) 0 pieces))

variable {shortId}

/-- What a successful call has done. -/
theorem recursiveChunks_cases {document : Document} {indexVersion : String} {size overlap : ℤ}
    {chunks : List Chunk}
    (h : recursiveChunks shortId document indexVersion size overlap = .ok chunks) :
    document.text.getD "" = "" ∧ chunks = []
    ∨ ∃ pieces, splitText size separators (document.text.getD "") = .ok pieces
      ∧ chunks = document.chunksOf shortId indexVersion "recursive"
          (locate (document.text.getD "") (fun stop => max (stop - overlap) stop) 0 pieces) := by
  unfold recursiveChunks at h
  extract_lets text at h
  split_ifs at h with htext
  · cases h
    exact .inl ⟨htext, rfl⟩
  · obtain ⟨pieces, hpieces, hchunks⟩ := ok_of_bind h
    cases hchunks
    exact .inr ⟨pieces, hpieces, rfl⟩

theorem numbered_recursiveChunks {document : Document} {indexVersion : String} {size overlap : ℤ}
    {chunks : List Chunk}
    (h : recursiveChunks shortId document indexVersion size overlap = .ok chunks) :
    Numbered shortId document.docId indexVersion chunks := by
  rcases recursiveChunks_cases h with ⟨-, rfl⟩ | ⟨pieces, -, rfl⟩
  · exact numbered_nil _ _
  · exact numbered_chunksOf document indexVersion "recursive" _

end Rag
