import Rag.Chunking.Recursive

/-!
`rag.chunking.markdown_aware`: split on headings, then recursively within sections.
-/

namespace Rag

open Py

/-- `#{1,6}\s` at the beginning of the text -/
def isHeading (text : List Char) : Bool :=
  let level := (text.takeWhile (· = '#')).length
  1 ≤ level && level ≤ 6 && (text.drop level).head?.any isSpace

/-- `re.split(r"(?=^#{1,6}\s)", text, flags=re.M)` -/
def splitHeadings : Bool → List Char → List (List Char)
  | _, [] => [[]]
  | lineStart, c :: text =>
      let sections := consFirst c (splitHeadings (c = '\n') text)
      if lineStart && isHeading (c :: text) then [] :: sections else sections

/-- The sections that are not blank. -/
def markdownSections (text : String) : List String :=
  ((splitHeadings true text.toList).map String.ofList).filter fun s => strip s ≠ ""

/-- The pieces of all sections, in order. -/
def sectionPieces (size : ℤ) : List String → Except Exn (List String)
  | [] => .ok []
  | s :: rest => do
      let pieces ← if s.length ≤ size then .ok [s] else splitText size separators s
      let later ← sectionPieces size rest
      pure (pieces ++ later)

variable (shortId : List String → String)

/-- A piece is located as it was cut and stored stripped. -/
def markdownChunks (document : Document) (indexVersion : String) (size overlap : ℤ) :
    Except Exn (List Chunk) :=
  let text := document.text.getD ""
  if text = "" then .ok []
  else
    let sections := markdownSections text
    if sections = [] then recursiveChunks shortId document indexVersion size overlap
    else do
      let pieces ← sectionPieces size sections
      let located := (locate text id 0 pieces).map fun piece =>
        { piece with text := strip piece.text }
      pure (document.chunksOf shortId indexVersion "markdown_aware" located)

variable {shortId}

/-- What a successful call has done. -/
theorem markdownChunks_cases {document : Document} {indexVersion : String} {size overlap : ℤ}
    {chunks : List Chunk}
    (h : markdownChunks shortId document indexVersion size overlap = .ok chunks) :
    document.text.getD "" = "" ∧ chunks = []
    ∨ markdownSections (document.text.getD "") = []
      ∧ recursiveChunks shortId document indexVersion size overlap = .ok chunks
    ∨ ∃ pieces, sectionPieces size (markdownSections (document.text.getD "")) = .ok pieces
      ∧ chunks = document.chunksOf shortId indexVersion "markdown_aware"
          ((locate (document.text.getD "") id 0 pieces).map fun piece =>
            { piece with text := strip piece.text }) := by
  unfold markdownChunks at h
  extract_lets text sections at h
  split_ifs at h with htext hsections
  · cases h
    exact .inl ⟨htext, rfl⟩
  · exact .inr (.inl ⟨hsections, h⟩)
  · obtain ⟨pieces, hpieces, hchunks⟩ := ok_of_bind h
    cases hchunks
    exact .inr (.inr ⟨pieces, hpieces, rfl⟩)

theorem numbered_markdownChunks {document : Document} {indexVersion : String} {size overlap : ℤ}
    {chunks : List Chunk}
    (h : markdownChunks shortId document indexVersion size overlap = .ok chunks) :
    Numbered shortId document.docId indexVersion chunks := by
  rcases markdownChunks_cases h with ⟨-, rfl⟩ | ⟨-, h⟩ | ⟨pieces, -, rfl⟩
  · exact numbered_nil _ _
  · exact numbered_recursiveChunks h
  · exact numbered_chunksOf document indexVersion "markdown_aware" _

end Rag
