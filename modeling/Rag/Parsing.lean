import Rag.Errors
import Rag.Lib.Dict
import Rag.Schemas

/-!
`rag.parsing`: normalized text from a document, by mime type.

A pattern is given by how many characters it matches at a position (`subMatches`). PDF
extraction is a third-party library and enters as a parameter.
-/

namespace Rag

open Py

/-- `re.sub`: `matchLength` is the length of the match at a position, zero for none; `skip`
characters belong to the match that has just been replaced. -/
def subMatches (matchLength : List Char → Nat) (replacement : List Char) :
    Nat → List Char → List Char
  | _, [] => []
  | skip + 1, _ :: text => subMatches matchLength replacement skip text
  | 0, c :: text =>
      match matchLength (c :: text) with
      | 0 => c :: subMatches matchLength replacement 0 text
      | skip + 1 => replacement ++ subMatches matchLength replacement skip text

/-- A lower case letter under `re.I`; `i` and `s` have matches outside ASCII. -/
def foldsTo (letter c : Char) : Bool :=
  c.toLower = letter || (letter = 'i' && (c.toNat = 0x130 || c.toNat = 0x131))
    || (letter = 's' && c.toNat = 0x17f)

/-- `text` begins with `word`, which is in lower case. -/
def startsWithFold : List Char → List Char → Bool
  | [], _ => true
  | _ :: _, [] => false
  | letter :: word, c :: text => foldsTo letter c && startsWithFold word text

/-- Where `word` begins for the first time. -/
def firstFold (word : List Char) : List Char → Option Nat
  | [] => if word = [] then some 0 else none
  | c :: text =>
      if startsWithFold word (c :: text) then some 0 else (firstFold word text).map (· + 1)

/-- `<tag[\s\S]*?</tag>` under `re.I` -/
def elementLength (tag : String) (text : List Char) : Nat :=
  let opening := '<' :: tag.toList
  let closing := '<' :: '/' :: tag.toList ++ ['>']
  if startsWithFold opening text then
    match firstFold closing (text.drop opening.length) with
    | some i => opening.length + i + closing.length
    | none => 0
  else 0

/-- `<[^>]+>` -/
def tagLength : List Char → Nat
  | '<' :: text =>
      let inner := (text.takeWhile (· ≠ '>')).length
      if inner = 0 ∨ inner = text.length then 0 else inner + 2
  | _ => 0

/-- `\n{3,}` -/
def blankLength (text : List Char) : Nat :=
  let newlines := (text.takeWhile (· = '\n')).length
  if 3 ≤ newlines then newlines else 0

/-- Collapse 3+ newlines to a paragraph break, preserving structure. -/
def collapseBlankLines (text : String) : String :=
  String.ofList (subMatches blankLength ['\n', '\n'] 0 (strip text).toList)

/-- The four substitutions of `HtmlParser`. -/
def stripHtml (text : String) : String :=
  let text := subMatches (elementLength "script") [' '] 0 text.toList
  let text := subMatches (elementLength "style") [' '] 0 text
  let text := subMatches tagLength [' '] 0 text
  strip (collapse (String.ofList text))

/-- `document.model_copy(update={"text": text, "metadata": {**document.metadata, "parser": ..}})`
-/
def Document.parsedAs (document : Document) (text : Option String) (parser : String) : Document :=
  { document with
    text := text
    metadata := Items.assign "parser" (.str parser) document.metadata }

def parseText (document : Document) : Except Exn Document :=
  match document.text with
  | none => .error (valueError ("No text available for " ++ document.docId))
  | some text => .ok (document.parsedAs (some (strip text)) "text")

def parseMarkdown (document : Document) : Except Exn Document :=
  match document.text with
  | none => .error (valueError ("No text available for " ++ document.docId))
  | some text => .ok (document.parsedAs (some (collapseBlankLines text)) "markdown")

def parseHtml (document : Document) : Except Exn Document :=
  match document.text with
  | none => .error (valueError ("No text available for " ++ document.docId))
  | some text => .ok (document.parsedAs (some (stripHtml text)) "html")

/-- `readPdf` is the text of the pages of the file at a path. -/
def parsePdf [Runtime] (readPdf : String → Except Exn (List String)) (document : Document) :
    Except Exn Document :=
  let path := Json.lookup document.metadata "path"
  match path.filter Json.truthy with
  | none =>
      match document.text with
      | none => .error (valueError ("no path or text available for " ++ document.docId))
      | some text => .ok (document.parsedAs (some text) "pdf-passthrough")
  | some path => do
      let pages ← readPdf path.toStr
      let text := join "\n\n" ((pages.map strip).filter (· ≠ ""))
      let parsed := document.parsedAs (some text) "pdf"
      pure { parsed with
        metadata := Items.assign "page_count" (.int pages.length) parsed.metadata }

def parseDocument [Runtime] (readPdf : String → Except Exn (List String)) (document : Document) :
    Except Exn Document :=
  if document.mimeType = "text/plain" ∨ document.mimeType = "application/json" then
    parseText document
  else if document.mimeType = "text/markdown" then parseMarkdown document
  else if document.mimeType = "text/html" then parseHtml document
  else if document.mimeType = "application/pdf" then parsePdf readPdf document
  else .error (keyError ("No parser for mime type: " ++ document.mimeType))

/-- A parser rewrites the text and the metadata of a document. -/
theorem parseDocument_docId [Runtime] {readPdf : String → Except Exn (List String)}
    {document parsed : Document} (h : parseDocument readPdf document = .ok parsed) :
    parsed.docId = document.docId := by
  unfold parseDocument at h
  split_ifs at h
  · rw [parseText] at h
    cases htext : document.text <;> rw [htext] at h <;> cases h
    rfl
  · rw [parseMarkdown] at h
    cases htext : document.text <;> rw [htext] at h <;> cases h
    rfl
  · rw [parseHtml] at h
    cases htext : document.text <;> rw [htext] at h <;> cases h
    rfl
  · unfold parsePdf at h
    extract_lets path at h
    split at h
    · cases htext : document.text <;> rw [htext] at h <;> cases h
      rfl
    · rename_i path' hpath
      cases hpages : readPdf path'.toStr with
      | error exn =>
          rw [hpages] at h
          cases h
      | ok pages =>
          rw [hpages] at h
          cases h
          rfl

end Rag
