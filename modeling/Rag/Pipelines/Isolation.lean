import Rag.Pipelines.Indexing

/-!
What a document that does not parse costs a build.

The parsers are those of a registry, by mime type; the repository's own are `defaultRegistry`. A
document is skipped when its parser raises a `KeyError` or a `ValueError`. Any other exception
ends the build, so it is isolated exactly when no parser raises one (`parse_isolates_iff`).
-/

namespace Rag

open Py Interaction

abbrev Parser : Type := Document → Except Exn Document

/-- `REGISTRY: dict[str, Parser]` -/
abbrev ParserRegistry : Type := Dict String Parser

section Registry

variable [Runtime]

def getParser (registry : ParserRegistry) (mimeType : String) : Except Exn Parser :=
  match registry.get? mimeType with
  | some parser => .ok parser
  | none => .error (keyError ("No parser for mime type: " ++ mimeType))

/-- `parse_document` over the parsers of a registry. -/
def parseRegistered (registry : ParserRegistry) (document : Document) : Except Exn Document := do
  let parser ← getParser registry document.mimeType
  parser document

/-- The parsers that come with the repository. -/
def parsers (readPdf : String → Except Exn (List String)) : List (List String × Parser) :=
  [(["text/plain", "application/json"], parseText), (["text/markdown"], parseMarkdown),
    (["text/html"], parseHtml), (["application/pdf"], parsePdf readPdf)]

def defaultRegistry (readPdf : String → Except Exn (List String)) : ParserRegistry :=
  (parsers readPdf).foldl (fun registry entry =>
    entry.1.foldl (fun registry mime => registry.set mime entry.2) registry) Dict.empty

theorem parseRegistered_default (readPdf : String → Except Exn (List String))
    (document : Document) :
    parseRegistered (defaultRegistry readPdf) document = parseDocument readPdf document := by
  simp only [parseRegistered, getParser, defaultRegistry, parsers, List.foldl_cons,
    List.foldl_nil, Dict.get?_set, parseDocument]
  split_ifs <;> simp_all <;> rfl

end Registry

namespace OfflinePipeline

variable {K : Type} [Runtime] (registry : ParserRegistry) (pipeline : OfflinePipeline K)
  (request request' : BuildRequest)

/-- `_parse` over the parsers of a registry. -/
def parseWith : List Document → Except Exn (List Document)
  | [] => .ok []
  | doc :: docs =>
      match parseRegistered registry doc with
      | .error exn => if exn.cls = .key ∨ exn.cls = .value then parseWith docs else .error exn
      | .ok parsed => do
          let later ← parseWith docs
          pure (pipeline.redact parsed :: later)

variable [Field K] [LinearOrder K] [Math K] (shortId : List String → String)

/-- `run` over the parsers of a registry. -/
def runWith : Build K (List Chunk) := do
  let version := pipeline.version request
  let _ ← ExceptT.mk (BuildOp.ask (K := K) (.record (pipeline.registryEntry version "building")))
  let docs ← (ingest request >>= pipeline.parseWith registry : Except Exn (List Document))
  let pieces ← (docs.mapM (pipeline.cut request shortId) : Except Exn (List (List Chunk)))
  let allChunks ← pipeline.indexChunks pieces.flatten
  let _ ← ExceptT.mk (BuildOp.ask (K := K) (.record (pipeline.builtEntry version allChunks)))
  pipeline.publish request version allChunks
  pure allChunks

omit [Field K] [LinearOrder K] [Math K] in
theorem parseWith_default (docs : List Document) :
    pipeline.parseWith (defaultRegistry pipeline.readPdf) docs = pipeline.parse docs := by
  induction docs with
  | nil => rfl
  | cons doc docs ih =>
      have hdoc := parseRegistered_default pipeline.readPdf doc
      cases hparsed : parseDocument pipeline.readPdf doc with
      | error exn => simp only [parseWith, parse, hdoc, hparsed, ih]
      | ok parsed => simp only [parseWith, parse, hdoc, hparsed, ih]

/-- Over the repository's own parsers this is the build. -/
theorem runWith_default :
    pipeline.runWith (defaultRegistry pipeline.readPdf) request shortId
      = pipeline.run request shortId := by
  have hparse : pipeline.parseWith (defaultRegistry pipeline.readPdf) = pipeline.parse :=
    funext pipeline.parseWith_default
  unfold runWith run parsedDocuments
  rw [hparse]

/-- The exceptions `_parse` catches. -/
def Caught (exn : Exn) : Prop := exn.cls = .key ∨ exn.cls = .value

instance (exn : Exn) : Decidable (Caught exn) := inferInstanceAs (Decidable (_ ∨ _))

/-- Whatever a parser raises on the documents is caught. -/
def RaisesCaught (docs : List Document) : Prop :=
  ∀ doc ∈ docs, ∀ exn, parseRegistered registry doc = .error exn → Caught exn

/-- The parser of the document does not raise. -/
def parses (doc : Document) : Bool := (parseRegistered registry doc).isOk

/-- What the documents that parse become. -/
def survivors (docs : List Document) : List Document :=
  (docs.filterMap fun doc => (parseRegistered registry doc).toOption).map pipeline.redact

variable {registry pipeline} {docs : List Document} {doc : Document}

omit [Field K] [LinearOrder K] [Math K] in
theorem parseWith_of_error {exn : Exn} (h : parseRegistered registry doc = .error exn) :
    pipeline.parseWith registry (doc :: docs)
      = if Caught exn then pipeline.parseWith registry docs else .error exn := by
  simp only [parseWith, h]
  rfl

omit [Field K] [LinearOrder K] [Math K] in
theorem parseWith_of_ok {parsed : Document} (h : parseRegistered registry doc = .ok parsed) :
    pipeline.parseWith registry (doc :: docs)
      = (pipeline.parseWith registry docs).map (pipeline.redact parsed :: ·) := by
  simp only [parseWith, h]
  cases pipeline.parseWith registry docs <;> rfl

theorem raisesCaught_cons : RaisesCaught registry (doc :: docs)
    ↔ (∀ exn, parseRegistered registry doc = .error exn → Caught exn)
      ∧ RaisesCaught registry docs := List.forall_mem_cons

omit [Field K] [LinearOrder K] [Math K] in
/-- `_parse` completes exactly when all that is raised is caught, and then returns what parses. -/
theorem parseWith_ok_iff {parsed : List Document} :
    pipeline.parseWith registry docs = .ok parsed
      ↔ RaisesCaught registry docs ∧ parsed = pipeline.survivors registry docs := by
  induction docs generalizing parsed with
  | nil =>
      constructor
      · intro h
        cases h
        exact ⟨fun _ hin => (by cases hin), rfl⟩
      · rintro ⟨-, rfl⟩
        rfl
  | cons doc docs ih =>
      rw [raisesCaught_cons]
      cases hdoc : parseRegistered registry doc with
      | error exn =>
          have hskip : pipeline.survivors registry (doc :: docs)
              = pipeline.survivors registry docs := by
            simp [survivors, hdoc, Except.toOption]
          rw [parseWith_of_error hdoc, hskip]
          split_ifs with hcaught
          · rw [ih]
            simp [hcaught]
          · simp [hcaught]
      | ok first =>
          have hkeep : pipeline.survivors registry (doc :: docs)
              = pipeline.redact first :: pipeline.survivors registry docs := by
            simp [survivors, hdoc, Except.toOption]
          rw [parseWith_of_ok hdoc, hkeep]
          cases hrest : pipeline.parseWith registry docs with
          | error exn =>
              refine iff_of_false (fun h => by cases h) ?_
              rintro ⟨⟨-, hcaught⟩, -⟩
              have hok := ih.mpr ⟨hcaught, rfl⟩
              rw [hrest] at hok
              cases hok
          | ok later =>
              obtain ⟨hcaught, rfl⟩ := ih.mp hrest
              simp [Except.map, hcaught, eq_comm]

omit [Field K] [LinearOrder K] [Math K] in
theorem survivors_filter :
    pipeline.survivors registry (docs.filter (parses registry))
      = pipeline.survivors registry docs := by
  rw [survivors, survivors, List.filterMap_filter]
  congr 2
  funext doc
  cases hdoc : parseRegistered registry doc <;> simp [parses, hdoc, Except.toOption, Except.isOk,
    Except.toBool]

omit [Field K] [LinearOrder K] [Math K] in
theorem raisesCaught_filter : RaisesCaught registry (docs.filter (parses registry)) := by
  intro doc hdoc exn hraised
  have hparses := (List.mem_filter.mp hdoc).2
  rw [parses, hraised] at hparses
  cases hparses

variable (registry pipeline docs)

/-- A bad document costs one document: `_parse` returns what it returns without the documents
that fail, and a build over them is a build over a source without those. -/
structure Isolates : Prop where
  parsed : ∃ parsed, pipeline.parseWith registry docs = .ok parsed
    ∧ pipeline.parseWith registry (docs.filter (parses registry)) = .ok parsed
  indexed : ∀ (request request' : BuildRequest) (shortId : List String → String),
    ingest request = .ok docs → ingest request' = .ok (docs.filter (parses registry)) →
    request'.indexVersion = request.indexVersion → request'.activate = request.activate →
    pipeline.runWith registry request' shortId = pipeline.runWith registry request shortId

/-- Failing documents are isolated exactly when no parser raises on them what is not caught. -/
theorem parse_isolates_iff : pipeline.Isolates registry docs ↔ RaisesCaught registry docs := by
  constructor
  · rintro ⟨⟨parsed, hparsed, -⟩, -⟩
    exact (parseWith_ok_iff.mp hparsed).1
  · intro h
    have hwhole : pipeline.parseWith registry docs = .ok (pipeline.survivors registry docs) :=
      parseWith_ok_iff.mpr ⟨h, rfl⟩
    have hrest : pipeline.parseWith registry (docs.filter (parses registry))
        = .ok (pipeline.survivors registry docs) :=
      parseWith_ok_iff.mpr ⟨raisesCaught_filter, survivors_filter.symm⟩
    refine ⟨⟨_, hwhole, hrest⟩, ?_⟩
    intro request request' shortId hdocs hdocs' hversion hactivate
    have hsame : (ingest request' >>= pipeline.parseWith registry)
        = (ingest request >>= pipeline.parseWith registry) := by
      rw [hdocs, hdocs']
      exact hrest.trans hwhole.symm
    have hcut : pipeline.cut request' shortId = pipeline.cut request shortId := by
      funext document
      rw [cut, cut, version, version, hversion]
    unfold runWith publish
    rw [hsame, hcut, version, version, hversion, hactivate]

end OfflinePipeline

/-- What the PDF library raises on a file it cannot read. -/
def pdfReadError : Exn := ⟨.other, "PdfReadError", "EOF marker not found"⟩

def brokenPdf : Document where
  docId := "broken"
  sourceUri := "file:///docs/broken.pdf"
  mimeType := "application/pdf"
  checksum := "1"
  acl := { tenant := "acme" }
  metadata := [("path", .str "/docs/broken.pdf")]

/-- A PDF that the library cannot read ends the build. -/
theorem broken_pdf_aborts :
    ¬ ∀ (_ : Runtime) (_ : Math ℚ) (registry : ParserRegistry) (pipeline : OfflinePipeline ℚ)
      (docs : List Document), pipeline.Isolates registry docs := by
  intro h
  let _ := Runtime.ascii
  let _ := unitMath
  obtain ⟨parsed, hparsed, -⟩ := (h Runtime.ascii unitMath
    (defaultRegistry fun _ => .error pdfReadError) plainPipeline [brokenPdf]).parsed
  have hcaught := (OfflinePipeline.parseWith_ok_iff.mp hparsed).1 brokenPdf
    (List.mem_singleton_self _) pdfReadError
    ((parseRegistered_default _ brokenPdf).trans (by rfl))
  exact absurd hcaught (by decide)

end Rag
