import Rag.Pipelines.Indexing

/-!
What re-indexing a source leaves of its earlier revisions.

Over any history of builds every stored chunk carries the id of its document, its number and
its version (`Labelled`). A build overwrites the numbers it reaches and nothing else, so what
remains of an earlier revision are the numbers from there on (`replaced_iff`).
-/

namespace Rag

open Py Interaction

section Labels

variable {K : Type} [Runtime] [Field K]

/-- Chunks stand under their ids, and the ids are made of what they identify. -/
structure Labelled (shortId : List String → String) (s : Stores K) : Prop where
  keyed : ∀ side, (s.held side).KeyedBy Chunk.chunkId
  identified : ∀ side, ∀ chunk ∈ (s.held side).values,
    ∃ i, Identified shortId chunk chunk.docId chunk.indexVersion i

/-- The operation writes identified chunks of one version only. -/
def WritesOf (shortId : List String → String) (version : String) (o : BuildOp K) : Prop :=
  ∀ side chunks, writesOf side o = some chunks →
    ∀ chunk ∈ chunks, ∃ i, Identified shortId chunk chunk.docId version i

variable {shortId : List String → String} {s : Stores K}

theorem labelled_empty : Labelled shortId ({} : Stores K) := by
  constructor
  · intro side
    rw [held_empty]
    exact Dict.keyedBy_empty
  · intro side chunk hchunk
    rw [held_empty] at hchunk
    cases hchunk

/-- An operation of a build keeps the labels. -/
theorem Labelled.step (h : Labelled shortId s) {e : BuildEvent K} {version : String}
    (hwrites : WritesOf shortId version e.op) : Labelled shortId (s.step e) := by
  constructor
  · intro side
    rw [held_step]
    cases writesOf side e.op with
    | none => exact h.keyed side
    | some chunks => exact (h.keyed side).setAll chunks
  · intro side chunk hchunk
    rw [held_step] at hchunk
    cases hop : writesOf side e.op with
    | none =>
        rw [hop] at hchunk
        exact h.identified side chunk hchunk
    | some chunks =>
      rw [hop] at hchunk
      rcases (h.keyed side).mem_setAll_iff.mp hchunk with hnew | ⟨hold, -⟩
      · obtain ⟨i, hi⟩ := hwrites side chunks hop chunk (Dict.mem_values_index hnew)
        rw [← hi.indexVersion_eq] at hi
        exact ⟨i, hi⟩
      · exact h.identified side chunk hold

theorem Labelled.foldl (h : Labelled shortId s) {t : List (BuildEvent K)} {version : String}
    (hwrites : ∀ e ∈ t, WritesOf shortId version e.op) :
    Labelled shortId (t.foldl Stores.step s) := by
  induction t generalizing s with
  | nil => exact h
  | cons e t ih =>
      exact ih (h.step (hwrites e List.mem_cons_self))
        fun e' he' => hwrites e' (List.mem_cons_of_mem _ he')

end Labels

section Builds

variable {K : Type} [Runtime] [Field K] [LinearOrder K] [Math K]
  {shortId : List String → String} {pipeline : OfflinePipeline K} {request : BuildRequest}
  {s : Stores K}

omit [Runtime] [Field K] [LinearOrder K] [Math K] in
theorem WritesOf.of_quiet {version : String} {o : BuildOp K} (h : Quiet o) :
    WritesOf shortId version o := by
  intro side chunks hwrites
  rw [h side] at hwrites
  cases hwrites

omit [Runtime] [Field K] [LinearOrder K] [Math K] in
theorem WritesOf.of_quiet_spec {version : String} {α : Type} {p : Build K α}
    (h : Prog.SpecE (fun _ _ => True) Quiet p (fun _ => True) fun _ => True) :
    Prog.SpecE (fun _ _ => True) (WritesOf shortId version) p (fun _ => True) fun _ => True :=
  Prog.Spec.strengthen h (fun _ _ _ ho => ho) fun _ ho => WritesOf.of_quiet ho

omit [Runtime] [Field K] [LinearOrder K] [Math K] in
theorem indexChunks_writes {version : String} {cut : List Chunk}
    (hcut : ∀ chunk ∈ cut, ∃ i, Identified shortId chunk chunk.docId version i) :
    Prog.SpecE (fun _ _ => True) (WritesOf shortId version) (pipeline.indexChunks cut)
      (fun _ => True) fun _ => True := by
  have hstamped : ∀ chunk ∈ cut.map pipeline.stamp,
      ∃ i, Identified shortId chunk chunk.docId version i := by
    intro chunk hchunk
    obtain ⟨old, hold, rfl⟩ := List.mem_map.mp hchunk
    obtain ⟨i, hi⟩ := hcut old hold
    exact ⟨i, rfl, hi.ordinal_eq, hi.indexVersion_eq, hi.chunkId_eq⟩
  have hvector : ∀ vectors, WritesOf shortId version
      (.vectorUpsert (cut.map pipeline.stamp) vectors : BuildOp K) := by
    intro vectors side chunks hwrites
    cases side with
    | lexical => cases hwrites
    | vector =>
        rw [writesOf] at hwrites
        split_ifs at hwrites
        cases hwrites
        exact hstamped
  have hlexical : WritesOf shortId version
      (.lexicalUpsert (cut.map pipeline.stamp) : BuildOp K) := by
    intro side chunks hwrites
    cases side with
    | vector => cases hwrites
    | lexical =>
        cases hwrites
        exact hstamped
  unfold OfflinePipeline.indexChunks OfflinePipeline.embedAndIndex
  split_ifs
  · trivial
  · simp only [Prog.specE_bind]
    refine ⟨WritesOf.of_quiet fun _ => rfl, ?_⟩
    rintro (exn | vectors) -
    · trivial
    · refine ⟨hvector vectors, ?_⟩
      rintro (exn | _) -
      · trivial
      · refine ⟨hlexical, ?_⟩
        rintro (exn | _) - <;> trivial

/-- A build writes chunks of its own version only. -/
theorem run_writes : Prog.SpecE (fun _ _ => True)
    (WritesOf shortId (pipeline.version request)) (pipeline.run request shortId)
    (fun _ => True) fun _ => True := by
  have hrecord : ∀ entry : IndexVersion, WritesOf shortId (pipeline.version request)
      (.record entry : BuildOp K) := fun _ => WritesOf.of_quiet fun _ => rfl
  unfold OfflinePipeline.run
  simp only [Prog.specE_bind, Prog.specE_lift]
  refine ⟨hrecord _, ?_⟩
  rintro (exn | _) -
  · trivial
  · cases hdocs : pipeline.parsedDocuments request with
    | error exn => trivial
    | ok docs =>
        dsimp only
        cases hpieces : docs.mapM (pipeline.cut request shortId) with
        | error exn => trivial
        | ok pieces =>
            have hcut : ∀ chunk ∈ pieces.flatten,
                ∃ i, Identified shortId chunk chunk.docId (pipeline.version request) i := by
              intro chunk hchunk
              obtain ⟨doc, -, piece, hpiece, hin⟩ :=
                mem_flatten_cut (mapM_forall₂ hpieces) hchunk
              obtain ⟨i, -, hi⟩ := (cut_numbered hpiece).mem hin
              rw [← hi.docId_eq] at hi
              exact ⟨i, hi⟩
            refine (indexChunks_writes hcut).mono ?_ fun _ h => h
            intro chunks _
            refine ⟨hrecord _, ?_⟩
            rintro (exn | _) -
            · trivial
            · have hpublish : Prog.SpecE (fun _ _ => True) Quiet
                  (pipeline.publish request (pipeline.version request) chunks) (fun _ => True)
                  fun _ => True := publish_quiet _ chunks
              exact (WritesOf.of_quiet_spec hpublish).mono (fun _ _ => trivial) fun _ h => h

theorem Labelled.after (h : Labelled shortId s) {t : List (BuildEvent K)}
    {rest : Prog (BuildOp K) BuildResp (Except Exn (List Chunk))}
    (hrun : Prog.Steps (pipeline.run request shortId).run t rest) :
    Labelled shortId (t.foldl Stores.step s) :=
  h.foldl (run_writes.steps hrun fun _ _ => trivial).1

/-- What earlier builds have left, each of them complete or cut short at any point. -/
inductive AfterBuilds (shortId : List String → String) : Stores K → Prop
  | opened : AfterBuilds shortId {}
  | build {s : Stores K} {pipeline : OfflinePipeline K} {request : BuildRequest}
      {t : List (BuildEvent K)} {rest : Prog (BuildOp K) BuildResp (Except Exn (List Chunk))}
      (h : AfterBuilds shortId s) (hrun : Prog.Steps (pipeline.run request shortId).run t rest)
      (hanswers : Run.EachStep Stores.step StoreAnswers s t) :
      AfterBuilds shortId (t.foldl Stores.step s)

theorem AfterBuilds.labelled (h : AfterBuilds shortId s) : Labelled shortId s := by
  induction h with
  | opened => exact labelled_empty
  | build _ hrun _ ih => exact ih.after hrun

end Builds

section Replaced

variable {K : Type} [Runtime] [Field K] [LinearOrder K] [Math K]
  {shortId : List String → String} {pipeline : OfflinePipeline K} {request : BuildRequest}
  {s : Stores K}

/-- Both indexes hold of the document, under the version, exactly what is in `chunks`. -/
def Replaced (s : Stores K) (docId version : String) (chunks : List Chunk) : Prop :=
  ∀ side chunk,
    (chunk ∈ (s.held side).values ∧ chunk.docId = docId ∧ chunk.indexVersion = version)
      ↔ chunk ∈ chunks ∧ chunk.docId = docId

/-- An index holds a chunk of the document, under the version of the build, with a number the
document as it is now does not reach. -/
def Outlived (s : Stores K) (pipeline : OfflinePipeline K) (request : BuildRequest)
    (shortId : List String → String) (doc : Document) : Prop :=
  ∃ side old piece, old ∈ (s.held side).values ∧ old.docId = doc.docId
    ∧ old.indexVersion = pipeline.version request
    ∧ pipeline.cut request shortId doc = .ok piece ∧ (piece.length : ℤ) ≤ old.ordinal

omit [Field K] [LinearOrder K] [Math K] in
theorem redact_docId (doc : Document) : (pipeline.redact doc).docId = doc.docId := by
  rw [OfflinePipeline.redact]
  split
  · split_ifs <;> rfl
  · rfl

omit [Field K] [LinearOrder K] [Math K] in
/-- Parsing drops documents and keeps the ids of the others. -/
theorem parse_docIds {files docs : List Document} (h : pipeline.parse files = .ok docs) :
    (docs.map Document.docId).Sublist (files.map Document.docId) := by
  induction files generalizing docs with
  | nil =>
      cases h
      exact .slnil
  | cons file files ih =>
      rw [OfflinePipeline.parse] at h
      cases hparsed : parseDocument pipeline.readPdf file with
      | error exn =>
          rw [hparsed] at h
          dsimp only at h
          split_ifs at h
          exact (ih h).cons _
      | ok parsed =>
          rw [hparsed] at h
          obtain ⟨later, hlater, hdocs⟩ := ok_of_bind h
          cases hdocs
          have hid : (pipeline.redact parsed).docId = file.docId :=
            (redact_docId parsed).trans (parseDocument_docId hparsed)
          rw [List.map_cons, List.map_cons, hid]
          exact (ih hlater).cons_cons _

omit [Field K] [LinearOrder K] [Math K] in
theorem parsedDocuments_distinct {docs : List Document}
    (hfiles : ∀ files, OfflinePipeline.ingest request = .ok files →
      (files.map Document.docId).Nodup)
    (h : pipeline.parsedDocuments request = .ok docs) : (docs.map Document.docId).Nodup := by
  rw [OfflinePipeline.parsedDocuments] at h
  obtain ⟨files, hingest, hparsed⟩ := ok_of_bind h
  exact (hfiles files hingest).sublist (parse_docIds hparsed)

/-- Among documents with distinct ids an earlier chunk is overwritten exactly when its
document still reaches its number. -/
theorem Produced.overwrites_iff (hinj : Function.Injective shortId) {docs : List Document}
    {pieces : List (List Chunk)} {chunks : List Chunk}
    (h : Produced shortId pipeline request docs pieces chunks)
    (hdistinct : (docs.map Document.docId).Nodup) {doc : Document} (hdoc : doc ∈ docs)
    {piece : List Chunk} (hpiece : pipeline.cut request shortId doc = .ok piece) {old : Chunk}
    {i : Nat} (hold : Identified shortId old doc.docId (pipeline.version request) i) :
    old.chunkId ∈ chunks.map Chunk.chunkId ↔ i < piece.length := by
  constructor
  · intro hmem
    obtain ⟨chunk, hchunk, hid⟩ := List.mem_map.mp hmem
    obtain ⟨doc', hdoc', piece', hpiece', j, hj, hidentified⟩ := h.identified hchunk
    obtain ⟨hsame, rfl, -⟩ := (hidentified.chunkId_inj hinj hold).mp hid
    have hdocs : doc' = doc := List.inj_on_of_nodup_map hdistinct hdoc' hdoc hsame
    rw [hdocs, hpiece] at hpiece'
    cases hpiece'
    exact hj
  · intro hi
    have hget := List.getElem?_eq_getElem hi
    have hnew := cut_numbered hpiece i _ hget
    have hin := mem_flatten_of_cut (mapM_forall₂ h.cut) hdoc hpiece (List.getElem_mem hi)
    rw [(hold.chunkId_inj hinj hnew).mpr ⟨rfl, rfl, rfl⟩, h.stamped, List.map_map]
    exact List.mem_map_of_mem (f := Chunk.chunkId ∘ pipeline.stamp) hin

/-- After any history, a build that returns replaces a document exactly when no index holds
a chunk of it with a number that it no longer reaches. -/
theorem replaced_iff (hinj : Function.Injective shortId) (hbefore : AfterBuilds shortId s)
    {t : List (BuildEvent K)} {chunks : List Chunk}
    (hrun : Prog.Runs (pipeline.run request shortId).run t (.ok chunks))
    (hanswers : Run.EachStep Stores.step StoreAnswers s t)
    (hfiles : ∀ files, OfflinePipeline.ingest request = .ok files →
      (files.map Document.docId).Nodup)
    {docs : List Document} (hdocs : pipeline.parsedDocuments request = .ok docs) :
    ∀ doc ∈ docs, Replaced (t.foldl Stores.step s) doc.docId (pipeline.version request) chunks
      ↔ ¬ Outlived s pipeline request shortId doc := by
  intro doc hdoc
  obtain ⟨⟨docs', pieces, hproduced⟩, hwrites, -⟩ := run_returns hrun
  have hsame : docs' = docs := by
    have hparsed := hproduced.parsed
    rw [hdocs] at hparsed
    cases hparsed
    rfl
  subst hsame
  have hdistinct := parsedDocuments_distinct hfiles hdocs
  have hnodup : (chunks.map Chunk.chunkId).Nodup :=
    (hproduced.nodup_iff hinj).mpr (hdistinct.sublist (List.filter_sublist.map _))
  have hlabelled := hbefore.labelled
  have hheld : ∀ side chunk, chunk ∈ ((t.foldl Stores.step s).held side).values
      ↔ chunk ∈ chunks ∨ chunk ∈ (s.held side).values
        ∧ chunk.chunkId ∉ chunks.map Chunk.chunkId := by
    intro side chunk
    rw [hwrites.held hanswers side, (hlabelled.keyed side).mem_setAll_iff,
      Dict.mem_index_iff hnodup]
  obtain ⟨piece, hpiece⟩ := cut_of_mapM hproduced.cut hdoc
  constructor
  · rintro h ⟨side, old, piece', hold, holdDoc, holdVersion, hpiece', hordinal⟩
    rw [hpiece] at hpiece'
    cases hpiece'
    obtain ⟨i, hi⟩ := hlabelled.identified side old hold
    rw [holdDoc, holdVersion] at hi
    have hout : old.chunkId ∉ chunks.map Chunk.chunkId := by
      rw [hproduced.overwrites_iff hinj hdistinct hdoc hpiece hi]
      rw [hi.ordinal_eq] at hordinal
      omega
    have hstays := (hheld side old).mpr (Or.inr ⟨hold, hout⟩)
    have hnew := ((h side old).mp ⟨hstays, holdDoc, holdVersion⟩).1
    exact hout (List.mem_map_of_mem hnew)
  · intro hreached side chunk
    rw [hheld]
    constructor
    · rintro ⟨hnew | ⟨hold, hout⟩, hchunkDoc, hchunkVersion⟩
      · exact ⟨hnew, hchunkDoc⟩
      · exfalso
        apply hreached
        obtain ⟨i, hi⟩ := hlabelled.identified side chunk hold
        rw [hchunkDoc, hchunkVersion] at hi
        rw [hproduced.overwrites_iff hinj hdistinct hdoc hpiece hi] at hout
        refine ⟨side, chunk, piece, hold, hchunkDoc, hchunkVersion, hpiece, ?_⟩
        rw [hi.ordinal_eq]
        omega
    · rintro ⟨hnew, hchunkDoc⟩
      obtain ⟨_, _, _, _, _, _, hidentified⟩ := hproduced.identified hnew
      exact ⟨Or.inl hnew, hchunkDoc, hidentified.indexVersion_eq⟩

end Replaced

/-- Windows of four characters. -/
def narrowPipeline : OfflinePipeline ℚ where
  settings := { piiRedactionEnabled := false }
  chunking := { strategies := Dict.empty.set "text/plain" { size := 4, overlap := 0 } }

/-- A source of one file. -/
def oneFile (text : String) : BuildRequest where
  files := Dict.empty.set ["docs", "x.txt"] (.file "1" (some text))
  source := ["docs"]

/-- What the build of a text of two windows leaves. -/
def afterLonger [Runtime] [Math ℚ] : Stores ℚ :=
  (buildTrace narrowPipeline {} (oneFile "abcdef")).foldl Stores.step {}

theorem afterLonger_reached [Runtime] [Math ℚ] : AfterBuilds spelledOut afterLonger :=
  .build .opened (buildTrace_runs narrowPipeline {} (oneFile "abcdef"))
    (buildTrace_answers narrowPipeline {} (oneFile "abcdef"))

theorem shorter_returns :
    let _ := Runtime.ascii
    let _ := unitMath
    ∃ chunks docs doc, buildResult narrowPipeline afterLonger (oneFile "abc") = .ok chunks
      ∧ chunks.map Chunk.ordinal = [0] ∧ narrowPipeline.parsedDocuments (oneFile "abc") = .ok docs ∧ doc ∈ docs
      ∧ doc.docId = "x" := by
  intro _ _
  obtain ⟨chunks, hresult, hordinals⟩ : ∃ chunks,
      buildResult narrowPipeline afterLonger (oneFile "abc") = .ok chunks
        ∧ chunks.map Chunk.ordinal = [0] := ok_of_toOption (by decide +kernel)
  obtain ⟨docs, hdocs, hids⟩ : ∃ docs, narrowPipeline.parsedDocuments (oneFile "abc") = .ok docs
      ∧ docs.map Document.docId = ["x"] := ok_of_toOption (by decide +kernel)
  obtain ⟨doc, hdoc, hid⟩ := List.mem_map.mp (hids ▸ List.mem_singleton_self "x")
  exact ⟨chunks, docs, doc, hresult, hordinals, hdocs, hdoc, hid⟩

theorem oneFile_distinct :
    let _ := Runtime.ascii
    ∀ files, OfflinePipeline.ingest (oneFile "abc") = .ok files →
      (files.map Document.docId).Nodup := by
  intro _ files hfiles
  obtain ⟨files', hfiles', hids⟩ : ∃ files, OfflinePipeline.ingest (oneFile "abc") = .ok files
      ∧ files.map Document.docId = ["x"] := ok_of_toOption (by decide +kernel)
  rw [hfiles] at hfiles'
  cases hfiles'
  rw [hids]
  exact List.nodup_singleton "x"

theorem replaced_iff_shorter :
    let _ := Runtime.ascii
    let _ := unitMath
    ∃ chunks docs, narrowPipeline.parsedDocuments (oneFile "abc") = .ok docs
      ∧ ∀ doc ∈ docs, Replaced ((buildTrace narrowPipeline afterLonger (oneFile "abc")).foldl
          Stores.step afterLonger) doc.docId "v1" chunks
        ↔ ¬ Outlived afterLonger narrowPipeline (oneFile "abc") spelledOut doc := by
  intro _ _
  obtain ⟨chunks, docs, -, hresult, -, hdocs, -⟩ := shorter_returns
  have hrun := buildTrace_runs narrowPipeline afterLonger (oneFile "abc")
  rw [hresult] at hrun
  exact ⟨chunks, docs, hdocs, replaced_iff spelledOut_injective afterLonger_reached hrun
    (buildTrace_answers narrowPipeline afterLonger (oneFile "abc")) oneFile_distinct hdocs⟩

/-- The second window of the longer text is still held. -/
theorem shorter_revision_leaves_residue :
    ¬ ∀ (_ : Runtime) (_ : Math ℚ) (shortId : List String → String)
      (pipeline : OfflinePipeline ℚ) (request : BuildRequest) (s : Stores ℚ)
      (t : List (BuildEvent ℚ)) (chunks : List Chunk) (docs : List Document),
      Function.Injective shortId → AfterBuilds shortId s →
      Prog.Runs (pipeline.run request shortId).run t (.ok chunks) →
      Run.EachStep Stores.step StoreAnswers s t →
      (∀ files, OfflinePipeline.ingest request = .ok files →
        (files.map Document.docId).Nodup) →
      pipeline.parsedDocuments request = .ok docs →
      ∀ doc ∈ docs,
        Replaced (t.foldl Stores.step s) doc.docId (pipeline.version request) chunks := by
  intro h
  let _ := Runtime.ascii
  let _ := unitMath
  obtain ⟨chunks, docs, doc, hresult, hordinals, hdocs, hdoc, hid⟩ := shorter_returns
  have hrun := buildTrace_runs narrowPipeline afterLonger (oneFile "abc")
  rw [hresult] at hrun
  have hreplaced := h Runtime.ascii unitMath spelledOut narrowPipeline (oneFile "abc") afterLonger
    _ chunks docs spelledOut_injective afterLonger_reached hrun
    (buildTrace_answers narrowPipeline afterLonger (oneFile "abc")) oneFile_distinct hdocs doc hdoc
  have hheld : (((buildTrace narrowPipeline afterLonger (oneFile "abc")).foldl Stores.step
      afterLonger).held .vector).values.any (fun chunk => chunk.docId = "x"
        && chunk.indexVersion = "v1" && chunk.ordinal = 1) = true := by
    decide +kernel
  obtain ⟨chunk, hchunk, hlabel⟩ := List.any_eq_true.mp hheld
  simp only [Bool.and_eq_true, decide_eq_true_eq] at hlabel
  rw [hid] at hreplaced
  have hnew := ((hreplaced .vector chunk).mp ⟨hchunk, hlabel.1⟩).1
  have hordinal := List.mem_map_of_mem (f := Chunk.ordinal) hnew
  rw [hordinals, hlabel.2, List.mem_singleton] at hordinal
  exact absurd hordinal (by decide)

end Rag
