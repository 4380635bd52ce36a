import Rag.Lexical.Bm25Memory
import Rag.Lib.Runs
import Rag.Pipelines.Offline

/-!
What builds leave in the in-memory stores.

Both stores hold chunks under their ids and are written by the same chunks, so they are
treated alike (`Stores.held`). A build that returns has written exactly the chunks it
returns (`stores_after_run`), and no id is used twice exactly when no two documents of the
source that yield chunks share their id (`indexed_whole_iff`).
-/

namespace Rag

open Py Interaction

/-- The stores of one process. -/
structure Stores (K : Type) [Runtime] [Field K] where
  vectors : MemoryVectorStore K := {}
  lexical : Postings K := .empty

/-- The two indexes that hold chunks. -/
inductive Side where
  | vector
  | lexical

section Steps

variable {K : Type} [Runtime] [Field K]

/-- What one operation of a build does to the stores. -/
def Stores.step (s : Stores K) (e : BuildEvent K) : Stores K :=
  match e.op with
  | .vectorUpsert chunks vectors =>
      match s.vectors.upsert chunks vectors with
      | .ok written => { s with vectors := written }
      | .error _ => s
  | .lexicalUpsert chunks => { s with lexical := s.lexical.upsert chunks }
  | .setAlias aliasName version => { s with vectors := s.vectors.setAlias aliasName version }
  | _ => s

/-- An operation on the stores is answered by them. -/
def StoreAnswers (s : Stores K) : BuildEvent K → Prop
  | ⟨.vectorUpsert chunks vectors, r⟩ => r = (s.vectors.upsert chunks vectors).map fun _ => ()
  | ⟨.lexicalUpsert _, r⟩ => r = .ok ()
  | ⟨.setAlias _ _, r⟩ => r = .ok ()
  | _ => True

/-- The chunks an index holds, under their ids. -/
def Stores.held (s : Stores K) : Side → Dict String Chunk
  | .vector => s.vectors.items.mapValues Prod.fst
  | .lexical => s.lexical.tables.chunks

/-- How many chunks of a version an index holds. -/
def Stores.entries (s : Stores K) (side : Side) (version : String) : Nat :=
  (s.held side).values.countP (inVersion (some version))

/-- The chunks an operation writes to an index. Chunks and vectors of different number are
not written. -/
def writesOf (side : Side) : BuildOp K → Option (List Chunk)
  | .vectorUpsert chunks vectors => match side with
      | .vector => if chunks.length ≠ vectors.length then none else some chunks
      | .lexical => none
  | .lexicalUpsert chunks => match side with
      | .vector => none
      | .lexical => some chunks
  | _ => none

/-- An index changes only by what is written to it. -/
theorem held_step (s : Stores K) (e : BuildEvent K) (side : Side) :
    (s.step e).held side
      = (writesOf side e.op).elim (s.held side) ((s.held side).setAll Chunk.chunkId) := by
  obtain ⟨op, r⟩ := e
  cases op with
  | vectorUpsert chunks vectors =>
      by_cases hlength : chunks.length ≠ vectors.length
      · have hupsert : s.vectors.upsert chunks vectors
            = .error (valueError "chunks and vectors length mismatch") := if_pos hlength
        cases side <;> simp [Stores.step, hupsert, writesOf, hlength]
      · have hupsert : s.vectors.upsert chunks vectors = .ok _ := if_neg hlength
        cases side with
        | lexical => simp [Stores.step, hupsert, writesOf, Stores.held]
        | vector =>
            simp only [Stores.step, hupsert, writesOf, if_neg hlength, Option.elim_some,
              Stores.held]
            exact MemoryVectorStore.chunks_upsert hupsert
  | lexicalUpsert chunks =>
      cases side with
      | vector => rfl
      | lexical => exact Tables.chunks_foldl_put _ _
  | setAlias aliasName version => cases side <;> rfl
  | record entry => rfl
  | embed texts => rfl
  | registryActivate version => rfl

/-- An operation that writes to no index. -/
def Quiet (o : BuildOp K) : Prop := ∀ side, writesOf side o = none

theorem held_foldl_quiet {t : List (BuildEvent K)} (h : ∀ e ∈ t, Quiet e.op) (s : Stores K)
    (side : Side) : (t.foldl Stores.step s).held side = s.held side := by
  induction t generalizing s with
  | nil => rfl
  | cons e t ih =>
      have hhead := h e List.mem_cons_self side
      have htail := ih (fun e' he' => h e' (List.mem_cons_of_mem _ he')) (s.step e)
      rw [List.foldl_cons, htail, held_step, hhead]
      rfl

end Steps

section Runs

variable {K : Type} [Runtime] [Field K] [LinearOrder K] [Math K]
  {shortId : List String → String} {pipeline : OfflinePipeline K} {request : BuildRequest}

/-- What a build that returns has read, and what it has made of it. -/
structure Produced (shortId : List String → String) (pipeline : OfflinePipeline K)
    (request : BuildRequest) (docs : List Document) (pieces : List (List Chunk))
    (chunks : List Chunk) : Prop where
  parsed : pipeline.parsedDocuments request = .ok docs
  cut : docs.mapM (pipeline.cut request shortId) = .ok pieces
  stamped : chunks = pieces.flatten.map pipeline.stamp

/-- The only writes of a build: its chunks, to one index and then to the other. -/
def Writes (t : List (BuildEvent K)) (chunks : List Chunk) : Prop :=
  ∃ before writes after, t = before ++ (writes ++ after)
    ∧ (∀ e ∈ before, Quiet e.op) ∧ (∀ e ∈ after, Quiet e.op)
    ∧ (writes = [] ∧ chunks = [] ∨ ∃ vectors,
      writes = [⟨.vectorUpsert chunks vectors, .ok ()⟩, ⟨.lexicalUpsert chunks, .ok ()⟩])

omit [LinearOrder K] [Math K] in
/-- Both indexes then hold the chunks over what they held. -/
theorem Writes.held {t : List (BuildEvent K)} {chunks : List Chunk} (h : Writes t chunks)
    {s : Stores K} (hanswers : Run.EachStep Stores.step StoreAnswers s t) (side : Side) :
    (t.foldl Stores.step s).held side = (s.held side).setAll Chunk.chunkId chunks := by
  obtain ⟨before, writes, after, rfl, hbefore, hafter, hwrites⟩ := h
  rw [List.foldl_append, List.foldl_append, held_foldl_quiet hafter]
  rcases hwrites with ⟨rfl, rfl⟩ | ⟨vectors, rfl⟩
  · exact held_foldl_quiet hbefore s side
  · have hquiet := held_foldl_quiet hbefore s
    have hvector := ((Run.eachStep_append _ _).mp hanswers).2.1
    generalize before.foldl Stores.step s = s₁ at hquiet hvector
    change Except.ok () = (s₁.vectors.upsert chunks vectors).map _ at hvector
    cases hupsert : s₁.vectors.upsert chunks vectors with
    | error exn =>
        rw [hupsert] at hvector
        cases hvector
    | ok written =>
        simp only [List.foldl_cons, List.foldl_nil, Stores.step, hupsert]
        cases side with
        | vector =>
            rw [← hquiet .vector]
            exact MemoryVectorStore.chunks_upsert hupsert
        | lexical =>
            rw [← hquiet .lexical]
            exact Tables.chunks_foldl_put _ _

omit [Runtime] [Field K] [LinearOrder K] [Math K] in
theorem activate_quiet (version : String) :
    Prog.SpecE (fun _ _ => True) Quiet (pipeline.activate version) (fun _ => True)
      fun _ => True := by
  have hset : ∀ a v, Quiet (.setAlias a v : BuildOp K) := fun _ _ _ => rfl
  have hactivate : ∀ v, Quiet (.registryActivate v : BuildOp K) := fun _ _ => rfl
  unfold OfflinePipeline.activate
  simp only [Prog.specE_bind, Prog.specE_attempt]
  refine ⟨hset _ _, ?_⟩
  rintro (exn | _) -
  · trivial
  · refine ⟨hactivate _, ?_⟩
    rintro (exn | _) -
    · change Prog.SpecE _ _ (if exn.cls = .key then pure () else throw exn : Build K Unit) _ _
      split_ifs <;> trivial
    · trivial

omit [Runtime] [Field K] [LinearOrder K] [Math K] in
theorem publish_quiet (version : String) (chunks : List Chunk) :
    Prog.SpecE (fun _ _ => True) Quiet (pipeline.publish request version chunks)
      (fun _ => True) fun _ => True := by
  unfold OfflinePipeline.publish
  split_ifs
  · exact activate_quiet version
  · trivial

omit [Runtime] [Field K] [LinearOrder K] [Math K] in
theorem indexChunks_returns {cut chunks : List Chunk} {t : List (BuildEvent K)}
    (h : Prog.Runs (pipeline.indexChunks cut).run t (.ok chunks)) :
    chunks = cut.map pipeline.stamp ∧ ∃ before writes, t = before ++ writes
      ∧ (∀ e ∈ before, Quiet e.op) ∧ (writes = [] ∧ chunks = [] ∨ ∃ vectors,
        writes = [⟨.vectorUpsert chunks vectors, .ok ()⟩, ⟨.lexicalUpsert chunks, .ok ()⟩]) := by
  rw [OfflinePipeline.indexChunks] at h
  split_ifs at h with hempty
  · obtain ⟨rfl, hchunks⟩ := (Prog.runsE_pure_iff _ _ _).mp h
    cases hchunks
    rw [hempty]
    exact ⟨rfl, [], [], rfl, by simp, Or.inl ⟨rfl, rfl⟩⟩
  · rw [OfflinePipeline.embedAndIndex] at h
    obtain ⟨t₁, vectors, u, rfl, hembed, hafter⟩ := (Prog.runsE_bind_ok_iff _ _ _ _).mp h
    obtain rfl := (Prog.runs_perform_iff _ _ _).mp hembed
    obtain ⟨t₂, _, v, rfl, hwrite, hwritten⟩ := (Prog.runsE_bind_ok_iff _ _ _ _).mp hafter
    obtain rfl := (Prog.runs_perform_iff _ _ _).mp hwrite
    obtain ⟨t₃, _, w, rfl, hindex, hindexed⟩ := (Prog.runsE_bind_ok_iff _ _ _ _).mp hwritten
    obtain rfl := (Prog.runs_perform_iff _ _ _).mp hindex
    obtain ⟨rfl, hchunks⟩ := (Prog.runsE_pure_iff _ _ _).mp hindexed
    cases hchunks
    refine ⟨rfl, [⟨.embed _, .ok vectors⟩], _, rfl, ?_, Or.inr ⟨vectors, rfl⟩⟩
    intro e he side
    rw [List.mem_singleton] at he
    rw [he]
    rfl

/-- A build that returns has parsed and cut its source, has written the chunks it returns
and has recorded their number. -/
theorem run_returns {t : List (BuildEvent K)} {chunks : List Chunk}
    (h : Prog.Runs (pipeline.run request shortId).run t (.ok chunks)) :
    (∃ docs pieces, Produced shortId pipeline request docs pieces chunks) ∧ Writes t chunks
      ∧ ⟨.record (pipeline.builtEntry (pipeline.version request) chunks), .ok ()⟩ ∈ t := by
  have hrecord : ∀ entry : IndexVersion, Quiet (.record entry : BuildOp K) := fun _ _ => rfl
  rw [OfflinePipeline.run] at h
  obtain ⟨t₁, _, u, rfl, hbegin, hbegun⟩ := (Prog.runsE_bind_ok_iff _ _ _ _).mp h
  obtain rfl := (Prog.runs_perform_iff _ _ _).mp hbegin
  obtain ⟨t₂, docs, u, rfl, hparsed, hread⟩ := (Prog.runsE_bind_ok_iff _ _ _ _).mp hbegun
  obtain ⟨rfl, hdocs⟩ := (Prog.runsE_lift_iff _ _ _).mp hparsed
  obtain ⟨t₃, pieces, u, rfl, hcut, hpieced⟩ := (Prog.runsE_bind_ok_iff _ _ _ _).mp hread
  obtain ⟨rfl, hpieces⟩ := (Prog.runsE_lift_iff _ _ _).mp hcut
  obtain ⟨t₄, stamped, u, rfl, hindex, hindexed⟩ := (Prog.runsE_bind_ok_iff _ _ _ _).mp hpieced
  obtain ⟨hstamped, before, writes, rfl, hbefore, hwrites⟩ := indexChunks_returns hindex
  obtain ⟨t₅, _, u, rfl, hend, hended⟩ := (Prog.runsE_bind_ok_iff _ _ _ _).mp hindexed
  obtain rfl := (Prog.runs_perform_iff _ _ _).mp hend
  obtain ⟨t₆, _, u, rfl, hpublish, hpublished⟩ :=
    (Prog.runsE_bind_ok_iff _ _ _ _).mp hended
  obtain ⟨rfl, hchunks⟩ := (Prog.runsE_pure_iff _ _ _).mp hpublished
  cases hchunks
  have hspec : Prog.SpecE (fun _ _ => True) Quiet
      (pipeline.publish request (pipeline.version request) chunks) (fun _ => True)
      fun _ => True := publish_quiet _ chunks
  have hquiet := hspec.runs hpublish fun _ _ => trivial
  refine ⟨⟨docs, pieces, hdocs, hpieces, hstamped⟩,
    ⟨⟨.record (pipeline.registryEntry (pipeline.version request) "building"), .ok ()⟩ :: before,
      writes, ⟨.record (pipeline.builtEntry (pipeline.version request) chunks), .ok ()⟩ :: t₆,
      by simp, ?_, ?_, hwrites⟩, by simp⟩
  · intro e he
    rcases List.mem_cons.mp he with rfl | he
    · exact hrecord _
    · exact hbefore e he
  · intro e he
    rcases List.mem_cons.mp he with rfl | he
    · exact hrecord _
    · exact hquiet.1 e he

end Runs

section Ids

variable {K : Type} [Runtime] [Field K] [LinearOrder K] [Math K]
  {shortId : List String → String} {pipeline : OfflinePipeline K} {request : BuildRequest}

/-- `chunk_document` makes at least one chunk of the document. -/
def OfflinePipeline.yieldsChunks (pipeline : OfflinePipeline K) (request : BuildRequest)
    (shortId : List String → String) (document : Document) : Bool :=
  match pipeline.cut request shortId document with
  | .ok (_ :: _) => true
  | _ => false

omit [Runtime] [Field K] [LinearOrder K] [Math K] in
theorem mapM_forall₂ {α β : Type} {f : α → Except Exn β} {xs : List α} {ys : List β}
    (h : xs.mapM f = .ok ys) : List.Forall₂ (fun x y => f x = .ok y) xs ys := by
  induction xs generalizing ys with
  | nil =>
      cases h
      exact .nil
  | cons x xs ih =>
      rw [List.mapM_cons] at h
      obtain ⟨y, hy, hafter⟩ := ok_of_bind h
      obtain ⟨later, hlater, hys⟩ := ok_of_bind hafter
      cases hys
      exact .cons hy (ih hlater)

theorem cut_of_mapM {docs : List Document} {pieces : List (List Chunk)}
    (h : docs.mapM (pipeline.cut request shortId) = .ok pieces) {doc : Document}
    (hdoc : doc ∈ docs) : ∃ piece, pipeline.cut request shortId doc = .ok piece := by
  have hall := mapM_forall₂ h
  clear h
  induction hall with
  | nil => cases hdoc
  | cons hhead _ ih =>
      rcases List.mem_cons.mp hdoc with rfl | hdoc
      · exact ⟨_, hhead⟩
      · exact ih hdoc

theorem cut_numbered {document : Document} {chunks : List Chunk}
    (h : pipeline.cut request shortId document = .ok chunks) :
    Numbered shortId document.docId (pipeline.version request) chunks :=
  numbered_chunkDocument h

/-- A chunk of the build is a chunk of one of its documents. -/
theorem mem_flatten_cut {docs : List Document} {pieces : List (List Chunk)}
    (h : List.Forall₂ (fun doc piece => pipeline.cut request shortId doc = .ok piece) docs pieces)
    {chunk : Chunk} (hchunk : chunk ∈ pieces.flatten) :
    ∃ doc ∈ docs, ∃ piece, pipeline.cut request shortId doc = .ok piece ∧ chunk ∈ piece := by
  induction h with
  | nil => cases hchunk
  | cons hhead _ ih =>
      rcases List.mem_append.mp hchunk with hin | hin
      · exact ⟨_, List.mem_cons_self, _, hhead, hin⟩
      · obtain ⟨doc, hdoc, hpiece⟩ := ih hin
        exact ⟨doc, List.mem_cons_of_mem _ hdoc, hpiece⟩

theorem mem_flatten_of_cut {docs : List Document} {pieces : List (List Chunk)}
    (h : List.Forall₂ (fun doc piece => pipeline.cut request shortId doc = .ok piece) docs pieces)
    {doc : Document} (hdoc : doc ∈ docs) {piece : List Chunk}
    (hpiece : pipeline.cut request shortId doc = .ok piece) : piece ⊆ pieces.flatten := by
  induction h with
  | nil => cases hdoc
  | cons hhead _ ih =>
      rw [List.flatten_cons]
      rcases List.mem_cons.mp hdoc with rfl | hdoc
      · rw [hhead] at hpiece
        cases hpiece
        exact List.subset_append_left _ _
      · exact List.subset_append_of_subset_right _ (ih hdoc)

/-- Under a digest without collisions two chunks share their id only if two documents that
yield chunks share theirs. -/
theorem nodup_chunkIds_iff (hinj : Function.Injective shortId) {docs : List Document}
    {pieces : List (List Chunk)}
    (h : List.Forall₂ (fun doc piece => pipeline.cut request shortId doc = .ok piece) docs pieces) :
    (pieces.flatten.map Chunk.chunkId).Nodup
      ↔ ((docs.filter (pipeline.yieldsChunks request shortId)).map Document.docId).Nodup := by
  induction h with
  | nil => simp
  | @cons doc piece docs pieces hhead htail ih =>
      rw [List.flatten_cons, List.map_append]
      have hnumbered := cut_numbered hhead
      cases piece with
      | nil =>
          have hyields : pipeline.yieldsChunks request shortId doc = false := by
            rw [OfflinePipeline.yieldsChunks, hhead]
          rw [List.filter_cons_of_neg (by simp [hyields])]
          exact ih
      | cons first rest =>
          have hyields : pipeline.yieldsChunks request shortId doc = true := by
            rw [OfflinePipeline.yieldsChunks, hhead]
          rw [List.filter_cons_of_pos hyields, List.map_cons (f := Document.docId),
            List.nodup_append, List.nodup_cons, ih]
          have hfirst := hnumbered 0 first rfl
          constructor
          · rintro ⟨-, hrest, hdisjoint⟩
            refine ⟨?_, hrest⟩
            intro hmem
            obtain ⟨doc', hdoc', hsame⟩ := List.mem_map.mp hmem
            obtain ⟨hin, hyields'⟩ := List.mem_filter.mp hdoc'
            rw [OfflinePipeline.yieldsChunks] at hyields'
            split at hyields'
            · rename_i first' rest' hpiece
              have hfirst' := cut_numbered hpiece 0 first' rfl
              have hid := (hfirst.chunkId_inj hinj hfirst').mpr ⟨hsame.symm, rfl, rfl⟩
              have hlater := mem_flatten_of_cut htail hin hpiece List.mem_cons_self
              exact hdisjoint _ (List.mem_map_of_mem List.mem_cons_self) _
                (List.mem_map_of_mem hlater) hid
            · cases hyields'
          · rintro ⟨hdoc, hrest⟩
            refine ⟨hnumbered.nodup hinj, hrest, ?_⟩
            intro id hid id' hid' hsame
            obtain ⟨chunk, hchunk, rfl⟩ := List.mem_map.mp hid
            obtain ⟨chunk', hchunk', rfl⟩ := List.mem_map.mp hid'
            obtain ⟨doc', hdoc', piece', hpiece', hin'⟩ := mem_flatten_cut htail hchunk'
            obtain ⟨i, -, hi⟩ := hnumbered.mem hchunk
            obtain ⟨j, -, hj⟩ := (cut_numbered hpiece').mem hin'
            have hdocs := ((hi.chunkId_inj hinj hj).mp hsame).1
            apply hdoc
            have hyields' : pipeline.yieldsChunks request shortId doc' = true := by
              rw [OfflinePipeline.yieldsChunks, hpiece']
              cases piece' with
              | nil => cases hin'
              | cons => rfl
            rw [hdocs]
            exact List.mem_map_of_mem (List.mem_filter.mpr ⟨hdoc', hyields'⟩)

/-- The build has recorded as many chunks as each index holds of the version, and no two of
them have the same id. -/
structure IndexedWhole (t : List (BuildEvent K)) (version : String) (chunks : List Chunk) :
    Prop where
  recorded : ∃ entry : IndexVersion, ⟨.record entry, .ok ()⟩ ∈ t ∧ entry.version = version
    ∧ entry.status = "built" ∧ entry.chunkCount = chunks.length
  entries : ∀ side, (t.foldl Stores.step {}).entries side version = chunks.length
  distinct : (chunks.map Chunk.chunkId).Nodup

omit [LinearOrder K] [Math K] in
theorem held_empty (side : Side) : ({} : Stores K).held side = .empty := by
  cases side <;> rfl

/-- Every chunk of a build is of its version and carries an id of its own document. -/
theorem Produced.identified {docs : List Document} {pieces : List (List Chunk)}
    {chunks : List Chunk} (h : Produced shortId pipeline request docs pieces chunks)
    {chunk : Chunk} (hchunk : chunk ∈ chunks) :
    ∃ doc ∈ docs, ∃ piece, pipeline.cut request shortId doc = .ok piece ∧
      ∃ i, i < piece.length ∧ Identified shortId chunk doc.docId (pipeline.version request) i := by
  rw [h.stamped] at hchunk
  obtain ⟨old, hold, rfl⟩ := List.mem_map.mp hchunk
  obtain ⟨doc, hdoc, piece, hpiece, hin⟩ := mem_flatten_cut (mapM_forall₂ h.cut) hold
  obtain ⟨i, hi, hidentified⟩ := (cut_numbered hpiece).mem hin
  exact ⟨doc, hdoc, piece, hpiece, i, hi, hidentified.docId_eq, hidentified.ordinal_eq,
    hidentified.indexVersion_eq, hidentified.chunkId_eq⟩

theorem Produced.nodup_iff (hinj : Function.Injective shortId) {docs : List Document}
    {pieces : List (List Chunk)} {chunks : List Chunk}
    (h : Produced shortId pipeline request docs pieces chunks) :
    (chunks.map Chunk.chunkId).Nodup
      ↔ ((docs.filter (pipeline.yieldsChunks request shortId)).map Document.docId).Nodup := by
  have hids : chunks.map Chunk.chunkId = pieces.flatten.map Chunk.chunkId := by
    rw [h.stamped, List.map_map]
    rfl
  rw [hids]
  exact nodup_chunkIds_iff hinj (mapM_forall₂ h.cut)

/-- Into empty stores a build writes one entry for every id. -/
theorem Produced.entries_eq {docs : List Document} {pieces : List (List Chunk)}
    {chunks : List Chunk} (h : Produced shortId pipeline request docs pieces chunks)
    {t : List (BuildEvent K)} (hwrites : Writes t chunks)
    (hanswers : Run.EachStep Stores.step StoreAnswers {} t) (side : Side) :
    (t.foldl Stores.step {}).entries side (pipeline.version request)
      = (Dict.index Chunk.chunkId chunks).items.length := by
  have hheld := hwrites.held hanswers side
  rw [held_empty] at hheld
  rw [Stores.entries, hheld]
  have hall : ∀ chunk ∈ (Dict.index Chunk.chunkId chunks).values,
      inVersion (some (pipeline.version request)) chunk = true := by
    intro chunk hchunk
    obtain ⟨doc, -, piece, -, i, -, hidentified⟩ := h.identified (Dict.mem_values_index hchunk)
    simp [inVersion, hidentified.indexVersion_eq]
  have hcount := List.countP_eq_length.mpr hall
  rw [Dict.values, List.length_map] at hcount
  exact hcount

/-- Over empty stores a build that returns leaves every chunk in both indexes exactly when
no two documents that yield chunks have the same id. -/
theorem indexed_whole_iff (hinj : Function.Injective shortId) {t : List (BuildEvent K)}
    {chunks : List Chunk} (hrun : Prog.Runs (pipeline.run request shortId).run t (.ok chunks))
    (hanswers : Run.EachStep Stores.step StoreAnswers {} t) {docs : List Document}
    (hdocs : pipeline.parsedDocuments request = .ok docs) :
    IndexedWhole t (pipeline.version request) chunks
      ↔ ((docs.filter (pipeline.yieldsChunks request shortId)).map Document.docId).Nodup := by
  obtain ⟨⟨docs', pieces, hproduced⟩, hwrites, hrecorded⟩ := run_returns hrun
  have hsame : docs' = docs := by
    have hparsed := hproduced.parsed
    rw [hdocs] at hparsed
    cases hparsed
    rfl
  subst hsame
  rw [← hproduced.nodup_iff hinj]
  constructor
  · intro h
    exact h.distinct
  · intro h
    refine ⟨⟨_, hrecorded, rfl, rfl, rfl⟩, ?_, h⟩
    intro side
    rw [hproduced.entries_eq hwrites hanswers side]
    exact (Dict.length_index_eq_iff _ _).mpr h

end Ids

section Answers

variable {K : Type} [Runtime] [Field K]

/-- The stores answer; the embedder is given and the registry is written. -/
def Stores.answer (embedder : List String → Except Exn (List (List K))) (s : Stores K) :
    (o : BuildOp K) → BuildResp o
  | .vectorUpsert chunks vectors => (s.vectors.upsert chunks vectors).map fun _ => ()
  | .embed texts => embedder texts
  | .record _ => .ok ()
  | .lexicalUpsert _ => .ok ()
  | .setAlias _ _ => .ok ()
  | .registryActivate _ => .ok ()

/-- The environment a build finds over the stores `s`. -/
def Stores.env (embedder : List String → Except Exn (List (List K))) (s : Stores K) :
    Prog.Env (BuildOp K) BuildResp :=
  fun history o => (history.foldl Stores.step s).answer embedder o

theorem answer_answers (embedder : List String → Except Exn (List (List K))) (s : Stores K)
    (o : BuildOp K) : StoreAnswers s ⟨o, s.answer embedder o⟩ := by
  cases o with
  | vectorUpsert chunks vectors => rfl
  | lexicalUpsert chunks => rfl
  | setAlias aliasName version => rfl
  | record entry => trivial
  | embed texts => trivial
  | registryActivate version => trivial

theorem exec_answers {α : Type} (embedder : List String → Except Exn (List (List K)))
    (s : Stores K) (p : Prog (BuildOp K) BuildResp α) (history : List (BuildEvent K)) :
    Run.EachStep Stores.step StoreAnswers (history.foldl Stores.step s)
      (p.exec (s.env embedder) history).1 := by
  induction p generalizing history with
  | ret a => trivial
  | call o k ih =>
      refine ⟨answer_answers embedder _ o, ?_⟩
      have hrest := ih (s.env embedder history o) (history ++ [⟨o, s.env embedder history o⟩])
      rw [List.foldl_append] at hrest
      exact hrest

end Answers

/-- An embedder that gives every text the same vector. -/
def flatEmbedder (texts : List String) : Except Exn (List (List ℚ)) :=
  .ok (texts.map fun _ => [1])

/-- The trace of a build over the stores it finds, under ids that spell their parts out. -/
def buildTrace [Runtime] [Math ℚ] (pipeline : OfflinePipeline ℚ) (s : Stores ℚ)
    (request : BuildRequest) : List (BuildEvent ℚ) :=
  (pipeline.run request spelledOut).run.trace (s.env flatEmbedder)

def buildResult [Runtime] [Math ℚ] (pipeline : OfflinePipeline ℚ) (s : Stores ℚ)
    (request : BuildRequest) : Except Exn (List Chunk) :=
  (pipeline.run request spelledOut).run.result (s.env flatEmbedder)

section Traces

variable [Runtime] [Math ℚ] (pipeline : OfflinePipeline ℚ) (s : Stores ℚ)
  (request : BuildRequest)

theorem buildTrace_answers :
    Run.EachStep Stores.step StoreAnswers s (buildTrace pipeline s request) :=
  exec_answers flatEmbedder s _ []

theorem buildTrace_runs : Prog.Runs (pipeline.run request spelledOut).run
    (buildTrace pipeline s request) (buildResult pipeline s request) :=
  Prog.runs_trace (s.env flatEmbedder) (pipeline.run request spelledOut).run

end Traces

/-- Two files of one name in two folders. -/
def twoFolders : BuildRequest where
  files := (Dict.empty.set ["docs", "a", "x.txt"] (.file "1" (some "one"))).set
    ["docs", "b", "x.txt"] (.file "2" (some "two"))
  source := ["docs"]

/-- Nothing is redacted. -/
def plainPipeline : OfflinePipeline ℚ where
  settings := { piiRedactionEnabled := false }

theorem twoFolders_returns :
    let _ := Runtime.ascii
    let _ := unitMath
    ∃ chunks, buildResult plainPipeline {} twoFolders = .ok chunks ∧ chunks.length = 2 := by
  intro _ _
  exact ok_of_toOption (by decide +kernel)

theorem indexed_whole_iff_twoFolders :
    let _ := Runtime.ascii
    let _ := unitMath
    ∃ chunks docs, plainPipeline.parsedDocuments twoFolders = .ok docs
      ∧ (IndexedWhole (buildTrace plainPipeline {} twoFolders) "v1" chunks
        ↔ ((docs.filter (plainPipeline.yieldsChunks twoFolders spelledOut)).map
          Document.docId).Nodup) := by
  intro _ _
  obtain ⟨chunks, hresult, -⟩ := twoFolders_returns
  obtain ⟨docs, hdocs, -⟩ : ∃ docs, plainPipeline.parsedDocuments twoFolders = .ok docs
      ∧ docs.length = 2 := ok_of_toOption (by decide +kernel)
  have hrun := buildTrace_runs plainPipeline {} twoFolders
  rw [hresult] at hrun
  exact ⟨chunks, docs, hdocs, indexed_whole_iff spelledOut_injective hrun
    (buildTrace_answers plainPipeline {} twoFolders) hdocs⟩

/-- The second file overwrites the first in both indexes, for their chunks have one id. -/
theorem namesake_overwritten :
    ¬ ∀ (_ : Runtime) (_ : Math ℚ) (shortId : List String → String)
      (pipeline : OfflinePipeline ℚ) (request : BuildRequest) (t : List (BuildEvent ℚ))
      (chunks : List Chunk), Function.Injective shortId →
      Prog.Runs (pipeline.run request shortId).run t (.ok chunks) →
      Run.EachStep Stores.step StoreAnswers {} t →
      IndexedWhole t (pipeline.version request) chunks := by
  intro h
  obtain ⟨chunks, hresult, -⟩ := twoFolders_returns
  let _ := Runtime.ascii
  let _ := unitMath
  have hrun := buildTrace_runs plainPipeline {} twoFolders
  rw [hresult] at hrun
  have hwhole := h Runtime.ascii unitMath spelledOut plainPipeline twoFolders _ chunks
    spelledOut_injective hrun (buildTrace_answers plainPipeline {} twoFolders)
  -- both files have the stem `x`, so the ids of their chunks are the same
  obtain ⟨docs, hdocs, hsame⟩ : ∃ docs, plainPipeline.parsedDocuments twoFolders = .ok docs
      ∧ (docs.filter (plainPipeline.yieldsChunks twoFolders spelledOut)).map Document.docId
        = ["x", "x"] := ok_of_toOption (by decide +kernel)
  obtain ⟨⟨docs', pieces, hproduced⟩, -, -⟩ := run_returns hrun
  have hparsed := hproduced.parsed
  rw [hdocs] at hparsed
  cases hparsed
  have hdistinct := (hproduced.nodup_iff spelledOut_injective).mp hwhole.distinct
  rw [hsame] at hdistinct
  exact absurd hdistinct (by decide)

end Rag
