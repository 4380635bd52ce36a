import Rag.Lib.Pool
import Rag.Pipelines.Reindexing

/-!
What readers see while builds are running.

Any number of builds and promotions run interleaved over the in-memory stores, and a reader
may look between any two operations. What it can retrieve changes at an alias flip and
otherwise exactly when a build writes under the version readers are on, and thereby adds or
replaces something (`readers_undisturbed_iff`).
-/

namespace Rag

open Py Interaction

/-- A job over the stores. -/
inductive Job (K : Type) where
  | build (pipeline : OfflinePipeline K) (request : BuildRequest)
  | activate (pipeline : OfflinePipeline K) (version : String)

/-- The operation moves an alias. -/
def BuildOp.flipsAlias {K : Type} : BuildOp K → Bool
  | .setAlias _ _ => true
  | _ => false

section Readers

variable {K : Type} [Runtime] [Field K]

/-- How the stores take an operation. -/
def StoreCell (s : Stores K) (_ : List (BuildEvent K)) (o : BuildOp K) (r : BuildResp o)
    (s' : Stores K) : Prop :=
  StoreAnswers s ⟨o, r⟩ ∧ s' = s.step ⟨o, r⟩

/-- `active_index_version()` of a reader. -/
def OnlinePipeline.readsVersion (reader : OnlinePipeline) (s : Stores K) : String :=
  reader.versionOf (s.vectors.resolveAlias reader.settings.collectionAlias)

/-- The chunk is in one of the indexes. -/
def Stores.Has (s : Stores K) (chunk : Chunk) : Prop := ∃ side, chunk ∈ (s.held side).values

/-- A scan for the version a reader resolves does not skip the chunk. -/
def OnlinePipeline.Live (reader : OnlinePipeline) (s : Stores K) (chunk : Chunk) : Prop :=
  inVersion (some (reader.readsVersion s)) chunk = true

/-- The chunks a reader can retrieve under the version it resolves. -/
def retrievable (reader : OnlinePipeline) (s : Stores K) : Set Chunk :=
  { chunk | reader.Live s chunk ∧ s.Has chunk }

/-- Of the version a reader resolves, the operation writes only what is held already, and
overwrites only what it writes again or what the other index holds too. -/
def Unnoticed (reader : OnlinePipeline) (s : Stores K) (o : BuildOp K) : Prop :=
  ∀ side chunks, writesOf side o = some chunks →
    (∀ chunk ∈ (Dict.index Chunk.chunkId chunks).values, reader.Live s chunk → s.Has chunk)
    ∧ ∀ chunk ∈ (s.held side).values, reader.Live s chunk →
      chunk.chunkId ∈ chunks.map Chunk.chunkId →
        chunk ∈ (Dict.index Chunk.chunkId chunks).values
          ∨ ∃ other, other ≠ side ∧ chunk ∈ (s.held other).values

variable {reader : OnlinePipeline} {s : Stores K} {e : BuildEvent K}

theorem resolveAlias_step (h : e.op.flipsAlias = false) (aliasName : String) :
    (s.step e).vectors.resolveAlias aliasName = s.vectors.resolveAlias aliasName := by
  obtain ⟨op, r⟩ := e
  cases op with
  | setAlias name version => cases h
  | vectorUpsert chunks vectors =>
      simp only [Stores.step]
      cases hupsert : s.vectors.upsert chunks vectors with
      | error exn => rfl
      | ok written =>
          rw [MemoryVectorStore.upsert] at hupsert
          split_ifs at hupsert
          cases hupsert
          rfl
  | _ => rfl

/-- Without a flip readers stay on their version. -/
theorem live_step (h : e.op.flipsAlias = false) (chunk : Chunk) :
    reader.Live (s.step e) chunk ↔ reader.Live s chunk := by
  rw [OnlinePipeline.Live, OnlinePipeline.Live, OnlinePipeline.readsVersion,
    OnlinePipeline.readsVersion, resolveAlias_step h]

/-- An operation that writes to one index leaves the other. -/
theorem held_other {side other : Side} {chunks : List Chunk}
    (h : writesOf side e.op = some chunks) (hne : other ≠ side) :
    (s.step e).held other = s.held other := by
  have hnone : writesOf other e.op = none := by
    obtain ⟨op, r⟩ := e
    cases op with
    | vectorUpsert _ _ =>
        cases side with
        | lexical => cases h
        | vector =>
            cases other with
            | vector => exact absurd rfl hne
            | lexical => rfl
    | lexicalUpsert _ =>
        cases side with
        | vector => cases h
        | lexical =>
            cases other with
            | vector => rfl
            | lexical => exact absurd rfl hne
    | record _ => cases h
    | embed _ => cases h
    | setAlias _ _ => cases h
    | registryActivate _ => cases h
  rw [held_step, hnone]
  rfl

/-- What a write to one index leaves in the stores. -/
theorem has_step (hkeyed : ∀ side, (s.held side).KeyedBy Chunk.chunkId) {side : Side}
    {chunks : List Chunk} (h : writesOf side e.op = some chunks) (chunk : Chunk) :
    (s.step e).Has chunk ↔ chunk ∈ (Dict.index Chunk.chunkId chunks).values
      ∨ (chunk ∈ (s.held side).values ∧ chunk.chunkId ∉ chunks.map Chunk.chunkId)
      ∨ ∃ other, other ≠ side ∧ chunk ∈ (s.held other).values := by
  have hside : (s.step e).held side = (s.held side).setAll Chunk.chunkId chunks := by
    rw [held_step, h]
    rfl
  constructor
  · rintro ⟨other, hin⟩
    by_cases hsame : other = side
    · rw [hsame, hside, (hkeyed side).mem_setAll_iff, or_comm] at hin
      rcases hin with hold | hnew
      · exact Or.inr (Or.inl hold)
      · exact Or.inl hnew
    · rw [held_other h hsame] at hin
      exact Or.inr (Or.inr ⟨other, hsame, hin⟩)
  · rintro (hnew | hold | ⟨other, hne, hin⟩)
    · refine ⟨side, ?_⟩
      rw [hside, (hkeyed side).mem_setAll_iff]
      exact Or.inl hnew
    · refine ⟨side, ?_⟩
      rw [hside, (hkeyed side).mem_setAll_iff]
      exact Or.inr hold
    · refine ⟨other, ?_⟩
      rw [held_other h hne]
      exact hin

/-- What a step that is no flip does to what readers see. -/
theorem retrievable_step_iff (hkeyed : ∀ side, (s.held side).KeyedBy Chunk.chunkId)
    (h : e.op.flipsAlias = false) :
    retrievable reader (s.step e) = retrievable reader s ↔ Unnoticed reader s e.op := by
  have hset : retrievable reader (s.step e) = retrievable reader s
      ↔ ∀ chunk, reader.Live s chunk → ((s.step e).Has chunk ↔ s.Has chunk) := by
    rw [Set.ext_iff]
    apply forall_congr'
    intro chunk
    change (reader.Live (s.step e) chunk ∧ _ ↔ _) ↔ _
    rw [live_step h]
    exact and_congr_right_iff
  rw [hset]
  constructor
  · intro hsame side chunks hwrites
    constructor
    · intro chunk hnew hlive
      exact (hsame chunk hlive).mp ((has_step hkeyed hwrites chunk).mpr (Or.inl hnew))
    · intro chunk hold hlive hid
      rcases (has_step hkeyed hwrites chunk).mp ((hsame chunk hlive).mpr ⟨side, hold⟩) with
        hnew | ⟨-, hout⟩ | hother
      · exact Or.inl hnew
      · exact absurd hid hout
      · exact Or.inr hother
  · intro hquiet chunk hlive
    by_cases hwrites : ∃ side chunks, writesOf side e.op = some chunks
    · obtain ⟨side, chunks, hwrites⟩ := hwrites
      obtain ⟨hadded, hreplaced⟩ := hquiet side chunks hwrites
      rw [has_step hkeyed hwrites]
      constructor
      · rintro (hnew | ⟨hold, -⟩ | ⟨other, -, hin⟩)
        · exact hadded chunk hnew hlive
        · exact ⟨side, hold⟩
        · exact ⟨other, hin⟩
      · rintro ⟨other, hin⟩
        by_cases hsame : other = side
        · rw [hsame] at hin
          by_cases hid : chunk.chunkId ∈ chunks.map Chunk.chunkId
          · rcases hreplaced chunk hin hlive hid with hnew | hother
            · exact Or.inl hnew
            · exact Or.inr (Or.inr hother)
          · exact Or.inr (Or.inl ⟨hin, hid⟩)
        · exact Or.inr (Or.inr ⟨other, hsame, hin⟩)
    · push Not at hwrites
      have hheld : ∀ side, (s.step e).held side = s.held side := by
        intro side
        have hnone := Option.eq_none_iff_forall_ne_some.mpr (hwrites side)
        rw [held_step, hnone]
        rfl
      simp only [Stores.Has, hheld]

end Readers

section Jobs

variable {K : Type} [Runtime] [Field K] [LinearOrder K] [Math K]
  {shortId : List String → String} {ι : Type} [DecidableEq ι]

/-- What a job runs. -/
def Job.program (shortId : List String → String) :
    Job K → Prog (BuildOp K) BuildResp (Except Exn Unit)
  | .build pipeline request => (do
      let _ ← pipeline.run request shortId
      pure () : Build K Unit).run
  | .activate pipeline version => (pipeline.activate version).run

/-- The version a job builds or promotes. -/
def Job.version : Job K → String
  | .build pipeline request => pipeline.version request
  | .activate _ version => version

/-- Jobs over empty stores. -/
def startJobs (shortId : List String → String) (jobs : ι → Job K) :
    Pool (BuildOp K) BuildResp ι (Stores K) (Except Exn Unit) :=
  .start {} fun i => (jobs i).program shortId

/-- The interleavings of jobs over the stores, which nothing else touches. -/
abbrev JobPath (shortId : List String → String) (jobs : ι → Job K)
    (steps : List (Pool.Transition (BuildOp K) BuildResp ι (Stores K)))
    (q : Pool (BuildOp K) BuildResp ι (Stores K) (Except Exn Unit)) : Prop :=
  Pool.Path StoreCell (fun _ _ => False) (startJobs shortId jobs) steps q

omit [DecidableEq ι] in
/-- A job writes identified chunks of its version. -/
theorem program_writes (job : Job K) :
    Prog.Spec (fun _ _ => True) (WritesOf shortId job.version) (job.program shortId)
      fun _ => True := by
  cases job with
  | build pipeline request =>
      have hbuild : Prog.SpecE (fun _ _ => True) (WritesOf shortId (pipeline.version request))
          (do
            let _ ← pipeline.run request shortId
            pure () : Build K Unit) (fun _ => True) fun _ => True := by
        rw [Prog.specE_bind]
        exact run_writes.mono (fun _ _ => trivial) fun _ h => h
      exact Prog.Spec.mono hbuild fun _ _ => trivial
  | activate pipeline version =>
      have hquiet : Prog.SpecE (fun _ _ => True) Quiet (pipeline.activate (K := K) version)
          (fun _ => True) fun _ => True := activate_quiet version
      exact Prog.Spec.mono (WritesOf.of_quiet_spec hquiet) fun _ _ => trivial

variable {jobs : ι → Job K} {steps : List (Pool.Transition (BuildOp K) BuildResp ι (Stores K))}
  {q : Pool (BuildOp K) BuildResp ι (Stores K) (Except Exn Unit)}

/-- In every state on the way the stores are labelled, and every operation writes chunks of
the version of its job. -/
theorem JobPath.transitions (h : JobPath shortId jobs steps q) :
    ∀ step ∈ steps, Labelled shortId step.before
      ∧ WritesOf shortId (jobs step.who).version step.event.op
      ∧ step.after = step.before.step step.event := by
  have hall := Pool.Path.transitions (J := Labelled shortId) (A := fun _ _ => True)
    (G := fun i => WritesOf shortId (jobs i).version) (Q := fun _ _ => True)
    (fun _ _ _ _ _ _ hlabelled hwrites hcell => ⟨trivial, hcell.2 ▸ hlabelled.step hwrites⟩)
    (fun _ _ _ h => h.elim) labelled_empty (fun i => program_writes (jobs i)) h
  intro step hstep
  obtain ⟨hlabelled, hwrites, t, hcell⟩ := hall step hstep
  exact ⟨hlabelled, hwrites, hcell.2⟩

/-- In every run of jobs, readers see a change only at an alias flip exactly when no other
step adds or replaces something under the version they are on. -/
theorem readers_undisturbed_iff (reader : OnlinePipeline) (h : JobPath shortId jobs steps q) :
    (∀ step ∈ steps, step.event.op.flipsAlias = true
        ∨ retrievable reader step.after = retrievable reader step.before)
      ↔ ∀ step ∈ steps, step.event.op.flipsAlias = true
        ∨ Unnoticed reader step.before step.event.op := by
  apply forall_congr'
  intro step
  apply imp_congr_right
  intro hstep
  obtain ⟨hlabelled, -, hafter⟩ := h.transitions step hstep
  cases hflip : step.event.op.flipsAlias with
  | true => simp
  | false =>
      rw [hafter, retrievable_step_iff hlabelled.keyed hflip]

/-- Under a digest without collisions a job of another version than the one readers are on
goes unnoticed. -/
theorem other_version_unnoticed (hinj : Function.Injective shortId) (reader : OnlinePipeline)
    (h : JobPath shortId jobs steps q) :
    ∀ step ∈ steps, reader.readsVersion step.before ≠ "" →
      (jobs step.who).version ≠ reader.readsVersion step.before →
      Unnoticed reader step.before step.event.op := by
  intro step hstep hnamed hother side chunks hwrites
  obtain ⟨hlabelled, hop, -⟩ := h.transitions step hstep
  have hlive : ∀ chunk, reader.Live step.before chunk →
      chunk.indexVersion = reader.readsVersion step.before := by
    intro chunk hchunk
    simpa [OnlinePipeline.Live, inVersion, hnamed] using hchunk
  constructor
  · intro chunk hnew hchunk
    obtain ⟨i, hi⟩ := hop side chunks hwrites chunk (Dict.mem_values_index hnew)
    exact absurd (hi.indexVersion_eq.symm.trans (hlive chunk hchunk)) hother
  · intro chunk hold hchunk hid
    obtain ⟨new, hnew, hsame⟩ := List.mem_map.mp hid
    obtain ⟨i, hi⟩ := hop side chunks hwrites new hnew
    obtain ⟨j, hj⟩ := hlabelled.identified side chunk hold
    have hversion := ((hi.chunkId_inj hinj hj).mp hsame).2.2
    exact absurd (hversion.trans (hlive chunk hchunk)) hother

end Jobs

section First

variable {K : Type} [Runtime] [Field K] {ι α : Type} [DecidableEq ι]

/-- The operations of one job, one after the other. -/
def transitionsOf (i : ι) : Stores K → List (BuildEvent K) →
    List (Pool.Transition (BuildOp K) BuildResp ι (Stores K))
  | _, [] => []
  | s, e :: t => ⟨s, i, e, s.step e⟩ :: transitionsOf i (s.step e) t

/-- A run over the stores is a path of the pool. -/
theorem path_of_steps {p : Pool (BuildOp K) BuildResp ι (Stores K) α} {i : ι}
    {t : List (BuildEvent K)} {rest : Prog (BuildOp K) BuildResp α}
    (hsteps : Prog.Steps (p.rest i) t rest)
    (hanswers : Run.EachStep Stores.step StoreAnswers p.shared t) :
    ∃ q, Pool.Path StoreCell (fun _ _ => False) p (transitionsOf i p.shared t) q := by
  generalize hstart : p.rest i = program at hsteps
  induction hsteps generalizing p with
  | refl _ => exact ⟨p, .refl p⟩
  | @step o k t _ r hrest ih =>
      obtain ⟨q, hq⟩ := ih (p := p.advance i (p.shared.step ⟨o, r⟩) ⟨o, r⟩ (k r)) hanswers.2
        (by simp [Pool.advance])
      exact ⟨q, .call i r hstart ⟨hanswers.1, rfl⟩ hq⟩

end First

/-- One build of `v1` before anything has been promoted. -/
def firstBuild : Unit → Job ℚ := fun _ => .build narrowPipeline (oneFile "abc")

/-- What the first build does, step by step. -/
def firstSteps [Runtime] [Math ℚ] : List (Pool.Transition (BuildOp ℚ) BuildResp Unit (Stores ℚ)) :=
  transitionsOf () {} (((firstBuild ()).program spelledOut).trace (Stores.env flatEmbedder {}))

theorem firstSteps_path [Runtime] [Math ℚ] : ∃ q, JobPath spelledOut firstBuild firstSteps q :=
  path_of_steps (p := startJobs spelledOut firstBuild) (i := ())
    (Prog.runs_trace (Stores.env flatEmbedder {}) ((firstBuild ()).program spelledOut))
    (exec_answers flatEmbedder {} _ [])

theorem readers_undisturbed_iff_first :
    let _ := Runtime.ascii
    let _ := unitMath
    (∀ step ∈ firstSteps, step.event.op.flipsAlias = true
        ∨ retrievable {} step.after = retrievable {} step.before)
      ↔ ∀ step ∈ firstSteps, step.event.op.flipsAlias = true
        ∨ Unnoticed {} step.before step.event.op := by
  intro _ _
  obtain ⟨q, h⟩ := firstSteps_path
  exact readers_undisturbed_iff {} h

/-- Readers fall back on `v1` and see the chunk as soon as it is in the vector store. -/
theorem first_build_is_observed :
    ¬ ∀ (_ : Runtime) (_ : Math ℚ) (shortId : List String → String) (jobs : Unit → Job ℚ)
      (steps : List (Pool.Transition (BuildOp ℚ) BuildResp Unit (Stores ℚ)))
      (q : Pool (BuildOp ℚ) BuildResp Unit (Stores ℚ) (Except Exn Unit))
      (reader : OnlinePipeline), JobPath shortId jobs steps q →
      ∀ step ∈ steps, step.event.op.flipsAlias = true
        ∨ retrievable reader step.after = retrievable reader step.before := by
  intro h
  let _ := Runtime.ascii
  let _ := unitMath
  obtain ⟨q, hpath⟩ := firstSteps_path
  have hquiet := h Runtime.ascii unitMath spelledOut firstBuild firstSteps q {} hpath
  have hseen : firstSteps.any (fun step => !step.event.op.flipsAlias
      && (step.before.held .vector).values.isEmpty && (step.before.held .lexical).values.isEmpty
      && (step.after.held .vector).values.any fun chunk =>
        inVersion (some (OnlinePipeline.readsVersion {} step.after)) chunk) = true := by
    decide +kernel
  obtain ⟨step, hstep, hlabel⟩ := List.any_eq_true.mp hseen
  simp only [Bool.and_eq_true, Bool.not_eq_true', List.isEmpty_iff] at hlabel
  obtain ⟨⟨⟨hflip, hvector⟩, hlexical⟩, hafter⟩ := hlabel
  obtain ⟨chunk, hchunk, hlive⟩ := List.any_eq_true.mp hafter
  rcases hquiet step hstep with hflips | hsame
  · rw [hflip] at hflips
    cases hflips
  · have hbefore : chunk ∈ retrievable {} step.before := by
      rw [← hsame]
      exact ⟨hlive, .vector, hchunk⟩
    obtain ⟨-, side, hin⟩ := hbefore
    cases side with
    | vector =>
        rw [hvector] at hin
        cases hin
    | lexical =>
        rw [hlexical] at hin
        cases hin

end Rag
