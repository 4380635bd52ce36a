import Rag.Errors
import Rag.Lib.Dict
import Rag.Lib.Runs
import Mathlib.Logic.Function.Basic

/-!
`rag.index_registry`: which physical index each version maps to, and which is active.

The registry is one file, loaded and written back whole. The active version is stored
twice, as the `active` field and as a status, and `Consistent` says the two agree. The
keys are sorted when the file is written, which nothing reads, and is left out.
-/

namespace Rag

open Py

/-- What the registry stores of a version. -/
structure VersionBody where
  collection : String
  aliasName : String
  status : String := "building"
  createdAt : String := ""
  chunkCount : ℤ := 0
  embeddingModel : Option String := none
  chunkerVersion : Option String := none

structure IndexVersion extends VersionBody where
  version : String

/-- The content of the registry file. -/
structure RegistryData where
  active : Option String := none
  versions : Dict String VersionBody := .empty

/-- `_load`; the file may be missing. -/
def RegistryData.load (file : Option RegistryData) : RegistryData := file.getD {}

/-- The writes of the registry. -/
inductive RegistryOp where
  | record (entry : IndexVersion)
  | activate (version : String)

namespace RegistryData

variable (data : RegistryData)

def record (entry : IndexVersion) : RegistryData :=
  { data with versions := data.versions.set entry.version entry.toVersionBody }

def activate [Runtime] (version : String) : Except Exn RegistryData :=
  match data.versions.get? version with
  | none => .error (keyError
      ("cannot activate unknown index version " ++ Runtime.repr (.str version)))
  | some _ => .ok {
      active := some version
      versions := data.versions.mapEntries fun name body =>
        { body with status := if name = version then "active" else "retired" } }

end RegistryData

/-- What a write does to the data it loaded; `activate` raises on an unknown version. -/
def RegistryOp.apply [Runtime] (data : RegistryData) : RegistryOp → Except Exn RegistryData
  | .record entry => .ok (data.record entry)
  | .activate version => data.activate version

section Lookup

variable {data : RegistryData}

theorem get?_record (entry : IndexVersion) (name : String) :
    (data.record entry).versions.get? name
      = if name = entry.version then some entry.toVersionBody else data.versions.get? name :=
  Dict.get?_set _ _ _ _

/-- An activation rewrites every status and nothing else. -/
theorem activate_cases [Runtime] {version : String} {data' : RegistryData}
    (h : data.activate version = .ok data') :
    (∃ body, data.versions.get? version = some body) ∧ data'.active = some version ∧
      ∀ name, data'.versions.get? name = (data.versions.get? name).map fun body =>
        { body with status := if name = version then "active" else "retired" } := by
  rw [RegistryData.activate] at h
  split at h
  · cases h
  · rename_i body hbody
    cases h
    exact ⟨⟨body, hbody⟩, rfl, fun name => Dict.get?_mapEntries _ _ _⟩

end Lookup

/-- The field and the statuses name the same version. -/
def RegistryData.Consistent (data : RegistryData) : Prop :=
  (∀ version, data.active = some version →
    ∃ body, data.versions.get? version = some body ∧ body.status = "active")
  ∧ ∀ version body, data.versions.get? version = some body → body.status = "active" →
    data.active = some version

/-- A call, and whether the file can be written when it saves. -/
structure RegistryCall where
  op : RegistryOp
  writable : Bool := true

/-- What the indexing pipeline records: a build that has begun or has ended. -/
def RegistryOp.Issued : RegistryOp → Prop
  | .record entry => entry.status = "building" ∨ entry.status = "built"
  | .activate _ => True

section Calls

/-- A build of the version that is active now writes its own status over `active`. -/
def OverwritesActive (file : Option RegistryData) (call : RegistryCall) : Prop :=
  call.writable = true ∧
    ∃ entry, call.op = .record entry ∧ (RegistryData.load file).active = some entry.version

theorem consistent_record_iff {data : RegistryData} {entry : IndexVersion}
    (hdata : data.Consistent) (hstatus : entry.status ≠ "active") :
    (data.record entry).Consistent ↔ data.active ≠ some entry.version := by
  constructor
  · intro h hactive
    obtain ⟨body, hbody, hbodyStatus⟩ := h.1 entry.version hactive
    rw [get?_record, if_pos rfl] at hbody
    cases hbody
    exact hstatus hbodyStatus
  · intro hactive
    constructor
    · intro version hversion
      have hne : version ≠ entry.version := by
        rintro rfl
        exact hactive hversion
      rw [get?_record, if_neg hne]
      exact hdata.1 version hversion
    · intro version body hbody hbodyStatus
      rw [get?_record] at hbody
      split_ifs at hbody
      · cases hbody
        exact absurd hbodyStatus hstatus
      · exact hdata.2 version body hbody hbodyStatus

variable [Runtime]

/-- One call of `IndexRegistry`: load, change, save. A failed save is only logged. -/
def registryCall (file : Option RegistryData) (call : RegistryCall) : Option RegistryData :=
  match call.op.apply (.load file) with
  | .error _ => file
  | .ok data => if call.writable then some data else file

theorem consistent_activate {data data' : RegistryData} {version : String}
    (h : data.activate version = .ok data') : data'.Consistent := by
  obtain ⟨⟨body, hbody⟩, hactive, hget⟩ := activate_cases h
  constructor
  · intro name hname
    rw [hactive] at hname
    cases hname
    exact ⟨_, by rw [hget, hbody, Option.map_some], by simp⟩
  · intro name body' hbody' hstatus
    rw [hget] at hbody'
    obtain ⟨old, -, rfl⟩ := Option.map_eq_some_iff.mp hbody'
    have hsame : name = version := by
      by_contra hne
      simp [hne] at hstatus
    rw [hactive, hsame]

theorem consistent_call_iff {file : Option RegistryData} {call : RegistryCall}
    (hissued : call.op.Issued) (hfile : (RegistryData.load file).Consistent) :
    (RegistryData.load (registryCall file call)).Consistent ↔ ¬ OverwritesActive file call := by
  obtain ⟨op, writable⟩ := call
  cases writable with
  | false =>
      have hsame : registryCall file ⟨op, false⟩ = file := by
        rw [registryCall]
        split <;> simp
      rw [hsame]
      exact iff_of_true hfile fun h => absurd h.1 (by simp)
  | true =>
      cases op with
      | record entry =>
          have hstatus : entry.status ≠ "active" := by
            rcases hissued with h | h <;> rw [h] <;> decide
          have hrecord := consistent_record_iff hfile hstatus
          simpa [registryCall, RegistryOp.apply, OverwritesActive, RegistryData.load] using hrecord
      | activate version =>
          refine iff_of_true ?_ ?_
          · rw [registryCall]
            cases happly : (RegistryOp.activate version).apply (.load file) with
            | error exn => exact hfile
            | ok data => exact consistent_activate happly
          · rintro ⟨-, entry, hentry, -⟩
            cases hentry

/-- The two markers agree throughout a run exactly when no build of the version that is
active is recorded on the way. -/
theorem consistent_throughout_iff (calls : List RegistryCall)
    (hissued : ∀ call ∈ calls, call.op.Issued) :
    Run.Throughout registryCall (fun file => (RegistryData.load file).Consistent) none calls
      ↔ Run.EachStep registryCall (fun file call => ¬ OverwritesActive file call) none calls := by
  apply Run.throughout_iff
  · constructor
    · intro version h
      cases h
    · intro version body h
      cases h
  · intro file call hcall hfile
    exact consistent_call_iff (hissued call hcall) hfile

end Calls

/-- `v1` is built, promoted, and built again. -/
def rebuildOfActive : List RegistryCall :=
  let entry := fun status : String =>
    ({ version := "v1", collection := "docs__v1", aliasName := "docs_live", status := status } :
      IndexVersion)
  [⟨.record (entry "built"), true⟩, ⟨.activate "v1", true⟩, ⟨.record (entry "building"), true⟩]

theorem rebuildOfActive_issued : ∀ call ∈ rebuildOfActive, call.op.Issued := by
  intro call hcall
  simp only [rebuildOfActive, List.mem_cons, List.not_mem_nil, or_false] at hcall
  rcases hcall with rfl | rfl | rfl
  · exact Or.inr rfl
  · exact trivial
  · exact Or.inl rfl

theorem consistent_throughout_iff_rebuild :
    let _ := Runtime.ascii
    Run.Throughout registryCall (fun file => (RegistryData.load file).Consistent) none
        rebuildOfActive
      ↔ Run.EachStep registryCall (fun file call => ¬ OverwritesActive file call) none
        rebuildOfActive :=
  let _ := Runtime.ascii
  consistent_throughout_iff rebuildOfActive rebuildOfActive_issued

theorem rebuild_leaves_no_active_status :
    ¬ ∀ (_ : Runtime) (calls : List RegistryCall), (∀ call ∈ calls, call.op.Issued) →
      Run.Throughout registryCall (fun file => (RegistryData.load file).Consistent) none
        calls := by
  intro h
  let _ := Runtime.ascii
  have hlast := (h Runtime.ascii rebuildOfActive rebuildOfActive_issued).last
  obtain ⟨body, hbody, hstatus⟩ := hlast.1 "v1" rfl
  cases hbody
  exact absurd hstatus (by decide)

section Jobs

variable {ι : Type} [DecidableEq ι]

/-- The file, and what each job has loaded of it with the write it is about to make. -/
structure RegistryJobs (ι : Type) where
  file : Option RegistryData := none
  pending : ι → Option (RegistryOp × RegistryData) := fun _ => none

inductive JobStep (ι : Type) where
  | load (job : ι) (op : RegistryOp)
  | save (job : ι)

variable [Runtime]

/-- The data a job is about to save; `activate` may have raised instead. -/
def RegistryJobs.ready (jobs : RegistryJobs ι) (job : ι) : Option (RegistryOp × RegistryData) :=
  match jobs.pending job with
  | none => none
  | some (op, loaded) =>
      match op.apply loaded with
      | .error _ => none
      | .ok data => some (op, data)

def RegistryJobs.step (jobs : RegistryJobs ι) : JobStep ι → RegistryJobs ι
  | .load job op =>
      { jobs with pending := Function.update jobs.pending job (some (op, .load jobs.file)) }
  | .save job =>
      let pending := Function.update jobs.pending job none
      match jobs.ready job with
      | none => { jobs with pending := pending }
      | some (_, data) => { file := some data, pending := pending }

/-- The writes that reach the file, in their order. -/
def RegistryJobs.saved (jobs : RegistryJobs ι) : List (JobStep ι) → List RegistryOp
  | [] => []
  | step :: rest =>
      match step with
      | .load _ _ => (jobs.step step).saved rest
      | .save job => ((jobs.ready job).map Prod.fst).toList ++ (jobs.step step).saved rest

/-- A job saves to the file it loaded: nothing was saved in between. -/
def Unraced (jobs : RegistryJobs ι) : JobStep ι → Prop
  | .load _ _ => True
  | .save job => ∀ op loaded, jobs.pending job = some (op, loaded) → loaded = .load jobs.file

/-- Every version has the body recorded for it last, up to the status that activations
saved after it have set, and the active version is the one activated last. -/
def NothingLost (saved : List RegistryOp) (data : RegistryData) : Prop :=
  (∀ earlier entry later, saved = earlier ++ .record entry :: later →
    (∀ entry', RegistryOp.record entry' ∈ later → entry'.version ≠ entry.version) →
    ∃ status, data.versions.get? entry.version = some { entry.toVersionBody with status := status }
      ∧ ((∀ version, RegistryOp.activate version ∉ later) → status = entry.status))
  ∧ ∀ earlier version later, saved = earlier ++ .activate version :: later →
    (∀ version', RegistryOp.activate version' ∉ later) → data.active = some version

/-- Without races the jobs amount to their saved writes, one after the other. -/
theorem saved_replay {jobs : RegistryJobs ι} {steps : List (JobStep ι)}
    (h : Run.EachStep RegistryJobs.step Unraced jobs steps) :
    (jobs.saved steps).foldlM RegistryOp.apply (RegistryData.load jobs.file)
      = .ok (.load (steps.foldl RegistryJobs.step jobs).file) := by
  induction steps generalizing jobs with
  | nil => rfl
  | cons step rest ih =>
      obtain ⟨hstep, hrest⟩ := h
      have htail := ih hrest
      rw [List.foldl_cons, ← htail]
      cases step with
      | load job op => rfl
      | save job =>
          rw [RegistryJobs.saved, RegistryJobs.step]
          cases hready : jobs.ready job with
          | none => rfl
          | some write =>
              obtain ⟨op, data⟩ := write
              have happly : op.apply (.load jobs.file) = .ok data := by
                rw [RegistryJobs.ready] at hready
                split at hready
                · cases hready
                · rename_i op' loaded hpending
                  rw [hstep op' loaded hpending] at hready
                  split at hready
                  · cases hready
                  · rename_i data' hdata
                    cases hready
                    exact hdata
              simp only [Option.map_some, Option.toList_some, List.singleton_append,
                List.foldlM_cons, happly]
              rfl

section Replay

omit [DecidableEq ι]

/-- One write that does not record the version leaves its body alone but for the status. -/
theorem body_kept_step {data data' : RegistryData} {op : RegistryOp} {name : String}
    {body : VersionBody} (hbody : data.versions.get? name = some body)
    (happly : op.apply data = .ok data')
    (hop : ∀ entry, op = .record entry → entry.version ≠ name) :
    ∃ status, data'.versions.get? name = some { body with status := status }
      ∧ ((∀ version, op ≠ .activate version) → status = body.status) := by
  cases op with
  | record entry =>
      cases happly
      have hne : name ≠ entry.version := fun h => hop entry rfl h.symm
      exact ⟨body.status, by rw [get?_record, if_neg hne, hbody], fun _ => rfl⟩
  | activate version =>
      obtain ⟨-, -, hget⟩ := activate_cases happly
      refine ⟨if name = version then "active" else "retired", ?_, ?_⟩
      · rw [hget, hbody, Option.map_some]
      · intro h
        exact absurd rfl (h version)

theorem body_kept {data data' : RegistryData} {ops : List RegistryOp} {name : String}
    {body : VersionBody} (hbody : data.versions.get? name = some body)
    (happly : ops.foldlM RegistryOp.apply data = .ok data')
    (hops : ∀ entry, RegistryOp.record entry ∈ ops → entry.version ≠ name) :
    ∃ status, data'.versions.get? name = some { body with status := status }
      ∧ ((∀ version, RegistryOp.activate version ∉ ops) → status = body.status) := by
  induction ops generalizing data body with
  | nil =>
      cases happly
      exact ⟨body.status, hbody, fun _ => rfl⟩
  | cons op rest ih =>
      rw [List.foldlM_cons] at happly
      cases hop : op.apply data with
      | error exn =>
          rw [hop] at happly
          cases happly
      | ok next =>
          rw [hop] at happly
          have hhead : ∀ entry, op = .record entry → entry.version ≠ name := by
            rintro entry rfl
            exact hops entry List.mem_cons_self
          obtain ⟨status, hnext, hkept⟩ := body_kept_step hbody hop hhead
          obtain ⟨status', hlast, hkept'⟩ := ih hnext happly fun entry hentry =>
            hops entry (List.mem_cons_of_mem _ hentry)
          refine ⟨status', hlast, ?_⟩
          intro hnone
          have hrest := hkept' fun version hversion =>
            hnone version (List.mem_cons_of_mem _ hversion)
          have hfirst := hkept fun version h => hnone version (h ▸ List.mem_cons_self)
          rw [hrest, hfirst]

theorem active_kept {data data' : RegistryData} {ops : List RegistryOp}
    (happly : ops.foldlM RegistryOp.apply data = .ok data')
    (hops : ∀ version, RegistryOp.activate version ∉ ops) : data'.active = data.active := by
  induction ops generalizing data with
  | nil =>
      cases happly
      rfl
  | cons op rest ih =>
      rw [List.foldlM_cons] at happly
      cases op with
      | record entry =>
          change rest.foldlM RegistryOp.apply (data.record entry) = .ok data' at happly
          have hrest := ih happly fun version hversion =>
            hops version (List.mem_cons_of_mem _ hversion)
          exact hrest
      | activate version => exact absurd List.mem_cons_self (hops version)

theorem nothingLost_of_replay {data data' : RegistryData} {ops : List RegistryOp}
    (h : ops.foldlM RegistryOp.apply data = .ok data') : NothingLost ops data' := by
  -- Splitting the replay at the write in question leaves the writes saved after it.
  have hsplit : ∀ earlier op later, ops = earlier ++ op :: later →
      ∃ before after, RegistryOp.apply before op = .ok after
        ∧ later.foldlM RegistryOp.apply after = .ok data' := by
    rintro earlier op later rfl
    rw [List.foldlM_append] at h
    cases hbefore : earlier.foldlM RegistryOp.apply data with
    | error exn =>
        rw [hbefore] at h
        cases h
    | ok before =>
        rw [hbefore] at h
        change (op :: later).foldlM RegistryOp.apply before = _ at h
        rw [List.foldlM_cons] at h
        cases hafter : op.apply before with
        | error exn =>
            rw [hafter] at h
            cases h
        | ok after =>
            rw [hafter] at h
            exact ⟨before, after, hafter, h⟩
  constructor
  · intro earlier entry later hops hlater
    obtain ⟨before, after, happly, hrest⟩ := hsplit _ _ _ hops
    cases happly
    exact body_kept (by rw [get?_record, if_pos rfl]) hrest hlater
  · intro earlier version later hops hlater
    obtain ⟨before, after, happly, hrest⟩ := hsplit _ _ _ hops
    obtain ⟨-, hactive, -⟩ := activate_cases happly
    rw [active_kept hrest hlater, hactive]

end Replay

/-- When no save lands between another job's load and its save, nothing is lost. -/
theorem unraced_jobs_lose_nothing (jobs : RegistryJobs ι) (steps : List (JobStep ι))
    (h : Run.EachStep RegistryJobs.step Unraced jobs steps) :
    NothingLost (jobs.saved steps) (.load (steps.foldl RegistryJobs.step jobs).file) :=
  nothingLost_of_replay (saved_replay h)

end Jobs

def builtEntry (version : String) : IndexVersion where
  version := version
  collection := "docs__" ++ version
  aliasName := "docs_live"
  status := "built"

theorem unraced_jobs_lose_nothing_turns :
    let _ := Runtime.ascii
    let jobs : RegistryJobs Bool := {}
    let steps : List (JobStep Bool) := [.load false (.record (builtEntry "v1")), .save false,
      .load true (.record (builtEntry "v2")), .save true]
    NothingLost (jobs.saved steps) (.load (steps.foldl RegistryJobs.step jobs).file) := by
  intro _ jobs steps
  apply unraced_jobs_lose_nothing jobs steps
  refine ⟨trivial, ?_, trivial, ?_, trivial⟩
  · intro op loaded hpending
    cases hpending
    rfl
  · intro op loaded hpending
    cases hpending
    rfl

/-- Two builds load the empty file; the one that saves second erases the first. -/
theorem racing_jobs_lose_a_version :
    ¬ ∀ (_ : Runtime) (steps : List (JobStep Bool)),
      NothingLost (({} : RegistryJobs Bool).saved steps)
        (.load (steps.foldl RegistryJobs.step {}).file) := by
  intro h
  let _ := Runtime.ascii
  have hlost := (h Runtime.ascii [.load false (.record (builtEntry "v1")),
    .load true (.record (builtEntry "v2")), .save false, .save true]).1 [] (builtEntry "v1")
    [.record (builtEntry "v2")] rfl
  obtain ⟨status, hbody, -⟩ := hlost (by
    intro entry hentry
    rw [List.mem_singleton] at hentry
    cases hentry
    decide)
  cases hbody

end Rag
