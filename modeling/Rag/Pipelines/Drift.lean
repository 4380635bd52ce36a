import Rag.Pipelines.Indexing

/-!
The two indexes after a build that may fail at any upsert.

`Backends` is what a build sees of its stores, whatever they are: an upsert takes effect as
a whole or raises and takes none. A build writes the vector index first and the lexical one
after it, and undoes nothing, so the indexes agree again unless the second write raises
after the first one changed something (`never_drift_iff`).
-/

namespace Rag

open Py Interaction

/-- What the stores of a build keep: the chunks of both indexes, and the aliases. -/
structure Backends where
  chunks : Side → Dict String Chunk
  aliases : Dict String String

namespace Backends

variable {K : Type}

/-- An index takes in chunks, each under its id. -/
def write (b : Backends) (side : Side) (chunks : List Chunk) : Backends :=
  { b with chunks := fun other => match side, other with
      | .vector, .vector => (b.chunks .vector).setAll Chunk.chunkId chunks
      | .lexical, .lexical => (b.chunks .lexical).setAll Chunk.chunkId chunks
      | _, other => b.chunks other }

/-- An operation that raises has no effect. -/
def step (b : Backends) : BuildEvent K → Backends
  | ⟨.vectorUpsert chunks _, .ok _⟩ => b.write .vector chunks
  | ⟨.lexicalUpsert chunks, .ok _⟩ => b.write .lexical chunks
  | ⟨.setAlias aliasName version, .ok _⟩ =>
      { b with aliases := b.aliases.set aliasName version }
  | _ => b

/-- The two indexes hold the same chunk under every id. -/
def InSync (b : Backends) : Prop :=
  ∀ id, (b.chunks .vector).get? id = (b.chunks .lexical).get? id

end Backends

section Memory

variable {K : Type} [Runtime] [Field K]

def Stores.backends (s : Stores K) : Backends := ⟨s.held, s.vectors.aliases⟩

theorem backends_step {s : Stores K} {e : BuildEvent K} (h : StoreAnswers s e) :
    (s.step e).backends = s.backends.step e := by
  obtain ⟨op, r⟩ := e
  have hheld := held_step s ⟨op, r⟩
  cases op with
  | vectorUpsert chunks vectors =>
      change r = (s.vectors.upsert chunks vectors).map _ at h
      by_cases hlength : chunks.length ≠ vectors.length
      · have hupsert : s.vectors.upsert chunks vectors
            = .error (valueError "chunks and vectors length mismatch") := if_pos hlength
        rw [hupsert] at h
        subst h
        simp [Stores.step, hupsert, Stores.backends, Except.map, Backends.step]
      · have hupsert : s.vectors.upsert chunks vectors = .ok _ := if_neg hlength
        rw [hupsert] at h
        subst h
        simp only [Stores.step, hupsert, Stores.backends, Except.map, Backends.step,
          Backends.write, Backends.mk.injEq, and_true]
        funext side
        cases side with
        | vector => exact MemoryVectorStore.chunks_upsert hupsert
        | lexical => rfl
  | lexicalUpsert chunks =>
      change r = .ok () at h
      subst h
      simp only [Stores.step, Stores.backends, Backends.step, Backends.write, Backends.mk.injEq,
        and_true]
      funext side
      cases side with
      | vector => rfl
      | lexical => exact Tables.chunks_foldl_put _ _
  | setAlias aliasName version =>
      change r = .ok () at h
      subst h
      simp only [Stores.step, Stores.backends, Backends.step, Backends.mk.injEq]
      refine ⟨?_, rfl⟩
      funext side
      cases side <;> rfl
  | record entry => rfl
  | embed texts => rfl
  | registryActivate version => rfl

end Memory

section Shapes

variable {K : Type} {pipeline : OfflinePipeline K} {request : BuildRequest}

/-- The event changes nothing and does not reach the lexical index. -/
def Idle : BuildEvent K → Prop
  | ⟨.vectorUpsert _ _, r⟩ => ∃ exn, r = .error exn
  | ⟨.lexicalUpsert _, _⟩ => False
  | ⟨.setAlias _ _, r⟩ => ∃ exn, r = .error exn
  | _ => True

def isUpsert : BuildOp K → Bool
  | .vectorUpsert _ _ | .lexicalUpsert _ => true
  | _ => false

/-- Activating a version in the registry raises nothing but a `KeyError`. -/
def KnownOrKeyError (t : List (BuildEvent K)) : Prop :=
  ∀ version exn, (⟨.registryActivate version, .error exn⟩ : BuildEvent K) ∈ t → exn.cls = .key

theorem Backends.step_idle {e : BuildEvent K} (h : Idle e) (b : Backends) : b.step e = b := by
  obtain ⟨op, r⟩ := e
  cases op with
  | vectorUpsert chunks vectors =>
      obtain ⟨exn, rfl⟩ := h
      rfl
  | lexicalUpsert chunks => cases h
  | setAlias aliasName version =>
      obtain ⟨exn, rfl⟩ := h
      rfl
  | record entry => rfl
  | embed texts => rfl
  | registryActivate version => rfl

theorem Backends.foldl_idle {t : List (BuildEvent K)} (h : ∀ e ∈ t, Idle e) (b : Backends) :
    t.foldl Backends.step b = b := by
  induction t with
  | nil => rfl
  | cons e t ih =>
      rw [List.foldl_cons, Backends.step_idle (h e List.mem_cons_self)]
      exact ih fun e he => h e (List.mem_cons_of_mem _ he)

/-- Without an upsert the indexes stay as they are. -/
theorem Backends.foldl_chunks {t : List (BuildEvent K)} (h : ∀ e ∈ t, isUpsert e.op = false)
    (b : Backends) : (t.foldl Backends.step b).chunks = b.chunks := by
  induction t generalizing b with
  | nil => rfl
  | cons e t ih =>
      rw [List.foldl_cons, ih fun e he => h e (List.mem_cons_of_mem _ he)]
      have hhead := h e List.mem_cons_self
      obtain ⟨op, r⟩ := e
      cases op with
      | vectorUpsert chunks vectors => cases hhead
      | lexicalUpsert chunks => cases hhead
      | setAlias aliasName version => cases r <;> rfl
      | record entry => rfl
      | embed texts => rfl
      | registryActivate version => rfl

/-- Indexing stops before the vector index is written, between the two indexes, or behind
both. -/
theorem indexChunks_shape {cut : List Chunk} {t : List (BuildEvent K)}
    {r : Except Exn (List Chunk)} (h : Prog.Runs (pipeline.indexChunks cut).run t r) :
    (∀ e ∈ t, Idle e) ∧ (r = .ok [] ∨ ∃ exn, r = .error exn)
      ∨ ∃ before chunks vectors outcome, (∀ e ∈ before, Idle e)
        ∧ t = before ++ [⟨.vectorUpsert chunks vectors, .ok ()⟩, ⟨.lexicalUpsert chunks, outcome⟩]
        ∧ r = outcome.map fun _ => chunks := by
  rw [OfflinePipeline.indexChunks] at h
  split_ifs at h with hempty
  · obtain ⟨rfl, rfl⟩ := (Prog.runsE_pure_iff _ _ _).mp h
    exact Or.inl ⟨by simp, Or.inl rfl⟩
  · rw [OfflinePipeline.embedAndIndex] at h
    obtain ⟨t₁, embedded, u, rfl, hembed, hafter⟩ := (Prog.runsE_bind_iff _ _ _ _).mp h
    obtain rfl := (Prog.runs_perform_iff _ _ _).mp hembed
    cases embedded with
    | error exn =>
        obtain ⟨rfl, rfl⟩ := hafter
        exact Or.inl ⟨by simp [Idle], Or.inr ⟨exn, rfl⟩⟩
    | ok vectors =>
        obtain ⟨t₂, written, v, rfl, hwrite, hwritten⟩ := (Prog.runsE_bind_iff _ _ _ _).mp hafter
        obtain rfl := (Prog.runs_perform_iff _ _ _).mp hwrite
        cases written with
        | error exn =>
            obtain ⟨rfl, rfl⟩ := hwritten
            exact Or.inl ⟨by simp [Idle], Or.inr ⟨exn, rfl⟩⟩
        | ok _ =>
            obtain ⟨t₃, indexed, w, rfl, hindex, hindexed⟩ :=
              (Prog.runsE_bind_iff _ _ _ _).mp hwritten
            obtain rfl := (Prog.runs_perform_iff _ _ _).mp hindex
            refine Or.inr ⟨[⟨.embed ((cut.map pipeline.stamp).map Chunk.text), .ok vectors⟩],
              cut.map pipeline.stamp, vectors, indexed, by simp [Idle], ?_, ?_⟩
            · cases indexed with
              | error exn =>
                  obtain ⟨rfl, -⟩ := hindexed
                  rfl
              | ok _ =>
                  obtain ⟨rfl, -⟩ := (Prog.runsE_pure_iff _ _ _).mp hindexed
                  rfl
            · cases indexed with
              | error exn => exact hindexed.2
              | ok _ => exact ((Prog.runsE_pure_iff _ _ _).mp hindexed).2

/-- Publishing writes to no index, and where it raises it has not set the alias. -/
theorem publish_shape {version : String} {chunks : List Chunk} {t : List (BuildEvent K)}
    {r : Except Exn Unit} (h : Prog.Runs (pipeline.publish request version chunks).run t r) :
    (∀ e ∈ t, isUpsert e.op = false)
      ∧ (chunks = [] → t = [])
      ∧ (KnownOrKeyError t → (∃ exn, r = .error exn) → ∀ e ∈ t, Idle e) := by
  unfold OfflinePipeline.publish at h
  split_ifs at h with hpublish
  · have hsome : chunks ≠ [] := by simpa using (Bool.and_eq_true_iff.mp hpublish).2
    rw [OfflinePipeline.activate] at h
    obtain ⟨t₁, set, u, rfl, hset, hafter⟩ := (Prog.runsE_bind_iff _ _ _ _).mp h
    obtain rfl := (Prog.runs_perform_iff _ _ _).mp hset
    cases set with
    | error exn =>
        obtain ⟨rfl, rfl⟩ := hafter
        exact ⟨by simp [isUpsert], fun hnone => absurd hnone hsome, by simp [Idle]⟩
    | ok _ =>
        obtain ⟨t₂, attempted, v, rfl, hattempt, hrest⟩ := (Prog.runsE_bind_iff _ _ _ _).mp hafter
        obtain ⟨activated, hactivate, rfl⟩ := (Prog.runs_map_iff _ _ _ _).mp hattempt
        obtain rfl := (Prog.runs_perform_iff _ _ _).mp hactivate
        cases activated with
        | ok _ =>
            obtain ⟨rfl, rfl⟩ := (Prog.runsE_pure_iff _ _ _).mp hrest
            exact ⟨by simp [isUpsert], fun hnone => absurd hnone hsome, by simp⟩
        | error exn =>
            dsimp only at hrest
            split_ifs at hrest with hkey
            · obtain ⟨rfl, rfl⟩ := (Prog.runsE_pure_iff _ _ _).mp hrest
              exact ⟨by simp [isUpsert], fun hnone => absurd hnone hsome, by simp⟩
            · obtain ⟨rfl, rfl⟩ := (Prog.runs_ret_iff _ _ _).mp hrest
              refine ⟨by simp [isUpsert], fun hnone => absurd hnone hsome, ?_⟩
              intro hknown
              exact absurd (hknown version exn (by simp)) hkey
  · obtain ⟨rfl, rfl⟩ := (Prog.runsE_pure_iff _ _ _).mp h
    exact ⟨by simp, fun _ => rfl, by simp⟩

/-- The part of a build behind its indexing writes to no index either. -/
theorem ended_shape {entry : IndexVersion} {version : String} {chunks : List Chunk}
    {t : List (BuildEvent K)} {r : Except Exn (List Chunk)}
    (h : Prog.Runs (do
      let _ ← ExceptT.mk (BuildOp.ask (K := K) (.record entry))
      pipeline.publish request version chunks
      pure chunks : Build K (List Chunk)).run t r) :
    (∀ e ∈ t, isUpsert e.op = false)
      ∧ (chunks = [] → ∀ e ∈ t, Idle e)
      ∧ (KnownOrKeyError t → (∃ exn, r = .error exn) → ∀ e ∈ t, Idle e) := by
  obtain ⟨t₁, ended, u, rfl, hend, hafter⟩ := (Prog.runsE_bind_iff _ _ _ _).mp h
  obtain rfl := (Prog.runs_perform_iff _ _ _).mp hend
  cases ended with
  | error exn =>
      obtain ⟨rfl, -⟩ := hafter
      exact ⟨by simp [isUpsert], by simp [Idle], by simp [Idle]⟩
  | ok _ =>
      obtain ⟨t₂, published, u, rfl, hpublish, hlast⟩ := (Prog.runsE_bind_iff _ _ _ _).mp hafter
      obtain ⟨hsilent, hnone, hraised⟩ := publish_shape hpublish
      have hfront : Idle (⟨.record entry, .ok ()⟩ : BuildEvent K) := trivial
      cases published with
      | error exn =>
          obtain ⟨rfl, -⟩ := hlast
          rw [List.append_nil]
          refine ⟨?_, ?_, ?_⟩
          · simpa [isUpsert] using hsilent
          · intro hempty
            simpa [hnone hempty] using hfront
          · intro hknown _ e he
            rcases List.mem_cons.mp he with rfl | he
            · exact hfront
            · exact hraised (fun v x hin => hknown v x (List.mem_cons_of_mem _ hin)) ⟨exn, rfl⟩ e he
      | ok _ =>
          obtain ⟨rfl, rfl⟩ := (Prog.runsE_pure_iff _ _ _).mp hlast
          rw [List.append_nil]
          refine ⟨?_, ?_, by simp⟩
          · simpa [isUpsert] using hsilent
          · intro hempty
            simpa [hnone hempty] using hfront

end Shapes

section Runs

variable {K : Type} [Runtime] [Field K] [LinearOrder K] [Math K]
  {shortId : List String → String} {pipeline : OfflinePipeline K} {request : BuildRequest}
  {t : List (BuildEvent K)} {r : Except Exn (List Chunk)}

/-- The writes of a build, however it ends: none that takes effect, to the vector index alone
before the lexical one raises, or of the same chunks to both. -/
theorem run_shape (h : Prog.Runs (pipeline.run request shortId).run t r) :
    (∀ e ∈ t, Idle e)
      ∨ (∃ before chunks vectors exn, (∀ e ∈ before, Idle e) ∧ t = before
        ++ [⟨.vectorUpsert chunks vectors, .ok ()⟩, ⟨.lexicalUpsert chunks, .error exn⟩])
      ∨ ∃ before chunks vectors after, (∀ e ∈ before, Idle e)
        ∧ t = before ++ [⟨.vectorUpsert chunks vectors, .ok ()⟩, ⟨.lexicalUpsert chunks, .ok ()⟩]
          ++ after
        ∧ (∀ e ∈ after, isUpsert e.op = false)
        ∧ (KnownOrKeyError t → (∃ exn, r = .error exn) → ∀ e ∈ after, Idle e) := by
  have hrecord : ∀ (entry : IndexVersion) x, Idle (⟨.record entry, x⟩ : BuildEvent K) :=
    fun _ _ => trivial
  rw [OfflinePipeline.run] at h
  obtain ⟨t₁, begun, u, rfl, hbegin, hafter⟩ := (Prog.runsE_bind_iff _ _ _ _).mp h
  obtain rfl := (Prog.runs_perform_iff _ _ _).mp hbegin
  cases begun with
  | error exn =>
      obtain ⟨rfl, -⟩ := hafter
      exact Or.inl (by simp [Idle])
  | ok _ =>
      obtain ⟨t₂, docs, u, rfl, hparsed, hread⟩ := (Prog.runsE_bind_iff _ _ _ _).mp hafter
      obtain ⟨rfl, -⟩ := (Prog.runsE_lift_iff _ _ _).mp hparsed
      cases docs with
      | error exn =>
          obtain ⟨rfl, -⟩ := hread
          exact Or.inl (by simp [Idle])
      | ok docs =>
          obtain ⟨t₃, pieces, u, rfl, hcut, hpieced⟩ := (Prog.runsE_bind_iff _ _ _ _).mp hread
          obtain ⟨rfl, -⟩ := (Prog.runsE_lift_iff _ _ _).mp hcut
          cases pieces with
          | error exn =>
              obtain ⟨rfl, -⟩ := hpieced
              exact Or.inl (by simp [Idle])
          | ok pieces =>
              obtain ⟨t₄, indexed, u, rfl, hindex, hindexed⟩ :=
                (Prog.runsE_bind_iff _ _ _ _).mp hpieced
              have hbegun : ∀ {before : List (BuildEvent K)}, (∀ e ∈ before, Idle e) → ∀ e ∈
                  (⟨.record (pipeline.registryEntry (pipeline.version request) "building"), .ok ()⟩
                    :: before : List (BuildEvent K)), Idle e := by
                intro before hbefore e he
                rcases List.mem_cons.mp he with rfl | he
                · exact hrecord _ _
                · exact hbefore e he
              rcases indexChunks_shape hindex with ⟨hidle, hnone⟩
                | ⟨before, chunks, vectors, outcome, hidle, rfl, rfl⟩
              · left
                refine hbegun ?_
                rcases hnone with rfl | ⟨exn, rfl⟩
                · intro e he
                  have hin : e ∈ t₄ ++ u := he
                  rcases List.mem_append.mp hin with he | he
                  · exact hidle e he
                  · exact (ended_shape hindexed).2.1 rfl e he
                · obtain ⟨rfl, -⟩ := hindexed
                  simpa using hidle
              · cases outcome with
                | error exn =>
                    obtain ⟨rfl, -⟩ := hindexed
                    exact Or.inr (Or.inl ⟨_, chunks, vectors, exn, hbegun hidle, by simp⟩)
                | ok _ =>
                    obtain ⟨hsilent, -, hraised⟩ := ended_shape hindexed
                    refine Or.inr (Or.inr ⟨_, chunks, vectors, u, hbegun hidle, by simp, hsilent, ?_⟩)
                    intro hknown hfailed
                    exact hraised (fun v x hin => hknown v x (by simp [hin])) hfailed

/-- After a build the indexes agree, and a build that raised has left the aliases alone. -/
structure Undrifted (before after : Backends) (r : Except Exn (List Chunk)) : Prop where
  inSync : after.InSync
  aliases : (∃ exn, r = .error exn) → after.aliases = before.aliases

/-- Where the lexical index refuses its chunks, the vector index held them already. -/
def RefusesHeld (b : Backends) (t : List (BuildEvent K)) : Prop :=
  ∀ chunks exn, (⟨.lexicalUpsert chunks, .error exn⟩ : BuildEvent K) ∈ t →
    ∀ id, ((b.chunks .vector).setAll Chunk.chunkId chunks).get? id = (b.chunks .vector).get? id

omit [Runtime] [Field K] [LinearOrder K] [Math K] in
theorem not_lexical_of_idle {before : List (BuildEvent K)} (h : ∀ e ∈ before, Idle e)
    (chunks : List Chunk) (x : Except Exn Unit) :
    (⟨.lexicalUpsert chunks, x⟩ : BuildEvent K) ∉ before := fun hin => h _ hin

/-- Whatever the embedder and the two upserts do: over indexes that agree, a build leaves
indexes that agree, and the aliases alone if it raises, unless the lexical upsert raises
over chunks that were new to the vector index. -/
theorem never_drift_iff {b : Backends} (hsync : b.InSync)
    (hrun : Prog.Runs (pipeline.run request shortId).run t r) (hknown : KnownOrKeyError t) :
    Undrifted b (t.foldl Backends.step b) r ↔ RefusesHeld b t := by
  rcases run_shape hrun with hidle | ⟨before, chunks, vectors, exn, hidle, rfl⟩
    | ⟨before, chunks, vectors, after, hidle, rfl, hsilent, hraised⟩
  · rw [Backends.foldl_idle hidle]
    refine ⟨fun _ chunks exn hin => ?_, fun _ => ⟨hsync, fun _ => rfl⟩⟩
    exact absurd hin (not_lexical_of_idle hidle chunks _)
  · rw [List.foldl_append, Backends.foldl_idle hidle]
    simp only [List.foldl_cons, List.foldl_nil, Backends.step]
    constructor
    · intro h chunks' exn' hin id
      rcases List.mem_append.mp hin with hin | hin
      · exact absurd hin (not_lexical_of_idle hidle chunks' _)
      · obtain rfl : chunks' = chunks := by simpa using And.left (by simpa using hin)
        have hagree := h.inSync id
        simp only [Backends.write] at hagree
        rw [hagree, hsync id]
    · intro h
      refine ⟨fun id => ?_, fun _ => rfl⟩
      simp only [Backends.write]
      rw [h chunks exn (by simp) id]
      exact hsync id
  · have hwritten : ∀ side id, ((after.foldl Backends.step
        ((b.write .vector chunks).write .lexical chunks)).chunks side).get? id
        = ((b.chunks side).setAll Chunk.chunkId chunks).get? id := by
      intro side id
      rw [Backends.foldl_chunks hsilent]
      cases side <;> rfl
    have hfold : (before ++ ([⟨.vectorUpsert chunks vectors, .ok ()⟩,
        ⟨.lexicalUpsert chunks, .ok ()⟩] : List (BuildEvent K)) ++ after).foldl Backends.step b
        = after.foldl Backends.step ((b.write .vector chunks).write .lexical chunks) := by
      rw [List.foldl_append, List.foldl_append, Backends.foldl_idle hidle]
      rfl
    rw [hfold]
    constructor
    · intro _ chunks' exn hin
      rcases List.mem_append.mp hin with hin | hin
      · rcases List.mem_append.mp hin with hin | hin
        · exact absurd hin (not_lexical_of_idle hidle chunks' _)
        · simp at hin
      · cases hsilent _ hin
    · intro _
      refine ⟨fun id => ?_, fun hfailed => ?_⟩
      · rw [hwritten, hwritten, Dict.get?_setAll, Dict.get?_setAll, hsync id]
      · rw [Backends.foldl_idle (hraised hknown hfailed)]
        rfl

end Runs

/-- A folder with one short file. -/
def shortFile : BuildRequest where
  files := Dict.empty.set ["d", "x.txt"] (.file "1" (some "a"))
  source := ["d"]

/-- Everything works, except perhaps the lexical index. -/
def lexicalAnswers (outcome : Except Exn Unit) : (o : BuildOp ℚ) → BuildResp o
  | .record _ => .ok ()
  | .embed texts => flatEmbedder texts
  | .vectorUpsert _ _ => .ok ()
  | .lexicalUpsert _ => outcome
  | .setAlias _ _ => .ok ()
  | .registryActivate _ => .ok ()

def noChunks : Backends := ⟨fun _ => .empty, .empty⟩

theorem noChunks_inSync : noChunks.InSync := fun _ => rfl

/-- The trace of a build of `shortFile`. -/
def lexicalTrace [Runtime] [Math ℚ] (outcome : Except Exn Unit) : List (BuildEvent ℚ) :=
  (plainPipeline.run shortFile spelledOut).run.trace fun _ => lexicalAnswers outcome

theorem lexicalTrace_known [Runtime] [Math ℚ] (outcome : Except Exn Unit) :
    KnownOrKeyError (lexicalTrace outcome) := by
  intro version exn hin
  have hevent := Prog.mem_trace hin
  cases hevent

theorem never_drift_iff_shortFile :
    let _ := Runtime.ascii
    let _ := unitMath
    ((lexicalTrace (.ok ())).foldl Backends.step noChunks).InSync := by
  intro _ _
  have hrun := Prog.runs_trace (fun _ => lexicalAnswers (.ok ()))
    (plainPipeline.run shortFile spelledOut).run
  refine ((never_drift_iff noChunks_inSync hrun (lexicalTrace_known _)).mpr ?_).inSync
  intro chunks exn hin
  have hevent := Prog.mem_trace hin
  cases hevent

/-- The lexical index refuses its chunks, and the vector index keeps them. -/
theorem refused_chunks_drift :
    ¬ ∀ (_ : Runtime) (_ : Math ℚ) (shortId : List String → String)
      (pipeline : OfflinePipeline ℚ) (request : BuildRequest) (b : Backends)
      (t : List (BuildEvent ℚ)) (r : Except Exn (List Chunk)), b.InSync →
      Prog.Runs (pipeline.run request shortId).run t r → KnownOrKeyError t →
      Undrifted b (t.foldl Backends.step b) r := by
  intro h
  let _ := Runtime.ascii
  let _ := unitMath
  let refused : Except Exn Unit := .error (valueError "down")
  have hend := h Runtime.ascii unitMath spelledOut plainPipeline shortFile noChunks
    (lexicalTrace refused) _ noChunks_inSync (Prog.runs_trace _ _) (lexicalTrace_known _)
  have hsizes : (((lexicalTrace refused).foldl Backends.step noChunks).chunks .vector).items.length
        = 1
      ∧ (((lexicalTrace refused).foldl Backends.step noChunks).chunks .lexical).items.length
        = 0 := by
    decide +kernel
  generalize (lexicalTrace refused).foldl Backends.step noChunks = b at hend hsizes
  obtain ⟨⟨id, chunk⟩, hitem⟩ := List.exists_mem_of_length_pos
    (show 0 < (b.chunks .vector).items.length by omega)
  have hagree := hend.inSync id
  rw [Dict.get?_iff.mpr hitem] at hagree
  have hnone := Dict.get?_iff.mp hagree.symm
  rw [List.length_eq_zero_iff.mp hsizes.2] at hnone
  cases hnone

end Rag
