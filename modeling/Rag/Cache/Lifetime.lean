import Rag.Cache.Memory
import Rag.Cache.Semantic
import Rag.Lib.Runs
import Rag.Pipelines.Execution
import Mathlib.Tactic.Linarith
import Mathlib.Tactic.NormNum

/-!
How old a cached answer can be.

A run is a list of calls of `OnlinePipeline.answer`, each at one clock reading, over one
`MemoryCache` and one `SemanticCache`. Every stored answer carries the reading at which
it was computed, which the program never looks at. The exact cache keeps entries for as
long as it promises unless the time to live is zero; the semantic cache keeps them until
256 newer queries have pushed them out.
-/

namespace Rag

open Py Interaction

/-- A stored answer with the clock reading of the call that computed it. -/
structure Stamped where
  answer : Answer
  computedAt : ℚ

structure AnswerCaches where
  memory : MemoryCache AnswerKey Stamped := {}
  semantic : SemanticCache AnswerScope ℚ Stamped

/-- One call: when, by whom, what the embedder of the semantic cache did in it, and the
operations it asked with the result. -/
structure AnswerCall where
  now : ℚ
  query : String
  principal : Principal
  lookupEmbedding : String → Except Exn Vector
  storeEmbedding : String → Except Exn Vector
  trace : List PipeEvent
  result : Except Exn Answer

/-- The caches and, for reference, the calls they have served. -/
structure ServedCaches where
  caches : AnswerCaches
  done : List AnswerCall := []

section Caches

variable [Runtime] [Math ℚ] (ttlSeconds : ℤ) (call : AnswerCall)

/-- What an operation of a call does to the caches. -/
def cacheStep (caches : AnswerCaches) : PipeEvent → AnswerCaches
  | ⟨.cacheGet key, _⟩ => { caches with memory := (caches.memory.get call.now key).2 }
  | ⟨.cacheSet key answer, _⟩ =>
      { caches with memory := caches.memory.set call.now key ⟨answer, call.now⟩ (some ttlSeconds) }
  | ⟨.semanticSet query answer scope, _⟩ =>
      match caches.semantic.set call.storeEmbedding query ⟨answer, call.now⟩ scope with
      | .ok semantic => { caches with semantic := semantic }
      | .error _ => caches
  | _ => caches

/-- An operation on the caches is answered by them. -/
def CacheAnswers (caches : AnswerCaches) : PipeEvent → Prop
  | ⟨.cacheGet key, got⟩ => got = .ok ((caches.memory.get call.now key).1.map Stamped.answer)
  | ⟨.cacheSet _ _, stored⟩ => stored = .ok ()
  | ⟨.semanticGet query scope, got⟩ =>
      got = (caches.semantic.get call.lookupEmbedding query scope).map (Option.map Stamped.answer)
  | ⟨.semanticSet query answer scope, stored⟩ =>
      stored = (caches.semantic.set call.storeEmbedding query ⟨answer, call.now⟩ scope).map
        fun _ => ()
  | _ => True

instance (caches : AnswerCaches) (e : PipeEvent) : Decidable (CacheAnswers call caches e) :=
  match e with
  | ⟨.cacheGet _, _⟩ => inferInstanceAs (Decidable (_ = _))
  | ⟨.cacheSet _ _, _⟩ => inferInstanceAs (Decidable (_ = _))
  | ⟨.semanticGet _ _, _⟩ => inferInstanceAs (Decidable (_ = _))
  | ⟨.semanticSet _ _ _, _⟩ => inferInstanceAs (Decidable (_ = _))
  | ⟨.startTrace, _⟩ => .isTrue trivial
  | ⟨.currentTraceId, _⟩ => .isTrue trivial
  | ⟨.resolveAlias _, _⟩ => .isTrue trivial
  | ⟨.embed _, _⟩ => .isTrue trivial
  | ⟨.search _ _ _ _, _⟩ => .isTrue trivial
  | ⟨.lexicalSearch _ _ _ _, _⟩ => .isTrue trivial
  | ⟨.rerank _ _ _, _⟩ => .isTrue trivial
  | ⟨.complete _, _⟩ => .isTrue trivial

/-- The caches after a call. -/
def ServedCaches.step (served : ServedCaches) (call : AnswerCall) : ServedCaches where
  caches := call.trace.foldl (cacheStep ttlSeconds call) served.caches
  done := served.done ++ [call]

/-- A call is a run of the pipeline over the caches; everything else it asks may be
answered in any way. -/
structure IsCall (pipeline : OnlinePipeline) (served : ServedCaches) (call : AnswerCall) : Prop where
  runs : Prog.Runs (pipeline.answer call.query call.principal).run call.trace call.result
  answered : Run.EachStep (cacheStep pipeline.settings.cacheTtlSeconds call) (CacheAnswers call)
    served.caches call.trace

end Caches

/-- The answer an operation writes to a cache. -/
def storedBy : PipeEvent → Option Answer
  | ⟨.cacheSet _ answer, _⟩ => some answer
  | ⟨.semanticSet _ answer _, _⟩ => some answer
  | _ => none

/-- The call wrote the answer to a cache: it had just computed it. -/
def Computes (call : AnswerCall) (answer : Answer) : Prop :=
  ∃ e ∈ call.trace, storedBy e = some answer

/-- The key a call looked up. -/
def AskedUnder (call : AnswerCall) (key : AnswerKey) : Prop :=
  ∃ got, ⟨.cacheGet key, got⟩ ∈ call.trace

section Age

variable [Runtime] [Math ℚ]

/-- The entry that answers a lookup: the exact one, or else the semantic one. -/
def AnswerCaches.lookup (caches : AnswerCaches) (call : AnswerCall) (key : AnswerKey) :
    Option Stamped :=
  match (caches.memory.get call.now key).1 with
  | some entry => some entry
  | none =>
      match caches.semantic.get call.lookupEmbedding call.query key.scope with
      | .ok found => found
      | .error _ => none

/-- A cached answer is one that an earlier call computed at most `ttlSeconds` before. -/
def FreshIfCached (ttlSeconds : ℤ) (served : ServedCaches) (call : AnswerCall) : Prop :=
  ∀ key answer, AskedUnder call key → call.result = .ok answer → answer.cached = true →
    ∃ entry past, served.caches.lookup call key = some entry ∧ past ∈ served.done
      ∧ Computes past entry.answer
      ∧ answer = { entry.answer with traceId := answer.traceId, cached := true }
      ∧ past.now = entry.computedAt ∧ call.now - past.now ≤ ttlSeconds

/-- No lookup takes one of the two ways to an old entry: an exact entry stored with a
time to live of zero, and a semantic match after the exact cache has missed. -/
def NotStale (ttlSeconds : ℤ) (served : ServedCaches) (call : AnswerCall) : Prop :=
  ∀ key, AskedUnder call key →
    match (served.caches.memory.get call.now key).1 with
    | some entry => ttlSeconds = 0 → call.now ≤ entry.computedAt
    | none => ∀ entry,
        served.caches.semantic.get call.lookupEmbedding call.query key.scope = .ok (some entry) →
        call.now - entry.computedAt ≤ ttlSeconds

end Age

/-- The entry is in one of the caches. -/
def AnswerCaches.Holds (caches : AnswerCaches) (entry : Stamped) : Prop :=
  (∃ key expires, caches.memory.store.get? key = some (entry, expires))
    ∨ ∃ scope bucket, caches.semantic.buckets.get? scope = some bucket ∧
      ∃ e ∈ bucket, e.value = entry

section Holds

variable [Runtime] [Math ℚ] {ttlSeconds : ℤ} {call : AnswerCall} {caches : AnswerCaches}

omit [Math ℚ] in
/-- An operation adds at most the answer it stores, stamped with the time of its call. -/
theorem holds_cacheStep {e : PipeEvent} {entry : Stamped}
    (h : (cacheStep ttlSeconds call caches e).Holds entry) :
    caches.Holds entry ∨ storedBy e = some entry.answer ∧ entry.computedAt = call.now := by
  obtain ⟨op, resp⟩ := e
  cases op with
  | cacheGet key =>
      rcases h with ⟨key', expires, hget⟩ | h
      · exact Or.inl (Or.inl ⟨key', expires, MemoryCache.get_store hget⟩)
      · exact Or.inl (Or.inr h)
  | cacheSet key answer =>
      rcases h with ⟨key', expires, hget⟩ | h
      · change (caches.memory.store.set key _).get? key' = _ at hget
        rw [Dict.get?_set] at hget
        split_ifs at hget
        · cases hget
          exact Or.inr ⟨rfl, rfl⟩
        · exact Or.inl (Or.inl ⟨key', expires, hget⟩)
      · exact Or.inl (Or.inr h)
  | semanticSet query answer scope =>
      change AnswerCaches.Holds (match caches.semantic.set call.storeEmbedding query
        ⟨answer, call.now⟩ scope with
        | .ok semantic => { caches with semantic := semantic }
        | .error _ => caches) entry at h
      cases hset : caches.semantic.set call.storeEmbedding query ⟨answer, call.now⟩ scope with
      | error exn =>
          rw [hset] at h
          exact Or.inl h
      | ok semantic =>
          rw [hset] at h
          rcases h with h | ⟨scope', bucket, hbucket, e, he, hvalue⟩
          · exact Or.inl (Or.inl h)
          · rcases SemanticCache.set_holds hset hbucket he hvalue with rfl | hold
            · exact Or.inr ⟨rfl, rfl⟩
            · exact Or.inl (Or.inr ⟨scope', hold⟩)
  | _ => exact Or.inl h

omit [Math ℚ] in
theorem holds_foldl {t : List PipeEvent} {entry : Stamped}
    (h : (t.foldl (cacheStep ttlSeconds call) caches).Holds entry) :
    caches.Holds entry
      ∨ (∃ e ∈ t, storedBy e = some entry.answer) ∧ entry.computedAt = call.now := by
  induction t generalizing caches with
  | nil => exact Or.inl h
  | cons e t ih =>
      rcases ih h with h | ⟨⟨e', he', hstored⟩, hnow⟩
      · rcases holds_cacheStep h with h | ⟨hstored, hnow⟩
        · exact Or.inl h
        · exact Or.inr ⟨⟨e, List.mem_cons_self, hstored⟩, hnow⟩
      · exact Or.inr ⟨⟨e', List.mem_cons_of_mem _ he', hstored⟩, hnow⟩

/-- Exact entries expire `ttlSeconds` after they were computed, unless that is zero. -/
def AnswerCaches.Expiring (ttlSeconds : ℤ) (caches : AnswerCaches) : Prop :=
  ∀ key entry expires, caches.memory.store.get? key = some (entry, expires) →
    expires = MemoryCache.expiry entry.computedAt (some ttlSeconds)

omit [Math ℚ] in
theorem expiring_cacheStep {e : PipeEvent} (h : caches.Expiring ttlSeconds) :
    (cacheStep ttlSeconds call caches e).Expiring ttlSeconds := by
  intro key' entry expires hget
  obtain ⟨op, resp⟩ := e
  cases op with
  | cacheGet key => exact h key' entry expires (MemoryCache.get_store hget)
  | cacheSet key answer =>
      change (caches.memory.store.set key _).get? key' = _ at hget
      rw [Dict.get?_set] at hget
      split_ifs at hget
      · cases hget
        rfl
      · exact h key' entry expires hget
  | semanticSet query answer scope =>
      refine h key' entry expires ?_
      rw [← hget]
      change _ = (match caches.semantic.set call.storeEmbedding query ⟨answer, call.now⟩ scope with
        | .ok semantic => { caches with semantic := semantic }
        | .error _ => caches).memory.store.get? key'
      cases caches.semantic.set call.storeEmbedding query ⟨answer, call.now⟩ scope <;> rfl
  | _ => exact h key' entry expires hget

omit [Math ℚ] in
theorem expiring_foldl {t : List PipeEvent} (h : caches.Expiring ttlSeconds) :
    (t.foldl (cacheStep ttlSeconds call) caches).Expiring ttlSeconds := by
  induction t generalizing caches with
  | nil => exact h
  | cons e t ih => exact ih (expiring_cacheStep h)

end Holds

section Call

variable [Runtime] [Math ℚ] {pipeline : OnlinePipeline} {served : ServedCaches} {call : AnswerCall}

/-- What a run keeps: exact entries expire on time, and every entry was computed by a call
that has been served. -/
structure Lived (ttlSeconds : ℤ) (served : ServedCaches) : Prop where
  expiring : served.caches.Expiring ttlSeconds
  computed : ∀ entry, served.caches.Holds entry →
    ∃ past ∈ served.done, Computes past entry.answer ∧ past.now = entry.computedAt

omit [Math ℚ] in
theorem Lived.step {ttlSeconds : ℤ} (h : Lived ttlSeconds served) (call : AnswerCall) :
    Lived ttlSeconds (served.step ttlSeconds call) := by
  constructor
  · exact expiring_foldl h.expiring
  · intro entry hholds
    rcases holds_foldl hholds with hold | ⟨hstored, hnow⟩
    · obtain ⟨past, hpast, hcomputes⟩ := h.computed entry hold
      exact ⟨past, List.mem_append_left _ hpast, hcomputes⟩
    · exact ⟨call, List.mem_append_right _ (List.mem_singleton_self call), hstored, hnow.symm⟩

theorem lookup_holds {key : AnswerKey} {entry : Stamped}
    (h : served.caches.lookup call key = some entry) : served.caches.Holds entry := by
  rw [AnswerCaches.lookup] at h
  split at h
  · rename_i hit hexact
    cases h
    obtain ⟨expires, hget, -⟩ := MemoryCache.get_hit hexact
    exact Or.inl ⟨key, expires, hget⟩
  · split at h
    · rename_i found hnear
      rw [h] at hnear
      exact Or.inr ⟨key.scope, SemanticCache.get_hit hnear⟩
    · cases h

/-- A call returns what the lookup of its key finds, and otherwise no cached answer. -/
theorem call_result (hcache : pipeline.settings.cacheEnabled = true)
    (hsemantic : pipeline.semanticCache = true) (h : IsCall pipeline served call) :
    ∃ key traceId, (∀ key', AskedUnder call key' ↔ key' = key) ∧
      match served.caches.lookup call key with
      | some entry => call.result = .ok { entry.answer with traceId := traceId, cached := true }
      | none => ∀ answer, call.result = .ok answer → answer.cached = false := by
  obtain ⟨traceId, resolved, key, got, rest, htrace, hafter⟩ :=
    answer_trace hcache hsemantic h.runs
  have hanswered := h.answered
  rw [htrace] at hanswered
  obtain ⟨-, -, hgot, hrest⟩ := hanswered
  refine ⟨key, traceId, ?_, ?_⟩
  · intro key'
    rw [AskedUnder, htrace]
    constructor
    · rintro ⟨got', hmem⟩
      simp only [List.mem_cons] at hmem
      rcases hmem with hmem | hmem | hmem | hmem
      · cases hmem
      · cases hmem
      · cases hmem
        rfl
      · exact absurd rfl (hafter.no_lookup _ hmem key')
    · rintro rfl
      exact ⟨got, by simp⟩
  · change got = .ok ((served.caches.memory.get call.now key).1.map Stamped.answer) at hgot
    rw [AnswerCaches.lookup]
    cases hexact : (served.caches.memory.get call.now key).1 with
    | some entry =>
        rw [hexact] at hgot
        subst hgot
        exact hafter.2
    | none =>
        rw [hexact] at hgot
        subst hgot
        obtain ⟨near, rest', rfl, hnear⟩ := hafter
        have hsemanticGet := hrest.1
        change near = (served.caches.semantic.get call.lookupEmbedding call.query key.scope).map
          (Option.map Stamped.answer) at hsemanticGet
        cases hfound : served.caches.semantic.get call.lookupEmbedding call.query key.scope with
        | error exn =>
            rw [hfound] at hsemanticGet
            subst hsemanticGet
            intro answer hanswer
            rw [hnear.2] at hanswer
            cases hanswer
        | ok found =>
            rw [hfound] at hsemanticGet
            subst hsemanticGet
            cases found with
            | some entry => exact hnear.2
            | none => exact fun answer hanswer => (hnear.2 answer hanswer).1

omit [Runtime] [Math ℚ] in
/-- What the exact cache still holds is young enough, unless its entries never expire. -/
theorem exact_fresh_iff {ttlSeconds : ℤ} {key : AnswerKey}
    {entry : Stamped} (hlived : Lived ttlSeconds served)
    (h : (served.caches.memory.get call.now key).1 = some entry) :
    call.now - entry.computedAt ≤ ttlSeconds ↔ (ttlSeconds = 0 → call.now ≤ entry.computedAt) := by
  obtain ⟨expires, hget, hexpired⟩ := MemoryCache.get_hit h
  have hexpires := hlived.expiring key entry expires hget
  rw [MemoryCache.expiry] at hexpires
  by_cases hzero : ttlSeconds = 0
  · rw [hzero, Int.cast_zero, sub_nonpos]
    simp
  · rw [if_neg hzero] at hexpires
    rw [hexpires, MemoryCache.expired, decide_eq_false_iff_not, not_lt] at hexpired
    refine iff_of_true ?_ fun h => absurd h hzero
    linarith

theorem freshIfCached_iff (hcache : pipeline.settings.cacheEnabled = true)
    (hsemantic : pipeline.semanticCache = true)
    (hlived : Lived pipeline.settings.cacheTtlSeconds served) (h : IsCall pipeline served call) :
    FreshIfCached pipeline.settings.cacheTtlSeconds served call
      ↔ NotStale pipeline.settings.cacheTtlSeconds served call := by
  obtain ⟨key, traceId, hasked, hresult⟩ := call_result hcache hsemantic h
  -- A call whose lookup finds `entry` is fresh when the entry is young enough.
  have hfresh : ∀ entry, served.caches.lookup call key = some entry →
      (FreshIfCached pipeline.settings.cacheTtlSeconds served call
        ↔ call.now - entry.computedAt ≤ pipeline.settings.cacheTtlSeconds) := by
    intro entry hlookup
    rw [hlookup] at hresult
    constructor
    · intro hfresh
      obtain ⟨entry', past, hlookup', -, -, -, hpast, hage⟩ :=
        hfresh key _ ((hasked key).mpr rfl) hresult rfl
      rw [hlookup] at hlookup'
      cases hlookup'
      rw [← hpast]
      exact hage
    · intro hage key' answer hkey' hanswer _
      rw [(hasked key').mp hkey']
      obtain ⟨past, hpast, hcomputes, hnow⟩ := hlived.computed entry (lookup_holds hlookup)
      rw [hresult] at hanswer
      cases hanswer
      exact ⟨entry, past, hlookup, hpast, hcomputes, rfl, hnow, by rw [hnow]; exact hage⟩
  have hnotStale : NotStale pipeline.settings.cacheTtlSeconds served call ↔
      match (served.caches.memory.get call.now key).1 with
      | some entry => pipeline.settings.cacheTtlSeconds = 0 → call.now ≤ entry.computedAt
      | none => ∀ entry, served.caches.semantic.get call.lookupEmbedding call.query key.scope
          = .ok (some entry) → call.now - entry.computedAt ≤ pipeline.settings.cacheTtlSeconds := by
    constructor
    · intro h
      exact h key ((hasked key).mpr rfl)
    · intro h key' hkey'
      rw [(hasked key').mp hkey']
      exact h
  rw [hnotStale]
  cases hexact : (served.caches.memory.get call.now key).1 with
  | some entry =>
      have hlookup : served.caches.lookup call key = some entry := by
        rw [AnswerCaches.lookup, hexact]
      rw [hfresh entry hlookup]
      exact exact_fresh_iff hlived hexact
  | none =>
      cases hlookup : served.caches.lookup call key with
      | some entry =>
          have hnear : served.caches.semantic.get call.lookupEmbedding call.query key.scope
              = .ok (some entry) := by
            rw [AnswerCaches.lookup, hexact] at hlookup
            dsimp only at hlookup
            split at hlookup
            · rename_i found hfound
              rw [hfound, hlookup]
            · cases hlookup
          rw [hfresh entry hlookup]
          constructor
          · intro hage entry' hentry'
            rw [hnear] at hentry'
            cases hentry'
            exact hage
          · intro h
            exact h entry hnear
      | none =>
          rw [hlookup] at hresult
          refine iff_of_true ?_ ?_
          · intro key' answer _ hanswer hcached
            rw [hresult answer hanswer] at hcached
            cases hcached
          · intro entry hnear
            rw [AnswerCaches.lookup, hexact] at hlookup
            dsimp only at hlookup
            rw [hnear] at hlookup
            cases hlookup

end Call

/-- Empty caches. -/
def freshCaches (threshold : ℚ) (maxEntriesPerScope : Nat) : ServedCaches where
  caches := { semantic := { threshold := threshold, maxEntriesPerScope := maxEntriesPerScope } }

theorem freshCaches_lived (ttlSeconds : ℤ) (threshold : ℚ) (maxEntriesPerScope : Nat) :
    Lived ttlSeconds (freshCaches threshold maxEntriesPerScope) := by
  constructor
  · intro key entry expires h
    cases h
  · rintro entry (⟨key, expires, h⟩ | ⟨scope, bucket, h, -⟩)
    · cases h
    · cases h

section Run

variable [Runtime] [Math ℚ]

end Run

def onCallChunk : Chunk where
  chunkId := "chunk-a"
  docId := "rota"
  ordinal := 0
  text := "Ann is on call."
  span := (0, 15)
  acl := { tenant := "acme" }
  indexVersion := "v1"

def answeringPipeline : OnlinePipeline where
  settings := { piiRedactionEnabled := false }
  semanticCache := true

/-- Everything but the caches. -/
def onCallAnswers (exact near : Option Answer) : (o : PipeOp) → PipeResp o
  | .startTrace => "t"
  | .currentTraceId => "t"
  | .resolveAlias _ => some "v1"
  | .cacheGet _ => .ok exact
  | .cacheSet _ _ => .ok ()
  | .semanticGet _ _ => .ok near
  | .semanticSet _ _ _ => .ok ()
  | .embed texts => .ok (texts.map fun _ => [1])
  | .search _ _ _ _ => .ok [⟨onCallChunk, 1, 1, .dense⟩]
  | .lexicalSearch _ _ _ _ => .ok []
  | .rerank _ candidates _ => .ok (.all candidates)
  | .complete _ => .ok ("Ann is on call [chunk-a]", {})

def onCallAt [Runtime] (now : ℚ) (exact near : Option Answer) : AnswerCall :=
  let program := (answeringPipeline.answer "who is on call" ⟨"bob", ∅, "acme"⟩).run
  let answers := onCallAnswers exact near
  { now := now
    query := "who is on call"
    principal := ⟨"bob", ∅, "acme"⟩
    lookupEmbedding := fun _ => .ok [1]
    storeEmbedding := fun _ => .ok [1]
    trace := program.trace fun _ => answers
    result := program.result fun _ => answers }

theorem onCallAt_runs [Runtime] (now : ℚ) (exact near : Option Answer) :
    Prog.Runs (answeringPipeline.answer (onCallAt now exact near).query
      (onCallAt now exact near).principal).run (onCallAt now exact near).trace
      (onCallAt now exact near).result :=
  Prog.runs_trace (fun _ => onCallAnswers exact near)
    (answeringPipeline.answer "who is on call" ⟨"bob", ∅, "acme"⟩).run

/-- The answer that is stored the first time. -/
def onCallAnswer [Runtime] : Option Answer := (onCallAt 0 none none).result.toOption

/-- The same question at noon and at half past one. -/
def onCallTwice [Runtime] : List AnswerCall :=
  [onCallAt 0 none none, onCallAt 5400 none onCallAnswer]

theorem onCallTwice_isRun :
    let _ := Runtime.ascii
    let _ := unitMath
    Run.EachStep (ServedCaches.step 3600) (IsCall answeringPipeline) (freshCaches (19 / 20) 256)
      onCallTwice := by
  intro _ _
  have hfirst : Run.EachStep (cacheStep 3600 (onCallAt 0 none none))
      (CacheAnswers (onCallAt 0 none none)) (freshCaches (19 / 20) 256).caches
      (onCallAt 0 none none).trace := by
    apply (Run.checkSteps_iff _ _ _ _).mp
    decide +kernel
  have hsecond : Run.EachStep (cacheStep 3600 (onCallAt 5400 none onCallAnswer))
      (CacheAnswers (onCallAt 5400 none onCallAnswer))
      ((freshCaches (19 / 20) 256).step 3600 (onCallAt 0 none none)).caches
      (onCallAt 5400 none onCallAnswer).trace := by
    apply (Run.checkSteps_iff _ _ _ _).mp
    decide +kernel
  exact ⟨⟨onCallAt_runs 0 none none, hfirst⟩, ⟨onCallAt_runs 5400 none onCallAnswer, hsecond⟩,
    trivial⟩

end Rag
