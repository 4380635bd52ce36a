import Rag.Cache.Semantic
import Rag.Lib.Recent

/-!
What the buckets of the semantic cache hold after any writes, and what a lookup returns.

A write is a call of `set` whose embedder did not raise. The queries of a bucket are those that
`Recent.held` keeps of the queries written in its scope since the last `clear`, and every entry is
the latest write of its query. A lookup scans its own bucket only. Similarities are floats: a NaN is
neither above nor below the best so far or the threshold, so a lookup that meets none returns an
entry of the greatest similarity (`get_eq_some`), and one that does may return any.
-/

namespace Rag

open Py

section Bucket

variable {K V : Type}

/-- The entry is the last of the writes of its query. -/
def LatestWrite (writes : List (SemanticEntry K V)) (entry : SemanticEntry K V) : Prop :=
  ∃ before after, writes = before ++ entry :: after ∧ ∀ e ∈ after, e.query ≠ entry.query

/-- The bucket after the writes of a scope. -/
structure Bucketed (limit : Nat) (writes bucket : List (SemanticEntry K V)) : Prop where
  queries : bucket.map SemanticEntry.query
    = Recent.held limit (writes.map SemanticEntry.query)
  latest : ∀ entry ∈ bucket, LatestWrite writes entry

variable {limit : Nat} {writes bucket : List (SemanticEntry K V)} {entry e : SemanticEntry K V}

theorem latestWrite_self (writes : List (SemanticEntry K V)) (entry : SemanticEntry K V) :
    LatestWrite (writes ++ [entry]) entry :=
  ⟨writes, [], rfl, by simp⟩

theorem LatestWrite.snoc (h : LatestWrite writes e) (hquery : entry.query ≠ e.query) :
    LatestWrite (writes ++ [entry]) e := by
  obtain ⟨before, after, rfl, hafter⟩ := h
  refine ⟨before, after ++ [entry], by simp, ?_⟩
  intro o ho
  rcases List.mem_append.mp ho with ho | ho
  · exact hafter o ho
  · rwa [List.mem_singleton.mp ho]

theorem bucketed_nil (limit : Nat) : Bucketed limit ([] : List (SemanticEntry K V)) [] where
  queries := (Recent.held_nil limit).symm
  latest := by simp

theorem Bucketed.nodup (h : Bucketed limit writes bucket) :
    (bucket.map SemanticEntry.query).Nodup := by
  rw [h.queries]
  exact Recent.held_nodup _ _

theorem Bucketed.length_le (h : Bucketed limit writes bucket) : bucket.length ≤ limit := by
  rw [← List.length_map SemanticEntry.query, h.queries]
  exact Recent.held_length_le _ _

/-- A query that is held is refreshed in its place. -/
theorem placeEntry_of_mem (limit : Nat) (hmem : entry.query ∈ bucket.map SemanticEntry.query) :
    ∃ before old after, bucket = before ++ old :: after ∧ old.query = entry.query
      ∧ placeEntry limit entry bucket = before ++ entry :: after := by
  obtain ⟨old, hold, hquery⟩ := List.mem_map.mp hmem
  cases hfind : bucket.findIdx? fun e => e.query = entry.query with
  | none =>
      have hnone := List.findIdx?_eq_none_iff.mp hfind old hold
      exact absurd hquery (by simpa using hnone)
  | some i =>
      obtain ⟨hi, hfound, -⟩ := List.findIdx?_eq_some_iff_getElem.mp hfind
      refine ⟨bucket.take i, bucket[i], bucket.drop (i + 1), ?_, by simpa using hfound, ?_⟩
      · rw [List.getElem_cons_drop, List.take_append_drop]
      · rw [placeEntry, hfind]
        exact List.set_eq_take_append_cons_drop.trans (if_pos hi)

theorem placeEntry_of_not_mem (hmem : entry.query ∉ bucket.map SemanticEntry.query) :
    placeEntry limit entry bucket = Recent.push limit bucket entry := by
  have hfind : (bucket.findIdx? fun e => e.query = entry.query) = none := by
    rw [List.findIdx?_eq_none_iff]
    intro e he
    have hne : e.query ≠ entry.query := fun heq => hmem (List.mem_map.mpr ⟨e, he, heq⟩)
    simpa using hne
  rw [placeEntry, hfind]
  rfl

/-- One write. -/
theorem Bucketed.placeEntry (h : Bucketed limit writes bucket) (entry : SemanticEntry K V) :
    Bucketed limit (writes ++ [entry]) (placeEntry limit entry bucket) := by
  by_cases hmem : entry.query ∈ bucket.map SemanticEntry.query
  · have hheld : entry.query ∈ Recent.held limit (writes.map SemanticEntry.query) :=
      h.queries ▸ hmem
    obtain ⟨before, old, after, rfl, hold, hplaced⟩ := placeEntry_of_mem limit hmem
    rw [hplaced]
    have hqueries := h.queries
    have hnodup := h.nodup
    rw [List.map_append, List.map_cons, hold] at hqueries hnodup
    rw [List.nodup_append, List.nodup_cons] at hnodup
    obtain ⟨-, ⟨hafter, -⟩, hbefore⟩ := hnodup
    constructor
    · rw [List.map_append, List.map_cons, hqueries, List.map_append, List.map_singleton,
        Recent.held_of_mem hheld]
    · -- the other entries are entries of other queries
      intro e he
      rcases List.mem_append.mp he with he | he
      · refine (h.latest e (List.mem_append_left _ he)).snoc ?_
        exact (hbefore _ (List.mem_map_of_mem he) _ List.mem_cons_self).symm
      · rcases List.mem_cons.mp he with rfl | he
        · exact latestWrite_self _ _
        · refine (h.latest e (List.mem_append_right _ (List.mem_cons_of_mem _ he))).snoc ?_
          intro heq
          exact hafter (heq ▸ List.mem_map_of_mem he)
  · have hheld : entry.query ∉ Recent.held limit (writes.map SemanticEntry.query) :=
      h.queries ▸ hmem
    rw [placeEntry_of_not_mem hmem]
    constructor
    · rw [Recent.map_push, h.queries, List.map_append, List.map_singleton,
        Recent.held_of_not_mem hheld]
    · intro e he
      rcases List.mem_append.mp ((Recent.push_sublist _ _ _).subset he) with he | he
      · refine (h.latest e he).snoc ?_
        intro heq
        exact hmem (heq ▸ List.mem_map_of_mem he)
      · rw [List.mem_singleton.mp he]
        exact latestWrite_self _ _

end Bucket

section Best

variable [Math PyFloat] {V : Type} {vector : List PyFloat}
  {entries : List (SemanticEntry PyFloat V)}

/-- The similarity of every entry is a number. -/
def Measured (vector : List PyFloat) (entries : List (SemanticEntry PyFloat V)) : Prop :=
  ∀ e ∈ entries, cosine vector e.vector ≠ .nan

/-- An entry of the greatest similarity, with it; none when there is no entry. -/
def IsBest (vector : List PyFloat) (entries : List (SemanticEntry PyFloat V))
    (best : Option (PyFloat × SemanticEntry PyFloat V)) : Prop :=
  (best = none → entries = [])
    ∧ ∀ b, best = some b → b.2 ∈ entries ∧ b.1 = cosine vector b.2.vector
      ∧ ∀ e ∈ entries, cosine vector e.vector ≤ b.1

theorem bestEntry_isBest (h : Measured vector entries) :
    IsBest vector entries (bestEntry vector entries) := by
  induction entries using List.reverseRecOn with
  | nil => exact ⟨fun _ => rfl, fun b hb => (by cases hb)⟩
  | append_singleton entries entry ih =>
      have hbefore : Measured vector entries := fun e he => h e (List.mem_append_left _ he)
      have hentry : cosine vector entry.vector ≠ .nan := h entry (by simp)
      have hscan := ih hbefore
      unfold bestEntry at hscan ⊢
      rw [List.foldl_append, List.foldl_cons, List.foldl_nil]
      generalize List.foldl _ none entries = best at hscan ⊢
      obtain ⟨hempty, hbest⟩ := hscan
      cases best with
      | none =>
          obtain rfl := hempty rfl
          refine ⟨fun hnone => (by cases hnone), ?_⟩
          rintro b ⟨⟩
          refine ⟨List.mem_singleton_self _, rfl, ?_⟩
          intro e he
          rw [List.mem_singleton.mp he]
          exact PyFloat.le_refl hentry
      | some top =>
          obtain ⟨hmem, hscore, htop⟩ := hbest top rfl
          have hnumber : top.1 ≠ .nan := by
            rw [hscore]
            exact hbefore top.2 hmem
          dsimp only
          split_ifs with hbetter
          · refine ⟨fun hnone => (by cases hnone), ?_⟩
            rintro b ⟨⟩
            refine ⟨List.mem_append_right _ (List.mem_singleton_self _), rfl, ?_⟩
            intro e he
            rcases List.mem_append.mp he with he | he
            · exact PyFloat.le_of_lt (PyFloat.lt_of_le_of_lt (htop e he) hbetter)
            · rw [List.mem_singleton.mp he]
              exact PyFloat.le_refl hentry
          · refine ⟨fun hnone => (by cases hnone), ?_⟩
            rintro b ⟨⟩
            refine ⟨List.mem_append_left _ hmem, hscore, ?_⟩
            intro e he
            rcases List.mem_append.mp he with he | he
            · exact htop e he
            · rw [List.mem_singleton.mp he]
              exact (PyFloat.not_lt hnumber hentry).mp hbetter

end Best

/-- A call on the cache. The embedder need not be the same in every call. -/
inductive SemanticOp (σ K V : Type) where
  | set (embedQuery : String → Except Exn (List K)) (query : String) (value : V) (scope : σ)
  | clear

namespace SemanticCache

variable {σ K V : Type} [DecidableEq σ] [Runtime]

/-- A call that raises has no effect. -/
def step (cache : SemanticCache σ K V) : SemanticOp σ K V → SemanticCache σ K V
  | .set embedQuery query value scope =>
      match cache.set embedQuery query value scope with
      | .ok cache => cache
      | .error _ => cache
  | .clear => cache.clear

/-- The writes of a scope after one more call. -/
def noteWrite (scope : σ) (writes : List (SemanticEntry K V)) :
    SemanticOp σ K V → List (SemanticEntry K V)
  | .set embedQuery query value scope' =>
      match embedQuery (normalizeQuery query) with
      | .ok vector =>
          if scope' = scope then writes ++ [⟨normalizeQuery query, vector, value⟩] else writes
      | .error _ => writes
  | .clear => []

/-- The writes of a scope since the last `clear`. -/
def writesOf (scope : σ) (ops : List (SemanticOp σ K V)) : List (SemanticEntry K V) :=
  ops.foldl (noteWrite scope) []

/-- The entries of a scope. -/
def bucket (cache : SemanticCache σ K V) (scope : σ) : List (SemanticEntry K V) :=
  (cache.buckets.get? scope).getD []

section Steps

variable {cache cache' : SemanticCache σ K V} {embedQuery : String → Except Exn (List K)}
  {query : String} {scope : σ}

theorem bucket_set {value : V} (h : cache.set embedQuery query value scope = .ok cache') :
    ∃ vector, embedQuery (normalizeQuery query) = .ok vector
      ∧ cache'.threshold = cache.threshold
      ∧ cache'.maxEntriesPerScope = cache.maxEntriesPerScope
      ∧ ∀ scope', cache'.bucket scope' = if scope = scope'
        then placeEntry cache.maxEntriesPerScope ⟨normalizeQuery query, vector, value⟩
          (cache.bucket scope)
        else cache.bucket scope' := by
  obtain ⟨vector, hvector, hcache⟩ := ok_of_bind h
  obtain rfl := Except.ok.inj hcache
  refine ⟨vector, hvector, rfl, rfl, ?_⟩
  intro scope'
  rw [bucket, Dict.get?_set]
  by_cases hscope : scope = scope'
  · rw [if_pos hscope, if_pos hscope.symm]
    rfl
  · rw [if_neg hscope, if_neg (Ne.symm hscope)]
    rfl

/-- A call that raises is a call of an embedder that raises. -/
theorem set_error {value : V} {exn : Exn}
    (h : cache.set embedQuery query value scope = .error exn) :
    embedQuery (normalizeQuery query) = .error exn := by
  rcases error_of_bind h with h | ⟨vector, -, h⟩
  · exact h
  · cases h

theorem writesOf_clear (scope : σ) (ops : List (SemanticOp σ K V)) :
    writesOf scope (ops ++ [.clear]) = [] := by
  rw [writesOf, List.foldl_append]
  rfl

theorem writesOf_set (ops : List (SemanticOp σ K V)) {value : V} {vector : List K}
    (h : embedQuery (normalizeQuery query) = .ok vector) (scope' : σ) :
    writesOf scope' (ops ++ [.set embedQuery query value scope])
      = if scope = scope' then writesOf scope' ops ++ [⟨normalizeQuery query, vector, value⟩]
        else writesOf scope' ops := by
  rw [writesOf, List.foldl_append, List.foldl_cons, List.foldl_nil, noteWrite, h]
  rfl

theorem writesOf_raising (ops : List (SemanticOp σ K V)) {value : V} {exn : Exn}
    (h : embedQuery (normalizeQuery query) = .error exn) (scope' : σ) :
    writesOf scope' (ops ++ [.set embedQuery query value scope]) = writesOf scope' ops := by
  rw [writesOf, List.foldl_append, List.foldl_cons, List.foldl_nil, noteWrite, h]
  rfl

end Steps

section Lookups

variable [Math PyFloat] {cache cache' : SemanticCache σ PyFloat V}
  {embedQuery : String → Except Exn (List PyFloat)} {query : String} {scope : σ}

/-- What is looked up in a scope depends on its bucket alone. -/
theorem get_congr (hthreshold : cache'.threshold = cache.threshold)
    (hbucket : cache'.bucket scope = cache.bucket scope) :
    cache'.get embedQuery query scope = cache.get embedQuery query scope := by
  unfold bucket at hbucket
  rw [SemanticCache.get, SemanticCache.get, hthreshold, hbucket]

variable {vector : List PyFloat} (hvector : embedQuery (normalizeQuery query) = .ok vector)
  (hmeasured : Measured vector (cache.bucket scope)) (hthreshold : cache.threshold ≠ .nan)

include hvector hmeasured hthreshold

/-- Where every similarity is a number, a lookup returns the value of an entry of the greatest
similarity of all entries of the scope. -/
theorem get_eq_some {value : V} (h : cache.get embedQuery query scope = .ok (some value)) :
    ∃ entry ∈ cache.bucket scope,
      entry.value = value ∧ cache.threshold ≤ cosine vector entry.vector
      ∧ ∀ e ∈ cache.bucket scope, cosine vector e.vector ≤ cosine vector entry.vector := by
  rw [SemanticCache.get, ← bucket] at h
  split_ifs at h with hempty
  · cases h
  · obtain ⟨vector', hvector', h⟩ := ok_of_bind h
    obtain rfl : vector' = vector := Except.ok.inj (hvector'.symm.trans hvector)
    have hbest := bestEntry_isBest hmeasured
    cases hentry : bestEntry vector' (cache.bucket scope) with
    | none => exact absurd (hbest.1 hentry) hempty
    | some best =>
        obtain ⟨hmem, hscore, htop⟩ := hbest.2 best hentry
        rw [hentry] at h
        dsimp only at h
        split_ifs at h with hbelow
        · cases h
        · obtain rfl := Option.some.inj (Except.ok.inj h)
          rw [hscore] at hbelow htop
          have habove := (PyFloat.not_lt (hmeasured best.2 hmem) hthreshold).mp hbelow
          exact ⟨best.2, hmem, rfl, habove, htop⟩

omit hthreshold in
/-- A lookup misses when no entry is similar enough. -/
theorem get_eq_none_iff : cache.get embedQuery query scope = .ok none
    ↔ ∀ e ∈ cache.bucket scope, cosine vector e.vector < cache.threshold := by
  have hbest := bestEntry_isBest hmeasured
  rw [SemanticCache.get, ← bucket, hvector]
  cases hentry : bestEntry vector (cache.bucket scope) with
  | none =>
      rw [hbest.1 hentry]
      simp
  | some best =>
      obtain ⟨hmem, hscore, htop⟩ := hbest.2 best hentry
      rw [if_neg (List.ne_nil_of_mem hmem)]
      simp only [Bind.bind, Except.bind, hentry]
      split_ifs with hbelow
      · exact iff_of_true rfl fun e he => PyFloat.lt_of_le_of_lt (htop e he) hbelow
      · refine iff_of_false (by simp) ?_
        intro hall
        exact hbelow (hscore ▸ hall best.2 hmem)

end Lookups

section Runs

variable (threshold : K) (limit : Nat) (ops : List (SemanticOp σ K V))

/-- The cache after some calls. -/
def after : SemanticCache σ K V := ops.foldl step ⟨threshold, limit, .empty⟩

theorem after_snoc (op : SemanticOp σ K V) :
    after threshold limit (ops ++ [op]) = (after threshold limit ops).step op := by
  rw [after, List.foldl_append]
  rfl

theorem after_bucketed :
    (after threshold limit ops).threshold = threshold
      ∧ (after threshold limit ops).maxEntriesPerScope = limit
      ∧ ∀ scope, Bucketed limit (writesOf scope ops) ((after threshold limit ops).bucket scope) := by
  induction ops using List.reverseRecOn with
  | nil => exact ⟨rfl, rfl, fun scope => bucketed_nil limit⟩
  | append_singleton ops op ih =>
      obtain ⟨hthreshold, hlimit, hbuckets⟩ := ih
      rw [after_snoc]
      cases op with
      | clear =>
          refine ⟨hthreshold, hlimit, ?_⟩
          intro scope
          rw [writesOf_clear]
          exact bucketed_nil limit
      | set embedQuery query value scope =>
          cases hset : (after threshold limit ops).set embedQuery query value scope with
          | error exn =>
              have hstep : (after threshold limit ops).step (.set embedQuery query value scope)
                  = after threshold limit ops := by
                rw [step, hset]
              rw [hstep]
              refine ⟨hthreshold, hlimit, ?_⟩
              intro scope'
              rw [writesOf_raising ops (set_error hset)]
              exact hbuckets scope'
          | ok cache' =>
              have hstep : (after threshold limit ops).step (.set embedQuery query value scope)
                  = cache' := by
                rw [step, hset]
              obtain ⟨vector, hvector, hthreshold', hlimit', hbucket'⟩ := bucket_set hset
              rw [hstep]
              refine ⟨hthreshold'.trans hthreshold, hlimit'.trans hlimit, ?_⟩
              intro scope'
              rw [writesOf_set ops hvector, hbucket', hlimit]
              split_ifs with hscope
              · rw [← hscope]
                exact (hbuckets scope).placeEntry _
              · exact hbuckets scope'

end Runs

/-- After any calls of `set` and `clear`, over any scopes and with any embedders. Which entry a
lookup returns is settled where the similarities are numbers. -/
theorem semantic_cache_represents [Math PyFloat] (threshold : PyFloat)
    (limit : Nat) (ops : List (SemanticOp σ PyFloat V)) (scope : σ) :
    let cache := after threshold limit ops
    let writes := writesOf scope ops
    ((cache.bucket scope).map SemanticEntry.query).Nodup
      ∧ cache.size (some scope) ≤ limit
      ∧ (cache.bucket scope).map SemanticEntry.query
        = Recent.held limit (writes.map SemanticEntry.query)
      ∧ (∀ entry ∈ cache.bucket scope, LatestWrite writes entry)
      ∧ (∀ embedQuery query value, cache.get embedQuery query scope = .ok (some value) →
        ∃ entry ∈ cache.bucket scope, entry.value = value ∧ LatestWrite writes entry)
      ∧ (∀ embedQuery query vector, embedQuery (normalizeQuery query) = .ok vector →
        Measured vector (cache.bucket scope) →
        (threshold ≠ .nan → ∀ value, cache.get embedQuery query scope = .ok (some value) →
          ∃ entry ∈ cache.bucket scope, entry.value = value ∧ LatestWrite writes entry
            ∧ threshold ≤ cosine vector entry.vector
            ∧ ∀ e ∈ cache.bucket scope, cosine vector e.vector ≤ cosine vector entry.vector)
        ∧ (cache.get embedQuery query scope = .ok none
          ↔ ∀ e ∈ cache.bucket scope, cosine vector e.vector < threshold))
      ∧ ∀ (embedQuery embedQuery' : String → Except Exn (List PyFloat)) (query query' : String)
          (value : V) (scope' : σ), scope' ≠ scope →
        (cache.step (.set embedQuery' query' value scope')).get embedQuery query scope
          = cache.get embedQuery query scope := by
  intro cache writes
  obtain ⟨hthreshold, hlimit, hbuckets⟩ := after_bucketed threshold limit ops
  have hbucket : Bucketed limit writes (cache.bucket scope) := hbuckets scope
  refine ⟨hbucket.nodup, hbucket.length_le, hbucket.queries, hbucket.latest, ?_, ?_, ?_⟩
  · intro embedQuery query value hget
    obtain ⟨entries, hentries, entry, hmem, hvalue⟩ := get_hit hget
    have hheld : entry ∈ cache.bucket scope := by
      rw [bucket, hentries]
      exact hmem
    exact ⟨entry, hheld, hvalue, hbucket.latest entry hheld⟩
  · intro embedQuery query vector hvector hmeasured
    rw [← hthreshold]
    constructor
    · intro hnumber value hget
      obtain ⟨entry, hmem, hvalue, habove, htop⟩ := get_eq_some hvector hmeasured hnumber hget
      exact ⟨entry, hmem, hvalue, hbucket.latest entry hmem, habove, htop⟩
    · exact get_eq_none_iff hvector hmeasured
  · intro embedQuery embedQuery' query query' value scope' hscope
    cases hset : cache.set embedQuery' query' value scope' with
    | error exn => rw [step, hset]
    | ok cache' =>
        obtain ⟨vector, -, hthreshold', -, hbucket'⟩ := bucket_set hset
        rw [step, hset]
        refine get_congr hthreshold' ?_
        rw [hbucket', if_neg hscope]

omit [Runtime] in
/-- A vector whose square overflows is of no measurable similarity to itself, and is returned under
any threshold. -/
theorem overflowing_vector_returned : ¬ ∀ [Runtime] [Math PyFloat] (threshold : PyFloat)
    (limit : Nat) (ops : List (SemanticOp Unit PyFloat Unit)) (scope : Unit)
    (embedQuery : String → Except Exn (List PyFloat)) (query : String) (value : Unit),
    (after threshold limit ops).get embedQuery query scope = .ok (some value) →
      ∃ vector, embedQuery (normalizeQuery query) = .ok vector
        ∧ ∃ entry ∈ (after threshold limit ops).bucket scope, entry.value = value
          ∧ threshold ≤ cosine vector entry.vector
          ∧ ∀ e ∈ (after threshold limit ops).bucket scope,
            cosine vector e.vector ≤ cosine vector entry.vector := by
  intro h
  let _ := Runtime.ascii
  let _ : Math PyFloat := ⟨id, id⟩
  let vector : List PyFloat := [PyFloat.round (10 ^ 200)]
  let embed : String → Except Exn (List PyFloat) := fun _ => .ok vector
  have hself : cosine vector vector = .nan := by decide +kernel
  let cache : SemanticCache Unit PyFloat Unit := after (.finite 1) 1 [.set embed "q" () ()]
  have hbucket : cache.bucket () = [⟨normalizeQuery "q", vector, ()⟩] := rfl
  have hget : cache.get embed "q" () = .ok (some ()) := by
    rw [SemanticCache.get, ← bucket, hbucket, if_neg (List.cons_ne_nil _ _)]
    change Except.ok (if cosine vector vector < .finite 1 then none else some ()) = _
    rw [hself]
    rfl
  obtain ⟨vector', hvector, entry, hmem, -, habove, -⟩ := h (.finite 1) 1 _ () embed "q" () hget
  obtain rfl := Except.ok.inj hvector
  rw [hbucket, List.mem_singleton] at hmem
  rw [hmem, hself] at habove
  exact absurd habove (by decide)

end SemanticCache

end Rag
