import Rag.Cache.Keys
import Rag.VectorDb.Memory

/-!
`rag.cache.semantic`: the nearest-neighbour cache for paraphrased queries.

Entries are bucketed by scope and looked up within one bucket. The embedder is a function
that may raise; its cosine is the one of the vector store. The scan asks only for operations and a
comparison, which need not be those of an ordered field.
-/

namespace Rag

open Py

structure SemanticEntry (K V : Type) where
  query : String
  vector : List K
  value : V

/-- Nearest-neighbour cache for paraphrased queries. -/
structure SemanticCache (σ K V : Type) where
  threshold : K
  maxEntriesPerScope : Nat := 256
  buckets : Dict σ (List (SemanticEntry K V)) := .empty

section Bucket

variable {K V : Type}

/-- Replace the entry of the query, or append one; the oldest is dropped beyond `limit`. -/
def placeEntry (limit : Nat) (entry : SemanticEntry K V) (bucket : List (SemanticEntry K V)) :
    List (SemanticEntry K V) :=
  match bucket.findIdx? fun e => e.query = entry.query with
  | some i => bucket.set i entry
  | none =>
      let appended := bucket ++ [entry]
      if limit < appended.length then appended.drop 1 else appended

theorem mem_placeEntry {limit : Nat} {entry e : SemanticEntry K V}
    {bucket : List (SemanticEntry K V)} (h : e ∈ placeEntry limit entry bucket) :
    e = entry ∨ e ∈ bucket := by
  rw [placeEntry] at h
  split at h
  · exact (List.mem_or_eq_of_mem_set h).symm
  · have happended : e ∈ bucket ++ [entry] := by
      dsimp only at h
      split_ifs at h
      · exact List.mem_of_mem_drop h
      · exact h
    simpa [or_comm] using happended

variable [Zero K] [One K] [Add K] [Mul K] [Div K] [DecidableEq K] [Math K] [LT K] [DecidableLT K]

/-- The first entry of the greatest similarity, with it. -/
def bestEntry (vector : List K) (entries : List (SemanticEntry K V)) :
    Option (K × SemanticEntry K V) :=
  entries.foldl (fun best entry =>
    let score := cosine vector entry.vector
    match best with
    | none => some (score, entry)
    | some (top, _) => if top < score then some (score, entry) else best) none

theorem mem_bestEntry {vector : List K} {entries : List (SemanticEntry K V)}
    {best : K × SemanticEntry K V} (h : bestEntry vector entries = some best) :
    best.2 ∈ entries := by
  -- The accumulator of the scan is always an entry scanned already.
  have hscan : ∀ (rest : List (SemanticEntry K V)) (acc : Option (K × SemanticEntry K V)),
      (∀ b, acc = some b → b.2 ∈ entries) → rest ⊆ entries →
      ∀ b, rest.foldl (fun best entry =>
        let score := cosine vector entry.vector
        match best with
        | none => some (score, entry)
        | some (top, _) => if top < score then some (score, entry) else best) acc = some b →
      b.2 ∈ entries := by
    intro rest
    induction rest with
    | nil => exact fun acc hacc _ b hb => hacc b hb
    | cons entry rest ih =>
        intro acc hacc hsub b hb
        rw [List.foldl_cons] at hb
        refine ih _ ?_ (fun x hx => hsub (List.mem_cons_of_mem _ hx)) b hb
        intro c hc
        have hentry : entry ∈ entries := hsub List.mem_cons_self
        cases acc with
        | none =>
            cases hc
            exact hentry
        | some top =>
            dsimp only at hc
            split_ifs at hc
            · cases hc
              exact hentry
            · exact hacc c hc
  exact hscan entries none (by simp) (fun _ h => h) best h

end Bucket

namespace SemanticCache

variable {σ K V : Type} [DecidableEq σ] [Runtime] (cache : SemanticCache σ K V)
  (embedQuery : String → Except Exn (List K))

section Lookup

variable [Zero K] [One K] [Add K] [Mul K] [Div K] [DecidableEq K] [Math K] [LT K] [DecidableLT K]

/-- An empty bucket misses without embedding the query. -/
def get (query : String) (scope : σ) : Except Exn (Option V) :=
  let entries := (cache.buckets.get? scope).getD []
  if entries = [] then .ok none
  else do
    let vector ← embedQuery (normalizeQuery query)
    match bestEntry vector entries with
    | none => .ok none
    | some (score, entry) => .ok (if score < cache.threshold then none else some entry.value)

variable {cache embedQuery} {query : String} {scope : σ}

/-- A semantic hit is an entry of the bucket of the scope. -/
theorem get_hit {value : V} (h : cache.get embedQuery query scope = .ok (some value)) :
    ∃ bucket, cache.buckets.get? scope = some bucket ∧ ∃ e ∈ bucket, e.value = value := by
  rw [get] at h
  split_ifs at h with hempty
  · cases h
  · obtain ⟨bucket, hbucket⟩ : ∃ bucket, cache.buckets.get? scope = some bucket := by
      cases hget : cache.buckets.get? scope with
      | none => simp [hget] at hempty
      | some bucket => exact ⟨bucket, rfl⟩
    rw [hbucket, Option.getD_some] at h
    cases hvector : embedQuery (normalizeQuery query) with
    | error exn =>
        rw [hvector] at h
        cases h
    | ok vector =>
        rw [hvector] at h
        change (match bestEntry vector bucket with
          | none => _
          | some (score, entry) => _) = _ at h
        cases hbest : bestEntry vector bucket with
        | none =>
            rw [hbest] at h
            cases h
        | some best =>
            rw [hbest] at h
            have hvalue : (if best.1 < cache.threshold then none else some best.2.value)
                = some value := by simpa using h
            split_ifs at hvalue
            exact ⟨bucket, hbucket, best.2, mem_bestEntry hbest, by simpa using hvalue⟩

end Lookup

def set (query : String) (value : V) (scope : σ) : Except Exn (SemanticCache σ K V) := do
  let normalized := normalizeQuery query
  let vector ← embedQuery normalized
  let bucket := (cache.buckets.get? scope).getD []
  let placed := placeEntry cache.maxEntriesPerScope ⟨normalized, vector, value⟩ bucket
  .ok { cache with buckets := cache.buckets.set scope placed }

def clear : SemanticCache σ K V := { cache with buckets := .empty }

/-- How many entries a scope holds, or all scopes. -/
def size : Option σ → Nat
  | none => (cache.buckets.values.map List.length).sum
  | some scope => ((cache.buckets.get? scope).getD []).length

variable {cache embedQuery} {cache' : SemanticCache σ K V} {query : String} {scope : σ}

/-- What a semantic write leaves under a scope is what was there or the new entry of this
scope. -/
theorem set_entry {value : V} (h : cache.set embedQuery query value scope = .ok cache')
    {scope' : σ} {bucket' : List (SemanticEntry K V)}
    (hbucket' : cache'.buckets.get? scope' = some bucket') {e : SemanticEntry K V}
    (he : e ∈ bucket') :
    scope' = scope ∧ e.value = value
      ∨ ∃ bucket, cache.buckets.get? scope' = some bucket ∧ e ∈ bucket := by
  rw [set] at h
  dsimp only at h
  cases hvector : embedQuery (normalizeQuery query) with
  | error exn =>
      rw [hvector] at h
      cases h
  | ok vector =>
      rw [hvector] at h
      cases h
      rw [Dict.get?_set] at hbucket'
      split_ifs at hbucket' with hscope
      · cases hbucket'
        rcases mem_placeEntry he with rfl | hold
        · exact Or.inl ⟨hscope, rfl⟩
        · cases hget : cache.buckets.get? scope with
          | none => simp [hget] at hold
          | some bucket =>
              rw [hget, Option.getD_some] at hold
              exact Or.inr ⟨bucket, by rw [hscope, hget], hold⟩
      · exact Or.inr ⟨bucket', hbucket', he⟩

/-- What a semantic write leaves is what was there or the new entry. -/
theorem set_holds {value value' : V}
    (h : cache.set embedQuery query value scope = .ok cache') {scope' : σ}
    {bucket' : List (SemanticEntry K V)} (hbucket' : cache'.buckets.get? scope' = some bucket')
    {e : SemanticEntry K V} (he : e ∈ bucket') (hvalue : e.value = value') :
    value' = value ∨ ∃ bucket, cache.buckets.get? scope' = some bucket ∧ ∃ e ∈ bucket,
      e.value = value' := by
  rcases set_entry h hbucket' he with ⟨-, hnew⟩ | ⟨bucket, hbucket, hold⟩
  · exact Or.inl (hvalue.symm.trans hnew)
  · exact Or.inr ⟨bucket, hbucket, e, hold, hvalue⟩

end SemanticCache

end Rag
