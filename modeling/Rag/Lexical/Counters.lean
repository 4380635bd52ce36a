import Rag.Lexical.Bm25Memory

/-!
The tables of the in-process BM25 index, operation by operation.

Here `_df` is a dictionary whose entries are incremented and decremented, a lookup of a missing key
raises, and nothing says that the tables fit together. That they do after any calls is the invariant
`Counted`: the document frequency of a term is the number of stored chunks it occurs in, and there
is an entry for it only if there is such a chunk. A set of terms is run through in the order in which
the terms first occur.
-/

namespace Rag

open Py

theorem Dict.isSome_get?_iff {κ ν : Type} [DecidableEq κ] (d : Dict κ ν) (key : κ) :
    (d.get? key).isSome ↔ key ∈ d.keys := by
  rw [Option.isSome_iff_exists, Dict.keys, List.mem_map]
  constructor
  · rintro ⟨value, h⟩
    exact ⟨_, Dict.get?_eq_some h, rfl⟩
  · rintro ⟨⟨key, value⟩, h, rfl⟩
    exact ⟨value, Dict.get?_iff.mpr h⟩

/-- A `Counter`: a missing key counts zero. -/
abbrev Counter := Dict String ℤ

namespace Counter

def count (counter : Counter) (term : String) : ℤ := (counter.get? term).getD 0

/-- `counter[term] += n` -/
def add (n : ℤ) (counter : Counter) (term : String) : Counter :=
  counter.set term (count counter term + n)

/-- `Counter(tokens)` -/
def of (tokens : List String) : Counter := tokens.foldl (add 1) .empty

/-- `counter[term] -= 1`, and an entry that is not positive is deleted. -/
def release (counter : Counter) (term : String) : Counter :=
  let counter := add (-1) counter term
  if count counter term ≤ 0 then counter.erase term else counter

/-- The entry for a number of occurrences: none for zero. -/
def entry (n : Nat) : Option ℤ := if n = 0 then none else some n

/-- The counter has the entries of `f` and no others. -/
def Counts (counter : Counter) (f : String → Nat) : Prop :=
  ∀ term, counter.get? term = entry (f term)

variable {counter : Counter} {f g : String → Nat}

theorem Counts.count (h : Counts counter f) (term : String) : count counter term = f term := by
  rw [Counter.count, h term, entry]
  split_ifs with hzero
  · rw [hzero]
    rfl
  · rfl

theorem Counts.congr (h : Counts counter f) (hfg : ∀ term, f term = g term) : Counts counter g :=
  fun term => hfg term ▸ h term

theorem counts_empty : Counts .empty fun _ => 0 := fun _ => rfl

theorem Counts.add (h : Counts counter f) (term : String) :
    Counts (add 1 counter term) fun t => f t + if t = term then 1 else 0 := by
  intro t
  rw [Counter.add, Dict.get?_set, h.count]
  dsimp only
  split_ifs with ht
  · rw [ht, entry, if_neg (Nat.succ_ne_zero _)]
    rfl
  · exact h t

theorem Counts.release (h : Counts counter f) (term : String) :
    Counts (release counter term) fun t => f t - if t = term then 1 else 0 := by
  have hget : ∀ t, (Counter.add (-1) counter term).get? t
      = if t = term then some ((f term : ℤ) - 1) else counter.get? t := by
    intro t
    rw [Counter.add, Dict.get?_set, h.count]
    rfl
  have hcount : Counter.count (Counter.add (-1) counter term) term = (f term : ℤ) - 1 := by
    rw [Counter.count, hget, if_pos rfl]
    rfl
  intro t
  unfold Counter.release
  dsimp only
  rw [hcount]
  by_cases ht : t = term
  · subst ht
    rw [if_pos rfl]
    split_ifs with hlast
    · have hzero : f t - 1 = 0 := by omega
      rw [Dict.get?_erase, if_pos rfl, entry, if_pos hzero]
    · have hsome : f t - 1 ≠ 0 := by omega
      rw [hget, if_pos rfl, entry, if_neg hsome]
      congr 1
      omega
  · rw [if_neg ht]
    split_ifs
    · rw [Dict.get?_erase, if_neg ht, hget, if_neg ht]
      exact h t
    · rw [hget, if_neg ht]
      exact h t

theorem Counts.foldl_add (h : Counts counter f) (terms : List String) :
    Counts (terms.foldl (Counter.add 1) counter) fun t => f t + terms.count t := by
  induction terms generalizing counter f with
  | nil => exact h
  | cons term rest ih =>
      refine (ih (h.add term)).congr ?_
      intro t
      simp only [List.count_cons, beq_iff_eq, eq_comm (a := term)]
      omega

theorem Counts.foldl_release (h : Counts counter f) (terms : List String) :
    Counts (terms.foldl Counter.release counter) fun t => f t - terms.count t := by
  induction terms generalizing counter f with
  | nil => exact h
  | cons term rest ih =>
      refine (ih (h.release term)).congr ?_
      intro t
      simp only [List.count_cons, beq_iff_eq, eq_comm (a := term)]
      omega

theorem counts_of (tokens : List String) : Counts (of tokens) fun t => tokens.count t :=
  (counts_empty.foldl_add tokens).congr fun _ => Nat.zero_add _

theorem isSome_of (tokens : List String) (term : String) :
    ((of tokens).get? term).isSome ↔ term ∈ tokens := by
  rw [counts_of tokens term, entry, ← List.count_pos_iff]
  split_ifs with hzero
  · simp [hzero]
  · exact iff_of_true rfl (Nat.pos_of_ne_zero hzero)

/-- `set(tokens)` -/
theorem count_keys_of (tokens : List String) (term : String) :
    (of tokens).keys.count term = if term ∈ tokens then 1 else 0 := by
  have hmem : term ∈ (of tokens).keys ↔ term ∈ tokens :=
    (Dict.isSome_get?_iff _ _).symm.trans (isSome_of tokens term)
  split_ifs with hin
  · exact List.count_eq_one_of_mem (of tokens).nodup (hmem.mpr hin)
  · exact List.count_eq_zero_of_not_mem fun hkey => hin (hmem.mp hkey)

end Counter

section Tables

variable [Runtime]

/-- `d[key]` -/
def getItem {ν : Type} (d : Dict String ν) (key : String) : Except Exn ν :=
  match d.get? key with
  | some value => .ok value
  | none => .error (keyError key)

/-- `del d[key]` -/
def delItem {ν : Type} (d : Dict String ν) (key : String) : Except Exn (Dict String ν) :=
  match d.get? key with
  | some _ => .ok (d.erase key)
  | none => .error (keyError key)

/-- The tables of the index, with nothing that ties them together. -/
structure CountedTables (K : Type) where
  chunks : Dict String Chunk := .empty
  tf : Dict String Counter := .empty
  df : Counter := .empty
  docLen : Dict String Nat := .empty
  avgdl : K

namespace CountedTables

variable {K : Type} (t : CountedTables K)

/-- `_remove_stats` -/
def removeStats (chunkId : String) : Except Exn (CountedTables K) := do
  let tf ← getItem t.tf chunkId
  .ok { t with df := tf.keys.foldl Counter.release t.df }

/-- The loop body of `upsert`. -/
def put (chunk : Chunk) : Except Exn (CountedTables K) := do
  let t ← if (t.chunks.get? chunk.chunkId).isSome then t.removeStats chunk.chunkId else .ok t
  let tokens := tokenize chunk.text
  .ok { t with
    chunks := t.chunks.set chunk.chunkId chunk
    tf := t.tf.set chunk.chunkId (Counter.of tokens)
    docLen := t.docLen.set chunk.chunkId tokens.length
    df := (Counter.of tokens).keys.foldl (Counter.add 1) t.df }

/-- The loop body of `delete`. -/
def drop (chunkId : String) : Except Exn (CountedTables K) :=
  if (t.chunks.get? chunkId).isSome then do
    let t ← t.removeStats chunkId
    let chunks ← delItem t.chunks chunkId
    let tf ← delItem t.tf chunkId
    let docLen ← delItem t.docLen chunkId
    .ok { t with chunks := chunks, tf := tf, docLen := docLen }
  else .ok t

section Field

variable [Field K]

/-- `_recompute_avgdl` -/
def recomputeAvgdl : CountedTables K := { t with avgdl := Tables.meanLength t.docLen }

def upsert (chunks : List Chunk) : Except Exn (CountedTables K) := do
  let t ← chunks.foldlM put t
  .ok t.recomputeAvgdl

def delete (chunkIds : List String) : Except Exn (CountedTables K) := do
  let t ← chunkIds.foldlM drop t
  .ok t.recomputeAvgdl

variable [LinearOrder K] [Math K] (k1 b : K)

/-- The loop body of `_bm25` for a chunk with the terms `tf` and the length `dl`. -/
def addTerm (tf : Counter) (dl n : Nat) (score : K) (term : String) : Except Exn K :=
  if (tf.get? term).isNone then .ok score
  else
    let df := Counter.count t.df term
    let half : K := 1 / (2 : ℕ)
    let idf := Math.log (1 + ((n : K) - df + half) / ((df : K) + half))
    let freq := Counter.count tf term
    let denom := (freq : K) + k1 * (1 - b + b * dl / if t.avgdl = 0 then 1 else t.avgdl)
    if denom = 0 then .error zeroDivisionError
    else .ok (score + idf * (freq * (k1 + 1)) / denom)

/-- `_bm25` -/
def bm25 (qTokens : List String) (chunkId : String) (n : Nat) : Except Exn K := do
  let dl ← getItem t.docLen chunkId
  let tf ← getItem t.tf chunkId
  qTokens.foldlM (t.addTerm k1 b tf dl n) 0

/-- The scored chunks of a search before they are ranked and cut off. -/
def candidates (query : String) (principal : Principal) (indexVersion : Option String) :
    Except Exn (List (K × Chunk)) :=
  let qTokens := tokenize query
  if qTokens = [] ∨ t.chunks.items = [] then .ok []
  else do
    let n := t.chunks.items.length
    let scored ← (t.chunks.items.filter fun item =>
        visible principal indexVersion item.2).mapM fun item => do
      let score ← t.bm25 k1 b qTokens item.1 n
      .ok (score, item.2)
    .ok (scored.filter fun e => 0 < e.1)

def search (query : String) (topK : ℤ) (principal : Principal) (indexVersion : Option String) :
    Except Exn (List (ScoredChunk K)) := do
  let scores ← t.candidates k1 b query principal indexVersion
  .ok (rankHits .lexical topK scores)

end Field

end CountedTables

end Tables

end Rag
