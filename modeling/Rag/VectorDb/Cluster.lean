import Rag.Lib.Simulation
import Rag.Lib.Tables
import Rag.Retrieval.Contract
import Rag.Retrieval.Payloads
import Rag.Retrieval.Pushdown
import Mathlib.Logic.Equiv.Basic

/-!
`rag.vectordb.qdrant` over a shared cluster, request by request.

Any number of calls of any processes run interleaved, and a request may fail before it arrives,
after it was carried out, or in between. The adapter is then the in-process store of
`rag.vectordb.memory` once per collection: every call that returns takes effect at one instant of
its own run, and a call that raises has written some of what it was given, or nothing.
-/

namespace Rag

open Py Interaction

/-- A point of an answer. -/
structure ScoredPoint (K : Type) where
  id : String
  score : K
  payload : List (String × Json)

/-- A request of the client. -/
inductive QdrantRequest (K : Type) where
  | getCollections
  | createCollection (name : String)
  | createPayloadIndex (name field : String)
  | upsert (name : String) (points : List (String × QdrantPoint K))
  | delete (name : String) (points : List String)
  | queryPoints (name : String) (query : List K) (limit : ℤ) (queryFilter : QdrantFilter)
  | count (name : String)

/-- What a request that succeeds is answered with. -/
@[reducible] def QdrantReply {K : Type} : QdrantRequest K → Type
  | .getCollections => List String
  | .queryPoints _ _ _ _ => List (ScoredPoint K)
  | .count _ => Nat
  | _ => Unit

@[reducible] def QdrantResp {K : Type} (request : QdrantRequest K) : Type :=
  Except Exn (QdrantReply request)

abbrev QdrantEvent (K : Type) := Event (QdrantRequest K) QdrantResp

abbrev QdrantProg (K : Type) := Prog (QdrantRequest K) QdrantResp

section Server

variable {K : Type}

def QdrantServer.put (server : QdrantServer K) (name : String)
    (points : Dict String (QdrantPoint K)) : QdrantServer K :=
  { server with collections := server.collections.set name points }

def setPoints (held : Dict String (QdrantPoint K)) (points : List (String × QdrantPoint K)) :
    Dict String (QdrantPoint K) :=
  points.foldl (fun held point => held.set point.1 point.2) held

/-- What a request that fails may have done: it did not arrive, its answer was lost, or it was
carried out in part. -/
def QdrantServer.Fails (server : QdrantServer K) : QdrantRequest K → QdrantServer K → Prop
  | .createCollection name, after =>
      after = server ∨ (server.collections.get? name = none ∧ after = server.put name .empty)
  | .upsert name points, after =>
      after = server ∨ ∃ held, ∃ part : List _, server.collections.get? name = some held
        ∧ part.Sublist points ∧ after = server.put name (setPoints held part)
  | .delete name points, after =>
      after = server ∨ ∃ held, ∃ part : List _, server.collections.get? name = some held
        ∧ part.Sublist points ∧ after = server.put name (part.foldl Dict.erase held)
  | _, after => after = server

variable [Field K] [LinearOrder K] [Math K]

/-- An answer of `query_points`: some of the points the filter accepts, the best first. Which of
them the index finds is left open. -/
def Answers (held : Dict String (QdrantPoint K)) (query : List K) (limit : ℤ)
    (queryFilter : QdrantFilter) (reply : List (ScoredPoint K)) : Prop :=
  ∃ chosen : List (String × QdrantPoint K),
    chosen.Subperm (held.items.filter fun point => queryFilter.accepts point.2.payload)
      ∧ reply = chosen.map (fun point =>
        ⟨point.1, cosine query point.2.vector, point.2.payload⟩)
      ∧ reply.Pairwise (fun a b => b.score ≤ a.score) ∧ (reply.length : ℤ) ≤ limit

/-- What a request that succeeds does. -/
def QdrantServer.Executes (server : QdrantServer K) :
    (request : QdrantRequest K) → QdrantReply request → QdrantServer K → Prop
  | .getCollections, names, after => names = server.collections.keys ∧ after = server
  | .createCollection name, _, after =>
      server.collections.get? name = none ∧ after = server.put name .empty
  | .createPayloadIndex _ _, _, after => after = server
  | .upsert name points, _, after =>
      ∃ held, server.collections.get? name = some held
        ∧ after = server.put name (setPoints held points)
  | .delete name points, _, after =>
      ∃ held, server.collections.get? name = some held
        ∧ after = server.put name (points.foldl Dict.erase held)
  | .queryPoints name query limit queryFilter, reply, after =>
      after = server ∧ ∃ held, server.collections.get? name = some held
        ∧ Answers held query limit queryFilter reply
  | .count name, n, after =>
      after = server ∧ ∃ held, server.collections.get? name = some held ∧ n = held.items.length

/-- How the cluster may answer a request. -/
def QdrantCell (server : QdrantServer K) (_ : List (QdrantEvent K)) (request : QdrantRequest K)
    (reply : QdrantResp request) (after : QdrantServer K) : Prop :=
  match reply with
  | .ok result => server.Executes request result after
  | .error _ => server.Fails request after

end Server

section Client

variable {K : Type}

def QdrantRequest.send (request : QdrantRequest K) :
    ExceptT Exn (QdrantProg K) (QdrantReply request) :=
  ExceptT.mk (Prog.perform request)

/-- The points of chunks and their vectors. -/
def pointsOf (pointId : String → String) (pairs : List (Chunk × List K)) :
    List (String × QdrantPoint K) :=
  pairs.map fun pair => (pointId pair.1.chunkId, ⟨pair.2, toPayload pair.1⟩)

/-- The hits of a response, numbered from `rank`. -/
def readHits [Runtime] (rank : ℤ) : List (ScoredPoint K) → Option (List (ScoredChunk K))
  | [] => some []
  | point :: rest => do
      let chunk ← fromPayload point.id point.payload
      let hits ← readHits (rank + 1) rest
      some (⟨chunk, point.score, rank, .dense⟩ :: hits)

namespace QdrantVectorStore

variable (store : QdrantVectorStore)

/-- `ensure_collection` -/
def sendEnsureCollection : ExceptT Exn (QdrantProg K) Unit := do
  let existing ← QdrantRequest.getCollections.send
  if store.collection ∈ existing then
    pure ()
  else do
    (QdrantRequest.createCollection store.collection).send
    (QdrantRequest.createPayloadIndex store.collection "tenant").send
    (QdrantRequest.createPayloadIndex store.collection "allow_groups").send
    (QdrantRequest.createPayloadIndex store.collection "index_version").send

/-- `upsert` -/
def sendUpsert (pointId : String → String) (chunks : List Chunk) (vectors : List (List K)) :
    ExceptT Exn (QdrantProg K) Unit :=
  if chunks.length ≠ vectors.length then
    throw (valueError "chunks and vectors length mismatch")
  else if chunks = [] then pure ()
  else do
    store.sendEnsureCollection
    (QdrantRequest.upsert store.collection (pointsOf pointId (chunks.zip vectors))).send

/-- `delete` -/
def sendDelete (pointId : String → String) (chunkIds : List String) :
    ExceptT Exn (QdrantProg K) Unit :=
  if chunkIds = [] then pure ()
  else (QdrantRequest.delete store.collection (chunkIds.map pointId)).send

/-- The request of `search`. -/
@[reducible] def queryFor (vector : List K) (topK : ℤ) (principal : Principal)
    (indexVersion : Option String) : QdrantRequest K :=
  .queryPoints (store.collectionFor indexVersion) vector topK
    (qdrantAclFilter (AclFilter.forPrincipal principal indexVersion))

/-- `search`; a payload that cannot be read raises. -/
def sendSearch [Runtime] (vector : List K) (topK : ℤ) (principal : Principal)
    (indexVersion : Option String) :
    ExceptT Exn (QdrantProg K) (Option (List (ScoredChunk K))) := do
  let points ← (store.queryFor vector topK principal indexVersion).send
  pure (readHits 1 points)

/-- `count` -/
def sendCount (indexVersion : Option String) : ExceptT Exn (QdrantProg K) Nat :=
  (QdrantRequest.count (store.collectionFor indexVersion)).send

end QdrantVectorStore

/-- A call of a process on its store. -/
inductive QdrantCall (K : Type) where
  | upsert (store : QdrantVectorStore) (chunks : List Chunk) (vectors : List (List K))
  | delete (store : QdrantVectorStore) (chunkIds : List String)
  | search (store : QdrantVectorStore) (vector : List K) (topK : ℤ) (principal : Principal)
      (indexVersion : Option String)
  | count (store : QdrantVectorStore) (indexVersion : Option String)

inductive QdrantOutcome (K : Type) where
  | done
  | hits (found : Option (List (ScoredChunk K)))
  | number (n : Nat)

def QdrantCall.program [Runtime] (pointId : String → String) :
    QdrantCall K → ExceptT Exn (QdrantProg K) (QdrantOutcome K)
  | .upsert store chunks vectors => do
      store.sendUpsert pointId chunks vectors
      pure .done
  | .delete store chunkIds => do
      store.sendDelete pointId chunkIds
      pure .done
  | .search store vector topK principal indexVersion => do
      let found ← store.sendSearch vector topK principal indexVersion
      pure (.hits found)
  | .count store indexVersion => do
      let n ← store.sendCount indexVersion
      pure (.number n)

end Client

/-- One in-process store for each collection. -/
abbrev PlainStores (K : Type) := String → MemoryVectorStore K

section Plain

variable {K : Type} [Field K] [LinearOrder K] [Math K]

/-- What a search of the plain store scores. -/
def scoredItems (store : MemoryVectorStore K) (vector : List K) (principal : Principal)
    (indexVersion : Option String) : List (K × Chunk) :=
  (store.visibleItems principal indexVersion).map fun item => (cosine vector item.2, item.1)

/-- Some of what was scored, the best first and numbered from one. -/
def Ranking (topK : ℤ) (scored : List (K × Chunk)) (results : List (ScoredChunk K)) : Prop :=
  ∃ chosen : List (K × Chunk), chosen.Subperm scored
    ∧ chosen.Pairwise (fun a b => b.1 ≤ a.1) ∧ (chosen.length : ℤ) ≤ topK
    ∧ results = chosen.mapIdx fun i e => ⟨e.2, e.1, (i : ℤ) + 1, .dense⟩

/-- The search of the plain store is such a ranking. -/
theorem search_ranking (store : MemoryVectorStore K) (vector : List K) {topK : ℤ} (h : 0 ≤ topK)
    (principal : Principal) (indexVersion : Option String) :
    Ranking topK (scoredItems store vector principal indexVersion)
      (store.search vector topK principal indexVersion) := by
  refine ⟨_, ?_, ?_, ?_, rfl⟩
  · rw [takeInt_of_nonneg h]
    exact (List.take_sublist _ _).subperm.trans (sortedDesc_perm _ _).subperm
  · rw [takeInt_of_nonneg h]
    exact (sortedDesc_pairwise Prod.fst _).sublist (List.take_sublist _ _)
  · rw [takeInt_of_nonneg h, List.length_take]
    omega

namespace QdrantCall

/-- A call returns from the plain store of its collection. -/
def Answered : QdrantCall K → QdrantOutcome K → PlainStores K → PlainStores K → Prop
  | .upsert store chunks vectors, outcome, stores, stores' =>
      outcome = .done ∧ ∃ written, (stores store.collection).upsert chunks vectors = .ok written
        ∧ stores' = Function.update stores store.collection written
  | .delete store chunkIds, outcome, stores, stores' =>
      outcome = .done ∧ stores' = Function.update stores store.collection
        ((stores store.collection).delete chunkIds)
  | .search store vector topK principal indexVersion, outcome, stores, stores' =>
      stores' = stores ∧ ∃ results, outcome = .hits (some results) ∧ Ranking topK
        (scoredItems (stores (store.collectionFor indexVersion)) vector principal indexVersion)
        results
  | .count store indexVersion, outcome, stores, stores' =>
      stores' = stores
        ∧ outcome = .number ((stores (store.collectionFor indexVersion)).count none)

/-- A call that fails may have written or deleted some of what it was given. -/
def Partly : QdrantCall K → PlainStores K → PlainStores K → Prop
  | .upsert store chunks vectors, stores, stores' =>
      stores' = stores ∨ ∃ part, part.Sublist (chunks.zip vectors)
        ∧ stores' = Function.update stores store.collection
          { stores store.collection with
            items := MemoryVectorStore.put (stores store.collection).items part }
  | .delete store chunkIds, stores, stores' =>
      stores' = stores ∨ ∃ part : List String, part.Sublist chunkIds
        ∧ stores' = Function.update stores store.collection
          ((stores store.collection).delete part)
  | _, stores, stores' => stores' = stores

/-- The request whose answer settles a call, and how. -/
def Decides [Runtime] (pointId : String → String) :
    QdrantCall K → QdrantEvent K → QdrantOutcome K → Prop
  | .upsert store chunks vectors, e, outcome =>
      e = ⟨.upsert store.collection (pointsOf pointId (chunks.zip vectors)), .ok ()⟩
        ∧ outcome = .done
  | .delete store chunkIds, e, outcome =>
      e = ⟨.delete store.collection (chunkIds.map pointId), .ok ()⟩ ∧ outcome = .done
  | .search store vector topK principal indexVersion, e, outcome =>
      ∃ points, e = ⟨store.queryFor vector topK principal indexVersion, .ok points⟩
        ∧ outcome = .hits (readHits 1 points)
  | .count store indexVersion, e, outcome =>
      ∃ n, e = ⟨.count (store.collectionFor indexVersion), .ok n⟩ ∧ outcome = .number n

/-- What an answered request means to the plain stores: the whole effect of its call, part of it,
or nothing. -/
inductive Mirrors [Runtime] (pointId : String → String) (call : QdrantCall K) (e : QdrantEvent K) :
    PlainStores K → PlainStores K → Prop
  | decided {stores stores' : PlainStores K} {outcome : QdrantOutcome K}
      (hdecides : call.Decides pointId e outcome) (hanswered : call.Answered outcome stores stores') :
      Mirrors pointId call e stores stores'
  | failed {stores stores' : PlainStores K} {exn : Exn} (hexn : e.resp = .error exn)
      (hpartly : call.Partly stores stores') : Mirrors pointId call e stores stores'
  | quiet {stores : PlainStores K} (hother : ∀ outcome, ¬ call.Decides pointId e outcome) :
      Mirrors pointId call e stores stores

/-- The requests a call sends. -/
def Sends (pointId : String → String) : QdrantCall K → QdrantRequest K → Prop
  | .upsert store chunks vectors, request =>
      request = .getCollections ∨ request = .createCollection store.collection
        ∨ (∃ field, request = .createPayloadIndex store.collection field)
        ∨ (chunks.length = vectors.length
          ∧ request = .upsert store.collection (pointsOf pointId (chunks.zip vectors)))
  | .delete store chunkIds, request =>
      request = .delete store.collection (chunkIds.map pointId)
  | .search store vector topK principal indexVersion, request =>
      request = store.queryFor vector topK principal indexVersion
  | .count store indexVersion, request => request = .count (store.collectionFor indexVersion)

end QdrantCall

end Plain

section Mirrored

variable {K : Type}

def encodePoint (item : Chunk × List K) : QdrantPoint K := ⟨item.2, toPayload item.1⟩

/-- Every collection holds the items of its plain store; what is not there yet holds nothing. -/
def Mirrored (pointId : String → String) (server : QdrantServer K) (stores : PlainStores K) : Prop :=
  ∀ name, (∀ held, server.collections.get? name = some held →
      Dict.Encodes pointId encodePoint (stores name).items held)
    ∧ (server.collections.get? name = none → (stores name).items = .empty)

variable {pointId : String → String} {server : QdrantServer K} {stores : PlainStores K}

theorem mirrored_start : Mirrored pointId ({} : QdrantServer K) fun _ => {} := by
  intro name
  refine ⟨?_, fun _ => rfl⟩
  intro held hheld
  cases hheld

theorem Mirrored.created (h : Mirrored pointId server stores) {name : String}
    (hnone : server.collections.get? name = none) :
    Mirrored pointId (server.put name .empty) stores := by
  intro other
  by_cases hother : other = name
  · subst hother
    simp only [QdrantServer.put, Dict.get?_set, if_pos, Option.some.injEq, reduceCtorEq]
    refine ⟨?_, fun hfalse => hfalse.elim⟩
    rintro held rfl
    rw [(h other).2 hnone]
    exact Dict.encodes_empty
  · simpa only [QdrantServer.put, Dict.get?_set, if_neg hother] using h other

theorem Mirrored.put (h : Mirrored pointId server stores) {name : String}
    {points : Dict String (QdrantPoint K)} {store : MemoryVectorStore K}
    (hpoints : Dict.Encodes pointId encodePoint store.items points) :
    Mirrored pointId (server.put name points) (Function.update stores name store) := by
  intro other
  by_cases hother : other = name
  · subst hother
    simp only [QdrantServer.put, Dict.get?_set, if_pos, Option.some.injEq, reduceCtorEq,
      Function.update_self]
    refine ⟨?_, fun hfalse => hfalse.elim⟩
    rintro held rfl
    exact hpoints
  · simpa only [QdrantServer.put, Dict.get?_set, if_neg hother,
      Function.update_of_ne hother] using h other

theorem encodes_put (hid : Function.Injective pointId) {items : Dict String (Chunk × List K)}
    {held : Dict String (QdrantPoint K)} (h : Dict.Encodes pointId encodePoint items held)
    (pairs : List (Chunk × List K)) :
    Dict.Encodes pointId encodePoint (MemoryVectorStore.put items pairs)
      (setPoints held (pointsOf pointId pairs)) := by
  have hentries := h.foldl_set hid (pairs.map fun pair => (pair.1.chunkId, pair))
  rw [List.foldl_map, List.map_map] at hentries
  exact hentries

variable [Field K] [LinearOrder K] [Math K]

/-- Stored payloads are read back as the chunks they were written from. -/
theorem readHits_chosen [Runtime] (vector : List K) (chosen : List (String × Chunk × List K))
    (rank : ℤ) :
    readHits rank (chosen.map fun item =>
        ⟨pointId item.1, cosine vector item.2.2, toPayload item.2.1⟩)
      = some ((chosen.map fun item => (cosine vector item.2.2, item.2.1)).mapIdx
        fun i e => ⟨e.2, e.1, (i : ℤ) + rank, .dense⟩) := by
  induction chosen generalizing rank with
  | nil => rfl
  | cons item rest ih =>
      rw [List.map_cons, readHits, fromPayload_toPayload, Option.bind_eq_bind, Option.bind_some,
        ih, List.map_cons, List.mapIdx_cons]
      simp only [Option.bind_eq_bind, Option.bind_some, Nat.cast_zero, zero_add, Nat.cast_add,
        Nat.cast_one]
      congr 3
      funext i e
      rw [add_assoc, add_comm 1 rank]

/-- An answer of the cluster is a ranking of what the plain store scores. -/
theorem Answers.ranking [Runtime] {items : Dict String (Chunk × List K)}
    {held : Dict String (QdrantPoint K)} (h : Dict.Encodes pointId encodePoint items held)
    {vector : List K} {topK : ℤ} {principal : Principal} {indexVersion : Option String}
    {reply : List (ScoredPoint K)}
    (hreply : Answers held vector topK
      (qdrantAclFilter (AclFilter.forPrincipal principal indexVersion)) reply)
    (aliases : Dict String String) :
    ∃ results, readHits 1 reply = some results
      ∧ Ranking topK (scoredItems ⟨items, aliases⟩ vector principal indexVersion) results := by
  obtain ⟨points, hpoints, rfl, hsorted, hlimit⟩ := hreply
  have haccepted : held.items.filter (fun point =>
        (qdrantAclFilter (AclFilter.forPrincipal principal indexVersion)).accepts point.2.payload)
      = (items.items.filter fun item => visible principal indexVersion item.2.1).map
        fun item => (pointId item.1, encodePoint item.2) := by
    rw [h, List.filter_map]
    congr 1
    apply List.filter_congr
    intro item _
    apply Bool.eq_iff_iff.mpr
    rw [visible_iff]
    exact qdrant_accepts_iff principal indexVersion item.2.1
  rw [haccepted] at hpoints
  obtain ⟨chosen, hchosen, rfl⟩ := List.exists_map_of_subperm hpoints
  have hread : readHits 1 (chosen.map fun item =>
      ⟨pointId item.1, cosine vector item.2.2, toPayload item.2.1⟩) = _ :=
    readHits_chosen vector chosen 1
  rw [List.map_map] at hsorted hlimit ⊢
  refine ⟨_, hread, _, ?_, ?_, ?_, rfl⟩
  · obtain ⟨kept, hperm, hsub⟩ := hchosen
    refine ⟨kept.map fun item => (cosine vector item.2.2, item.2.1), hperm.map _, ?_⟩
    have hvalues : scoredItems ⟨items, aliases⟩ vector principal indexVersion
        = (items.items.filter fun item => visible principal indexVersion item.2.1).map
          fun item => (cosine vector item.2.2, item.2.1) := by
      rw [scoredItems, MemoryVectorStore.visibleItems, Dict.values, List.filter_map,
        List.map_map]
      rfl
    rw [hvalues]
    exact hsub.map _
  · rw [List.pairwise_map] at hsorted ⊢
    exact hsorted
  · simpa using hlimit

end Mirrored

section Step

variable {K : Type} [Field K] [LinearOrder K] [Math K] [Runtime] {pointId : String → String}
  {server after : QdrantServer K} {stores : PlainStores K} {t : List (QdrantEvent K)}

theorem mirrors_upsert (hid : Function.Injective pointId) (h : Mirrored pointId server stores)
    (store : QdrantVectorStore) {chunks : List Chunk} {vectors : List (List K)}
    (hlength : chunks.length = vectors.length)
    {reply : QdrantResp (.upsert store.collection (pointsOf pointId (chunks.zip vectors)))}
    (hcell : QdrantCell server t _ reply after) :
    ∃ stores', (QdrantCall.upsert store chunks vectors).Mirrors pointId ⟨_, reply⟩ stores stores'
      ∧ Mirrored pointId after stores' := by
  have hwritten : ∀ {held}, server.collections.get? store.collection = some held →
      ∀ pairs, Mirrored pointId
        (server.put store.collection (setPoints held (pointsOf pointId pairs)))
        (Function.update stores store.collection { stores store.collection with
          items := MemoryVectorStore.put (stores store.collection).items pairs }) :=
    fun hheld pairs => h.put (encodes_put hid ((h _).1 _ hheld) pairs)
  cases reply with
  | ok result =>
      obtain ⟨held, hheld, rfl⟩ := hcell
      refine ⟨_, .decided ⟨rfl, rfl⟩ ⟨rfl, _, ?_, rfl⟩, hwritten hheld _⟩
      rw [MemoryVectorStore.upsert, if_neg (not_not.mpr hlength)]
  | error exn =>
      rcases hcell with rfl | ⟨held, part, hheld, hpart, rfl⟩
      · exact ⟨stores, .failed rfl (Or.inl rfl), h⟩
      · obtain ⟨pairs, hpairs, rfl⟩ := List.sublist_map_iff.mp hpart
        exact ⟨_, .failed rfl (Or.inr ⟨pairs, hpairs, rfl⟩), hwritten hheld pairs⟩

theorem mirrors_delete (hid : Function.Injective pointId) (h : Mirrored pointId server stores)
    (store : QdrantVectorStore) {chunkIds : List String}
    {reply : QdrantResp (K := K) (.delete store.collection (chunkIds.map pointId))}
    (hcell : QdrantCell server t _ reply after) :
    ∃ stores', (QdrantCall.delete store chunkIds).Mirrors pointId ⟨_, reply⟩ stores stores'
      ∧ Mirrored pointId after stores' := by
  have hdeleted : ∀ {held}, server.collections.get? store.collection = some held →
      ∀ ids : List String, Mirrored pointId
        (server.put store.collection ((ids.map pointId).foldl Dict.erase held))
        (Function.update stores store.collection ((stores store.collection).delete ids)) :=
    fun hheld ids => h.put (((h _).1 _ hheld).foldl_erase hid ids)
  cases reply with
  | ok result =>
      obtain ⟨held, hheld, rfl⟩ := hcell
      exact ⟨_, .decided ⟨rfl, rfl⟩ ⟨rfl, rfl⟩, hdeleted hheld _⟩
  | error exn =>
      rcases hcell with rfl | ⟨held, part, hheld, hpart, rfl⟩
      · exact ⟨stores, .failed rfl (Or.inl rfl), h⟩
      · obtain ⟨ids, hids, rfl⟩ := List.sublist_map_iff.mp hpart
        exact ⟨_, .failed rfl (Or.inr ⟨ids, hids, rfl⟩), hdeleted hheld ids⟩

theorem mirrors_search (h : Mirrored pointId server stores) (store : QdrantVectorStore)
    (vector : List K) (topK : ℤ) (principal : Principal) (indexVersion : Option String)
    {reply : QdrantResp (store.queryFor vector topK principal indexVersion)}
    (hcell : QdrantCell server t _ reply after) :
    ∃ stores', (QdrantCall.search store vector topK principal indexVersion).Mirrors pointId
      ⟨_, reply⟩ stores stores' ∧ Mirrored pointId after stores' := by
  cases reply with
  | ok points =>
      obtain ⟨rfl, held, hheld, hanswers⟩ := hcell
      obtain ⟨results, hread, hranking⟩ := hanswers.ranking ((h _).1 _ hheld) (stores _).aliases
      exact ⟨stores, .decided ⟨points, rfl, rfl⟩ ⟨rfl, results, by rw [hread], hranking⟩, h⟩
  | error exn =>
      cases hcell
      exact ⟨stores, .failed rfl rfl, h⟩

theorem mirrors_count (h : Mirrored pointId server stores) (store : QdrantVectorStore)
    (indexVersion : Option String)
    {reply : QdrantResp (K := K) (.count (store.collectionFor indexVersion))}
    (hcell : QdrantCell server t _ reply after) :
    ∃ stores', (QdrantCall.count store indexVersion).Mirrors pointId ⟨_, reply⟩ stores stores'
      ∧ Mirrored pointId after stores' := by
  cases reply with
  | ok n =>
      obtain ⟨rfl, held, hheld, rfl⟩ := hcell
      refine ⟨stores, .decided ⟨_, rfl, rfl⟩ ⟨rfl, ?_⟩, h⟩
      have hall : ((stores (store.collectionFor indexVersion)).count none) = held.items.length := by
        rw [((h _).1 _ hheld).length]
        simp [MemoryVectorStore.count, Dict.values, inVersion]
      rw [hall]
  | error exn =>
      cases hcell
      exact ⟨stores, .failed rfl rfl, h⟩

/-- Every request of a call means to the plain stores what its answer says. -/
theorem mirrors_step (hid : Function.Injective pointId) (h : Mirrored pointId server stores)
    {call : QdrantCall K} {request : QdrantRequest K} (hsends : call.Sends pointId request)
    {reply : QdrantResp request} (hcell : QdrantCell server t request reply after) :
    ∃ stores', call.Mirrors pointId ⟨request, reply⟩ stores stores'
      ∧ Mirrored pointId after stores' := by
  cases call with
  | upsert store chunks vectors =>
      rcases hsends with rfl | rfl | ⟨field, rfl⟩ | ⟨hlength, rfl⟩
      · refine ⟨stores, .quiet (by rintro outcome ⟨hevent, -⟩; cases hevent), ?_⟩
        cases reply with
        | ok names => exact hcell.2 ▸ h
        | error exn => exact (show after = server from hcell) ▸ h
      · refine ⟨stores, .quiet (by rintro outcome ⟨hevent, -⟩; cases hevent), ?_⟩
        cases reply with
        | ok result => exact hcell.2 ▸ h.created hcell.1
        | error exn =>
            rcases hcell with rfl | ⟨hnone, rfl⟩
            · exact h
            · exact h.created hnone
      · refine ⟨stores, .quiet (by rintro outcome ⟨hevent, -⟩; cases hevent), ?_⟩
        cases reply with
        | ok result => exact (show after = server from hcell) ▸ h
        | error exn => exact (show after = server from hcell) ▸ h
      · exact mirrors_upsert hid h store hlength hcell
  | delete store chunkIds =>
      cases hsends
      exact mirrors_delete hid h store hcell
  | search store vector topK principal indexVersion =>
      cases hsends
      exact mirrors_search h store vector topK principal indexVersion hcell
  | count store indexVersion =>
      cases hsends
      exact mirrors_count h store indexVersion hcell

end Step

section Runs

variable {K : Type} [Field K] [LinearOrder K] [Math K] [Runtime] {pointId : String → String}

omit [Field K] [LinearOrder K] [Math K] [Runtime] in
theorem spec_send {G : QdrantRequest K → Prop} {request : QdrantRequest K} (h : G request) :
    Prog.SpecE (fun _ _ => True) G request.send (fun _ => True) fun _ => True := by
  refine ⟨h, ?_⟩
  rintro (exn | reply) -
  · trivial
  · trivial

omit [Field K] [LinearOrder K] [Math K] [Runtime] in
theorem spec_then {α β : Type} {G : QdrantRequest K → Prop} {p : ExceptT Exn (QdrantProg K) α}
    {f : α → ExceptT Exn (QdrantProg K) β}
    (hp : Prog.SpecE (fun _ _ => True) G p (fun _ => True) fun _ => True)
    (hf : ∀ a, Prog.SpecE (fun _ _ => True) G (f a) (fun _ => True) fun _ => True) :
    Prog.SpecE (fun _ _ => True) G (p >>= f) (fun _ => True) fun _ => True := by
  rw [Prog.specE_bind]
  exact Prog.SpecE.mono hp (fun a _ => hf a) fun _ h => h

omit [Field K] [LinearOrder K] [Math K] in
theorem program_sends (pointId : String → String) (call : QdrantCall K) :
    Prog.SpecE (fun _ _ => True) (call.Sends pointId) (call.program pointId) (fun _ => True)
      fun _ => True := by
  cases call with
  | upsert store chunks vectors =>
      apply spec_then
      · unfold QdrantVectorStore.sendUpsert
        split_ifs with hlength hempty
        · trivial
        · trivial
        · apply spec_then
          · apply spec_then (spec_send (Or.inl rfl))
            intro existing
            split_ifs with hexists
            · trivial
            · apply spec_then (spec_send (Or.inr (Or.inl rfl)))
              intro _
              apply spec_then (spec_send (Or.inr (Or.inr (Or.inl ⟨_, rfl⟩))))
              intro _
              apply spec_then (spec_send (Or.inr (Or.inr (Or.inl ⟨_, rfl⟩))))
              intro _
              exact spec_send (Or.inr (Or.inr (Or.inl ⟨_, rfl⟩)))
          · intro _
            exact spec_send (Or.inr (Or.inr (Or.inr ⟨not_not.mp hlength, rfl⟩)))
      · exact fun _ => trivial
  | delete store chunkIds =>
      apply spec_then
      · unfold QdrantVectorStore.sendDelete
        split_ifs
        · trivial
        · exact spec_send rfl
      · exact fun _ => trivial
  | search store vector topK principal indexVersion =>
      apply spec_then
      · exact spec_then (spec_send rfl) fun _ => trivial
      · exact fun _ => trivial
  | count store indexVersion =>
      exact spec_then (spec_send rfl) fun _ => trivial

omit [Field K] [LinearOrder K] [Math K] [Runtime] in
theorem runs_send {request : QdrantRequest K} {t : List (QdrantEvent K)}
    {reply : QdrantReply request} (h : Prog.Runs request.send.run t (.ok reply)) :
    t = [⟨request, .ok reply⟩] :=
  (Prog.runs_perform_iff _ _ _).mp h

/-- A call that returns has had the request that settles it answered, or had nothing to ask. -/
theorem decided_of_runs {call : QdrantCall K} {t : List (QdrantEvent K)}
    {outcome : QdrantOutcome K} (h : Prog.Runs (call.program pointId).run t (.ok outcome)) :
    (∃ e ∈ t, call.Decides pointId e outcome)
      ∨ ∀ stores : PlainStores K, call.Answered outcome stores stores := by
  cases call with
  | upsert store chunks vectors =>
      obtain ⟨t₁, _, t₂, rfl, hupsert, hdone⟩ := (Prog.runsE_bind_ok_iff _ _ _ _).mp h
      cases ((Prog.runsE_pure_iff _ _ _).mp hdone).2
      unfold QdrantVectorStore.sendUpsert at hupsert
      split_ifs at hupsert with hlength hempty
      · cases hupsert
      · right
        intro stores
        have hvectors : vectors = [] := by
          simpa [hempty, eq_comm] using hlength
        refine ⟨rfl, stores store.collection, ?_, (Function.update_eq_self _ _).symm⟩
        rw [hempty, hvectors]
        rfl
      · left
        obtain ⟨u₁, _, u₂, rfl, -, hsent⟩ := (Prog.runsE_bind_ok_iff _ _ _ _).mp hupsert
        rw [runs_send hsent]
        exact ⟨_, by simp, rfl, rfl⟩
  | delete store chunkIds =>
      obtain ⟨t₁, _, t₂, rfl, hdelete, hdone⟩ := (Prog.runsE_bind_ok_iff _ _ _ _).mp h
      cases ((Prog.runsE_pure_iff _ _ _).mp hdone).2
      unfold QdrantVectorStore.sendDelete at hdelete
      split_ifs at hdelete with hempty
      · right
        intro stores
        refine ⟨rfl, ?_⟩
        rw [hempty]
        exact (Function.update_eq_self _ _).symm
      · left
        rw [runs_send hdelete]
        exact ⟨_, by simp, rfl, rfl⟩
  | search store vector topK principal indexVersion =>
      left
      obtain ⟨t₁, found, t₂, rfl, hsearch, hdone⟩ := (Prog.runsE_bind_ok_iff _ _ _ _).mp h
      cases ((Prog.runsE_pure_iff _ _ _).mp hdone).2
      obtain ⟨u₁, points, u₂, rfl, hsent, hread⟩ := (Prog.runsE_bind_ok_iff _ _ _ _).mp hsearch
      cases ((Prog.runsE_pure_iff _ _ _).mp hread).2
      rw [runs_send hsent]
      exact ⟨_, by simp, points, rfl, rfl⟩
  | count store indexVersion =>
      left
      obtain ⟨t₁, n, t₂, rfl, hsent, hdone⟩ := (Prog.runsE_bind_ok_iff _ _ _ _).mp h
      cases ((Prog.runsE_pure_iff _ _ _).mp hdone).2
      rw [runs_send hsent]
      exact ⟨_, by simp, n, rfl, rfl⟩

omit [Field K] [LinearOrder K] [Math K] in
theorem QdrantCall.Decides.unique {call : QdrantCall K} {e : QdrantEvent K}
    {outcome outcome' : QdrantOutcome K} (h : call.Decides pointId e outcome)
    (h' : call.Decides pointId e outcome') : outcome = outcome' := by
  cases call with
  | upsert store chunks vectors => rw [h.2, h'.2]
  | delete store chunkIds => rw [h.2, h'.2]
  | search store vector topK principal indexVersion =>
      obtain ⟨points, rfl, rfl⟩ := h
      obtain ⟨points', hevent, rfl⟩ := h'
      cases hevent
      rfl
  | count store indexVersion =>
      obtain ⟨n, rfl, rfl⟩ := h
      obtain ⟨n', hevent, rfl⟩ := h'
      cases hevent
      rfl

omit [Field K] [LinearOrder K] [Math K] in
theorem QdrantCall.Decides.succeeds {call : QdrantCall K} {e : QdrantEvent K}
    {outcome : QdrantOutcome K} (h : call.Decides pointId e outcome) (exn : Exn) :
    e.resp ≠ .error exn := by
  cases call with
  | upsert store chunks vectors =>
      obtain ⟨rfl, -⟩ := h
      simp
  | delete store chunkIds =>
      obtain ⟨rfl, -⟩ := h
      simp
  | search store vector topK principal indexVersion =>
      obtain ⟨points, rfl, -⟩ := h
      simp
  | count store indexVersion =>
      obtain ⟨n, rfl, -⟩ := h
      simp

/-- What settles a call is mirrored by its whole effect. -/
theorem QdrantCall.Mirrors.answered {call : QdrantCall K} {e : QdrantEvent K}
    {outcome : QdrantOutcome K} {stores stores' : PlainStores K}
    (h : call.Mirrors pointId e stores stores') (hdecides : call.Decides pointId e outcome) :
    call.Answered outcome stores stores' := by
  cases h with
  | decided hdecides' hanswered =>
      rw [hdecides.unique hdecides']
      exact hanswered
  | failed hexn _ => exact absurd hexn (hdecides.succeeds _)
  | quiet hother => exact absurd hdecides (hother _)

variable {ι : Type} [DecidableEq ι]

/-- Whatever calls run interleaved over the cluster, and whatever requests fail on the way: the
collections hold what the plain stores hold, and each call that has returned took effect at one
instant of its own run, as the plain store returns from it. -/
theorem calls_take_effect (hid : Function.Injective pointId) (calls : ι → QdrantCall K)
    {q : Pool (QdrantRequest K) QdrantResp ι (QdrantServer K) (Except Exn (QdrantOutcome K))}
    {steps : List (Pool.Transition (QdrantRequest K) QdrantResp ι (QdrantServer K))}
    (h : Pool.Path QdrantCell (fun _ _ => False)
      (Pool.start {} fun i => ((calls i).program pointId).run) steps q) :
    ∃ stores, Pool.Follows (fun i e => (calls i).Mirrors pointId e) steps (fun _ => {}) stores
      ∧ Mirrored pointId q.shared stores
      ∧ ∀ i outcome, q.rest i = .ret (.ok outcome) →
        ∃ before own after stores₁ stores₂, steps = before ++ own ++ after
          ∧ own.length ≤ 1 ∧ (∀ step ∈ own, step.who = i)
          ∧ Pool.Follows (fun i e => (calls i).Mirrors pointId e) before (fun _ => {}) stores₁
          ∧ (calls i).Answered outcome stores₁ stores₂
          ∧ Pool.Follows (fun i e => (calls i).Mirrors pointId e) after stores₂ stores := by
  have hprograms : ∀ i, Prog.Spec (fun _ _ => True) ((calls i).Sends pointId)
      ((calls i).program pointId).run fun _ => True :=
    fun i => Prog.Spec.mono (program_sends pointId (calls i)) fun _ _ => trivial
  obtain ⟨stores, hfollows, hmirrored⟩ := Pool.Path.simulated (R := Mirrored pointId)
    (G := fun i => (calls i).Sends pointId) (Q := fun _ _ => True)
    (fun _ _ _ _ _ _ _ hm hsends hcell => mirrors_step hid hm hsends hcell)
    (fun _ _ _ _ hfalse => hfalse.elim) hprograms h mirrored_start
  refine ⟨stores, hfollows, hmirrored, ?_⟩
  intro i outcome hdone
  have hruns : Prog.Runs ((calls i).program pointId).run (q.done i) (.ok outcome) := by
    rw [Prog.Runs, ← hdone]
    exact h.steps i
  rcases decided_of_runs hruns with ⟨e, he, hdecides⟩ | hidle
  · obtain ⟨before, step, after, stores₁, stores₂, rfl, hwho, -, hbefore, hmatched, hafter⟩ :=
      h.instant hfollows rfl he
    exact ⟨before, [step], after, stores₁, stores₂, by simp, by simp, by simpa using hwho,
      hbefore, hmatched.answered hdecides, hafter⟩
  · exact ⟨[], [], steps, _, _, by simp, by simp, by simp, .nil _, hidle _, hfollows⟩

end Runs

/-- A cluster that carries out what it can and finds one point at most. -/
def serveOne {K : Type} [Field K] [LinearOrder K] [Math K] (server : QdrantServer K)
    (_ : List (QdrantEvent K)) :
    (request : QdrantRequest K) → QdrantResp request × QdrantServer K
  | .getCollections => (.ok server.collections.keys, server)
  | .createCollection name =>
      match server.collections.get? name with
      | none => (.ok (), server.put name .empty)
      | some _ => (.error (valueError name), server)
  | .createPayloadIndex _ _ => (.ok (), server)
  | .upsert name points =>
      match server.collections.get? name with
      | none => (.error (valueError name), server)
      | some held => (.ok (), server.put name (setPoints held points))
  | .delete name points =>
      match server.collections.get? name with
      | none => (.error (valueError name), server)
      | some held => (.ok (), server.put name (points.foldl Dict.erase held))
  | .queryPoints name query limit queryFilter =>
      match server.collections.get? name with
      | none => (.error (valueError name), server)
      | some held =>
          if limit < 1 then (.error (valueError name), server)
          else
            let accepted := held.items.filter fun point => queryFilter.accepts point.2.payload
            (.ok ((accepted.take 1).map fun point =>
              ⟨point.1, cosine query point.2.vector, point.2.payload⟩), server)
  | .count name =>
      match server.collections.get? name with
      | none => (.error (valueError name), server)
      | some held => (.ok held.items.length, server)

theorem serveOne_cell {K : Type} [Field K] [LinearOrder K] [Math K] (server : QdrantServer K)
    (t : List (QdrantEvent K)) (request : QdrantRequest K) :
    QdrantCell server t request (serveOne server t request).1 (serveOne server t request).2 := by
  cases request with
  | getCollections => exact ⟨rfl, rfl⟩
  | createPayloadIndex name field => rfl
  | createCollection name =>
      rw [serveOne]
      cases hheld : server.collections.get? name with
      | none => exact ⟨hheld, rfl⟩
      | some held => exact Or.inl rfl
  | upsert name points =>
      rw [serveOne]
      cases hheld : server.collections.get? name with
      | none => exact Or.inl rfl
      | some held => exact ⟨held, hheld, rfl⟩
  | delete name points =>
      rw [serveOne]
      cases hheld : server.collections.get? name with
      | none => exact Or.inl rfl
      | some held => exact ⟨held, hheld, rfl⟩
  | count name =>
      rw [serveOne]
      cases hheld : server.collections.get? name with
      | none => rfl
      | some held => exact ⟨rfl, held, hheld, rfl⟩
  | queryPoints name query limit queryFilter =>
      rw [serveOne]
      cases hheld : server.collections.get? name with
      | none => rfl
      | some held =>
          by_cases hlimit : limit < 1
          · simp only [if_pos hlimit]
            rfl
          · simp only [if_neg hlimit]
            refine ⟨rfl, held, hheld, _, (List.take_sublist 1 _).subperm, rfl, ?_, ?_⟩
            · rw [List.pairwise_map]
              cases held.items.filter fun point => queryFilter.accepts point.2.payload with
              | nil => exact List.Pairwise.nil
              | cons point rest => exact List.pairwise_singleton _ _
            · rw [List.length_map, List.length_take]
              omega

/-- Requests that nobody disturbs make the upsert of the store. -/
theorem drive_sendUpsert {K : Type} [Field K] [LinearOrder K] [Math K] (store : QdrantVectorStore)
    (server : QdrantServer K) (pointId : String → String) (chunks : List Chunk)
    (vectors : List (List K)) (t : List (QdrantEvent K)) :
    (Pool.drive serveOne (store.sendUpsert pointId chunks vectors).run t server).2
      = match store.upsert server pointId chunks vectors with
        | .ok after => (.ok (), after)
        | .error exn => (.error exn, server) := by
  unfold QdrantVectorStore.sendUpsert QdrantVectorStore.upsert
  by_cases hlength : chunks.length = vectors.length
  · by_cases hempty : chunks = []
    · rw [if_neg (not_not.mpr hlength), if_neg (not_not.mpr hlength), if_pos hempty, if_pos hempty]
      rfl
    · rw [if_neg (not_not.mpr hlength), if_neg (not_not.mpr hlength), if_neg hempty, if_neg hempty]
      cases hheld : server.collections.get? store.collection with
      | some held =>
          have hexists : store.collection ∈ server.collections.keys :=
            List.mem_map.mpr ⟨_, Dict.get?_eq_some hheld, rfl⟩
          simp only [QdrantVectorStore.sendEnsureCollection, QdrantVectorStore.ensureCollection,
            ExceptT.run_bind, ExceptT.run_pure, ExceptT.run_mk, QdrantRequest.send, Prog.perform,
            Prog.pure_eq, Prog.ret_bind, Prog.call_bind, Pool.drive, serveOne, if_pos hexists,
            hheld, QdrantServer.put, setPoints, pointsOf, List.foldl_map, Option.getD_some]
      | none =>
          have habsent : store.collection ∉ server.collections.keys := by
            intro hmem
            obtain ⟨⟨name, held⟩, hitem, rfl⟩ := List.mem_map.mp hmem
            rw [Dict.get?_iff.mpr hitem] at hheld
            cases hheld
          simp only [QdrantVectorStore.sendEnsureCollection, QdrantVectorStore.ensureCollection,
            ExceptT.run_bind, ExceptT.run_mk, QdrantRequest.send, Prog.perform,
            Prog.ret_bind, Prog.call_bind, Pool.drive, serveOne, if_neg habsent, hheld,
            Dict.get?_set, if_pos, QdrantServer.put, setPoints, pointsOf, List.foldl_map,
            Option.getD_some]
  · rw [if_pos hlength, if_pos hlength]
    rfl

def runbookV1 : Chunk where
  chunkId := "c1"
  docId := "runbook"
  ordinal := 0
  text := "restart the indexer"
  span := (0, 19)
  acl := { tenant := "acme" }
  indexVersion := "v1"

/-- `_point_id` of `c1`. -/
def runbookId : String → String := Equiv.swap "c1" "a58739dc-9e4e-5087-981f-c0edf6e76f38"

def buildAndSearch : Bool → QdrantCall ℚ
  | false => .upsert (.init "docs__v1") [runbookV1] [[1]]
  | true => .search (.init "docs__v1") [1] 5 ⟨"alice", ∅, "acme"⟩ (some "v1")

section

attribute [local instance] Runtime.ascii unitMath

def buildAndSearchPool : Pool (QdrantRequest ℚ) QdrantResp Bool (QdrantServer ℚ)
    (Except Exn (QdrantOutcome ℚ)) :=
  Pool.start {} fun i => ((buildAndSearch i).program runbookId).run

theorem search_found : ((buildAndSearchPool.finish serveOne false).finish serveOne true).rest true
    = .ret (.ok (.hits (some [⟨runbookV1, 1, 1, .dense⟩]))) := by
  have hscore : cosine [(1 : ℚ)] [1] = 1 := by
    have hsqrt : ∀ x : ℚ, Math.sqrt x = x := fun _ => rfl
    norm_num [cosine, norm, hsqrt]
  have haccepted : (qdrantAclFilter (AclFilter.forPrincipal ⟨"alice", ∅, "acme"⟩
      (some "v1"))).accepts (toPayload runbookV1) = true := by
    apply (qdrant_accepts_iff _ _ _).mpr
    exact ⟨by decide, Or.inr (Or.inr rfl)⟩
  have hfound : ((buildAndSearchPool.finish serveOne false).finish serveOne true).rest true
      = .ret (.ok (.hits (readHits 1 (((List.filter (fun point : String × QdrantPoint ℚ =>
          (qdrantAclFilter (AclFilter.forPrincipal ⟨"alice", ∅, "acme"⟩
            (some "v1"))).accepts point.2.payload)
          [(runbookId "c1", encodePoint (runbookV1, [1]))]).take 1).map fun point =>
            ⟨point.1, cosine [1] point.2.vector, point.2.payload⟩)))) := by
    rfl
  have hkept : List.filter (fun point : String × QdrantPoint ℚ =>
      (qdrantAclFilter (AclFilter.forPrincipal ⟨"alice", ∅, "acme"⟩
        (some "v1"))).accepts point.2.payload) [(runbookId "c1", encodePoint (runbookV1, [1]))]
      = [(runbookId "c1", encodePoint (runbookV1, [1]))] :=
    List.filter_cons_of_pos haccepted
  have hread : readHits 1 [⟨runbookId "c1", cosine [(1 : ℚ)] [1], toPayload runbookV1⟩]
      = some [⟨runbookV1, 1, 1, .dense⟩] := by
    rw [hscore, readHits, fromPayload_toPayload]
    rfl
  rw [hfound, hkept]
  exact congrArg (fun found => Prog.ret (Except.ok (QdrantOutcome.hits found))) hread

/-- The search after the build finds the chunk, as the plain store does. -/
theorem search_after_build :
    ∃ stores₁ stores₂, (buildAndSearch true).Answered
      (.hits (some [⟨runbookV1, 1, 1, .dense⟩])) stores₁ stores₂ := by
  have hserve : ∀ (server : QdrantServer ℚ) (t : List (QdrantEvent ℚ)) (request : QdrantRequest ℚ),
      ∃ server₀, Relation.ReflTransGen (fun _ _ => False) server server₀
        ∧ QdrantCell server₀ t request (serveOne server t request).1
          (serveOne server t request).2 :=
    fun server t request => ⟨server, .refl, serveOne_cell server t request⟩
  have hreaches : Pool.Reaches QdrantCell (fun _ _ => False) buildAndSearchPool
      ((buildAndSearchPool.finish serveOne false).finish serveOne true) :=
    (Pool.reaches_finish hserve buildAndSearchPool false).trans
      (Pool.reaches_finish hserve _ true)
  obtain ⟨steps, hpath⟩ := hreaches.path
  obtain ⟨stores, -, -, htakes⟩ := calls_take_effect (Equiv.swap _ _).injective buildAndSearch hpath
  obtain ⟨before, own, after, stores₁, stores₂, -, -, -, -, hanswered, -⟩ :=
    htakes true _ search_found
  exact ⟨stores₁, stores₂, hanswered⟩

end

end Rag
