import Rag.Lexical.OpenSearch
import Rag.Pipelines.Online

/-!
Which collection readers are sent to after a promotion.

A physical name is `prefix__version`, and both the prefix and the version are read back
by cutting at the last `__`. That undoes the naming exactly when the version is
separable (`Separable`); otherwise the cut moves into the version.
-/

namespace Rag

open Py

/-- `build_vector_store` on the Qdrant backend. -/
def buildVectorStore (settings : Settings) (indexVersion : Option String) : QdrantVectorStore :=
  .init (settings.collectionFor indexVersion)

/-- `build_lexical_index` on the OpenSearch backend. -/
def buildLexicalIndex (settings : Settings) (indexVersion : Option String) :
    OpenSearchLexicalIndex :=
  .init (settings.collectionFor indexVersion)

/-- `__` does not occur in the version, nor does the version begin with an underscore. -/
def Separable (version : String) : Prop :=
  contains version "__" = false ∧ startsWith version "_" = false

instance (version : String) : Decidable (Separable version) :=
  inferInstanceAs (Decidable (_ ∧ _))

section Names

variable (front version : String)

theorem separable_iff :
    Separable version ↔ ¬ "__".toList <:+: ("__".toList ++ version.toList).tail := by
  have htail : ("__".toList ++ version.toList).tail = '_' :: version.toList := rfl
  rw [htail, List.infix_cons_iff, not_or, Separable, ← contains_iff, startsWith, and_comm]
  apply and_congr
  · change List.isPrefixOf ['_'] version.toList = false ↔ ¬ ['_', '_'] <+: '_' :: version.toList
    rw [← Bool.not_eq_true, List.isPrefixOf_iff_prefix, List.cons_prefix_cons]
    simp
  · simp

theorem toList_physical :
    (front ++ "__" ++ version).toList = front.toList ++ ("__".toList ++ version.toList) := by
  rw [String.toList_append, String.toList_append, List.append_assoc]

theorem rsplit_of_separable (h : Separable version) :
    rsplit (front ++ "__" ++ version) "__" = [front, version] := by
  have hcut := (cutLast_joined_iff (by decide) front.toList version.toList).mpr
    ((separable_iff version).mp h)
  rw [rsplit, toList_physical, hcut]
  simp

/-- Otherwise the cut is further right: a longer front and a shorter version. -/
theorem rsplit_of_not_separable (h : ¬ Separable version) :
    ∃ before after, rsplit (front ++ "__" ++ version) "__" = [before, after]
      ∧ front.length < before.length ∧ after.length < version.length := by
  have hcut : cutLast "__".toList ("__".toList ++ version.toList).tail ≠ none := by
    rw [ne_eq, cutLast_eq_none_iff (by decide), ← separable_iff]
    exact h
  obtain ⟨⟨before, after⟩, hparts⟩ := Option.ne_none_iff_exists'.mp hcut
  have hlen := cutLast_length hparts
  have hwhole := cutLast_append hparts (front.toList ++ ['_'])
  have hjoin : front.toList ++ ['_'] ++ ("__".toList ++ version.toList).tail
      = (front ++ "__" ++ version).toList := by
    rw [toList_physical, List.append_assoc]
    rfl
  rw [hjoin] at hwhole
  have htail : ("__".toList ++ version.toList).tail.length = version.length + 1 := by
    rw [← String.length_toList]
    rfl
  have hsep : "__".toList.length = 2 := by decide
  refine ⟨_, _, by rw [rsplit, hwhole], ?_, ?_⟩
  · rw [String.length_ofList, ← String.length_toList, List.length_append, List.length_append,
      List.length_singleton]
    omega
  · rw [String.length_ofList]
    omega

theorem contains_physical : contains (front ++ "__" ++ version) "__" = true := by
  rw [contains_iff, toList_physical]
  exact ⟨front.toList, version.toList, by simp⟩

/-- The name of the version is recovered exactly from separable names. -/
theorem physicalPrefix_iff :
    physicalPrefix (front ++ "__" ++ version) = front ↔ Separable version := by
  rw [physicalPrefix, if_pos (contains_physical front version)]
  constructor
  · intro hfront
    by_contra h
    obtain ⟨before, after, hsplit, hlonger, -⟩ := rsplit_of_not_separable front version h
    rw [hsplit] at hfront
    have hlen := congrArg String.length hfront
    rw [List.headD_cons] at hlen
    omega
  · intro h
    rw [rsplit_of_separable front version h]
    rfl

end Names

section Promote

variable {K : Type} (settings : Settings) (u v aliasName : String)

/-- A job of version `v`: write the chunks, then move the alias. -/
def buildAndPublish (pointId : String → String) (server : QdrantServer K) (chunks : List Chunk)
    (vectors : List (List K)) : Except Exn (QdrantServer K) := do
  let job := buildVectorStore settings (some v)
  let written ← job.upsert server pointId chunks vectors
  pure (job.setAlias written aliasName v).2

/-- A process built for `u` resolves the alias to `v`, and reads the collection and the
index that a job of version `v` writes. -/
def ReadsWhatWasWritten (server : QdrantServer K) : Prop :=
  let reader := buildVectorStore settings (some u)
  let resolved := reader.resolveAlias (some server.aliases) aliasName
  resolved = some v
    ∧ reader.collectionFor resolved = (buildVectorStore settings (some v)).collection
    ∧ (buildLexicalIndex settings (some u)).indexFor resolved
        = (buildLexicalIndex settings (some v)).index

variable {settings u v aliasName}

theorem collection_of_version (hv : v ≠ "") :
    settings.collectionFor (some v) = settings.collectionPrefix ++ "__" ++ v := by
  simp [Settings.collectionFor, orElseText, hv]

/-- What the alias table holds after the job. -/
theorem buildAndPublish_alias {pointId : String → String} {server published : QdrantServer K}
    {chunks : List Chunk} {vectors : List (List K)} (hv : v ≠ "")
    (h : buildAndPublish settings v aliasName pointId server chunks vectors = .ok published) :
    published.aliases.get? aliasName
      = some (physicalPrefix (settings.collectionPrefix ++ "__" ++ v) ++ "__" ++ v) := by
  rw [buildAndPublish] at h
  cases hwrite : (buildVectorStore settings (some v)).upsert server pointId chunks vectors with
  | error exn =>
      rw [hwrite] at h
      cases h
  | ok written =>
      rw [hwrite] at h
      cases h
      simp [QdrantVectorStore.setAlias, Dict.get?_set, QdrantVectorStore.collectionFor,
        buildVectorStore, QdrantVectorStore.init, collection_of_version, hv]

theorem readsWhatWasWritten_iff (pointId : String → String) (server published : QdrantServer K)
    (chunks : List Chunk) (vectors : List (List K)) (hu : u ≠ "") (hv : v ≠ "")
    (h : buildAndPublish settings v aliasName pointId server chunks vectors = .ok published) :
    ReadsWhatWasWritten settings u v aliasName published ↔ Separable u ∧ Separable v := by
  have hjob : (buildVectorStore settings (some v)).collection
      = settings.collectionPrefix ++ "__" ++ v := by
    rw [buildVectorStore, QdrantVectorStore.init, collection_of_version hv]
  have hindex : (buildLexicalIndex settings (some v)).index
      = settings.collectionPrefix ++ "__" ++ v := by
    rw [buildLexicalIndex, OpenSearchLexicalIndex.init, collection_of_version hv]
  have hreader : (buildVectorStore settings (some u)).collectionPrefix
      = physicalPrefix (settings.collectionPrefix ++ "__" ++ u) := by
    rw [buildVectorStore, QdrantVectorStore.init, collection_of_version hu]
  have hlexical : (buildLexicalIndex settings (some u)).indexPrefix
      = physicalPrefix (settings.collectionPrefix ++ "__" ++ u) := by
    rw [buildLexicalIndex, OpenSearchLexicalIndex.init, collection_of_version hu]
  have hresolved : (buildVectorStore settings (some u)).resolveAlias (some published.aliases)
      aliasName = (rsplit (physicalPrefix (settings.collectionPrefix ++ "__" ++ v) ++ "__" ++ v)
        "__").getLast? := by
    rw [QdrantVectorStore.resolveAlias, Option.bind_some, buildAndPublish_alias hv h]
  rw [ReadsWhatWasWritten, hresolved]
  by_cases hsep : Separable v
  · rw [rsplit_of_separable _ _ hsep]
    simp only [List.getLast?_cons_cons, List.getLast?_singleton, hjob, hindex, hsep,
      QdrantVectorStore.collectionFor, OpenSearchLexicalIndex.indexFor, if_neg hv, hreader,
      hlexical, String.append_left_inj, physicalPrefix_iff, and_self, and_true, true_and]
  · obtain ⟨before, after, hsplit, -, hshorter⟩ := rsplit_of_not_separable
      (physicalPrefix (settings.collectionPrefix ++ "__" ++ v)) v hsep
    rw [hsplit]
    constructor
    · rintro ⟨hlast, -⟩
      have hafter : after = v := by simpa using hlast
      rw [hafter] at hshorter
      omega
    · rintro ⟨-, h'⟩
      exact absurd h' hsep

def runbook (indexVersion : String) : Chunk where
  chunkId := "c1"
  docId := "runbook"
  ordinal := 0
  text := "restart the indexer"
  span := (0, 19)
  acl := { tenant := "acme" }
  indexVersion := indexVersion

theorem readsWhatWasWritten_iff_v2 :
    ∃ published : QdrantServer ℚ,
      buildAndPublish {} "v2" "docs_live" id {} [runbook "v2"] [[1]] = .ok published
        ∧ (ReadsWhatWasWritten {} "v1" "v2" "docs_live" published
          ↔ Separable "v1" ∧ Separable "v2") :=
  ⟨_, rfl, readsWhatWasWritten_iff id {} _ [runbook "v2"] [[1]] (by decide) (by decide) rfl⟩

/-- The version `2024__a` is written to `docs__2024__a`, and readers resolve it to `a`. -/
theorem underscored_version_misread :
    ¬ ∀ (settings : Settings) (u v aliasName : String) (pointId : String → String)
      (server published : QdrantServer ℚ) (chunks : List Chunk) (vectors : List (List ℚ)),
      u ≠ "" → v ≠ "" →
      buildAndPublish settings v aliasName pointId server chunks vectors = .ok published →
      ReadsWhatWasWritten settings u v aliasName published := by
  intro h
  have hreads := h {} "v1" "2024__a" "docs_live" id {} _ [runbook "2024__a"] [[1]] (by decide)
    (by decide) rfl
  exact absurd hreads.1 (by decide)

end Promote

end Rag
