import Rag.Lexical.OpenSearch
import Rag.VectorDb.Memory

/-!
The ACL filter of every backend is one predicate.

Both filter languages are asked about an array of groups that may be empty. What the two
encoders make of an empty array differs (an empty list in Qdrant, no field in
OpenSearch), and `groups_payload` and `groups_source` say that either way the values a
clause ranges over are exactly the groups.
-/

namespace Rag

open Py

/-- The version asked for is unset, or the chunk's own. -/
def VersionMatches (indexVersion : Option String) (chunk : Chunk) : Prop :=
  indexVersion = none ∨ indexVersion = some "" ∨ indexVersion = some chunk.indexVersion

theorem inVersion_iff (indexVersion : Option String) (chunk : Chunk) :
    inVersion indexVersion chunk = true ↔ VersionMatches indexVersion chunk := by
  cases indexVersion with
  | none => simp [inVersion, VersionMatches]
  | some version =>
      have hsymm : version = chunk.indexVersion ↔ chunk.indexVersion = version := eq_comm
      simp [inVersion, VersionMatches, hsymm]

/-- The condition the memory stores test. -/
theorem visible_iff (principal : Principal) (indexVersion : Option String) (chunk : Chunk) :
    visible principal indexVersion chunk = true
      ↔ isAllowed principal chunk.acl = true ∧ VersionMatches indexVersion chunk := by
  rw [visible, Bool.and_eq_true, inVersion_iff, and_comm]

theorem isAllowed_iff (principal : Principal) (acl : AclTags) :
    isAllowed principal acl = true ↔ principal.tenant = acl.tenant ∧
      (acl.allowGroups = ∅ ∨ ∃ group ∈ principal.groups, group ∈ acl.allowGroups) := by
  unfold isAllowed
  split_ifs with htenant hempty
  · simp [htenant]
  · simp [not_not.mp htenant, hempty]
  · rw [decide_eq_true_eq, ← Finset.nonempty_iff_ne_empty]
    simp [not_not.mp htenant, hempty, Finset.Nonempty]

section Text

theorem any_isText_pair (groups names : List String) :
    ((groups.map Json.str).any fun v => names.any fun s => isText s v) = true
      ↔ ∃ s ∈ names, s ∈ groups := by
  simp only [List.any_eq_true, List.mem_map]
  constructor
  · rintro ⟨_, ⟨g, hg, rfl⟩, s, hs, htext⟩
    have hsame : g = s := by simpa [isText] using htext
    exact ⟨s, hs, hsame ▸ hg⟩
  · rintro ⟨s, hs, hg⟩
    exact ⟨_, ⟨s, hg, rfl⟩, s, hs, by simp [isText]⟩

theorem sortedNames_eq_nil (groups : Finset String) : sortedNames groups = [] ↔ groups = ∅ := by
  constructor
  · intro h
    apply sortedNames_injective
    rw [h]
    simp [sortedNames]
  · rintro rfl
    simp [sortedNames]

theorem mem_sortedNames {groups : Finset String} {group : String} :
    group ∈ sortedNames groups ↔ group ∈ groups := by
  simp [sortedNames]

end Text

section Groups

variable (chunk : Chunk)

theorem groups_payload : payloadValues (toPayload chunk) "allow_groups"
    = (sortedNames chunk.acl.allowGroups).map .str := by
  rfl

theorem groups_source : keywords (toSource chunk) "allow_groups"
    = (sortedNames chunk.acl.allowGroups).map .str := by
  by_cases h : chunk.acl.allowGroups = ∅
  · have hnone : sortedNames chunk.acl.allowGroups = [] := (sortedNames_eq_nil _).mpr h
    rw [hnone]
    simp [keywords, toSource, h, Json.lookup]
  · simp [keywords, toSource, h, Json.lookup, groupsJson]

/-- Tenant-wide, or a group in common: what both group clauses are built for. -/
theorem groups_clause (groups : Finset String) :
    ((sortedNames chunk.acl.allowGroups).map Json.str).isEmpty = true
      ∨ groups ≠ ∅ ∧ (((sortedNames chunk.acl.allowGroups).map Json.str).any fun v =>
        (sortedNames groups).any fun s => isText s v) = true
    ↔ chunk.acl.allowGroups = ∅ ∨ ∃ group ∈ groups, group ∈ chunk.acl.allowGroups := by
  rw [any_isText_pair]
  simp only [List.isEmpty_iff, List.map_eq_nil_iff, sortedNames_eq_nil, mem_sortedNames]
  apply or_congr Iff.rfl
  constructor
  · rintro ⟨-, h⟩
    exact h
  · rintro ⟨group, hgroup, hin⟩
    exact ⟨Finset.ne_empty_of_mem hgroup, group, hgroup, hin⟩

end Groups

section Filter

variable (principal : Principal) (indexVersion : Option String) (chunk : Chunk)

theorem version_clause (values : List Json) (hvalues : values = [.str chunk.indexVersion]) :
    (∀ version, (AclFilter.forPrincipal principal indexVersion).versionAsked = some version →
      values.any (isText version) = true) ↔ VersionMatches indexVersion chunk := by
  subst hvalues
  cases indexVersion with
  | none => simp [AclFilter.versionAsked, AclFilter.forPrincipal, VersionMatches]
  | some version =>
      by_cases h : version = ""
      · simp [AclFilter.versionAsked, AclFilter.forPrincipal, VersionMatches, h]
      · simp [AclFilter.versionAsked, AclFilter.forPrincipal, VersionMatches, h, isText, eq_comm]

theorem qdrant_must_iff :
    (qdrantAclFilter (AclFilter.forPrincipal principal indexVersion)).must.all
        (QdrantCondition.accepts (toPayload chunk)) = true
      ↔ principal.tenant = chunk.acl.tenant ∧ VersionMatches indexVersion chunk := by
  have htenant : payloadValues (toPayload chunk) "tenant" = [.str chunk.acl.tenant] := rfl
  have hversion : payloadValues (toPayload chunk) "index_version" = [.str chunk.indexVersion] :=
    rfl
  rw [qdrantAclFilter, List.all_cons, Bool.and_eq_true,
    ← version_clause principal indexVersion chunk _ hversion]
  apply and_congr
  · simp [QdrantCondition.accepts, htenant, isText, AclFilter.forPrincipal, eq_comm]
  · cases (AclFilter.forPrincipal principal indexVersion).versionAsked with
    | none => simp
    | some version => simp [QdrantCondition.accepts]

theorem qdrant_should_iff :
    1 ≤ ((qdrantAclFilter (AclFilter.forPrincipal principal indexVersion)).minShould.filter
        (QdrantCondition.accepts (toPayload chunk))).length
      ↔ chunk.acl.allowGroups = ∅ ∨
        ∃ group ∈ principal.groups, group ∈ chunk.acl.allowGroups := by
  rw [← groups_clause chunk principal.groups, qdrantAclFilter, ← groups_payload,
    Nat.one_le_iff_ne_zero, ← Nat.pos_iff_ne_zero, List.length_filter_pos_iff]
  by_cases hgroups : principal.groups = ∅
  · simp [hgroups, QdrantCondition.accepts, AclFilter.forPrincipal]
  · simp [hgroups, QdrantCondition.accepts, AclFilter.forPrincipal]

theorem qdrant_accepts_iff :
    (qdrantAclFilter (AclFilter.forPrincipal principal indexVersion)).accepts (toPayload chunk)
        = true
      ↔ isAllowed principal chunk.acl = true ∧ VersionMatches indexVersion chunk := by
  have hshould := qdrant_should_iff principal indexVersion chunk
  have hmust := qdrant_must_iff principal indexVersion chunk
  rw [QdrantFilter.accepts, Bool.and_eq_true, hmust, decide_eq_true_eq, isAllowed_iff]
  rw [qdrantAclFilter] at hshould ⊢
  rw [hshould]
  tauto

theorem should_one_iff (source : List (String × Json)) (clauses : List OpenSearchQuery) :
    OpenSearchQuery.accepts source (.should clauses 1) = true
      ↔ ∃ clause ∈ clauses, clause.accepts source = true := by
  rw [OpenSearchQuery.accepts, decide_eq_true_eq]
  induction clauses with
  | nil => simp [countAccepting]
  | cons clause rest ih =>
      rw [countAccepting, List.exists_mem_cons_iff, ← ih]
      split_ifs with h
      · simp [h]
      · simp [h]

theorem openSearch_should_iff (groups : Finset String) :
    OpenSearchQuery.accepts (toSource chunk)
        (.should (.mustNot (.fieldExists "allow_groups") ::
          if groups = ∅ then [] else [.terms "allow_groups" (sortedNames groups)]) 1) = true
      ↔ chunk.acl.allowGroups = ∅ ∨ ∃ group ∈ groups, group ∈ chunk.acl.allowGroups := by
  rw [← groups_clause chunk groups, ← groups_source, should_one_iff, List.exists_mem_cons_iff]
  by_cases hgroups : groups = ∅
  · simp [hgroups, OpenSearchQuery.accepts]
  · simp [hgroups, OpenSearchQuery.accepts]

theorem openSearch_term_iff (tenant : String) :
    OpenSearchQuery.accepts (toSource chunk) (.term "tenant" tenant) = true
      ↔ tenant = chunk.acl.tenant := by
  have htenant : keywords (toSource chunk) "tenant" = [.str chunk.acl.tenant] := by
    by_cases h : chunk.acl.allowGroups = ∅
    · simp [keywords, toSource, Json.lookup, h]
    · simp [keywords, toSource, Json.lookup, h]
  simp [OpenSearchQuery.accepts, htenant, isText, eq_comm]

theorem openSearch_accepts_iff :
    filterAccepts (openSearchAclFilter (AclFilter.forPrincipal principal indexVersion))
        (toSource chunk) = true
      ↔ isAllowed principal chunk.acl = true ∧ VersionMatches indexVersion chunk := by
  have hversion : keywords (toSource chunk) "index_version" = [.str chunk.indexVersion] := by
    by_cases h : chunk.acl.allowGroups = ∅
    · simp [keywords, toSource, Json.lookup, h]
    · simp [keywords, toSource, Json.lookup, h]
  have hfilter : filterAccepts (openSearchAclFilter (AclFilter.forPrincipal principal indexVersion))
      (toSource chunk) = true ↔ principal.tenant = chunk.acl.tenant ∧
        VersionMatches indexVersion chunk ∧
        (chunk.acl.allowGroups = ∅ ∨
          ∃ group ∈ principal.groups, group ∈ chunk.acl.allowGroups) := by
    rw [filterAccepts, openSearchAclFilter, List.all_append, List.all_append, Bool.and_eq_true,
      Bool.and_eq_true, and_assoc, ← openSearch_should_iff chunk principal.groups,
      ← openSearch_term_iff chunk principal.tenant,
      ← version_clause principal indexVersion chunk _ hversion]
    refine and_congr ?_ (and_congr ?_ ?_)
    · rw [List.all_cons, List.all_nil, Bool.and_true]
      exact Iff.rfl
    · cases (AclFilter.forPrincipal principal indexVersion).versionAsked with
      | none => simp
      | some version => simp [OpenSearchQuery.accepts]
    · rw [List.all_cons, List.all_nil, Bool.and_true]
      exact Iff.rfl
  rw [hfilter, isAllowed_iff]
  tauto

/-- The two pushed-down filters and the scan of the memory stores keep the same chunks. -/
theorem pushdown_iff_allowed :
    ((qdrantAclFilter (AclFilter.forPrincipal principal indexVersion)).accepts (toPayload chunk)
        = true ↔ isAllowed principal chunk.acl = true ∧ VersionMatches indexVersion chunk) ∧
    (filterAccepts (openSearchAclFilter (AclFilter.forPrincipal principal indexVersion))
        (toSource chunk) = true
      ↔ isAllowed principal chunk.acl = true ∧ VersionMatches indexVersion chunk) ∧
    (visible principal indexVersion chunk = true
      ↔ isAllowed principal chunk.acl = true ∧ VersionMatches indexVersion chunk) :=
  ⟨qdrant_accepts_iff principal indexVersion chunk,
    openSearch_accepts_iff principal indexVersion chunk,
    visible_iff principal indexVersion chunk⟩

end Filter

end Rag
