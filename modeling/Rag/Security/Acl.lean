import Rag.Schemas

/-!
`rag.security.acl`. `reach_iff` says what the ACL rule reads of a principal: the tenant
and the groups, both completely.
-/

namespace Rag

/-- True if `principal` may access a document or chunk with the given ACL. -/
def isAllowed (principal : Principal) (acl : AclTags) : Bool :=
  if principal.tenant ≠ acl.tenant then false
  else if acl.allowGroups = ∅ then true
  else decide ((principal.groups ∩ acl.allowGroups) ≠ ∅)

/-- Cache-scope fingerprint of a principal. -/
def aclFingerprint (principal : Principal) : String :=
  let groups := Py.join "," (Py.sortedNames principal.groups)
  principal.tenant ++ "|" ++ groups

theorem isAllowed_congr {p q : Principal} (htenant : p.tenant = q.tenant)
    (hgroups : p.groups = q.groups) (acl : AclTags) : isAllowed p acl = isAllowed q acl := by
  unfold isAllowed
  rw [htenant, hgroups]

theorem isAllowed_tenantWide (p : Principal) (tenant : String) :
    isAllowed p { tenant := tenant } = decide (p.tenant = tenant) := by
  by_cases h : p.tenant = tenant <;> simp [isAllowed, h]

theorem isAllowed_oneGroup (p : Principal) (group : String) :
    isAllowed p { tenant := p.tenant, allowGroups := {group} } = decide (group ∈ p.groups) := by
  by_cases h : group ∈ p.groups <;> simp [isAllowed, h]

/-- Two principals reach the same documents exactly when tenant and groups agree. -/
theorem reach_iff (p q : Principal) :
    (∀ acl, isAllowed p acl = isAllowed q acl) ↔ p.tenant = q.tenant ∧ p.groups = q.groups := by
  constructor
  · intro h
    have htenant : p.tenant = q.tenant := by
      have hwide := h { tenant := p.tenant }
      rw [isAllowed_tenantWide, isAllowed_tenantWide] at hwide
      have hq : q.tenant = p.tenant := by simpa using hwide
      exact hq.symm
    refine ⟨htenant, ?_⟩
    ext group
    have hone := h { tenant := p.tenant, allowGroups := {group} }
    rw [isAllowed_oneGroup, htenant, isAllowed_oneGroup] at hone
    simpa using hone
  · rintro ⟨htenant, hgroups⟩ acl
    exact isAllowed_congr htenant hgroups acl

end Rag
