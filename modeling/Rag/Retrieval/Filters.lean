import Rag.Security.Acl

/-!
`rag.retrieval.filters`: the backend-neutral description of what a principal may
retrieve.
-/

namespace Rag

structure AclFilter where
  tenant : String
  groups : Finset String
  fingerprint : String
  indexVersion : Option String := none

def AclFilter.forPrincipal (principal : Principal) (indexVersion : Option String) :
    AclFilter where
  tenant := principal.tenant
  groups := principal.groups
  fingerprint := aclFingerprint principal
  indexVersion := indexVersion

/-- `if acl.index_version`: an empty version filters nothing. -/
def AclFilter.versionAsked (acl : AclFilter) : Option String :=
  match acl.indexVersion with
  | some version => if version = "" then none else some version
  | none => none

end Rag
