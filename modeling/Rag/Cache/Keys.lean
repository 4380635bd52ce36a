import Rag.Security.Acl

/-!
`rag.cache.keys` and the tool-result key of `rag.agent.tools.cache`.

Keys are digests of a JSON payload. `sha256` stands for the hex digest and is a
parameter; the payload encoding is the concrete one. `fingerprint_eq_iff` says what two
principals with one fingerprint can differ in, and the last theorem says when the three
keys separate principals exactly as the ACL rule does.
-/

namespace Rag

open Py

section Keys

variable [Runtime] (sha256 : String → String)

def normalizeQuery (query : String) : String :=
  collapse (Runtime.lower (strip query))

/-- The document hashed by `cacheScope`. -/
def scopePayload (principal : Principal) (indexVersion promptVersion : String)
    (retrievalParams : List (String × Json)) : Json :=
  .obj [("acl", .str (aclFingerprint principal)), ("index_version", .str indexVersion),
    ("prompt_version", .str promptVersion), ("params", .obj retrievalParams)]

/-- Everything a cache entry depends on except the query text itself. -/
def cacheScope (principal : Principal) (indexVersion promptVersion : String)
    (retrievalParams : List (String × Json)) : String :=
  sha256 (scopePayload principal indexVersion promptVersion retrievalParams).dumps

def cacheKey (query : String) (principal : Principal) (indexVersion promptVersion : String)
    (retrievalParams : List (String × Json)) : String :=
  let scope := cacheScope sha256 principal indexVersion promptVersion retrievalParams
  sha256 (scope ++ "|" ++ normalizeQuery query)

/-- The document hashed by `toolResultCacheKey`. -/
def toolPayload (tool : String) (arguments : List (String × Json)) (principal : Principal)
    (indexVersion : String) : Json :=
  .obj [("tool", .str tool), ("args", .obj arguments),
    ("acl", .str (aclFingerprint principal)), ("index_version", .str indexVersion)]

/-- Key of a tool result by tool, canonical arguments, ACL scope, and index version. -/
def toolResultCacheKey (tool : String) (arguments : List (String × Json))
    (principal : Principal) (indexVersion : String) : String :=
  "tool:" ++ sha256 (toolPayload tool arguments principal indexVersion).dumps

/-- Params that must enter the answer-cache scope for agent turns. -/
def agentCacheParams (mode : String) (allowEgress : Bool) (toolNames : List String)
    (budget : List (String × Json)) : List (String × Json) :=
  [("mode", .str mode), ("allow_egress", .bool allowEgress),
    ("tools", .arr ((toolNames.insertionSort (· ≤ ·)).map .str)), ("budget", .obj budget)]

end Keys

/-- The document behind a `cacheScope`. A store that never sees two documents with one digest is
keyed by the documents, and that is how the caches of later modules are keyed. -/
structure AnswerScope where
  acl : String
  indexVersion : String
  promptVersion : String
  params : String
deriving DecidableEq

/-- The documents behind a `cacheKey`. -/
structure AnswerKey where
  scope : AnswerScope
  query : String
deriving DecidableEq

/-- The document behind a `toolResultCacheKey`. -/
structure ToolKey where
  tool : String
  arguments : String
  acl : String
  indexVersion : String
deriving DecidableEq

section Documents

variable [Runtime]

def answerScope (principal : Principal) (indexVersion promptVersion : String)
    (retrievalParams : List (String × Json)) : AnswerScope where
  acl := aclFingerprint principal
  indexVersion := indexVersion
  promptVersion := promptVersion
  params := (Json.obj retrievalParams).dumps

def answerKey (query : String) (principal : Principal) (indexVersion promptVersion : String)
    (retrievalParams : List (String × Json)) : AnswerKey where
  scope := answerScope principal indexVersion promptVersion retrievalParams
  query := normalizeQuery query

def toolKey (tool : String) (arguments : List (String × Json)) (principal : Principal)
    (indexVersion : String) : ToolKey where
  tool := tool
  arguments := (Json.obj arguments).dumps
  acl := aclFingerprint principal
  indexVersion := indexVersion

def AnswerScope.digest (sha256 : String → String) (scope : AnswerScope) : String :=
  sha256 ("\x7b\"acl\":" ++ Json.quote scope.acl ++ ",\"index_version\":"
    ++ Json.quote scope.indexVersion ++ ",\"params\":" ++ scope.params
    ++ ",\"prompt_version\":" ++ Json.quote scope.promptVersion ++ "\x7d")

def AnswerKey.digest (sha256 : String → String) (key : AnswerKey) : String :=
  sha256 (key.scope.digest sha256 ++ "|" ++ key.query)

def ToolKey.digest (sha256 : String → String) (key : ToolKey) : String :=
  "tool:" ++ sha256 ("\x7b\"acl\":" ++ Json.quote key.acl ++ ",\"args\":" ++ key.arguments
    ++ ",\"index_version\":" ++ Json.quote key.indexVersion ++ ",\"tool\":"
    ++ Json.quote key.tool ++ "\x7d")

variable (sha256 : String → String)

theorem cacheScope_eq_digest (principal : Principal) (indexVersion promptVersion : String)
    (retrievalParams : List (String × Json)) :
    cacheScope sha256 principal indexVersion promptVersion retrievalParams
      = (answerScope principal indexVersion promptVersion retrievalParams).digest sha256 := by
  have hacl : "\x7b\"acl\":" = "\x7b" ++ Json.quote "acl" ++ ":" := by decide
  have hversion : ",\"index_version\":" = "," ++ Json.quote "index_version" ++ ":" := by decide
  have hparams : ",\"params\":" = "," ++ Json.quote "params" ++ ":" := by decide
  have hprompt : ",\"prompt_version\":" = "," ++ Json.quote "prompt_version" ++ ":" := by decide
  rw [cacheScope, scopePayload, Json.dumps, AnswerScope.digest, answerScope, hacl, hversion,
    hparams, hprompt]
  simp only [Json.dumpsFields, Json.sortMembers, List.insertionSort_cons,
    List.insertionSort_nil, List.orderedInsert]
  generalize (Json.obj retrievalParams).dumps = params
  simp [join, String.intercalate_cons_cons, Json.dumps, String.append_assoc]

theorem cacheKey_eq_digest (query : String) (principal : Principal)
    (indexVersion promptVersion : String) (retrievalParams : List (String × Json)) :
    cacheKey sha256 query principal indexVersion promptVersion retrievalParams
      = (answerKey query principal indexVersion promptVersion retrievalParams).digest sha256 := by
  rw [cacheKey, cacheScope_eq_digest]
  rfl

theorem toolResultCacheKey_eq_digest (tool : String) (arguments : List (String × Json))
    (principal : Principal) (indexVersion : String) :
    toolResultCacheKey sha256 tool arguments principal indexVersion
      = (toolKey tool arguments principal indexVersion).digest sha256 := by
  have hacl : "\x7b\"acl\":" = "\x7b" ++ Json.quote "acl" ++ ":" := by decide
  have hargs : ",\"args\":" = "," ++ Json.quote "args" ++ ":" := by decide
  have hversion : ",\"index_version\":" = "," ++ Json.quote "index_version" ++ ":" := by decide
  have htool : ",\"tool\":" = "," ++ Json.quote "tool" ++ ":" := by decide
  rw [toolResultCacheKey, toolPayload, Json.dumps, ToolKey.digest, toolKey, hacl, hargs,
    hversion, htool]
  simp only [Json.dumpsFields, Json.sortMembers, List.insertionSort_cons,
    List.insertionSort_nil, List.orderedInsert]
  generalize (Json.obj arguments).dumps = args
  simp [join, String.intercalate_cons_cons, Json.dumps, String.append_assoc]

end Documents

section Payload

variable [Runtime]

/-- `acl` sorts before every other key, so the fingerprint is written first, by an injective
escape, and the rest of the document is the same for both principals. -/
theorem scopePayload_dumps_eq_iff (p q : Principal) (indexVersion promptVersion : String)
    (retrievalParams : List (String × Json)) :
    (scopePayload p indexVersion promptVersion retrievalParams).dumps
        = (scopePayload q indexVersion promptVersion retrievalParams).dumps
      ↔ aclFingerprint p = aclFingerprint q := by
  simp only [scopePayload, Json.dumps, Json.dumpsFields, Json.sortMembers,
    List.insertionSort_cons, List.insertionSort_nil, List.orderedInsert]
  simp [join_cons_inj, Json.quote_injective.eq_iff]

theorem toolPayload_dumps_eq_iff (p q : Principal) (tool : String)
    (arguments : List (String × Json)) (indexVersion : String) :
    (toolPayload tool arguments p indexVersion).dumps
        = (toolPayload tool arguments q indexVersion).dumps
      ↔ aclFingerprint p = aclFingerprint q := by
  simp only [toolPayload, Json.dumps, Json.dumpsFields, Json.sortMembers,
    List.insertionSort_cons, List.insertionSort_nil, List.orderedInsert]
  simp [join_cons_inj, Json.quote_injective.eq_iff]

variable {sha256 : String → String}

theorem cacheScope_eq_iff (hsha : Function.Injective sha256) (p q : Principal)
    (indexVersion promptVersion : String) (retrievalParams : List (String × Json)) :
    cacheScope sha256 p indexVersion promptVersion retrievalParams
        = cacheScope sha256 q indexVersion promptVersion retrievalParams
      ↔ aclFingerprint p = aclFingerprint q := by
  rw [cacheScope, cacheScope, hsha.eq_iff, scopePayload_dumps_eq_iff]

theorem cacheKey_eq_iff (hsha : Function.Injective sha256) (query : String) (p q : Principal)
    (indexVersion promptVersion : String) (retrievalParams : List (String × Json)) :
    cacheKey sha256 query p indexVersion promptVersion retrievalParams
        = cacheKey sha256 query q indexVersion promptVersion retrievalParams
      ↔ aclFingerprint p = aclFingerprint q := by
  rw [cacheKey, cacheKey, hsha.eq_iff, String.append_left_inj, String.append_left_inj,
    cacheScope_eq_iff hsha]

theorem toolResultCacheKey_eq_iff (hsha : Function.Injective sha256) (tool : String)
    (arguments : List (String × Json)) (p q : Principal) (indexVersion : String) :
    toolResultCacheKey sha256 tool arguments p indexVersion
        = toolResultCacheKey sha256 tool arguments q indexVersion
      ↔ aclFingerprint p = aclFingerprint q := by
  rw [toolResultCacheKey, toolResultCacheKey, String.append_right_inj, hsha.eq_iff,
    toolPayload_dumps_eq_iff]

end Payload

/-- One tenant, different groups, and the group names cut at their commas agree. -/
def CommaClash (p q : Principal) : Prop :=
  p.tenant = q.tenant ∧ p.groups ≠ q.groups
    ∧ pieces ',' (sortedNames p.groups) = pieces ',' (sortedNames q.groups)

/-- The tenant of `q` runs past a bar into what the groups of `p` begin with. -/
def BarClash (p q : Principal) : Prop :=
  ∃ u : String, q.tenant = p.tenant ++ "|" ++ u
    ∧ join "," (sortedNames p.groups) = u ++ "|" ++ join "," (sortedNames q.groups)

/-- The separators of the fingerprint occur in the names so that two principals of
different reach are written alike. -/
def DelimiterClash (p q : Principal) : Prop :=
  CommaClash p q ∨ BarClash p q ∨ BarClash q p

theorem BarClash.tenant_ne {p q : Principal} (h : BarClash p q) : p.tenant ≠ q.tenant := by
  obtain ⟨u, hq, -⟩ := h
  intro hp
  have hlen := congrArg String.length (hp.trans hq)
  have hbar : "|".length = 1 := rfl
  rw [String.length_append, String.length_append] at hlen
  omega

theorem DelimiterClash.reach_ne {p q : Principal} (h : DelimiterClash p q) :
    ¬ (p.tenant = q.tenant ∧ p.groups = q.groups) := by
  rintro ⟨htenant, hgroups⟩
  rcases h with h | h | h
  · exact h.2.1 hgroups
  · exact h.tenant_ne htenant
  · exact h.tenant_ne htenant.symm

theorem BarClash.fingerprint_eq {p q : Principal} (h : BarClash p q) :
    aclFingerprint p = aclFingerprint q := by
  obtain ⟨u, htenant, hgroups⟩ := h
  simp only [aclFingerprint, htenant, hgroups, String.append_assoc]

/-- A shared encoding `tenant|groups` either has the bar in one place, or one tenant
contains the other's bar. -/
theorem append_bar_cases {s t g h : List Char} (heq : s ++ '|' :: g = t ++ '|' :: h) :
    (s = t ∧ g = h) ∨ (∃ u, t = s ++ '|' :: u ∧ g = u ++ '|' :: h)
      ∨ (∃ u, s = t ++ '|' :: u ∧ h = u ++ '|' :: g) := by
  rcases List.append_eq_append_iff.mp heq with ⟨u, ht, hg⟩ | ⟨u, hs, hh⟩
  · cases u with
    | nil => simp_all
    | cons c u =>
        obtain ⟨rfl, hrest⟩ := List.cons.inj hg
        exact Or.inr (Or.inl ⟨u, ht, hrest⟩)
  · cases u with
    | nil => simp_all
    | cons c u =>
        obtain ⟨rfl, hrest⟩ := List.cons.inj hh
        exact Or.inr (Or.inr ⟨u, hs, hrest⟩)

theorem fingerprint_eq_iff (p q : Principal) :
    aclFingerprint p = aclFingerprint q
      ↔ (p.tenant = q.tenant ∧ p.groups = q.groups) ∨ DelimiterClash p q := by
  constructor
  · intro h
    have hchars := congrArg String.toList h
    simp only [aclFingerprint, String.toList_append, List.append_assoc] at hchars
    rcases append_bar_cases hchars with ⟨ht, hg⟩ | ⟨u, ht, hg⟩ | ⟨u, ht, hg⟩
    · have htenant := String.toList_inj.mp ht
      by_cases hgroups : p.groups = q.groups
      · exact Or.inl ⟨htenant, hgroups⟩
      · refine Or.inr (Or.inl ⟨htenant, hgroups, ?_⟩)
        exact (join_eq_join_iff ',' _ _).mp (String.toList_inj.mp hg)
    · refine Or.inr (Or.inr (Or.inl ⟨String.ofList u, ?_, ?_⟩)) <;>
        rw [← String.toList_inj] <;> simpa using ‹_›
    · refine Or.inr (Or.inr (Or.inr ⟨String.ofList u, ?_, ?_⟩)) <;>
        rw [← String.toList_inj] <;> simpa using ‹_›
  · rintro (⟨htenant, hgroups⟩ | h | h | h)
    · rw [aclFingerprint, aclFingerprint, htenant, hgroups]
    · have hjoin := (join_eq_join_iff ',' _ _).mpr h.2.2
      rw [aclFingerprint, aclFingerprint, h.1]
      exact congrArg _ hjoin
    · exact h.fingerprint_eq
    · exact h.fingerprint_eq.symm

/-- Names without the two separators never clash. -/
theorem not_delimiterClash_of_clean {p q : Principal}
    (hp : '|' ∉ p.tenant.toList ∧ ∀ g ∈ p.groups, ',' ∉ g.toList ∧ g ≠ "")
    (hq : '|' ∉ q.tenant.toList ∧ ∀ g ∈ q.groups, ',' ∉ g.toList ∧ g ≠ "") :
    ¬ DelimiterClash p q := by
  rintro (⟨-, hgroups, hpieces⟩ | ⟨u, htenant, -⟩ | ⟨u, htenant, -⟩)
  · refine hgroups (sortedNames_injective (pieces_injOn_clean ?_ ?_ hpieces))
    · intro g hg
      exact hp.2 g (by simpa [sortedNames] using hg)
    · intro g hg
      exact hq.2 g (by simpa [sortedNames] using hg)
  · exact hq.1 (by simp [htenant])
  · exact hp.1 (by simp [htenant])

/-- The three keys of two principals agree exactly when their reach does, unless the
separators of the fingerprint occur in the names in a clashing way. -/
theorem keys_follow_reach_iff [Runtime] (sha256 : String → String)
    (hsha : Function.Injective sha256) (p q : Principal)
    (query indexVersion promptVersion tool : String)
    (retrievalParams arguments : List (String × Json)) :
    ((cacheKey sha256 query p indexVersion promptVersion retrievalParams
          = cacheKey sha256 query q indexVersion promptVersion retrievalParams
        ↔ ∀ acl, isAllowed p acl = isAllowed q acl)
      ∧ (cacheScope sha256 p indexVersion promptVersion retrievalParams
          = cacheScope sha256 q indexVersion promptVersion retrievalParams
        ↔ ∀ acl, isAllowed p acl = isAllowed q acl)
      ∧ (toolResultCacheKey sha256 tool arguments p indexVersion
          = toolResultCacheKey sha256 tool arguments q indexVersion
        ↔ ∀ acl, isAllowed p acl = isAllowed q acl))
      ↔ ¬ DelimiterClash p q := by
  rw [cacheKey_eq_iff hsha, cacheScope_eq_iff hsha, toolResultCacheKey_eq_iff hsha,
    reach_iff, fingerprint_eq_iff]
  constructor
  · rintro ⟨h, -, -⟩ hclash
    exact hclash.reach_ne (h.mp (Or.inr hclash))
  · intro hclash
    have h : (p.tenant = q.tenant ∧ p.groups = q.groups ∨ DelimiterClash p q)
        ↔ p.tenant = q.tenant ∧ p.groups = q.groups := by
      simp [hclash]
    exact ⟨h, h, h⟩

/-- The group `eng,hr`, which shares every key with the groups `eng`, `hr` of its tenant. -/
def oneCommaGroup : Principal where
  subject := "ann"
  groups := ["eng,hr"].toFinset
  tenant := "acme"

def twoGroups : Principal where
  subject := "bob"
  groups := ["eng", "hr"].toFinset
  tenant := "acme"

theorem oneCommaGroup_fingerprint :
    aclFingerprint oneCommaGroup = aclFingerprint twoGroups := by
  rw [aclFingerprint, aclFingerprint, oneCommaGroup, twoGroups,
    sortedNames_toFinset (by decide) (by decide), sortedNames_toFinset (by decide) (by decide)]
  rfl

theorem keys_collide_across_reach :
    ¬ ∀ (_ : Runtime) (sha256 : String → String), Function.Injective sha256 →
      ∀ (p q : Principal) (query indexVersion promptVersion tool : String)
        (retrievalParams arguments : List (String × Json)),
        (cacheKey sha256 query p indexVersion promptVersion retrievalParams
              = cacheKey sha256 query q indexVersion promptVersion retrievalParams
            ↔ ∀ acl, isAllowed p acl = isAllowed q acl)
          ∧ (cacheScope sha256 p indexVersion promptVersion retrievalParams
              = cacheScope sha256 q indexVersion promptVersion retrievalParams
            ↔ ∀ acl, isAllowed p acl = isAllowed q acl)
          ∧ (toolResultCacheKey sha256 tool arguments p indexVersion
              = toolResultCacheKey sha256 tool arguments q indexVersion
            ↔ ∀ acl, isAllowed p acl = isAllowed q acl) := by
  intro h
  have hkeys := (h Runtime.ascii id Function.injective_id oneCommaGroup twoGroups
    "who is on call" "v1" "v1" "retrieval_search" [] []).2.1
  rw [@cacheScope_eq_iff Runtime.ascii id Function.injective_id] at hkeys
  have hreach := hkeys.mp oneCommaGroup_fingerprint
    { tenant := "acme", allowGroups := ["hr"].toFinset }
  exact absurd hreach (by decide)

theorem keys_follow_reach_iff_commaGroups :
    Function.Injective (id : String → String)
      ∧ (((@cacheKey Runtime.ascii id "who is on call" oneCommaGroup "v1" "v1" []
              = @cacheKey Runtime.ascii id "who is on call" twoGroups "v1" "v1" []
            ↔ ∀ acl, isAllowed oneCommaGroup acl = isAllowed twoGroups acl)
          ∧ (@cacheScope Runtime.ascii id oneCommaGroup "v1" "v1" []
              = @cacheScope Runtime.ascii id twoGroups "v1" "v1" []
            ↔ ∀ acl, isAllowed oneCommaGroup acl = isAllowed twoGroups acl)
          ∧ (@toolResultCacheKey Runtime.ascii id "retrieval_search" [] oneCommaGroup "v1"
              = @toolResultCacheKey Runtime.ascii id "retrieval_search" [] twoGroups "v1"
            ↔ ∀ acl, isAllowed oneCommaGroup acl = isAllowed twoGroups acl))
        ↔ ¬ DelimiterClash oneCommaGroup twoGroups) :=
  ⟨Function.injective_id,
    @keys_follow_reach_iff Runtime.ascii id Function.injective_id oneCommaGroup twoGroups
      "who is on call" "v1" "v1" "retrieval_search" [] []⟩

end Rag
