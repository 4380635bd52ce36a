import Rag.Retrieval.Payloads
import Rag.Security.Auth

/-!
Whom a deployment believes: `build_authenticator` of `rag.security.auth` with the production check
of `rag.settings`.

The identity headers of a request name a principal of the caller's choice (`impersonates_iff`).
They are honoured exactly where they are trusted and no token file is configured
(`headers_honoured_iff`), which the settings refuse in production: there every principal is one
that the token file spells out for the presented token (`production_principals`).
-/

namespace Rag

open Py

inductive EmbeddingBackend where
  | hash
  | openai
deriving DecidableEq

inductive LlmBackend where
  | echo
  | openai
deriving DecidableEq

/-- The fields of `Settings` that the production check and the choice of an authenticator read. -/
structure DeploymentSettings where
  env : String := "dev"
  embeddingBackend : EmbeddingBackend := .hash
  llmBackend : LlmBackend := .echo
  chatLlmBackend : LlmBackend := .echo
  agentEnabled : Bool := true
  agentAllowEgress : Bool := false
  authRequired : Bool := true
  authTrustHeaders : Bool := false
  authTokensFile : Option String := none
  defaultTenant : String := "default"

namespace DeploymentSettings

variable [Runtime] (settings : DeploymentSettings)

def isProduction : Prop :=
  Runtime.lower settings.env ∈ ["prod", "production", "staging", "stage"]

instance : Decidable settings.isProduction := inferInstanceAs (Decidable (_ ∈ _))

omit [Runtime] in
/-- What is wrong with the settings of a production deployment. -/
def problems : List String :=
  (if settings.authTrustHeaders then
    ["RAG_AUTH_TRUST_HEADERS must be false outside dev: trusting ACL headers "
      ++ "lets any caller choose their own tenant and groups"] else [])
  ++ (if settings.authRequired then [] else ["RAG_AUTH_REQUIRED must be true outside dev"])
  ++ (if settings.embeddingBackend = .hash then
    ["RAG_EMBEDDING_BACKEND=hash is a deterministic test stub, not a real model"] else [])
  ++ (if settings.llmBackend = .echo then
    ["RAG_LLM_BACKEND=echo is a test stub, not a real model"] else [])
  ++ (if settings.agentEnabled ∧ settings.chatLlmBackend = .echo then
    ["RAG_AGENT_ENABLED requires RAG_CHAT_LLM_BACKEND!=echo outside "
      ++ "dev: the agent must not run on a stub chat model in production"] else [])
  ++ (if settings.agentAllowEgress then
    ["RAG_AGENT_ALLOW_EGRESS must be false outside dev until egress "
      ++ "tools are explicitly provisioned and audited"] else [])

/-- Fail fast rather than silently running an unsafe production config. -/
def rejectUnsafeProductionConfig : Except Exn DeploymentSettings :=
  if settings.isProduction then
    match settings.problems with
    | [] => .ok settings
    | problems =>
        .error (valueError ("Unsafe configuration for env=" ++ Runtime.repr (.str settings.env)
          ++ ":\n  - " ++ join "\n  - " problems))
  else .ok settings

end DeploymentSettings

/-- The groups of a comma-separated header. -/
def parseGroups (raw : Option String) (default : Finset String) : Finset String :=
  match raw with
  | none => default
  | some text =>
      if text = "" then default
      else (((text.toList.splitOn ',').map fun part => strip (String.ofList part)).filter
        (· ≠ "")).toFinset

inductive Authenticator where
  /-- Takes identity straight from request headers. -/
  | trustedHeader (defaultTenant : String)
  | staticToken (authenticator : StaticTokenAuthenticator)
  /-- Rejects everything. Used when auth is required but unconfigured. -/
  | denyAll
  /-- Single anonymous principal. Only for explicitly unauthenticated demos. -/
  | anonymous (tenant : String)

section Authenticate

variable [Runtime]

def Authenticator.authenticate (credentials : Credentials) : Authenticator → Except Exn Principal
  | .trustedHeader defaultTenant =>
      .ok {
        subject := ((credentials.subject.filter (· ≠ "")).or
          ((bearerToken credentials.authorization).filter (· ≠ ""))).getD "anonymous"
        tenant := (credentials.tenant.filter (· ≠ "")).getD defaultTenant
        groups := parseGroups credentials.groups {"public"} }
  | .staticToken authenticator => authenticator.authenticate credentials
  | .denyAll => .error (authError "no_authenticator_configured")
  | .anonymous tenant => .ok { subject := "anonymous", tenant := tenant, groups := {"public"} }

/-- `value[key]` -/
def getKey (value : Json) (key : String) : Except Exn Json :=
  match value with
  | .obj fields =>
      match Json.lookup fields key with
      | some found => .ok found
      | none => .error (keyError key)
  | .arr _ => .error (typeError "list indices must be integers or slices, not str")
  | .str _ => .error (typeError "string indices must be integers, not 'str'")
  | other => .error (typeError ("'" ++ other.typeName ++ "' object is not subscriptable"))

omit [Runtime] in
/-- `for item in value` -/
def iterate (value : Json) : Except Exn (List Json) :=
  match elementsOf value with
  | some items => .ok items
  | none => .error (typeError ("'" ++ value.typeName ++ "' object is not iterable"))

omit [Runtime] in
/-- `value.get(key, [])` on a mapping. -/
def getList (value : Json) (key : String) : Json :=
  match value with
  | .obj fields => (Json.lookup fields key).getD (.arr [])
  | _ => .arr []

/-- One entry of the file. -/
def tokenEntry (entry : Json) : Except Exn (String × Principal) := do
  let token ← getKey entry "token"
  let subject ← getKey entry "subject"
  let tenant ← getKey entry "tenant"
  let groups ← iterate (getList entry "groups")
  pure (token.toStr, {
    subject := subject.toStr
    tenant := tenant.toStr
    groups := (groups.map Json.toStr).toFinset })

/-- The entries of a document in their order; what is not a mapping has none. -/
def tokenEntries (document : Json) : Except Exn (List (String × Principal)) := do
  let entries ← iterate (getList document "tokens")
  entries.mapM tokenEntry

/-- `from_file`; of several entries with one token the last counts. -/
def staticTokensOf (document : Json) : Except Exn StaticTokenAuthenticator := do
  let entries ← tokenEntries document
  pure ⟨entries.foldl (fun principals entry => principals.set entry.1 entry.2) .empty⟩

/-- Select an authenticator from configuration, failing closed. `document` is what reading the
token file gives. -/
def buildAuthenticator (settings : DeploymentSettings) (document : String → Except Exn Json) :
    Except Exn Authenticator :=
  match settings.authTokensFile with
  | some path => do
      let content ← document path
      let authenticator ← staticTokensOf content
      pure (.staticToken authenticator)
  | none =>
      .ok (if settings.authTrustHeaders then .trustedHeader settings.defaultTenant
        else if settings.authRequired then .denyAll
        else .anonymous settings.defaultTenant)

/-- Settings that pass their check, and the authenticator built from them. -/
def deploy (settings : DeploymentSettings) (document : String → Except Exn Json) :
    Except Exn Authenticator := do
  let checked ← settings.rejectUnsafeProductionConfig
  buildAuthenticator checked document

end Authenticate

/-- A group that a header can name. -/
structure CleanGroup (group : String) : Prop where
  ne_empty : group ≠ ""
  trimmed : Trimmed group.toList
  no_comma : ',' ∉ group.toList

/-- The parts of a split text are free of the separator. -/
theorem not_mem_of_splitOn {sep : Char} {cs part : List Char} (h : part ∈ cs.splitOn sep) :
    sep ∉ part := by
  induction cs generalizing part with
  | nil =>
      have hnil : part = [] := by simpa using h
      rw [hnil]
      exact List.not_mem_nil
  | cons c cs ih =>
      rw [List.splitOn_cons_eq_if_modifyHead] at h
      split_ifs at h with hc
      · rcases List.mem_cons.mp h with rfl | h
        · exact List.not_mem_nil
        · exact ih h
      · cases hparts : cs.splitOn sep with
        | nil => exact absurd hparts (List.splitOn_ne_nil sep cs)
        | cons first rest =>
            rw [hparts, List.modifyHead_cons] at h
            rcases List.mem_cons.mp h with rfl | h
            · intro hmem
              rcases List.mem_cons.mp hmem with rfl | hmem
              · simp at hc
              · exact ih (by rw [hparts]; exact List.mem_cons_self) hmem
            · exact ih (by rw [hparts]; exact List.mem_cons_of_mem _ h)

theorem cleanGroup_of_parsed {text group : String} {default : Finset String} (htext : text ≠ "")
    (h : group ∈ parseGroups (some text) default) : CleanGroup group := by
  simp only [parseGroups, if_neg htext, List.mem_toFinset, List.mem_filter, List.mem_map,
    decide_eq_true_eq] at h
  obtain ⟨⟨part, hpart, rfl⟩, hne⟩ := h
  constructor
  · exact hne
  · rw [strip, String.toList_ofList]
    exact stripChars_trimmed _
  · rw [strip, String.toList_ofList, String.toList_ofList]
    intro hcomma
    obtain ⟨before, after, hsplit, -, -⟩ := stripChars_split part
    apply not_mem_of_splitOn hpart
    rw [hsplit]
    exact List.mem_append_left _ (List.mem_append_right _ hcomma)

/-- Clean groups are read back as they are written. -/
theorem parseGroups_join {names : List String} (hnames : names ≠ [])
    (hclean : ∀ name ∈ names, CleanGroup name) (default : Finset String) :
    join "," names ≠ "" ∧ parseGroups (some (join "," names)) default = names.toFinset := by
  have hsplit : (join "," names).toList.splitOn ',' = names.map String.toList := by
    have hpieces := splitOn_join ',' names
    rw [pieces_of_clean fun name hname => ⟨(hclean name hname).no_comma,
      (hclean name hname).ne_empty⟩, if_neg hnames] at hpieces
    exact hpieces
  have hne : join "," names ≠ "" := by
    intro hempty
    rw [hempty] at hsplit
    obtain ⟨name, rest, rfl⟩ := List.exists_cons_of_ne_nil hnames
    have hname : name.toList = [] := by
      have hhead := congrArg List.head? hsplit
      simpa using hhead.symm
    exact (hclean name List.mem_cons_self).ne_empty (String.toList_inj.mp hname)
  refine ⟨hne, ?_⟩
  rw [parseGroups]
  simp only [if_neg hne, hsplit, List.map_map]
  congr 1
  have hstrip : ∀ name ∈ names, strip (String.ofList name.toList) = name := by
    intro name hname
    rw [String.ofList_toList, strip, stripChars_of_trimmed (hclean name hname).trimmed,
      String.ofList_toList]
  have hmap : names.map ((fun part => strip (String.ofList part)) ∘ String.toList) = names := by
    conv_rhs => rw [← List.map_id names]
    exact List.map_congr_left hstrip
  rw [hmap]
  apply List.filter_eq_self.mpr
  intro name hname
  simpa using (hclean name hname).ne_empty

theorem cleanGroup_public : CleanGroup "public" where
  ne_empty := by decide
  trimmed := by
    constructor
    · rintro c ⟨⟩
      rfl
    · rintro c ⟨⟩
      rfl
  no_comma := by decide

/-- Exactly the sets of clean groups can be named in a header. -/
theorem named_iff (groups default : Finset String) :
    (∃ text, text ≠ "" ∧ parseGroups (some text) default = groups)
      ↔ ∀ group ∈ groups, CleanGroup group := by
  constructor
  · rintro ⟨text, htext, rfl⟩ group hgroup
    exact cleanGroup_of_parsed htext hgroup
  · intro hclean
    by_cases hempty : groups = ∅
    · subst hempty
      refine ⟨",", by decide, ?_⟩
      show (((",".toList.splitOn ',').map fun part => strip (String.ofList part)).filter
        (· ≠ "")).toFinset = ∅
      decide +kernel
    · have hnames : sortedNames groups ≠ [] := by
        intro hnil
        apply hempty
        rw [← Finset.sort_toFinset groups (· ≤ ·)]
        exact congrArg List.toFinset hnil
      have hmem : ∀ name ∈ sortedNames groups, CleanGroup name :=
        fun name hname => hclean name ((Finset.mem_sort _).mp hname)
      obtain ⟨hne, hparsed⟩ := parseGroups_join hnames hmem default
      exact ⟨_, hne, hparsed.trans (Finset.sort_toFinset groups _)⟩

/-- The token file that the repository ships as an example. -/
def tokensDocument : Json :=
  .obj [("tokens", .arr [
    .obj [("token", .str "replace-me-acme-engineering"), ("subject", .str "svc-acme-search"),
      ("tenant", .str "acme"), ("groups", .arr [.str "engineering", .str "public"])],
    .obj [("token", .str "replace-me-acme-hr"), ("subject", .str "svc-acme-hr"),
      ("tenant", .str "acme"), ("groups", .arr [.str "hr", .str "public"])],
    .obj [("token", .str "replace-me-beta"), ("subject", .str "svc-beta-search"),
      ("tenant", .str "beta"), ("groups", .arr [.str "public"])]])]

def productionSettings : DeploymentSettings where
  env := "prod"
  embeddingBackend := .openai
  llmBackend := .openai
  chatLlmBackend := .openai
  authTokensFile := some "configs/auth.yaml"

/-- The principals of the example file. -/
def exampleTokens : StaticTokenAuthenticator where
  principals := ⟨[("replace-me-acme-engineering", ⟨"svc-acme-search", {"engineering", "public"},
      "acme"⟩),
    ("replace-me-acme-hr", ⟨"svc-acme-hr", {"hr", "public"}, "acme"⟩),
    ("replace-me-beta", ⟨"svc-beta-search", {"public"}, "beta"⟩)], by decide⟩

def betaCredentials : Credentials where
  authorization := some "Bearer replace-me-beta"

section Identity

variable [Runtime]

/-- Where headers are trusted, a caller is whoever the headers say: any subject, any tenant and
any set of groups that can be written down. -/
theorem impersonates_iff (defaultTenant : String) (principal : Principal) :
    (∃ credentials, (Authenticator.trustedHeader defaultTenant).authenticate credentials
        = .ok principal)
      ↔ principal.subject ≠ "" ∧ (principal.tenant = "" → defaultTenant = "")
        ∧ ∀ group ∈ principal.groups, CleanGroup group := by
  constructor
  · rintro ⟨credentials, haccepted⟩
    cases haccepted
    refine ⟨?_, ?_, ?_⟩
    · cases hsubject : credentials.subject.filter (· ≠ "") with
      | some subject => simpa using (Option.filter_eq_some_iff.mp hsubject).2
      | none =>
          cases htoken : (bearerToken credentials.authorization).filter (· ≠ "") with
          | some token => simpa using (Option.filter_eq_some_iff.mp htoken).2
          | none => simp
    · cases htenant : credentials.tenant.filter (· ≠ "") with
      | some tenant =>
          have hne : tenant ≠ "" := by simpa using (Option.filter_eq_some_iff.mp htenant).2
          intro hempty
          exact absurd hempty hne
      | none => exact id
    · intro group hgroup
      cases hgroups : credentials.groups with
      | none =>
          rw [hgroups] at hgroup
          rw [Finset.mem_singleton.mp hgroup]
          exact cleanGroup_public
      | some text =>
          rw [hgroups] at hgroup
          by_cases htext : text = ""
          · rw [parseGroups, if_pos htext] at hgroup
            rw [Finset.mem_singleton.mp hgroup]
            exact cleanGroup_public
          · exact cleanGroup_of_parsed htext hgroup
  · rintro ⟨hsubject, htenant, hclean⟩
    obtain ⟨text, htext, hparsed⟩ := (named_iff principal.groups {"public"}).mpr hclean
    refine ⟨⟨none, some principal.tenant, some text, some principal.subject⟩, ?_⟩
    have hkept : (some principal.subject).filter (· ≠ "") = some principal.subject := by
      simp [Option.filter, hsubject]
    have hnamed : ((some principal.tenant).filter (· ≠ "")).getD defaultTenant
        = principal.tenant := by
      by_cases hempty : principal.tenant = ""
      · rw [hempty, htenant hempty]
        rfl
      · simp [Option.filter, hempty]
    rw [Authenticator.authenticate]
    simp only [hkept, hnamed, hparsed, Option.some_or, Option.getD_some]

variable {settings : DeploymentSettings} {document : String → Except Exn Json}
  {authenticator : Authenticator}

/-- What a deployment is built from. -/
theorem built_of_deploy (h : deploy settings document = .ok authenticator) :
    buildAuthenticator settings document = .ok authenticator
      ∧ (settings.isProduction → settings.problems = []) := by
  obtain ⟨checked, hchecked, hbuilt⟩ := ok_of_bind h
  rw [DeploymentSettings.rejectUnsafeProductionConfig] at hchecked
  split_ifs at hchecked with hproduction
  · cases hproblems : settings.problems with
    | nil =>
        rw [hproblems] at hchecked
        cases hchecked
        exact ⟨hbuilt, fun _ => rfl⟩
    | cons problem rest =>
        rw [hproblems] at hchecked
        cases hchecked
  · cases hchecked
    exact ⟨hbuilt, fun hproduction' => absurd hproduction' hproduction⟩

/-- A configured token file is used, whatever else is set. -/
theorem built_of_file {path : String} (hpath : settings.authTokensFile = some path)
    (h : buildAuthenticator settings document = .ok authenticator) :
    ∃ content entries, document path = .ok content ∧ tokenEntries content = .ok entries
      ∧ authenticator = .staticToken
        ⟨entries.foldl (fun principals entry => principals.set entry.1 entry.2) .empty⟩ := by
  rw [buildAuthenticator, hpath] at h
  obtain ⟨content, hcontent, h⟩ := ok_of_bind h
  obtain ⟨tokens, htokens, h⟩ := ok_of_bind h
  obtain ⟨entries, hentries, htokens⟩ := ok_of_bind htokens
  cases htokens
  cases h
  exact ⟨content, entries, hcontent, hentries, rfl⟩

/-- The identity headers of a request make a difference exactly where they are trusted and no
token file is configured. -/
theorem headers_honoured_iff (h : deploy settings document = .ok authenticator) :
    (∃ credentials other : Credentials, other.authorization = credentials.authorization
        ∧ authenticator.authenticate other ≠ authenticator.authenticate credentials)
      ↔ settings.authTrustHeaders = true ∧ settings.authTokensFile = none := by
  have hbuilt := (built_of_deploy h).1
  cases hfile : settings.authTokensFile with
  | some path =>
      obtain ⟨content, entries, -, -, rfl⟩ := built_of_file hfile hbuilt
      apply iff_of_false
      · rintro ⟨credentials, other, hsame, hdiffers⟩
        exact hdiffers (authenticate_independent hsame)
      · simp
  | none =>
      rw [buildAuthenticator, hfile] at hbuilt
      cases hbuilt
      cases htrust : settings.authTrustHeaders with
      | true =>
          refine iff_of_true ⟨⟨none, some "a", none, none⟩, ⟨none, some "b", none, none⟩, rfl, ?_⟩
            ⟨rfl, rfl⟩
          intro heq
          have htenant : "b" = "a" := congrArg Principal.tenant (Except.ok.inj heq)
          exact absurd htenant (by decide)
      | false =>
          apply iff_of_false
          · rintro ⟨credentials, other, hsame, hdiffers⟩
            apply hdiffers
            cases settings.authRequired <;> rfl
          · simp

end Identity

section

attribute [local instance] Runtime.ascii

/-- A demo with trusted headers. -/
theorem headers_honoured_in_dev :
    (∃ credentials other : Credentials, other.authorization = credentials.authorization
        ∧ (Authenticator.trustedHeader "default").authenticate other
          ≠ (Authenticator.trustedHeader "default").authenticate credentials)
      ↔ true = true ∧ (none : Option String) = none :=
  @headers_honoured_iff _ { authTrustHeaders := true } (fun _ => .ok .null) _ rfl

end

section Tokens

variable [Runtime] {settings : DeploymentSettings} {document : String → Except Exn Json}
  {authenticator : Authenticator}

omit [Runtime] in
/-- The loop returns a configured principal of the token. -/
theorem mem_of_matchToken {token : String} {items : List (String × Principal)}
    {principal : Principal} (h : matchToken token items = .ok principal) :
    (token, principal) ∈ items := by
  induction items with
  | nil => cases h
  | cons item rest ih =>
      rw [matchToken] at h
      obtain ⟨same, hsame, h⟩ := ok_of_bind h
      split_ifs at h with heq
      · cases h
        rw [compareDigest] at hsame
        split_ifs at hsame
        cases hsame
        have htoken : token = item.1 := by simpa using heq
        rw [htoken]
        exact List.mem_cons_self
      · exact List.mem_cons_of_mem _ (ih h)

omit [Runtime] in
/-- Of several entries with one token the last counts. -/
theorem get?_entries (entries : List (String × Principal)) (d : Dict String Principal)
    (token : String) :
    (entries.foldl (fun principals entry => principals.set entry.1 entry.2) d).get? token
      = ((entries.reverse.find? fun entry => entry.1 = token).map Prod.snd).or
        (d.get? token) := by
  induction entries generalizing d with
  | nil => rfl
  | cons entry rest ih =>
      rw [List.foldl_cons, ih, Dict.get?_set, List.reverse_cons, List.find?_append]
      cases hrest : rest.reverse.find? fun entry => entry.1 = token with
      | some found => rfl
      | none =>
          by_cases hentry : token = entry.1
          · simp [hentry]
          · have hne : entry.1 ≠ token := fun heq => hentry heq.symm
            simp [hentry, hne]

/-- In production a caller is whom the token file spells out for the presented token, and nobody
else. -/
theorem production_principals (h : deploy settings document = .ok authenticator)
    (hproduction : settings.isProduction) {credentials : Credentials} {principal : Principal}
    (haccepted : authenticator.authenticate credentials = .ok principal) :
    ∃ path content entries token, settings.authTokensFile = some path
      ∧ document path = .ok content ∧ tokenEntries content = .ok entries
      ∧ bearerToken credentials.authorization = some token
      ∧ (entries.reverse.find? fun entry => entry.1 = token) = some (token, principal) := by
  obtain ⟨hbuilt, hsafe⟩ := built_of_deploy h
  have hproblems := hsafe hproduction
  cases hfile : settings.authTokensFile with
  | none =>
      rw [buildAuthenticator, hfile] at hbuilt
      cases hbuilt
      have htrust : settings.authTrustHeaders = false := by
        by_contra htrusted
        simp [DeploymentSettings.problems, htrusted, -String.reduceAppend] at hproblems
      have hrequired : settings.authRequired = true := by
        by_contra hoptional
        simp [DeploymentSettings.problems, hoptional, -String.reduceAppend] at hproblems
      rw [htrust, hrequired] at haccepted
      cases haccepted
  | some path =>
      obtain ⟨content, entries, hcontent, hentries, rfl⟩ := built_of_file hfile hbuilt
      rw [Authenticator.authenticate, StaticTokenAuthenticator.authenticate] at haccepted
      cases htoken : bearerToken credentials.authorization with
      | none =>
          rw [htoken] at haccepted
          cases haccepted
      | some token =>
          rw [htoken] at haccepted
          dsimp only at haccepted
          split_ifs at haccepted with hempty
          have hget := Dict.get?_iff.mpr (mem_of_matchToken haccepted)
          rw [get?_entries] at hget
          have hlast : ((entries.reverse.find? fun entry => entry.1 = token).map Prod.snd)
              = some principal := by
            simpa [Dict.get?, Dict.empty] using hget
          obtain ⟨⟨name, found⟩, hfound, rfl⟩ := Option.map_eq_some_iff.mp hlast
          have hname : name = token := by simpa using List.find?_some hfound
          subst hname
          exact ⟨path, content, entries, _, rfl, hcontent, hentries, rfl, hfound⟩

end Tokens

section

attribute [local instance] Runtime.ascii

theorem beta_named :
    ∃ path content entries token, productionSettings.authTokensFile = some path
      ∧ (fun _ => .ok tokensDocument : String → Except Exn Json) path = .ok content
      ∧ tokenEntries content = .ok entries
      ∧ bearerToken betaCredentials.authorization = some token
      ∧ (entries.reverse.find? fun entry => entry.1 = token)
        = some (token, ⟨"svc-beta-search", {"public"}, "beta"⟩) := by
  have hdeployed : deploy productionSettings (fun _ => .ok tokensDocument)
      = .ok (.staticToken exampleTokens) := rfl
  have haccepted : (Authenticator.staticToken exampleTokens).authenticate betaCredentials
      = .ok ⟨"svc-beta-search", {"public"}, "beta"⟩ := rfl
  exact production_principals hdeployed (by decide +kernel) haccepted

end

end Rag
