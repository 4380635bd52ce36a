import Rag.Api.Tenants
import Rag.Security.Deployment

/-!
`POST /query` from the headers of a request to its response: `get_principal` of `rag.api.deps`,
the route, and the handlers of `rag.api.errors`.

Whoever is not authenticated asks nothing of anybody and learns one of three reasons. Whoever is
gets an answer within what the principal may know, or an error that tells nothing, however the
requests of all callers interleave (`service_isolated`). Only `get_principal` raises a `RagError`;
everything the route raises goes to the handler of unexpected errors.
-/

namespace Rag

open Py Interaction

/-- `_payload` -/
def errorPayload (code message traceId : String) : Json :=
  .obj [("error",
    .obj [("code", .str code), ("message", .str message), ("trace_id", .str traceId)])]

inductive HttpBody where
  | answer (response : Response)
  | error (payload : Json)

structure HttpResponse where
  status : Nat
  body : HttpBody
  headers : List (String × String) := []

/-- `rag_error_handler` of an `UnauthorizedError`. -/
def ragErrorHandler (message traceId : String) : HttpResponse where
  status := 401
  body := .error (errorPayload "unauthorized" message traceId)
  headers := [("WWW-Authenticate", "Bearer")]

/-- Never leak internals: an opaque 500. -/
def unhandledErrorHandler (traceId : String) : HttpResponse where
  status := 500
  body := .error (errorPayload "internal_error" "Internal server error" traceId)

def HttpResponse.ok (response : Response) : HttpResponse := ⟨200, .answer response, []⟩

/-- What `AppState` holds: the dependencies of the route, and the authenticator. -/
structure Service where
  state : AppState
  authenticator : Authenticator

structure Incoming where
  credentials : Credentials
  body : QueryRequest
  traceId : String

section Service

variable [Runtime]

/-- `get_principal`: an `AuthError` becomes an `UnauthorizedError`. -/
def Service.getPrincipal (service : Service) (credentials : Credentials) : Except Exn Principal :=
  match service.authenticator.authenticate credentials with
  | .ok principal => .ok principal
  | .error exn => .error (if exn.name = "AuthError" then unauthorizedError exn.text else exn)

/-- The handler of what `get_principal` raises. -/
def handleError (exn : Exn) (traceId : String) : HttpResponse :=
  if exn.name = "UnauthorizedError" then ragErrorHandler exn.text traceId
  else unhandledErrorHandler traceId

/-- The endpoint; `none` says that the bound on the loop of a turn was reached. -/
def Service.query (service : Service) (incoming : Incoming) : RequestProg (Option HttpResponse) :=
  match service.getPrincipal incoming.credentials with
  | .error exn => pure (some (handleError exn incoming.traceId))
  | .ok principal => do
      let outcome ← queryRoute (serveAll service.state.pipeline) service.state incoming.body
        principal
      pure (outcome.map fun answered =>
        match answered with
        | .ok response => .ok response
        | .error _ => unhandledErrorHandler incoming.traceId)

/-- An error response that tells a reason of the authenticators, or nothing. -/
def HttpResponse.Opaque (traceId : String) (http : HttpResponse) : Prop :=
  http = unhandledErrorHandler traceId
    ∨ ∃ reason ∈ ["missing_bearer_token", "invalid_token", "no_authenticator_configured"],
      http = ragErrorHandler reason traceId

/-- The exceptions of an authenticator: three reasons, and what comparing raises. -/
def AuthFailure (exn : Exn) : Prop :=
  exn.name ≠ "AuthError" ∧ exn.name ≠ "UnauthorizedError"
    ∨ ∃ reason ∈ ["missing_bearer_token", "invalid_token", "no_authenticator_configured"],
      exn = authError reason

omit [Runtime] in
theorem matchToken_failure {token : String} {items : List (String × Principal)} {exn : Exn}
    (h : matchToken token items = .error exn) : AuthFailure exn := by
  induction items with
  | nil =>
      cases h
      exact Or.inr ⟨_, by simp, rfl⟩
  | cons item rest ih =>
      rw [matchToken] at h
      rcases error_of_bind h with hraised | ⟨same, -, h⟩
      · rw [compareDigest] at hraised
        split_ifs at hraised
        cases hraised
        exact Or.inl ⟨by decide, by decide⟩
      · split_ifs at h
        · cases h
        · exact ih h

theorem authenticate_failure {authenticator : Authenticator} {credentials : Credentials}
    {exn : Exn} (h : authenticator.authenticate credentials = .error exn) : AuthFailure exn := by
  cases authenticator with
  | trustedHeader defaultTenant => cases h
  | anonymous tenant => cases h
  | denyAll =>
      cases h
      exact Or.inr ⟨_, by simp, rfl⟩
  | staticToken authenticator =>
      rw [Authenticator.authenticate, StaticTokenAuthenticator.authenticate] at h
      split at h
      · cases h
        exact Or.inr ⟨_, by simp, rfl⟩
      · split_ifs at h
        · cases h
          exact Or.inr ⟨_, by simp, rfl⟩
        · exact matchToken_failure h

/-- A rejected request learns a reason or nothing. -/
theorem handleError_opaque {service : Service} {credentials : Credentials} {exn : Exn}
    (h : service.getPrincipal credentials = .error exn) (traceId : String) :
    (handleError exn traceId).Opaque traceId := by
  rw [Service.getPrincipal] at h
  split at h
  · cases h
  · rename_i raised hraised
    cases h
    rcases authenticate_failure hraised with ⟨hauth, hrag⟩ | ⟨reason, hreason, rfl⟩
    · rw [if_neg hauth, handleError, if_neg hrag]
      exact Or.inl rfl
    · exact Or.inr ⟨reason, hreason, rfl⟩

section Pools

variable [Math ℚ] {ι : Type} [DecidableEq ι] {corpus : Set Chunk} {threshold : ℚ}
  {maxEntriesPerScope : Nat} {service : Service} {incoming : ι → Incoming}
  {q : Pool RequestOp RequestResp ι SharedStores (Option HttpResponse)}

/-- The request was authenticated as the principal. -/
def Service.Admits (service : Service) (incoming : Incoming) (principal : Principal) : Prop :=
  service.getPrincipal incoming.credentials = .ok principal

/-- What the request of a principal asks is within what is known. -/
def Incoming.Asks (incoming : Incoming) (principal : Principal) (known : Knowledge)
    (e : RequestEvent) : Prop :=
  AsksWithin known incoming.body.query.val principal e.op

/-- What a caller may be sent that may know this. -/
def HttpResponse.Within (http : HttpResponse) (known : Knowledge) : Prop :=
  ∃ response, http = .ok response ∧ known.HasResponse response

omit [Math ℚ] in
/-- A request of a principal keeps within what the principal may know. -/
theorem query_within {incoming : Incoming} {principal : Principal} {known : Knowledge}
    (hadmits : service.Admits incoming principal) (hcovers : Covers corpus known principal)
    (htools : service.state.tools ⊆ known.tools) :
    Prog.Spec (GivenWithin corpus known)
      (AsksWithin known incoming.body.query.val principal) (service.query incoming)
      fun out => ∀ http, out = some http →
        http = unhandledErrorHandler incoming.traceId ∨ http.Within known := by
  rw [Service.query, show service.getPrincipal _ = _ from hadmits]
  dsimp only
  rw [Prog.spec_bind]
  refine (queryRoute_within service.state incoming.body hcovers htools).mono ?_
  rintro (_ | exn | response) hresponse
  · rintro http ⟨⟩
  · rintro http ⟨⟩
    exact Or.inl rfl
  · rintro http ⟨⟩
    exact Or.inr ⟨response, rfl, hresponse response rfl⟩

omit [Math ℚ] in
theorem query_rejected {incoming : Incoming} {exn : Exn}
    (h : service.getPrincipal incoming.credentials = .error exn) :
    service.query incoming = pure (some (handleError exn incoming.traceId)) := by
  rw [Service.query, h]

/-- A request that is not authenticated is answered without asking anything. -/
theorem rejected_reached
    (h : Pool.Reaches (TenantCell corpus) Lapses
      (openStores threshold maxEntriesPerScope fun j => service.query (incoming j)) q) {j : ι}
    {exn : Exn} (hexn : service.getPrincipal (incoming j).credentials = .error exn) :
    q.done j = [] ∧ q.rest j = .ret (some (handleError exn (incoming j).traceId)) := by
  have hsteps := Pool.reaches_steps h j
  rw [query_rejected hexn] at hsteps
  exact (Prog.steps_ret_iff _ _ _).mp hsteps

/-- The principal of a request. One that is not authenticated asks nothing, so it may count as
anybody's. -/
def Service.who (service : Service) (anybody : Principal) (incoming : Incoming) : Principal :=
  (service.getPrincipal incoming.credentials).toOption.getD anybody

variable {anybody principal : Principal} {request : Incoming}

omit [Math ℚ] in
theorem who_of_admits (h : service.Admits request principal) :
    service.who anybody request = principal := by
  rw [Service.who, show service.getPrincipal _ = _ from h]
  rfl

omit [Math ℚ] in
theorem who_cases (service : Service) (anybody : Principal) (request : Incoming) :
    service.Admits request (service.who anybody request)
      ∨ (∃ exn, service.getPrincipal request.credentials = .error exn)
        ∧ service.who anybody request = anybody := by
  rw [Service.who, Service.Admits]
  cases service.getPrincipal request.credentials with
  | error exn => exact Or.inr ⟨⟨exn, rfl⟩, rfl⟩
  | ok principal => exact Or.inl rfl

omit [Math ℚ] in
theorem query_spec {known : Knowledge}
    (hcovers : Covers corpus known (service.who anybody request))
    (htools : service.state.tools ⊆ known.tools) :
    Prog.Spec (GivenWithin corpus known)
      (AsksWithin known request.body.query.val (service.who anybody request))
      (service.query request)
      fun out => service.Admits request (service.who anybody request) →
        ∀ http, out = some http →
          http = unhandledErrorHandler request.traceId ∨ http.Within known := by
  rcases who_cases service anybody request with hadmits | ⟨⟨exn, hexn⟩, -⟩
  · exact (query_within hadmits hcovers htools).mono fun out hout _ => hout
  · rw [query_rejected hexn]
    intro hadmits
    rw [Service.Admits, hexn] at hadmits
    cases hadmits

/-- Requests of all callers interleave over shared caches, whatever the backends hit or raise, the
models say and the caches lose. One that is not authenticated asks nothing of anybody and learns
one of three reasons or nothing. For one that is, what models are shown and what the caller is sent
is made of the chunks the principal may see, of what models say that are shown no more, and, in
failed tool results, of what the registry says of a call and what backends raised, all to callers
of the same reach, unless names of callers clash in the fingerprint. An error response tells
nothing. -/
theorem service_isolated
    (h : Pool.Reaches (TenantCell corpus) Lapses
      (openStores threshold maxEntriesPerScope fun j => service.query (incoming j)) q) (i : ι) :
    (∀ exn, service.getPrincipal (incoming i).credentials = .error exn →
      q.done i = [] ∧ ∀ http, q.rest i = .ret (some http) → http.Opaque (incoming i).traceId)
    ∧ ∀ principal, service.Admits (incoming i) principal →
      (∀ j other, service.Admits (incoming j) other → ¬ DelimiterClash other principal) →
      ∀ known : Knowledge, known.chunks = allowedChunks corpus principal →
      known.tools = service.state.tools →
      (∀ j other, service.Admits (incoming j) other → SameReach other principal →
        ∀ e ∈ q.done j, (incoming j).Asks other known e → known.Hears e.op e.resp) →
      (∀ e ∈ q.done i, (incoming i).Asks principal known e)
      ∧ ∀ http, q.rest i = .ret (some http) →
        http = unhandledErrorHandler (incoming i).traceId ∨ http.Within known := by
  constructor
  · intro exn hexn
    obtain ⟨hdone, hrest⟩ := rejected_reached h hexn
    refine ⟨hdone, ?_⟩
    intro http hhttp
    rw [hrest] at hhttp
    cases hhttp
    exact handleError_opaque hexn _
  · intro principal hadmits hclear known hchunks htools hhears
    have hi : service.who principal (incoming i) = principal := who_of_admits hadmits
    have hclear' : ∀ j, ¬ DelimiterClash (service.who principal (incoming j))
        (service.who principal (incoming i)) := by
      intro j
      rw [hi]
      rcases who_cases service principal (incoming j) with hj | ⟨-, hj⟩
      · exact hclear j _ hj
      · rw [hj]
        exact fun hclash => hclash.reach_ne ⟨rfl, rfl⟩
    have hhears' : ∀ j, SameReach (service.who principal (incoming j))
        (service.who principal (incoming i)) → ∀ e ∈ q.done j,
        (incoming j).Asks (service.who principal (incoming j)) known e →
        known.Hears e.op e.resp := by
      intro j hsame e he hasks
      rw [hi] at hsame
      rcases who_cases service principal (incoming j) with hj | ⟨⟨exn, hexn⟩, -⟩
      · exact hhears j _ hj hsame e he hasks
      · rw [(rejected_reached h hexn).1] at he
        cases he
    have hisolated := isolated_of_specs h
      (fun j known hcovers hlisted => query_spec hcovers hlisted) i hclear' (by rw [hi, hchunks])
      htools.symm.subset hhears'
    rw [hi] at hisolated
    exact ⟨hisolated.1, fun http hdone => hisolated.2 _ hdone hadmits http rfl⟩

end Pools

end Service

/-- `exactOnly` on the answers; the cache of tool results is down. -/
def serveStores [Runtime] [Math ℚ] (f : (o : ServiceOp) → ServiceResp o) (s : SharedStores)
    (t : List RequestEvent) : (o : RequestOp) → RequestResp o × SharedStores
  | .inl (.inl (.toolCacheGet _)) => (.ok none, s)
  | .inl (.inl (.toolCacheSet _ _)) => (.ok (), s)
  | o => ((exactOnly f s.answers t o).1, { s with answers := (exactOnly f s.answers t o).2 })

/-- The chunks `mixedAnswers` finds. -/
def mixedCorpus : Set Chunk := {chunk | ∃ hit ∈ mixedHits, hit.chunk = chunk}

theorem serveStores_allowed [Runtime] [Math ℚ] (s : SharedStores) (t : List RequestEvent)
    (o : RequestOp) :
    TenantCell mixedCorpus s t o (serveStores mixedAnswers s t o).1
      (serveStores mixedAnswers s t o).2 := by
  have hfound : ∀ hits : List (ScoredChunk ℚ), (.ok mixedHits : Except Exn _) = .ok hits →
      ∀ hit ∈ hits, hit.chunk ∈ mixedCorpus := by
    rintro hits ⟨⟩ hit hhit
    exact ⟨hit, hhit, rfl⟩
  have hanswers := exactOnly_allowed mixedAnswers s.answers t o
  rcases o with (o | o) | o
  · cases o with
    | toolCacheGet key => exact Or.inr ⟨rfl, rfl⟩
    | toolCacheSet key given => exact Or.inr rfl
    | _ => exact ⟨hanswers, rfl⟩
  · cases o with
    | search vector topK p version => exact ⟨hfound, rfl⟩
    | lexicalSearch query topK p version => exact ⟨hfound, rfl⟩
    | _ => exact ⟨hanswers, rfl⟩
  · exact ⟨hanswers, rfl⟩

/-- A token for each of the tenants `a` and `b`. -/
def twoTenants : Service where
  state := replayState
  authenticator := .staticToken
    ⟨⟨[("token-a", ⟨"u", ∅, "a"⟩), ("token-b", ⟨"u", ∅, "b"⟩)], by decide⟩⟩

/-- The same question of the tenants `a` and `b`, and of somebody without a token. -/
def asksWho (caller : Option Bool) : Incoming where
  credentials := {
    authorization := caller.map fun other => if other then "Bearer token-b" else "Bearer token-a" }
  body := ⟨⟨"who", by decide⟩, .fast, none, none, none, none, none, none⟩
  traceId := "t"

/-- One after the other over the same caches. -/
@[irreducible] def allAsked [Runtime] [Math ℚ] :
    Pool RequestOp RequestResp (Option Bool) SharedStores (Option HttpResponse) :=
  (((openStores 1 256 fun j => twoTenants.query (asksWho j)).finish (serveStores mixedAnswers)
    (some false)).finish (serveStores mixedAnswers) (some true)).finish (serveStores mixedAnswers)
    none

theorem allAsked_reached [Runtime] [Math ℚ] :
    Pool.Reaches (TenantCell mixedCorpus) Lapses
      (openStores 1 256 fun j => twoTenants.query (asksWho j)) allAsked := by
  have hserve : ∀ s t o, ∃ s₀, Relation.ReflTransGen Lapses s s₀
      ∧ TenantCell mixedCorpus s₀ t o (serveStores mixedAnswers s t o).1
        (serveStores mixedAnswers s t o).2 := fun s t o => ⟨s, .refl, serveStores_allowed s t o⟩
  rw [allAsked]
  exact ((Pool.reaches_finish hserve _ _).trans (Pool.reaches_finish hserve _ _)).trans
    (Pool.reaches_finish hserve _ _)

/-- The chunks a response cites. -/
def httpCites : Option HttpResponse → List String
  | some ⟨200, .answer response, _⟩ => response.answer.citations.map Citation.chunkId
  | _ => []

section

attribute [local instance] Runtime.ascii unitMath

theorem admitted_b : twoTenants.Admits (asksWho (some true)) ⟨"u", ∅, "b"⟩ := rfl

/-- Whoever is admitted has a tenant without a bar and no groups. -/
theorem admitted_clear {j : Option Bool} {other : Principal}
    (h : twoTenants.Admits (asksWho j) other) : ¬ DelimiterClash other ⟨"u", ∅, "b"⟩ := by
  have hclean : '|' ∉ other.tenant.toList ∧ ∀ g ∈ other.groups, ',' ∉ g.toList ∧ g ≠ "" := by
    rcases j with _ | _ | _
    · cases h
    · cases h
      exact ⟨by decide, by rintro g hg; cases hg⟩
    · cases h
      exact ⟨by decide, by rintro g hg; cases hg⟩
  exact not_delimiterClash_of_clean hclean ⟨by decide, by rintro g hg; cases hg⟩

/-- What tenant `b` may see, whatever is said and raised. -/
def allOfB : Knowledge where
  chunks := allowedChunks mixedCorpus ⟨"u", ∅, "b"⟩
  said _ := True
  completed _ := True
  raised _ := True
  tools := twoTenants.state.tools

/-- Tenant `b` is answered from its own chunk although `a` asked the same before, and somebody
without a token learns just that. -/
theorem service_isolated_allAsked :
    (∃ http, allAsked.rest (some true) = .ret (some http) ∧ httpCites (some http) = ["chunk-b"]
      ∧ http.Within allOfB)
    ∧ allAsked.done none = [] := by
  have hcited : (allAsked.rest (some true)).value?.map httpCites = some ["chunk-b"] := by
    decide +kernel
  obtain ⟨out, hout, hcites⟩ := Option.map_eq_some_iff.mp hcited
  cases out with
  | none => cases hcites
  | some http =>
      have hdone := Prog.eq_ret_of_value? hout
      have hwithin := ((service_isolated allAsked_reached (some true)).2 _ admitted_b
        (fun j other hother => admitted_clear hother) allOfB rfl rfl
        fun _ _ _ _ e _ _ => Knowledge.hears_of_all (fun _ => trivial) (fun _ => trivial)
          (fun _ => trivial) e.op e.resp).2 http hdone
      refine ⟨⟨http, hdone, hcites, ?_⟩, ?_⟩
      · rcases hwithin with rfl | hwithin
        · cases hcites
        · exact hwithin
      · exact ((service_isolated allAsked_reached none).1 _ rfl).1

end

end Rag
