import Rag.Errors
import Rag.Lib.Dict
import Rag.Lib.Fields
import Rag.Schemas

/-!
`rag.security.auth`: bearer tokens from a token file.

What a client sends is arbitrary text. It is compared with the configured tokens one after
the other by `hmac.compare_digest`, which raises `TypeError` on a text beyond ASCII.
-/

namespace Rag

open Py

/-- Caller could not be authenticated. Surfaces as HTTP 401. -/
def authError (reason : String) : Exn := ⟨.other, "AuthError", reason⟩

/-- Raw, untrusted material extracted from the transport layer. -/
structure Credentials where
  authorization : Option String := none
  tenant : Option String := none
  groups : Option String := none
  subject : Option String := none

/-- `hmac.compare_digest(a, b)` -/
def compareDigest (a b : String) : Except Exn Bool :=
  if isAscii a && isAscii b then .ok (a = b)
  else .error (typeError "comparing strings with non-ASCII characters is not supported")

/-- Maps opaque bearer tokens to principals. -/
structure StaticTokenAuthenticator where
  principals : Dict String Principal

section Authenticate

variable [Runtime]

def bearerToken : Option String → Option String
  | none => none
  | some authorization =>
      if authorization = "" then none
      else
        match splitOnce authorization with
        | [scheme, rest] => if Runtime.lower scheme = "bearer" then some (strip rest) else none
        | _ => none

omit [Runtime] in
/-- The loop over the configured tokens. -/
def matchToken (token : String) : List (String × Principal) → Except Exn Principal
  | [] => .error (authError "invalid_token")
  | (known, principal) :: rest => do
      let same ← compareDigest token known
      if same then pure principal else matchToken token rest

def StaticTokenAuthenticator.authenticate (self : StaticTokenAuthenticator)
    (credentials : Credentials) : Except Exn Principal :=
  match bearerToken credentials.authorization with
  | none => .error (authError "missing_bearer_token")
  | some token =>
      if token = "" then .error (authError "missing_bearer_token")
      else matchToken token self.principals.items

end Authenticate

def unauthorizedError (reason : String) : Exn := ⟨.other, "UnauthorizedError", reason⟩

/-- Authenticate the caller, or fail the request: an `AuthError` becomes a 401, and what else is
raised goes on to the handler of unexpected errors. -/
def getPrincipal [Runtime] (authenticator : StaticTokenAuthenticator) (credentials : Credentials) :
    Except Exn Principal :=
  match authenticator.authenticate credentials with
  | .ok principal => .ok principal
  | .error exn => .error (if exn.name = "AuthError" then unauthorizedError exn.text else exn)

section Header

variable [Runtime] {header token : String}

/-- A header that presents a token: the scheme, whitespace and the token, and whitespace
around them. -/
structure Presents (header token : String) : Prop where
  ne_empty : token ≠ ""
  trimmed : Trimmed token.toList
  laid : ∃ before scheme gap after,
    Fielded header.toList before scheme gap (token.toList ++ after)
      ∧ (∀ c ∈ after, isSpace c = true) ∧ Runtime.lower (String.ofList scheme) = "bearer"

theorem bearerToken_eq_some_iff : bearerToken (some header) = some token ↔ Presents header token := by
  constructor
  · intro h
    rw [bearerToken] at h
    split_ifs at h
    split at h
    · rename_i scheme rest hsplit
      split_ifs at h with hscheme
      cases h
      obtain ⟨before, gap, hfielded⟩ := fielded_of_splitOnce hsplit
      obtain ⟨blank, after, hstrip, hblank, hafter⟩ := stripChars_split rest.toList
      have hword : strip rest ≠ "" := by
        obtain ⟨c, more, hrest⟩ := List.exists_cons_of_ne_nil hfielded.tail_ne
        apply (strip_ne_empty_iff rest).mpr
        exact ⟨c, by rw [hrest]; exact List.mem_cons_self,
          hfielded.tail_word c (by rw [hrest]; rfl)⟩
      have hnone : blank = [] := by
        cases blank with
        | nil => rfl
        | cons c more =>
            have hc := hfielded.tail_word c (by rw [hstrip]; rfl)
            rw [hblank c List.mem_cons_self] at hc
            cases hc
      rw [hnone, List.nil_append] at hstrip
      constructor
      · exact hword
      · rw [strip, String.toList_ofList]
        exact stripChars_trimmed _
      · rw [hstrip] at hfielded
        rw [strip, String.toList_ofList]
        exact ⟨before, scheme.toList, gap, after, hfielded, hafter, by simpa using hscheme⟩
    · cases h
  · intro h
    obtain ⟨before, scheme, gap, after, hfielded, hafter, hscheme⟩ := h.laid
    have hheader : header ≠ "" := by
      intro hempty
      have hlaid := hfielded.laid
      rw [hempty] at hlaid
      exact hfielded.field_ne (List.append_eq_nil_iff.mp (List.append_eq_nil_iff.mp hlaid.symm).2).1
    have htoken : token.toList ≠ [] := by simpa using h.ne_empty
    rw [bearerToken, if_neg hheader, hfielded.splitOnce_eq]
    dsimp only
    rw [if_pos hscheme, strip, String.toList_ofList,
      stripChars_append_blank h.trimmed htoken hafter, String.ofList_toList]

end Header

section Safety

variable [Runtime] (authenticator : StaticTokenAuthenticator) (credentials : Credentials)

omit [Runtime] in
/-- The configured tokens a presented one is compared with: all up to itself. -/
def compared (token : String) : List String → List String
  | [] => []
  | known :: rest => if known = token then [known] else known :: compared token rest

/-- The token of the header is accepted when it is configured, and everything else is rejected
by an `AuthError`, whatever the other headers are. -/
structure AuthenticatesSafely : Prop where
  outcome : (∃ token principal, bearerToken credentials.authorization = some token
      ∧ authenticator.principals.get? token = some principal
      ∧ authenticator.authenticate credentials = .ok principal)
    ∨ ∃ reason, authenticator.authenticate credentials = .error (authError reason)
  accepts : ∀ token principal, bearerToken credentials.authorization = some token →
    authenticator.principals.get? token = some principal →
    authenticator.authenticate credentials = .ok principal
  independent : ∀ other : Credentials, other.authorization = credentials.authorization →
    authenticator.authenticate other = authenticator.authenticate credentials

variable {authenticator credentials}

omit [Runtime] in
theorem matchToken_cons {token known : String} {principal : Principal}
    {rest : List (String × Principal)} (htoken : isAscii token = true)
    (hknown : isAscii known = true) :
    matchToken token ((known, principal) :: rest)
      = if token = known then .ok principal else matchToken token rest := by
  rw [matchToken, compareDigest, if_pos (by rw [htoken, hknown]; rfl)]
  by_cases hsame : token = known
  · rw [if_pos hsame, decide_eq_true hsame]
    rfl
  · rw [if_neg hsame, decide_eq_false hsame]
    rfl

omit [Runtime] in
/-- As long as only ASCII texts are compared, the loop looks the token up. -/
theorem matchToken_ascii {token : String} {items : List (String × Principal)}
    (h : ∀ known ∈ compared token (items.map Prod.fst), isAscii token ∧ isAscii known) :
    matchToken token items = match items.find? fun item => item.1 = token with
      | some item => .ok item.2
      | none => .error (authError "invalid_token") := by
  induction items with
  | nil => rfl
  | cons item rest ih =>
      obtain ⟨known, principal⟩ := item
      rw [List.map_cons, compared] at h
      by_cases hsame : known = token
      · rw [if_pos hsame] at h
        obtain ⟨htoken, hknown⟩ := h known List.mem_cons_self
        rw [matchToken_cons htoken hknown, if_pos hsame.symm]
        simp [hsame]
      · rw [if_neg hsame] at h
        obtain ⟨⟨htoken, hknown⟩, hrest⟩ := List.forall_mem_cons.mp h
        rw [matchToken_cons htoken hknown, if_neg fun heq => hsame heq.symm, ih hrest]
        simp [hsame]

omit [Runtime] in
/-- The first comparison with a text beyond ASCII ends the loop. -/
theorem matchToken_raises {token : String} {items : List (String × Principal)}
    (h : ¬ ∀ known ∈ compared token (items.map Prod.fst), isAscii token ∧ isAscii known) :
    matchToken token items
      = .error (typeError "comparing strings with non-ASCII characters is not supported") := by
  induction items with
  | nil =>
      exfalso
      apply h
      intro known hknown
      cases hknown
  | cons item rest ih =>
      obtain ⟨known, principal⟩ := item
      by_cases hascii : isAscii token = true ∧ isAscii known = true
      · rw [List.map_cons, compared] at h
        by_cases hsame : known = token
        · exfalso
          apply h
          rw [if_pos hsame]
          simpa using hascii
        · rw [if_neg hsame, List.forall_mem_cons, not_and] at h
          rw [matchToken_cons hascii.1 hascii.2, if_neg fun heq => hsame heq.symm]
          exact ih (h hascii)
      · have hraises : (isAscii token && isAscii known) = false := by
          rw [Bool.and_eq_false_iff]
          by_contra hboth
          simp only [not_or, Bool.not_eq_false] at hboth
          exact hascii hboth
        rw [matchToken, compareDigest, hraises]
        rfl

theorem authenticate_eq {token : String} (h : bearerToken credentials.authorization = some token) :
    authenticator.authenticate credentials = matchToken token authenticator.principals.items := by
  have hne : token ≠ "" := by
    cases hheader : credentials.authorization with
    | none =>
        rw [hheader] at h
        cases h
    | some header =>
        rw [hheader] at h
        exact (bearerToken_eq_some_iff.mp h).ne_empty
  rw [StaticTokenAuthenticator.authenticate, h]
  dsimp only
  rw [if_neg hne]

theorem authenticate_independent {other : Credentials}
    (h : other.authorization = credentials.authorization) :
    authenticator.authenticate other = authenticator.authenticate credentials := by
  rw [StaticTokenAuthenticator.authenticate, StaticTokenAuthenticator.authenticate, h]

/-- A comparison with a text beyond ASCII surfaces as a `TypeError`, which is neither. -/
theorem unsafe_of_compared {token : String}
    (htoken : bearerToken credentials.authorization = some token)
    (h : ¬ ∀ known ∈ compared token authenticator.principals.keys,
      isAscii token ∧ isAscii known) : ¬ AuthenticatesSafely authenticator credentials := by
  have hraised := @authenticate_eq _ authenticator _ _ htoken
  rw [matchToken_raises h] at hraised
  intro hsafe
  rcases hsafe.outcome with ⟨_, principal, -, -, haccepted⟩ | ⟨reason, hrejected⟩
  · rw [hraised] at haccepted
    cases haccepted
  · rw [hraised] at hrejected
    have hname : "TypeError" = "AuthError" := congrArg Exn.name (Except.error.inj hrejected)
    exact absurd hname (by decide)

theorem safe_of_compared (h : ∀ token, bearerToken credentials.authorization = some token →
    ∀ known ∈ compared token authenticator.principals.keys, isAscii token ∧ isAscii known) :
    AuthenticatesSafely authenticator credentials := by
  have hlookup : ∀ token, bearerToken credentials.authorization = some token →
      authenticator.authenticate credentials
        = match authenticator.principals.get? token with
          | some principal => .ok principal
          | none => .error (authError "invalid_token") := by
    intro token htoken
    rw [authenticate_eq htoken, matchToken_ascii (h token htoken), Dict.get?]
    cases authenticator.principals.items.find? fun item => item.1 = token <;> rfl
  constructor
  · cases htoken : bearerToken credentials.authorization with
    | none =>
        right
        refine ⟨"missing_bearer_token", ?_⟩
        rw [StaticTokenAuthenticator.authenticate, htoken]
    | some token =>
        have houtcome := hlookup token htoken
        cases hget : authenticator.principals.get? token with
        | none =>
            right
            rw [hget] at houtcome
            exact ⟨"invalid_token", houtcome⟩
        | some principal =>
            left
            rw [hget] at houtcome
            exact ⟨token, principal, rfl, hget, houtcome⟩
  · intro token principal htoken hget
    rw [hlookup token htoken, hget]
  · intro other hother
    exact authenticate_independent hother

/-- Authentication is safe exactly when it compares ASCII texts only: the presented token is
ASCII, or no token is configured, and so is every configured token up to the presented one. -/
theorem authenticate_safe_iff (authenticator : StaticTokenAuthenticator)
    (credentials : Credentials) :
    AuthenticatesSafely authenticator credentials
      ↔ ∀ token, bearerToken credentials.authorization = some token →
        ∀ known ∈ compared token authenticator.principals.keys,
          isAscii token ∧ isAscii known := by
  constructor
  · intro hsafe token htoken
    by_contra hraises
    exact unsafe_of_compared htoken hraises hsafe
  · exact safe_of_compared

end Safety

section Examples

/-- One service account, as the example token file has it. -/
def serviceAuthenticator : StaticTokenAuthenticator where
  principals := Dict.empty.set "secret-acme"
    { subject := "svc-acme", groups := {"engineering"}, tenant := "acme" }

/-- A header with one character beyond ASCII is answered by a `TypeError`. -/
theorem non_ascii_header_raises :
    ¬ ∀ (_ : Runtime) (authenticator : StaticTokenAuthenticator) (credentials : Credentials),
      AuthenticatesSafely authenticator credentials := by
  intro h
  let _ := Runtime.ascii
  have htoken : bearerToken (some "Bearer clé") = some "clé" := by decide +kernel
  have hcompared : ¬ ∀ known ∈ compared "clé" serviceAuthenticator.principals.keys,
      isAscii "clé" ∧ isAscii known := by decide
  have hunsafe : ¬ AuthenticatesSafely serviceAuthenticator
      { authorization := some "Bearer clé" } := unsafe_of_compared htoken hcompared
  exact hunsafe (h _ _ _)

end Examples

end Rag
