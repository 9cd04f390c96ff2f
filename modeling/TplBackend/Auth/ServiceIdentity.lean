import TplBackend.Auth.Service
import TplBackend.Library.Dict

namespace TplBackend

open Raise Text

namespace Json

def text? : Json → Option Str
  | .str text => some text
  | _ => none

def texts (items : List Json) : Option (List Str) := items.mapM text?

end Json

structure ServiceSettings extends Settings where
  serviceAuthAudience : Str
  serviceAuthSubjectBindingsJson : Str

namespace ServiceSettings

/-- One turn of the loop of `service_auth_subject_bindings`. -/
def subjectBinding (item : Str × Json) : Except AuthError (Str × List Str) := do
  let refused := AuthError.valueError "SERVICE_AUTH_SUBJECT_BINDINGS_JSON is invalid"
  require (strip item.1 ≠ [] ∧ item.1.length ≤ 512) refused
  match item.2 with
  | .arr scopes => do
      let normalized := Principal.normalize (scopes.filterMap Json.text?)
      require (normalized.length = scopes.length ∧ ∀ scope ∈ normalized, scope.length ≤ 128) refused
      return (strip item.1, normalized)
  | _ => .error refused

def serviceAuthSubjectBindings (py : Builtins) (self : ServiceSettings) :
    Except AuthError (List (Str × List Str)) :=
  match py.loads self.serviceAuthSubjectBindingsJson with
  | .decodeError => .error (.valueError "SERVICE_AUTH_SUBJECT_BINDINGS_JSON must be valid JSON")
  | .raises => .error .external
  | .value (.obj raw) => (raw.mapM subjectBinding).map Dict.ofPairs
  | .value _ => .error (.valueError "SERVICE_AUTH_SUBJECT_BINDINGS_JSON must be a JSON object")

def requireServiceIdentity (py : Builtins) (self : ServiceSettings) : Except AuthError Unit := do
  require (strip self.serviceAuthAudience ≠ []) (AuthError.valueError "SERVICE_AUTH_AUDIENCE is required")
  let bindings ← self.serviceAuthSubjectBindings py
  require (bindings ≠ []) (AuthError.valueError "SERVICE_AUTH_SUBJECT_BINDINGS_JSON cannot be empty")
  require (self.casdoorDiscoveryEndpoint ≠ [])
    (AuthError.valueError "CASDOOR discovery is required for service identity")

end ServiceSettings

/-- A `Principal` whose `actor_type` is `service` and whose `surface` is `internal`. -/
structure ServicePrincipal where
  subject : Str
  issuer : Str
  app : Str
  audience : Str
  scopes : List Str
  authenticatedAt : Clock
  expiresAt : Clock
  policyVersion : Str

/-- `Principal(...)`: the validated and normalized value. -/
def ServicePrincipal.validate (p : ServicePrincipal) : Except AuthError ServicePrincipal := do
  require ((Principal.sized 1 512 p.subject && Principal.sized 1 2048 p.issuer &&
    Principal.appMatches p.app && Principal.sized 1 512 p.audience &&
    Principal.sized 1 64 p.policyVersion) = true) (AuthError.validation "string constraint")
  require (Principal.withinContract (Principal.normalize p.scopes) = true)
    (AuthError.validation "scopes exceed the browser session contract")
  require (p.authenticatedAt < p.expiresAt)
    (AuthError.validation "principal expiration must follow authentication")
  return { p with scopes := Principal.normalize p.scopes }

/-- A verifier with its provider client: what decoding a signed token gives or raises, whether the
claims registry accepts its claims, and `datetime.fromtimestamp` of a float. -/
structure ServiceIdentityVerifier where
  settings : ServiceSettings
  py : Builtins
  decodeSignedToken : Str → Except AuthError Claims
  registered : Claims → Bool
  fromFloat : Str → Option Clock
  /-- The registry looks at `iss`, `sub`, `aud` and the times only. -/
  registered_congr : ∀ claims claims' : Claims,
    (∀ name, name ∉ ["scope".toList, "scp".toList] → claims.lookup name = claims'.lookup name) →
      registered claims = registered claims'

namespace ServiceIdentityVerifier

def tokenInvalid : AuthError :=
  .unauthorized "The service identity token is invalid" "token_invalid"

def invalidScopes : AuthError :=
  .unauthorized "The service identity token has invalid scopes" "token_invalid"

def audiences : Json → List Str
  | .str audience => [audience]
  | .arr items => (Json.texts items).getD []
  | _ => []

/-- The `values` of a raw claim; the default of `claims.get` is a tuple. -/
def scopeValues : Option Json → Except AuthError (List Str)
  | some (.str raw) => .ok (if strip raw ≠ [] then words (strip raw) else [])
  | some (.arr items) => expect (Json.texts items) invalidScopes
  | _ => .error invalidScopes

/-- `_scopes`, as a sorted list. -/
def scopes (claims : Claims) : Except AuthError (List Str) := do
  let values ← scopeValues ((claims.lookup "scope".toList).or (claims.lookup "scp".toList))
  let scopes := Principal.normalize values
  require (scopes.length = values.length ∧ Principal.withinContract scopes = true) invalidScopes
  return scopes

variable (self : ServiceIdentityVerifier)

/-- `OidcProviderClient.verify_access_token` -/
def verifyAccessToken (encoded audience : Str) : Except AuthError Claims := do
  let claims ← self.decodeSignedToken encoded
  require (audience ∈ audiences (Json.get claims "aud"))
    (AuthError.unauthorized "The service identity audience is invalid" "audience_mismatch")
  require (self.registered claims = true) tokenInvalid
  return claims

/-- `_timestamp`; a `bool` is an `int`. -/
def timestamp : Json → Except AuthError Clock
  | .int epoch => (fromTimestamp epoch).mapError fun _ => tokenInvalid
  | .bool value => (fromTimestamp value.toInt).mapError fun _ => tokenInvalid
  | .float repr => expect (self.fromFloat repr) tokenInvalid
  | _ => .error tokenInvalid

/-- The `Principal` that `verify` returns. -/
def principal (claims : Claims) (subject issuer : Str) (tokenScopes : List Str) :
    Except AuthError ServicePrincipal := do
  let authenticatedAt ← self.timestamp (Json.get claims "iat")
  let expiresAt ← self.timestamp (Json.get claims "exp")
  ServicePrincipal.validate {
    subject
    issuer
    app := self.settings.appSlug
    audience := self.settings.serviceAuthAudience
    scopes := tokenScopes
    authenticatedAt
    expiresAt
    policyVersion := "service-v1".toList }

def verify (encoded : Str) (requiredScopes : List Str) : Except AuthError ServicePrincipal := do
  self.settings.requireServiceIdentity self.py
  require (encoded ≠ [] ∧ encoded.length ≤ 16384) tokenInvalid
  let claims ← self.verifyAccessToken encoded self.settings.serviceAuthAudience
  let subject ← expect (Json.get claims "sub").text? tokenInvalid
  let issuer ← expect (Json.get claims "iss").text? tokenInvalid
  let bindings ← self.settings.serviceAuthSubjectBindings self.py
  let allowedScopes ← expect (Dict.get bindings subject)
    (.forbidden "The service identity is not bound to this Backend" "service_subject_unbound")
  let tokenScopes ← scopes claims
  require ((∀ scope ∈ tokenScopes, scope ∈ allowedScopes) ∧
      ∀ scope ∈ requiredScopes, scope ∈ tokenScopes)
    (.forbidden "The service identity scope is not authorized" "service_scope_denied")
  self.principal claims subject issuer tokenScopes

end ServiceIdentityVerifier

end TplBackend
