import TplBackend.Library.Raise
import TplBackend.Library.Url

namespace TplBackend

open Raise Text Url

inductive BrowserSurface
  | admin
  | web
  deriving DecidableEq

def BrowserSurface.text : BrowserSurface → Str
  | .admin => "admin".toList
  | .web => "web".toList

/-- `surface.upper()` -/
def BrowserSurface.upper : BrowserSurface → String
  | .admin => "ADMIN"
  | .web => "WEB"

/-- The fields of `Settings` whose names start with a surface. -/
structure SurfaceSettings where
  casdoorClientId : Str
  casdoorClientSecret : Str
  casdoorRedirectUri : Str
  authPolicyVersion : Str
  authRoleAllowlist : Str
  authScopeAllowlist : Str
  frontendBaseUrl : Str
  frontendAllowedOrigins : Option Str
  authDefaultReturnTo : Str
  authAllowedReturnPaths : Str

/-- `APP_SLUG must use lowercase letters, digits and hyphens` -/
def isSlugChar (c : Char) : Bool := ('a' ≤ c && c ≤ 'z') || isDigit c || c == '-'

structure Settings where
  env : Str
  appSlug : Str
  appSlug_chars : appSlug ≠ [] ∧ appSlug.all isSlugChar = true
  casdoorEndpoint : Str
  casdoorDiscoveryUrl : Option Str
  casdoorBackchannelEndpoint : Option Str
  casdoorOrganization : Str
  webCasdoorOrganizations : Str
  admin : SurfaceSettings
  web : SurfaceSettings
  authTransactionTtlSeconds : Nat
  authTransactionTtlSeconds_bounds : 60 ≤ authTransactionTtlSeconds ∧ authTransactionTtlSeconds ≤ 900
  authDiscoveryCacheSeconds : Nat
  authJwksCacheSeconds : Nat
  sessionTtlSeconds : Nat
  sessionTtlSeconds_bounds : 60 ≤ sessionTtlSeconds ∧ sessionTtlSeconds ≤ 86400
  downstreamBaseUrl : Str
  downstreamClientId : Str
  downstreamClientSecret : Str
  downstreamScope : Str
  downstreamAllowedPathPrefixes : Str
  downstreamVerifySsl : Bool

/-- Immutable security boundary for one browser surface. -/
structure BrowserSurfaceProfile where
  surface : BrowserSurface
  clientId : Str
  clientSecret : Str
  redirectUri : Str
  frontendBaseUrl : Str
  frontendOrigins : List Str
  policyVersion : Str
  roleAllowlist : List Str
  scopeAllowlist : List Str
  defaultReturnTo : Str
  allowedReturnPaths : List Str
  requiredScopes : List Str
  sessionKeyPrefix : Str
  transactionKeyPrefix : Str

namespace Settings

/-- `_strict_origin`, with the message of the `ValueError` it raises. -/
def strictOrigin (U : Platform) (value : Str) (field : String) : Except String Str := do
  require (value ≠ ['*']) (field ++ " cannot contain wildcard origin")
  let parsed ← expect (urlsplit U value) (field ++ " contains an invalid port")
  let port ← expect parsed.port (field ++ " contains an invalid port")
  require (parsed.scheme ∈ ["http".toList, "https".toList] ∧ parsed.hostname U ≠ [] ∧
      parsed.username = [] ∧ parsed.password = [] ∧ parsed.path ∈ [[], ['/']] ∧
      parsed.query = [] ∧ parsed.fragment = [])
    (field ++ " must contain origin-only HTTP(S) URLs")
  return parsed.scheme ++ "://".toList ++ parsed.hostname U ++
    port.elim [] fun n => ':' :: Nat.toDigits 10 n

def validateRelativePath (value : Str) (field : String) : Except String Str :=
  if ¬ ['/'] <+: value ∨ ['/', '/'] <+: value ∨ '\\' ∈ value ∨ '\x00' ∈ value ∨
      1024 < value.length then
    throw (field ++ " must be a safe relative path")
  else return value

/-- The comparison of `_path_is_allowed`. -/
def pathWithin (path allowed : Str) : Bool :=
  if allowed = ['/'] then ['/'] <+: path
  else path = allowed ∨ rstrip '/' allowed ++ ['/'] <+: path

/-- `_path_is_allowed`; splitting the value may raise. -/
def pathIsAllowed (U : Platform) (value allowed : Str) : Except String Bool :=
  (expect (urlsplit U value) "Invalid URL").map fun parsed => pathWithin parsed.path allowed

def isProduction (self : Settings) : Bool :=
  self.env ∉ ["development".toList, "test".toList]

def casdoorDiscoveryEndpoint (self : Settings) : Str :=
  match self.casdoorDiscoveryUrl with
  | some (c :: url) => c :: url
  | _ =>
    if self.casdoorEndpoint = [] then []
    else rstrip '/' self.casdoorEndpoint ++ "/.well-known/openid-configuration".toList

/-- `getattr(self, f"{surface}_…")` -/
def of (self : Settings) : BrowserSurface → SurfaceSettings
  | .admin => self.admin
  | .web => self.web

def browserProfile (U : Platform) (self : Settings) (surface : BrowserSurface) :
    Except String BrowserSurfaceProfile := do
  let own := self.of surface
  let frontendBase ← strictOrigin U own.frontendBaseUrl (surface.upper ++ "_FRONTEND_BASE_URL")
  let rawOrigins := (own.frontendAllowedOrigins.filter (· ≠ [])).getD frontendBase
  let origins ← (splitCsv rawOrigins).mapM fun item =>
    strictOrigin U item (surface.upper ++ "_FRONTEND_ALLOWED_ORIGINS")
  require (origins ≠ []) (surface.upper ++ "_FRONTEND_ALLOWED_ORIGINS cannot be empty")
  let defaultReturnTo ← validateRelativePath own.authDefaultReturnTo
    (surface.upper ++ "_AUTH_DEFAULT_RETURN_TO")
  let allowedReturnPaths ← (splitCsv own.authAllowedReturnPaths).mapM fun item =>
    validateRelativePath item (surface.upper ++ "_AUTH_ALLOWED_RETURN_PATHS")
  let allowed ← allowedReturnPaths.anyM (pathIsAllowed U defaultReturnTo)
  require (allowed = true) (surface.upper ++ "_AUTH_DEFAULT_RETURN_TO must match " ++
    surface.upper ++ "_AUTH_ALLOWED_RETURN_PATHS")
  return {
    surface
    clientId := own.casdoorClientId
    clientSecret := own.casdoorClientSecret
    redirectUri := own.casdoorRedirectUri
    frontendBaseUrl := frontendBase
    frontendOrigins := origins.eraseDups
    policyVersion := own.authPolicyVersion
    roleAllowlist := splitCsv own.authRoleAllowlist
    scopeAllowlist := splitCsv own.authScopeAllowlist
    defaultReturnTo
    allowedReturnPaths
    requiredScopes := if surface = .admin then [self.appSlug ++ ":admin".toList] else []
    sessionKeyPrefix := self.appSlug ++ ":auth:".toList ++ surface.text ++ ":session:".toList
    transactionKeyPrefix := self.appSlug ++ ":auth:".toList ++ surface.text ++ ":oidc:".toList }

def allowedOrganizations (self : Settings) (surface : BrowserSurface) : List Str :=
  match surface with
  | .admin => (splitCsv self.casdoorOrganization).eraseDups
  | .web => (splitCsv self.webCasdoorOrganizations).eraseDups

def downstreamAllowedPathPrefixList (self : Settings) : Except String (List Str) :=
  (splitCsv self.downstreamAllowedPathPrefixes).mapM fun item =>
    (validateRelativePath item "DOWNSTREAM_ALLOWED_PATH_PREFIXES").map (rstrip '/')

/-- `required` of `require_downstream_identity`, in the order of its sorted names. -/
def downstreamRequired (self : Settings) : List (String × Str) :=
  [("DOWNSTREAM_BASE_URL", self.downstreamBaseUrl),
    ("DOWNSTREAM_CLIENT_ID", self.downstreamClientId),
    ("DOWNSTREAM_CLIENT_SECRET", self.downstreamClientSecret),
    ("DOWNSTREAM_SCOPE", self.downstreamScope)]

def requireDownstreamIdentity (U : Platform) (self : Settings) : Except String Unit := do
  let missing := self.downstreamRequired.filter fun field => strip field.2 = []
  require (missing = []) ("downstream service configuration missing: " ++
    ", ".intercalate (missing.map Prod.fst))
  let downstreamOrigin ← strictOrigin U self.downstreamBaseUrl "DOWNSTREAM_BASE_URL"
  let admin ← self.browserProfile U .admin
  let web ← self.browserProfile U .web
  require (downstreamOrigin ∉ [admin.frontendBaseUrl, web.frontendBaseUrl])
    "DOWNSTREAM_BASE_URL cannot target this Backend"
  let prefixes ← self.downstreamAllowedPathPrefixList
  require (prefixes ≠ []) "DOWNSTREAM_ALLOWED_PATH_PREFIXES cannot be empty"
  require (self.isProduction = true → self.downstreamVerifySsl = true)
    "DOWNSTREAM_VERIFY_SSL must be true in production"

theorem validateRelativePath_ok {value path : Str} {field : String} :
    validateRelativePath value field = .ok path ↔ (['/'] <+: value ∧ ¬ ['/', '/'] <+: value ∧
      '\\' ∉ value ∧ '\x00' ∉ value ∧ value.length ≤ 1024) ∧ path = value := by
  unfold validateRelativePath
  split
  · rename_i unsafe_
    refine ⟨fun failed => (by cases failed), fun safe => absurd unsafe_ ?_⟩
    simp only [not_or, not_not, not_lt]
    exact safe.1
  · rename_i safe
    simp only [not_or, not_not, not_lt] at safe
    exact ⟨fun same => ⟨safe, (Except.ok.inj same).symm⟩, fun same => by rw [same.2]; rfl⟩

section Origins

variable {U : Platform} {value origin : Str} {field : String}

structure OriginOnly (U : Platform) (parts : SplitResult) : Prop where
  web : parts.scheme ∈ webSchemes
  named : parts.hostname U ≠ []
  bare : parts.username = [] ∧ parts.password = []
  path : parts.path = [] ∨ parts.path = ['/']
  rest : parts.query = [] ∧ parts.fragment = []

theorem strictOrigin_iff : strictOrigin U value field = .ok origin ↔ value ≠ ['*'] ∧
    ∃ parts port, urlsplit U value = some parts ∧ parts.port = some port ∧ OriginOnly U parts ∧
      origin = parts.scheme ++ ':' :: '/' :: '/' :: (parts.hostname U ++ portText port) := by
  have slashes : "://".toList = [':', '/', '/'] := rfl
  simp only [strictOrigin, bind_ok, expect_ok, require_ok, pure_ok, slashes]
  constructor
  · rintro ⟨_, other, parts, split, port, ported, _, ⟨web, named, user, word, path, query, fragment⟩, rfl⟩
    exact ⟨other, parts, port, split, ported, ⟨web, named, ⟨user, word⟩, by simpa using path,
      query, fragment⟩, by simp [portText]⟩
  · rintro ⟨other, parts, port, split, ported, ⟨web, named, bare, path, rest⟩, rfl⟩
    exact ⟨(), other, parts, split, port, ported, (), ⟨web, named, bare.1, bare.2,
      by simpa using path, rest⟩, by simp [portText]⟩

theorem strictOrigin_ok (strict : strictOrigin U value field = .ok origin) : ∃ parts port,
    urlsplit U value = some parts ∧ parts.scheme ∈ webSchemes ∧ parts.hostname U ≠ [] ∧
      (parts.path = [] ∨ parts.path = ['/']) ∧ origin = parts.scheme ++ ':' :: '/' :: '/' ::
        (parts.hostname U ++ portText port) := by
  obtain ⟨_, parts, port, split, _, only, rfl⟩ := strictOrigin_iff.mp strict
  exact ⟨parts, port, split, only.web, only.named, only.path, rfl⟩

theorem strictOrigin_shape (keeps : U.KeepsDelims) (strict : strictOrigin U value field = .ok origin) :
    ∃ scheme netloc, IsScheme scheme ∧ netloc ≠ [] ∧ (∀ c ∈ netloc, isDelim c = false) ∧
      origin = scheme ++ ':' :: '/' :: '/' :: netloc := by
  obtain ⟨parts, port, split, web, named, _, rfl⟩ := strictOrigin_ok strict
  refine ⟨_, _, (webSchemes_spec web).1, by simp [named], fun c member => ?_, rfl⟩
  rcases List.mem_append.mp member with host | ported
  · exact hostname_delim keeps (wellsplit_of_urlsplit split).netloc host
  · cases port with
    | none => cases ported
    | some n =>
        rcases List.mem_cons.mp ported with rfl | digit
        · rfl
        · exact isDelim_of_isDigit (isDigit_toDigits digit)

end Origins

def asciiPlatform : Platform := ⟨List.map Char.toLower, id, fun _ => true⟩

def sampleSurface : SurfaceSettings where
  casdoorClientId := "client".toList
  casdoorClientSecret := "secret".toList
  casdoorRedirectUri := "https://tpl.example/callback".toList
  authPolicyVersion := "1".toList
  authRoleAllowlist := "admin,operator".toList
  authScopeAllowlist := "tpl:read".toList
  frontendBaseUrl := "https://tpl.example".toList
  frontendAllowedOrigins := none
  authDefaultReturnTo := "/home".toList
  authAllowedReturnPaths := "/home".toList

def sampleSettings : Settings where
  env := "production".toList
  appSlug := "tpl".toList
  appSlug_chars := by decide
  casdoorEndpoint := "https://id.example".toList
  casdoorDiscoveryUrl := none
  casdoorBackchannelEndpoint := none
  casdoorOrganization := "ops".toList
  webCasdoorOrganizations := "shop".toList
  admin := sampleSurface
  web := sampleSurface
  authTransactionTtlSeconds := 300
  authTransactionTtlSeconds_bounds := by decide
  authDiscoveryCacheSeconds := 300
  authJwksCacheSeconds := 300
  sessionTtlSeconds := 3600
  sessionTtlSeconds_bounds := by decide
  downstreamBaseUrl := "https://down.example".toList
  downstreamClientId := "tpl".toList
  downstreamClientSecret := "secret".toList
  downstreamScope := "call".toList
  downstreamAllowedPathPrefixes := "/api/internal/v1".toList
  downstreamVerifySsl := true

def sampleProfile : BrowserSurfaceProfile where
  surface := .web
  clientId := "client".toList
  clientSecret := "secret".toList
  redirectUri := "https://tpl.example/callback".toList
  frontendBaseUrl := "https://tpl.example".toList
  frontendOrigins := ["https://tpl.example".toList]
  policyVersion := "1".toList
  roleAllowlist := ["admin".toList, "operator".toList]
  scopeAllowlist := ["tpl:read".toList]
  defaultReturnTo := "/home".toList
  allowedReturnPaths := ["/home".toList]
  requiredScopes := []
  sessionKeyPrefix := "tpl:auth:web:session:".toList
  transactionKeyPrefix := "tpl:auth:web:oidc:".toList

theorem browserProfile_sample :
    sampleSettings.browserProfile asciiPlatform .web = .ok sampleProfile := rfl

end Settings

end TplBackend
