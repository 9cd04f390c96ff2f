import TplBackend.Auth.Principal
import TplBackend.Library.Run
import Mathlib.Logic.Function.Basic

namespace TplBackend

open Raise Text Transition Url

inductive OidcError
  | serviceUnavailable (msg : String)
  | valueError (msg : String)
  /-- An exception that no clause catches. -/
  | external

structure OidcMetadata where
  issuer : Str
  authorizationEndpoint : Str
  tokenEndpoint : Str
  jwksUri : Str
  endSessionEndpoint : Option Str

namespace OidcMetadata

def urls (m : OidcMetadata) : List Str :=
  [m.issuer, m.authorizationEndpoint, m.tokenEndpoint, m.jwksUri] ++ m.endSessionEndpoint.toList

end OidcMetadata

/-- A request of the provider client: its URL, and the `Host` header that overrides the URL's. -/
structure OidcRequest where
  url : Str
  host : Option Str

inductive Answer
  | httpError
  | raises
  | response (status : Nat) (body : Loaded)

/-- What `KeySet.import_key_set` makes of a document. -/
inductive Imported (κ : Type)
  | keys (k : κ)
  /-- `ValueError`, `TypeError` or `JoseError` -/
  | refused
  | raises

namespace Settings

variable (U : Platform) (self : Settings)

def validateProviderUrl (value : Json) (field : String) : Except OidcError Str :=
  match value with
  | .str (c :: rest) => do
    let parsed ← expect (urlsplit U (c :: rest)) (OidcError.valueError "Invalid URL")
    let endpoint ← expect (urlsplit U self.casdoorEndpoint) (OidcError.valueError "Invalid URL")
    require (parsed.scheme ∈ webSchemes ∧ parsed.hostname U ≠ [])
      (.serviceUnavailable ("OIDC metadata invalid " ++ field))
    require (parsed.username = [] ∧ parsed.password = [] ∧ parsed.fragment = [])
      (.serviceUnavailable ("OIDC metadata invalid " ++ field))
    require (self.isProduction = true → parsed.scheme = "https".toList)
      (.serviceUnavailable "OIDC metadata requires HTTPS")
    require (endpoint.hostname U ≠ [] ∧ U.lower (parsed.hostname U) = U.lower (endpoint.hostname U))
      (.serviceUnavailable ("OIDC metadata cross-origin " ++ field))
    let port ← expect parsed.port (OidcError.valueError "Port out of range")
    let endpointPort ← expect endpoint.port (OidcError.valueError "Port out of range")
    require (port = endpointPort) (.serviceUnavailable ("OIDC metadata cross-origin " ++ field))
    return c :: rest
  | _ => .error (.serviceUnavailable ("OIDC metadata missing " ++ field))

def backchannel? : Option Str := self.casdoorBackchannelEndpoint.filter (· ≠ [])

def backchannelTarget (publicUrl : Str) (field : String) : Except OidcError OidcRequest := do
  let publicUrl ← self.validateProviderUrl U (.str publicUrl) field
  match self.backchannel? with
  | none => return ⟨publicUrl, none⟩
  | some configured =>
    let backchannel ← expect (urlsplit U configured) (OidcError.valueError "Invalid URL")
    require (backchannel.scheme ∈ webSchemes ∧ backchannel.hostname U ≠ [] ∧
        backchannel.username = [] ∧ backchannel.password = [] ∧ backchannel.path ∈ [[], ['/']] ∧
        backchannel.query = [] ∧ backchannel.fragment = [])
      (.serviceUnavailable "OIDC backchannel endpoint invalid")
    let public_ ← expect (urlsplit U publicUrl) (OidcError.valueError "Invalid URL")
    let endpoint ← expect (urlsplit U self.casdoorEndpoint) (OidcError.valueError "Invalid URL")
    return {
      url := urlunsplit {
        scheme := backchannel.scheme
        netloc := backchannel.netloc
        path := public_.path
        query := public_.query
        fragment := [] }
      host := some endpoint.netloc }

/-- `get_metadata` from its cache to its request. -/
def discoveryTarget : Except OidcError OidcRequest := do
  require (self.casdoorDiscoveryEndpoint ≠ [])
    (.serviceUnavailable "OIDC discovery is not configured")
  self.backchannelTarget U self.casdoorDiscoveryEndpoint "discovery"

def validateOptionalUrl (value : Json) (field : String) : Except OidcError (Option Str) :=
  match value with
  | .null => .ok none
  | value => (self.validateProviderUrl U value field).map some

def metadataOf (payload : Claims) : Except OidcError OidcMetadata := do
  let validate := self.validateProviderUrl U
  let issuer ← validate (Json.get payload "issuer") "issuer"
  let authorizationEndpoint ←
    validate (Json.get payload "authorization_endpoint") "authorization_endpoint"
  let tokenEndpoint ← validate (Json.get payload "token_endpoint") "token_endpoint"
  let jwksUri ← validate (Json.get payload "jwks_uri") "jwks_uri"
  let endSessionEndpoint ←
    self.validateOptionalUrl U (Json.get payload "end_session_endpoint") "end_session_endpoint"
  return { issuer, authorizationEndpoint, tokenEndpoint, jwksUri, endSessionEndpoint }

/-- `get_metadata` from the answer on. -/
def readDiscovery : Answer → Except OidcError OidcMetadata
  | .httpError => .error (.serviceUnavailable "OIDC discovery unavailable")
  | .raises => .error .external
  | .response status body =>
    if status ≠ 200 then .error (.serviceUnavailable "OIDC discovery unavailable")
    else
      match body with
      | .decodeError => .error (.serviceUnavailable "OIDC discovery returned invalid JSON")
      | .raises => .error .external
      | .value (.obj payload) => self.metadataOf U payload
      | .value _ => .error (.serviceUnavailable "OIDC discovery returned invalid document")

end Settings

/-- `_get_key_set` from the answer on. -/
def readKeySet {κ : Type} (importKeySet : Json → Imported κ) : Answer → Except OidcError κ
  | .httpError => .error (.serviceUnavailable "OIDC JWKS unavailable")
  | .raises => .error .external
  | .response status body =>
    if status ≠ 200 then .error (.serviceUnavailable "OIDC JWKS unavailable")
    else
      match body with
      | .decodeError => .error (.serviceUnavailable "OIDC JWKS invalid")
      | .raises => .error .external
      | .value payload =>
        match importKeySet payload with
        | .keys k => .ok k
        | .refused => .error (.serviceUnavailable "OIDC JWKS invalid")
        | .raises => .error .external

/-- What an `OidcProviderClient` remembers. -/
structure OidcProviderClient (κ : Type) where
  metadata : Option OidcMetadata
  metadataLoadedAt : Clock
  keySet : Option κ
  keysLoadedAt : Clock

namespace OidcProviderClient

variable {κ : Type} (self : OidcProviderClient κ) (settings : Settings)

def cachedMetadata (forceRefresh : Bool) (now : Clock) : Option OidcMetadata :=
  if !forceRefresh && now - self.metadataLoadedAt < seconds settings.authDiscoveryCacheSeconds then
    self.metadata
  else none

def cachedKeySet (forceRefresh : Bool) (now : Clock) : Option κ :=
  if !forceRefresh && now - self.keysLoadedAt < seconds settings.authJwksCacheSeconds then
    self.keySet
  else none

end OidcProviderClient

inductive OidcCall
  | idle
  | discovering (now : Clock)
  | fetching (now : Clock)
  | ended

structure Provider (κ : Type) where
  client : OidcProviderClient κ
  calls : Nat → OidcCall

/-- One step of a call, with the clock it reads or the answer to its request. The calls of one
coroutine (the discovery, the token request, the keys) are calls of their own. -/
inductive OidcAction
  | getMetadata (call : Nat) (forceRefresh : Bool) (now : Clock)
  | discovered (call : Nat) (answer : Answer)
  | getKeySet (call : Nat) (metadata : OidcMetadata) (forceRefresh : Bool) (now : Clock)
  | fetched (call : Nat) (answer : Answer)
  | postToken (call : Nat) (metadata : OidcMetadata)

inductive OidcOutcome (κ : Type)
  | metadata (m : OidcMetadata)
  | keySet (k : κ)
  | sends (request : OidcRequest)
  | raised (error : OidcError)

namespace Provider

variable {κ : Type} (U : Platform) (settings : Settings) (importKeySet : Json → Imported κ)

def put (w : Provider κ) (call : Nat) (phase : OidcCall) : Provider κ :=
  { w with calls := Function.update w.calls call phase }

/-- Sends the request and waits in `phase`, or raises. -/
def send (w : Provider κ) (call : Nat) (target : Except OidcError OidcRequest) (phase : OidcCall) :
    OidcOutcome κ × Provider κ :=
  match target with
  | .error error => (.raised error, w.put call .ended)
  | .ok request => (.sends request, w.put call phase)

/-- What a step does; `none` where the call is not waiting for it. -/
def react (w : Provider κ) : OidcAction → Option (OidcOutcome κ × Provider κ)
  | .getMetadata call forceRefresh now =>
    match w.calls call with
    | .idle => some <|
      match w.client.cachedMetadata settings forceRefresh now with
      | some m => (.metadata m, w.put call .ended)
      | none => w.send call (settings.discoveryTarget U) (.discovering now)
    | _ => none
  | .discovered call answer =>
    match w.calls call with
    | .discovering now => some <|
      match settings.readDiscovery U answer with
      | .error error => (.raised error, w.put call .ended)
      | .ok m => (.metadata m, { w with
          client := { w.client with metadata := some m, metadataLoadedAt := now } }.put call .ended)
    | _ => none
  | .getKeySet call metadata forceRefresh now =>
    match w.calls call with
    | .idle => some <|
      match w.client.cachedKeySet settings forceRefresh now with
      | some k => (.keySet k, w.put call .ended)
      | none =>
        w.send call (settings.backchannelTarget U metadata.jwksUri "jwks_uri") (.fetching now)
    | _ => none
  | .fetched call answer =>
    match w.calls call with
    | .fetching now => some <|
      match readKeySet importKeySet answer with
      | .error error => (.raised error, w.put call .ended)
      | .ok k => (.keySet k, { w with
          client := { w.client with keySet := some k, keysLoadedAt := now } }.put call .ended)
    | _ => none
  | .postToken call metadata =>
    match w.calls call with
    | .idle =>
      some (w.send call (settings.backchannelTarget U metadata.tokenEndpoint "token_endpoint") .ended)
    | _ => none

def init : Provider κ := ⟨⟨none, 0, none, 0⟩, fun _ => .idle⟩

def Step (w : Provider κ) (a : OidcAction) (w' : Provider κ) : Prop :=
  (react U settings importKeySet w a).map Prod.snd = some w'

def outcome (event : Event (Provider κ) OidcAction) : Option (OidcOutcome κ) :=
  (react U settings importKeySet event.before event.label).map Prod.fst

end Provider

end TplBackend
