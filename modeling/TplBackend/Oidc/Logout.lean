import TplBackend.Auth.Login
import TplBackend.Library.Percent
import TplBackend.Oidc.Origin

namespace TplBackend

open Keyed Raise Text Transition Url

variable {U : Platform} {κ : Type}

def OidcError.isApp : OidcError → Bool
  | .serviceUnavailable _ => true
  | _ => false

namespace OidcProviderClient

variable (U) (self : OidcProviderClient κ) (settings : Settings)

/-- `get_metadata` with the answer to its request. -/
def getMetadata (now : Clock) (answer : Answer) : Except OidcError OidcMetadata :=
  match self.cachedMetadata settings false now with
  | some m => .ok m
  | none => do
    let _ ← settings.discoveryTarget U
    settings.readDiscovery U answer

def endSessionUrl (profile : BrowserSurfaceProfile) (postLogoutRedirectUri state : Str) (now : Clock)
    (answer : Answer) : Except OidcError (Option Str) := do
  let metadata ← self.getMetadata U settings now answer
  return metadata.endSessionEndpoint.map fun endpoint =>
    endpoint ++ '?' :: Percent.urlencode
      [("client_id".toList, profile.clientId),
        ("post_logout_redirect_uri".toList, postLogoutRedirectUri), ("state".toList, state)]

end OidcProviderClient

namespace AuthService

variable (svc : AuthService U)

def deleteSession (store : Store Str Stored) (sessionId : Option Str) : Store Str Stored :=
  (presented sessionId).elim store fun id => store.delete (svc.sessionKey id)

def postLogoutRedirectUri : Except OidcError Str := do
  let callback ← expect (urlsplit U svc.profile.redirectUri) (.valueError "Invalid URL")
  return urlunsplit {
    scheme := callback.scheme
    netloc := callback.netloc
    path := "/api/auth/".toList ++ svc.surface.text ++ "/logged-out".toList
    query := []
    fragment := [] }

/-- The result of `end_session` and the store that it leaves. -/
def endSession (client : OidcProviderClient κ) (store : Store Str Stored) (sessionId : Option Str)
    (state : Secret 22) (now : Clock) (answer : Answer) :
    Except OidcError (Option Str) × Store Str Stored :=
  let store := svc.deleteSession store sessionId
  let ended : Except OidcError (Option Str) := do
    let postLogoutRedirectUri ← svc.postLogoutRedirectUri
    client.endSessionUrl U svc.settings svc.profile postLogoutRedirectUri state.text now answer
  match ended with
  | .error raised => (if raised.isApp then .ok none else .error raised, store)
  | .ok url => (.ok url, store)

end AuthService

def OnHost (U : Platform) (settings : Settings) (url : Str) : Prop :=
  ∃ parts endpoint port, urlsplit U url = some parts ∧
    urlsplit U settings.casdoorEndpoint = some endpoint ∧ parts.hostname U ≠ [] ∧
    U.lower (parts.hostname U) = U.lower (endpoint.hostname U) ∧ parts.port = some port ∧
    endpoint.port = some port

/-- Nothing raises while `_validate_provider_url` takes the value apart. -/
def UrlReads (U : Platform) (settings : Settings) : Json → Prop
  | .str (c :: rest) => ∃ parts endpoint, urlsplit U (c :: rest) = some parts ∧
      urlsplit U settings.casdoorEndpoint = some endpoint ∧
      (Addressed U settings parts endpoint → parts.port ≠ none ∧ endpoint.port ≠ none)
  | _ => True

def FitsValue (U : Platform) (settings : Settings) (value : Json) : Prop :=
  ∃ url, value = .str url ∧ Fits U settings url

/-- Each value reads, unless one before it is refused. -/
def FieldsRead (U : Platform) (settings : Settings) : List Json → Prop
  | [] => True
  | value :: values => UrlReads U settings value ∧
      (FitsValue U settings value → FieldsRead U settings values)

def Json.given : Json → List Json
  | .null => []
  | value => [value]

def discoveryUrls (payload : Claims) : List Json :=
  ["issuer", "authorization_endpoint", "token_endpoint", "jwks_uri"].map (Json.get payload) ++
    (Json.get payload "end_session_endpoint").given

def AnswerReads (U : Platform) (settings : Settings) : Answer → Prop
  | .httpError => True
  | .raises => False
  | .response status body => status = 200 →
    match body with
    | .decodeError => True
    | .raises => False
    | .value (.obj payload) => FieldsRead U settings (discoveryUrls payload)
    | .value _ => True

def BackchannelFits (U : Platform) (settings : Settings) : Prop :=
  ∀ configured, settings.backchannel? = some configured → ∃ backchannel,
    urlsplit U configured = some backchannel ∧ backchannel.scheme ∈ webSchemes ∧
      backchannel.hostname U ≠ [] ∧ backchannel.username = [] ∧ backchannel.password = [] ∧
      backchannel.path ∈ [[], ['/']] ∧ backchannel.query = [] ∧ backchannel.fragment = []

structure MetadataReads (U : Platform) (settings : Settings) (answer : Answer) : Prop where
  discovery : settings.casdoorDiscoveryEndpoint ≠ [] →
    UrlReads U settings (.str settings.casdoorDiscoveryEndpoint)
  backchannel : Fits U settings settings.casdoorDiscoveryEndpoint →
    ∀ configured, settings.backchannel? = some configured → urlsplit U configured ≠ none
  answered : Fits U settings settings.casdoorDiscoveryEndpoint → BackchannelFits U settings →
    AnswerReads U settings answer

structure LogoutReads (svc : AuthService U) (client : OidcProviderClient κ) (now : Clock)
    (answer : Answer) : Prop where
  callback : urlsplit U svc.profile.redirectUri ≠ none
  metadata : client.cachedMetadata svc.settings false now = none → MetadataReads U svc.settings answer

def LogoutReturns (svc : AuthService U) (result : Except OidcError (Option Str)) : Prop :=
  ∃ url?, result = .ok url? ∧ ∀ url ∈ url?, OnHost U svc.settings url

/-- `_validate_provider_url` returns the value or raises a `ServiceUnavailableError`. -/
def ValidatesOrRefuses (U : Platform) (settings : Settings) (value : Json) (field : String) : Prop :=
  (∃ url, value = .str url ∧ settings.validateProviderUrl U value field = .ok url) ∨
    ∃ msg, settings.validateProviderUrl U value field = .error (.serviceUnavailable msg)

section Reads

variable {settings : Settings} {value : Json} {field : String} {url : Str}

theorem only_validateProviderUrl : Only (OidcError.isApp · = true)
    (settings.validateProviderUrl U value field) ↔ UrlReads U settings value := by
  have missing : Only (OidcError.isApp · = true) (.error (.serviceUnavailable
      ("OIDC metadata missing " ++ field)) : Except OidcError Str) := only_error.mpr rfl
  cases value with
  | str text =>
      cases text with
      | nil => exact iff_of_true missing trivial
      | cons c rest =>
          simp only [Settings.validateProviderUrl, UrlReads, only_bind, only_expect, only_require,
            expect_ok, require_ok, OidcError.isApp, Bool.false_eq_true, imp_false, implies_true,
            true_and, and_true, forall_const, pure, Except.pure, only_ok]
          constructor
          · rintro ⟨split, reads⟩
            obtain ⟨parts, found⟩ := Option.ne_none_iff_exists'.mp split
            obtain ⟨split', reads⟩ := reads parts found
            obtain ⟨endpoint, found'⟩ := Option.ne_none_iff_exists'.mp split'
            refine ⟨parts, endpoint, found, found', fun addressed => ?_⟩
            obtain ⟨ported, reads⟩ := reads endpoint found' addressed.web addressed.bare addressed.https
              addressed.host
            obtain ⟨port, given⟩ := Option.ne_none_iff_exists'.mp ported
            exact ⟨ported, reads port given⟩
          · rintro ⟨parts, endpoint, found, found', reads⟩
            rw [found, found']
            refine ⟨by simp, fun _ same => ⟨by simp, fun _ same' web bare https host => ?_⟩⟩
            cases same
            cases same'
            obtain ⟨ported, ported'⟩ := reads ⟨web, bare, https, host⟩
            exact ⟨ported, fun _ _ => ported'⟩
  | _ => exact iff_of_true missing trivial

theorem Fits.reads (fits : Fits U settings url) : UrlReads U settings (.str url) := by
  obtain ⟨c, rest, rfl⟩ := List.exists_cons_of_ne_nil fits.ne_nil
  obtain ⟨parts, endpoint, port, split, split', _, ported, ported'⟩ := fits
  exact ⟨parts, endpoint, split, split', fun _ => by simp [ported, ported']⟩

theorem forall_validated {rest : Prop} :
    (∀ url, settings.validateProviderUrl U value field = .ok url → rest) ↔
      (FitsValue U settings value → rest) := by
  simp only [validateProviderUrl_ok, FitsValue, forall_exists_index]

theorem only_validateOptionalUrl : Only (OidcError.isApp · = true)
    (settings.validateOptionalUrl U value field) ↔ FieldsRead U settings value.given := by
  have given (value : Json) : Only (OidcError.isApp · = true)
      ((settings.validateProviderUrl U value field).map some) ↔ FieldsRead U settings [value] := by
    rw [FieldsRead, FieldsRead, ← @only_validateProviderUrl U settings value field]
    cases settings.validateProviderUrl U value field with
    | error raised => simp [Except.map, only_error]
    | ok url => simp [Except.map, only_ok]
  cases value with
  | null => exact iff_of_true (only_ok none) trivial
  | _ => simpa only [Settings.validateOptionalUrl, Json.given] using given _

theorem only_metadataOf {payload : Claims} : Only (OidcError.isApp · = true)
    (settings.metadataOf U payload) ↔ FieldsRead U settings (discoveryUrls payload) := by
  simp only [Settings.metadataOf, only_bind, only_validateProviderUrl, forall_validated,
    only_validateOptionalUrl, discoveryUrls, List.map_cons, List.map_nil, List.cons_append,
    List.nil_append, FieldsRead, pure, Except.pure, only_ok, implies_true, and_true]

theorem only_readDiscovery {answer : Answer} : Only (OidcError.isApp · = true)
    (settings.readDiscovery U answer) ↔ AnswerReads U settings answer := by
  cases answer with
  | httpError => exact iff_of_true (only_error.mpr rfl) trivial
  | raises => exact iff_of_false (fun only => by cases only _ rfl) id
  | response status body =>
      simp only [Settings.readDiscovery, AnswerReads]
      by_cases fine : status = 200
      · simp only [fine, ne_eq, not_true_eq_false, if_false, true_imp_iff]
        cases body with
        | decodeError => exact iff_of_true (only_error.mpr rfl) trivial
        | raises => exact iff_of_false (fun only => by cases only _ rfl) id
        | value document =>
            cases document with
            | obj payload => exact only_metadataOf
            | _ => exact iff_of_true (only_error.mpr rfl) trivial
      · rw [if_pos fine]
        exact iff_of_true (only_error.mpr rfl) fun same => absurd same fine

theorem only_backchannelTarget (fits : Fits U settings url) :
    Only (OidcError.isApp · = true) (settings.backchannelTarget U url field) ↔
      ∀ configured, settings.backchannel? = some configured → urlsplit U configured ≠ none := by
  rw [Settings.backchannelTarget, validateProviderUrl_ok.mpr ⟨rfl, fits⟩, ok_bind]
  obtain ⟨parts, endpoint, _, split, split', _⟩ := fits
  cases settings.backchannel? with
  | none => exact iff_of_true (only_ok _) fun _ some_ => by cases some_
  | some configured =>
      simp only [only_bind, only_expect, only_require, split, split', OidcError.isApp,
        Bool.false_eq_true, imp_false, implies_true, and_true, Option.some.injEq, forall_eq',
        reduceCtorEq, not_false_eq_true, pure, Except.pure, only_ok, ne_eq]

theorem backchannelTarget_fits (fits : Fits U settings url) :
    (∃ request, settings.backchannelTarget U url field = .ok request) ↔ BackchannelFits U settings := by
  unfold BackchannelFits
  rw [Settings.backchannelTarget, validateProviderUrl_ok.mpr ⟨rfl, fits⟩]
  simp only [ok_bind]
  obtain ⟨parts, endpoint, _, split, split', _⟩ := fits
  cases settings.backchannel? with
  | none => exact iff_of_true ⟨_, rfl⟩ fun _ some_ => by cases some_
  | some configured =>
      simp only [bind_ok, expect_ok, require_ok, pure_ok, split, split', Option.some.injEq, forall_eq']
      constructor
      · rintro ⟨_, backchannel, found, _, origin, _⟩
        exact ⟨backchannel, found, origin⟩
      · rintro ⟨backchannel, found, origin⟩
        exact ⟨_, backchannel, found, (), origin, _, rfl, _, rfl, rfl⟩

theorem Fits.onHost (fits : Fits U settings url) (query : Str) :
    OnHost U settings (url ++ '?' :: query) := by
  obtain ⟨parts, endpoint, port, split, split', addressed, ported, ported'⟩ := fits
  have schemed := (webSchemes_spec addressed.web.1).1.free.1
  obtain ⟨longer, split'', _, netloc⟩ :=
    urlsplit_append split schemed (netloc_of_hostname addressed.web.2) (rfl : isDelim '?' = true) query
  have hostname : longer.hostname U = parts.hostname U := hostname_congr netloc
  exact ⟨longer, endpoint, port, split'', split', hostname ▸ addressed.web.2, hostname ▸ addressed.host.2,
    (port_congr netloc).trans ported, ported'⟩

end Reads

section Logout

variable {svc : AuthService U} {client : OidcProviderClient κ} {now : Clock} {answer : Answer}
variable {settings : Settings}

theorem only_discoveryTarget : Only (OidcError.isApp · = true) (settings.discoveryTarget U) ↔
    (settings.casdoorDiscoveryEndpoint ≠ [] →
      UrlReads U settings (.str settings.casdoorDiscoveryEndpoint)) ∧
    (Fits U settings settings.casdoorDiscoveryEndpoint →
      ∀ configured, settings.backchannel? = some configured → urlsplit U configured ≠ none) := by
  by_cases given : settings.casdoorDiscoveryEndpoint = []
  · rw [Settings.discoveryTarget, require_neg (by simpa using given), error_bind]
    exact iff_of_true (only_error.mpr rfl) ⟨fun some_ => absurd given some_,
      fun fits => absurd given fits.ne_nil⟩
  · rw [Settings.discoveryTarget, require_pos given, ok_bind]
    by_cases fits : Fits U settings settings.casdoorDiscoveryEndpoint
    · rw [only_backchannelTarget fits]
      exact ⟨fun split => ⟨fun _ => fits.reads, fun _ => split⟩, fun both => both.2 fits⟩
    · have checked := @only_validateProviderUrl U settings (.str settings.casdoorDiscoveryEndpoint)
        "discovery"
      rw [Settings.backchannelTarget]
      cases refused : settings.validateProviderUrl U (.str settings.casdoorDiscoveryEndpoint)
        "discovery" with
      | ok url =>
          obtain ⟨same, fits'⟩ := validateProviderUrl_ok.mp refused
          cases same
          exact absurd fits' fits
      | error raised =>
          rw [refused, only_error] at checked
          rw [error_bind, only_error, checked]
          exact ⟨fun reads => ⟨fun _ => reads, fun fits' => absurd fits' fits⟩, fun both => both.1 given⟩

theorem discovers_iff : (∃ request, settings.discoveryTarget U = .ok request) ↔
    Fits U settings settings.casdoorDiscoveryEndpoint ∧ BackchannelFits U settings := by
  constructor
  · rintro ⟨request, made⟩
    obtain ⟨_, _, made⟩ := bind_ok.mp made
    obtain ⟨url, valid, _⟩ := bind_ok.mp made
    obtain ⟨same, fits⟩ := validateProviderUrl_ok.mp valid
    cases same
    exact ⟨fits, (backchannelTarget_fits fits).mp ⟨request, made⟩⟩
  · rintro ⟨fits, origin⟩
    obtain ⟨request, made⟩ := (backchannelTarget_fits fits).mpr origin
    exact ⟨request, bind_ok.mpr ⟨(), require_pos fits.ne_nil, made⟩⟩

theorem only_getMetadata : Only (OidcError.isApp · = true) (client.getMetadata U settings now answer) ↔
    (client.cachedMetadata settings false now = none → MetadataReads U settings answer) := by
  unfold OidcProviderClient.getMetadata
  cases client.cachedMetadata settings false now with
  | some m => exact iff_of_true (only_ok m) fun none_ => by cases none_
  | none =>
      simp only [only_bind, only_discoveryTarget, only_readDiscovery, true_imp_iff]
      constructor
      · rintro ⟨⟨discovery, backchannel⟩, answered⟩
        exact ⟨discovery, backchannel, fun fits origin =>
          (discovers_iff.mpr ⟨fits, origin⟩).elim answered⟩
      · rintro ⟨discovery, backchannel, answered⟩
        exact ⟨⟨discovery, backchannel⟩, fun request made =>
          (discovers_iff.mp ⟨request, made⟩).elim answered⟩

theorem getMetadata_fits {m : OidcMetadata}
    (remembered : ∀ m, client.metadata = some m → ∀ url ∈ m.urls, Fits U settings url)
    (got : client.getMetadata U settings now answer = .ok m) : ∀ url ∈ m.urls, Fits U settings url := by
  unfold OidcProviderClient.getMetadata at got
  split at got
  · rename_i cached
    cases got
    exact remembered m (Provider.cachedMetadata_some cached)
  · obtain ⟨_, _, read⟩ := bind_ok.mp got
    exact readDiscovery_ok read

/-- The call of the client as the steps of one coroutine. -/
theorem getMetadata_ok {importKeySet : Json → Imported κ} {w : Provider κ} {call : Nat} {m : OidcMetadata}
    (idle : w.calls call = .idle) : w.client.getMetadata U settings now answer = .ok m ↔
      (∃ w', w.react U settings importKeySet (.getMetadata call false now) = some (.metadata m, w')) ∨
      ∃ request w' w'', w.react U settings importKeySet (.getMetadata call false now) =
          some (.sends request, w') ∧
        w'.react U settings importKeySet (.discovered call answer) = some (.metadata m, w'') := by
  simp only [OidcProviderClient.getMetadata, Provider.react, idle]
  cases w.client.cachedMetadata settings false now with
  | some found => simp
  | none =>
      cases asked : settings.discoveryTarget U with
      | error raised => simp [Provider.send, error_bind]
      | ok request =>
          cases read : settings.readDiscovery U answer with
          | error raised => simp [Provider.send, Provider.put, ok_bind]
          | ok found => simp [Provider.send, Provider.put, ok_bind]

variable {importKeySet : Json → Imported κ} {w : Provider κ}
variable {history : List (Event (Provider κ) OidcAction)}

theorem endSession_store {store : Store Str Stored} {sessionId : Option Str} {state : Secret 22} :
    (svc.endSession client store sessionId state now answer).2 = svc.deleteSession store sessionId := by
  unfold AuthService.endSession
  dsimp only
  split <;> rfl

/-- The store is left as the step of the call leaves it. -/
theorem react_endSession {py : Builtins} {w : World U} {sessionId : Option Str} {state : Secret 22} :
    (w.react py (.endSession svc sessionId state)).map (fun result => result.2.store) =
      some (svc.endSession client w.store sessionId state now answer).2 := by
  rw [endSession_store]
  rfl

theorem find?_endSession {store : Store Str Stored} {sessionId : Option Str} {state : Secret 22}
    {id : Str} (given : presented sessionId = some id) (key : Str) :
    (svc.endSession client store sessionId state now answer).2.find? key =
      if key = svc.sessionKey id then none else store.find? key := by
  rw [endSession_store, AuthService.deleteSession, given, Option.elim_some, Store.find?_delete]

theorem endSessionUrl_onHost {uri state : Str} {url? : Option Str}
    (remembered : ∀ m, client.metadata = some m → ∀ url ∈ m.urls, Fits U svc.settings url)
    (made : client.endSessionUrl U svc.settings svc.profile uri state now answer = .ok url?) :
    ∀ url ∈ url?, OnHost U svc.settings url := by
  obtain ⟨m, got, same⟩ := bind_ok.mp made
  rw [pure_ok] at same
  subst same
  intro url member
  obtain ⟨endpoint, given, rfl⟩ := Option.map_eq_some_iff.mp member
  refine (getMetadata_fits remembered got endpoint ?_).onHost _
  simp [OidcMetadata.urls, given]

theorem endSession_returns {store : Store Str Stored} {sessionId : Option Str} {state : Secret 22}
    (remembered : ∀ m, client.metadata = some m → ∀ url ∈ m.urls, Fits U svc.settings url) :
    LogoutReturns svc (svc.endSession client store sessionId state now answer).1 ↔
      LogoutReads svc client now answer := by
  have reads : Only (OidcError.isApp · = true) (do
      let uri ← svc.postLogoutRedirectUri
      client.endSessionUrl U svc.settings svc.profile uri state.text now answer) ↔
        LogoutReads svc client now answer := by
    cases found : urlsplit U svc.profile.redirectUri with
    | none =>
        rw [AuthService.postLogoutRedirectUri, found, expect_none, error_bind, error_bind, only_error]
        exact iff_of_false (by simp [OidcError.isApp]) fun reads => reads.callback found
    | some callback =>
        have metadata : Only (OidcError.isApp · = true)
            (client.getMetadata U svc.settings now answer) ↔ LogoutReads svc client now answer :=
          only_getMetadata.trans ⟨fun reads => ⟨by simp [found], reads⟩, fun reads => reads.metadata⟩
        rw [← metadata, AuthService.postLogoutRedirectUri, found, expect_some, ok_bind]
        refine only_bind.trans ⟨fun both => (only_bind.mp (both.2 _ rfl)).1, fun only => ?_⟩
        exact ⟨only_ok _, fun _ _ => only_bind.mpr ⟨only, fun _ _ => only_ok _⟩⟩
  rw [← reads]
  unfold AuthService.endSession
  dsimp only
  split
  · rename_i raised failed
    rw [failed, only_error]
    cases app : raised.isApp with
    | true => exact iff_of_true ⟨none, rfl, fun _ none_ => by cases none_⟩ rfl
    | false =>
        refine iff_of_false ?_ (by simp)
        rintro ⟨_, same, _⟩
        cases same
  · rename_i url? made
    rw [made]
    obtain ⟨uri, _, made⟩ := bind_ok.mp made
    exact iff_of_true ⟨url?, rfl, endSessionUrl_onHost remembered made⟩ (only_ok url?)

theorem validatesOrRefuses_iff {value : Json} {field : String} :
    ValidatesOrRefuses U settings value field ↔ UrlReads U settings value := by
  rw [← @only_validateProviderUrl U settings value field, ValidatesOrRefuses]
  cases checked : settings.validateProviderUrl U value field with
  | ok url => exact iff_of_true (Or.inl ⟨url, (validateProviderUrl_ok.mp checked).1, rfl⟩) (only_ok url)
  | error raised =>
      rw [only_error]
      cases raised <;> simp [OidcError.isApp]

/-- Whatever the provider does, the local session is deleted, but the logout returns exactly where
every URL that it takes apart reads: a `ValueError` of the parser is no `AppException`. -/
theorem logout_iff (svc : AuthService U) (store : Store Str Stored) (sessionId : Option Str)
    (state : Secret 22) (now : Clock) (answer : Answer)
    (run : Run (Provider.Step U svc.settings importKeySet) Provider.init history w) :
    (∀ id, presented sessionId = some id → ∀ key,
      (svc.endSession w.client store sessionId state now answer).2.find? key =
        if key = svc.sessionKey id then none else store.find? key) ∧
    (LogoutReturns svc (svc.endSession w.client store sessionId state now answer).1 ↔
      LogoutReads svc w.client now answer) ∧
    ∀ value field, ValidatesOrRefuses U svc.settings value field ↔ UrlReads U svc.settings value :=
  ⟨fun _ given key => find?_endSession given key, endSession_returns (Provider.run_remembered run),
    fun _ _ => validatesOrRefuses_iff⟩

/-- With metadata in the cache no answer of the provider matters. -/
theorem logout_sample : LogoutReturns sampleService (sampleService.endSession
    Provider.discoveryEnd.client Table.empty (some "id".toList)
    (sampleSecret 'a' 22 (by decide)) (seconds 10) .raises).1 :=
  (logout_iff sampleService Table.empty (some "id".toList) (sampleSecret 'a' 22 (by decide)) (seconds 10)
    .raises Provider.discovery_run).2.1.mpr ⟨by decide, fun none_ => by cases none_⟩

/-- A discovery document whose issuer has a bracket that is never closed makes the logout raise. -/
theorem logout_raises : ¬ ∀ (U : Platform) (κ : Type) (svc : AuthService U)
    (importKeySet : Json → Imported κ) (history : List (Event (Provider κ) OidcAction)) (w : Provider κ)
    (store : Store Str Stored) (sessionId : Option Str) (state : Secret 22) (now : Clock)
    (status : Nat) (document : Json),
    Run (Provider.Step U svc.settings importKeySet) Provider.init history w →
      LogoutReturns svc (svc.endSession w.client store sessionId state now
        (.response status (.value document))).1 := by
  intro returns
  obtain ⟨_, returned, _⟩ := returns _ _ sampleService Provider.noKeys _ _ Table.empty none
    (sampleSecret 'a' 22 (by decide)) 0 200 (.obj [("issuer".toList, .str "https://[".toList)]) .init
  cases returned

end Logout

end TplBackend
