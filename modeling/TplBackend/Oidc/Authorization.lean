import TplBackend.Library.FormUrl
import TplBackend.Oidc.Logout

/-! The URL that a login sends the browser to, and what the provider reads of it. -/

namespace TplBackend

open Percent Raise Text Transition Url

variable {U : Platform} {κ : Type}

inductive LinkError
  | provider (raised : OidcError)
  | refused (raised : AuthError)

def authorizationParams (profile : BrowserSurfaceProfile) (state nonce codeChallenge : Str) :
    List (Str × Str) :=
  [("response_type".toList, "code".toList),
    ("client_id".toList, profile.clientId),
    ("redirect_uri".toList, profile.redirectUri),
    ("scope".toList, [' '].intercalate
      (["openid".toList, "profile".toList, "email".toList] ++ profile.requiredScopes)),
    ("state".toList, state),
    ("nonce".toList, nonce),
    ("code_challenge".toList, codeChallenge),
    ("code_challenge_method".toList, "S256".toList)]

def authorizationUrl (endpoint : Str) (profile : BrowserSurfaceProfile) (state nonce codeChallenge : Str) :
    Str :=
  endpoint ++ '?' :: urlencode (authorizationParams profile state nonce codeChallenge)

namespace AuthService

variable (svc : AuthService U)

/-- Where `build_authorization_url` sends a login of this mode. -/
def authorizationEndpoint (metadata : OidcMetadata) (mode : Str) : Except LinkError Str :=
  if mode = "signup".toList then do
    require (svc.surface = .web) (.refused transactionError)
    (svc.settings.validateProviderUrl U
      (.str (rstrip '/' svc.settings.casdoorEndpoint ++ "/signup/oauth/authorize".toList))
      "signup_endpoint").mapError .provider
  else .ok metadata.authorizationEndpoint

def buildAuthorizationUrl (client : OidcProviderClient κ) (state nonce codeChallenge mode : Str)
    (now : Clock) (answer : Answer) : Except LinkError Str := do
  let metadata ← (client.getMetadata U svc.settings now answer).mapError .provider
  let endpoint ← svc.authorizationEndpoint metadata mode
  return authorizationUrl endpoint svc.profile state nonce codeChallenge

end AuthService

section Reading

variable {svc : AuthService U} {client : OidcProviderClient κ} {metadata : OidcMetadata}
variable {mode endpoint state nonce codeChallenge : Str} {now : Clock} {answer : Answer}

theorem authorizationEndpoint_fits (known : ∀ url ∈ metadata.urls, Fits U svc.settings url)
    (chosen : svc.authorizationEndpoint metadata mode = .ok endpoint) : Fits U svc.settings endpoint := by
  unfold AuthService.authorizationEndpoint at chosen
  split at chosen
  · obtain ⟨_, _, valid⟩ := bind_ok.mp chosen
    exact (validateProviderUrl_ok.mp (mapError_ok.mp valid)).2
  · rw [← Except.ok.inj chosen]
    exact known _ (by simp [OidcMetadata.urls])

theorem authorizationEndpoint_raises {raised : LinkError} (allowed : svc.modeAllowed mode = true)
    (failed : svc.authorizationEndpoint metadata mode = .error raised) : ∃ error, raised = .provider error := by
  unfold AuthService.authorizationEndpoint at failed
  split at failed
  · rename_i signup
    have web : svc.surface = .web := by
      rw [AuthService.modeAllowed, signup] at allowed
      simpa using allowed
    rw [require_pos web, ok_bind] at failed
    cases validated : svc.settings.validateProviderUrl U
        (.str (rstrip '/' svc.settings.casdoorEndpoint ++ "/signup/oauth/authorize".toList))
        "signup_endpoint" with
    | ok url =>
        rw [validated] at failed
        cases failed
    | error error =>
        rw [validated] at failed
        exact ⟨error, (Except.error.inj failed).symm⟩
  · cases failed

theorem buildAuthorizationUrl_of_metadata
    (got : client.getMetadata U svc.settings now answer = .ok metadata) :
    svc.buildAuthorizationUrl client state nonce codeChallenge mode now answer =
      (svc.authorizationEndpoint metadata mode).map fun endpoint =>
        authorizationUrl endpoint svc.profile state nonce codeChallenge := by
  rw [AuthService.buildAuthorizationUrl, got]
  simp only [Except.mapError, ok_bind]
  cases svc.authorizationEndpoint metadata mode with
  | error raised => rfl
  | ok endpoint => rfl

theorem buildAuthorizationUrl_cases (remembered : ∀ m, client.metadata = some m →
      ∀ url ∈ m.urls, Fits U svc.settings url) (allowed : svc.modeAllowed mode = true) :
    (∃ endpoint, Fits U svc.settings endpoint ∧ ∀ state nonce codeChallenge,
      svc.buildAuthorizationUrl client state nonce codeChallenge mode now answer =
        .ok (authorizationUrl endpoint svc.profile state nonce codeChallenge)) ∨
    ∃ error, ∀ state nonce codeChallenge,
      svc.buildAuthorizationUrl client state nonce codeChallenge mode now answer =
        .error (.provider error) := by
  cases got : client.getMetadata U svc.settings now answer with
  | error error =>
      refine .inr ⟨error, fun state nonce codeChallenge => ?_⟩
      rw [AuthService.buildAuthorizationUrl, got]
      rfl
  | ok metadata =>
      cases chosen : svc.authorizationEndpoint metadata mode with
      | error raised =>
          obtain ⟨error, rfl⟩ := authorizationEndpoint_raises allowed chosen
          refine .inr ⟨error, fun state nonce codeChallenge => ?_⟩
          rw [buildAuthorizationUrl_of_metadata got, chosen]
          rfl
      | ok endpoint =>
          refine .inl ⟨endpoint, authorizationEndpoint_fits (getMetadata_fits remembered got) chosen,
            fun state nonce codeChallenge => ?_⟩
          rw [buildAuthorizationUrl_of_metadata got, chosen]
          rfl

theorem formOf_authorizationUrl (fits : Fits U svc.settings endpoint) (unmarked : Unmarked endpoint)
    (profile : BrowserSurfaceProfile) (state nonce codeChallenge : Str) :
    formOf U (authorizationUrl endpoint profile state nonce codeChallenge) =
      some (authorizationParams profile state nonce codeChallenge) := by
  obtain ⟨parts, _, _, split, _, addressed, _⟩ := fits
  have schemed := (webSchemes_spec addressed.web.1).1.free.1
  rw [formOf, authorizationUrl,
    formOf_unmarked split schemed (netloc_of_hostname addressed.web.2) unmarked, Option.map_some,
    parseQsl_urlencode]

theorem unmarked_of_formOf (fits : Fits U svc.settings endpoint) (profile : BrowserSurfaceProfile)
    (reads : ∀ state nonce codeChallenge,
      formOf U (authorizationUrl endpoint profile state nonce codeChallenge) =
        some (authorizationParams profile state nonce codeChallenge)) : Unmarked endpoint := by
  obtain ⟨parts, _, _, split, _, addressed, _⟩ := fits
  have schemed := (webSchemes_spec addressed.web.1).1.free.1
  have hosted := netloc_of_hostname addressed.web.2
  have hash : '#' ∉ endpoint := by
    intro inside
    have lost (state : Str) : some (authorizationParams profile state [] []) = formOf U endpoint :=
      (reads state [] []).symm.trans (formOf_fragment split schemed hosted inside)
    have same : authorizationParams profile [] [] [] = authorizationParams profile ['x'] [] [] :=
      Option.some.inj ((lost []).trans (lost ['x']).symm)
    simp [authorizationParams] at same
  refine ⟨fun mark => ?_, hash⟩
  exact formOf_queried split schemed hosted mark hash ⟨by decide, by decide⟩ (reads [] [] [])

variable {importKeySet : Json → Imported κ} {w : Provider κ}
variable {history : List (Event (Provider κ) OidcAction)}

/-- In every run of the provider client, for a mode that `begin_login` takes: either the provider fails
every login alike, or every login gets a URL on the provider's host that adds its fields to one
validated endpoint, and the provider reads these fields of every such URL, all of them and no others, exactly
where the endpoint has no question mark and no number sign, an empty query or fragment included. -/
theorem authorization_read_iff (svc : AuthService U) (mode : Str) (now : Clock) (answer : Answer)
    (allowed : svc.modeAllowed mode = true)
    (run : Run (Provider.Step U svc.settings importKeySet) Provider.init history w) :
    (∃ error, ∀ state nonce codeChallenge,
      svc.buildAuthorizationUrl w.client state nonce codeChallenge mode now answer =
        .error (.provider error)) ∨
    ∃ endpoint, Fits U svc.settings endpoint ∧ (∀ state nonce codeChallenge,
        svc.buildAuthorizationUrl w.client state nonce codeChallenge mode now answer =
          .ok (authorizationUrl endpoint svc.profile state nonce codeChallenge) ∧
        OnHost U svc.settings (authorizationUrl endpoint svc.profile state nonce codeChallenge)) ∧
      ((∀ state nonce codeChallenge,
        formOf U (authorizationUrl endpoint svc.profile state nonce codeChallenge) =
          some (authorizationParams svc.profile state nonce codeChallenge)) ↔ Unmarked endpoint) := by
  rcases buildAuthorizationUrl_cases (Provider.run_remembered run) allowed with
    ⟨endpoint, fits, built⟩ | ⟨error, failed⟩
  · refine .inr ⟨endpoint, fits, fun state nonce codeChallenge =>
      ⟨built state nonce codeChallenge, ?_⟩, ?_⟩
    · exact fits.onHost _
    · constructor
      · exact unmarked_of_formOf fits svc.profile
      · exact fun unmarked => formOf_authorizationUrl fits unmarked svc.profile
  · exact .inl ⟨error, failed⟩

theorem authorization_read_sample : formOf Settings.asciiPlatform
    (authorizationUrl "https://id.example/authorize".toList Settings.sampleProfile "s".toList "n".toList
      "c".toList) =
      some (authorizationParams Settings.sampleProfile "s".toList "n".toList "c".toList) := by
  rcases authorization_read_iff sampleService "login".toList (seconds 10) .raises (by decide)
      Provider.discovery_run with ⟨error, failed⟩ | ⟨endpoint, _, built, reads⟩
  · cases failed [] [] []
  · have known : sampleService.buildAuthorizationUrl Provider.discoveryEnd.client [] [] [] "login".toList
        (seconds 10) .raises =
          .ok (authorizationUrl "https://id.example/authorize".toList Settings.sampleProfile [] [] []) := rfl
    have same : endpoint = "https://id.example/authorize".toList :=
      List.append_cancel_right (Except.ok.inj ((built [] [] []).1.symm.trans known))
    rw [same] at reads
    exact reads.mpr ⟨by decide, by decide⟩ _ _ _

end Reading

end TplBackend
