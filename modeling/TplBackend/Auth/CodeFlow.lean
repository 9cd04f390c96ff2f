import TplBackend.Auth.Once
import TplBackend.Library.Base64
import TplBackend.Oidc.Authorization

/-! The code of a provider that binds it to the request it was given for: which exchange it serves. -/

namespace TplBackend

open Keyed Percent Raise Text Transition Url

variable {U : Platform}

/-- `verifier.encode("ascii")` -/
def asciiBytes (text : Str) : List UInt8 := text.map fun c => UInt8.ofNat c.toNat

theorem asciiBytes_injective {first second : Str} (ascii : ∀ c ∈ first, isAscii c = true)
    (ascii' : ∀ c ∈ second, isAscii c = true) (same : asciiBytes first = asciiBytes second) :
    first = second := by
  have read {text : Str} (ascii : ∀ c ∈ text, isAscii c = true) :
      (asciiBytes text).map (fun byte => Char.ofNat byte.toNat) = text := by
    rw [asciiBytes, List.map_map]
    refine (List.map_congr_left fun c member => ?_).trans (List.map_id _)
    have small : c.toNat < 128 := by simpa [isAscii] using ascii c member
    have back : (UInt8.ofNat c.toNat).toNat = c.toNat := toNat_ofNat_byte (by omega)
    simp [back]
  rw [← read ascii, same, read ascii']

def pkceChallenge (sha256 : List UInt8 → List UInt8) (verifier : Str) : Str :=
  rstrip '=' (Base64.urlsafeB64encode (sha256 (asciiBytes verifier)))

/-- The fields of the request of `exchange_authorization_code`. -/
def tokenParams (profile : BrowserSurfaceProfile) (code codeVerifier : Str) : List (Str × Str) :=
  [("grant_type".toList, "authorization_code".toList),
    ("client_id".toList, profile.clientId),
    ("client_secret".toList, profile.clientSecret),
    ("code".toList, code),
    ("redirect_uri".toList, profile.redirectUri),
    ("code_verifier".toList, codeVerifier)]

def Login.tokenBody (login : Login U) : Str :=
  urlencode (tokenParams login.service.profile login.code login.codeVerifier)

structure CodeGrant where
  clientId : Str
  redirectUri : Str
  state : Str
  nonce : Str
  codeChallenge : Str

namespace CodeGrant

def ofForm (form : List (Str × Str)) : Option CodeGrant := do
  return {
    clientId := ← form.lookup "client_id".toList
    redirectUri := ← form.lookup "redirect_uri".toList
    state := ← form.lookup "state".toList
    nonce := ← form.lookup "nonce".toList
    codeChallenge := ← form.lookup "code_challenge".toList }

def ofUrl (U : Platform) (url : Str) : Option CodeGrant := (formOf U url).bind ofForm

/-- The provider takes the body of a token request for the code of this grant: the client and the
redirect URI are the ones the code was given for, and the verifier has the challenge of method S256. -/
def Serves (sha256 : List UInt8 → List UInt8) (grant : CodeGrant) (body : Str) : Prop :=
  (parseQsl body).lookup "client_id".toList = some grant.clientId ∧
    (parseQsl body).lookup "redirect_uri".toList = some grant.redirectUri ∧
    ((parseQsl body).lookup "code_verifier".toList).map
      (fun verifier => Base64.encode (sha256 (asciiBytes verifier))) = some grant.codeChallenge

end CodeGrant

def Collide (sha256 : List UInt8 → List UInt8) (first second : Str) : Prop :=
  asciiBytes first ≠ asciiBytes second ∧ sha256 (asciiBytes first) = sha256 (asciiBytes second)

/-- The client sends the browser of a `begin_login` to the URL, which adds to an endpoint with no query
and no fragment. -/
structure SentTo {κ : Type} (sha256 : List UInt8 → List UInt8) (client : OidcProviderClient κ)
    (b : Begin U) (url : Str) : Prop where
  built : ∃ mode now answer metadata endpoint,
    client.getMetadata U b.service.settings now answer = .ok metadata ∧
    b.service.authorizationEndpoint metadata mode = .ok endpoint ∧ Unmarked endpoint ∧
    b.service.buildAuthorizationUrl client b.state b.nonce (pkceChallenge sha256 b.codeVerifier) mode now
      answer = .ok url

section Sending

variable {sha256 : List UInt8 → List UInt8} {b : Begin U} {url : Str} {κ : Type}
variable {importKeySet : Json → Imported κ} {v : Provider κ} {past : List (Event (Provider κ) OidcAction)}

theorem SentTo.grant (provider : Run (Provider.Step U b.service.settings importKeySet) Provider.init past v)
    (sent : SentTo sha256 v.client b url) : CodeGrant.ofUrl U url = some {
      clientId := b.service.profile.clientId
      redirectUri := b.service.profile.redirectUri
      state := b.state
      nonce := b.nonce
      codeChallenge := pkceChallenge sha256 b.codeVerifier } := by
  obtain ⟨mode, now, answer, metadata, endpoint, got, chosen, unmarked, built⟩ := sent.built
  have fits := authorizationEndpoint_fits (getMetadata_fits (Provider.run_remembered provider) got) chosen
  rw [buildAuthorizationUrl_of_metadata got, chosen] at built
  rw [← Except.ok.inj built, CodeGrant.ofUrl, formOf_authorizationUrl fits unmarked, Option.bind_some]
  rfl

end Sending

namespace World

variable {py : Builtins} {sha256 : List UInt8 → List UInt8} {w : World U}
variable {history : List (Event (World U) (Action U))} {begun begun' event : Event (World U) (Action U)}
variable {b b' : Begin U} {url : Str} {κ : Type} {importKeySet : Json → Imported κ} {v : Provider κ}
variable {past : List (Event (Provider κ) OidcAction)}

theorem Begins.draws_state {a : Action U} (begins : Begins a b) : b.state ∈ a.secrets := by
  cases begins
  simp [Action.secrets]

theorem Begins.ascii {a : Action U} (begins : Begins a b) : ∀ c ∈ b.codeVerifier, isAscii c = true := by
  cases begins with
  | @begun call svc value mode returnTo transactionId state nonce codeVerifier now =>
      intro c member
      have safe := List.all_eq_true.mp codeVerifier.safe c member
      simp only [Bool.or_eq_true, beq_iff_eq] at safe
      rcases safe with ((letter | digit) | rfl) | rfl
      · exact isAscii_of_isLetter letter
      · exact isAscii_of_isDigit digit
      · rfl
      · rfl

theorem begins_once_state (run : Run (Step py) init history w) (member : begun ∈ history)
    (member' : begun' ∈ history) (begins : Begins begun.label b) (begins' : Begins begun'.label b')
    (same : b.state = b'.state) : b = b' := by
  obtain rfl := drawn_once run member member' begins.draws_state (same ▸ begins'.draws_state)
  exact begins.unique begins'

theorem exchange_redeems (run : Run (Step py) init history w) (present : event ∈ history)
    {code codeVerifier nonce : Str}
    (said : outcome py event = some (.exchanges code codeVerifier nonce)) :
    ∃ call login b, ∃ begun ∈ history, Begins begun.label b ∧ Redeems event call login b ∧
      login.code = code ∧ login.codeVerifier = codeVerifier ∧ login.nonce = nonce := by
  obtain ⟨front, rest, rfl, reached, step⟩ := run.of_mem present
  obtain ⟨call, login, enters, sent⟩ : ∃ call login,
      Enters py event.before event.label call (.exchanging login) ∧
      login.code = code ∧ login.codeVerifier = codeVerifier ∧ login.nonce = nonce := by
    have tells := (outcome_did step said).tells
    obtain ⟨before, label, after⟩ := event
    simp only at tells
    cases tells with
    | exchanges idle given checked => exact ⟨_, _, .exchanging idle given checked, rfl, rfl, rfl⟩
  obtain ⟨earlier, begun, between, b, rfl, begins, _, redeems⟩ := redeems_of_enters reached rfl enters
  exact ⟨call, login, b, begun, by simp, begins, redeems, sent⟩

theorem serves_iff {grant : CodeGrant} {login : Login U} : grant.Serves sha256 login.tokenBody ↔
    login.service.profile.clientId = grant.clientId ∧
    login.service.profile.redirectUri = grant.redirectUri ∧
    Base64.encode (sha256 (asciiBytes login.codeVerifier)) = grant.codeChallenge := by
  rw [CodeGrant.Serves, Login.tokenBody, parseQsl_urlencode]
  have clientId : (tokenParams login.service.profile login.code login.codeVerifier).lookup
      "client_id".toList = some login.service.profile.clientId := rfl
  have redirectUri : (tokenParams login.service.profile login.code login.codeVerifier).lookup
      "redirect_uri".toList = some login.service.profile.redirectUri := rfl
  have verifier : (tokenParams login.service.profile login.code login.codeVerifier).lookup
      "code_verifier".toList = some login.codeVerifier := rfl
  rw [clientId, redirectUri, verifier, Option.map_some, Option.some_inj, Option.some_inj, Option.some_inj]

theorem challenge_iff (run : Run (Step py) init history w) (member : begun ∈ history)
    (member' : begun' ∈ history) (begins : Begins begun.label b) (begins' : Begins begun'.label b') :
    Base64.encode (sha256 (asciiBytes b'.codeVerifier)) =
        Base64.encode (sha256 (asciiBytes b.codeVerifier)) ↔
      b' = b ∨ Collide sha256 b'.codeVerifier b.codeVerifier := by
  constructor
  · intro same
    by_cases bytes : asciiBytes b'.codeVerifier = asciiBytes b.codeVerifier
    · have verifiers := asciiBytes_injective begins'.ascii begins.ascii bytes
      exact .inl (begins_once run member' member begins' begins (.inl verifiers))
    · exact .inr ⟨bytes, Base64.encode_injective same⟩
  · rintro (rfl | collide)
    · rfl
    · rw [collide.2]

/-- In every run, at a URL that a login sends the browser to: the provider keeps that login's state and
nonce; an exchange is made with that nonce, or for a callback with that state, only by the completion
that redeems this login's own transaction; and the provider serves the code of the URL to an exchange
exactly if the client and the redirect URI are unchanged and the exchange is this login's, or its
verifier, of another login of the run, collides with this one. -/
theorem code_of_own_login (run : Run (Step py) init history w) (member : begun ∈ history)
    (begins : Begins begun.label b)
    (provider : Run (Provider.Step U b.service.settings importKeySet) Provider.init past v)
    (sent : SentTo sha256 v.client b url) : ∃ grant, CodeGrant.ofUrl U url = some grant ∧
      ∀ event ∈ history, ∀ code codeVerifier nonce,
        outcome py event = some (.exchanges code codeVerifier nonce) →
        ∃ call login b', ∃ begun' ∈ history, Begins begun'.label b' ∧ Redeems event call login b' ∧
          login.code = code ∧ login.codeVerifier = codeVerifier ∧ login.nonce = nonce ∧
          (grant.nonce = nonce ↔ b' = b) ∧ (grant.state = b'.state ↔ b' = b) ∧
          (grant.Serves sha256 login.tokenBody ↔
            login.service.profile.clientId = b.service.profile.clientId ∧
            login.service.profile.redirectUri = b.service.profile.redirectUri ∧
            (b' = b ∨ Collide sha256 b'.codeVerifier b.codeVerifier)) := by
  refine ⟨_, sent.grant provider, fun event present code codeVerifier nonce said => ?_⟩
  obtain ⟨call, login, b', begun', member', begins', redeems, codes, verifiers, nonces⟩ :=
    exchange_redeems run present said
  refine ⟨call, login, b', begun', member', begins', redeems, codes, verifiers, nonces, ?_, ?_, ?_⟩
  · constructor
    · intro same
      exact begins_once run member' member begins' begins
        (.inr (redeems.nonce.symm.trans (nonces.trans same.symm)))
    · rintro rfl
      exact redeems.nonce.symm.trans nonces
  · constructor
    · intro same
      exact begins_once_state run member' member begins' begins same.symm
    · rintro rfl
      rfl
  · rw [serves_iff, pkceChallenge, Base64.rstrip_urlsafeB64encode, redeems.codeVerifier,
      challenge_iff run member member' begins begins']

section Sample

def sampleSha256 (bytes : List UInt8) : List UInt8 :=
  if bytes = asciiBytes (List.replicate 86 'd') then
    [89, 213, 194, 66, 54, 145, 100, 76, 247, 23, 90, 82, 177, 116, 177, 110, 74, 74, 34, 54, 131, 191,
      70, 173, 12, 24, 230, 174, 58, 63, 61, 184]
  else if bytes = asciiBytes (List.replicate 86 'h') then
    [11, 153, 168, 0, 174, 75, 177, 5, 69, 83, 187, 55, 203, 239, 54, 41, 105, 103, 93, 166, 44, 40, 244,
      124, 50, 202, 232, 252, 78, 223, 73, 253]
  else []

def codeSteps : List (Action Settings.asciiPlatform) :=
  [.beginLogin 0 sampleService none "login".toList (letterSecret 0 43) (letterSecret 1 43)
      (letterSecret 2 43) (letterSecret 3 86) 0,
    .linked 0 true,
    .beginLogin 1 sampleService none "login".toList (letterSecret 4 43) (letterSecret 5 43)
      (letterSecret 6 43) (letterSecret 7 86) (seconds 1),
    .linked 1 true,
    .completeLogin 2 sampleService "code".toList (List.replicate 43 'b') (some (List.replicate 43 'a'))
      (seconds 10)]

theorem codeSteps_taken : ∀ event ∈ events sampleBuiltins codeSteps, Taken sampleBuiltins event := by
  decide

def secondUrl : Str :=
  authorizationUrl "https://id.example/authorize".toList Settings.sampleProfile (List.replicate 43 'f')
    (List.replicate 43 'g') (pkceChallenge sampleSha256 (List.replicate 86 'h'))

def secondBegin : Begin Settings.asciiPlatform where
  service := sampleService
  transactionId := List.replicate 43 'e'
  state := List.replicate 43 'f'
  nonce := List.replicate 43 'g'
  codeVerifier := List.replicate 86 'h'
  returnTo := "/home".toList
  now := seconds 1

theorem second_sent : SentTo sampleSha256 Provider.discoveryEnd.client secondBegin secondUrl where
  built := ⟨"login".toList, seconds 10, .raises, _, _, rfl, rfl, ⟨by decide, by decide⟩, rfl⟩

/-- The code of the second login is of no use to the callback of the first. -/
theorem code_of_own_login_sample : ∃ grant, CodeGrant.ofUrl Settings.asciiPlatform secondUrl = some grant ∧
    ∃ login : Login Settings.asciiPlatform, login.codeVerifier = List.replicate 86 'd' ∧
      ¬ grant.Serves sampleSha256 login.tokenBody := by
  have begins : Begins (events sampleBuiltins codeSteps)[2].label secondBegin := .begun rfl rfl
  obtain ⟨grant, kept, exchanges⟩ := code_of_own_login (events_run _ _ codeSteps_taken)
    (List.getElem_mem _) begins Provider.discovery_run second_sent
  obtain ⟨call, login, b', _, _, _, redeems, _, verifier, _, _, _, serves⟩ :=
    exchanges (events sampleBuiltins codeSteps)[4] (List.getElem_mem _) "code".toList
      (List.replicate 86 'd') (List.replicate 43 'c') rfl
  refine ⟨grant, kept, login, verifier, fun served => ?_⟩
  have first : b'.codeVerifier = List.replicate 86 'd' := redeems.codeVerifier.symm.trans verifier
  rcases (serves.mp served).2.2 with second | collide
  · rw [second] at first
    exact absurd first (by decide)
  · rw [first] at collide
    exact absurd collide.2 (by decide)

end Sample

end World

end TplBackend
