import TplBackend.Auth.Principal
import TplBackend.Library.Raise

namespace TplBackend

open Raise Text Url

variable {U : Platform}

/-- The authentication kernel of one surface: its profile is the one its settings give. -/
structure AuthService (U : Platform) where
  settings : Settings
  profile : BrowserSurfaceProfile
  built : settings.browserProfile U profile.surface = .ok profile

/-- A text drawn by `secrets.token_urlsafe`, `length` characters long. -/
structure Secret (length : Nat) where
  text : Str
  length_eq : text.length = length
  safe : text.all (fun c => isLetter c || isDigit c || c == '-' || c == '_') = true

/-- What `begin_login` stores under a transaction key. -/
structure Transaction where
  surface : BrowserSurface
  state : Str
  nonce : Str
  codeVerifier : Str
  returnTo : Str
  createdAt : Int

/-- `int(time.time())` -/
def wholeSeconds (now : Clock) : Int := now.tdiv 1000000

/-- `datetime.fromtimestamp(epoch, tz=UTC)` -/
def fromTimestamp (epoch : Int) : Except AuthError Clock :=
  if -62135596800 ≤ epoch ∧ epoch ≤ 253402300799 then .ok (seconds epoch)
  else .error (.valueError "year is out of range")

/-- What `_principal_from_verified_claims` knows once it calls the user directory. -/
structure Draft where
  user : UpsertUser
  issuedAt : Int
  expiresAtEpoch : Int

namespace AuthService

variable (svc : AuthService U)

def surface : BrowserSurface := svc.profile.surface

def transactionKey (transactionId : Str) : Str := svc.profile.transactionKeyPrefix ++ transactionId

def sessionKey (sessionId : Str) : Str := svc.profile.sessionKeyPrefix ++ sessionId

def transactionError : AuthError :=
  .unauthorized "The login transaction is invalid" "oidc_transaction_invalid"

/-- `_normalize_return_to`; only the splitting of an accepted value may raise. -/
def normalizeReturnTo (value : Option Str) : Except String Str :=
  match value with
  | none | some [] => .ok svc.profile.defaultReturnTo
  | some value =>
    match Settings.validateRelativePath value "return_to" with
    | .error _ => .ok svc.profile.defaultReturnTo
    | .ok normalized => do
      let allowed ← svc.profile.allowedReturnPaths.anyM (Settings.pathIsAllowed U normalized)
      return if allowed then normalized else svc.profile.defaultReturnTo

/-- Whether `begin_login` takes this mode. -/
def modeAllowed (mode : Str) : Bool :=
  mode == "login".toList || (mode == "signup".toList && svc.surface == .web)

/-- Whether the `owner` claim is a text and an organization that may sign in. -/
def ownerAllowed (claims : Claims) : Bool :=
  match Json.get claims "owner" with
  | .str organization => organization ∈ svc.settings.allowedOrganizations svc.surface
  | _ => false

/-- `_principal_from_verified_claims` up to the call of the user directory. -/
def principalDraft (py : Builtins) (claims : Claims) (now : Clock) : Except AuthError Draft := do
  let issuer := py.text (← Json.item claims "iss")
  let subject := py.text (← Json.item claims "sub")
  let providerExp ← py.number (← Json.item claims "exp")
  let issuedAt ← py.number (← Json.item claims "iat")
  let expiresAtEpoch := min providerExp (wholeSeconds now + svc.settings.sessionTtlSeconds)
  require (wholeSeconds now < expiresAtEpoch)
    (AuthError.unauthorized "The identity token is invalid" "token_invalid")
  require (svc.ownerAllowed claims = true)
    (AuthError.forbidden "This account cannot sign in here" "organization_not_allowed")
  let user ← loadOrCreateUser py svc.profile issuer subject claims
  return { user, issuedAt, expiresAtEpoch }

/-- The principal of the row that the user directory returned: its `id` and the columns it was
given. -/
def principalOf (draft : Draft) (id : Uuid) : Except AuthError Principal := do
  let authenticatedAt ← fromTimestamp draft.issuedAt
  let expiresAt ← fromTimestamp draft.expiresAtEpoch
  Principal.validate {
    subject := draft.user.subject
    issuer := draft.user.issuer
    app := svc.settings.appSlug
    surface := svc.surface
    audience := svc.profile.clientId
    actorId := id
    displayName := draft.user.displayName
    email := draft.user.email
    roles := draft.user.roles
    scopes := draft.user.scopes
    authenticatedAt
    expiresAt
    policyVersion := svc.profile.policyVersion }

/-- Whether `app`, `surface`, `audience` and `policy_version` of a principal are the current ones. -/
def matchesProfile (p : Principal) : Bool :=
  p.app == svc.settings.appSlug && p.surface == svc.surface &&
    p.audience == svc.profile.clientId && p.policyVersion == svc.profile.policyVersion

variable {svc}

theorem prefixes (svc : AuthService U) :
    svc.profile.sessionKeyPrefix =
      svc.settings.appSlug ++ ":auth:".toList ++ svc.surface.text ++ ":session:".toList ∧
    svc.profile.transactionKeyPrefix =
      svc.settings.appSlug ++ ":auth:".toList ++ svc.surface.text ++ ":oidc:".toList := by
  have built := svc.built
  simp only [Settings.browserProfile, bind_ok, require_ok, pure_ok] at built
  obtain ⟨_, _, _, _, _, _, _, _, _, _, _, _, _, _, same⟩ := built
  rw [← same]
  exact ⟨rfl, rfl⟩

def storeKey (slug surface family id : Str) : Str :=
  slug ++ ':' :: ("auth".toList ++ ':' :: (surface ++ ':' :: (family ++ ':' :: id)))

theorem storeKey_injective {slug slug' surface surface' family family' id id' : Str}
    (free : ':' ∉ slug ∧ ':' ∉ surface ∧ ':' ∉ family)
    (free' : ':' ∉ slug' ∧ ':' ∉ surface' ∧ ':' ∉ family')
    (same : storeKey slug surface family id = storeKey slug' surface' family' id') :
    slug = slug' ∧ surface = surface' ∧ family = family' ∧ id = id' := by
  obtain ⟨slugs, same⟩ := split_at_first free.1 free'.1 same
  obtain ⟨_, same⟩ := split_at_first (by decide) (by decide) same
  obtain ⟨surfaces, same⟩ := split_at_first free.2.1 free'.2.1 same
  obtain ⟨families, ids⟩ := split_at_first free.2.2 free'.2.2 same
  exact ⟨slugs, surfaces, families, ids⟩

theorem appSlug_free (settings : Settings) : ':' ∉ settings.appSlug := by
  intro member
  have passed := List.all_eq_true.mp settings.appSlug_chars.2 ':' member
  exact absurd passed (by decide)

theorem surface_text_free (surface : BrowserSurface) : ':' ∉ surface.text := by
  cases surface <;> decide

theorem surface_text_injective {first second : BrowserSurface} (same : first.text = second.text) :
    first = second := by
  cases first <;> cases second <;> first | rfl | exact absurd same (by decide)

theorem transactionKey_eq (svc : AuthService U) (id : Str) : svc.transactionKey id =
    storeKey svc.settings.appSlug svc.surface.text "oidc".toList id := by
  rw [transactionKey, (prefixes svc).2]
  simp [storeKey]

theorem sessionKey_eq (svc : AuthService U) (id : Str) : svc.sessionKey id =
    storeKey svc.settings.appSlug svc.surface.text "session".toList id := by
  rw [sessionKey, (prefixes svc).1]
  simp [storeKey]

variable {svc' : AuthService U} {id id' : Str}

theorem transactionKey_injective (same : svc.transactionKey id = svc'.transactionKey id') :
    svc.settings.appSlug = svc'.settings.appSlug ∧ svc.surface = svc'.surface ∧ id = id' := by
  rw [transactionKey_eq, transactionKey_eq] at same
  obtain ⟨slugs, surfaces, _, ids⟩ := storeKey_injective
    ⟨appSlug_free _, surface_text_free _, by decide⟩
    ⟨appSlug_free _, surface_text_free _, by decide⟩ same
  exact ⟨slugs, surface_text_injective surfaces, ids⟩

theorem sessionKey_injective (same : svc.sessionKey id = svc'.sessionKey id') :
    svc.settings.appSlug = svc'.settings.appSlug ∧ svc.surface = svc'.surface ∧ id = id' := by
  rw [sessionKey_eq, sessionKey_eq] at same
  obtain ⟨slugs, surfaces, _, ids⟩ := storeKey_injective
    ⟨appSlug_free _, surface_text_free _, by decide⟩
    ⟨appSlug_free _, surface_text_free _, by decide⟩ same
  exact ⟨slugs, surface_text_injective surfaces, ids⟩

theorem transactionKey_ne_sessionKey (svc svc' : AuthService U) (id id' : Str) :
    svc.transactionKey id ≠ svc'.sessionKey id' := by
  intro same
  rw [transactionKey_eq, sessionKey_eq] at same
  obtain ⟨_, _, families, _⟩ := storeKey_injective
    ⟨appSlug_free _, surface_text_free _, by decide⟩
    ⟨appSlug_free _, surface_text_free _, by decide⟩ same
  exact absurd families (by decide)

/-- `browser_profile` checks its default against its own allowlist. -/
theorem default_allowed (svc : AuthService U) :
    ['/'] <+: svc.profile.defaultReturnTo ∧
      (∀ field, Settings.validateRelativePath svc.profile.defaultReturnTo field =
        .ok svc.profile.defaultReturnTo) ∧
      svc.profile.allowedReturnPaths.anyM (Settings.pathIsAllowed U svc.profile.defaultReturnTo) =
        .ok true := by
  have built := svc.built
  simp only [Settings.browserProfile, bind_ok, require_ok, pure_ok] at built
  obtain ⟨_, _, _, _, _, _, value, valid, _, _, allowed, ran, _, rfl, same⟩ := built
  obtain ⟨safe, rfl⟩ := Settings.validateRelativePath_ok.mp valid
  rw [← same]
  exact ⟨safe.1, fun field => Settings.validateRelativePath_ok.mpr ⟨safe, rfl⟩, ran⟩

/-- A value that `_normalize_return_to` keeps: a safe relative path that is allowed. -/
def Keeps (svc : AuthService U) (text : Str) : Prop :=
  text ≠ [] ∧ Settings.validateRelativePath text "return_to" = .ok text ∧
    svc.profile.allowedReturnPaths.anyM (Settings.pathIsAllowed U text) = .ok true

/-- `urlsplit` takes the value where it is a safe relative path, so nothing raises. -/
def Splits (U : Platform) (value : Option Str) : Prop :=
  ∀ text, value = some text → Settings.validateRelativePath text "return_to" = .ok text →
    (urlsplit U text).isSome = true

theorem allowed_some (svc : AuthService U) : svc.profile.allowedReturnPaths ≠ [] := by
  intro none_
  have matched := (default_allowed svc).2.2
  rw [none_] at matched
  cases matched

theorem pathIsAllowed_of_splits {text : Str} (splits : (urlsplit U text).isSome = true)
    (allowed : List Str) : ∃ kept, allowed.anyM (Settings.pathIsAllowed U text) = .ok kept := by
  obtain ⟨parsed, split⟩ := Option.isSome_iff_exists.mp splits
  have compared (path : Str) : Settings.pathIsAllowed U text path =
      .ok (Settings.pathWithin parsed.path path) := by
    rw [Settings.pathIsAllowed, split]
    rfl
  induction allowed with
  | nil => exact ⟨false, rfl⟩
  | cons path allowed ih =>
      rw [List.anyM, compared]
      cases Settings.pathWithin parsed.path path with
      | true => exact ⟨true, rfl⟩
      | false => exact ih

theorem splits_of_pathIsAllowed {text : Str} {allowed : List Str} {kept : Bool} (some_ : allowed ≠ [])
    (ran : allowed.anyM (Settings.pathIsAllowed U text) = .ok kept) :
    (urlsplit U text).isSome = true := by
  obtain ⟨path, allowed, rfl⟩ := List.exists_cons_of_ne_nil some_
  cases split : urlsplit U text with
  | some parsed => rfl
  | none =>
      rw [List.anyM, Settings.pathIsAllowed, split] at ran
      cases ran

theorem normalizeReturnTo_ok_iff (svc : AuthService U) (value : Option Str) :
    (∃ returnTo, svc.normalizeReturnTo value = .ok returnTo) ↔ Splits U value := by
  unfold normalizeReturnTo
  split
  · exact iff_of_true ⟨_, rfl⟩ (by rintro _ ⟨⟩)
  · refine iff_of_true ⟨_, rfl⟩ ?_
    rintro _ ⟨⟩ valid
    exact absurd (Settings.validateRelativePath_ok.mp valid).1.1 (by decide)
  · next text _ =>
    split
    · next failed =>
      refine iff_of_true ⟨_, rfl⟩ ?_
      rintro _ ⟨⟩ valid
      rw [failed] at valid
      cases valid
    · next accepted valid =>
      obtain ⟨_, rfl⟩ := Settings.validateRelativePath_ok.mp valid
      constructor
      · rintro ⟨returnTo, normalized⟩ _ ⟨⟩ _
        obtain ⟨kept, ran, _⟩ := bind_ok.mp normalized
        exact splits_of_pathIsAllowed (allowed_some svc) ran
      · intro splits
        obtain ⟨kept, ran⟩ := pathIsAllowed_of_splits (splits _ rfl valid) svc.profile.allowedReturnPaths
        exact ⟨_, bind_ok.mpr ⟨kept, ran, rfl⟩⟩

theorem normalizeReturnTo_cases {value : Option Str} {returnTo : Str}
    (normalized : svc.normalizeReturnTo value = .ok returnTo) :
    returnTo = svc.profile.defaultReturnTo ∨ value = some returnTo ∧ svc.Keeps returnTo := by
  unfold normalizeReturnTo at normalized
  split at normalized
  · exact Or.inl (Except.ok.inj normalized).symm
  · exact Or.inl (Except.ok.inj normalized).symm
  · rename_i text some_
    split at normalized
    · exact Or.inl (Except.ok.inj normalized).symm
    · rename_i accepted valid
      have same := (Settings.validateRelativePath_ok.mp valid).2
      subst same
      rw [bind_ok] at normalized
      obtain ⟨allowed, ran, chosen⟩ := normalized
      rw [pure_ok] at chosen
      cases allowed with
      | false => exact Or.inl chosen.symm
      | true =>
          subst chosen
          exact Or.inr ⟨rfl, by simpa using some_, valid, ran⟩

theorem normalizeReturnTo_of_keeps {text : Str} (keeps : svc.Keeps text) :
    svc.normalizeReturnTo (some text) = .ok text := by
  obtain ⟨some_, valid, allowed⟩ := keeps
  unfold normalizeReturnTo
  split
  · rename_i none_
    cases none_
  · rename_i empty
    exact absurd (Option.some.inj empty) some_
  · rename_i other _ same
    cases same
    simp only [valid, allowed]
    rfl

theorem default_keeps (svc : AuthService U) : svc.Keeps svc.profile.defaultReturnTo := by
  obtain ⟨start, valid, allowed⟩ := default_allowed svc
  refine ⟨fun empty => ?_, valid _, allowed⟩
  rw [empty] at start
  exact absurd start (by decide)

theorem normalizeReturnTo_idempotent {value : Option Str} {returnTo : Str}
    (normalized : svc.normalizeReturnTo value = .ok returnTo) :
    svc.normalizeReturnTo (some returnTo) = .ok returnTo := by
  rcases normalizeReturnTo_cases normalized with rfl | ⟨_, keeps⟩
  · exact normalizeReturnTo_of_keeps (default_keeps svc)
  · exact normalizeReturnTo_of_keeps keeps

theorem eq_of_settings (settings : svc.settings = svc'.settings) (surface : svc.surface = svc'.surface) :
    svc = svc' := by
  obtain ⟨settings, profile, built⟩ := svc
  obtain ⟨settings', profile', built'⟩ := svc'
  subst settings
  rw [show profile.surface = profile'.surface from surface] at built
  obtain rfl := Except.ok.inj (built.symm.trans built')
  rfl

end AuthService

def sampleService : AuthService Settings.asciiPlatform where
  settings := Settings.sampleSettings
  profile := Settings.sampleProfile
  built := Settings.browserProfile_sample

def sampleSecret (c : Char) (length : Nat) (safe : isLetter c = true) : Secret length where
  text := List.replicate length c
  length_eq := List.length_replicate
  safe := by simp [safe]

theorem isLetter_lower (letter : Nat) : isLetter (Char.ofNat (97 + letter % 26)) = true := by
  have each : ∀ letter : Fin 26, isLetter (Char.ofNat (97 + letter)) = true := by decide
  exact each ⟨letter % 26, Nat.mod_lt _ (by decide)⟩

def letterSecret (letter length : Nat) : Secret length :=
  sampleSecret (Char.ofNat (97 + letter % 26)) length (isLetter_lower letter)

end TplBackend
