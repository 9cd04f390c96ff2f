import TplBackend.Auth.Service

namespace TplBackend

open Raise Text Url

variable {U : Platform}

def AuthError.isApp : AuthError → Bool
  | .unauthorized .. | .forbidden .. => true
  | _ => false

/-- `auth_clock_skew_seconds` -/
structure ClockSkew where
  seconds : Int
  bounds : 0 ≤ seconds ∧ seconds ≤ 120

/-- `JWTClaimsRegistry` with the options of `verify_id_token`. -/
structure ClaimsRegistry where
  validate : (issuer nonce : Str) → ClockSkew → Claims → Int → Bool
  exp : ∀ issuer nonce skew claims now, validate issuer nonce skew claims now = true →
    ∃ n, Json.item claims "exp" = .ok (.int n) ∧ now - skew.seconds ≤ n
  iat : ∀ issuer nonce skew claims now, validate issuer nonce skew claims now = true →
    ∃ n, Json.item claims "iat" = .ok (.int n) ∧ n ≤ now + skew.seconds

namespace Json

def isText (text : Str) : Json → Bool
  | .str other => other = text
  | _ => false

def int? : Json → Option Int
  | .int n => some n
  | _ => none

/-- Whether an `aud` claim is the client. -/
def isAudience (clientId : Str) : Json → Bool
  | .arr [item] => item.isText clientId
  | value => value.isText clientId

def isNamed : Json → Bool
  | .str text => strip text ≠ []
  | _ => false

end Json

/-- `verify_id_token`, once the signature is decoded. -/
def verifyIdToken (registry : ClaimsRegistry) (profile : BrowserSurfaceProfile) (issuer nonce : Str)
    (skew : ClockSkew) (claims : Claims) (now : Clock) : Except AuthError Claims := do
  require ((Json.get claims "iss").isText issuer = true)
    (AuthError.unauthorized "The identity token issuer is invalid" "issuer_mismatch")
  require ((Json.get claims "aud").isAudience profile.clientId = true)
    (AuthError.unauthorized "The identity token audience is invalid" "audience_mismatch")
  require (registry.validate issuer nonce skew claims (wholeSeconds now) = true)
    (AuthError.unauthorized "The identity token is invalid" "token_invalid")
  require ((Json.get claims "sub").isNamed = true)
    (AuthError.unauthorized "The identity token is invalid" "token_invalid")
  return claims

namespace AuthService

end AuthService

/-- Whether `datetime.fromtimestamp` takes the epoch. -/
def DatedEpoch (epoch : Int) : Prop := -62135596800 ≤ epoch ∧ epoch ≤ 253402300799

structure SessionFits (svc : AuthService U) (user : UpsertUser) (issuedAt expiresAt : Int) : Prop where
  order : issuedAt < expiresAt
  issued : DatedEpoch issuedAt
  expires : DatedEpoch expiresAt
  subject : Principal.sized 1 512 user.subject = true
  issuer : Principal.sized 1 2048 user.issuer = true
  app : Principal.appMatches svc.settings.appSlug = true
  audience : Principal.sized 1 512 svc.profile.clientId = true
  policyVersion : Principal.sized 1 64 svc.profile.policyVersion = true
  roles : Principal.withinContract (Principal.normalize user.roles) = true
  scopes : Principal.withinContract (Principal.normalize user.scopes) = true

section Principals

variable {svc : AuthService U} {py : Builtins} {claims : Claims} {now : Clock}
variable {issuer subject : Str} {user : UpsertUser}

theorem fromTimestamp_iff {epoch : Int} {clock : Clock} :
    fromTimestamp epoch = .ok clock ↔ DatedEpoch epoch ∧ clock = seconds epoch := by
  unfold fromTimestamp
  split
  · rename_i dated
    exact ⟨fun made => ⟨dated, (Except.ok.inj made).symm⟩, fun made => by rw [made.2]⟩
  · rename_i undated
    exact ⟨fun made => (by cases made), fun made => absurd made.1 undated⟩

theorem seconds_le {first second : Int} : seconds first ≤ seconds second ↔ first ≤ second := by
  unfold seconds
  omega

theorem orNone_all (text : Str) (limit : Nat) :
    (orNone (text.take limit)).all (Principal.sized 0 limit) = true := by
  unfold orNone
  split
  · rfl
  · simp [Principal.sized]

theorem loadOrCreateUser_ok {profile : BrowserSurfaceProfile}
    (loaded : loadOrCreateUser py profile issuer subject claims = .ok user) :
    user.issuer = issuer ∧ user.subject = subject ∧
      user.displayName.all (Principal.sized 0 256) = true ∧
      user.email.all (Principal.sized 0 320) = true := by
  simp only [loadOrCreateUser, bind_ok, pure_ok] at loaded
  obtain ⟨_, _, _, _, rfl⟩ := loaded
  exact ⟨rfl, rfl, orNone_all _ _, orNone_all _ _⟩

variable {draft : Draft} {id : Uuid}

theorem validate_ok {p valid : Principal} : p.validate = .ok valid ↔
    ((Principal.sized 1 512 p.subject && Principal.sized 1 2048 p.issuer && Principal.appMatches p.app &&
      Principal.sized 1 512 p.audience && p.displayName.all (Principal.sized 0 256) &&
      p.email.all (Principal.sized 0 320) && Principal.sized 1 64 p.policyVersion) = true ∧
      Principal.withinContract (Principal.normalize p.roles) = true ∧
      Principal.withinContract (Principal.normalize p.scopes) = true ∧
      p.authenticatedAt < p.expiresAt) ∧
      { p with roles := Principal.normalize p.roles, scopes := Principal.normalize p.scopes } = valid := by
  unfold Principal.validate
  split_ifs with texts roles scopes order
  · exact ⟨fun made => (by cases made), fun made => by simp [made.1.1] at texts⟩
  · exact ⟨fun made => (by cases made), fun made => by simp [made.1.2.1] at roles⟩
  · exact ⟨fun made => (by cases made), fun made => by simp [made.1.2.2.1] at scopes⟩
  · exact ⟨fun made => (by cases made), fun made => absurd order (not_le.mpr made.1.2.2.2)⟩
  · rw [Except.ok.injEq]
    exact ⟨fun same => ⟨⟨by simpa using texts, by simpa using roles, by simpa using scopes,
      not_le.mp order⟩, same⟩, And.right⟩

theorem validate_error {p : Principal} {raised : AuthError} (failed : p.validate = .error raised) :
    raised.isApp = false := by
  unfold Principal.validate at failed
  split_ifs at failed <;> cases failed <;> rfl

theorem principalOf_fits {p : Principal} (made : svc.principalOf draft id = .ok p) :
    p.authenticatedAt = seconds draft.issuedAt ∧ p.expiresAt = seconds draft.expiresAtEpoch ∧
      SessionFits svc draft.user draft.issuedAt draft.expiresAtEpoch := by
  simp only [AuthService.principalOf, bind_ok, fromTimestamp_iff, validate_ok] at made
  obtain ⟨_, ⟨issued, rfl⟩, _, ⟨expires, rfl⟩, ⟨texts, roles, scopes, order⟩, rfl⟩ := made
  simp only [Bool.and_eq_true] at texts
  obtain ⟨⟨⟨⟨⟨⟨subject, issuer⟩, app⟩, audience⟩, _⟩, _⟩, policyVersion⟩ := texts
  have earlier : draft.issuedAt < draft.expiresAtEpoch :=
    not_le.mp fun late => absurd order (not_lt.mpr (seconds_le.mpr late))
  exact ⟨rfl, rfl, earlier, issued, expires, subject, issuer, app, audience, policyVersion, roles,
    scopes⟩

theorem principalOf_of_fits (fits : SessionFits svc draft.user draft.issuedAt draft.expiresAtEpoch)
    (displayName : draft.user.displayName.all (Principal.sized 0 256) = true)
    (email : draft.user.email.all (Principal.sized 0 320) = true) (id : Uuid) :
    ∃ p, svc.principalOf draft id = .ok p := by
  simp only [AuthService.principalOf, bind_ok, fromTimestamp_iff, validate_ok]
  have order : seconds draft.issuedAt < seconds draft.expiresAtEpoch :=
    not_le.mp fun late => absurd fits.order (not_lt.mpr (seconds_le.mp late))
  refine ⟨_, _, ⟨fits.issued, rfl⟩, _, ⟨fits.expires, rfl⟩, ⟨?_, fits.roles, fits.scopes, order⟩, rfl⟩
  simp [fits.subject, fits.issuer, fits.app, fits.audience, displayName, email, fits.policyVersion]

theorem fromTimestamp_error {epoch : Int} {raised : AuthError}
    (failed : fromTimestamp epoch = .error raised) : raised.isApp = false := by
  unfold fromTimestamp at failed
  split at failed <;> cases failed
  rfl

theorem principalOf_error {raised : AuthError} (failed : svc.principalOf draft id = .error raised) :
    raised.isApp = false := by
  simp only [AuthService.principalOf, bind_error] at failed
  obtain failed | ⟨_, _, failed | ⟨_, _, failed⟩⟩ := failed
  · exact fromTimestamp_error failed
  · exact fromTimestamp_error failed
  · exact validate_error failed

theorem allowedClaims_error {values : List Json} {allowlist : List Str} {raised : AuthError}
    (failed : allowedClaims py values allowlist = .error raised) : raised = .external := by
  have candidates {values : List Json} (failed : values.mapM (claimCandidates py) = .error raised) :
      raised = .external := by
    induction values with
    | nil => cases failed
    | cons value values ih =>
        rw [List.mapM_cons, bind_error] at failed
        obtain failed | ⟨_, _, failed⟩ := failed
        · unfold claimCandidates at failed
          repeat' split at failed
          all_goals cases failed
          rfl
        · rw [bind_error] at failed
          obtain failed | ⟨_, _, failed⟩ := failed
          · exact ih failed
          · cases failed
  obtain failed | ⟨_, _, failed⟩ := bind_error.mp failed
  · exact candidates failed
  · cases failed

theorem loadOrCreateUser_error {profile : BrowserSurfaceProfile} {raised : AuthError}
    (failed : loadOrCreateUser py profile issuer subject claims = .error raised) :
    raised = .external := by
  simp only [loadOrCreateUser, bind_error] at failed
  obtain failed | ⟨_, _, failed | ⟨_, _, failed⟩⟩ := failed
  · exact allowedClaims_error failed
  · exact allowedClaims_error failed
  · cases failed

end Principals

section Tokens

variable {svc : AuthService U} {py : Builtins} {registry : ClaimsRegistry} {skew : ClockSkew}
variable {upsert : UpsertUser → Except AuthError Uuid} {claims verified : Claims} {now : Clock}
variable {issuer nonce : Str} {exp iat : Int}

theorem item_of_get {name : String} {value : Json} (some_ : value ≠ .null)
    (found : Json.get claims name = value) : Json.item claims name = .ok value := by
  unfold Json.get at found
  unfold Json.item
  cases present : claims.lookup name.toList with
  | none =>
      rw [present] at found
      exact absurd found.symm some_
  | some other =>
      rw [present] at found
      exact congrArg Except.ok found

theorem eq_of_int? {n : Int} {value : Json} (number : value.int? = some n) : value = .int n := by
  cases value with
  | int other => exact congrArg Json.int (Option.some.inj number)
  | _ => cases number

def ClaimsRegistry.sample : ClaimsRegistry where
  validate := fun _ _ skew claims now =>
    (Json.get claims "exp").int?.any (fun n => decide (now - skew.seconds ≤ n)) &&
      (Json.get claims "iat").int?.any fun n => decide (n ≤ now + skew.seconds)
  exp := fun _ _ skew claims now valid => by
    obtain ⟨n, number, bound⟩ := (Option.any_eq_true _ _).mp (Bool.and_eq_true_iff.mp valid).1
    exact ⟨n, item_of_get (by simp) (eq_of_int? number), of_decide_eq_true bound⟩
  iat := fun _ _ skew claims now valid => by
    obtain ⟨n, number, bound⟩ := (Option.any_eq_true _ _).mp (Bool.and_eq_true_iff.mp valid).2
    exact ⟨n, item_of_get (by simp) (eq_of_int? number), of_decide_eq_true bound⟩

end Tokens

end TplBackend
