import TplBackend.Auth.Authority
import TplBackend.Auth.Failures

/-! The requests that the session and scope dependencies of the routes let through. -/

namespace TplBackend

open Keyed Raise Text Transition Url

variable {U : Platform}

/-- `_session`, with what `get_browser_session` returned. -/
def AuthService.admit (svc : AuthService U) (upper : Str → Str) (found : Option BrowserSession)
    (method : Str) (origin csrfToken : Option Str) : Except AuthError BrowserSession := do
  let session ← expect found (AuthError.unauthorized "Authentication is required" "auth_required")
  svc.validateCsrf upper session method origin csrfToken
  return session

/-- The dependency that `require_admin_scopes` makes, with the session it depends on. -/
def AuthService.admitAdmin (svc : AuthService U) (upper : Str → Str) (required : List Str)
    (found : Option BrowserSession) (method : Str) (origin csrfToken : Option Str) :
    Except AuthError Principal := do
  let session ← svc.admit upper found method origin csrfToken
  requireAdminScopes svc.profile required session.principal

section Gates

variable {svc : AuthService U} {upper : Str → Str} {found : Option BrowserSession}
variable {session : BrowserSession} {method : Str} {origin csrfToken : Option Str}

theorem validateCsrf_ok (valid : svc.validateCsrf upper session method origin csrfToken = .ok ())
    (unsafe_ : upper method ∉ safeMethods) :
    svc.profile.fromFrontend origin = true ∧ csrfToken = some session.csrfToken := by
  rw [AuthService.validateCsrf, if_neg unsafe_] at valid
  obtain ⟨frontend, valid⟩ := require_bind_ok.mp valid
  obtain ⟨token, given, valid⟩ := bind_ok.mp valid
  obtain ⟨_, same⟩ := require_bind_ok.mp valid
  rw [require_ok.mp same]
  exact ⟨frontend, (Option.filter_eq_some_iff.mp (expect_ok.mp given)).1⟩

theorem admit_ok (admitted : svc.admit upper found method origin csrfToken = .ok session) :
    found = some session ∧ svc.validateCsrf upper session method origin csrfToken = .ok () := by
  obtain ⟨there, looked, admitted⟩ := bind_ok.mp admitted
  obtain ⟨_, valid, same⟩ := bind_ok.mp admitted
  rw [pure_ok] at same
  subst same
  exact ⟨expect_ok.mp looked, valid⟩

theorem requireAdminScopes_same {profile : BrowserSurfaceProfile} {required : List Str}
    {p q : Principal} (passed : requireAdminScopes profile required p = .ok q) : p = q := by
  unfold requireAdminScopes at passed
  split at passed
  · exact Except.ok.inj passed
  · split at passed
    · exact Except.ok.inj passed
    · cases passed

end Gates

namespace World

variable {py : Builtins} {settings : Settings} {w : World U}
variable {history : List (Event (World U) (Action U))}

section Made

variable {call : Nat} {login : Login U} {session : BrowserSession} {sessionId : Str} {ttl : Int}

theorem run_made (run : Run (Step py) init history w)
    (opening : w.calls call = .opening login session sessionId ttl) :
    ∃ exchanged ∈ history, ∃ upserted ∈ history, ∃ claims loggedIn user now,
      ∃ id csrfToken : Secret 43, exchanged.label = .exchanged call (some claims) loggedIn ∧
        login.service.principalFromVerifiedClaims py claims loggedIn user =
          .ok session.principal ∧
        upserted.label = .upserted call (some user) id csrfToken now ∧ id.text = sessionId ∧
        csrfToken.text = session.csrfToken ∧
        ∃ draft, upserted.before.calls call = .upserting login draft := by
  obtain ⟨front, upserted, back, rfl, enters⟩ := run_entered run opening (by simp)
  obtain ⟨reached, _⟩ := run.at_event
  obtain ⟨before, label, after⟩ := upserted
  simp only at enters reached
  cases enters with
  | opening upserting made valid =>
      obtain ⟨earlier, exchanged, between, rfl, enters⟩ := run_entered reached upserting (by simp)
      obtain ⟨before', label', after'⟩ := exchanged
      simp only at enters
      cases enters with
      | upserting exchanging drafted =>
          have token := valid
          unfold BrowserSession.validate at token
          split at token
          · refine ⟨_, List.mem_append_left _ List.mem_append_cons_self, _, List.mem_append_cons_self,
              _, _, _, _, _, _, rfl, ?_, rfl, rfl, ?_, _, upserting⟩
            · rw [AuthService.principalFromVerifiedClaims, drafted, ok_bind, made,
                validate_session valid]
            · rw [← Except.ok.inj token]
          · cases token

end Made

section Admission

variable {front rest : List (Event (World U) (Action U))} {event : Event (World U) (Action U)}
variable {call : Nat} {svc : AuthService U} {given : Option Str} {now clock : Clock}
variable {upper : Str → Str} {found : Option BrowserSession} {session : BrowserSession}
variable {method : Str} {origin csrfToken : Option Str}

theorem admitted_lives (run : Run (Step py) init (front ++ event :: rest) w)
    (label : event.label = .getBrowserSession call svc given now clock)
    (told : outcome py event = some (.session found))
    (admitted : svc.admit upper found method origin csrfToken = .ok session) :
    ∃ id, given = some id ∧ Lives py front svc id session now ∧
      clock < session.principal.expiresAt := by
  obtain ⟨reached, step⟩ := run.at_event
  obtain ⟨rfl, _⟩ := admit_ok admitted
  have looked := (getBrowserSession_outcome step label).symm.trans told
  rw [Option.some_inj, Outcome.session.injEq, Option.bind_eq_some_iff] at looked
  obtain ⟨id, shown, returned⟩ := looked
  obtain ⟨read, early, _⟩ := checkSession_some.mp returned
  exact ⟨id, presented_eq shown, lives_of_read reached read, early⟩

theorem Lives.opening {id : Str} (lives : Lives py history svc id session now) :
    ∃ opened ∈ history, ∃ call login ttl,
      opened.before.calls call = .opening login session id ttl ∧
      login.service.settings.appSlug = svc.settings.appSlug ∧
      login.service.surface = svc.surface := by
  obtain ⟨earlier, opened, later, call, login, ttl, _, rfl, _, opening, _, slug, surface, _⟩ := lives
  exact ⟨opened, List.mem_append_cons_self, call, login, ttl, opening, slug, surface⟩

theorem Lives.drew (run : Run (Step py) init history w) {id : Str}
    (lives : Lives py history svc id session now) : ∃ upserted ∈ history, ∃ call user drawn,
      ∃ sessionId token : Secret 43,
        upserted.label = .upserted call (some user) sessionId token drawn ∧ sessionId.text = id ∧
          token.text = session.csrfToken ∧ ∃ login draft,
            upserted.before.calls call = .upserting login draft ∧
              login.service.surface = svc.surface := by
  obtain ⟨opened, member, call, login, ttl, opening, _, surface⟩ := lives.opening
  obtain ⟨earlier, later, rfl, reached, _⟩ := run.of_mem member
  obtain ⟨_, _, upserted, inside, _, _, user, drawn, sessionId, token, _, _, label, ids, tokens, draft,
    upserting⟩ := run_made reached opening
  exact ⟨upserted, List.mem_append_left _ inside, call, user, drawn, sessionId, token, label, ids,
    tokens, login, draft, upserting, surface⟩

/-- A request that may change something is let through only from a page of the frontend, with the
token that was drawn for the very session whose id it presents; no other session that lives, of
either surface, has this token. -/
theorem unsafe_request_own_token (run : Run (Step py) init history w)
    (shape : history = front ++ event :: rest)
    (label : event.label = .getBrowserSession call svc given now clock)
    (told : outcome py event = some (.session found))
    (admitted : svc.admit upper found method origin csrfToken = .ok session)
    (unsafe_ : upper method ∉ safeMethods) :
    svc.profile.fromFrontend origin = true ∧ ∃ id, given = some id ∧
      Lives py front svc id session now ∧ clock < session.principal.expiresAt ∧
      (∃ upserted ∈ front, ∃ call user drawn, ∃ sessionId token : Secret 43,
        upserted.label = .upserted call (some user) sessionId token drawn ∧ sessionId.text = id ∧
          csrfToken = some token.text) ∧
      ∀ (other : AuthService U) (id' : Str) (session' : BrowserSession) (at_ : Clock),
        Lives py front other id' session' at_ → csrfToken = some session'.csrfToken →
          id' = id ∧ other.surface = svc.surface := by
  subst shape
  obtain ⟨reached, _⟩ := run.at_event
  obtain ⟨frontend, token⟩ := validateCsrf_ok (admit_ok admitted).2 unsafe_
  obtain ⟨id, shown, lives, early⟩ := admitted_lives run label told admitted
  obtain ⟨upserted, member, call', user, drawn, sessionId, secret, drew, ids, tokens, login, draft,
    upserting, surface⟩ := lives.drew reached
  refine ⟨frontend, id, shown, lives, early, ⟨upserted, member, call', user, drawn, sessionId,
    secret, drew, ids, by rw [token, tokens]⟩, ?_⟩
  intro other id' session' at_ lives' shared
  obtain ⟨upserted', member', _, _, _, sessionId', secret', drew', ids', tokens', login', draft',
    upserting', surface'⟩ := lives'.drew reached
  have same : secret.text = secret'.text := by
    rw [tokens, tokens']
    exact Option.some.inj (token.symm.trans shared)
  have equal := drawn_once reached member member' (by rw [drew]; simp [Action.secrets])
    (by rw [drew', same]; simp [Action.secrets] : secret.text ∈ upserted'.label.secrets)
  rw [equal, drew'] at drew
  injection drew with calls _ sessions
  rw [equal, ← calls, upserting'] at upserting
  injection upserting with logins
  exact ⟨by rw [← ids, ← ids', sessions], by rw [← surface, ← surface', logins]⟩

/-- An administrative request is let through only with a session whose login verified claims that
entitle its user to every required scope. -/
theorem admin_request_entitled (run : Run (Step py) init history w)
    (shared : Shared settings history) (shape : history = front ++ event :: rest)
    (label : event.label = .getBrowserSession call svc given now clock)
    (told : outcome py event = some (.session found)) {required : List Str} {p : Principal}
    (admitted : svc.admitAdmin upper required found method origin csrfToken = .ok p) :
    ∃ id session, given = some id ∧ Lives py front svc id session now ∧ clock < p.expiresAt ∧
      session.principal = p ∧ ∃ exchanged ∈ front, ∃ call claims loggedIn user,
        exchanged.label = .exchanged call (some claims) loggedIn ∧
          svc.principalFromVerifiedClaims py claims loggedIn user = .ok p ∧
          Entitled svc py claims required := by
  subst shape
  obtain ⟨reached, _⟩ := run.at_event
  obtain ⟨session, admitted, passed⟩ := bind_ok.mp admitted
  have same := requireAdminScopes_same passed
  obtain ⟨id, shown, lives, early⟩ := admitted_lives run label told admitted
  obtain ⟨opened, member, call', login, ttl, opening, _, surface⟩ := lives.opening
  obtain ⟨earlier, later, rfl, before, _⟩ := reached.of_mem member
  obtain ⟨exchanged, inside, _, _, claims, loggedIn, user, _, _, _, verified, made, _⟩ :=
    run_made before opening
  -- the login ran on this very service
  have service : login.service = svc := by
    obtain ⟨_, _, _, redeemed, _, _, rfl, _, _, _, redeems, _⟩ :=
      login_redeems before (by rw [opening]; rfl)
    obtain ⟨_, redeemed_, _⟩ := redeems.label
    have login_ : login.service.settings = settings :=
      shared redeemed (by simp) login.service (by rw [redeemed_]; rfl)
    have own : svc.settings = settings := shared event (by simp) svc (by rw [label]; rfl)
    exact AuthService.eq_of_settings (login_.trans own.symm) surface
  rw [service, same] at made
  refine ⟨id, session, shown, lives, by rw [← same]; exact early, same, exchanged,
    List.mem_append_left _ inside, call', claims, loggedIn, user, verified, made, ?_⟩
  exact (entitled_of_login made).mp ⟨p, by rwa [same] at passed⟩

theorem unsafe_request_own_token_sample :
    ∃ id, some (List.replicate 43 'e') = some id ∧
      Lives sampleBuiltins (events sampleBuiltins loginSteps) sampleService id sampleSession
        (seconds 20) ∧ seconds 20 < sampleSession.principal.expiresAt := by
  have admitted : sampleService.admit (fun s => s) (some sampleSession) "POST".toList
      (some "https://tpl.example".toList) (some (List.replicate 43 'f')) = .ok sampleSession :=
    rfl
  obtain ⟨_, id, shown, lives, early, _⟩ := unsafe_request_own_token
    (events_run _ _ lookSteps_taken) (rfl : _ = events sampleBuiltins loginSteps ++ _ :: []) rfl rfl
    admitted (by decide)
  exact ⟨id, shown, lives, early⟩

end Admission

section Sample

def sampleAdmin : AuthService Settings.asciiPlatform where
  settings := Settings.sampleSettings
  profile := { Settings.sampleProfile with
    surface := .admin
    requiredScopes := ["tpl:admin".toList]
    sessionKeyPrefix := "tpl:auth:admin:session:".toList
    transactionKeyPrefix := "tpl:auth:admin:oidc:".toList }
  built := rfl

def operatorSteps : List (Action Settings.asciiPlatform) :=
  [.beginLogin 0 sampleAdmin (some "/home/x".toList) "login".toList (letterSecret 0 43)
      (letterSecret 1 43) (letterSecret 2 43) (letterSecret 3 86) 0,
    .linked 0 true,
    .completeLogin 1 sampleAdmin "code".toList (List.replicate 43 'b')
      (some (List.replicate 43 'a')) (seconds 10),
    .exchanged 1 (some (sampleClaims "ops".toList [.str "operator".toList])) (seconds 11),
    .upserted 1 (some 5) (letterSecret 4 43) (letterSecret 5 43) (seconds 11),
    .createSession 1 (seconds 11),
    .getBrowserSession 2 sampleAdmin (some (List.replicate 43 'e')) (seconds 20) (seconds 20)]

theorem operatorSteps_taken :
    ∀ event ∈ events sampleBuiltins operatorSteps, Taken sampleBuiltins event := by decide

theorem operatorSteps_shared : Shared Settings.sampleSettings (events sampleBuiltins operatorSteps) := by
  intro event member svc called
  have step := label_mem_of_mem_trace member
  simp only [operatorSteps, List.mem_cons, List.not_mem_nil, or_false] at step
  rcases step with label | label | label | label | label | label | label <;> rw [label] at called <;>
    cases called <;> rfl

def operatorSession : BrowserSession where
  principal := { sampleSession.principal with
    surface := .admin
    roles := ["operator".toList] }
  csrfToken := List.replicate 43 'f'

/-- The operator's request is let through on the strength of the organisation and the role that the
identity provider named. -/
theorem admin_request_entitled_operator : ∃ id session, some (List.replicate 43 'e') = some id ∧
    Lives sampleBuiltins ((events sampleBuiltins operatorSteps).take 6) sampleAdmin id session
      (seconds 20) ∧ session.principal = operatorSession.principal := by
  have admitted : sampleAdmin.admitAdmin (fun s => s) ["tpl:admin".toList] (some operatorSession)
      "GET".toList none none = .ok operatorSession.principal := rfl
  obtain ⟨id, session, shown, lives, _, same, _⟩ := admin_request_entitled
    (events_run _ _ operatorSteps_taken) operatorSteps_shared
    (rfl : _ = (events sampleBuiltins operatorSteps).take 6 ++ _ :: []) rfl (by rfl) admitted
  exact ⟨id, session, shown, lives, same⟩

end Sample

end World

end TplBackend
