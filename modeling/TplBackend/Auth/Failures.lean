import TplBackend.Auth.Sessions
import TplBackend.Auth.Usability

namespace TplBackend

open Keyed Raise Text Transition Url

variable {U : Platform}

def safeMethods : List Str := ["GET", "HEAD", "OPTIONS"].map String.toList

/-- Whether `origin` is given and belongs to the frontend. -/
def BrowserSurfaceProfile.fromFrontend (profile : BrowserSurfaceProfile) (origin : Option Str) : Bool :=
  origin.any fun origin => decide (origin ≠ [] ∧ origin ∈ profile.frontendOrigins)

namespace AuthService

def csrfError : AuthError := .forbidden "CSRF validation failed" "forbidden"

/-- `validate_csrf`; `upper` is `str.upper`. -/
def validateCsrf (svc : AuthService U) (upper : Str → Str) (session : BrowserSession) (method : Str)
    (origin csrfToken : Option Str) : Except AuthError Unit :=
  if upper method ∈ safeMethods then .ok ()
  else do
    require (svc.profile.fromFrontend origin = true)
      (AuthError.forbidden "Request origin denied" "forbidden")
    let token ← expect (csrfToken.filter (· ≠ [])) csrfError
    -- `hmac.compare_digest` takes no other texts
    require (session.csrfToken.all isAscii = true ∧ token.all isAscii = true) AuthError.typeError
    require (session.csrfToken = token) csrfError

end AuthService

def OnlyForbidden (result : Except AuthError Unit) : Prop :=
  ∀ raised, result = .error raised → ∃ msg code, raised = .forbidden msg code

/-- The token is ASCII, unless the method is safe or the origin is not the frontend's. -/
def CsrfReads (svc : AuthService U) (upper : Str → Str) (method : Str)
    (origin csrfToken : Option Str) : Prop :=
  upper method ∈ safeMethods ∨ svc.profile.fromFrontend origin = false ∨
    ∀ token, csrfToken = some token → token.all isAscii = true

/-- The claims of the provider have what a principal is made of: an issuer and a subject, integers
for `exp` and `iat`, and roles and scopes that the JSON decoder does not choke on. -/
def ClaimsRead (py : Builtins) (svc : AuthService U) (claims : Claims) (now : Clock) : Prop :=
  ∃ iss sub exp iat expiry issued, Json.item claims "iss" = .ok iss ∧ Json.item claims "sub" = .ok sub ∧
    Json.item claims "exp" = .ok exp ∧ py.number exp = .ok expiry ∧
    Json.item claims "iat" = .ok iat ∧ py.number iat = .ok issued ∧
    (wholeSeconds now < min expiry (wholeSeconds now + svc.settings.sessionTtlSeconds) →
      svc.ownerAllowed claims = true →
      ∃ user, loadOrCreateUser py svc.profile (py.text iss) (py.text sub) claims = .ok user)

namespace World

/-- The steps of `complete_login`, without the answers by which the provider or the user directory
raises an `AppException` of its own. -/
def completes : Action U → Bool
  | .completeLogin .. | .exchanged _ (some _) _ | .upserted _ (some _) _ _ _ | .createSession .. => true
  | _ => false

/-- A step of `complete_login` lets out what is no `AppException`. -/
def Escapes (py : Builtins) (event : Event (World U) (Action U)) : Prop :=
  completes event.label = true ∧
    ∃ raised, outcome py event = some (.raised raised) ∧ raised.isApp = false

/-- The input of a step of `complete_login` can be worked with: the state of the request is ASCII
where there is a transaction to compare it with, the claims can be read, and a principal fits. -/
def Reads (py : Builtins) (w : World U) : Action U → Prop
  | .completeLogin _ svc _ state transactionId now =>
    ∀ id, presented transactionId = some id →
      (w.store.read (svc.transactionKey id) now).isSome = true → state.all isAscii = true
  | .exchanged call (some claims) now =>
    ∀ login, w.calls call = .exchanging login → ClaimsRead py login.service claims now
  | .upserted call (some _) _ _ _ =>
    ∀ login draft, w.calls call = .upserting login draft →
      SessionFits login.service draft.user draft.issuedAt draft.expiresAtEpoch
  | _ => True

end World

section Csrf

variable {svc : AuthService U} {upper : Str → Str} {session : BrowserSession} {method : Str}
variable {origin csrfToken : Option Str}

theorem validateCsrf_iff (ascii : session.csrfToken.all isAscii = true) :
    OnlyForbidden (svc.validateCsrf upper session method origin csrfToken) ↔
      CsrfReads svc upper method origin csrfToken := by
  unfold AuthService.validateCsrf CsrfReads
  by_cases safe : upper method ∈ safeMethods
  · rw [if_pos safe]
    exact iff_of_true (fun _ failed => by cases failed) (Or.inl safe)
  rw [if_neg safe]
  cases frontend : svc.profile.fromFrontend origin with
  | false =>
      rw [require_neg (by simp), error_bind]
      refine iff_of_true (fun raised failed => ?_) (Or.inr (Or.inl rfl))
      exact ⟨_, _, (Except.error.inj failed).symm⟩
  | true =>
      rw [require_pos rfl, ok_bind]
      cases given : csrfToken.filter (· ≠ []) with
      | none =>
          rw [expect_none, error_bind]
          refine iff_of_true (fun raised failed => ⟨_, _, (Except.error.inj failed).symm⟩)
            (Or.inr (Or.inr fun token some_ => ?_))
          rw [some_, Option.filter_eq_none_iff] at given
          have empty : token = [] := by simpa using given
          rw [empty]
          rfl
      | some token =>
          obtain ⟨rfl, _⟩ := Option.filter_eq_some_iff.mp given
          rw [expect_some, ok_bind]
          by_cases plain : token.all isAscii = true
          · rw [require_pos ⟨ascii, plain⟩, ok_bind]
            refine iff_of_true (fun raised failed => ?_) (Or.inr (Or.inr fun other same => ?_))
            · exact ⟨_, _, (require_error.mp failed).2.symm⟩
            · cases same
              exact plain
          · rw [require_neg fun both => plain both.2, error_bind]
            refine iff_of_false (fun only => ?_) ?_
            · obtain ⟨_, _, same⟩ := only _ rfl
              cases same
            · rintro (unsafe_ | other | reads)
              · exact safe unsafe_
              · cases other
              · exact plain (reads token rfl)

end Csrf

section Calls

variable {α : Type} {svc : AuthService U} {py : Builtins} {claims : Claims} {now : Clock}

def IsApp (raised : AuthError) : Prop := raised.isApp = true

theorem clean_require {condition : Prop} [Decidable condition] {raised : AuthError}
    (app : raised.isApp = true) : Only IsApp (require condition raised) :=
  only_require.mpr fun _ => app

theorem clean_item {name : String} :
    Only IsApp (Json.item claims name) ↔ ∃ value, Json.item claims name = .ok value := by
  unfold Json.item
  cases claims.lookup name.toList with
  | none => exact iff_of_false (fun clean => by cases clean _ rfl) (fun ⟨_, same⟩ => by cases same)
  | some value => exact iff_of_true (only_ok value) ⟨value, rfl⟩

theorem clean_number {value : Json} : Only IsApp (py.number value) ↔ ∃ n, py.number value = .ok n := by
  cases read : py.number value with
  | ok n => exact iff_of_true (only_ok n) ⟨n, rfl⟩
  | error raised =>
      refine iff_of_false (fun clean => ?_) (fun ⟨_, same⟩ => by cases same)
      have app := clean raised rfl
      unfold Builtins.number at read
      repeat' split at read
      all_goals cases read
      cases app

theorem clean_user {issuer subject : Str} :
    Only IsApp (loadOrCreateUser py svc.profile issuer subject claims) ↔
      ∃ user, loadOrCreateUser py svc.profile issuer subject claims = .ok user := by
  cases loaded : loadOrCreateUser py svc.profile issuer subject claims with
  | ok user => exact iff_of_true (only_ok user) ⟨user, rfl⟩
  | error raised =>
      rw [loadOrCreateUser_error loaded]
      exact iff_of_false (fun clean => by cases clean _ rfl) (fun ⟨_, same⟩ => by cases same)

theorem principalDraft_clean : Only IsApp (svc.principalDraft py claims now) ↔ ClaimsRead py svc claims now := by
  simp only [AuthService.principalDraft, only_bind, clean_item, clean_number, clean_user,
    clean_require (show (AuthError.unauthorized _ _).isApp = true from rfl),
    clean_require (show (AuthError.forbidden _ _).isApp = true from rfl), require_ok]
  constructor
  · rintro ⟨⟨iss, hasIss⟩, read⟩
    obtain ⟨⟨sub, hasSub⟩, read⟩ := read iss hasIss
    obtain ⟨⟨exp, hasExp⟩, read⟩ := read sub hasSub
    obtain ⟨⟨expiry, expires⟩, read⟩ := read exp hasExp
    obtain ⟨⟨iat, hasIat⟩, read⟩ := read expiry expires
    obtain ⟨⟨issued, issues⟩, read⟩ := read iat hasIat
    exact ⟨iss, sub, exp, iat, expiry, issued, hasIss, hasSub, hasExp, expires, hasIat, issues,
      fun live allowed => (((read issued issues).2 () live).2 () allowed).1⟩
  · rintro ⟨iss, sub, exp, iat, expiry, issued, hasIss, hasSub, hasExp, expires, hasIat, issues, read⟩
    refine ⟨⟨iss, hasIss⟩, fun iss' same => ?_⟩
    cases Except.ok.inj (hasIss.symm.trans same)
    refine ⟨⟨sub, hasSub⟩, fun sub' same => ?_⟩
    cases Except.ok.inj (hasSub.symm.trans same)
    refine ⟨⟨exp, hasExp⟩, fun exp' same => ?_⟩
    cases Except.ok.inj (hasExp.symm.trans same)
    refine ⟨⟨expiry, expires⟩, fun expiry' same => ?_⟩
    cases Except.ok.inj (expires.symm.trans same)
    refine ⟨⟨iat, hasIat⟩, fun iat' same => ?_⟩
    cases Except.ok.inj (hasIat.symm.trans same)
    refine ⟨⟨issued, issues⟩, fun _ _ => ⟨trivial, fun _ live => ⟨trivial, fun _ allowed => ?_⟩⟩⟩
    exact ⟨read live allowed, fun user _ => only_ok _⟩

theorem principalOf_clean {draft : Draft} {id : Uuid}
    (displayName : draft.user.displayName.all (Principal.sized 0 256) = true)
    (email : draft.user.email.all (Principal.sized 0 320) = true) :
    Only IsApp (svc.principalOf draft id) ↔ SessionFits svc draft.user draft.issuedAt draft.expiresAtEpoch := by
  cases made : svc.principalOf draft id with
  | ok p => exact iff_of_true (only_ok p) (principalOf_fits made).2.2
  | error raised =>
      refine iff_of_false (fun clean => ?_) fun fits => ?_
      · have app : raised.isApp = true := clean raised rfl
        rw [principalOf_error made] at app
        cases app
      · obtain ⟨p, other⟩ := principalOf_of_fits fits displayName email id
        rw [made] at other
        cases other

/-- A transaction as `begin_login` stores it; only its texts are compared with the request's. -/
structure Sound (svc : AuthService U) (t : Transaction) : Prop where
  surface : t.surface = svc.surface
  returnTo : svc.normalizeReturnTo (some t.returnTo) = .ok t.returnTo
  state : t.state.all isAscii = true

theorem checkTransaction_clean {t : Transaction} (sound : Sound svc t) {code state id : Str} :
    Only IsApp (svc.checkTransaction code state id (some (.transaction t))) ↔
      state.all isAscii = true := by
  unfold AuthService.checkTransaction
  rw [show (some (Stored.transaction t)).bind Stored.transaction? = some t from rfl, expect_some,
    ok_bind, sound.returnTo]
  rw [show (Except.mapError AuthError.valueError (.ok t.returnTo)) = .ok t.returnTo from rfl, ok_bind,
    require_pos sound.surface, ok_bind]
  by_cases plain : state.all isAscii = true
  · rw [require_pos ⟨sound.state, plain⟩, ok_bind]
    refine iff_of_true (only_bind.mpr ⟨clean_require rfl, fun _ _ => only_ok _⟩) plain
  · rw [require_neg fun both => plain both.2, error_bind, only_error]
    exact iff_of_false (fun app => by cases app) plain

theorem Secret.ascii {n : Nat} (secret : Secret n) : secret.text.all isAscii = true := by
  refine List.all_eq_true.mpr fun c member => ?_
  have char := List.all_eq_true.mp secret.safe c member
  simp only [Bool.or_eq_true] at char
  rcases char with ((letter | digit) | dash) | underscore
  · exact isAscii_of_isLetter letter
  · exact isAscii_of_isDigit digit
  · rw [beq_iff_eq.mp dash]
    rfl
  · rw [beq_iff_eq.mp underscore]
    rfl

end Calls

namespace World

variable {py : Builtins} {settings : Settings} {w : World U}
variable {history : List (Event (World U) (Action U))}

section Stored

theorem stored_transaction (run : Run (Step py) init history w) (shared : Shared settings history)
    {svc : AuthService U} (mine : svc.settings = settings) {id : Str} {entry : Entry Str Stored}
    (found : w.store.find? (svc.transactionKey id) = some entry) :
    ∃ t, entry.value = .transaction t ∧ Sound svc t := by
  obtain ⟨earlier, event, later, rfl, writes, _⟩ := entry_since run found
  have keyed := (Table.find?_eq_some.mp found).2
  obtain ⟨before, label, after⟩ := event
  simp only at writes
  cases writes with
  | @begun call svc' value mode returnTo transactionId state nonce codeVerifier now _ normalized =>
      have own : svc'.settings = settings := shared _ List.mem_append_cons_self svc' rfl
      have same : svc' = svc := AuthService.eq_of_settings (own.trans mine.symm)
        (AuthService.transactionKey_injective keyed).2.1
      subst same
      exact ⟨_, rfl, rfl, AuthService.normalizeReturnTo_idempotent normalized, state.ascii⟩
  | opened _ => exact absurd keyed.symm (AuthService.transactionKey_ne_sessionKey _ _ _ _)

theorem opening_csrf (run : Run (Step py) init history w) {call : Nat} {login : Login U}
    {session : BrowserSession} {sessionId : Str} {ttl : Int}
    (opening : w.calls call = .opening login session sessionId ttl) :
    session.csrfToken.all isAscii = true := by
  obtain ⟨_, event, _, rfl, enters⟩ := run_entered run opening (by simp)
  obtain ⟨before, label, after⟩ := event
  simp only at enters
  cases enters with
  | @opening _ _ draft id principal session _ csrfToken now upserting made valid =>
      unfold BrowserSession.validate at valid
      split at valid
      · rw [← Except.ok.inj valid]
        exact csrfToken.ascii
      · cases valid

theorem stored_session (run : Run (Step py) init history w) {key : Str} {deadline : Int}
    {session : BrowserSession} (found : w.store.find? key = some ⟨key, .session session, deadline⟩) :
    session.csrfToken.all isAscii = true := by
  obtain ⟨earlier, event, later, rfl, writes, _⟩ := entry_since run found
  obtain ⟨reached, _⟩ := run.at_event
  obtain ⟨before, label, after⟩ := event
  simp only at writes reached
  cases writes with
  | opened opening => exact opening_csrf reached opening

end Stored

section Steps

variable {α : Type} {call : Nat} {result : Except AuthError α} {next : α → Outcome × AuthCall U}

def Quiet (told : Outcome) : Prop := ∀ raised, told = .raised raised → IsApp raised

theorem quiet_raised {raised : AuthError} : Quiet (.raised raised) ↔ IsApp raised :=
  ⟨fun quiet => quiet raised rfl, fun app _ same => by cases same; exact app⟩

theorem proceed_quiet (w : World U) (calm : ∀ a, Quiet (next a).1) :
    Quiet (w.proceed call result next).1 ↔ Only IsApp result := by
  cases result with
  | error raised => exact quiet_raised.trans only_error.symm
  | ok a => exact iff_of_true (calm a) (only_ok a)

theorem outcome_of_perform {event : Event (World U) (Action U)} {said : Outcome × World U}
    (performed : event.before.perform py event.label = some said) :
    outcome py event = some said.1 := by
  rw [outcome, performed]
  rfl

theorem completeLogin_quiet (run : Run (Step py) init history w) (shared : Shared settings history)
    {svc : AuthService U} (mine : svc.settings = settings) {code state : Str}
    {transactionId : Option Str} {now : Clock} {said : Outcome × World U}
    (performed : w.perform py (.completeLogin call svc code state transactionId now) = some said) :
    Quiet said.1 ↔ Reads py w (.completeLogin call svc code state transactionId now) := by
  simp only [perform, react] at performed
  split at performed
  · simp only [Option.some.injEq] at performed
    cases given : presented transactionId with
    | none =>
        simp only [given] at performed
        rw [← performed]
        exact iff_of_true (quiet_raised.mpr rfl) fun id same => by simp [given] at same
    | some id =>
        simp only [given] at performed
        rw [← performed, proceed_quiet _ (fun a _ same => by cases same)]
        change Only IsApp (svc.checkTransaction code state id (w.store.read (svc.transactionKey id) now)) ↔ _
        cases raw : w.store.read (svc.transactionKey id) now with
        | none =>
            refine iff_of_true (only_bind.mpr ⟨only_error.mpr rfl, fun _ same => by cases same⟩) ?_
            intro id' given' present
            rw [given] at given'
            cases given'
            rw [raw] at present
            cases present
        | some stored =>
            obtain ⟨deadline, found, _⟩ := Store.read_eq_some.mp raw
            obtain ⟨t, rfl, sound⟩ := stored_transaction run shared mine found
            rw [checkTransaction_clean sound]
            constructor
            · exact fun plain _ _ _ => plain
            · exact fun reads => reads id given (by rw [raw]; rfl)
  · cases performed

theorem exchanged_quiet {claims : Claims} {now : Clock} {said : Outcome × World U}
    (performed : w.perform py (.exchanged call (some claims) now) = some said) :
    Quiet said.1 ↔ Reads py w (.exchanged call (some claims) now) := by
  simp only [perform, react] at performed
  split at performed
  · rename_i login exchanging
    cases performed
    rw [proceed_quiet _ (fun a _ same => by cases same), principalDraft_clean]
    constructor
    · intro reads login' same
      cases exchanging.symm.trans same
      exact reads
    · exact fun reads => reads login exchanging
  · cases performed

theorem upserting_sized (run : Run (Step py) init history w) {login : Login U} {draft : Draft}
    (upserting : w.calls call = .upserting login draft) :
    draft.user.displayName.all (Principal.sized 0 256) = true ∧
      draft.user.email.all (Principal.sized 0 320) = true := by
  obtain ⟨_, event, _, rfl, enters⟩ := run_entered run upserting (by simp)
  obtain ⟨before, label, after⟩ := event
  simp only at enters
  cases enters with
  | upserting _ drafted =>
      simp only [AuthService.principalDraft, bind_ok, require_ok, pure_ok] at drafted
      obtain ⟨_, _, _, _, _, _, _, _, _, _, _, _, _, _, _, _, user, loaded, rfl⟩ := drafted
      exact (loadOrCreateUser_ok loaded).2.2

theorem upserted_quiet (run : Run (Step py) init history w) {id : Uuid}
    {sessionId csrfToken : Secret 43} {now : Clock} {said : Outcome × World U}
    (performed : w.perform py (.upserted call (some id) sessionId csrfToken now) = some said) :
    Quiet said.1 ↔ Reads py w (.upserted call (some id) sessionId csrfToken now) := by
  simp only [perform, react] at performed
  split at performed
  · rename_i login draft upserting
    obtain ⟨displayName, email⟩ := upserting_sized run upserting
    have token (principal : Principal) : Only IsApp (BrowserSession.validate principal csrfToken.text) := by
      unfold BrowserSession.validate
      rw [if_pos (by simp [Principal.sized, csrfToken.length_eq])]
      exact only_ok _
    cases performed
    rw [proceed_quiet _ (fun a _ same => by cases same), only_bind, principalOf_clean displayName email]
    constructor
    · rintro ⟨fits, _⟩ login' draft' same
      cases upserting.symm.trans same
      exact fits
    · exact fun reads => ⟨reads login draft upserting, fun principal _ => token principal⟩
  · cases performed

theorem createSession_quiet {now : Clock} {said : Outcome × World U}
    (performed : w.perform py (.createSession call now) = some said) : Quiet said.1 := by
  simp only [perform, react] at performed
  split at performed
  · simp only [Option.some.injEq] at performed
    rw [← performed, ends]
    split
    · exact fun _ same => by cases same
    · exact quiet_raised.mpr rfl
  · cases performed

theorem step_reads (run : Run (Step py) init history w) (shared : Shared settings history)
    {event : Event (World U) (Action U)} (member : event ∈ history) :
    ¬ Escapes py event ↔ Reads py event.before event.label := by
  obtain ⟨earlier, later, shape, reached, step⟩ := run.of_mem member
  have before : Shared settings earlier := fun other old => shared other (by simp [shape, old])
  obtain ⟨_, _, performed⟩ := step
  obtain ⟨said, ran, _⟩ := Option.map_eq_some_iff.mp performed
  have escapes : ¬ Escapes py event ↔ (completes event.label = true → Quiet said.1) := by
    rw [Escapes, outcome_of_perform ran]
    simp only [Option.some.injEq, not_and, not_exists, Bool.not_eq_false, Quiet, IsApp]
  rw [escapes]
  obtain ⟨before_, label, after⟩ := event
  simp only at ran reached ⊢
  cases label with
  | completeLogin call svc code state transactionId now =>
      have mine : svc.settings = settings := shared _ member svc rfl
      simp [completes, completeLogin_quiet reached before mine ran]
  | exchanged call claims now =>
      cases claims with
      | none => exact iff_of_true (fun completing => by cases completing) trivial
      | some claims => simp [completes, exchanged_quiet ran]
  | upserted call id sessionId csrfToken now =>
      cases id with
      | none => exact iff_of_true (fun completing => by cases completing) trivial
      | some id => simp [completes, upserted_quiet reached ran]
  | createSession call now => exact iff_of_true (fun _ => createSession_quiet ran) trivial
  | _ => exact iff_of_true (fun completing => by cases completing) trivial

end Steps

/-- A login or a CSRF check raises application errors only, exactly where its input can be read. -/
theorem failures_iff (run : Run (Step py) init history w) (shared : Shared settings history) :
    (∀ event ∈ history, ¬ Escapes py event ↔ Reads py event.before event.label) ∧
      ∀ key session deadline, w.store.find? key = some ⟨key, .session session, deadline⟩ →
        ∀ (svc : AuthService U) upper method origin csrfToken,
          OnlyForbidden (svc.validateCsrf upper session method origin csrfToken) ↔
            CsrfReads svc upper method origin csrfToken :=
  ⟨fun _ member => step_reads run shared member, fun _ _ _ found _ _ _ _ _ =>
    validateCsrf_iff (stored_session run found)⟩

theorem failures_sample : (∀ event ∈ events sampleBuiltins loginSteps,
      ¬ Escapes sampleBuiltins event ↔ Reads sampleBuiltins event.before event.label) ∧
    ∀ key session deadline, (stateAfter sampleBuiltins loginSteps).store.find? key =
        some ⟨key, .session session, deadline⟩ →
      ∀ (svc : AuthService Settings.asciiPlatform) upper method origin csrfToken,
        OnlyForbidden (svc.validateCsrf upper session method origin csrfToken) ↔
          CsrfReads svc upper method origin csrfToken :=
  failures_iff (events_run _ _ loginSteps_taken) loginSteps_shared

def foreignSteps : List (Action Settings.asciiPlatform) :=
  loginSteps.take 2 ++ [.completeLogin 1 sampleService "code".toList "é".toList
    (some (List.replicate 43 'a')) (seconds 10)]

theorem foreignSteps_taken :
    ∀ event ∈ events sampleBuiltins foreignSteps, Taken sampleBuiltins event := by
  decide

theorem failures_escape : ¬ ∀ (U : Platform) (py : Builtins) (settings : Settings) (w : World U)
    (history : List (Event (World U) (Action U))), Run (Step py) init history w →
      Shared settings history → (∀ event ∈ history, ¬ Escapes py event) ∧
        ∀ key session deadline, w.store.find? key = some ⟨key, .session session, deadline⟩ →
          ∀ (svc : AuthService U) upper method origin csrfToken,
            OnlyForbidden (svc.validateCsrf upper session method origin csrfToken) := by
  intro clean
  have shared : Shared Settings.sampleSettings (events sampleBuiltins foreignSteps) := by
    intro event member svc called
    have step := label_mem_of_mem_trace member
    simp only [foreignSteps, loginSteps, List.take_succ_cons, List.take_zero, List.cons_append,
      List.nil_append, List.mem_cons, List.not_mem_nil, or_false] at step
    rcases step with label | label | label <;> rw [label] at called <;> cases called <;> rfl
  obtain ⟨quiet, _⟩ := clean _ _ _ _ _ (events_run _ _ foreignSteps_taken) shared
  exact quiet (events sampleBuiltins foreignSteps)[2] (List.getElem_mem _) ⟨rfl, .typeError, rfl, rfl⟩

end World

end TplBackend
