import TplBackend.Auth.Transactions

namespace TplBackend

open Keyed Raise Text Transition Url

namespace World

variable {U : Platform} {py : Builtins} {w w' : World U} {a : Action U}
variable {history : List (Event (World U) (Action U))}

def started? (call : Nat) (w : World U) : Option (AuthCall U) :=
  match w.calls call with
  | .idle => none
  | phase => some phase

theorem started?_eq_some {call : Nat} {phase : AuthCall U} :
    started? call w = some phase ↔ w.calls call = phase ∧ phase ≠ .idle := by
  unfold started?
  split
  · rename_i idle
    simp only [idle, reduceCtorEq, false_iff, not_and, not_not]
    exact Eq.symm
  · rename_i other
    rw [Option.some.injEq]
    exact ⟨fun same => ⟨same, fun idle => other (same.trans idle)⟩, And.left⟩

theorem run_entered (run : Run (Step py) init history w) {call : Nat} {phase : AuthCall U}
    (here : w.calls call = phase) (busy : phase ≠ .idle) : ∃ earlier event later,
      history = earlier ++ event :: later ∧ Enters py event.before event.label call phase := by
  obtain ⟨earlier, event, later, rfl, fresh, came, _⟩ :=
    run.since (started? call) rfl (started?_eq_some.mpr ⟨here, busy⟩)
  obtain ⟨_, did⟩ := step_did run.at_event.2
  have entered := (started?_eq_some.mp came).1
  refine ⟨earlier, event, later, rfl, ?_⟩
  rcases did.call call with kept | enters
  · exact absurd (started?_eq_some.mpr ⟨kept.symm.trans entered, busy⟩) fresh
  · rwa [entered] at enters

section Expiry

/-- Where the expiry of a session comes from: the claims of its exchange and the time of the login;
and the lifetime it gets in the store. -/
def Dated (py : Builtins) (history : List (Event (World U) (Action U))) (call : Nat)
    (login : Login U) (session : BrowserSession) (sessionId : Str) (ttl : Int) : Prop :=
  ∃ exchanged ∈ history, ∃ upserted ∈ history, ∃ claims loggedIn value providerExp id csrfToken now,
    ∃ secret : Secret 43, exchanged.label = .exchanged call (some claims) loggedIn ∧
      Json.item claims "exp" = .ok value ∧ py.number value = .ok providerExp ∧
      session.principal.expiresAt ≤
        seconds (min providerExp (wholeSeconds loggedIn + login.service.settings.sessionTtlSeconds)) ∧
      upserted.label = .upserted call (some id) secret csrfToken now ∧ secret.text = sessionId ∧
      ttl = max 1 ((session.principal.expiresAt - now).tdiv 1000000)

theorem fromTimestamp_ok {epoch : Int} {clock : Clock} (made : fromTimestamp epoch = .ok clock) :
    clock = seconds epoch := by
  unfold fromTimestamp at made
  split at made
  · exact (Except.ok.inj made).symm
  · cases made

theorem validate_expiresAt {p valid : Principal} (validated : p.validate = .ok valid) :
    valid.expiresAt = p.expiresAt := by
  unfold Principal.validate at validated
  split_ifs at validated
  exact Except.ok.inj validated ▸ rfl

theorem principalOf_expiresAt {svc : AuthService U} {draft : Draft} {id : Uuid}
    {principal : Principal} (made : svc.principalOf draft id = .ok principal) :
    principal.expiresAt = seconds draft.expiresAtEpoch := by
  simp only [AuthService.principalOf, bind_ok] at made
  obtain ⟨_, _, expiresAt, dated, validated⟩ := made
  rw [validate_expiresAt validated]
  exact fromTimestamp_ok dated

theorem principalDraft_expires {svc : AuthService U} {claims : Claims} {now : Clock} {draft : Draft}
    (drafted : svc.principalDraft py claims now = .ok draft) : ∃ value providerExp,
      Json.item claims "exp" = .ok value ∧ py.number value = .ok providerExp ∧
      draft.expiresAtEpoch =
        min providerExp (wholeSeconds now + svc.settings.sessionTtlSeconds) := by
  simp only [AuthService.principalDraft, bind_ok, require_ok, pure_ok] at drafted
  obtain ⟨_, _, _, _, value, item, providerExp, number, _, _, _, _, _, _, _, _, _, _, rfl⟩ := drafted
  exact ⟨value, providerExp, item, number, rfl⟩

theorem validate_session {principal : Principal} {csrfToken : Str} {session : BrowserSession}
    (valid : BrowserSession.validate principal csrfToken = .ok session) :
    session.principal = principal := by
  unfold BrowserSession.validate at valid
  split at valid
  · exact Except.ok.inj valid ▸ rfl
  · cases valid

theorem run_dated (run : Run (Step py) init history w) {call : Nat} {login : Login U}
    {session : BrowserSession} {sessionId : Str} {ttl : Int}
    (opening : w.calls call = .opening login session sessionId ttl) :
    Dated py history call login session sessionId ttl := by
  obtain ⟨front, upserted, back, rfl, enters⟩ := run_entered run opening (by simp)
  obtain ⟨reached, _⟩ := run.at_event
  obtain ⟨before, label, after⟩ := upserted
  simp only at enters reached
  cases enters with
  | opening upserting made valid =>
      obtain ⟨earlier, exchanged, between, rfl, enters⟩ := run_entered reached upserting (by simp)
      obtain ⟨before', label', after'⟩ := exchanged
      simp only at enters
      cases enters with
      | upserting exchanging drafted =>
          obtain ⟨value, providerExp, item, number, expires⟩ := principalDraft_expires drafted
          refine ⟨_, List.mem_append_left _ List.mem_append_cons_self, _, List.mem_append_cons_self,
            _, _, value, providerExp, _, _, _, _, rfl, item, number, ?_, rfl, rfl, rfl⟩
          rw [validate_session valid, principalOf_expiresAt made, expires]

end Expiry

section Rows

inductive Deletes (w : World U) : Action U → Str → Prop
  | deleted {svc : AuthService U} {id : Str} {sessionId : Option Str} :
      presented sessionId = some id → Deletes w (.deleteSession svc sessionId) (svc.sessionKey id)
  | ended {svc : AuthService U} {id : Str} {sessionId : Option Str} {state : Secret 22} :
      presented sessionId = some id → Deletes w (.endSession svc sessionId state) (svc.sessionKey id)
  | invalidated {call : Nat} {key : Str} : w.calls call = .invalidating key →
      Deletes w (.invalidate call) key

theorem Deletes.removes {key : Str} (deletes : Deletes w a key) : Removes w a key := by
  cases deletes with
  | deleted id => exact .deleted id
  | ended id => exact .ended id
  | invalidated waits => exact .invalidated waits

theorem linked_key (run : Run (Step py) init history w) {call : Nat} {key transactionId : Str}
    (linking : w.calls call = .linking key transactionId) :
    ∃ svc : AuthService U, ∃ id, key = svc.transactionKey id := by
  obtain ⟨_, event, _, _, enters⟩ := run_entered run linking (by simp)
  obtain ⟨before, label, after⟩ := event
  simp only at enters
  cases enters
  exact ⟨_, _, rfl⟩

theorem unlinked_key (run : Run (Step py) init history w) {call : Nat} {key : Str}
    (unlinking : w.calls call = .unlinking key) :
    ∃ svc : AuthService U, ∃ id, key = svc.transactionKey id := by
  obtain ⟨_, event, _, rfl, enters⟩ := run_entered run unlinking (by simp)
  obtain ⟨reached, _⟩ := run.at_event
  obtain ⟨before, label, after⟩ := event
  simp only at enters reached
  cases enters with
  | unlinking linking => exact linked_key reached linking

theorem removes_session (run : Run (Step py) init history w) {svc : AuthService U} {id : Str}
    (removes : Removes w a (svc.sessionKey id)) : Deletes w a (svc.sessionKey id) ∨
      ∃ entry now, a = .expire (svc.sessionKey id) now ∧
        w.store.find? (svc.sessionKey id) = some entry ∧ entry.deadline ≤ now := by
  generalize keyed : svc.sessionKey id = key at removes ⊢
  cases removes with
  | taken given => exact absurd keyed.symm (AuthService.transactionKey_ne_sessionKey _ _ _ _)
  | unlinked waits =>
      obtain ⟨svc', id', same⟩ := unlinked_key run waits
      exact absurd (same.symm.trans keyed.symm) (AuthService.transactionKey_ne_sessionKey _ _ _ _)
  | cancelled given => exact absurd keyed.symm (AuthService.transactionKey_ne_sessionKey _ _ _ _)
  | invalidated waits => exact Or.inl (.invalidated waits)
  | deleted given => exact Or.inl (.deleted given)
  | ended given => exact Or.inl (.ended given)
  | expired present late => exact Or.inr ⟨_, _, rfl, present, late⟩

variable {call : Nat} {login : Login U} {session : BrowserSession} {id : Str} {ttl : Int}

theorem run_drew (run : Run (Step py) init history w)
    (opening : w.calls call = .opening login session id ttl) :
    ∃ event ∈ history, ∃ user csrfToken now, ∃ secret : Secret 43,
      event.label = .upserted call user secret csrfToken now ∧ secret.text = id := by
  obtain ⟨_, _, upserted, member, _, _, _, _, user, csrfToken, now, secret, _, _, _, _, label, drawn, _⟩ :=
    run_dated run opening
  exact ⟨upserted, member, some user, csrfToken, now, secret, label, drawn⟩

theorem drew_once (run : Run (Step py) init history w) {first second : Event (World U) (Action U)}
    (left : first ∈ history) (right : second ∈ history) {call' : Nat} {login' : Login U}
    {session' : BrowserSession} {ttl' : Int}
    (opening : first.before.calls call = .opening login session id ttl)
    (opening' : second.before.calls call' = .opening login' session' id ttl') : call = call' := by
  obtain ⟨_, _, rfl, reached, _⟩ := run.of_mem left
  obtain ⟨drew, member, _, _, _, secret, label, drawn⟩ := run_drew reached opening
  obtain ⟨_, _, shape, reached', _⟩ := run.of_mem right
  obtain ⟨drew', member', _, _, _, secret', label', drawn'⟩ := run_drew reached' opening'
  have mine : id ∈ drew.label.secrets := by
    rw [label, ← drawn]
    exact List.mem_cons_self
  have again : id ∈ drew'.label.secrets := by
    rw [label', ← drawn']
    exact List.mem_cons_self
  have equal := drawn_once run (List.mem_append_left _ member)
    (shape ▸ List.mem_append_left _ member') mine again
  subst equal
  injection label.symm.trans label'

theorem session_written_once {earlier later : List (Event (World U) (Action U))}
    {opened : Event (World U) (Action U)} (run : Run (Step py) init (earlier ++ opened :: later) w)
    {created : Clock} (label : opened.label = .createSession call created)
    (opening : opened.before.calls call = .opening login session id ttl) {svc : AuthService U}
    {event : Event (World U) (Action U)} (member : event ∈ later) {entry : Entry Str Stored}
    (writes : Writes event.before event.label entry) : entry.key ≠ svc.sessionKey id := by
  intro keyed
  have ended := run_ended run
  rw [List.pairwise_append, List.pairwise_cons] at ended
  have apart := ended.2.1.1 event member
  obtain ⟨_, step⟩ := run.at_event
  rw [label] at step
  have inside : event ∈ earlier ++ opened :: later :=
    List.mem_append_right _ (List.mem_cons_of_mem _ member)
  obtain ⟨before, label', after⟩ := event
  simp only at writes apart
  cases writes with
  | begun => exact AuthService.transactionKey_ne_sessionKey _ _ _ _ keyed
  | opened opening' =>
      obtain ⟨_, _, rfl⟩ := AuthService.sessionKey_injective keyed
      have same := drew_once run List.mem_append_cons_self inside opening opening'
      subst same
      rw [apart call (createSession_ends step)] at opening'
      cases opening'

end Rows

section Lives

/-- A login on the surface of the service created the session under this id, nobody deleted it
since, and its lifetime in the store is not over. -/
def Lives (py : Builtins) (history : List (Event (World U) (Action U))) (svc : AuthService U)
    (id : Str) (session : BrowserSession) (now : Clock) : Prop :=
  ∃ earlier opened later call login ttl created,
    history = earlier ++ opened :: later ∧ opened.label = .createSession call created ∧
    opened.before.calls call = .opening login session id ttl ∧
    outcome py opened = some (.completed id session.principal.expiresAt login.returnTo) ∧
    login.service.settings.appSlug = svc.settings.appSlug ∧ login.service.surface = svc.surface ∧
    (∀ event ∈ later, ¬ Deletes event.before event.label (svc.sessionKey id)) ∧
    now < created + seconds ttl ∧
    ∀ event ∈ later, ∀ at_, event.label = .expire (svc.sessionKey id) at_ → at_ < created + seconds ttl

theorem sessionKey_congr {svc svc' : AuthService U} (id : Str)
    (slug : svc.settings.appSlug = svc'.settings.appSlug) (surface : svc.surface = svc'.surface) :
    svc.sessionKey id = svc'.sessionKey id := by
  rw [AuthService.sessionKey_eq, AuthService.sessionKey_eq, slug, surface]

variable {call : Nat} {login : Login U} {session : BrowserSession} {id : Str} {ttl : Int}
variable {svc : AuthService U} {now : Clock}

theorem createSession_spec {event : Event (World U) (Action U)} {created : Clock}
    (step : Step py event.before event.label event.after)
    (label : event.label = .createSession call created)
    (opening : event.before.calls call = .opening login session id ttl) :
    (outcome py event = some (.completed id session.principal.expiresAt login.returnTo) ∧
      event.after.store.find? (login.service.sessionKey id) =
        some ⟨login.service.sessionKey id, .session session, created + seconds ttl⟩) ∨
    ((∃ error, outcome py event = some (.raised error)) ∧ event.after.store = event.before.store) := by
  obtain ⟨_, _, performed⟩ := step
  rw [label] at performed
  simp only [perform, react, opening, Option.map_some, Option.some.injEq] at performed
  cases stored : (event.before.store.create (login.service.sessionKey id) (.session session)
      (seconds ttl) created).1 with
  | true =>
      refine Or.inl ⟨by simp [outcome, label, perform, react, opening, stored, ends], ?_⟩
      rw [← performed, ends_store, Store.find?_create stored, if_pos rfl]
  | false =>
      refine Or.inr ⟨⟨.unauthorized "The session could not be created" "session_expired", by
        simp [outcome, label, perform, react, opening, stored, ends]⟩, ?_⟩
      rw [← performed, ends_store, Store.create_of_not stored]

theorem Lives.read (run : Run (Step py) init history w)
    (lives : Lives py history svc id session now) :
    w.store.read (svc.sessionKey id) now = some (.session session) := by
  obtain ⟨earlier, opened, later, call, login, ttl, created, rfl, label, opening, completed, slug,
    surface, kept, early, unexpired⟩ := lives
  obtain ⟨reached, step⟩ := run.at_event
  have key := sessionKey_congr id slug surface
  have stored : opened.after.store.find? (svc.sessionKey id) =
      some ⟨svc.sessionKey id, .session session, created + seconds ttl⟩ := by
    rcases createSession_spec step label opening with ⟨_, row⟩ | ⟨⟨_, raised⟩, _⟩
    · rwa [key] at row
    · rw [completed] at raised
      cases raised
  refine Store.read_eq_some.mpr ⟨_, ?_, early⟩
  refine Run.carried (fun state => state.store.find? (svc.sessionKey id) = some
    ⟨svc.sessionKey id, .session session, created + seconds ttl⟩) run
    (fun event member row taken => ?_) stored
  obtain ⟨front, back, rfl⟩ := List.append_of_mem member
  obtain ⟨_, did⟩ := step_did taken
  rcases did.row (svc.sessionKey id) with same | ⟨_, removes⟩ | ⟨entry, _, keyed, writes⟩
  · exact same.trans row
  · have split : earlier ++ opened :: (front ++ event :: back) =
        (earlier ++ opened :: front) ++ event :: back := by simp
    rw [split] at run
    rcases removes_session run.at_event.1 removes with deletes | ⟨entry, at_, expire, found, late⟩
    · exact absurd deletes (kept event member)
    · rw [row] at found
      rw [← Option.some.inj found] at late
      exact absurd (unexpired event member at_ expire) (not_lt.mpr late)
  · exact absurd keyed (session_written_once run label opening member writes)

theorem lives_of_read (run : Run (Step py) init history w)
    (read : w.store.read (svc.sessionKey id) now = some (.session session)) :
    Lives py history svc id session now := by
  obtain ⟨deadline, found, early⟩ := Store.read_eq_some.mp read
  obtain ⟨earlier, opened, later, rfl, writes, changed, kept⟩ := entry_since run found
  have opening : ∃ call login ttl created, opened.label = .createSession call created ∧
      opened.before.calls call = .opening login session id ttl ∧
      login.service.settings.appSlug = svc.settings.appSlug ∧
      login.service.surface = svc.surface ∧ deadline = created + seconds ttl := by
    obtain ⟨before, label, after⟩ := opened
    simp only at writes ⊢
    generalize keyed : svc.sessionKey id = key at writes
    cases writes with
    | opened opening =>
        obtain ⟨slug, surface, rfl⟩ := AuthService.sessionKey_injective keyed
        exact ⟨_, _, _, _, rfl, opening, slug.symm, surface.symm, rfl⟩
  obtain ⟨call, login, ttl, created, label, opening, slug, surface, rfl⟩ := opening
  obtain ⟨_, step⟩ := run.at_event
  have completed := (createSession_spec step label opening).resolve_right fun raised =>
    changed raised.2
  have stays (event : Event (World U) (Action U)) (member : event ∈ later) :
      ¬ Removes event.before event.label (svc.sessionKey id) := by
    obtain ⟨front, back, rfl⟩ := List.append_of_mem member
    have split : earlier ++ opened :: (front ++ event :: back) =
        (earlier ++ opened :: front) ++ event :: back := by simp
    rw [split] at run
    exact kept_not_removed run.at_event.2 (kept event member).2
  refine ⟨earlier, opened, later, call, login, ttl, created, rfl, label, opening, completed.1, slug,
    surface, fun event member deletes => stays event member deletes.removes, early,
    fun event member at_ expire => ?_⟩
  by_contra late
  refine stays event member ?_
  rw [expire]
  exact @Removes.expired U _ ⟨_, _, created + seconds ttl⟩ at_ (kept event member).1 (not_lt.mp late)

theorem checkSession_some {raw : Option Stored} {clock : Clock} :
    (svc.checkSession raw clock).1 = some session ↔ raw = some (.session session) ∧
      clock < session.principal.expiresAt ∧ svc.matchesProfile session.principal = true := by
  unfold AuthService.checkSession
  split
  · simp
  · simp
  · rename_i stored
    split_ifs with expired drifted
    · constructor
      · simp
      · rintro ⟨same, early, _⟩
        cases same
        exact absurd early (not_lt.mpr expired)
    · constructor
      · simp
      · rintro ⟨same, _, current⟩
        cases same
        simp [current] at drifted
    · constructor
      · intro same
        cases same
        exact ⟨rfl, not_le.mp expired, by simpa using drifted⟩
      · rintro ⟨same, _, _⟩
        cases same
        rfl

theorem getBrowserSession_outcome {event : Event (World U) (Action U)} {given : Option Str}
    {clock : Clock} (step : Step py event.before event.label event.after)
    (label : event.label = .getBrowserSession call svc given now clock) :
    outcome py event = some (.session ((presented given).bind fun id =>
      (svc.checkSession (event.before.store.read (svc.sessionKey id) now) clock).1)) := by
  obtain ⟨_, _, performed⟩ := step
  obtain ⟨result, ran, _⟩ := Option.map_eq_some_iff.mp performed
  rw [label] at ran
  have idle : event.before.calls call = .idle := by
    simp only [perform, react] at ran
    split at ran
    · assumption
    · cases ran
  cases id : presented given <;> simp [outcome, label, perform, react, idle, id, ends]

theorem Lives.presented (run : Run (Step py) init history w)
    (lives : Lives py history svc id session now) : presented (some id) = some id := by
  obtain ⟨earlier, opened, later, call, login, ttl, created, rfl, label, opening, _⟩ := lives
  obtain ⟨reached, _⟩ := run.at_event
  obtain ⟨_, _, _, _, _, secret, _, rfl⟩ := run_drew reached opening
  have long := secret.length_eq
  refine Option.filter_eq_some_iff.mpr ⟨rfl, ?_⟩
  simp only [ne_eq, decide_eq_true_eq]
  exact ⟨fun empty => by simp [empty] at long, by omega⟩

/-- `get_browser_session` returns a session exactly when a login on this surface created it under
the presented id, it was not deleted since, it has expired neither in the store nor by its own
date, and the profile is still the one it was created under; it returns that session, whose expiry
is bounded by the provider's and by the session lifetime. -/
theorem session_sound_complete (run : Run (Step py) init history w) :
    (∀ front event rest call svc given now clock, history = front ++ event :: rest →
      event.label = .getBrowserSession call svc given now clock →
      (∀ session, outcome py event = some (.session (some session)) ↔ ∃ id, given = some id ∧
        Lives py front svc id session now ∧ clock < session.principal.expiresAt ∧
        svc.matchesProfile session.principal = true) ∧
      ((∀ session, outcome py event ≠ some (.session (some session))) →
        outcome py event = some (.session none))) ∧
    ∀ front event rest call login session id ttl created, history = front ++ event :: rest →
      event.label = .createSession call created →
      event.before.calls call = .opening login session id ttl →
      Dated py front call login session id ttl := by
  constructor
  · rintro front event rest call svc given now clock rfl label
    obtain ⟨reached, step⟩ := run.at_event
    have told := getBrowserSession_outcome step label
    refine ⟨fun session => ?_, fun nothing => ?_⟩
    · rw [told, Option.some.injEq, Outcome.session.injEq, Option.bind_eq_some_iff]
      constructor
      · rintro ⟨id, shown, returned⟩
        obtain ⟨read, early, current⟩ := checkSession_some.mp returned
        exact ⟨id, presented_eq shown, lives_of_read reached read, early, current⟩
      · rintro ⟨id, rfl, lives, early, current⟩
        exact ⟨id, lives.presented reached,
          checkSession_some.mpr ⟨lives.read reached, early, current⟩⟩
    · rw [told]
      cases returned : (presented given).bind fun id =>
          (svc.checkSession (event.before.store.read (svc.sessionKey id) now) clock).1 with
      | none => rfl
      | some session => exact absurd (told.trans (by rw [returned])) (nothing session)
  · rintro front event rest call login session id ttl created rfl _ opening
    exact run_dated run.at_event.1 opening

def sampleSession : BrowserSession where
  principal := {
    subject := "ada".toList
    issuer := "https://id.example".toList
    app := "tpl".toList
    surface := .web
    audience := "client".toList
    actorId := 5
    displayName := some "ada".toList
    email := none
    roles := ["admin".toList]
    scopes := []
    authenticatedAt := seconds 10
    expiresAt := seconds 3611
    policyVersion := "1".toList }
  csrfToken := List.replicate 43 'f'

def lookSteps : List (Action Settings.asciiPlatform) :=
  loginSteps ++ [.getBrowserSession 2 sampleService (some (List.replicate 43 'e')) (seconds 20)
    (seconds 20)]

theorem lookSteps_taken : ∀ event ∈ events sampleBuiltins lookSteps, Taken sampleBuiltins event := by
  decide

theorem session_sound_complete_sample : ∃ id, some (List.replicate 43 'e') = some id ∧
    Lives sampleBuiltins (events sampleBuiltins loginSteps) sampleService id sampleSession
      (seconds 20) ∧
    seconds 20 < sampleSession.principal.expiresAt ∧
    sampleService.matchesProfile sampleSession.principal = true :=
  (((session_sound_complete (events_run _ _ lookSteps_taken)).1 (events sampleBuiltins loginSteps) _ []
    2 sampleService _ (seconds 20) (seconds 20) rfl rfl).1 sampleSession).mp rfl

end Lives

end World

end TplBackend
