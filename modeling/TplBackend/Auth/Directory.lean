import TplBackend.Auth.Admission
import TplBackend.Library.Unique

/-! The user directory: which local account a login reaches. -/

namespace TplBackend

open Keyed Raise Text Transition Url

variable {U : Platform}

/-- A text on its way into a `varchar(limit)`: only spaces may be cut off, and no NUL is stored. -/
def varchar (limit : Nat) (text : Str) : Option Str :=
  if '\x00' ∈ text then none
  else if text.length ≤ limit then some text
  else if (text.drop limit).all (· == ' ') then some (text.take limit)
  else none

/-- A text on its way into a column without a length. -/
def textColumn (text : Str) : Option Str := if '\x00' ∈ text then none else some text

/-- A list of texts on its way into a `jsonb`. -/
def jsonbColumn (items : List Str) : Option (List Str) := items.mapM textColumn

/-- The columns that `UPSERT_USER` sets, as the table takes them. -/
def UpsertUser.columns (user : UpsertUser) : Option UpsertUser := do
  let issuer ← textColumn user.issuer
  let subject ← varchar 512 user.subject
  let username ← varchar 255 user.username
  let email ← user.email.mapM (varchar 320)
  let displayName ← user.displayName.mapM (varchar 256)
  let roles ← jsonbColumn user.roles
  let scopes ← jsonbColumn user.scopes
  return { issuer, subject, username, email, displayName, roles, scopes }

/-- A row of `auth_user`. -/
structure AuthUser where
  id : Uuid
  issuer : Str
  subject : Str
  username : Option Str
  email : Option Str
  displayName : Option Str
  roles : List Str
  scopes : List Str
  createdAt : Clock
  updatedAt : Clock

namespace AuthUser

/-- The columns of `uq_auth_user_issuer_subject` -/
def identity (row : AuthUser) : Str × Str := (row.issuer, row.subject)

/-- The row that `INSERT INTO auth_user` makes. -/
def new (id : Uuid) (user : UpsertUser) (now : Clock) : AuthUser where
  id := id
  issuer := user.issuer
  subject := user.subject
  username := some user.username
  email := user.email
  displayName := user.displayName
  roles := user.roles
  scopes := user.scopes
  createdAt := now
  updatedAt := now

/-- `DO UPDATE SET` -/
def set (user : UpsertUser) (now : Clock) (row : AuthUser) : AuthUser :=
  { row with
    username := some user.username
    email := user.email
    displayName := user.displayName
    roles := user.roles
    scopes := user.scopes
    updatedAt := now }

end AuthUser

/-- The table `auth_user`. -/
abbrev Users := Unique AuthUser.id AuthUser.identity

/-- `UPSERT_USER` -/
def Users.upsert (users : Users) (drawn : Uuid) (user : UpsertUser) (now : Clock) :
    Option (AuthUser × Users) := do
  let user ← user.columns
  Unique.upsert users (.new drawn user now) (.set user now) (fun _ => rfl) (fun _ => rfl)

/-- How the transaction of an upsert ends: committed and answered, committed with its answer lost, or
not committed. -/
inductive Ending
  | answered
  | unanswered
  | failed

/-- What `SqlUserDirectory.upsert` returns, `none` where it raises, and the table it leaves. -/
def Users.serve (users : Users) (ending : Ending) (drawn : Uuid) (user : UpsertUser) (now : Clock) :
    Option Uuid × Users :=
  match users.upsert drawn user now with
  | none => (none, users)
  | some (row, users') =>
    match ending with
    | .answered => (some row.id, users')
    | .unanswered => (none, users')
    | .failed => (none, users)

structure Accounts (U : Platform) where
  world : World U
  users : Users

/-- A step of the services, with what the directory draws and how it ends where a login waits for
it. -/
inductive Visit (U : Platform)
  | act (action : Action U)
  | upserted (call : Nat) (drawn : Uuid) (ending : Ending) (at_ : Clock)
      (sessionId csrfToken : Secret 43) (now : Clock)

namespace Accounts

def init : Accounts U := ⟨World.init, Unique.empty⟩

def request (s : Accounts U) : Visit U → Option (Action U × Users)
  | .act (.upserted ..) => none
  | .act a => some (a, s.users)
  | .upserted call drawn ending at_ sessionId csrfToken now =>
    match s.world.calls call with
    | .upserting _ draft =>
      let (id, users) := s.users.serve ending drawn draft.user at_
      some (.upserted call id sessionId csrfToken now, users)
    | _ => none

def Step (py : Builtins) (s : Accounts U) (visit : Visit U) (s' : Accounts U) : Prop :=
  ∃ a, s.request visit = some (a, s'.users) ∧ World.Step py s.world a s'.world

def worldEvent (event : Event (Accounts U) (Visit U)) : Option (Event (World U) (Action U)) :=
  (event.before.request event.label).map fun done => ⟨event.before.world, done.1, event.after.world⟩

def Commits (event : Event (Accounts U) (Visit U)) (user : UpsertUser) (row : AuthUser) (at_ : Clock) :
    Prop :=
  ∃ call drawn ending sessionId csrfToken now login draft,
    event.label = .upserted call drawn ending at_ sessionId csrfToken now ∧ ending ≠ .failed ∧
    event.before.world.calls call = .upserting login draft ∧ draft.user = user ∧
    event.before.users.upsert drawn user at_ = some (row, event.after.users)

def Shows (py : Builtins) (history : List (Event (Accounts U) (Visit U))) (session : BrowserSession) :
    Prop :=
  ∃ event ∈ history, ∃ call svc given now clock,
    event.label = .act (.getBrowserSession call svc given now clock) ∧
    ∃ inner, worldEvent event = some inner ∧
      World.outcome py inner = some (.session (some session))

end Accounts

section Columns

variable {user given : UpsertUser}

theorem textColumn_eq {text column : Str} (taken : textColumn text = some column) :
    column = text := by
  unfold textColumn at taken
  split at taken
  · cases taken
  · exact (Option.some.inj taken).symm

theorem varchar_eq {limit : Nat} {text column : Str} (taken : varchar limit text = some column)
    (short : text.length ≤ limit) : column = text := by
  unfold varchar at taken
  split at taken
  · cases taken
  · exact (Option.some.inj taken).symm

theorem jsonbColumn_eq {items column : List Str} (taken : jsonbColumn items = some column) :
    column = items := by
  unfold jsonbColumn at taken
  induction items generalizing column with
  | nil =>
      cases taken
      rfl
  | cons item items ih =>
      rw [List.mapM_cons, Option.bind_eq_bind, Option.bind_eq_some_iff] at taken
      obtain ⟨first, one, taken⟩ := taken
      rw [Option.bind_eq_bind, Option.bind_eq_some_iff] at taken
      obtain ⟨rest, others, taken⟩ := taken
      cases taken
      rw [textColumn_eq one, ih others]

theorem mapM_varchar_eq {limit : Nat} {value column : Option Str}
    (taken : value.mapM (varchar limit) = some column)
    (short : value.all (Principal.sized 0 limit) = true) : column = value := by
  cases value with
  | none => exact (Option.some.inj taken).symm
  | some text =>
      obtain ⟨kept, one, rfl⟩ := Option.map_eq_some_iff.mp taken
      rw [varchar_eq one (by simpa [Principal.sized] using short)]

/-- The columns that a session takes over are stored as they are. -/
theorem columns_spec (taken : user.columns = some given) : given.issuer = user.issuer ∧
    (user.subject.length ≤ 512 → given.subject = user.subject) ∧
    (user.email.all (Principal.sized 0 320) = true → given.email = user.email) ∧
    (user.displayName.all (Principal.sized 0 256) = true → given.displayName = user.displayName) ∧
    given.roles = user.roles ∧ given.scopes = user.scopes := by
  simp only [UpsertUser.columns, Option.bind_eq_bind, Option.bind_eq_some_iff] at taken
  obtain ⟨_, issuer, _, subject, _, _, _, email, _, displayName, _, roles, _, scopes, same⟩ := taken
  cases same
  exact ⟨textColumn_eq issuer, varchar_eq subject, mapM_varchar_eq email,
    mapM_varchar_eq displayName, jsonbColumn_eq roles, jsonbColumn_eq scopes⟩

end Columns

namespace Accounts

variable {py : Builtins} {s s' : Accounts U} {visit : Visit U} {user : UpsertUser} {row : AuthUser}
variable {at_ now : Clock} {event : Event (Accounts U) (Visit U)} {call : Nat} {login : Login U}
variable {draft : Draft} {id : Uuid} {sessionId csrfToken : Secret 43} {session : BrowserSession}
variable {history : List (Event (Accounts U) (Visit U))}

theorem worldEvent_some {inner : Event (World U) (Action U)} (seen : worldEvent event = some inner) :
    (∃ users, event.before.request event.label = some (inner.label, users)) ∧
      inner.before = event.before.world ∧ inner.after = event.after.world := by
  rw [worldEvent, Option.map_eq_some_iff] at seen
  obtain ⟨⟨a, users⟩, requested, rfl⟩ := seen
  exact ⟨⟨users, requested⟩, rfl, rfl⟩

theorem run_world (run : Run (Step py) init history s) :
    Run (World.Step py) World.init (history.filterMap worldEvent) s.world := by
  induction run with
  | init => exact .init
  | @next history before after visit shorter step ih =>
      obtain ⟨a, requested, taken⟩ := step
      have one : worldEvent ⟨before, visit, after⟩ = some ⟨before.world, a, after.world⟩ := by
        rw [worldEvent, requested]
        rfl
      rw [List.filterMap_append, List.filterMap_cons_some one, List.filterMap_nil]
      exact ih.next taken

theorem Commits.upserted (commits : Commits event user row at_) : ∃ given drawn,
    user.columns = some given ∧
      Unique.Upserted event.before.users (.new drawn given at_) (.set given at_) row
        event.after.users := by
  obtain ⟨_, drawn, _, _, _, _, _, _, _, _, _, _, ran⟩ := commits
  rw [Users.upsert, Option.bind_eq_bind, Option.bind_eq_some_iff] at ran
  obtain ⟨given, taken, ran⟩ := ran
  exact ⟨given, drawn, taken, Unique.upsert_spec ran⟩

theorem Commits.columns (commits : Commits event user row at_) : ∃ given, user.columns = some given ∧
    row.issuer = given.issuer ∧ row.subject = given.subject ∧ row.email = given.email ∧
    row.displayName = given.displayName ∧ row.roles = given.roles ∧ row.scopes = given.scopes := by
  obtain ⟨given, drawn, taken, upserted⟩ := commits.upserted
  obtain ⟨issuer, subject⟩ := Prod.mk.inj upserted.kept
  refine ⟨given, taken, issuer, subject, ?_⟩
  rcases upserted.source with ⟨rfl, _⟩ | ⟨old, _, _, rfl, _⟩
  · exact ⟨rfl, rfl, rfl, rfl⟩
  · exact ⟨rfl, rfl, rfl, rfl⟩

theorem step_users (step : Step py s visit s') :
    s'.users = s.users ∨ ∃ user row at_, Commits ⟨s, visit, s'⟩ user row at_ := by
  obtain ⟨a, requested, _⟩ := step
  unfold request at requested
  split at requested
  · cases requested
  · exact Or.inl (Prod.mk.inj (Option.some.inj requested)).2.symm
  · rename_i call drawn ending at_ sessionId csrfToken now
    split at requested
    · rename_i login draft waiting
      have served := (Prod.mk.inj (Option.some.inj requested)).2
      split at served
      · exact Or.inl served.symm
      · rename_i row users ran
        have commits (some_ : ending ≠ .failed) (same : users = s'.users) :
            Commits ⟨s, .upserted call drawn ending at_ sessionId csrfToken now, s'⟩ draft.user row at_ :=
          ⟨call, drawn, ending, sessionId, csrfToken, now, login, draft, rfl, some_, waiting, rfl,
            by rw [ran, same]⟩
        cases ending with
        | answered => exact Or.inr ⟨_, _, _, commits (by simp) served⟩
        | unanswered => exact Or.inr ⟨_, _, _, commits (by simp) served⟩
        | failed => exact Or.inl served.symm
    · cases requested

theorem step_within (step : Step py s visit s') : s.users.Within s'.users := by
  rcases step_users step with same | ⟨user, row, at_, commits⟩
  · rw [same]
    exact .refl _
  · obtain ⟨given, drawn, _, upserted⟩ := commits.upserted
    exact upserted.within

theorem answered_commits (inner : worldEvent event = some ⟨event.before.world,
    .upserted call (some id) sessionId csrfToken now, event.after.world⟩)
    (step : Step py event.before event.label event.after)
    (waiting : event.before.world.calls call = .upserting login draft) :
    ∃ row at_, Commits event draft.user row at_ ∧ row.id = id := by
  obtain ⟨a, requested, _⟩ := step
  rw [worldEvent, requested, Option.map_some, Option.some_inj, Event.mk.injEq] at inner
  obtain ⟨_, rfl, _⟩ := inner
  unfold request at requested
  split at requested
  · cases requested
  · rename_i only _
    exact absurd (Prod.mk.inj (Option.some.inj requested)).1 (only _ _ _ _ _)
  · rename_i call' drawn ending at_ sessionId' csrfToken' now' label
    split at requested
    · rename_i login' draft' waiting'
      obtain ⟨asked, served⟩ := Prod.mk.inj (Option.some.inj requested)
      injection asked with calls answer
      subst calls
      rw [waiting] at waiting'
      cases waiting'
      split at answer
      · cases answer
      · rename_i row users ran
        rw [ran] at served
        cases ending with
        | answered =>
            exact ⟨row, at_, ⟨call', drawn, .answered, sessionId', csrfToken', now', login, draft,
              label, by simp, waiting, rfl, by rw [ran, ← served]⟩, Option.some.inj answer⟩
        | unanswered => cases answer
        | failed => cases answer
    · cases requested

structure Describes (row : AuthUser) (p : Principal) : Prop where
  id : row.id = p.actorId
  issuer : row.issuer = p.issuer
  subject : row.subject = p.subject
  email : row.email = p.email
  displayName : row.displayName = p.displayName
  roles : Principal.normalize row.roles = p.roles
  scopes : Principal.normalize row.scopes = p.scopes

theorem shown_committed (run : Run (Step py) init history s) (shows : Shows py history session) :
    ∃ event ∈ history, ∃ user row at_, Commits event user row at_ ∧
      Describes row session.principal := by
  obtain ⟨looked, member, call, svc, given, now, clock, label, inner, seen, told⟩ := shows
  have world := run_world run
  obtain ⟨_, _, shape, reached, step⟩ := world.of_mem (List.mem_filterMap.mpr ⟨looked, member, seen⟩)
  have asked : inner.label = .getBrowserSession call svc given now clock := by
    obtain ⟨⟨users, requested⟩, _⟩ := worldEvent_some seen
    rw [label] at requested
    exact (Prod.mk.inj (Option.some.inj requested)).1.symm
  have returned := (World.getBrowserSession_outcome step asked).symm.trans told
  rw [Option.some_inj, Outcome.session.injEq, Option.bind_eq_some_iff] at returned
  obtain ⟨id, _, checked⟩ := returned
  obtain ⟨read, _⟩ := World.checkSession_some.mp checked
  obtain ⟨opened, inside, _, _, _, opening, _⟩ := (World.lives_of_read reached read).opening
  obtain ⟨_, _, rfl, before, _⟩ := reached.of_mem inside
  obtain ⟨_, upserted, _, rfl, enters⟩ := World.run_entered before opening (by simp)
  obtain ⟨entered, _⟩ := before.at_event
  have present : upserted ∈ history.filterMap worldEvent := by
    rw [shape]
    simp
  obtain ⟨event, member', same⟩ := List.mem_filterMap.mp present
  obtain ⟨_, _, _, _, step'⟩ := run.of_mem member'
  obtain ⟨_, before', after'⟩ := worldEvent_some same
  obtain ⟨w, label', w'⟩ := upserted
  obtain rfl := before'
  obtain rfl := after'
  simp only at enters entered
  cases enters with
  | @opening _ _ draft _ _ _ _ _ _ upserting made valid =>
      obtain ⟨row, at_, commits, rfl⟩ := answered_commits same step' upserting
      obtain ⟨displayName, email⟩ := World.upserting_sized entered upserting
      obtain ⟨given, taken, issuer, subject, rowEmail, rowName, rowRoles, rowScopes⟩ :=
        commits.columns
      obtain ⟨sameIssuer, sameSubject, sameEmail, sameName, sameRoles, sameScopes⟩ :=
        columns_spec taken
      obtain ⟨_, _, _, _, validated⟩ := principalOf_ok.mp made
      obtain ⟨⟨texts, _⟩, rfl⟩ := validate_ok.mp validated
      have short : draft.user.subject.length ≤ 512 := by
        simp only [Bool.and_eq_true, Principal.sized, decide_eq_true_eq] at texts
        exact texts.1.1.1.1.1.1.2
      refine ⟨event, member', _, row, at_, commits, ?_⟩
      rw [World.validate_session valid]
      exact ⟨rfl, issuer.trans sameIssuer, subject.trans (sameSubject short),
        rowEmail.trans (sameEmail email), rowName.trans (sameName displayName),
        congrArg _ (rowRoles.trans sameRoles), congrArg _ (rowScopes.trans sameScopes)⟩

theorem Commits.stays (run : Run (Step py) init history s) (member : event ∈ history)
    (commits : Commits event user row at_) :
    ∃ row' ∈ s.users.table, row'.id = row.id ∧ row'.identity = row.identity := by
  obtain ⟨earlier, later, rfl⟩ := List.append_of_mem member
  obtain ⟨given, drawn, _, upserted⟩ := commits.upserted
  have written : row ∈ event.after.users.table := (upserted.mem row).mpr (Or.inl rfl)
  have kept (before : Accounts U) (visit : Visit U) (after : Accounts U)
      (within : event.after.users.Within before.users) (step : Step py before visit after) :
      event.after.users.Within after.users := within.trans (step_within step)
  exact Run.stable kept run (Unique.Within.refl _) row written

/-- Whatever logins run beside each other on either surface, and whatever becomes of the answers of
the directory: two sessions that requests were given have the same actor exactly if they have the
same issuer and the same subject, the account of that actor is still there, and what a session says
of its user is what a login of this very identity wrote. -/
theorem actor_of_identity (run : Run (Step py) init history s)
    (shows : Shows py history session) :
    (∃ event ∈ history, ∃ user row at_, Commits event user row at_ ∧
      Describes row session.principal) ∧
    (∃ row ∈ s.users.table, row.id = session.principal.actorId ∧
      row.issuer = session.principal.issuer ∧ row.subject = session.principal.subject) ∧
    ∀ session', Shows py history session' →
      (session'.principal.actorId = session.principal.actorId ↔
        session'.principal.issuer = session.principal.issuer ∧
          session'.principal.subject = session.principal.subject) := by
  have account (session : BrowserSession) (shows : Shows py history session) :
      ∃ row ∈ s.users.table, row.id = session.principal.actorId ∧
        row.issuer = session.principal.issuer ∧ row.subject = session.principal.subject := by
    obtain ⟨event, member, user, row, at_, commits, describes⟩ := shown_committed run shows
    obtain ⟨row', present, ids, identity⟩ := commits.stays run member
    obtain ⟨issuer, subject⟩ := Prod.mk.inj identity
    exact ⟨row', present, ids.trans describes.id, issuer.trans describes.issuer,
      subject.trans describes.subject⟩
  refine ⟨shown_committed run shows, account session shows, fun session' shows' => ?_⟩
  obtain ⟨row, member, ids, issuer, subject⟩ := account session shows
  obtain ⟨row', member', ids', issuer', subject'⟩ := account session' shows'
  rw [← ids, ← ids', ← issuer, ← issuer', ← subject, ← subject']
  constructor
  · intro same
    rw [Table.eq_of_key_eq member' member same]
    exact ⟨rfl, rfl⟩
  · rintro ⟨issuers, subjects⟩
    rw [Unique.eq_of_other_eq member' member (Prod.ext issuers subjects)]

theorem Commits.unique {user' : UpsertUser} {row' : AuthUser} {at' : Clock}
    (commits : Commits event user row at_) (commits' : Commits event user' row' at') : row' = row := by
  obtain ⟨_, _, _, _, _, _, login, draft, label, _, waiting, rfl, ran⟩ := commits
  obtain ⟨_, _, _, _, _, _, login', draft', label', _, waiting', rfl, ran'⟩ := commits'
  injection label.symm.trans label' with calls draws _ times
  subst calls draws times
  rw [waiting] at waiting'
  cases waiting'
  exact (Prod.mk.inj (Option.some.inj (ran'.symm.trans ran))).1

/-- Where a row comes from: the last commit under its identity wrote it, and the first made it. -/
structure Written (history : List (Event (Accounts U) (Visit U))) (row : AuthUser) : Prop where
  last : ∃ earlier event later user, history = earlier ++ event :: later ∧
    Commits event user row row.updatedAt ∧
    ∀ other ∈ later, ∀ user' row' at', Commits other user' row' at' → row'.identity ≠ row.identity
  first : ∃ earlier event later user row', history = earlier ++ event :: later ∧
    Commits event user row' row.createdAt ∧ row'.id = row.id ∧ row'.identity = row.identity ∧
    ∀ other ∈ earlier, ∀ user' row' at', Commits other user' row' at' → row'.identity ≠ row.identity

theorem Written.snoc (written : Written history row)
    (apart : ∀ user' row' at', Commits event user' row' at' → row'.identity ≠ row.identity) :
    Written (history ++ [event]) row := by
  obtain ⟨⟨earlier, last, later, user, rfl, commits, others⟩,
    ⟨earlier', first, later', user', row', shape, made, ids, identity, none_⟩⟩ := written
  refine ⟨⟨earlier, last, later ++ [event], user, by simp, commits, fun other member => ?_⟩,
    ⟨earlier', first, later' ++ [event], user', row', by rw [shape]; simp, made, ids, identity,
      none_⟩⟩
  rcases List.mem_append.mp member with inside | new
  · exact others other inside
  · rw [List.mem_singleton.mp new]
    exact apart

/-- Every row of the table is the one that the last committed login of its identity wrote, whether
or not that login got its answer, under the id and with the creation time of the first. -/
theorem account_of_last_login (run : Run (Step py) init history s) (member : row ∈ s.users.table) :
    Written history row := by
  induction run generalizing row with
  | init => exact absurd member (Table.not_mem_empty row)
  | @next history before after visit shorter step ih =>
      by_cases committed : ∃ user row at_, Commits ⟨before, visit, after⟩ user row at_
      · obtain ⟨user, new, at_, commits⟩ := committed
        obtain ⟨given, drawn, _, upserted⟩ := commits.upserted
        rcases (upserted.mem row).mp member with rfl | ⟨old, other⟩
        · rcases upserted.source with ⟨rfl, fresh⟩ | ⟨old, present, same, rfl, _⟩
          · refine ⟨⟨history, _, [], user, rfl, commits, by simp⟩,
              ⟨history, _, [], user, _, rfl, commits, rfl, rfl, fun other inside user' row' at' made => ?_⟩⟩
            obtain ⟨old, present, _, identity⟩ := made.stays shorter inside
            rw [← identity]
            exact (fresh old present).1
          · refine ⟨⟨history, _, [], user, rfl, commits, by simp⟩, ?_⟩
            obtain ⟨earlier, first, later, user', row', rfl, made, ids, identity, none_⟩ :=
              (ih present).first
            exact ⟨earlier, first, later ++ [_], user', row', List.append_assoc earlier (first :: later) _,
              made, ids, identity, none_⟩
        · refine (ih old).snoc fun user' row' at' commits' => ?_
          rw [commits.unique commits']
          exact fun same => other (same.symm.trans upserted.kept)
      · have same : after.users = before.users :=
          (step_users step).resolve_right committed
        rw [same] at member
        exact (ih member).snoc fun user' row' at' commits => absurd ⟨_, _, _, commits⟩ committed

section Sample

def next (py : Builtins) (s : Accounts U) (visit : Visit U) : Option (Accounts U) := do
  let (a, users) ← s.request visit
  let (_, world) ← s.world.perform py a
  return ⟨world, users⟩

def sampleVisits : List (Visit Settings.asciiPlatform) :=
  [.act (.beginLogin 0 sampleService (some "/home/x".toList) "login".toList (letterSecret 0 43)
      (letterSecret 1 43) (letterSecret 2 43) (letterSecret 3 86) 0),
    .act (.linked 0 true),
    .act (.completeLogin 1 sampleService "code".toList (List.replicate 43 'b')
      (some (List.replicate 43 'a')) (seconds 10)),
    .act (.exchanged 1 (some (sampleClaims "shop".toList [.str "admin".toList])) (seconds 11)),
    .upserted 1 5 .answered (seconds 11) (letterSecret 4 43) (letterSecret 5 43) (seconds 11),
    .act (.createSession 1 (seconds 11)),
    .act (.getBrowserSession 2 sampleService (some (List.replicate 43 'e')) (seconds 20)
      (seconds 20))]

def sampleVisited : List (Event (Accounts Settings.asciiPlatform) (Visit Settings.asciiPlatform)) :=
  trace (fun s visit => (next sampleBuiltins s visit).getD s) init sampleVisits

theorem sampleVisited_run : Run (Step sampleBuiltins) init sampleVisited
    (sampleVisits.foldl (fun s visit => (next sampleBuiltins s visit).getD s) init) := by
  have taken : ∀ event ∈ sampleVisited, (∀ done ∈ event.before.request event.label,
      done.1.secrets.Nodup ∧ ∀ secret ∈ done.1.secrets, secret ∉ event.before.world.secrets) ∧
        (next sampleBuiltins event.before event.label).isSome = true := by decide
  refine Run.of_trace fun event member => ?_
  obtain ⟨fresh, enabled⟩ := taken event member
  obtain ⟨s', moved⟩ := Option.isSome_iff_exists.mp enabled
  rw [moved, Option.getD_some]
  simp only [next, Option.bind_eq_bind, Option.bind_eq_some_iff] at moved
  obtain ⟨⟨a, users⟩, requested, said, performed, same⟩ := moved
  cases same
  obtain ⟨distinct, drawn⟩ := fresh _ requested
  exact ⟨a, requested, distinct, drawn, by rw [performed]; rfl⟩

def sampleAccount : AuthUser :=
  .new 5 ⟨"https://id.example".toList, "ada".toList, "ada".toList, none, some "ada".toList,
    ["admin".toList], []⟩ (seconds 11)

theorem sampleVisited_shows : Shows sampleBuiltins sampleVisited World.sampleSession :=
  ⟨_, List.mem_of_getElem? (i := 6) rfl, 2, sampleService, _, _, _, rfl, _, rfl, rfl⟩

theorem actor_of_identity_sample :
    (∃ event ∈ sampleVisited, ∃ user row at_, Commits event user row at_ ∧
      Describes row World.sampleSession.principal) ∧
    (World.sampleSession.principal.actorId = 5 ↔
      World.sampleSession.principal.issuer = "https://id.example".toList ∧
        World.sampleSession.principal.subject = "ada".toList) := by
  obtain ⟨told, _, others⟩ := actor_of_identity sampleVisited_run sampleVisited_shows
  exact ⟨told, others World.sampleSession sampleVisited_shows⟩

theorem account_of_last_login_sample : Written sampleVisited sampleAccount :=
  account_of_last_login sampleVisited_run List.mem_cons_self

end Sample

end Accounts

end TplBackend
