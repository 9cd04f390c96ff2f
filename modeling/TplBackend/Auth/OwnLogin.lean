import TplBackend.Auth.Browsers

/-! A browser gets a session only through a login that it has begun itself. -/

namespace TplBackend

open Keyed Raise Text Transition Url

variable {U : Platform} {β : Type}

def Move.service? : Move U β → Option (AuthService U)
  | .login _ _ svc .. | .callback _ _ svc .. | .abandon _ svc | .look _ _ svc .. | .logout _ svc _ =>
    some svc
  | .forget .. => none
  | .server a => a.service?

namespace Net

variable {py : Builtins} {settings : Settings} {net net' : Net U β} {move : Move U β}
variable {history : List (Event (Net U β) (Move U β))} {browser : β} {name value : Str}

def Shared (settings : Settings) (history : List (Event (Net U β) (Move U β))) : Prop :=
  ∀ event ∈ history, ∀ svc, event.label.service? = some svc → svc.settings = settings

section Calls

theorem asks_action {call : Nat} {p : Pending U β} (asked : asks move = some (call, p))
    (net : Net U β) : ∃ a, net.action move = some a ∧ a.starts? = some call ∧ a.call? = some call := by
  cases move with
  | login =>
      cases asked
      exact ⟨_, rfl, rfl, rfl⟩
  | callback =>
      cases asked
      exact ⟨_, rfl, rfl, rfl⟩
  | look =>
      cases asked
      exact ⟨_, rfl, rfl, rfl⟩
  | abandon | logout | forget | server => cases asked

theorem waiting_cases {call : Nat} {p : Pending U β} (waits : net.waiting move call = some p) :
    net.pending call = some p ∨ asks move = some (call, p) := by
  cases asked : asks move with
  | none =>
      rw [waiting, asked] at waits
      exact Or.inl waits
  | some made =>
      obtain ⟨other, pending⟩ := made
      rw [waiting, asked] at waits
      by_cases same : call = other
      · subst same
        simp only [Function.update_self, Option.some_inj] at waits
        exact Or.inr (congrArg (fun p => some (call, p)) waits)
      · simp only [Function.update_of_ne same] at waits
        exact Or.inl waits

variable [DecidableEq β]

theorem begun_once (run : Run (Step py) init history net)
    {first second : Event (Net U β) (Move U β)} (left : first ∈ history) (right : second ∈ history)
    {a a' : Action U} {call : Nat} (acts : first.before.action first.label = some a)
    (acts' : second.before.action second.label = some a') (starts : a.starts? = some call)
    (starts' : a'.starts? = some call) : first = second := by
  let Others (first second : Event (Net U β) (Move U β)) : Prop :=
    ∀ a a' call, first.before.action first.label = some a →
      second.before.action second.label = some a' → a.starts? = some call → a'.starts? ≠ some call
  have symmetric : Std.Symm Others :=
    ⟨fun _ _ others a a' call acts acts' starts starts' =>
      others a' a call acts' acts starts' starts⟩
  have apart : history.Pairwise Others := by
    refine (List.pairwise_filterMap.mp (World.starts_once (run_world run))).imp ?_
    intro first second others a a' call acts acts' starts
    have told {event : Event (Net U β) (Move U β)} {a : Action U}
        (acts : event.before.action event.label = some a) :
        worldEvent event = some ⟨event.before.world, a, event.after.world⟩ := by
      rw [worldEvent, acts]
      rfl
    exact others _ (told acts) _ (told acts') call starts
  by_contra different
  exact apart.forall left right different a a' call acts acts' starts starts'

theorem step_pending (step : Step py net move net') : net'.pending = net.waiting move := by
  have moved := step.2
  unfold next at moved
  split at moved
  · rename_i still
    rw [← Option.some.inj moved]
    cases move with
    | forget => rfl
    | login | callback | abandon | look | logout | server => cases still
  · obtain ⟨said, _, rfl⟩ := Option.map_eq_some_iff.mp moved
    rfl

theorem pending_asked (run : Run (Step py) init history net) {call : Nat} {p : Pending U β}
    (waits : net.pending call = some p) : ∃ event ∈ history, asks event.label = some (call, p) := by
  induction run with
  | init => cases waits
  | @next history before after move shorter step ih =>
      rw [step_pending step] at waits
      rcases waiting_cases waits with old | asked
      · obtain ⟨event, member, asked⟩ := ih old
        exact ⟨event, List.mem_append_left _ member, asked⟩
      · exact ⟨_, List.mem_append_right _ List.mem_cons_self, asked⟩

end Calls

section Cookies

variable [DecidableEq β]

theorem setCookie_none {jar : Jar} {other : Str} (set : setCookie jar other none name = some value) :
    jar name = some value := by
  unfold setCookie at set
  by_cases same : name = other
  · subst same
    rw [Function.update_self] at set
    cases set
  · rwa [Function.update_of_ne same] at set

theorem setCookie_some {jar : Jar} {other given : Str}
    (set : setCookie jar other (some given) name = some value) :
    jar name = some value ∨ name = other ∧ given = value := by
  unfold setCookie at set
  by_cases same : name = other
  · subst same
    rw [Function.update_self, Option.some_inj] at set
    exact Or.inr ⟨rfl, set⟩
  · rw [Function.update_of_ne same] at set
    exact Or.inl set

def Sets (svc : AuthService U) (told : Outcome) (name value : Str) : Prop :=
  told = .started value ∧ name = svc.transactionCookieName ∨
    ∃ expiresAt returnTo, told = .completed value expiresAt returnTo ∧ name = svc.sessionCookieName

theorem respond_cases {svc : AuthService U} {jar : Jar} {told : Outcome}
    (holds : respond svc jar told name = some value) :
    jar name = some value ∨ Sets svc told name value := by
  cases told with
  | started transactionId =>
      rcases setCookie_some holds with old | ⟨rfl, rfl⟩
      · exact Or.inl old
      · exact Or.inr (Or.inl ⟨rfl, rfl⟩)
  | completed sessionId expiresAt returnTo =>
      rcases setCookie_some (setCookie_none holds) with old | ⟨rfl, rfl⟩
      · exact Or.inl old
      · exact Or.inr (Or.inr ⟨expiresAt, returnTo, rfl, rfl⟩)
  | awaits | raised | exchanges | session | done => exact Or.inl holds

theorem respondError_cases {svc : AuthService U} {jar : Jar} {a : Action U} {told : Outcome}
    (holds : respondError svc jar a told name = some value) :
    jar name = some value ∨ Sets svc told name value := by
  unfold respondError at holds
  split at holds
  · split at holds
    · exact Or.inl (setCookie_none holds)
    · exact Or.inl holds
  · split at holds
    · exact Or.inl (setCookie_none holds)
    · exact Or.inl holds
  · split at holds
    · exact Or.inl (setCookie_none holds)
    · exact Or.inl holds
  · split at holds
    · exact Or.inl (setCookie_none holds)
    · exact Or.inl holds
  · exact respond_cases holds

theorem withJar_cases {other : β} {jar : Jar}
    (holds : (net.withJar other jar).jars browser name = some value) :
    net.jars browser name = some value ∨ browser = other ∧ jar name = some value := by
  unfold withJar at holds
  by_cases same : browser = other
  · subst same
    simp only [Function.update_self] at holds
    exact Or.inr ⟨rfl, holds⟩
  · simp only [Function.update_of_ne same] at holds
    exact Or.inl holds

theorem dropped_cases (holds : (net.dropped move).jars browser name = some value) :
    net.jars browser name = some value := by
  cases move with
  | abandon | logout | forget =>
      rcases withJar_cases holds with old | ⟨rfl, kept⟩
      · exact old
      · exact setCookie_none kept
  | login | callback | look | server => exact holds

theorem step_cookie (step : Step py net move net') (holds : net'.jars browser name = some value) :
    net.jars browser name = some value ∨ ∃ a said call p, net.action move = some a ∧
      net.world.perform py a = some said ∧ a.call? = some call ∧ net.waiting move call = some p ∧
      p.browser = browser ∧ Sets p.service said.1 name value := by
  cases acts : net.action move with
  | none =>
      have moved := step.2
      rw [next, acts] at moved
      rw [← Option.some.inj moved] at holds
      exact Or.inl (dropped_cases holds)
  | some a =>
      obtain ⟨said, performed, rfl, _⟩ := step_world step acts
      simp only [after] at holds
      split at holds
      · rename_i p waits
        obtain ⟨call, called, waits⟩ := Option.bind_eq_some_iff.mp waits
        rcases withJar_cases holds with old | ⟨rfl, set⟩
        · exact Or.inl old
        · rcases respondError_cases set with old | sets
          · exact Or.inl old
          · exact Or.inr ⟨a, said, call, p, rfl, performed, called, waits, rfl, sets⟩
      · exact Or.inl (dropped_cases holds)

end Cookies

section Provenance

def Handed (history : List (Event (Net U β) (Move U β))) (browser : β) (name value : Str) : Prop :=
  ∃ event ∈ history, ∃ call svc returnTo mode, ∃ transactionId state nonce : Secret 43,
    ∃ codeVerifier now, event.label =
      .login browser call svc returnTo mode transactionId state nonce codeVerifier now ∧
      name = svc.transactionCookieName ∧ value = transactionId.text

def Gained (history : List (Event (Net U β) (Move U β))) (browser : β)
    (name value : Str) : Prop :=
  ∃ earlier opened later asked call svc code state now created login session ttl,
    history = earlier ++ opened :: later ∧ asked ∈ earlier ∧
    asked.label = .callback browser call svc code state now ∧
    opened.label = .server (.createSession call created) ∧
    opened.before.world.calls call = .opening login session value ttl ∧
    name = svc.sessionCookieName

theorem Handed.later (handed : Handed history browser name value)
    (event : Event (Net U β) (Move U β)) : Handed (history ++ [event]) browser name value := by
  obtain ⟨begun, member, rest⟩ := handed
  exact ⟨begun, List.mem_append_left _ member, rest⟩

theorem Gained.later (gained : Gained history browser name value)
    (event : Event (Net U β) (Move U β)) : Gained (history ++ [event]) browser name value := by
  obtain ⟨earlier, opened, later, asked, call, svc, code, state, now, created, login, session, ttl,
    rfl, rest⟩ := gained
  exact ⟨earlier, opened, later ++ [event], asked, call, svc, code, state, now, created, login,
    session, ttl, by simp, rest⟩

theorem of_worldEvent {event : Event (World U) (Action U)}
    (member : event ∈ history.filterMap worldEvent) : ∃ origin ∈ history,
      origin.before.action origin.label = some event.label ∧ event.before = origin.before.world ∧
        event.after = origin.after.world := by
  obtain ⟨origin, inside, told⟩ := List.mem_filterMap.mp member
  obtain ⟨a, acts, rfl⟩ := Option.map_eq_some_iff.mp told
  exact ⟨origin, inside, acts, rfl, rfl⟩

variable [DecidableEq β]

theorem handed_of_started (run : Run (Step py) init history net) {a : Action U}
    {said : Outcome × World U} {call : Nat} {p : Pending U β} {transactionId : Str}
    (acts : net.action move = some a) (performed : net.world.perform py a = some said)
    (called : a.call? = some call) (waits : net.waiting move call = some p)
    (started : said.1 = .started transactionId) :
    Handed history p.browser p.service.transactionCookieName transactionId := by
  obtain ⟨call', key, rfl, linking⟩ := World.started_spec performed started
  obtain rfl : call' = call := Option.some.inj called
  have served : move = .server (.linked call' true) := by
    cases move with
    | server => exact congrArg Move.server (Option.some.inj acts)
    | login | callback | abandon | look | logout => cases Option.some.inj acts
    | forget => cases acts
  subst served
  have waiting_ : net.pending call' = some p := waits
  obtain ⟨asked, member, asks_⟩ := pending_asked run waiting_
  obtain ⟨act, asking, starts, _⟩ := asks_action asks_ asked.before
  obtain ⟨earlier, entered, later, split, enters⟩ :=
    World.run_entered (run_world run) linking (by simp)
  have inside : entered ∈ history.filterMap worldEvent := by
    rw [split]
    exact List.mem_append_cons_self
  obtain ⟨origin, here, origins, _, _⟩ := of_worldEvent inside
  obtain ⟨before, label, after⟩ := entered
  simp only at enters origins
  cases enters with
  | linking idle =>
      have same : asked = origin := begun_once run member here asking origins starts rfl
      subst same
      rw [asking, Option.some_inj] at origins
      refine ⟨asked, member, ?_⟩
      cases label : asked.label with
      | login browser other svc returnTo mode transactionId state nonce codeVerifier now =>
          rw [label] at asks_ asking
          cases asks_
          rw [← Option.some.inj asking] at origins
          cases origins
          exact ⟨_, _, _, _, _, _, _, _, _, rfl, rfl, rfl⟩
      | callback | look =>
          rw [label] at asking
          rw [← Option.some.inj asking] at origins
          cases origins
      | abandon | logout | forget | server =>
          rw [label] at asks_
          cases asks_

theorem asked_callback (run : Run (Step py) init history net) {call : Nat} {login : Login U}
    {p : Pending U β} (inside : World.login? (net.world.calls call) = some login)
    (waits : net.pending call = some p) : ∃ asked ∈ history, ∃ code state now,
      asked.label = .callback p.browser call p.service code state now := by
  obtain ⟨asked, member, asks_⟩ := pending_asked run waits
  obtain ⟨act, asking, starts, _⟩ := asks_action asks_ asked.before
  obtain ⟨earlier, entered, later, split, enters, _⟩ := World.run_login (run_world run) inside
  have worldly : entered ∈ history.filterMap worldEvent := by
    rw [split]
    exact List.mem_append_cons_self
  obtain ⟨origin, here, origins, _, _⟩ := of_worldEvent worldly
  obtain ⟨before, label, after⟩ := entered
  simp only at enters origins
  cases enters with
  | exchanging idle given checked =>
      have same : asked = origin := begun_once run member here asking origins starts rfl
      subst same
      rw [asking, Option.some_inj] at origins
      refine ⟨asked, member, ?_⟩
      cases label : asked.label with
      | callback browser other svc code state now =>
          rw [label] at asks_
          cases asks_
          exact ⟨_, _, _, rfl⟩
      | login | look =>
          rw [label] at asking
          rw [← Option.some.inj asking] at origins
          cases origins
      | abandon | logout | forget | server =>
          rw [label] at asks_
          cases asks_

theorem completed_spec {w : World U} {a : Action U} {said : Outcome × World U} {sessionId : Str}
    {expiresAt : Clock} {returnTo : Str} (performed : w.perform py a = some said)
    (completed : said.1 = .completed sessionId expiresAt returnTo) :
    ∃ call created login session ttl, a = .createSession call created ∧
      w.calls call = .opening login session sessionId ttl := by
  have tells := (World.perform_did performed).tells
  rw [completed] at tells
  cases tells with
  | completed opening _ => exact ⟨_, _, _, _, _, rfl, opening⟩

theorem gained_of_completed (run : Run (Step py) init history net) {a : Action U}
    {said : Outcome × World U} {call : Nat} {p : Pending U β} {sessionId : Str} {expiresAt : Clock}
    {returnTo : Str} (acts : net.action move = some a) (performed : net.world.perform py a = some said)
    (called : a.call? = some call) (waits : net.waiting move call = some p)
    (completed : said.1 = .completed sessionId expiresAt returnTo) (net' : Net U β) :
    Gained (history ++ [⟨net, move, net'⟩]) p.browser p.service.sessionCookieName sessionId := by
  obtain ⟨call', created, login, session, ttl, rfl, opening⟩ := completed_spec performed completed
  obtain rfl : call' = call := Option.some.inj called
  have served : move = .server (.createSession call' created) := by
    cases move with
    | server => exact congrArg Move.server (Option.some.inj acts)
    | login | callback | abandon | look | logout => cases Option.some.inj acts
    | forget => cases acts
  subst served
  have waiting_ : net.pending call' = some p := waits
  obtain ⟨asked, member, code, state, now, label⟩ :=
    asked_callback run (by rw [opening]; rfl) waiting_
  exact ⟨history, _, [], asked, call', p.service, code, state, now, created, login, session, ttl,
    rfl, member, label, rfl, opening, rfl⟩

theorem cookie_origin (run : Run (Step py) init history net)
    (holds : net.jars browser name = some value) :
    Handed history browser name value ∨ Gained history browser name value := by
  induction run with
  | init => cases holds
  | @next history before after move shorter step ih =>
      rcases step_cookie step holds with old | set
      · rcases ih old with handed | gained
        · exact Or.inl (handed.later _)
        · exact Or.inr (gained.later _)
      · obtain ⟨a, said, call, p, acts, performed, called, waits, rfl, sets⟩ := set
        rcases sets with ⟨started, rfl⟩ | ⟨expiresAt, returnTo, completed, rfl⟩
        · exact Or.inl ((handed_of_started shorter acts performed called waits started).later _)
        · exact Or.inr (gained_of_completed shorter acts performed called waits completed after)

end Provenance

section Names

variable {svc svc' : AuthService U}

theorem surface_text_bare (surface : BrowserSurface) : '_' ∉ surface.text := by
  cases surface <;> decide

theorem cookieName_inj {kind kind' : Str} (settings : svc.settings = svc'.settings)
    (same : svc.cookieName kind = svc'.cookieName kind') : svc = svc' ∧ kind = kind' := by
  unfold AuthService.cookieName at same
  rw [settings] at same
  have behind := List.append_cancel_left same
  obtain ⟨surfaces, kinds⟩ := split_at_first (surface_text_bare _) (surface_text_bare _)
    (List.cons.inj behind).2
  exact ⟨AuthService.eq_of_settings settings (AuthService.surface_text_injective surfaces), kinds⟩

end Names

section OwnLogin

/-- The browser began a login, called back with the state and the transaction id of that login, and
its call created the session. -/
def OwnLogin (history : List (Event (Net U β) (Move U β))) (browser : β) (svc : AuthService U)
    (sessionId : Str) : Prop :=
  ∃ earlier begun between asked later opened rest, ∃ call call' : Nat, ∃ returnTo mode code,
    ∃ transactionId state nonce : Secret 43, ∃ codeVerifier began now created login session ttl,
      history = earlier ++ begun :: between ++ asked :: later ++ opened :: rest ∧
      begun.label =
        .login browser call svc returnTo mode transactionId state nonce codeVerifier began ∧
      asked.label = .callback browser call' svc code state.text now ∧
      asked.before.jars browser svc.transactionCookieName = some transactionId.text ∧
      opened.label = .server (.createSession call' created) ∧
      opened.before.world.calls call' = .opening login session sessionId ttl

variable [DecidableEq β]

omit [DecidableEq β] in
theorem worldEvent_mem {event : Event (Net U β) (Move U β)} {a : Action U} (member : event ∈ history)
    (acts : event.before.action event.label = some a) :
    ⟨event.before.world, a, event.after.world⟩ ∈ history.filterMap worldEvent := by
  refine List.mem_filterMap.mpr ⟨event, member, ?_⟩
  rw [worldEvent, acts]
  rfl

theorem handed_cookie (run : Run (Step py) init history net) (shared : Shared settings history)
    {svc : AuthService U} (own : svc.settings = settings)
    (holds : net.jars browser svc.transactionCookieName = some value) :
    ∃ begun ∈ history, ∃ call returnTo mode, ∃ transactionId state nonce : Secret 43,
      ∃ codeVerifier now, begun.label =
        .login browser call svc returnTo mode transactionId state nonce codeVerifier now ∧
        value = transactionId.text := by
  rcases cookie_origin run holds with handed | gained
  · obtain ⟨begun, member, call, svc', returnTo, mode, transactionId, state, nonce, codeVerifier, now,
      label, named, drawn⟩ := handed
    have same := shared begun member svc' (by rw [label]; rfl)
    obtain ⟨rfl, _⟩ := cookieName_inj (own.trans same.symm) named
    exact ⟨begun, member, call, returnTo, mode, transactionId, state, nonce, codeVerifier, now, label,
      drawn⟩
  · obtain ⟨earlier, opened, rest, asked, call, svc', code, state, now, created, login, session, ttl,
      rfl, member, label, _, _, named⟩ := gained
    have same := shared asked (List.mem_append_left _ member) svc' (by rw [label]; rfl)
    exact absurd (cookieName_inj (own.trans same.symm) named).2 (by decide)

theorem redeemed_own (run : Run (Step py) init history net) (shared : Shared settings history)
    {asked : Event (Net U β) (Move U β)} {call : Nat} {svc : AuthService U} {code state : Str}
    {now : Clock} {login : Login U} (member : asked ∈ history)
    (label : asked.label = .callback browser call svc code state now)
    (inside : World.login? (net.world.calls call) = some login) :
    ∃ earlier begun between later, ∃ call' returnTo mode, ∃ transactionId drawn nonce : Secret 43,
      ∃ codeVerifier began, history = earlier ++ begun :: between ++ asked :: later ∧ begun.label =
        .login browser call' svc returnTo mode transactionId drawn nonce codeVerifier began ∧
        asked.before.jars browser svc.transactionCookieName = some transactionId.text ∧
        state = drawn.text := by
  obtain ⟨_, begun', _, redeemed, _, b, split, begins, _, _, redeems, _⟩ :=
    World.login_redeems (run_world run) inside
  have redeemedIn : redeemed ∈ history.filterMap worldEvent := by
    rw [split]
    simp
  have begunIn : begun' ∈ history.filterMap worldEvent := by
    rw [split]
    simp
  obtain ⟨origin, here, origins, _, _⟩ := of_worldEvent redeemedIn
  obtain ⟨now', told, _⟩ := redeems.label
  have asking : asked.before.action asked.label = some (.completeLogin call svc code state
      (asked.before.jars browser svc.transactionCookieName) now) := by
    rw [label]
    rfl
  rw [told] at origins
  have same : asked = origin := begun_once run member here asking origins rfl rfl
  subst same
  rw [asking, Option.some_inj] at origins
  injection origins with _ _ _ states cookie _
  obtain ⟨front, later, rfl, reached, _⟩ := run.of_mem member
  have mine : svc.settings = settings := shared asked member svc (by rw [label]; rfl)
  have earlierShared : Shared settings front := fun event inside =>
    shared event (List.mem_append_left _ inside)
  obtain ⟨begun, began, call', returnTo, mode, transactionId, drawn, nonce, codeVerifier, at_, begins',
    id⟩ := handed_cookie reached earlierShared mine cookie
  have beginning : begun.before.action begun.label = some (.beginLogin call' svc returnTo mode
      transactionId drawn nonce codeVerifier at_) := by
    rw [begins']
    rfl
  have drew := worldEvent_mem (List.mem_append_left (asked :: later) began) beginning
  have equal := World.drawn_once (run_world run) begunIn drew begins.draws.1
    (by rw [id]; exact List.mem_cons_self)
  rw [equal] at begins
  obtain ⟨earlier, between, rfl⟩ := List.append_of_mem began
  refine ⟨earlier, begun, between, later, call', returnTo, mode, transactionId, drawn, nonce,
    codeVerifier, at_, rfl, begins', by rw [cookie, id], ?_⟩
  cases begins with
  | begun _ _ => exact states

theorem ownLogin_of_gained (run : Run (Step py) init history net) (shared : Shared settings history)
    (gained : Gained history browser name value) : ∃ svc : AuthService U,
      svc.settings = settings ∧ name = svc.sessionCookieName ∧ OwnLogin history browser svc value := by
  obtain ⟨front, opened, rest, asked, call, svc, code, state, now, created, login, session, ttl,
    rfl, member, label, served, opening, rfl⟩ := gained
  obtain ⟨reached, _⟩ := run.at_event
  have mine : svc.settings = settings :=
    shared asked (List.mem_append_left _ member) svc (by rw [label]; rfl)
  have earlierShared : Shared settings front := fun event inside =>
    shared event (List.mem_append_left _ inside)
  obtain ⟨earlier, begun, between, later, call', returnTo, mode, transactionId, drawn, nonce,
    codeVerifier, began, rfl, begins, cookie, rfl⟩ :=
    redeemed_own reached earlierShared member label (by rw [opening]; rfl)
  exact ⟨svc, mine, rfl, earlier, begun, between, asked, later, opened, rest, call', call, returnTo,
    mode, code, transactionId, drawn, nonce, codeVerifier, began, now, created, login, session, ttl,
    rfl, begins, label, cookie, served, opening⟩

theorem gained_once (run : Run (Step py) init history net) {browser' : β} {name' : Str}
    (gained : Gained history browser name value) (gained' : Gained history browser' name' value) :
    browser = browser' ∧ name = name' := by
  obtain ⟨front, opened, rest, asked, call, svc, code, state, now, created, login, session, ttl,
    split, member, label, served, opening, rfl⟩ := gained
  obtain ⟨front', opened', rest', asked', call', svc', code', state', now', created', login', session',
    ttl', split', member', label', served', opening', rfl⟩ := gained'
  have inside : asked ∈ history := by
    rw [split]
    exact List.mem_append_left _ member
  have inside' : asked' ∈ history := by
    rw [split']
    exact List.mem_append_left _ member'
  have acts : opened.before.action opened.label = some (.createSession call created) := by
    rw [served]
    rfl
  have acts' : opened'.before.action opened'.label = some (.createSession call' created') := by
    rw [served']
    rfl
  have calls : call = call' := World.drew_once (run_world run)
    (worldEvent_mem (by rw [split]; exact List.mem_append_cons_self) acts)
    (worldEvent_mem (by rw [split']; exact List.mem_append_cons_self) acts') opening opening'
  subst calls
  have same : asked = asked' := begun_once run inside inside' (by rw [label]; rfl)
    (by rw [label']; rfl) rfl rfl
  subst same
  rw [label] at label'
  injection label' with browsers _ services
  exact ⟨browsers, by rw [services]⟩

/-- Whatever other clients send and wherever a browser is led, it has a session only from a login
that it has begun, called back for with the state it was given, and seen through; and no two browsers
and no two surfaces have one session. -/
theorem session_of_own_login (run : Run (Step py) init history net)
    (shared : Shared settings history) {svc : AuthService U} (own : svc.settings = settings)
    {sessionId : Str} (holds : net.jars browser svc.sessionCookieName = some sessionId) :
    OwnLogin history browser svc sessionId ∧
      ∀ (browser' : β) (svc' : AuthService U), svc'.settings = settings →
        net.jars browser' svc'.sessionCookieName = some sessionId →
          browser' = browser ∧ svc' = svc := by
  have gains {browser : β} {svc : AuthService U} (own : svc.settings = settings)
      (holds : net.jars browser svc.sessionCookieName = some sessionId) :
      Gained history browser svc.sessionCookieName sessionId := by
    rcases cookie_origin run holds with handed | gained
    · obtain ⟨begun, member, _, svc', _, _, _, _, _, _, _, label, named, _⟩ := handed
      have same := shared begun member svc' (by rw [label]; rfl)
      exact absurd (cookieName_inj (own.trans same.symm) named).2 (by decide)
    · exact gained
  constructor
  · obtain ⟨svc', same, named, login⟩ := ownLogin_of_gained run shared (gains own holds)
    obtain ⟨rfl, _⟩ := cookieName_inj (own.trans same.symm) named
    exact login
  · intro browser' svc' own' holds'
    obtain ⟨rfl, named⟩ := gained_once run (gains own holds) (gains own' holds')
    exact ⟨rfl, (cookieName_inj (own.trans own'.symm) named).1.symm⟩

end OwnLogin

section Sample

def sampleMoves : List (Move Settings.asciiPlatform Unit) :=
  [.login () 0 sampleService (some "/home/x".toList) "login".toList (letterSecret 0 43)
      (letterSecret 1 43) (letterSecret 2 43) (letterSecret 3 86) 0,
    .server (.linked 0 true),
    .callback () 1 sampleService "code".toList (List.replicate 43 'b') (seconds 10),
    .server (.exchanged 1 (some (sampleClaims "shop".toList [.str "admin".toList])) (seconds 11)),
    .server (.upserted 1 (some 5) (letterSecret 4 43) (letterSecret 5 43) (seconds 11)),
    .server (.createSession 1 (seconds 11))]

def sampleEvents : List (Event (Net Settings.asciiPlatform Unit) (Move Settings.asciiPlatform Unit)) :=
  trace (fun net move => (next sampleBuiltins net move).getD net) init sampleMoves

theorem sampleEvents_run : Run (Step sampleBuiltins) init sampleEvents
    (sampleMoves.foldl (fun net move => (next sampleBuiltins net move).getD net) init) := by
  have taken : ∀ event ∈ sampleEvents, (∀ a ∈ event.before.action event.label,
      a.secrets.Nodup ∧ ∀ secret ∈ a.secrets, secret ∉ event.before.world.secrets) ∧
        (next sampleBuiltins event.before event.label).isSome = true := by decide
  refine Run.of_trace fun event member => ?_
  obtain ⟨fresh, enabled⟩ := taken event member
  obtain ⟨net', moved⟩ := Option.isSome_iff_exists.mp enabled
  exact ⟨fresh, by rw [moved]; rfl⟩

theorem sampleEvents_shared : Shared Settings.sampleSettings sampleEvents := by
  intro event member svc named
  have move := label_mem_of_mem_trace member
  simp only [sampleMoves, List.mem_cons, List.not_mem_nil, or_false] at move
  rcases move with label | label | label | label | label | label <;> rw [label] at named <;>
    cases named <;> rfl

theorem session_of_own_login_sample :
    OwnLogin sampleEvents () sampleService (List.replicate 43 'e') :=
  (session_of_own_login sampleEvents_run sampleEvents_shared rfl rfl).1

end Sample

end Net

end TplBackend
