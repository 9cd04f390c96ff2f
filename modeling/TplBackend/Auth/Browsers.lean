import TplBackend.Auth.Sessions
import TplBackend.Auth.Usability

/-! The browsers of a surface: the cookies that the authentication routes read and set. -/

namespace TplBackend

open Keyed Raise Text Transition Url

variable {U : Platform}

namespace AuthService

def cookieName (svc : AuthService U) (kind : Str) : Str :=
  "sunmoonai_".toList ++ svc.settings.appSlug ++ '_' :: (svc.surface.text ++ '_' :: kind)

/-- `session_cookie_name` of the profile -/
def sessionCookieName (svc : AuthService U) : Str := svc.cookieName ['s', 'i', 'd']

/-- `transaction_cookie_name` of the profile -/
def transactionCookieName (svc : AuthService U) : Str :=
  svc.cookieName ['o', 'i', 'd', 'c', '_', 't', 'x']

end AuthService

abbrev Jar := Str → Option Str

structure Pending (U : Platform) (β : Type) where
  browser : β
  service : AuthService U

structure Net (U : Platform) (β : Type) where
  world : World U
  jars : β → Jar
  pending : Nat → Option (Pending U β)

/-- What a browser asks for, with what its user and the pages that lead it here choose; or a step of
the server that no cookie has a part in: the next step of a call, or a request of any other client,
which may carry whatever it likes. -/
inductive Move (U : Platform) (β : Type)
  /-- `login` and `signup` -/
  | login (browser : β) (call : Nat) (svc : AuthService U) (returnTo : Option Str) (mode : Str)
      (transactionId state nonce : Secret 43) (codeVerifier : Secret 86) (now : Clock)
  /-- `callback` with a code and a state -/
  | callback (browser : β) (call : Nat) (svc : AuthService U) (code state : Str) (now : Clock)
  /-- `callback` without them -/
  | abandon (browser : β) (svc : AuthService U)
  /-- the session of a request -/
  | look (browser : β) (call : Nat) (svc : AuthService U) (now clock : Clock)
  /-- `logout`, once its session has passed -/
  | logout (browser : β) (svc : AuthService U) (state : Secret 22)
  /-- A cookie is cleared, or its time is over. -/
  | forget (browser : β) (name : Str)
  | server (action : Action U)

def Action.call? : Action U → Option Nat
  | .beginLogin call .. | .linked call _ | .unlink call | .completeLogin call .. | .exchanged call ..
  | .upserted call .. | .createSession call _ | .getBrowserSession call .. | .invalidate call =>
    some call
  | .cancelLogin .. | .deleteSession .. | .endSession .. | .expire .. => none

def Action.starts? : Action U → Option Nat
  | .beginLogin call .. | .completeLogin call .. | .getBrowserSession call .. => some call
  | _ => none

namespace Net

variable {β : Type}

def init : Net U β := ⟨World.init, fun _ _ => none, fun _ => none⟩

def action (net : Net U β) : Move U β → Option (Action U)
  | .login _ call svc returnTo mode transactionId state nonce codeVerifier now =>
    some (.beginLogin call svc returnTo mode transactionId state nonce codeVerifier now)
  | .callback browser call svc code state now =>
    some (.completeLogin call svc code state (net.jars browser svc.transactionCookieName) now)
  | .abandon browser svc => some (.cancelLogin svc (net.jars browser svc.transactionCookieName))
  | .look browser call svc now clock =>
    some (.getBrowserSession call svc (net.jars browser svc.sessionCookieName) now clock)
  | .logout browser svc state => some (.endSession svc (net.jars browser svc.sessionCookieName) state)
  | .forget _ _ => none
  | .server a => some a

def asks : Move U β → Option (Nat × Pending U β)
  | .login browser call svc .. | .callback browser call svc .. | .look browser call svc .. =>
    some (call, ⟨browser, svc⟩)
  | _ => none

variable [DecidableEq β]

def setCookie (jar : Jar) (name : Str) (value : Option Str) : Jar := Function.update jar name value

def respond (svc : AuthService U) (jar : Jar) : Outcome → Jar
  | .started transactionId => setCookie jar svc.transactionCookieName (some transactionId)
  | .completed sessionId _ _ =>
    setCookie (setCookie jar svc.sessionCookieName (some sessionId)) svc.transactionCookieName none
  | _ => jar

/-- The callback deletes the cookie of a login that an `AppException` ended. -/
def respondError (svc : AuthService U) (jar : Jar) : Action U → Outcome → Jar
  | .completeLogin .., .raised error | .exchanged .., .raised error | .upserted .., .raised error
  | .createSession .., .raised error =>
    if error.isApp then setCookie jar svc.transactionCookieName none else jar
  | _, told => respond svc jar told

def withJar (net : Net U β) (browser : β) (jar : Jar) : Net U β :=
  { net with jars := Function.update net.jars browser jar }

def dropped (net : Net U β) : Move U β → Net U β
  | .abandon browser svc =>
    net.withJar browser (setCookie (net.jars browser) svc.transactionCookieName none)
  | .logout browser svc _ =>
    net.withJar browser (setCookie (net.jars browser) svc.sessionCookieName none)
  | .forget browser name => net.withJar browser (setCookie (net.jars browser) name none)
  | _ => net

def waiting (net : Net U β) (move : Move U β) : Nat → Option (Pending U β) :=
  match asks move with
  | some (call, pending) => Function.update net.pending call (some pending)
  | none => net.pending

def after (net : Net U β) (move : Move U β) (a : Action U) (said : Outcome × World U) : Net U β :=
  let pending := net.waiting move
  let jars :=
    match a.call?.bind pending with
    | some p => (net.withJar p.browser (respondError p.service (net.jars p.browser) a said.1)).jars
    | none => (net.dropped move).jars
  ⟨said.2, jars, pending⟩

def next (py : Builtins) (net : Net U β) (move : Move U β) : Option (Net U β) :=
  match net.action move with
  | none => some (net.dropped move)
  | some a => (net.world.perform py a).map (net.after move a)

def Step (py : Builtins) (net : Net U β) (move : Move U β) (net' : Net U β) : Prop :=
  (∀ a ∈ net.action move, a.secrets.Nodup ∧ ∀ secret ∈ a.secrets, secret ∉ net.world.secrets) ∧
    net.next py move = some net'

def worldEvent (event : Event (Net U β) (Move U β)) : Option (Event (World U) (Action U)) :=
  (event.before.action event.label).map fun a => ⟨event.before.world, a, event.after.world⟩

section World

variable {py : Builtins} {net net' : Net U β} {move : Move U β}
variable {history : List (Event (Net U β) (Move U β))}

theorem step_world (step : Step py net move net') {a : Action U} (acts : net.action move = some a) :
    ∃ said, net.world.perform py a = some said ∧ net' = net.after move a said ∧
      World.Step py net.world a net'.world := by
  obtain ⟨fresh, moved⟩ := step
  rw [next, acts] at moved
  obtain ⟨said, performed, rfl⟩ := Option.map_eq_some_iff.mp moved
  obtain ⟨distinct, drawn⟩ := fresh a acts
  refine ⟨said, performed, rfl, distinct, drawn, ?_⟩
  rw [performed]
  rfl

theorem dropped_world (net : Net U β) (move : Move U β) : (net.dropped move).world = net.world := by
  cases move <;> rfl

theorem run_world (run : Run (Step py) init history net) :
    Run (World.Step py) World.init (history.filterMap worldEvent) net.world := by
  induction run with
  | init => exact .init
  | @next history before after move shorter step ih =>
      rw [List.filterMap_append]
      cases acts : before.action move with
      | none =>
          have quiet : after.world = before.world := by
            have moved := step.2
            rw [next, acts] at moved
            rw [← Option.some.inj moved, dropped_world]
          have nothing : worldEvent ⟨before, move, after⟩ = none := by
            rw [worldEvent, acts]
            rfl
          rw [List.filterMap_cons_none nothing, List.filterMap_nil, List.append_nil, quiet]
          exact ih
      | some a =>
          obtain ⟨_, _, _, taken⟩ := step_world step acts
          have something : worldEvent ⟨before, move, after⟩ =
              some ⟨before.world, a, after.world⟩ := by
            rw [worldEvent, acts]
            rfl
          rw [List.filterMap_cons_some something, List.filterMap_nil]
          exact ih.next taken

end World

end Net

namespace World

variable {py : Builtins} {w w' : World U} {a : Action U} {call : Nat}
variable {history : List (Event (World U) (Action U))}

theorem update_busy (calls : Nat → AuthCall U) (call : Nat) {phase : AuthCall U}
    (busy : phase ≠ .idle) : Function.update calls call phase call ≠ .idle := by
  rwa [Function.update_self]

theorem proceed_busy {α : Type} (w : World U) (call : Nat) (result : Except AuthError α)
    (next : α → Outcome × AuthCall U) (busy : ∀ x, (next x).2 ≠ .idle) :
    (w.proceed call result next).2.calls call ≠ .idle := by
  cases result with
  | error raised => exact update_busy _ _ (by simp)
  | ok x => exact update_busy _ _ (busy x)

theorem ends_busy (w : World U) (call : Nat) (outcome : Outcome) :
    (w.ends call outcome).2.calls call ≠ .idle := update_busy _ _ (by simp)

theorem starts_spec {said : Outcome × World U} (performed : w.perform py a = some said)
    (starts : a.starts? = some call) : w.calls call = .idle ∧ said.2.calls call ≠ .idle := by
  cases a with
  | beginLogin other svc value mode transactionId state nonce codeVerifier now =>
      obtain rfl := Option.some.inj starts
      simp only [perform, react] at performed
      split at performed
      · rename_i idle
        refine ⟨idle, ?_⟩
        rw [← Option.some.inj performed]
        split
        · exact ends_busy _ _ _
        · split
          · exact ends_busy _ _ _
          · exact proceed_busy _ _ _ _ fun _ => by simp
      · cases performed
  | completeLogin other svc code state transactionId now =>
      obtain rfl := Option.some.inj starts
      simp only [perform, react] at performed
      split at performed
      · rename_i idle
        refine ⟨idle, ?_⟩
        rw [← Option.some.inj performed]
        split
        · exact ends_busy _ _ _
        · exact proceed_busy _ _ _ _ fun _ => by simp
      · cases performed
  | getBrowserSession other svc sessionId now clock =>
      obtain rfl := Option.some.inj starts
      simp only [perform, react] at performed
      split at performed
      · rename_i idle
        refine ⟨idle, ?_⟩
        rw [← Option.some.inj performed]
        split
        · exact ends_busy _ _ _
        · refine update_busy _ _ ?_
          split <;> simp
      · cases performed
  | linked | unlink | exchanged | upserted | createSession | cancelLogin | invalidate
  | deleteSession | endSession | expire => cases starts

theorem step_busy (step : Step py w a w') (busy : w.calls call ≠ .idle) :
    w'.calls call ≠ .idle := by
  obtain ⟨_, did⟩ := step_did step
  rcases did.call call with kept | enters
  · exact fun idle => busy (kept.symm.trans idle)
  · exact enters.not_idle

theorem starts_once (run : Run (Step py) init history w) : history.Pairwise fun first second =>
    ∀ call, first.label.starts? = some call → second.label.starts? ≠ some call := by
  induction run with
  | init => exact List.Pairwise.nil
  | @next history before after label shorter step ih =>
      rw [List.pairwise_append]
      refine ⟨ih, List.pairwise_singleton _ _, ?_⟩
      intro event old other new call starts again
      rw [List.mem_singleton.mp new] at again
      obtain ⟨earlier, later, rfl⟩ := List.append_of_mem old
      obtain ⟨_, _, performed⟩ := (Run.at_event shorter).2
      obtain ⟨said, ran, same⟩ := Option.map_eq_some_iff.mp performed
      have begun := (starts_spec ran starts).2
      rw [same] at begun
      have stays (before : World U) (label : Action U) (after : World U)
          (busy : before.calls call ≠ .idle) (taken : Step py before label after) :
          after.calls call ≠ .idle := step_busy taken busy
      have busy := Run.stable stays shorter begun
      obtain ⟨_, _, performed⟩ := step
      obtain ⟨said, ran, _⟩ := Option.map_eq_some_iff.mp performed
      exact busy (starts_spec ran again).1

theorem proceed_not_started {α : Type} {w : World U} {result : Except AuthError α}
    {next : α → Outcome × AuthCall U} {transactionId : Str}
    (quiet : ∀ x, (next x).1 ≠ .started transactionId) :
    (w.proceed call result next).1 ≠ .started transactionId := by
  cases result with
  | error raised => exact Outcome.noConfusion
  | ok x => exact quiet x

theorem started_spec {said : Outcome × World U} {transactionId : Str}
    (performed : w.perform py a = some said) (started : said.1 = .started transactionId) :
    ∃ call key, a = .linked call true ∧ w.calls call = .linking key transactionId := by
  cases a with
  | linked call built =>
      simp only [perform, react] at performed
      split at performed
      · rename_i key id linking
        rw [← Option.some.inj performed] at started
        cases built with
        | false => cases started
        | true =>
            cases started
            exact ⟨call, key, rfl, linking⟩
      · cases performed
  | beginLogin call svc value mode transactionId state nonce codeVerifier now =>
      simp only [perform, react] at performed
      split at performed
      · rw [← Option.some.inj performed] at started
        split at started
        · cases started
        · split at started
          · cases started
          · exact absurd started (proceed_not_started fun _ => Outcome.noConfusion)
      · cases performed
  | completeLogin call svc code state transactionId now =>
      simp only [perform, react] at performed
      split at performed
      · rw [← Option.some.inj performed] at started
        split at started
        · cases started
        · exact absurd started (proceed_not_started fun _ => Outcome.noConfusion)
      · cases performed
  | exchanged call claims now =>
      simp only [perform, react] at performed
      split at performed
      · rw [← Option.some.inj performed] at started
        split at started
        · cases started
        · exact absurd started (proceed_not_started fun _ => Outcome.noConfusion)
      · cases performed
  | upserted call id sessionId csrfToken now =>
      simp only [perform, react] at performed
      split at performed
      · rw [← Option.some.inj performed] at started
        split at started
        · cases started
        · exact absurd started (proceed_not_started fun _ => Outcome.noConfusion)
      · cases performed
  | createSession call now =>
      simp only [perform, react] at performed
      split at performed
      · rw [← Option.some.inj performed, ends] at started
        split at started <;> cases started
      · cases performed
  | getBrowserSession call svc sessionId now clock =>
      simp only [perform, react] at performed
      split at performed
      · rw [← Option.some.inj performed] at started
        split at started <;> cases started
      · cases performed
  | unlink call | invalidate call =>
      simp only [perform, react] at performed
      split at performed
      · rw [← Option.some.inj performed] at started
        cases started
      · cases performed
  | cancelLogin | deleteSession | endSession | expire =>
      rw [← Option.some.inj performed] at started
      cases started

end World

end TplBackend
