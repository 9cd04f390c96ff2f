import TplBackend.Auth.Once

namespace TplBackend

open Keyed Raise Text Transition Url

namespace World

variable {U : Platform} {py : Builtins} {settings : Settings} {w : World U}
variable {history : List (Event (World U) (Action U))}

def Shared (settings : Settings) (history : List (Event (World U) (Action U))) : Prop :=
  ∀ event ∈ history, ∀ svc, event.label.service? = some svc → svc.settings = settings

/-- The transaction generated for `b`, nothing having removed it, was redeemed by the call with its
own id and state on its own surface; the code was exchanged with the verifier and the nonce of `b`,
and the verified claims named an organization of that surface. -/
def CompletesOwn (py : Builtins) (history : List (Event (World U) (Action U))) (call : Nat)
    (returnTo : Str) : Prop :=
  ∃ earlier begun between redeemed later b code now,
    history = earlier ++ begun :: between ++ redeemed :: later ∧ Begins begun.label b ∧
    redeemed.label = .completeLogin call b.service code b.state (some b.transactionId) now ∧
    (∀ event ∈ between, ¬ Removes event.before event.label b.key) ∧ now < b.deadline ∧
    outcome py redeemed = some (.exchanges code b.codeVerifier b.nonce) ∧ returnTo = b.returnTo ∧
    ∃ event ∈ later, ∃ claims at_, event.label = .exchanged call (some claims) at_ ∧
      b.service.ownerAllowed claims = true

theorem enters_outcome {event : Event (World U) (Action U)} {call : Nat} {login : Login U}
    (enters : Enters py event.before event.label call (.exchanging login)) :
    outcome py event = some (.exchanges login.code login.codeVerifier login.nonce) := by
  obtain ⟨before, label, after⟩ := event
  simp only at enters
  cases enters with
  | exchanging idle given checked =>
      simp [outcome, perform, react, idle, given, Store.take, checked, proceed]

theorem Begins.service? {a : Action U} {b : Begin U} (begins : Begins a b) :
    a.service? = some b.service := by
  cases begins
  rfl

theorem Begins.normalized {a : Action U} {b : Begin U} (begins : Begins a b) :
    b.service.normalizeReturnTo (some b.returnTo) = .ok b.returnTo := by
  cases begins with
  | begun _ normalized => exact AuthService.normalizeReturnTo_idempotent normalized

theorem completesOwn_of_inside (run : Run (Step py) init history w) (shared : Shared settings history)
    {call : Nat} {login : Login U} (inside : login? (w.calls call) = some login)
    (past : w.calls call ≠ .exchanging login) : CompletesOwn py history call login.returnTo := by
  obtain ⟨earlier, begun, between, redeemed, later, b, rfl, begins, kept, entered, redeems, state⟩ :=
    login_redeems run inside
  obtain ⟨now, label, early⟩ := redeems.label
  have services : login.service = b.service := by
    have mine : login.service.settings = settings :=
      shared redeemed (by simp) login.service (by rw [label]; rfl)
    have own : b.service.settings = settings := shared begun (by simp) b.service begins.service?
    exact AuthService.eq_of_settings (mine.trans own.symm)
      (AuthService.transactionKey_injective redeems.key).2.1
  have returns : login.returnTo = b.returnTo := by
    have again := redeems.returnTo
    rw [services, begins.normalized] at again
    exact (Except.ok.inj again).symm
  obtain ⟨event, member, claims, at_, verified, allowed⟩ := state.resolve_left past
  rw [services] at label allowed
  refine ⟨earlier, begun, between, redeemed, later, b, login.code, now, rfl, begins, label, kept,
    early, ?_, returns, event, member, claims, at_, verified, allowed⟩
  rw [enters_outcome entered, redeems.codeVerifier, redeems.nonce]

theorem completed_own (run : Run (Step py) init history w) (shared : Shared settings history)
    {front rest : List (Event (World U) (Action U))} {event : Event (World U) (Action U)}
    {sessionId returnTo : Str} {expiresAt : Clock} (shape : history = front ++ event :: rest)
    (completed : outcome py event = some (.completed sessionId expiresAt returnTo)) :
    ∃ call now, event.label = .createSession call now ∧ CompletesOwn py front call returnTo := by
  subst shape
  obtain ⟨reached, step⟩ := run.at_event
  have tells := (outcome_did step completed).tells
  have opening : ∃ call now login session ttl, event.label = .createSession call now ∧
      event.before.calls call = .opening login session sessionId ttl ∧
      login.returnTo = returnTo := by
    obtain ⟨before, label, after⟩ := event
    simp only at tells
    cases tells with
    | completed opening _ => exact ⟨_, _, _, _, _, rfl, opening, rfl⟩
  obtain ⟨call, now, login, session, ttl, label, opening, rfl⟩ := opening
  have mine : Shared settings front := fun other member => shared other (List.mem_append_left _ member)
  exact ⟨call, now, label,
    completesOwn_of_inside reached mine (by rw [opening]; rfl) (by simp [opening])⟩

/-- Whatever the order of the calls on the two surfaces, each `begin_login` leads to at most one
exchange and at most one session, and a login completes on its own transaction only. -/
theorem login_transactions (run : Run (Step py) init history w) (shared : Shared settings history) :
    (∀ begun ∈ history, ∀ b, Begins begun.label b →
      history.Pairwise (fun first second => ¬ (ExchangesFor py b first ∧ ExchangesFor py b second)) ∧
      history.Pairwise (fun first second => ¬ (OpensFor py b first ∧ OpensFor py b second))) ∧
    ∀ front event rest sessionId expiresAt returnTo, history = front ++ event :: rest →
      outcome py event = some (.completed sessionId expiresAt returnTo) →
      ∃ call now, event.label = .createSession call now ∧ CompletesOwn py front call returnTo := by
  refine ⟨fun begun member b begins => ⟨exchanges_once run member begins,
    opens_once run member begins⟩, ?_⟩
  intro front event rest sessionId expiresAt returnTo shape completed
  exact completed_own run shared shape completed

def loginSteps : List (Action Settings.asciiPlatform) :=
  [.beginLogin 0 sampleService (some "/home/x".toList) "login".toList (sampleSecret 'a' 43 rfl)
      (sampleSecret 'b' 43 rfl) (sampleSecret 'c' 43 rfl) (sampleSecret 'd' 86 rfl) 0,
    .linked 0 true,
    .completeLogin 1 sampleService "code".toList (List.replicate 43 'b')
      (some (List.replicate 43 'a')) (seconds 10),
    .exchanged 1 (some (sampleClaims "shop".toList [.str "admin".toList])) (seconds 11),
    .upserted 1 (some 5) (sampleSecret 'e' 43 rfl) (sampleSecret 'f' 43 rfl) (seconds 11),
    .createSession 1 (seconds 11)]

theorem loginSteps_taken : ∀ event ∈ events sampleBuiltins loginSteps, Taken sampleBuiltins event := by
  decide

theorem loginSteps_shared : Shared Settings.sampleSettings (events sampleBuiltins loginSteps) := by
  intro event member svc called
  have step := label_mem_of_mem_trace member
  simp only [loginSteps, List.mem_cons, List.not_mem_nil, or_false] at step
  rcases step with label | label | label | label | label | label <;> rw [label] at called <;>
    cases called <;> rfl

theorem login_transactions_sample : ∃ call now,
    (events sampleBuiltins loginSteps)[5].label = .createSession call now ∧
      CompletesOwn sampleBuiltins ((events sampleBuiltins loginSteps).take 5) call
        "/home/x".toList :=
  (login_transactions (events_run _ _ loginSteps_taken) loginSteps_shared).2 _ _ []
    (List.replicate 43 'e') (seconds 3611) _ rfl rfl

end World

end TplBackend
