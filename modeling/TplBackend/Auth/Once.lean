import TplBackend.Auth.Steps

namespace TplBackend

open Keyed Raise Text Transition Url

variable {U : Platform}

def Action.service? : Action U → Option (AuthService U)
  | .beginLogin _ svc .. | .completeLogin _ svc .. | .cancelLogin svc _
  | .getBrowserSession _ svc .. | .deleteSession svc _ | .endSession svc .. => some svc
  | _ => none

structure Begin (U : Platform) where
  service : AuthService U
  transactionId : Str
  state : Str
  nonce : Str
  codeVerifier : Str
  returnTo : Str
  now : Clock

namespace Begin

def key (b : Begin U) : Str := b.service.transactionKey b.transactionId

def transaction (b : Begin U) : Transaction :=
  ⟨b.service.surface, b.state, b.nonce, b.codeVerifier, b.returnTo, wholeSeconds b.now⟩

def deadline (b : Begin U) : Clock := b.now + seconds b.service.settings.authTransactionTtlSeconds

def entry (b : Begin U) : Entry Str Stored := ⟨b.key, .transaction b.transaction, b.deadline⟩

end Begin

namespace World

variable {py : Builtins} {w w' : World U} {a : Action U}
variable {history : List (Event (World U) (Action U))}

inductive Begins : Action U → Begin U → Prop
  | begun {call : Nat} {svc : AuthService U} {value : Option Str} {mode returnTo : Str}
      {transactionId state nonce : Secret 43} {codeVerifier : Secret 86} {now : Clock} :
      svc.modeAllowed mode = true → svc.normalizeReturnTo value = .ok returnTo →
      Begins (.beginLogin call svc value mode transactionId state nonce codeVerifier now)
        ⟨svc, transactionId.text, state.text, nonce.text, codeVerifier.text, returnTo, now⟩

theorem checkTransaction_ok {svc : AuthService U} {code state id : Str} {raw : Option Stored}
    {login : Login U} (checked : svc.checkTransaction code state id raw = .ok login) :
    ∃ t, raw = some (.transaction t) ∧ svc.normalizeReturnTo (some t.returnTo) = .ok login.returnTo ∧
      t.surface = svc.surface ∧ t.state = state ∧
      login = ⟨svc, code, state, id, t.nonce, t.codeVerifier, login.returnTo⟩ := by
  unfold AuthService.checkTransaction at checked
  obtain ⟨t, found, checked⟩ := bind_ok.mp checked
  obtain ⟨returnTo, normalized, checked⟩ := bind_ok.mp checked
  obtain ⟨_, surface, checked⟩ := bind_ok.mp checked
  obtain ⟨_, _, checked⟩ := bind_ok.mp checked
  obtain ⟨_, same, checked⟩ := bind_ok.mp checked
  rw [pure_ok] at checked
  subst checked
  have normalized' : svc.normalizeReturnTo (some t.returnTo) = .ok returnTo := by
    cases result : svc.normalizeReturnTo (some t.returnTo) with
    | error msg =>
        rw [result] at normalized
        cases normalized
    | ok value =>
        rw [result] at normalized
        cases normalized
        rfl
  refine ⟨t, ?_, normalized', require_ok.mp surface, require_ok.mp same, rfl⟩
  obtain ⟨stored, rfl, taken⟩ := Option.bind_eq_some_iff.mp (expect_ok.mp found)
  cases stored with
  | transaction other =>
      cases taken
      rfl
  | session _ => cases taken

section Secrets

theorem step_secrets (step : Step py w a w') : w'.secrets = a.secrets ++ w.secrets := by
  obtain ⟨_, did⟩ := step_did step
  exact did.secrets

theorem run_secrets (run : Run (Step py) init history w) :
    ∀ event ∈ history, ∀ secret ∈ event.label.secrets, secret ∈ w.secrets := by
  induction run with
  | init => simp
  | next _ step ih =>
      rw [step_secrets step]
      intro event member secret drawn
      rcases List.mem_append.mp member with old | new
      · exact List.mem_append_right _ (ih event old secret drawn)
      · rw [List.mem_singleton.mp new] at drawn
        exact List.mem_append_left _ drawn

def Apart (first second : Event (World U) (Action U)) : Prop :=
  ∀ secret ∈ first.label.secrets, secret ∉ second.label.secrets

theorem run_apart (run : Run (Step py) init history w) : history.Pairwise Apart := by
  induction run with
  | init => exact List.Pairwise.nil
  | next shorter step ih =>
      rw [List.pairwise_append]
      refine ⟨ih, List.pairwise_singleton _ _, fun event old other new secret drawn again => ?_⟩
      rw [List.mem_singleton.mp new] at again
      exact step.2.1 secret again (run_secrets shorter event old secret drawn)

instance : Std.Symm (@Apart U) :=
  ⟨fun _ _ apart secret drawn again => apart secret again drawn⟩

theorem drawn_once (run : Run (Step py) init history w) {first second : Event (World U) (Action U)}
    (left : first ∈ history) (right : second ∈ history) {secret : Str}
    (drawn : secret ∈ first.label.secrets) (again : secret ∈ second.label.secrets) :
    first = second := by
  by_contra different
  exact (run_apart run).forall left right different secret drawn again

end Secrets

section Provenance

theorem entry_since (run : Run (Step py) init history w) {key : Str} {entry : Entry Str Stored}
    (found : w.store.find? key = some entry) : ∃ earlier event later,
      history = earlier ++ event :: later ∧ Writes event.before event.label entry ∧
      event.after.store ≠ event.before.store ∧
      ∀ other ∈ later, other.before.store.find? key = some entry ∧
        other.after.store.find? key = some entry := by
  obtain ⟨earlier, event, later, rfl, fresh, came, kept⟩ :=
    run.since (fun w => w.store.find? key) rfl found
  obtain ⟨_, did⟩ := step_did run.at_event.2
  refine ⟨earlier, event, later, rfl, ?_, fun same => fresh (same ▸ came), kept⟩
  rcases did.row key with same | ⟨gone, _⟩ | ⟨written, row, _, writes⟩
  · exact absurd (same.symm.trans came) fresh
  · exact absurd (gone.symm.trans came) (by simp)
  · rwa [Option.some.inj (row.symm.trans came)] at writes

theorem kept_not_removed {event : Event (World U) (Action U)} {key : Str} {entry : Entry Str Stored}
    (step : Step py event.before event.label event.after)
    (kept : event.after.store.find? key = some entry) :
    ¬ Removes event.before event.label key := by
  intro removes
  obtain ⟨_, _, performed⟩ := step
  obtain ⟨result, ran, same⟩ := Option.map_eq_some_iff.mp performed
  have gone := removes_gone ran removes
  rw [same, kept] at gone
  cases gone

theorem Begins.unique {b b' : Begin U} (begins : Begins a b) (begins' : Begins a b') : b = b' := by
  cases begins with
  | begun _ normalized =>
      cases begins' with
      | begun _ normalized' =>
          rw [Except.ok.inj (normalized.symm.trans normalized')]

theorem Begins.draws {b : Begin U} (begins : Begins a b) : b.transactionId ∈ a.secrets ∧
    b.nonce ∈ a.secrets ∧ b.codeVerifier ∈ a.secrets := by
  cases begins
  simp [Action.secrets]

theorem begins_of_writes {key : Str} {t : Transaction} {deadline : Clock}
    (writes : Writes w a ⟨key, .transaction t, deadline⟩) :
    ∃ b, Begins a b ∧ b.entry = ⟨key, .transaction t, deadline⟩ := by
  cases writes with
  | begun allowed normalized => exact ⟨_, .begun allowed normalized, rfl⟩

structure Redeems (event : Event (World U) (Action U)) (call : Nat) (login : Login U) (b : Begin U) :
    Prop where
  label : ∃ now, event.label =
    .completeLogin call login.service login.code b.state (some b.transactionId) now ∧
      now < b.deadline
  looked : presented (some b.transactionId) = some b.transactionId
  key : login.service.transactionKey b.transactionId = b.key
  nonce : login.nonce = b.nonce
  codeVerifier : login.codeVerifier = b.codeVerifier
  returnTo : login.service.normalizeReturnTo (some b.returnTo) = .ok login.returnTo
  found : event.before.store.find? b.key = some b.entry

theorem presented_eq {id : Str} {transactionId : Option Str}
    (given : presented transactionId = some id) : transactionId = some id :=
  (Option.filter_eq_some_iff.mp given).1

theorem redeems_of_enters (run : Run (Step py) init history w) {call : Nat} {login : Login U}
    {event : Event (World U) (Action U)} (before : event.before = w)
    (enters : Enters py event.before event.label call (.exchanging login)) :
    ∃ earlier begun between b, history = earlier ++ begun :: between ∧ Begins begun.label b ∧
      (∀ other ∈ between, other.after.store.find? b.key = some b.entry) ∧
      Redeems event call login b := by
  obtain ⟨state, label, after⟩ := event
  subst before
  simp only at enters run ⊢
  cases enters with
  | @exchanging call svc code state' id transactionId now login idle given checked =>
      obtain ⟨t, raw, normalized, surface, same, shape⟩ := checkTransaction_ok checked
      obtain ⟨deadline, found, early⟩ := Store.read_eq_some.mp raw
      obtain ⟨earlier, begun, between, split, writes, _, kept⟩ := entry_since run found
      obtain ⟨b, begins, entry⟩ := begins_of_writes writes
      have key : b.key = svc.transactionKey id := congrArg Entry.key entry
      have value : Stored.transaction b.transaction = .transaction t := congrArg Entry.value entry
      have due : b.deadline = deadline := congrArg Entry.deadline entry
      obtain ⟨_, _, ids⟩ := AuthService.transactionKey_injective key
      cases value
      subst ids due same
      refine ⟨earlier, begun, between, b, split, begins, fun other member => ?_, ?_⟩
      · rw [key, entry]
        exact (kept other member).2
      · rw [shape]
        have given' := given
        rw [presented_eq given] at given' ⊢
        exact ⟨⟨now, rfl, early⟩, given', key.symm, rfl, rfl, normalized, by
          rw [key, entry]
          exact found⟩

theorem Redeems.taken {event : Event (World U) (Action U)} {call : Nat} {login : Login U}
    {b : Begin U} (redeems : Redeems event call login b)
    (step : Step py event.before event.label event.after) :
    event.after.store.find? b.key = none := by
  obtain ⟨now, label, _⟩ := redeems.label
  obtain ⟨_, _, performed⟩ := step
  obtain ⟨result, ran, same⟩ := Option.map_eq_some_iff.mp performed
  rw [← same]
  apply removes_gone ran
  rw [label, ← redeems.key]
  exact .taken redeems.looked

theorem Redeems.begun {event : Event (World U) (Action U)} {call : Nat} {login : Login U}
    {b : Begin U} (redeems : Redeems event call login b) (run : Run (Step py) init history event.before) :
    ∃ earlier begun between b', history = earlier ++ begun :: between ∧ Begins begun.label b' ∧
      b'.entry = b.entry ∧ b.transactionId ∈ begun.label.secrets ∧
      ∀ other ∈ between, other.after.store.find? b.key = some b.entry := by
  obtain ⟨earlier, begun, between, split, writes, _, kept⟩ := entry_since run redeems.found
  obtain ⟨b', begins, entry⟩ := begins_of_writes writes
  have ids := (AuthService.transactionKey_injective (congrArg Entry.key entry)).2.2
  exact ⟨earlier, begun, between, b', split, begins, entry, ids ▸ begins.draws.1,
    fun other member => (kept other member).2⟩

def RedeemOthers (first second : Event (World U) (Action U)) : Prop :=
  ∀ call login b call' login' b', Redeems first call login b → Redeems second call' login' b' →
    b.transactionId ≠ b'.transactionId

instance : Std.Symm (@RedeemOthers U) :=
  ⟨fun _ _ others call login b call' login' b' redeems redeems' same =>
    others call' login' b' call login b redeems' redeems same.symm⟩

theorem run_redeems_once (run : Run (Step py) init history w) : history.Pairwise RedeemOthers := by
  induction run with
  | init => exact List.Pairwise.nil
  | @next history before after label shorter step ih =>
      rw [List.pairwise_append]
      refine ⟨ih, List.pairwise_singleton _ _, fun event old other new => ?_⟩
      rw [List.mem_singleton.mp new]
      intro call login b call' login' b' redeems redeems' same
      obtain ⟨earlier, begun, between, b₂, rfl, begins₂, entry₂, draws₂, kept⟩ :=
        redeems'.begun shorter
      -- the first redemption comes from the same `begin_login`
      have origin {front : List (Event (World U) (Action U))}
          (reached : Run (Step py) init front event.before)
          (inside : ∀ e ∈ front, e ∈ earlier ++ begun :: between) :
          begun ∈ front ∧ b.entry = b'.entry := by
        obtain ⟨front₁, begun₁, back₁, b₁, rfl, begins₁, entry₁, draws₁, _⟩ :=
          redeems.begun reached
        have member₁ : begun₁ ∈ front₁ ++ begun₁ :: back₁ := List.mem_append_cons_self
        have equal : begun₁ = begun := drawn_once shorter (inside begun₁ member₁)
          List.mem_append_cons_self draws₁ (same ▸ draws₂)
        subst equal
        exact ⟨member₁, entry₁.symm.trans ((begins₁.unique begins₂) ▸ entry₂)⟩
      rcases List.mem_append.mp old with front | back
      · obtain ⟨front, rest, rfl⟩ := List.append_of_mem front
        rw [List.append_assoc, List.cons_append] at shorter
        have before_ := (origin (Run.at_event shorter).1 fun e member =>
          List.mem_append_left _ (List.mem_append_left _ member)).1
        have apart := run_apart shorter
        rw [List.pairwise_append] at apart
        exact apart.2.2 begun before_ begun (by simp) _ draws₂ draws₂
      rcases List.mem_cons.mp back with rfl | back
      · obtain ⟨_, made, _⟩ := redeems.label
        rw [made] at begins₂
        cases begins₂
      · obtain ⟨front, rest, rfl⟩ := List.append_of_mem back
        have shorter' := shorter
        rw [← List.cons_append, ← List.append_assoc] at shorter'
        obtain ⟨reached, taken⟩ := Run.at_event shorter'
        have entries := (origin reached fun e member => by
          rw [← List.cons_append, ← List.append_assoc]
          exact List.mem_append_left _ member).2
        have gone := redeems.taken taken
        have still := kept event (by simp)
        have keys : b.key = b'.key := congrArg Entry.key entries
        rw [← keys, gone] at still
        cases still

end Provenance

section Phases

def login? : AuthCall U → Option (Login U)
  | .exchanging login | .upserting login _ | .opening login .. => some login
  | _ => none

def Verified (history : List (Event (World U) (Action U))) (call : Nat) (login : Login U) : Prop :=
  ∃ event ∈ history, ∃ claims now, event.label = .exchanged call (some claims) now ∧
    login.service.ownerAllowed claims = true

theorem principalDraft_owner {svc : AuthService U} {claims : Claims} {now : Clock} {draft : Draft}
    (drafted : svc.principalDraft py claims now = .ok draft) : svc.ownerAllowed claims = true := by
  simp only [AuthService.principalDraft, bind_ok, require_ok] at drafted
  obtain ⟨_, _, _, _, _, _, _, _, _, _, _, _, _, _, _, allowed, _⟩ := drafted
  exact allowed

theorem run_login (run : Run (Step py) init history w) {call : Nat} {login : Login U}
    (inside : login? (w.calls call) = some login) : ∃ earlier event later,
      history = earlier ++ event :: later ∧
      Enters py event.before event.label call (.exchanging login) ∧
      (w.calls call = .exchanging login ∨ Verified later call login) := by
  induction run with
  | init => cases inside
  | @next history before after label shorter step ih =>
      have later {phase : AuthCall U} (same : login? phase = some login)
          (old : before.calls call = phase) (verified : after.calls call = phase ∨
            Verified [⟨before, label, after⟩] call login) : ∃ earlier event later,
          history ++ [⟨before, label, after⟩] = earlier ++ event :: later ∧
          Enters py event.before event.label call (.exchanging login) ∧
          (after.calls call = .exchanging login ∨ Verified later call login) := by
        obtain ⟨earlier, event, rest, rfl, entered, state⟩ := ih (by rw [old]; exact same)
        refine ⟨earlier, event, rest ++ [⟨before, label, after⟩], by simp, entered, ?_⟩
        rcases verified with kept | new
        · rcases state with exchanging | ⟨other, member, claims⟩
          · exact Or.inl (kept.trans (old.symm.trans exchanging))
          · exact Or.inr ⟨other, List.mem_append_left _ member, claims⟩
        · obtain ⟨other, member, claims⟩ := new
          exact Or.inr ⟨other, List.mem_append_right _ member, claims⟩
      obtain ⟨_, did⟩ := step_did step
      rcases did.call call with kept | enters
      · exact later inside kept.symm (Or.inl rfl)
      · simp only at enters
        generalize reached : after.calls call = phase at enters inside
        cases enters with
        | exchanging idle given checked =>
            cases inside
            exact ⟨history, ⟨before, _, after⟩, [], rfl, .exchanging idle given checked,
              Or.inl rfl⟩
        | upserting waits drafted =>
            cases inside
            rw [← reached]
            exact later rfl waits (Or.inr ⟨_, List.mem_singleton_self _, _, _, rfl,
              principalDraft_owner drafted⟩)
        | opening waits made valid =>
            cases inside
            obtain ⟨earlier, event, rest, rfl, entered, state⟩ := ih (by rw [waits]; rfl)
            refine ⟨earlier, event, rest ++ [⟨before, _, after⟩],
              List.append_assoc earlier (event :: rest) _, entered, Or.inr ?_⟩
            rcases state with exchanging | ⟨other, member, claims⟩
            · rw [waits] at exchanging
              cases exchanging
            · exact ⟨other, List.mem_append_left _ member, claims⟩
        | linking => cases inside
        | unlinking => cases inside
        | invalidating => cases inside
        | ended => cases inside

theorem login_redeems (run : Run (Step py) init history w) {call : Nat} {login : Login U}
    (inside : login? (w.calls call) = some login) :
    ∃ earlier begun between redeemed later b,
      history = earlier ++ begun :: between ++ redeemed :: later ∧ Begins begun.label b ∧
      (∀ event ∈ between, ¬ Removes event.before event.label b.key) ∧
      Enters py redeemed.before redeemed.label call (.exchanging login) ∧
      Redeems redeemed call login b ∧
      (w.calls call = .exchanging login ∨ Verified later call login) := by
  obtain ⟨front, redeemed, later, rfl, entered, state⟩ := run_login run inside
  obtain ⟨reached, _⟩ := Run.at_event run
  obtain ⟨earlier, begun, between, b, rfl, begins, kept, redeems⟩ :=
    redeems_of_enters reached rfl entered
  refine ⟨earlier, begun, between, redeemed, later, b, rfl, begins, fun event member => ?_, entered,
    redeems, state⟩
  obtain ⟨between₁, between₂, rfl⟩ := List.append_of_mem member
  rw [← List.cons_append, ← List.append_assoc] at reached
  exact kept_not_removed (Run.at_event reached).2 (kept event member)

theorem run_ended (run : Run (Step py) init history w) : history.Pairwise fun first second =>
    ∀ call, first.after.calls call = .ended → second.before.calls call = .ended := by
  induction run with
  | init => exact List.Pairwise.nil
  | next shorter step ih =>
      rw [List.pairwise_append]
      refine ⟨ih, List.pairwise_singleton _ _, fun event old other new call ended => ?_⟩
      rw [List.mem_singleton.mp new]
      obtain ⟨earlier, later, rfl⟩ := List.append_of_mem old
      have stays (before : World U) (label : Action U) (after : World U)
          (gone : before.calls call = .ended) (taken : Step py before label after) :
          after.calls call = .ended := step_ended taken gone
      have now_ended := Run.stable stays shorter ended
      exact now_ended

end Phases

section Once

def ExchangesFor (py : Builtins) (b : Begin U) (event : Event (World U) (Action U)) : Prop :=
  ∃ code codeVerifier nonce, outcome py event = some (.exchanges code codeVerifier nonce) ∧
    (codeVerifier = b.codeVerifier ∨ nonce = b.nonce)

def OpensFor (py : Builtins) (b : Begin U) (event : Event (World U) (Action U)) : Prop :=
  ∃ call now login session sessionId ttl expiresAt returnTo,
    event.label = .createSession call now ∧
    event.before.calls call = .opening login session sessionId ttl ∧
    outcome py event = some (.completed sessionId expiresAt returnTo) ∧
    (login.codeVerifier = b.codeVerifier ∨ login.nonce = b.nonce)

variable {b b' : Begin U} {begun begun' : Event (World U) (Action U)}

theorem begins_once (run : Run (Step py) init history w) (member : begun ∈ history)
    (member' : begun' ∈ history) (begins : Begins begun.label b) (begins' : Begins begun'.label b')
    (shared : b.codeVerifier = b'.codeVerifier ∨ b.nonce = b'.nonce) : b = b' := by
  obtain ⟨_, nonce, verifier⟩ := begins.draws
  obtain ⟨_, nonce', verifier'⟩ := begins'.draws
  have equal : begun = begun' := by
    rcases shared with same | same
    · exact drawn_once run member member' verifier (same ▸ verifier')
    · exact drawn_once run member member' nonce (same ▸ nonce')
  subst equal
  exact begins.unique begins'

theorem ExchangesFor.redeems (run : Run (Step py) init history w) (member : begun ∈ history)
    (begins : Begins begun.label b) {event : Event (World U) (Action U)} (present : event ∈ history)
    (exchanges : ExchangesFor py b event) : ∃ call login, Redeems event call login b := by
  obtain ⟨code, codeVerifier, nonce, said, shared⟩ := exchanges
  obtain ⟨front, rest, rfl, reached, step⟩ := run.of_mem present
  have entered : ∃ call login, Enters py event.before event.label call (.exchanging login) ∧
      login.codeVerifier = codeVerifier ∧ login.nonce = nonce := by
    have tells := (outcome_did step said).tells
    obtain ⟨before, label, after⟩ := event
    simp only at tells
    cases tells with
    | exchanges idle given checked => exact ⟨_, _, .exchanging idle given checked, rfl, rfl⟩
  obtain ⟨call, login, enters, verifiers, nonces⟩ := entered
  obtain ⟨earlier, begun', between, b', rfl, begins', _, redeems⟩ :=
    redeems_of_enters reached rfl enters
  have equal : b' = b := begins_once run (by simp) member begins' begins (by
    rw [← redeems.codeVerifier, ← redeems.nonce, verifiers, nonces]
    exact shared)
  subst equal
  exact ⟨call, login, redeems⟩

theorem exchanges_once (run : Run (Step py) init history w) (member : begun ∈ history)
    (begins : Begins begun.label b) : history.Pairwise fun first second =>
      ¬ (ExchangesFor py b first ∧ ExchangesFor py b second) := by
  refine (run_redeems_once run).imp_of_mem fun left right others => ?_
  rintro ⟨exchanges, exchanges'⟩
  obtain ⟨_, _, redeems⟩ := exchanges.redeems run member begins left
  obtain ⟨_, _, redeems'⟩ := exchanges'.redeems run member begins right
  exact others _ _ _ _ _ _ redeems redeems' rfl

theorem OpensFor.redeems (run : Run (Step py) init history w) (member : begun ∈ history)
    (begins : Begins begun.label b) {event : Event (World U) (Action U)} (present : event ∈ history)
    (opens : OpensFor py b event) : ∃ call now login, ∃ redeemed ∈ history,
      event.label = .createSession call now ∧ event.before.calls call ≠ .ended ∧
      Redeems redeemed call login b := by
  obtain ⟨call, now, login, session, sessionId, ttl, _, _, label, opening, _, shared⟩ := opens
  obtain ⟨front, rest, rfl, reached, _⟩ := run.of_mem present
  have inside : login? (event.before.calls call) = some login := by rw [opening]; rfl
  obtain ⟨_, begun', _, redeemed, _, b', rfl, begins', _, _, redeems, _⟩ :=
    login_redeems reached inside
  have equal : b' = b := begins_once run (by simp) member begins' begins (by
    rw [← redeems.codeVerifier, ← redeems.nonce]
    exact shared)
  subst equal
  exact ⟨call, now, login, redeemed, by simp, label, by simp [opening], redeems⟩

theorem redeemed_once (run : Run (Step py) init history w) {first second : Event (World U) (Action U)}
    (left : first ∈ history) (right : second ∈ history) {call call' : Nat} {login login' : Login U}
    (redeems : Redeems first call login b) (redeems' : Redeems second call' login' b) :
    call = call' := by
  have equal : first = second := by
    by_contra different
    exact (run_redeems_once run).forall left right different _ _ _ _ _ _ redeems redeems' rfl
  subst equal
  obtain ⟨_, label, _⟩ := redeems.label
  obtain ⟨_, label', _⟩ := redeems'.label
  injection label.symm.trans label'

theorem opens_once (run : Run (Step py) init history w) (member : begun ∈ history)
    (begins : Begins begun.label b) : history.Pairwise fun first second =>
      ¬ (OpensFor py b first ∧ OpensFor py b second) := by
  refine (run_ended run).imp_of_mem fun left right ended => ?_
  rintro ⟨opens, opens'⟩
  obtain ⟨call, now, login, redeemed, inside, label, _, redeems⟩ :=
    opens.redeems run member begins left
  obtain ⟨call', now', login', redeemed', inside', label', busy, redeems'⟩ :=
    opens'.redeems run member begins right
  obtain ⟨_, _, _, _, step⟩ := run.of_mem left
  rw [label] at step
  rw [← redeemed_once run inside inside' redeems redeems'] at busy
  exact busy (ended call (createSession_ends step))

end Once

end World

end TplBackend
