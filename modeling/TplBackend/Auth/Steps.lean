import TplBackend.Auth.Login

namespace TplBackend

open Keyed Raise Text Transition Url

namespace World

variable {U : Platform} {py : Builtins} {w w' : World U} {a : Action U} {α : Type}

section Parts

variable {call : Nat} {result : Except AuthError α} {next : α → Outcome × AuthCall U} {outcome : Outcome}

@[simp] theorem proceed_store : (w.proceed call result next).2.store = w.store := by
  cases result <;> rfl

@[simp] theorem proceed_secrets : (w.proceed call result next).2.secrets = w.secrets := by
  cases result <;> rfl

@[simp] theorem ends_store : (w.ends call outcome).2.store = w.store := rfl

@[simp] theorem ends_secrets : (w.ends call outcome).2.secrets = w.secrets := rfl

theorem update_calls (calls : Nat → AuthCall U) (call other : Nat) (phase : AuthCall U) :
    Function.update calls call phase other = calls other ∨
      other = call ∧ Function.update calls call phase other = phase := by
  by_cases same : other = call
  · subst same
    exact Or.inr ⟨rfl, Function.update_self ..⟩
  · exact Or.inl (Function.update_of_ne same ..)

theorem ends_calls (w : World U) (call : Nat) (outcome : Outcome) (other : Nat) :
    (w.ends call outcome).2.calls other = w.calls other ∨
      other = call ∧ (w.ends call outcome).2.calls other = .ended :=
  update_calls w.calls call other .ended

theorem proceed_calls (w : World U) (call : Nat) (result : Except AuthError α)
    (next : α → Outcome × AuthCall U) (other : Nat) :
    (w.proceed call result next).2.calls other = w.calls other ∨
      other = call ∧ ((w.proceed call result next).2.calls other = .ended ∨
        ∃ a, result = .ok a ∧ (w.proceed call result next).2.calls other = (next a).2) := by
  cases result with
  | error raised =>
      rcases update_calls w.calls call other .ended with kept | ⟨same, ended⟩
      · exact Or.inl kept
      · exact Or.inr ⟨same, Or.inl ended⟩
  | ok a =>
      rcases update_calls w.calls call other (next a).2 with kept | ⟨same, entered⟩
      · exact Or.inl kept
      · exact Or.inr ⟨same, Or.inr ⟨a, rfl, entered⟩⟩

end Parts

inductive Removes (w : World U) : Action U → Str → Prop
  | taken {call : Nat} {svc : AuthService U} {code state id : Str} {transactionId : Option Str}
      {now : Clock} : presented transactionId = some id →
      Removes w (.completeLogin call svc code state transactionId now) (svc.transactionKey id)
  | unlinked {call : Nat} {key : Str} : w.calls call = .unlinking key → Removes w (.unlink call) key
  | cancelled {svc : AuthService U} {id : Str} {transactionId : Option Str} :
      presented transactionId = some id →
      Removes w (.cancelLogin svc transactionId) (svc.transactionKey id)
  | invalidated {call : Nat} {key : Str} : w.calls call = .invalidating key →
      Removes w (.invalidate call) key
  | deleted {svc : AuthService U} {id : Str} {sessionId : Option Str} :
      presented sessionId = some id → Removes w (.deleteSession svc sessionId) (svc.sessionKey id)
  | ended {svc : AuthService U} {id : Str} {sessionId : Option Str} {state : Secret 22} :
      presented sessionId = some id → Removes w (.endSession svc sessionId state) (svc.sessionKey id)
  | expired {entry : Entry Str Stored} {now : Clock} : w.store.find? entry.key = some entry →
      entry.deadline ≤ now → Removes w (.expire entry.key now) entry.key

inductive Writes (w : World U) : Action U → Entry Str Stored → Prop
  | begun {call : Nat} {svc : AuthService U} {value : Option Str} {mode returnTo : Str}
      {transactionId state nonce : Secret 43} {codeVerifier : Secret 86} {now : Clock} :
      svc.modeAllowed mode = true → svc.normalizeReturnTo value = .ok returnTo →
      Writes w (.beginLogin call svc value mode transactionId state nonce codeVerifier now)
        ⟨svc.transactionKey transactionId.text,
          .transaction ⟨svc.surface, state.text, nonce.text, codeVerifier.text, returnTo,
            wholeSeconds now⟩,
          now + seconds svc.settings.authTransactionTtlSeconds⟩
  | opened {call : Nat} {login : Login U} {session : BrowserSession} {sessionId : Str} {ttl : Int}
      {now : Clock} : w.calls call = .opening login session sessionId ttl →
      Writes w (.createSession call now)
        ⟨login.service.sessionKey sessionId, .session session, now + seconds ttl⟩

inductive Enters (py : Builtins) (w : World U) : Action U → Nat → AuthCall U → Prop
  | linking {call : Nat} {svc : AuthService U} {value : Option Str} {mode : Str}
      {transactionId state nonce : Secret 43} {codeVerifier : Secret 86} {now : Clock} :
      w.calls call = .idle →
      Enters py w (.beginLogin call svc value mode transactionId state nonce codeVerifier now) call
        (.linking (svc.transactionKey transactionId.text) transactionId.text)
  | unlinking {call : Nat} {key transactionId : Str} : w.calls call = .linking key transactionId →
      Enters py w (.linked call false) call (.unlinking key)
  | exchanging {call : Nat} {svc : AuthService U} {code state id : Str}
      {transactionId : Option Str} {now : Clock} {login : Login U} : w.calls call = .idle →
      presented transactionId = some id →
      svc.checkTransaction code state id (w.store.read (svc.transactionKey id) now) = .ok login →
      Enters py w (.completeLogin call svc code state transactionId now) call (.exchanging login)
  | upserting {call : Nat} {login : Login U} {claims : Claims} {now : Clock} {draft : Draft} :
      w.calls call = .exchanging login →
      login.service.principalDraft py claims now = .ok draft →
      Enters py w (.exchanged call (some claims) now) call (.upserting login draft)
  | opening {call : Nat} {login : Login U} {draft : Draft} {id : Uuid} {principal : Principal}
      {session : BrowserSession} {sessionId csrfToken : Secret 43} {now : Clock} :
      w.calls call = .upserting login draft → login.service.principalOf draft id = .ok principal →
      BrowserSession.validate principal csrfToken.text = .ok session →
      Enters py w (.upserted call (some id) sessionId csrfToken now) call
        (.opening login session sessionId.text
          (max 1 ((session.principal.expiresAt - now).tdiv 1000000)))
  | invalidating {call : Nat} {svc : AuthService U} {id : Str} {sessionId : Option Str}
      {now clock : Clock} : w.calls call = .idle → presented sessionId = some id →
      (svc.checkSession (w.store.read (svc.sessionKey id) now) clock).2 = true →
      Enters py w (.getBrowserSession call svc sessionId now clock) call
        (.invalidating (svc.sessionKey id))
  | ended {act : Action U} {call : Nat} : w.calls call ≠ .ended → Enters py w act call .ended

inductive Tells (w : World U) : Action U → Outcome → Prop
  | exchanges {call : Nat} {svc : AuthService U} {code state id : Str} {transactionId : Option Str}
      {now : Clock} {login : Login U} : w.calls call = .idle → presented transactionId = some id →
      svc.checkTransaction code state id (w.store.read (svc.transactionKey id) now) = .ok login →
      Tells w (.completeLogin call svc code state transactionId now)
        (.exchanges login.code login.codeVerifier login.nonce)
  | completed {call : Nat} {login : Login U} {session : BrowserSession} {sessionId : Str} {ttl : Int}
      {now : Clock} : w.calls call = .opening login session sessionId ttl →
      (w.store.create (login.service.sessionKey sessionId) (.session session) (seconds ttl) now).1 =
        true →
      Tells w (.createSession call now)
        (.completed sessionId session.principal.expiresAt login.returnTo)
  | session {act : Action U} {result : Option BrowserSession} : Tells w act (.session result)
  | awaits {act : Action U} : Tells w act .awaits
  | raised {act : Action U} {error : AuthError} : Tells w act (.raised error)
  | started {act : Action U} {transactionId : Str} : Tells w act (.started transactionId)
  | done {act : Action U} : Tells w act .done

def RowStep (w : World U) (a : Action U) (key : Str) (row : Option (Entry Str Stored)) : Prop :=
  row = w.store.find? key ∨ (row = none ∧ Removes w a key) ∨
    ∃ entry, row = some entry ∧ entry.key = key ∧ Writes w a entry

structure Did (py : Builtins) (w : World U) (a : Action U) (result : Outcome × World U) : Prop where
  tells : Tells w a result.1
  secrets : result.2.secrets = a.secrets ++ w.secrets
  row : ∀ key, RowStep w a key (result.2.store.find? key)
  call : ∀ call, result.2.calls call = w.calls call ∨ Enters py w a call (result.2.calls call)

section Did

variable {store : Store Str Stored} {call : Nat} {key : Str}

theorem rows_same : ∀ key, RowStep w a key (w.store.find? key) := fun _ => Or.inl rfl

theorem rows_delete (removes : Removes w a key) (other : Str) :
    RowStep w a other ((w.store.delete key).find? other) := by
  rw [Store.find?_delete]
  split
  · rename_i same
    exact Or.inr (Or.inl ⟨rfl, same ▸ removes⟩)
  · exact Or.inl rfl

theorem rows_create {value : Stored} {ttl now : Int} (writes : Writes w a ⟨key, value, now + ttl⟩)
    (other : Str) : RowStep w a other ((w.store.create key value ttl now).2.find? other) := by
  cases stored : (w.store.create key value ttl now).1 with
  | false =>
      rw [Store.create_of_not stored]
      exact Or.inl rfl
  | true =>
      rw [Store.find?_create stored]
      split
      · rename_i same
        exact Or.inr (Or.inr ⟨_, rfl, same.symm, writes⟩)
      · exact Or.inl rfl

theorem did_ends {outcome : Outcome} (tells : Tells w a outcome)
    (rows : ∀ key, RowStep w a key (store.find? key)) (busy : w.calls call ≠ .ended) :
    Did py w a (ends { w with store := store, secrets := a.secrets ++ w.secrets } call outcome) where
  tells := tells
  secrets := rfl
  row := rows
  call other := by
    rcases ends_calls { w with store := store, secrets := a.secrets ++ w.secrets } call outcome
      other with kept | ⟨rfl, ended⟩
    · exact Or.inl kept
    · rw [ended]
      exact Or.inr (.ended busy)

theorem did_proceed {result : Except AuthError α} {next : α → Outcome × AuthCall U}
    (rows : ∀ key, RowStep w a key (store.find? key)) (busy : w.calls call ≠ .ended)
    (enters : ∀ x, result = .ok x → Tells w a (next x).1 ∧ Enters py w a call (next x).2) :
    Did py w a
      (proceed { w with store := store, secrets := a.secrets ++ w.secrets } call result next) where
  tells := by
    cases result with
    | error raised => exact .raised
    | ok x => exact (enters x rfl).1
  secrets := proceed_secrets
  row key := by
    rw [proceed_store]
    exact rows key
  call other := by
    rcases proceed_calls { w with store := store, secrets := a.secrets ++ w.secrets } call result
      next other with kept | ⟨rfl, ended | entered⟩
    · exact Or.inl kept
    · rw [ended]
      exact Or.inr (.ended busy)
    · obtain ⟨x, returned, entered⟩ := entered
      rw [entered]
      exact Or.inr (enters x returned).2

theorem did_store (rows : ∀ key, RowStep w a key (store.find? key)) :
    Did py w a (.done, { w with store := store, secrets := a.secrets ++ w.secrets }) where
  tells := .done
  secrets := rfl
  row := rows
  call _ := Or.inl rfl

theorem did_phase {outcome : Outcome} {phase : AuthCall U} (tells : Tells w a outcome)
    (enters : Enters py w a call phase) :
    Did py w a (outcome, { w with
      calls := Function.update w.calls call phase, secrets := a.secrets ++ w.secrets }) where
  tells := tells
  secrets := rfl
  row := rows_same
  call other := by
    rcases update_calls w.calls call other phase with kept | ⟨rfl, entered⟩
    · exact Or.inl kept
    · change _ ∨ Enters py w a other (Function.update w.calls other phase other)
      rw [entered]
      exact Or.inr enters

end Did

theorem perform_did {result : Outcome × World U} (performed : w.perform py a = some result) :
    Did py w a result := by
  cases a with
  | beginLogin call svc value mode transactionId state nonce codeVerifier now =>
      simp only [perform, react] at performed
      split at performed
      · rename_i idle
        have busy : w.calls call ≠ .ended := by simp [idle]
        simp only [Option.some.injEq] at performed
        cases allowed : svc.modeAllowed mode with
        | false =>
            rw [← performed, allowed]
            exact did_ends .raised rows_same busy
        | true =>
            cases normalized : svc.normalizeReturnTo value with
            | error msg =>
                simp only [allowed, normalized] at performed
                rw [← performed]
                exact did_ends .raised rows_same busy
            | ok returnTo =>
                simp only [allowed, normalized] at performed
                rw [← performed]
                exact did_proceed (rows_create (.begun allowed normalized)) busy
                  fun _ _ => ⟨.awaits, .linking idle⟩
      · cases performed
  | linked call built =>
      simp only [perform, react] at performed
      split at performed
      · rename_i key transactionId linking
        have busy : w.calls call ≠ .ended := by simp [linking]
        simp only [Option.some.injEq] at performed
        cases built with
        | false =>
            rw [← performed]
            exact did_phase .awaits (.unlinking linking)
        | true =>
            rw [← performed]
            exact did_ends .started rows_same busy
      · cases performed
  | unlink call =>
      simp only [perform, react] at performed
      split at performed
      · rename_i key unlinking
        have busy : w.calls call ≠ .ended := by simp [unlinking]
        cases performed
        exact did_ends .raised (rows_delete (.unlinked unlinking)) busy
      · cases performed
  | completeLogin call svc code state transactionId now =>
      simp only [perform, react] at performed
      split at performed
      · rename_i idle
        have busy : w.calls call ≠ .ended := by simp [idle]
        simp only [Option.some.injEq] at performed
        cases id : presented transactionId with
        | none =>
            simp only [id] at performed
            rw [← performed]
            exact did_ends .raised rows_same busy
        | some id_ =>
            simp only [id] at performed
            rw [← performed]
            exact did_proceed (rows_delete (.taken id)) busy fun login checked =>
              ⟨.exchanges idle id checked, .exchanging idle id checked⟩
      · cases performed
  | exchanged call claims now =>
      simp only [perform, react] at performed
      split at performed
      · rename_i login exchanging
        have busy : w.calls call ≠ .ended := by simp [exchanging]
        cases claims with
        | none =>
            cases performed
            exact did_ends .raised rows_same busy
        | some claims =>
            cases performed
            exact did_proceed rows_same busy fun draft drafted =>
              ⟨.awaits, .upserting exchanging drafted⟩
      · cases performed
  | upserted call id sessionId csrfToken now =>
      simp only [perform, react] at performed
      split at performed
      · rename_i login draft upserting
        have busy : w.calls call ≠ .ended := by simp [upserting]
        cases id with
        | none =>
            cases performed
            exact did_ends .raised rows_same busy
        | some id =>
            cases performed
            refine did_proceed rows_same busy fun session built => ?_
            obtain ⟨principal, made, valid⟩ := bind_ok.mp built
            exact ⟨.awaits, .opening upserting made valid⟩
      · cases performed
  | createSession call now =>
      simp only [perform, react] at performed
      split at performed
      · rename_i login session sessionId ttl opening
        have busy : w.calls call ≠ .ended := by simp [opening]
        cases performed
        refine did_ends ?_ (rows_create (.opened opening)) busy
        split
        · rename_i stored
          exact .completed opening stored
        · exact .raised
      · cases performed
  | cancelLogin svc transactionId =>
      cases performed
      refine did_store ?_
      cases id : presented transactionId with
      | none => exact rows_same
      | some id_ => exact rows_delete (.cancelled id)
  | getBrowserSession call svc sessionId now clock =>
      simp only [perform, react] at performed
      split at performed
      · rename_i idle
        have busy : w.calls call ≠ .ended := by simp [idle]
        simp only [Option.some.injEq] at performed
        cases id : presented sessionId with
        | none =>
            simp only [id] at performed
            rw [← performed]
            exact did_ends .session rows_same busy
        | some id_ =>
            simp only [id] at performed
            rw [← performed]
            refine did_phase .session ?_
            cases invalid : (svc.checkSession (w.store.read (svc.sessionKey id_) now) clock).2 with
            | false => exact .ended busy
            | true => exact .invalidating idle id invalid
      · cases performed
  | invalidate call =>
      simp only [perform, react] at performed
      split at performed
      · rename_i key invalidating
        have busy : w.calls call ≠ .ended := by simp [invalidating]
        cases performed
        exact did_ends .session (rows_delete (.invalidated invalidating)) busy
      · cases performed
  | deleteSession svc sessionId =>
      cases performed
      refine did_store ?_
      cases id : presented sessionId with
      | none => exact rows_same
      | some id_ => exact rows_delete (.deleted id)
  | endSession svc sessionId state =>
      cases performed
      refine did_store ?_
      cases id : presented sessionId with
      | none => exact rows_same
      | some id_ => exact rows_delete (.ended id)
  | expire key now =>
      cases performed
      refine did_store fun other => ?_
      rcases w.store.find?_expire key other now with kept | ⟨rfl, gone, entry, present, late⟩
      · exact Or.inl kept
      · have keyed : entry.key = other := (Table.find?_eq_some.mp present).2
        subst keyed
        exact Or.inr (Or.inl ⟨gone, .expired present late⟩)

theorem step_did (step : Step py w a w') : ∃ outcome, Did py w a (outcome, w') := by
  obtain ⟨_, _, performed⟩ := step
  obtain ⟨result, ran, rfl⟩ := Option.map_eq_some_iff.mp performed
  exact ⟨result.1, perform_did ran⟩

theorem outcome_did {event : Event (World U) (Action U)} {said : Outcome}
    (step : Step py event.before event.label event.after) (told : outcome py event = some said) :
    Did py event.before event.label (said, event.after) := by
  obtain ⟨_, _, performed⟩ := step
  obtain ⟨result, ran, same⟩ := Option.map_eq_some_iff.mp performed
  obtain ⟨result', ran', rfl⟩ := Option.map_eq_some_iff.mp told
  rw [ran] at ran'
  rw [← Option.some.inj ran', ← same]
  exact perform_did ran

theorem removes_gone {result : Outcome × World U} {key : Str}
    (performed : w.perform py a = some result) (removes : Removes w a key) :
    result.2.store.find? key = none := by
  have gone (store : Store Str Stored) (key : Str) : (store.delete key).find? key = none := by
    rw [Store.find?_delete, if_pos rfl]
  cases removes with
  | taken id =>
      simp only [perform, react] at performed
      split at performed
      · simp only [id, Option.some.injEq] at performed
        rw [← performed, proceed_store]
        exact gone _ _
      · cases performed
  | unlinked waits =>
      simp only [perform, react, waits, Option.some.injEq] at performed
      rw [← performed]
      exact gone _ _
  | cancelled id =>
      simp only [perform, react, id, Option.some.injEq] at performed
      rw [← performed]
      exact gone _ _
  | invalidated waits =>
      simp only [perform, react, waits, Option.some.injEq] at performed
      rw [← performed]
      exact gone _ _
  | deleted id =>
      simp only [perform, react, id, Option.some.injEq] at performed
      rw [← performed]
      exact gone _ _
  | ended id =>
      simp only [perform, react, id, Option.some.injEq] at performed
      rw [← performed]
      exact gone _ _
  | expired present late =>
      simp only [perform, react, Option.some.injEq] at performed
      rw [← performed]
      simp [Store.expire, present, late, gone]

theorem Enters.busy {call : Nat} {phase : AuthCall U} (enters : Enters py w a call phase) :
    w.calls call ≠ .ended := by
  cases enters with
  | ended busy => exact busy
  | linking waits => simp [waits]
  | unlinking waits => simp [waits]
  | exchanging waits => simp [waits]
  | upserting waits => simp [waits]
  | opening waits => simp [waits]
  | invalidating waits => simp [waits]

theorem Enters.not_idle {call : Nat} {phase : AuthCall U} (enters : Enters py w a call phase) :
    phase ≠ .idle := by
  cases enters <;> simp

theorem step_ended {call : Nat} (step : Step py w a w') (ended : w.calls call = .ended) :
    w'.calls call = .ended := by
  obtain ⟨_, did⟩ := step_did step
  rcases did.call call with kept | enters
  · exact kept.trans ended
  · exact absurd ended enters.busy

theorem createSession_ends {call : Nat} {now : Clock}
    (step : Step py w (.createSession call now) w') : w'.calls call = .ended := by
  obtain ⟨_, _, performed⟩ := step
  obtain ⟨result, ran, rfl⟩ := Option.map_eq_some_iff.mp performed
  simp only [perform, react] at ran
  split at ran
  · simp only [Option.some.injEq] at ran
    rw [← ran]
    exact Function.update_self ..
  · cases ran

section Traces

def events (py : Builtins) (steps : List (Action U)) : List (Event (World U) (Action U)) :=
  trace (fun w a => ((w.perform py a).map Prod.snd).getD w) init steps

def stateAfter (py : Builtins) (steps : List (Action U)) : World U :=
  steps.foldl (fun w a => ((w.perform py a).map Prod.snd).getD w) init

abbrev Taken (py : Builtins) (event : Event (World U) (Action U)) : Prop :=
  event.label.secrets.Nodup ∧ (∀ secret ∈ event.label.secrets, secret ∉ event.before.secrets) ∧
    (event.before.perform py event.label).isSome = true

theorem events_run (py : Builtins) (steps : List (Action U))
    (taken : ∀ event ∈ events py steps, Taken py event) :
    Run (Step py) init (events py steps) (stateAfter py steps) := by
  refine Run.of_trace fun event member => ?_
  obtain ⟨distinct, fresh, enabled⟩ := taken event member
  obtain ⟨result, ran⟩ := Option.isSome_iff_exists.mp enabled
  exact ⟨distinct, fresh, by simp [ran]⟩

end Traces

end World

end TplBackend
