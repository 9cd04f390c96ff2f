import TplBackend.Delivery.Effects

namespace TplBackend

open Keyed Transition

variable {J W : Type}

/-- A session of `consume`: the writes since its last commit and, once `claim_inbox_once` has run,
whether the marker was new, with the row it inserts. -/
structure Session (J W : Type) where
  message : OutboxMessage J
  lease : ConsumerLease
  writes : List W
  receipt : Option (Bool × InboxMessage)

/-- One call of `consume`, between its statements. -/
inductive Call (J W : Type)
  | idle
  | selected (D : DurableTasks) (message : OutboxMessage J)
  | upserted (message : OutboxMessage J) (taken : Execution)
  | rechecked (message : OutboxMessage J) (taken : Execution) (done : Bool)
  | claimed (session : Session J W)
  | executing (session : Session J W)
  | guarded (session : Session J W)
  | ended

def Call.holds : Call J W → Option String
  | .upserted _ taken | .rechecked _ taken _ => some taken.resourceKey
  | .guarded session => some session.lease.resourceKey
  | _ => none

def Call.session? : Call J W → Option (Session J W)
  | .claimed session | .executing session | .guarded session => some session
  | _ => none

structure Commit (W : Type) where
  pid : Nat
  lease : ConsumerLease
  writes : List W
  receipt : Option (Bool × InboxMessage)

/-- The committed tables and business writes, the row locks on executions and every call of
`consume`; `granted` and `commits` are what happened so far, oldest first. -/
structure Consumers (J W : Type) where
  tables : Tables J
  business : List W
  lock : String → Option Nat
  calls : Nat → Call J W
  granted : List ConsumerLease
  commits : List (Commit W)

namespace Consumers

/-- One statement of a call, a method on a lease that was granted, or somebody else's transaction. -/
inductive Label (J W : Type)
  | select (pid : Nat) (D : DurableTasks) (id : Uuid) (now : Clock)
  | upsert (pid : Nat) (owner : Uuid) (now : Clock)
  | recheck (pid : Nat)
  | commitClaim (pid : Nat)
  | begin (pid : Nat) (now : Clock)
  | write (pid : Nat) (w : W)
  | rollback (pid : Nat)
  | mark (pid : Nat) (now : Clock)
  | guard (pid : Nat) (now : Clock)
  | commit (pid : Nat)
  | abort (pid : Nat)
  | renew (D : DurableTasks) (lease : ConsumerLease) (now : Clock)
  | release (lease : ConsumerLease)
  | delivery (op : Op J)

def Label.actor : Label J W → Option Nat
  | .select pid .. | .upsert pid .. | .recheck pid | .commitClaim pid | .begin pid _ | .write pid _
  | .rollback pid | .mark pid _ | .guard pid _ | .commit pid | .abort pid => some pid
  | .renew .. | .release _ | .delivery _ => none

def start : Consumers J W := ⟨Tables.empty, [], fun _ => none, fun _ => .idle, [], []⟩

def put (state : Consumers J W) (pid : Nat) (call : Call J W) : Consumers J W :=
  { state with calls := Function.update state.calls pid call }

@[simp] theorem put_calls_self (state : Consumers J W) (pid : Nat) (call : Call J W) :
    (state.put pid call).calls pid = call := by
  simp [put]

theorem put_calls_ne (state : Consumers J W) {pid other : Nat} (call : Call J W)
    (different : other ≠ pid) : (state.put pid call).calls other = state.calls other := by
  simp [put, different]

def hold (state : Consumers J W) (resource : String) (pid : Nat) : Consumers J W :=
  { state with lock := Function.update state.lock resource (some pid) }

def free (state : Consumers J W) (resource : String) : Consumers J W :=
  { state with lock := Function.update state.lock resource none }

def claimCommitted (state : Consumers J W) (pid : Nat) (message : OutboxMessage J)
    (taken : Execution) (done : Bool) : Consumers J W :=
  if done then
    (free { state with tables := DurableTasks.putExecution (DurableTasks.vacated taken) state.tables }
      taken.resourceKey).put pid .ended
  else
    (free { state with
        tables := DurableTasks.putExecution taken state.tables
        granted := state.granted ++ [DurableTasks.leaseOf taken] } taken.resourceKey).put pid
      (.claimed ⟨message, DurableTasks.leaseOf taken, [], none⟩)

def marked (receipt : Option (Bool × InboxMessage)) (s : Tables J) : Tables J :=
  match receipt with
  | some (true, row) => { s with inbox := s.inbox.insert row }
  | _ => s

/-- The end of a guarded commit: the session's writes and marker become visible together. -/
def sessionCommitted (state : Consumers J W) (pid : Nat) (session : Session J W) : Consumers J W :=
  (free { state with
      tables := marked session.receipt state.tables
      business := state.business ++ session.writes
      commits := state.commits ++ [⟨pid, session.lease, session.writes, session.receipt⟩] }
    session.lease.resourceKey).put pid
      (if session.receipt.isSome then .ended else .executing { session with writes := [] })

/-- Whatever is open is rolled back, and its lock goes with it. -/
def aborted (state : Consumers J W) (pid : Nat) : Consumers J W :=
  { state.put pid .ended with
    lock := fun resource =>
      if (state.calls pid).holds = some resource then none else state.lock resource }

variable [DecidableEq J]

/-- A statement that waits for a row lock cannot be taken until the lock is free. -/
def next (codec : Codec J) (state : Consumers J W) : Label J W → Option (Consumers J W)
  | .select pid D id now =>
      match state.calls pid with
      | .idle => some (match D.eligible codec id now state.tables with
          | none => state.put pid .ended
          | some message => state.put pid (.selected D message))
      | _ => none
  | .upsert pid owner now =>
      match state.calls pid with
      | .selected D message =>
          if state.lock message.resource = none then
            some (match DurableTasks.takeover (state.tables.executions.find? message.resource)
                message.resource message.id owner D.leaseSeconds now with
              | none => state.put pid .ended
              | some taken => (state.hold message.resource pid).put pid (.upserted message taken))
          else none
      | _ => none
  | .recheck pid =>
      match state.calls pid with
      | .upserted message taken => some (state.put pid
          (.rechecked message taken (state.tables.acknowledged message.topic message.id)))
      | _ => none
  | .commitClaim pid =>
      match state.calls pid with
      | .rechecked message taken done => some (state.claimCommitted pid message taken done)
      | _ => none
  | .begin pid now =>
      match state.calls pid with
      | .claimed session => some (state.put pid
          (if DurableTasks.checkLease state.tables session.lease now then .executing session
            else .ended))
      | _ => none
  | .write pid w =>
      match state.calls pid with
      | .executing session =>
          if session.receipt.isNone then
            some (state.put pid (.executing { session with writes := session.writes ++ [w] }))
          else none
      | _ => none
  | .rollback pid =>
      match state.calls pid with
      | .executing session =>
          if session.receipt.isNone then
            some (state.put pid (.executing { session with writes := [] }))
          else none
      | _ => none
  | .mark pid now =>
      match state.calls pid with
      | .executing session =>
          if session.receipt.isNone then
            -- An insert of the same marker by an open session would be waited for; not waiting
            -- only adds runs.
            some (match SqlOutboxRepository.claimInboxOnce session.message.topic session.message.id
                now state.tables with
              | .error _ => state.put pid .ended
              | .ok (fresh, _) => state.put pid (.executing { session with
                  receipt := some (fresh, ⟨session.message.topic, session.message.id, now⟩) }))
          else none
      | _ => none
  | .guard pid now =>
      match state.calls pid with
      | .executing session =>
          if state.lock session.lease.resourceKey = none then
            some (if DurableTasks.checkLease state.tables session.lease now then
              (state.hold session.lease.resourceKey pid).put pid (.guarded session)
            -- A failed guard raises; a handler may catch that and go on.
            else if session.receipt.isSome then state.put pid .ended else state)
          else none
      | _ => none
  | .commit pid =>
      match state.calls pid with
      | .guarded session => some (state.sessionCommitted pid session)
      | _ => none
  | .abort pid =>
      match state.calls pid with
      | .idle | .ended => none
      | _ => some (state.aborted pid)
  | .renew D lease now =>
      if lease ∈ state.granted ∧ state.lock lease.resourceKey = none then
        some (match D.renew lease now state.tables with
          | .ok tables => { state with tables := tables }
          | .error _ => state)
      else none
  | .release lease =>
      if lease ∈ state.granted ∧ state.lock lease.resourceKey = none then
        some { state with tables := DurableTasks.release lease state.tables }
      else none
  | .delivery op =>
      if op.writesExecutions = false ∧ op.writesInbox = false then
        some { state with tables := (perform codec op state.tables).2 }
      else none

def Step (codec : Codec J) (before : Consumers J W) (label : Label J W) (after : Consumers J W) :
    Prop :=
  next codec before label = some after

def events (codec : Codec J) (labels : List (Label J W)) :
    List (Event (Consumers J W) (Label J W)) :=
  trace (fun state label => (next codec state label).getD state) start labels

def proceed (codec : Codec J) (state : Consumers J W) (labels : List (Label J W)) :
    Consumers J W :=
  labels.foldl (fun state label => (next codec state label).getD state) state

def stateAfter (codec : Codec J) (labels : List (Label J W)) : Consumers J W :=
  proceed codec start labels

theorem events_run (codec : Codec J) (labels : List (Label J W))
    (taken : ∀ event ∈ events codec labels, (next codec event.before event.label).isSome = true) :
    Run (Step codec) start (events codec labels) (stateAfter codec labels) :=
  Run.of_taken taken

inductive Moves (codec : Codec J) (state : Consumers J W) : Label J W → Consumers J W → Prop
  | ineligible {pid : Nat} {D : DurableTasks} {id : Uuid} {now : Clock} :
      state.calls pid = .idle → Moves codec state (.select pid D id now) (state.put pid .ended)
  | selected {pid : Nat} {D : DurableTasks} {id : Uuid} {now : Clock} {message : OutboxMessage J} :
      state.calls pid = .idle → D.eligible codec id now state.tables = some message →
      Moves codec state (.select pid D id now) (state.put pid (.selected D message))
  | busy {pid : Nat} {owner : Uuid} {now : Clock} {D : DurableTasks} {message : OutboxMessage J} :
      state.calls pid = .selected D message →
      Moves codec state (.upsert pid owner now) (state.put pid .ended)
  | upserted {pid : Nat} {owner : Uuid} {now : Clock} {D : DurableTasks}
      {message : OutboxMessage J} {taken : Execution} :
      state.calls pid = .selected D message → state.lock message.resource = none →
      DurableTasks.takeover (state.tables.executions.find? message.resource) message.resource
        message.id owner D.leaseSeconds now = some taken →
      Moves codec state (.upsert pid owner now)
        ((state.hold message.resource pid).put pid (.upserted message taken))
  | rechecked {pid : Nat} {message : OutboxMessage J} {taken : Execution} :
      state.calls pid = .upserted message taken →
      Moves codec state (.recheck pid) (state.put pid
        (.rechecked message taken (state.tables.acknowledged message.topic message.id)))
  | refused {pid : Nat} {message : OutboxMessage J} {taken : Execution} :
      state.calls pid = .rechecked message taken true →
      Moves codec state (.commitClaim pid) (state.claimCommitted pid message taken true)
  | granted {pid : Nat} {message : OutboxMessage J} {taken : Execution} :
      state.calls pid = .rechecked message taken false →
      Moves codec state (.commitClaim pid) (state.claimCommitted pid message taken false)
  | lost {pid : Nat} {now : Clock} {session : Session J W} : state.calls pid = .claimed session →
      Moves codec state (.begin pid now) (state.put pid .ended)
  | begun {pid : Nat} {now : Clock} {session : Session J W} : state.calls pid = .claimed session →
      Moves codec state (.begin pid now) (state.put pid (.executing session))
  | written {pid : Nat} {w : W} {session : Session J W} : state.calls pid = .executing session →
      session.receipt = none →
      Moves codec state (.write pid w)
        (state.put pid (.executing { session with writes := session.writes ++ [w] }))
  | rolledBack {pid : Nat} {session : Session J W} : state.calls pid = .executing session →
      session.receipt = none →
      Moves codec state (.rollback pid) (state.put pid (.executing { session with writes := [] }))
  | unnamed {pid : Nat} {now : Clock} {session : Session J W} :
      state.calls pid = .executing session →
      Moves codec state (.mark pid now) (state.put pid .ended)
  | marked {pid : Nat} {now : Clock} {session : Session J W} :
      state.calls pid = .executing session → session.receipt = none →
      Moves codec state (.mark pid now) (state.put pid (.executing { session with
        receipt := some (!state.tables.acknowledged session.message.topic session.message.id,
          ⟨session.message.topic, session.message.id, now⟩) }))
  | unguarded {pid : Nat} {now : Clock} {session : Session J W} :
      state.calls pid = .executing session → Moves codec state (.guard pid now) state
  | expelled {pid : Nat} {now : Clock} {session : Session J W} :
      state.calls pid = .executing session →
      Moves codec state (.guard pid now) (state.put pid .ended)
  | guarded {pid : Nat} {now : Clock} {session : Session J W} :
      state.calls pid = .executing session → state.lock session.lease.resourceKey = none →
      DurableTasks.checkLease state.tables session.lease now = true →
      Moves codec state (.guard pid now)
        ((state.hold session.lease.resourceKey pid).put pid (.guarded session))
  | committed {pid : Nat} {session : Session J W} : state.calls pid = .guarded session →
      Moves codec state (.commit pid) (state.sessionCommitted pid session)
  | aborted {pid : Nat} : state.calls pid ≠ .ended →
      Moves codec state (.abort pid) (state.aborted pid)
  | kept {D : DurableTasks} {lease : ConsumerLease} {now : Clock} :
      Moves codec state (.renew D lease now) state
  | renewed {D : DurableTasks} {lease : ConsumerLease} {now : Clock} {tables : Tables J} :
      lease ∈ state.granted → state.lock lease.resourceKey = none →
      D.renew lease now state.tables = .ok tables →
      Moves codec state (.renew D lease now) { state with tables := tables }
  | released {lease : ConsumerLease} :
      lease ∈ state.granted → state.lock lease.resourceKey = none →
      Moves codec state (.release lease)
        { state with tables := DurableTasks.release lease state.tables }
  | delivered {op : Op J} : op.writesExecutions = false → op.writesInbox = false →
      Moves codec state (.delivery op) { state with tables := (perform codec op state.tables).2 }

theorem step_moves {codec : Codec J} {before after : Consumers J W} {label : Label J W}
    (step : Step codec before label after) : Moves codec before label after := by
  cases label with
  | select pid D id now =>
      simp only [Step, next] at step
      split at step
      · rename_i idle
        cases chosen : D.eligible codec id now before.tables with
        | none =>
            simp only [chosen] at step
            cases step
            exact .ineligible idle
        | some message =>
            simp only [chosen] at step
            cases step
            exact .selected idle chosen
      · cases step
  | upsert pid owner now =>
      simp only [Step, next] at step
      split at step
      · rename_i D message selected
        split at step
        · rename_i unlocked
          cases upserted : DurableTasks.takeover (before.tables.executions.find? message.resource)
              message.resource message.id owner D.leaseSeconds now with
          | none =>
              simp only [upserted] at step
              cases step
              exact .busy selected
          | some taken =>
              simp only [upserted] at step
              cases step
              exact .upserted selected unlocked upserted
        · cases step
      · cases step
  | recheck pid =>
      simp only [Step, next] at step
      split at step
      · rename_i upserted
        cases step
        exact .rechecked upserted
      · cases step
  | commitClaim pid =>
      simp only [Step, next] at step
      split at step
      · rename_i message taken done rechecked
        cases step
        cases done with
        | true => exact .refused rechecked
        | false => exact .granted rechecked
      · cases step
  | begin pid now =>
      simp only [Step, next] at step
      split at step
      · rename_i session claimed
        split at step
        · cases step
          exact .begun claimed
        · cases step
          exact .lost claimed
      · cases step
  | write pid w =>
      simp only [Step, next] at step
      split at step
      · rename_i session executing
        split at step
        · rename_i unmarked
          cases step
          exact .written executing (Option.isNone_iff_eq_none.mp unmarked)
        · cases step
      · cases step
  | rollback pid =>
      simp only [Step, next] at step
      split at step
      · rename_i session executing
        split at step
        · rename_i unmarked
          cases step
          exact .rolledBack executing (Option.isNone_iff_eq_none.mp unmarked)
        · cases step
      · cases step
  | mark pid now =>
      simp only [Step, next] at step
      split at step
      · rename_i session executing
        split at step
        · rename_i unmarked
          unfold SqlOutboxRepository.claimInboxOnce at step
          by_cases invalid : session.message.topic.isEmpty = true ∨ 128 < session.message.topic.length
          · simp only [if_pos invalid] at step
            cases step
            exact .unnamed executing
          · simp only [if_neg invalid] at step
            cases step
            exact .marked executing (Option.isNone_iff_eq_none.mp unmarked)
        · cases step
      · cases step
  | guard pid now =>
      simp only [Step, next] at step
      split at step
      · rename_i session executing
        split at step
        · rename_i unlocked
          split at step
          · rename_i current
            cases step
            exact .guarded executing unlocked current
          · split at step
            · cases step
              exact .expelled executing
            · cases step
              exact .unguarded executing
        · cases step
      · cases step
  | commit pid =>
      simp only [Step, next] at step
      split at step
      · rename_i session guarded
        cases step
        exact .committed guarded
      · cases step
  | abort pid =>
      simp only [Step, next] at step
      split at step
      · cases step
      · cases step
      · rename_i running
        cases step
        exact .aborted running
  | renew D lease now =>
      simp only [Step, next] at step
      split at step
      · rename_i free
        cases result : D.renew lease now before.tables with
        | error raised =>
            simp only [result] at step
            cases step
            exact .kept
        | ok tables =>
            simp only [result] at step
            cases step
            exact .renewed free.1 free.2 result
      · cases step
  | release lease =>
      simp only [Step, next] at step
      split at step
      · rename_i free
        cases step
        exact .released free.1 free.2
      · cases step
  | delivery op =>
      simp only [Step, next] at step
      split at step
      · rename_i outside
        cases step
        exact .delivered outside.1 outside.2
      · cases step

end Consumers

end TplBackend
