import TplBackend.Consumer.Soundness
import TplBackend.Delivery.Availability

namespace TplBackend

open Keyed Transition

variable {J W : Type}

namespace Consumers

open DurableTasks

def Grants (resource : String) (event : Event (Consumers J W) (Label J W)) : Prop :=
  ∃ lease, event.after.granted = event.before.granted ++ [lease] ∧ lease.resourceKey = resource

/-- The row of the resource has moved past the lease or was released under it. -/
def Spent (lease : ConsumerLease) (s : Tables J) : Prop :=
  ∃ l, s.executions.find? lease.resourceKey = some l ∧ lease.epoch ≤ l.epoch ∧
    (leaseOf l = lease → l.expiresAt = ⊥)

def Vacant (lease : ConsumerLease) (s : Tables J) : Prop :=
  ∃ l, s.executions.find? lease.resourceKey = some l ∧ lease.epoch ≤ l.epoch ∧ l.expiresAt = ⊥

theorem Vacant.spent {lease : ConsumerLease} {s : Tables J} (vacant : Vacant lease s) :
    Spent lease s := by
  obtain ⟨l, found, epoch, released⟩ := vacant
  exact ⟨l, found, epoch, fun _ => released⟩

theorem Spent.unchecked {lease : ConsumerLease} {s : Tables J} (spent : Spent lease s)
    (now : Clock) : checkLease s lease now = false := by
  obtain ⟨l, found, _, released⟩ := spent
  rw [checkLease, List.any_eq_false]
  intro row member
  rw [Bool.and_eq_true, decide_eq_true_eq]
  rintro ⟨own, live⟩
  have same : leaseOf row = lease := of_decide_eq_true own
  have keyed : row.resourceKey = lease.resourceKey := by rw [← same]; rfl
  have looked : s.executions.find? row.resourceKey = some row := Table.find?_of_mem member
  rw [keyed, found] at looked
  cases looked
  rw [released same] at live
  exact absurd bot_le (not_le.mpr live)

theorem Vacant.takeover {lease : ConsumerLease} {s : Tables J} (vacant : Vacant lease s)
    (id owner : Uuid) (leaseSeconds : Nat) (now : Clock) :
    ∃ taken, DurableTasks.takeover (s.executions.find? lease.resourceKey) lease.resourceKey id owner
        leaseSeconds now = some taken ∧ taken.resourceKey = lease.resourceKey ∧
      lease.epoch < taken.epoch := by
  obtain ⟨l, found, epoch, released⟩ := vacant
  have expired : l.expiresAt ≤ (now : Timestamp) := by
    rw [released]
    exact bot_le
  rw [found]
  exact ⟨_, if_pos expired, rfl, Nat.lt_succ_of_le epoch⟩

theorem Vacant.claims {codec : Codec J} {lease : ConsumerLease} {s : Tables J}
    (vacant : Vacant lease s)
    (D : DurableTasks) (id owner : Uuid) (now : Clock) (message : OutboxMessage J)
    (selected : D.eligible codec id now s = some message)
    (resource : message.resource = lease.resourceKey) :
    ∃ granted, (D.claimExecution codec id owner now s).1 = some (granted, message) ∧
      granted.resourceKey = lease.resourceKey ∧ lease.epoch < granted.epoch := by
  obtain ⟨taken, took, keyed, above⟩ := vacant.takeover id owner D.leaseSeconds now
  obtain ⟨_, rfl, _, _, fresh, _⟩ := eligible_spec selected
  have unmarked : (putExecution taken s).acknowledged message.topic message.id = false :=
    fresh
  refine ⟨leaseOf taken, ?_, keyed, above⟩
  simp [claimExecution, selected, resource, took, unmarked]

variable {state after : Consumers J W} {label : Label J W}

theorem find?_claimCommitted (pid : Nat) (message : OutboxMessage J) (taken : Execution) (done : Bool)
    (resource : String) :
    (state.claimCommitted pid message taken done).tables.executions.find? resource =
      if taken.resourceKey = resource then some (if done then vacated taken else taken)
      else state.tables.executions.find? resource := by
  cases done with
  | false => exact find?_putExecution taken state.tables resource
  | true => exact find?_putExecution (vacated taken) state.tables resource

theorem claimed_epoch (fenced : Fenced state) {actor : Nat} {message : OutboxMessage J}
    {taken l : Execution} {done : Bool} (rechecked : state.calls actor = .rechecked message taken done)
    (found : state.tables.executions.find? taken.resourceKey = some l) : taken.epoch = l.epoch + 1 := by
  obtain ⟨_, _, _, epoch⟩ := fenced.fits rechecked
  rw [epoch, Tables.occupant, found]
  rfl

inductive ExecutionStep (state : Consumers J W) (label : Label J W) (resource : String) :
    Option Execution → Option Execution → Prop
  | same {row : Option Execution} : ExecutionStep state label resource row row
  | claimed {row : Option Execution} {actor : Nat} {message : OutboxMessage J} {taken : Execution}
      {done : Bool} : label = .commitClaim actor → state.calls actor = .rechecked message taken done →
      taken.resourceKey = resource →
      ExecutionStep state label resource row (some (if done then vacated taken else taken))
  | renewed {D : DurableTasks} {l : Execution} {now : Clock} : label = .renew D (leaseOf l) now →
      (now : Timestamp) < l.expiresAt →
      ExecutionStep state label resource (some l) (some (extended D.leaseSeconds now l))
  | released {l : Execution} : label = .release (leaseOf l) →
      ExecutionStep state label resource (some l) (some (vacated l))

variable [DecidableEq J] {codec : Codec J}

theorem moves_execution (moves : Moves codec state label after) (resource : String) :
    ExecutionStep state label resource (state.tables.executions.find? resource)
      (after.tables.executions.find? resource) := by
  have kept (same : after.tables.executions = state.tables.executions) :
      ExecutionStep state label resource (state.tables.executions.find? resource)
        (after.tables.executions.find? resource) := by
    rw [same]
    exact .same
  cases moves with
  | @refused actor message taken rechecked | @granted actor message taken rechecked =>
      rw [find?_claimCommitted]
      by_cases here : taken.resourceKey = resource
      · rw [if_pos here]
        exact .claimed rfl rechecked here
      · rw [if_neg here]
        exact .same
  | @renewed D lease now tables _ _ result =>
      obtain ⟨_, rfl⟩ := renew_ok result
      simp only [Table.find?_update]
      cases found : state.tables.executions.find? resource with
      | none => exact .same
      | some l =>
          by_cases current : (owned l lease && decide ((now : Timestamp) < l.expiresAt)) = true
          · simp only [Option.map_some, if_pos current]
            rw [Bool.and_eq_true, decide_eq_true_eq] at current
            cases (of_decide_eq_true current.1 : leaseOf l = lease)
            exact .renewed rfl current.2
          · simp only [Option.map_some, if_neg current]
            exact .same
  | @released lease _ _ =>
      simp only [release, Table.find?_update]
      cases found : state.tables.executions.find? resource with
      | none => exact .same
      | some l =>
          by_cases own : owned l lease = true
          · simp only [Option.map_some, if_pos own]
            cases (of_decide_eq_true own : leaseOf l = lease)
            exact .released rfl
          · simp only [Option.map_some, if_neg own]
            exact .same
  | @delivered op outside _ => exact kept ((perform_frame codec op state.tables).executions outside)
  | committed =>
      refine kept ?_
      simp only [sessionCommitted, put, free, marked]
      split <;> rfl
  | _ => exact kept rfl

theorem step_spent {lease : ConsumerLease} (fenced : Fenced state)
    (step : Step codec state label after) (spent : Spent lease state.tables) :
    Spent lease after.tables := by
  obtain ⟨l, found, epoch, released⟩ := spent
  have moved := moves_execution (step_moves step) lease.resourceKey
  generalize before : state.tables.executions.find? lease.resourceKey = row at moved
  generalize reached : after.tables.executions.find? lease.resourceKey = row' at moved
  rw [found] at before
  cases moved with
  | same => exact ⟨l, reached.trans before.symm, epoch, released⟩
  | @claimed _ actor message taken done _ rechecked here =>
      have above : taken.epoch = l.epoch + 1 := claimed_epoch fenced rechecked (here ▸ found)
      have moved : (if done = true then vacated taken else taken).epoch = taken.epoch := by
        cases done <;> rfl
      refine ⟨_, reached, by omega, fun same => ?_⟩
      have equal : (if done = true then vacated taken else taken).epoch = lease.epoch :=
        congrArg ConsumerLease.epoch same
      omega
  | renewed _ live =>
      cases before
      refine ⟨_, reached, epoch, fun same => ?_⟩
      rw [released same] at live
      exact absurd bot_le (not_le.mpr live)
  | released =>
      cases before
      exact ⟨_, reached, epoch, fun _ => rfl⟩

theorem step_vacant {lease : ConsumerLease} (fenced : Fenced state)
    (step : Step codec state label after) (ungranted : ¬ Grants lease.resourceKey ⟨state, label, after⟩)
    (vacant : Vacant lease state.tables) : Vacant lease after.tables := by
  obtain ⟨l, found, epoch, released⟩ := vacant
  have moves := step_moves step
  have moved := moves_execution moves lease.resourceKey
  generalize before : state.tables.executions.find? lease.resourceKey = row at moved
  generalize reached : after.tables.executions.find? lease.resourceKey = row' at moved
  rw [found] at before
  cases moved with
  | same => exact ⟨l, reached.trans before.symm, epoch, released⟩
  | @claimed _ actor message taken done commits rechecked here =>
      have above : taken.epoch = l.epoch + 1 := claimed_epoch fenced rechecked (here ▸ found)
      subst commits
      cases moves with
      | refused rechecked' =>
          cases rechecked.symm.trans rechecked'
          exact ⟨_, reached, by simp only [if_true, vacated]; omega, rfl⟩
      | granted rechecked' =>
          cases rechecked.symm.trans rechecked'
          exact absurd ⟨leaseOf taken, rfl, here⟩ ungranted
  | renewed _ live =>
      cases before
      rw [released] at live
      exact absurd bot_le (not_le.mpr live)
  | released =>
      cases before
      exact ⟨_, reached, epoch, rfl⟩

section Runs

variable {history earlier later : List (Event (Consumers J W) (Label J W))}
variable {event : Event (Consumers J W) (Label J W)} {lease : ConsumerLease}

theorem run_fenced (run : Run (Step codec) start history state) : Fenced state :=
  run.invariant start_fenced fun _ _ _ fenced step => step_fenced fenced step

theorem release_vacant (run : Run (Step codec) start (earlier ++ event :: later) state)
    (releases : event.label = .release lease)
    (current : event.before.tables.occupant lease.resourceKey = some lease) :
    Vacant lease event.after.tables := by
  obtain ⟨l, found, same⟩ := Option.map_eq_some_iff.mp current
  have moves := step_moves run.at_event.2
  rw [releases] at moves
  generalize event.after = after at moves
  cases moves with
  | released =>
      refine ⟨vacated l, ?_, ?_, rfl⟩
      · have own : owned l lease = true := decide_eq_true same
        simp [release, Table.find?_update, found, own]
      · rw [← same]
        exact le_rfl

theorem run_spent (run : Run (Step codec) start (earlier ++ event :: later) state)
    (spent : Spent lease event.after.tables) : Spent lease state.tables := by
  have kept (before : Consumers J W) (label : Label J W) (after : Consumers J W)
      (both : Fenced before ∧ Spent lease before.tables) (step : Step codec before label after) :
      Fenced after ∧ Spent lease after.tables :=
    ⟨step_fenced both.1 step, step_spent both.1 step both.2⟩
  exact (run.stable kept ⟨run_fenced run.through, spent⟩).2

theorem run_vacant (run : Run (Step codec) start (earlier ++ event :: later) state)
    (vacant : Vacant lease event.after.tables)
    (ungranted : ∀ other ∈ later, ¬ Grants lease.resourceKey other) : Vacant lease state.tables := by
  induction later using List.reverseRecOn generalizing state with
  | nil =>
      rw [run.last.2.2]
      exact vacant
  | append_singleton later final ih =>
      rw [← List.cons_append, ← List.append_assoc] at run
      obtain ⟨shorter, step, rfl⟩ := run.last
      exact step_vacant (run_fenced shorter) step (ungranted final (by simp))
        (ih shorter fun other member => ungranted other (List.mem_append_left _ member))

/-- What the release of a current lease leaves behind; `later` is what happened since. -/
structure Released (codec : Codec J) (lease : ConsumerLease)
    (later : List (Event (Consumers J W) (Label J W))) (state : Consumers J W) : Prop where
  unchecked : ∀ now, checkLease state.tables lease now = false
  unrenewed : ∀ (D : DurableTasks) now, ∃ raised, D.renew lease now state.tables = .error raised
  claimed : (∀ other ∈ later, ¬ Grants lease.resourceKey other) →
    ∀ (D : DurableTasks) id owner now message, D.eligible codec id now state.tables = some message →
      message.resource = lease.resourceKey →
      ∃ granted, (D.claimExecution codec id owner now state.tables).1 = some (granted, message) ∧
        granted.resourceKey = lease.resourceKey ∧ lease.epoch < granted.epoch
  /-- The same of the statement that takes the row, when the claim waited before it. -/
  upserted : (∀ other ∈ later, ¬ Grants lease.resourceKey other) →
    ∀ pid D message owner now, state.calls pid = .selected D message →
      message.resource = lease.resourceKey → state.lock lease.resourceKey = none →
      ∃ after taken, Step codec state (.upsert pid owner now) after ∧
        after.calls pid = .upserted message taken ∧ lease.epoch < taken.epoch

theorem run_released (run : Run (Step codec) start (earlier ++ event :: later) state)
    (releases : event.label = .release lease)
    (current : event.before.tables.occupant lease.resourceKey = some lease) :
    Released codec lease later state := by
  have vacant := release_vacant run releases current
  have unchecked := (run_spent run vacant.spent).unchecked
  refine ⟨unchecked, fun D now => ?_, fun ungranted => (run_vacant run vacant ungranted).claims, ?_⟩
  · exact ⟨.deliveryLeaseLost "consumer lease lost", if_neg (by simp [unchecked now])⟩
  · intro ungranted pid D message owner now selected resource unlocked
    obtain ⟨taken, took, _, above⟩ :=
      (run_vacant run vacant ungranted).takeover message.id owner D.leaseSeconds now
    refine ⟨(state.hold message.resource pid).put pid (.upserted message taken), taken, ?_,
      put_calls_self _ _ _, above⟩
    simp [Step, next, selected, resource, unlocked, took]

end Runs

section Availability

def Reassigns (codec : Codec J) (event : Event (Consumers J W) (Label J W)) (id : Uuid) : Prop :=
  ∃ op value, event.label = .delivery op ∧ Assigns codec event.before.tables op id value

variable {earlier later : List (Event (Consumers J W) (Label J W))}
variable {event : Event (Consumers J W) (Label J W)}

theorem moves_outbox (moves : Moves codec state label after) (inside : ∀ op, label ≠ .delivery op) :
    after.tables.outbox = state.tables.outbox := by
  cases moves with
  | @delivered op => exact absurd rfl (inside op)
  | refused | granted => exact outbox_claimCommitted _ _ _
  | committed => exact outbox_sessionCommitted _
  | renewed _ _ result =>
      obtain ⟨_, rfl⟩ := renew_ok result
      rfl
  | _ => rfl

theorem step_availableAt {m : OutboxMessage J} (step : Step codec event.before event.label event.after)
    (present : m ∈ event.before.tables.outbox) (unassigned : ¬ Reassigns codec event m.id) :
    ∃ m' ∈ event.after.tables.outbox, m'.id = m.id ∧ m'.availableAt = m.availableAt ∧
      m'.headers = m.headers := by
  obtain ⟨before, label, after⟩ := event
  have moves : Moves codec before label after := step_moves step
  by_cases outside : ∃ op, label = .delivery op
  · obtain ⟨op, rfl⟩ := outside
    cases moves with
    | delivered =>
        exact availableAt_kept present fun value assigns => unassigned ⟨op, value, rfl, assigns⟩
  · have same := moves_outbox moves fun op performs => outside ⟨op, performs⟩
    exact ⟨m, same ▸ present, rfl, rfl, rfl⟩

theorem run_availableAt (run : Run (Step codec) start (earlier ++ event :: later) state)
    {first : OutboxMessage J} (written : first ∈ event.after.tables.outbox)
    (last : ∀ other ∈ later, ¬ Reassigns codec other first.id) :
    ∃ m ∈ state.tables.outbox, m.id = first.id ∧ m.availableAt = first.availableAt ∧
      m.headers = first.headers := by
  induction later using List.reverseRecOn generalizing state with
  | nil =>
      rw [run.last.2.2]
      exact ⟨first, written, rfl, rfl, rfl⟩
  | append_singleton later final ih =>
      rw [← List.cons_append, ← List.append_assoc] at run
      obtain ⟨shorter, step, rfl⟩ := run.last
      obtain ⟨m, present, keyed, available, headers⟩ :=
        ih shorter fun other member => last other (List.mem_append_left _ member)
      obtain ⟨m', member, keyed', kept, headers'⟩ :=
        step_availableAt step present (keyed ▸ last final (by simp))
      exact ⟨m', member, keyed'.trans keyed, kept.trans available, headers'.trans headers⟩

theorem run_assigned (run : Run (Step codec) start (earlier ++ event :: later) state) {op : Op J}
    {m : OutboxMessage J} {value : Timestamp} (performs : event.label = .delivery op)
    (assigns : Assigns codec event.before.tables op m.id value)
    (last : ∀ other ∈ later, ¬ Reassigns codec other m.id) (present : m ∈ state.tables.outbox) :
    m.availableAt = value ∧
      (op.resets = true → m.headers.lookup notBeforeHeader = none → m.availableAt = ⊥) := by
  have moves := step_moves run.at_event.2
  rw [performs] at moves
  obtain ⟨first, written, keyed, available⟩ := assigns.performed
  have after : event.after.tables = (perform codec op event.before.tables).2 := by
    generalize event.after = after at moves
    cases moves with
    | delivered => rfl
  obtain ⟨m', member, keyed', kept, headers⟩ :=
    run_availableAt run (after ▸ written) (keyed ▸ last)
  cases Table.eq_of_key_eq member present (keyed'.trans keyed)
  rw [kept, available]
  exact ⟨rfl, fun resets unscheduled => assigns.reset resets written keyed (headers ▸ unscheduled)⟩

/-- Releasing an execution and requeueing a message write states that no clock reading undoes. -/
theorem released_and_requeued (run : Run (Step codec) start (earlier ++ event :: later) state) :
    (∀ lease, event.label = .release lease →
      event.before.tables.occupant lease.resourceKey = some lease →
        Released codec lease later state) ∧
    ∀ op m value, event.label = .delivery op → Assigns codec event.before.tables op m.id value →
      (∀ other ∈ later, ¬ Reassigns codec other m.id) → m ∈ state.tables.outbox →
        (op.resets = true → m.status = .pending → m.headers.lookup notBeforeHeader = none →
          state.tables.quarantined m.id = false → ∀ (P : DurableDelivery) now,
            m.topic ∈ P.topics.keys → P.candidate codec state.tables now m = true) ∧
        ∀ (P : DurableDelivery) message error clock, op = .finishDelivery P message (some error) clock →
          ∀ (Q : DurableDelivery) now, now < clock + seconds (DurableDelivery.delay message.attemptCount) →
            Q.candidate codec state.tables now m = false := by
  refine ⟨fun lease => run_released run, fun op m value performs assigns last present => ?_⟩
  obtain ⟨available, bottom⟩ := run_assigned run performs assigns last present
  refine ⟨fun resets pending unscheduled free P now topic => ?_, ?_⟩
  · exact candidate_at_any_clock (bottom resets unscheduled) pending unscheduled free topic now
  · rintro P message error clock rfl Q now early
    generalize m.id = id at assigns
    cases assigns with
    | finished => exact not_candidate_before available early

end Availability

/-- An owner that claims by a fast clock and releases its execution. -/
def releasedEarly : List (Label Unit Nat) :=
  [.delivery (.enqueue 7 (sampleEvent none) 100000000), .select 0 sampleTasks 7 100000000,
    .upsert 0 11 100000000, .recheck 0, .commitClaim 0,
    .release ⟨"test.counter.v1:counter:1", 7, 11, 1⟩]

theorem released_and_requeued_early :
    checkLease (stateAfter sampleCodec releasedEarly).tables
        ⟨"test.counter.v1:counter:1", 7, 11, 1⟩ 1000000 = false ∧
      samplePolicy.candidate sampleCodec (stateAfter sampleCodec (releasedEarly.take 1)).tables
        (-1000000) (SqlOutboxRepository.newRow sampleCodec 7 (sampleEvent none) 100000000) = true := by
  constructor
  · have run := events_run sampleCodec releasedEarly (by decide)
    have last : events sampleCodec releasedEarly = events sampleCodec (releasedEarly.take 5) ++
        ⟨stateAfter sampleCodec (releasedEarly.take 5), releasedEarly[5],
          stateAfter sampleCodec releasedEarly⟩ :: [] := rfl
    rw [last] at run
    exact ((released_and_requeued run).1 _ rfl (by decide)).unchecked 1000000
  · have run := events_run sampleCodec (releasedEarly.take 1) (by decide)
    have only : events sampleCodec (releasedEarly.take 1) = [] ++ ⟨start, releasedEarly[0],
        stateAfter sampleCodec (releasedEarly.take 1)⟩ :: [] := rfl
    rw [only] at run
    have assigns : Assigns sampleCodec (start : Consumers Unit Nat).tables
        (.enqueue 7 (sampleEvent none) 100000000) 7 ⊥ := .enqueued rfl rfl rfl (by simp [start, Tables.empty])
    exact ((released_and_requeued run).2 _ _ _ rfl assigns (by simp) List.mem_cons_self).1 rfl rfl rfl
      rfl samplePolicy (-1000000) (by decide)

end Consumers

end TplBackend
