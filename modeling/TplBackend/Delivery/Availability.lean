import TplBackend.Delivery.Intent

namespace TplBackend

open Keyed Transition SqlOutboxRepository DurableDelivery

variable {J : Type}

/-- The operation writes this `available_at` to the row under `id`. -/
inductive Assigns [DecidableEq J] (codec : Codec J) (s : Tables J) : Op J → Uuid → Timestamp → Prop
  | enqueued {id : Uuid} {event : OutboxEvent J} {now : Clock} : event.validate codec = .ok () →
      event.storable codec = true → s.outbox.find? id = none → (∀ m ∈ s.outbox, m.deduplicationKey ≠ event.deduplicationKey) →
      Assigns codec s (.enqueue id event now) id (newRow codec id event now).availableAt
  | finished {P : DurableDelivery} {message m : OutboxMessage J} {error : Option String}
      {now : Clock} : m ∈ s.outbox → m.heldBy message.id message.leaseOwner now = true →
      Assigns codec s (.finishDelivery P message error now) m.id
        (now + seconds (delay message.attemptCount) : Int)
  | requeued {P : DurableDelivery} {locked : Uuid → Bool} {now : Clock} {id : Uuid} :
      Requeues activeExecution P locked now P.topics.entries s id →
      Assigns codec s (.reconcile P locked now) id ⊥
  | replayed {P : DurableDelivery} {now : Clock} {m : OutboxMessage J} : m ∈ s.outbox →
      m.topic ∈ P.topics.keys → s.quarantined m.id = true → Assigns codec s (.replay P m.id now) m.id ⊥
  | failed {id : Uuid} {owner error : String} {retrySeconds : Int} {now clock : Clock}
      {m : OutboxMessage J} {s' : Tables J} : m ∈ s.outbox →
      m.heldBy id (some owner) clock = true →
      markFailed id owner error retrySeconds now clock s = .ok s' →
      Assigns codec s (.markFailed id owner error retrySeconds now clock) m.id
        (now + seconds retrySeconds : Int)

def Op.resets : Op J → Bool
  | .enqueue .. | .reconcile .. | .replay .. => true
  | _ => false

theorem newRow_availableAt {codec : Codec J} {id : Uuid} {event : OutboxEvent J} {now : Clock}
    (unscheduled : (event.transportHeaders codec).lookup notBeforeHeader = none) :
    (newRow codec id event now).availableAt = ⊥ := by
  cases declared : event.notBefore with
  | none => simp [newRow, declared]
  | some instant =>
      rw [OutboxEvent.lookup_transportHeaders codec event instant declared] at unscheduled
      cases unscheduled

section Writers

variable [DecidableEq J] {codec : Codec J} {s : Tables J} {op : Op J} {id : Uuid}

theorem Rewrite.availableAt {m m' : OutboxMessage J} (step : Rewrite codec s op m m')
    (present : m ∈ s.outbox) (accepted : ∀ id owner error retrySeconds now clock,
      op = .markFailed id owner error retrySeconds now clock →
        ∃ s', markFailed id owner error retrySeconds now clock s = .ok s') :
    Assigns codec s op m.id m'.availableAt ∨ m'.availableAt = m.availableAt := by
  cases step with
  | same | claimed | batched | published => exact Or.inr rfl
  | finished held => exact Or.inl (.finished present held)
  | requeued selected below =>
      exact Or.inl (.requeued ⟨m, Table.find?_of_mem present, selected, below⟩)
  | replayed topic quarantined => exact Or.inl (.replayed present topic quarantined)
  | failed held =>
      obtain ⟨_, result⟩ := accepted _ _ _ _ _ _ rfl
      exact Or.inl (.failed present held result)

theorem perform_availableAt {m' : OutboxMessage J} (member : m' ∈ (perform codec op s).2.outbox) :
    Assigns codec s op m'.id m'.availableAt ∨
      ∃ m ∈ s.outbox, m.id = m'.id ∧ m'.availableAt = m.availableAt := by
  by_cases unchanged : (perform codec op s).2 = s
  · exact Or.inr ⟨m', unchanged ▸ member, rfl, rfl⟩
  rcases perform_origin member with ⟨m, present, keyed, rewrite⟩ | ⟨event, now, inserts, accepted,
    storable, fresh, new⟩
  · have assigned := rewrite.availableAt present fun id owner error retrySeconds now clock fails => by
      subst fails
      cases result : markFailed id owner error retrySeconds now clock s with
      | error raised => exact absurd (by simp [perform, settle, result]) unchanged
      | ok s' => exact ⟨s', rfl⟩
    rw [keyed] at assigned
    exact assigned.imp_right fun kept => ⟨m, present, keyed, kept⟩
  · have free : s.outbox.find? m'.id = none := by
      cases found : s.outbox.find? m'.id with
      | none => rfl
      | some m =>
          refine absurd ?_ unchanged
          rw [inserts]
          cases result : enqueue codec m'.id event now s with
          | error raised => simp [perform, settle, result]
          | ok value =>
              obtain ⟨_, _, ⟨_, absent, _, _⟩ | ⟨_, _, _, _, _, same⟩⟩ := enqueue_ok result
              · rw [found] at absent
                cases absent
              · simp [perform, settle, result, same]
    rw [inserts, new]
    exact Or.inl (.enqueued accepted storable free fresh)

theorem mem_enqueued {event : OutboxEvent J} {now : Clock} (accepted : event.validate codec = .ok ())
    (storable : event.storable codec = true) (free : s.outbox.find? id = none)
    (fresh : ∀ m ∈ s.outbox, m.deduplicationKey ≠ event.deduplicationKey) :
    newRow codec id event now ∈ (perform codec (.enqueue id event now) s).2.outbox := by
  have absent : (s.outbox.rows.find? fun m => m.deduplicationKey = event.deduplicationKey) =
      none := by simpa [Table.mem_rows] using fresh
  have result : enqueue codec id event now s =
      .ok (id, { s with outbox := s.outbox.insert (newRow codec id event now) }) := by
    simp [enqueue, accepted, storable, absent, free]
  simp only [perform, settle, result, bind_pure_comp, Except.map_ok]
  exact Table.mem_insert.mpr (Or.inr ⟨rfl, free⟩)

theorem Assigns.performed {value : Timestamp} (assigns : Assigns codec s op id value) :
    ∃ m ∈ (perform codec op s).2.outbox, m.id = id ∧ m.availableAt = value := by
  cases assigns with
  | @enqueued _ event now accepted storable free fresh =>
      exact ⟨newRow codec id event now, mem_enqueued accepted storable free fresh, rfl, rfl⟩
  | @finished P message m error now present held =>
      cases result : P.finishDelivery message error now s with
      | error raised =>
          rw [(finishDelivery_error result).2 m present] at held
          cases held
      | ok s' =>
          have update := (finishDelivery_ok result).2.1
          refine ⟨DurableDelivery.finished message.attemptCount error now m, ?_, rfl, rfl⟩
          simp only [perform, settle, result, bind_pure_comp, Except.map_ok, update]
          exact Table.mem_update.mpr ⟨m, present, if_pos held⟩
  | @requeued P locked now _ back =>
      have step := reconcileWith_reconciled P locked now activeExecution_steady s
      have requeued_ := back
      obtain ⟨m, found, _⟩ := back
      have moved := (step.found id m found).1 requeued_
      exact ⟨_, (Table.find?_eq_some.mp moved).1, (Table.find?_eq_some.mp moved).2, rfl⟩
  | @replayed P now m present topic quarantined =>
      cases result : P.replay m.id now s with
      | error raised =>
          rcases replay_error result with outside | absent
          · exact absurd topic (outside m present rfl)
          · rw [quarantined] at absent
            cases absent
      | ok s' =>
          obtain ⟨_, _, rfl⟩ := replay_ok result
          refine ⟨DurableDelivery.replayed now m, ?_, rfl, rfl⟩
          simp only [perform, settle, result, bind_pure_comp, Except.map_ok]
          exact Table.mem_update.mpr ⟨m, present, if_pos (by simp)⟩
  | @failed key owner error retrySeconds now clock m s' present held result =>
      have performed : (perform codec (.markFailed key owner error retrySeconds now clock) s).2 =
          s' := by simp [perform, settle, result]
      rw [performed]
      unfold markFailed at result
      split at result
      · cases result
      · obtain ⟨_, rfl⟩ := complete_ok result
        refine ⟨SqlOutboxRepository.failed error retrySeconds now m, ?_, rfl, rfl⟩
        rw [Table.mem_update]
        exact ⟨m, present, if_pos held⟩

theorem availableAt_kept {m : OutboxMessage J} (present : m ∈ s.outbox)
    (unassigned : ∀ value, ¬ Assigns codec s op m.id value) :
    ∃ m' ∈ (perform codec op s).2.outbox, m'.id = m.id ∧ m'.availableAt = m.availableAt ∧
      m'.headers = m.headers := by
  have row := perform_row codec op s m.id
  rw [Table.find?_of_mem present] at row
  generalize after : (perform codec op s).2.outbox.find? m.id = new at row
  cases row with
  | @rewritten _ m' rewrite =>
      obtain ⟨member, keyed⟩ := Table.find?_eq_some.mp after
      rcases perform_availableAt member with assigns | ⟨old, stored, same, kept⟩
      · exact absurd (keyed ▸ assigns) (unassigned _)
      · cases Table.eq_of_key_eq stored present (same.trans keyed)
        exact ⟨m', member, keyed, kept, headers_of_intent rewrite.intent_eq⟩

theorem Assigns.reset {value : Timestamp} {m : OutboxMessage J} (assigns : Assigns codec s op id value)
    (resets : op.resets = true) (member : m ∈ (perform codec op s).2.outbox) (keyed : m.id = id)
    (unscheduled : m.headers.lookup notBeforeHeader = none) : value = ⊥ := by
  cases assigns with
  | requeued | replayed => rfl
  | finished | failed => cases resets
  | enqueued accepted storable free fresh =>
      cases Table.eq_of_key_eq member (mem_enqueued accepted storable free fresh) keyed
      exact newRow_availableAt unscheduled

end Writers

section Candidates

variable {codec : Codec J} {s : Tables J} {m : OutboxMessage J}

theorem candidate_at_any_clock {P : DurableDelivery} (available : m.availableAt = ⊥)
    (pending : m.status = .pending) (unscheduled : m.headers.lookup notBeforeHeader = none)
    (free : s.quarantined m.id = false) (topic : m.topic ∈ P.topics.keys) (now : Clock) :
    P.candidate codec s now m = true := by
  have due : notBeforeDue codec m.headers now = true :=
    (notBeforeDue_iff codec m.headers now).mpr ⟨⊥, by simp [notBefore, unscheduled], bot_le⟩
  simp [candidate, unowned, available, pending, due, free, topic]

theorem not_candidate_before {P : DurableDelivery} {at_ now : Clock}
    (available : m.availableAt = (at_ : Timestamp)) (early : now < at_) :
    P.candidate codec s now m = false := by
  have later : ¬ m.availableAt ≤ (now : Timestamp) := by
    rw [available, Timestamp.coe_le_coe]
    exact not_le.mpr early
  simp [candidate, later]

end Candidates

end TplBackend
