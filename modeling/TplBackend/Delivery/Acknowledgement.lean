import TplBackend.Delivery.Effects

namespace TplBackend

open Keyed Transition SqlOutboxRepository DurableDelivery

variable {J : Type}

def Op.under (P : DurableDelivery) : Op J → Prop
  | .claimDelivery Q .. | .finishDelivery Q .. | .reconcile Q .. | .replay Q .. => Q = P
  | .claimBatch .. | .markPublished .. | .markFailed .. => False
  | _ => True

def Receipted (P : DurableDelivery) (s : Tables J) (m : OutboxMessage J) : Prop :=
  ∃ consumer, P.Requires m.topic consumer ∧ s.acknowledged consumer m.id = true

/-- Neither branch that writes a dead letter without a look at the inbox meets a message that is
acknowledged and not yet quarantined: a failed publish at the limit, and the exhausted rows. -/
def SparesAcknowledged (P : DurableDelivery) (s : Tables J) (op : Op J) : Prop :=
  ∀ m ∈ s.outbox, Receipted P s m → s.quarantined m.id = false →
    match op with
    | .finishDelivery _ message error now =>
        ¬ (m.heldBy message.id message.leaseOwner now = true ∧ truthy error = true ∧
          P.maxAttempts ≤ message.attemptCount)
    | .reconcile _ locked now => ¬ (locked m.id = false ∧ P.exhausted s now m = true)
    | _ => True

def BuriesUnacknowledged (P : DurableDelivery) (event : Event (Tables J) (Op J)) : Prop :=
  ∀ m ∈ event.before.outbox, event.before.quarantined m.id = false →
    event.after.quarantined m.id = true → ¬ Receipted P event.after m

variable {codec : Codec J} {P : DurableDelivery} {s s' : Tables J} {op : Op J}

theorem receipted_congr (same : s'.inbox = s.inbox) (m : OutboxMessage J) :
    Receipted P s' m ↔ Receipted P s m := by
  rw [Receipted, Receipted, Tables.acknowledged_congr same]

theorem Buries.writesInbox {id : Uuid} (buries : Buries s op id) : op.writesInbox = false := by
  cases buries <;> rfl

/-- The consumer loop looks at the inbox before it gives a message up. -/
theorem givesUp_unreceipted {active : ActiveExecution J}
    {locked : Uuid → Bool} {now : Clock} {m : OutboxMessage J} (member : m ∈ s.outbox)
    (gives : GivesUp active P locked now P.topics.entries s m.id) : ¬ Receipted P s m := by
  rintro ⟨consumer, required, acknowledged⟩
  obtain ⟨row, found, ⟨_, other, entry, selected⟩, _⟩ := gives
  cases Table.eq_of_key_eq (Table.find?_eq_some.mp found).1 member (Table.find?_eq_some.mp found).2
  have same : P.topics.lookup m.topic = some (some other) := mem_entries.mp entry
  rw [required] at same
  cases same
  simp [unacknowledged, acknowledged] at selected

theorem buriesUnacknowledged_iff [DecidableEq J] (step : Step codec (Op.under P) s op s') :
    BuriesUnacknowledged P ⟨s, op, s'⟩ ↔ SparesAcknowledged P s op := by
  obtain ⟨under, rfl⟩ := step
  have journal := perform_quarantined codec op s
  have inbox := (perform_frame codec op s).inbox
  constructor
  · intro safe m member receipted free
    have spared (buries : Buries s op m.id) : False := by
      refine safe m member free ((journal m.id).mpr (Or.inl buries)) ?_
      exact (receipted_congr (inbox buries.writesInbox) m).mpr receipted
    cases op with
    | finishDelivery Q message error now =>
        cases under
        rintro ⟨held, failing, limit⟩
        have keyed := ((m.heldBy_iff _ _ _).mp held).1
        exact spared (keyed ▸ .publishFailed member held failing limit)
    | reconcile Q locked now =>
        cases under
        rintro ⟨unlocked, exhausted⟩
        exact spared (.attemptsExhausted ⟨m, Table.find?_of_mem member, unlocked, exhausted⟩)
    | _ => trivial
  · intro spares m member free opened receipted
    rcases (journal m.id).mp opened with buries | ⟨quarantined, _⟩
    · have before := (receipted_congr (inbox buries.writesInbox) m).mp receipted
      have spared := spares m member before free
      generalize keyed : m.id = id at buries
      cases buries with
      | publishFailed present held failing limit =>
          cases under
          have same := Table.eq_of_key_eq member present
            (keyed.trans ((OutboxMessage.heldBy_iff _ _ _ _).mp held).1.symm)
          exact spared ⟨same ▸ held, failing, limit⟩
      | attemptsExhausted exhausts =>
          cases under
          obtain ⟨row, found, unlocked, exhausted⟩ := exhausts
          cases Table.eq_of_key_eq (Table.find?_eq_some.mp found).1 member
            ((Table.find?_eq_some.mp found).2.trans keyed.symm)
          exact spared ⟨unlocked, exhausted⟩
      | consumerUnacknowledged gives =>
          cases under
          exact givesUp_unreceipted member (keyed ▸ gives) before
    · rw [free] at quarantined
      cases quarantined

/-- Along every run under a policy, acknowledged messages stay out of the journal exactly as long
as no step takes one of the two unguarded branches on them. -/
theorem acknowledged_never_buried_iff [DecidableEq J] {history : List (Event (Tables J) (Op J))}
    {state : Tables J} (run : Run (Step codec (Op.under P)) Tables.empty history state) :
    (∀ event ∈ history, BuriesUnacknowledged P event) ↔
      ∀ event ∈ history, SparesAcknowledged P event.before event.label := by
  refine forall₂_congr fun event occurred => ?_
  obtain ⟨_, _, _, _, step⟩ := run.of_mem occurred
  exact buriesUnacknowledged_iff step

/-- The publisher dies after its broker call, the consumer acknowledges, reconciliation follows. -/
def buriedAcknowledged : List (Op Unit) :=
  [.enqueue 7 (sampleEvent none) 0,
    .claimDelivery samplePolicy "publisher" (fun _ => false) 1000000,
    .claimExecution sampleTasks 7 1 2000000,
    .acknowledge ⟨"test.counter.v1:counter:1", 7, 1, 1⟩ "test.counter.v1" 3000000,
    .reconcile samplePolicy (fun _ => false) 100000000]

theorem buriedAcknowledged_under : ∀ op ∈ buriedAcknowledged, op.under samplePolicy := by
  simp [buriedAcknowledged, Op.under]

theorem acknowledged_buried :
    ¬ ∀ history state, Run (Step sampleCodec (Op.under samplePolicy)) Tables.empty history state →
      ∀ event ∈ history, BuriesUnacknowledged samplePolicy event := by
  intro safe
  have last : ⟨tablesAfter sampleCodec (buriedAcknowledged.take 4),
      .reconcile samplePolicy (fun _ => false) 100000000,
      tablesAfter sampleCodec buriedAcknowledged⟩ ∈ transactions sampleCodec buriedAcknowledged :=
    List.mem_of_mem_getLast? rfl
  exact safe _ _ (transactions_run sampleCodec buriedAcknowledged_under) _ last _
    List.mem_cons_self (by decide) (by decide) ⟨"test.counter.v1", by decide, by decide⟩

/-- The same crash without a consumer: the dead letter is for a message nobody acknowledged. -/
def buriedUnacknowledged : List (Op Unit) :=
  [.enqueue 7 (sampleEvent none) 0,
    .claimDelivery samplePolicy "publisher" (fun _ => false) 1000000,
    .reconcile samplePolicy (fun _ => false) 100000000]

theorem acknowledged_never_buried_unacknowledged :
    BuriesUnacknowledged samplePolicy ⟨tablesAfter sampleCodec (buriedUnacknowledged.take 2),
      .reconcile samplePolicy (fun _ => false) 100000000,
      tablesAfter sampleCodec buriedUnacknowledged⟩ := by
  have under : ∀ op ∈ buriedUnacknowledged, op.under samplePolicy := by
    simp [buriedUnacknowledged, Op.under]
  have spares : ∀ event ∈ transactions sampleCodec buriedUnacknowledged,
      SparesAcknowledged samplePolicy event.before event.label := by
    simp only [buriedUnacknowledged, transactions, trace, List.mem_cons, List.not_mem_nil, or_false]
    rintro _ (rfl | rfl | rfl) m _ ⟨_, _, acknowledged⟩ <;> cases acknowledged
  exact (acknowledged_never_buried_iff (transactions_run sampleCodec under)).mpr spares _
    (List.mem_of_mem_getLast? rfl)

end TplBackend
