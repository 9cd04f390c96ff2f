import TplBackend.Consumer.Tasks
import TplBackend.Delivery.Reconcile
import TplBackend.Library.Ranking
import TplBackend.Library.Run

namespace TplBackend

open Keyed Ranking Transition

/-- One transaction on the delivery tables: a method call with the clock it reads, the identifiers
it draws and the rows it skips because other open transactions hold them. -/
inductive Op (J : Type)
  | enqueue (id : Uuid) (event : OutboxEvent J) (now : Clock)
  | claimDelivery (P : DurableDelivery) (owner : String) (locked : Uuid → Bool) (now : Clock)
  | finishDelivery (P : DurableDelivery) (message : OutboxMessage J) (error : Option String)
      (now : Clock)
  | reconcile (P : DurableDelivery) (locked : Uuid → Bool) (now : Clock)
  | replay (P : DurableDelivery) (id : Uuid) (now : Clock)
  | claimBatch (owner : String) (limit leaseSeconds : Int) (locked : Uuid → Bool)
      (now clock : Clock)
  | markPublished (id : Uuid) (owner : String) (now clock : Clock)
  | markFailed (id : Uuid) (owner error : String) (retrySeconds : Int) (now clock : Clock)
  | claimExecution (D : DurableTasks) (id owner : Uuid) (now : Clock)
  | renew (D : DurableTasks) (lease : ConsumerLease) (now : Clock)
  | release (lease : ConsumerLease)
  | acknowledge (lease : ConsumerLease) (topic : String) (now : Clock)

inductive Reply (J : Type)
  | raised (error : Raised)
  | done
  | enqueued (id : Uuid)
  | claimed (message : Option (OutboxMessage J))
  | batch (messages : List (SqlOutboxRepository.ClaimedOutboxEvent J))
  | requeued (count : Nat)
  | leased (result : Option (ConsumerLease × OutboxMessage J))

variable {J : Type}

/-- A raised exception rolls the transaction back. -/
def settle (s : Tables J) : Except Raised (Reply J × Tables J) → Reply J × Tables J
  | .ok result => result
  | .error raised => (.raised raised, s)

def perform [DecidableEq J] (codec : Codec J) (op : Op J) (s : Tables J) : Reply J × Tables J :=
  match op with
  | .enqueue id event now => settle s do
      let (stored, s') ← SqlOutboxRepository.enqueue codec id event now s
      return (.enqueued stored, s')
  | .claimDelivery P owner locked now =>
      let (message, s') := P.claimDelivery codec owner locked now s
      (.claimed message, s')
  | .finishDelivery P message error now => settle s do
      return (.done, ← P.finishDelivery message error now s)
  | .reconcile P locked now =>
      let (count, s') := P.reconcile locked now s
      (.requeued count, s')
  | .replay P id now => settle s do
      return (.done, ← P.replay id now s)
  | .claimBatch owner limit leaseSeconds locked now clock => settle s do
      let (messages, s') ← SqlOutboxRepository.claimBatch codec owner limit leaseSeconds locked now
        clock s
      return (.batch messages, s')
  | .markPublished id owner now clock => settle s do
      return (.done, ← SqlOutboxRepository.markPublished id owner now clock s)
  | .markFailed id owner error retrySeconds now clock => settle s do
      return (.done, ← SqlOutboxRepository.markFailed id owner error retrySeconds now clock s)
  | .claimExecution D id owner now =>
      let (result, s') := D.claimExecution codec id owner now s
      (.leased result, s')
  | .renew D lease now => settle s do
      return (.done, ← D.renew lease now s)
  | .release lease => (.done, DurableTasks.release lease s)
  | .acknowledge lease topic now => settle s do
      return (.done, ← DurableTasks.acknowledge lease topic now s)

/-- The transition relation of the tables under the operations that `allowed` lets through. -/
def Step [DecidableEq J] (codec : Codec J) (allowed : Op J → Prop) (s : Tables J) (op : Op J)
    (s' : Tables J) : Prop :=
  allowed op ∧ s' = (perform codec op s).2

def reply [DecidableEq J] (codec : Codec J) (event : Event (Tables J) (Op J)) : Reply J :=
  (perform codec event.label event.before).1

def transactions [DecidableEq J] (codec : Codec J) (ops : List (Op J)) :
    List (Event (Tables J) (Op J)) :=
  trace (fun s op => (perform codec op s).2) Tables.empty ops

def tablesAfter [DecidableEq J] (codec : Codec J) (ops : List (Op J)) : Tables J :=
  ops.foldl (fun s op => (perform codec op s).2) Tables.empty

theorem transactions_run [DecidableEq J] (codec : Codec J) {allowed : Op J → Prop}
    {ops : List (Op J)} (every : ∀ op ∈ ops, allowed op) :
    Run (Step codec allowed) Tables.empty (transactions codec ops) (tablesAfter codec ops) :=
  Run.of_trace fun _ member => ⟨every _ (label_mem_of_mem_trace member), rfl⟩

section Sample

/-- A codec that is exact on the one instant the concrete runs below schedule. -/
def sampleCodec : Codec Unit where
  isoformat _ := "1970-01-01T00:00:05.000000+00:00"
  timestamptz text :=
    if text = "1970-01-01T00:00:05.000000+00:00" then some (5000000 : Int) else none
  encodedLength _ headers := if headers = ∅ then 27 else 87
  unwritable _ := none
  jsonb _ := true

def sampleEvent (notBefore : Option Clock) : OutboxEvent Unit :=
  ⟨"test.counter.v1", "counter:1", "one", (), ∅, notBefore⟩

def sampleTasks : DurableTasks :=
  ⟨["test.counter.v1"], by simp, 60, 1, by decide, by decide⟩

def samplePolicy : DurableDelivery := sampleTasks.delivery

end Sample

section Rows

open SqlOutboxRepository DurableDelivery

/-- Every way an operation can rewrite a row of the outbox, with the guard it did so under. -/
inductive Rewrite (codec : Codec J) (s : Tables J) : Op J → OutboxMessage J → OutboxMessage J → Prop
  | same {op : Op J} {m : OutboxMessage J} : Rewrite codec s op m m
  | claimed {P : DurableDelivery} {owner : String} {locked : Uuid → Bool} {now : Clock}
      {m : OutboxMessage J} : P.nextCandidate codec locked now s = some m →
      Rewrite codec s (.claimDelivery P owner locked now) m (m.claimed owner P.leaseSeconds now)
  | batched {owner : String} {limit leaseSeconds : Int} {locked : Uuid → Bool} {now clock : Clock}
      {m : OutboxMessage J} : m ∈ batchCandidates codec limit.toNat locked now clock s →
      Rewrite codec s (.claimBatch owner limit leaseSeconds locked now clock) m
        (m.claimed owner leaseSeconds now)
  | finished {P : DurableDelivery} {message : OutboxMessage J} {error : Option String} {now : Clock}
      {m : OutboxMessage J} : m.heldBy message.id message.leaseOwner now = true →
      Rewrite codec s (.finishDelivery P message error now) m
        (finished message.attemptCount error now m)
  | requeued {P : DurableDelivery} {locked : Uuid → Bool} {now : Clock} {m : OutboxMessage J} :
      Selected activeExecution P locked now P.topics.entries s m → m.attemptCount < P.maxAttempts →
      Rewrite codec s (.reconcile P locked now) m (requeued now m)
  | replayed {P : DurableDelivery} {now : Clock} {m : OutboxMessage J} :
      m.topic ∈ P.topics.keys → s.quarantined m.id = true →
      Rewrite codec s (.replay P m.id now) m (replayed now m)
  | published {id : Uuid} {owner : String} {now clock : Clock} {m : OutboxMessage J} :
      m.heldBy id (some owner) clock = true →
      Rewrite codec s (.markPublished id owner now clock) m (published now m)
  | failed {id : Uuid} {owner error : String} {retrySeconds : Int} {now clock : Clock}
      {m : OutboxMessage J} : m.heldBy id (some owner) clock = true →
      Rewrite codec s (.markFailed id owner error retrySeconds now clock) m
        (failed error retrySeconds now m)

inductive RowStep (codec : Codec J) (s : Tables J) (op : Op J) (id : Uuid) :
    Option (OutboxMessage J) → Option (OutboxMessage J) → Prop
  | absent : RowStep codec s op id none none
  | inserted {event : OutboxEvent J} {now : Clock} : op = .enqueue id event now →
      event.validate codec = .ok () → event.storable codec = true →
      (∀ m ∈ s.outbox, m.deduplicationKey ≠ event.deduplicationKey) →
      RowStep codec s op id none (some (newRow codec id event now))
  | rewritten {m m' : OutboxMessage J} : Rewrite codec s op m m' →
      RowStep codec s op id (some m) (some m')

variable {codec : Codec J} {s : Tables J} {op : Op J} {id : Uuid}

theorem rowStep_refl : RowStep codec s op id (s.outbox.find? id) (s.outbox.find? id) := by
  cases s.outbox.find? id with
  | none => exact .absent
  | some m => exact .rewritten .same

theorem rowStep_update {p : OutboxMessage J → Bool} {f : OutboxMessage J → OutboxMessage J}
    (keeps : ∀ m, (f m).id = m.id) (allowed : ∀ m ∈ s.outbox, p m = true → Rewrite codec s op m (f m)) :
    RowStep codec s op id (s.outbox.find? id) ((s.outbox.update p f keeps).find? id) := by
  rw [Table.find?_update]
  cases present : s.outbox.find? id with
  | none => exact .absent
  | some m =>
      refine .rewritten ?_
      by_cases chosen : p m
      · simpa [chosen] using allowed m (Table.find?_eq_some.mp present).1 chosen
      · simpa [chosen] using Rewrite.same

theorem mem_candidates {P : DurableDelivery} {locked : Uuid → Bool} {now : Clock}
    {m : OutboxMessage J} : m ∈ P.candidates codec locked now s ↔
      m ∈ s.outbox ∧ P.candidate codec s now m = true ∧ locked m.id = false := by
  simp [candidates, Table.mem_rows]

theorem mem_batchPool {locked : Uuid → Bool} {now clock : Clock} {m : OutboxMessage J} :
    m ∈ batchPool codec locked now clock s ↔
      m ∈ s.outbox ∧ batchEligible codec now clock m = true ∧ locked m.id = false := by
  simp [batchPool, Table.mem_rows]

theorem nextCandidate_iff {P : DurableDelivery} {locked : Uuid → Bool} {now : Clock}
    {m : OutboxMessage J} : P.nextCandidate codec locked now s = some m ↔
      m ∈ P.candidates codec locked now s ∧
        preceding OutboxMessage.claimOrder m (P.candidates codec locked now s) = [] := by
  have rows : ∀ row ∈ P.candidates codec locked now s, row ∈ s.outbox := fun row member =>
    (mem_candidates.mp member).1
  have chosen := mem_take_insertionSort (r := OutboxMessage.claimOrder)
    (fun first left second right before after => Table.eq_of_key_eq (rows first left)
      (rows second right) (OutboxMessage.claimOrder_antisymm before after)) 1 m
  rw [Nat.lt_one_iff, List.length_eq_zero_iff] at chosen
  rw [← chosen, nextCandidate]
  cases (P.candidates codec locked now s).insertionSort OutboxMessage.claimOrder with
  | nil => simp
  | cons head tail => simp [eq_comm]

theorem mem_batchCandidates {limit : Nat} {locked : Uuid → Bool} {now clock : Clock}
    {m : OutboxMessage J} : m ∈ batchCandidates codec limit locked now clock s ↔
      m ∈ batchPool codec locked now clock s ∧
        (preceding OutboxMessage.claimOrder m (batchPool codec locked now clock s)).length <
          limit := by
  have rows : ∀ row ∈ batchPool codec locked now clock s, row ∈ s.outbox := fun row member =>
    (mem_batchPool.mp member).1
  exact mem_take_insertionSort (r := OutboxMessage.claimOrder)
    (fun first left second right before after => Table.eq_of_key_eq (rows first left)
      (rows second right) (OutboxMessage.claimOrder_antisymm before after)) limit m

theorem nextCandidate_spec {P : DurableDelivery} {locked : Uuid → Bool} {now : Clock}
    {m : OutboxMessage J} (chosen : P.nextCandidate codec locked now s = some m) :
    m ∈ s.outbox ∧ P.candidate codec s now m = true ∧ locked m.id = false :=
  mem_candidates.mp (nextCandidate_iff.mp chosen).1

theorem batchCandidates_spec {limit : Nat} {locked : Uuid → Bool} {now clock : Clock}
    {m : OutboxMessage J} (chosen : m ∈ batchCandidates codec limit locked now clock s) :
    m ∈ s.outbox ∧ batchEligible codec now clock m = true ∧ locked m.id = false :=
  mem_batchPool.mp (mem_batchCandidates.mp chosen).1

theorem complete_ok {key : Uuid} {owner : Option String} {clock : Clock} {raised : Raised}
    {f : OutboxMessage J → OutboxMessage J} {keeps : ∀ m, (f m).id = m.id} {s' : Tables J}
    (result : complete key owner clock raised f keeps s = .ok s') :
    (∃ m ∈ s.outbox, m.heldBy key owner clock = true) ∧
      s' = { s with outbox := s.outbox.update (fun m => m.heldBy key owner clock) f keeps } := by
  unfold complete at result
  split at result
  · rename_i held
    obtain ⟨m, member, owned⟩ := List.any_eq_true.mp held
    cases result
    exact ⟨⟨m, member, owned⟩, rfl⟩
  · cases result

theorem complete_error {key : Uuid} {owner : Option String} {clock : Clock} {raised error : Raised}
    {f : OutboxMessage J → OutboxMessage J} {keeps : ∀ m, (f m).id = m.id}
    (result : complete key owner clock raised f keeps s = .error error) :
    error = raised ∧ ∀ m ∈ s.outbox, m.heldBy key owner clock = false := by
  unfold complete at result
  split at result
  · cases result
  · rename_i free
    cases result
    refine ⟨rfl, fun m member => ?_⟩
    simpa using List.any_eq_false.mp (Bool.not_eq_true _ ▸ free) m member

theorem finishDelivery_ok {P : DurableDelivery} {message : OutboxMessage J} {error : Option String}
    {now : Clock} {s' : Tables J} (result : P.finishDelivery message error now s = .ok s') :
    (∃ m ∈ s.outbox, m.heldBy message.id message.leaseOwner now = true) ∧
      s'.outbox = s.outbox.update (fun m => m.heldBy message.id message.leaseOwner now)
        (finished message.attemptCount error now) (finished_id message.attemptCount error now) ∧
      s'.inbox = s.inbox ∧ s'.executions = s.executions ∧
      s'.deadLetters = if truthy error ∧ P.maxAttempts ≤ message.attemptCount then
        (deadLetter message.id (error.getD "") now s).deadLetters else s.deadLetters := by
  unfold finishDelivery at result
  split at result
  · cases result
  · rename_i updated completed
    obtain ⟨held, rfl⟩ := complete_ok completed
    cases error with
    | none =>
        cases result
        exact ⟨held, rfl, rfl, rfl, by simp [truthy]⟩
    | some text =>
        by_cases limit : truthy (some text) ∧ P.maxAttempts ≤ message.attemptCount
        · simp only [if_pos limit, Except.ok.injEq] at result
          subst result
          exact ⟨held, rfl, rfl, rfl, by rw [if_pos limit]; rfl⟩
        · simp only [if_neg limit, Except.ok.injEq] at result
          subst result
          exact ⟨held, rfl, rfl, rfl, by rw [if_neg limit]⟩

theorem finishDelivery_error {P : DurableDelivery} {message : OutboxMessage J}
    {error : Option String} {now : Clock} {raised : Raised}
    (result : P.finishDelivery message error now s = .error raised) :
    raised = .deliveryLeaseLost "delivery lease lost" ∧
      ∀ m ∈ s.outbox, m.heldBy message.id message.leaseOwner now = false := by
  unfold finishDelivery at result
  split at result
  · rename_i failure
    cases result
    exact complete_error failure
  · split at result
    · split at result <;> cases result
    · cases result

theorem replay_error {P : DurableDelivery} {key : Uuid} {now : Clock} {raised : Raised}
    (result : P.replay key now s = .error raised) :
    (∀ m ∈ s.outbox, m.id = key → m.topic ∉ P.topics.keys) ∨ s.quarantined key = false := by
  unfold replay at result
  split at result
  · rename_i outside
    simp only [Bool.not_eq_true', List.any_eq_false, Bool.and_eq_true, decide_eq_true_eq,
      not_and] at outside
    exact Or.inl outside
  split at result
  · rename_i absent
    exact Or.inr (by simpa using absent)
  · cases result

theorem replay_ok {P : DurableDelivery} {key : Uuid} {now : Clock} {s' : Tables J}
    (result : P.replay key now s = .ok s') :
    (∃ m ∈ s.outbox, m.id = key ∧ m.topic ∈ P.topics.keys) ∧ s.quarantined key = true ∧
      s' = { s with
        outbox := s.outbox.update (fun m => m.id = key) (replayed now) (replayed_id now)
        deadLetters := s.deadLetters.update
          (fun d => decide (d.messageId = key) && decide (d.replayedAt = none))
          (fun d => { d with replayedAt := some (now : Timestamp) }) fun _ => rfl } := by
  unfold replay at result
  split at result
  · cases result
  split at result
  · cases result
  rename_i inside quarantined
  simp only [Bool.not_eq_true', Bool.not_eq_false, List.any_eq_true, Bool.and_eq_true,
    decide_eq_true_eq] at inside quarantined
  cases result
  exact ⟨inside, quarantined, rfl⟩

theorem enqueue_ok [DecidableEq J] {key stored : Uuid} {event : OutboxEvent J} {now : Clock}
    {s' : Tables J} (result : enqueue codec key event now s = .ok (stored, s')) :
    event.validate codec = .ok () ∧ event.storable codec = true ∧
      ((stored = key ∧ s.outbox.find? key = none ∧
          (∀ m ∈ s.outbox, m.deduplicationKey ≠ event.deduplicationKey) ∧
          s' = { s with outbox := s.outbox.insert (newRow codec key event now) }) ∨
        ∃ m ∈ s.outbox, m.deduplicationKey = event.deduplicationKey ∧ SameIntent codec event m ∧
          stored = m.id ∧ s' = s) := by
  unfold enqueue at result
  split at result
  · cases result
  rename_i accepted
  split at result
  · cases result
  rename_i storable
  refine ⟨accepted, by simpa using storable, ?_⟩
  split at result
  · rename_i absent
    split at result
    · cases result
    · rename_i free
      cases result
      refine Or.inl ⟨rfl, by simpa using free, ?_, rfl⟩
      intro m member same
      simpa [same] using List.find?_eq_none.mp absent m member
  · rename_i existing found
    have member : existing ∈ s.outbox := List.mem_of_find?_eq_some found
    have keyed : existing.deduplicationKey = event.deduplicationKey := by
      simpa using List.find?_some found
    split at result
    · rename_i same
      cases result
      refine Or.inr ⟨existing, member, keyed, same, rfl, ?_⟩
      -- The assignment writes the key the row already has.
      have idle : s.outbox.update (fun m => m.id = existing.id) (rekeyed event) (rekeyed_id event) =
          s.outbox := by
        apply Table.update_eq_self
        intro m present chosen
        rw [Table.eq_of_key_eq present member (by simpa using chosen), rekeyed, ← keyed]
      rw [idle]
    · cases result

theorem claimBatch_ok {owner : String} {limit leaseSeconds : Int} {locked : Uuid → Bool}
    {now clock : Clock} {messages : List (ClaimedOutboxEvent J)} {s' : Tables J}
    (result : claimBatch codec owner limit leaseSeconds locked now clock s = .ok (messages, s')) :
    messages = (batchCandidates codec limit.toNat locked now clock s).map
        (fun m => .ofRow (m.claimed owner leaseSeconds now)) ∧
      s' = { s with
        outbox := s.outbox.update
          (fun m => decide (m.id ∈
            (batchCandidates codec limit.toNat locked now clock s).map OutboxMessage.id))
          (OutboxMessage.claimed owner leaseSeconds now)
          (OutboxMessage.claimed_id owner leaseSeconds now) } := by
  unfold claimBatch at result
  split at result
  · cases result
  split at result
  · cases result
  cases result
  exact ⟨rfl, rfl⟩

theorem complete_row {key : Uuid} {owner : Option String} {clock : Clock} {raised : Raised}
    {f : OutboxMessage J → OutboxMessage J} {keeps : ∀ m, (f m).id = m.id} {s' : Tables J}
    (result : complete key owner clock raised f keeps s = .ok s')
    (allowed : ∀ m, m.heldBy key owner clock = true → Rewrite codec s op m (f m)) :
    RowStep codec s op id (s.outbox.find? id) (s'.outbox.find? id) := by
  obtain ⟨_, rfl⟩ := complete_ok result
  exact rowStep_update keeps fun m _ held => allowed m held

theorem reconcile_row (P : DurableDelivery) (locked : Uuid → Bool) (now : Clock) :
    RowStep codec s (.reconcile P locked now) id (s.outbox.find? id)
      ((P.reconcile locked now s).2.outbox.find? id) := by
  have step := reconcileWith_reconciled P locked now activeExecution_steady s
  cases present : s.outbox.find? id with
  | none =>
      have absent := step.missing id present
      rw [reconcile, absent]
      exact .absent
  | some m =>
      by_cases back : Requeues activeExecution P locked now P.topics.entries s id
      · have moved := (step.found id m present).1 back
        rw [reconcile, moved]
        obtain ⟨row, found, selected, below⟩ := back
        rw [present] at found
        cases found
        exact .rewritten (.requeued selected below)
      · have kept := (step.found id m present).2 back
        rw [reconcile, kept]
        exact .rewritten .same

theorem claimDelivery_row (P : DurableDelivery) (owner : String) (locked : Uuid → Bool)
    (now : Clock) :
    RowStep codec s (.claimDelivery P owner locked now) id (s.outbox.find? id)
      ((P.claimDelivery codec owner locked now s).2.outbox.find? id) := by
  unfold claimDelivery
  split
  · exact rowStep_refl
  split
  · exact rowStep_refl
  · rename_i chosen
    refine rowStep_update (OutboxMessage.claimed_id owner P.leaseSeconds now)
      fun row present same => ?_
    have keyed := Table.eq_of_key_eq present (nextCandidate_spec chosen).1 (by simpa using same)
    rw [keyed]
    exact .claimed chosen

theorem claimBatch_row {owner : String} {limit leaseSeconds : Int} {locked : Uuid → Bool}
    {now clock : Clock} {messages : List (ClaimedOutboxEvent J)} {s' : Tables J}
    (result : claimBatch codec owner limit leaseSeconds locked now clock s = .ok (messages, s')) :
    RowStep codec s (.claimBatch owner limit leaseSeconds locked now clock) id (s.outbox.find? id)
      (s'.outbox.find? id) := by
  obtain ⟨_, rfl⟩ := claimBatch_ok result
  refine rowStep_update (OutboxMessage.claimed_id owner leaseSeconds now)
    fun row present same => ?_
  obtain ⟨m, member, keyed⟩ := List.mem_map.mp (of_decide_eq_true same)
  have equal := Table.eq_of_key_eq present (batchCandidates_spec member).1 keyed.symm
  rw [equal]
  exact .batched member

theorem enqueue_row [DecidableEq J] {key stored : Uuid} {event : OutboxEvent J} {now : Clock}
    {s' : Tables J} (result : enqueue codec key event now s = .ok (stored, s')) :
    RowStep codec s (.enqueue key event now) id (s.outbox.find? id) (s'.outbox.find? id) := by
  obtain ⟨accepted, storable, ⟨_, free, absent, rfl⟩ | ⟨_, _, _, _, _, rfl⟩⟩ := enqueue_ok result
  · rw [Table.find?_insert]
    by_cases same : key = id
    · subst same
      rw [newRow_id, if_pos rfl, free]
      exact .inserted rfl accepted storable absent
    · rw [newRow_id, if_neg same]
      exact rowStep_refl
  · exact rowStep_refl

/-- The one inversion lemma for the outbox: every invariant of a row is a case analysis on it. -/
theorem perform_row [DecidableEq J] (codec : Codec J) (op : Op J) (s : Tables J) (id : Uuid) :
    RowStep codec s op id (s.outbox.find? id) ((perform codec op s).2.outbox.find? id) := by
  cases op with
  | enqueue key event now =>
      cases result : enqueue codec key event now s with
      | error raised => simpa [perform, settle, result] using rowStep_refl
      | ok value => simpa [perform, settle, result] using enqueue_row result
  | claimDelivery P owner locked now => exact claimDelivery_row P owner locked now
  | finishDelivery P message error now =>
      cases result : P.finishDelivery message error now s with
      | error raised => simpa [perform, settle, result] using rowStep_refl
      | ok s' =>
          have update := (finishDelivery_ok result).2.1
          simp only [perform, settle, result, bind_pure_comp, Except.map_ok, update]
          exact rowStep_update (finished_id message.attemptCount error now) fun m _ held =>
            .finished held
  | reconcile P locked now => exact reconcile_row P locked now
  | replay P key now =>
      cases result : P.replay key now s with
      | error raised => simpa [perform, settle, result] using rowStep_refl
      | ok s' =>
          obtain ⟨⟨m, member, rfl, topic⟩, quarantined, rfl⟩ := replay_ok result
          simp only [perform, settle, result, bind_pure_comp, Except.map_ok]
          refine rowStep_update (replayed_id now) fun row present same => ?_
          rw [Table.eq_of_key_eq present member (by simpa using same)]
          exact .replayed topic quarantined
  | claimBatch owner limit leaseSeconds locked now clock =>
      cases result : claimBatch codec owner limit leaseSeconds locked now clock s with
      | error raised => simpa [perform, settle, result] using rowStep_refl
      | ok value => simpa [perform, settle, result] using claimBatch_row result
  | markPublished key owner now clock =>
      cases result : markPublished key owner now clock s with
      | error raised => simpa [perform, settle, result] using rowStep_refl
      | ok s' =>
          simpa [perform, settle, result] using complete_row result fun m held => .published held
  | markFailed key owner error retrySeconds now clock =>
      cases result : markFailed key owner error retrySeconds now clock s with
      | error raised => simpa [perform, settle, result] using rowStep_refl
      | ok s' =>
          have performed : (perform codec (.markFailed key owner error retrySeconds now clock) s).2 =
              s' := by simp [perform, settle, result]
          rw [performed]
          unfold markFailed at result
          split at result
          · cases result
          · exact complete_row result fun m held => .failed held
  | claimExecution D key owner now =>
      have same : (D.claimExecution codec key owner now s).2.outbox = s.outbox := by
        rcases D.claimExecution_cases codec key owner now s with idle | ⟨_, _, _, _, taken | taken⟩
        · rw [idle]
        · rw [taken]
          rfl
        · rw [taken]
          rfl
      simpa [perform, same] using rowStep_refl
  | renew D lease now =>
      cases result : D.renew lease now s with
      | error raised => simpa [perform, settle, result] using rowStep_refl
      | ok s' =>
          obtain ⟨_, rfl⟩ := DurableTasks.renew_ok result
          simpa [perform, settle, result] using rowStep_refl
  | release lease => exact rowStep_refl
  | acknowledge lease topic now =>
      cases result : DurableTasks.acknowledge lease topic now s with
      | error raised => simpa [perform, settle, result] using rowStep_refl
      | ok s' =>
          obtain ⟨_, rfl⟩ := DurableTasks.acknowledge_ok result
          simpa [perform, settle, result] using rowStep_refl

end Rows

end TplBackend
