import TplBackend.Delivery.Reconcile
import TplBackend.Library.Query

namespace TplBackend

open Keyed Query DurableDelivery

inductive ObservationError
  | valueError (message : String)
  /-- A cast that PostgreSQL refuses. -/
  | dataError
  deriving DecidableEq

def Timestamp.isFinite : Timestamp → Bool
  | .instant _ => true
  | _ => false

/-- The columns of the CTE `facts`. -/
structure Facts where
  status : Status
  createdAt : Timestamp
  availableAt : Timestamp
  leaseExpiresAt : Option Timestamp
  publishedAt : Option Timestamp
  dueAt : Timestamp
  receiptAt : Option Timestamp
  done : Bool
  executing : Bool
  dead : Bool

namespace Facts

def incomplete (row : Facts) : Truth := (Truth.of row.done).not

def scheduled (now : Clock) (row : Facts) : Truth :=
  row.incomplete.and (.of (decide ((now : Timestamp) < row.dueAt)))

/-- `lease_expires_at<=:now` -/
def leaseExpired (now : Clock) (row : Facts) : Truth :=
  .compare (fun expiry clock => decide (expiry ≤ clock)) row.leaseExpiresAt (some (now : Timestamp))

def publishable (now : Clock) (row : Facts) : Truth :=
  (((((row.incomplete.and (Truth.of row.dead).not).and (Truth.of row.executing).not).and
    (.of (decide (row.dueAt ≤ (now : Timestamp))))).and
    (.of (decide (row.availableAt ≤ (now : Timestamp)))))).and
    ((Truth.of (decide (row.status = .pending))).or
      ((Truth.of (decide (row.status = .delivering))).and (row.leaseExpired now)))

/-- `required` says whether `:consumer` is not NULL. -/
def awaitingReceipt (required : Bool) (row : Facts) : Truth :=
  (row.incomplete.and (.of (decide (row.status = .published)))).and (.of required)

def activeExecution (row : Facts) : Truth := row.incomplete.and (.of row.executing)

def expiredPublisherLease (now : Clock) (row : Facts) : Truth :=
  (row.incomplete.and (.of (decide (row.status = .delivering)))).and (row.leaseExpired now)

def reconcileCandidate (required : Bool) (leaseSeconds : Nat) (now : Clock) (row : Facts) : Truth :=
  ((((row.incomplete.and (Truth.of row.executing).not).and (Truth.of row.dead).not).and
    (.of required)).and (.of (decide (row.status = .published)))).and
    (.compare (fun at_ clock => decide (at_ < clock)) row.publishedAt
      (some ((now - seconds leaseSeconds : Int) : Timestamp)))

/-- `NOT isfinite(receipt_at)` -/
def invalidReceiptTime (row : Facts) : Truth :=
  row.receiptAt.elim .unknown fun at_ => (Truth.of at_.isFinite).not

/-- `NOT done AND NOT dead AND due_at<=:now` -/
def dueIncomplete (now : Clock) (row : Facts) : Truth :=
  (row.incomplete.and (Truth.of row.dead).not).and (.of (decide (row.dueAt ≤ (now : Timestamp))))

/-- `greatest(0, extract(epoch FROM (:now-greatest(created_at,due_at))))`, in microseconds and
with the infinite intervals. -/
def age (now : Clock) (row : Facts) : Timestamp :=
  match max row.createdAt row.dueAt with
  | .negInfinity => .infinity
  | .instant at_ => (max 0 (now - at_) : Int)
  | .infinity => (0 : Int)

end Facts

structure Gauges where
  messages : Nat
  retainedReceiptMessages : Nat
  latestReceiptRecordedTimestamp : Timestamp
  incompleteMessages : Nat
  scheduledMessages : Nat
  publishableMessages : Nat
  awaitingReceiptMessages : Nat
  activeExecutionMessages : Nat
  expiredPublisherLeases : Nat
  deadLetterMessages : Nat
  reconcileCandidates : Nat
  oldestDueIncompleteAge : Timestamp

structure Observation where
  policy : String
  topic : String
  receiptRequired : Bool
  gauges : Gauges

structure Snapshot where
  schemaVersion : Nat
  observedAt : Clock
  unregisteredMessages : Nat
  topics : List Observation

namespace DeliveryObservation

variable {J : Type}

/-- `i.message_id=m.id AND i.consumer=CAST(:consumer AS text)` -/
def receiptJoin (consumer : Option String) (m : OutboxMessage J) (i : InboxMessage) : Truth :=
  (Truth.of (decide (i.messageId = m.id))).and
    (.compare (fun left right : String => decide (left = right)) (some i.consumer) consumer)

def joined (topic : String) (consumer : Option String) (s : Tables J) :
    List (OutboxMessage J × Option InboxMessage) :=
  leftJoin (receiptJoin consumer) (s.outbox.rows.filter fun m => decide (m.topic = topic)) s.inbox.rows

/-- One row of `facts`; a header that does not cast fails the statement before this is used. -/
def factsOf (codec : Codec J) (active : ActiveExecution J) (consumer : Option String) (now : Clock)
    (s : Tables J) (row : OutboxMessage J × Option InboxMessage) : Facts where
  status := row.1.status
  createdAt := row.1.createdAt
  availableAt := row.1.availableAt
  leaseExpiresAt := row.1.leaseExpiresAt
  publishedAt := row.1.publishedAt
  dueAt := (notBefore codec row.1.headers).getD ⊥
  receiptAt := row.2.map InboxMessage.processedAt
  done := if consumer.isNone then decide (row.1.status = .published) else row.2.isSome
  executing := active s row.1 now
  dead := s.quarantined row.1.id

/-- `count(*) FILTER (WHERE condition)` -/
def count (condition : Facts → Truth) (facts : List Facts) : Nat :=
  facts.countP fun row => (condition row).holds

/-- The aggregate query for one topic of a policy, with the check of the receipt times. -/
def observe (codec : Codec J) (active : ActiveExecution J) (P : DurableDelivery) (topic : String)
    (consumer : Option String) (now : Clock) (s : Tables J) : Except ObservationError Gauges :=
  if (joined topic consumer s).any fun row => (notBefore codec row.1.headers).isNone then
    .error .dataError
  else
    let facts := (joined topic consumer s).map (factsOf codec active consumer now s)
    let invalid := Truth.anyOf (facts.map Facts.invalidReceiptTime)
    let latest := (facts.filterMap Facts.receiptAt).max?.getD (0 : Int)
    if invalid.holds || !latest.isFinite then
      .error (.valueError "invalid receipt timestamp")
    else .ok {
      messages := facts.length
      retainedReceiptMessages := facts.countP fun row => row.receiptAt.isSome
      latestReceiptRecordedTimestamp := latest
      incompleteMessages := count Facts.incomplete facts
      scheduledMessages := count (Facts.scheduled now) facts
      publishableMessages := count (Facts.publishable now) facts
      awaitingReceiptMessages := count (Facts.awaitingReceipt consumer.isSome) facts
      activeExecutionMessages := count Facts.activeExecution facts
      expiredPublisherLeases := count (Facts.expiredPublisherLease now) facts
      deadLetterMessages := count (fun row => .of row.dead) facts
      reconcileCandidates :=
        count (Facts.reconcileCandidate consumer.isSome P.leaseSeconds now) facts
      oldestDueIncompleteAge := ((facts.filter fun row => (row.dueIncomplete now).holds).map
        (Facts.age now)).max?.getD (0 : Int) }

structure ObservedPolicy (J : Type) where
  delivery : DurableDelivery
  active : ActiveExecution J

abbrev Policies (J : Type) := AList fun _ : String => ObservedPolicy J

def registerTopic (topics : List String) (topic : String) : Except ObservationError (List String) :=
  if !OutboxEvent.topicMatches topic || decide (topic ∈ topics) then
    .error (.valueError "invalid or overlapping delivery topic")
  else .ok (topics ++ [topic])

def registerPolicy (topics : List String) (entry : Sigma fun _ : String => ObservedPolicy J) :
    Except ObservationError (List String) :=
  if !OutboxEvent.topicMatches entry.1 then .error (.valueError "invalid delivery policy name")
  else entry.2.delivery.topics.keys.foldlM registerTopic topics

def registeredTopics (policies : Policies J) : Except ObservationError (List String) := do
  if 16 < policies.entries.length then throw (.valueError "too many delivery policies")
  let topics ← policies.entries.foldlM registerPolicy []
  if 128 < topics.length then throw (.valueError "too many delivery topics")
  return topics

/-- `sorted(items())` of a dictionary: by key, since no two are equal. -/
def sortedItems {β : String → Type} (items : AList β) : List (Sigma β) :=
  items.entries.insertionSort fun first second => first.1 ≤ second.1

def observeTopic (codec : Codec J) (now : Clock) (s : Tables J) (name : String)
    (policy : ObservedPolicy J) (entry : Sigma fun _ : String => Option String) :
    Except ObservationError Observation := do
  let gauges ← observe codec policy.active policy.delivery entry.1 entry.2 now s
  return ⟨name, entry.1, entry.2.isSome, gauges⟩

def collectDeliverySnapshot (codec : Codec J) (policies : Policies J) (now : Clock) (s : Tables J) :
    Except ObservationError Snapshot := do
  let topics ← registeredTopics policies
  let observations ← (sortedItems policies).mapM fun policy =>
    (sortedItems policy.2.delivery.topics).mapM (observeTopic codec now s policy.1 policy.2)
  return {
    schemaVersion := 1
    observedAt := now
    unregisteredMessages := s.outbox.rows.countP fun m => decide (m.topic ∉ topics)
    topics := observations.flatten }

end DeliveryObservation

end TplBackend
