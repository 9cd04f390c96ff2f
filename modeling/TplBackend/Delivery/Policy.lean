import Mathlib.Data.List.AList
import TplBackend.Outbox.Repository

namespace TplBackend

open Keyed

/-- A delivery policy: its topics in order, each with the consumer whose receipt it requires. -/
structure DurableDelivery where
  topics : AList fun _ : String => Option String
  leaseSeconds : Nat
  maxAttempts : Nat
  leaseSeconds_bounds : 1 ≤ leaseSeconds ∧ leaseSeconds ≤ 3600
  maxAttempts_bounds : 1 ≤ maxAttempts ∧ maxAttempts ≤ 100

namespace DurableDelivery

variable {J : Type}

def init (topics : AList fun _ : String => Option String) (leaseSeconds maxAttempts : Int) :
    Except Raised DurableDelivery :=
  if h : (1 ≤ leaseSeconds ∧ leaseSeconds ≤ 3600) ∧ (1 ≤ maxAttempts ∧ maxAttempts ≤ 100) then
    .ok ⟨topics, leaseSeconds.toNat, maxAttempts.toNat, by omega, by omega⟩
  else .error (.valueError "invalid delivery policy")

/-- `m.status='pending' OR (m.status='delivering' AND m.lease_expires_at<=clock_timestamp())` -/
def unowned (m : OutboxMessage J) (now : Clock) : Bool :=
  decide (m.status = .pending) || (decide (m.status = .delivering) && m.leaseExpired now)

/-- The candidate predicate of `claim_delivery`. -/
def candidate (codec : Codec J) (P : DurableDelivery) (s : Tables J) (now : Clock)
    (m : OutboxMessage J) : Bool :=
  decide (m.topic ∈ P.topics.keys) && decide (m.availableAt ≤ (now : Timestamp)) &&
    notBeforeDue codec m.headers now && unowned m now && !s.quarantined m.id

/-- The rows `claim_delivery` chooses from; `locked` are those it skips. -/
def candidates (codec : Codec J) (P : DurableDelivery) (locked : Uuid → Bool) (now : Clock)
    (s : Tables J) : List (OutboxMessage J) :=
  s.outbox.rows.filter fun m => P.candidate codec s now m && !locked m.id

/-- The CTE of `claim_delivery`. -/
def nextCandidate (codec : Codec J) (P : DurableDelivery) (locked : Uuid → Bool) (now : Clock)
    (s : Tables J) : Option (OutboxMessage J) :=
  ((P.candidates codec locked now s).insertionSort OutboxMessage.claimOrder).head?

/-- `owner` is the text of the fresh `uuid4` of this claim. -/
def claimDelivery (codec : Codec J) (P : DurableDelivery) (owner : String) (locked : Uuid → Bool)
    (now : Clock) (s : Tables J) : Option (OutboxMessage J) × Tables J :=
  if P.topics.keys = [] then (none, s)
  else match P.nextCandidate codec locked now s with
    | none => (none, s)
    | some m =>
        (some (m.claimed owner P.leaseSeconds now), { s with
          outbox := s.outbox.update (fun row => row.id = m.id)
            (OutboxMessage.claimed owner P.leaseSeconds now)
            (OutboxMessage.claimed_id owner P.leaseSeconds now) })

/-- Truth of `error` as Python tests it: neither `None` nor the empty string. -/
def truthy : Option String → Bool
  | none => false
  | some error => !error.isEmpty

/-- The backoff of `finish_delivery`, in seconds. -/
def delay (attemptCount : Nat) : Nat := min 300 (2 ^ min attemptCount 8)

/-- The assignments of `finish_delivery`. -/
def finished (attemptCount : Nat) (error : Option String) (now : Clock) (m : OutboxMessage J) :
    OutboxMessage J :=
  { m with
    status := if truthy error then .pending else .published
    publishedAt := if error = none then some (now : Timestamp) else m.publishedAt
    leaseOwner := none
    leaseExpiresAt := none
    lastError := error
    availableAt := (now + seconds (delay attemptCount) : Int)
    updatedAt := now }

@[simp] theorem finished_id (attemptCount : Nat) (error : Option String) (now : Clock)
    (m : OutboxMessage J) : (finished attemptCount error now m).id = m.id := rfl

/-- `error[:256]` -/
def errorCode (error : String) : String := String.ofList (error.toList.take 256)

def deadLetter (id : Uuid) (error : String) (now : Clock) (s : Tables J) : Tables J :=
  { s with
    deadLetters := s.deadLetters.upsert ⟨id, errorCode error, now, none⟩
      (fun d => { d with errorCode := errorCode error, failedAt := now, replayedAt := none })
      fun _ => rfl }

/-- `message` is the dictionary a claim returned. -/
def finishDelivery (P : DurableDelivery) (message : OutboxMessage J) (error : Option String)
    (now : Clock) (s : Tables J) : Except Raised (Tables J) :=
  match SqlOutboxRepository.complete message.id message.leaseOwner now
      (.deliveryLeaseLost "delivery lease lost") (finished message.attemptCount error now)
      (finished_id message.attemptCount error now) s with
  | .error raised => .error raised
  | .ok updated =>
      match error with
      | some text =>
          if truthy error ∧ P.maxAttempts ≤ message.attemptCount then
            .ok (deadLetter message.id text now updated)
          else .ok updated
      | none => .ok updated

/-- Whether an `active_execution_sql` returns a row for a message; a subclass may replace it by any
query. -/
abbrev ActiveExecution (J : Type) := Tables J → OutboxMessage J → Clock → Bool

/-- `active_execution_sql` of `DurableDelivery`. -/
def activeExecution : ActiveExecution J := fun s m now =>
  s.executions.rows.any fun l => decide (l.messageId = m.id) && decide ((now : Timestamp) < l.expiresAt)

/-- The WHERE clause behind `exhausted` in `reconcile`. -/
def exhausted (P : DurableDelivery) (s : Tables J) (now : Clock) (m : OutboxMessage J) : Bool :=
  decide (m.topic ∈ P.topics.keys) && decide (P.maxAttempts ≤ m.attemptCount) && unowned m now &&
    !s.quarantined m.id

/-- The WHERE clause of the consumer loop of `reconcile`, without the topic. -/
def unacknowledged (active : ActiveExecution J) (P : DurableDelivery)
    (consumer : String) (s : Tables J) (now : Clock) (m : OutboxMessage J) : Bool :=
  decide (m.status = .published) &&
    (m.publishedAt.any fun at_ => at_ < ((now - seconds P.leaseSeconds : Int) : Timestamp)) &&
    !s.acknowledged consumer m.id && !active s m now && !s.quarantined m.id

/-- The assignments of the requeue in `reconcile`. -/
def requeued (now : Clock) (m : OutboxMessage J) : OutboxMessage J :=
  { m with status := .pending, availableAt := ⊥, updatedAt := now }

@[simp] theorem requeued_id (now : Clock) (m : OutboxMessage J) :
    (requeued now m).id = m.id := rfl

def requeue (id : Uuid) (now : Clock) (s : Tables J) : Tables J :=
  { s with outbox := s.outbox.update (fun m => m.id = id) (requeued now) (requeued_id now) }

/-- One row of the consumer loop, on the number of requeued rows so far. -/
def reconcileRow (P : DurableDelivery) (now : Clock) (acc : Nat × Tables J) (row : OutboxMessage J) :
    Nat × Tables J :=
  if P.maxAttempts ≤ row.attemptCount then
    (acc.1, deadLetter row.id "consumer_unacknowledged" now acc.2)
  else (acc.1 + 1, requeue row.id now acc.2)

def reconcileTopic (active : ActiveExecution J) (P : DurableDelivery)
    (locked : Uuid → Bool) (now : Clock) (acc : Nat × Tables J)
    (entry : Sigma fun _ : String => Option String) : Nat × Tables J :=
  match entry.2 with
  | none => acc
  | some consumer =>
      (acc.2.outbox.rows.filter fun m =>
        decide (m.topic = entry.1) && P.unacknowledged active consumer acc.2 now m &&
          !locked m.id).foldl (P.reconcileRow now) acc

def buryExhausted (P : DurableDelivery) (locked : Uuid → Bool) (now : Clock) (s : Tables J) :
    Tables J :=
  (s.outbox.rows.filter fun m => P.exhausted s now m && !locked m.id).foldl
    (fun s row => deadLetter row.id "delivery_attempts_exhausted" now s) s

/-- `reconcile` of a policy whose `active_execution_sql` is `active`. -/
def reconcileWith (active : ActiveExecution J) (P : DurableDelivery)
    (locked : Uuid → Bool) (now : Clock) (s : Tables J) : Nat × Tables J :=
  P.topics.entries.foldl (P.reconcileTopic active locked now) (0, P.buryExhausted locked now s)

def reconcile (P : DurableDelivery) (locked : Uuid → Bool) (now : Clock) (s : Tables J) :
    Nat × Tables J :=
  P.reconcileWith activeExecution locked now s

/-- The assignments of `replay`. -/
def replayed (now : Clock) (m : OutboxMessage J) : OutboxMessage J :=
  { m with
    status := .pending
    attemptCount := 0
    availableAt := ⊥
    lastError := none
    leaseOwner := none
    leaseExpiresAt := none
    updatedAt := now }

@[simp] theorem replayed_id (now : Clock) (m : OutboxMessage J) :
    (replayed now m).id = m.id := rfl

def replay (P : DurableDelivery) (id : Uuid) (now : Clock) (s : Tables J) :
    Except Raised (Tables J) :=
  if !s.outbox.rows.any fun m => decide (m.id = id) && decide (m.topic ∈ P.topics.keys) then
    .error (.valueError "message is outside this delivery policy")
  else if !s.quarantined id then
    .error (.valueError "message is not in the dead-letter journal")
  else
    .ok { s with
      outbox := s.outbox.update (fun m => m.id = id) (replayed now) (replayed_id now)
      deadLetters := s.deadLetters.update
        (fun d => decide (d.messageId = id) && decide (d.replayedAt = none))
        (fun d => { d with replayedAt := some (now : Timestamp) }) fun _ => rfl }

end DurableDelivery

end TplBackend
