import TplBackend.Outbox.Event

namespace TplBackend

open Keyed

variable {J : Type}

namespace SqlOutboxRepository

/-- The row an accepted event is inserted as; the columns it leaves out take their defaults. -/
def newRow (codec : Codec J) (id : Uuid) (event : OutboxEvent J) (now : Clock) : OutboxMessage J where
  id := id
  topic := event.topic
  aggregateKey := event.aggregateKey
  deduplicationKey := event.deduplicationKey
  payload := event.payload
  headers := event.transportHeaders codec
  status := .pending
  attemptCount := 0
  availableAt := match event.notBefore with
    | none => ⊥
    | some instant => (instant : Timestamp)
  leaseOwner := none
  leaseExpiresAt := none
  publishedAt := none
  lastError := none
  createdAt := now
  updatedAt := now

@[simp] theorem newRow_id (codec : Codec J) (id : Uuid) (event : OutboxEvent J) (now : Clock) :
    (newRow codec id event now).id = id := rfl

/-- The WHERE clause of the conflict branch. -/
def SameIntent (codec : Codec J) (event : OutboxEvent J) (m : OutboxMessage J) : Prop :=
  m.topic = event.topic ∧ m.aggregateKey = event.aggregateKey ∧ m.payload = event.payload ∧
    m.headers = event.transportHeaders codec

instance [DecidableEq J] (codec : Codec J) (event : OutboxEvent J) (m : OutboxMessage J) :
    Decidable (SameIntent codec event m) :=
  inferInstanceAs (Decidable (_ ∧ _ ∧ _ ∧ _))

/-- `SET deduplication_key = EXCLUDED.deduplication_key` -/
def rekeyed (event : OutboxEvent J) (m : OutboxMessage J) : OutboxMessage J :=
  { m with deduplicationKey := event.deduplicationKey }

@[simp] theorem rekeyed_id (event : OutboxEvent J) (m : OutboxMessage J) :
    (rekeyed event m).id = m.id := rfl

/-- `id` is the fresh `uuid4`, `now` the clock behind the column defaults. -/
def enqueue [DecidableEq J] (codec : Codec J) (id : Uuid) (event : OutboxEvent J) (now : Clock)
    (s : Tables J) : Except Raised (Uuid × Tables J) :=
  match event.validate codec with
  | .error raised => .error raised
  | .ok () =>
      if !event.storable codec then .error .dbapiError
      else match s.outbox.rows.find? fun m => m.deduplicationKey = event.deduplicationKey with
      | none =>
          if (s.outbox.find? id).isSome then .error .uniqueViolation
          else .ok (id, { s with outbox := s.outbox.insert (newRow codec id event now) })
      | some existing =>
          if SameIntent codec event existing then
            .ok (existing.id, { s with
              outbox := s.outbox.update (fun m => m.id = existing.id) (rekeyed event)
                (rekeyed_id event) })
          else .error (.valueError "outbox deduplication key reused with different intent")

structure ClaimedOutboxEvent (J : Type) where
  id : Uuid
  topic : String
  aggregateKey : String
  payload : J
  headers : Headers
  attemptCount : Nat

def ClaimedOutboxEvent.ofRow (m : OutboxMessage J) : ClaimedOutboxEvent J :=
  ⟨m.id, m.topic, m.aggregateKey, m.payload, m.headers, m.attemptCount⟩

/-- The WHERE clause of `claim_batch`: `now` is `NOW()`, `clock` is `clock_timestamp()`. -/
def batchEligible (codec : Codec J) (now clock : Clock) (m : OutboxMessage J) : Bool :=
  decide (m.availableAt ≤ (now : Timestamp)) && notBeforeDue codec m.headers clock &&
    (decide (m.status = .pending) || (decide (m.status = .delivering) &&
      m.leaseExpiresAt.any fun expiry => expiry < (now : Timestamp)))

/-- The rows `claim_batch` chooses from; `locked` are those another open transaction holds. -/
def batchPool (codec : Codec J) (locked : Uuid → Bool) (now clock : Clock) (s : Tables J) :
    List (OutboxMessage J) :=
  s.outbox.rows.filter fun m => batchEligible codec now clock m && !locked m.id

/-- The CTE of `claim_batch`. -/
def batchCandidates (codec : Codec J) (limit : Nat) (locked : Uuid → Bool) (now clock : Clock)
    (s : Tables J) : List (OutboxMessage J) :=
  ((batchPool codec locked now clock s).insertionSort OutboxMessage.claimOrder).take limit

def claimBatch (codec : Codec J) (owner : String) (limit leaseSeconds : Int) (locked : Uuid → Bool)
    (now clock : Clock) (s : Tables J) : Except Raised (List (ClaimedOutboxEvent J) × Tables J) :=
  if owner.isEmpty ∨ 128 < owner.length ∨ ¬ (1 ≤ limit ∧ limit ≤ 1000) then
    .error (.valueError "invalid outbox claim parameters")
  else if ¬ (1 ≤ leaseSeconds ∧ leaseSeconds ≤ 3600) then
    .error (.valueError "invalid outbox lease duration")
  else
    let candidates := batchCandidates codec limit.toNat locked now clock s
    .ok (candidates.map fun m => .ofRow (m.claimed owner leaseSeconds now), { s with
      outbox := s.outbox.update (fun m => decide (m.id ∈ candidates.map OutboxMessage.id))
        (OutboxMessage.claimed owner leaseSeconds now)
        (OutboxMessage.claimed_id owner leaseSeconds now) })

/-- `UPDATE outbox_message SET f WHERE` the lease is held, raising when no row came back. -/
def complete (id : Uuid) (owner : Option String) (clock : Clock) (raised : Raised)
    (f : OutboxMessage J → OutboxMessage J) (keeps : ∀ m, (f m).id = m.id) (s : Tables J) :
    Except Raised (Tables J) :=
  if s.outbox.rows.any fun m => m.heldBy id owner clock then
    .ok { s with outbox := s.outbox.update (fun m => m.heldBy id owner clock) f keeps }
  else .error raised

def published (now : Clock) (m : OutboxMessage J) : OutboxMessage J :=
  { m with
    status := .published
    publishedAt := some (now : Timestamp)
    leaseOwner := none
    leaseExpiresAt := none
    lastError := none
    updatedAt := now }

@[simp] theorem published_id (now : Clock) (m : OutboxMessage J) :
    (published now m).id = m.id := rfl

def markPublished (id : Uuid) (owner : String) (now clock : Clock) (s : Tables J) :
    Except Raised (Tables J) :=
  complete id (some owner) clock (.runtimeError "outbox lease ownership was lost")
    (published now) (published_id now) s

def failed (error : String) (retrySeconds : Int) (now : Clock) (m : OutboxMessage J) :
    OutboxMessage J :=
  { m with
    status := .pending
    availableAt := (now + seconds retrySeconds : Int)
    leaseOwner := none
    leaseExpiresAt := none
    lastError := some error
    updatedAt := now }

@[simp] theorem failed_id (error : String) (retrySeconds : Int) (now : Clock)
    (m : OutboxMessage J) : (failed error retrySeconds now m).id = m.id := rfl

def markFailed (id : Uuid) (owner error : String) (retrySeconds : Int) (now clock : Clock)
    (s : Tables J) : Except Raised (Tables J) :=
  if error.isEmpty ∨ 256 < error.length ∨ ¬ (1 ≤ retrySeconds ∧ retrySeconds ≤ 86400) then
    .error (.valueError "invalid outbox retry parameters")
  else
    complete id (some owner) clock (.runtimeError "outbox lease ownership was lost")
      (failed error retrySeconds now) (failed_id error retrySeconds now) s

/-- Whether the marker is new, with the tables after it. -/
def claimInboxOnce (consumer : String) (id : Uuid) (now : Clock) (s : Tables J) :
    Except Raised (Bool × Tables J) :=
  if consumer.isEmpty ∨ 128 < consumer.length then .error (.valueError "invalid inbox consumer")
  else .ok (!s.acknowledged consumer id, { s with inbox := s.inbox.insert ⟨consumer, id, now⟩ })

end SqlOutboxRepository

end TplBackend
