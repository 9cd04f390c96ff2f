import Mathlib.Data.Finmap
import TplBackend.Library.Table
import TplBackend.Outbox.Timestamp

namespace TplBackend

open Keyed

abbrev Uuid := Nat

abbrev Headers := Finmap fun _ : String => String

inductive Status
  | pending
  | delivering
  | published
  deriving DecidableEq, Repr

structure OutboxMessage (J : Type) where
  id : Uuid
  topic : String
  aggregateKey : String
  deduplicationKey : String
  payload : J
  headers : Headers
  status : Status
  attemptCount : Nat
  availableAt : Timestamp
  leaseOwner : Option String
  leaseExpiresAt : Option Timestamp
  publishedAt : Option Timestamp
  lastError : Option String
  createdAt : Timestamp
  updatedAt : Timestamp

structure InboxMessage where
  consumer : String
  messageId : Uuid
  processedAt : Timestamp

def InboxMessage.key (receipt : InboxMessage) : String × Uuid :=
  (receipt.consumer, receipt.messageId)

structure DeadLetter where
  messageId : Uuid
  errorCode : String
  failedAt : Timestamp
  replayedAt : Option Timestamp

structure Execution where
  resourceKey : String
  messageId : Uuid
  owner : Uuid
  epoch : Nat
  expiresAt : Timestamp

/-- The four delivery tables, each under its primary key. -/
structure Tables (J : Type) where
  outbox : Table (@OutboxMessage.id J)
  inbox : Table InboxMessage.key
  deadLetters : Table DeadLetter.messageId
  executions : Table Execution.resourceKey

namespace Tables

variable {J : Type}

def empty : Tables J := ⟨Table.empty, Table.empty, Table.empty, Table.empty⟩

/-- `EXISTS(SELECT 1 FROM outbox_dead_letter d WHERE d.message_id=:id AND d.replayed_at IS NULL)` -/
def quarantined (s : Tables J) (id : Uuid) : Bool :=
  s.deadLetters.rows.any fun d => d.messageId = id ∧ d.replayedAt = none

/-- `EXISTS(SELECT 1 FROM inbox_message i WHERE i.consumer=:consumer AND i.message_id=:id)` -/
def acknowledged (s : Tables J) (consumer : String) (id : Uuid) : Bool :=
  s.inbox.rows.any fun i => i.consumer = consumer ∧ i.messageId = id

theorem quarantined_iff (s : Tables J) (id : Uuid) :
    s.quarantined id = true ↔ ∃ d, s.deadLetters.find? id = some d ∧ d.replayedAt = none := by
  simp only [quarantined, List.any_eq_true, decide_eq_true_eq, Table.find?_eq_some, Table.mem_rows]
  constructor
  · rintro ⟨d, member, same, open_⟩
    exact ⟨d, ⟨member, same⟩, open_⟩
  · rintro ⟨d, ⟨member, same⟩, open_⟩
    exact ⟨d, member, same, open_⟩

theorem acknowledged_iff (s : Tables J) (consumer : String) (id : Uuid) :
    s.acknowledged consumer id = true ↔ ∃ i ∈ s.inbox, i.key = (consumer, id) := by
  simp [acknowledged, Table.mem_rows, InboxMessage.key]

theorem quarantined_congr {first second : Tables J} {id : Uuid}
    (same : first.deadLetters.find? id = second.deadLetters.find? id) :
    first.quarantined id = second.quarantined id := by
  rw [Bool.eq_iff_iff, quarantined_iff, quarantined_iff, same]

theorem acknowledged_congr {first second : Tables J} (same : first.inbox = second.inbox) :
    first.acknowledged = second.acknowledged := by
  funext consumer id
  simp only [acknowledged, same]

end Tables

namespace OutboxMessage

variable {J : Type}

/-- `lease_expires_at<=clock`, which is not true of a NULL lease. -/
def leaseExpired (m : OutboxMessage J) (now : Clock) : Bool :=
  m.leaseExpiresAt.any fun expiry => expiry ≤ (now : Timestamp)

/-- `id=:id AND status='delivering' AND lease_owner=:owner AND lease_expires_at>clock`, the test
every completion makes; neither a NULL lease nor a NULL owner passes it. -/
def heldBy (m : OutboxMessage J) (id : Uuid) (owner : Option String) (clock : Clock) : Bool :=
  decide (m.id = id) && decide (m.status = .delivering) && owner.isSome &&
    decide (m.leaseOwner = owner) && m.leaseExpiresAt.any fun expiry => (clock : Timestamp) < expiry

theorem heldBy_iff (m : OutboxMessage J) (id : Uuid) (owner : Option String) (clock : Clock) :
    m.heldBy id owner clock = true ↔ m.id = id ∧ m.status = .delivering ∧
      (∃ name, owner = some name ∧ m.leaseOwner = some name) ∧
      ∃ expiry, m.leaseExpiresAt = some expiry ∧ (clock : Timestamp) < expiry := by
  cases owner with
  | none => simp [heldBy]
  | some name =>
      simp [heldBy, Option.any_eq_true_iff_get, Option.eq_some_iff_get_eq, and_assoc]

/-- The assignments of both publisher claims. -/
def claimed (owner : String) (leaseSeconds : Int) (now : Clock) (m : OutboxMessage J) :
    OutboxMessage J :=
  { m with
    status := .delivering
    leaseOwner := some owner
    leaseExpiresAt := some (now + seconds leaseSeconds : Int)
    attemptCount := m.attemptCount + 1
    updatedAt := now }

@[simp] theorem claimed_id (owner : String) (leaseSeconds : Int) (now : Clock)
    (m : OutboxMessage J) : (m.claimed owner leaseSeconds now).id = m.id := rfl

/-- `row["topic"] + ":" + row["aggregate_key"]` -/
def resource (m : OutboxMessage J) : String := m.topic ++ ":" ++ m.aggregateKey

/-- `ORDER BY created_at,id` -/
def claimOrder (first second : OutboxMessage J) : Prop :=
  first.createdAt < second.createdAt ∨
    (first.createdAt = second.createdAt ∧ first.id ≤ second.id)

instance : DecidableRel (@claimOrder J) := fun _ _ => inferInstanceAs (Decidable (_ ∨ _))

instance : Std.Total (@claimOrder J) where
  total first second := by
    rcases lt_trichotomy first.createdAt second.createdAt with before | same | after
    · exact Or.inl (Or.inl before)
    · rcases le_total first.id second.id with low | high
      · exact Or.inl (Or.inr ⟨same, low⟩)
      · exact Or.inr (Or.inr ⟨same.symm, high⟩)
    · exact Or.inr (Or.inl after)

instance : IsTrans (OutboxMessage J) claimOrder where
  trans first second third := by
    rintro (before | ⟨same, low⟩) (before' | ⟨same', low'⟩)
    · exact Or.inl (before.trans before')
    · exact Or.inl (same' ▸ before)
    · exact Or.inl (same ▸ before')
    · exact Or.inr ⟨same.trans same', low.trans low'⟩

theorem claimOrder_antisymm {first second : OutboxMessage J} (before : claimOrder first second)
    (after : claimOrder second first) : first.id = second.id := by
  rcases before with early | ⟨same, low⟩ <;> rcases after with late | ⟨_, high⟩
  · exact absurd late early.asymm
  · exact absurd early (by simp_all)
  · exact absurd late (by simp [same])
  · exact le_antisymm low high

end OutboxMessage

end TplBackend
