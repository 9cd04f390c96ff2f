import TplBackend.Delivery.Policy

namespace TplBackend

open Keyed

structure DurableTasks where
  handlers : List String
  handlers_nodup : handlers.Nodup
  leaseSeconds : Nat
  maxAttempts : Nat
  leaseSeconds_bounds : 1 ≤ leaseSeconds ∧ leaseSeconds ≤ 3600
  maxAttempts_bounds : 1 ≤ maxAttempts ∧ maxAttempts ≤ 100

/-- `super().__init__(sessions, topics={topic: topic for topic in handlers}, **kwargs)` -/
def DurableTasks.delivery (D : DurableTasks) : DurableDelivery where
  topics :=
    { entries := D.handlers.map fun topic => ⟨topic, some topic⟩
      nodupKeys := by
        have same : (D.handlers.map fun topic =>
            (⟨topic, some topic⟩ : Sigma fun _ : String => Option String)).keys = D.handlers := by
          simp [List.keys, Function.comp_def]
        rw [List.NodupKeys, same]
        exact D.handlers_nodup }
  leaseSeconds := D.leaseSeconds
  maxAttempts := D.maxAttempts
  leaseSeconds_bounds := D.leaseSeconds_bounds
  maxAttempts_bounds := D.maxAttempts_bounds

structure ConsumerLease where
  resourceKey : String
  messageId : Uuid
  owner : Uuid
  epoch : Nat
  deriving DecidableEq

namespace DurableTasks

variable {J : Type}

/-- The eligibility read of `claim_execution`. -/
def eligible (codec : Codec J) (D : DurableTasks) (id : Uuid) (now : Clock) (s : Tables J) :
    Option (OutboxMessage J) :=
  s.outbox.rows.find? fun m =>
    decide (m.id = id) && decide (m.topic ∈ D.handlers) && notBeforeDue codec m.headers now &&
      !s.acknowledged m.topic m.id && !s.quarantined m.id

/-- The upsert of `claim_execution` on the current row of the resource; `none` when the WHERE
clause of its conflict branch keeps it from returning a row. -/
def takeover (current : Option Execution) (resource : String) (id owner : Uuid) (leaseSeconds : Nat)
    (now : Clock) : Option Execution :=
  match current with
  | none => some ⟨resource, id, owner, 1, (now + seconds leaseSeconds : Int)⟩
  | some l =>
      if l.expiresAt ≤ (now : Timestamp) then
        some ⟨resource, id, owner, l.epoch + 1, (now + seconds leaseSeconds : Int)⟩
      else none

theorem takeover_spec {current : Option Execution} {resource : String} {id owner : Uuid}
    {leaseSeconds : Nat} {now : Clock} {taken : Execution}
    (result : takeover current resource id owner leaseSeconds now = some taken) :
    taken = ⟨resource, id, owner, current.elim 0 Execution.epoch + 1,
        (now + seconds leaseSeconds : Int)⟩ ∧
      ∀ l, current = some l → l.expiresAt ≤ (now : Timestamp) := by
  unfold takeover at result
  split at result
  · cases result
    exact ⟨rfl, nofun⟩
  · split at result
    · rename_i expired
      cases result
      refine ⟨rfl, fun other same => ?_⟩
      cases same
      exact expired
    · cases result

def putExecution (row : Execution) (s : Tables J) : Tables J :=
  { s with
    executions := s.executions.upsert row
      (fun l => { row with resourceKey := l.resourceKey }) fun _ => rfl }

theorem find?_putExecution (row : Execution) (s : Tables J) (resource : String) :
    (putExecution row s).executions.find? resource =
      if row.resourceKey = resource then some row else s.executions.find? resource := by
  rw [putExecution, Table.find?_upsert]
  by_cases same : row.resourceKey = resource
  · rw [if_pos same, if_pos same]
    cases present : s.executions.find? resource with
    | none => rfl
    | some l =>
        have keyed : l.resourceKey = row.resourceKey :=
          (Table.find?_eq_some.mp present).2.trans same.symm
        simp [keyed]
  · rw [if_neg same, if_neg same]

theorem mem_putExecution {row l : Execution} {s : Tables J}
    (member : l ∈ (putExecution row s).executions) : l = row ∨ l ∈ s.executions := by
  have found := Table.find?_of_mem member
  rw [find?_putExecution] at found
  split at found
  · exact Or.inl (Option.some.inj found).symm
  · exact Or.inr (Table.find?_eq_some.mp found).1

/-- The row of `claim_execution` after `expires_at='-infinity'`. -/
def vacated (l : Execution) : Execution := { l with expiresAt := ⊥ }

@[simp] theorem vacated_resourceKey (l : Execution) :
    (vacated l).resourceKey = l.resourceKey := rfl

/-- The assignment of `renew`. -/
def extended (leaseSeconds : Nat) (now : Clock) (l : Execution) : Execution :=
  { l with expiresAt := (now + seconds leaseSeconds : Int) }

@[simp] theorem extended_resourceKey (leaseSeconds : Nat) (now : Clock) (l : Execution) :
    (extended leaseSeconds now l).resourceKey = l.resourceKey := rfl

def leaseOf (l : Execution) : ConsumerLease := ⟨l.resourceKey, l.messageId, l.owner, l.epoch⟩

/-- `claim_execution` as one transaction that reads one clock value. -/
def claimExecution (codec : Codec J) (D : DurableTasks) (id owner : Uuid) (now : Clock)
    (s : Tables J) : Option (ConsumerLease × OutboxMessage J) × Tables J :=
  match D.eligible codec id now s with
  | none => (none, s)
  | some row =>
      match takeover (s.executions.find? row.resource) row.resource id owner D.leaseSeconds now with
      | none => (none, s)
      | some taken =>
          let s' := putExecution taken s
          if s'.acknowledged row.topic id then (none, putExecution (vacated taken) s')
          else (some (leaseOf taken, row), s')

theorem claimExecution_cases (codec : Codec J) (D : DurableTasks) (id owner : Uuid) (now : Clock)
    (s : Tables J) :
    D.claimExecution codec id owner now s = (none, s) ∨
      ∃ row taken, D.eligible codec id now s = some row ∧
        takeover (s.executions.find? row.resource) row.resource id owner D.leaseSeconds now =
          some taken ∧
        (D.claimExecution codec id owner now s = (some (leaseOf taken, row), putExecution taken s) ∨
          D.claimExecution codec id owner now s =
            (none, putExecution (vacated taken) (putExecution taken s))) := by
  unfold claimExecution
  cases selected : D.eligible codec id now s with
  | none => exact Or.inl rfl
  | some row =>
      cases upserted : takeover (s.executions.find? row.resource) row.resource id owner
          D.leaseSeconds now with
      | none => exact Or.inl (by simp only [upserted])
      | some taken =>
          refine Or.inr ⟨row, taken, rfl, upserted, ?_⟩
          simp only [upserted]
          by_cases done : (putExecution taken s).acknowledged row.topic id = true
          · exact Or.inr (if_pos done)
          · exact Or.inl (if_neg done)

def owned (l : Execution) (lease : ConsumerLease) : Bool := decide (leaseOf l = lease)

/-- Whether `CHECK_LEASE` returns a row. -/
def checkLease (s : Tables J) (lease : ConsumerLease) (now : Clock) : Bool :=
  s.executions.rows.any fun l => owned l lease && decide ((now : Timestamp) < l.expiresAt)

def renew (D : DurableTasks) (lease : ConsumerLease) (now : Clock) (s : Tables J) :
    Except Raised (Tables J) :=
  if checkLease s lease now then
    .ok { s with
      executions := s.executions.update
        (fun l => owned l lease && decide ((now : Timestamp) < l.expiresAt))
        (extended D.leaseSeconds now) (extended_resourceKey D.leaseSeconds now) }
  else .error (.deliveryLeaseLost "consumer lease lost")

def release (lease : ConsumerLease) (s : Tables J) : Tables J :=
  { s with
    executions := s.executions.update (fun l => owned l lease) vacated vacated_resourceKey }

/-- The final commit of `consume`: `claim_inbox_once`, then the guard at `now`, in one transaction. -/
def acknowledge (lease : ConsumerLease) (topic : String) (now : Clock) (s : Tables J) :
    Except Raised (Tables J) :=
  match SqlOutboxRepository.claimInboxOnce topic lease.messageId now s with
  | .error raised => .error raised
  | .ok (_, marked) =>
      if checkLease s lease now then .ok marked
      else .error (.deliveryLeaseLost "consumer lease lost")

theorem renew_ok {D : DurableTasks} {lease : ConsumerLease} {now : Clock} {s s' : Tables J}
    (result : D.renew lease now s = .ok s') :
    checkLease s lease now = true ∧ s' = { s with
      executions := s.executions.update
        (fun l => owned l lease && decide ((now : Timestamp) < l.expiresAt))
        (extended D.leaseSeconds now) (extended_resourceKey D.leaseSeconds now) } := by
  unfold renew at result
  split at result
  · rename_i current
    cases result
    exact ⟨current, rfl⟩
  · cases result

theorem acknowledge_ok {lease : ConsumerLease} {topic : String} {now : Clock} {s s' : Tables J}
    (result : acknowledge lease topic now s = .ok s') :
    checkLease s lease now = true ∧
      s' = { s with inbox := s.inbox.insert ⟨topic, lease.messageId, now⟩ } := by
  unfold acknowledge SqlOutboxRepository.claimInboxOnce at result
  by_cases invalid : topic.isEmpty = true ∨ 128 < topic.length
  · rw [if_pos invalid] at result
    cases result
  · rw [if_neg invalid] at result
    by_cases current : checkLease s lease now = true
    · simp only [current, if_true, Except.ok.injEq] at result
      exact ⟨current, result.symm⟩
    · simp only [current] at result
      cases result

end DurableTasks

end TplBackend
