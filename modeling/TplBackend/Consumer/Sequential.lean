import TplBackend.Consumer.Session

namespace TplBackend

open Keyed

variable {J W : Type}

namespace Consumers

open DurableTasks

theorem marked_eq (row : InboxMessage) (s : Tables J) :
    marked (some (!s.acknowledged row.consumer row.messageId, row)) s =
      { s with inbox := s.inbox.insert row } := by
  cases done : s.acknowledged row.consumer row.messageId with
  | false => rfl
  | true =>
      obtain ⟨i, member, keyed⟩ := (Tables.acknowledged_iff _ _ _).mp done
      have present : s.inbox.find? row.key ≠ none := by
        rw [Ne, Table.find?_eq_none]
        exact fun absent => absent i member keyed
      have same : s.inbox.insert row = s.inbox := by rw [Table.insert, dif_neg present]
      rw [same]
      rfl

variable [DecidableEq J] {state : Consumers J W} {pid : Nat}

/-- The statements of a claim with nothing in between, at one reading, are `claim_execution`. -/
theorem claim_sequential (codec : Codec J) (D : DurableTasks) (id owner : Uuid) (now : Clock)
    (idle : state.calls pid = .idle) (unlocked : ∀ resource, state.lock resource = none) :
    ∃ final, proceed codec state [.select pid D id now, .upsert pid owner now, .recheck pid,
        .commitClaim pid] = final ∧
      final.tables = (D.claimExecution codec id owner now state.tables).2 ∧
      final.granted = state.granted ++
        ((D.claimExecution codec id owner now state.tables).1.map Prod.fst).toList := by
  refine ⟨_, rfl, ?_⟩
  unfold claimExecution
  cases chosen : D.eligible codec id now state.tables with
  | none => simp [proceed, next, idle, chosen, put]
  | some message =>
      obtain ⟨_, rfl, _, _, fresh, _⟩ := eligible_spec chosen
      cases upserted : takeover (state.tables.executions.find? message.resource) message.resource
          message.id owner D.leaseSeconds now with
      | none => simp [proceed, next, idle, chosen, unlocked, upserted, put]
      | some taken =>
          have unmarked : (putExecution taken state.tables).acknowledged message.topic message.id =
              false := fresh
          simp [proceed, next, idle, chosen, unlocked, upserted, put, hold, fresh, unmarked,
            claimCommitted, free]

/-- The statements of a final commit with nothing in between are `acknowledge`. -/
theorem acknowledge_sequential (codec : Codec J) {session : Session J W} (now : Clock)
    (executing : state.calls pid = .executing session) (unmarked : session.receipt = none)
    (own : session.lease.messageId = session.message.id)
    (unlocked : ∀ resource, state.lock resource = none) :
    (proceed codec state [.mark pid now, .guard pid now, .commit pid]).tables =
      (perform codec (.acknowledge session.lease session.message.topic now) state.tables).2 := by
  generalize receipt : (⟨session.message.topic, session.message.id, now⟩ : InboxMessage) = row
  have marks := marked_eq row state.tables
  by_cases invalid : session.message.topic.isEmpty = true ∨ 128 < session.message.topic.length
  · have refused : SqlOutboxRepository.claimInboxOnce session.message.topic session.message.id now
        state.tables = .error (.valueError "invalid inbox consumer") := if_pos invalid
    simp [proceed, next, executing, unmarked, put, perform, settle, acknowledge, own, refused]
  · have inserted : SqlOutboxRepository.claimInboxOnce session.message.topic session.message.id now
        state.tables = .ok (!state.tables.acknowledged session.message.topic session.message.id,
          { state.tables with inbox := state.tables.inbox.insert row }) :=
      receipt ▸ if_neg invalid
    subst receipt
    by_cases current : checkLease state.tables session.lease now = true
    · simp [proceed, next, executing, unmarked, put, hold, free, sessionCommitted, marks, perform,
        settle, acknowledge, own, inserted, current, unlocked]
    · simp [proceed, next, executing, unmarked, put, perform, settle, acknowledge, own, inserted,
        current, unlocked]

end Consumers

end TplBackend
