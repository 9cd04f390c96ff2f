import TplBackend.Consumer.Fencing
import TplBackend.Delivery.Intent

namespace TplBackend

open Keyed Transition

variable {J W : Type}

def Call.message? : Call J W → Option (OutboxMessage J)
  | .selected _ message | .upserted message _ | .rechecked message _ _ => some message
  | .claimed session | .executing session | .guarded session => some session.message
  | .idle | .ended => none

theorem Call.message_of_session {call : Call J W} {session : Session J W}
    (held : call.session? = some session) : call.message? = some session.message := by
  cases call <;> cases held <;> rfl

inductive Session.Continues (s : Tables J) (session : Session J W) : Session J W → Prop
  | same (writes : List W) : Session.Continues s session { session with writes := writes }
  | marked (now : Clock) : Session.Continues s session { session with
      receipt := some (!s.acknowledged session.message.topic session.message.id,
        ⟨session.message.topic, session.message.id, now⟩) }

theorem intent_eq_of_carries {s : Tables J} {first second : Intent J} (left : Carries first s)
    (right : Carries second s) (same : first.id = second.id) : first = second := by
  obtain ⟨row, found, equal⟩ := left
  obtain ⟨row', found', equal'⟩ := right
  rw [← same, found] at found'
  rw [← equal, ← equal', Option.some.inj found']

theorem resource_of_intent {m m' : OutboxMessage J} (same : m.intent = m'.intent) :
    m.resource = m'.resource := by
  have topic : m.topic = m'.topic := topic_of_intent same
  have aggregateKey : m.aggregateKey = m'.aggregateKey := congrArg Intent.aggregateKey same
  rw [OutboxMessage.resource, OutboxMessage.resource, topic, aggregateKey]

namespace Consumers

open DurableTasks

structure Attached (state : Consumers J W) (session : Session J W) : Prop where
  granted : session.lease ∈ state.granted
  messageId : session.lease.messageId = session.message.id
  resourceKey : session.lease.resourceKey = session.message.resource
  keyed : ∀ fresh row, session.receipt = some (fresh, row) →
    row.key = (session.message.topic, session.message.id)
  conflict : ∀ row, session.receipt = some (false, row) →
    state.tables.acknowledged session.message.topic session.message.id = true
  replaced : state.tables.acknowledged session.message.topic session.message.id = true →
    state.tables.occupant session.lease.resourceKey ≠ some session.lease

structure Recorded (state : Consumers J W) (commit : Commit W) (fresh : Bool) (row : InboxMessage) :
    Prop where
  fresh : fresh = true
  messageId : row.messageId = commit.lease.messageId
  acknowledged : state.tables.acknowledged row.consumer row.messageId = true
  topic : ∃ intent, Carries intent state.tables ∧ intent.id = row.messageId ∧
    intent.topic = row.consumer
  ended : state.calls commit.pid = .ended

structure Sound (state : Consumers J W) : Prop where
  fenced : Fenced state
  valid : ∀ resource, Fence.Valid (register resource state)
  carried : ∀ pid message, (state.calls pid).message? = some message →
    Carries message.intent state.tables
  attached : ∀ pid session, (state.calls pid).session? = some session → Attached state session
  alone : ∀ pid pid' session session', (state.calls pid).session? = some session →
    (state.calls pid').session? = some session' → session.lease = session'.lease → pid = pid'
  unmarked : ∀ pid message taken, state.calls pid = .rechecked message taken false →
    state.tables.acknowledged message.topic message.id = false
  recorded : ∀ commit ∈ state.commits, ∀ fresh row, commit.receipt = some (fresh, row) →
    Recorded state commit fresh row

variable {codec : Codec J} {state after : Consumers J W} {label : Label J W} {pid : Nat}

theorem outbox_sessionCommitted (session : Session J W) :
    (state.sessionCommitted pid session).tables.outbox = state.tables.outbox := by
  simp only [sessionCommitted, put, free, marked]
  split <;> rfl

theorem outbox_claimCommitted (message : OutboxMessage J) (taken : Execution) (done : Bool) :
    (state.claimCommitted pid message taken done).tables.outbox = state.tables.outbox := by
  cases done <;> rfl

theorem inbox_claimCommitted (message : OutboxMessage J) (taken : Execution) (done : Bool) :
    (state.claimCommitted pid message taken done).tables.inbox = state.tables.inbox := by
  cases done <;> rfl

theorem acknowledged_sessionCommitted (session : Session J W) (consumer : String) (id : Uuid) :
    (state.sessionCommitted pid session).tables.acknowledged consumer id = true ↔
      state.tables.acknowledged consumer id = true ∨
        ∃ row, session.receipt = some (true, row) ∧ row.key = (consumer, id) := by
  rw [Tables.acknowledged_iff, Tables.acknowledged_iff]
  cases receipt : session.receipt with
  | none => simp [sessionCommitted, put, free, marked, receipt]
  | some pair =>
      obtain ⟨fresh, row⟩ := pair
      cases fresh with
      | false => simp [sessionCommitted, put, free, marked, receipt]
      | true =>
          simp only [sessionCommitted, put, free, marked, receipt, Table.mem_insert,
            Option.some.injEq, Prod.mk.injEq, true_and]
          constructor
          · rintro ⟨i, old | ⟨rfl, _⟩, keyed⟩
            · exact Or.inl ⟨i, old, keyed⟩
            · exact Or.inr ⟨i, rfl, keyed⟩
          · rintro (⟨i, old, keyed⟩ | ⟨i, rfl, keyed⟩)
            · exact ⟨i, Or.inl old, keyed⟩
            · cases present : state.tables.inbox.find? row.key with
              | none => exact ⟨row, Or.inr ⟨rfl, rfl⟩, keyed⟩
              | some i =>
                  obtain ⟨member, same⟩ := Table.find?_eq_some.mp present
                  exact ⟨i, Or.inl member, same.trans keyed⟩

theorem taken_fresh (sound : Sound state) {message : OutboxMessage J} {taken : Execution}
    {done : Bool} (rechecked : state.calls pid = .rechecked message taken done)
    {lease : ConsumerLease} (member : lease ∈ state.granted) : leaseOf taken ≠ lease := by
  rintro rfl
  have above := top_lt_taken (sound.fenced.fits rechecked)
  have issued : taken.epoch ∈ grantedEpochs taken.resourceKey state :=
    List.mem_map_of_mem (f := ConsumerLease.epoch)
      (List.mem_filter.mpr ⟨member, decide_eq_true rfl⟩)
  exact absurd ((sound.valid _).issued_le _ issued) (not_le_of_gt above)

theorem session_of_guarded {session : Session J W} (guarded : state.calls pid = .guarded session) :
    (state.calls pid).session? = some session := by
  rw [guarded]
  rfl

theorem Sound.attached_guarded (sound : Sound state) {session : Session J W}
    (guarded : state.calls pid = .guarded session) : Attached state session :=
  sound.attached pid session (session_of_guarded guarded)

theorem Sound.carried_guarded (sound : Sound state) {session : Session J W}
    (guarded : state.calls pid = .guarded session) :
    Carries session.message.intent state.tables :=
  sound.carried pid session.message (Call.message_of_session (session_of_guarded guarded))

theorem guarded_unacknowledged (sound : Sound state) {session : Session J W}
    (guarded : state.calls pid = .guarded session) :
    state.tables.acknowledged session.message.topic session.message.id = false := by
  have fits := sound.fenced.fits guarded
  have attached := sound.attached_guarded guarded
  exact Bool.eq_false_iff.mpr fun done => attached.replaced done fits.2

theorem guarded_receipt (sound : Sound state) {session : Session J W}
    (guarded : state.calls pid = .guarded session) {fresh : Bool} {row : InboxMessage}
    (receipt : session.receipt = some (fresh, row)) :
    fresh = true ∧ row.key = (session.message.topic, session.message.id) := by
  have attached := sound.attached_guarded guarded
  refine ⟨?_, attached.keyed _ _ receipt⟩
  cases fresh with
  | true => rfl
  | false =>
      have unacknowledged := guarded_unacknowledged sound guarded
      rw [attached.conflict row receipt] at unacknowledged
      cases unacknowledged

theorem marker_is_own (sound : Sound state) {session : Session J W} {message : OutboxMessage J}
    (guarded : state.calls pid = .guarded session) (carried : Carries message.intent state.tables)
    (before : state.tables.acknowledged message.topic message.id = false)
    (done : (state.sessionCommitted pid session).tables.acknowledged message.topic message.id =
      true) :
    message.resource = session.lease.resourceKey ∧ session.receipt.isSome = true := by
  rcases (acknowledged_sessionCommitted session _ _).mp done with old | ⟨row, receipt, keyed⟩
  · rw [before] at old
    cases old
  · have attached := sound.attached_guarded guarded
    have same := (attached.keyed _ _ receipt).symm.trans keyed
    have own := sound.carried_guarded guarded
    refine ⟨?_, by rw [receipt]; rfl⟩
    rw [attached.resourceKey]
    exact resource_of_intent (intent_eq_of_carries carried own (Prod.mk.inj same).2.symm)

theorem start_sound : Sound (start : Consumers J W) where
  fenced := start_fenced
  valid _ := Fence.new_valid
  carried _ _ about := by cases about
  attached _ _ held := by cases held
  alone _ _ _ _ held := by cases held
  unmarked _ _ _ rechecked := by cases rechecked
  recorded _ member := by cases member

variable [DecidableEq J]

theorem moves_carries {intent : Intent J} (carried : Carries intent state.tables)
    (moves : Moves codec state label after) : Carries intent after.tables := by
  have kept (same : after.tables.outbox = state.tables.outbox) : Carries intent after.tables := by
    rw [Carries, same]
    exact carried
  cases moves with
  | @delivered op _ _ =>
      have performed : TplBackend.Step codec (fun _ => True) state.tables op
          (perform codec op state.tables).2 := ⟨trivial, rfl⟩
      exact step_carries carried performed
  | committed => exact kept (outbox_sessionCommitted _)
  | refused | granted => exact kept (outbox_claimCommitted _ _ _)
  | renewed _ _ result =>
      obtain ⟨_, rfl⟩ := renew_ok result
      exact kept rfl
  | _ => exact kept rfl

theorem moves_message (moves : Moves codec state label after) {message : OutboxMessage J}
    (about : (after.calls pid).message? = some message) :
    (state.calls pid).message? = some message ∨
      ∃ D now, label = .select pid D message.id now ∧
        D.eligible codec message.id now state.tables = some message := by
  by_cases acts : label.actor = some pid
  · cases moves with
    | unguarded => exact Or.inl about
    | kept | renewed | released | delivered => cases acts
    | @selected _ D id now _ _ chosen =>
        cases acts
        rw [put_calls_self] at about
        cases about
        obtain ⟨_, rfl, _⟩ := eligible_spec chosen
        exact Or.inr ⟨D, now, rfl, chosen⟩
    | committed guarded =>
        cases acts
        simp only [sessionCommitted, put_calls_self] at about
        split at about
        · cases about
        · rw [guarded]
          exact Or.inl about
    | aborted =>
        cases acts
        simp [aborted, put, Call.message?] at about
    | upserted before | rechecked before | granted before | begun before | written before
    | rolledBack before | marked before | guarded before =>
        cases acts
        simp only [claimCommitted, put_calls_self, Bool.false_eq_true, if_false] at about
        rw [before]
        exact Or.inl about
    | _ =>
        cases acts
        simp only [claimCommitted, put_calls_self, if_true] at about
        cases about
  · rw [moves_calls moves acts] at about
    exact Or.inl about

theorem moves_session (moves : Moves codec state label after) {session' : Session J W}
    (held : (after.calls pid).session? = some session') :
    (∃ session, (state.calls pid).session? = some session ∧
        session.Continues state.tables session') ∨
      ∃ message taken, label = .commitClaim pid ∧
        state.calls pid = .rechecked message taken false ∧
        after = state.claimCommitted pid message taken false ∧
        session' = ⟨message, leaseOf taken, [], none⟩ := by
  by_cases acts : label.actor = some pid
  · cases moves with
    | unguarded => exact Or.inl ⟨session', held, .same session'.writes⟩
    | kept | renewed | released | delivered => cases acts
    | @granted _ message taken rechecked =>
        cases acts
        simp only [claimCommitted, put_calls_self, Bool.false_eq_true, if_false] at held
        cases held
        exact Or.inr ⟨message, taken, rfl, rechecked, rfl, rfl⟩
    | @committed _ session guarded =>
        cases acts
        simp only [sessionCommitted, put_calls_self] at held
        split at held
        · cases held
        · cases held
          exact Or.inl ⟨session, session_of_guarded guarded, .same []⟩
    | aborted =>
        cases acts
        simp [aborted, put, Call.session?] at held
    | @begun _ _ session before | @written _ _ session before | @rolledBack _ session before
    | @marked _ _ session before | @guarded _ _ session before =>
        cases acts
        rw [put_calls_self] at held
        have same := Option.some.inj held
        subst same
        refine Or.inl ⟨session, by rw [before]; rfl, ?_⟩
        first | exact .marked _ | exact .same _
    | _ =>
        cases acts
        simp only [claimCommitted, put_calls_self, if_true] at held
        cases held
  · rw [moves_calls moves acts] at held
    exact Or.inl ⟨session', held, .same session'.writes⟩

/-- Only a session's commit changes the inbox, the business writes or the list of commits. -/
theorem moves_commit (moves : Moves codec state label after) :
    (after.tables.inbox = state.tables.inbox ∧ after.business = state.business ∧
        after.commits = state.commits) ∨
      ∃ actor session, label = .commit actor ∧ state.calls actor = .guarded session ∧
        after = state.sessionCommitted actor session := by
  cases moves with
  | committed guarded => exact Or.inr ⟨_, _, rfl, guarded, rfl⟩
  | refused | granted => exact Or.inl ⟨inbox_claimCommitted _ _ _, rfl, rfl⟩
  | renewed _ _ result =>
      obtain ⟨_, rfl⟩ := renew_ok result
      exact Or.inl ⟨rfl, rfl, rfl⟩
  | @delivered op _ outside =>
      exact Or.inl ⟨(perform_frame codec op state.tables).inbox outside, rfl, rfl⟩
  | _ => exact Or.inl ⟨rfl, rfl, rfl⟩

theorem moves_granted (moves : Moves codec state label after) {lease : ConsumerLease}
    (member : lease ∈ state.granted) : lease ∈ after.granted := by
  cases moves with
  | granted => exact List.mem_append_left _ member
  | _ => exact member

theorem moves_ended (moves : Moves codec state label after) (ended : state.calls pid = .ended) :
    after.calls pid = .ended := by
  by_cases acts : label.actor = some pid
  · cases moves with
    | unguarded => exact ended
    | kept | renewed | released | delivered => cases acts
    | aborted running => cases acts; exact absurd ended running
    | _ => cases acts; simp_all
  · rw [moves_calls moves acts, ended]

theorem step_carried (sound : Sound state) (moves : Moves codec state label after) (pid : Nat)
    (message : OutboxMessage J) (about : (after.calls pid).message? = some message) :
    Carries message.intent after.tables := by
  rcases moves_message moves about with old | ⟨_, _, _, chosen⟩
  · exact moves_carries (sound.carried pid message old) moves
  · exact moves_carries (carries_of_mem (eligible_spec chosen).1) moves

theorem step_alone (sound : Sound state) (moves : Moves codec state label after) (pid pid' : Nat)
    (session session' : Session J W) (left : (after.calls pid).session? = some session)
    (right : (after.calls pid').session? = some session')
    (same : session.lease = session'.lease) : pid = pid' := by
  have continued {old session : Session J W} (continues : old.Continues state.tables session) :
      session.lease = old.lease := by cases continues <;> rfl
  rcases moves_session moves left with
    ⟨old, held, continues⟩ | ⟨message, taken, acts, rechecked, _, rfl⟩
  · rw [continued continues] at same
    rcases moves_session moves right with
      ⟨old', held', continues'⟩ | ⟨message, taken, _, rechecked, _, rfl⟩
    · exact sound.alone _ _ _ _ held held' (same.trans (continued continues'))
    · exact absurd same.symm (taken_fresh sound rechecked (sound.attached _ _ held).granted)
  · rcases moves_session moves right with
      ⟨old', held', continues'⟩ | ⟨message', taken', acts', _, _, rfl⟩
    · rw [continued continues'] at same
      exact absurd same (taken_fresh sound rechecked (sound.attached _ _ held').granted)
    · rw [acts] at acts'
      injection acts'

theorem moves_acknowledged (moves : Moves codec state label after) {consumer : String} {id : Uuid}
    (done : state.tables.acknowledged consumer id = true) :
    after.tables.acknowledged consumer id = true := by
  rcases moves_commit moves with ⟨inbox, _, _⟩ | ⟨actor, session, _, _, rfl⟩
  · rw [Tables.acknowledged_congr inbox, done]
  · exact (acknowledged_sessionCommitted session _ _).mpr (Or.inl done)

theorem step_replaced (sound : Sound state) (moves : Moves codec state label after)
    {session : Session J W} (held : (state.calls pid).session? = some session)
    (running : after.calls pid ≠ .ended)
    (done : after.tables.acknowledged session.message.topic session.message.id = true) :
    after.tables.occupant session.lease.resourceKey ≠ some session.lease := by
  have attached := sound.attached pid session held
  rcases moves_occupant moves session.lease.resourceKey with
    same | ⟨actor, message, taken, refused, _, rechecked, rfl, here⟩
  · rw [same]
    rcases moves_commit moves with ⟨inbox, _, _⟩ | ⟨actor, committing, _, guarded, rfl⟩
    · rw [Tables.acknowledged_congr inbox] at done
      exact attached.replaced done
    · intro occupies
      cases before : state.tables.acknowledged session.message.topic session.message.id with
      | true => exact attached.replaced before occupies
      | false =>
          have carried := sound.carried pid session.message (Call.message_of_session held)
          obtain ⟨resource, marker⟩ := marker_is_own sound guarded carried before done
          have fits := sound.fenced.fits guarded
          rw [attached.resourceKey, resource, fits.2] at occupies
          -- Both hold the lease the row stands for, so the committing call is this one.
          have own := sound.alone actor pid committing session (session_of_guarded guarded) held
            (Option.some.inj occupies)
          subst own
          exact running (by simp [sessionCommitted, marker])
  · rw [occupant_claimCommitted, if_pos here]
    exact fun same => taken_fresh sound rechecked attached.granted (Option.some.inj same)

theorem step_attached (sound : Sound state) (moves : Moves codec state label after) (pid : Nat)
    (session' : Session J W) (held' : (after.calls pid).session? = some session') :
    Attached after session' := by
  rcases moves_session moves held' with
    ⟨session, held, continues⟩ | ⟨message, taken, _, rechecked, rfl, rfl⟩
  · have attached := sound.attached pid session held
    have granted := moves_granted moves attached.granted
    have replaced := step_replaced sound moves held fun ended => by
      rw [ended] at held'
      cases held'
    cases continues with
    | same writes =>
        exact ⟨granted, attached.messageId, attached.resourceKey, attached.keyed,
          fun row receipt => moves_acknowledged moves (attached.conflict row receipt), replaced⟩
    | marked now =>
        refine ⟨granted, attached.messageId, attached.resourceKey, ?_, ?_, replaced⟩
        · intro fresh row receipt
          cases receipt
          rfl
        · intro row receipt
          have taken := (Prod.mk.inj (Option.some.inj receipt)).1
          exact moves_acknowledged moves (by simpa using taken)
  · have fits := sound.fenced.fits rechecked
    have unmarked := sound.unmarked pid message taken rechecked
    refine ⟨List.mem_append_right _ List.mem_cons_self, fits.2.2.1, fits.2.1, nofun, nofun, ?_⟩
    intro done
    rw [Tables.acknowledged_congr (inbox_claimCommitted message taken false), unmarked] at done
    cases done

theorem moves_rechecked (moves : Moves codec state label after) {message : OutboxMessage J}
    {taken : Execution} {done : Bool} (reached : after.calls pid = .rechecked message taken done) :
    (label.actor ≠ some pid ∧ state.calls pid = .rechecked message taken done) ∨
      (label = .recheck pid ∧ done = state.tables.acknowledged message.topic message.id) := by
  by_cases acts : label.actor = some pid
  · cases moves with
    | rechecked =>
        cases acts
        rw [put_calls_self] at reached
        cases reached
        exact Or.inr ⟨rfl, rfl⟩
    | unguarded executing =>
        cases acts
        rw [executing] at reached
        cases reached
    | kept | renewed | released | delivered => cases acts
    | aborted =>
        cases acts
        simp [aborted, put] at reached
    | committed =>
        cases acts
        simp only [sessionCommitted, put_calls_self] at reached
        split at reached <;> cases reached
    | _ =>
        cases acts
        simp only [claimCommitted, put_calls_self, if_true, Bool.false_eq_true, if_false] at reached
        cases reached
  · rw [moves_calls moves acts] at reached
    exact Or.inl ⟨acts, reached⟩

theorem step_unmarked (sound : Sound state) (moves : Moves codec state label after) (pid : Nat)
    (message : OutboxMessage J) (taken : Execution)
    (reached : after.calls pid = .rechecked message taken false) :
    after.tables.acknowledged message.topic message.id = false := by
  rcases moves_commit moves with ⟨inbox, _, _⟩ | ⟨actor, session, rfl, guarded, rfl⟩
  · rw [Tables.acknowledged_congr inbox]
    rcases moves_rechecked moves reached with ⟨_, rechecked⟩ | ⟨_, unmarked⟩
    · exact sound.unmarked pid message taken rechecked
    · exact unmarked.symm
  · rcases moves_rechecked moves reached with ⟨other, rechecked⟩ | ⟨impossible, _⟩
    · refine Bool.eq_false_iff.mpr fun done => ?_
      have carried := sound.carried pid message (by rw [rechecked]; rfl)
      have resource := (marker_is_own sound guarded carried
        (sound.unmarked pid message taken rechecked) done).1
      -- The commit would need the lock that the open claim holds.
      have claims := sound.fenced.fits rechecked
      have commits := sound.fenced.fits guarded
      have locked := claims.1
      rw [claims.2.1, resource, commits.1] at locked
      exact other locked
    · cases impossible

theorem recorded_moves {commit : Commit W} {fresh : Bool} {row : InboxMessage}
    (recorded : Recorded state commit fresh row) (moves : Moves codec state label after) :
    Recorded after commit fresh row := by
  obtain ⟨intent, carried, same⟩ := recorded.topic
  exact ⟨recorded.fresh, recorded.messageId, moves_acknowledged moves recorded.acknowledged,
    ⟨intent, moves_carries carried moves, same⟩, moves_ended moves recorded.ended⟩

theorem step_recorded (sound : Sound state) (moves : Moves codec state label after)
    (commit : Commit W) (member : commit ∈ after.commits) (fresh : Bool) (row : InboxMessage)
    (receipt : commit.receipt = some (fresh, row)) : Recorded after commit fresh row := by
  rcases moves_commit moves with ⟨_, _, commits⟩ | ⟨actor, session, rfl, guarded, rfl⟩
  · rw [commits] at member
    exact recorded_moves (sound.recorded commit member fresh row receipt) moves
  · rcases List.mem_append.mp member with old | new
    · exact recorded_moves (sound.recorded commit old fresh row receipt) moves
    · have single := List.mem_singleton.mp new
      subst single
      change session.receipt = some (fresh, row) at receipt
      have attached := sound.attached_guarded guarded
      have carried := sound.carried_guarded guarded
      obtain ⟨rfl, keyed⟩ := guarded_receipt sound guarded receipt
      have keyed := Prod.mk.inj keyed
      exact {
        fresh := rfl
        messageId := keyed.2.trans attached.messageId.symm
        acknowledged := (acknowledged_sessionCommitted session _ _).mpr
          (Or.inr ⟨row, receipt, rfl⟩)
        topic := ⟨session.message.intent, moves_carries carried moves, keyed.2.symm, keyed.1.symm⟩
        ended := by simp [sessionCommitted, receipt] }

theorem step_sound (sound : Sound state) (step : Step codec state label after) : Sound after where
  fenced := step_fenced sound.fenced step
  valid resource := by
    rcases register_step resource sound.fenced step with same | ⟨move, moved⟩
    · rw [same]
      exact sound.valid resource
    · exact Fence.step_valid (sound.valid resource) moved
  carried := step_carried sound (step_moves step)
  attached := step_attached sound (step_moves step)
  alone := step_alone sound (step_moves step)
  unmarked := step_unmarked sound (step_moves step)
  recorded := step_recorded sound (step_moves step)

end Consumers

end TplBackend
