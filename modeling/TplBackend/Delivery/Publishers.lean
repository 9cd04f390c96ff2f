import TplBackend.Delivery.Effects
import TplBackend.Delivery.Intent

namespace TplBackend

open Keyed Transition SqlOutboxRepository DurableDelivery

variable {J : Type}

/-- The rows `claim_delivery` returned to its caller. -/
def Reply.claims : Reply J → List (OutboxMessage J)
  | .claimed (some m) => [m]
  | _ => []

/-- Publishers around the tables; `claims` are the rows returned to them, oldest first. -/
structure Publishers (J : Type) where
  tables : Tables J
  claims : List (OutboxMessage J)

namespace Publishers

def start : Publishers J := ⟨Tables.empty, []⟩

def Admits (before : Publishers J) : Op J → Prop
  | .claimDelivery _ owner _ _ => ∀ c ∈ before.claims, c.leaseOwner ≠ some owner
  | .finishDelivery _ message _ _ => message ∈ before.claims
  | .claimBatch .. | .markPublished .. | .markFailed .. => False
  | _ => True

def next [DecidableEq J] (codec : Codec J) (before : Publishers J) (op : Op J) : Publishers J :=
  ⟨(perform codec op before.tables).2, before.claims ++ (perform codec op before.tables).1.claims⟩

def Step [DecidableEq J] (codec : Codec J) (before : Publishers J) (op : Op J)
    (after : Publishers J) : Prop :=
  before.Admits op ∧ after = before.next codec op

def reply [DecidableEq J] (codec : Codec J) (event : Event (Publishers J) (Op J)) : Reply J :=
  (perform codec event.label event.before.tables).1

structure Valid (state : Publishers J) : Prop where
  owned : ∀ m ∈ state.tables.outbox, ∀ owner, m.leaseOwner = some owner → m ∈ state.claims
  delivering : ∀ c ∈ state.claims, c.status = .delivering ∧ ∃ owner, c.leaseOwner = some owner
  distinct : ∀ c ∈ state.claims, ∀ c' ∈ state.claims, c.leaseOwner = c'.leaseOwner → c = c'

/-- The lease of a claim is on no row any more. -/
def Superseded (claim : OutboxMessage J) (state : Publishers J) : Prop :=
  claim ∈ state.claims ∧ ∀ m ∈ state.tables.outbox, m.leaseOwner ≠ claim.leaseOwner

theorem start_valid : Valid (start : Publishers J) where
  owned := fun m member => absurd member (Table.not_mem_empty m)
  delivering := by simp [start]
  distinct := by simp [start]

variable [DecidableEq J] {codec : Codec J} {before after state : Publishers J} {op : Op J}
variable {s : Tables J} {claim message : OutboxMessage J}

theorem perform_claimDelivery {P : DurableDelivery} {locked : Uuid → Bool} {now : Clock}
    {m : OutboxMessage J} (owner : String) (chosen : P.nextCandidate codec locked now s = some m) :
    perform codec (.claimDelivery P owner locked now) s =
      (.claimed (some (m.claimed owner P.leaseSeconds now)), { s with
        outbox := s.outbox.update (fun row => row.id = m.id)
          (OutboxMessage.claimed owner P.leaseSeconds now)
          (OutboxMessage.claimed_id owner P.leaseSeconds now) }) := by
  have topics : P.topics.keys ≠ [] := by
    intro none_
    have passed := (nextCandidate_spec chosen).2.1
    simp [candidate, none_] at passed
  simp [perform, claimDelivery, topics, chosen]

theorem claims_claimDelivery {P : DurableDelivery} {locked : Uuid → Bool} {now : Clock}
    {m : OutboxMessage J} (owner : String) (chosen : P.nextCandidate codec locked now s = some m) :
    (perform codec (.claimDelivery P owner locked now) s).1.claims =
      [m.claimed owner P.leaseSeconds now] := by
  rw [perform_claimDelivery _ chosen]
  rfl

theorem mem_claims (member : claim ∈ (perform codec op s).1.claims) :
    ∃ P owner locked now m, op = .claimDelivery P owner locked now ∧
      P.nextCandidate codec locked now s = some m ∧ claim = m.claimed owner P.leaseSeconds now := by
  cases op with
  | claimDelivery P owner locked now =>
      cases chosen : P.nextCandidate codec locked now s with
      | none =>
          simp only [perform, claimDelivery, chosen] at member
          split at member <;> simp [Reply.claims] at member
      | some m =>
          rw [claims_claimDelivery _ chosen, List.mem_singleton] at member
          exact ⟨P, owner, locked, now, m, rfl, chosen, member⟩
  | reconcile | claimExecution | release => simp [perform, Reply.claims] at member
  | enqueue key event now =>
      cases result : enqueue codec key event now s <;>
        simp [perform, settle, result, Reply.claims] at member
  | finishDelivery P message error now =>
      cases result : P.finishDelivery message error now s <;>
        simp [perform, settle, result, Reply.claims] at member
  | replay P key now =>
      cases result : P.replay key now s <;> simp [perform, settle, result, Reply.claims] at member
  | claimBatch owner limit leaseSeconds locked now clock =>
      cases result : claimBatch codec owner limit leaseSeconds locked now clock s <;>
        simp [perform, settle, result, Reply.claims] at member
  | markPublished key owner now clock =>
      cases result : markPublished key owner now clock s <;>
        simp [perform, settle, result, Reply.claims] at member
  | markFailed key owner error retrySeconds now clock =>
      cases result : markFailed key owner error retrySeconds now clock s <;>
        simp [perform, settle, result, Reply.claims] at member
  | renew D lease now =>
      cases result : D.renew lease now s <;> simp [perform, settle, result, Reply.claims] at member
  | acknowledge lease topic now =>
      cases result : DurableTasks.acknowledge lease topic now s <;>
        simp [perform, settle, result, Reply.claims] at member

theorem step_owner (step : Step codec before op after) {m' : OutboxMessage J} {owner : String}
    (member : m' ∈ after.tables.outbox) (leased : m'.leaseOwner = some owner) :
    (∃ m ∈ before.tables.outbox, m.leaseOwner = some owner ∧
        (m' = m ∨ (m.status = .published ∧ m'.id = m.id))) ∨
      m' ∈ (perform codec op before.tables).1.claims := by
  obtain ⟨admitted, rfl⟩ := step
  rcases perform_origin member with ⟨m, present, keyed, rewrite⟩ | ⟨_, _, _, _, _, _, new⟩
  · cases rewrite with
    | same => exact Or.inl ⟨m', present, leased, Or.inl rfl⟩
    | claimed chosen =>
        rw [claims_claimDelivery _ chosen]
        exact Or.inr (List.mem_singleton_self _)
    | batched => exact admitted.elim
    | finished => cases leased
    | requeued selected =>
        exact Or.inl ⟨m, present, leased, Or.inr ⟨unacknowledged_published selected.2.choose_spec.2,
          rfl⟩⟩
    | replayed => cases leased
    | published => cases leased
    | failed => cases leased
  · rw [new] at leased
    cases leased

theorem step_valid (valid : Valid before) (step : Step codec before op after) : Valid after := by
  have claims : after.claims = before.claims ++ (perform codec op before.tables).1.claims := by
    rw [step.2]
    rfl
  have owners : ∀ c ∈ (perform codec op before.tables).1.claims, ∀ c' ∈ before.claims,
      c'.leaseOwner ≠ c.leaseOwner := by
    intro c new c' old
    obtain ⟨P, owner, locked, now, m, rfl, _, rfl⟩ := mem_claims new
    exact step.1 c' old
  refine ⟨?_, ?_, ?_⟩
  · intro m' member owner leased
    rw [claims, List.mem_append]
    rcases step_owner step member leased with ⟨m, present, held, same | ⟨published, _⟩⟩ | new
    · exact Or.inl (same ▸ valid.owned m present owner held)
    · have claimed := (valid.delivering m (valid.owned m present owner held)).1
      rw [published] at claimed
      cases claimed
    · exact Or.inr new
  · intro c member
    rcases List.mem_append.mp (claims ▸ member) with old | new
    · exact valid.delivering c old
    · obtain ⟨P, owner, locked, now, m, _, _, rfl⟩ := mem_claims new
      exact ⟨rfl, owner, rfl⟩
  · intro c member c' member' same
    rcases List.mem_append.mp (claims ▸ member) with old | new <;>
      rcases List.mem_append.mp (claims ▸ member') with old' | new'
    · exact valid.distinct c old c' old' same
    · exact absurd same (owners c' new' c old)
    · exact absurd same.symm (owners c new c' old')
    · obtain ⟨P, owner, locked, now, m, rfl, chosen, rfl⟩ := mem_claims new
      rw [claims_claimDelivery _ chosen, List.mem_singleton] at new'
      exact new'.symm

theorem run_valid {history : List (Event (Publishers J) (Op J))}
    (run : Run (Step codec) start history state) : Valid state :=
  run.invariant start_valid fun _ _ _ valid step => step_valid valid step

theorem step_superseded (valid : Valid before) (old : Superseded claim before)
    (step : Step codec before op after) : Superseded claim after := by
  refine ⟨by rw [step.2]; exact List.mem_append_left _ old.1, ?_⟩
  intro m member same
  obtain ⟨owner, held⟩ := (valid.delivering claim old.1).2
  rw [held] at same
  rcases step_owner step member same with ⟨m, present, leased, _⟩ | new
  · exact old.2 m present (leased.trans held.symm)
  · obtain ⟨P, drawn, locked, now, m, rfl, _, rfl⟩ := mem_claims new
    exact step.1 claim old.1 (held.trans same.symm)

theorem step_claims (member : claim ∈ before.claims) (step : Step codec before op after) :
    claim ∈ after.claims := by
  rw [step.2]
  exact List.mem_append_left _ member

omit [DecidableEq J] in
/-- It is enough to look at the row of the message itself. -/
theorem superseded_of_row (valid : Valid state) (member : claim ∈ state.claims)
    (lost : ∀ m ∈ state.tables.outbox, m.id = claim.id → m.leaseOwner ≠ claim.leaseOwner) :
    Superseded claim state := by
  refine ⟨member, fun m present same => ?_⟩
  obtain ⟨owner, held⟩ := (valid.delivering claim member).2
  have equal := valid.distinct m (valid.owned m present owner (same.trans held)) claim member same
  exact lost m present (congrArg OutboxMessage.id equal) same

section Finish

variable {P : DurableDelivery} {error : Option String} {now : Clock} {s' : Tables J}

theorem finish_cases (codec : Codec J) (P : DurableDelivery) (message : OutboxMessage J)
    (error : Option String) (now : Clock) (s : Tables J) :
    (∃ s', P.finishDelivery message error now s = .ok s' ∧
        perform codec (.finishDelivery P message error now) s = (.done, s')) ∨
      perform codec (.finishDelivery P message error now) s =
        (.raised (.deliveryLeaseLost "delivery lease lost"), s) := by
  cases result : P.finishDelivery message error now s with
  | ok s' => exact Or.inl ⟨s', rfl, by simp [perform, settle, result]⟩
  | error raised =>
      obtain ⟨rfl, _⟩ := finishDelivery_error result
      exact Or.inr (by simp [perform, settle, result])

structure Recorded (P : DurableDelivery) (message : OutboxMessage J) (error : Option String)
    (now : Clock) (s s' : Tables J) : Prop where
  latest : s.outbox.find? message.id = some message
  row : s'.outbox.find? message.id = some (finished message.attemptCount error now message)
  otherRows : ∀ id, id ≠ message.id → s'.outbox.find? id = s.outbox.find? id
  letter : s'.deadLetters.find? message.id =
    if truthy error ∧ P.maxAttempts ≤ message.attemptCount then
      some ⟨message.id, errorCode (error.getD ""), now, none⟩
    else s.deadLetters.find? message.id
  otherLetters : ∀ id, id ≠ message.id → s'.deadLetters.find? id = s.deadLetters.find? id
  inbox : s'.inbox = s.inbox
  executions : s'.executions = s.executions

omit [DecidableEq J] in
theorem find?_deadLetter (id : Uuid) (text : String) (now : Clock) (s : Tables J) (other : Uuid) :
    (deadLetter id text now s).deadLetters.find? other =
      if id = other then some ⟨id, errorCode text, now, none⟩ else s.deadLetters.find? other := by
  rw [deadLetter, Table.find?_upsert]
  by_cases same : id = other
  · rw [if_pos same, if_pos same]
    cases present : s.deadLetters.find? other with
    | none => rfl
    | some d =>
        have keyed : d.messageId = id := (Table.find?_eq_some.mp present).2.trans same.symm
        simp [keyed]
  · rw [if_neg same, if_neg same]

omit [DecidableEq J] in
theorem finish_recorded (valid : Valid before) (member : message ∈ before.claims)
    (result : P.finishDelivery message error now before.tables = .ok s') :
    Recorded P message error now before.tables s' := by
  obtain ⟨⟨m, present, held⟩, outbox, inbox, executions, letters⟩ := finishDelivery_ok result
  obtain ⟨_, _, ⟨owner, drawn, leased⟩, _⟩ := (m.heldBy_iff _ _ _).mp held
  -- The owner on the row is that of the claim, so the row still is what the claim returned.
  obtain rfl := valid.distinct m (valid.owned m present owner leased) message member
    (leased.trans drawn.symm)
  have latest := Table.find?_of_mem present
  have rows (id : Uuid) := congrArg (Table.find? · id) outbox
  simp only [Table.find?_update] at rows
  refine ⟨latest, ?_, ?_, ?_, ?_, inbox, executions⟩
  · rw [rows, latest, Option.map_some, if_pos held]
  · intro id apart
    rw [rows]
    cases other : before.tables.outbox.find? id with
    | none => rfl
    | some row =>
        have free : row.heldBy m.id m.leaseOwner now = false := by
          rw [← Bool.not_eq_true]
          intro holds
          exact apart ((Table.find?_eq_some.mp other).2.symm.trans ((row.heldBy_iff _ _ _).mp holds).1)
        simp [free]
  · rw [letters]
    split
    · rw [find?_deadLetter, if_pos rfl]
    · rfl
  · intro id apart
    rw [letters]
    split
    · rw [find?_deadLetter, if_neg (Ne.symm apart)]
    · rfl

end Finish

def Finishes (codec : Codec J) (claim : OutboxMessage J) (event : Event (Publishers J) (Op J)) :
    Prop :=
  ∃ P error now, event.label = .finishDelivery P claim error now ∧ reply codec event = .done

/-- The event grants a claim or a replay of the message, or finishes the claim itself. -/
def Supersedes (codec : Codec J) (claim : OutboxMessage J) (event : Event (Publishers J) (Op J)) :
    Prop :=
  (∃ later ∈ (reply codec event).claims, later.id = claim.id) ∨
    (∃ P now, event.label = .replay P claim.id now ∧ reply codec event = .done) ∨
    Finishes codec claim event

theorem finishes_held (step : Step codec before op after)
    (finishes : Finishes codec claim ⟨before, op, after⟩) :
    ∃ m ∈ before.tables.outbox, m.leaseOwner = claim.leaseOwner := by
  obtain ⟨P, error, now, rfl, done⟩ := finishes
  rcases finish_cases codec P claim error now before.tables with ⟨s', result, _⟩ | lost
  · obtain ⟨⟨m, present, held⟩, _⟩ := finishDelivery_ok result
    obtain ⟨_, _, ⟨owner, drawn, leased⟩, _⟩ := (m.heldBy_iff _ _ _).mp held
    exact ⟨m, present, leased.trans drawn.symm⟩
  · rw [reply, lost] at done
    cases done

theorem step_supersedes (valid : Valid before) (step : Step codec before op after)
    (member : claim ∈ before.claims) (supersedes : Supersedes codec claim ⟨before, op, after⟩) :
    Superseded claim after := by
  refine superseded_of_row (step_valid valid step) (step_claims member step) ?_
  obtain ⟨owner, drawn⟩ := (valid.delivering claim member).2
  obtain ⟨admitted, rfl⟩ := step
  intro m' present keyed
  simp only [next] at present
  rcases supersedes with ⟨later, new, again⟩ | ⟨P, now, rfl, done⟩ | ⟨P, error, now, rfl, done⟩
  · obtain ⟨P, fresh, locked, now, m, rfl, chosen, rfl⟩ := mem_claims new
    rw [perform_claimDelivery _ chosen] at present
    simp only at present
    obtain ⟨old, _, rfl⟩ := Table.mem_update.mp present
    by_cases same : old.id = m.id
    · rw [if_pos (decide_eq_true same)]
      exact Ne.symm (admitted claim member)
    · rw [if_neg (by simp [same])] at keyed
      exact absurd (keyed.trans again.symm) same
  · cases result : P.replay claim.id now before.tables with
    | error raised => simp [reply, perform, settle, result] at done
    | ok s' =>
        obtain ⟨_, _, rfl⟩ := replay_ok result
        simp only [perform, settle, result, bind_pure_comp, Except.map_ok] at present
        obtain ⟨old, _, rfl⟩ := Table.mem_update.mp present
        rw [drawn]
        by_cases same : old.id = claim.id
        · simp [same, replayed]
        · rw [if_neg (by simp [same])] at keyed
          exact absurd keyed same
  · rcases finish_cases codec P claim error now before.tables with ⟨s', result, written⟩ | lost
    · have row := (finish_recorded valid member result).row
      rw [written] at present
      rw [← keyed, Table.find?_of_mem present, Option.some.injEq] at row
      rw [row, drawn]
      exact Option.some_ne_none owner |>.symm
    · rw [reply, lost] at done
      cases done

/-- A claim is finished by its own publisher before anything supersedes it, what that writes is
about this claim alone, and a publisher that lost its lease changes nothing. -/
theorem publisher_lease_ownership {history : List (Event (Publishers J) (Op J))}
    (run : Run (Step codec) start history state) :
    (∀ earlier granted middle finish later,
      history = earlier ++ granted :: (middle ++ finish :: later) →
      ∀ message ∈ (reply codec granted).claims, Finishes codec message finish →
        ∀ event ∈ middle, ¬ Supersedes codec message event) ∧
    ∀ event ∈ history, ∀ P message error now, event.label = .finishDelivery P message error now →
      (reply codec event = .done ∧
        Recorded P message error now event.before.tables event.after.tables) ∨
      (reply codec event = .raised (.deliveryLeaseLost "delivery lease lost") ∧
        event.after.tables = event.before.tables) := by
  constructor
  · rintro earlier granted middle finish later rfl message claimed finishes event within supersedes
    obtain ⟨first, second, rfl⟩ := List.append_of_mem within
    have whole : earlier ++ granted :: (first ++ event :: second ++ finish :: later) =
        (earlier ++ granted :: first ++ event :: second) ++ finish :: later := by simp
    rw [whole] at run
    obtain ⟨before, step⟩ := run.at_event
    obtain ⟨until_, superseding⟩ := before.at_event
    -- The claim is known from its grant on, so the superseding event finds it among the claims.
    have granting : Step codec granted.before granted.label granted.after := by
      rw [List.append_assoc, List.cons_append] at before
      exact before.at_event.2
    have handed : message ∈ granted.after.claims := by
      rw [granting.2]
      exact List.mem_append_right _ claimed
    have keeps (before : Publishers J) (op : Op J) (after : Publishers J)
        (member : message ∈ before.claims) (step : Step codec before op after) :
        message ∈ after.claims := step_claims member step
    have known := Run.stable keeps until_ handed
    have lost := step_supersedes (run_valid until_) superseding known supersedes
    have stays (before : Publishers J) (op : Op J) (after : Publishers J)
        (both : Valid before ∧ Superseded message before) (step : Step codec before op after) :
        Valid after ∧ Superseded message after :=
      ⟨step_valid both.1 step, step_superseded both.1 both.2 step⟩
    have still := Run.stable stays before ⟨step_valid (run_valid until_) superseding, lost⟩
    obtain ⟨m, present, same⟩ := finishes_held step finishes
    exact still.2.2 m present same
  · intro event occurred P message error now finishing
    obtain ⟨_, _, _, before, step⟩ := run.of_mem occurred
    obtain ⟨admitted, after⟩ := step
    have tables : event.after.tables = (perform codec event.label event.before.tables).2 := by
      rw [after]
      rfl
    rw [reply, tables]
    rw [finishing] at admitted ⊢
    rcases finish_cases codec P message error now event.before.tables with
      ⟨s', result, written⟩ | lost
    · rw [written]
      exact Or.inl ⟨rfl, finish_recorded (run_valid before) admitted result⟩
    · rw [lost]
      exact Or.inr ⟨rfl, rfl⟩

/-- A publisher that loses its lease to a second claim, which then publishes. -/
def lateFinish : List (Op Unit) :=
  let row := newRow sampleCodec 7 (sampleEvent none) 0
  [.enqueue 7 (sampleEvent none) 0,
    .claimDelivery samplePolicy "first" (fun _ => false) 1000000,
    .claimDelivery samplePolicy "second" (fun _ => false) 62000000,
    .finishDelivery samplePolicy (row.claimed "first" 60 1000000) none 63000000,
    .finishDelivery samplePolicy
      ((row.claimed "first" 60 1000000).claimed "second" 60 62000000) none 64000000]

theorem lateFinish_run : Run (Step sampleCodec) start
    (trace (next sampleCodec) start lateFinish) (lateFinish.foldl (next sampleCodec) start) := by
  refine Run.of_trace fun event member => ⟨?_, rfl⟩
  simp only [lateFinish, trace, List.mem_cons, List.not_mem_nil, or_false] at member
  rcases member with rfl | rfl | rfl | rfl | rfl
  · trivial
  · change ∀ c ∈ (_ : List (OutboxMessage Unit)), c.leaseOwner ≠ some "first"
    decide
  · change ∀ c ∈ (_ : List (OutboxMessage Unit)), c.leaseOwner ≠ some "second"
    decide
  · exact List.Mem.head _
  · exact List.Mem.tail _ (List.Mem.head _)

theorem publisher_lease_ownership_late :
    (lateFinish.foldl (next sampleCodec) start).tables.outbox.rows.map OutboxMessage.publishedAt =
      [some ((64000000 : Clock) : Timestamp)] ∧
    ∀ event ∈ trace (next sampleCodec) start lateFinish, ∀ P message error now,
      event.label = .finishDelivery P message error now →
        (reply sampleCodec event = .done ∧
          Recorded P message error now event.before.tables event.after.tables) ∨
        (reply sampleCodec event = .raised (.deliveryLeaseLost "delivery lease lost") ∧
          event.after.tables = event.before.tables) :=
  ⟨by decide, (publisher_lease_ownership lateFinish_run).2⟩

end Publishers

end TplBackend
