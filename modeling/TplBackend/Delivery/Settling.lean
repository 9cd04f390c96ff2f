import Mathlib.Data.Int.ConditionallyCompleteOrder
import Mathlib.Tactic.IntervalCases
import TplBackend.Delivery.Progress
import TplBackend.Delivery.Pump
import TplBackend.Library.Endless

/-! What becomes of every message when pumps keep running. -/

namespace TplBackend

open Filter Keyed Transition SqlOutboxRepository DurableDelivery

variable {J : Type} {codec : Codec J} {P : DurableDelivery} {s : Tables J} {m : OutboxMessage J}

def standing (s : Tables J) (id : Uuid) : Option (OutboxMessage J) × Bool :=
  (s.outbox.find? id, s.quarantined id)

/-- The steps a row can still take before its next claim. -/
def Status.ahead : Status → Nat
  | .pending => 0
  | .published => 1
  | .delivering => 2

/-- What is left of the attempts of a row, each of which may pass through every status. -/
def OutboxMessage.effort (P : DurableDelivery) (m : OutboxMessage J) : Nat :=
  3 * (P.maxAttempts - m.attemptCount) + m.status.ahead

def effort (P : DurableDelivery) (stands : Option (OutboxMessage J) × Bool) : Nat :=
  stands.1.elim 0 (OutboxMessage.effort P) + if stands.2 then 0 else 1

section Effort

variable [DecidableEq J] {op : Op J}

omit [DecidableEq J] in
theorem Rewrite.effort {m' : OutboxMessage J} (rewrite : Rewrite codec s op m m')
    (pumped : op.pumped P) (noReplay : ∀ Q id now, op ≠ .replay Q id now)
    (within : m'.attemptCount ≤ P.maxAttempts) : m' = m ∨ m'.effort P < m.effort P := by
  cases rewrite with
  | same => exact Or.inl rfl
  | claimed =>
      right
      simp only [OutboxMessage.claimed] at within
      simp only [OutboxMessage.effort, OutboxMessage.claimed, Status.ahead]
      omega
  | batched => exact pumped.elim
  | @finished Q message error now m held =>
      right
      have delivering := ((m.heldBy_iff _ _ _).mp held).2.1
      cases failing : truthy error <;>
        simp [OutboxMessage.effort, DurableDelivery.finished, failing, delivering, Status.ahead]
  | requeued selected =>
      right
      obtain ⟨_, consumer, _, chosen⟩ := selected
      simp [OutboxMessage.effort, DurableDelivery.requeued, unacknowledged_published chosen,
        Status.ahead]
  | replayed => exact absurd rfl (noReplay _ _ _)
  | published => exact pumped.elim
  | failed => exact pumped.elim

omit [DecidableEq J] in
theorem effort_buried (row : Option (OutboxMessage J)) {held buried : Bool}
    (journal : held = true → buried = true) :
    effort P (row, buried) < effort P (row, held) ∨ (row, buried) = (row, held) := by
  cases held <;> cases buried <;> simp_all [effort]

theorem perform_effort (pumped : op.pumped P) (noEnqueue : ∀ id event now, op ≠ .enqueue id event now)
    (noReplay : ∀ Q id now, op ≠ .replay Q id now)
    (within : WithinLimit P (perform codec op s).2) (id : Uuid) :
    effort P (standing (perform codec op s).2 id) < effort P (standing s id) ∨
      standing (perform codec op s).2 id = standing s id := by
  have row := perform_row codec op s id
  have journal : s.quarantined id = true → (perform codec op s).2.quarantined id = true := by
    intro quarantined
    refine (perform_quarantined codec op s id).mpr (Or.inr ⟨quarantined, ?_⟩)
    rintro ⟨Q, now, replaying, _⟩
    exact noReplay Q id now replaying
  have bound (m' : OutboxMessage J) (found : (perform codec op s).2.outbox.find? id = some m') :=
    (within m' (Table.find?_eq_some.mp found).1).1
  rw [standing, standing]
  generalize (perform codec op s).2.outbox.find? id = new at row bound
  generalize s.outbox.find? id = old at row
  generalize (perform codec op s).2.quarantined id = buried at journal
  cases row with
  | absent => exact effort_buried none journal
  | inserted enqueues => exact absurd enqueues (noEnqueue _ _ _)
  | @rewritten m m' rewrite =>
      rcases rewrite.effort pumped noReplay (bound _ rfl) with rfl | less
      · exact effort_buried (some m') journal
      · left
        have journaled : (if buried = true then 0 else 1) ≤ if s.quarantined id = true then 0 else 1 := by
          split
          · exact Nat.zero_le _
          · rename_i free
            rw [if_neg fun held => free (journal held)]
        exact Nat.add_lt_add_of_lt_of_le less journaled

end Effort

section LongRun

theorem Passes.eventually {instant : Timestamp} (passes : Passes instant) :
    ∀ᶠ now : Clock in atTop, instant ≤ (now : Timestamp) := by
  obtain ⟨T, past⟩ := passes
  filter_upwards [eventually_ge_atTop T] with now late
  exact past.trans (Timestamp.coe_le_coe.mpr late)

theorem Recoverable.due (recoverable : Recoverable codec m) :
    ∀ᶠ now : Clock in atTop, notBeforeDue codec m.headers now = true := by
  obtain ⟨instant, header, passes⟩ := recoverable.scheduled
  filter_upwards [passes.eventually] with now past
  exact (notBeforeDue_iff codec m.headers now).mpr ⟨instant, header, past⟩

theorem Recoverable.ready (recoverable : Recoverable codec m) (waiting : m.status ≠ .published) :
    ∀ᶠ now : Clock in atTop, unowned m now = true := by
  cases status : m.status with
  | pending => simp [unowned, status]
  | published => exact absurd status waiting
  | delivering =>
      obtain ⟨expiry, lease, passes⟩ := recoverable.leased status
      filter_upwards [passes.eventually] with now past
      simp [unowned, status, OutboxMessage.leaseExpired, lease, past]

/-- A reading so late that nothing but the tables keeps the pumps from a message: waiting, it is a
candidate outside the journal; published, the consumer loop takes it up unless the consumer has
acknowledged it or works on it. -/
structure Ripe (codec : Codec J) (P : DurableDelivery) (m : OutboxMessage J) (now : Clock) : Prop where
  due : notBeforeDue codec m.headers now = true
  candidate : m.topic ∈ P.topics.keys → m.status ≠ .published → ∀ s : Tables J,
    s.quarantined m.id = false → P.candidate codec s now m = true
  unacknowledged : m.status = .published → ∀ (s : Tables J) (consumer : String),
    s.quarantined m.id = false → s.acknowledged consumer m.id = false →
    activeExecution s m now = false → P.unacknowledged activeExecution consumer s now m = true

theorem Recoverable.candidate (recoverable : Recoverable codec m) :
    ∀ᶠ now : Clock in atTop, m.topic ∈ P.topics.keys → m.status ≠ .published → ∀ s : Tables J,
      s.quarantined m.id = false → P.candidate codec s now m = true := by
  by_cases sent : m.status = .published
  · exact .of_forall fun now _ waiting => absurd sent waiting
  · filter_upwards [recoverable.available.eventually, recoverable.due, recoverable.ready sent]
      with now available due ready
    intro registered _ s free
    exact candidate_of_past registered free available due ready

theorem Recoverable.unacknowledged (recoverable : Recoverable codec m) :
    ∀ᶠ now : Clock in atTop, m.status = .published → ∀ (s : Tables J) (consumer : String),
      s.quarantined m.id = false → s.acknowledged consumer m.id = false →
      activeExecution s m now = false → P.unacknowledged activeExecution consumer s now m = true := by
  by_cases sent : m.status = .published
  · obtain ⟨at_, published, T, past⟩ := recoverable.recorded sent
    filter_upwards [eventually_ge_atTop (T + seconds P.leaseSeconds + 1)] with now late
    intro _ s consumer free unreceipted inactive
    have earlier : T < now - seconds P.leaseSeconds :=
      Int.lt_sub_right_of_add_lt (Int.add_one_le_iff.mp late)
    have old : at_ < ((now - seconds P.leaseSeconds : Int) : Timestamp) :=
      past.trans_lt (Timestamp.coe_lt_coe.mpr earlier)
    simp [DurableDelivery.unacknowledged, sent, published, old, unreceipted, inactive, free]
  · exact .of_forall fun now published => absurd published sent

theorem Recoverable.ripe (recoverable : Recoverable codec m) (P : DurableDelivery) :
    ∀ᶠ now : Clock in atTop, Ripe codec P m now := by
  filter_upwards [recoverable.due, recoverable.candidate, recoverable.unacknowledged]
    with now due candidate unacknowledged
  exact ⟨due, candidate, unacknowledged⟩

theorem AllRecoverable.ripe (all : AllRecoverable codec s) (P : DurableDelivery) :
    ∃ T : Clock, ∀ now, T ≤ now → ∀ m ∈ s.outbox, Ripe codec P m now :=
  eventually_atTop.mp ((eventually_all_finite (List.finite_toSet s.outbox.rows)).mpr
    fun m member => (all.messages m member).ripe P)

end LongRun

section Moves

variable [DecidableEq J] {now : Clock}

theorem claim_moves (owner : String) (member : m ∈ s.outbox) (chosen : P.candidate codec s now m = true) :
    ∃ moved ∈ s.outbox, standing (perform codec (.claimDelivery P owner (fun _ => false) now) s).2
      moved.id ≠ standing s moved.id := by
  cases next : P.nextCandidate codec (fun _ => false) now s with
  | none =>
      rw [nextCandidate, List.head?_eq_none_iff] at next
      have candidate : m ∈ P.candidates codec (fun _ => false) now s :=
        mem_candidates.mpr ⟨member, chosen, rfl⟩
      have sorted := (List.perm_insertionSort OutboxMessage.claimOrder _).mem_iff.mpr candidate
      rw [next] at sorted
      cases sorted
  | some first =>
      refine ⟨first, (nextCandidate_spec next).1, ?_⟩
      intro same
      have counted := attempts_claimed owner next first.id
      have row := congrArg Prod.fst same
      simp only [standing] at row
      rw [attempts, attempts, row, if_pos rfl] at counted
      omega

theorem reconcile_moves {consumer : String} (member : m ∈ s.outbox)
    (required : P.Requires m.topic consumer) (free : s.quarantined m.id = false)
    (due : notBeforeDue codec m.headers now = true)
    (selected : P.unacknowledged activeExecution consumer s now m = true) :
    standing (perform codec (.reconcile P (fun _ => false) now) s).2 m.id ≠ standing s m.id := by
  intro same
  obtain ⟨row, journal⟩ := Prod.ext_iff.mp same
  simp only [standing] at row journal
  rcases reconcile_published member required free due selected with ⟨m', found, pending, _⟩ | buried
  · have kept : s.outbox.find? m.id = some m' := row.symm.trans found
    rw [Table.find?_of_mem member, Option.some.injEq] at kept
    rw [← kept, unacknowledged_published selected] at pending
    cases pending
  · have kept : s.quarantined m.id = true := journal.symm.trans buried
    rw [free] at kept
    cases kept

omit [DecidableEq J] in
theorem nextCandidate_journaled (journaled : ∀ m ∈ s.outbox, s.quarantined m.id = true) :
    P.nextCandidate codec (fun _ => false) now s = none := by
  have none : P.candidates codec (fun _ => false) now s = [] := by
    rw [candidates, List.filter_eq_nil_iff]
    intro m member
    simp [candidate, journaled m member]
  rw [nextCandidate, none]
  rfl

omit [DecidableEq J] in
theorem reconcile_journaled (journaled : ∀ m ∈ s.outbox, s.quarantined m.id = true) :
    P.reconcile (fun _ => false) now s = (0, s) := by
  have kept : P.buryExhausted (fun _ => false) now s = s := by
    have none : (s.outbox.rows.filter fun m => P.exhausted s now m && !false) = [] := by
      rw [List.filter_eq_nil_iff]
      intro m member
      simp [exhausted, journaled m member]
    rw [buryExhausted, none]
    rfl
  rw [reconcile, reconcileWith, kept]
  induction P.topics.entries with
  | nil => rfl
  | cons entry entries ih =>
      have idle : P.reconcileTopic activeExecution (fun _ => false) now (0, s) entry = (0, s) := by
        obtain ⟨topic, consumer⟩ := entry
        cases consumer with
        | none => rfl
        | some consumer =>
            have none : (s.outbox.rows.filter fun m => decide (m.topic = topic) &&
                P.unacknowledged activeExecution consumer s now m && !false) = [] := by
              rw [List.filter_eq_nil_iff]
              intro m member
              simp [unacknowledged, journaled m member]
            simp only [reconcileTopic]
            rw [none]
            rfl
      rw [List.foldl_cons, idle, ih]

end Moves

namespace Pumps

def Label.brings : Label J → Bool
  | .other (.enqueue ..) | .other (.replay ..) => true
  | _ => false

def Label.recoverable (codec : Codec J) : Label J → Prop
  | .other op => op.recoverable codec
  | _ => True

section Steps

variable [DecidableEq J] {limits : Nat → Nat} {before after state : Pumps J} {label : Label J}

omit [DecidableEq J] in
theorem operation_brings (closed : label.brings = false) {op : Op J}
    (performed : operation P before label = some op) :
    (∀ id event now, op ≠ .enqueue id event now) ∧ ∀ Q id now, op ≠ .replay Q id now := by
  cases label with
  | finish pid now =>
      simp only [operation] at performed
      split at performed
      · cases performed
        constructor
        · intro id event now same
          cases same
        · intro Q id now same
          cases same
      · cases performed
  | other op =>
      cases performed
      constructor
      · rintro id event now rfl
        cases closed
      · rintro Q id now rfl
        cases closed
  | publish => cases performed
  | die => cases performed
  | _ =>
      cases performed
      constructor
      · intro id event now same
        cases same
      · intro Q id now same
        cases same

theorem step_effort (valid : Valid before) (step : Step codec P limits before label after)
    (closed : label.brings = false) (within : WithinLimit P after.publishers.tables) (id : Uuid) :
    effort P (standing after.publishers.tables id) < effort P (standing before.publishers.tables id) ∨
      standing after.publishers.tables id = standing before.publishers.tables id := by
  have matched := step_publishers valid step
  split at matched
  · rename_i op performed
    obtain ⟨noEnqueue, noReplay⟩ := operation_brings closed performed
    obtain ⟨⟨_, published⟩, pumped⟩ := matched
    rw [published] at within ⊢
    exact perform_effort pumped noEnqueue noReplay within id
  · rw [matched]
    exact Or.inr rfl

theorem step_absent (valid : Valid before) (step : Step codec P limits before label after)
    (closed : label.brings = false) {id : Uuid}
    (absent : before.publishers.tables.outbox.find? id = none) :
    after.publishers.tables.outbox.find? id = none := by
  have matched := step_publishers valid step
  split at matched
  · rename_i op performed
    obtain ⟨noEnqueue, _⟩ := operation_brings closed performed
    obtain ⟨⟨_, published⟩, _⟩ := matched
    have row := perform_row codec op before.publishers.tables id
    rw [absent] at row
    rw [published, Publishers.next]
    generalize (perform codec op before.publishers.tables).2.outbox.find? id = new at row ⊢
    cases row with
    | absent => rfl
    | inserted enqueues => exact absurd enqueues (noEnqueue _ _ _)
  · rw [matched]
    exact absent

theorem step_recoverable (valid : Valid before) (step : Step codec P limits before label after)
    (readable : label.recoverable codec) (all : AllRecoverable codec before.publishers.tables) :
    AllRecoverable codec after.publishers.tables := by
  have matched := step_publishers valid step
  split at matched
  · rename_i op performed
    obtain ⟨⟨_, published⟩, pumped⟩ := matched
    have allowed : op.recoverable codec := by
      cases op with
      | enqueue id event now =>
          cases label with
          | other => cases performed; exact readable
          | finish pid now =>
              simp only [operation] at performed
              split at performed <;> cases performed
          | _ => cases performed
      | finishDelivery => exact pumped.2
      | _ => trivial
    rw [published]
    exact step_allRecoverable all ⟨allowed, rfl⟩
  · rw [matched]
    exact all

theorem run_recoverable {history : List (Event (Pumps J) (Label J))}
    (run : Run (Step codec P limits) start history state)
    (readable : ∀ event ∈ history, event.label.recoverable codec) :
    AllRecoverable codec state.publishers.tables := by
  induction run with
  | init =>
      exact ⟨fun m member => absurd member (Table.not_mem_empty m),
        fun l member => absurd member (Table.not_mem_empty l)⟩
  | next run step ih =>
      have earlier := ih fun event member => readable event (List.mem_append_left _ member)
      have last := readable _ (List.mem_append_right _ List.mem_cons_self)
      exact step_recoverable (run_valid run).1 step last earlier

section Endless

variable (endless : Endless (Step codec P limits) start)

def tablesAt (i : Nat) : Tables J := (endless.state i).publishers.tables

variable {endless}

theorem tablesAt_performed {i : Nat} {op : Op J}
    (performed : operation P (endless.state i) (endless.label i) = some op) :
    tablesAt endless (i + 1) = (perform codec op (tablesAt endless i)).2 := by
  have matched := step_publishers (run_valid (endless.run i)).1 (endless.steps i)
  rw [performed] at matched
  exact congrArg Publishers.tables matched.1.2

/-- From some step on every message stands as it always will. -/
theorem come_to_rest (below : ∀ i, ClaimsBelow codec P (endless.event i))
    (closed : ∀ᶠ i in atTop, (endless.label i).brings = false) :
    ∃ N, ∀ i, N ≤ i → ∀ m ∈ (tablesAt endless i).outbox, m ∈ (tablesAt endless N).outbox ∧
      ∀ j, N ≤ j → standing (tablesAt endless j) m.id = standing (tablesAt endless N) m.id := by
  have within (i : Nat) : WithinLimit P (tablesAt endless i) := by
    apply run_withinLimit (endless.run i)
    intro event member
    obtain ⟨j, _, rfl⟩ := endless.mem_history.mp member
    exact below j
  have kept (id : Uuid) : ∀ᶠ i in atTop,
      standing (tablesAt endless (i + 1)) id = standing (tablesAt endless i) id := by
    apply endless.settles (fun state => standing state.publishers.tables id)
      fun state => effort P (standing state.publishers.tables id)
    filter_upwards [closed] with i closed
    refine (step_effort (run_valid (endless.run i)).1 (endless.steps i) closed (within (i + 1)) id).imp_right
      fun same => ⟨same, congrArg _ same⟩
  obtain ⟨first, closed⟩ := eventually_atTop.mp closed
  -- no message comes in any more, so finitely many are left to come to rest
  have old : ∀ i, first ≤ i → ∀ m ∈ (tablesAt endless i).outbox,
      ∃ row ∈ (tablesAt endless first).outbox, row.id = m.id := by
    intro i late m member
    by_contra missing
    have absent : ∀ j, first ≤ j → (tablesAt endless j).outbox.find? m.id = none := by
      intro j late
      induction j, late using Nat.le_induction with
      | base =>
          rw [Table.find?_eq_none]
          intro row present keyed
          exact missing ⟨row, present, keyed⟩
      | succ j late ih =>
          exact step_absent (run_valid (endless.run j)).1 (endless.steps j) (closed j late) ih
    have gone := absent i late
    rw [Table.find?_of_mem member] at gone
    cases gone
  have together : ∀ᶠ i in atTop, ∀ row ∈ (tablesAt endless first).outbox.rows,
      standing (tablesAt endless (i + 1)) row.id = standing (tablesAt endless i) row.id :=
    (eventually_all_finite (List.finite_toSet _)).mpr fun row _ => kept row.id
  obtain ⟨second, together⟩ := eventually_atTop.mp together
  refine ⟨max first second, ?_⟩
  intro i late m member
  obtain ⟨row, present, keyed⟩ := old i ((le_max_left _ _).trans late) m member
  have same : ∀ j, max first second ≤ j →
      standing (tablesAt endless j) m.id = standing (tablesAt endless (max first second)) m.id := by
    intro j late
    induction j, late using Nat.le_induction with
    | base => rfl
    | succ j late ih => rw [← ih, ← keyed, together j ((le_max_right _ _).trans late) row present]
  have here := congrArg Prod.fst (same i late)
  simp only [standing, Table.find?_of_mem member] at here
  exact ⟨(Table.find?_eq_some.mp here.symm).1, same⟩

/-- What becomes of a message in the long run, as a look at step `i` with clock readings from `T` on
shows it. -/
structure Settled (endless : Endless (Step codec P limits) start) (T : Clock) (i : Nat)
    (m : OutboxMessage J) : Prop where
  rests : ∀ j, i ≤ j → standing (tablesAt endless j) m.id = standing (tablesAt endless i) m.id
  published : (tablesAt endless i).quarantined m.id = false → m.status = .published
  acknowledged : (tablesAt endless i).quarantined m.id = false → ∀ consumer,
    P.Requires m.topic consumer → (tablesAt endless i).acknowledged consumer m.id = false →
    ∀ pid now, T ≤ now → endless.label i = .reconcile pid (fun _ => false) now →
      activeExecution (tablesAt endless i) m now = true

/-- In every endless run of any number of pumps, with whatever happens to their publishes, their
processes and the consumers: once nobody brings new work, and as long as no claim takes an expired
delivery that has used up its attempts and pumps keep looking for messages, every message comes to
rest. It is in the journal, or published and acknowledged, or a consumer works on it whenever a pump
reconciles. -/
theorem delivery_settles (readable : ∀ i, (endless.label i).recoverable codec)
    (below : ∀ i, ClaimsBelow codec P (endless.event i))
    (closed : ∀ᶠ i in atTop, (endless.label i).brings = false)
    (looks : ∀ T : Clock, ∃ᶠ i in atTop, ∃ pid owner now,
      T ≤ now ∧ endless.label i = .claim pid owner (fun _ => false) now) :
    ∃ T : Clock, ∀ᶠ i in atTop, ∀ m ∈ (tablesAt endless i).outbox, m.topic ∈ P.topics.keys →
      Settled endless T i m := by
  obtain ⟨N, rests⟩ := come_to_rest below closed
  have recoverable : AllRecoverable codec (tablesAt endless N) := by
    apply run_recoverable (endless.run N)
    intro event member
    obtain ⟨j, _, rfl⟩ := endless.mem_history.mp member
    exact readable j
  obtain ⟨T, ripe⟩ := recoverable.ripe P
  have kept (i : Nat) (late : N ≤ i) (m : OutboxMessage J) (member : m ∈ (tablesAt endless i).outbox) :
      standing (tablesAt endless (i + 1)) m.id = standing (tablesAt endless i) m.id := by
    have same := (rests i late m member).2
    rw [same (i + 1) (Nat.le_succ_of_le late), same i late]
  -- a pump that looks for a message late enough finds none, so none is waiting
  have published : ∀ m ∈ (tablesAt endless N).outbox, m.topic ∈ P.topics.keys →
      (tablesAt endless N).quarantined m.id = false → m.status = .published := by
    intro m member registered free
    by_contra waiting
    obtain ⟨i, late, pid, owner, now, later, label⟩ := frequently_atTop.mp (looks T) N
    have here := (rests N le_rfl m member).2 i late
    obtain ⟨row, journal⟩ := Prod.ext_iff.mp here
    simp only [standing, Table.find?_of_mem member] at row journal
    have chosen := (ripe now later m member).candidate registered waiting (tablesAt endless i)
      (journal.trans free)
    obtain ⟨moved, present, moves⟩ := claim_moves owner (Table.find?_eq_some.mp row).1 chosen
    apply moves
    rw [← tablesAt_performed (by rw [label]; rfl), kept i late moved present]
  refine ⟨T, eventually_atTop.mpr ⟨N, ?_⟩⟩
  intro i late m member registered
  obtain ⟨old, same⟩ := rests i late m member
  obtain ⟨_, journal⟩ := Prod.ext_iff.mp (same i late)
  simp only [standing] at journal
  constructor
  · intro j later
    rw [same j (late.trans later), same i late]
  · intro free
    exact published m old registered (journal.symm.trans free)
  · intro free consumer required unreceipted pid now later label
    by_contra idle
    have sent := published m old registered (journal.symm.trans free)
    have selected := (ripe now later m old).unacknowledged sent (tablesAt endless i) consumer free
      unreceipted (Bool.eq_false_iff.mpr idle)
    apply reconcile_moves member required free (ripe now later m old).due selected
    rw [← tablesAt_performed (by rw [label]; rfl), kept i late m member]

end Endless

end Steps

section Sample

/-- A publish that fails, which the sample policy does not try again. -/
def failedPublish : List (Label Unit) :=
  [.other (.enqueue 7 (sampleEvent none) 0),
    .reconcile 0 (fun _ => false) 500000,
    .claim 0 "first" (fun _ => false) 1000000,
    .publish 0 (some "OperationalError"),
    .finish 0 2000000]

theorem failedPublish_taken :
    ∀ event ∈ events sampleCodec samplePolicy (fun _ => 100) failedPublish,
      (next sampleCodec samplePolicy (fun _ => 100) event.before event.label).isSome = true := by
  decide

def buried : Pumps Unit := after sampleCodec samplePolicy (fun _ => 100) failedPublish

theorem buried_quarantined : ∀ m ∈ buried.publishers.tables.outbox,
    buried.publishers.tables.quarantined m.id = true := by
  decide

theorem buried_claim (owner : String) (now : Clock) :
    perform sampleCodec (.claimDelivery samplePolicy owner (fun _ => false) now)
      buried.publishers.tables = (.claimed none, buried.publishers.tables) :=
  perform_claimDelivery_none owner (nextCandidate_journaled buried_quarantined)

theorem buried_reconcile (now : Clock) :
    perform sampleCodec (.reconcile samplePolicy (fun _ => false) now)
      buried.publishers.tables = (.requeued 0, buried.publishers.tables) := by
  simp only [perform, reconcile_journaled buried_quarantined]

def idle (k : Nat) : Pumps Unit :=
  ⟨buried.publishers, fun pid => if 0 < pid ∧ pid ≤ k then .returned 0 else buried.pumps pid⟩

def looking (k : Nat) : Pumps Unit := put (idle k) (k + 1) (.looping 0)

theorem idle_zero : idle 0 = buried := by
  have pumps : (idle 0).pumps = buried.pumps := by
    funext pid
    exact if_neg (by omega)
  exact congrArg (Pumps.mk buried.publishers) pumps

theorem idle_reconcile (k : Nat) (now : Clock) :
    Step sampleCodec samplePolicy (fun _ => 100) (idle k)
      (.reconcile (k + 1) (fun _ => false) now) (looking k) := by
  have starting : (idle k).pumps (k + 1) = .starting := if_neg (by omega)
  simp only [Step, next, starting, Publishers.next]
  rw [show (idle k).publishers = buried.publishers from rfl, buried_reconcile]
  rfl

theorem looking_claim (k : Nat) (now : Clock) :
    Step sampleCodec samplePolicy (fun _ => 100) (looking k)
      (.claim (k + 1) "second" (fun _ => false) now) (idle (k + 1)) := by
  have here : (looking k).pumps (k + 1) = .looping 0 := by rw [looking, put_pumps, if_pos rfl]
  have fresh : ∀ c ∈ buried.publishers.claims, c.leaseOwner ≠ some "second" := by decide
  have pumps : (put (looking k) (k + 1) (.returned 0)).pumps = (idle (k + 1)).pumps := by
    funext pid
    simp only [looking, put_pumps, idle]
    split
    · rw [if_pos (by omega)]
    · congr 1
      rw [eq_iff_iff]
      omega
  simp only [Step, next, here, Publishers.next]
  rw [show (looking k).publishers = buried.publishers from rfl, if_pos fresh, buried_claim]
  exact congrArg (fun pumps => some (Pumps.mk buried.publishers pumps)) pumps

def idling : Endless (Step sampleCodec samplePolicy fun _ => 100) buried where
  state i := if i % 2 = 0 then idle (i / 2) else looking (i / 2)
  label i := if i % 2 = 0 then .reconcile (i / 2 + 1) (fun _ => false) i
    else .claim (i / 2 + 1) "second" (fun _ => false) i
  starts := idle_zero
  steps i := by
    by_cases even : i % 2 = 0
    · have odd : ¬ (i + 1) % 2 = 0 := by omega
      have same : (i + 1) / 2 = i / 2 := by omega
      rw [if_pos even, if_pos even, if_neg odd, same]
      exact idle_reconcile _ _
    · have odd : (i + 1) % 2 = 0 := by omega
      have next : (i + 1) / 2 = i / 2 + 1 := by omega
      rw [if_neg even, if_neg even, if_pos odd, next]
      exact looking_claim _ _

/-- The failed publish, and pumps for ever after. -/
def tireless : Endless (Step sampleCodec samplePolicy fun _ => 100) start :=
  .append failedPublish failedPublish_taken idling

theorem idling_reconcile {i : Nat} (even : i % 2 = 0) :
    idling.label i = .reconcile (i / 2 + 1) (fun _ => false) i := if_pos even

theorem idling_claim {i : Nat} (odd : ¬ i % 2 = 0) :
    idling.label i = .claim (i / 2 + 1) "second" (fun _ => false) i := if_neg odd

theorem idling_brings (i : Nat) : (idling.label i).brings = false := by
  by_cases even : i % 2 = 0
  · rw [idling_reconcile even]
    rfl
  · rw [idling_claim even]
    rfl

theorem idling_recoverable (i : Nat) : (idling.label i).recoverable sampleCodec := by
  by_cases even : i % 2 = 0
  · rw [idling_reconcile even]
    trivial
  · rw [idling_claim even]
    trivial

theorem idling_below (i : Nat) : ClaimsBelow sampleCodec samplePolicy (idling.event i) := by
  intro op performed
  by_cases even : i % 2 = 0
  · simp only [Endless.event, idling_reconcile even, operation, Option.mem_def, Option.some.injEq]
      at performed
    rw [← performed]
    trivial
  · simp only [Endless.event, idling_claim even, operation, Option.mem_def, Option.some.injEq]
      at performed
    rw [← performed]
    have tables : (idling.event i).before.publishers.tables = buried.publishers.tables := by
      simp only [Endless.event, idling, if_neg even]
      rfl
    intro m candidate
    rw [tables] at candidate
    obtain ⟨member, chosen, _⟩ := mem_candidates.mp candidate
    simp [DurableDelivery.candidate, buried_quarantined m member] at chosen

/-- The message of the failed publish rests in the journal, however long the pumps go on. -/
theorem delivery_settles_buried : ∃ T : Clock, ∀ᶠ i in atTop, ∀ m ∈ (tablesAt tireless i).outbox,
    m.topic ∈ samplePolicy.topics.keys → Settled tireless T i m := by
  apply delivery_settles
  · intro i
    by_cases late : 5 ≤ i
    · obtain ⟨i, rfl⟩ := Nat.exists_eq_add_of_le' late
      exact idling_recoverable i
    · interval_cases i
      · intro t scheduled
        cases scheduled
      all_goals trivial
  · intro i
    by_cases late : 5 ≤ i
    · obtain ⟨i, rfl⟩ := Nat.exists_eq_add_of_le' late
      exact idling_below i
    · interval_cases i <;> decide
  · rw [eventually_atTop]
    refine ⟨5, ?_⟩
    intro i late
    obtain ⟨i, rfl⟩ := Nat.exists_eq_add_of_le' late
    exact idling_brings i
  · intro T
    rw [frequently_atTop]
    intro a
    have odd : ¬ (2 * (a + T.toNat) + 1) % 2 = 0 := by omega
    have reached : T ≤ ((2 * (a + T.toNat) + 1 : Nat) : Int) :=
      (Int.self_le_toNat T).trans (Int.ofNat_le.mpr (by omega))
    exact ⟨2 * (a + T.toNat) + 1 + 5, by omega, _, _, _, reached, idling_claim odd⟩

end Sample

end Pumps

end TplBackend
