import TplBackend.Delivery.Effects
import TplBackend.Delivery.Intent

namespace TplBackend

open Keyed Transition SqlOutboxRepository DurableDelivery

variable {J : Type}

/-- The database clock an operation reads when it decides; `release` reads none. -/
def Op.reading : Op J → Option Clock
  | .enqueue _ _ now | .claimDelivery _ _ _ now | .finishDelivery _ _ _ now | .reconcile _ _ now
  | .replay _ _ now | .claimExecution _ _ _ now | .renew _ _ now | .acknowledge _ _ now => some now
  | .claimBatch _ _ _ _ _ clock | .markPublished _ _ _ clock | .markFailed _ _ _ _ _ clock =>
      some clock
  | .release _ => none

variable {codec : Codec J} {s : Tables J} {op : Op J} {t : Clock}

theorem HandsOut.due {m : OutboxMessage J} (handed : HandsOut codec s op m) :
    ∃ reading ∈ op.reading, notBeforeDue codec m.headers reading = true := by
  cases handed with
  | delivered chosen =>
      have passed := (nextCandidate_spec chosen).2.1
      simp only [candidate, Bool.and_eq_true] at passed
      exact ⟨_, rfl, passed.1.1.2⟩
  | batched member =>
      have passed := (batchCandidates_spec member).2.1
      simp only [batchEligible, Bool.and_eq_true] at passed
      exact ⟨_, rfl, passed.1.2⟩
  | leased selected => exact ⟨_, rfl, (eligible_spec selected).2.2.2.1⟩

def Scheduled (codec : Codec J) (t : Clock) (headers : Headers) : Prop :=
  notBefore codec headers = some (t : Timestamp)

theorem not_due {headers : Headers} {reading : Clock} (scheduled : Scheduled codec t headers)
    (early : reading < t) : notBeforeDue codec headers reading = false := by
  rw [Bool.eq_false_iff, ne_eq, notBeforeDue_iff]
  rintro ⟨instant, found, due⟩
  rw [Scheduled] at scheduled
  rw [scheduled] at found
  cases found
  exact absurd (Timestamp.coe_le_coe.mp due) (not_le.mpr early)

theorem scheduled_transportHeaders {event : OutboxEvent J} (declared : event.notBefore = some t)
    (casts : codec.timestamptz (codec.isoformat t) = some (t : Timestamp)) :
    Scheduled codec t (event.transportHeaders codec) := by
  rw [Scheduled, notBefore, OutboxEvent.lookup_transportHeaders codec event t declared]
  exact casts

theorem HandsOut.not_early {m : OutboxMessage J} (handed : HandsOut codec s op m)
    (scheduled : Scheduled codec t m.headers) : ¬ ∀ reading ∈ op.reading, reading < t := by
  intro early
  obtain ⟨reading, read, due⟩ := handed.due
  rw [not_due scheduled (early reading read)] at due
  cases due

theorem Rewrite.idle {m m' : OutboxMessage J} (step : Rewrite codec s op m m') :
    HandsOut codec s op m ∨
      (m'.attemptCount ≤ m.attemptCount ∧ (m' = m ∨ m'.status ≠ .delivering)) := by
  cases step with
  | same => exact Or.inr ⟨le_rfl, Or.inl rfl⟩
  | claimed chosen => exact Or.inl (.delivered chosen)
  | batched member => exact Or.inl (.batched member)
  | @finished P message error now m held =>
      refine Or.inr ⟨le_rfl, Or.inr ?_⟩
      cases failing : truthy error <;> simp [DurableDelivery.finished, failing]
  | requeued selected below => exact Or.inr ⟨le_rfl, Or.inr nofun⟩
  | replayed topic quarantined => exact Or.inr ⟨Nat.zero_le _, Or.inr nofun⟩
  | published held => exact Or.inr ⟨le_rfl, Or.inr nofun⟩
  | failed held => exact Or.inr ⟨le_rfl, Or.inr nofun⟩

def backedOff (at_ : Uuid → Timestamp) (s : Tables J) : Tables J :=
  { s with
    outbox := s.outbox.update (fun _ => true)
      (fun m => { m with availableAt := at_ m.id }) fun _ => rfl }

theorem eligible_backedOff (D : DurableTasks) (at_ : Uuid → Timestamp) (id : Uuid) (now : Clock) :
    D.eligible codec id now (backedOff at_ s) =
      (D.eligible codec id now s).map fun m => { m with availableAt := at_ m.id } := by
  change List.find? _ (s.outbox.rows.map _) = _
  rw [List.find?_map]
  rfl

theorem claimExecution_backedOff (D : DurableTasks) (at_ : Uuid → Timestamp) (id owner : Uuid)
    (now : Clock) :
    D.claimExecution codec id owner now (backedOff at_ s) =
      ((D.claimExecution codec id owner now s).1.map fun granted =>
          (granted.1, { granted.2 with availableAt := at_ granted.2.id }),
        backedOff at_ (D.claimExecution codec id owner now s).2) := by
  unfold DurableTasks.claimExecution
  rw [eligible_backedOff]
  cases selected : D.eligible codec id now s with
  | none => rfl
  | some m =>
      simp only [Option.map_some]
      have resource : ({ m with availableAt := at_ m.id } : OutboxMessage J).resource = m.resource :=
        rfl
      have executions : (backedOff at_ s).executions = s.executions := rfl
      rw [resource, executions]
      cases DurableTasks.takeover (s.executions.find? m.resource) m.resource id owner
          D.leaseSeconds now with
      | none => rfl
      | some taken =>
          simp only
          have done : (DurableTasks.putExecution taken (backedOff at_ s)).acknowledged m.topic id =
              (DurableTasks.putExecution taken s).acknowledged m.topic id := rfl
          rw [done]
          split <;> rfl

section Runs

variable [DecidableEq J] {state : Tables J}
variable {history earlier middle later : List (Event (Tables J) (Op J))}
variable {enqueued event : Event (Tables J) (Op J)}

theorem enqueued_scheduled {allowed : Op J → Prop} {s' : Tables J} {key stored : Uuid}
    {intended : OutboxEvent J} {now : Clock}
    (step : Step codec allowed s (.enqueue key intended now) s')
    (declared : intended.notBefore = some t)
    (casts : codec.timestamptz (codec.isoformat t) = some (t : Timestamp))
    (answered : (perform codec (.enqueue key intended now) s).1 = .enqueued stored) :
    ∃ m ∈ s'.outbox, m.id = stored ∧ Scheduled codec t m.headers := by
  have scheduled := scheduled_transportHeaders declared casts
  rw [step.2]
  cases result : enqueue codec key intended now s with
  | error raised => simp [perform, settle, result] at answered
  | ok value =>
      have same : value.1 = stored := by simpa [perform, settle, result] using answered
      have performed : (perform codec (.enqueue key intended now) s).2 = value.2 := by
        simp [perform, settle, result]
      rw [performed]
      obtain ⟨_, _, ⟨fresh, absent, _, written⟩ | ⟨m, member, _, intent, kept, written⟩⟩ :=
        enqueue_ok result
      · refine ⟨newRow codec key intended now, ?_, fresh.symm.trans same, scheduled⟩
        rw [written]
        exact Table.mem_insert.mpr (Or.inr ⟨rfl, absent⟩)
      · refine ⟨m, ?_, kept.symm.trans same, ?_⟩
        · rw [written]
          exact member
        · rw [intent.2.2.2]
          exact scheduled

/-- Before its instant a scheduled message is neither delivered nor leased nor counted, and
backoff is no part of what the consumer looks at. -/
theorem not_before_respected (run : Run (Step codec fun _ => True) Tables.empty history state)
    (order : history = earlier ++ enqueued :: (middle ++ event :: later)) {key stored : Uuid}
    {intended : OutboxEvent J} {now : Clock} (enqueues : enqueued.label = .enqueue key intended now)
    (declared : intended.notBefore = some t)
    (casts : codec.timestamptz (codec.isoformat t) = some (t : Timestamp))
    (answered : reply codec enqueued = .enqueued stored)
    (early : ∀ reading ∈ event.label.reading, reading < t) :
    (stored ∉ (reply codec event).handsOut ∧
      ∃ m m', event.before.outbox.find? stored = some m ∧
        event.after.outbox.find? stored = some m' ∧ m'.attemptCount ≤ m.attemptCount ∧
        (m'.status = .delivering → m' = m)) ∧
    ∀ (D : DurableTasks) (at_ : Uuid → Timestamp) (id owner : Uuid) (clock : Clock),
      (D.claimExecution codec id owner clock (backedOff at_ event.before)).1 =
        (D.claimExecution codec id owner clock event.before).1.map fun granted =>
          (granted.1, { granted.2 with availableAt := at_ granted.2.id }) := by
  refine ⟨?_, fun D at_ id owner clock => by rw [claimExecution_backedOff]⟩
  subst order
  have inserting := run.at_event.2
  rw [← List.cons_append, ← List.append_assoc] at run
  obtain ⟨before, step⟩ := run.at_event
  rw [reply, enqueues] at answered
  rw [enqueues] at inserting
  obtain ⟨first, member, rfl, scheduled⟩ :=
    enqueued_scheduled inserting declared casts answered
  obtain ⟨m, present, same⟩ := run_carries before member
  have kept : Scheduled codec t m.headers := by
    rw [headers_of_intent same]
    exact scheduled
  have row := perform_row codec event.label event.before first.id
  have found : event.before.outbox.find? first.id = some m := present
  rw [found, ← step.2] at row
  constructor
  · intro handed
    obtain ⟨other, stored, keyed, hands⟩ := perform_handsOut handed
    have equal : other = m := by
      have looked := Table.find?_of_mem stored
      rw [keyed, found] at looked
      exact (Option.some.inj looked).symm
    exact hands.not_early (equal ▸ kept) early
  · generalize after : event.after.outbox.find? first.id = new at row
    cases row with
    | @rewritten _ m' rewrite =>
        rcases rewrite.idle with hands | ⟨counted, idle⟩
        · exact absurd early (hands.not_early kept)
        · exact ⟨m, m', found, rfl, counted, fun delivering =>
            idle.resolve_right fun off => off delivering⟩

end Runs

def scheduledOps : List (Op Unit) :=
  [.enqueue 7 (sampleEvent (some 5000000)) 0,
    .claimDelivery samplePolicy "early" (fun _ => false) 1000000,
    .claimDelivery samplePolicy "due" (fun _ => false) 6000000]

theorem not_before_respected_sample :
    (tablesAfter sampleCodec scheduledOps).outbox.rows.map OutboxMessage.leaseOwner =
      [some "due"] ∧
    7 ∉ (perform sampleCodec (.claimDelivery samplePolicy "early" (fun _ => false) 1000000)
      (tablesAfter sampleCodec (scheduledOps.take 1))).1.handsOut := by
  refine ⟨by decide, ?_⟩
  have order : transactions sampleCodec scheduledOps =
      [] ++ ⟨Tables.empty, .enqueue 7 (sampleEvent (some 5000000)) 0,
        tablesAfter sampleCodec (scheduledOps.take 1)⟩ ::
      ([] ++ ⟨tablesAfter sampleCodec (scheduledOps.take 1),
          .claimDelivery samplePolicy "early" (fun _ => false) 1000000,
          tablesAfter sampleCodec (scheduledOps.take 2)⟩ ::
        [⟨tablesAfter sampleCodec (scheduledOps.take 2),
          .claimDelivery samplePolicy "due" (fun _ => false) 6000000,
          tablesAfter sampleCodec scheduledOps⟩]) := rfl
  exact (not_before_respected (transactions_run sampleCodec fun _ _ => trivial) order rfl rfl rfl
    rfl (by simp [Op.reading])).1.1

end TplBackend
