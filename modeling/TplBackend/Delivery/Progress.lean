import TplBackend.Delivery.Effects
import TplBackend.Delivery.Intent

namespace TplBackend

open Keyed Transition SqlOutboxRepository DurableDelivery

variable {J : Type}

def Passes (instant : Timestamp) : Prop := ∃ T : Clock, instant ≤ (T : Timestamp)

theorem passes_bot : Passes ⊥ := ⟨0, bot_le⟩

theorem passes_clock (now : Clock) : Passes (now : Timestamp) := ⟨now, le_rfl⟩

theorem passes_all (instants : List Timestamp) (every : ∀ instant ∈ instants, Passes instant) :
    ∃ T : Clock, ∀ instant ∈ instants, instant ≤ (T : Timestamp) := by
  induction instants with
  | nil => exact ⟨0, by simp⟩
  | cons head tail ih =>
      obtain ⟨T, past⟩ := every head List.mem_cons_self
      obtain ⟨T', rest⟩ := ih fun instant member => every instant (List.mem_cons_of_mem _ member)
      refine ⟨max T T', fun instant member => ?_⟩
      rcases List.mem_cons.mp member with rfl | later
      · exact past.trans (Timestamp.coe_le_coe.mpr (le_max_left T T'))
      · exact (rest instant later).trans (Timestamp.coe_le_coe.mpr (le_max_right T T'))

/-- What a message needs for its backoff, schedule, lease and publication to be past some day. -/
structure Recoverable (codec : Codec J) (m : OutboxMessage J) : Prop where
  available : Passes m.availableAt
  scheduled : ∃ instant, notBefore codec m.headers = some instant ∧ Passes instant
  leased : m.status = .delivering → ∃ expiry, m.leaseExpiresAt = some expiry ∧ Passes expiry
  recorded : m.status = .published → ∃ at_, m.publishedAt = some at_ ∧ Passes at_

/-- PostgreSQL reads a declared `not_before` back, and a failed publish has a named error. -/
def Op.recoverable (codec : Codec J) : Op J → Prop
  | .enqueue _ event _ => ∀ t, event.notBefore = some t →
      codec.timestamptz (codec.isoformat t) = some (t : Timestamp)
  | .finishDelivery _ _ error _ => error ≠ some ""
  | _ => True

variable {codec : Codec J} {s s' : Tables J} {op : Op J}

theorem newRow_recoverable {event : OutboxEvent J} (accepted : event.validate codec = .ok ())
    (casts : ∀ t, event.notBefore = some t →
      codec.timestamptz (codec.isoformat t) = some (t : Timestamp)) (id : Uuid) (now : Clock) :
    Recoverable codec (newRow codec id event now) := by
  cases declared : event.notBefore with
  | none =>
      refine ⟨by simpa [newRow, declared] using passes_bot, ⟨⊥, ?_, passes_bot⟩, nofun, nofun⟩
      simp [newRow, notBefore, event.transportHeaders_absent codec declared,
        event.reserved_absent codec accepted]
  | some t =>
      refine ⟨by simpa [newRow, declared] using passes_clock t, ⟨t, ?_, passes_clock t⟩, nofun,
        nofun⟩
      simp [newRow, notBefore, event.lookup_transportHeaders codec t declared, casts t declared]

theorem claimed_recoverable {m : OutboxMessage J} (recoverable : Recoverable codec m)
    (owner : String) (leaseSeconds : Int) (now : Clock) :
    Recoverable codec (m.claimed owner leaseSeconds now) :=
  ⟨recoverable.available, recoverable.scheduled, fun _ => ⟨_, rfl, passes_clock _⟩, nofun⟩

theorem finished_recoverable {m : OutboxMessage J} (recoverable : Recoverable codec m)
    {error : Option String} (named : error ≠ some "") (attemptCount : Nat) (now : Clock) :
    Recoverable codec (finished attemptCount error now m) := by
  refine ⟨passes_clock _, recoverable.scheduled, ?_, ?_⟩
  · intro delivering
    cases failing : truthy error <;> simp [finished, failing] at delivering
  · intro published
    cases error with
    | none => exact ⟨now, rfl, passes_clock now⟩
    | some text =>
        have failing : text ≠ "" := fun empty => named (by rw [empty])
        simp [finished, truthy, failing] at published

theorem Rewrite.recoverable {m m' : OutboxMessage J} (step : Rewrite codec s op m m')
    (allowed : op.recoverable codec) (recoverable : Recoverable codec m) :
    Recoverable codec m' := by
  have scheduled := recoverable.scheduled
  cases step with
  | same => exact recoverable
  | claimed => exact claimed_recoverable recoverable _ _ _
  | batched => exact claimed_recoverable recoverable _ _ _
  | finished => exact finished_recoverable recoverable allowed _ _
  | requeued => exact ⟨passes_bot, scheduled, nofun, nofun⟩
  | replayed => exact ⟨passes_bot, scheduled, nofun, nofun⟩
  | published => exact ⟨recoverable.available, scheduled, nofun, fun _ => ⟨_, rfl, passes_clock _⟩⟩
  | failed => exact ⟨passes_clock _, scheduled, nofun, nofun⟩

theorem takeover_passes {current : Option Execution} {resource : String} {id owner : Uuid}
    {leaseSeconds : Nat} {now : Clock} {taken : Execution}
    (upserted : DurableTasks.takeover current resource id owner leaseSeconds now = some taken) :
    Passes taken.expiresAt := by
  rw [(DurableTasks.takeover_spec upserted).1]
  exact passes_clock _

theorem perform_executions [DecidableEq J] {l : Execution}
    (member : l ∈ (perform codec op s).2.executions) : l ∈ s.executions ∨ Passes l.expiresAt := by
  have frame := (perform_frame codec op s).executions
  cases op with
  | claimExecution D id owner now =>
      have performed : (perform codec (.claimExecution D id owner now) s).2 =
          (D.claimExecution codec id owner now s).2 := rfl
      rw [performed] at member
      rcases D.claimExecution_cases codec id owner now s with
        idle | ⟨row, taken, _, upserted, granted | refused⟩
      · rw [idle] at member
        exact Or.inl member
      · rw [granted] at member
        rcases DurableTasks.mem_putExecution member with rfl | old
        · exact Or.inr (takeover_passes upserted)
        · exact Or.inl old
      · rw [refused] at member
        rcases DurableTasks.mem_putExecution member with rfl | old
        · exact Or.inr passes_bot
        · rcases DurableTasks.mem_putExecution old with rfl | old
          · exact Or.inr (takeover_passes upserted)
          · exact Or.inl old
  | renew D lease now =>
      cases result : D.renew lease now s with
      | error raised => exact Or.inl (by simpa [perform, settle, result] using member)
      | ok s' =>
          obtain ⟨_, rfl⟩ := DurableTasks.renew_ok result
          simp only [perform, settle, result, bind_pure_comp, Except.map_ok] at member
          obtain ⟨old, present, rfl⟩ := Table.mem_update.mp member
          split
          · exact Or.inr (passes_clock _)
          · exact Or.inl present
  | release lease =>
      simp only [perform, DurableTasks.release] at member
      obtain ⟨old, present, rfl⟩ := Table.mem_update.mp member
      split
      · exact Or.inr passes_bot
      · exact Or.inl present
  | _ =>
      rw [frame rfl] at member
      exact Or.inl member

structure AllRecoverable (codec : Codec J) (s : Tables J) : Prop where
  messages : ∀ m ∈ s.outbox, Recoverable codec m
  executions : ∀ l ∈ s.executions, Passes l.expiresAt

theorem step_allRecoverable [DecidableEq J] (all : AllRecoverable codec s)
    (step : Step codec (Op.recoverable codec) s op s') : AllRecoverable codec s' where
  messages := by
    intro m' member
    rw [step.2] at member
    rcases perform_origin member with ⟨m, present, _, rewrite⟩ | ⟨_, _, rfl, accepted, _, _, new⟩
    · exact rewrite.recoverable step.1 (all.messages m present)
    · rw [new]
      exact newRow_recoverable accepted step.1 _ _
  executions := by
    intro l member
    rw [step.2] at member
    exact (perform_executions member).elim (all.executions l) id

theorem run_allRecoverable [DecidableEq J] {history : List (Event (Tables J) (Op J))}
    (run : Run (Step codec (Op.recoverable codec)) Tables.empty history s) :
    AllRecoverable codec s :=
  run.invariant ⟨fun m member => absurd member (Table.not_mem_empty m),
    fun l member => absurd member (Table.not_mem_empty l)⟩
    fun _ _ _ all step => step_allRecoverable all step

variable {P : DurableDelivery} {m : OutboxMessage J} {now : Clock}

theorem candidate_of_past (registered : m.topic ∈ P.topics.keys) (free : s.quarantined m.id = false)
    (available : m.availableAt ≤ (now : Timestamp)) (due : notBeforeDue codec m.headers now = true)
    (ready : unowned m now = true) : P.candidate codec s now m = true := by
  simp [candidate, registered, available, due, ready, free]

theorem reconcile_published {consumer : String} (member : m ∈ s.outbox)
    (required : P.Requires m.topic consumer) (free : s.quarantined m.id = false)
    (due : notBeforeDue codec m.headers now = true)
    (selected : P.unacknowledged activeExecution consumer s now m = true) :
    (∃ m', (P.reconcile (fun _ => false) now s).2.outbox.find? m.id = some m' ∧
        m'.status = .pending ∧
        P.candidate codec (P.reconcile (fun _ => false) now s).2 now m' = true) ∨
      (P.reconcile (fun _ => false) now s).2.quarantined m.id = true := by
  have step := reconcileWith_reconciled P (fun _ => false) now activeExecution_steady s
  have present := Table.find?_of_mem member
  have chosen : Selected activeExecution P (fun _ => false) now P.topics.entries s m :=
    ⟨rfl, consumer, mem_entries.mpr required, selected⟩
  by_cases limit : P.maxAttempts ≤ m.attemptCount
  · exact Or.inr ((step.quarantined m.id).mpr (Or.inl (Or.inr ⟨m, present, chosen, limit⟩)))
  · refine Or.inl ⟨requeued now m, ?_, rfl, ?_⟩
    · exact (step.found m.id m present).1 ⟨m, present, chosen, Nat.lt_of_not_le limit⟩
    · refine candidate_of_past required.mem_keys ?_ bot_le due rfl
      rw [← Bool.not_eq_true]
      intro quarantined
      rcases (step.quarantined m.id).mp quarantined with (exhausts | gives) | before
      · obtain ⟨row, found, _, exhausted⟩ := exhausts
        cases present.symm.trans found
        exact exhausted_unpublished exhausted (unacknowledged_published selected)
      · obtain ⟨row, found, _, reached⟩ := gives
        cases present.symm.trans found
        exact limit reached
      · rw [free] at before
        cases before

/-- From some reading on, a message without its receipt and outside the journal is a candidate
again or is picked up by the next reconciliation. -/
theorem no_message_stranded [DecidableEq J] {history : List (Event (Tables J) (Op J))}
    (run : Run (Step codec (Op.recoverable codec)) Tables.empty history s) {consumer : String}
    (member : m ∈ s.outbox) (required : P.Requires m.topic consumer)
    (unreceipted : s.acknowledged consumer m.id = false) (free : s.quarantined m.id = false) :
    ∃ T : Clock, ∀ now : Clock, T ≤ now →
      P.candidate codec s now m = true ∨
        (∃ m', (P.reconcile (fun _ => false) now s).2.outbox.find? m.id = some m' ∧
          m'.status = .pending ∧
          P.candidate codec (P.reconcile (fun _ => false) now s).2 now m' = true) ∨
        (P.reconcile (fun _ => false) now s).2.quarantined m.id = true := by
  obtain ⟨messages, executions⟩ := run_allRecoverable run
  have recoverable := messages m member
  obtain ⟨opens, available⟩ := recoverable.available
  obtain ⟨instant, header, start, scheduled⟩ := recoverable.scheduled
  have due (now : Clock) (late : start ≤ now) : notBeforeDue codec m.headers now = true :=
    (notBeforeDue_iff codec m.headers now).mpr
      ⟨instant, header, scheduled.trans (Timestamp.coe_le_coe.mpr late)⟩
  have candidate (now : Clock) (late : max opens start ≤ now) (ready : unowned m now = true) :
      P.candidate codec s now m = true :=
    candidate_of_past required.mem_keys free
      (available.trans (Timestamp.coe_le_coe.mpr ((le_max_left _ _).trans late)))
      (due now ((le_max_right _ _).trans late)) ready
  cases status : m.status with
  | pending =>
      exact ⟨max opens start, fun now late =>
        Or.inl (candidate now late (by simp [unowned, status]))⟩
  | delivering =>
      obtain ⟨expiry, lease, ends, expires⟩ := recoverable.leased status
      refine ⟨max ends (max opens start), fun now late => Or.inl (candidate now ?_ ?_)⟩
      · exact (le_max_right _ _).trans late
      · have past := expires.trans (Timestamp.coe_le_coe.mpr ((le_max_left _ _).trans late))
        simp [unowned, status, OutboxMessage.leaseExpired, lease, past]
  | published =>
      obtain ⟨at_, publishedAt, sent, recorded⟩ := recoverable.recorded status
      obtain ⟨idle, expired⟩ := passes_all (s.executions.rows.map Execution.expiresAt) (by
        intro instant member
        obtain ⟨l, present, rfl⟩ := List.mem_map.mp member
        exact executions l present)
      -- The publication is older than one lease, and no execution lease is left.
      refine ⟨max start (max idle (sent + seconds P.leaseSeconds + 1)), fun now late => Or.inr ?_⟩
      rw [max_le_iff, max_le_iff] at late
      obtain ⟨started, ended, aged⟩ := late
      refine reconcile_published member required free (due now started) ?_
      have earlier : sent < now - seconds P.leaseSeconds :=
        Int.lt_sub_right_of_add_lt (Int.add_one_le_iff.mp aged)
      have old : at_ < ((now - seconds P.leaseSeconds : Int) : Timestamp) :=
        recorded.trans_lt (Timestamp.coe_lt_coe.mpr earlier)
      have inactive : activeExecution s m now = false := by
        rw [activeExecution, List.any_eq_false]
        intro l present
        have elapsed := (expired l.expiresAt (List.mem_map_of_mem present)).trans
          (Timestamp.coe_le_coe.mpr ended)
        simp [not_lt.mpr elapsed]
      simp [unacknowledged, status, publishedAt, old, unreceipted, inactive, free]

/-- A publisher that dies with the message in its hands. -/
def abandoned : List (Op Unit) :=
  [.enqueue 7 (sampleEvent none) 0,
    .claimDelivery samplePolicy "publisher" (fun _ => false) 1000000]

theorem no_message_stranded_abandoned :
    ∃ T : Clock, ∀ now : Clock, T ≤ now →
      samplePolicy.candidate sampleCodec (tablesAfter sampleCodec abandoned) now
          ((newRow sampleCodec 7 (sampleEvent none) 0).claimed "publisher" 60 1000000) = true ∨
        (∃ m', (samplePolicy.reconcile (fun _ => false) now
            (tablesAfter sampleCodec abandoned)).2.outbox.find? 7 = some m' ∧ m'.status = .pending ∧
          samplePolicy.candidate sampleCodec (samplePolicy.reconcile (fun _ => false) now
            (tablesAfter sampleCodec abandoned)).2 now m' = true) ∨
        (samplePolicy.reconcile (fun _ => false) now
          (tablesAfter sampleCodec abandoned)).2.quarantined 7 = true :=
  no_message_stranded
    (transactions_run sampleCodec (by simp [abandoned, Op.recoverable, sampleEvent]))
    (List.mem_cons_self :
      (newRow sampleCodec 7 (sampleEvent none) 0).claimed "publisher" 60 1000000 ∈ [_])
    (by decide : samplePolicy.Requires "test.counter.v1" "test.counter.v1") (by decide) (by decide)

end TplBackend
