import TplBackend.Delivery.Intent

namespace TplBackend

open Keyed Transition SqlOutboxRepository DurableDelivery

variable {J : Type}

/-- What the recovery queries rely on in every row. -/
structure OutboxMessage.WellFormed (m : OutboxMessage J) : Prop where
  leased : m.status = .delivering ↔ m.leaseOwner ≠ none ∧ m.leaseExpiresAt ≠ none
  published : m.status = .published → m.publishedAt ≠ none
  attempted : m.status = .delivering ∨ m.status = .published → 1 ≤ m.attemptCount

/-- A well-formed row whose lease columns are both NULL off delivery: `reconcile` requeues such a
row without writing them. -/
structure OutboxMessage.Standing (m : OutboxMessage J) : Prop extends m.WellFormed where
  unleased : m.status ≠ .delivering → m.leaseOwner = none ∧ m.leaseExpiresAt = none

/-- The operation finishes a held row that was never published with the empty string as error:
`""` is no error where the status is chosen, but one where `published_at` is. -/
inductive FinishesBlank (s : Tables J) : Op J → Prop
  | finish {P : DurableDelivery} {message m : OutboxMessage J} {now : Clock} : m ∈ s.outbox →
      m.heldBy message.id message.leaseOwner now = true → m.publishedAt = none →
      FinishesBlank s (.finishDelivery P message (some "") now)

def Op.publishes : Op J → Bool
  | .claimExecution .. | .renew .. | .release .. | .acknowledge .. => false
  | _ => true

variable {codec : Codec J} {s : Tables J} {op : Op J} {m m' : OutboxMessage J}

theorem FinishesBlank.error {P : DurableDelivery} {message : OutboxMessage J}
    {error : Option String} {now : Clock}
    (blank : FinishesBlank s (.finishDelivery P message error now)) : error = some "" := by
  cases blank
  rfl

theorem standing_pending (pending : m.status = .pending) (owner : m.leaseOwner = none)
    (expiry : m.leaseExpiresAt = none) : m.Standing where
  leased := iff_of_false (by simp [pending]) fun held => held.1 owner
  published := by simp [pending]
  attempted := by simp [pending]
  unleased _ := ⟨owner, expiry⟩

theorem standing_published (published : m.status = .published) (owner : m.leaseOwner = none)
    (expiry : m.leaseExpiresAt = none) (at_ : m.publishedAt ≠ none) (attempted : 1 ≤ m.attemptCount) :
    m.Standing where
  leased := iff_of_false (by simp [published]) fun held => held.1 owner
  published _ := at_
  attempted _ := attempted
  unleased _ := ⟨owner, expiry⟩

theorem standing_claimed (owner : String) (leaseSeconds : Int) (now : Clock) (m : OutboxMessage J) :
    (m.claimed owner leaseSeconds now).Standing where
  leased := iff_of_true rfl ⟨nofun, nofun⟩
  published := nofun
  attempted _ := Nat.le_add_left 1 m.attemptCount
  unleased off := absurd rfl off

theorem attempted_of_held {id : Uuid} {owner : Option String} {clock : Clock} (standing : m.Standing)
    (held : m.heldBy id owner clock = true) : 1 ≤ m.attemptCount :=
  standing.attempted (Or.inl ((m.heldBy_iff id owner clock).mp held).2.1)

/-- The status and `published_at` that `finish_delivery` derives from `error` agree unless that
is the empty string. -/
theorem standing_finished {message : OutboxMessage J} {error : Option String} {now : Clock}
    (standing : m.Standing) (held : m.heldBy message.id message.leaseOwner now = true)
    (dated : error = some "" → m.publishedAt ≠ none) :
    (finished message.attemptCount error now m).Standing := by
  have attempted := attempted_of_held standing held
  by_cases failing : truthy error
  · exact standing_pending (by simp [finished, failing]) rfl rfl
  · refine standing_published (by simp [finished, failing]) rfl rfl ?_ attempted
    cases error with
    | none => simp [finished]
    | some text =>
        have blank : text = "" := by simpa [truthy] using failing
        simpa [finished] using dated (by rw [blank])

theorem Rewrite.standing (step : Rewrite codec s op m m') (present : m ∈ s.outbox)
    (standing : m.Standing) (spared : ¬ FinishesBlank s op) : m'.Standing := by
  cases step with
  | same => exact standing
  | claimed chosen => exact standing_claimed _ _ _ m
  | batched member => exact standing_claimed _ _ _ m
  | @finished P message error now m held =>
      refine standing_finished standing held fun blank undated => ?_
      subst blank
      exact spared (.finish present held undated)
  | requeued selected below =>
      obtain ⟨_, _, _, selected⟩ := selected
      simp only [unacknowledged, Bool.and_eq_true, decide_eq_true_eq] at selected
      obtain ⟨owner, expiry⟩ := standing.unleased (by simp [selected.1.1.1.1])
      exact standing_pending rfl owner expiry
  | replayed topic quarantined => exact standing_pending rfl rfl rfl
  | published held =>
      exact standing_published rfl rfl rfl (Option.some_ne_none _)
        (attempted_of_held (m := m) standing held)
  | failed held => exact standing_pending rfl rfl rfl

theorem finishesBlank_undated [DecidableEq J] (codec : Codec J) (blank : FinishesBlank s op) :
    ∃ m ∈ (perform codec op s).2.outbox, ¬ m.WellFormed := by
  cases blank with
  | @finish P message m now present held undated =>
      have any : (s.outbox.rows.any fun m => m.heldBy message.id message.leaseOwner now) = true :=
        List.any_eq_true.mpr ⟨m, present, held⟩
      have performed : (perform codec (.finishDelivery P message (some "") now) s).2.outbox =
          s.outbox.update (fun m => m.heldBy message.id message.leaseOwner now)
            (finished message.attemptCount (some "") now)
            (finished_id message.attemptCount (some "") now) := by
        simp [perform, settle, finishDelivery, complete, any, truthy]
      rw [performed]
      refine ⟨finished message.attemptCount (some "") now m,
        Table.mem_update.mpr ⟨m, present, if_pos held⟩, fun formed => ?_⟩
      exact formed.published (by simp [finished, truthy]) (by simpa [finished] using undated)

section Runs

variable [DecidableEq J] {allowed : Op J → Prop} {history : List (Event (Tables J) (Op J))}
variable {state s' : Tables J}

def RowsStand (s : Tables J) : Prop := ∀ m ∈ s.outbox, m.Standing

theorem step_rowsStand (stand : RowsStand s) (step : Step codec allowed s op s')
    (spared : ¬ FinishesBlank s op) : RowsStand s' := by
  obtain ⟨_, rfl⟩ := step
  intro m' member
  rcases perform_origin member with ⟨m, present, _, rewrite⟩ | ⟨event, now, _, _, _, _, new⟩
  · exact rewrite.standing present (stand m present) spared
  · rw [new]
    exact standing_pending rfl rfl rfl

theorem run_rowsStand (run : Run (Step codec allowed) Tables.empty history state)
    (spared : ∀ event ∈ history, ¬ FinishesBlank event.before event.label) : RowsStand state := by
  induction run with
  | init => exact fun m member => absurd member (Table.not_mem_empty m)
  | next _ step ih =>
      simp only [List.mem_append, List.mem_singleton] at spared
      exact step_rowsStand (ih fun event member => spared event (Or.inl member)) step
        (spared _ (Or.inr rfl))

/-- Every row of every state a run reaches is well formed exactly as long as no step finishes a
never published row with a blank error. -/
theorem rows_wellFormed_iff (run : Run (Step codec allowed) Tables.empty history state) :
    (∀ event ∈ history, ∀ m ∈ event.after.outbox, m.WellFormed) ↔
      ∀ event ∈ history, ¬ FinishesBlank event.before event.label := by
  constructor
  · intro formed event member blank
    obtain ⟨_, _, _, _, _, after⟩ := run.of_mem member
    obtain ⟨m, present, broken⟩ := finishesBlank_undated codec blank
    exact broken (formed event member m (after ▸ present))
  · intro spared event member m present
    obtain ⟨earlier, later, rfl, _⟩ := run.of_mem member
    exact (run_rowsStand run.through (fun event member => spared event (by
      rw [List.append_cons]; exact List.mem_append_left _ member)) m present).toWellFormed

end Runs

/-- A publisher that reports its failure with an empty text. -/
def finishedBlank : List (Op Unit) :=
  [.enqueue 7 (sampleEvent none) 0,
    .claimDelivery samplePolicy "publisher" (fun _ => false) 1000000,
    .finishDelivery samplePolicy ((newRow sampleCodec 7 (sampleEvent none) 0).claimed "publisher" 60
      1000000) (some "") 2000000]

theorem rows_malformed :
    ¬ ∀ history state, Run (Step sampleCodec fun op => op.publishes) Tables.empty history state →
      ∀ event ∈ history, ∀ m ∈ event.after.outbox, m.WellFormed := by
  intro formed
  have last : ⟨tablesAfter sampleCodec (finishedBlank.take 2), finishedBlank[2],
      tablesAfter sampleCodec finishedBlank⟩ ∈ transactions sampleCodec finishedBlank :=
    List.mem_of_mem_getLast? rfl
  obtain ⟨m, member, published, undated⟩ : ∃ m ∈ (tablesAfter sampleCodec finishedBlank).outbox,
      m.status = .published ∧ m.publishedAt = none := ⟨_, List.mem_cons_self, by decide, by decide⟩
  exact (formed _ _ (transactions_run sampleCodec (by decide)) _ last m member).published published
    undated

def finishedOps : List (Op Unit) :=
  finishedBlank.take 2 ++
    [.finishDelivery samplePolicy ((newRow sampleCodec 7 (sampleEvent none) 0).claimed "publisher" 60
      1000000) (some "ConnectionError") 2000000]

theorem rows_wellFormed_sample :
    (tablesAfter sampleCodec finishedOps).outbox.rows.Forall OutboxMessage.WellFormed := by
  rw [List.forall_iff_forall_mem]
  have spared : ∀ event ∈ transactions sampleCodec finishedOps,
      ¬ FinishesBlank event.before event.label := by
    simp only [finishedOps, finishedBlank, transactions, trace, List.take, List.cons_append,
      List.nil_append, List.mem_cons, List.not_mem_nil, or_false]
    rintro _ (rfl | rfl | rfl) blank
    · cases blank
    · cases blank
    · simpa using blank.error
  have run : Run (Step sampleCodec fun op => op.publishes) Tables.empty
      (transactions sampleCodec finishedOps) (tablesAfter sampleCodec finishedOps) :=
    transactions_run sampleCodec (by decide)
  exact (rows_wellFormed_iff run).mpr spared _ (List.mem_of_mem_getLast? rfl)

end TplBackend
