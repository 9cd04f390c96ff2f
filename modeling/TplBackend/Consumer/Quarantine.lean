import TplBackend.Consumer.Soundness

namespace TplBackend

open Keyed Transition

variable {J W : Type}

namespace Consumers

open DurableTasks

def BuriedBy (event : Event (Consumers J W) (Label J W)) (id : Uuid) : Prop :=
  ∃ op, event.label = .delivery op ∧ Buries event.before.tables op id

def ReplayedBy (event : Event (Consumers J W) (Label J W)) (id : Uuid) : Prop :=
  ∃ op, event.label = .delivery op ∧ Replays event.before.tables op id

/-- The message is buried and not replayed after that. -/
def LeftBuried (events : List (Event (Consumers J W) (Label J W))) (id : Uuid) : Prop :=
  ∃ earlier event later, events = earlier ++ event :: later ∧ BuriedBy event id ∧
    ∀ other ∈ later, ¬ ReplayedBy other id

variable {steps : List (Event (Consumers J W) (Label J W))}
variable {event : Event (Consumers J W) (Label J W)} {id : Uuid}

theorem not_leftBuried_nil : ¬ LeftBuried ([] : List (Event (Consumers J W) (Label J W))) id := by
  rintro ⟨_, _, _, split, _⟩
  simp at split

theorem leftBuried_concat : LeftBuried (steps ++ [event]) id ↔
    BuriedBy event id ∨ (LeftBuried steps id ∧ ¬ ReplayedBy event id) := by
  constructor
  · rintro ⟨earlier, burial, later, split, buried, kept⟩
    induction later using List.reverseRecOn with
    | nil =>
        obtain ⟨_, single⟩ := List.append_inj' split rfl
        cases single
        exact Or.inl buried
    | append_singleton later final _ =>
        rw [← List.cons_append, ← List.append_assoc] at split
        obtain ⟨rfl, single⟩ := List.append_inj' split rfl
        cases single
        refine Or.inr ⟨⟨earlier, burial, later, rfl, buried, ?_⟩, kept _ (by simp)⟩
        exact fun other member => kept other (List.mem_append_left _ member)
  · rintro (buried | ⟨⟨earlier, burial, later, rfl, buried, kept⟩, last⟩)
    · exact ⟨steps, event, [], rfl, buried, by simp⟩
    · refine ⟨earlier, burial, later ++ [event], by simp, buried, ?_⟩
      intro other member
      rcases List.mem_append.mp member with old | new
      · exact kept other old
      · rw [List.mem_singleton.mp new]
        exact last

variable [DecidableEq J] {codec : Codec J} {state after : Consumers J W} {label : Label J W}
variable {pid : Nat}

theorem moves_deadLetters (moves : Moves codec state label after)
    (inside : ∀ op, label ≠ .delivery op) : after.tables.deadLetters = state.tables.deadLetters := by
  cases moves with
  | @delivered op => exact absurd rfl (inside op)
  | committed =>
      simp only [sessionCommitted, put, free, Consumers.marked]
      split <;> rfl
  | renewed _ _ result =>
      obtain ⟨_, rfl⟩ := renew_ok result
      rfl
  | _ => rfl

theorem inside_quarantined (step : Step codec event.before event.label event.after)
    (inside : ∀ op, event.label ≠ .delivery op) (id : Uuid) :
    event.after.tables.quarantined id = event.before.tables.quarantined id :=
  Tables.quarantined_congr (congrArg (Table.find? · id) (moves_deadLetters (step_moves step) inside))

theorem step_quarantined (step : Step codec event.before event.label event.after) (id : Uuid) :
    event.after.tables.quarantined id = true ↔ BuriedBy event id ∨
      (event.before.tables.quarantined id = true ∧ ¬ ReplayedBy event id) := by
  by_cases outside : ∃ op, event.label = .delivery op
  · obtain ⟨op, performs⟩ := outside
    have moves := step_moves step
    obtain ⟨before, label, after⟩ := event
    simp only at performs moves ⊢
    subst performs
    cases moves with
    | delivered =>
        rw [perform_quarantined codec op before.tables id]
        simp [BuriedBy, ReplayedBy]
  · have inside : ∀ op, event.label ≠ .delivery op := fun op same => outside ⟨op, same⟩
    have noBurial : ¬ BuriedBy event id := by
      rintro ⟨op, same, _⟩
      exact inside op same
    have noReplay : ¬ ReplayedBy event id := by
      rintro ⟨op, same, _⟩
      exact inside op same
    rw [inside_quarantined step inside, or_iff_right noBurial, and_iff_left noReplay]

section Runs

variable {history earlier middle : List (Event (Consumers J W) (Label J W))}

theorem quarantined_iff_leftBuried
    (run : Run (Step codec) start (earlier ++ event :: middle) state) (id : Uuid) :
    state.tables.quarantined id = true ↔ LeftBuried middle id ∨
      (event.after.tables.quarantined id = true ∧ ∀ other ∈ middle, ¬ ReplayedBy other id) := by
  induction middle using List.reverseRecOn generalizing state with
  | nil =>
      rw [run.last.2.2, or_iff_right not_leftBuried_nil]
      simp
  | append_singleton middle final ih =>
      rw [← List.cons_append, ← List.append_assoc] at run
      obtain ⟨shorter, step, rfl⟩ := run.last
      rw [step_quarantined step id, ih shorter, leftBuried_concat, or_and_right,
        or_assoc]
      refine or_congr_right (or_congr_right ?_)
      rw [and_assoc]
      refine and_congr_right fun _ => ?_
      constructor
      · rintro ⟨kept, last⟩ other member
        rcases List.mem_append.mp member with old | new
        · exact kept other old
        · rw [List.mem_singleton.mp new]
          exact last
      · exact fun every => ⟨fun other member => every other (List.mem_append_left _ member),
          every final (by simp)⟩

theorem run_selected (run : Run (Step codec) start history state) {message : OutboxMessage J}
    (about : (state.calls pid).message? = some message) :
    ∃ earlier selection middle D now, history = earlier ++ selection :: middle ∧
      selection.label = .select pid D message.id now ∧
      D.eligible codec message.id now selection.before.tables = some message := by
  induction run with
  | init => cases about
  | @next history before after label _ step ih =>
      rcases moves_message (step_moves step) about with old | ⟨D, now, selects, chosen⟩
      · obtain ⟨earlier, selection, middle, D, now, rfl, selects, chosen⟩ := ih old
        exact ⟨earlier, selection, middle ++ [⟨before, label, after⟩], D, now, by simp, selects,
          chosen⟩
      · exact ⟨history, ⟨before, label, after⟩, [], D, now, rfl, selects, chosen⟩

def GrantsFree (event : Event (Consumers J W) (Label J W)) : Prop :=
  ∀ pid message taken, event.label = .commitClaim pid →
    event.before.calls pid = .rechecked message taken false →
      event.after.tables.quarantined message.id = false

/-- Between the eligibility read of a claim that gets its lease and its commit, every burial of the
message is followed by a replay. -/
def UnburiedBetween (history : List (Event (Consumers J W) (Label J W))) : Prop :=
  ∀ earlier selection middle grant later pid D now message taken,
    history = earlier ++ selection :: (middle ++ grant :: later) →
    selection.label = .select pid D message.id now → grant.label = .commitClaim pid →
    grant.before.calls pid = .rechecked message taken false → ¬ LeftBuried middle message.id

/-- In every run the consumer's quarantine holds at each grant exactly as long as no message is left
buried between the eligibility read of its claim and the commit. -/
theorem quarantine_respected_iff (run : Run (Step codec) start history state) :
    (∀ event ∈ history, GrantsFree event) ↔ UnburiedBetween history := by
  constructor
  · rintro free earlier selection middle grant later pid D now message taken rfl _ commits held left
    have respected := free grant (by simp) pid message taken commits held
    rw [← List.cons_append, ← List.append_assoc] at run
    obtain ⟨before, step⟩ := run.at_event
    have inside : ∀ op, grant.label ≠ .delivery op := by simp [commits]
    rw [inside_quarantined step inside,
      (quarantined_iff_leftBuried before message.id).mpr (Or.inl left)] at respected
    cases respected
  · intro unburied grant occurred pid message taken commits held
    obtain ⟨shorter, later, rfl, before, step⟩ := run.of_mem occurred
    have about : (grant.before.calls pid).message? = some message := by
      rw [held]
      rfl
    obtain ⟨earlier, selection, middle, D, now, rfl, selects, chosen⟩ := run_selected before about
    obtain ⟨_, selected⟩ := before.at_event
    have inside : ∀ op, grant.label ≠ .delivery op := by simp [commits]
    have reads : ∀ op, selection.label ≠ .delivery op := by simp [selects]
    have free : selection.after.tables.quarantined message.id = false := by
      rw [inside_quarantined selected reads]
      exact (eligible_spec chosen).2.2.2.2.2
    have settled := unburied earlier selection middle grant later pid D now message taken
      (by simp) selects commits held
    rw [inside_quarantined step inside, ← Bool.not_eq_true,
      quarantined_iff_leftBuried before message.id]
    rintro (left | ⟨quarantined, _⟩)
    · exact settled left
    · rw [free] at quarantined
      cases quarantined

end Runs

/-- Reconciliation gives a published message up between the eligibility read of its consumer and
the upsert of the lease. -/
def buriedWhileClaiming : List (Label Unit Nat) :=
  [.delivery (.enqueue 7 (sampleEvent none) 0),
    .delivery (.claimDelivery samplePolicy "publisher" (fun _ => false) 1000000),
    .delivery (.finishDelivery samplePolicy
      ((SqlOutboxRepository.newRow sampleCodec 7 (sampleEvent none) 0).claimed "publisher" 60
        1000000) none 2000000),
    .select 0 sampleTasks 7 100000000,
    .delivery (.reconcile samplePolicy (fun _ => false) 101000000),
    .upsert 0 11 102000000, .recheck 0, .commitClaim 0]

theorem granted_quarantined :
    ¬ ∀ history (state : Consumers Unit Nat), Run (Step sampleCodec) start history state →
      ∀ event ∈ history, GrantsFree event := by
  intro respected
  have run := events_run sampleCodec buriedWhileClaiming (by decide)
  have last : ⟨stateAfter sampleCodec (buriedWhileClaiming.take 7), .commitClaim 0,
      stateAfter sampleCodec buriedWhileClaiming⟩ ∈ events sampleCodec buriedWhileClaiming :=
    List.mem_of_mem_getLast? rfl
  have free := respected _ _ run _ last 0 _ _ rfl rfl
  revert free
  decide

def replayedWhileClaiming : List (Label Unit Nat) :=
  buriedWhileClaiming.take 5 ++
    [.delivery (.replay samplePolicy 7 101500000), .upsert 0 11 102000000, .recheck 0,
      .commitClaim 0]

theorem quarantine_respected_replayed :
    UnburiedBetween (events sampleCodec replayedWhileClaiming) := by
  refine (quarantine_respected_iff (events_run sampleCodec replayedWhileClaiming (by decide))).mp ?_
  have replayed : ∀ event ∈ events sampleCodec replayedWhileClaiming,
      (match event.label with
        | .commitClaim _ => event.after.tables.deadLetters.rows.all fun d => d.replayedAt.isSome
        | _ => true) = true := by decide
  intro event member pid message taken commits held
  have journal := replayed event member
  rw [commits] at journal
  refine List.any_eq_false.mpr fun d present => ?_
  have answered : d.replayedAt.isSome = true := List.all_eq_true.mp journal d present
  simp only [decide_eq_true_eq, not_and]
  rintro - missing
  rw [missing] at answered
  cases answered

end Consumers

end TplBackend
