import TplBackend.Delivery.Attempts

namespace TplBackend

open Keyed Ranking Transition SqlOutboxRepository DurableDelivery

variable {J : Type}

/-- One execution of `pump`, between its awaits; `count` is the number of finished rounds. -/
inductive Pump (J : Type)
  | starting
  | looping (count : Nat)
  | publishing (count : Nat) (message : OutboxMessage J)
  | finishing (count : Nat) (message : OutboxMessage J) (error : Option String)
  | returned (count : Nat)
  | dead

/-- The head of `for _ in range(limit)`. -/
def Pump.round (limit count : Nat) : Pump J :=
  if count < limit then .looping count else .returned count

def Pump.message? : Pump J → Option (OutboxMessage J)
  | .publishing _ message | .finishing _ message _ => some message
  | _ => none

/-- Any number of pumps around the publishers' tables. -/
structure Pumps (J : Type) where
  publishers : Publishers J
  pumps : Nat → Pump J

namespace Pumps

/-- `publish` ends without an exception or with the name of one; `other` is everybody else. -/
inductive Label (J : Type)
  | reconcile (pid : Nat) (locked : Uuid → Bool) (now : Clock)
  | claim (pid : Nat) (owner : String) (locked : Uuid → Bool) (now : Clock)
  | publish (pid : Nat) (error : Option String)
  | finish (pid : Nat) (now : Clock)
  | die (pid : Nat)
  | other (op : Op J)

def start : Pumps J := ⟨Publishers.start, fun _ => .starting⟩

def put (state : Pumps J) (pid : Nat) (pump : Pump J) : Pumps J :=
  { state with pumps := Function.update state.pumps pid pump }

def outside : Op J → Bool
  | .enqueue .. | .replay .. | .claimExecution .. | .renew .. | .release .. | .acknowledge .. => true
  | _ => false

def next [DecidableEq J] (codec : Codec J) (P : DurableDelivery) (limits : Nat → Nat)
    (state : Pumps J) : Label J → Option (Pumps J)
  | .reconcile pid locked now =>
      match state.pumps pid with
      | .starting => some (put ⟨state.publishers.next codec (.reconcile P locked now), state.pumps⟩
          pid (.round (limits pid) 0))
      | _ => none
  | .claim pid owner locked now =>
      match state.pumps pid with
      | .looping count =>
          if ∀ c ∈ state.publishers.claims, c.leaseOwner ≠ some owner then
            let claiming := Op.claimDelivery P owner locked now
            some (put ⟨state.publishers.next codec claiming, state.pumps⟩ pid
              (match (perform codec claiming state.publishers.tables).1.claims with
                | [] => .returned count
                | message :: _ => .publishing count message))
          else none
      | _ => none
  | .publish pid error =>
      match state.pumps pid with
      | .publishing count message =>
          if error = some "" then none else some (put state pid (.finishing count message error))
      | _ => none
  | .finish pid now =>
      match state.pumps pid with
      -- `DeliveryLeaseLost` is swallowed: the round counts either way.
      | .finishing count message error =>
          some (put ⟨state.publishers.next codec (.finishDelivery P message error now), state.pumps⟩
            pid (.round (limits pid) (count + 1)))
      | _ => none
  | .die pid => some (put state pid .dead)
  | .other op =>
      if outside op then some ⟨state.publishers.next codec op, state.pumps⟩ else none

def Step [DecidableEq J] (codec : Codec J) (P : DurableDelivery) (limits : Nat → Nat)
    (before : Pumps J) (label : Label J) (after : Pumps J) : Prop :=
  next codec P limits before label = some after

def operation (P : DurableDelivery) (state : Pumps J) : Label J → Option (Op J)
  | .reconcile _ locked now => some (.reconcile P locked now)
  | .claim _ owner locked now => some (.claimDelivery P owner locked now)
  | .finish pid now =>
      match state.pumps pid with
      | .finishing _ message error => some (.finishDelivery P message error now)
      | _ => none
  | .other op => some op
  | _ => none

structure Valid (state : Pumps J) : Prop where
  claimed : ∀ pid message, (state.pumps pid).message? = some message →
    message ∈ state.publishers.claims
  named : ∀ pid count message error, state.pumps pid = .finishing count message error →
    error ≠ some ""

theorem put_pumps (state : Pumps J) (pid other : Nat) (pump : Pump J) :
    (put state pid pump).pumps other = if other = pid then pump else state.pumps other :=
  Function.update_apply _ _ _ _

theorem round_message? (limit count : Nat) : (Pump.round limit count : Pump J).message? = none := by
  unfold Pump.round
  split <;> rfl

theorem round_not_finishing (limit count other : Nat) (message : OutboxMessage J)
    (error : Option String) : (Pump.round limit count : Pump J) ≠ .finishing other message error := by
  unfold Pump.round
  split <;> nofun

theorem start_valid : Valid (start : Pumps J) where
  claimed := fun _ _ holds => by cases holds
  named := fun _ _ _ _ holds => by cases holds

theorem valid_put {state : Pumps J} (valid : Valid state) (pid : Nat) {pump : Pump J}
    (claimed : ∀ message, pump.message? = some message → message ∈ state.publishers.claims)
    (named : ∀ count message error, pump = .finishing count message error → error ≠ some "") :
    Valid (put state pid pump) where
  claimed := by
    intro other message holds
    rw [put_pumps] at holds
    split at holds
    · exact claimed message holds
    · exact valid.claimed other message holds
  named := by
    intro other count message error holds
    rw [put_pumps] at holds
    split at holds
    · exact named count message error holds
    · exact valid.named other count message error holds

section Steps

variable [DecidableEq J] {codec : Codec J} {P : DurableDelivery} {limits : Nat → Nat}
variable {before after state : Pumps J} {label : Label J}

theorem step_publishers (valid : Valid before) (step : Step codec P limits before label after) :
    match operation P before label with
    | some op => Publishers.Step codec before.publishers op after.publishers ∧ op.pumped P
    | none => after.publishers = before.publishers := by
  cases label with
  | reconcile pid locked now =>
      simp only [Step, next] at step
      split at step
      · cases step
        exact ⟨⟨trivial, rfl⟩, rfl⟩
      · cases step
  | claim pid owner locked now =>
      simp only [Step, next] at step
      split at step
      · split at step
        · rename_i fresh
          cases step
          exact ⟨⟨fresh, rfl⟩, rfl⟩
        · cases step
      · cases step
  | publish pid error =>
      simp only [Step, next] at step
      split at step
      · split at step
        · cases step
        · cases step
          rfl
      · cases step
  | finish pid now =>
      simp only [Step, next] at step
      split at step
      · rename_i count message error phase
        cases step
        simp only [operation, phase]
        exact ⟨⟨valid.claimed pid message (by rw [phase]; rfl), rfl⟩, rfl,
          valid.named pid count message error phase⟩
      · cases step
  | die pid =>
      cases step
      rfl
  | other op =>
      simp only [Step, next] at step
      split at step
      · rename_i allowed
        cases step
        cases op <;> first | exact ⟨⟨trivial, rfl⟩, trivial⟩ | cases allowed
      · cases step

theorem valid_next (valid : Valid before) (op : Op J) :
    Valid ⟨before.publishers.next codec op, before.pumps⟩ where
  claimed := fun pid message holds => List.mem_append_left _ (valid.claimed pid message holds)
  named := valid.named

theorem step_valid (valid : Valid before) (step : Step codec P limits before label after) :
    Valid after := by
  cases label with
  | reconcile pid locked now =>
      simp only [Step, next] at step
      split at step
      · cases step
        exact valid_put (valid_next valid _) pid (by simp [round_message?])
          fun _ _ _ holds => absurd holds (round_not_finishing _ _ _ _ _)
      · cases step
  | claim pid owner locked now =>
      simp only [Step, next] at step
      split at step
      · split at step
        · cases step
          refine valid_put (valid_next valid _) pid ?_ ?_
          · intro message holds
            split at holds
            · cases holds
            · rename_i first rest claims
              cases holds
              refine List.mem_append_right _ ?_
              rw [claims]
              exact List.mem_cons_self
          · intro _ _ _ holds
            split at holds <;> cases holds
        · cases step
      · cases step
  | publish pid error =>
      simp only [Step, next] at step
      split at step
      · rename_i count message phase
        split at step
        · cases step
        · rename_i named
          cases step
          refine valid_put valid pid ?_ ?_
          · intro _ holds
            cases holds
            exact valid.claimed pid message (by rw [phase]; rfl)
          · intro _ _ _ holds
            cases holds
            exact named
      · cases step
  | finish pid now =>
      simp only [Step, next] at step
      split at step
      · cases step
        exact valid_put (valid_next valid _) pid (by simp [round_message?])
          fun _ _ _ holds => absurd holds (round_not_finishing _ _ _ _ _)
      · cases step
  | die pid =>
      cases step
      exact valid_put valid pid (fun _ holds => by cases holds) fun _ _ _ holds => by cases holds
  | other op =>
      simp only [Step, next] at step
      split at step
      · cases step
        exact valid_next valid op
      · cases step

def simulation (codec : Codec J) (P : DurableDelivery) (limits : Nat → Nat) :
    Simulation (Step codec P limits) (Publishers.Step codec) (start : Pumps J) where
  view := publishers
  good := Valid
  good_start := start_valid
  good_step := fun _ _ _ valid step => step_valid valid step
  matches_step := by
    intro before label after valid step
    have matched := step_publishers valid step
    split at matched
    · exact Or.inr ⟨_, matched.1⟩
    · exact Or.inl matched

theorem run_valid {history : List (Event (Pumps J) (Label J))}
    (run : Run (Step codec P limits) start history state) :
    Valid state ∧ state.publishers.Valid := by
  obtain ⟨valid, moves, abstract⟩ := (simulation codec P limits).run run
  exact ⟨valid, Publishers.run_valid abstract⟩

/-- The claim of the event, if it is one, finds an earlier candidate than any at the limit. -/
def ClaimsBelow (codec : Codec J) (P : DurableDelivery) (event : Event (Pumps J) (Label J)) : Prop :=
  ∀ op ∈ operation P event.before event.label,
    ClaimsBelowLimit codec P event.before.publishers.tables op

instance (codec : Codec J) (P : DurableDelivery) (event : Event (Pumps J) (Label J)) :
    Decidable (ClaimsBelow codec P event) :=
  inferInstanceAs (Decidable (∀ op ∈ operation P event.before event.label, _))

theorem step_withinLimit (valid : Valid before) (publishers : before.publishers.Valid)
    (step : Step codec P limits before label after) (below : ClaimsBelow codec P ⟨before, label, after⟩)
    (within : WithinLimit P before.publishers.tables) :
    WithinLimit P after.publishers.tables := by
  have matched := step_publishers valid step
  split at matched
  · rename_i op performed
    exact TplBackend.step_withinLimit publishers matched.1 matched.2 (below op performed) within
  · rw [matched]
    exact within

theorem run_withinLimit {history : List (Event (Pumps J) (Label J))}
    (run : Run (Step codec P limits) start history state)
    (below : ∀ event ∈ history, ClaimsBelow codec P event) :
    WithinLimit P state.publishers.tables := by
  induction run with
  | init => exact fun m member => absurd member (Table.not_mem_empty m)
  | next run step ih =>
      obtain ⟨valid, publishers⟩ := run_valid run
      have earlier := ih fun event member => below event (List.mem_append_left _ member)
      exact step_withinLimit valid publishers step (below _ (by simp)) earlier

/-- What an event adds to the number of times a message was handed to `publish`. -/
def tally (codec : Codec J) (id : Uuid) (count : Nat) (event : Event (Pumps J) (Label J)) : Nat :=
  match event.label with
  | .claim pid _ _ _ =>
      match event.after.pumps pid with
      | .publishing _ message => if message.id = id then count + 1 else count
      | _ => count
  | .other (.replay Q key now) =>
      match (perform codec (.replay Q key now) event.before.publishers.tables).1 with
      | .done => if key = id then 0 else count
      | _ => count
  | _ => count

def handed (codec : Codec J) (id : Uuid) (history : List (Event (Pumps J) (Label J))) : Nat :=
  history.foldl (tally codec id) 0

theorem tally_kept (valid : Valid before) (step : Step codec P limits before label after) (id : Uuid)
    (noClaim : ∀ pid owner locked now, label ≠ .claim pid owner locked now)
    (noReplay : ∀ Q now, label ≠ .other (.replay Q id now)) :
    attempts after.publishers.tables id = attempts before.publishers.tables id := by
  have matched := step_publishers valid step
  split at matched
  · rename_i op performed
    obtain ⟨⟨_, published⟩, pumped⟩ := matched
    rw [published]
    refine attempts_kept pumped id ?_ ?_
    · rintro Q owner locked now rfl
      cases label with
      | claim pid => exact noClaim _ _ _ _ rfl
      | finish pid now =>
          simp only [operation] at performed
          split at performed <;> cases performed
      | other op =>
          cases performed
          simp [Step, next, outside] at step
      | _ => cases performed
    · rintro Q now rfl
      cases label with
      | finish pid now =>
          simp only [operation] at performed
          split at performed <;> cases performed
      | other op =>
          cases performed
          exact noReplay _ _ rfl
      | _ => cases performed
  · rw [matched]

theorem tally_claim {pid : Nat} {owner : String} {locked : Uuid → Bool} {now : Clock}
    (step : Step codec P limits before (.claim pid owner locked now) after) (id : Uuid) :
    tally codec id (attempts before.publishers.tables id)
      ⟨before, .claim pid owner locked now, after⟩ = attempts after.publishers.tables id := by
  simp only [Step, next] at step
  split at step
  · split at step
    · cases step
      simp only [tally, put_pumps, if_pos]
      cases chosen : P.nextCandidate codec locked now before.publishers.tables with
      | none =>
          have idle := perform_claimDelivery_none owner chosen
          simp [put, Publishers.next, idle, Reply.claims]
      | some m =>
          have claims := Publishers.claims_claimDelivery owner chosen
          have counted := attempts_claimed owner chosen id
          simp only [claims, put, Publishers.next, OutboxMessage.claimed_id]
          exact counted.symm
    · cases step
  · cases step

theorem tally_replay (valid : Valid before) {Q : DurableDelivery} {key : Uuid} {now : Clock}
    (step : Step codec P limits before (.other (.replay Q key now)) after) (id : Uuid) :
    tally codec id (attempts before.publishers.tables id)
      ⟨before, .other (.replay Q key now), after⟩ = attempts after.publishers.tables id := by
  have written : after.publishers = before.publishers.next codec (.replay Q key now) := by
    simp only [Step, next, outside, if_true, Option.some.injEq] at step
    rw [← step]
  by_cases same : key = id
  · subst same
    simp only [tally, if_true, written, Publishers.next]
    split
    · rename_i done
      rw [attempts, replay_attempts done]
      cases before.publishers.tables.outbox.find? key <;> rfl
    · rename_i refused
      rw [replay_undone refused]
  · have kept := tally_kept valid step id (fun _ _ _ _ equal => by cases equal)
      (by rintro _ _ ⟨⟩; exact same rfl)
    simp only [tally, if_neg same]
    split <;> exact kept.symm

theorem step_tally (valid : Valid before) (step : Step codec P limits before label after)
    (id : Uuid) : tally codec id (attempts before.publishers.tables id) ⟨before, label, after⟩ =
      attempts after.publishers.tables id := by
  cases label with
  | claim pid owner locked now => exact tally_claim step id
  | other op =>
      cases op with
      | replay Q key now => exact tally_replay valid step id
      | _ => exact (tally_kept valid step id nofun nofun).symm
  | _ => exact (tally_kept valid step id nofun nofun).symm

theorem run_handed {history : List (Event (Pumps J) (Label J))}
    (run : Run (Step codec P limits) start history state) (id : Uuid) :
    handed codec id history = attempts state.publishers.tables id := by
  induction run with
  | init => rfl
  | next run step ih =>
      have folded := step_tally (run_valid run).1 step id
      rw [handed] at ih
      rw [handed, List.foldl_append, ih, List.foldl_cons, List.foldl_nil, folded]

theorem claim_above {event : Event (Pumps J) (Label J)} (valid : Valid event.before)
    (step : Step codec P limits event.before event.label event.after)
    (above : ¬ ClaimsBelow codec P event) :
    ∃ m ∈ event.after.publishers.tables.outbox, P.maxAttempts < m.attemptCount := by
  simp only [ClaimsBelow, not_forall] at above
  obtain ⟨op, performed, exceeds⟩ := above
  have matched := step_publishers valid step
  rw [Option.mem_def.mp performed] at matched
  obtain ⟨⟨_, published⟩, pumped⟩ := matched
  rw [published]
  cases op with
  | claimDelivery Q owner locked now =>
      cases pumped
      exact claim_exceeds exceeds
  | _ => exact absurd trivial exceeds

/-- In every run of pumps the attempts stay within the limit, on the rows and at the broker,
exactly as long as no claim takes an expired delivery that has used them up. -/
theorem attempts_bounded_iff {history : List (Event (Pumps J) (Label J))}
    (run : Run (Step codec P limits) start history state) :
    ((∀ event ∈ history, ∀ m ∈ event.after.publishers.tables.outbox,
        m.attemptCount ≤ P.maxAttempts) ↔ ∀ event ∈ history, ClaimsBelow codec P event) ∧
    ((∀ earlier later, history = earlier ++ later → ∀ id, handed codec id earlier ≤ P.maxAttempts) ↔
      ∀ event ∈ history, ClaimsBelow codec P event) := by
  have rows : (∀ event ∈ history, ∀ m ∈ event.after.publishers.tables.outbox,
      m.attemptCount ≤ P.maxAttempts) → ∀ event ∈ history, ClaimsBelow codec P event := by
    intro bounded event occurred
    by_contra above
    obtain ⟨_, _, _, before, step⟩ := run.of_mem occurred
    obtain ⟨m, member, exceeds⟩ := claim_above (run_valid before).1 step above
    exact absurd (bounded event occurred m member) (not_le.mpr exceeds)
  have within (below : ∀ event ∈ history, ClaimsBelow codec P event)
      (earlier later : List (Event (Pumps J) (Label J))) (reached : Pumps J)
      (order : history = earlier ++ later) (started : Run (Step codec P limits) start earlier reached) :
      WithinLimit P reached.publishers.tables :=
    run_withinLimit started fun event member =>
      below event (order ▸ List.mem_append_left later member)
  refine ⟨⟨rows, fun below event occurred m member => ?_⟩, ⟨fun bounded => rows ?_,
    fun below earlier later order id => ?_⟩⟩
  · obtain ⟨earlier, later, rfl⟩ := List.append_of_mem occurred
    exact (within below (earlier ++ [event]) later event.after (by simp) run.through m member).1
  · intro event occurred m member
    obtain ⟨earlier, later, rfl⟩ := List.append_of_mem occurred
    rw [← attempts_of_mem member, ← run_handed run.through m.id]
    exact bounded (earlier ++ [event]) later (by simp) m.id
  · subst order
    obtain ⟨reached, started⟩ := run.beginning
    rw [run_handed started id, attempts]
    cases present : reached.publishers.tables.outbox.find? id with
    | none => exact Nat.zero_le _
    | some m =>
        have member := (Table.find?_eq_some.mp present).1
        exact (within below earlier later reached rfl started m member).1

end Steps

def events [DecidableEq J] (codec : Codec J) (P : DurableDelivery) (limits : Nat → Nat)
    (labels : List (Label J)) : List (Event (Pumps J) (Label J)) :=
  trace (fun state label => (next codec P limits state label).getD state) start labels

def after [DecidableEq J] (codec : Codec J) (P : DurableDelivery) (limits : Nat → Nat)
    (labels : List (Label J)) : Pumps J :=
  labels.foldl (fun state label => (next codec P limits state label).getD state) start

/-- One pump with one attempt allowed: its publish outlives the lease, `finish_delivery` loses it,
and the next round of the same pump takes the message again. -/
def slowPublish : List (Label Unit) :=
  [.other (.enqueue 7 (sampleEvent none) 0),
    .reconcile 0 (fun _ => false) 500000,
    .claim 0 "first" (fun _ => false) 1000000,
    .publish 0 none,
    .finish 0 71000000,
    .claim 0 "second" (fun _ => false) 72000000]

theorem slowPublish_taken : ∀ event ∈ events sampleCodec samplePolicy (fun _ => 100) slowPublish,
    (next sampleCodec samplePolicy (fun _ => 100) event.before event.label).isSome = true := by
  decide

theorem slowPublish_first_taken :
    ∀ event ∈ events sampleCodec samplePolicy (fun _ => 100) (slowPublish.take 5),
      (next sampleCodec samplePolicy (fun _ => 100) event.before event.label).isSome = true := by
  decide

theorem attempts_exceed :
    ¬ ∀ history state, Run (Step sampleCodec samplePolicy fun _ => 100) start history state →
      ∀ event ∈ history, ∀ m ∈ event.after.publishers.tables.outbox,
        m.attemptCount ≤ samplePolicy.maxAttempts := by
  intro bounded
  have last : ⟨after sampleCodec samplePolicy (fun _ => 100) (slowPublish.take 5),
      .claim 0 "second" (fun _ => false) 72000000,
      after sampleCodec samplePolicy (fun _ => 100) slowPublish⟩ ∈
        events sampleCodec samplePolicy (fun _ => 100) slowPublish :=
    List.mem_of_mem_getLast? rfl
  have within := bounded _ _ (Run.of_taken slowPublish_taken) _ last _ List.mem_cons_self
  revert within
  decide

theorem attempts_bounded_first_round :
    handed sampleCodec 7 (events sampleCodec samplePolicy (fun _ => 100) (slowPublish.take 5)) ≤ 1 :=
  (attempts_bounded_iff (Run.of_taken slowPublish_first_taken)).2.mpr (by decide) _ []
    (List.append_nil _).symm 7

end Pumps

end TplBackend
