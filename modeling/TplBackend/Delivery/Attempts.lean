import TplBackend.Delivery.Publishers

namespace TplBackend

open Keyed Ranking Transition SqlOutboxRepository DurableDelivery

variable {J : Type}

def Op.pumped (P : DurableDelivery) : Op J → Prop
  | .claimDelivery Q .. | .reconcile Q .. => Q = P
  | .finishDelivery Q _ error _ => Q = P ∧ error ≠ some ""
  | .claimBatch .. | .markPublished .. | .markFailed .. => False
  | _ => True

/-- No message is above the limit, and one that waits at it is in the journal. -/
def WithinLimit (P : DurableDelivery) (s : Tables J) : Prop :=
  ∀ m ∈ s.outbox, m.attemptCount ≤ P.maxAttempts ∧
    (m.status = .pending → m.attemptCount < P.maxAttempts ∨ s.quarantined m.id = true)

/-- A claim that sees an expired delivery at the limit has an earlier candidate to take. -/
def ClaimsBelowLimit (codec : Codec J) (P : DurableDelivery) (s : Tables J) : Op J → Prop
  | .claimDelivery _ _ locked now =>
      ∀ m ∈ P.candidates codec locked now s, m.status = .delivering →
        P.maxAttempts ≤ m.attemptCount →
          preceding OutboxMessage.claimOrder m (P.candidates codec locked now s) ≠ []
  | _ => True

instance (codec : Codec J) (P : DurableDelivery) (s : Tables J) :
    (op : Op J) → Decidable (ClaimsBelowLimit codec P s op)
  | .claimDelivery _ _ locked now => inferInstanceAs (Decidable
      (∀ m ∈ P.candidates codec locked now s, m.status = .delivering →
        P.maxAttempts ≤ m.attemptCount →
          preceding OutboxMessage.claimOrder m (P.candidates codec locked now s) ≠ []))
  | .enqueue .. | .finishDelivery .. | .reconcile .. | .replay .. | .claimBatch ..
  | .markPublished .. | .markFailed .. | .claimExecution .. | .renew .. | .release ..
  | .acknowledge .. => inferInstanceAs (Decidable True)

def attempts (s : Tables J) (id : Uuid) : Nat := (s.outbox.find? id).elim 0 OutboxMessage.attemptCount

theorem attempts_of_mem {s : Tables J} {m : OutboxMessage J} (member : m ∈ s.outbox) :
    attempts s m.id = m.attemptCount := by
  rw [attempts, Table.find?_of_mem member]
  rfl

section Effects

variable [DecidableEq J] {codec : Codec J} {P : DurableDelivery} {op : Op J} {s : Tables J}
variable {before after : Publishers J}

theorem replay_attempts {id : Uuid} {now : Clock}
    (done : (perform codec (.replay P id now) s).1 = .done) :
    (perform codec (.replay P id now) s).2.outbox.find? id =
      (s.outbox.find? id).map (replayed now) := by
  cases result : P.replay id now s with
  | error raised => simp [perform, settle, result] at done
  | ok s' =>
      obtain ⟨_, _, rfl⟩ := replay_ok result
      simp only [perform, settle, result, bind_pure_comp, Except.map_ok, Table.find?_update]
      cases present : s.outbox.find? id with
      | none => rfl
      | some m => simp [(Table.find?_eq_some.mp present).2]

theorem replay_undone {id : Uuid} {now : Clock}
    (refused : (perform codec (.replay P id now) s).1 ≠ .done) :
    (perform codec (.replay P id now) s).2 = s := by
  cases result : P.replay id now s with
  | error raised => simp [perform, settle, result]
  | ok s' => simp [perform, settle, result] at refused

theorem replays_done (codec : Codec J) {id : Uuid} (replays : Replays s op id)
    (quarantined : s.quarantined id = true) :
    ∃ Q now, op = .replay Q id now ∧ (perform codec op s).1 = .done := by
  obtain ⟨Q, now, rfl, m, member, keyed, topic⟩ := replays
  refine ⟨Q, now, rfl, ?_⟩
  cases result : Q.replay id now s with
  | error raised =>
      rcases replay_error result with outside | absent
      · exact absurd topic (outside m member keyed)
      · rw [quarantined] at absent
        cases absent
  | ok s' => simp [perform, settle, result]

omit [DecidableEq J] in
theorem Rewrite.withinLimit {m m' : OutboxMessage J} (rewrite : Rewrite codec s op m m')
    (pumped : op.pumped P) (below : ClaimsBelowLimit codec P s op)
    (within : m.attemptCount ≤ P.maxAttempts ∧
      (m.status = .pending → m.attemptCount < P.maxAttempts ∨ s.quarantined m.id = true))
    (latest : ∀ Q message error now, op = .finishDelivery Q message error now →
      m.heldBy message.id message.leaseOwner now = true → m = message)
    (member : m ∈ s.outbox) :
    m'.attemptCount ≤ P.maxAttempts ∧
      (m'.status = .pending → m'.attemptCount < P.maxAttempts ∨ s.quarantined m.id = true ∨
        Buries s op m.id) := by
  cases rewrite with
  | same => exact ⟨within.1, fun pending => (within.2 pending).imp_right Or.inl⟩
  | @claimed Q owner locked now m chosen =>
      cases pumped
      refine ⟨?_, nofun⟩
      have passed := (nextCandidate_spec chosen).2.1
      obtain ⟨candidate, first⟩ := nextCandidate_iff.mp chosen
      simp only [DurableDelivery.candidate, unowned, Bool.and_eq_true, Bool.or_eq_true,
        decide_eq_true_eq, Bool.not_eq_true'] at passed
      obtain ⟨⟨_, pending | ⟨delivering, _⟩⟩, free⟩ := passed
      · rcases within.2 pending with fewer | quarantined
        · exact fewer
        · rw [free] at quarantined
          cases quarantined
      · by_contra full
        exact below m candidate delivering (Nat.le_of_not_lt full) first
  | batched => exact pumped.elim
  | @finished Q message error now m held =>
      refine ⟨within.1, fun pending => ?_⟩
      have same := latest Q message error now rfl held
      obtain ⟨rfl, named⟩ := pumped
      by_cases full : Q.maxAttempts ≤ m.attemptCount
      · have failing : truthy error = true := by
          cases failing : truthy error with
          | true => rfl
          | false => simp [DurableDelivery.finished, failing] at pending
        refine Or.inr (Or.inr ?_)
        have keyed := ((m.heldBy_iff _ _ _).mp held).1
        exact keyed ▸ .publishFailed member held failing (same ▸ full)
      · exact Or.inl (Nat.lt_of_not_le full)
  | requeued _ fewer =>
      cases pumped
      exact ⟨within.1, fun _ => Or.inl fewer⟩
  | replayed => exact ⟨Nat.zero_le _, fun _ => Or.inl P.maxAttempts_bounds.1⟩
  | published => exact pumped.elim
  | failed => exact pumped.elim

theorem step_withinLimit (valid : before.Valid) (step : Publishers.Step codec before op after)
    (pumped : op.pumped P) (below : ClaimsBelowLimit codec P before.tables op)
    (within : WithinLimit P before.tables) : WithinLimit P after.tables := by
  obtain ⟨admitted, rfl⟩ := step
  intro m' member
  simp only [Publishers.next] at member ⊢
  have journal := perform_quarantined codec op before.tables m'.id
  rcases perform_origin member with
    ⟨m, present, keyed, rewrite⟩ | ⟨_, _, _, _, _, _, new⟩
  · have latest (Q : DurableDelivery) (message : OutboxMessage J) (error : Option String)
        (now : Clock) (finishing : op = .finishDelivery Q message error now)
        (held : m.heldBy message.id message.leaseOwner now = true) : m = message := by
      obtain ⟨_, _, ⟨owner, drawn, leased⟩, _⟩ := (m.heldBy_iff _ _ _).mp held
      rw [finishing] at admitted
      exact valid.distinct m (valid.owned m present owner leased) message admitted
        (leased.trans drawn.symm)
    obtain ⟨bound, waiting⟩ := rewrite.withinLimit pumped below (within m present) latest present
    refine ⟨bound, fun pending => ?_⟩
    rw [keyed] at waiting
    rcases waiting pending with fewer | quarantined | buries
    · exact Or.inl fewer
    · by_cases replays : Replays before.tables op m'.id
      · obtain ⟨Q, now, rfl, done⟩ := replays_done codec replays quarantined
        have row := replay_attempts done
        rw [Table.find?_of_mem member, ← keyed, Table.find?_of_mem present] at row
        cases row
        exact Or.inl P.maxAttempts_bounds.1
      · exact Or.inr (journal.mpr (Or.inr ⟨quarantined, replays⟩))
    · exact Or.inr (journal.mpr (Or.inl buries))
  · rw [new]
    exact ⟨Nat.zero_le _, fun _ => Or.inl P.maxAttempts_bounds.1⟩

/-- A claim that takes an expired delivery at the limit counts one attempt too many. -/
theorem claim_exceeds {owner : String} {locked : Uuid → Bool} {now : Clock}
    (above : ¬ ClaimsBelowLimit codec P s (.claimDelivery P owner locked now)) :
    ∃ m ∈ (perform codec (.claimDelivery P owner locked now) s).2.outbox,
      P.maxAttempts < m.attemptCount := by
  simp only [ClaimsBelowLimit, not_forall, ne_eq, not_not] at above
  obtain ⟨m, candidate, _, full, first⟩ := above
  have chosen := nextCandidate_iff.mpr ⟨candidate, first⟩
  refine ⟨m.claimed owner P.leaseSeconds now, ?_, Nat.lt_succ_of_le full⟩
  rw [Publishers.perform_claimDelivery _ chosen]
  simp only
  exact Table.mem_update.mpr ⟨m, (mem_candidates.mp candidate).1, by simp⟩

theorem attempts_kept (pumped : op.pumped P) (id : Uuid)
    (noClaim : ∀ Q owner locked now, op ≠ .claimDelivery Q owner locked now)
    (noReplay : ∀ Q now, op ≠ .replay Q id now) :
    attempts (perform codec op s).2 id = attempts s id := by
  have row := perform_row codec op s id
  rw [attempts, attempts]
  have keyed (m : OutboxMessage J) (found : s.outbox.find? id = some m) : m.id = id :=
    (Table.find?_eq_some.mp found).2
  generalize s.outbox.find? id = old at row keyed
  generalize (perform codec op s).2.outbox.find? id = new at row
  cases row with
  | absent => rfl
  | inserted => rfl
  | rewritten rewrite =>
      cases rewrite with
      | claimed => exact absurd rfl (noClaim _ _ _ _)
      | batched => exact pumped.elim
      | replayed => exact absurd (by rw [keyed _ rfl]) (noReplay _ _)
      | _ => rfl

theorem attempts_claimed {locked : Uuid → Bool} {now : Clock} {m : OutboxMessage J} (owner : String)
    (chosen : P.nextCandidate codec locked now s = some m) (id : Uuid) :
    attempts (perform codec (.claimDelivery P owner locked now) s).2 id =
      if m.id = id then attempts s id + 1 else attempts s id := by
  rw [Publishers.perform_claimDelivery _ chosen, attempts, attempts]
  simp only [Table.find?_update]
  have present := Table.find?_of_mem (nextCandidate_spec chosen).1
  by_cases same : m.id = id
  · rw [if_pos same, ← same, present]
    simp [OutboxMessage.claimed]
  · rw [if_neg same]
    cases other : s.outbox.find? id with
    | none => rfl
    | some row =>
        have keyed : row.id = id := (Table.find?_eq_some.mp other).2
        simp [keyed, Ne.symm same]

theorem perform_claimDelivery_none {locked : Uuid → Bool} {now : Clock} (owner : String)
    (chosen : P.nextCandidate codec locked now s = none) :
    perform codec (.claimDelivery P owner locked now) s = (.claimed none, s) := by
  simp only [perform, claimDelivery, chosen]
  split <;> rfl

end Effects

end TplBackend
