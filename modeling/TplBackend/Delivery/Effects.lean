import TplBackend.Delivery.Operation

namespace TplBackend

open Keyed

variable {J : Type}

section Replies

open SqlOutboxRepository DurableDelivery

def Reply.handsOut : Reply J → List Uuid
  | .claimed (some m) => [m.id]
  | .batch messages => messages.map ClaimedOutboxEvent.id
  | .leased (some (lease, _)) => [lease.messageId]
  | _ => []

inductive HandsOut (codec : Codec J) (s : Tables J) : Op J → OutboxMessage J → Prop
  | delivered {P : DurableDelivery} {owner : String} {locked : Uuid → Bool} {now : Clock}
      {m : OutboxMessage J} : P.nextCandidate codec locked now s = some m →
      HandsOut codec s (.claimDelivery P owner locked now) m
  | batched {owner : String} {limit leaseSeconds : Int} {locked : Uuid → Bool} {now clock : Clock}
      {m : OutboxMessage J} : m ∈ batchCandidates codec limit.toNat locked now clock s →
      HandsOut codec s (.claimBatch owner limit leaseSeconds locked now clock) m
  | leased {D : DurableTasks} {owner : Uuid} {now : Clock} {m : OutboxMessage J} :
      D.eligible codec m.id now s = some m →
      HandsOut codec s (.claimExecution D m.id owner now) m

theorem eligible_spec {codec : Codec J} {D : DurableTasks} {id : Uuid} {now : Clock} {s : Tables J}
    {m : OutboxMessage J} (selected : D.eligible codec id now s = some m) :
    m ∈ s.outbox ∧ m.id = id ∧ m.topic ∈ D.handlers ∧ notBeforeDue codec m.headers now = true ∧
      s.acknowledged m.topic m.id = false ∧ s.quarantined m.id = false := by
  have passed := List.find?_some selected
  simp only [Bool.and_eq_true, decide_eq_true_eq, Bool.not_eq_true'] at passed
  obtain ⟨⟨⟨⟨keyed, topic⟩, due⟩, fresh⟩, free⟩ := passed
  exact ⟨List.mem_of_find?_eq_some selected, keyed, topic, due, fresh, free⟩

theorem perform_handsOut [DecidableEq J] {codec : Codec J} {op : Op J} {s : Tables J} {id : Uuid}
    (handed : id ∈ (perform codec op s).1.handsOut) :
    ∃ m ∈ s.outbox, m.id = id ∧ HandsOut codec s op m := by
  cases op with
  | claimDelivery P owner locked now =>
      simp only [perform, claimDelivery] at handed
      split at handed
      · simp [Reply.handsOut] at handed
      split at handed
      · simp [Reply.handsOut] at handed
      · rename_i m chosen
        exact ⟨m, (nextCandidate_spec chosen).1, by simpa [Reply.handsOut, eq_comm] using handed,
          .delivered chosen⟩
  | claimBatch owner limit leaseSeconds locked now clock =>
      cases result : claimBatch codec owner limit leaseSeconds locked now clock s with
      | error raised => simp [perform, settle, result, Reply.handsOut] at handed
      | ok value =>
          have messages := (claimBatch_ok result).1
          simp only [perform, settle, result, bind_pure_comp, Except.map_ok, Reply.handsOut,
            messages, List.mem_map] at handed
          obtain ⟨_, ⟨m, member, rfl⟩, keyed⟩ := handed
          exact ⟨m, (batchCandidates_spec member).1, keyed, .batched member⟩
  | claimExecution D key owner now =>
      have performed : (perform codec (.claimExecution D key owner now) s).1 =
          .leased (D.claimExecution codec key owner now s).1 := rfl
      rw [performed] at handed
      rcases D.claimExecution_cases codec key owner now s with
        idle | ⟨m, taken, selected, upserted, granted | refused⟩
      · simp [idle, Reply.handsOut] at handed
      · obtain ⟨member, rfl, _⟩ := eligible_spec selected
        have leased : m.id = id := by
          simpa [granted, Reply.handsOut, DurableTasks.leaseOf,
            (DurableTasks.takeover_spec upserted).1, eq_comm] using handed
        exact ⟨m, member, leased, .leased selected⟩
      · simp [refused, Reply.handsOut] at handed
  | enqueue key event now =>
      cases result : enqueue codec key event now s <;>
        simp [perform, settle, result, Reply.handsOut] at handed
  | finishDelivery P message error now =>
      cases result : P.finishDelivery message error now s <;>
        simp [perform, settle, result, Reply.handsOut] at handed
  | reconcile | release => simp [perform, Reply.handsOut] at handed
  | replay P key now =>
      cases result : P.replay key now s <;>
        simp [perform, settle, result, Reply.handsOut] at handed
  | markPublished key owner now clock =>
      cases result : markPublished key owner now clock s <;>
        simp [perform, settle, result, Reply.handsOut] at handed
  | markFailed key owner error retrySeconds now clock =>
      cases result : markFailed key owner error retrySeconds now clock s <;>
        simp [perform, settle, result, Reply.handsOut] at handed
  | renew D lease now =>
      cases result : D.renew lease now s <;>
        simp [perform, settle, result, Reply.handsOut] at handed
  | acknowledge lease topic now =>
      cases result : DurableTasks.acknowledge lease topic now s <;>
        simp [perform, settle, result, Reply.handsOut] at handed

end Replies

section Frame

open SqlOutboxRepository DurableDelivery

def Op.writesJournal : Op J → Bool
  | .finishDelivery .. | .reconcile .. | .replay .. => true
  | _ => false

def Op.writesInbox : Op J → Bool
  | .acknowledge .. => true
  | _ => false

def Op.writesExecutions : Op J → Bool
  | .claimExecution .. | .renew .. | .release .. => true
  | _ => false

structure Framed (op : Op J) (s s' : Tables J) : Prop where
  deadLetters : op.writesJournal = false → s'.deadLetters = s.deadLetters
  inbox : op.writesInbox = false → s'.inbox = s.inbox
  executions : op.writesExecutions = false → s'.executions = s.executions

theorem framed_refl (op : Op J) (s : Tables J) : Framed op s s :=
  ⟨fun _ => rfl, fun _ => rfl, fun _ => rfl⟩

theorem framed_outbox (op : Op J) (s : Tables J) (outbox : Table (@OutboxMessage.id J)) :
    Framed op s { s with outbox := outbox } :=
  ⟨fun _ => rfl, fun _ => rfl, fun _ => rfl⟩

theorem perform_frame [DecidableEq J] (codec : Codec J) (op : Op J) (s : Tables J) :
    Framed op s (perform codec op s).2 := by
  cases op with
  | enqueue key event now =>
      cases result : enqueue codec key event now s with
      | error raised => simpa [perform, settle, result] using framed_refl _ s
      | ok value =>
          have performed : (perform codec (.enqueue key event now) s).2 = value.2 := by
            simp [perform, settle, result]
          obtain ⟨_, _, ⟨_, _, _, same⟩ | ⟨_, _, _, _, _, same⟩⟩ := enqueue_ok result
          · rw [performed, same]
            exact framed_outbox _ s _
          · rw [performed, same]
            exact framed_refl _ s
  | claimDelivery P owner locked now =>
      simp only [perform, claimDelivery]
      split
      · exact framed_refl _ s
      split
      · exact framed_refl _ s
      · exact framed_outbox _ s _
  | finishDelivery P message error now =>
      cases result : P.finishDelivery message error now s with
      | error raised => simpa [perform, settle, result] using framed_refl _ s
      | ok s' =>
          have performed : (perform codec (.finishDelivery P message error now) s).2 = s' := by
            simp [perform, settle, result]
          obtain ⟨_, _, inbox, executions, _⟩ := finishDelivery_ok result
          rw [performed]
          exact ⟨fun kept => (by cases kept), fun _ => inbox, fun _ => executions⟩
  | reconcile P locked now =>
      have step := reconcileWith_reconciled P locked now activeExecution_steady s
      exact ⟨fun kept => (by cases kept), fun _ => step.inbox, fun _ => step.executions⟩
  | replay P key now =>
      cases result : P.replay key now s with
      | error raised => simpa [perform, settle, result] using framed_refl _ s
      | ok s' =>
          have performed : (perform codec (.replay P key now) s).2 = s' := by
            simp [perform, settle, result]
          obtain ⟨_, _, rfl⟩ := replay_ok result
          rw [performed]
          exact ⟨fun kept => (by cases kept), fun _ => rfl, fun _ => rfl⟩
  | claimBatch owner limit leaseSeconds locked now clock =>
      cases result : claimBatch codec owner limit leaseSeconds locked now clock s with
      | error raised => simpa [perform, settle, result] using framed_refl _ s
      | ok value =>
          obtain ⟨_, same⟩ := claimBatch_ok result
          simpa [perform, settle, result, same] using framed_outbox _ s _
  | markPublished key owner now clock =>
      cases result : markPublished key owner now clock s with
      | error raised => simpa [perform, settle, result] using framed_refl _ s
      | ok s' =>
          obtain ⟨_, same⟩ := complete_ok result
          simpa [perform, settle, result, same] using framed_outbox _ s _
  | markFailed key owner error retrySeconds now clock =>
      cases result : markFailed key owner error retrySeconds now clock s with
      | error raised => simpa [perform, settle, result] using framed_refl _ s
      | ok s' =>
          have performed : (perform codec (.markFailed key owner error retrySeconds now clock) s).2 =
              s' := by simp [perform, settle, result]
          rw [performed]
          unfold markFailed at result
          split at result
          · cases result
          · obtain ⟨_, rfl⟩ := complete_ok result
            exact framed_outbox _ s _
  | claimExecution D key owner now =>
      have performed : (perform codec (.claimExecution D key owner now) s).2 =
          (D.claimExecution codec key owner now s).2 := rfl
      rw [performed]
      rcases D.claimExecution_cases codec key owner now s with idle | ⟨_, _, _, _, taken | taken⟩
      · rw [idle]
        exact framed_refl _ s
      · rw [taken]
        exact ⟨fun _ => rfl, fun _ => rfl, fun kept => (by cases kept)⟩
      · rw [taken]
        exact ⟨fun _ => rfl, fun _ => rfl, fun kept => (by cases kept)⟩
  | renew D lease now =>
      cases result : D.renew lease now s with
      | error raised => simpa [perform, settle, result] using framed_refl _ s
      | ok s' =>
          have performed : (perform codec (.renew D lease now) s).2 = s' := by
            simp [perform, settle, result]
          obtain ⟨_, rfl⟩ := DurableTasks.renew_ok result
          rw [performed]
          exact ⟨fun _ => rfl, fun _ => rfl, fun kept => (by cases kept)⟩
  | release lease => exact ⟨fun _ => rfl, fun _ => rfl, fun kept => (by cases kept)⟩
  | acknowledge lease topic now =>
      cases result : DurableTasks.acknowledge lease topic now s with
      | error raised => simpa [perform, settle, result] using framed_refl _ s
      | ok s' =>
          have performed : (perform codec (.acknowledge lease topic now) s).2 = s' := by
            simp [perform, settle, result]
          obtain ⟨_, rfl⟩ := DurableTasks.acknowledge_ok result
          rw [performed]
          exact ⟨fun _ => rfl, fun kept => (by cases kept), fun _ => rfl⟩

end Frame

section Journal

open DurableDelivery

inductive Buries (s : Tables J) : Op J → Uuid → Prop
  | publishFailed {P : DurableDelivery} {message m : OutboxMessage J} {error : Option String}
      {now : Clock} : m ∈ s.outbox → m.heldBy message.id message.leaseOwner now = true →
      truthy error = true → P.maxAttempts ≤ message.attemptCount →
      Buries s (.finishDelivery P message error now) message.id
  | attemptsExhausted {P : DurableDelivery} {locked : Uuid → Bool} {now : Clock} {id : Uuid} :
      Exhausts P locked now s id → Buries s (.reconcile P locked now) id
  | consumerUnacknowledged {P : DurableDelivery} {locked : Uuid → Bool} {now : Clock} {id : Uuid} :
      GivesUp activeExecution P locked now P.topics.entries s id → Buries s (.reconcile P locked now) id

def Replays (s : Tables J) (op : Op J) (id : Uuid) : Prop :=
  ∃ P now, op = .replay P id now ∧ ∃ m ∈ s.outbox, m.id = id ∧ m.topic ∈ P.topics.keys

theorem replay_quarantined {P : DurableDelivery} {key id : Uuid} {now : Clock} {s s' : Tables J}
    (result : P.replay key now s = .ok s') :
    s'.quarantined id = (!decide (key = id) && s.quarantined id) := by
  obtain ⟨_, _, rfl⟩ := replay_ok result
  rw [Bool.eq_iff_iff, Bool.and_eq_true, Bool.not_eq_true', decide_eq_false_iff_not,
    Tables.quarantined_iff, Tables.quarantined_iff]
  simp only [Table.find?_update]
  cases present : s.deadLetters.find? id with
  | none => simp
  | some d =>
      have keyed : d.messageId = id := (Table.find?_eq_some.mp present).2
      by_cases same : key = id
      · by_cases active : d.replayedAt = none <;> simp [keyed, same, active]
      · simp [keyed, same, Ne.symm same]

theorem finishDelivery_quarantined {P : DurableDelivery} {message : OutboxMessage J}
    {error : Option String} {now : Clock} {s s' : Tables J} {id : Uuid}
    (result : P.finishDelivery message error now s = .ok s') :
    s'.quarantined id = true ↔
      Buries s (.finishDelivery P message error now) id ∨ s.quarantined id = true := by
  obtain ⟨⟨m, member, held⟩, _, _, _, letters⟩ := finishDelivery_ok result
  by_cases limit : truthy error = true ∧ P.maxAttempts ≤ message.attemptCount
  · rw [if_pos limit] at letters
    have journal := deadLetter_quarantined message.id (error.getD "") now s id
    rw [Tables.quarantined_congr (congrArg (Table.find? · id) letters), journal, Bool.or_eq_true,
      decide_eq_true_eq]
    refine or_congr_left ⟨?_, ?_⟩
    · rintro rfl
      exact .publishFailed member held limit.1 limit.2
    · rintro ⟨⟩
      rfl
  · rw [if_neg limit] at letters
    rw [Tables.quarantined_congr (congrArg (Table.find? · id) letters)]
    refine ⟨Or.inr, ?_⟩
    rintro (buried | kept)
    · cases buried with
      | publishFailed _ _ failing reached => exact absurd ⟨failing, reached⟩ limit
    · exact kept

theorem finish_not_replay {P : DurableDelivery} {message : OutboxMessage J} {error : Option String}
    {now : Clock} {s : Tables J} {id : Uuid} :
    ¬ Replays s (.finishDelivery P message error now) id := by
  rintro ⟨_, _, equal, _⟩
  cases equal

theorem perform_quarantined [DecidableEq J] (codec : Codec J) (op : Op J) (s : Tables J) (id : Uuid) :
    (perform codec op s).2.quarantined id = true ↔
      Buries s op id ∨ (s.quarantined id = true ∧ ¬ Replays s op id) := by
  have untouched (letters : (perform codec op s).2.deadLetters = s.deadLetters)
      (noBurial : ¬ Buries s op id) (noReplay : s.quarantined id = true → ¬ Replays s op id) :
      (perform codec op s).2.quarantined id = true ↔
        Buries s op id ∨ (s.quarantined id = true ∧ ¬ Replays s op id) := by
    rw [Tables.quarantined_congr (congrArg (Table.find? · id) letters)]
    refine ⟨fun kept => Or.inr ⟨kept, noReplay kept⟩, ?_⟩
    rintro (buried | ⟨kept, _⟩)
    · exact absurd buried noBurial
    · exact kept
  have frame := perform_frame codec op s
  cases op with
  | finishDelivery P message error now =>
      cases result : P.finishDelivery message error now s with
      | error raised =>
          refine untouched (by simp [perform, settle, result]) ?_ fun _ => finish_not_replay
          intro buried
          cases buried with
          | publishFailed member held _ _ =>
              rw [(finishDelivery_error result).2 _ member] at held
              cases held
      | ok s' =>
          have performed : (perform codec (.finishDelivery P message error now) s).2 = s' := by
            simp [perform, settle, result]
          rw [performed, finishDelivery_quarantined result, and_iff_left finish_not_replay]
  | reconcile P locked now =>
      have step := reconcileWith_reconciled P locked now activeExecution_steady s
      have noReplay : ¬ Replays s (.reconcile P locked now) id := by
        rintro ⟨_, _, equal, _⟩
        cases equal
      have buried : Buries s (.reconcile P locked now) id ↔ Exhausts P locked now s id ∨
          GivesUp activeExecution P locked now P.topics.entries s id := by
        constructor
        · intro buried
          cases buried with
          | attemptsExhausted chosen => exact Or.inl chosen
          | consumerUnacknowledged chosen => exact Or.inr chosen
        · rintro (chosen | chosen)
          · exact .attemptsExhausted chosen
          · exact .consumerUnacknowledged chosen
      rw [and_iff_left noReplay, buried]
      exact step.quarantined id
  | replay P key now =>
      have noBurial : ¬ Buries s (.replay P key now) id := by rintro ⟨⟩
      cases result : P.replay key now s with
      | error raised =>
          refine untouched (by simp [perform, settle, result]) noBurial ?_
          rintro kept ⟨_, _, equal, m, member, keyed, topic⟩
          cases equal
          rcases replay_error result with outside | absent
          · exact outside m member keyed topic
          · rw [absent] at kept
            cases kept
      | ok s' =>
          have performed : (perform codec (.replay P key now) s).2 = s' := by
            simp [perform, settle, result]
          obtain ⟨⟨m, member, keyed, topic⟩, _, _⟩ := replay_ok result
          rw [performed, replay_quarantined result, or_iff_right noBurial, Bool.and_eq_true,
            Bool.not_eq_true', decide_eq_false_iff_not, and_comm]
          refine and_congr_right fun _ => not_congr ⟨?_, ?_⟩
          · rintro rfl
            exact ⟨P, now, rfl, m, member, keyed, topic⟩
          · rintro ⟨_, _, equal, _⟩
            cases equal
            rfl
  | enqueue | claimDelivery | claimBatch | markPublished | markFailed | claimExecution | renew
  | release | acknowledge =>
      refine untouched (frame.deadLetters rfl) (by rintro ⟨⟩) ?_
      rintro _ ⟨_, _, equal, _⟩
      cases equal

end Journal

end TplBackend
