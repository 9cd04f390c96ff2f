import TplBackend.Delivery.Effects

namespace TplBackend

open Keyed Ranking Transition SqlOutboxRepository DurableDelivery

variable {J : Type}

/-- `NOW()` is read when the transaction starts, `clock_timestamp()` when the statement runs. -/
def Op.coherent : Op J → Prop
  | .claimBatch _ _ _ _ now clock => now ≤ clock
  | _ => True

def Op.claimsAt : Op J → Option Clock
  | .claimDelivery _ _ _ now => some now
  | .claimBatch _ _ _ _ _ clock => some clock
  | _ => none

/-- The arguments `claim_batch` accepts. -/
def BatchArguments (owner : String) (limit leaseSeconds : Int) : Prop :=
  ¬ (owner.isEmpty ∨ 128 < owner.length ∨ ¬ (1 ≤ limit ∧ limit ≤ 1000)) ∧
    (1 ≤ leaseSeconds ∧ leaseSeconds ≤ 3600)

/-- `claim_batch` fills its limit before it comes to a quarantined row. -/
def QuarantineBehind (codec : Codec J) (s : Tables J) : Op J → Prop
  | .claimBatch owner limit leaseSeconds locked now clock =>
      BatchArguments owner limit leaseSeconds →
        ∀ m ∈ batchPool codec locked now clock s, s.quarantined m.id = true →
          limit.toNat ≤
            (preceding OutboxMessage.claimOrder m (batchPool codec locked now clock s)).length
  | _ => True

/-- What a publisher path hands out is a candidate of every policy that registers its topic. -/
def HandsCandidates [DecidableEq J] (codec : Codec J) (event : Event (Tables J) (Op J)) : Prop :=
  ∀ clock ∈ event.label.claimsAt, ∀ m ∈ event.before.outbox, m.id ∈ (reply codec event).handsOut →
    event.before.quarantined m.id = false ∧
      ∀ P : DurableDelivery, m.topic ∈ P.topics.keys → P.candidate codec event.before clock m = true

variable {codec : Codec J} {s : Tables J} {owner : String} {limit leaseSeconds : Int}
variable {locked : Uuid → Bool} {now clock : Clock}

theorem batchEligible_candidate {m : OutboxMessage J} (coherent : now ≤ clock)
    (eligible : batchEligible codec now clock m = true) (free : s.quarantined m.id = false)
    (P : DurableDelivery) (registered : m.topic ∈ P.topics.keys) :
    P.candidate codec s clock m = true := by
  simp only [batchEligible, Bool.and_eq_true, Bool.or_eq_true, decide_eq_true_eq] at eligible
  obtain ⟨⟨available, due⟩, owned⟩ := eligible
  have later : (now : Timestamp) ≤ (clock : Timestamp) := Timestamp.coe_le_coe.mpr coherent
  have ready : unowned m clock = true := by
    rcases owned with pending | ⟨delivering, expired⟩
    · simp [unowned, pending]
    · cases lease : m.leaseExpiresAt with
      | none => simp [lease] at expired
      | some expiry =>
          have past : expiry < (now : Timestamp) := by simpa [lease] using expired
          simp [unowned, delivering, OutboxMessage.leaseExpired, lease, past.le.trans later]
  simp [candidate, registered, available.trans later, due, ready, free]

theorem batch_handsOut [DecidableEq J] (accepted : BatchArguments owner limit leaseSeconds)
    (id : Uuid) :
    id ∈ (perform codec (.claimBatch owner limit leaseSeconds locked now clock) s).1.handsOut ↔
      ∃ m ∈ batchCandidates codec limit.toNat locked now clock s, m.id = id := by
  cases result : claimBatch codec owner limit leaseSeconds locked now clock s with
  | error raised =>
      unfold claimBatch at result
      rw [if_neg accepted.1, if_neg (not_not_intro accepted.2)] at result
      cases result
  | ok value =>
      simp [perform, settle, result, Reply.handsOut, (claimBatch_ok result).1,
        ClaimedOutboxEvent.ofRow]

theorem batchArguments_of_handsOut [DecidableEq J] {id : Uuid}
    (handed : id ∈
      (perform codec (.claimBatch owner limit leaseSeconds locked now clock) s).1.handsOut) :
    BatchArguments owner limit leaseSeconds := by
  by_contra refused
  rw [BatchArguments, not_and_or, not_not] at refused
  have result : ∃ raised,
      claimBatch codec owner limit leaseSeconds locked now clock s = .error raised := by
    unfold claimBatch
    split
    · exact ⟨_, rfl⟩
    · rename_i valid
      exact ⟨_, if_pos (refused.resolve_left valid)⟩
  obtain ⟨raised, failure⟩ := result
  simp [perform, settle, failure, Reply.handsOut] at handed

theorem claimDelivery_hands_candidates [DecidableEq J] {P : DurableDelivery} {m : OutboxMessage J}
    (member : m ∈ s.outbox)
    (handed : m.id ∈ (perform codec (.claimDelivery P owner locked now) s).1.handsOut) :
    s.quarantined m.id = false ∧
      ∀ Q : DurableDelivery, m.topic ∈ Q.topics.keys → Q.candidate codec s now m = true := by
  obtain ⟨chosen, present, keyed, hands⟩ := perform_handsOut handed
  cases hands with
  | delivered next =>
      rw [← Table.eq_of_key_eq present member keyed]
      have passed := (nextCandidate_spec next).2.1
      simp only [candidate, Bool.and_eq_true, Bool.not_eq_true'] at passed ⊢
      exact ⟨passed.2, fun Q registered => ⟨⟨⟨⟨by simpa using registered, passed.1.1.1.2⟩,
        passed.1.1.2⟩, passed.1.2⟩, passed.2⟩⟩

theorem handsCandidates_iff [DecidableEq J] (event : Event (Tables J) (Op J))
    (coherent : event.label.coherent) :
    HandsCandidates codec event ↔ QuarantineBehind codec event.before event.label := by
  obtain ⟨s, op, s'⟩ := event
  cases op with
  | claimBatch owner limit leaseSeconds locked now clock =>
      constructor
      · intro agrees accepted m member quarantined
        by_contra few
        have chosen := mem_batchCandidates.mpr ⟨member, not_le.mp few⟩
        have handed := (batch_handsOut accepted m.id).mpr ⟨m, chosen, rfl⟩
        have free := (agrees clock rfl m (mem_batchPool.mp member).1 handed).1
        rw [quarantined] at free
        cases free
      · intro behind reading read m present handed
        cases read
        have accepted := batchArguments_of_handsOut handed
        obtain ⟨row, chosen, keyed⟩ := (batch_handsOut accepted m.id).mp handed
        obtain ⟨pooled, few⟩ := mem_batchCandidates.mp chosen
        obtain ⟨stored, eligible, _⟩ := mem_batchPool.mp pooled
        cases Table.eq_of_key_eq stored present keyed
        have free : s.quarantined m.id = false := by
          rw [← Bool.not_eq_true]
          exact fun quarantined => absurd few (not_lt.mpr (behind accepted m pooled quarantined))
        exact ⟨free, batchEligible_candidate coherent eligible free⟩
  | claimDelivery P owner locked now =>
      refine iff_of_true ?_ trivial
      intro reading read m present handed
      cases read
      exact claimDelivery_hands_candidates present handed
  | _ => exact iff_of_true (fun _ read => by cases read) trivial

/-- In every run the two publisher paths agree exactly as long as `claim_batch` does not reach a
quarantined row within its limit. -/
theorem claim_paths_agree_iff [DecidableEq J] {history : List (Event (Tables J) (Op J))}
    {state : Tables J} (run : Run (Step codec Op.coherent) Tables.empty history state) :
    (∀ event ∈ history, HandsCandidates codec event) ↔
      ∀ event ∈ history, QuarantineBehind codec event.before event.label := by
  refine forall₂_congr fun event occurred => handsCandidates_iff event ?_
  obtain ⟨_, _, _, _, step⟩ := run.of_mem occurred
  exact step.1

/-- One failed publish at the limit, then a batch claim after its backoff. -/
def quarantinedBatch : List (Op Unit) :=
  [.enqueue 7 (sampleEvent none) 0,
    .claimDelivery samplePolicy "publisher" (fun _ => false) 1000000,
    .finishDelivery samplePolicy
      ((newRow sampleCodec 7 (sampleEvent none) 0).claimed "publisher" 60 1000000)
      (some "ConnectionError") 2000000,
    .claimBatch "batch" 10 60 (fun _ => false) 10000000 10000000]

theorem claim_paths_disagree :
    ¬ ∀ history state, Run (Step sampleCodec Op.coherent) Tables.empty history state →
      ∀ event ∈ history, HandsCandidates sampleCodec event := by
  intro agree
  have run : Run (Step sampleCodec Op.coherent) Tables.empty
      (transactions sampleCodec quarantinedBatch) (tablesAfter sampleCodec quarantinedBatch) :=
    transactions_run sampleCodec (by simp [quarantinedBatch, Op.coherent])
  have last : ⟨tablesAfter sampleCodec (quarantinedBatch.take 3),
      .claimBatch "batch" 10 60 (fun _ => false) 10000000 10000000,
      tablesAfter sampleCodec quarantinedBatch⟩ ∈ transactions sampleCodec quarantinedBatch :=
    List.mem_of_mem_getLast? rfl
  have handed := agree _ _ run _ last 10000000 rfl
  have free := (handed _ (List.mem_cons_self) (by decide)).1
  revert free
  decide

/-- A message that is locked while the next one fails at its limit, then a batch of one. -/
def batchOfOne : List (Op Unit) :=
  [.enqueue 3 { sampleEvent none with deduplicationKey := "two" } 0,
    .enqueue 7 (sampleEvent none) 0,
    .claimDelivery samplePolicy "publisher" (· = 3) 1000000,
    .finishDelivery samplePolicy
      ((newRow sampleCodec 7 (sampleEvent none) 0).claimed "publisher" 60 1000000)
      (some "ConnectionError") 2000000,
    .claimBatch "batch" 1 60 (fun _ => false) 10000000 10000000]

def lastOfOne : Event (Tables Unit) (Op Unit) :=
  ⟨tablesAfter sampleCodec (batchOfOne.take 4), .claimBatch "batch" 1 60 (fun _ => false) 10000000 10000000,
    tablesAfter sampleCodec batchOfOne⟩

/-- The batch takes the first message and leaves the quarantined one, which is eligible, behind. -/
theorem claim_paths_agree_early : HandsCandidates sampleCodec lastOfOne ∧
    (reply sampleCodec lastOfOne).handsOut = [3] ∧ lastOfOne.before.quarantined 7 = true ∧
    (batchPool sampleCodec (fun _ => false) 10000000 10000000 lastOfOne.before).map OutboxMessage.id =
      [3, 7] := by
  have run : Run (Step sampleCodec Op.coherent) Tables.empty
      (transactions sampleCodec batchOfOne) (tablesAfter sampleCodec batchOfOne) :=
    transactions_run sampleCodec (by simp [batchOfOne, Op.coherent])
  refine ⟨(claim_paths_agree_iff run).mpr ?_ lastOfOne (List.mem_of_mem_getLast? rfl), by decide,
    by decide, by decide⟩
  have behind : QuarantineBehind sampleCodec lastOfOne.before lastOfOne.label := fun _ => by decide
  intro event member
  simp only [transactions, batchOfOne, trace, List.mem_cons, List.not_mem_nil, or_false] at member
  rcases member with rfl | rfl | rfl | rfl | rfl
  · trivial
  · trivial
  · trivial
  · trivial
  · exact behind

end TplBackend
