import TplBackend.Delivery.Agreement

namespace TplBackend

open Keyed Query Raise DurableDelivery

variable {J : Type}

namespace DeliveryObservation

/-- The counts of a row of a snapshot add up. -/
structure Balanced (s : Tables J) (row : Observation) : Prop where
  counted : row.gauges.messages = s.outbox.rows.countP fun m => decide (m.topic = row.topic)
  receipted : row.receiptRequired = true →
    row.gauges.retainedReceiptMessages + row.gauges.incompleteMessages = row.gauges.messages
  unreceipted : row.receiptRequired = false →
    row.gauges.retainedReceiptMessages = 0 ∧ row.gauges.incompleteMessages =
      s.outbox.rows.countP fun m => decide (m.topic = row.topic) && decide (m.status ≠ .published)
  separate : row.gauges.publishableMessages + row.gauges.reconcileCandidates +
    row.gauges.activeExecutionMessages ≤ row.gauges.incompleteMessages
  due : row.gauges.publishableMessages + row.gauges.scheduledMessages ≤ row.gauges.incompleteMessages
  awaiting : row.gauges.reconcileCandidates ≤ row.gauges.awaitingReceiptMessages ∧
    row.gauges.awaitingReceiptMessages ≤ row.gauges.incompleteMessages

/-- Every row of the outbox is counted once, in the row of its topic or as unregistered. -/
structure Conserves (s : Tables J) (snapshot : Snapshot) : Prop where
  complete : (snapshot.topics.map fun row => row.gauges.messages).sum +
    snapshot.unregisteredMessages = s.outbox.rows.length
  balanced : ∀ row ∈ snapshot.topics, Balanced s row

section Registration

variable {topics registered : List String}

theorem registerTopic_ok {names : List String}
    (ran : names.foldlM registerTopic topics = .ok registered) (distinct : topics.Nodup) :
    registered = topics ++ names ∧ registered.Nodup := by
  induction names generalizing topics with
  | nil =>
      cases ran
      simpa using distinct
  | cons name names ih =>
      rw [List.foldlM_cons] at ran
      obtain ⟨longer, first, rest⟩ := bind_ok.mp ran
      unfold registerTopic at first
      split at first
      · cases first
      · rename_i fresh
        cases first
        have apart : (topics ++ [name]).Nodup := by
          simp only [Bool.or_eq_true, decide_eq_true_eq, not_or] at fresh
          simpa [List.nodup_append, distinct] using fun other member => ne_of_mem_of_not_mem member fresh.2
        obtain ⟨rfl, nodup⟩ := ih rest apart
        exact ⟨by simp, nodup⟩

theorem registerPolicy_ok {entries : List (Sigma fun _ : String => ObservedPolicy J)}
    (ran : entries.foldlM registerPolicy topics = .ok registered) (distinct : topics.Nodup) :
    registered = topics ++ entries.flatMap (fun entry => entry.2.delivery.topics.keys) ∧
      registered.Nodup := by
  induction entries generalizing topics with
  | nil =>
      cases ran
      simpa using distinct
  | cons entry entries ih =>
      rw [List.foldlM_cons] at ran
      obtain ⟨longer, first, rest⟩ := bind_ok.mp ran
      unfold registerPolicy at first
      split at first
      · cases first
      · obtain ⟨rfl, nodup⟩ := registerTopic_ok first distinct
        obtain ⟨rfl, nodup⟩ := ih rest nodup
        exact ⟨by simp, nodup⟩

theorem registeredTopics_ok {policies : Policies J}
    (accepted : registeredTopics policies = .ok registered) :
    registered = policies.entries.flatMap (fun entry => entry.2.delivery.topics.keys) ∧
      registered.Nodup := by
  unfold registeredTopics at accepted
  split at accepted
  · cases accepted
  · obtain ⟨topics, folded, accepted⟩ := bind_ok.mp accepted
    split at accepted
    · cases accepted
    · cases accepted
      exact registerPolicy_ok folded List.nodup_nil

end Registration

section Balance

variable {codec : Codec J} {active : ActiveExecution J} {P : DurableDelivery} {now : Clock}
variable {s : Tables J} {topic : String} {consumer : Option String} {gauges : Gauges}

theorem observe_counts (returned : observe codec active P topic consumer now s = .ok gauges) :
    ∃ facts, facts = (joined topic consumer s).map (factsOf codec active consumer now s) ∧
      gauges.messages = facts.length ∧
      gauges.retainedReceiptMessages = (facts.countP fun row => row.receiptAt.isSome) ∧
      gauges.incompleteMessages = count Facts.incomplete facts ∧
      gauges.scheduledMessages = count (Facts.scheduled now) facts ∧
      gauges.publishableMessages = count (Facts.publishable now) facts ∧
      gauges.awaitingReceiptMessages = count (Facts.awaitingReceipt consumer.isSome) facts ∧
      gauges.activeExecutionMessages = count Facts.activeExecution facts ∧
      gauges.reconcileCandidates =
        count (Facts.reconcileCandidate consumer.isSome P.leaseSeconds now) facts := by
  unfold observe at returned
  split at returned
  · cases returned
  · simp only at returned
    split at returned
    · cases returned
    · cases returned
      exact ⟨_, rfl, rfl, rfl, rfl, rfl, rfl, rfl, rfl, rfl⟩

theorem count_add_le {first second whole : Facts → Truth} {facts : List Facts}
    (apart : ∀ row ∈ facts, (first row).holds = true → (second row).holds = false)
    (within : ∀ row ∈ facts, ((first row).holds || (second row).holds) = true →
      (whole row).holds = true) : count first facts + count second facts ≤ count whole facts := by
  rw [count, count, countP_add_countP apart]
  exact List.countP_mono_left within

theorem observe_balanced (returned : observe codec active P topic consumer now s = .ok gauges)
    (name : String) : Balanced s ⟨name, topic, consumer.isSome, gauges⟩ := by
  obtain ⟨facts, rows, messages, retained, incomplete, scheduled, publishable, awaiting, executing,
    candidates⟩ := observe_counts returned
  have rows' : facts = (s.outbox.rows.filter fun m => decide (m.topic = topic)).map fun m =>
      factsOf codec active consumer now s (m, receipt consumer s m.id) := by
    rw [rows, joined_eq, List.map_map]
    rfl
  constructor
  · rw [messages, rows', List.length_map, List.countP_eq_length_filter]
  · intro required
    dsimp only at required ⊢
    obtain ⟨needed, rfl⟩ := Option.isSome_iff_exists.mp required
    rw [retained, incomplete, messages, count,
      List.length_eq_countP_add_countP fun row : Facts => row.receiptAt.isSome]
    refine congrArg _ (List.countP_congr fun row member => ?_)
    rw [rows'] at member
    obtain ⟨m, _, rfl⟩ := List.mem_map.mp member
    simp [Facts.incomplete, factsOf]
  · intro free
    dsimp only at free ⊢
    obtain rfl : consumer = none := by simpa using free
    constructor
    · rw [retained, rows', List.countP_map]
      simp [Function.comp_def, factsOf, receipt]
    · rw [incomplete, rows', count, List.countP_map, List.countP_filter]
      refine List.countP_congr fun m _ => ?_
      simp [Facts.incomplete, factsOf, and_comm]
  · dsimp only
    rw [publishable, candidates, executing, incomplete]
    have idle : count (Facts.publishable now) facts +
        count (Facts.reconcileCandidate consumer.isSome P.leaseSeconds now) facts ≤
          count (fun row => row.incomplete.and (Truth.of row.executing).not) facts := by
      refine count_add_le (fun row _ ready => ?_) fun row _ either => ?_
      · simp only [Facts.publishable, Facts.reconcileCandidate, Truth.holds_and, Truth.holds_or,
          Truth.holds_of, Bool.and_eq_true, Bool.or_eq_true, decide_eq_true_eq] at ready ⊢
        have unpublished : decide (row.status = .published) = false := by
          rcases ready.2 with pending | ⟨delivering, _⟩
          · simp [pending]
          · simp [delivering]
        simp [unpublished]
      · simp only [Facts.publishable, Facts.reconcileCandidate, Truth.holds_and, Bool.or_eq_true,
          Bool.and_eq_true] at either ⊢
        exact either.elim (fun ready => ⟨ready.1.1.1.1.1, ready.1.1.1.2⟩) fun candidate =>
          candidate.1.1.1.1
    have split : count (fun row => row.incomplete.and (Truth.of row.executing).not) facts +
        count Facts.activeExecution facts ≤ count Facts.incomplete facts := by
      refine count_add_le (fun row _ waiting => ?_) fun row _ either => ?_
      · simp only [Facts.activeExecution, Truth.holds_and, Truth.holds_of, Truth.holds_not_of,
          Bool.and_eq_true, Bool.not_eq_true'] at waiting ⊢
        simp [waiting.2]
      · simp only [Facts.activeExecution, Truth.holds_and, Bool.or_eq_true, Bool.and_eq_true] at either
        exact either.elim And.left And.left
    exact (Nat.add_le_add_right idle _).trans split
  · dsimp only
    rw [publishable, scheduled, incomplete]
    refine count_add_le (fun row _ ready => ?_) fun row _ either => ?_
    · simp only [Facts.publishable, Facts.scheduled, Truth.holds_and, Truth.holds_of, Bool.and_eq_true, decide_eq_true_eq, Bool.and_eq_false_iff, decide_eq_false_iff_not, not_lt] at ready ⊢
      exact Or.inr ready.1.1.2
    · simp only [Facts.publishable, Facts.scheduled, Truth.holds_and, Bool.or_eq_true, Bool.and_eq_true] at either
      exact either.elim (fun ready => ready.1.1.1.1.1) And.left
  · dsimp only
    rw [candidates, awaiting, incomplete]
    constructor
    · refine List.countP_mono_left fun row _ candidate => ?_
      simp only [Facts.reconcileCandidate, Facts.awaitingReceipt, Truth.holds_and, Bool.and_eq_true] at candidate ⊢
      exact ⟨⟨candidate.1.1.1.1.1, candidate.1.2⟩, candidate.1.1.2⟩
    · refine List.countP_mono_left fun row _ published => ?_
      simp only [Facts.awaitingReceipt, Truth.holds_and, Bool.and_eq_true] at published
      exact published.1.1

end Balance

theorem topics_observed {codec : Codec J} {policies : Policies J} {now : Clock} {s : Tables J}
    {observations : List (List Observation)}
    (ran : ((sortedItems policies).mapM fun policy => (sortedItems policy.2.delivery.topics).mapM
      (observeTopic codec now s policy.1 policy.2)) = .ok observations) :
    (observations.flatten.map Observation.topic).Perm
      (policies.entries.flatMap fun entry => entry.2.delivery.topics.keys) := by
  have named : observations.map (fun rows => rows.map Observation.topic) =
      (sortedItems policies).map fun policy => (sortedItems policy.2.delivery.topics).map Sigma.fst := by
    refine map_of_mapM (fun policy rows ofPolicy => ?_) ran
    refine map_of_mapM (fun entry row ofTopic => ?_) ofPolicy
    obtain ⟨gauges, _, same⟩ := bind_ok.mp ofTopic
    rw [pure_ok] at same
    exact same ▸ rfl
  rw [List.map_flatten, named, ← List.flatMap_def]
  exact ((List.perm_insertionSort _ _).flatMap_right _).trans
    (List.Perm.flatMap_left _ fun policy _ => (List.perm_insertionSort _ _).map _)

/-- Over well-formed schedules and finite receipt times a snapshot of accepted policies is taken, and
it counts every row of the outbox once. -/
theorem snapshot_conserves {codec : Codec J} {policies : Policies J} {topics : List String}
    {s : Tables J} (now : Clock) (timed : WellTimed codec s)
    (accepted : registeredTopics policies = .ok topics) :
    ∃ snapshot, collectDeliverySnapshot codec policies now s = .ok snapshot ∧ Conserves s snapshot := by
  have each : ∀ policy ∈ sortedItems policies, ∃ rows, (sortedItems policy.2.delivery.topics).mapM
      (observeTopic codec now s policy.1 policy.2) = .ok rows := fun policy _ =>
    exists_mapM fun entry _ => by
      obtain ⟨gauges, returned, _⟩ :=
        observe_ok policy.2.active policy.2.delivery now timed entry.1 entry.2
      exact ⟨_, by rw [observeTopic, returned, ok_bind]; rfl⟩
  obtain ⟨observations, ran⟩ := exists_mapM each
  have balanced : ∀ row ∈ observations.flatten, Balanced s row := by
    intro row member
    obtain ⟨rows, listed, inner⟩ := List.mem_flatten.mp member
    obtain ⟨policy, _, ofPolicy⟩ := (mem_mapM_iff ran).mp listed
    obtain ⟨entry, _, ofTopic⟩ := (mem_mapM_iff ofPolicy).mp inner
    obtain ⟨gauges, returned, same⟩ := bind_ok.mp ofTopic
    rw [pure_ok] at same
    exact same ▸ observe_balanced returned policy.1
  refine ⟨_, by rw [collectDeliverySnapshot, accepted, ok_bind, ran, ok_bind]; rfl, ?_, balanced⟩
  obtain ⟨rfl, distinct⟩ := registeredTopics_ok accepted
  have names := topics_observed ran
  have counted : (observations.flatten.map fun row => row.gauges.messages) =
      (observations.flatten.map Observation.topic).map fun topic =>
        s.outbox.rows.countP fun m => decide (m.topic = topic) := by
    rw [List.map_map]
    exact List.map_congr_left fun row member => (balanced row member).counted
  dsimp only
  rw [counted, sum_countP OutboxMessage.topic (names.nodup_iff.mpr distinct),
    List.length_eq_countP_add_countP fun m =>
      (observations.flatten.map Observation.topic).any fun topic => decide (m.topic = topic)]
  refine congrArg _ (List.countP_congr fun m _ => ?_)
  simp [← names.mem_iff, eq_comm (a := m.topic)]

def samplePolicies : Policies Unit := (∅ : Policies Unit).insert "default" ⟨samplePolicy, activeExecution⟩

theorem snapshot_conserves_sample : ∃ snapshot,
    collectDeliverySnapshot sampleCodec samplePolicies 100000000 disturbedTables = .ok snapshot ∧
      Conserves disturbedTables snapshot :=
  snapshot_conserves 100000000 disturbedTables_timed
    (rfl : registeredTopics samplePolicies = .ok ["test.counter.v1"])

end DeliveryObservation

end TplBackend
