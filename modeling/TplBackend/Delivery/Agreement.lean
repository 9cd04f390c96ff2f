import TplBackend.Delivery.Observation
import TplBackend.Delivery.Operation
import TplBackend.Library.Raise

namespace TplBackend

open Keyed Query Raise DurableDelivery

variable {J : Type}

section Selection

variable (active : ActiveExecution J) (P : DurableDelivery) (locked : Uuid → Bool) (now : Clock)

/-- The state in which the loop comes to a topic after the topics `earlier`. -/
def reconcileTurn (earlier : List (Sigma fun _ : String => Option String)) (s : Tables J) : Tables J :=
  (earlier.foldl (P.reconcileTopic active locked now) (0, P.buryExhausted locked now s)).2

theorem nodup_selectedRows (s : Tables J) (entry : Sigma fun _ : String => Option String) :
    (selectedRows active P locked now s entry).Nodup := by
  unfold selectedRows
  split
  · exact List.nodup_nil
  · exact (List.Nodup.of_map _ s.outbox.nodup).filter _

theorem mem_selectedRows (s : Tables J) (entry : Sigma fun _ : String => Option String)
    (m : OutboxMessage J) : m ∈ selectedRows active P locked now s entry ↔
      ∃ row, s.outbox.find? m.id = some row ∧ Selected active P locked now [entry] s row ∧ row = m := by
  obtain ⟨topic, required⟩ := entry
  cases required with
  | none => simp [selectedRows, Selected]
  | some consumer =>
      simp only [selectedRows, List.mem_filter, Bool.and_eq_true, decide_eq_true_eq,
        Bool.not_eq_true', Selected, List.mem_singleton, Sigma.mk.injEq]
      constructor
      · rintro ⟨member, ⟨same, selected⟩, free⟩
        exact ⟨m, Table.find?_of_mem member, ⟨free, consumer, ⟨same, HEq.rfl⟩, selected⟩, rfl⟩
      · rintro ⟨row, found, ⟨free, other, ⟨same, equal⟩, selected⟩, rfl⟩
        have named : other = consumer := by simpa using equal
        rw [named] at selected
        exact ⟨(Table.find?_eq_some.mp found).1, ⟨same, selected⟩, free⟩

variable {active P locked now}

theorem earlier_topics (steady : active.Steady)
    {earlier : List (Sigma fun _ : String => Option String)}
    {entry : Sigma fun _ : String => Option String} (fresh : entry.1 ∉ earlier.keys)
    (acc : Nat × Tables J) (id : Uuid) (limit : OutboxMessage J → Prop) :
    (∃ m, (earlier.foldl (P.reconcileTopic active locked now) acc).2.outbox.find? id = some m ∧
        Selected active P locked now [entry]
          (earlier.foldl (P.reconcileTopic active locked now) acc).2 m ∧ limit m) ↔
      ∃ m, acc.2.outbox.find? id = some m ∧ Selected active P locked now [entry] acc.2 m ∧
        limit m := by
  induction earlier generalizing acc with
  | nil => exact Iff.rfl
  | cons first earlier ih =>
      rw [List.keys_cons, List.mem_cons, not_or] at fresh
      refine (ih fresh.2 (P.reconcileTopic active locked now acc first)).trans ?_
      refine later_topics steady ?_ (reconcileTopic_reconciled active P locked now first acc) id limit
      simpa using Ne.symm fresh.1

theorem selectedRows_turn (locked : Uuid → Bool) (now : Clock) (steady : active.Steady)
    {earlier later : List (Sigma fun _ : String => Option String)}
    {entry : Sigma fun _ : String => Option String} (s : Tables J)
    (split : P.topics.entries = earlier ++ entry :: later) :
    (selectedRows active P locked now (reconcileTurn active P locked now earlier s) entry).Perm
      (selectedRows active P locked now s entry) := by
  have fresh : entry.1 ∉ earlier.keys := by
    have keys := P.topics.nodupKeys
    rw [split, List.NodupKeys, List.keys, List.map_append, List.map_cons, List.nodup_append] at keys
    exact fun member => keys.2.2 _ member _ List.mem_cons_self rfl
  refine (List.perm_ext_iff_of_nodup (nodup_selectedRows ..) (nodup_selectedRows ..)).mpr fun m => ?_
  rw [mem_selectedRows, mem_selectedRows, reconcileTurn, earlier_topics steady fresh]
  exact after_buryExhausted P locked now steady [entry] s m.id _

theorem foldl_reconcileRow_count (rows : List (OutboxMessage J)) (acc : Nat × Tables J) :
    (rows.foldl (P.reconcileRow now) acc).1 =
      acc.1 + rows.countP fun m => decide (m.attemptCount < P.maxAttempts) := by
  induction rows generalizing acc with
  | nil => rfl
  | cons row rows ih =>
      rw [List.foldl_cons, ih, List.countP_cons]
      by_cases limit : P.maxAttempts ≤ row.attemptCount
      · simp [reconcileRow, limit, Nat.not_lt.mpr limit]
      · simp [reconcileRow, limit, Nat.lt_of_not_le limit]
        omega

theorem reconcileWith_count (steady : active.Steady) (s : Tables J) :
    (P.reconcileWith active locked now s).1 = (P.topics.entries.map fun entry =>
      (selectedRows active P locked now s entry).countP fun m =>
        decide (m.attemptCount < P.maxAttempts)).sum := by
  have rest (later earlier : List (Sigma fun _ : String => Option String))
      (split : P.topics.entries = earlier ++ later) :
      (later.foldl (P.reconcileTopic active locked now)
          (earlier.foldl (P.reconcileTopic active locked now) (0, P.buryExhausted locked now s))).1 =
        (earlier.foldl (P.reconcileTopic active locked now) (0, P.buryExhausted locked now s)).1 +
          (later.map fun entry => (selectedRows active P locked now s entry).countP fun m =>
            decide (m.attemptCount < P.maxAttempts)).sum := by
    induction later generalizing earlier with
    | nil => rfl
    | cons entry later ih =>
        have turn := (selectedRows_turn locked now steady s split).countP_eq fun m =>
          decide (m.attemptCount < P.maxAttempts)
        have next := ih (earlier ++ [entry]) (by simp [split])
        rw [List.foldl_append, List.foldl_cons, List.foldl_nil] at next
        rw [List.foldl_cons, next, reconcileTopic_eq, foldl_reconcileRow_count, List.map_cons,
          List.sum_cons, ← turn, reconcileTurn]
        omega
  simpa [reconcileWith] using rest P.topics.entries [] rfl

end Selection

namespace DeliveryObservation

variable (codec : Codec J) (active : ActiveExecution J) (P : DurableDelivery) (now : Clock)

/-- What the runtime takes for not completed: the required receipt is missing, or, where none is
required, the publication. -/
def incomplete (consumer : Option String) (s : Tables J) (m : OutboxMessage J) : Bool :=
  match consumer with
  | none => decide (m.status ≠ .published)
  | some consumer => !s.acknowledged consumer m.id

def receipt (consumer : Option String) (s : Tables J) (id : Uuid) : Option InboxMessage :=
  consumer.bind fun consumer => s.inbox.find? (consumer, id)

def countedRows (s : Tables J) (entry : Sigma fun _ : String => Option String) :
    List (OutboxMessage J) :=
  ((joined entry.1 entry.2 s).filter fun row =>
    ((factsOf codec active entry.2 now s row).reconcileCandidate entry.2.isSome P.leaseSeconds
      now).holds).map Prod.fst

variable {codec active P now} {s : Tables J}

theorem receiptJoin_holds (consumer : Option String) (m : OutboxMessage J) (i : InboxMessage) :
    (receiptJoin consumer m i).holds =
      (consumer.any fun name => decide (i.key = (name, m.id))) := by
  cases consumer with
  | none => simp [receiptJoin]
  | some name =>
      simp [receiptJoin, InboxMessage.key, Bool.and_comm]

/-- The primary key of the inbox keeps the join at one row a message. -/
theorem joined_eq (topic : String) (consumer : Option String) (s : Tables J) :
    joined topic consumer s = (s.outbox.rows.filter fun m => decide (m.topic = topic)).map
      fun m => (m, receipt consumer s m.id) := by
  have partners (m : OutboxMessage J) :
      (s.inbox.rows.find? fun i => (receiptJoin consumer m i).holds) = receipt consumer s m.id := by
    simp only [receiptJoin_holds]
    cases consumer with
    | none => simp [receipt]
    | some name => rfl
  rw [joined, leftJoin_eq_map]
  · simp only [partners]
  · intro m
    simp only [receiptJoin_holds]
    cases consumer with
    | none => simp
    | some name => exact Table.filter_key_length_le s.inbox (name, m.id)

theorem isSome_receipt (consumer : String) (s : Tables J) (id : Uuid) :
    (receipt (some consumer) s id).isSome = s.acknowledged consumer id := by
  rw [Bool.eq_iff_iff, Tables.acknowledged_iff, Option.isSome_iff_exists]
  simp only [receipt, Option.bind_some, Table.find?_eq_some]

theorem incomplete_holds (consumer : Option String) (m : OutboxMessage J) :
    (factsOf codec active consumer now s (m, receipt consumer s m.id)).incomplete.holds =
      incomplete consumer s m := by
  cases consumer with
  | none => simp [Facts.incomplete, factsOf, incomplete]
  | some consumer => simp [Facts.incomplete, factsOf, incomplete, isSome_receipt]

/-- On a row of the topic the gauge's condition is that of the consumer loop. -/
theorem reconcileCandidate_holds (consumer : Option String) (m : OutboxMessage J) :
    ((factsOf codec active consumer now s (m, receipt consumer s m.id)).reconcileCandidate
        consumer.isSome P.leaseSeconds now).holds =
      consumer.any fun consumer => P.unacknowledged active consumer s now m := by
  cases consumer with
  | none => simp [Facts.reconcileCandidate]
  | some consumer =>
      have pending : (factsOf codec active (some consumer) now s
          (m, receipt (some consumer) s m.id)).incomplete.holds = !s.acknowledged consumer m.id :=
        incomplete_holds (some consumer) m
      simp only [Facts.reconcileCandidate, Truth.holds_and, pending, Truth.holds_compare_some]
      simp [factsOf, unacknowledged, Bool.and_comm, Bool.and_left_comm, Bool.and_assoc]

theorem countedRows_eq (entry : Sigma fun _ : String => Option String) :
    countedRows codec active P now s entry = selectedRows active P (fun _ => false) now s entry := by
  obtain ⟨topic, required⟩ := entry
  rw [countedRows, joined_eq, List.filter_map, List.map_map, List.filter_filter]
  have kept (m : OutboxMessage J) :
      ((factsOf codec active required now s (m, receipt required s m.id)).reconcileCandidate
          required.isSome P.leaseSeconds now).holds = _ := reconcileCandidate_holds required m
  simp only [Function.comp_def, kept, List.map_id']
  cases required with
  | none => simp [selectedRows]
  | some consumer => simp [selectedRows, Bool.and_comm]

structure WellTimed (codec : Codec J) (s : Tables J) : Prop where
  scheduled : ∀ m ∈ s.outbox, (notBefore codec m.headers).isSome = true
  received : ∀ i ∈ s.inbox, i.processedAt.isFinite = true

theorem publishable_holds (timed : WellTimed codec s) {topic : String} (known : topic ∈ P.topics.keys)
    (consumer : Option String) {m : OutboxMessage J} (present : m ∈ s.outbox)
    (same : m.topic = topic) :
    ((factsOf codec active consumer now s (m, receipt consumer s m.id)).publishable now).holds =
      (P.candidate codec s now m && incomplete consumer s m && !active s m now) := by
  have pending : (factsOf codec active consumer now s (m, receipt consumer s m.id)).incomplete.holds =
      incomplete consumer s m := incomplete_holds consumer m
  obtain ⟨instant, cast⟩ := Option.isSome_iff_exists.mp (timed.scheduled m present)
  have listed : m.topic ∈ P.topics.keys := same ▸ known
  simp only [Facts.publishable, Truth.holds_and, Truth.holds_or, pending, Facts.leaseExpired,
    Truth.holds_compare_some, Truth.holds_of, Truth.holds_not_of]
  simp only [factsOf, cast, Option.getD_some, candidate, listed, notBeforeDue, Option.any_some, unowned,
    OutboxMessage.leaseExpired, decide_true, Bool.true_and]
  simp only [Bool.and_comm, Bool.and_assoc]

theorem mem_joined {topic : String} {consumer : Option String}
    {row : OutboxMessage J × Option InboxMessage} (member : row ∈ joined topic consumer s) :
    row.1 ∈ s.outbox ∧ ∀ i ∈ row.2, i ∈ s.inbox := by
  rw [joined_eq, List.mem_map] at member
  obtain ⟨m, kept, rfl⟩ := member
  refine ⟨(List.mem_filter.mp kept).1, fun i found => ?_⟩
  obtain ⟨_, _, found⟩ := Option.bind_eq_some_iff.mp found
  exact (Table.find?_eq_some.mp found).1

theorem receiptAt_finite (timed : WellTimed codec s) {topic : String} {consumer : Option String}
    {row : Facts} (member : row ∈ (joined topic consumer s).map (factsOf codec active consumer now s))
    {at_ : Timestamp} (received : row.receiptAt = some at_) : at_.isFinite = true := by
  obtain ⟨pair, joins, rfl⟩ := List.mem_map.mp member
  obtain ⟨i, found, rfl⟩ := Option.map_eq_some_iff.mp received
  exact timed.received i ((mem_joined joins).2 i found)

theorem observe_ok (active : ActiveExecution J) (P : DurableDelivery) (now : Clock)
    (timed : WellTimed codec s) (topic : String) (consumer : Option String) :
    ∃ gauges, observe codec active P topic consumer now s = .ok gauges ∧
      gauges.publishableMessages = count (Facts.publishable now)
        ((joined topic consumer s).map (factsOf codec active consumer now s)) ∧
      gauges.reconcileCandidates =
        count (Facts.reconcileCandidate consumer.isSome P.leaseSeconds now)
          ((joined topic consumer s).map (factsOf codec active consumer now s)) := by
  have castable : ((joined topic consumer s).any fun row =>
      (notBefore codec row.1.headers).isNone) = false := by
    rw [List.any_eq_false]
    intro row member
    simpa [Option.isSome_iff_ne_none] using timed.scheduled row.1 (mem_joined member).1
  generalize rows : (joined topic consumer s).map (factsOf codec active consumer now s) = facts
  have finite : ∀ row ∈ facts, ∀ at_, row.receiptAt = some at_ → at_.isFinite = true := by
    subst rows
    exact fun row member at_ received => receiptAt_finite timed member received
  have valid : (Truth.anyOf (facts.map Facts.invalidReceiptTime)).holds = false := by
    rw [Truth.holds_anyOf, List.any_map, List.any_eq_false]
    intro row member
    cases received : row.receiptAt with
    | none => simp [Facts.invalidReceiptTime, received, Truth.holds]
    | some at_ => simp [Facts.invalidReceiptTime, received, finite row member at_ received]
  have bounded : ((facts.filterMap Facts.receiptAt).max?.getD (0 : Int)).isFinite = true := by
    cases latest : (facts.filterMap Facts.receiptAt).max? with
    | none => rfl
    | some at_ =>
        obtain ⟨row, member, received⟩ := List.mem_filterMap.mp (List.max?_mem latest)
        exact finite row member at_ received
  unfold observe
  rw [if_neg (by simp [castable])]
  simp only [rows]
  rw [if_neg (by rw [valid, bounded]; simp)]
  exact ⟨_, rfl, rfl, rfl⟩

theorem length_countedRows (topic : String) (consumer : Option String) :
    count (Facts.reconcileCandidate consumer.isSome P.leaseSeconds now)
        ((joined topic consumer s).map (factsOf codec active consumer now s)) =
      (countedRows codec active P now s ⟨topic, consumer⟩).length := by
  rw [count, List.countP_map, List.countP_eq_length_filter, countedRows, List.length_map]
  rfl

theorem length_publishableRows (timed : WellTimed codec s) {topic : String}
    (known : topic ∈ P.topics.keys) (consumer : Option String) :
    count (Facts.publishable now) ((joined topic consumer s).map (factsOf codec active consumer now s)) =
      ((P.candidates codec (fun _ => false) now s).filter fun m =>
        decide (m.topic = topic) && incomplete consumer s m && !active s m now).length := by
  rw [joined_eq, List.map_map, count, List.countP_map, List.countP_filter, candidates,
    List.filter_filter, ← List.countP_eq_length_filter]
  refine List.countP_congr fun m member => ?_
  by_cases same : m.topic = topic
  · have passes : ((factsOf codec active consumer now s (m, receipt consumer s m.id)).publishable
        now).holds = (P.candidate codec s now m && incomplete consumer s m && !active s m now) :=
      publishable_holds timed known consumer member same
    simp only [same, passes, Function.comp_apply, decide_true, Bool.not_false, Bool.and_true,
      Bool.true_and, Bool.and_eq_true]
    tauto
  · simp [same]

theorem mem_sortedItems {β : String → Type} (items : AList β) (entry : Sigma β) :
    entry ∈ sortedItems items ↔ entry ∈ items.entries :=
  (List.perm_insertionSort _ items.entries).mem_iff

theorem mem_snapshot {policies : Policies J} {snapshot : Snapshot}
    (collected : collectDeliverySnapshot codec policies now s = .ok snapshot) {name : String}
    {policy : ObservedPolicy J} (listed : policies.lookup name = some policy)
    {entry : Sigma fun _ : String => Option String} (member : entry ∈ policy.delivery.topics.entries) :
    ∃ gauges, observe codec policy.active policy.delivery entry.1 entry.2 now s = .ok gauges ∧
      ⟨name, entry.1, entry.2.isSome, gauges⟩ ∈ snapshot.topics := by
  obtain ⟨_, _, collected⟩ := bind_ok.mp collected
  obtain ⟨observations, all, same⟩ := bind_ok.mp collected
  rw [pure_ok] at same
  subst same
  obtain ⟨rows, stored, ofPolicy⟩ :=
    mapM_result all ((mem_sortedItems policies _).mpr (AList.mem_lookup_iff.mp listed))
  obtain ⟨row, kept, ofTopic⟩ := mapM_result ofPolicy ((mem_sortedItems _ entry).mpr member)
  obtain ⟨gauges, returned, same⟩ := bind_ok.mp ofTopic
  rw [pure_ok] at same
  subst same
  exact ⟨gauges, returned, List.mem_flatten.mpr ⟨rows, stored, kept⟩⟩

/-- The gauges of a policy say what its runtime would do at the same reading. -/
structure Agrees (codec : Codec J) (active : ActiveExecution J) (P : DurableDelivery) (now : Clock)
    (s : Tables J) : Prop where
  reconcile : ∀ earlier entry later, P.topics.entries = earlier ++ entry :: later →
    ∃ gauges, observe codec active P entry.1 entry.2 now s = .ok gauges ∧
      gauges.reconcileCandidates = (selectedRows active P (fun _ => false) now
        (reconcileTurn active P (fun _ => false) now earlier s) entry).length
  publish : ∀ entry ∈ P.topics.entries,
    ∃ gauges, observe codec active P entry.1 entry.2 now s = .ok gauges ∧
      gauges.publishableMessages = ((P.candidates codec (fun _ => false) now s).filter fun m =>
        decide (m.topic = entry.1) && incomplete entry.2 s m && !active s m now).length ∧
      (0 < gauges.publishableMessages →
        ∀ owner, (P.claimDelivery codec owner (fun _ => false) now s).1 ≠ none)
  requeued : (P.reconcileWith active (fun _ => false) now s).1 = (P.topics.entries.map fun entry =>
    (countedRows codec active P now s entry).countP fun m =>
      decide (m.attemptCount < P.maxAttempts)).sum
  counted : ∀ entry ∈ P.topics.entries,
    ∃ gauges, observe codec active P entry.1 entry.2 now s = .ok gauges ∧
      gauges.reconcileCandidates = (countedRows codec active P now s entry).length
  collected : ∀ policies name snapshot, policies.lookup name = some ⟨P, active⟩ →
    collectDeliverySnapshot codec policies now s = .ok snapshot → ∀ entry ∈ P.topics.entries,
      ∃ gauges, observe codec active P entry.1 entry.2 now s = .ok gauges ∧
        ⟨name, entry.1, entry.2.isSome, gauges⟩ ∈ snapshot.topics

theorem claimDelivery_some {m : OutboxMessage J} (chosen : m ∈ P.candidates codec (fun _ => false) now s)
    (owner : String) : (P.claimDelivery codec owner (fun _ => false) now s).1 ≠ none := by
  have listed : P.topics.keys ≠ [] := by
    have passed := (mem_candidates.mp chosen).2.1
    simp only [candidate, Bool.and_eq_true, decide_eq_true_eq] at passed
    exact List.ne_nil_of_mem passed.1.1.1.1
  have first : P.nextCandidate codec (fun _ => false) now s ≠ none := by
    rw [nextCandidate, Ne, List.head?_eq_none_iff]
    exact List.ne_nil_of_mem ((List.perm_insertionSort _ _).mem_iff.mpr chosen)
  obtain ⟨next, found⟩ := Option.ne_none_iff_exists'.mp first
  simp [claimDelivery, listed, found]

/-- The observation agrees with the runtime for every query that `reconcile` does not disturb. -/
theorem observation_agrees (steady : active.Steady) (timed : WellTimed codec s) :
    Agrees codec active P now s where
  reconcile earlier entry later split := by
    obtain ⟨gauges, returned, _, candidates⟩ := observe_ok active P now timed entry.1 entry.2
    refine ⟨gauges, returned, ?_⟩
    rw [candidates, length_countedRows, countedRows_eq]
    exact (selectedRows_turn _ now steady s split).length_eq.symm
  publish entry member := by
    obtain ⟨gauges, returned, publishable, _⟩ := observe_ok active P now timed entry.1 entry.2
    have known : entry.1 ∈ P.topics.keys := List.mem_map_of_mem member
    have agree := publishable.trans (length_publishableRows timed known entry.2)
    refine ⟨gauges, returned, agree, fun positive owner => ?_⟩
    rw [agree] at positive
    obtain ⟨m, kept⟩ := List.exists_mem_of_length_pos positive
    exact claimDelivery_some (List.mem_filter.mp kept).1 owner
  requeued := by
    simp only [countedRows_eq]
    exact reconcileWith_count steady s
  counted entry _ := by
    obtain ⟨gauges, returned, _, candidates⟩ := observe_ok active P now timed entry.1 entry.2
    exact ⟨gauges, returned, candidates.trans (length_countedRows entry.1 entry.2)⟩
  collected policies name snapshot listed collected entry member := mem_snapshot collected listed member

/-- A policy that counts any dead letter as an active execution. -/
def disturbed : ActiveExecution Unit := fun s _ _ => !s.deadLetters.rows.isEmpty

/-- One message that ran out of attempts while pending beside one published long ago. -/
def disturbedTables : Tables Unit where
  outbox :=
    { rows := [
        { SqlOutboxRepository.newRow sampleCodec 7 (sampleEvent none) 0 with attemptCount := 1 },
        { SqlOutboxRepository.newRow sampleCodec 8 (sampleEvent none) 0 with
          status := .published
          attemptCount := 1
          publishedAt := some (1000000 : Int) }]
      nodup := by decide }
  inbox := Table.empty
  deadLetters := Table.empty
  executions := Table.empty

theorem disturbedTables_timed : WellTimed sampleCodec disturbedTables where
  scheduled := by
    intro m member
    rcases List.mem_cons.mp member with rfl | rest
    · rfl
    · rw [List.mem_singleton.mp rest]
      rfl
  received := fun i member => absurd member (Table.not_mem_empty i)

theorem observation_disagrees :
    ¬ ∀ (active : ActiveExecution Unit) (now : Clock) (s : Tables Unit), WellTimed sampleCodec s →
      Agrees sampleCodec active samplePolicy now s := by
  intro agrees
  have agree := agrees disturbed 100000000 disturbedTables disturbedTables_timed
  obtain ⟨gauges, returned, selected⟩ := agree.reconcile [] _ [] rfl
  obtain ⟨_, returned', counted⟩ := agree.counted _ List.mem_cons_self
  rw [returned] at returned'
  cases returned'
  rw [counted] at selected
  revert selected
  decide

theorem observation_agrees_sample :
    Agrees sampleCodec activeExecution samplePolicy 100000000 disturbedTables ∧
      (countedRows sampleCodec activeExecution samplePolicy 100000000 disturbedTables
        ⟨"test.counter.v1", some "test.counter.v1"⟩).map OutboxMessage.id = [8] :=
  ⟨observation_agrees activeExecution_steady disturbedTables_timed, by decide⟩

end DeliveryObservation

end TplBackend
