import TplBackend.Consumer.Confinement
import TplBackend.Consumer.Soundness
import TplBackend.Library.Text

namespace TplBackend

open Keyed Transition

variable {J : Type}

section Resource

theorem topic_no_colon {topic : String} (accepted : OutboxEvent.topicMatches topic = true) :
    ':' ∉ topic.toList :=
  fun member => absurd (OutboxEvent.topic_chars accepted ':' member) (by decide)

theorem topic_no_colon_of_validate {codec : Codec J} {event : OutboxEvent J}
    (accepted : event.validate codec = .ok ()) : ':' ∉ event.topic.toList :=
  topic_no_colon (OutboxEvent.validate_ok.mp accepted).topic

theorem resource_injective {topic topic' key key' : String} (free : ':' ∉ topic.toList)
    (free' : ':' ∉ topic'.toList) (same : topic ++ ":" ++ key = topic' ++ ":" ++ key') :
    topic = topic' ∧ key = key' := by
  have spelled := congrArg String.toList same
  simp only [String.toList_append, List.append_assoc] at spelled
  obtain ⟨topics, keys⟩ := Text.split_at_first free free' spelled
  exact ⟨String.toList_inj.mp topics, String.toList_inj.mp keys⟩

end Resource

section Linked

/-- Every execution row stands for a message of its resource, and no topic runs into a key. -/
structure Linked (s : Tables J) : Prop where
  topics : ∀ m ∈ s.outbox, ':' ∉ m.topic.toList
  executions : ∀ l ∈ s.executions, ∃ m ∈ s.outbox, m.id = l.messageId ∧ m.resource = l.resourceKey

variable {codec : Codec J} {s : Tables J} {op : Op J}

theorem executions_of_update {p : Execution → Bool} (f : Execution → Execution)
    (keeps : ∀ l, (f l).resourceKey = l.resourceKey) (message : ∀ l, (f l).messageId = l.messageId)
    {l : Execution} (member : l ∈ s.executions.update p f keeps) :
    ∃ old ∈ s.executions, old.messageId = l.messageId ∧ old.resourceKey = l.resourceKey := by
  obtain ⟨old, stored, rfl⟩ := Table.mem_update.mp member
  refine ⟨old, stored, ?_⟩
  split
  · exact ⟨(message old).symm, (keeps old).symm⟩
  · exact ⟨rfl, rfl⟩

variable [DecidableEq J]

theorem executions_origin {l : Execution} (member : l ∈ (perform codec op s).2.executions) :
    (∃ old ∈ s.executions, old.messageId = l.messageId ∧ old.resourceKey = l.resourceKey) ∨
      ∃ m ∈ s.outbox, m.id = l.messageId ∧ m.resource = l.resourceKey := by
  cases op with
  | claimExecution D id owner now =>
      rcases D.claimExecution_cases codec id owner now s with
        idle | ⟨m, taken, selected, upserted, claimed⟩
      · rw [perform, idle] at member
        exact Or.inl ⟨l, member, rfl, rfl⟩
      · obtain ⟨present, rfl, _⟩ := eligible_spec selected
        obtain ⟨shape, _⟩ := DurableTasks.takeover_spec upserted
        have own {row : Execution} (same : l = row) (message : row.messageId = taken.messageId)
            (resource : row.resourceKey = taken.resourceKey) :
            ∃ m ∈ s.outbox, m.id = l.messageId ∧ m.resource = l.resourceKey :=
          ⟨m, present, by rw [same, message, shape], by rw [same, resource, shape]⟩
        rcases claimed with granted | refused
        · rw [perform, granted] at member
          rcases DurableTasks.mem_putExecution member with same | old
          · exact Or.inr (own same rfl rfl)
          · exact Or.inl ⟨l, old, rfl, rfl⟩
        · rw [perform, refused] at member
          rcases DurableTasks.mem_putExecution member with same | before
          · exact Or.inr (own same rfl rfl)
          rcases DurableTasks.mem_putExecution before with same | old
          · exact Or.inr (own same rfl rfl)
          · exact Or.inl ⟨l, old, rfl, rfl⟩
  | renew D lease now =>
      cases result : D.renew lease now s with
      | error raised =>
          have same : (perform codec (.renew D lease now) s).2 = s := by simp [perform, settle, result]
          rw [same] at member
          exact Or.inl ⟨l, member, rfl, rfl⟩
      | ok s' =>
          have same : (perform codec (.renew D lease now) s).2 = s' := by simp [perform, settle, result]
          obtain ⟨_, rfl⟩ := DurableTasks.renew_ok result
          rw [same] at member
          exact Or.inl (executions_of_update _ (DurableTasks.extended_resourceKey D.leaseSeconds now)
            (fun _ => rfl) member)
  | release lease =>
      exact Or.inl (executions_of_update _ DurableTasks.vacated_resourceKey (fun _ => rfl) member)
  | _ =>
      rw [(perform_frame codec _ s).executions rfl] at member
      exact Or.inl ⟨l, member, rfl, rfl⟩

theorem step_linked {allowed : Op J → Prop} {s' : Tables J} (linked : Linked s)
    (step : Step codec allowed s op s') : Linked s' := by
  have stays {m : OutboxMessage J} (present : m ∈ s.outbox) :
      ∃ m' ∈ s'.outbox, m'.intent = m.intent := by
    obtain ⟨m', found, same⟩ := step_carries (carries_of_mem present) step
    exact ⟨m', (Table.find?_eq_some.mp found).1, same⟩
  constructor
  · intro m' member
    rw [step.2] at member
    rcases perform_origin member with ⟨m, present, _, rewrite⟩ | ⟨_, _, _, accepted, _, _, new⟩
    · rw [topic_of_intent rewrite.intent_eq]
      exact linked.topics m present
    · rw [new]
      exact topic_no_colon_of_validate accepted
  · intro l member
    rw [step.2] at member
    have known : ∃ m ∈ s.outbox, m.id = l.messageId ∧ m.resource = l.resourceKey := by
      rcases executions_origin member with ⟨old, stored, message, resource⟩ | known
      · obtain ⟨m, present, keyed, same⟩ := linked.executions old stored
        exact ⟨m, present, keyed.trans message, same.trans resource⟩
      · exact known
    obtain ⟨m, present, keyed, resource⟩ := known
    obtain ⟨m', present', same⟩ := stays present
    have keyed' : m'.id = m.id := congrArg Intent.id same
    exact ⟨m', present', keyed'.trans keyed, (resource_of_intent same).trans resource⟩

theorem run_linked {allowed : Op J → Prop} {history : List (Event (Tables J) (Op J))}
    (run : Run (Step codec allowed) Tables.empty history s) : Linked s :=
  run.invariant ⟨fun m member => absurd member (Table.not_mem_empty m),
    fun l member => absurd member (Table.not_mem_empty l)⟩ fun _ _ _ linked step =>
      step_linked linked step

end Linked

section Policies

def Tables.belongs (s : Tables J) (topics : List String) (id : Uuid) : Bool :=
  (s.outbox.find? id).any fun m => decide (m.topic ∈ topics)

theorem belongs_iff {s : Tables J} {topics : List String} {id : Uuid} :
    s.belongs topics id = true ↔ ∃ m ∈ s.outbox, m.id = id ∧ m.topic ∈ topics := by
  rw [Tables.belongs]
  constructor
  · intro found
    cases row : s.outbox.find? id with
    | none => simp [row] at found
    | some m =>
        obtain ⟨present, keyed⟩ := Table.find?_eq_some.mp row
        rw [row, Option.any_some, decide_eq_true_eq] at found
        exact ⟨m, present, keyed, found⟩
  · rintro ⟨m, present, rfl, topic⟩
    rw [Table.find?_of_mem present, Option.any_some, decide_eq_true_eq]
    exact topic

theorem belongs_apart {s : Tables J} {topics topics' : List String} (apart : ∀ t ∈ topics, t ∉ topics')
    {id : Uuid} (mine : s.belongs topics id = true) : s.belongs topics' id = false := by
  rw [Bool.eq_false_iff]
  intro theirs
  obtain ⟨m, present, rfl, topic⟩ := belongs_iff.mp mine
  obtain ⟨m', present', keyed, topic'⟩ := belongs_iff.mp theirs
  rw [Table.eq_of_key_eq present' present keyed] at topic'
  exact apart m.topic topic topic'

variable [DecidableEq J]

def ClaimedOf (codec : Codec J) (topics : List String) (history : List (Event (Tables J) (Op J)))
    (message : OutboxMessage J) : Prop :=
  ∃ event ∈ history, ∃ (P : DurableDelivery) (owner : String) (locked : Uuid → Bool) (now : Clock),
    P.topics.keys = topics ∧ event.label = .claimDelivery P owner locked now ∧
      reply codec event = .claimed (some message)

def LeasedOf (codec : Codec J) (topics : List String) (history : List (Event (Tables J) (Op J)))
    (lease : ConsumerLease) (row : OutboxMessage J) : Prop :=
  ∃ event ∈ history, ∃ (D : DurableTasks) (id owner : Uuid) (now : Clock),
    D.handlers = topics ∧ event.label = .claimExecution D id owner now ∧
      reply codec event = .leased (some (lease, row))

/-- The operations of a policy whose topics are `topics`. -/
inductive Op.Of (codec : Codec J) (topics : List String) (history : List (Event (Tables J) (Op J))) :
    Op J → Prop
  | claimDelivery {P : DurableDelivery} {owner : String} {locked : Uuid → Bool} {now : Clock} :
      P.topics.keys = topics → Op.Of codec topics history (.claimDelivery P owner locked now)
  | finishDelivery {P : DurableDelivery} {message : OutboxMessage J} {error : Option String}
      {now : Clock} : P.topics.keys = topics → ClaimedOf codec topics history message →
      Op.Of codec topics history (.finishDelivery P message error now)
  | reconcile {P : DurableDelivery} {locked : Uuid → Bool} {now : Clock} : P.topics.keys = topics →
      Op.Of codec topics history (.reconcile P locked now)
  | replay {P : DurableDelivery} {id : Uuid} {now : Clock} : P.topics.keys = topics →
      Op.Of codec topics history (.replay P id now)
  | claimExecution {D : DurableTasks} {id owner : Uuid} {now : Clock} : D.handlers = topics →
      Op.Of codec topics history (.claimExecution D id owner now)
  | renew {D : DurableTasks} {lease : ConsumerLease} {row : OutboxMessage J} {now : Clock} :
      D.handlers = topics → LeasedOf codec topics history lease row →
      Op.Of codec topics history (.renew D lease now)
  | release {lease : ConsumerLease} {row : OutboxMessage J} :
      LeasedOf codec topics history lease row → Op.Of codec topics history (.release lease)
  | acknowledge {lease : ConsumerLease} {row : OutboxMessage J} {now : Clock} :
      LeasedOf codec topics history lease row →
      Op.Of codec topics history (.acknowledge lease row.topic now)

variable {codec : Codec J} {allowed : Op J → Prop} {topics topics' : List String}
variable {history : List (Event (Tables J) (Op J))} {s : Tables J} {op op' : Op J}

theorem ClaimedOf.mono {message : OutboxMessage J} (claimed : ClaimedOf codec topics history message)
    (event : Event (Tables J) (Op J)) : ClaimedOf codec topics (history ++ [event]) message := by
  obtain ⟨earlier, member, claims⟩ := claimed
  exact ⟨earlier, List.mem_append_left _ member, claims⟩

theorem LeasedOf.mono {lease : ConsumerLease} {row : OutboxMessage J}
    (leased : LeasedOf codec topics history lease row) (event : Event (Tables J) (Op J)) :
    LeasedOf codec topics (history ++ [event]) lease row := by
  obtain ⟨earlier, member, leases⟩ := leased
  exact ⟨earlier, List.mem_append_left _ member, leases⟩

theorem Op.Of.mono (mine : op.Of codec topics history) (event : Event (Tables J) (Op J)) :
    op.Of codec topics (history ++ [event]) := by
  cases mine with
  | claimDelivery keys => exact .claimDelivery keys
  | finishDelivery keys claimed => exact .finishDelivery keys (claimed.mono event)
  | reconcile keys => exact .reconcile keys
  | replay keys => exact .replay keys
  | claimExecution keys => exact .claimExecution keys
  | renew keys leased => exact .renew keys (leased.mono event)
  | release leased => exact .release (leased.mono event)
  | acknowledge leased => exact .acknowledge (leased.mono event)

theorem belongs_of_event (run : Run (Step codec allowed) Tables.empty history s)
    {event : Event (Tables J) (Op J)} (member : event ∈ history) {m : OutboxMessage J}
    (present : m ∈ event.before.outbox) (topic : m.topic ∈ topics) :
    s.belongs topics m.id = true := by
  obtain ⟨earlier, later, rfl, _, step⟩ := run.of_mem member
  have carried : Carries m.intent s := Run.stable
    (fun _ _ _ carried step => step_carries carried step) run
    (step_carries (carries_of_mem present) step)
  obtain ⟨m', found, same⟩ := carried
  obtain ⟨present', keyed⟩ := Table.find?_eq_some.mp found
  exact belongs_iff.mpr ⟨m', present', keyed, by rw [topic_of_intent same]; exact topic⟩

theorem ClaimedOf.belongs {message : OutboxMessage J}
    (claimed : ClaimedOf codec topics history message)
    (run : Run (Step codec allowed) Tables.empty history s) :
    s.belongs topics message.id = true := by
  obtain ⟨event, member, P, owner, locked, now, rfl, label, returned⟩ := claimed
  have handed : message.id ∈ (perform codec event.label event.before).1.handsOut := by
    rw [reply] at returned
    rw [returned]
    exact List.mem_singleton.mpr rfl
  obtain ⟨m, present, keyed, delivered⟩ := perform_handsOut handed
  rw [label] at delivered
  rw [← keyed]
  cases delivered with
  | delivered chosen =>
      have candidate := (nextCandidate_spec chosen).2.1
      simp only [DurableDelivery.candidate, Bool.and_eq_true, decide_eq_true_eq] at candidate
      exact belongs_of_event run member present candidate.1.1.1.1

theorem LeasedOf.belongs {lease : ConsumerLease} {row : OutboxMessage J}
    (leased : LeasedOf codec topics history lease row)
    (run : Run (Step codec allowed) Tables.empty history s) :
    s.belongs topics lease.messageId = true := by
  obtain ⟨event, member, D, id, owner, now, rfl, label, returned⟩ := leased
  have handed : lease.messageId ∈ (perform codec event.label event.before).1.handsOut := by
    rw [reply] at returned
    rw [returned]
    exact List.mem_singleton.mpr rfl
  obtain ⟨m, present, keyed, hands⟩ := perform_handsOut handed
  rw [label] at hands
  rw [← keyed]
  generalize equal : Op.claimExecution D id owner now = claim at hands
  cases hands with
  | delivered => cases equal
  | batched => cases equal
  | leased selected =>
      cases equal
      exact belongs_of_event run member present (eligible_spec selected).2.2.1

theorem Op.Of.confined (mine : op.Of codec topics history)
    (run : Run (Step codec allowed) Tables.empty history s) :
    Confined (s.belongs topics) s (perform codec op) := by
  have covers : s.Covers topics (s.belongs topics) := fun m present topic =>
    belongs_iff.mpr ⟨m, present, rfl, topic⟩
  have linked := run_linked run
  cases mine with
  | @claimDelivery P owner locked now keys =>
      subst keys
      exact (P.claimDelivery_confined owner covers).map Reply.claimed
  | @finishDelivery P message error now keys claimed =>
      exact (P.finishDelivery_confined fun _ _ _ => claimed.belongs run).settled
  | @reconcile P locked now keys =>
      subst keys
      exact (P.reconcile_confined covers).map Reply.requeued
  | @replay P id now keys =>
      subst keys
      exact (P.replay_confined covers).settled
  | @claimExecution D id owner now keys =>
      subst keys
      refine (D.claimExecution_confined covers fun m present topic l stored keyed => ?_).map
        Reply.leased
      -- the row's message has the resource of `m`, hence its topic
      obtain ⟨m', present', same, resource⟩ := linked.executions l stored
      obtain ⟨topics, _⟩ := resource_injective (linked.topics m' present')
        (linked.topics m present) (resource.trans keyed)
      exact belongs_iff.mpr ⟨m', present', same, topics ▸ topic⟩
  | @renew D lease row now keys leased => exact (D.renew_confined (leased.belongs run)).settled
  | @release lease row leased => exact DurableTasks.release_confined (leased.belongs run)
  | @acknowledge lease row now leased =>
      exact (DurableTasks.acknowledge_confined (leased.belongs run)).settled

theorem Op.Of.belongs_eq (mine : op.Of codec topics history) :
    (perform codec op s).2.belongs topics' = s.belongs topics' := by
  funext id
  have row := perform_row codec op s id
  rw [Tables.belongs, Tables.belongs]
  generalize s.outbox.find? id = old at row
  generalize (perform codec op s).2.outbox.find? id = new at row
  cases row with
  | absent => rfl
  | inserted inserts =>
      subst inserts
      cases mine
  | rewritten rewrite =>
      rw [Option.any_some, Option.any_some, topic_of_intent rewrite.intent_eq]

theorem Op.Of.confined_after (mine : op.Of codec topics history)
    (theirs : op'.Of codec topics' history)
    (run : Run (Step codec fun _ => True) Tables.empty history s) :
    Confined (s.belongs topics) (perform codec op' s).2 (perform codec op) := by
  have step : Step codec (fun _ => True) s op' (perform codec op' s).2 := ⟨trivial, rfl⟩
  have confined := (mine.mono ⟨s, op', (perform codec op' s).2⟩).confined (run.next step)
  rwa [theirs.belongs_eq] at confined

theorem Op.Of.commute (apart : ∀ topic ∈ topics, topic ∉ topics') (mine : op.Of codec topics history)
    (theirs : op'.Of codec topics' history)
    (run : Run (Step codec fun _ => True) Tables.empty history s) :
    (perform codec op (perform codec op' s).2).1 = (perform codec op s).1 ∧
      (perform codec op' (perform codec op s).2).1 = (perform codec op' s).1 ∧
      SameRows (perform codec op (perform codec op' s).2).2
        (perform codec op' (perform codec op s).2).2 :=
  Confined.commute (fun _ inside => belongs_apart apart inside) (mine.confined run)
    (mine.confined_after theirs run) (theirs.confined run) (theirs.confined_after mine run)

/-- In every reachable state, an operation of a policy reads and writes the rows of the messages of
the policy's topics and no other row, operations of policies without a common topic commute, and
two accepted events share a resource key only if they share topic and aggregate key. -/
theorem policy_isolation (run : Run (Step codec fun _ => True) Tables.empty history s) :
    (∀ topics op, op.Of codec topics history →
      Confined (s.belongs topics) s (perform codec op)) ∧
    (∀ topics topics' op op', (∀ topic ∈ topics, topic ∉ topics') → op.Of codec topics history →
      op'.Of codec topics' history →
      (perform codec op (perform codec op' s).2).1 = (perform codec op s).1 ∧
        (perform codec op' (perform codec op s).2).1 = (perform codec op' s).1 ∧
        SameRows (perform codec op (perform codec op' s).2).2
          (perform codec op' (perform codec op s).2).2) ∧
    (∀ event event' : OutboxEvent J, event.validate codec = .ok () →
      event'.validate codec = .ok () →
      event.topic ++ ":" ++ event.aggregateKey = event'.topic ++ ":" ++ event'.aggregateKey →
      event.topic = event'.topic ∧ event.aggregateKey = event'.aggregateKey) :=
  ⟨fun _ _ mine => mine.confined run,
    fun _ _ _ _ apart mine theirs => Op.Of.commute apart mine theirs run,
    fun _ _ accepted accepted' same => resource_injective (topic_no_colon_of_validate accepted)
      (topic_no_colon_of_validate accepted') same⟩

def clockTasks : DurableTasks :=
  { sampleTasks with handlers := ["test.clock.v1"], handlers_nodup := List.nodup_singleton _ }

def isolationOps : List (Op Unit) :=
  [.enqueue 1 (sampleEvent none) 0,
    .enqueue 2 { sampleEvent none with topic := "test.clock.v1", deduplicationKey := "two" } 0]

theorem policy_isolation_sample :
    SameRows
      (perform sampleCodec (.claimExecution sampleTasks 1 7 (seconds 1))
        (perform sampleCodec (.claimDelivery clockTasks.delivery "w" (fun _ => false) (seconds 1))
          (tablesAfter sampleCodec isolationOps)).2).2
      (perform sampleCodec (.claimDelivery clockTasks.delivery "w" (fun _ => false) (seconds 1))
        (perform sampleCodec (.claimExecution sampleTasks 1 7 (seconds 1))
          (tablesAfter sampleCodec isolationOps)).2).2 :=
  ((policy_isolation (transactions_run sampleCodec fun _ _ => trivial)).2.1 ["test.counter.v1"]
    ["test.clock.v1"] _ _ (by simp) (.claimExecution rfl) (.claimDelivery rfl)).2.2

end Policies

end TplBackend
