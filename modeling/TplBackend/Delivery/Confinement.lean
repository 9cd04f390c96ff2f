import TplBackend.Delivery.Operation

namespace TplBackend

open Keyed

variable {J : Type}

namespace Tables

def keep (q : Uuid → Bool) (s : Tables J) : Tables J where
  outbox := s.outbox.filter fun m => q m.id
  inbox := s.inbox.filter fun i => q i.messageId
  deadLetters := s.deadLetters.filter fun d => q d.messageId
  executions := s.executions.filter fun l => q l.messageId

variable {q : Uuid → Bool} {s : Tables J}

theorem keep_keep (q q' : Uuid → Bool) (s : Tables J) :
    (s.keep q).keep q' = s.keep fun id => q id && q' id := by
  simp only [keep, Table.filter_filter]

theorem keep_of_le {s' : Tables J} {q' : Uuid → Bool} (same : s.keep q = s'.keep q)
    (below : ∀ id, q' id = true → q id = true) : s.keep q' = s'.keep q' := by
  have both : (fun id => q id && q' id) = q' := by
    funext id
    cases chosen : q' id with
    | false => simp
    | true => simp [below id chosen]
  have restricted := congrArg (Tables.keep q') same
  rwa [keep_keep, keep_keep, both] at restricted

theorem quarantined_keep {id : Uuid} (inside : q id = true) :
    (s.keep q).quarantined id = s.quarantined id :=
  Table.any_filter fun d _ chosen => by
    rw [decide_eq_true_eq] at chosen
    rw [chosen.1]
    exact inside

theorem acknowledged_keep {consumer : String} {id : Uuid} (inside : q id = true) :
    (s.keep q).acknowledged consumer id = s.acknowledged consumer id :=
  Table.any_filter fun i _ chosen => by
    rw [decide_eq_true_eq] at chosen
    rw [chosen.2]
    exact inside

theorem keep_outbox_update {p : OutboxMessage J → Bool} {f : OutboxMessage J → OutboxMessage J}
    {keeps : ∀ m, (f m).id = m.id} :
    ({ s with outbox := s.outbox.update p f keeps } : Tables J).keep q =
      { s.keep q with outbox := (s.keep q).outbox.update p f keeps } := by
  have moved : (s.outbox.update p f keeps).filter (fun m => q m.id) =
      (s.outbox.filter fun m => q m.id).update p f keeps :=
    Table.filter_update fun m _ _ => by rw [keeps]
  simp only [keep, moved]

theorem keep_outbox_update_of_not {p : OutboxMessage J → Bool} {f : OutboxMessage J → OutboxMessage J}
    {keeps : ∀ m, (f m).id = m.id} (outside : ∀ m ∈ s.outbox, p m = true → q m.id = false) :
    ({ s with outbox := s.outbox.update p f keeps } : Tables J).keep q = s.keep q := by
  have kept : (s.outbox.update p f keeps).filter (fun m => q m.id) = s.outbox.filter fun m => q m.id :=
    Table.filter_update_of_not fun m member chosen =>
      ⟨outside m member chosen, by rw [keeps]; exact outside m member chosen⟩
  simp only [keep, kept]

end Tables

/-- What a transaction does on the rows of the messages in `q`, it does without looking at any
other row, and the other rows it leaves alone. -/
structure Confined {α : Type} (q : Uuid → Bool) (s : Tables J) (run : Tables J → α × Tables J) :
    Prop where
  result : (run (s.keep q)).1 = (run s).1
  inside : (run s).2.keep q = (run (s.keep q)).2
  outside : (run s).2.keep (fun id => !q id) = s.keep fun id => !q id

theorem Confined.map {α β : Type} {q : Uuid → Bool} {s : Tables J} {run : Tables J → α × Tables J}
    (confined : Confined q s run) (f : α → β) : Confined q s fun s => (f (run s).1, (run s).2) where
  result := congrArg f confined.result
  inside := confined.inside
  outside := confined.outside

structure SameRows (s s' : Tables J) : Prop where
  outbox : ∀ m, m ∈ s.outbox ↔ m ∈ s'.outbox
  inbox : ∀ i, i ∈ s.inbox ↔ i ∈ s'.inbox
  deadLetters : ∀ d, d ∈ s.deadLetters ↔ d ∈ s'.deadLetters
  executions : ∀ l, l ∈ s.executions ↔ l ∈ s'.executions

theorem sameRows_of_keep {s s' : Tables J}
    (same : ∀ id, ∃ q : Uuid → Bool, q id = true ∧ s.keep q = s'.keep q) : SameRows s s' := by
  have agree {ρ κ : Type} {key : ρ → κ} {id : Uuid} {q : Uuid → Bool} (of : ρ → Uuid)
      {table table' : Table key} {row : ρ} (mine : of row = id) (kept : q id = true)
      (equal : table.filter (fun row => q (of row)) = table'.filter fun row => q (of row)) :
      row ∈ table ↔ row ∈ table' := by
    have inside : q (of row) = true := mine ▸ kept
    constructor
    · intro member
      exact (Table.mem_filter.mp (equal ▸ Table.mem_filter.mpr ⟨member, inside⟩)).1
    · intro member
      exact (Table.mem_filter.mp (equal ▸ Table.mem_filter.mpr ⟨member, inside⟩)).1
  constructor
  · intro m
    obtain ⟨q, kept, equal⟩ := same m.id
    exact agree OutboxMessage.id rfl kept (congrArg Tables.outbox equal)
  · intro i
    obtain ⟨q, kept, equal⟩ := same i.messageId
    exact agree InboxMessage.messageId rfl kept (congrArg Tables.inbox equal)
  · intro d
    obtain ⟨q, kept, equal⟩ := same d.messageId
    exact agree DeadLetter.messageId rfl kept (congrArg Tables.deadLetters equal)
  · intro l
    obtain ⟨q, kept, equal⟩ := same l.messageId
    exact agree Execution.messageId rfl kept (congrArg Tables.executions equal)

section Commute

variable {α β : Type} {q q' : Uuid → Bool} {s : Tables J}
variable {run : Tables J → α × Tables J} {run' : Tables J → β × Tables J}

theorem Confined.after (apart : ∀ id, q id = true → q' id = false) (own : Confined q s run)
    (later : Confined q (run' s).2 run) (other : Confined q' s run') :
    (run (run' s).2).1 = (run s).1 ∧ (run (run' s).2).2.keep q = (run s).2.keep q := by
  have untouched : (run' s).2.keep q = s.keep q :=
    Tables.keep_of_le other.outside fun id inside => by rw [apart id inside]; rfl
  constructor
  · rw [← later.result, untouched, own.result]
  · rw [later.inside, untouched, own.inside]

theorem Confined.commute (apart : ∀ id, q id = true → q' id = false) (own : Confined q s run)
    (later : Confined q (run' s).2 run) (other : Confined q' s run')
    (otherLater : Confined q' (run s).2 run') :
    (run (run' s).2).1 = (run s).1 ∧ (run' (run s).2).1 = (run' s).1 ∧
      SameRows (run (run' s).2).2 (run' (run s).2).2 := by
  have apart' : ∀ id, q' id = true → q id = false := fun id inside => by
    cases mine : q id with
    | false => rfl
    | true => rw [apart id mine] at inside; cases inside
  obtain ⟨result, rows⟩ := own.after apart later other
  obtain ⟨result', rows'⟩ := other.after apart' otherLater own
  refine ⟨result, result', sameRows_of_keep fun id => ?_⟩
  cases mine : q id with
  | true =>
      refine ⟨q, mine, rows.trans ?_⟩
      exact (Tables.keep_of_le otherLater.outside fun id inside => by
        rw [apart id inside]; rfl).symm
  | false =>
      cases theirs : q' id with
      | true =>
          refine ⟨q', theirs, Eq.trans ?_ rows'.symm⟩
          exact Tables.keep_of_le later.outside fun id inside => by rw [apart' id inside]; rfl
      | false =>
          -- neither of the two owns the message
          have neither : ∀ id, (!q id && !q' id) = true → (!q id) = true ∧ (!q' id) = true :=
            fun id => Bool.and_eq_true_iff.mp
          refine ⟨fun id => !q id && !q' id, by simp [mine, theirs], ?_⟩
          calc (run (run' s).2).2.keep (fun id => !q id && !q' id)
              = (run' s).2.keep fun id => !q id && !q' id :=
                Tables.keep_of_le later.outside fun id inside => (neither id inside).1
            _ = s.keep fun id => !q id && !q' id :=
                Tables.keep_of_le other.outside fun id inside => (neither id inside).2
            _ = (run s).2.keep fun id => !q id && !q' id :=
                (Tables.keep_of_le own.outside fun id inside => (neither id inside).1).symm
            _ = (run' (run s).2).2.keep fun id => !q id && !q' id :=
                (Tables.keep_of_le otherLater.outside fun id inside => (neither id inside).2).symm

end Commute

def Tables.Covers (s : Tables J) (topics : List String) (q : Uuid → Bool) : Prop :=
  ∀ m ∈ s.outbox, m.topic ∈ topics → q m.id = true

structure ConfinedOrRaises (q : Uuid → Bool) (s : Tables J) (run : Tables J → Except Raised (Tables J)) :
    Prop where
  inside : run (s.keep q) = (run s).map (Tables.keep q)
  outside : ∀ s', run s = .ok s' → s'.keep (fun id => !q id) = s.keep fun id => !q id

theorem ConfinedOrRaises.settled {q : Uuid → Bool} {s : Tables J}
    {run : Tables J → Except Raised (Tables J)} (confined : ConfinedOrRaises q s run) :
    Confined q s fun s => settle s do return (.done, ← run s) := by
  have inside := confined.inside
  have outside := confined.outside
  cases result : run s with
  | error raised =>
      rw [result] at inside
      constructor <;> simp [settle, result, inside, bind, Except.bind, Except.map]
  | ok s' =>
      rw [result] at inside
      constructor
      · simp [settle, result, inside, bind, Except.bind, Except.map, pure, Except.pure]
      · simp [settle, result, inside, bind, Except.bind, Except.map, pure, Except.pure]
      · simpa [settle, result, bind, Except.bind, pure, Except.pure] using outside s' result

namespace DurableDelivery

variable {q : Uuid → Bool} {s : Tables J} {codec : Codec J} {P : DurableDelivery} {now : Clock}
variable {locked : Uuid → Bool}

theorem candidate_keep {m : OutboxMessage J} (inside : q m.id = true) :
    P.candidate codec (s.keep q) now m = P.candidate codec s now m := by
  simp only [candidate, Tables.quarantined_keep inside]

theorem candidates_keep (covers : s.Covers P.topics.keys q) :
    P.candidates codec locked now (s.keep q) = P.candidates codec locked now s := by
  have listed {m : OutboxMessage J} (chosen : P.candidate codec s now m = true) :
      m.topic ∈ P.topics.keys := by
    simp only [candidate, Bool.and_eq_true, decide_eq_true_eq] at chosen
    exact chosen.1.1.1.1
  have select : (s.keep q).outbox.rows.filter (fun m => P.candidate codec s now m && !locked m.id) =
      s.outbox.rows.filter fun m => P.candidate codec s now m && !locked m.id :=
    Table.select_filter fun m member chosen =>
      covers m member (listed (Bool.and_eq_true_iff.mp chosen).1)
  rw [candidates, candidates, ← select]
  apply List.filter_congr
  intro m member
  rw [candidate_keep (List.mem_filter.mp member).2]

theorem claimDelivery_confined (owner : String) (covers : s.Covers P.topics.keys q) :
    Confined q s (P.claimDelivery codec owner locked now) := by
  have same : P.nextCandidate codec locked now (s.keep q) = P.nextCandidate codec locked now s := by
    rw [nextCandidate, nextCandidate, candidates_keep covers]
  by_cases idle : P.topics.keys = []
  · constructor <;> simp [claimDelivery, idle]
  cases found : P.nextCandidate codec locked now s with
  | none => constructor <;> simp [claimDelivery, idle, same, found]
  | some m =>
      obtain ⟨member, chosen, _⟩ := nextCandidate_spec found
      have inside : q m.id = true := by
        simp only [candidate, Bool.and_eq_true, decide_eq_true_eq] at chosen
        exact covers m member chosen.1.1.1.1
      constructor
      · simp [claimDelivery, idle, same, found]
      · simp only [claimDelivery, idle, same, found, if_false]
        exact Tables.keep_outbox_update
      · simp only [claimDelivery, idle, found, if_false]
        refine Tables.keep_outbox_update_of_not fun row _ picked => ?_
        rw [of_decide_eq_true picked, inside]
        rfl

theorem complete_confined {id : Uuid} {owner : Option String} {clock : Clock} {raised : Raised}
    {f : OutboxMessage J → OutboxMessage J} {keeps : ∀ m, (f m).id = m.id}
    (known : ∀ m ∈ s.outbox, m.id = id → q id = true) :
    ConfinedOrRaises q s (SqlOutboxRepository.complete id owner clock raised f keeps) := by
  have mine {m : OutboxMessage J} (held : m.heldBy id owner clock = true) : m.id = id :=
    ((m.heldBy_iff id owner clock).mp held).1
  have any : ((s.keep q).outbox.rows.any fun m => m.heldBy id owner clock) =
      s.outbox.rows.any fun m => m.heldBy id owner clock :=
    Table.any_filter fun m member held => by
      rw [mine held]
      exact known m member (mine held)
  constructor
  · unfold SqlOutboxRepository.complete
    rw [any]
    split
    · rw [Except.map, Tables.keep_outbox_update]
    · rfl
  · intro s' result
    obtain ⟨_, rfl⟩ := complete_ok result
    refine Tables.keep_outbox_update_of_not fun m member held => ?_
    rw [mine held, known m member (mine held)]
    rfl

theorem deadLetter_keep {id : Uuid} (inside : q id = true) (error : String) (now : Clock)
    (s : Tables J) : deadLetter id error now (s.keep q) = (deadLetter id error now s).keep q := by
  have moved := Table.filter_upsert s.deadLetters ⟨id, errorCode error, now, none⟩
    (fun d => { d with errorCode := errorCode error, failedAt := now, replayedAt := none })
    (fun d => q d.messageId) (fun _ => rfl) inside fun old _ same => by
      rw [same]
      exact ⟨inside, inside⟩
  simp only [deadLetter, Tables.keep, moved]

theorem deadLetter_outside {id : Uuid} (inside : q id = true) (error : String) (now : Clock)
    (s : Tables J) : (deadLetter id error now s).keep (fun id => !q id) = s.keep fun id => !q id := by
  have kept := Table.filter_upsert_of_not s.deadLetters ⟨id, errorCode error, now, none⟩
    (fun d => { d with errorCode := errorCode error, failedAt := now, replayedAt := none })
    (fun d => !q d.messageId) (fun _ => rfl) (by simp [inside]) fun old _ same => by
      rw [same]
      simp [inside]
  simp only [deadLetter, Tables.keep, kept]

theorem finishDelivery_confined {message : OutboxMessage J} {error : Option String}
    (known : ∀ m ∈ s.outbox, m.id = message.id → q message.id = true) :
    ConfinedOrRaises q s (P.finishDelivery message error now) := by
  have completes : ConfinedOrRaises q s (SqlOutboxRepository.complete message.id message.leaseOwner
      now (.deliveryLeaseLost "delivery lease lost") (finished message.attemptCount error now)
      (finished_id message.attemptCount error now)) := complete_confined known
  have inside := completes.inside
  have outside := completes.outside
  cases result : SqlOutboxRepository.complete message.id message.leaseOwner now
      (.deliveryLeaseLost "delivery lease lost") (finished message.attemptCount error now)
      (finished_id message.attemptCount error now) s with
  | error raised =>
      rw [result] at inside
      constructor <;> simp [finishDelivery, result, inside, Except.map]
  | ok updated =>
      rw [result] at inside
      obtain ⟨⟨m, member, held⟩, _⟩ := complete_ok result
      have mine : q message.id = true :=
        known m member ((m.heldBy_iff message.id message.leaseOwner now).mp held).1
      have kept := outside updated result
      cases error with
      | none =>
          refine ⟨by simp [finishDelivery, result, inside, Except.map], fun s' finishes => ?_⟩
          simp only [finishDelivery, result, Except.ok.injEq] at finishes
          exact finishes ▸ kept
      | some text =>
          by_cases limit : truthy (some text) = true ∧ P.maxAttempts ≤ message.attemptCount
          · refine ⟨by simp [finishDelivery, result, inside, Except.map, limit, deadLetter_keep mine],
              fun s' finishes => ?_⟩
            simp only [finishDelivery, result, limit, and_self, if_true, Except.ok.injEq] at finishes
            rw [← finishes, deadLetter_outside mine, kept]
          · refine ⟨by simp [finishDelivery, result, inside, Except.map, limit], fun s' finishes => ?_⟩
            simp only [finishDelivery, result, limit, if_false, Except.ok.injEq] at finishes
            exact finishes ▸ kept

theorem replay_confined {id : Uuid} (covers : s.Covers P.topics.keys q) :
    ConfinedOrRaises q s (P.replay id now) := by
  have listed : ((s.keep q).outbox.rows.any fun m =>
      decide (m.id = id) && decide (m.topic ∈ P.topics.keys)) =
      s.outbox.rows.any fun m => decide (m.id = id) && decide (m.topic ∈ P.topics.keys) :=
    Table.any_filter fun m member chosen => by
      simp only [Bool.and_eq_true, decide_eq_true_eq] at chosen
      exact covers m member chosen.2
  cases present : s.outbox.rows.any fun m =>
      decide (m.id = id) && decide (m.topic ∈ P.topics.keys) with
  | false =>
      rw [present] at listed
      constructor <;> simp [replay, present, listed, Except.map]
  | true =>
      rw [present] at listed
      obtain ⟨m, member, chosen⟩ := List.any_eq_true.mp present
      simp only [Bool.and_eq_true, decide_eq_true_eq] at chosen
      obtain ⟨rfl, topic⟩ := chosen
      have mine := covers m member topic
      have journal := Tables.quarantined_keep (s := s) mine
      cases open_ : s.quarantined m.id with
      | false =>
          rw [open_] at journal
          constructor <;> simp [replay, present, listed, open_, journal, Except.map]
      | true =>
          rw [open_] at journal
          have rows (side : Uuid → Bool) : (s.outbox.update (fun row => row.id = m.id) (replayed now)
              (replayed_id now)).filter (fun row => side row.id) =
              (s.outbox.filter fun row => side row.id).update (fun row => row.id = m.id)
                (replayed now) (replayed_id now) := Table.filter_update fun _ _ _ => rfl
          have letters (side : Uuid → Bool) : (s.deadLetters.update
              (fun d => decide (d.messageId = m.id) && decide (d.replayedAt = none))
              (fun d => { d with replayedAt := some (now : Timestamp) }) fun _ => rfl).filter
                (fun d => side d.messageId) =
              (s.deadLetters.filter fun d => side d.messageId).update
                (fun d => decide (d.messageId = m.id) && decide (d.replayedAt = none))
                (fun d => { d with replayedAt := some (now : Timestamp) }) fun _ => rfl :=
            Table.filter_update fun _ _ _ => rfl
          refine ⟨?_, fun s' result => ?_⟩
          · simp only [replay, present, listed, open_, journal, Except.map, Bool.not_true,
              Bool.false_eq_true, if_false]
            simp only [Tables.keep, rows, letters]
          · obtain ⟨_, _, rfl⟩ := replay_ok result
            have idleRows : (s.outbox.filter fun row => !q row.id).update (fun row => row.id = m.id)
                (replayed now) (replayed_id now) = s.outbox.filter fun row => !q row.id :=
              Table.update_eq_self fun row kept same => by
                obtain ⟨_, out⟩ := Table.mem_filter.mp kept
                rw [of_decide_eq_true same, mine] at out
                cases out
            have idleLetters : (s.deadLetters.filter fun d => !q d.messageId).update
                (fun d => decide (d.messageId = m.id) && decide (d.replayedAt = none))
                (fun d => { d with replayedAt := some (now : Timestamp) }) (fun _ => rfl) =
                s.deadLetters.filter fun d => !q d.messageId :=
              Table.update_eq_self fun d kept same => by
                obtain ⟨_, out⟩ := Table.mem_filter.mp kept
                rw [Bool.and_eq_true, decide_eq_true_eq] at same
                rw [same.1, mine] at out
                cases out
            simp only [Tables.keep, rows fun id => !q id, letters fun id => !q id, idleRows, idleLetters]

section Reconcile

theorem exhausted_keep {m : OutboxMessage J} (inside : q m.id = true) :
    P.exhausted (s.keep q) now m = P.exhausted s now m := by
  simp only [exhausted, Tables.quarantined_keep inside]

theorem activeExecution_keep {m : OutboxMessage J} (inside : q m.id = true) :
    activeExecution (s.keep q) m now = activeExecution s m now :=
  Table.any_filter fun l _ chosen => by
    rw [Bool.and_eq_true, decide_eq_true_eq] at chosen
    rw [chosen.1]
    exact inside

theorem unacknowledged_keep {consumer : String} {m : OutboxMessage J} (inside : q m.id = true) :
    P.unacknowledged activeExecution consumer (s.keep q) now m =
      P.unacknowledged activeExecution consumer s now m := by
  simp only [unacknowledged, Tables.quarantined_keep inside, Tables.acknowledged_keep inside,
    activeExecution_keep inside]

theorem foldl_confined {α γ ε : Type} (step : γ → α → γ) (good : γ → Prop) (restrict : γ → γ)
    (rest : γ → ε) (items : List α)
    (kept : ∀ item ∈ items, ∀ acc, good acc → good (step acc item))
    (inside : ∀ item ∈ items, ∀ acc, good acc →
      step (restrict acc) item = restrict (step acc item))
    (outside : ∀ item ∈ items, ∀ acc, good acc → rest (step acc item) = rest acc) (acc : γ)
    (start : good acc) :
    good (items.foldl step acc) ∧ items.foldl step (restrict acc) = restrict (items.foldl step acc) ∧
      rest (items.foldl step acc) = rest acc := by
  induction items generalizing acc with
  | nil => exact ⟨start, rfl, rfl⟩
  | cons item items ih =>
      obtain ⟨last, through, left⟩ := ih
        (fun other member => kept other (List.mem_cons_of_mem _ member))
        (fun other member => inside other (List.mem_cons_of_mem _ member))
        (fun other member => outside other (List.mem_cons_of_mem _ member)) (step acc item)
        (kept item List.mem_cons_self acc start)
      rw [List.foldl_cons, List.foldl_cons, inside item List.mem_cons_self acc start]
      exact ⟨last, through, left.trans (outside item List.mem_cons_self acc start)⟩

def keepAcc (q : Uuid → Bool) (acc : Nat × Tables J) : Nat × Tables J := (acc.1, acc.2.keep q)

theorem reconcileRow_keep {row : OutboxMessage J} (inside : q row.id = true) (acc : Nat × Tables J) :
    P.reconcileRow now (keepAcc q acc) row = keepAcc q (P.reconcileRow now acc row) := by
  unfold reconcileRow keepAcc
  split
  · rw [deadLetter_keep inside]
  · rw [requeue, requeue, Tables.keep_outbox_update]

theorem reconcileRow_outside {row : OutboxMessage J} (inside : q row.id = true)
    (acc : Nat × Tables J) :
    (P.reconcileRow now acc row).2.keep (fun id => !q id) = acc.2.keep fun id => !q id := by
  unfold reconcileRow
  split
  · exact deadLetter_outside inside _ now acc.2
  · refine Tables.keep_outbox_update_of_not fun m _ same => ?_
    rw [of_decide_eq_true same, inside]
    rfl

theorem reconcileRow_covers {topics : List String} (row : OutboxMessage J) (acc : Nat × Tables J)
    (covers : acc.2.Covers topics q) : (P.reconcileRow now acc row).2.Covers topics q := by
  unfold reconcileRow
  split
  · exact covers
  · intro m member listed
    simp only [requeue] at member
    rw [Table.mem_update] at member
    obtain ⟨old, present, rfl⟩ := member
    split at listed
    · rename_i chosen
      rw [if_pos chosen]
      exact covers old present listed
    · rename_i other
      rw [if_neg other]
      exact covers old present listed

theorem selectedRows_keep {entry : Sigma fun _ : String => Option String}
    (covers : s.Covers [entry.1] q) :
    selectedRows activeExecution P locked now (s.keep q) entry =
      selectedRows activeExecution P locked now s entry := by
  obtain ⟨topic, required⟩ := entry
  cases required with
  | none => rfl
  | some consumer =>
      have select : (s.keep q).outbox.rows.filter (fun m => decide (m.topic = topic) &&
            P.unacknowledged activeExecution consumer s now m && !locked m.id) =
          s.outbox.rows.filter fun m => decide (m.topic = topic) &&
            P.unacknowledged activeExecution consumer s now m && !locked m.id :=
        Table.select_filter fun m member chosen => by
          simp only [Bool.and_eq_true, decide_eq_true_eq] at chosen
          exact covers m member (by simp [chosen.1.1])
      refine Eq.trans ?_ select
      apply List.filter_congr
      intro m member
      rw [unacknowledged_keep (List.mem_filter.mp member).2]

theorem mem_selectedRows_covered {entry : Sigma fun _ : String => Option String}
    (covers : s.Covers [entry.1] q) {row : OutboxMessage J}
    (member : row ∈ selectedRows activeExecution P locked now s entry) : q row.id = true := by
  unfold selectedRows at member
  split at member
  · cases member
  · obtain ⟨present, chosen⟩ := List.mem_filter.mp member
    simp only [Bool.and_eq_true, decide_eq_true_eq] at chosen
    exact covers row present (by simp [chosen.1.1])

theorem reconcileTopic_confined {entry : Sigma fun _ : String => Option String}
    (listed : entry.1 ∈ P.topics.keys) (acc : Nat × Tables J)
    (covers : acc.2.Covers P.topics.keys q) :
    (P.reconcileTopic activeExecution locked now acc entry).2.Covers P.topics.keys q ∧
      P.reconcileTopic activeExecution locked now (keepAcc q acc) entry =
        keepAcc q (P.reconcileTopic activeExecution locked now acc entry) ∧
      (P.reconcileTopic activeExecution locked now acc entry).2.keep (fun id => !q id) =
        acc.2.keep fun id => !q id := by
  have here : acc.2.Covers [entry.1] q := fun m member same =>
    covers m member (List.mem_singleton.mp same ▸ listed)
  have same : selectedRows activeExecution P locked now (keepAcc q acc).2 entry =
      selectedRows activeExecution P locked now acc.2 entry := selectedRows_keep here
  rw [reconcileTopic_eq, reconcileTopic_eq, same]
  exact foldl_confined (P.reconcileRow now) (fun acc => acc.2.Covers P.topics.keys q) (keepAcc q)
    (fun acc => acc.2.keep fun id => !q id) _
    (fun row _ acc covers => reconcileRow_covers row acc covers)
    (fun row member acc _ => reconcileRow_keep (mem_selectedRows_covered here member) acc)
    (fun row member acc _ => reconcileRow_outside (mem_selectedRows_covered here member) acc) acc covers

theorem buryExhausted_confined (locked : Uuid → Bool) (now : Clock) (covers : s.Covers P.topics.keys q) :
    (P.buryExhausted locked now s).Covers P.topics.keys q ∧
      P.buryExhausted locked now (s.keep q) = (P.buryExhausted locked now s).keep q ∧
      (P.buryExhausted locked now s).keep (fun id => !q id) = s.keep fun id => !q id := by
  have chosen {m : OutboxMessage J} (member : m ∈ s.outbox)
      (exhausted : (P.exhausted s now m && !locked m.id) = true) : q m.id = true := by
    simp only [DurableDelivery.exhausted, Bool.and_eq_true, decide_eq_true_eq] at exhausted
    exact covers m member exhausted.1.1.1.1
  have rows : (s.keep q).outbox.rows.filter (fun m => P.exhausted (s.keep q) now m && !locked m.id) =
      s.outbox.rows.filter fun m => P.exhausted s now m && !locked m.id := by
    rw [← Table.select_filter fun m member passes => chosen member passes]
    apply List.filter_congr
    intro m member
    rw [exhausted_keep (List.mem_filter.mp member).2]
  unfold buryExhausted
  rw [rows]
  exact foldl_confined (fun s row => deadLetter row.id "delivery_attempts_exhausted" now s)
    (fun s => s.Covers P.topics.keys q) (Tables.keep q) (fun s => s.keep fun id => !q id) _ (fun _ _ _ covers => covers)
    (fun row member s _ => deadLetter_keep (chosen (List.mem_filter.mp member).1
      (List.mem_filter.mp member).2) _ now s)
    (fun row member s _ => deadLetter_outside (chosen (List.mem_filter.mp member).1
      (List.mem_filter.mp member).2) _ now s) s covers

theorem reconcile_confined (covers : s.Covers P.topics.keys q) :
    Confined q s (P.reconcile locked now) := by
  obtain ⟨covered, buried, left⟩ := buryExhausted_confined locked now covers
  have loop := foldl_confined (P.reconcileTopic activeExecution locked now)
    (fun acc => acc.2.Covers P.topics.keys q) (keepAcc q) (fun acc => acc.2.keep fun id => !q id)
    P.topics.entries
    (fun entry member acc covers =>
      (reconcileTopic_confined (List.mem_map_of_mem member) acc covers).1)
    (fun entry member acc covers =>
      (reconcileTopic_confined (List.mem_map_of_mem member) acc covers).2.1)
    (fun entry member acc covers =>
      (reconcileTopic_confined (List.mem_map_of_mem member) acc covers).2.2)
    (0, P.buryExhausted locked now s) covered
  have through : P.reconcile locked now (s.keep q) = keepAcc q (P.reconcile locked now s) := by
    rw [reconcile, reconcileWith, buried]
    exact loop.2.1
  exact ⟨by rw [through]; rfl, by rw [through]; rfl, loop.2.2.trans left⟩

end Reconcile

end DurableDelivery

end TplBackend
