import TplBackend.Delivery.Policy

namespace TplBackend.DurableDelivery

open Keyed

variable {J : Type}

theorem deadLetter_quarantined (id : Uuid) (error : String) (now : Clock) (s : Tables J)
    (other : Uuid) :
    (deadLetter id error now s).quarantined other = (decide (id = other) || s.quarantined other) := by
  rw [Bool.eq_iff_iff, Bool.or_eq_true, decide_eq_true_eq, Tables.quarantined_iff,
    Tables.quarantined_iff]
  simp only [deadLetter, Table.find?_upsert]
  by_cases same : id = other
  · subst same
    cases s.deadLetters.find? id <;> simp
  · simp [same]

@[simp] theorem deadLetter_outbox (id : Uuid) (error : String) (now : Clock) (s : Tables J) :
    (deadLetter id error now s).outbox = s.outbox := rfl

@[simp] theorem deadLetter_inbox (id : Uuid) (error : String) (now : Clock) (s : Tables J) :
    (deadLetter id error now s).inbox = s.inbox := rfl

@[simp] theorem deadLetter_executions (id : Uuid) (error : String) (now : Clock) (s : Tables J) :
    (deadLetter id error now s).executions = s.executions := rfl

structure Reconciled (now : Clock) (s : Tables J) (back lost : Uuid → Prop) (s' : Tables J) :
    Prop where
  found : ∀ id m, s.outbox.find? id = some m →
    (back id → s'.outbox.find? id = some (requeued now m)) ∧
      (¬ back id → s'.outbox.find? id = some m)
  missing : ∀ id, s.outbox.find? id = none → s'.outbox.find? id = none
  quarantined : ∀ id, s'.quarantined id = true ↔ lost id ∨ s.quarantined id = true
  inbox : s'.inbox = s.inbox
  executions : s'.executions = s.executions

theorem reconciled_refl (now : Clock) (s : Tables J) :
    Reconciled now s (fun _ => False) (fun _ => False) s where
  found := fun _ _ present => ⟨fun back => back.elim, fun _ => present⟩
  missing := fun _ absent => absent
  quarantined := fun _ => by simp
  inbox := rfl
  executions := rfl

theorem Reconciled.congr {now : Clock} {s s' : Tables J} {back lost back' lost' : Uuid → Prop}
    (step : Reconciled now s back lost s') (sameBack : ∀ id, back id ↔ back' id)
    (sameLost : ∀ id, lost id ↔ lost' id) : Reconciled now s back' lost' s' := by
  have first : back = back' := funext fun id => propext (sameBack id)
  have second : lost = lost' := funext fun id => propext (sameLost id)
  rw [← first, ← second]
  exact step

/-- Requeueing a row a second time at the same reading changes nothing, so effects join. -/
theorem Reconciled.trans {now : Clock} {s middle s' : Tables J}
    {back lost back' lost' : Uuid → Prop} (first : Reconciled now s back lost middle)
    (second : Reconciled now middle back' lost' s') :
    Reconciled now s (fun id => back id ∨ back' id) (fun id => lost id ∨ lost' id) s' where
  found := by
    intro id m present
    by_cases before : back id
    · have halfway := (first.found id m present).1 before
      refine ⟨fun _ => ?_, fun neither => absurd (Or.inl before) neither⟩
      by_cases again : back' id
      · exact (second.found id _ halfway).1 again
      · exact (second.found id _ halfway).2 again
    · have halfway := (first.found id m present).2 before
      refine ⟨fun either => ?_, fun neither => ?_⟩
      · exact (second.found id _ halfway).1 (either.resolve_left before)
      · exact (second.found id _ halfway).2 fun after => neither (Or.inr after)
  missing := fun id absent => second.missing id (first.missing id absent)
  quarantined := fun id => by
    rw [second.quarantined, first.quarantined]
    tauto
  inbox := second.inbox.trans first.inbox
  executions := second.executions.trans first.executions

theorem deadLetter_reconciled (id : Uuid) (error : String) (now : Clock) (s : Tables J) :
    Reconciled now s (fun _ => False) (fun other => id = other) (deadLetter id error now s) where
  found := fun _ _ present => ⟨fun back => back.elim, fun _ => present⟩
  missing := fun _ absent => absent
  quarantined := fun other => by rw [deadLetter_quarantined]; simp
  inbox := rfl
  executions := rfl

theorem requeue_reconciled (id : Uuid) (now : Clock) (s : Tables J) :
    Reconciled now s (fun other => id = other) (fun _ => False) (requeue id now s) where
  found := by
    intro other m present
    have keyed : m.id = other := (Table.find?_eq_some.mp present).2
    simp only [requeue, Table.find?_update, present, Option.map_some, decide_eq_true_eq, keyed]
    exact ⟨fun same => by rw [if_pos same.symm], fun differ => by rw [if_neg (Ne.symm differ)]⟩
  missing := fun other absent => by simp [requeue, Table.find?_update, absent]
  quarantined := fun other => by simp [requeue, Tables.quarantined]
  inbox := rfl
  executions := rfl

theorem foldl_deadLetter (error : String) (now : Clock) (rows : List (OutboxMessage J))
    (s : Tables J) :
    Reconciled now s (fun _ => False) (fun id => ∃ row ∈ rows, row.id = id)
      (rows.foldl (fun s row => deadLetter row.id error now s) s) := by
  induction rows generalizing s with
  | nil => exact (reconciled_refl now s).congr (fun _ => Iff.rfl) (fun _ => by simp)
  | cons row rows ih =>
      have joined := (deadLetter_reconciled row.id error now s).trans (ih (deadLetter row.id error now s))
      exact joined.congr (fun _ => by simp) (fun _ => by simp)

theorem foldl_reconcileRow (P : DurableDelivery) (now : Clock) (rows : List (OutboxMessage J))
    (acc : Nat × Tables J) :
    Reconciled now acc.2 (fun id => ∃ row ∈ rows, row.id = id ∧ row.attemptCount < P.maxAttempts)
      (fun id => ∃ row ∈ rows, row.id = id ∧ P.maxAttempts ≤ row.attemptCount)
      (rows.foldl (P.reconcileRow now) acc).2 := by
  induction rows generalizing acc with
  | nil => exact (reconciled_refl now acc.2).congr (fun _ => by simp) (fun _ => by simp)
  | cons row rows ih =>
      have rest := ih (P.reconcileRow now acc row)
      by_cases limit : P.maxAttempts ≤ row.attemptCount
      · have here : (P.reconcileRow now acc row).2 =
            deadLetter row.id "consumer_unacknowledged" now acc.2 := by
          simp [reconcileRow, limit]
        rw [here] at rest
        refine ((deadLetter_reconciled row.id _ now acc.2).trans rest).congr (fun id => ?_) fun id => ?_
        · simp [Nat.not_lt.mpr limit]
        · simp [limit]
      · have here : (P.reconcileRow now acc row).2 = requeue row.id now acc.2 := by
          simp [reconcileRow, limit]
        rw [here] at rest
        refine ((requeue_reconciled row.id now acc.2).trans rest).congr (fun id => ?_) fun id => ?_
        · simp [Nat.lt_of_not_le limit]
        · simp [limit]

theorem unacknowledged_published {active : ActiveExecution J}
    {P : DurableDelivery} {consumer : String} {s : Tables J} {now : Clock} {m : OutboxMessage J}
    (selected : P.unacknowledged active consumer s now m = true) : m.status = .published := by
  simp only [unacknowledged, Bool.and_eq_true, decide_eq_true_eq] at selected
  exact selected.1.1.1.1

/-- The query looks at its message and at tables that `reconcile` does not write. -/
def ActiveExecution.Steady (active : ActiveExecution J) : Prop :=
  ∀ ⦃s s' : Tables J⦄, s'.inbox = s.inbox → s'.executions = s.executions →
    ∀ m now, active s' m now = active s m now

theorem activeExecution_steady : (activeExecution : ActiveExecution J).Steady := by
  intro s s' _ executions m now
  simp only [activeExecution, executions]

theorem unacknowledged_congr {active : ActiveExecution J} (steady : active.Steady)
    (P : DurableDelivery) (consumer : String) {s s' : Tables J} (now : Clock) (m : OutboxMessage J)
    (inbox : s'.inbox = s.inbox) (executions : s'.executions = s.executions)
    (journal : s'.quarantined m.id = s.quarantined m.id) :
    P.unacknowledged active consumer s' now m = P.unacknowledged active consumer s now m := by
  simp only [unacknowledged, Tables.acknowledged_congr inbox, steady inbox executions, journal]

section Loop

variable (active : ActiveExecution J) (P : DurableDelivery)
variable (locked : Uuid → Bool) (now : Clock)

def Selected (topics : List (Sigma fun _ : String => Option String)) (s : Tables J)
    (m : OutboxMessage J) : Prop :=
  locked m.id = false ∧ ∃ consumer, ⟨m.topic, some consumer⟩ ∈ topics ∧
    P.unacknowledged active consumer s now m = true

def Requeues (topics : List (Sigma fun _ : String => Option String)) (s : Tables J) (id : Uuid) :
    Prop :=
  ∃ m, s.outbox.find? id = some m ∧ Selected active P locked now topics s m ∧
    m.attemptCount < P.maxAttempts

def GivesUp (topics : List (Sigma fun _ : String => Option String)) (s : Tables J) (id : Uuid) :
    Prop :=
  ∃ m, s.outbox.find? id = some m ∧ Selected active P locked now topics s m ∧
    P.maxAttempts ≤ m.attemptCount

def selectedRows (s : Tables J) (entry : Sigma fun _ : String => Option String) :
    List (OutboxMessage J) :=
  match entry.2 with
  | none => []
  | some consumer => s.outbox.rows.filter fun m =>
      decide (m.topic = entry.1) && P.unacknowledged active consumer s now m && !locked m.id

theorem reconcileTopic_eq (acc : Nat × Tables J) (entry : Sigma fun _ : String => Option String) :
    P.reconcileTopic active locked now acc entry =
      (selectedRows active P locked now acc.2 entry).foldl (P.reconcileRow now) acc := by
  obtain ⟨topic, required⟩ := entry
  cases required <;> rfl

theorem reconcileTopic_reconciled (entry : Sigma fun _ : String => Option String)
    (acc : Nat × Tables J) :
    Reconciled now acc.2 (Requeues active P locked now [entry] acc.2)
      (GivesUp active P locked now [entry] acc.2) (P.reconcileTopic active locked now acc entry).2 := by
  obtain ⟨topic, required⟩ := entry
  cases required with
  | none =>
      refine (reconciled_refl now acc.2).congr (fun id => ?_) fun id => ?_
      · simp [Requeues, Selected]
      · simp [GivesUp, Selected]
  | some consumer =>
      have chosen (id : Uuid) (limit : OutboxMessage J → Prop) :
          (∃ row ∈ acc.2.outbox.rows.filter fun m => decide (m.topic = topic) &&
            P.unacknowledged active consumer acc.2 now m && !locked m.id, row.id = id ∧ limit row) ↔
          ∃ m, acc.2.outbox.find? id = some m ∧
            Selected active P locked now [⟨topic, some consumer⟩] acc.2 m ∧ limit m := by
        simp only [List.mem_filter, Bool.and_eq_true, decide_eq_true_eq, Bool.not_eq_true',
          Table.find?_eq_some, Table.mem_rows, Selected, List.mem_singleton, Sigma.mk.injEq]
        constructor
        · rintro ⟨row, ⟨member, ⟨same, selected⟩, free⟩, keyed, bound⟩
          exact ⟨row, ⟨member, keyed⟩, ⟨free, consumer, ⟨same, HEq.rfl⟩, selected⟩, bound⟩
        · rintro ⟨row, ⟨member, keyed⟩, ⟨free, other, ⟨same, equal⟩, selected⟩, bound⟩
          have named : other = consumer := by simpa using equal
          rw [named] at selected
          exact ⟨row, ⟨member, ⟨same, selected⟩, free⟩, keyed, bound⟩
      exact (foldl_reconcileRow P now _ acc).congr (fun id => chosen id _) fun id => chosen id _

theorem selected_cons (entry : Sigma fun _ : String => Option String)
    (topics : List (Sigma fun _ : String => Option String)) (s : Tables J) (m : OutboxMessage J) :
    Selected active P locked now (entry :: topics) s m ↔
      Selected active P locked now [entry] s m ∨ Selected active P locked now topics s m := by
  simp only [Selected, List.mem_cons, List.not_mem_nil, or_false, or_and_right, exists_or,
    and_or_left]

variable {active P locked now}

theorem selected_congr (steady : active.Steady) {topics : List (Sigma fun _ : String => Option String)} {s s' : Tables J}
    {m : OutboxMessage J} (inbox : s'.inbox = s.inbox) (executions : s'.executions = s.executions)
    (journal : s'.quarantined m.id = s.quarantined m.id) :
    Selected active P locked now topics s' m ↔ Selected active P locked now topics s m := by
  simp only [Selected, unacknowledged_congr steady P _ now m inbox executions journal]

theorem later_topics (steady : active.Steady) {entry : Sigma fun _ : String => Option String}
    {topics : List (Sigma fun _ : String => Option String)} {s s' : Tables J}
    (fresh : entry.1 ∉ topics.keys)
    (step : Reconciled now s (Requeues active P locked now [entry] s)
      (GivesUp active P locked now [entry] s) s') (id : Uuid) (limit : OutboxMessage J → Prop) :
    (∃ m, s'.outbox.find? id = some m ∧ Selected active P locked now topics s' m ∧ limit m) ↔
      ∃ m, s.outbox.find? id = some m ∧ Selected active P locked now topics s m ∧ limit m := by
  cases present : s.outbox.find? id with
  | none => simp [step.missing id present]
  | some m =>
      have keyed : m.id = id := (Table.find?_eq_some.mp present).2
      by_cases same : m.topic = entry.1
      · -- The entry owns this topic, so no later one selects the row, requeued or not.
        have outside (row : OutboxMessage J) (topic : row.topic = m.topic) (s : Tables J) :
            ¬ Selected active P locked now topics s row := by
          rintro ⟨_, consumer, member, _⟩
          rw [topic, same] at member
          exact fresh (List.mem_map.mpr ⟨_, member, rfl⟩)
        constructor
        · rintro ⟨row, found, selected, _⟩
          by_cases back : Requeues active P locked now [entry] s id
          · rw [(step.found id m present).1 back] at found
            cases found
            exact absurd selected (outside (requeued now m) rfl s')
          · rw [(step.found id m present).2 back] at found
            cases found
            exact absurd selected (outside m rfl s')
        · rintro ⟨row, found, selected, _⟩
          cases found
          exact absurd selected (outside m rfl s)
      · have unselected (limit : OutboxMessage J → Prop) : ¬ ∃ row, s.outbox.find? id = some row ∧
            Selected active P locked now [entry] s row ∧ limit row := by
          rintro ⟨row, found, ⟨_, consumer, member, _⟩, _⟩
          rw [present] at found
          cases found
          rw [List.mem_singleton] at member
          exact same (congrArg Sigma.fst member)
        have kept := (step.found id m present).2 (unselected _)
        have journal : s'.quarantined m.id = s.quarantined m.id := by
          rw [Bool.eq_iff_iff, keyed, step.quarantined id]
          exact or_iff_right (unselected _)
        simp only [kept, Option.some.injEq, exists_eq_left',
          selected_congr steady step.inbox step.executions journal]

theorem foldl_reconcileTopic (steady : active.Steady) (topics : List (Sigma fun _ : String => Option String))
    (keys : topics.NodupKeys) (acc : Nat × Tables J) :
    Reconciled now acc.2 (Requeues active P locked now topics acc.2)
      (GivesUp active P locked now topics acc.2)
      (topics.foldl (P.reconcileTopic active locked now) acc).2 := by
  induction topics generalizing acc with
  | nil =>
      refine (reconciled_refl now acc.2).congr (fun id => ?_) fun id => ?_
      · simp [Requeues, Selected]
      · simp [GivesUp, Selected]
  | cons entry topics ih =>
      obtain ⟨fresh, rest⟩ := List.nodupKeys_cons.mp keys
      have here := reconcileTopic_reconciled active P locked now entry acc
      have later := ih rest (P.reconcileTopic active locked now acc entry)
      have split (id : Uuid) (limit : OutboxMessage J → Prop) :
          ((∃ m, acc.2.outbox.find? id = some m ∧
              Selected active P locked now [entry] acc.2 m ∧ limit m) ∨
            ∃ m, acc.2.outbox.find? id = some m ∧
              Selected active P locked now topics acc.2 m ∧ limit m) ↔
          ∃ m, acc.2.outbox.find? id = some m ∧
            Selected active P locked now (entry :: topics) acc.2 m ∧ limit m := by
        simp only [selected_cons active P locked now entry topics, or_and_right, and_or_left, exists_or]
      refine (here.trans later).congr (fun id => ?_) fun id => ?_
      · exact (or_congr_right (later_topics steady fresh here id _)).trans (split id _)
      · exact (or_congr_right (later_topics steady fresh here id _)).trans (split id _)

variable (active P locked now)

/-- The first statement of `reconcile` selects the message in `s`. -/
def Exhausts (s : Tables J) (id : Uuid) : Prop :=
  ∃ m, s.outbox.find? id = some m ∧ locked m.id = false ∧ P.exhausted s now m = true

theorem buryExhausted_reconciled (s : Tables J) :
    Reconciled now s (fun _ => False) (Exhausts P locked now s) (P.buryExhausted locked now s) := by
  refine (foldl_deadLetter "delivery_attempts_exhausted" now _ s).congr (fun _ => Iff.rfl) fun id => ?_
  simp only [Exhausts, List.mem_filter, Bool.and_eq_true, Bool.not_eq_true', Table.find?_eq_some,
    Table.mem_rows]
  constructor
  · rintro ⟨row, ⟨member, chosen, free⟩, keyed⟩
    exact ⟨row, ⟨member, keyed⟩, free, chosen⟩
  · rintro ⟨row, ⟨member, keyed⟩, free, chosen⟩
    exact ⟨row, ⟨member, chosen, free⟩, keyed⟩

theorem exhausted_unpublished {P : DurableDelivery} {s : Tables J} {now : Clock}
    {m : OutboxMessage J} (selected : P.exhausted s now m = true) : m.status ≠ .published := by
  intro published
  simp [exhausted, unowned, published] at selected

theorem after_buryExhausted {active : ActiveExecution J} (steady : active.Steady) (topics : List (Sigma fun _ : String => Option String)) (s : Tables J)
    (id : Uuid) (limit : OutboxMessage J → Prop) :
    (∃ m, (P.buryExhausted locked now s).outbox.find? id = some m ∧
        Selected active P locked now topics (P.buryExhausted locked now s) m ∧ limit m) ↔
      ∃ m, s.outbox.find? id = some m ∧ Selected active P locked now topics s m ∧ limit m := by
  have step := buryExhausted_reconciled P locked now s
  cases present : s.outbox.find? id with
  | none => simp [step.missing id present]
  | some m =>
      have keyed : m.id = id := (Table.find?_eq_some.mp present).2
      have kept := (step.found id m present).2 not_false
      have same : Selected active P locked now topics (P.buryExhausted locked now s) m ↔
          Selected active P locked now topics s m := by
        by_cases published : m.status = .published
        · apply selected_congr steady step.inbox step.executions
          rw [Bool.eq_iff_iff, keyed, step.quarantined id]
          refine or_iff_right ?_
          rintro ⟨row, found, _, selected⟩
          rw [present] at found
          cases found
          exact exhausted_unpublished selected published
        · constructor <;> rintro ⟨_, _, _, selected⟩ <;>
            exact absurd (unacknowledged_published selected) published
      simp only [kept, Option.some.injEq, exists_eq_left', same]

/-- What one call of `reconcile` does, read off the state it starts from. -/
theorem reconcileWith_reconciled {active : ActiveExecution J} (steady : active.Steady) (s : Tables J) :
    Reconciled now s (Requeues active P locked now P.topics.entries s)
      (fun id => Exhausts P locked now s id ∨ GivesUp active P locked now P.topics.entries s id)
      (P.reconcileWith active locked now s).2 := by
  have first := buryExhausted_reconciled P locked now s
  have loop : Reconciled now (P.buryExhausted locked now s)
      (Requeues active P locked now P.topics.entries (P.buryExhausted locked now s))
      (GivesUp active P locked now P.topics.entries (P.buryExhausted locked now s))
      (P.reconcileWith active locked now s).2 :=
    foldl_reconcileTopic steady P.topics.entries P.topics.nodupKeys (0, P.buryExhausted locked now s)
  refine (first.trans loop).congr (fun id => ?_) fun id => ?_
  · simp only [false_or]
    exact after_buryExhausted P locked now steady _ s id _
  · exact or_congr_right (after_buryExhausted P locked now steady _ s id _)

end Loop

def Requires (P : DurableDelivery) (topic consumer : String) : Prop :=
  P.topics.lookup topic = some (some consumer)

instance (P : DurableDelivery) (topic consumer : String) : Decidable (P.Requires topic consumer) :=
  inferInstanceAs (Decidable (_ = _))

theorem mem_entries {P : DurableDelivery} {topic consumer : String} :
    (⟨topic, some consumer⟩ : Sigma fun _ : String => Option String) ∈ P.topics.entries ↔
      P.Requires topic consumer :=
  AList.mem_lookup_iff.symm

theorem Requires.mem_keys {P : DurableDelivery} {topic consumer : String}
    (required : P.Requires topic consumer) : topic ∈ P.topics.keys :=
  AList.mem_keys.mp (AList.lookup_isSome.mp (by rw [required]; rfl))

end TplBackend.DurableDelivery
