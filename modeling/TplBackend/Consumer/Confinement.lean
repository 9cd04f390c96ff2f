import TplBackend.Delivery.Confinement

namespace TplBackend

open Keyed

variable {J : Type}

namespace DurableTasks

variable {q : Uuid → Bool} {s : Tables J} {codec : Codec J} {D : DurableTasks} {now : Clock}
variable {lease : ConsumerLease}

theorem eligible_keep {id : Uuid} (covers : s.Covers D.handlers q) :
    D.eligible codec id now (s.keep q) = D.eligible codec id now s := by
  have select : ((s.keep q).outbox.rows.find? fun m => decide (m.id = id) &&
        decide (m.topic ∈ D.handlers) && notBeforeDue codec m.headers now &&
        !s.acknowledged m.topic m.id && !s.quarantined m.id) = D.eligible codec id now s :=
    Table.first_filter fun m member chosen => by
      simp only [Bool.and_eq_true, decide_eq_true_eq] at chosen
      exact covers m member chosen.1.1.1.2
  refine Eq.trans ?_ select
  rw [eligible, ← List.head?_filter, ← List.head?_filter]
  congr 1
  apply List.filter_congr
  intro m member
  have inside : q m.id = true := (List.mem_filter.mp member).2
  rw [Tables.acknowledged_keep inside, Tables.quarantined_keep inside]

theorem putExecution_keep (row : Execution) {s : Tables J} (inside : q row.messageId = true)
    (aside : ∀ l ∈ s.executions, l.resourceKey = row.resourceKey → q l.messageId = true) :
    putExecution row (s.keep q) = (putExecution row s).keep q := by
  have moved := Table.filter_upsert s.executions row
    (fun l => { row with resourceKey := l.resourceKey }) (fun l => q l.messageId) (fun _ => rfl) inside
    fun old member same => ⟨aside old member same, inside⟩
  simp only [putExecution, Tables.keep, moved]

theorem putExecution_outside (row : Execution) {s : Tables J} (inside : q row.messageId = true)
    (aside : ∀ l ∈ s.executions, l.resourceKey = row.resourceKey → q l.messageId = true) :
    (putExecution row s).keep (fun id => !q id) = s.keep fun id => !q id := by
  have kept := Table.filter_upsert_of_not s.executions row
    (fun l => { row with resourceKey := l.resourceKey }) (fun l => !q l.messageId) (fun _ => rfl)
    (by simp [inside]) fun old member same => by simp [inside, aside old member same]
  simp only [putExecution, Tables.keep, kept]

theorem claimExecution_confined {id owner : Uuid} (covers : s.Covers D.handlers q)
    (resources : ∀ m ∈ s.outbox, m.topic ∈ D.handlers → ∀ l ∈ s.executions,
      l.resourceKey = m.resource → q l.messageId = true) :
    Confined q s (D.claimExecution codec id owner now) := by
  have selects : D.eligible codec id now (s.keep q) = D.eligible codec id now s := eligible_keep covers
  cases selected : D.eligible codec id now s with
  | none => constructor <;> simp [claimExecution, selects, selected]
  | some m =>
      have chosen := List.find?_some selected
      simp only [Bool.and_eq_true, decide_eq_true_eq] at chosen
      have member : m ∈ s.outbox := List.mem_of_find?_eq_some selected
      obtain ⟨⟨⟨⟨rfl, topic⟩, _⟩, _⟩, _⟩ := chosen
      have inside := covers m member topic
      have current : (s.keep q).executions.find? m.resource = s.executions.find? m.resource := by
        change (s.executions.filter _).find? _ = _
        rw [Table.find?_filter]
        cases found : s.executions.find? m.resource with
        | none => rfl
        | some l =>
            obtain ⟨present, keyed⟩ := Table.find?_eq_some.mp found
            rw [Option.filter_some, if_pos (resources m member topic l present keyed)]
      cases upserted : takeover (s.executions.find? m.resource) m.resource m.id owner D.leaseSeconds
          now with
      | none => constructor <;> simp [claimExecution, selects, selected, current, upserted]
      | some taken =>
          obtain ⟨shape, _⟩ := takeover_spec upserted
          have mine : q taken.messageId = true := by rw [shape]; exact inside
          have aside : ∀ l ∈ s.executions, l.resourceKey = taken.resourceKey → q l.messageId = true :=
            fun l present same => resources m member topic l present (by rw [same, shape])
          have again : ∀ l ∈ (putExecution taken s).executions,
              l.resourceKey = (vacated taken).resourceKey → q l.messageId = true := by
            intro l present same
            rcases mem_putExecution present with rfl | old
            · exact mine
            · exact aside l old same
          have placed := putExecution_keep taken mine aside
          have left := putExecution_outside taken mine aside
          have vacated_ := putExecution_keep (vacated taken) mine again
          have done : ((putExecution taken s).keep q).acknowledged m.topic m.id =
              (putExecution taken s).acknowledged m.topic m.id := Tables.acknowledged_keep inside
          by_cases marked : (putExecution taken s).acknowledged m.topic m.id = true
          · constructor
            · simp [claimExecution, selects, selected, current, upserted, placed, done, marked]
            · simp [claimExecution, selects, selected, current, upserted, placed, done, marked, vacated_]
            · simp only [claimExecution, selected, upserted, marked, if_true]
              rw [putExecution_outside (vacated taken) mine again, left]
          · constructor
            · simp [claimExecution, selects, selected, current, upserted, placed, done, marked]
            · simp [claimExecution, selects, selected, current, upserted, placed, done, marked]
            · simpa [claimExecution, selected, upserted, marked] using left

theorem checkLease_keep (inside : q lease.messageId = true) :
    checkLease (s.keep q) lease now = checkLease s lease now :=
  Table.any_filter fun l _ chosen => by
    have same : leaseOf l = lease := of_decide_eq_true (Bool.and_eq_true_iff.mp chosen).1
    rw [← same] at inside
    exact inside

theorem executions_update_keep (p : Execution → Bool) (f : Execution → Execution)
    (keeps : ∀ l, (f l).resourceKey = l.resourceKey) (message : ∀ l, (f l).messageId = l.messageId)
    (q : Uuid → Bool) (s : Tables J) :
    ({ s with executions := s.executions.update p f keeps } : Tables J).keep q =
      { s.keep q with executions := (s.keep q).executions.update p f keeps } := by
  have moved : (s.executions.update p f keeps).filter (fun l => q l.messageId) =
      (s.executions.filter fun l => q l.messageId).update p f keeps :=
    Table.filter_update fun l _ _ => by rw [message]
  simp only [Tables.keep, moved]

theorem executions_update_outside (p : Execution → Bool) (f : Execution → Execution)
    (keeps : ∀ l, (f l).resourceKey = l.resourceKey) (message : ∀ l, (f l).messageId = l.messageId)
    (inside : q lease.messageId = true) (own : ∀ l, p l = true → owned l lease = true) :
    ({ s with executions := s.executions.update p f keeps } : Tables J).keep (fun id => !q id) =
      s.keep fun id => !q id := by
  have kept : (s.executions.update p f keeps).filter (fun l => !q l.messageId) =
      s.executions.filter fun l => !q l.messageId :=
    Table.filter_update_of_not fun l _ chosen => by
      have same : leaseOf l = lease := of_decide_eq_true (own l chosen)
      have mine : q l.messageId = true := by rw [← same] at inside; exact inside
      rw [message, mine]
      exact ⟨rfl, rfl⟩
  simp only [Tables.keep, kept]

theorem renew_confined (inside : q lease.messageId = true) :
    ConfinedOrRaises q s (D.renew lease now) := by
  have current : checkLease (s.keep q) lease now = checkLease s lease now := checkLease_keep inside
  constructor
  · unfold renew
    rw [current]
    split
    · rw [Except.map, executions_update_keep _ _ (extended_resourceKey D.leaseSeconds now) fun _ => rfl]
    · rfl
  · intro s' result
    obtain ⟨_, rfl⟩ := renew_ok result
    exact executions_update_outside _ _ (extended_resourceKey D.leaseSeconds now) (fun _ => rfl) inside
      fun l chosen => (Bool.and_eq_true_iff.mp chosen).1

theorem release_confined (inside : q lease.messageId = true) :
    Confined q s fun s => ((.done : Reply J), release lease s) where
  result := rfl
  inside := executions_update_keep _ vacated vacated_resourceKey (fun _ => rfl) q s
  outside := executions_update_outside _ vacated vacated_resourceKey (fun _ => rfl) inside
    fun _ own => own

theorem acknowledge_confined {topic : String} (inside : q lease.messageId = true) :
    ConfinedOrRaises q s (acknowledge lease topic now) := by
  have current : checkLease (s.keep q) lease now = checkLease s lease now := checkLease_keep inside
  constructor
  · have inserted : (s.inbox.insert ⟨topic, lease.messageId, now⟩).filter (fun i => q i.messageId) =
        (s.inbox.filter fun i => q i.messageId).insert ⟨topic, lease.messageId, now⟩ :=
      Table.filter_insert inside fun old found => by
        have keyed := (Table.find?_eq_some.mp found).2
        have same : old.messageId = lease.messageId := congrArg Prod.snd keyed
        rw [same]
        exact inside
    unfold acknowledge SqlOutboxRepository.claimInboxOnce
    by_cases invalid : topic.isEmpty = true ∨ 128 < topic.length
    · simp only [if_pos invalid, Except.map]
    · simp only [if_neg invalid, current]
      split
      · simp only [Except.map, Tables.keep, inserted]
      · rfl
  · intro s' result
    obtain ⟨_, rfl⟩ := acknowledge_ok result
    have kept : (s.inbox.insert ⟨topic, lease.messageId, now⟩).filter (fun i => !q i.messageId) =
        s.inbox.filter fun i => !q i.messageId := Table.filter_insert_of_not (by simp [inside])
    simp only [Tables.keep, kept]

end DurableTasks

end TplBackend
