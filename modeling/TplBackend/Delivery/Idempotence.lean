import TplBackend.Delivery.Reconcile

namespace TplBackend.DurableDelivery

open Keyed

variable {J : Type} {active : ActiveExecution J} {P : DurableDelivery} {locked : Uuid → Bool}
variable {now : Clock} {s : Tables J} {m : OutboxMessage J}

theorem quarantined_of_reconciled {s' : Tables J} {back lost : Uuid → Prop}
    (step : Reconciled now s back lost s') {id : Uuid} (free : s'.quarantined id = false) :
    ¬ lost id ∧ s.quarantined id = false := by
  have journal := step.quarantined id
  rw [free] at journal
  constructor
  · exact fun gone => Bool.noConfusion (journal.mpr (Or.inl gone))
  · exact Bool.eq_false_iff.mpr fun dead => Bool.noConfusion (journal.mpr (Or.inr dead))

theorem row_of_reconciled {s' : Tables J} {back lost : Uuid → Prop}
    (step : Reconciled now s back lost s') (found : s'.outbox.find? m.id = some m) :
    (∃ row, s.outbox.find? m.id = some row ∧ back m.id ∧ m = requeued now row) ∨
      s.outbox.find? m.id = some m ∧ ¬ back m.id := by
  cases present : s.outbox.find? m.id with
  | none =>
      rw [step.missing m.id present] at found
      cases found
  | some row =>
      by_cases again : back m.id
      · have written := (step.found m.id row present).1 again
        rw [found] at written
        exact Or.inl ⟨row, rfl, again, Option.some.inj written⟩
      · have kept := (step.found m.id row present).2 again
        rw [found] at kept
        cases kept
        exact Or.inr ⟨rfl, again⟩

section Twice

variable (P locked now s)

/-- After `reconcile` no message that ran out of attempts waits for its dead letter. -/
theorem none_exhausted (steady : active.Steady) (free : locked m.id = false)
    (member : m ∈ (P.reconcileWith active locked now s).2.outbox) :
    P.exhausted (P.reconcileWith active locked now s).2 now m = false := by
  have step := reconcileWith_reconciled P locked now steady s
  refine Bool.eq_false_iff.mpr fun exhausted => ?_
  have parts := exhausted
  simp only [DurableDelivery.exhausted, Bool.and_eq_true, decide_eq_true_eq, Bool.not_eq_true'] at parts
  obtain ⟨⟨⟨topic, spent⟩, unowned⟩, journal⟩ := parts
  obtain ⟨settled, before⟩ := quarantined_of_reconciled step journal
  rcases row_of_reconciled step (Table.find?_of_mem member) with
    ⟨row, found, ⟨other, same, _, left⟩, rfl⟩ | ⟨found, _⟩
  · rw [found] at same
    cases same
    exact absurd left (Nat.not_lt.mpr spent)
  · refine settled (Or.inl ⟨m, found, free, ?_⟩)
    simp [DurableDelivery.exhausted, topic, spent, unowned, before]

theorem none_selected (steady : active.Steady)
    (member : m ∈ (P.reconcileWith active locked now s).2.outbox) :
    ¬ Selected active P locked now P.topics.entries (P.reconcileWith active locked now s).2 m := by
  have step := reconcileWith_reconciled P locked now steady s
  rintro ⟨free, consumer, required, waiting⟩
  have journal : (P.reconcileWith active locked now s).2.quarantined m.id = false := by
    simp only [unacknowledged, Bool.and_eq_true, Bool.not_eq_true'] at waiting
    exact waiting.2
  obtain ⟨settled, before⟩ := quarantined_of_reconciled step journal
  rcases row_of_reconciled step (Table.find?_of_mem member) with ⟨row, _, _, rfl⟩ | ⟨found, kept⟩
  · exact absurd (unacknowledged_published waiting) (by simp [requeued])
  · have same : P.unacknowledged active consumer s now m = true := by
      rw [← waiting]
      exact (unacknowledged_congr steady P consumer now m step.inbox step.executions
        (journal.trans before.symm)).symm
    have selected : Selected active P locked now P.topics.entries s m :=
      ⟨free, consumer, required, same⟩
    by_cases left : m.attemptCount < P.maxAttempts
    · exact kept ⟨m, found, selected, left⟩
    · exact settled (Or.inr ⟨m, found, selected, Nat.le_of_not_lt left⟩)

theorem reconcileWith_twice (steady : active.Steady) :
    P.reconcileWith active locked now (P.reconcileWith active locked now s).2 =
      (0, (P.reconcileWith active locked now s).2) := by
  have buried : P.buryExhausted locked now (P.reconcileWith active locked now s).2 =
      (P.reconcileWith active locked now s).2 := by
    rw [buryExhausted, List.filter_eq_nil_iff.mpr]
    · rfl
    · intro m member chosen
      simp only [Bool.and_eq_true, Bool.not_eq_true'] at chosen
      have none_ := none_exhausted P locked now s steady chosen.2 member
      rw [none_] at chosen
      exact Bool.noConfusion chosen.1
  have turn (entry : Sigma fun _ : String => Option String) (listed : entry ∈ P.topics.entries) :
      P.reconcileTopic active locked now (0, (P.reconcileWith active locked now s).2) entry =
        (0, (P.reconcileWith active locked now s).2) := by
    have none_ : selectedRows active P locked now (P.reconcileWith active locked now s).2 entry =
        [] := by
      obtain ⟨topic, required⟩ := entry
      cases required with
      | none => rfl
      | some consumer =>
          refine List.filter_eq_nil_iff.mpr fun m member chosen => ?_
          simp only [Bool.and_eq_true, decide_eq_true_eq, Bool.not_eq_true'] at chosen
          obtain ⟨⟨rfl, waiting⟩, free⟩ := chosen
          exact none_selected P locked now s steady member ⟨free, consumer, listed, waiting⟩
    rw [reconcileTopic_eq, none_, List.foldl_nil]
  have loop (topics : List (Sigma fun _ : String => Option String))
      (listed : ∀ entry ∈ topics, entry ∈ P.topics.entries) :
      topics.foldl (P.reconcileTopic active locked now)
        (0, (P.reconcileWith active locked now s).2) =
      (0, (P.reconcileWith active locked now s).2) := by
    induction topics with
    | nil => rfl
    | cons entry topics ih =>
        rw [List.foldl_cons, turn entry (listed entry List.mem_cons_self)]
        exact ih fun other member => listed other (List.mem_cons_of_mem _ member)
  have again := loop P.topics.entries fun _ member => member
  rw [reconcileWith.eq_def, buried]
  exact again

end Twice

/-- A second `reconcile` at the same reading of the clock writes nothing. -/
theorem reconcile_idempotent (P : DurableDelivery) (locked : Uuid → Bool) (now : Clock)
    (s : Tables J) :
    P.reconcile locked now (P.reconcile locked now s).2 = (0, (P.reconcile locked now s).2) :=
  reconcileWith_twice P locked now s activeExecution_steady

end TplBackend.DurableDelivery
