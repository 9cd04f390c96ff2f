import Mathlib.Data.List.Sort

namespace Ranking

variable {α : Type} {r : α → α → Prop} [DecidableRel r]

def preceding (r : α → α → Prop) [DecidableRel r] (item : α) (items : List α) : List α :=
  items.filter fun other => decide (r other item ∧ ¬ r item other)

theorem mem_take_of_sorted {items : List α} (sorted : items.Pairwise r)
    (antisymmetric : ∀ first ∈ items, ∀ second ∈ items, r first second → r second first →
      first = second) (n : Nat) (item : α) :
    item ∈ items.take n ↔ item ∈ items ∧ (preceding r item items).length < n := by
  induction items generalizing n with
  | nil => simp
  | cons head tail ih =>
      obtain ⟨below, sortedTail⟩ := List.pairwise_cons.mp sorted
      have rest := ih sortedTail fun first left second right =>
        antisymmetric first (List.mem_cons_of_mem _ left) second (List.mem_cons_of_mem _ right)
      cases n with
      | zero => simp
      | succ n =>
          rw [List.take_succ_cons, List.mem_cons, List.mem_cons]
          by_cases same : item = head
          · subst same
            have first : preceding r item (item :: tail) = [] := by
              rw [preceding, List.filter_eq_nil_iff]
              intro other member
              rcases List.mem_cons.mp member with rfl | later
              · simp
              · simp [below other later]
            simp [first]
          · rw [or_iff_right same, or_iff_right same, rest n]
            refine and_congr_right fun member => ?_
            have after : ¬ r item head := fun before => same
              (antisymmetric item (List.mem_cons_of_mem _ member) head List.mem_cons_self before
                (below item member))
            have counted : preceding r item (head :: tail) = head :: preceding r item tail := by
              simp [preceding, below item member, after]
            rw [counted, List.length_cons, Nat.add_lt_add_iff_right]

theorem mem_take_insertionSort [Std.Total r] [IsTrans α r] {items : List α}
    (antisymmetric : ∀ first ∈ items, ∀ second ∈ items, r first second → r second first →
      first = second) (n : Nat) (item : α) :
    item ∈ (items.insertionSort r).take n ↔
      item ∈ items ∧ (preceding r item items).length < n := by
  have reordered := List.perm_insertionSort r items
  rw [mem_take_of_sorted (List.pairwise_insertionSort r items), List.mem_insertionSort, preceding,
    preceding, (reordered.filter _).length_eq]
  intro first left second right
  exact antisymmetric first ((List.mem_insertionSort r).mp left) second
    ((List.mem_insertionSort r).mp right)

end Ranking
