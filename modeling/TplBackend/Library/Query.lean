import Mathlib.Algebra.Ring.Nat
import Mathlib.Data.List.Nodup
import TplBackend.Library.Table

namespace Query

/-- A truth value of SQL, where a comparison with NULL is unknown. -/
inductive Truth
  | yes
  | no
  | unknown
  deriving DecidableEq, Repr

namespace Truth

def of : Bool → Truth
  | true => yes
  | false => no

def not : Truth → Truth
  | yes => no
  | no => yes
  | unknown => unknown

def and : Truth → Truth → Truth
  | no, _ => no
  | _, no => no
  | yes, yes => yes
  | _, _ => unknown

def or : Truth → Truth → Truth
  | yes, _ => yes
  | _, yes => yes
  | no, no => no
  | _, _ => unknown

/-- What `WHERE`, `ON` and `FILTER` keep. -/
def holds (truth : Truth) : Bool := decide (truth = yes)

def compare {α β : Type} (test : α → β → Bool) : Option α → Option β → Truth
  | some left, some right => of (test left right)
  | _, _ => unknown

@[simp] theorem holds_of (test : Bool) : (of test).holds = test := by
  cases test <;> rfl

@[simp] theorem holds_not_of (test : Bool) : (of test).not.holds = !test := by
  cases test <;> rfl

@[simp] theorem holds_and (left right : Truth) :
    (left.and right).holds = (left.holds && right.holds) := by
  cases left <;> cases right <;> rfl

@[simp] theorem holds_or (left right : Truth) :
    (left.or right).holds = (left.holds || right.holds) := by
  cases left <;> cases right <;> rfl

@[simp] theorem holds_compare_some {α β : Type} (test : α → β → Bool) (column : Option α) (value : β) :
    (compare test column (some value)).holds = column.any fun item => test item value := by
  cases column with
  | none => rfl
  | some item => exact holds_of _

@[simp] theorem holds_compare_none {α β : Type} (test : α → β → Bool) (column : Option α) :
    (compare test column none).holds = false := by
  cases column <;> rfl

/-- `bool_or`, which skips NULL and is NULL of nothing. -/
def anyOf (truths : List Truth) : Truth :=
  if yes ∈ truths then yes else if no ∈ truths then no else unknown

theorem holds_anyOf (truths : List Truth) : (anyOf truths).holds = truths.any holds := by
  unfold anyOf
  by_cases found : yes ∈ truths
  · rw [if_pos found]
    exact (List.any_eq_true.mpr ⟨yes, found, rfl⟩).symm
  · have nowhere : truths.any holds = false := by
      rw [List.any_eq_false]
      intro truth member kept
      exact found (of_decide_eq_true kept ▸ member)
    rw [if_neg found, nowhere]
    by_cases other : no ∈ truths
    · rw [if_pos other]
      rfl
    · rw [if_neg other]
      rfl

end Truth

/-- `rows LEFT JOIN others ON on` -/
def leftJoin {α β : Type} (on : α → β → Truth) (rows : List α) (others : List β) :
    List (α × Option β) :=
  rows.flatMap fun row =>
    match others.filter fun other => (on row other).holds with
    | [] => [(row, none)]
    | partners => partners.map fun other => (row, some other)

theorem leftJoin_eq_map {α β : Type} {on : α → β → Truth} {others : List β}
    (single : ∀ row, (others.filter fun other => (on row other).holds).length ≤ 1) (rows : List α) :
    leftJoin on rows others =
      rows.map fun row => (row, others.find? fun other => (on row other).holds) := by
  have each (row : α) : (match others.filter fun other => (on row other).holds with
      | [] => [(row, none)]
      | partners => partners.map fun other => (row, some other)) =
      [(row, others.find? fun other => (on row other).holds)] := by
    have bound := single row
    have first := List.head?_filter (p := fun other => (on row other).holds) (l := others)
    cases partners : others.filter fun other => (on row other).holds with
    | nil =>
        rw [partners] at first
        simp [← first]
    | cons other more =>
        rw [partners] at first bound
        cases more with
        | nil => simp [← first]
        | cons => simp at bound
  simp only [leftJoin, each]
  exact List.map_eq_flatMap.symm

theorem countP_add_countP {α : Type} {p q : α → Bool} {rows : List α}
    (apart : ∀ row ∈ rows, p row = true → q row = false) :
    rows.countP p + rows.countP q = rows.countP fun row => p row || q row := by
  induction rows with
  | nil => rfl
  | cons row rows ih =>
      have rest := ih fun other member => apart other (List.mem_cons_of_mem _ member)
      have first := apart row List.mem_cons_self
      rw [List.countP_cons, List.countP_cons, List.countP_cons, ← rest]
      cases here : p row with
      | false => simp [Nat.add_assoc]
      | true =>
          rw [first here]
          simp [Nat.add_right_comm]

theorem sum_countP {α β : Type} [DecidableEq β] (group : α → β) {groups : List β} (distinct : groups.Nodup)
    (rows : List α) : (groups.map fun g => rows.countP fun row => decide (group row = g)).sum =
      rows.countP fun row => groups.any fun g => decide (group row = g) := by
  induction groups with
  | nil => simp
  | cons g groups ih =>
      obtain ⟨fresh, distinct⟩ := List.nodup_cons.mp distinct
      rw [List.map_cons, List.sum_cons, ih distinct, countP_add_countP]
      · rfl
      · intro row _ same
        rw [of_decide_eq_true same, List.any_eq_false]
        exact fun other member equal => fresh (of_decide_eq_true equal ▸ member)

end Query
