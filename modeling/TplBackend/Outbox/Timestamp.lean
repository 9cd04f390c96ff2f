import Mathlib.Order.BoundedOrder.Basic
import Mathlib.Order.Defs.LinearOrder

namespace TplBackend

/-- A reading of a PostgreSQL clock, in microseconds. -/
abbrev Clock := Int

/-- `n * interval '1 second'` -/
def seconds (n : Int) : Int := n * 1000000

/-- `timestamptz`, both infinities included. -/
inductive Timestamp
  | negInfinity
  | instant (clock : Clock)
  | infinity
  deriving DecidableEq

namespace Timestamp

def notAfter : Timestamp → Timestamp → Bool
  | .negInfinity, _ => true
  | .instant first, .instant second => decide (first ≤ second)
  | .instant _, .infinity => true
  | .infinity, .infinity => true
  | _, _ => false

instance : Coe Clock Timestamp := ⟨instant⟩

instance : LE Timestamp := ⟨fun first second => notAfter first second = true⟩

instance : LT Timestamp := ⟨fun first second => notAfter second first = false⟩

instance : DecidableLE Timestamp := fun first second =>
  inferInstanceAs (Decidable (notAfter first second = true))

instance : DecidableLT Timestamp := fun first second =>
  inferInstanceAs (Decidable (notAfter second first = false))

instance : Bot Timestamp := ⟨negInfinity⟩

theorem coe_le_coe {first second : Clock} :
    (first : Timestamp) ≤ (second : Timestamp) ↔ first ≤ second :=
  decide_eq_true_iff

theorem coe_lt_coe {first second : Clock} :
    (first : Timestamp) < (second : Timestamp) ↔ first < second :=
  decide_eq_false_iff_not.trans Int.not_le

theorem notAfter_refl (first : Timestamp) : notAfter first first = true := by
  cases first <;> simp [notAfter]

theorem notAfter_trans {first second third : Timestamp} (left : notAfter first second = true)
    (right : notAfter second third = true) : notAfter first third = true := by
  cases first <;> cases second <;> cases third <;> simp_all [notAfter]
  exact Int.le_trans left right

theorem notAfter_antisymm {first second : Timestamp} (left : notAfter first second = true)
    (right : notAfter second first = true) : first = second := by
  cases first <;> cases second <;> simp_all [notAfter]
  exact Int.le_antisymm left right

theorem notAfter_total (first second : Timestamp) :
    notAfter first second = true ∨ notAfter second first = true := by
  cases first <;> cases second <;> simp [notAfter]
  exact Int.le_total _ _

instance : LinearOrder Timestamp where
  le := (· ≤ ·)
  lt := (· < ·)
  le_refl := notAfter_refl
  le_trans := fun _ _ _ => notAfter_trans
  le_antisymm := fun _ _ => notAfter_antisymm
  le_total := notAfter_total
  lt_iff_le_not_ge := fun first second => by
    change notAfter second first = false ↔ notAfter first second = true ∧ ¬ notAfter second first = true
    rw [Bool.not_eq_true]
    exact ⟨fun after => ⟨(notAfter_total first second).resolve_right (by simp [after]), after⟩,
      And.right⟩
  toDecidableLE := inferInstance
  toDecidableLT := inferInstance
  toDecidableEq := inferInstance

instance : OrderBot Timestamp where
  bot_le := fun _ => rfl

end Timestamp

end TplBackend
