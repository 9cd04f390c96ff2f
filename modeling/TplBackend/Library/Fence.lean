import Mathlib.Order.WithBot
import TplBackend.Library.Run

namespace Fence

open Transition

/-- A resource guarded by fencing tokens: the highest token so far, the tokens handed to owners
and the tokens under which a guarded write went through, both oldest first. -/
structure Register (τ : Type) where
  top : WithBot τ
  issued : List τ
  used : List τ

def Register.new (τ : Type) : Register τ := ⟨⊥, [], []⟩

inductive Move (τ : Type)
  | issue (token : τ)
  | burn (token : τ)
  | use (token : τ)

/-- A token is issued or burned only above every earlier one; a write needs the highest token. -/
inductive Step {τ : Type} [LinearOrder τ] : Register τ → Move τ → Register τ → Prop
  | issue {register : Register τ} {token : τ} : register.top < token →
      Step register (.issue token) ⟨token, register.issued ++ [token], register.used⟩
  | burn {register : Register τ} {token : τ} : register.top < token →
      Step register (.burn token) ⟨token, register.issued, register.used⟩
  | use {register : Register τ} {token : τ} : register.top = token →
      Step register (.use token) ⟨register.top, register.issued, register.used ++ [token]⟩

variable {τ : Type} [LinearOrder τ]

structure Valid (register : Register τ) : Prop where
  issued_le : ∀ token ∈ register.issued, (token : WithBot τ) ≤ register.top
  used_le : ∀ token ∈ register.used, (token : WithBot τ) ≤ register.top
  issued_increasing : register.issued.Pairwise (· < ·)
  used_monotone : register.used.Pairwise (· ≤ ·)

theorem new_valid : Valid (Register.new τ) where
  issued_le := by simp [Register.new]
  used_le := by simp [Register.new]
  issued_increasing := List.Pairwise.nil
  used_monotone := List.Pairwise.nil

theorem pairwise_concat {α : Type} {related : α → α → Prop} {items : List α} {item : α}
    (earlier : items.Pairwise related) (last : ∀ other ∈ items, related other item) :
    (items ++ [item]).Pairwise related := by
  rw [List.pairwise_append]
  refine ⟨earlier, List.pairwise_singleton _ _, ?_⟩
  intro other member final single
  rw [List.mem_singleton.mp single]
  exact last other member

theorem step_valid {before after : Register τ} {move : Move τ} (valid : Valid before)
    (step : Step before move after) : Valid after := by
  cases step with
  | @issue token above =>
      have below (other : τ) (bound : (other : WithBot τ) ≤ before.top) : other < token :=
        WithBot.coe_lt_coe.mp (lt_of_le_of_lt bound above)
      refine ⟨?_, ?_, ?_, valid.used_monotone⟩
      · intro other member
        rcases List.mem_append.mp member with old | new
        · exact (valid.issued_le other old).trans above.le
        · rw [List.mem_singleton.mp new]
      · intro other member
        exact (valid.used_le other member).trans above.le
      · exact pairwise_concat valid.issued_increasing fun other member =>
          below other (valid.issued_le other member)
  | burn above =>
      exact ⟨fun other member => (valid.issued_le other member).trans above.le,
        fun other member => (valid.used_le other member).trans above.le,
        valid.issued_increasing, valid.used_monotone⟩
  | use current =>
      refine ⟨valid.issued_le, ?_, valid.issued_increasing, ?_⟩
      · intro other member
        rcases List.mem_append.mp member with old | new
        · exact valid.used_le other old
        · rw [List.mem_singleton.mp new]
          exact current.ge
      · refine pairwise_concat valid.used_monotone fun other member => ?_
        have bound := valid.used_le other member
        rw [current] at bound
        exact WithBot.coe_le_coe.mp bound

theorem run_valid {history : List (Event (Register τ) (Move τ))} {register : Register τ}
    (run : Run Step (Register.new τ) history register) : Valid register :=
  run.invariant new_valid fun _ _ _ valid step => step_valid valid step

end Fence
