import Mathlib.Order.Filter.AtTopBot.Basic
import Mathlib.Order.Filter.Finite
import Mathlib.Order.OrderIsoNat
import TplBackend.Library.Run

/-! Runs that never end: what holds of them in the long run. -/

namespace Transition

open Filter

/-- A run that takes one step after the other, forever. -/
structure Endless {State Label : Type} (step : State → Label → State → Prop) (start : State) where
  state : Nat → State
  label : Nat → Label
  starts : state 0 = start
  steps : ∀ i, step (state i) (label i) (state (i + 1))

namespace Endless

variable {State Label : Type} {step : State → Label → State → Prop} {start : State}

section Runs

variable (endless : Endless step start)

def event (i : Nat) : Event State Label := ⟨endless.state i, endless.label i, endless.state (i + 1)⟩

def history (n : Nat) : List (Event State Label) := (List.range n).map endless.event

theorem run (n : Nat) : Run step start (endless.history n) (endless.state n) := by
  induction n with
  | zero =>
      rw [endless.starts]
      exact .init
  | succ n ih =>
      rw [history, List.range_succ, List.map_append]
      exact ih.next (endless.steps n)

theorem mem_history {event : Event State Label} {n : Nat} :
    event ∈ endless.history n ↔ ∃ i < n, endless.event i = event := by
  simp [history]

end Runs

theorem comes_to_rest {f : Nat → Nat} (falls : ∀ᶠ i in atTop, f (i + 1) ≤ f i) :
    ∀ᶠ i in atTop, f (i + 1) = f i := by
  obtain ⟨n, falls⟩ := eventually_atTop.mp falls
  have descends : Antitone fun i => f (n + i) := by
    apply antitone_nat_of_succ_le
    intro i
    exact falls (n + i) (Nat.le_add_right n i)
  obtain ⟨m, rests⟩ := WellFoundedGT.monotone_chain_condition
    (⟨fun i => OrderDual.toDual (f (n + i)), descends⟩ : Nat →o Natᵒᵈ)
  have same (i : Nat) (late : m ≤ i) : f (n + m) = f (n + i) :=
    congrArg OrderDual.ofDual (rests i late)
  rw [eventually_atTop]
  refine ⟨n + m, ?_⟩
  intro i late
  obtain ⟨k, rfl⟩ := Nat.exists_eq_add_of_le (Nat.le_trans (Nat.le_add_right n m) late)
  have early : m ≤ k := Nat.le_of_add_le_add_left late
  calc
    f (n + k + 1) = f (n + (k + 1)) := rfl
    _ = f (n + m) := (same (k + 1) (Nat.le_succ_of_le early)).symm
    _ = f (n + k) := same k early

/-- What every step leaves alone or pays for out of a potential is left alone in the long run. -/
theorem settles {ρ : Type} (view : State → ρ) (potential : State → Nat) (endless : Endless step start)
    (pays : ∀ᶠ i in atTop, potential (endless.state (i + 1)) < potential (endless.state i) ∨
      view (endless.state (i + 1)) = view (endless.state i) ∧
        potential (endless.state (i + 1)) = potential (endless.state i)) :
    ∀ᶠ i in atTop, view (endless.state (i + 1)) = view (endless.state i) := by
  have falls : ∀ᶠ i in atTop, potential (endless.state (i + 1)) ≤ potential (endless.state i) := by
    filter_upwards [pays] with i pays
    rcases pays with less | ⟨_, same⟩
    · exact less.le
    · exact same.le
  have rests := comes_to_rest (f := fun i => potential (endless.state i)) falls
  filter_upwards [pays, rests] with i pays rests
  rcases pays with less | ⟨kept, _⟩
  · exact absurd rests less.ne
  · exact kept

def cons {label : Label} {next : State} (first : step start label next) (rest : Endless step next) :
    Endless step start where
  state
    | 0 => start
    | i + 1 => rest.state i
  label
    | 0 => label
    | i + 1 => rest.label i
  starts := rfl
  steps
    | 0 => by
        rw [← rest.starts] at first
        exact first
    | i + 1 => rest.steps i

def append {next : State → Label → Option State} : {start : State} → (labels : List Label) →
    (∀ event ∈ trace (fun state label => (next state label).getD state) start labels,
      (next event.before event.label).isSome = true) →
    Endless (fun before label after => next before label = some after)
      (labels.foldl (fun state label => (next state label).getD state) start) →
    Endless (fun before label after => next before label = some after) start
  | _, [], _, rest => rest
  | start, label :: labels, taken, rest =>
      have enabled : next start label = some ((next start label).getD start) := by
        obtain ⟨reached, found⟩ := Option.isSome_iff_exists.mp (taken _ List.mem_cons_self)
        simp only at found
        rw [found, Option.getD_some]
      cons enabled
        (append labels (fun event member => taken event (List.mem_cons_of_mem _ member)) rest)

end Endless

end Transition
