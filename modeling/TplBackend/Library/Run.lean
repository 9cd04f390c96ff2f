import Mathlib.Data.List.Induction

namespace Transition

structure Event (State Label : Type) where
  before : State
  label : Label
  after : State

/-- The runs of a transition relation from `start`, with everything that happened, oldest first. -/
inductive Run {State Label : Type} (step : State → Label → State → Prop) (start : State) :
    List (Event State Label) → State → Prop
  | init : Run step start [] start
  | next {history : List (Event State Label)} {before after : State} {label : Label} :
      Run step start history before → step before label after →
      Run step start (history ++ [⟨before, label, after⟩]) after

namespace Run

variable {State Label : Type} {step : State → Label → State → Prop} {start state : State}
variable {history : List (Event State Label)}

theorem invariant {holds : State → Prop} (first : holds start)
    (kept : ∀ before label after, holds before → step before label after → holds after)
    (run : Run step start history state) : holds state := by
  induction run with
  | init => exact first
  | next _ taken ih => exact kept _ _ _ ih taken

theorem last {event : Event State Label} (run : Run step start (history ++ [event]) state) :
    Run step start history event.before ∧ step event.before event.label event.after ∧
      state = event.after := by
  generalize joined : history ++ [event] = whole at run
  cases run with
  | init => simp at joined
  | next shorter taken =>
      obtain ⟨rfl, single⟩ := List.append_inj' joined rfl
      cases List.singleton_inj.mp single
      exact ⟨shorter, taken, rfl⟩

theorem at_event {earlier later : List (Event State Label)} {event : Event State Label}
    (run : Run step start (earlier ++ event :: later) state) :
    Run step start earlier event.before ∧ step event.before event.label event.after := by
  induction later using List.reverseRecOn generalizing state with
  | nil =>
      obtain ⟨shorter, taken, _⟩ := last run
      exact ⟨shorter, taken⟩
  | append_singleton later final ih =>
      rw [← List.cons_append, ← List.append_assoc] at run
      exact ih (last run).1

theorem through {earlier later : List (Event State Label)} {event : Event State Label}
    (run : Run step start (earlier ++ event :: later) state) :
    Run step start (earlier ++ [event]) event.after := by
  obtain ⟨shorter, taken⟩ := at_event run
  exact shorter.next taken

theorem beginning {earlier later : List (Event State Label)}
    (run : Run step start (earlier ++ later) state) : ∃ reached, Run step start earlier reached := by
  cases later with
  | nil => exact ⟨state, by simpa using run⟩
  | cons event later => exact ⟨event.before, (at_event run).1⟩

theorem of_mem {event : Event State Label} (run : Run step start history state)
    (member : event ∈ history) :
    ∃ earlier later, history = earlier ++ event :: later ∧ Run step start earlier event.before ∧
      step event.before event.label event.after := by
  obtain ⟨earlier, later, rfl⟩ := List.append_of_mem member
  obtain ⟨shorter, taken⟩ := at_event run
  exact ⟨earlier, later, rfl, shorter, taken⟩

theorem carried (holds : State → Prop) {earlier later : List (Event State Label)}
    {event : Event State Label} (run : Run step start (earlier ++ event :: later) state)
    (kept : ∀ other ∈ later, holds other.before → step other.before other.label other.after →
      holds other.after) (reached : holds event.after) : holds state := by
  induction later using List.reverseRecOn generalizing state with
  | nil =>
      rw [(last run).2.2]
      exact reached
  | append_singleton later final ih =>
      rw [← List.cons_append, ← List.append_assoc] at run
      obtain ⟨shorter, taken, rfl⟩ := last run
      exact kept final (by simp)
        (ih shorter fun other member => kept other (List.mem_append_left _ member)) taken

theorem stable {holds : State → Prop}
    (kept : ∀ before label after, holds before → step before label after → holds after)
    {earlier later : List (Event State Label)} {event : Event State Label}
    (run : Run step start (earlier ++ event :: later) state) (reached : holds event.after) :
    holds state :=
  carried holds run (fun _ _ held taken => kept _ _ _ held taken) reached

/-- What is seen at the end of a run has been seen since some event brought it about. -/
theorem since {ρ : Type} (view : State → Option ρ) {row : ρ} (nothing : view start = none)
    (run : Run step start history state) (seen : view state = some row) :
    ∃ earlier event later, history = earlier ++ event :: later ∧ view event.before ≠ some row ∧
      view event.after = some row ∧
      ∀ other ∈ later, view other.before = some row ∧ view other.after = some row := by
  induction run with
  | init =>
      rw [nothing] at seen
      cases seen
  | @next history before after label shorter taken ih =>
      by_cases old : view before = some row
      · obtain ⟨earlier, event, later, rfl, new, came, kept⟩ := ih old
        refine ⟨earlier, event, later ++ [⟨before, label, after⟩], by simp, new, came, ?_⟩
        intro other member
        rcases List.mem_append.mp member with inner | final
        · exact kept other inner
        · rw [List.mem_singleton.mp final]
          exact ⟨old, seen⟩
      · exact ⟨history, ⟨before, label, after⟩, [], rfl, old, seen, by simp⟩

end Run

def trace {State Label : Type} (next : State → Label → State) (start : State) :
    List Label → List (Event State Label)
  | [] => []
  | label :: labels => ⟨start, label, next start label⟩ :: trace next (next start label) labels

theorem trace_append {State Label : Type} (next : State → Label → State) (start : State)
    (first second : List Label) : trace next start (first ++ second) =
      trace next start first ++ trace next (first.foldl next start) second := by
  induction first generalizing start with
  | nil => rfl
  | cons label labels ih =>
      rw [List.cons_append, trace, trace, ih, List.foldl_cons, List.cons_append]

theorem label_mem_of_mem_trace {State Label : Type} {next : State → Label → State} {start : State}
    {labels : List Label} {event : Event State Label} (member : event ∈ trace next start labels) :
    event.label ∈ labels := by
  induction labels generalizing start with
  | nil => simp [trace] at member
  | cons label labels ih =>
      rcases List.mem_cons.mp member with rfl | later
      · exact List.mem_cons_self
      · exact List.mem_cons_of_mem _ (ih later)

theorem Run.of_trace {State Label : Type} {step : State → Label → State → Prop}
    {next : State → Label → State} {start : State} {labels : List Label}
    (enabled : ∀ event ∈ trace next start labels,
      step event.before event.label (next event.before event.label)) :
    Run step start (trace next start labels) (labels.foldl next start) := by
  induction labels using List.reverseRecOn with
  | nil => exact .init
  | append_singleton labels label ih =>
      rw [trace_append] at enabled ⊢
      rw [List.foldl_append]
      exact (ih fun event member => enabled event (List.mem_append_left _ member)).next
        (enabled _ (List.mem_append_right _ List.mem_cons_self))

theorem Run.of_taken {State Label : Type} {next : State → Label → Option State} {start : State}
    {labels : List Label}
    (taken : ∀ event ∈ trace (fun state label => (next state label).getD state) start labels,
      (next event.before event.label).isSome = true) :
    Run (fun before label after => next before label = some after) start
      (trace (fun state label => (next state label).getD state) start labels)
      (labels.foldl (fun state label => (next state label).getD state) start) := by
  refine Run.of_trace fun event member => ?_
  obtain ⟨after, reached⟩ := Option.isSome_iff_exists.mp (taken event member)
  rw [reached]
  rfl

/-- Forward simulation: each concrete step is an abstract step or leaves the abstract state alone. -/
structure Simulation {State Label AState ALabel : Type} (step : State → Label → State → Prop)
    (abstractStep : AState → ALabel → AState → Prop) (start : State) where
  view : State → AState
  good : State → Prop
  good_start : good start
  good_step : ∀ before label after, good before → step before label after → good after
  matches_step : ∀ before label after, good before → step before label after →
    view after = view before ∨ ∃ move, abstractStep (view before) move (view after)

namespace Simulation

variable {State Label AState ALabel : Type} {step : State → Label → State → Prop}
variable {abstractStep : AState → ALabel → AState → Prop} {start : State}

theorem run (simulation : Simulation step abstractStep start)
    {history : List (Event State Label)} {state : State} (concrete : Run step start history state) :
    simulation.good state ∧
      ∃ moves, Run abstractStep (simulation.view start) moves (simulation.view state) := by
  induction concrete with
  | init => exact ⟨simulation.good_start, [], .init⟩
  | next _ taken ih =>
      obtain ⟨good, moves, abstract⟩ := ih
      refine ⟨simulation.good_step _ _ _ good taken, ?_⟩
      rcases simulation.matches_step _ _ _ good taken with same | ⟨move, moved⟩
      · exact ⟨moves, by rw [same]; exact abstract⟩
      · exact ⟨_, abstract.next moved⟩

end Simulation

end Transition
