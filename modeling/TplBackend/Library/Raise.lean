import Mathlib.Data.List.Basic

namespace Raise

variable {ε α β : Type} {error : ε} {b : β}

theorem ok_bind {a : α} {f : α → Except ε β} : (Except.ok a >>= f) = f a := rfl

theorem error_bind {f : α → Except ε β} : (Except.error error >>= f) = .error error := rfl

theorem bind_ok {x : Except ε α} {f : α → Except ε β} :
    (x >>= f) = .ok b ↔ ∃ a, x = .ok a ∧ f a = .ok b := by
  cases x with
  | error raised => simp [bind, Except.bind]
  | ok a => simp [bind, Except.bind]

theorem bind_error {x : Except ε α} {f : α → Except ε β} :
    (x >>= f) = .error error ↔ x = .error error ∨ ∃ a, x = .ok a ∧ f a = .error error := by
  cases x with
  | error raised => simp [bind, Except.bind]
  | ok a => simp [bind, Except.bind]

def require (condition : Prop) [Decidable condition] (error : ε) : Except ε Unit :=
  if condition then .ok () else .error error

theorem require_ok {condition : Prop} [Decidable condition] {done : Unit} :
    require condition error = .ok done ↔ condition := by
  simp [require]

theorem require_pos {condition : Prop} [Decidable condition] (holds : condition) :
    require condition error = .ok () := if_pos holds

theorem require_neg {condition : Prop} [Decidable condition] (fails : ¬ condition) :
    require condition error = .error error := if_neg fails

theorem require_error {condition : Prop} [Decidable condition] {raised : ε} :
    require condition error = .error raised ↔ ¬ condition ∧ error = raised := by
  unfold require
  split <;> simp [*]

theorem require_bind_ok {condition : Prop} [Decidable condition] {rest : Unit → Except ε β} :
    (require condition error >>= rest) = .ok b ↔ condition ∧ rest () = .ok b := by
  rw [bind_ok]
  constructor
  · rintro ⟨_, holds, ran⟩
    exact ⟨require_ok.mp holds, ran⟩
  · rintro ⟨holds, ran⟩
    exact ⟨(), require_ok.mpr holds, ran⟩

theorem exists_ite_ok {condition : Prop} [Decidable condition] {a : α} :
    (∃ result, (if condition then .ok a else .error error : Except ε α) = .ok result) ↔
      condition := by
  split <;> simp [*]

def expect (found : Option α) (error : ε) : Except ε α :=
  match found with
  | some a => .ok a
  | none => .error error

theorem expect_some {a : α} : expect (some a) error = .ok a := rfl

theorem expect_none : expect (none : Option α) error = .error error := rfl

theorem expect_ok {found : Option α} {a : α} : expect found error = .ok a ↔ found = some a := by
  cases found <;> simp [expect]

theorem expect_error {found : Option α} {raised : ε} :
    expect found error = .error raised ↔ found = none ∧ error = raised := by
  cases found <;> simp [expect]

theorem pure_ok {a : β} : (pure a : Except ε β) = .ok b ↔ a = b := by
  simp [pure, Except.pure]

theorem mapError_ok {ε' : Type} {x : Except ε α} {f : ε → ε'} {a : α} :
    x.mapError f = .ok a ↔ x = .ok a := by
  cases x <;> simp [Except.mapError]

def Only (fine : ε → Prop) (result : Except ε α) : Prop :=
  ∀ raised, result = .error raised → fine raised

section Only

variable {fine : ε → Prop}

theorem only_ok (a : α) : Only fine (.ok a : Except ε α) := fun _ failed => by cases failed

theorem only_error : Only fine (.error error : Except ε α) ↔ fine error :=
  ⟨fun only => only error rfl, fun holds _ same => Except.error.inj same ▸ holds⟩

theorem only_bind {x : Except ε α} {f : α → Except ε β} :
    Only fine (x >>= f) ↔ Only fine x ∧ ∀ a, x = .ok a → Only fine (f a) := by
  cases x with
  | error raised =>
      rw [error_bind, only_error, only_error]
      exact ⟨fun holds => ⟨holds, fun a same => by cases same⟩, And.left⟩
  | ok a =>
      rw [ok_bind]
      exact ⟨fun only => ⟨only_ok a, fun b same => Except.ok.inj same ▸ only⟩, fun both => both.2 a rfl⟩

theorem only_require {condition : Prop} [Decidable condition] :
    Only fine (require condition error) ↔ (¬ condition → fine error) := by
  by_cases holds : condition
  · rw [require_pos holds]
    exact iff_of_true (only_ok ()) fun fails => absurd holds fails
  · rw [require_neg holds, only_error]
    exact ⟨fun fine _ => fine, fun fine => fine holds⟩

theorem only_expect {found : Option α} :
    Only fine (expect found error) ↔ (found = none → fine error) := by
  cases found with
  | none => exact only_error.trans ⟨fun fine _ => fine, fun fine => fine rfl⟩
  | some a => exact iff_of_true (only_ok a) fun none_ => by cases none_

end Only

theorem mem_mapM_iff {f : α → Except ε β} {items : List α} {results : List β}
    (ran : items.mapM f = .ok results) {result : β} :
    result ∈ results ↔ ∃ item ∈ items, f item = .ok result := by
  induction items generalizing results with
  | nil =>
      rw [List.mapM_nil, pure_ok] at ran
      simp [← ran]
  | cons item items ih =>
      rw [List.mapM_cons, bind_ok] at ran
      obtain ⟨first, head, ran⟩ := ran
      rw [bind_ok] at ran
      obtain ⟨rest, tail, ran⟩ := ran
      rw [pure_ok] at ran
      rw [← ran, List.mem_cons, ih tail, List.exists_mem_cons_iff, head, Except.ok.injEq]
      exact or_congr_left eq_comm

theorem mapM_result {f : α → Except ε β} {items : List α} {results : List β}
    (ran : items.mapM f = .ok results) {item : α} (member : item ∈ items) :
    ∃ result ∈ results, f item = .ok result := by
  induction items generalizing results with
  | nil => cases member
  | cons first items ih =>
      rw [List.mapM_cons, bind_ok] at ran
      obtain ⟨here, head, ran⟩ := ran
      rw [bind_ok] at ran
      obtain ⟨rest, tail, ran⟩ := ran
      rw [pure_ok] at ran
      subst ran
      rcases List.mem_cons.mp member with rfl | later
      · exact ⟨here, List.mem_cons_self, head⟩
      · obtain ⟨result, stored, same⟩ := ih tail later
        exact ⟨result, List.mem_cons_of_mem _ stored, same⟩

theorem map_of_mapM {γ : Type} {f : α → Except ε β} {view : β → γ} {of : α → γ}
    (each : ∀ item result, f item = .ok result → view result = of item) {items : List α}
    {results : List β} (ran : items.mapM f = .ok results) : results.map view = items.map of := by
  induction items generalizing results with
  | nil =>
      rw [List.mapM_nil, pure_ok] at ran
      simp [← ran]
  | cons item items ih =>
      rw [List.mapM_cons, bind_ok] at ran
      obtain ⟨first, head, ran⟩ := ran
      rw [bind_ok] at ran
      obtain ⟨rest, tail, ran⟩ := ran
      rw [pure_ok] at ran
      rw [← ran, List.map_cons, List.map_cons, ih tail, each item first head]

theorem exists_mapM {f : α → Except ε β} {items : List α}
    (all : ∀ item ∈ items, ∃ result, f item = .ok result) :
    ∃ results, items.mapM f = .ok results := by
  induction items with
  | nil => exact ⟨[], rfl⟩
  | cons item items ih =>
      obtain ⟨first, head⟩ := all item List.mem_cons_self
      obtain ⟨rest, tail⟩ := ih fun other member => all other (List.mem_cons_of_mem _ member)
      exact ⟨first :: rest, by rw [List.mapM_cons, head, ok_bind, tail, ok_bind]; rfl⟩

end Raise
