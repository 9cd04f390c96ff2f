import Mathlib.Data.List.Basic

namespace Effects

/-- A program that asks its environment for one operation after another, until it returns or raises. -/
inductive Program (Op Answer Error α : Type)
  | done (result : Except Error α)
  | ask (op : Op) (resume : Answer → Program Op Answer Error α)

namespace Program

variable {Op Answer Error Error' α β : Type}

def bind (program : Program Op Answer Error α) (next : α → Program Op Answer Error β) :
    Program Op Answer Error β :=
  match program with
  | .done (.ok a) => next a
  | .done (.error error) => .done (.error error)
  | .ask op resume => .ask op fun answer => (resume answer).bind next

instance : Monad (Program Op Answer Error) where
  pure a := .done (.ok a)
  bind := bind

def raise (error : Error) : Program Op Answer Error α := .done (.error error)

def ensure (condition : Prop) [Decidable condition] (error : Error) : Program Op Answer Error Unit :=
  if condition then .done (.ok ()) else raise error

def take (found : Option α) (error : Error) : Program Op Answer Error α :=
  match found with
  | some a => .done (.ok a)
  | none => raise error

/-- One operation; `error` is what it raises. -/
def query (op : Op) (read : Answer → Option α) (error : Error) : Program Op Answer Error α :=
  .ask op fun answer => take (read answer) error

def attempt : Program Op Answer Error α → Program Op Answer Error' (Except Error α)
  | .done result => .done (.ok result)
  | .ask op resume => .ask op fun answer => (resume answer).attempt

/-- A program and what is done after it in any case; what that raises comes first. -/
def thenAlways (program : Program Op Answer Error α) (clean : Program Op Answer Error Unit) :
    Program Op Answer Error α := do
  let result ← program.attempt
  clean
  .done result

def Within : Nat → Program Op Answer Error α → Prop
  | _, .done _ => True
  | 0, .ask _ _ => False
  | n + 1, .ask _ resume => ∀ answer, (resume answer).Within n

/-- What a program asks for, and what comes of it, with everything that was asked and answered so far:
each operation is one that `asks` allows, and the end is as `post` wants it. -/
def Meets (asks : List (Op × Answer) → Op → Prop) :
    Program Op Answer Error α → List (Op × Answer) →
      (List (Op × Answer) → Except Error α → Prop) → Prop
  | .done result, log, post => post log result
  | .ask op resume, log, post =>
      asks log op ∧ ∀ answer, (resume answer).Meets asks (log ++ [(op, answer)]) post

section Rules

variable {asks : List (Op × Answer) → Op → Prop} {log : List (Op × Answer)} {n : Nat}
  {post post' : List (Op × Answer) → Except Error α → Prop}
  {program : Program Op Answer Error α}

def carry (next : α → List (Op × Answer) → Prop) (raised : Error → List (Op × Answer) → Prop)
    (log : List (Op × Answer)) : Except Error α → Prop
  | .ok a => next a log
  | .error error => raised error log

theorem meets_bind {next : α → Program Op Answer Error β}
    {post : List (Op × Answer) → Except Error β → Prop} :
    (program >>= next).Meets asks log post ↔ program.Meets asks log
      (carry (fun a log => (next a).Meets asks log post) fun error log => post log (.error error)) := by
  induction program generalizing log with
  | done result => cases result <;> exact Iff.rfl
  | ask op resume ih => exact and_congr_right fun _ => forall_congr' fun answer => ih answer

theorem meets_attempt {post : List (Op × Answer) → Except Error' (Except Error α) → Prop} :
    program.attempt.Meets asks log post ↔
      program.Meets asks log fun log result => post log (.ok result) := by
  induction program generalizing log with
  | done result => exact Iff.rfl
  | ask op resume ih => exact and_congr_right fun _ => forall_congr' fun answer => ih answer

theorem meets_thenAlways {clean : Program Op Answer Error Unit} :
    (program.thenAlways clean).Meets asks log post ↔ program.Meets asks log fun log result =>
      clean.Meets asks log
        (carry (fun _ log => post log result) fun error log => post log (.error error)) := by
  rw [thenAlways, meets_bind, meets_attempt]
  exact iff_of_eq (congrArg _ (funext fun _ => funext fun _ => propext meets_bind))

theorem Meets.mono (meets : program.Meets asks log post)
    (weaker : ∀ log result, post log result → post' log result) : program.Meets asks log post' := by
  induction program generalizing log with
  | done result => exact weaker _ _ meets
  | ask op resume ih => exact ⟨meets.1, fun answer => ih answer (meets.2 answer)⟩

theorem meets_take {found : Option α} {error : Error} : (take found error).Meets asks log post ↔
    (∀ a, found = some a → post log (.ok a)) ∧ (found = none → post log (.error error)) := by
  cases found <;> simp [take, raise, Meets]

theorem meets_query {op : Op} {read : Answer → Option α} {error : Error} :
    (query op read error).Meets asks log post ↔ asks log op ∧ ∀ answer,
      (∀ a, read answer = some a → post (log ++ [(op, answer)]) (.ok a)) ∧
        (read answer = none → post (log ++ [(op, answer)]) (.error error)) :=
  and_congr_right fun _ => forall_congr' fun _ => meets_take

theorem within_mono {m : Nat} (within : program.Within n) (more : n ≤ m) : program.Within m := by
  induction program generalizing n m with
  | done result => cases m <;> trivial
  | ask op resume ih =>
      cases n with
      | zero => exact within.elim
      | succ n =>
          cases m with
          | zero => omega
          | succ m => exact fun answer => ih answer (within answer) (by omega)

theorem within_bind {m : Nat} {next : α → Program Op Answer Error β} (first : program.Within n)
    (rest : ∀ a, (next a).Within m) : (program >>= next).Within (n + m) := by
  induction program generalizing n with
  | done result =>
      cases result with
      | ok a => exact within_mono (rest a) (by omega)
      | error error => exact within_mono (n := 0) (show Within 0 (raise error) from trivial) (by omega)
  | ask op resume ih =>
      cases n with
      | zero => exact first.elim
      | succ n =>
          rw [Nat.add_right_comm]
          exact fun answer => ih answer (first answer)

theorem within_attempt (within : program.Within n) :
    (program.attempt : Program Op Answer Error' (Except Error α)).Within n := by
  induction program generalizing n with
  | done result => cases n <;> trivial
  | ask op resume ih =>
      cases n with
      | zero => exact within.elim
      | succ n => exact fun answer => ih answer (within answer)

theorem within_take (found : Option α) (error : Error) :
    (take found error : Program Op Answer Error α).Within n := by
  cases found <;> cases n <;> trivial

theorem within_query (op : Op) (read : Answer → Option α) (error : Error) :
    (query op read error : Program Op Answer Error α).Within 1 := fun _ => within_take _ _

end Rules

end Program

structure Underway (Op Answer Error α : Type) where
  log : List (Op × Answer)
  rest : Program Op Answer Error α

namespace Underway

variable {Op Answer Error α : Type} {underway : Underway Op Answer Error α} {op : Op}
  {answer : Answer}

def begin (program : Program Op Answer Error α) : Underway Op Answer Error α := ⟨[], program⟩

def asking (underway : Underway Op Answer Error α) : Option Op :=
  match underway.rest with
  | .done _ => none
  | .ask op _ => some op

def result (underway : Underway Op Answer Error α) : Option (Except Error α) :=
  match underway.rest with
  | .done result => some result
  | .ask _ _ => none

def next (underway : Underway Op Answer Error α) (answer : Answer) : Underway Op Answer Error α :=
  match underway.rest with
  | .done _ => underway
  | .ask op resume => ⟨underway.log ++ [(op, answer)], resume answer⟩

def Meets (underway : Underway Op Answer Error α) (asks : List (Op × Answer) → Op → Prop)
    (post : List (Op × Answer) → Except Error α → Prop) : Prop :=
  underway.rest.Meets asks underway.log post

theorem log_next (asking : underway.asking = some op) :
    (underway.next answer).log = underway.log ++ [(op, answer)] := by
  obtain ⟨log, rest⟩ := underway
  cases rest with
  | done result => cases asking
  | ask op resume =>
      cases asking
      rfl

section Rules

variable {asks : List (Op × Answer) → Op → Prop} {post : List (Op × Answer) → Except Error α → Prop}

theorem Meets.allowed (meets : underway.Meets asks post) (asking : underway.asking = some op) :
    asks underway.log op := by
  obtain ⟨log, rest⟩ := underway
  cases rest with
  | done result => cases asking
  | ask op resume =>
      cases asking
      exact meets.1

theorem Meets.next (meets : underway.Meets asks post) : (underway.next answer).Meets asks post := by
  obtain ⟨log, rest⟩ := underway
  cases rest with
  | done result => exact meets
  | ask op resume => exact meets.2 answer

theorem Meets.ended {result : Except Error α} (meets : underway.Meets asks post)
    (returned : underway.result = some result) : post underway.log result := by
  obtain ⟨log, rest⟩ := underway
  cases rest with
  | done result =>
      cases returned
      exact meets
  | ask op resume => cases returned

theorem within_next {n : Nat} (within : underway.rest.Within n) (asking : underway.asking = some op) :
    (underway.next answer).rest.Within (n - 1) := by
  obtain ⟨log, rest⟩ := underway
  cases rest with
  | done result => cases asking
  | ask op resume =>
      cases n with
      | zero => exact within.elim
      | succ n => exact within answer

theorem asks_or_returns (underway : Underway Op Answer Empty α) :
    (∃ op, underway.asking = some op ∧ underway.result = none) ∨
      ∃ a, underway.asking = none ∧ underway.result = some (.ok a) := by
  obtain ⟨log, rest⟩ := underway
  cases rest with
  | done result =>
      cases result with
      | ok a => exact .inr ⟨a, rfl, rfl⟩
      | error raised => exact raised.elim
  | ask op resume => exact .inl ⟨op, rfl, rfl⟩

end Rules

end Underway

end Effects
