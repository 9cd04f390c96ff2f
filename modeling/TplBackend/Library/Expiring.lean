import TplBackend.Library.Table

namespace Keyed

structure Entry (κ ν : Type) where
  key : κ
  value : ν
  deadline : Int

/-- A store of expiring values: an entry past its deadline counts as absent, whether or not the
store has removed it yet. -/
abbrev Store (κ ν : Type) := Table (@Entry.key κ ν)

namespace Store

variable {κ ν : Type} [DecidableEq κ] {s : Store κ ν} {key other : κ} {now : Int}

def read (s : Store κ ν) (key : κ) (now : Int) : Option ν :=
  (s.find? key).bind fun entry => if now < entry.deadline then some entry.value else none

def delete (s : Store κ ν) (key : κ) : Store κ ν := s.filter fun entry => decide (entry.key ≠ key)

/-- Stores a value for `ttl` unless the key holds one; whether it did so. -/
def create (s : Store κ ν) (key : κ) (value : ν) (ttl now : Int) : Bool × Store κ ν :=
  if (s.read key now).isSome then (false, s)
  else (true, (s.delete key).insert ⟨key, value, now + ttl⟩)

def take (s : Store κ ν) (key : κ) (now : Int) : Option ν × Store κ ν :=
  (s.read key now, s.delete key)

def expire (s : Store κ ν) (key : κ) (now : Int) : Store κ ν :=
  if (s.find? key).any fun entry => decide (entry.deadline ≤ now) then s.delete key else s

theorem read_eq_some {value : ν} : s.read key now = some value ↔
    ∃ deadline, s.find? key = some ⟨key, value, deadline⟩ ∧ now < deadline := by
  constructor
  · intro found
    obtain ⟨entry, present, live⟩ := Option.bind_eq_some_iff.mp found
    split at live
    · rename_i early
      cases live
      refine ⟨entry.deadline, ?_, early⟩
      rw [present, ← (Table.find?_eq_some.mp present).2]
    · cases live
  · rintro ⟨deadline, present, live⟩
    simp [read, present, live]

theorem find?_delete (s : Store κ ν) (key other : κ) :
    (s.delete key).find? other = if other = key then none else s.find? other := by
  rw [delete, Table.find?_filter]
  cases found : s.find? other with
  | none => simp
  | some entry =>
      rw [Option.filter_some, (Table.find?_eq_some.mp found).2]
      by_cases same : other = key <;> simp [same]

theorem find?_create {value : ν} {ttl : Int} (stored : (s.create key value ttl now).1 = true) :
    (s.create key value ttl now).2.find? other =
      if other = key then some ⟨key, value, now + ttl⟩ else s.find? other := by
  unfold create at stored ⊢
  split
  · rename_i taken
    rw [if_pos taken] at stored
    cases stored
  · rw [Table.find?_insert]
    by_cases same : other = key
    · simp [same, find?_delete]
    · simp [same, find?_delete, Ne.symm same]

theorem create_of_not {value : ν} {ttl : Int} (refused : (s.create key value ttl now).1 = false) :
    (s.create key value ttl now).2 = s := by
  unfold create at refused ⊢
  split
  · rfl
  · rename_i free
    rw [if_neg free] at refused
    cases refused

theorem find?_expire (s : Store κ ν) (key other : κ) (now : Int) :
    (s.expire key now).find? other = s.find? other ∨
      other = key ∧ (s.expire key now).find? other = none ∧
        ∃ entry, s.find? other = some entry ∧ entry.deadline ≤ now := by
  unfold expire
  split
  · rename_i due
    by_cases same : other = key
    · subst same
      cases found : s.find? other with
      | none =>
          rw [found] at due
          cases due
      | some entry =>
          rw [found, Option.any_some, decide_eq_true_eq] at due
          exact Or.inr ⟨rfl, by rw [find?_delete, if_pos rfl], entry, rfl, due⟩
    · exact Or.inl (by rw [find?_delete, if_neg same])
  · exact Or.inl rfl

end Store

end Keyed
