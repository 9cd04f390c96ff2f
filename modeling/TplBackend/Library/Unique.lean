import TplBackend.Library.Table

namespace Keyed

variable {ρ κ ι : Type}

/-- A table with a second unique constraint, on what `other` reads off each row. -/
structure Unique (key : ρ → κ) (other : ρ → ι) where
  table : Table key
  unique : (table.rows.map other).Nodup

namespace Unique

variable {key : ρ → κ} {other : ρ → ι}

def empty : Unique key other := ⟨Table.empty, List.nodup_nil⟩

theorem eq_of_other_eq {rows : Unique key other} {first second : ρ} (left : first ∈ rows.table)
    (right : second ∈ rows.table) (same : other first = other second) : first = second :=
  List.inj_on_of_nodup_map rows.unique left right same

section Within

variable {rows rows' rows'' : Unique key other}

def Within (rows rows' : Unique key other) : Prop :=
  ∀ row ∈ rows.table, ∃ row' ∈ rows'.table, key row' = key row ∧ other row' = other row

theorem Within.refl (rows : Unique key other) : rows.Within rows :=
  fun row member => ⟨row, member, rfl, rfl⟩

theorem Within.trans (first : rows.Within rows') (second : rows'.Within rows'') :
    rows.Within rows'' := by
  intro row member
  obtain ⟨row', present, keyed, other'⟩ := first row member
  obtain ⟨row'', there, keyed', other''⟩ := second row' present
  exact ⟨row'', there, keyed'.trans keyed, other''.trans other'⟩

end Within

structure Upserted (rows : Unique key other) (row : ρ) (f : ρ → ρ) (written : ρ)
    (rows' : Unique key other) : Prop where
  kept : other written = other row
  mem : ∀ r, r ∈ rows'.table ↔ r = written ∨ r ∈ rows.table ∧ other r ≠ other row
  source : (written = row ∧ ∀ old ∈ rows.table, other old ≠ other row ∧ key old ≠ key row) ∨
    ∃ old ∈ rows.table, other old = other row ∧ written = f old ∧ key written = key old

section Upserted

variable {rows rows' : Unique key other} {row written : ρ} {f : ρ → ρ}

theorem Upserted.within (upserted : Upserted rows row f written rows') : rows.Within rows' := by
  intro r member
  by_cases chosen : other r = other row
  · rcases upserted.source with ⟨_, fresh⟩ | ⟨old, present, same, _, keyed⟩
    · exact absurd chosen (fresh r member).1
    · rw [eq_of_other_eq member present (chosen.trans same.symm)]
      exact ⟨written, (upserted.mem _).mpr (Or.inl rfl), keyed, upserted.kept.trans same.symm⟩
  · exact ⟨r, (upserted.mem r).mpr (Or.inr ⟨member, chosen⟩), rfl, rfl⟩

end Upserted

variable [DecidableEq ι]

def find? (rows : Unique key other) (i : ι) : Option ρ :=
  rows.table.rows.find? fun row => other row = i

theorem find?_eq_some {rows : Unique key other} {i : ι} {row : ρ} (found : rows.find? i = some row) :
    row ∈ rows.table ∧ other row = i :=
  ⟨List.mem_of_find?_eq_some found, by simpa using List.find?_some found⟩

theorem find?_eq_none {rows : Unique key other} {i : ι} :
    rows.find? i = none ↔ ∀ row ∈ rows.table, other row ≠ i := by
  simp [find?, List.find?_eq_none, Table.mem_rows]

/-- `UPDATE ... SET f WHERE other = i`, for an assignment that leaves both keys alone. -/
def assign (rows : Unique key other) (i : ι) (f : ρ → ρ) (keeps : ∀ row, key (f row) = key row)
    (keeps' : ∀ row, other (f row) = other row) : Unique key other where
  table := rows.table.update (fun row => other row = i) f keeps
  unique := by
    have same : (rows.table.update (fun row => other row = i) f keeps).rows.map other =
        rows.table.rows.map other := by
      change (rows.table.rows.map _).map other = _
      rw [List.map_map]
      apply List.map_congr_left
      intro row _
      by_cases chosen : other row = i <;> simp [chosen, keeps']
    rw [same]
    exact rows.unique

variable [DecidableEq κ]

/-- `INSERT` of a row that no constraint forbids. -/
def insert (rows : Unique key other) (row : ρ) : Unique key other :=
  if absent : rows.find? (other row) = none then
    { table := rows.table.insert row
      unique := by
        cases found : rows.table.find? (key row) with
        | some old =>
            rw [Table.insert, dif_neg (by simp [found])]
            exact rows.unique
        | none =>
            rw [Table.insert_rows found, List.map_append, List.nodup_append]
            refine ⟨rows.unique, List.nodup_singleton _, ?_⟩
            intro left member right single
            obtain ⟨old, present, rfl⟩ := List.mem_map.mp member
            rw [List.mem_singleton.mp single]
            exact find?_eq_none.mp absent old present }
  else rows

/-- `INSERT ... ON CONFLICT (other) DO UPDATE SET f RETURNING *`; `none` where the primary key of a
new row is taken. -/
def upsert (rows : Unique key other) (row : ρ) (f : ρ → ρ) (keeps : ∀ row, key (f row) = key row)
    (keeps' : ∀ row, other (f row) = other row) : Option (ρ × Unique key other) :=
  match rows.find? (other row) with
  | some old => some (f old, rows.assign (other row) f keeps keeps')
  | none => if (rows.table.find? (key row)).isSome then none else some (row, rows.insert row)

section Spec

variable {rows rows' : Unique key other} {row written : ρ} {f : ρ → ρ}
variable {keeps : ∀ row, key (f row) = key row} {keeps' : ∀ row, other (f row) = other row}

omit [DecidableEq κ] in
theorem mem_assign {i : ι} {r : ρ} : r ∈ (rows.assign i f keeps keeps').table ↔
    ∃ old ∈ rows.table, (if other old = i then f old else old) = r := by
  change r ∈ rows.table.update (fun row => other row = i) f keeps ↔ _
  simp [Table.mem_update]

theorem upsert_spec (ran : rows.upsert row f keeps keeps' = some (written, rows')) :
    Upserted rows row f written rows' := by
  unfold upsert at ran
  split at ran
  · rename_i old found
    obtain ⟨member, keyed⟩ := find?_eq_some found
    obtain ⟨rfl, rfl⟩ := Prod.mk.inj (Option.some.inj ran)
    refine ⟨(keeps' old).trans keyed, fun r => ?_, Or.inr ⟨old, member, keyed, rfl, keeps old⟩⟩
    rw [mem_assign]
    constructor
    · rintro ⟨from_, present, rfl⟩
      by_cases chosen : other from_ = other row
      · rw [if_pos chosen, eq_of_other_eq present member (chosen.trans keyed.symm)]
        exact Or.inl rfl
      · rw [if_neg chosen]
        exact Or.inr ⟨present, chosen⟩
    · rintro (rfl | ⟨present, apart⟩)
      · exact ⟨old, member, if_pos keyed⟩
      · exact ⟨r, present, if_neg apart⟩
  · rename_i absent
    split at ran
    · cases ran
    · rename_i free
      obtain ⟨rfl, rfl⟩ := Prod.mk.inj (Option.some.inj ran)
      have fresh := find?_eq_none.mp absent
      have unused : rows.table.find? (key row) = none := by simpa using free
      refine ⟨rfl, fun r => ?_, Or.inl ⟨rfl, fun old member =>
        ⟨fresh old member, Table.find?_eq_none.mp unused old member⟩⟩⟩
      rw [insert, dif_pos absent]
      change r ∈ rows.table.insert row ↔ _
      rw [Table.mem_insert]
      constructor
      · rintro (present | ⟨rfl, _⟩)
        · exact Or.inr ⟨present, fresh r present⟩
        · exact Or.inl rfl
      · rintro (rfl | ⟨present, _⟩)
        · exact Or.inr ⟨rfl, unused⟩
        · exact Or.inl present

end Spec

end Unique

end Keyed
