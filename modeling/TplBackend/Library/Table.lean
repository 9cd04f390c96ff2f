import Mathlib.Data.List.Nodup
import Mathlib.Data.List.Sort

namespace Keyed

/-- The rows of a table whose primary key is read off each row by `key`. -/
structure Table {ρ κ : Type} (key : ρ → κ) where
  rows : List ρ
  nodup : (rows.map key).Nodup

namespace Table

variable {ρ κ : Type} {key : ρ → κ}

def empty : Table key := ⟨[], List.nodup_nil⟩

instance : Membership ρ (Table key) := ⟨fun table row => row ∈ table.rows⟩

theorem mem_rows (table : Table key) (row : ρ) : row ∈ table ↔ row ∈ table.rows := Iff.rfl

@[simp] theorem empty_rows : (empty : Table key).rows = [] := rfl

@[simp] theorem not_mem_empty (row : ρ) : row ∉ (empty : Table key) := by
  simp [mem_rows]

theorem ext_rows {first second : Table key} (same : first.rows = second.rows) : first = second := by
  cases first
  cases second
  cases same
  rfl

theorem eq_of_key_eq {table : Table key} {first second : ρ} (left : first ∈ table)
    (right : second ∈ table) (same : key first = key second) : first = second :=
  List.inj_on_of_nodup_map table.nodup left right same

/-- `UPDATE ... SET f WHERE p`, for an assignment that leaves the primary key alone. -/
def update (table : Table key) (p : ρ → Bool) (f : ρ → ρ) (keeps : ∀ row, key (f row) = key row) :
    Table key where
  rows := table.rows.map fun row => if p row then f row else row
  nodup := by
    have same : (table.rows.map fun row => if p row then f row else row).map key =
        table.rows.map key := by
      rw [List.map_map]
      apply List.map_congr_left
      intro row _
      by_cases chosen : p row <;> simp [chosen, keeps]
    rw [same]
    exact table.nodup

theorem mem_update {table : Table key} {p : ρ → Bool} {f : ρ → ρ}
    {keeps : ∀ row, key (f row) = key row} {row : ρ} :
    row ∈ table.update p f keeps ↔ ∃ old ∈ table, (if p old then f old else old) = row :=
  List.mem_map

theorem update_eq_self {table : Table key} {p : ρ → Bool} {f : ρ → ρ}
    {keeps : ∀ row, key (f row) = key row} (idle : ∀ row ∈ table, p row = true → f row = row) :
    table.update p f keeps = table := by
  apply ext_rows
  conv_rhs => rw [← List.map_id table.rows]
  apply List.map_congr_left
  intro row member
  by_cases chosen : p row
  · simpa [chosen] using idle row member chosen
  · simp [chosen]

def filter (table : Table key) (q : ρ → Bool) : Table key where
  rows := table.rows.filter q
  nodup := table.nodup.sublist (List.filter_sublist.map key)

theorem mem_filter {table : Table key} {q : ρ → Bool} {row : ρ} :
    row ∈ table.filter q ↔ row ∈ table ∧ q row = true := List.mem_filter

theorem filter_congr {table : Table key} {q q' : ρ → Bool} (same : ∀ row ∈ table, q row = q' row) :
    table.filter q = table.filter q' := ext_rows (List.filter_congr same)

theorem filter_filter (table : Table key) (q q' : ρ → Bool) :
    (table.filter q).filter q' = table.filter fun row => q row && q' row := by
  apply ext_rows
  change (table.rows.filter q).filter q' = _
  rw [List.filter_filter]
  exact List.filter_congr fun row _ => Bool.and_comm _ _

theorem filter_update {table : Table key} {p q : ρ → Bool} {f : ρ → ρ}
    {keeps : ∀ row, key (f row) = key row} (aside : ∀ row ∈ table, p row = true → q (f row) = q row) :
    (table.update p f keeps).filter q = (table.filter q).update p f keeps := by
  apply ext_rows
  change (table.rows.map _).filter q = (table.rows.filter q).map _
  rw [List.filter_map]
  congr 1
  apply List.filter_congr
  intro row member
  by_cases chosen : p row = true
  · simp [chosen, aside row member chosen]
  · simp [chosen]

theorem filter_update_of_not {table : Table key} {p q : ρ → Bool} {f : ρ → ρ}
    {keeps : ∀ row, key (f row) = key row}
    (outside : ∀ row ∈ table, p row = true → q row = false ∧ q (f row) = false) :
    (table.update p f keeps).filter q = table.filter q := by
  rw [filter_update fun row member chosen => by
    rw [(outside row member chosen).1, (outside row member chosen).2]]
  refine update_eq_self fun row member chosen => ?_
  obtain ⟨present, kept⟩ := mem_filter.mp member
  rw [(outside row present chosen).1] at kept
  cases kept

theorem any_filter {table : Table key} {p q : ρ → Bool}
    (inside : ∀ row ∈ table, p row = true → q row = true) :
    (table.filter q).rows.any p = table.rows.any p := by
  rw [Bool.eq_iff_iff, List.any_eq_true, List.any_eq_true]
  constructor
  · rintro ⟨row, member, chosen⟩
    exact ⟨row, (mem_filter.mp member).1, chosen⟩
  · rintro ⟨row, member, chosen⟩
    exact ⟨row, mem_filter.mpr ⟨member, inside row member chosen⟩, chosen⟩

theorem select_filter {table : Table key} {p q : ρ → Bool}
    (inside : ∀ row ∈ table, p row = true → q row = true) :
    (table.filter q).rows.filter p = table.rows.filter p := by
  change (table.rows.filter q).filter p = _
  rw [List.filter_filter]
  apply List.filter_congr
  intro row member
  by_cases chosen : p row = true
  · simp [chosen, inside row member chosen]
  · simp [chosen]

theorem first_filter {table : Table key} {p q : ρ → Bool}
    (inside : ∀ row ∈ table, p row = true → q row = true) :
    (table.filter q).rows.find? p = table.rows.find? p := by
  rw [← List.head?_filter, ← List.head?_filter, select_filter inside]

section DecidableKey

variable [DecidableEq κ]

def find? (table : Table key) (k : κ) : Option ρ := table.rows.find? fun row => key row = k

/-- `INSERT ... ON CONFLICT (key) DO NOTHING`. -/
def insert (table : Table key) (row : ρ) : Table key :=
  if absent : table.find? (key row) = none then
    { rows := table.rows ++ [row]
      nodup := by
        have fresh : ∀ old ∈ table.rows, key old ≠ key row := by
          intro old member
          simpa using List.find?_eq_none.mp absent old member
        rw [List.map_append, List.nodup_append]
        refine ⟨table.nodup, List.nodup_singleton _, ?_⟩
        intro left member right single
        obtain ⟨old, present, rfl⟩ := List.mem_map.mp member
        rw [List.mem_singleton.mp single]
        exact fresh old present }
  else table

/-- `INSERT ... ON CONFLICT (key) DO UPDATE SET f`. -/
def upsert (table : Table key) (row : ρ) (f : ρ → ρ) (keeps : ∀ row, key (f row) = key row) :
    Table key :=
  if (table.find? (key row)).isSome then table.update (fun old => key old = key row) f keeps
  else table.insert row

@[simp] theorem find?_empty (k : κ) : (empty : Table key).find? k = none := rfl

theorem find?_eq_some {table : Table key} {k : κ} {row : ρ} :
    table.find? k = some row ↔ row ∈ table ∧ key row = k := by
  constructor
  · intro found
    exact ⟨List.mem_of_find?_eq_some found, by simpa using List.find?_some found⟩
  · rintro ⟨member, rfl⟩
    cases found : table.find? (key row) with
    | none => simpa using List.find?_eq_none.mp found row member
    | some other =>
        have keyed : key other = key row := by simpa using List.find?_some found
        rw [eq_of_key_eq (List.mem_of_find?_eq_some found) member keyed]

theorem find?_eq_none {table : Table key} {k : κ} :
    table.find? k = none ↔ ∀ row ∈ table, key row ≠ k := by
  simp [find?, List.find?_eq_none, mem_rows]

theorem find?_of_mem {table : Table key} {row : ρ} (member : row ∈ table) :
    table.find? (key row) = some row := find?_eq_some.mpr ⟨member, rfl⟩

theorem find?_update (table : Table key) (p : ρ → Bool) (f : ρ → ρ)
    (keeps : ∀ row, key (f row) = key row) (k : κ) :
    (table.update p f keeps).find? k =
      (table.find? k).map fun row => if p row then f row else row := by
  change (table.rows.map fun row => if p row then f row else row).find? (fun row => key row = k) =
    (table.rows.find? fun row => key row = k).map fun row => if p row then f row else row
  induction table.rows with
  | nil => rfl
  | cons row rows ih =>
      have same : key (if p row then f row else row) = key row := by
        by_cases chosen : p row <;> simp [chosen, keeps]
      by_cases found : key row = k <;> simp [same, found, ih]

theorem find?_insert (table : Table key) (row : ρ) (k : κ) :
    (table.insert row).find? k =
      if key row = k then some ((table.find? k).getD row) else table.find? k := by
  unfold insert
  by_cases absent : table.find? (key row) = none
  · rw [dif_pos absent]
    by_cases same : key row = k
    · subst same
      have missing : table.rows.find? (fun old => key old = key row) = none := absent
      simp [find?, List.find?_append, missing]
    · simp [find?, List.find?_append, same]
  · rw [dif_neg absent]
    by_cases same : key row = k
    · subst same
      obtain ⟨old, found⟩ := Option.ne_none_iff_exists'.mp absent
      simp [found]
    · simp [same]

theorem find?_upsert (table : Table key) (row : ρ) (f : ρ → ρ)
    (keeps : ∀ row, key (f row) = key row) (k : κ) :
    (table.upsert row f keeps).find? k =
      if key row = k then some (((table.find? k).map f).getD row) else table.find? k := by
  unfold upsert
  cases found : table.find? (key row) with
  | none =>
      rw [if_neg (by simp), find?_insert]
      by_cases same : key row = k
      · subst same
        simp [found]
      · simp [same]
  | some old =>
      rw [if_pos (by simp), find?_update]
      by_cases same : key row = k
      · subst same
        have keyed : key old = key row := (find?_eq_some.mp found).2
        simp [found, keyed]
      · rw [if_neg same]
        cases other : table.find? k with
        | none => rfl
        | some found =>
            have keyed : key found = k := (find?_eq_some.mp other).2
            simp [keyed, Ne.symm same]

theorem filter_key_length_le (table : Table key) (k : κ) :
    (table.rows.filter fun row => key row = k).length ≤ 1 := by
  have keyed : ∀ row ∈ table.rows.filter fun row => key row = k, row ∈ table ∧ key row = k := by
    intro row member
    simpa [mem_rows] using member
  have distinct := (List.Nodup.of_map key table.nodup).filter fun row => decide (key row = k)
  match rows : table.rows.filter fun row => key row = k with
  | [] => exact Nat.zero_le 1
  | [_] => exact le_rfl
  | first :: second :: rest =>
      rw [rows] at keyed distinct
      obtain ⟨left, here⟩ := keyed first (by simp)
      obtain ⟨right, there⟩ := keyed second (by simp)
      rw [eq_of_key_eq left right (here.trans there.symm)] at distinct
      simp at distinct

theorem insert_rows {table : Table key} {row : ρ} (absent : table.find? (key row) = none) :
    (table.insert row).rows = table.rows ++ [row] := by
  rw [insert, dif_pos absent]

theorem mem_insert {table : Table key} {row new : ρ} :
    row ∈ table.insert new ↔ row ∈ table ∨ (row = new ∧ table.find? (key new) = none) := by
  unfold insert
  by_cases absent : table.find? (key new) = none
  · rw [dif_pos absent]
    simp [mem_rows, absent]
  · rw [dif_neg absent]
    simp [absent]

theorem find?_filter (table : Table key) (q : ρ → Bool) (k : κ) :
    (table.filter q).find? k = (table.find? k).filter q := by
  cases found : table.find? k with
  | none =>
      rw [Option.filter_none, find?_eq_none]
      exact fun row member => find?_eq_none.mp found row (mem_filter.mp member).1
  | some row =>
      obtain ⟨member, keyed⟩ := find?_eq_some.mp found
      by_cases kept : q row = true
      · rw [Option.filter_some, if_pos kept, find?_eq_some]
        exact ⟨mem_filter.mpr ⟨member, kept⟩, keyed⟩
      · rw [Option.filter_some, if_neg kept, find?_eq_none]
        intro other present same
        obtain ⟨stored, passes⟩ := mem_filter.mp present
        rw [eq_of_key_eq stored member (same.trans keyed.symm)] at passes
        exact kept passes

theorem filter_insert {table : Table key} {row : ρ} {q : ρ → Bool} (inside : q row = true)
    (aside : ∀ old, table.find? (key row) = some old → q old = true) :
    (table.insert row).filter q = (table.filter q).insert row := by
  apply ext_rows
  cases found : table.find? (key row) with
  | none =>
      have absent : (table.filter q).find? (key row) = none := by rw [find?_filter, found]; rfl
      rw [insert_rows absent]
      change (table.insert row).rows.filter q = table.rows.filter q ++ [row]
      rw [insert_rows found, List.filter_append]
      simp [inside]
  | some old =>
      have present : (table.filter q).find? (key row) = some old := by
        rw [find?_filter, found, Option.filter_some, if_pos (aside old found)]
      rw [insert, insert, dif_neg (by simp [found]), dif_neg (by simp [present])]

theorem filter_insert_of_not {table : Table key} {row : ρ} {q : ρ → Bool} (outside : q row = false) :
    (table.insert row).filter q = table.filter q := by
  apply ext_rows
  cases found : table.find? (key row) with
  | none =>
      change (table.insert row).rows.filter q = table.rows.filter q
      rw [insert_rows found, List.filter_append]
      simp [outside]
  | some old => rw [insert, dif_neg (by simp [found])]

theorem filter_upsert (table : Table key) (row : ρ) (f : ρ → ρ) (q : ρ → Bool)
    (keeps : ∀ row, key (f row) = key row) (inside : q row = true)
    (aside : ∀ old ∈ table, key old = key row → q old = true ∧ q (f old) = true) :
    (table.upsert row f keeps).filter q = (table.filter q).upsert row f keeps := by
  unfold upsert
  cases found : table.find? (key row) with
  | none =>
      rw [find?_filter, found, if_neg (by simp), if_neg (by simp)]
      exact filter_insert inside fun old present => by rw [found] at present; cases present
  | some old =>
      obtain ⟨member, keyed⟩ := find?_eq_some.mp found
      rw [find?_filter, found, Option.filter_some, if_pos (aside old member keyed).1, if_pos (by simp),
        if_pos (by simp)]
      refine filter_update fun other present chosen => ?_
      obtain ⟨before, after⟩ := aside other present (by simpa using chosen)
      rw [before, after]

theorem filter_upsert_of_not (table : Table key) (row : ρ) (f : ρ → ρ) (q : ρ → Bool)
    (keeps : ∀ row, key (f row) = key row) (outside : q row = false)
    (aside : ∀ old ∈ table, key old = key row → q old = false ∧ q (f old) = false) :
    (table.upsert row f keeps).filter q = table.filter q := by
  unfold upsert
  split
  · exact filter_update_of_not fun other present chosen => aside other present (by simpa using chosen)
  · exact filter_insert_of_not outside

end DecidableKey

end Table

end Keyed
