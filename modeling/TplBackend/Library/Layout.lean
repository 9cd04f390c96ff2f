import Mathlib.Algebra.Order.Ring.Nat
import TplBackend.Library.Text

namespace Text

def digit (n : Nat) : Char := Char.ofNat (48 + n % 10)

def pad : Nat → Nat → Str
  | 0, _ => []
  | width + 1, n => pad width (n / 10) ++ [digit n]

def number (text : Str) : Nat := text.foldl (fun n c => 10 * n + (c.toNat - 48)) 0

structure Field where
  lead : Str
  width : Nat

def Field.read (field : Field) (text : Str) : Option (Nat × Str) :=
  let digits := (text.drop field.lead.length).take field.width
  if field.lead <+: text ∧ digits.length = field.width ∧ digits.all isDigit then
    some (number digits, text.drop (field.lead.length + field.width))
  else none

def render : List Field → List Nat → Str
  | field :: fields, n :: values => field.lead ++ pad field.width n ++ render fields values
  | _, _ => []

def scan : List Field → Str → Option (List Nat)
  | [], [] => some []
  | [], _ :: _ => none
  | field :: fields, text =>
      (field.read text).bind fun found => (scan fields found.2).map (found.1 :: ·)

def Fit (fields : List Field) (values : List Nat) : Prop :=
  List.Forall₂ (fun field n => n < 10 ^ field.width) fields values

theorem digit_lt_iff {m n : Nat} (left : m < 10) (right : n < 10) : digit m < digit n ↔ m < n := by
  have table : ∀ i j : Fin 10, digit i < digit j ↔ (i : Nat) < j := by decide
  exact table ⟨m, left⟩ ⟨n, right⟩

theorem digit_mod (n : Nat) : digit (n % 10) = digit n := by simp [digit]

theorem toNat_digit (n : Nat) : (digit n).toNat - 48 = n % 10 := by
  have table : ∀ i : Fin 10, (digit i).toNat - 48 = i := by decide
  rw [← digit_mod]
  exact table ⟨n % 10, Nat.mod_lt n (by omega)⟩

theorem isDigit_digit (n : Nat) : isDigit (digit n) = true := by
  have table : ∀ i : Fin 10, isDigit (digit i) = true := by decide
  rw [← digit_mod]
  exact table ⟨n % 10, Nat.mod_lt n (by omega)⟩

@[simp] theorem length_pad (width n : Nat) : (pad width n).length = width := by
  induction width generalizing n with
  | zero => rfl
  | succ width ih => simp [pad, ih]

theorem isDigit_of_mem_pad {width n : Nat} {c : Char} (member : c ∈ pad width n) :
    isDigit c = true := by
  induction width generalizing n with
  | zero => simp [pad] at member
  | succ width ih =>
      rcases List.mem_append.mp member with earlier | last
      · exact ih earlier
      · rw [List.mem_singleton.mp last]
        exact isDigit_digit n

theorem number_pad (width n : Nat) : number (pad width n) = n % 10 ^ width := by
  induction width generalizing n with
  | zero => simp [pad, number, Nat.mod_one]
  | succ width ih =>
      have split : number (pad width (n / 10) ++ [digit n]) =
          10 * number (pad width (n / 10)) + ((digit n).toNat - 48) := by
        simp [number]
      rw [pad, split, ih, toNat_digit, pow_succ, Nat.mul_comm (10 ^ width), Nat.mod_mul]
      omega

theorem append_lt_append_iff {α : Type*} [LT α] {front front' back back' : List α}
    (same : front.length = front'.length) :
    front ++ back < front' ++ back' ↔ front < front' ∨ front = front' ∧ back < back' := by
  induction front generalizing front' with
  | nil =>
      obtain rfl := List.length_eq_zero_iff.mp same.symm
      simp
  | cons head front ih =>
      obtain ⟨head', front', rfl⟩ := List.exists_cons_of_length_eq_add_one same.symm
      simp only [List.cons_append, List.cons_lt_cons_iff, List.cons.injEq, and_assoc,
        ih (by simpa using same)]
      tauto

theorem pad_inj {width m n : Nat} (left : m < 10 ^ width) (right : n < 10 ^ width) :
    pad width m = pad width n ↔ m = n := by
  refine ⟨fun same => ?_, fun same => by rw [same]⟩
  have values := congrArg number same
  rwa [number_pad, number_pad, Nat.mod_eq_of_lt left, Nat.mod_eq_of_lt right] at values

theorem pad_lt_iff {width m n : Nat} (left : m < 10 ^ width) (right : n < 10 ^ width) :
    pad width m < pad width n ↔ m < n := by
  induction width generalizing m n with
  | zero =>
      simp only [pow_zero, Nat.lt_one_iff] at left right
      simp [left, right]
  | succ width ih =>
      rw [pow_succ] at left right
      have tens : m / 10 < 10 ^ width := by omega
      have tens' : n / 10 < 10 ^ width := by omega
      have last : [digit m] < [digit n] ↔ m % 10 < n % 10 := by
        rw [List.cons_lt_cons_iff, ← digit_mod m, ← digit_mod n,
          digit_lt_iff (Nat.mod_lt _ (by omega)) (Nat.mod_lt _ (by omega))]
        simp
      rw [pad, pad, append_lt_append_iff (by simp), ih tens tens', pad_inj tens tens', last]
      omega

theorem render_lt_iff {fields : List Field} {values values' : List Nat}
    (first : Fit fields values) (second : Fit fields values') :
    render fields values < render fields values' ↔ values < values' := by
  induction first generalizing values' with
  | nil => cases second; simp [render]
  | @cons field n fields values small _ ih =>
      cases second with
      | @cons _ m _ values' small' rest =>
          have lead : field.lead ++ pad field.width n < field.lead ++ pad field.width m ↔ n < m := by
            rw [append_lt_append_iff rfl, pad_lt_iff small small']
            simp
          rw [render, render, append_lt_append_iff (by simp), lead, List.append_cancel_left_eq,
            pad_inj small small', ih rest, List.cons_lt_cons_iff]

theorem Field.read_pad (field : Field) {n : Nat} (small : n < 10 ^ field.width) (rest : Str) :
    field.read (field.lead ++ pad field.width n ++ rest) = some (n, rest) := by
  have digits : (pad field.width n).all isDigit = true :=
    List.all_eq_true.mpr fun c member => isDigit_of_mem_pad member
  have whole : ((field.lead ++ (pad field.width n ++ rest)).drop field.lead.length).take
      field.width = pad field.width n := by
    rw [List.drop_left, List.take_left' (length_pad _ _)]
  have last : (field.lead ++ (pad field.width n ++ rest)).drop
      (field.lead.length + field.width) = rest := by
    rw [← List.drop_drop, List.drop_left, List.drop_left' (length_pad _ _)]
  rw [Field.read, List.append_assoc, whole, last, number_pad, Nat.mod_eq_of_lt small,
    if_pos ⟨List.prefix_append _ _, length_pad _ _, digits⟩]

theorem scan_render {fields : List Field} {values : List Nat} (fit : Fit fields values) :
    scan fields (render fields values) = some values := by
  induction fit with
  | nil => rfl
  | cons small _ ih =>
      rw [scan, render, Field.read_pad _ small, Option.bind_some, ih, Option.map_some]

end Text
