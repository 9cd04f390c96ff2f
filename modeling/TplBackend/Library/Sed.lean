import TplBackend.Library.Text

/-! The replacement of an `s` command of `sed`. -/

namespace Sed

open Text

inductive Part
  | literal (text : Str)
  /-- An `&`: what the expression has matched. -/
  | matched

def Part.text (found : Str) : Part → Str
  | .literal text => text
  | .matched => found

def render (parts : List Part) (found : Str) : Str := parts.flatMap (Part.text found)

def push (part : Part) (parsed : List Part × Str) : List Part × Str := (part :: parsed.1, parsed.2)

/-- What a backslash and a character stand for; `other` are the characters where POSIX leaves it open. -/
def escaped (other : Char → Option Str) (delimiter c : Char) : Option Part :=
  if c = '\\' ∨ c = '&' ∨ c = delimiter then some (.literal [c]) else (other c).map .literal

def replacement (other : Char → Option Str) (delimiter : Char) : Str → Option (List Part × Str)
  | [] => none
  | c :: rest =>
    if c = delimiter then some ([], rest)
    else if c = '\\' then
      match rest with
      | [] => none
      | d :: rest =>
        (escaped other delimiter d).bind fun part => (replacement other delimiter rest).map (push part)
    else (replacement other delimiter rest).map (push (if c = '&' then .matched else .literal [c]))

@[simp] theorem render_cons (part : Part) (parts : List Part) (found : Str) :
    render (part :: parts) found = part.text found ++ render parts found :=
  List.flatMap_cons

theorem map_push_eq_some {part : Part} {read : Option (List Part × Str)} {parts : List Part} {rest : Str}
    (reads : read.map (push part) = some (parts, rest)) :
    ∃ later, read = some (later, rest) ∧ parts = part :: later := by
  obtain ⟨⟨later, left⟩, same, pushed⟩ := Option.map_eq_some_iff.mp reads
  cases pushed
  exact ⟨later, same, rfl⟩

variable {other : Char → Option Str} {delimiter c : Char}

theorem replacement_end (rest : Str) :
    replacement other delimiter (delimiter :: rest) = some ([], rest) := by
  rw [replacement.eq_def]
  exact if_pos rfl

theorem replacement_char (inside : c ≠ delimiter) (plain : c ≠ '\\') (rest : Str) :
    replacement other delimiter (c :: rest) =
      (replacement other delimiter rest).map (push (if c = '&' then .matched else .literal [c])) := by
  rw [replacement.eq_def]
  simp only [if_neg inside, if_neg plain]

theorem replacement_escaped (backslash : delimiter ≠ '\\') (rest : Str) :
    replacement other delimiter ('\\' :: c :: rest) = (escaped other delimiter c).bind fun part =>
      (replacement other delimiter rest).map (push part) := by
  rw [replacement.eq_def]
  simp only [if_neg backslash.symm, if_pos]

theorem replacement_text {front : Str} (plain : ∀ c ∈ front, c ≠ delimiter ∧ c ≠ '\\' ∧ c ≠ '&') (rest : Str) :
    replacement other delimiter (front ++ rest) =
      (replacement other delimiter rest).map fun parsed =>
        (front.map (fun c => .literal [c]) ++ parsed.1, parsed.2) := by
  induction front with
  | nil => exact Option.map_id'.symm
  | cons c front ih =>
      obtain ⟨⟨inside, backslash, ampersand⟩, later⟩ := List.forall_mem_cons.mp plain
      rw [List.cons_append, replacement_char inside backslash, if_neg ampersand, ih later, Option.map_map]
      rfl

theorem render_text (front : Str) (parts : List Part) (found : Str) :
    render (front.map (fun c => .literal [c]) ++ parts) found = front ++ render parts found := by
  induction front with
  | nil => rfl
  | cons c front ih =>
      rw [List.map_cons, List.cons_append, render_cons, ih]
      rfl

end Sed
