import TplBackend.Library.Text

/-! Texts as lines that each end with a line feed. -/

namespace Text

def unlines (lines : List Str) : Str := lines.flatMap fun line => line ++ ['\n']

/-- The lines of a text, and what follows its last line feed. -/
def splitLines : Str → List Str × Str
  | [] => ([], [])
  | c :: rest =>
      if c = '\n' then ([] :: (splitLines rest).1, (splitLines rest).2)
      else match splitLines rest with
        | ([], last) => ([], c :: last)
        | (line :: lines, last) => ((c :: line) :: lines, last)

@[simp] theorem unlines_nil : unlines [] = [] := rfl

@[simp] theorem unlines_cons (line : Str) (lines : List Str) :
    unlines (line :: lines) = line ++ '\n' :: unlines lines := by
  simp [unlines]

@[simp] theorem unlines_append (lines more : List Str) :
    unlines (lines ++ more) = unlines lines ++ unlines more := by
  simp [unlines]

theorem intercalate_eq_unlines {lines : List Str} (some_ : lines ≠ []) :
    ['\n'].intercalate lines ++ ['\n'] = unlines lines := by
  induction lines with
  | nil => exact absurd rfl some_
  | cons line lines ih =>
      cases lines with
      | nil => simp
      | cons next lines =>
          rw [List.intercalate_cons_cons, List.append_assoc, ih (List.cons_ne_nil _ _), unlines_cons]
          simp

theorem splitLines_newline (rest : Str) :
    splitLines ('\n' :: rest) = ([] :: (splitLines rest).1, (splitLines rest).2) := by
  rw [splitLines, if_pos rfl]

theorem splitLines_last {last : Str} (plain : '\n' ∉ last) : splitLines last = ([], last) := by
  induction last with
  | nil => rfl
  | cons c last ih =>
      rw [List.mem_cons, not_or] at plain
      rw [splitLines, if_neg (Ne.symm plain.1), ih plain.2]

theorem splitLines_line {line : Str} (plain : '\n' ∉ line) (rest : Str) :
    splitLines (line ++ '\n' :: rest) = (line :: (splitLines rest).1, (splitLines rest).2) := by
  induction line with
  | nil => exact splitLines_newline rest
  | cons c line ih =>
      rw [List.mem_cons, not_or] at plain
      rw [List.cons_append, splitLines, if_neg (Ne.symm plain.1), ih plain.2]

theorem splitLines_unlines {lines : List Str} (plain : ∀ line ∈ lines, '\n' ∉ line) {last : Str}
    (unended : '\n' ∉ last) : splitLines (unlines lines ++ last) = (lines, last) := by
  induction lines with
  | nil => exact splitLines_last unended
  | cons line lines ih =>
      rw [unlines_cons, List.append_assoc, List.cons_append,
        splitLines_line (plain line List.mem_cons_self),
        ih fun other member => plain other (List.mem_cons_of_mem _ member)]

theorem unlines_splitLines (text : Str) :
    unlines (splitLines text).1 ++ (splitLines text).2 = text := by
  induction text with
  | nil => rfl
  | cons c rest ih =>
      rw [splitLines]
      split
      · rename_i same
        rw [same, unlines_cons, List.nil_append, List.cons_append, ih]
      · split
        · rename_i last split_
          rw [split_] at ih
          simpa using ih
        · rename_i line lines last split_
          rw [split_] at ih
          simpa using ih

theorem splitLines_plain (text : Str) :
    (∀ line ∈ (splitLines text).1, '\n' ∉ line) ∧ '\n' ∉ (splitLines text).2 := by
  induction text with
  | nil => simp [splitLines]
  | cons c rest ih =>
      rw [splitLines]
      split
      · exact ⟨List.forall_mem_cons.mpr ⟨List.not_mem_nil, ih.1⟩, ih.2⟩
      · rename_i other
        split
        · rename_i last split_
          rw [split_] at ih
          exact ⟨ih.1, by simpa [Ne.symm other] using ih.2⟩
        · rename_i line lines last split_
          rw [split_] at ih
          obtain ⟨first, later⟩ := List.forall_mem_cons.mp ih.1
          exact ⟨List.forall_mem_cons.mpr ⟨by simpa [Ne.symm other] using first, later⟩, ih.2⟩

/-- The lines of a file, the last of which may lack its line feed. -/
def fileLines (text : Str) : List Str :=
  (splitLines text).1 ++ if (splitLines text).2 = [] then [] else [(splitLines text).2]

theorem fileLines_plain {text line : Str} (member : line ∈ fileLines text) : '\n' ∉ line := by
  obtain ⟨lines, last⟩ := splitLines_plain text
  rw [fileLines] at member
  split at member
  · exact lines line (by simpa using member)
  · rcases List.mem_append.mp member with inner | final
    · exact lines line inner
    · rw [List.mem_singleton.mp final]
      exact last

theorem fileLines_unlines {lines : List Str} (plain : ∀ line ∈ lines, '\n' ∉ line) :
    fileLines (unlines lines) = lines := by
  have split : splitLines (unlines lines ++ []) = (lines, []) := splitLines_unlines plain List.not_mem_nil
  rw [List.append_nil] at split
  rw [fileLines, split, if_pos rfl, List.append_nil]

theorem fileLines_append {line : Str} (plain : '\n' ∉ line) (text : Str) :
    fileLines (text ++ '\n' :: (line ++ ['\n'])) = fileLines text ++ [line] ∨
      fileLines (text ++ '\n' :: (line ++ ['\n'])) = fileLines text ++ [[], line] := by
  obtain ⟨inner, last⟩ := splitLines_plain text
  have whole : text ++ '\n' :: (line ++ ['\n']) =
      unlines ((splitLines text).1 ++ [(splitLines text).2, line]) := by
    conv_lhs => rw [← unlines_splitLines text]
    simp
  rw [whole, fileLines_unlines (List.forall_mem_append.mpr ⟨inner, by simp [last, plain]⟩), fileLines]
  by_cases ended : (splitLines text).2 = []
  · exact .inr (by simp [ended])
  · exact .inl (by simp [ended])

end Text
