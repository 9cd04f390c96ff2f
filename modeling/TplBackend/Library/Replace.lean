import TplBackend.Library.Text

/-! The first occurrence of a text, seen from the parts of the text around it. -/

namespace Text

variable {old new s t : Str} {mark : Char}

theorem replaceFirst_eq_self (free : ¬ old <:+: s) (new : Str) : replaceFirst old new s = s := by
  have some_ : old ≠ [] := by
    rintro rfl
    exact free List.nil_infix
  rcases replaceFirst_cases some_ new s with ⟨_, same⟩ | ⟨front, back, whole, _⟩
  · exact same
  · exact absurd ⟨front, back, whole.symm⟩ free

theorem replaceFirst_eq_self_iff (some_ : old ≠ []) (differs : new.length ≠ old.length) :
    replaceFirst old new s = s ↔ ¬ old <:+: s := by
  refine ⟨fun same inside => ?_, fun free => replaceFirst_eq_self free new⟩
  rcases replaceFirst_cases some_ new s with ⟨free, _⟩ | ⟨front, back, whole, done⟩
  · exact free inside
  · have length := congrArg List.length (done.symm.trans (same.trans whole))
    simp only [List.length_append] at length
    omega

theorem replaceFirst_prefix (new s : Str) (some_ : old ≠ []) : replaceFirst old new (old ++ s) = new ++ s := by
  obtain ⟨c, rest, rfl⟩ := List.exists_cons_of_ne_nil some_
  have starts : c :: rest <+: c :: (rest ++ s) := List.prefix_append (c :: rest) s
  rw [List.cons_append, replaceFirst, if_pos starts]
  exact congrArg (new ++ ·) (List.drop_left : List.drop (c :: rest).length (c :: rest ++ s) = s)

theorem not_mem_replaceFirst (some_ : old ≠ []) (fresh : mark ∉ new) (plain : mark ∉ s) :
    mark ∉ replaceFirst old new s := by
  rcases replaceFirst_cases some_ new s with ⟨_, same⟩ | ⟨front, back, whole, done⟩
  · rwa [same]
  · rw [whole] at plain
    rw [done]
    simp only [List.mem_append, not_or] at plain ⊢
    exact ⟨⟨plain.1.1, fresh⟩, plain.2⟩

section Mark

variable (free : mark ∉ old)

include free

theorem prefix_append_cons : old <+: s ++ mark :: t ↔ old <+: s := by
  refine ⟨fun starts => ?_, fun starts => starts.trans (List.prefix_append _ _)⟩
  by_cases short : old.length ≤ s.length
  · exact List.prefix_of_prefix_length_le starts (List.prefix_append _ _) short
  · have longer : s ++ [mark] <+: old := by
      have whole : s ++ [mark] <+: s ++ mark :: t := ⟨t, by simp⟩
      refine List.prefix_of_prefix_length_le whole starts ?_
      rw [List.length_append, List.length_singleton]
      exact Nat.lt_of_not_le short
    exact absurd (longer.subset (by simp)) free

theorem infix_append_cons (some_ : old ≠ []) : old <:+: s ++ mark :: t ↔ old <:+: s ∨ old <:+: t := by
  induction s with
  | nil =>
      have apart : ¬ old <+: mark :: t := fun starts => by
        obtain ⟨c, rest, rfl⟩ := List.exists_cons_of_ne_nil some_
        exact free ((List.cons_prefix_cons.mp starts).1 ▸ List.mem_cons_self)
      simp [List.infix_cons_iff, apart, some_]
  | cons c s ih =>
      rw [List.cons_append, List.infix_cons_iff, List.infix_cons_iff, ih, ← List.cons_append,
        prefix_append_cons free, or_assoc]

theorem replaceFirst_left (some_ : old ≠ []) (inside : old <:+: s) :
    replaceFirst old new (s ++ mark :: t) = replaceFirst old new s ++ mark :: t := by
  induction s with
  | nil => exact absurd (List.eq_nil_of_infix_nil inside) some_
  | cons c s ih =>
      rw [List.cons_append, replaceFirst, replaceFirst, ← List.cons_append]
      by_cases here : old <+: c :: s
      · rw [if_pos here, if_pos ((prefix_append_cons free).mpr here),
          List.drop_append_of_le_length here.length_le, List.append_assoc]
      · rw [if_neg here, if_neg fun starts => here ((prefix_append_cons free).mp starts),
          ih ((List.infix_cons_iff.mp inside).resolve_left here), List.cons_append]

theorem replaceFirst_right (some_ : old ≠ []) (outside : ¬ old <:+: s) :
    replaceFirst old new (s ++ mark :: t) = s ++ mark :: replaceFirst old new t := by
  induction s with
  | nil =>
      have apart : ¬ old <+: [] ++ mark :: t := fun starts =>
        some_ (List.prefix_nil.mp ((prefix_append_cons free).mp starts))
      exact if_neg apart
  | cons c s ih =>
      rw [List.infix_cons_iff, not_or] at outside
      have apart : ¬ old <+: c :: s ++ mark :: t := fun starts =>
        outside.1 ((prefix_append_cons free).mp starts)
      rw [List.cons_append, replaceFirst, ← List.cons_append, if_neg apart, ih outside.2, List.cons_append]

theorem before_replaceFirst (some_ : old ≠ []) (fresh : mark ∉ new) (s : Str) :
    before mark (replaceFirst old new s) = replaceFirst old new (before mark s) := by
  by_cases member : mark ∈ s
  · have whole := before_append_after member
    have first (t rest : Str) (plain : mark ∉ t) : before mark (t ++ mark :: rest) = t := by
      rw [before_append_of_not_mem plain]
      simp [before]
    by_cases inside : old <:+: before mark s
    · conv_lhs => rw [← whole, replaceFirst_left free some_ inside]
      exact first _ _ (not_mem_replaceFirst some_ fresh not_mem_before)
    · conv_lhs => rw [← whole, replaceFirst_right free some_ inside]
      rw [first _ _ not_mem_before, replaceFirst_eq_self inside]
  · rw [before_eq_self (not_mem_replaceFirst some_ fresh member), before_eq_self member]

theorem after_replaceFirst (some_ : old ≠ []) (outside : ¬ old <:+: before mark s) :
    after mark (replaceFirst old new s) = replaceFirst old new (after mark s) := by
  by_cases member : mark ∈ s
  · conv_lhs => rw [← before_append_after member, replaceFirst_right free some_ outside]
    exact after_append_of_not_mem not_mem_before
  · rw [before_eq_self member] at outside
    rw [replaceFirst_eq_self outside, after_of_not_mem member]
    exact (if_neg some_).symm

end Mark

section Filter

variable {keep : Char → Bool}

theorem before_filter (kept : keep mark = true) (s : Str) : before mark (s.filter keep) = (before mark s).filter keep := by
  induction s with
  | nil => rfl
  | cons c s ih =>
      by_cases same : c = mark
      · simp [before, same, kept]
      · by_cases held : keep c = true
        · simpa [before, same, held] using ih
        · simpa [before, same, held] using ih

theorem after_filter (kept : keep mark = true) (s : Str) : after mark (s.filter keep) = (after mark s).filter keep := by
  induction s with
  | nil => rfl
  | cons c s ih =>
      by_cases same : c = mark
      · simp [after, same, kept]
      · by_cases held : keep c = true
        · simpa [after, List.dropWhile_cons, same, held] using ih
        · simpa [after, List.dropWhile_cons, same, held] using ih

theorem splitOn_filter (kept : keep mark = true) (s : Str) :
    (s.filter keep).splitOn mark = (s.splitOn mark).map (List.filter keep) := by
  induction s with
  | nil => rfl
  | cons c s ih =>
      obtain ⟨piece, pieces, shape⟩ := List.exists_cons_of_ne_nil (List.splitOn_ne_nil mark s)
      by_cases same : c = mark
      · simp [List.splitOn_cons_eq_if_modifyHead, same, kept, ih]
      · by_cases held : keep c = true
        · simp [List.splitOn_cons_eq_if_modifyHead, same, held, ih, shape]
        · simp [List.splitOn_cons_eq_if_modifyHead, same, held, ih, shape]

theorem infix_filter (kept : ∀ c ∈ old, keep c = true) (inside : old <:+: s) : old <:+: s.filter keep := by
  obtain ⟨front, back, rfl⟩ := inside
  rw [List.filter_append, List.filter_append, List.filter_eq_self.mpr kept]
  exact ⟨_, _, rfl⟩

end Filter

theorem not_mem_of_mem_splitOn {piece : Str} (member : piece ∈ s.splitOn mark) : mark ∉ piece := by
  induction s generalizing piece with
  | nil =>
      rw [List.splitOn_nil, List.mem_singleton] at member
      rw [member]
      exact List.not_mem_nil
  | cons c s ih =>
      obtain ⟨first, pieces, shape⟩ := List.exists_cons_of_ne_nil (List.splitOn_ne_nil mark s)
      rw [shape] at ih
      rw [List.splitOn_cons_eq_if_modifyHead, shape] at member
      split at member
      · rcases List.mem_cons.mp member with rfl | later
        · exact List.not_mem_nil
        · exact ih later
      · rename_i other
        rcases List.mem_cons.mp member with rfl | later
        · rw [List.mem_cons, not_or]
          exact ⟨fun same => other (beq_iff_eq.mpr same.symm), ih List.mem_cons_self⟩
        · exact ih (List.mem_cons_of_mem _ later)

theorem replaceFirst_intercalate (free : mark ∉ old) (some_ : old ≠ []) (new : Str) (pieces : List Str) :
    (∀ piece ∈ pieces, ¬ old <:+: piece) ∧ ¬ old <:+: [mark].intercalate pieces ∨
      ∃ front piece back, pieces = front ++ piece :: back ∧
        (∀ other ∈ front, ¬ old <:+: other) ∧ old <:+: piece ∧
          replaceFirst old new ([mark].intercalate pieces) =
            [mark].intercalate (front ++ replaceFirst old new piece :: back) := by
  induction pieces with
  | nil => exact .inl ⟨fun _ => nofun, by simpa using some_⟩
  | cons piece pieces ih =>
      cases pieces with
      | nil =>
          by_cases inside : old <:+: piece
          · exact .inr ⟨[], piece, [], rfl, fun _ => nofun, inside, by simp⟩
          · exact .inl ⟨by simpa using inside, by simpa using inside⟩
      | cons next pieces =>
          have joined : [mark].intercalate (piece :: next :: pieces) =
              piece ++ mark :: [mark].intercalate (next :: pieces) := by
            rw [List.intercalate_cons_cons, List.append_assoc, List.singleton_append]
          rw [joined]
          by_cases inside : old <:+: piece
          · refine .inr ⟨[], piece, next :: pieces, rfl, fun _ => nofun, inside, ?_⟩
            rw [replaceFirst_left free some_ inside, List.nil_append, List.intercalate_cons_cons,
              List.append_assoc, List.singleton_append]
          rcases ih with ⟨each, whole⟩ | ⟨front, changed, back, shape, none_, holds, done⟩
          · refine .inl ⟨List.forall_mem_cons.mpr ⟨inside, each⟩, ?_⟩
            rw [infix_append_cons free some_]
            exact not_or.mpr ⟨inside, whole⟩
          · refine .inr ⟨piece :: front, changed, back, by rw [shape]; rfl,
              List.forall_mem_cons.mpr ⟨inside, none_⟩, holds, ?_⟩
            rw [replaceFirst_right free some_ inside, done, List.cons_append,
              List.intercalate_cons_of_ne_nil (by simp), List.append_assoc, List.singleton_append]

theorem splitOn_replaceFirst (free : mark ∉ old) (fresh : mark ∉ new) (some_ : old ≠ []) (s : Str) :
    (∀ piece ∈ s.splitOn mark, ¬ old <:+: piece) ∧ ¬ old <:+: s ∨
      ∃ front piece back, s.splitOn mark = front ++ piece :: back ∧
        (∀ other ∈ front, ¬ old <:+: other) ∧ old <:+: piece ∧
          (replaceFirst old new s).splitOn mark = front ++ replaceFirst old new piece :: back := by
  have pieces := replaceFirst_intercalate free some_ new (s.splitOn mark)
  rw [List.intercalate_splitOn] at pieces
  refine pieces.imp_right fun ⟨front, piece, back, shape, none_, holds, done⟩ =>
    ⟨front, piece, back, shape, none_, holds, ?_⟩
  rw [done, List.splitOn_intercalate mark (fun other member => ?_) (by simp)]
  have plain : ∀ other ∈ front ++ piece :: back, mark ∉ other := fun other member =>
    not_mem_of_mem_splitOn (shape ▸ member)
  rcases List.mem_append.mp member with early | later
  · exact plain other (List.mem_append_left _ early)
  rcases List.mem_cons.mp later with rfl | late
  · exact not_mem_replaceFirst some_ fresh (plain piece (by simp))
  · exact plain other (by simp [late])

end Text
