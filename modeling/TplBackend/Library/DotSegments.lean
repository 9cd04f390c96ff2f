import TplBackend.Library.Text

namespace DotSegments

open Text

/-- The segment `.` of the place where one is. -/
def dot : Str := ['.']

/-- The segment `..` of the place above. -/
def dotDot : Str := ['.', '.']

/-- `remove_dot_segments` of RFC 3986, section 5.2.4, for at most `fuel` turns of its loop. -/
def loop : Nat → Str → Str → Str
  | 0, _, output => output
  | fuel + 1, input, output =>
      if input = [] then output
      -- 2A
      else if dotDot ++ ['/'] <+: input then loop fuel (input.drop 3) output
      else if dot ++ ['/'] <+: input then loop fuel (input.drop 2) output
      -- 2B
      else if '/' :: dot ++ ['/'] <+: input then loop fuel (input.drop 2) output
      else if input = '/' :: dot then loop fuel ['/'] output
      -- 2C
      else if '/' :: dotDot ++ ['/'] <+: input then loop fuel (input.drop 3) (beforeLast '/' output)
      else if input = '/' :: dotDot then loop fuel ['/'] (beforeLast '/' output)
      -- 2D
      else if input = dot ∨ input = dotDot then output
      -- 2E
      else loop fuel ((input.drop 1).dropWhile (· != '/'))
        (output ++ (input.take 1 ++ before '/' (input.drop 1)))

/-- Every turn takes a character at least off the input. -/
def removeDotSegments (path : Str) : Str := loop path.length path []

def join (segments : List Str) : Str := segments.flatMap fun segment => '/' :: segment

def Plain (segments : List Str) : Prop := ∀ segment ∈ segments, '/' ∉ segment

theorem join_splitOn (s : Str) : join (s.splitOn '/') = '/' :: s := by
  induction s with
  | nil => rfl
  | cons c s ih =>
      rw [List.splitOn_cons_eq_if_modifyHead]
      split
      · rename_i mark
        rw [beq_iff_eq] at mark
        rw [join, List.flatMap_cons, ← join, ih, mark]
        rfl
      · cases split_ : s.splitOn '/' with
        | nil => exact absurd split_ (List.splitOn_ne_nil _ _)
        | cons segment segments =>
            rw [split_, join, List.flatMap_cons] at ih
            simpa [join] using ih

theorem plain_splitOn (s : Str) : Plain (s.splitOn '/') := by
  induction s with
  | nil => simp [Plain]
  | cons c s ih =>
      rw [List.splitOn_cons_eq_if_modifyHead]
      split
      · simpa [Plain] using ih
      · rename_i mark
        cases split_ : s.splitOn '/' with
        | nil => simp [Plain]
        | cons segment segments =>
            rw [split_] at ih
            simp only [Plain, List.mem_cons, forall_eq_or_imp] at ih
            simp only [List.modifyHead_cons, Plain, List.mem_cons, forall_eq_or_imp, not_or]
            exact ⟨⟨fun same => mark (by simp [← same]), ih.1⟩, ih.2⟩

theorem mem_of_mem_splitOn {s segment : Str} (member : segment ∈ s.splitOn '/') {c : Char}
    (inside : c ∈ segment) : c ∈ s := by
  have joined : c ∈ join (s.splitOn '/') :=
    List.mem_flatMap.mpr ⟨segment, member, List.mem_cons_of_mem _ inside⟩
  rw [join_splitOn, List.mem_cons] at joined
  refine joined.resolve_left ?_
  rintro rfl
  exact plain_splitOn s segment member inside

section Turns

variable {segment word output : Str} {segments : List Str} {fuel : Nat}

theorem prefix_join_iff (plain : '/' ∉ segment) (word_ : '/' ∉ word) :
    '/' :: word ++ ['/'] <+: join (segment :: segments) ↔ segment = word ∧ segments ≠ [] := by
  constructor
  · rintro ⟨rest, same⟩
    rw [join, List.flatMap_cons, List.cons_append, List.cons_append, List.cons_append,
      List.cons.injEq, List.append_assoc, List.singleton_append] at same
    cases segments with
    | nil =>
        refine absurd ?_ plain
        have spelled := same.2
        rw [List.flatMap_nil, List.append_nil] at spelled
        rw [← spelled]
        simp
    | cons next segments =>
        rw [List.flatMap_cons, List.cons_append] at same
        exact ⟨(split_at_first word_ plain same.2).1.symm, List.cons_ne_nil _ _⟩
  · rintro ⟨rfl, more⟩
    cases segments with
    | nil => exact absurd rfl more
    | cons next segments => exact ⟨next ++ join segments, by simp [join]⟩

theorem not_prefix_join (word : Str) (start : word.head? ≠ some '/') (some_ : word ≠ []) :
    ¬ word <+: join (segment :: segments) := by
  cases word with
  | nil => exact absurd rfl some_
  | cons c word => exact fun starts => start (by simp [(List.cons_prefix_cons.mp starts).1])

theorem join_eq_iff (plain : '/' ∉ word) :
    join (segment :: segments) = '/' :: word ↔ segment = word ∧ segments = [] := by
  constructor
  · intro same
    rw [join, List.flatMap_cons, List.cons_append, List.cons.injEq] at same
    cases segments with
    | nil => exact ⟨by simpa using same.2, rfl⟩
    | cons next segments =>
        refine absurd ?_ plain
        rw [← same.2]
        simp
  · rintro ⟨rfl, rfl⟩
    simp [join]

theorem beforeLast_join (stack : List Str) (plain : Plain stack) :
    beforeLast '/' (join stack) = join stack.dropLast := by
  induction stack using List.reverseRecOn with
  | nil => rfl
  | append_singleton stack segment =>
      have free : '/' ∉ segment := plain segment (by simp)
      have kept : (join (stack ++ [segment])).rdropWhile (· != '/') = join stack ++ ['/'] := by
        rw [join, List.flatMap_append, ← join, List.flatMap_singleton, List.rdropWhile,
          List.reverse_append, List.reverse_cons, List.append_assoc,
          List.dropWhile_append_of_pos, List.singleton_append, List.dropWhile_cons_of_neg]
        · simp
        · simp
        · intro c member
          exact bne_iff_ne.mpr fun same => free (same ▸ List.mem_reverse.mp member)
      rw [beforeLast, kept, List.dropLast_concat, List.dropLast_concat]

theorem loop_nil (fuel : Nat) (output : Str) : loop fuel [] output = output := by
  cases fuel <;> simp [loop]

theorem rest_join (segments : List Str) (plain : '/' ∉ segment) :
    before '/' (segment ++ join segments) = segment ∧
      (segment ++ join segments).dropWhile (· != '/') = join segments := by
  have skipped : ∀ c ∈ segment, (c != '/') = true := fun c member =>
    bne_iff_ne.mpr fun same => plain (same ▸ member)
  rw [before, List.takeWhile_append_of_pos skipped, List.dropWhile_append_of_pos skipped]
  cases segments with
  | nil => simp [join]
  | cons next segments => simp [join]

theorem loop_ordinary (plain : '/' ∉ segment) (here : segment ≠ dot) (up : segment ≠ dotDot) :
    loop (fuel + 1) (join (segment :: segments)) output =
      loop fuel (join segments) (output ++ '/' :: segment) := by
  have first : join (segment :: segments) = '/' :: (segment ++ join segments) := rfl
  have marks : '/' ∉ dot ∧ '/' ∉ dotDot := by decide
  have apart (word : Str) (start : word.head? ≠ some '/') (some_ : word ≠ []) :
      join (segment :: segments) ≠ word := by
    intro same
    have starts : word <+: join (segment :: segments) := same ▸ List.prefix_refl word
    exact not_prefix_join word start some_ starts
  obtain ⟨taken, left⟩ := rest_join segments plain
  rw [loop, if_neg (by simp [first]), if_neg (not_prefix_join _ (by decide) (by decide)),
    if_neg (not_prefix_join _ (by decide) (by decide)),
    if_neg fun starts => here ((prefix_join_iff plain marks.1).mp starts).1,
    if_neg fun same => here ((join_eq_iff marks.1).mp same).1,
    if_neg fun starts => up ((prefix_join_iff plain marks.2).mp starts).1,
    if_neg fun same => up ((join_eq_iff marks.2).mp same).1,
    if_neg (by
      rintro (same | same)
      · exact apart dot (by decide) (by decide) same
      · exact apart dotDot (by decide) (by decide) same)]
  rw [first, List.drop_one, List.tail_cons, taken, left]
  rfl

theorem loop_dot (output : Str) : loop (fuel + 1) (join (dot :: segments)) output =
    if segments = [] then loop fuel ['/'] output else loop fuel (join segments) output := by
  have marks : '/' ∉ dot ∧ '/' ∉ dotDot := by decide
  have first : join (dot :: segments) = '/' :: '.' :: join segments := rfl
  rw [loop, if_neg (by simp [first]), if_neg (not_prefix_join _ (by decide) (by decide)),
    if_neg (not_prefix_join _ (by decide) (by decide))]
  by_cases last : segments = []
  · rw [if_neg fun starts => ((prefix_join_iff marks.1 marks.1).mp starts).2 last,
      if_pos ((join_eq_iff marks.1).mpr ⟨rfl, last⟩), if_pos last]
  · rw [if_pos ((prefix_join_iff marks.1 marks.1).mpr ⟨rfl, last⟩), if_neg last, first]
    rfl

theorem loop_dotDot (output : Str) : loop (fuel + 1) (join (dotDot :: segments)) output =
    if segments = [] then loop fuel ['/'] (beforeLast '/' output)
    else loop fuel (join segments) (beforeLast '/' output) := by
  have marks : '/' ∉ dot ∧ '/' ∉ dotDot := by decide
  have first : join (dotDot :: segments) = '/' :: '.' :: '.' :: join segments := rfl
  have other : dotDot ≠ dot := by decide
  rw [loop, if_neg (by simp [first]), if_neg (not_prefix_join _ (by decide) (by decide)),
    if_neg (not_prefix_join _ (by decide) (by decide)),
    if_neg fun starts => other ((prefix_join_iff marks.2 marks.1).mp starts).1,
    if_neg fun same => other ((join_eq_iff marks.1).mp same).1]
  by_cases last : segments = []
  · rw [if_neg fun starts => ((prefix_join_iff marks.2 marks.2).mp starts).2 last,
      if_pos ((join_eq_iff marks.2).mpr ⟨rfl, last⟩), if_pos last]
  · rw [if_pos ((prefix_join_iff marks.2 marks.2).mpr ⟨rfl, last⟩), if_neg last, first]
    rfl

end Turns

section Walk

def push (stack : List Str) (segment : Str) : List Str :=
  if segment = dot then stack else if segment = dotDot then stack.dropLast else stack ++ [segment]

/-- A path that ends in a dot segment ends in a slash once this is removed. -/
def closing (segments : List Str) : List Str :=
  if segments.getLast? = some dot ∨ segments.getLast? = some dotDot then [[]] else []

variable {stack segments : List Str} {segment : Str}

theorem plain_push (plain : Plain stack) (free : '/' ∉ segment) : Plain (push stack segment) := by
  unfold push
  split
  · exact plain
  split
  · exact fun other member => plain other (List.dropLast_subset _ member)
  · intro other member
    rcases List.mem_append.mp member with old | new
    · exact plain other old
    · rw [List.mem_singleton.mp new]
      exact free

theorem closing_cons (more : segments ≠ []) : closing (segment :: segments) = closing segments := by
  rw [closing, closing, List.getLast?_cons, List.getLast?_eq_some_getLast more]
  rfl

/-- The loop walks the segments of an absolute path. -/
theorem loop_join {segments : List Str} (stack : List Str) (fuel : Nat) (some_ : segments ≠ [])
    (plain : Plain segments) (plainStack : Plain stack) (enough : (join segments).length ≤ fuel) :
    loop fuel (join segments) (join stack) = join (segments.foldl push stack ++ closing segments) := by
  induction segments generalizing stack fuel with
  | nil => exact absurd rfl some_
  | cons segment segments ih =>
      have free : '/' ∉ segment := plain segment List.mem_cons_self
      have plainRest : Plain segments := fun other member => plain other (List.mem_cons_of_mem _ member)
      have size : (join (segment :: segments)).length = segment.length + 1 + (join segments).length := by
        rw [join, List.flatMap_cons, List.length_append, List.length_cons, ← join]
      obtain ⟨fuel, rfl⟩ : ∃ smaller, fuel = smaller + 1 := ⟨fuel - 1, by omega⟩
      have step := plain_push plainStack free
      have slash (rest : List Str) (some_ : 1 ≤ fuel) : loop fuel ['/'] (join rest) =
          join (rest ++ [[]]) := by
        obtain ⟨fuel, rfl⟩ : ∃ smaller, fuel = smaller + 1 := ⟨fuel - 1, by omega⟩
        rw [show ['/'] = join [[]] from rfl, loop_ordinary (by simp) (by decide) (by decide),
          show join [] = [] from rfl, loop_nil]
        simp [join]
      rw [List.foldl_cons]
      by_cases here : segment = dot
      · subst here
        have pushed : push stack dot = stack := if_pos rfl
        rw [loop_dot, pushed]
        by_cases last : segments = []
        · subst last
          rw [if_pos rfl, slash stack (by simp [dot, join] at size enough; omega)]
          rfl
        · rw [if_neg last, closing_cons last,
            ih _ fuel last plainRest plainStack (by omega)]
      by_cases up : segment = dotDot
      · subst up
        have pushed : push stack dotDot = stack.dropLast := rfl
        rw [loop_dotDot, beforeLast_join stack plainStack, ← pushed]
        by_cases last : segments = []
        · subst last
          rw [if_pos rfl, slash _ (by simp [dotDot, join] at size enough; omega)]
          rfl
        · rw [if_neg last, closing_cons last, ih _ fuel last plainRest step (by omega)]
      · have pushed : push stack segment = stack ++ [segment] := by
          rw [push, if_neg here, if_neg up]
        have output : join stack ++ '/' :: segment = join (push stack segment) := by
          rw [pushed]
          simp [join]
        rw [loop_ordinary free here up, output]
        by_cases last : segments = []
        · subst last
          rw [show join [] = [] from rfl, loop_nil]
          simp [closing, here, up]
        · rw [closing_cons last, ih _ fuel last plainRest step (by omega)]

end Walk

section Kept

/-- How far above its start a path of these segments leads at its lowest, seen from its end. -/
def climbs : List Str → Nat
  | [] => 0
  | segment :: segments =>
      if segment = dot then climbs segments
      else if segment = dotDot then climbs segments + 1
      else climbs segments - 1

def kept : List Str → List Str
  | [] => []
  | segment :: segments =>
      if segment = dot ∨ segment = dotDot ∨ 0 < climbs segments then kept segments
      else segment :: kept segments

theorem foldl_push (segments stack : List Str) : segments.foldl push stack =
    stack.take (stack.length - climbs segments) ++ kept segments := by
  induction segments generalizing stack with
  | nil => simp [climbs, kept]
  | cons segment segments ih =>
      rw [List.foldl_cons, ih, push, climbs, kept]
      by_cases here : segment = dot
      · simp [here]
      by_cases up : segment = dotDot
      · rw [if_neg here, if_pos up, if_neg here, if_pos up, if_pos (Or.inr (Or.inl up)),
          List.length_dropLast, List.dropLast_eq_take, List.take_take]
        congr 2
        omega
      · rw [if_neg here, if_neg up, if_neg here, if_neg up]
        by_cases below : 0 < climbs segments
        · rw [if_pos (Or.inr (Or.inr below)), List.take_append_of_le_length (by simp; omega)]
          congr 2
          simp
          omega
        · have level : climbs segments = 0 := by omega
          rw [if_neg (by simp [here, up, below]), level, List.take_of_length_le (by simp)]
          simp

theorem kept_closing_ne_nil {segments : List Str} (some_ : segments ≠ []) :
    kept segments ++ closing segments ≠ [] := by
  induction segments with
  | nil => exact absurd rfl some_
  | cons segment segments ih =>
      by_cases last : segments = []
      · subst last
        by_cases dots : segment = dot ∨ segment = dotDot
        · simp [closing, dots]
        · rw [not_or] at dots
          simp [kept, climbs, dots]
      · rw [closing_cons last, kept]
        split
        · exact ih last
        · simp

end Kept

section Swap

variable {pre post segments : List Str} {segment : Str}

theorem join_append (segments rest : List Str) : join (segments ++ rest) = join segments ++ join rest :=
  List.flatMap_append

theorem splitOn_join (plain : Plain segments) : (join segments).splitOn '/' = [] :: segments := by
  have whole : join segments = ['/'].intercalate ([] :: segments) := by
    induction segments with
    | nil => rfl
    | cons segment segments ih =>
        rw [join, List.flatMap_cons, ← join,
          ih fun other member => plain other (List.mem_cons_of_mem _ member)]
        cases segments <;> simp [List.intercalate]
  rw [whole, List.splitOn_intercalate]
  · intro part member
    rcases List.mem_cons.mp member with rfl | listed
    · exact List.not_mem_nil
    · exact plain part listed
  · exact List.cons_ne_nil _ _

theorem removeDotSegments_join (some_ : segments ≠ []) (plain : Plain segments) :
    removeDotSegments (join segments) = join (kept segments ++ closing segments) := by
  have walked := loop_join [] (join segments).length some_ plain (by simp [Plain]) (Nat.le_refl _)
  rw [foldl_push, List.take_nil, List.nil_append] at walked
  exact walked

theorem kept_append (pre post : List Str) (segment : Str) : kept (pre ++ segment :: post) =
    (push (kept pre) segment).take ((push (kept pre) segment).length - climbs post) ++ kept post := by
  have whole := foldl_push (pre ++ segment :: post) []
  have front := foldl_push pre []
  rw [List.take_nil, List.nil_append] at whole front
  rw [← whole, List.foldl_append, front, List.foldl_cons, foldl_push]

theorem mem_kept {other : Str} (member : other ∈ kept segments) :
    other ∈ segments ∧ other ≠ dot ∧ other ≠ dotDot := by
  induction segments with
  | nil => cases member
  | cons segment segments ih =>
      rw [kept] at member
      split at member
      · exact (ih member).imp_left (List.mem_cons_of_mem _)
      · rename_i ordinary
        rw [not_or, not_or] at ordinary
        rcases List.mem_cons.mp member with rfl | later
        · exact ⟨List.mem_cons_self, ordinary.1, ordinary.2.1⟩
        · exact (ih later).imp_left (List.mem_cons_of_mem _)

theorem mem_closing {other : Str} (member : other ∈ closing segments) : other = [] := by
  unfold closing at member
  split at member
  · exact List.mem_singleton.mp member
  · cases member

theorem plain_kept (plain : Plain segments) : Plain (kept segments ++ closing segments) := by
  intro other member
  rcases List.mem_append.mp member with stays | last
  · exact plain other (mem_kept stays).1
  · rw [mem_closing last]
    exact List.not_mem_nil

theorem closing_append (pre : List Str) (some_ : segments ≠ []) :
    closing (pre ++ segments) = closing segments := by
  rw [closing, closing, List.getLast?_append_of_ne_nil _ some_]

theorem length_push_le {stack : List Str} (dots : segment = dot ∨ segment = dotDot) :
    (push stack segment).length ≤ stack.length := by
  rcases dots with rfl | rfl
  · exact Nat.le_refl _
  · exact List.length_dropLast ▸ Nat.sub_le _ _

theorem push_ordinary {stack : List Str} (here : segment ≠ dot) (up : segment ≠ dotDot) :
    push stack segment = stack ++ [segment] := by
  rw [push, if_neg here, if_neg up]

theorem closing_ordinary (here : segment ≠ dot) (up : segment ≠ dotDot) (pre : List Str) :
    closing (pre ++ [segment]) = [] := by
  rw [closing, List.getLast?_concat, if_neg]
  simp [here, up]

theorem map_fixed {f : Str → Str} (fixed : ∀ other ∈ segments, f other = other) :
    segments.map f = segments :=
  (List.map_congr_left fixed).trans (List.map_id _)

theorem left_ordinary (here : segment ≠ dot) (up : segment ≠ dotDot) :
    kept (pre ++ segment :: post) ++ closing (pre ++ segment :: post) =
      (kept pre ++ [segment]).take ((kept pre).length + 1 - climbs post) ++
        (kept post ++ closing post) := by
  have ends : closing (pre ++ segment :: post) = closing post := by
    by_cases last : post = []
    · rw [last, closing_ordinary here up]
      rfl
    · rw [closing_append pre (List.cons_ne_nil _ _), closing_cons last]
  rw [kept_append, push_ordinary here up, List.length_append, ends, List.append_assoc]
  rfl

/-- Another text in one segment changes that segment of the path that is left and nothing else, unless
the new text is a dot segment that the path is walked past. -/
theorem kept_swap_iff {f : Str → Str} (fixed : ∀ other ∈ pre ++ post, f other = other)
    (empty : f [] = []) (here : segment ≠ dot) (up : segment ≠ dotDot) :
    kept (pre ++ f segment :: post) ++ closing (pre ++ f segment :: post) =
        (kept (pre ++ segment :: post) ++ closing (pre ++ segment :: post)).map f ↔
      (f segment ≠ dot ∧ f segment ≠ dotDot) ∨ (kept pre).length < climbs post := by
  have front : (kept pre).map f = kept pre := map_fixed fun other member =>
    fixed other (List.mem_append_left _ (mem_kept member).1)
  have back : (kept post ++ closing post).map f = kept post ++ closing post := by
    refine map_fixed fun other member => ?_
    rcases List.mem_append.mp member with stays | last
    · exact fixed other (List.mem_append_right _ (mem_kept stays).1)
    · rw [mem_closing last, empty]
  have mapped : (kept (pre ++ segment :: post) ++ closing (pre ++ segment :: post)).map f =
      (kept pre ++ [f segment]).take ((kept pre).length + 1 - climbs post) ++
        (kept post ++ closing post) := by
    rw [left_ordinary here up, List.map_append, back, List.map_take, List.map_append, front,
      List.map_singleton]
  rw [mapped]
  by_cases dots : f segment = dot ∨ f segment = dotDot
  · rw [or_iff_right (by tauto)]
    by_cases last : climbs post = 0
    · refine iff_of_false (fun same => ?_) (by omega)
      -- the dot segment would be left of the path
      have left : f segment ∈ kept (pre ++ f segment :: post) ++
          closing (pre ++ f segment :: post) := by
        rw [same, last, Nat.sub_zero, List.take_of_length_le (by simp)]
        simp
      rcases List.mem_append.mp left with stays | ends
      · exact dots.elim (mem_kept stays).2.1 (mem_kept stays).2.2
      · rw [mem_closing ends] at dots
        exact absurd dots (by decide)
    · have some_ : post ≠ [] := fun none_ => last (by rw [none_]; rfl)
      have short : (push (kept pre) (f segment)).length ≤ (kept pre).length := length_push_le dots
      rw [kept_append, List.append_assoc, closing_append pre (List.cons_ne_nil _ _), closing_cons some_, List.append_left_inj]
      constructor
      · intro same
        have lengths := congrArg List.length same
        simp only [List.length_take, List.length_append, List.length_singleton] at lengths
        omega
      · intro past
        rw [show (push (kept pre) (f segment)).length - climbs post = 0 by omega,
          show (kept pre).length + 1 - climbs post = 0 by omega, List.take_zero, List.take_zero]
  · rw [not_or] at dots
    exact iff_of_true (left_ordinary dots.1 dots.2) (Or.inl dots)

end Swap

end DotSegments
