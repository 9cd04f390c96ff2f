import TplBackend.Library.DotSegments

/-! Roots that a path stays below, however it climbs on its way. -/

namespace DotSegments

open Text

def segmentsOf (path : Str) : List Str := if path = [] then [] else path.tail.splitOn '/'

/-- How far below its start a walk of these segments ends, `none` where it climbs above it. -/
def descend : Nat → List Str → Option Nat
  | depth, [] => some depth
  | depth, segment :: segments =>
      if segment = dot then descend depth segments
      else if segment = dotDot then
        match depth with
        | 0 => none
        | depth + 1 => descend depth segments
      else descend (depth + 1) segments

/-- The path is written below the root, and the segments behind it never climb above it. Below a deep
root there is something behind it. -/
def Stays (root : List Str) (deep : Bool) (segments : List Str) : Prop :=
  (∀ segment ∈ root, segment ≠ dot ∧ segment ≠ dotDot) ∧ ∃ back, segments = root ++ back ∧
    (descend 0 back).isSome ∧ (deep = true → back ≠ [])

/-- A walk of the path comes to the root in another way, and never climbs above it from there. -/
def Returns (root : List Str) (deep : Bool) (segments : List Str) : Prop :=
  ∃ front back, segments = front ++ back ∧ front ≠ root ∧ front.foldl push [] = root ∧
    (descend 0 back).isSome ∧ (deep = true → back ≠ [])

section Text

variable {path : Str} {root segments : List Str}

theorem join_segmentsOf (rooted : path = [] ∨ ['/'] <+: path) : join (segmentsOf path) = path := by
  rcases rooted with rfl | ⟨rest, rfl⟩
  · rfl
  · exact join_splitOn rest

theorem plain_segmentsOf (path : Str) : Plain (segmentsOf path) := by
  unfold segmentsOf
  split
  · simp [Plain]
  · exact plain_splitOn path.tail

theorem segmentsOf_ne_nil (some_ : path ≠ []) : segmentsOf path ≠ [] := by
  rw [segmentsOf, if_neg some_]
  exact List.splitOn_ne_nil _ _

theorem join_injective {first second : List Str} (plain : Plain first) (plain' : Plain second)
    (same : join first = join second) : first = second := by
  have split := congrArg (List.splitOn '/') same
  rw [splitOn_join plain, splitOn_join plain'] at split
  exact (List.cons.inj split).2

theorem join_slash_prefix_iff (plain : Plain root) (plain' : Plain segments) :
    join root ++ ['/'] <+: join segments ↔ root <+: segments ∧ root ≠ segments := by
  constructor
  · rintro ⟨rest, same⟩
    have behind : join (root ++ rest.splitOn '/') = join segments := by
      rw [join_append, join_splitOn, ← same]
      simp
    have whole : Plain (root ++ rest.splitOn '/') := by
      intro segment member
      rcases List.mem_append.mp member with old | new
      · exact plain segment old
      · exact plain_splitOn rest segment new
    obtain rfl := join_injective whole plain' behind
    refine ⟨List.prefix_append _ _, fun alone => List.splitOn_ne_nil '/' rest ?_⟩
    simpa using alone.symm
  · rintro ⟨⟨back, rfl⟩, other⟩
    have some_ : back ≠ [] := by
      rintro rfl
      exact other (List.append_nil root).symm
    obtain ⟨segment, back, rfl⟩ := List.exists_cons_of_ne_nil some_
    exact ⟨segment ++ join back, by simp [join]⟩

theorem below_join_iff (plain : Plain root) (plain' : Plain segments) :
    join segments = join root ∨ join root ++ ['/'] <+: join segments ↔ root <+: segments := by
  rw [join_slash_prefix_iff plain plain']
  constructor
  · rintro (same | ⟨starts, _⟩)
    · exact join_injective plain' plain same ▸ List.prefix_refl _
    · exact starts
  · intro starts
    by_cases same : root = segments
    · exact Or.inl (by rw [same])
    · exact Or.inr ⟨starts, same⟩

theorem getLast_segmentsOf (rooted : path = [] ∨ ['/'] <+: path) (open_ : ∀ t, path ≠ t ++ ['/']) :
    (segmentsOf path).getLast? ≠ some [] := by
  intro last
  obtain ⟨front, shape⟩ := List.getLast?_eq_some_iff.mp last
  apply open_ (join front)
  rw [← join_segmentsOf rooted, shape, join_append]
  rfl

end Text

section Walk

variable {rest root segments front back : List Str} {depth : Nat}

theorem descend_up (depth : Nat) (segments : List Str) :
    descend (depth + 1) (dotDot :: segments) = descend depth segments := rfl

theorem descend_ordinary {segment : Str} (here : segment ≠ dot) (up : segment ≠ dotDot) (depth : Nat)
    (segments : List Str) : descend depth (segment :: segments) = descend (depth + 1) segments := by
  simp only [descend, if_neg here, if_neg up]

theorem descend_append (depth : Nat) (first second : List Str) :
    descend depth (first ++ second) = (descend depth first).bind fun d => descend d second := by
  induction first generalizing depth with
  | nil => rfl
  | cons segment first ih =>
      rw [List.cons_append]
      by_cases here : segment = dot
      · subst here
        exact ih depth
      by_cases up : segment = dotDot
      · subst up
        cases depth with
        | zero => rfl
        | succ depth => exact ih depth
      · rw [descend_ordinary here up, descend_ordinary here up]
        exact ih (depth + 1)

theorem foldl_push_dotless (dotless : ∀ segment ∈ segments, segment ≠ dot ∧ segment ≠ dotDot)
    (start : List Str) : segments.foldl push start = start ++ segments := by
  induction segments generalizing start with
  | nil => simp
  | cons segment segments ih =>
      obtain ⟨here, up⟩ := dotless segment List.mem_cons_self
      rw [List.foldl_cons, push_ordinary here up,
        ih fun other member => dotless other (List.mem_cons_of_mem _ member)]
      simp

theorem foldl_push_descend (start : List Str) (below : descend rest.length segments = some depth) :
    ∃ rest', rest'.length = depth ∧ segments.foldl push (start ++ rest) = start ++ rest' := by
  induction segments generalizing rest with
  | nil => exact ⟨rest, Option.some.inj below, rfl⟩
  | cons segment segments ih =>
      rw [List.foldl_cons]
      by_cases here : segment = dot
      · subst here
        exact ih below
      by_cases up : segment = dotDot
      · subst up
        rcases List.eq_nil_or_concat' rest with rfl | ⟨front, last, rfl⟩
        · cases below
        · have climbed : push (start ++ (front ++ [last])) dotDot = start ++ front := by
            rw [← List.append_assoc]
            exact List.dropLast_concat
          rw [List.length_append, List.length_singleton, descend_up] at below
          rw [climbed]
          exact ih below
      · rw [descend_ordinary here up] at below
        rw [push_ordinary here up, List.append_assoc]
        apply ih
        rw [List.length_append, List.length_singleton]
        exact below

theorem foldl_push_eq_kept (segments : List Str) : segments.foldl push [] = kept segments := by
  rw [foldl_push, List.take_nil, List.nil_append]

theorem walk_from (passes : front.foldl push [] = root) (below : descend 0 back = some depth) :
    ∃ rest, rest.length = depth ∧ (front ++ back).foldl push [] = root ++ rest := by
  have level : descend ([] : List Str).length back = some depth := below
  obtain ⟨rest, length, walked⟩ := foldl_push_descend root level
  refine ⟨rest, length, ?_⟩
  rw [List.foldl_append, passes, ← walked, List.append_nil]

theorem passes_of_prefix (starts : root <+: segments.foldl push []) :
    ∃ front back, segments = front ++ back ∧ front.foldl push [] = root ∧ (descend 0 back).isSome ∧
      (back = [] → root = [] ∨ closing segments = []) := by
  induction segments using List.reverseRecOn with
  | nil => exact ⟨[], [], rfl, (List.prefix_nil.mp starts).symm, rfl, fun _ => Or.inr rfl⟩
  | append_singleton segments segment ih =>
      rw [List.foldl_append, List.foldl_cons, List.foldl_nil] at starts
      by_cases here : segment = dot
      · have same : push (segments.foldl push []) segment = segments.foldl push [] := if_pos here
        rw [same] at starts
        obtain ⟨front, back, rfl, passes, below, _⟩ := ih starts
        obtain ⟨depth, below⟩ := Option.isSome_iff_exists.mp below
        refine ⟨front, back ++ [segment], by simp, passes, ?_, by simp⟩
        rw [descend_append, below, here]
        rfl
      by_cases up : segment = dotDot
      · have shorter : push (segments.foldl push []) segment = (segments.foldl push []).dropLast := by
          rw [push, if_neg here, if_pos up]
        rw [shorter] at starts
        by_cases top : segments.foldl push [] = []
        · -- at the top a `..` leads nowhere
          rw [top, List.dropLast_nil, List.prefix_nil] at starts
          refine ⟨segments ++ [segment], [], by simp, ?_, rfl, fun _ => Or.inl starts⟩
          rw [List.foldl_append, List.foldl_cons, List.foldl_nil, shorter, top, starts]
          rfl
        · obtain ⟨front, back, rfl, passes, below, _⟩ := ih (starts.trans (List.dropLast_prefix _))
          obtain ⟨depth, below⟩ := Option.isSome_iff_exists.mp below
          obtain ⟨rest, length, walked⟩ := walk_from passes below
          have deeper : 0 < depth := by
            have short := starts.length_le
            have some_ := List.length_pos_iff.mpr top
            rw [walked, List.length_dropLast, List.length_append, length] at short
            rw [walked, List.length_append, length] at some_
            omega
          obtain ⟨depth, rfl⟩ := Nat.exists_eq_succ_of_ne_zero deeper.ne'
          refine ⟨front, back ++ [segment], by simp, passes, ?_, by simp⟩
          rw [descend_append, below, up]
          rfl
      · rw [push_ordinary here up, List.prefix_concat_iff] at starts
        rcases starts with whole | starts
        · refine ⟨segments ++ [segment], [], by simp, ?_, rfl, fun _ => Or.inr ?_⟩
          · rw [List.foldl_append, List.foldl_cons, List.foldl_nil, push_ordinary here up, whole]
          · exact closing_ordinary here up segments
        · obtain ⟨front, back, rfl, passes, below, _⟩ := ih starts
          obtain ⟨depth, below⟩ := Option.isSome_iff_exists.mp below
          refine ⟨front, back ++ [segment], by simp, passes, ?_, by simp⟩
          rw [descend_append, below, Option.bind_some, descend_ordinary here up]
          rfl

theorem closing_eq (ends : closing segments ≠ []) : closing segments = [[]] := by
  unfold closing at ends ⊢
  split
  · rfl
  · next ordinary => exact absurd (if_neg ordinary) ends

theorem closing_of_level (level : descend 0 back = some 0) (some_ : back ≠ []) :
    closing back = [[]] := by
  obtain ⟨init, last, rfl⟩ := (List.eq_nil_or_concat' back).resolve_left some_
  rw [descend_append, Option.bind_eq_some_iff] at level
  obtain ⟨depth, _, ends⟩ := level
  rw [closing, List.getLast?_concat, if_pos]
  by_contra ordinary
  rw [Option.some_inj, Option.some_inj, not_or] at ordinary
  rw [descend_ordinary ordinary.1 ordinary.2] at ends
  exact absurd (Option.some.inj ends) (Nat.succ_ne_zero depth)

theorem stays_or_returns_iff {deep : Bool} : Stays root deep segments ∨ Returns root deep segments ↔
    ∃ front back, segments = front ++ back ∧ front.foldl push [] = root ∧ (descend 0 back).isSome ∧
      (deep = true → back ≠ []) := by
  constructor
  · rintro (⟨dotless, back, split, below⟩ | ⟨front, back, split, _, passes, below⟩)
    · exact ⟨root, back, split, by rw [foldl_push_dotless dotless, List.nil_append], below⟩
    · exact ⟨front, back, split, passes, below⟩
  · rintro ⟨front, back, split, passes, below⟩
    by_cases same : front = root
    · refine Or.inl ⟨fun segment member => ?_, back, by rw [split, same], below⟩
      rw [same, foldl_push_eq_kept] at passes
      rw [← passes] at member
      exact (mem_kept member).2
    · exact Or.inr ⟨front, back, split, same, passes, below⟩

/-- Only a dot segment at the end closes a path, and no root ends in nothing. -/
theorem walked_of_left (named : root.getLast? ≠ some [])
    (starts : root <+: kept segments ++ closing segments) : root <+: segments.foldl push [] := by
  rw [foldl_push_eq_kept]
  by_cases ends : closing segments = []
  · rwa [ends, List.append_nil] at starts
  · rw [closing_eq ends, List.prefix_concat_iff] at starts
    refine starts.resolve_left fun whole => named ?_
    rw [whole, List.getLast?_concat]

theorem left_of_passes (passes : front.foldl push [] = root) (below : descend 0 back = some depth) :
    root <+: kept (front ++ back) ++ closing (front ++ back) ∧
      (back ≠ [] → root ≠ kept (front ++ back) ++ closing (front ++ back)) := by
  obtain ⟨rest, length, walked⟩ := walk_from passes below
  rw [foldl_push_eq_kept] at walked
  rw [walked]
  refine ⟨(List.prefix_append _ _).trans (List.prefix_append _ _), fun some_ same => ?_⟩
  have lengths := congrArg List.length same
  simp only [List.length_append] at lengths
  have level : depth = 0 := by omega
  rw [level] at below
  rw [closing_append front some_, closing_of_level below some_, List.length_singleton] at lengths
  omega

/-- What is left of a path lies below a root exactly where the path stays below it or returns. -/
theorem left_below_iff {deep : Bool} (named : root.getLast? ≠ some [])
    (under : deep = true → root ≠ []) :
    root <+: kept segments ++ closing segments ∧
        (deep = true → root ≠ kept segments ++ closing segments) ↔
      Stays root deep segments ∨ Returns root deep segments := by
  rw [stays_or_returns_iff]
  constructor
  · rintro ⟨starts, other⟩
    obtain ⟨front, back, split, passes, below, ends⟩ := passes_of_prefix (walked_of_left named starts)
    refine ⟨front, back, split, passes, below, fun deep none_ => ?_⟩
    have closed : closing segments = [] := (ends none_).resolve_left (under deep)
    apply other deep
    rw [closed, List.append_nil, ← foldl_push_eq_kept, split, none_, List.append_nil, passes]
  · rintro ⟨front, back, rfl, passes, below, some_⟩
    obtain ⟨depth, below⟩ := Option.isSome_iff_exists.mp below
    exact (left_of_passes passes below).imp_right fun other deep => other (some_ deep)

theorem stays_top (segments : List Str) : Stays [] false segments ∨ Returns [] false segments := by
  rw [← left_below_iff (by simp) (by simp)]
  exact ⟨List.nil_prefix, by simp⟩

end Walk

section Removed

variable {root : Str} {segments : List Str}

theorem removed_below_iff (rooted : root = [] ∨ ['/'] <+: root) (open_ : ∀ t, root ≠ t ++ ['/'])
    (some_ : segments ≠ []) (plain : Plain segments) :
    removeDotSegments (join segments) = root ∨ root ++ ['/'] <+: removeDotSegments (join segments) ↔
      Stays (segmentsOf root) false segments ∨ Returns (segmentsOf root) false segments := by
  have below := below_join_iff (plain_segmentsOf root) (plain_kept plain)
  rw [join_segmentsOf rooted] at below
  rw [removeDotSegments_join some_ plain, below,
    ← left_below_iff (getLast_segmentsOf rooted open_) (by simp)]
  simp

theorem removed_inside_iff (rooted : ['/'] <+: root) (open_ : ∀ t, root ≠ t ++ ['/'])
    (some_ : segments ≠ []) (plain : Plain segments) :
    root ++ ['/'] <+: removeDotSegments (join segments) ↔
      Stays (segmentsOf root) true segments ∨ Returns (segmentsOf root) true segments := by
  have inside := join_slash_prefix_iff (plain_segmentsOf root) (plain_kept plain)
  rw [join_segmentsOf (Or.inr rooted)] at inside
  have named : root ≠ [] := by
    rintro rfl
    exact absurd rooted (by decide)
  rw [removeDotSegments_join some_ plain, inside, ← left_below_iff
    (getLast_segmentsOf (Or.inr rooted) open_) fun _ => segmentsOf_ne_nil named]
  simp

theorem removed_rooted (some_ : segments ≠ []) (plain : Plain segments) :
    ['/'] <+: removeDotSegments (join segments) := by
  obtain ⟨segment, rest, shape⟩ := List.exists_cons_of_ne_nil (kept_closing_ne_nil some_)
  rw [removeDotSegments_join some_ plain, shape]
  exact ⟨segment ++ join rest, rfl⟩

theorem removed_eq_iff {other : List Str} (some_ : segments ≠ []) (plain : Plain segments)
    (some' : other ≠ []) (plain' : Plain other) :
    removeDotSegments (join segments) = removeDotSegments (join other) ↔
      kept segments ++ closing segments = kept other ++ closing other := by
  rw [removeDotSegments_join some_ plain, removeDotSegments_join some' plain']
  exact ⟨join_injective (plain_kept plain) (plain_kept plain'), congrArg join⟩

end Removed

end DotSegments
