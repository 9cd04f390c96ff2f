import TplBackend.CrossApp.Links
import TplBackend.Library.DotSegments

namespace TplBackend.CrossApp

open DotSegments JsonText Percent Raise Text Url

/-- Once both paths are walked, the second one has the segments of the first, with `t` for the
slot. -/
def PageKept (path path' t : Str) : Prop :=
  (removeDotSegments path').splitOn '/' =
    ((removeDotSegments path).splitOn '/').map (replace refSlot t)

section Slot

variable {U : Platform} {template scheme netloc front back fill : Str}

theorem path_filled (free : '?' ∉ front ∧ '#' ∉ front) (plain : '?' ∉ fill ∧ '#' ∉ fill) :
    before '?' (before '#' (front ++ (fill ++ back))) =
      front ++ (fill ++ before '?' (before '#' back)) := by
  rw [before_append_of_not_mem free.2, before_append_of_not_mem plain.2,
    before_append_of_not_mem free.1, before_append_of_not_mem plain.1]

theorem refSlot_unmarked : '?' ∉ refSlot ∧ '#' ∉ refSlot ∧ '/' ∉ refSlot := by decide

theorem quote_unmarked (ref : Str) :
    '?' ∉ quote none_ ref ∧ '#' ∉ quote none_ ref ∧ '/' ∉ quote none_ ref := by
  refine ⟨?_, ?_, ?_⟩ <;> intro member <;>
    exact absurd (quote_chars member) (by decide)

theorem Slotted.front_free (slotted : Slotted U template scheme netloc front back)
    (inPath : refSlot <:+: before '?' (before '#' (front ++ (refSlot ++ back)))) :
    '?' ∉ front ∧ '#' ∉ front := by
  refine ⟨fun member => ?_, slotted.hash.1⟩
  rw [before_append_of_not_mem slotted.hash.1, before_append_of_mem member] at inPath
  have brace : '\x7b' ∈ before '?' front := inPath.subset (by decide)
  have outside := slotted.free.1
  simp only [List.mem_append, List.mem_cons, not_or] at outside
  exact outside.2.2.2.2.2 ((prefix_before _ _).subset brace)

theorem segments_around {rest tail : Str} (free : '\x7b' ∉ rest) (free' : '\x7b' ∉ tail) :
    ∃ pre left right post,
      (∀ other ∈ pre ++ left :: right :: post, '/' ∉ other ∧ '\x7b' ∉ other) ∧
      ∀ fill, '/' :: rest ++ (fill ++ tail) = join (pre ++ (left ++ (fill ++ right)) :: post) := by
  obtain ⟨pre, left, ahead⟩ := 
    (List.eq_nil_or_concat' (rest.splitOn '/')).resolve_left (List.splitOn_ne_nil '/' rest)
  obtain ⟨right, post, behind⟩ := List.exists_cons_of_ne_nil (List.splitOn_ne_nil '/' tail)
  have lead : '/' :: rest = join pre ++ '/' :: left := by
    rw [← join_splitOn, ahead, join_append]
    simp [join]
  have trail : tail = right ++ join post := by
    have whole := join_splitOn tail
    rw [behind, join, List.flatMap_cons, List.cons_append, List.cons.injEq] at whole
    exact whole.2.symm
  refine ⟨pre, left, right, post, fun other member => ?_, fun fill => ?_⟩
  · have listed : other ∈ rest.splitOn '/' ∨ other ∈ tail.splitOn '/' := by
      rw [ahead, behind]
      simp only [List.mem_append, List.mem_cons] at member ⊢
      tauto
    rcases listed with mine | mine
    · exact ⟨plain_splitOn rest other mine, fun brace => free (mem_of_mem_splitOn mine brace)⟩
    · exact ⟨plain_splitOn tail other mine, fun brace => free' (mem_of_mem_splitOn mine brace)⟩
  · rw [lead, trail, join_append]
    simp [join]

end Slot

section Page

variable {U : Platform} {text : Str} {field : String} {sources : List (Str × Source)}
  {name template : Str} {source : Source} {parts : SplitResult}

theorem pageKept_iff {front back t : Str} (rooted : ∃ rest, front = '/' :: rest)
    (free : '\x7b' ∉ front ∧ '\x7b' ∉ back) (slash : '/' ∉ t) :
    ∃ pre left right post,
      front ++ (refSlot ++ back) = join (pre ++ (left ++ (refSlot ++ right)) :: post) ∧
      (∀ other ∈ pre ++ left :: right :: post, '/' ∉ other ∧ '\x7b' ∉ other) ∧
      (PageKept (front ++ (refSlot ++ back)) (front ++ (t ++ back)) t ↔
        (left ++ (t ++ right) ≠ dot ∧ left ++ (t ++ right) ≠ dotDot) ∨
          (kept pre).length < climbs post) := by
  obtain ⟨rest, rfl⟩ := rooted
  rw [List.mem_cons, not_or] at free
  obtain ⟨pre, left, right, post, plain, around⟩ := segments_around free.1.2 free.2
  refine ⟨pre, left, right, post, around refSlot, plain, ?_⟩
  have clear_ {other : Str} (member : other ∈ pre ++ left :: right :: post) := plain other member
  have ends := clear_ (List.mem_append_right _ List.mem_cons_self : left ∈ _)
  have starts := clear_ (List.mem_append_right _ (List.mem_cons_of_mem _ List.mem_cons_self) : right ∈ _)
  have around_ (other : Str) (member : other ∈ pre ++ post) :
      other ∈ pre ++ left :: right :: post := by
    simp only [List.mem_append, List.mem_cons] at member ⊢
    tauto
  have flat (fill : Str) (slash : '/' ∉ fill) : Plain (pre ++ (left ++ (fill ++ right)) :: post) := by
    intro other member
    rcases List.mem_append.mp member with mine | mine
    · exact (plain other (List.mem_append_left _ mine)).1
    rcases List.mem_cons.mp mine with rfl | mine
    · simp [ends.1, starts.1, slash]
    · exact (plain other (List.mem_append_right _ (by simp [mine]))).1
  have filled_ : replace refSlot t (left ++ (refSlot ++ right)) = left ++ (t ++ right) := by
    rw [← List.append_assoc, refSlot, replace_one ends.2 starts.2, List.append_assoc]
  have fixed (other : Str) (member : other ∈ pre ++ post) : replace refSlot t other = other :=
    replace_eq_self (not_infix_of_not_mem (plain other (around_ other member)).2)
  have braced : '\x7b' ∈ left ++ (refSlot ++ right) := by simp [refSlot]
  have here : left ++ (refSlot ++ right) ≠ dot := fun same => by simp [same, dot] at braced
  have up : left ++ (refSlot ++ right) ≠ dotDot := fun same => by simp [same, dotDot] at braced
  have swap := kept_swap_iff fixed rfl here up
  rw [filled_] at swap
  rw [PageKept, around, around, removeDotSegments_join (by simp) (flat t slash),
    removeDotSegments_join (by simp) (flat refSlot refSlot_unmarked.2.2),
    splitOn_join (plain_kept (flat t slash)),
    splitOn_join (plain_kept (flat refSlot refSlot_unmarked.2.2)), List.map_cons]
  rw [show replace refSlot t [] = [] from rfl, List.cons_inj_right]
  exact swap

theorem mem_of_mem_path {url : Str} (split : urlsplit U url = some parts) {c : Char}
    (member : c ∈ parts.path) : c ∈ url := by
  obtain ⟨rfl, _⟩ := urlsplit_eq_some.mp split
  have rest := (prefix_before _ _).subset ((prefix_before _ _).subset member)
  have inside := mem_splitScheme (mem_splitNetloc (List.mem_append_right _ rest))
  exact (List.dropWhile_sublist _).subset ((List.filter_sublist).subset inside)

/-- A return link opens the page of its template exactly when the segment of the slot does not become
a dot segment, or when the template itself walks back past that segment and all before it. -/
theorem page_kept_iff (parsed : parseSources U text field = .ok sources)
    (listed : (name, source) ∈ sources) (registered : source.returnUrl = some template)
    (split : urlsplit U template = some parts) (inPath : refSlot <:+: parts.path) {O : Type}
    (given : Given O) {ref : Str} (clean_ : cleanRef given = some ref) :
    ∃ url longer pre left right post,
      returnUrl (some source) (some ⟨source.app, cleanRef given⟩) = some url ∧
      urlsplit U url = some longer ∧
      parts.path = join (pre ++ (left ++ (refSlot ++ right)) :: post) ∧
      (∀ other ∈ pre ++ left :: right :: post, '/' ∉ other ∧ '\x7b' ∉ other) ∧
      (PageKept parts.path longer.path (quote none_ ref) ↔
        (left ++ (quote none_ ref ++ right) ≠ dot ∧ left ++ (quote none_ ref ++ right) ≠ dotDot) ∨
          (kept pre).length < climbs post) := by
  obtain ⟨_, checked⟩ := parseSources_ok parsed listed registered
  rcases checkTemplate_ok checked with ⟨free, _⟩ | ⟨scheme, netloc, front, back, slotted⟩
  · exact absurd (mem_of_mem_path split (inPath.subset (by decide))) free
  · have own : urlsplit U template = _ :=
      (congrArg (urlsplit U) slotted.whole).trans (slotted.split refSlot_visible)
    rw [own, Option.some.injEq] at split
    subst split
    have free := slotted.front_free inPath
    have marks := quote_unmarked ref
    have rooted : ∃ rest, front = '/' :: rest := by
      obtain ⟨c, rest, rfl, stops⟩ := slotted.rooted
      simp only [List.mem_cons, not_or] at free
      simp only [isDelim, Bool.or_eq_true, beq_iff_eq] at stops
      rcases stops with (rfl | rfl) | rfl
      · exact ⟨rest, rfl⟩
      · exact absurd rfl free.1.1
      · exact absurd rfl free.2.1
    have braceless : '\x7b' ∉ front ∧ '\x7b' ∉ before '?' (before '#' back) := by
      have ahead := slotted.free.1
      simp only [List.mem_append, List.mem_cons, not_or] at ahead
      refine ⟨ahead.2.2.2.2.2, fun member => slotted.free.2 ?_⟩
      exact (prefix_before _ _).subset ((prefix_before _ _).subset member)
    obtain ⟨pre, left, right, post, spelled, plain, page⟩ := pageKept_iff rooted braceless marks.2.2
    have opened := slotted.split (@quote_visible ref)
    refine ⟨_, _, pre, left, right, post, ?_, opened, ?_, plain, ?_⟩
    · rw [returnUrl_eq_some]
      exact ⟨source, template, _, rfl, rfl, rfl, registered, by
        rw [clean_]
        exact slotted.replace_eq _⟩
    · rw [path_filled free ⟨refSlot_unmarked.1, refSlot_unmarked.2.1⟩]
      exact spelled
    · rw [path_filled free ⟨refSlot_unmarked.1, refSlot_unmarked.2.1⟩,
        path_filled free ⟨marks.1, marks.2.1⟩]
      exact page

end Page

def pageTemplate : Str := "https://kb.test/app/\x7bref\x7d/edit".toList

def pageText : Str :=
  "\x7b\"kb\": \x7b\"return_url\": \"https://kb.test/app/\x7bref\x7d/edit\"\x7d\x7d".toList

def pageSource : Source := ⟨"kb".toList, some pageTemplate⟩

def pageParts : SplitResult :=
  ⟨"https".toList, "kb.test".toList, "/app/\x7bref\x7d/edit".toList, [], []⟩

theorem page_parsed : parseSources samplePlatform pageText sampleField =
    .ok [("kb".toList, pageSource)] :=
  ok_of_toOption (by decide +kernel)

/-- The reference `..` takes the segment before the slot out of the path. -/
theorem page_not_kept : ∃ url longer,
    parseSources samplePlatform pageText sampleField = .ok [("kb".toList, pageSource)] ∧
      urlsplit samplePlatform pageTemplate = some pageParts ∧ refSlot <:+: pageParts.path ∧
      cleanRef (.str "..".toList : Given Unit) = some "..".toList ∧
      returnUrl (some pageSource) (some ⟨pageSource.app, some "..".toList⟩) = some url ∧
      urlsplit samplePlatform url = some longer ∧
      removeDotSegments longer.path = "/edit".toList ∧
      ¬ PageKept pageParts.path longer.path (quote none_ "..".toList) := by
  refine ⟨"https://kb.test/app/../edit".toList,
    ⟨"https".toList, "kb.test".toList, "/app/../edit".toList, [], []⟩, page_parsed, ?_⟩
  unfold PageKept
  decide +kernel

/-- The reference `task:42` opens a page below the same segment. -/
theorem page_kept_task : ∃ url longer,
    returnUrl (some pageSource) (some ⟨pageSource.app, some "task:42".toList⟩) = some url ∧
      urlsplit samplePlatform url = some longer ∧
      PageKept pageParts.path longer.path (quote none_ "task:42".toList) := by
  have clean_ : cleanRef (.str "task:42".toList : Given Unit) = some "task:42".toList := by
    decide +kernel
  have split : urlsplit samplePlatform pageTemplate = some pageParts := by decide +kernel
  have inPath : refSlot <:+: pageParts.path := by decide +kernel
  have long : (quote none_ "task:42".toList).length = 9 := by decide +kernel
  obtain ⟨url, longer, pre, left, right, post, opened, spelled, -, -, page⟩ :=
    page_kept_iff page_parsed List.mem_cons_self rfl split inPath _ clean_
  rw [clean_] at opened
  refine ⟨url, longer, opened, spelled, page.mpr (Or.inl ⟨fun same => ?_, fun same => ?_⟩)⟩ <;>
  · have lengths := congrArg List.length same
    rw [List.length_append, List.length_append, long] at lengths
    simp [dot, dotDot] at lengths
    omega

end TplBackend.CrossApp
