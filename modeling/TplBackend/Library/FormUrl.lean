import TplBackend.Library.Form
import TplBackend.Library.Url

/-! A form behind a URL, and where its fields are read back. -/

namespace Url

open Percent Text

variable {U : Platform} {url form : Str} {parts : SplitResult}

def formOf (U : Platform) (url : Str) : Option (List (Str × Str)) :=
  (urlsplit U url).map fun parts => parseQsl parts.query

def Unmarked (url : Str) : Prop := '?' ∉ url ∧ '#' ∉ url

section Behind

variable {scheme netloc rest : Str}

def behind (scheme netloc rest : Str) : SplitResult :=
  ⟨scheme, netloc, before '?' (before '#' rest), after '?' (before '#' rest), after '#' rest⟩

theorem behind_unmarked (unmarked : Unmarked rest) (free : '#' ∉ form) :
    behind scheme netloc (rest ++ '?' :: form) = { behind scheme netloc rest with query := form } := by
  have whole : before '#' (rest ++ '?' :: form) = rest ++ '?' :: form :=
    before_eq_self (by simp [unmarked.2, free])
  have none_ : after '#' (rest ++ '?' :: form) = [] := after_of_not_mem (by simp [unmarked.2, free])
  rw [behind, whole, none_, before_append_of_not_mem unmarked.1, after_append_of_not_mem unmarked.1,
    behind, before_eq_self unmarked.2, before_eq_self unmarked.1, after_of_not_mem unmarked.2]
  simp [before]

theorem behind_queried (mark : '?' ∈ rest) (hash : '#' ∉ rest) (free : '#' ∉ form) :
    (behind scheme netloc (rest ++ '?' :: form)).query =
      (behind scheme netloc rest).query ++ '?' :: form := by
  have whole : before '#' (rest ++ '?' :: form) = rest ++ '?' :: form :=
    before_eq_self (by simp [hash, free])
  rw [behind, whole, after_append_of_mem mark, behind, before_eq_self hash]

theorem behind_fragment (hash : '#' ∈ rest) :
    (behind scheme netloc (rest ++ '?' :: form)).query = (behind scheme netloc rest).query := by
  rw [behind, before_append_of_mem hash, behind]

theorem mem_clean {c : Char} (stops : isDelim c = true) : c ∈ url ↔ c ∈ clean url := by
  have kept : isC0ControlOrSpace c = false ∧ (!isUnsafe c) = true := by
    simp only [isDelim, Bool.or_eq_true, beq_iff_eq] at stops
    rcases stops with (rfl | rfl) | rfl <;> exact ⟨by decide, rfl⟩
  constructor
  · intro member
    rw [← List.takeWhile_append_dropWhile (p := isC0ControlOrSpace) (l := url)] at member
    rcases List.mem_append.mp member with dropped | left
    · rw [List.mem_takeWhile_imp dropped] at kept
      cases kept.1
    · exact List.mem_filter.mpr ⟨left, kept.2⟩
  · intro member
    exact (List.dropWhile_sublist _).subset (List.mem_of_mem_filter member)

theorem urlsplit_behind (split : urlsplit U url = some parts) (schemed : parts.scheme ≠ [])
    (hosted : parts.netloc ≠ []) : ∃ rest, parts = behind parts.scheme parts.netloc rest ∧
      (∀ c, isDelim c = true → c ≠ '/' → (c ∈ url ↔ c ∈ rest)) ∧
      ∀ form : Str, (∀ c ∈ form, isUnsafe c = false) → urlsplit U (url ++ '?' :: form) =
        some (behind parts.scheme parts.netloc (rest ++ '?' :: form)) := by
  obtain ⟨rfl, checked⟩ := urlsplit_eq_some.mp split
  obtain ⟨scheme, rest, valid, lower, spelled, inside, boundary⟩ := absolute_of_generic schemed hosted
  have some_ : clean url ≠ [] := by
    rw [spelled]
    simp
  refine ⟨rest, ?_, fun c stops other => ?_, fun form safe => ?_⟩
  · have parted := generic_absolute valid inside boundary
    rw [← spelled, lower] at parted
    exact parted
  · have apart : c ∉ scheme := fun member => by
      have char := List.all_eq_true.mp valid.2 c member
      simp only [isDelim, Bool.or_eq_true, beq_iff_eq] at stops
      rcases stops with (rfl | rfl) | rfl <;> exact absurd char (by decide)
    have outside : c ∉ (generic (clean url)).netloc := fun member => by
      rw [inside c member] at stops
      cases stops
    have colon : c ≠ ':' := fun same => by
      rw [same] at stops
      cases stops
    have kept : c ∈ url ↔ c ∈ clean url := mem_clean stops
    rw [kept, spelled]
    simp [apart, outside, colon, other]
  · have kept : ('?' :: form).filter (fun c => !isUnsafe c) = '?' :: form := by
      refine List.filter_eq_self.mpr fun c member => ?_
      rcases List.mem_cons.mp member with rfl | inner
      · rfl
      · rw [safe c inner]
        rfl
    have boundary' : ∀ c ∈ (rest ++ '?' :: form).head?, isDelim c = true := by
      intro c starts
      cases rest with
      | nil =>
          rw [List.nil_append, List.head?_cons, Option.mem_some_iff] at starts
          exact starts ▸ rfl
      | cons d rest => exact boundary c starts
    have cleaned : clean (url ++ '?' :: form) =
        scheme ++ ':' :: '/' :: '/' :: ((generic (clean url)).netloc ++ (rest ++ '?' :: form)) := by
      rw [clean_append some_, kept]
      conv_lhs => rw [spelled]
      simp
    have parted := generic_absolute valid inside boundary'
    rw [← cleaned, lower] at parted
    exact urlsplit_eq_some.mpr ⟨parted, checked⟩

end Behind

section Fields

variable {fields : List (Str × Str)} {name value : Str}

theorem urlencode_safe {c : Char} (member : c ∈ urlencode fields) : c ≠ '#' ∧ isUnsafe c = false := by
  have part := mem_urlencode member
  constructor
  · rintro rfl
    exact absurd part (by decide)
  · by_contra unsafe_
    simp only [isUnsafe, Bool.not_eq_false, Bool.or_eq_true, beq_iff_eq] at unsafe_
    rcases unsafe_ with (rfl | rfl) | rfl <;> exact absurd part (by decide)

theorem parseQsl_append (front back : Str) :
    parseQsl (front ++ '&' :: back) = parseQsl front ++ parseQsl back := by
  rw [parseQsl, List.splitOn_append_cons_self, List.filter_append, List.map_append]
  rfl

theorem parseQsl_piece {piece : Str} (free : '&' ∉ piece) (some_ : piece ≠ []) :
    parseQsl piece = [parsePiece piece] := by
  rw [parseQsl, List.splitOn_eq_singleton free]
  simp [some_]

theorem parsePiece_marked (front : Str) (name value : Str) :
    '?' ∈ (parsePiece (front ++ '?' :: joined (name, value))).1 ∨
      '?' ∈ (parsePiece (front ++ '?' :: joined (name, value))).2 := by
  by_cases equals : '=' ∈ front
  · refine .inr ?_
    rw [parsePiece, after_append_of_mem equals, unquotePlus_append rfl (by decide) rfl]
    simp
  · refine .inl ?_
    have named : before '=' (front ++ '?' :: joined (name, value)) = front ++ '?' :: quotePlus name := by
      have free : '=' ∉ quotePlus name := fun member => absurd (mem_quotePlus member) (by decide)
      have other : '=' ∉ front ++ '?' :: quotePlus name := by simp [equals, free]
      rw [joined, ← List.cons_append, ← List.append_assoc, before_append_of_not_mem other]
      simp [before]
    rw [parsePiece, named, unquotePlus_append rfl (by decide) rfl]
    simp

theorem parseQsl_marked (query name value : Str) : ∃ fields last,
    parseQsl (query ++ '?' :: joined (name, value)) = fields ++ [last] ∧
      ('?' ∈ last.1 ∨ '?' ∈ last.2) := by
  induction length : query.length using Nat.strong_induction_on generalizing query with
  | _ size ih =>
      by_cases parted : '&' ∈ query
      · obtain ⟨front, back, rfl⟩ := List.append_of_mem parted
        have shorter : back.length < size := by
          rw [← length]
          simp only [List.length_append, List.length_cons]
          omega
        obtain ⟨fields, last, read, marked⟩ := ih _ shorter back rfl
        refine ⟨parseQsl front ++ fields, last, ?_, marked⟩
        rw [List.append_assoc, List.cons_append, parseQsl_append, read, List.append_assoc]
      · have free : '&' ∉ query ++ '?' :: joined (name, value) := by
          have inner : '&' ∉ joined (name, value) := fun member => absurd (mem_joined member) (by decide)
          simp [parted, inner]
        exact ⟨[], _, parseQsl_piece free (by simp), parsePiece_marked query name value⟩

theorem urlencode_cons (name value : Str) (some_ : fields ≠ []) :
    urlencode ((name, value) :: fields) = joined (name, value) ++ '&' :: urlencode fields := by
  rw [urlencode, List.map_cons, List.intercalate_cons_of_ne_nil (by simpa using some_), List.append_assoc]
  rfl

theorem parseQsl_lengthened (query : Str) (free : '?' ∉ name ∧ '?' ∉ value) :
    parseQsl (query ++ '?' :: urlencode ((name, value) :: fields)) ≠ (name, value) :: fields := by
  obtain ⟨front, last, read, marked⟩ := parseQsl_marked query name value
  have whole : parseQsl (query ++ '?' :: urlencode ((name, value) :: fields)) = front ++ last :: fields := by
    by_cases none_ : fields = []
    · rw [none_, urlencode, List.map_singleton, List.intercalate_singleton]
      exact read
    · rw [urlencode_cons name value none_, ← List.cons_append, ← List.append_assoc, parseQsl_append, read,
        parseQsl_urlencode, List.append_assoc]
      rfl
  rw [whole]
  intro same
  have short := congrArg List.length same
  rw [List.length_append, List.length_cons, List.length_cons] at short
  have empty : front = [] := List.length_eq_zero_iff.mp (by omega)
  rw [empty, List.nil_append] at same
  rw [(List.cons.inj same).1] at marked
  exact marked.elim free.1 free.2

theorem formOf_unmarked (split : urlsplit U url = some parts) (schemed : parts.scheme ≠ [])
    (hosted : parts.netloc ≠ []) (unmarked : Unmarked url) :
    urlsplit U (url ++ '?' :: urlencode fields) = some { parts with query := urlencode fields } := by
  obtain ⟨rest, shape, marks, longer⟩ := urlsplit_behind split schemed hosted
  rw [longer _ fun c member => (urlencode_safe member).2, behind_unmarked
    ⟨fun mark => unmarked.1 ((marks _ rfl (by decide)).mpr mark),
      fun hash => unmarked.2 ((marks _ rfl (by decide)).mpr hash)⟩
    fun member => (urlencode_safe member).1 rfl, ← shape]

theorem formOf_queried (split : urlsplit U url = some parts) (schemed : parts.scheme ≠ [])
    (hosted : parts.netloc ≠ []) (mark : '?' ∈ url) (hash : '#' ∉ url) (free : '?' ∉ name ∧ '?' ∉ value) :
    formOf U (url ++ '?' :: urlencode ((name, value) :: fields)) ≠ some ((name, value) :: fields) := by
  obtain ⟨rest, shape, marks, longer⟩ := urlsplit_behind split schemed hosted
  rw [formOf, longer _ fun c member => (urlencode_safe member).2, Option.map_some, behind_queried
    ((marks _ rfl (by decide)).mp mark) (fun inside => hash ((marks _ rfl (by decide)).mpr inside))
    fun member => (urlencode_safe member).1 rfl]
  exact fun same => parseQsl_lengthened _ free (Option.some.inj same)

theorem formOf_fragment (split : urlsplit U url = some parts) (schemed : parts.scheme ≠ [])
    (hosted : parts.netloc ≠ []) (hash : '#' ∈ url) :
    formOf U (url ++ '?' :: urlencode fields) = formOf U url := by
  obtain ⟨rest, shape, marks, longer⟩ := urlsplit_behind split schemed hosted
  rw [formOf, longer _ fun c member => (urlencode_safe member).2, Option.map_some,
    behind_fragment ((marks _ rfl (by decide)).mp hash), formOf, split, Option.map_some, ← shape]

end Fields

end Url
