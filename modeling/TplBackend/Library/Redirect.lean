import TplBackend.Library.Browser
import TplBackend.Library.Form

/-! The `Location` of a redirect, and where it leads a browser. -/

namespace Url

open Percent Text

/-- The characters that a redirect response leaves as they are, `:/%#?=@[]!$&'()*+,;`. -/
def isLocationSafe (c : Char) : Bool :=
  c ∈ [':', '/', '%', '#', '?', '=', '@', '[', ']', '!', '$', '&', '\'', '(', ')', '*', '+', ',', ';']

/-- The `Location` of `RedirectResponse(url)`. -/
def redirectLocation (url : Str) : Str := quote isLocationSafe url

/-- Where a `Location` without a scheme leads a browser from a page of `origin`, or one with a scheme
from anywhere. -/
def follow (origin : Destination) (location : Str) : Destination :=
  match (browserClean location).map slashed with
  | '/' :: '/' :: rest =>
      { origin with netloc := (rest.dropWhile (· == '/')).takeWhile (!isDelim ·) }
  | reference => if (splitScheme reference).1 = [] then origin else browse location

structure Rooted (url : Str) : Prop where
  slash : ['/'] <+: url
  single : ¬ ['/', '/'] <+: url
  free : '\\' ∉ url

section Location

variable {url : Str}

theorem visible_location {c : Char} (member : c ∈ redirectLocation url) :
    32 < c.toNat ∧ c.toNat < 127 ∧ c ≠ '\\' := by
  have known : isUnreserved c = true ∨ isLocationSafe c = true ∨ c = '%' := mem_quote member
  rcases known with plain | safe | rfl
  · simp only [isUnreserved, Bool.or_eq_true, beq_iff_eq] at plain
    rcases plain with ((((letter | digit) | rfl) | rfl) | rfl) | rfl
    · simp only [isLetter, Bool.or_eq_true, Bool.and_eq_true, decide_eq_true_eq, Char.le_def,
        UInt32.le_iff_toNat_le] at letter
      have other : c ≠ '\\' := by
        rintro rfl
        exact absurd letter (by decide)
      have a : 'a'.val.toNat = 97 := rfl
      have z : 'z'.val.toNat = 122 := rfl
      have A : 'A'.val.toNat = 65 := rfl
      have Z : 'Z'.val.toNat = 90 := rfl
      simp only [Char.toNat]
      exact ⟨by omega, by omega, other⟩
    · simp only [isDigit, Bool.and_eq_true, decide_eq_true_eq, Char.le_def,
        UInt32.le_iff_toNat_le] at digit
      have other : c ≠ '\\' := by
        rintro rfl
        exact absurd digit (by decide)
      have zero : '0'.val.toNat = 48 := rfl
      have nine : '9'.val.toNat = 57 := rfl
      simp only [Char.toNat]
      exact ⟨by omega, by omega, other⟩
    all_goals decide
  · have each : ∀ d ∈ [':', '/', '%', '#', '?', '=', '@', '[', ']', '!', '$', '&', '\'', '(', ')',
        '*', '+', ',', ';'], 32 < d.toNat ∧ d.toNat < 127 ∧ d ≠ '\\' := by simp
    exact each c (by simpa [isLocationSafe] using safe)
  · decide

theorem browserClean_location (url : Str) :
    (browserClean (redirectLocation url)).map slashed = redirectLocation url := by
  have plain : ∀ c ∈ redirectLocation url, isC0ControlOrSpace c = false := by
    intro c member
    have visible := visible_location member
    simp only [isC0ControlOrSpace, decide_eq_false_iff_not, not_le]
    exact visible.1
  have safe : ∀ c ∈ redirectLocation url, isUnsafe c = false := by
    intro c member
    by_contra dirty
    have visible := (visible_location member).1
    simp only [isUnsafe, Bool.not_eq_false, Bool.or_eq_true, beq_iff_eq] at dirty
    rcases dirty with (rfl | rfl) | rfl <;> exact absurd visible (by decide)
  have front : (redirectLocation url).dropWhile isC0ControlOrSpace = redirectLocation url :=
    List.dropWhile_eq_self_iff.mpr fun longer => by
      simpa using plain _ (List.getElem_mem longer)
  have back : (redirectLocation url).rdropWhile isC0ControlOrSpace = redirectLocation url :=
    List.rdropWhile_eq_self_iff.mpr fun some_ => by simpa using plain _ (List.getLast_mem some_)
  rw [browserClean, back, clean, front,
    List.filter_eq_self.mpr fun c member => by simp [safe c member]]
  exact map_slashed fun member => (visible_location member).2.2 rfl

theorem quote_cons_ne (safe : Char → Bool) {c mark : Char} (other : c ≠ mark) (percent : mark ≠ '%')
    (rest : Str) : ∀ d ∈ (quote safe (c :: rest)).head?, d ≠ mark := by
  intro d first
  rw [quote, List.flatMap_cons] at first
  split at first
  · rw [List.singleton_append, List.head?_cons, Option.mem_some_iff] at first
    exact first ▸ other
  · rename_i coded
    have some_ : String.utf8EncodeChar c ≠ [] := by
      rw [← List.length_pos_iff, String.length_utf8EncodeChar]
      exact Char.utf8Size_pos c
    obtain ⟨byte, bytes, shape⟩ := List.exists_cons_of_ne_nil some_
    rw [shape, List.flatMap_cons, escapeByte, List.cons_append, List.cons_append,
      List.head?_cons, Option.mem_some_iff] at first
    exact first ▸ Ne.symm percent

/-- The quoting keeps a path a path: from any page a browser stays on the host. -/
theorem follow_location (rooted : Rooted url) (origin : Destination) :
    follow origin (redirectLocation url) = origin := by
  obtain ⟨⟨rest, rfl⟩, single, free⟩ := rooted
  have spelled : redirectLocation (['/'] ++ rest) = '/' :: redirectLocation rest := by
    rw [redirectLocation, quote, List.flatMap_append]
    rfl
  have unslashed : ∀ d ∈ (redirectLocation rest).head?, d ≠ '/' := by
    cases rest with
    | nil => simp [redirectLocation, quote]
    | cons c rest =>
        refine quote_cons_ne isLocationSafe (fun same => single ?_) (by decide) rest
        rw [same]
        exact ⟨rest, rfl⟩
  rw [follow, browserClean_location, spelled]
  split
  · rename_i other same
    have second := congrArg List.head? (List.cons.inj same).2
    rw [List.head?_cons] at second
    exact absurd rfl (unslashed '/' second)
  · have relative : (splitScheme ('/' :: redirectLocation rest)).1 = [] := by
      rw [splitScheme, if_neg]
      rintro ⟨_, letter, _⟩
      simp [before, isLetter] at letter
    rw [if_pos relative]

end Location

end Url
