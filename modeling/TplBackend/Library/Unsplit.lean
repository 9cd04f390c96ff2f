import TplBackend.Library.Url

/-! URLs that are put together again from their parts. -/

namespace Url

open Text

def fragmentPart (fragment : Str) : Str := if fragment = [] then [] else '#' :: fragment

def assemble (front query fragment : Str) : Str := front ++ (queryPart query ++ fragmentPart fragment)

/-- `urllib.parse.urlunsplit` since Python 3.12.4, where a path of two slashes is kept apart from the netloc. -/
def unsplit (parts : SplitResult) : Str :=
  let url := parts.path
  let url :=
    if parts.netloc ≠ [] then
      ['/', '/'] ++ parts.netloc ++ if url ≠ [] ∧ url.head? ≠ some '/' then '/' :: url else url
    else if ['/', '/'] <+: url ∨ parts.scheme ∈ usesNetloc ∧ (url = [] ∨ url.head? = some '/') then
      ['/', '/'] ++ url
    else url
  let url := if parts.scheme ≠ [] then parts.scheme ++ ':' :: url else url
  let url := if parts.query ≠ [] then url ++ '?' :: parts.query else url
  if parts.fragment ≠ [] then url ++ '#' :: parts.fragment else url

/-- With a netloc, the versions of `urlunsplit` agree. -/
theorem unsplit_eq_urlunsplit {parts : SplitResult} (hosted : parts.netloc ≠ []) :
    unsplit parts = urlunsplit parts := by
  simp [unsplit, urlunsplit, hosted]

section Front

variable {scheme front query fragment rest : Str}

def frontOf (rest : Str) : Str := before '?' (before '#' rest)

def queryOf (rest : Str) : Str := after '?' (before '#' rest)

theorem frontOf_free (rest : Str) : '?' ∉ frontOf rest ∧ '#' ∉ frontOf rest :=
  ⟨not_mem_before, fun member => not_mem_before ((prefix_before _ _).subset member)⟩

theorem generic_slashes (valid : IsScheme scheme) (rest : Str) :
    generic (scheme ++ ':' :: '/' :: '/' :: rest) =
      ⟨asciiLower scheme, before '/' (frontOf rest), (frontOf rest).dropWhile (· != '/'), queryOf rest,
        after '#' rest⟩ := by
  have slashes : splitNetloc ('/' :: '/' :: rest) = (rest.takeWhile (!isDelim ·), rest.dropWhile (!isDelim ·)) :=
    if_pos ⟨rest, rfl⟩
  have parted : rest.takeWhile (!isDelim ·) ++ rest.dropWhile (!isDelim ·) = rest := List.takeWhile_append_dropWhile
  have inside : ∀ c ∈ rest.takeWhile (!isDelim ·), isDelim c = false := fun c member => by
    simpa using List.mem_takeWhile_imp member
  have boundary : ∀ c ∈ (rest.dropWhile (!isDelim ·)).head?, isDelim c = true := fun c member => by
    have stopped := List.head?_dropWhile_not (!isDelim ·) rest
    rw [Option.mem_def.mp member] at stopped
    simpa using stopped
  simp only [generic, splitScheme_append valid, slashes]
  generalize rest.takeWhile (!isDelim ·) = netloc at parted inside
  generalize rest.dropWhile (!isDelim ·) = tail at parted boundary
  subst parted
  have free (mark : Char) (delim : isDelim mark = true) : mark ∉ netloc := fun member => by
    rw [inside mark member] at delim
    cases delim
  have whole : frontOf (netloc ++ tail) = netloc ++ frontOf tail := by
    rw [frontOf, before_append_of_not_mem (free '#' rfl), before_append_of_not_mem (free '?' rfl), frontOf]
  have start : ∀ c ∈ (frontOf tail).head?, c = '/' := by
    intro c member
    cases tail with
    | nil => cases member
    | cons d tail =>
        have stops := boundary d rfl
        by_cases hash : d = '#'
        · simp [frontOf, before, hash] at member
        by_cases mark : d = '?'
        · simp [frontOf, before, mark] at member
        · have slash : d = '/' := by simpa [isDelim, hash, mark] using stops
          simp only [frontOf, before, slash, List.takeWhile_cons, bne_iff_ne, ne_eq, Char.reduceEq,
            not_false_eq_true, if_true, List.head?_cons, Option.mem_some_iff] at member
          exact member.symm
  have netloc_ : before '/' (netloc ++ frontOf tail) = netloc := by
    rw [before_append_of_not_mem (free '/' rfl)]
    cases shape : frontOf tail with
    | nil => exact List.append_nil _
    | cons c more =>
        rw [shape] at start
        simp [before, start c rfl]
  have path : (netloc ++ frontOf tail).dropWhile (· != '/') = frontOf tail := by
    have passed : ∀ c ∈ netloc, (c != '/') = true := fun c member => by
      refine bne_iff_ne.mpr ?_
      rintro rfl
      exact free '/' rfl member
    rw [List.dropWhile_append_of_pos passed]
    cases shape : frontOf tail with
    | nil => rfl
    | cons c more =>
        rw [shape] at start
        simp [start c rfl]
  rw [whole, netloc_, path, queryOf, before_append_of_not_mem (free '#' rfl), after_append (free '?' rfl),
    after_append (free '#' rfl)]
  rfl

theorem before_hash_assemble (free : '#' ∉ front) (plain : '#' ∉ query) (fragment : Str) :
    before '#' (assemble front query fragment) = front ++ queryPart query ∧
      after '#' (assemble front query fragment) = fragment := by
  have whole : '#' ∉ front ++ queryPart query := by
    by_cases empty : query = [] <;> simp [queryPart, empty, free, plain]
  rw [assemble, ← List.append_assoc, before_append_of_not_mem whole, after_append whole]
  by_cases empty : fragment = [] <;> simp [fragmentPart, empty, before, after]

theorem queryPart_parts (free : '?' ∉ front) (query : Str) :
    before '?' (front ++ queryPart query) = front ∧ after '?' (front ++ queryPart query) = query := by
  rw [before_append_of_not_mem free, after_append free]
  by_cases empty : query = [] <;> simp [queryPart, empty, before, after]

theorem parts_assemble (free : '?' ∉ front ∧ '#' ∉ front) (plain : '#' ∉ query) (fragment : Str) :
    frontOf (assemble front query fragment) = front ∧ queryOf (assemble front query fragment) = query ∧
      after '#' (assemble front query fragment) = fragment := by
  obtain ⟨head, tail⟩ := before_hash_assemble free.2 plain fragment
  obtain ⟨start, behind⟩ := queryPart_parts free.1 query
  exact ⟨by rw [frontOf, head, start], by rw [queryOf, head, behind], tail⟩

end Front

section Netloc

variable {scheme netloc path query fragment : Str}

theorem unsplit_slashes (some_ : scheme ≠ [])
    (hosted : netloc ≠ [] ∧ (∀ c ∈ path.head?, c = '/') ∨ netloc = [] ∧ ['/', '/'] <+: path) :
    unsplit ⟨scheme, netloc, path, query, fragment⟩ =
      scheme ++ ':' :: '/' :: '/' :: assemble (netloc ++ path) query fragment := by
  have front : (if netloc ≠ [] then
      ['/', '/'] ++ netloc ++ if path ≠ [] ∧ path.head? ≠ some '/' then '/' :: path else path
    else if ['/', '/'] <+: path ∨ scheme ∈ usesNetloc ∧ (path = [] ∨ path.head? = some '/') then
      ['/', '/'] ++ path
    else path) = ['/', '/'] ++ (netloc ++ path) := by
    rcases hosted with ⟨host, rooted⟩ | ⟨rfl, slashes⟩
    · have apart : ¬ (path ≠ [] ∧ path.head? ≠ some '/') := by
        rintro ⟨filled, other⟩
        obtain ⟨c, rest, rfl⟩ := List.exists_cons_of_ne_nil filled
        exact other (congrArg some (rooted c rfl))
      rw [if_pos host, if_neg apart, List.append_assoc]
    · rw [if_neg (fun other => other rfl), if_pos (.inl slashes), List.nil_append]
  simp only [unsplit, front, if_pos some_]
  by_cases query_ : query = [] <;> by_cases fragment_ : fragment = [] <;>
    simp [assemble, queryPart, fragmentPart, query_, fragment_]

theorem unsplit_bare (some_ : scheme ≠ []) (other : scheme ∉ usesNetloc) (bare : ¬ ['/', '/'] <+: path) :
    unsplit ⟨scheme, [], path, query, fragment⟩ = scheme ++ ':' :: assemble path query fragment := by
  have front : ¬ (['/', '/'] <+: path ∨ scheme ∈ usesNetloc ∧ (path = [] ∨ path.head? = some '/')) := by
    rintro (slashes | ⟨listed, _⟩)
    · exact bare slashes
    · exact other listed
  simp only [unsplit, ne_eq, not_true_eq_false, if_false, if_neg front, some_, not_false_eq_true, if_true]
  by_cases query_ : query = [] <;> by_cases fragment_ : fragment = [] <;>
    simp [assemble, queryPart, fragmentPart, query_, fragment_]

end Netloc

end Url
