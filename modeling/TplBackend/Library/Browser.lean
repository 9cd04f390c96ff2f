import TplBackend.Library.Descent
import TplBackend.Library.Netloc

namespace Url

open DotSegments Text

/-- A URL without the control characters and spaces around it and the tabs and newlines in it, which
the URL parser of a browser drops first. -/
def browserClean (url : Str) : Str := clean (url.rdropWhile isC0ControlOrSpace)

structure Destination where
  scheme : Str
  netloc : Str

def slashed (c : Char) : Char := if c = '\\' then '/' else c

/-- How a browser reads a URL with an HTTP scheme: any number of slashes lead to its netloc. -/
def browse (url : Str) : Destination :=
  let (scheme, rest) := splitScheme ((browserClean url).map slashed)
  { scheme
    netloc := (rest.dropWhile (· == '/')).takeWhile (!isDelim ·) }

/-- The dot segment that a browser takes a segment for, where a dot may be written `%2e`. -/
def undotted (segment : Str) : Str :=
  if asciiLower segment = "%2e".toList then dot
  else if asciiLower segment ∈ [".%2e".toList, "%2e.".toList, "%2e%2e".toList] then dotDot
  else segment

/-- The segments that a browser reads of a text that starts with the path, an empty one without it. -/
def readSegments (tail : Str) : List Str :=
  ((before '?' (before '#' tail)).tail.splitOn '/').map undotted

/-- The segments of the path of a URL with an HTTP scheme, as `browse` reads it. -/
def browsedSegments (url : Str) : List Str :=
  let rest := (splitScheme ((browserClean url).map slashed)).2
  readSegments ((rest.dropWhile (· == '/')).dropWhile (!isDelim ·))

/-- The path that a browser asks for, before it percent-encodes its characters. -/
def visitedPath (url : Str) : Str := removeDotSegments (join (browsedSegments url))

/-- How browsers write the host of a URL, `none` where they refuse it: in ASCII, and with colons in the
brackets of an address only. -/
structure BrowserHosts where
  serialize : Str → Option Str
  bracketed : ∀ host text, serialize host = some text → ':' ∈ text → '[' ∈ text

def SplitResult.hostText (parts : SplitResult) : Str :=
  if '[' ∈ parts.hostinfo then '[' :: parts.rawHost ++ [']'] else parts.rawHost

def defaultPort (scheme : Str) : Nat := if scheme = "https".toList then 443 else 80

def writtenPort (scheme : Str) (port : Option Nat) : Option Nat :=
  if port = some (defaultPort scheme) then none else port

/-- The `Origin` of a browser on a page of the URL, which leaves out a default port. -/
def BrowserHosts.origin (browser : BrowserHosts) (parts : SplitResult) : Option Str :=
  (browser.serialize parts.hostText).map fun host => parts.scheme ++ ':' :: '/' :: '/' ::
    (host ++ portText (writtenPort parts.scheme (parts.port.getD none)))

/-- The text is the `Origin` that a browser sends, but for a default port. -/
def BrowserHosts.Sends (browser : BrowserHosts) (parts : SplitResult) (text : Str) : Prop :=
  ∃ sent, browser.origin parts = some sent ∧ (text = sent ∨
    parts.port = some (some (defaultPort parts.scheme)) ∧
      text = sent ++ portText (some (defaultPort parts.scheme)))

structure IsOrigin (scheme netloc url : Str) : Prop where
  valid : IsScheme scheme
  spelled : url = scheme ++ ':' :: '/' :: '/' :: netloc
  hosted : netloc ≠ []
  visible : ∀ c ∈ netloc, 32 < c.toNat ∧ isDelim c = false ∧ c ≠ '\\'

theorem map_slashed {s : Str} (free : '\\' ∉ s) : s.map slashed = s := by
  refine (List.map_congr_left fun c member => ?_).trans (List.map_id s)
  exact if_neg fun same : c = '\\' => free (same ▸ member)

section Segments

theorem plain_readSegments (tail : Str) : Plain (readSegments tail) := by
  intro segment member
  obtain ⟨own, listed, rfl⟩ := List.mem_map.mp member
  unfold undotted
  split
  · decide
  split
  · decide
  · exact plain_splitOn _ own listed

theorem readSegments_ne_nil (tail : Str) : readSegments tail ≠ [] := by
  rw [readSegments, Ne, List.map_eq_nil_iff]
  exact List.splitOn_ne_nil _ _

end Segments

section Clean

variable {origin rest : Str}

theorem browserClean_slash (rest : Str) : browserClean ('/' :: rest) =
    '/' :: (rest.rdropWhile isC0ControlOrSpace).filter fun c => !isUnsafe c := by
  have kept := rdropWhile_append_cons (show isC0ControlOrSpace '/' = false by decide) [] rest
  rw [browserClean, show '/' :: rest = [] ++ '/' :: rest from rfl, kept, List.nil_append, clean_slash]

theorem browserClean_append {c : Char} (start : isC0ControlOrSpace c = false) (origin rest : Str) :
    browserClean (c :: origin ++ '/' :: rest) =
      (c :: origin).filter (fun c => !isUnsafe c) ++ browserClean ('/' :: rest) := by
  rw [browserClean, rdropWhile_append_cons (by decide), browserClean_slash, clean, List.cons_append,
    List.dropWhile_cons_of_neg (by simp [start]), ← List.cons_append, List.filter_append]
  rfl

end Clean

section Hosts

variable {browser : BrowserHosts} {parts : SplitResult} {host : Str} {port : Option Nat}

theorem sends_iff (ported : parts.port = some port) (opening : '[' ∉ host) :
    browser.Sends parts (parts.scheme ++ ':' :: '/' :: '/' :: (host ++ portText port)) ↔
      browser.serialize parts.hostText = some host := by
  have written : parts.port.getD none = port := by rw [ported]; rfl
  have spelled (text : Str) : browser.origin parts = some text ↔ ∃ other,
      browser.serialize parts.hostText = some other ∧ parts.scheme ++ ':' :: '/' :: '/' ::
        (other ++ portText (writtenPort parts.scheme port)) = text := by
    rw [BrowserHosts.origin, Option.map_eq_some_iff, written]
  simp only [BrowserHosts.Sends, spelled, ported, Option.some_inj]
  constructor
  · rintro ⟨_, ⟨other, serialized, rfl⟩, same | ⟨default, same⟩⟩
    · have tails : host ++ portText port = other ++ portText (writtenPort parts.scheme port) := by
        simpa using same
      by_cases default : port = some (defaultPort parts.scheme)
      · -- a port would stand in the host that is sent
        rw [writtenPort, if_pos default, default] at tails
        have whole : other = host ++ portText (some (defaultPort parts.scheme)) := by
          rw [tails]
          exact (List.append_nil other).symm
        have bracket := browser.bracketed _ _ serialized (by simp [whole, portText])
        rw [whole, List.mem_append] at bracket
        rcases mem_portText (bracket.resolve_left opening) with mark | digit
        · exact absurd mark (by decide)
        · exact absurd digit (by decide)
      · rw [writtenPort, if_neg default] at tails
        rw [serialized, List.append_cancel_right tails]
    · rw [writtenPort, if_pos default, default] at same
      have tails : host ++ portText (some (defaultPort parts.scheme)) =
          other ++ portText (some (defaultPort parts.scheme)) := by
        simpa [portText] using same
      rw [serialized, List.append_cancel_right tails]
  · intro serialized
    refine ⟨_, ⟨host, serialized, rfl⟩, ?_⟩
    by_cases default : port = some (defaultPort parts.scheme)
    · refine Or.inr ⟨default, ?_⟩
      rw [writtenPort, if_pos default, default]
      simp [portText]
    · rw [writtenPort, if_neg default]
      exact Or.inl rfl

end Hosts

section Origin

variable {scheme netloc url : Str}

theorem IsScheme.spec (valid : IsScheme scheme) : ∃ c rest, scheme = c :: rest ∧
    isC0ControlOrSpace c = false ∧ ∀ d ∈ scheme, isUnsafe d = false ∧ d ≠ '\\' := by
  obtain ⟨first, rest⟩ := valid
  cases scheme with
  | nil => cases first
  | cons c scheme =>
      refine ⟨c, scheme, rfl, not_isC0ControlOrSpace_of_isLetter first, fun d member => ?_⟩
      have char := List.all_eq_true.mp rest d member
      constructor
      · by_contra dirty
        simp only [isUnsafe, Bool.not_eq_false, Bool.or_eq_true, beq_iff_eq] at dirty
        rcases dirty with (rfl | rfl) | rfl <;> exact absurd char (by decide)
      · rintro rfl
        exact absurd char (by decide)

theorem browserClean_absolute (valid : IsScheme scheme) (netloc rest : Str) :
    browserClean (scheme ++ ':' :: '/' :: '/' :: netloc ++ '/' :: rest) =
      scheme ++ ':' :: '/' :: '/' :: (netloc.filter (fun c => !isUnsafe c) ++
        browserClean ('/' :: rest)) := by
  obtain ⟨c, tail, shape, start, plain⟩ := valid.spec
  have kept : scheme.filter (fun c => !isUnsafe c) = scheme :=
    List.filter_eq_self.mpr fun d member => by simp [(plain d member).1]
  have cleaned := browserClean_append start (tail ++ ':' :: '/' :: '/' :: netloc) rest
  rw [← List.cons_append, ← shape, List.filter_append, kept] at cleaned
  rw [cleaned]
  simp [isUnsafe]

/-- Behind a scheme and a netloc that a browser reads as they are, it reads the path alone. -/
theorem browsedSegments_absolute (valid : IsScheme scheme) (hosted : netloc ≠ [])
    (inside : ∀ c ∈ netloc, isDelim c = false ∧ isUnsafe c = false ∧ c ≠ '\\') {rest : Str}
    (free : '\\' ∉ rest) : browsedSegments (scheme ++ ':' :: '/' :: '/' :: netloc ++ '/' :: rest) =
      readSegments (browserClean ('/' :: rest)) := by
  obtain ⟨_, _, _, _, plain⟩ := valid.spec
  obtain ⟨tail, cleaned⟩ : ∃ tail, browserClean ('/' :: rest) = '/' :: tail :=
    ⟨_, browserClean_slash rest⟩
  have schemed : scheme.map slashed = scheme := map_slashed fun member => (plain _ member).2 rfl
  have kept : netloc.filter (fun c => !isUnsafe c) = netloc :=
    List.filter_eq_self.mpr fun c member => by simp [(inside c member).2.1]
  have host : netloc.map slashed = netloc :=
    map_slashed fun member => (inside _ member).2.2 rfl
  have path : (browserClean ('/' :: rest)).map slashed = browserClean ('/' :: rest) := by
    refine map_slashed fun member => free ?_
    rw [browserClean_slash, List.mem_cons] at member
    exact (List.rdropWhile_prefix _ _).subset
      (List.mem_of_mem_filter (member.resolve_left (by decide)))
  have read : (browserClean (scheme ++ ':' :: '/' :: '/' :: netloc ++ '/' :: rest)).map slashed =
      scheme ++ ':' :: '/' :: '/' :: (netloc ++ browserClean ('/' :: rest)) := by
    rw [browserClean_absolute valid, kept]
    simp [schemed, host, path, slashed]
  obtain ⟨c, more, shape⟩ := List.exists_cons_of_ne_nil hosted
  have first : (c == '/') = false :=
    beq_eq_false_iff_ne.mpr (isDelim_eq_false.mp (inside c (by simp [shape])).1).1
  have skipped : ('/' :: '/' :: (netloc ++ browserClean ('/' :: rest))).dropWhile (· == '/') =
      netloc ++ browserClean ('/' :: rest) := by
    simp [shape, first]
  have passed : (netloc ++ browserClean ('/' :: rest)).dropWhile (!isDelim ·) =
      browserClean ('/' :: rest) := by
    rw [List.dropWhile_append_of_pos fun d member => by simp [(inside d member).1], cleaned]
    rfl
  simp only [browsedSegments, read, splitScheme_append valid, skipped, passed]

theorem IsOrigin.generic_append (origin : IsOrigin scheme netloc url) (tail : Str)
    (boundary : ∀ c ∈ tail.head?, isDelim c = true) :
    (generic (url ++ tail)).scheme = asciiLower scheme ∧ (generic (url ++ tail)).netloc = netloc := by
  have parts := generic_absolute origin.valid (fun c member => (origin.visible c member).2.1) boundary
  rw [← List.cons_append, ← List.cons_append, ← List.cons_append, ← List.append_assoc,
    ← origin.spelled] at parts
  rw [parts]
  exact ⟨rfl, rfl⟩

theorem IsOrigin.browserClean_append (origin : IsOrigin scheme netloc url) {tail : Str}
    (rooted : tail = [] ∨ ∃ rest, tail = '/' :: rest) :
    ∃ tail', browserClean (url ++ tail) = url ++ tail' ∧ (tail' = [] ∨ ∃ rest, tail' = '/' :: rest) := by
  obtain ⟨c, front, shape, start, plain⟩ := origin.valid.spec
  have safe : ∀ d ∈ netloc, isUnsafe d = false := by
    intro d member
    have visible := (origin.visible d member).1
    by_contra dirty
    simp only [isUnsafe, Bool.not_eq_false, Bool.or_eq_true, beq_iff_eq] at dirty
    rcases dirty with (rfl | rfl) | rfl <;> exact absurd visible (by decide)
  have kept : netloc.filter (fun c => !isUnsafe c) = netloc :=
    List.filter_eq_self.mpr fun d member => by simp [safe d member]
  rcases rooted with rfl | ⟨rest, rfl⟩
  · refine ⟨[], ?_, Or.inl rfl⟩
    obtain ⟨rest, last, ends⟩ := (List.eq_nil_or_concat' netloc).resolve_left origin.hosted
    have visible := (origin.visible last (by simp [ends])).1
    have trimmed : url.rdropWhile isC0ControlOrSpace = url := by
      rw [origin.spelled, ends, ← List.cons_append, ← List.cons_append, ← List.cons_append,
        ← List.append_assoc, List.rdropWhile_concat_neg _ _ _ (by simp [isC0ControlOrSpace, visible])]
    rw [List.append_nil, browserClean, trimmed, origin.spelled, shape,
      List.cons_append]
    refine clean_eq_self start fun d member => ?_
    rw [← List.cons_append, ← shape, List.mem_append] at member
    rcases member with mine | other
    · exact (plain d mine).1
    · simp only [List.mem_cons] at other
      rcases other with rfl | rfl | rfl | other
      · rfl
      · rfl
      · rfl
      · exact safe d other
  · refine ⟨browserClean ('/' :: rest), ?_, Or.inr ⟨_, browserClean_slash rest⟩⟩
    rw [origin.spelled, browserClean_absolute origin.valid, kept]
    simp

theorem IsOrigin.browse_append (origin : IsOrigin scheme netloc url) {tail : Str}
    (rooted : tail = [] ∨ ∃ rest, tail = '/' :: rest) :
    browse (url ++ tail) = ⟨asciiLower scheme, netloc⟩ := by
  obtain ⟨tail', cleaned, rooted'⟩ := origin.browserClean_append rooted
  obtain ⟨_, _, _, _, plain⟩ := origin.valid.spec
  have schemed : scheme.map slashed = scheme := map_slashed fun member => (plain _ member).2 rfl
  have hosted : netloc.map slashed = netloc :=
    map_slashed fun member => (origin.visible _ member).2.2 rfl
  have inside : ∀ c ∈ netloc, (!isDelim c) = true := fun c member => by
    simp [(origin.visible c member).2.1]
  have read : (browserClean (url ++ tail)).map slashed =
      scheme ++ ':' :: '/' :: '/' :: (netloc ++ tail'.map slashed) := by
    rw [cleaned, origin.spelled]
    simp [schemed, hosted, slashed]
  obtain ⟨c, rest, shape⟩ := List.exists_cons_of_ne_nil origin.hosted
  have first : (c == '/') = false := by
    have mine := (origin.visible c (by simp [shape])).2.1
    exact beq_eq_false_iff_ne.mpr (isDelim_eq_false.mp mine).1
  have skipped : ('/' :: '/' :: (netloc ++ tail'.map slashed)).dropWhile (· == '/') =
      netloc ++ tail'.map slashed := by
    simp [shape, first]
  simp only [browse, read, splitScheme_append origin.valid, skipped]
  rw [List.takeWhile_append_of_pos inside]
  rcases rooted' with rfl | ⟨rest, rfl⟩
  · simp
  · simp [slashed, isDelim]

end Origin

end Url
