import TplBackend.Library.Text

namespace Url

open Text

/-- What splitting a URL leaves to Unicode and to the address parser: `str.lower`, the NFKC form,
and whether the host between the brackets of a netloc is accepted. -/
structure Platform where
  lower : Str → Str
  nfkc : Str → Str
  bracketed : Str → Bool

structure SplitResult where
  scheme : Str
  netloc : Str
  path : Str
  query : Str
  fragment : Str
  deriving DecidableEq

def isC0ControlOrSpace (c : Char) : Bool := c.toNat ≤ 32

/-- `_UNSAFE_URL_BYTES_TO_REMOVE` -/
def isUnsafe (c : Char) : Bool := c == '\t' || c == '\r' || c == '\n'

def isSchemeChar (c : Char) : Bool := isLetter c || isDigit c || c == '+' || c == '-' || c == '.'

/-- The characters of a URL that `urlsplit` looks at. -/
def clean (url : Str) : Str := (url.dropWhile isC0ControlOrSpace).filter fun c => !isUnsafe c

def asciiLower (s : Str) : Str := s.map Char.toLower

def splitScheme (url : Str) : Str × Str :=
  if ':' ∈ url ∧ (before ':' url).head?.any isLetter ∧ (before ':' url).all isSchemeChar then
    (asciiLower (before ':' url), after ':' url)
  else ([], url)

def isDelim (c : Char) : Bool := c == '/' || c == '?' || c == '#'

def splitNetloc (url : Str) : Str × Str :=
  if ['/', '/'] <+: url then
    ((url.drop 2).takeWhile (!isDelim ·), (url.drop 2).dropWhile (!isDelim ·))
  else ([], url)

/-- Whether `_checknetloc` lets a netloc pass. -/
def checknetloc (U : Platform) (netloc : Str) : Bool :=
  netloc.all isAscii ||
    let n := netloc.filter fun c => c ∉ ['@', ':', '#', '?']
    n == U.nfkc n || (U.nfkc n).all fun c => c ∉ ['/', '?', '#', '@', ':']

/-- Whether the brackets of a netloc raise nothing. -/
def checkBrackets (U : Platform) (netloc : Str) : Bool :=
  ('[' ∈ netloc) == (']' ∈ netloc) && (!('[' ∈ netloc) || U.bracketed netloc)

/-- `urllib.parse.urlsplit`; `none` is the `ValueError` of a bad netloc. -/
def urlsplit (U : Platform) (url : Str) : Option SplitResult :=
  let (scheme, rest) := splitScheme (clean url)
  let (netloc, rest) := splitNetloc rest
  if checkBrackets U netloc && checknetloc U netloc then
    some { scheme
           netloc
           path := before '?' (before '#' rest)
           query := after '?' (before '#' rest)
           fragment := after '#' rest }
  else none

/-- The parts of a URL by the generic syntax of RFC 3986, appendix B. -/
def generic (url : Str) : SplitResult :=
  let (scheme, rest) := splitScheme url
  let (netloc, rest) := splitNetloc rest
  { scheme
    netloc
    path := before '?' (before '#' rest)
    query := after '?' (before '#' rest)
    fragment := after '#' rest }

/-- `uses_netloc` without the empty string. -/
def usesNetloc : List Str :=
  ["ftp", "http", "gopher", "nntp", "telnet", "imap", "wais", "file", "mms", "https", "shttp",
    "snews", "prospero", "rtsp", "rtsps", "rtspu", "rsync", "svn", "svn+ssh", "sftp", "nfs", "git",
    "git+ssh", "ws", "wss", "itms-services"].map String.toList

/-- `urllib.parse.urlunsplit` -/
def urlunsplit (parts : SplitResult) : Str :=
  let url := parts.path
  let url :=
    if parts.netloc ≠ [] ∨ (parts.scheme ∈ usesNetloc ∧ ¬ ['/', '/'] <+: url) then
      ['/', '/'] ++ parts.netloc ++ if url ≠ [] ∧ url.head? ≠ some '/' then '/' :: url else url
    else url
  let url := if parts.scheme ≠ [] then parts.scheme ++ ':' :: url else url
  let url := if parts.query ≠ [] then url ++ '?' :: parts.query else url
  if parts.fragment ≠ [] then url ++ '#' :: parts.fragment else url

namespace SplitResult

def userinfo (parts : SplitResult) : Str := beforeLast '@' parts.netloc

def hostinfo (parts : SplitResult) : Str := afterLast '@' parts.netloc

/-- `username`, with `None` as the empty string. -/
def username (parts : SplitResult) : Str :=
  if '@' ∈ parts.netloc then before ':' parts.userinfo else []

/-- `password`, with `None` as the empty string. -/
def password (parts : SplitResult) : Str :=
  if '@' ∈ parts.netloc then after ':' parts.userinfo else []

def rawHost (parts : SplitResult) : Str :=
  if '[' ∈ parts.hostinfo then before ']' (after '[' parts.hostinfo) else before ':' parts.hostinfo

def rawPort (parts : SplitResult) : Str :=
  if '[' ∈ parts.hostinfo then after ':' (after ']' (after '[' parts.hostinfo))
  else after ':' parts.hostinfo

/-- `hostname`, with `None` as the empty string. -/
def hostname (U : Platform) (parts : SplitResult) : Str :=
  if parts.rawHost = [] then []
  else U.lower (before '%' parts.rawHost) ++ parts.rawHost.dropWhile (· != '%')

/-- `port`; the outer `none` is the `ValueError` of a port that is no number up to 65535. -/
def port (parts : SplitResult) : Option (Option Nat) :=
  if parts.rawPort = [] then some none
  else if parts.rawPort.all isDigit then
    let n := parts.rawPort.foldl (fun n c => 10 * n + (c.toNat - '0'.toNat)) 0
    if n ≤ 65535 then some (some n) else none
  else none

end SplitResult

def portText (port : Option Nat) : Str := port.elim [] fun n => ':' :: Nat.toDigits 10 n

section Slash

theorem isDelim_eq_false {c : Char} : isDelim c = false ↔ c ≠ '/' ∧ c ≠ '?' ∧ c ≠ '#' := by
  simp [isDelim, and_assoc]

theorem isDelim_of_isDigit {c : Char} (digit : isDigit c = true) : isDelim c = false := by
  rw [isDelim_eq_false]
  refine ⟨?_, ?_, ?_⟩ <;> rintro rfl <;> exact absurd digit (by decide)

theorem clean_slash (rest : Str) :
    clean ('/' :: rest) = '/' :: rest.filter fun c => !isUnsafe c := by
  simp [clean, isC0ControlOrSpace, isUnsafe]

end Slash

section Parts

variable {U : Platform} {url url' : Str} {parts first second : SplitResult}

structure Wellsplit (U : Platform) (parts : SplitResult) : Prop where
  netloc : ∀ c ∈ parts.netloc, isDelim c = false
  path : '?' ∉ parts.path ∧ '#' ∉ parts.path
  query : '#' ∉ parts.query
  safe : ∀ c ∈ parts.netloc ++ (parts.path ++ parts.query), isUnsafe c = false
  checked : (checkBrackets U parts.netloc && checknetloc U parts.netloc) = true
  rooted : parts.netloc ≠ [] → parts.path = [] ∨ ∃ rest, parts.path = '/' :: rest

theorem clean_safe {c : Char} (member : c ∈ clean url) : isUnsafe c = false := by
  simpa using (List.mem_filter.mp member).2

theorem mem_splitScheme {c : Char} (member : c ∈ (splitScheme url).2) : c ∈ url := by
  unfold splitScheme at member
  split at member
  · exact mem_after member
  · exact member

theorem splitNetloc_delim {c : Char} (member : c ∈ (splitNetloc url).1) : isDelim c = false := by
  unfold splitNetloc at member
  split at member
  · simpa using List.mem_takeWhile_imp member
  · cases member

theorem mem_splitNetloc {c : Char} (member : c ∈ (splitNetloc url).1 ++ (splitNetloc url).2) :
    c ∈ url := by
  unfold splitNetloc at member
  split at member
  · rw [List.takeWhile_append_dropWhile] at member
    exact List.mem_of_mem_drop member
  · simpa using member

theorem splitNetloc_rest (some_ : (splitNetloc url).1 ≠ []) :
    (splitNetloc url).2 = [] ∨ ∃ c rest, (splitNetloc url).2 = c :: rest ∧ isDelim c = true := by
  unfold splitNetloc at some_ ⊢
  split at some_
  · rename_i slashes
    rw [if_pos slashes]
    cases left : (url.drop 2).dropWhile (!isDelim ·) with
    | nil => exact Or.inl rfl
    | cons c rest =>
        have stopped := List.head_dropWhile_not (!isDelim ·) (by simp [left] : (url.drop 2).dropWhile (!isDelim ·) ≠ [])
        simp only [left, List.head_cons, Bool.not_eq_false'] at stopped
        exact Or.inr ⟨c, rest, rfl, by simpa using stopped⟩
  · exact absurd rfl some_

theorem wellsplit_of_urlsplit (split : urlsplit U url = some parts) : Wellsplit U parts := by
  simp only [urlsplit, Option.ite_none_right_eq_some, Option.some.injEq] at split
  obtain ⟨checked, rfl⟩ := split
  have inside {c : Char} (member : c ∈ (splitNetloc (splitScheme (clean url)).2).1 ++
      (splitNetloc (splitScheme (clean url)).2).2) : isUnsafe c = false :=
    clean_safe (mem_splitScheme (mem_splitNetloc member))
  refine ⟨fun c => splitNetloc_delim, ⟨not_mem_before, fun member => ?_⟩, fun member => ?_,
    fun c member => ?_, checked, fun some_ => ?_⟩
  · exact not_mem_before ((prefix_before _ _).subset member)
  · exact not_mem_before (mem_after member)
  · refine inside ?_
    rcases List.mem_append.mp member with host | rest
    · exact List.mem_append_left _ host
    refine List.mem_append_right _ ((prefix_before '#' _).subset ?_)
    rcases List.mem_append.mp rest with path | query
    · exact (prefix_before _ _).subset path
    · exact mem_after query
  · rcases splitNetloc_rest some_ with none_ | ⟨c, rest, left, stop⟩
    · exact Or.inl (by simp [none_, before])
    · simp only [left]
      by_cases slash : c = '/'
      · subst slash
        exact Or.inr ⟨_, by simp [before]; rfl⟩
      · have ends : c = '?' ∨ c = '#' := by simpa [isDelim, slash] using stop
        rcases ends with rfl | rfl <;> exact Or.inl (by simp [before])

def Platform.KeepsDelims (U : Platform) : Prop :=
  ∀ s, ∀ c ∈ U.lower s, isDelim c = true → c ∈ s

theorem mem_rawHost {c : Char} (member : c ∈ parts.rawHost) : c ∈ parts.netloc := by
  have inner : c ∈ parts.hostinfo := by
    unfold SplitResult.rawHost at member
    split at member
    · exact mem_after ((prefix_before _ _).subset member)
    · exact (prefix_before _ _).subset member
  exact (List.rtakeWhile_suffix _ _).subset inner

theorem hostname_delim (keeps : U.KeepsDelims) (inside : ∀ c ∈ parts.netloc, isDelim c = false)
    {c : Char} (member : c ∈ parts.hostname U) : isDelim c = false := by
  unfold SplitResult.hostname at member
  split at member
  · cases member
  · by_contra stops
    refine stops (inside c (mem_rawHost ?_))
    rcases List.mem_append.mp member with lowered | zone
    · exact (prefix_before _ _).subset (keeps _ c lowered (by simpa using stops))
    · exact (List.dropWhile_sublist _).subset zone

theorem netloc_of_hostname (named : parts.hostname U ≠ []) : parts.netloc ≠ [] := by
  intro empty
  refine named (if_pos ?_)
  simp [SplitResult.rawHost, SplitResult.hostinfo, empty, afterLast, before]

theorem hostname_congr (same : first.netloc = second.netloc) : first.hostname U = second.hostname U := by
  cases first
  cases second
  cases same
  rfl

theorem port_congr (same : first.netloc = second.netloc) : first.port = second.port := by
  cases first
  cases second
  cases same
  rfl

/-- `query` as it stands in a URL. -/
def queryPart (query : Str) : Str := if query = [] then [] else '?' :: query

def webSchemes : List Str := ["http".toList, "https".toList]

def IsScheme (scheme : Str) : Prop :=
  scheme.head?.any isLetter = true ∧ scheme.all isSchemeChar = true

theorem IsScheme.free {scheme : Str} (valid : IsScheme scheme) : scheme ≠ [] ∧ ':' ∉ scheme := by
  constructor
  · rintro rfl
    cases valid.1
  · exact fun member => absurd (List.all_eq_true.mp valid.2 ':' member) (by decide)

theorem webSchemes_spec {scheme : Str} (web : scheme ∈ webSchemes) : IsScheme scheme ∧
    asciiLower scheme = scheme ∧ (∀ c ∈ scheme, isUnsafe c = false) ∧
    ∀ c ∈ scheme, isC0ControlOrSpace c = false := by
  simp only [webSchemes, List.mem_cons, List.not_mem_nil, or_false] at web
  rcases web with rfl | rfl <;>
    simp [IsScheme, asciiLower, isUnsafe, isC0ControlOrSpace, isSchemeChar, isLetter]

theorem not_isC0ControlOrSpace_of_isLetter {c : Char} (letter : isLetter c = true) :
    isC0ControlOrSpace c = false := by
  simp only [isLetter, Bool.or_eq_true, Bool.and_eq_true, decide_eq_true_eq, Char.le_def,
    UInt32.le_iff_toNat_le] at letter
  simp only [isC0ControlOrSpace, decide_eq_false_iff_not, Char.toNat]
  have lower : 'a'.val.toNat = 97 := rfl
  have upper : 'A'.val.toNat = 65 := rfl
  omega

theorem letter_of_scheme (schemed : (generic url).scheme ≠ []) :
    ∃ c rest, url = c :: rest ∧ isLetter c = true := by
  by_cases starts : ':' ∈ url ∧ (before ':' url).head?.any isLetter ∧ (before ':' url).all isSchemeChar
  · obtain ⟨_, first, _⟩ := starts
    cases url with
    | nil => cases first
    | cons c rest =>
        by_cases colon : c = ':'
        · simp [before, colon] at first
        · exact ⟨c, rest, rfl, by simpa [before, colon] using first⟩
  · have bare : splitScheme url = ([], url) := if_neg starts
    exact absurd (by simp only [generic, bare]) schemed

theorem urlunsplit_web {scheme netloc path query : Str} (web : scheme ∈ webSchemes)
    (host : netloc ≠ []) (rooted : path = [] ∨ ∃ rest, path = '/' :: rest) :
    urlunsplit ⟨scheme, netloc, path, query, []⟩ =
      scheme ++ ':' :: '/' :: '/' :: (netloc ++ (path ++ queryPart query)) := by
  have some_ := (webSchemes_spec web).1.free.1
  rcases rooted with rfl | ⟨rest, rfl⟩ <;> by_cases empty : query = [] <;>
    simp [urlunsplit, queryPart, host, some_, empty]

theorem clean_eq_self {c : Char} {rest : Str} (start : isC0ControlOrSpace c = false)
    (safe : ∀ d ∈ c :: rest, isUnsafe d = false) : clean (c :: rest) = c :: rest := by
  rw [clean, List.dropWhile_cons_of_neg (by simp [start]), List.filter_eq_self.mpr]
  exact fun d member => by simp [safe d member]

theorem splitScheme_append {scheme : Str} (valid : IsScheme scheme) (rest : Str) :
    splitScheme (scheme ++ ':' :: rest) = (asciiLower scheme, rest) := by
  have head : before ':' (scheme ++ ':' :: rest) = scheme := by
    rw [before_append_of_not_mem valid.free.2]
    simp [before]
  rw [splitScheme, head, if_pos ⟨by simp, valid⟩, after_append_of_not_mem valid.free.2]

theorem splitNetloc_append {netloc rest : Str} (inside : ∀ c ∈ netloc, isDelim c = false)
    (boundary : ∀ c ∈ rest.head?, isDelim c = true) :
    splitNetloc ('/' :: '/' :: (netloc ++ rest)) = (netloc, rest) := by
  have passed : ∀ c ∈ netloc, (!isDelim c) = true := fun c member => by simp [inside c member]
  rw [splitNetloc, if_pos ⟨netloc ++ rest, rfl⟩]
  simp only [List.drop_succ_cons, List.drop_zero]
  rw [List.takeWhile_append_of_pos passed, List.dropWhile_append_of_pos passed]
  cases rest with
  | nil => simp
  | cons c rest => simp [boundary c rfl]

theorem urlsplit_urlunsplit (origin : Wellsplit U first) (page : Wellsplit U second)
    (web : first.scheme ∈ webSchemes) (host : first.netloc ≠ []) (hosted : second.netloc ≠ []) :
    urlsplit U (urlunsplit ⟨first.scheme, first.netloc, second.path, second.query, []⟩) =
      some ⟨first.scheme, first.netloc, second.path, second.query, []⟩ := by
  obtain ⟨valid, lower, safe, printable⟩ := webSchemes_spec web
  have rooted := page.rooted hosted
  have query : ∀ c ∈ queryPart second.query, c = '?' ∨ c ∈ second.query := by
    intro c member
    unfold queryPart at member
    split at member
    · cases member
    · exact List.mem_cons.mp member
  have cleaned : clean (urlunsplit ⟨first.scheme, first.netloc, second.path, second.query, []⟩) =
      first.scheme ++ ':' :: '/' :: '/' :: (first.netloc ++ (second.path ++ queryPart second.query)) := by
    rw [urlunsplit_web web host rooted]
    obtain ⟨c, rest, shape⟩ := List.exists_cons_of_ne_nil valid.free.1
    rw [shape, List.cons_append]
    refine clean_eq_self (printable c (by simp [shape])) fun d member => ?_
    rw [← List.cons_append, ← shape] at member
    simp only [List.mem_append, List.mem_cons] at member
    rcases member with mine | rfl | rfl | rfl | mine | path | other
    · exact safe d mine
    · rfl
    · rfl
    · rfl
    · exact origin.safe d (List.mem_append_left _ mine)
    · exact page.safe d (List.mem_append_right _ (List.mem_append_left _ path))
    · rcases query d other with rfl | inner
      · rfl
      · exact page.safe d (List.mem_append_right _ (List.mem_append_right _ inner))
  have boundary : ∀ c ∈ (second.path ++ queryPart second.query).head?, isDelim c = true := by
    intro c starts
    rcases rooted with none_ | ⟨rest, shape⟩
    · unfold queryPart at starts
      split at starts
      · simp [none_] at starts
      · simp only [none_, List.nil_append, List.head?_cons, Option.mem_some_iff] at starts
        exact starts ▸ rfl
    · simp only [shape, List.cons_append, List.head?_cons, Option.mem_some_iff] at starts
      exact starts ▸ rfl
  have hash : '#' ∉ second.path ++ queryPart second.query := by
    intro member
    rcases List.mem_append.mp member with path | other
    · exact page.path.2 path
    · rcases query '#' other with same | inner
      · exact absurd same (by decide)
      · exact page.query inner
  have path : before '?' (second.path ++ queryPart second.query) = second.path := by
    rw [before_append_of_not_mem page.path.1]
    by_cases empty : second.query = [] <;> simp [queryPart, empty, before]
  have tail : after '?' (second.path ++ queryPart second.query) = second.query := by
    by_cases empty : second.query = []
    · rw [queryPart, if_pos empty, List.append_nil, after_of_not_mem page.path.1, empty]
    · rw [queryPart, if_neg empty, after_append_of_not_mem page.path.1]
  simp only [urlsplit, cleaned, splitScheme_append valid, lower,
    splitNetloc_append origin.netloc boundary, origin.checked, before_eq_self hash, after_of_not_mem hash, path, tail, if_true]

theorem urlsplit_eq_some : urlsplit U url = some parts ↔ generic (clean url) = parts ∧
    (checkBrackets U parts.netloc && checknetloc U parts.netloc) = true := by
  simp only [urlsplit, generic, Option.ite_none_right_eq_some, Option.some.injEq]
  constructor
  · rintro ⟨checked, rfl⟩
    exact ⟨rfl, checked⟩
  · rintro ⟨rfl, checked⟩
    exact ⟨checked, rfl⟩

theorem generic_absolute {scheme netloc rest : Str} (valid : IsScheme scheme)
    (inside : ∀ c ∈ netloc, isDelim c = false) (boundary : ∀ c ∈ rest.head?, isDelim c = true) :
    generic (scheme ++ ':' :: '/' :: '/' :: (netloc ++ rest)) =
      ⟨asciiLower scheme, netloc, before '?' (before '#' rest), after '?' (before '#' rest),
        after '#' rest⟩ := by
  simp only [generic, splitScheme_append valid, splitNetloc_append inside boundary]

theorem path_cut (rest : Str) : ∃ tail, rest = before '?' (before '#' rest) ++ tail ∧
    (tail = [] ∨ ∃ c more, tail = c :: more ∧ (c = '?' ∨ c = '#')) := by
  induction rest with
  | nil => exact ⟨[], rfl, Or.inl rfl⟩
  | cons c rest ih =>
      by_cases hash : c = '#'
      · exact ⟨c :: rest, by simp [before, hash], Or.inr ⟨c, rest, rfl, Or.inr hash⟩⟩
      by_cases mark : c = '?'
      · exact ⟨c :: rest, by simp [before, mark], Or.inr ⟨c, rest, rfl, Or.inl mark⟩⟩
      · obtain ⟨tail, shape, ends⟩ := ih
        have cut : before '?' (before '#' (c :: rest)) = c :: before '?' (before '#' rest) := by
          simp [before, hash, mark]
        exact ⟨tail, by rw [cut, List.cons_append, ← shape], ends⟩

theorem path_append {path tail : Str} (free : '?' ∉ path ∧ '#' ∉ path)
    (ends : tail = [] ∨ ∃ c more, tail = c :: more ∧ (c = '?' ∨ c = '#')) :
    before '?' (before '#' (path ++ tail)) = path := by
  rw [before_append_of_not_mem free.2]
  rcases ends with rfl | ⟨c, more, rfl, rfl | rfl⟩
  · rw [show before '#' [] = [] from rfl, List.append_nil, before_eq_self free.1]
  · have kept : before '#' ('?' :: more) = '?' :: before '#' more := by simp [before]
    rw [kept, before_append_of_not_mem free.1]
    simp [before]
  · have none_ : before '#' ('#' :: more) = [] := by simp [before]
    rw [none_, List.append_nil, before_eq_self free.1]

theorem absolute_of_generic (schemed : (generic url).scheme ≠ []) (hosted : (generic url).netloc ≠ []) :
    ∃ scheme rest, IsScheme scheme ∧ asciiLower scheme = (generic url).scheme ∧
      url = scheme ++ ':' :: '/' :: '/' :: ((generic url).netloc ++ rest) ∧
      (∀ c ∈ (generic url).netloc, isDelim c = false) ∧ ∀ c ∈ rest.head?, isDelim c = true := by
  obtain ⟨scheme, left, parted, valid, spelled⟩ : ∃ scheme left,
      splitScheme url = (asciiLower scheme, left) ∧ IsScheme scheme ∧ url = scheme ++ ':' :: left := by
    by_cases starts : ':' ∈ url ∧ (before ':' url).head?.any isLetter ∧ (before ':' url).all isSchemeChar
    · exact ⟨_, _, if_pos starts, starts.2, (before_append_after starts.1).symm⟩
    · exact absurd (congrArg Prod.fst (if_neg starts : splitScheme url = ([], url))) schemed
  have netloc : (generic url).netloc = (splitNetloc left).1 := by simp only [generic, parted]
  have lower : (generic url).scheme = asciiLower scheme := by simp only [generic, parted]
  rw [netloc] at hosted ⊢
  by_cases slashes : ['/', '/'] <+: left
  · obtain ⟨tail, rfl⟩ := slashes
    refine ⟨scheme, (splitNetloc (['/', '/'] ++ tail)).2, valid, lower.symm, ?_,
      fun c => splitNetloc_delim, ?_⟩
    · have joined : (splitNetloc (['/', '/'] ++ tail)).1 ++ (splitNetloc (['/', '/'] ++ tail)).2 =
          tail := by
        rw [splitNetloc, if_pos (List.prefix_append _ _)]
        exact List.takeWhile_append_dropWhile
      rw [joined]
      exact spelled
    · intro c starts
      rcases splitNetloc_rest hosted with none_ | ⟨d, rest, shape, stop⟩
      · rw [none_] at starts
        cases starts
      · rw [shape, List.head?_cons, Option.mem_some_iff] at starts
        exact starts ▸ stop
  · exact absurd (congrArg Prod.fst (if_neg slashes : splitNetloc left = ([], left))) hosted

theorem rstrip_origin {netloc : Str} (hosted : netloc ≠ []) (inside : ∀ c ∈ netloc, isDelim c = false)
    (scheme : Str) : rstrip '/' (scheme ++ ':' :: '/' :: '/' :: netloc) =
      scheme ++ ':' :: '/' :: '/' :: netloc := by
  obtain ⟨front, last, rfl⟩ := (List.eq_nil_or_concat' netloc).resolve_left hosted
  have ends := (isDelim_eq_false.mp (inside last (by simp))).1
  have whole := List.rdropWhile_concat_neg (· == '/')
    (scheme ++ ':' :: '/' :: '/' :: front) last (by simpa using ends)
  simpa [rstrip] using whole

theorem clean_append (some_ : clean url ≠ []) (tail : Str) :
    clean (url ++ tail) = clean url ++ tail.filter fun c => !isUnsafe c := by
  have left : url.dropWhile isC0ControlOrSpace ≠ [] := fun none_ => some_ (by rw [clean, none_]; rfl)
  rw [clean, List.dropWhile_append, if_neg (by simpa using left), List.filter_append, clean]

theorem urlsplit_append (split : urlsplit U url = some parts) (schemed : parts.scheme ≠ [])
    (hosted : parts.netloc ≠ []) {c : Char} (stops : isDelim c = true) (tail : Str) :
    ∃ longer, urlsplit U (url ++ c :: tail) = some longer ∧ longer.scheme = parts.scheme ∧
      longer.netloc = parts.netloc := by
  obtain ⟨rfl, checked⟩ := urlsplit_eq_some.mp split
  obtain ⟨scheme, rest, valid, lower, spelled, inside, boundary⟩ := absolute_of_generic schemed hosted
  have some_ : clean url ≠ [] := fun none_ => by
    rw [none_] at schemed
    exact schemed rfl
  have kept : (!isUnsafe c) = true := by
    simp only [isDelim, Bool.or_eq_true, beq_iff_eq] at stops
    rcases stops with (rfl | rfl) | rfl <;> rfl
  have boundary' : ∀ d ∈ (rest ++ (c :: tail).filter fun c => !isUnsafe c).head?, isDelim d = true := by
    intro d starts
    cases rest with
    | nil =>
        simp only [List.nil_append, List.filter_cons, kept, if_true, List.head?_cons,
          Option.mem_some_iff] at starts
        exact starts ▸ stops
    | cons e rest => exact boundary d starts
  have whole := generic_absolute valid inside boundary'
  rw [← List.append_assoc, ← List.cons_append, ← List.cons_append, ← List.cons_append,
    ← List.append_assoc, ← spelled, ← clean_append some_] at whole
  exact ⟨_, urlsplit_eq_some.mpr ⟨whole, checked⟩, lower, rfl⟩

end Parts

end Url
