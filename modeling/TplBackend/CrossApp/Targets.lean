import TplBackend.CrossApp.Links

namespace TplBackend.CrossApp

open JsonText Raise Text Url

structure Target where
  app : Str
  webBaseUrl : Str
  deriving DecidableEq

/-- One turn of the loop of `parse_targets`. -/
def parseTarget (U : Platform) (field : String) (item : Str × List (Str × Value)) :
    Except ConfigError (Str × Target) := do
  let base ← absoluteUrl U ((Dict.get item.2 "web_base_url".toList).getD .null) field
  let parts ← expect (urlsplit U base) .urllib
  require (parts.query = []) (.valueError
    (field ++ " web_base_url of " ++ String.ofList item.1 ++ " must not hold a query"))
  return (item.1, ⟨item.1, rstrip '/' base⟩)

def parseTargets (U : Platform) (text : Str) (field : String) :
    Except ConfigError (List (Str × Target)) := do
  let entries ← entries text field ["web_base_url".toList]
  let targets ← entries.mapM (parseTarget U field)
  return Dict.ofPairs targets

structure TargetRead where
  webBaseUrl : Str
  deriving DecidableEq

structure LinksRead where
  app : Str
  targets : List (Str × TargetRead)
  deriving DecidableEq

/-- The endpoint `links`, for the slug and the `CROSS_APP_TARGETS_JSON` of the settings. -/
def links (U : Platform) (appSlug text : Str) (field : String) : Except ConfigError LinksRead := do
  let targets ← parseTargets U text field
  return ⟨appSlug, targets.map fun target => (target.1, ⟨target.2.webBaseUrl⟩)⟩

def Configured (text : Str) (field : String) (name base : Str) : Prop :=
  ∃ items entry, entries text field ["web_base_url".toList] = .ok items ∧ (name, entry) ∈ items ∧
    Dict.get entry "web_base_url".toList = some (.str base)

section Base

variable {U : Platform} {field : String} {base path : Str} {value : Value} {parts : SplitResult}

/-- Everything that `parse_targets` knows of a base URL. -/
structure Bare (U : Platform) (base : Str) (parts : SplitResult) : Prop where
  split : urlsplit U base = some parts
  web : parts.scheme ∈ webSchemes
  hosted : parts.netloc ≠ []
  printed : ∀ c ∈ base, 32 < c.toNat
  rest : parts.query = [] ∧ parts.fragment = []

theorem absoluteUrl_str {result : Str} (accepted : absoluteUrl U value field = .ok result) :
    value = .str result := by
  cases value with
  | str text =>
      obtain ⟨_, same, accepted⟩ := bind_ok.mp accepted
      cases same
      obtain ⟨_, _, accepted⟩ := bind_ok.mp accepted
      obtain ⟨_, _, accepted⟩ := bind_ok.mp accepted
      obtain ⟨_, _, accepted⟩ := bind_ok.mp accepted
      obtain ⟨_, _, done⟩ := bind_ok.mp accepted
      rw [pure_ok.mp done]
  | _ => cases accepted

def emptyMarks : List Str := [[], ['?'], ['#'], ['?', '#']]

theorem emptyMarks_of_bare {rest : Str} (query : after '?' (before '#' rest) = [])
    (fragment : after '#' rest = []) :
    ∃ tail ∈ emptyMarks, rest = before '?' (before '#' rest) ++ tail := by
  have marked {mark : Char} {s : Str} (none_ : after mark s = []) :
      s = before mark s ∨ s = before mark s ++ [mark] := by
    by_cases member : mark ∈ s
    · have whole := before_append_after member
      rw [none_] at whole
      exact Or.inr whole.symm
    · exact Or.inl (before_eq_self member).symm
  rcases marked fragment with hash | hash <;> rcases marked query with mark | mark
  · exact ⟨[], by simp [emptyMarks], by rw [← mark, ← hash, List.append_nil]⟩
  · exact ⟨['?'], by simp [emptyMarks], by rw [← mark, ← hash]⟩
  · refine ⟨['#'], by simp [emptyMarks], ?_⟩
    rw [← mark, ← hash]
  · refine ⟨['?', '#'], by simp [emptyMarks], ?_⟩
    have joined : before '?' (before '#' rest) ++ ['?', '#'] =
        before '?' (before '#' rest) ++ ['?'] ++ ['#'] := by simp
    rw [joined, ← mark, ← hash]

theorem Bare.shape (bare : Bare U base parts) : ∃ scheme, IsScheme scheme ∧
    asciiLower scheme = parts.scheme ∧ (∀ c ∈ parts.netloc, isDelim c = false) ∧
    ('?' ∉ parts.path ∧ '#' ∉ parts.path) ∧ ∃ tail ∈ emptyMarks,
      base = scheme ++ ':' :: '/' :: '/' :: (parts.netloc ++ (parts.path ++ tail)) ∧
      ∀ c ∈ (parts.path ++ tail).head?, isDelim c = true := by
  obtain ⟨shape, _⟩ := urlsplit_eq_some.mp bare.split
  rw [clean_of_printed bare.printed] at shape
  have schemed : (generic base).scheme ≠ [] := by
    rw [shape]
    exact (webSchemes_spec bare.web).1.free.1
  have hosted : (generic base).netloc ≠ [] := by
    rw [shape]
    exact bare.hosted
  obtain ⟨scheme, rest, valid, lower, spelled, inside, boundary⟩ := absolute_of_generic schemed hosted
  rw [shape] at lower spelled inside
  have parted := generic_absolute valid inside boundary
  rw [← spelled, shape] at parted
  have path : parts.path = before '?' (before '#' rest) := congrArg SplitResult.path parted
  obtain ⟨tail, marks, whole⟩ := emptyMarks_of_bare
    ((congrArg SplitResult.query parted).symm.trans bare.rest.1)
    ((congrArg SplitResult.fragment parted).symm.trans bare.rest.2)
  rw [← path] at whole
  rw [whole] at spelled boundary
  exact ⟨scheme, valid, lower, inside, (wellsplit_of_urlsplit bare.split).path, tail, marks, spelled,
    boundary⟩

theorem urlsplit_base {scheme rest : Str} (valid : IsScheme scheme)
    (inside : ∀ c ∈ parts.netloc, isDelim c = false)
    (checked : (checkBrackets U parts.netloc && checknetloc U parts.netloc) = true)
    (boundary : ∀ c ∈ rest.head?, isDelim c = true) (rooted : ['/'] <+: path)
    (printed : ∀ c ∈ scheme ++ ':' :: '/' :: '/' :: (parts.netloc ++ rest), 32 < c.toNat) :
    urlsplit U (scheme ++ ':' :: '/' :: '/' :: (parts.netloc ++ rest) ++ path) = some
      ⟨asciiLower scheme, parts.netloc, before '?' (before '#' (rest ++ path.filter (!isUnsafe ·))),
        after '?' (before '#' (rest ++ path.filter (!isUnsafe ·))),
        after '#' (rest ++ path.filter (!isUnsafe ·))⟩ := by
  have cleaned := clean_of_printed printed
  have some_ : clean (scheme ++ ':' :: '/' :: '/' :: (parts.netloc ++ rest)) ≠ [] := by
    rw [cleaned]
    simp
  have boundary' : ∀ c ∈ (rest ++ path.filter (!isUnsafe ·)).head?, isDelim c = true := by
    intro c starts
    cases rest with
    | nil =>
        obtain ⟨more, rfl⟩ := rooted
        simp only [List.nil_append, List.cons_append, isUnsafe, List.filter_cons] at starts
        cases starts
        rfl
    | cons d rest => exact boundary c starts
  refine urlsplit_eq_some.mpr ⟨?_, checked⟩
  rw [clean_append some_, cleaned, ← generic_absolute valid inside boundary']
  simp

theorem rstrip_behind {front rest : Str} (some_ : front ≠ []) (inside : ∀ c ∈ front, isDelim c = false)
    (lead : Str) : rstrip '/' (lead ++ (front ++ rest)) = lead ++ (front ++ rstrip '/' rest) := by
  obtain ⟨before_, last, rfl⟩ := (List.eq_nil_or_concat' front).resolve_left some_
  have ends := (isDelim_eq_false.mp (inside last (by simp))).1
  have kept := rdropWhile_append_cons (p := (· == '/')) (by simpa using ends) (lead ++ before_) rest
  simpa [rstrip] using kept

theorem extended_iff (bare : Bare U base parts) (rooted : ['/'] <+: path) (mark : '?' ∉ path)
    (hash : '#' ∉ path) : urlsplit U (rstrip '/' base ++ path) =
        some ⟨parts.scheme, parts.netloc, rstrip '/' parts.path ++ path, [], []⟩ ↔
      '?' ∉ base ∧ '#' ∉ base ∧ ∀ c ∈ path, isUnsafe c = false := by
  obtain ⟨scheme, valid, lower, inside, free, tail, marks, spelled, start⟩ := bare.shape
  have checked := (wellsplit_of_urlsplit bare.split).checked
  have stripped : rstrip '/' base =
      scheme ++ ':' :: '/' :: '/' :: (parts.netloc ++ rstrip '/' (parts.path ++ tail)) := by
    have whole := @rstrip_behind _ (parts.path ++ tail) bare.hosted inside (scheme ++ [':', '/', '/'])
    simpa [spelled] using whole
  have printed : ∀ c ∈ scheme ++ ':' :: '/' :: '/' ::
      (parts.netloc ++ rstrip '/' (parts.path ++ tail)), 32 < c.toNat := fun c member =>
    bare.printed c ((List.rdropWhile_prefix _ _).subset (stripped ▸ member))
  have boundary : ∀ c ∈ (rstrip '/' (parts.path ++ tail)).head?, isDelim c = true := by
    intro c starts
    obtain ⟨more, whole⟩ : rstrip '/' (parts.path ++ tail) <+: parts.path ++ tail :=
      List.rdropWhile_prefix _ _
    refine start c ?_
    rw [← whole, List.head?_append, starts, Option.some_or]
    exact rfl
  have base_free {c : Char} (stops : isDelim c = true) (other : c ≠ '/') :
      c ∈ base ↔ c ∈ parts.path ++ tail := by
    have apart : c ∉ scheme := fun member => by
      have char := List.all_eq_true.mp valid.2 c member
      simp only [isDelim, Bool.or_eq_true, beq_iff_eq] at stops
      rcases stops with (rfl | rfl) | rfl <;> exact absurd char (by decide)
    have outside : c ∉ parts.netloc := fun member => by
      rw [inside c member] at stops
      cases stops
    have colon : c ≠ ':' := fun same => by
      rw [same] at stops
      cases stops
    rw [spelled]
    simp [apart, outside, colon, other]
  rw [stripped, urlsplit_base valid inside checked boundary rooted printed, Option.some.injEq,
    SplitResult.mk.injEq]
  have slash : '/' ∈ path.filter (!isUnsafe ·) := by
    refine List.mem_filter.mpr ⟨rooted.subset List.mem_cons_self, rfl⟩
  have unmarked : '?' ∉ path.filter (!isUnsafe ·) ∧ '#' ∉ path.filter (!isUnsafe ·) :=
    ⟨fun member => mark (List.mem_of_mem_filter member), fun member => hash (List.mem_of_mem_filter member)⟩
  have safe : path.filter (!isUnsafe ·) = path ↔ ∀ c ∈ path, isUnsafe c = false := by
    simp [List.filter_eq_self]
  rw [base_free rfl (by decide), base_free rfl (by decide), ← safe]
  simp only [emptyMarks, List.mem_cons, List.not_mem_nil, or_false] at marks
  have ended {front : Str} {c : Char} (other : c ≠ '/') : rstrip '/' (front ++ [c]) = front ++ [c] :=
    List.rdropWhile_concat_neg _ _ _ (by simpa using other)
  have some_ : path.filter (!isUnsafe ·) ≠ [] := List.ne_nil_of_mem slash
  rcases marks with rfl | rfl | rfl | rfl
  · have inner : '?' ∉ rstrip '/' parts.path ∧ '#' ∉ rstrip '/' parts.path :=
      ⟨fun member => free.1 ((List.rdropWhile_prefix _ _).subset member),
        fun member => free.2 ((List.rdropWhile_prefix _ _).subset member)⟩
    rw [List.append_nil, before_append_of_not_mem inner.2, before_eq_self unmarked.2,
      before_append_of_not_mem inner.1, before_eq_self unmarked.1, after_append inner.1,
      after_of_not_mem unmarked.1, after_append inner.2, after_of_not_mem unmarked.2]
    simp [lower, free]
  · rw [ended (by decide)]
    refine iff_of_false (fun same => some_ ?_) (fun same => same.1 (by simp))
    have query := same.2.2.2.1
    rw [List.append_assoc, before_append_of_not_mem free.2, List.singleton_append,
      before_eq_self (by simp [unmarked.2]), after_append_of_not_mem free.1] at query
    exact query
  · rw [ended (by decide)]
    refine iff_of_false (fun same => some_ ?_) (fun same => same.2.1 (by simp))
    have fragment := same.2.2.2.2
    rw [List.append_assoc, List.singleton_append, after_append_of_not_mem free.2] at fragment
    exact fragment
  · have both : parts.path ++ ['?', '#'] = parts.path ++ ['?'] ++ ['#'] := by simp
    rw [both, ended (by decide)]
    refine iff_of_false (fun same => some_ ?_) (fun same => same.2.1 (by simp))
    have fragment := same.2.2.2.2
    rw [List.append_assoc, List.singleton_append, after_append_of_not_mem (by simp [free.2])] at fragment
    exact fragment

end Base

section Extension

variable {U : Platform} {appSlug text : Str} {field : String} {read : LinksRead} {name : Str}
  {target : TargetRead}

theorem links_bare (told : links U appSlug text field = .ok read)
    (listed : (name, target) ∈ read.targets) : ∃ base parts, Configured text field name base ∧
      Bare U base parts ∧ target.webBaseUrl = rstrip '/' base := by
  obtain ⟨targets, parsed, told⟩ := bind_ok.mp told
  cases pure_ok.mp told
  obtain ⟨items, entered, parsed⟩ := bind_ok.mp parsed
  obtain ⟨pairs, ran, parsed⟩ := bind_ok.mp parsed
  cases pure_ok.mp parsed
  obtain ⟨pair, member, same⟩ := List.mem_map.mp listed
  cases same
  obtain ⟨item, mine, turn⟩ := (mem_mapM_iff ran).mp (Dict.mem_ofPairs member)
  obtain ⟨base, absolute, turn⟩ := bind_ok.mp turn
  obtain ⟨parts, split, turn⟩ := bind_ok.mp turn
  obtain ⟨_, holds, turn⟩ := bind_ok.mp turn
  cases pure_ok.mp turn
  have given := absoluteUrl_str absolute
  rw [given] at absolute
  obtain ⟨parts', split', web, named, fragment, printed⟩ := absoluteUrl_ok absolute
  cases Option.some.inj ((expect_ok.mp split).symm.trans split')
  refine ⟨base, parts, ⟨items, item.2, entered, mine, ?_⟩, ⟨split', web, netloc_of_hostname named,
    printed, require_ok.mp holds, fragment⟩, rfl⟩
  cases found : Dict.get item.2 "web_base_url".toList with
  | none =>
      rw [found] at given
      cases given
  | some value =>
      rw [found] at given
      exact congrArg some given

/-- A page under a target is on its origin and under its path, with no query and no fragment,
exactly where the configured URL does not end in an empty query or fragment. -/
theorem target_extended_iff (told : links U appSlug text field = .ok read)
    (listed : (name, target) ∈ read.targets) :
    ∃ base parts, Configured text field name base ∧ urlsplit U base = some parts ∧
      ∀ path, ['/'] <+: path → '?' ∉ path → '#' ∉ path →
        (urlsplit U (target.webBaseUrl ++ path) =
            some ⟨parts.scheme, parts.netloc, rstrip '/' parts.path ++ path, [], []⟩ ↔
          '?' ∉ base ∧ '#' ∉ base ∧ ∀ c ∈ path, isUnsafe c = false) := by
  obtain ⟨base, parts, configured, bare, same⟩ := links_bare told listed
  refine ⟨base, parts, configured, bare.split, fun path rooted mark hash => ?_⟩
  rw [same]
  exact extended_iff bare rooted mark hash

def targetsField : String := "CROSS_APP_TARGETS_JSON"

def targetsText : Str :=
  "\x7b\"knowfeed\": \x7b\"web_base_url\": \"https://kf.test/app/\"\x7d\x7d".toList

def targetsRead : LinksRead := ⟨"tpl".toList, [("knowfeed".toList, ⟨"https://kf.test/app".toList⟩)]⟩

theorem links_sample : links samplePlatform "tpl".toList targetsText targetsField = .ok targetsRead :=
  ok_of_toOption (by decide +kernel)

theorem target_extended_sample : ∃ base parts, Configured targetsText targetsField "knowfeed".toList base ∧
    urlsplit samplePlatform base = some parts ∧
    (urlsplit samplePlatform ("https://kf.test/app".toList ++ "/a/b".toList) =
        some ⟨parts.scheme, parts.netloc, rstrip '/' parts.path ++ "/a/b".toList, [], []⟩ ↔
      '?' ∉ base ∧ '#' ∉ base ∧ ∀ c ∈ "/a/b".toList, isUnsafe c = false) := by
  obtain ⟨base, parts, configured, split, extended⟩ :=
    target_extended_iff links_sample List.mem_cons_self
  exact ⟨base, parts, configured, split, extended _ (by decide) (by decide) (by decide)⟩

def openText : Str :=
  "\x7b\"knowfeed\": \x7b\"web_base_url\": \"https://kf.test?\"\x7d\x7d".toList

def openRead : LinksRead := ⟨"tpl".toList, [("knowfeed".toList, ⟨"https://kf.test?".toList⟩)]⟩

/-- A base URL that ends in a question mark is accepted, and a path after it is a query. -/
theorem target_not_extended : ¬ ∀ (U : Platform) (appSlug text : Str) (field : String)
    (read : LinksRead) (name : Str) (target : TargetRead),
    links U appSlug text field = .ok read → (name, target) ∈ read.targets →
      ∃ base parts, Configured text field name base ∧ urlsplit U base = some parts ∧
        ∀ path, ['/'] <+: path → '?' ∉ path → '#' ∉ path →
          urlsplit U (target.webBaseUrl ++ path) =
            some ⟨parts.scheme, parts.netloc, rstrip '/' parts.path ++ path, [], []⟩ := by
  intro extended
  obtain ⟨base, parts, _, _, holds⟩ := extended samplePlatform "tpl".toList openText targetsField openRead
    "knowfeed".toList ⟨"https://kf.test?".toList⟩ (ok_of_toOption (by decide +kernel)) List.mem_cons_self
  have page : (urlsplit samplePlatform ("https://kf.test?".toList ++ "/a".toList)).map
      SplitResult.query = some "/a".toList := by decide +kernel
  rw [holds _ (by decide) (by decide) (by decide)] at page
  have empty : ([] : Str) = "/a".toList := Option.some.inj page
  exact absurd empty (by decide)

end Extension

end TplBackend.CrossApp
