import TplBackend.Config.Settings
import TplBackend.Library.Descent

namespace TplBackend

open DotSegments Raise Text Url

variable {U : Platform} {settings : Settings} {path url : Str}

inductive DownstreamError
  | badRequest (msg code : String)
  | valueError (msg : String)

def Below (roots : List Str) (path : Str) : Prop :=
  ∃ root ∈ roots, path = root ∨ root ++ ['/'] <+: path

instance (roots : List Str) (path : Str) : Decidable (Below roots path) :=
  inferInstanceAs (Decidable (∃ root ∈ roots, path = root ∨ root ++ ['/'] <+: path))

/-- `DownstreamServiceClient._url` -/
def Settings.downstreamUrl (U : Platform) (self : Settings) (path : Str) :
    Except DownstreamError Str := do
  require (['/'] <+: path ∧ ¬ ['/', '/'] <+: path ∧ '\\' ∉ path ∧ '\x00' ∉ path)
    (.badRequest "The downstream route is invalid" "downstream_route_denied")
  let parsed ← expect (urlsplit U path) (DownstreamError.valueError "Invalid URL")
  require (parsed.scheme = [] ∧ parsed.netloc = [] ∧ parsed.fragment = [])
    (.badRequest "The downstream route is invalid" "downstream_route_denied")
  let allowed ← self.downstreamAllowedPathPrefixList.mapError DownstreamError.valueError
  require (Below allowed parsed.path)
    (.badRequest "The downstream route is not allowed" "downstream_route_denied")
  return rstrip '/' self.downstreamBaseUrl ++ path

/-- Which URLs `httpx` sends a request for: none with an ASCII control character
(`httpx.InvalidURL`), and none without an HTTP scheme (`httpx.UnsupportedProtocol`). -/
structure Httpx where
  sends : Str → Bool
  printable : ∀ url, sends url = true → ∀ c ∈ url, 32 ≤ c.toNat ∧ c.toNat ≠ 127
  schemed : ∀ url, sends url = true → (generic url).scheme ∈ webSchemes

def Httpx.sample : Httpx where
  sends := fun url => url.all (fun c => 32 ≤ c.toNat ∧ c.toNat ≠ 127) &&
    decide ((generic url).scheme ∈ webSchemes)
  printable := fun url sent => by simpa using (Bool.and_eq_true_iff.mp sent).1
  schemed := fun url sent => by simpa using (Bool.and_eq_true_iff.mp sent).2

/-- The request goes to the configured host, and its path stays below an allowed prefix once its
dot segments are removed. -/
def RouteConfined (U : Platform) (settings : Settings) (url : Str) : Prop :=
  ∃ base allowed, urlsplit U settings.downstreamBaseUrl = some base ∧
    settings.downstreamAllowedPathPrefixList = .ok allowed ∧ (generic url).netloc = base.netloc ∧
    Below allowed (removeDotSegments (generic url).path)

section Base

theorem base_shape {base : SplitResult} {value : Str} (split : urlsplit U value = some base)
    (schemed : base.scheme ≠ []) (hosted : base.netloc ≠ []) (clean_ : clean value = value) :
    ∃ scheme rest, IsScheme scheme ∧ (∀ c ∈ base.netloc, isDelim c = false) ∧
      value = (scheme ++ ':' :: '/' :: '/' :: base.netloc) ++ (base.path ++ rest) ∧
      (rest = [] ∨ ∃ c more, rest = c :: more ∧ (c = '?' ∨ c = '#')) := by
  obtain ⟨parsed, _⟩ := urlsplit_eq_some.mp split
  rw [clean_] at parsed
  obtain ⟨scheme, rest, valid, _, spelled, inside, boundary⟩ :=
    absolute_of_generic (by rw [parsed]; exact schemed) (by rw [parsed]; exact hosted)
  rw [parsed] at spelled inside
  have parts := generic_absolute valid inside boundary
  rw [← spelled, parsed] at parts
  obtain ⟨tail, shape, ends⟩ := path_cut rest
  have path : base.path = before '?' (before '#' rest) := congrArg SplitResult.path parts
  refine ⟨scheme, tail, valid, inside, ?_, ends⟩
  rw [path, ← shape]
  simpa using spelled

theorem generic_origin {scheme netloc path tail : Str} (valid : IsScheme scheme)
    (inside : ∀ c ∈ netloc, isDelim c = false) (free : '?' ∉ path ∧ '#' ∉ path)
    (rooted : path = [] ∨ ∃ rest, path = '/' :: rest)
    (ends : tail = [] ∨ ∃ c more, tail = c :: more ∧ (c = '?' ∨ c = '#')) :
    (generic ((scheme ++ ':' :: '/' :: '/' :: netloc) ++ (path ++ tail))).netloc = netloc ∧
      (generic ((scheme ++ ':' :: '/' :: '/' :: netloc) ++ (path ++ tail))).path = path := by
  have boundary : ∀ c ∈ (path ++ tail).head?, isDelim c = true := by
    intro c starts
    rcases rooted with rfl | ⟨rest, rfl⟩
    · rcases ends with rfl | ⟨d, more, rfl, rfl | rfl⟩
      · cases starts
      · exact Option.some.inj starts ▸ rfl
      · exact Option.some.inj starts ▸ rfl
    · exact Option.some.inj starts ▸ rfl
  have parts := generic_absolute valid inside boundary
  rw [← List.cons_append, ← List.cons_append, ← List.cons_append, ← List.append_assoc] at parts
  rw [parts]
  exact ⟨rfl, path_append free ends⟩

variable {httpx : Httpx} {base : SplitResult} {value : Str}

theorem clean_of_sent (start : ['/'] <+: path) (sent : httpx.sends (rstrip '/' value ++ path) = true) :
    clean value = value := by
  obtain ⟨slashes, whole, only⟩ := rstrip_append '/' value
  have schemed : (generic (rstrip '/' value ++ path)).scheme ≠ [] :=
    (webSchemes_spec (httpx.schemed _ sent)).1.free.1
  obtain ⟨c, rest, spelled, letter⟩ := letter_of_scheme schemed
  have first : ∃ more, rstrip '/' value = c :: more := by
    cases stripped : rstrip '/' value with
    | nil =>
        obtain ⟨tail, rfl⟩ := start
        rw [stripped] at spelled
        cases spelled
        exact absurd letter (by decide)
    | cons d more =>
        rw [stripped, List.cons_append, List.cons.injEq] at spelled
        exact ⟨more, by rw [spelled.1]⟩
  obtain ⟨more, stripped⟩ := first
  have shape : value = c :: (more ++ slashes) := by
    rw [stripped] at whole
    exact whole
  rw [shape]
  refine clean_eq_self (not_isC0ControlOrSpace_of_isLetter letter) fun d member => ?_
  have high : 32 ≤ d.toNat := by
    rw [← List.cons_append, ← stripped] at member
    rcases List.mem_append.mp member with mine | slash
    · exact (httpx.printable _ sent d (List.mem_append_left _ mine)).1
    · rw [only d slash]
      decide
  by_contra dirty
  have low : d.toNat < 32 := by
    simp only [isUnsafe, Bool.not_eq_false, Bool.or_eq_true, beq_iff_eq] at dirty
    rcases dirty with (rfl | rfl) | rfl <;> decide
  omega

theorem origin_spec {scheme netloc : Str} (valid : IsScheme scheme) (hosted : netloc ≠ [])
    (inside : ∀ c ∈ netloc, isDelim c = false) :
    (∀ c ∈ scheme ++ ':' :: '/' :: '/' :: netloc, c ≠ '?' ∧ c ≠ '#') ∧
      ∃ front last, scheme ++ ':' :: '/' :: '/' :: netloc = front ++ [last] ∧ last ≠ '/' := by
  constructor
  · intro c member
    simp only [List.mem_append, List.mem_cons] at member
    rcases member with mine | rfl | rfl | rfl | mine
    · have char := List.all_eq_true.mp valid.2 c mine
      constructor <;> rintro rfl <;> exact absurd char (by decide)
    · decide
    · decide
    · decide
    · exact (isDelim_eq_false.mp (inside c mine)).2
  · obtain ⟨front, last, rfl⟩ := (List.eq_nil_or_concat' netloc).resolve_left hosted
    exact ⟨scheme ++ ':' :: '/' :: '/' :: front, last, by simp,
      (isDelim_eq_false.mp (inside last (by simp))).1⟩

/-- Where a sent URL goes: to the host of the base, and to the path given or, where the base goes on
with a query or a fragment, to its root. -/
theorem sent_route (split : urlsplit U value = some base) (schemed : base.scheme ≠ [])
    (hosted : base.netloc ≠ []) (rooted : base.path = [] ∨ base.path = ['/'])
    (start : ['/'] <+: path) (sent : httpx.sends (rstrip '/' value ++ path) = true) :
    (generic (rstrip '/' value ++ path)).netloc = base.netloc ∧
      (('?' ∉ value ∧ '#' ∉ value ∧
          (generic (rstrip '/' value ++ path)).path = before '?' (before '#' path)) ∨
        (¬ ('?' ∉ value ∧ '#' ∉ value) ∧ ((generic (rstrip '/' value ++ path)).path = [] ∨
          (generic (rstrip '/' value ++ path)).path = ['/']))) := by
  obtain ⟨scheme, rest, valid, inside, shape, ends⟩ :=
    base_shape split schemed hosted (clean_of_sent start sent)
  obtain ⟨marks, front, last, origin, notSlash⟩ := origin_spec valid hosted inside
  have baseMarks : ∀ c ∈ base.path, c ≠ '?' ∧ c ≠ '#' := by
    rcases rooted with none_ | slash
    · simp [none_]
    · simp [slash]
  rcases ends with rfl | ⟨c, more, rfl, mark⟩
  · have plain (c : Char) (member : c ∈ value) : c ≠ '?' ∧ c ≠ '#' := by
      rw [shape, List.append_nil] at member
      exact (List.mem_append.mp member).elim (marks c) (baseMarks c)
    have stripped : rstrip '/' value = scheme ++ ':' :: '/' :: '/' :: base.netloc := by
      have whole : rstrip '/' (front ++ [last]) = front ++ [last] :=
        List.rdropWhile_concat_neg _ _ _ (by simpa using notSlash)
      rw [shape, List.append_nil, origin]
      rcases rooted with none_ | slash
      · rw [none_, List.append_nil, whole]
      · rw [slash, rstrip, List.rdropWhile_concat_pos _ _ _ (by simp), ← rstrip, whole]
    obtain ⟨tail, cut, ends⟩ := path_cut path
    obtain ⟨more, below⟩ := start
    have free : '?' ∉ before '?' (before '#' path) ∧ '#' ∉ before '?' (before '#' path) :=
      ⟨not_mem_before, fun member => not_mem_before ((prefix_before _ _).subset member)⟩
    have slash : ∃ rest, before '?' (before '#' path) = '/' :: rest := by
      rw [← below]
      exact ⟨_, by simp [before]; rfl⟩
    have goes := generic_origin valid inside free (Or.inr slash) ends
    rw [← cut, ← stripped] at goes
    exact ⟨goes.1, Or.inl ⟨fun member => (plain _ member).1 rfl, fun member => (plain _ member).2 rfl,
      goes.2⟩⟩
  · have marked : c ∈ value := by simp [shape]
    have other : c ≠ '/' := by rcases mark with rfl | rfl <;> decide
    obtain ⟨extra, stripped⟩ :=
      prefix_rstrip other ((scheme ++ ':' :: '/' :: '/' :: base.netloc) ++ base.path) more
    have spelled : rstrip '/' value ++ path = (scheme ++ ':' :: '/' :: '/' :: base.netloc) ++
        (base.path ++ c :: (extra ++ path)) := by
      have same : value = (scheme ++ ':' :: '/' :: '/' :: base.netloc) ++ base.path ++ [c] ++ more := by
        simp [shape]
      rw [same, ← stripped]
      simp
    have goes := generic_origin valid inside
      ⟨fun member => (baseMarks _ member).1 rfl, fun member => (baseMarks _ member).2 rfl⟩
      (rooted.imp_right fun slash => ⟨[], slash⟩) (Or.inr ⟨c, extra ++ path, rfl, mark⟩)
    rw [← spelled] at goes
    refine ⟨goes.1, Or.inr ⟨?_, goes.2 ▸ rooted⟩⟩
    rintro ⟨noQuery, noFragment⟩
    rcases mark with rfl | rfl
    · exact noQuery marked
    · exact noFragment marked

end Base

section Route

variable {httpx : Httpx} {allowed : List Str}

theorem roots_spec (listed : settings.downstreamAllowedPathPrefixList = .ok allowed) {root : Str}
    (member : root ∈ allowed) : (root = [] ∨ ['/'] <+: root) ∧ ∀ t, root ≠ t ++ ['/'] := by
  obtain ⟨item, _, made⟩ := (mem_mapM_iff listed).mp member
  cases valid : Settings.validateRelativePath item "DOWNSTREAM_ALLOWED_PATH_PREFIXES" with
  | error msg =>
      rw [valid] at made
      cases made
  | ok value =>
      rw [valid] at made
      cases made
      obtain ⟨⟨⟨rest, rfl⟩, _⟩, rfl⟩ := Settings.validateRelativePath_ok.mp valid
      exact ⟨rstrip_cons '/' rest, rstrip_ne_concat _⟩

theorem below_rooted (everything : [] ∈ allowed) (rooted : ['/'] <+: path) : Below allowed path :=
  ⟨[], everything, Or.inr rooted⟩

theorem below_top (stripped : ∀ root ∈ allowed, ∀ t, root ≠ t ++ ['/'])
    (top : path = [] ∨ path = ['/']) : Below allowed path ↔ [] ∈ allowed := by
  constructor
  · rintro ⟨root, member, same | starts⟩
    · rcases top with rfl | rfl
      · exact same ▸ member
      · exact absurd same.symm (stripped root member [])
    · have short := starts.length_le
      rcases top with rfl | rfl
      · simp at short
      · have empty : root = [] := by simpa using short
        exact empty ▸ member
  · intro everything
    rcases top with rfl | rfl
    · exact ⟨[], everything, Or.inl rfl⟩
    · exact below_rooted everything (List.prefix_refl _)

def routeSegments (path : Str) : List Str := segmentsOf (before '?' (before '#' path))

/-- Every path is allowed; or the base URL is an origin only, and behind an allowed prefix, which the
path starts with or comes back to, its segments never climb above that prefix. -/
def RouteStays (settings : Settings) (path : Str) : Prop :=
  ∃ allowed, settings.downstreamAllowedPathPrefixList = .ok allowed ∧ ([] ∈ allowed ∨
    ('?' ∉ settings.downstreamBaseUrl ∧ '#' ∉ settings.downstreamBaseUrl ∧ ∃ root ∈ allowed,
      Stays (segmentsOf root) false (routeSegments path) ∨
        Returns (segmentsOf root) false (routeSegments path)))

theorem accepted_base (accepted : settings.requireDownstreamIdentity U = .ok ()) :
    ∃ base, urlsplit U settings.downstreamBaseUrl = some base ∧ base.scheme ≠ [] ∧
      base.netloc ≠ [] ∧ (base.path = [] ∨ base.path = ['/']) := by
  simp only [Settings.requireDownstreamIdentity, bind_ok] at accepted
  obtain ⟨_, _, _, strict, _⟩ := accepted
  obtain ⟨base, _, split, web, named, rooted, _⟩ := Settings.strictOrigin_ok strict
  exact ⟨base, split, (webSchemes_spec web).1.free.1, netloc_of_hostname named, rooted⟩

theorem downstreamUrl_ok (made : settings.downstreamUrl U path = .ok url) : ['/'] <+: path ∧
    url = rstrip '/' settings.downstreamBaseUrl ++ path ∧
      ∃ allowed, settings.downstreamAllowedPathPrefixList = .ok allowed := by
  simp only [Settings.downstreamUrl, bind_ok, require_ok, pure_ok] at made
  obtain ⟨_, ⟨start, _⟩, _, _, _, _, allowed, listed, _, _, rfl⟩ := made
  exact ⟨start, rfl, allowed, mapError_ok.mp listed⟩

theorem routeStays_iff (listed : settings.downstreamAllowedPathPrefixList = .ok allowed) :
    RouteStays settings path ↔ [] ∈ allowed ∨ ('?' ∉ settings.downstreamBaseUrl ∧
      '#' ∉ settings.downstreamBaseUrl ∧ ∃ root ∈ allowed,
        Stays (segmentsOf root) false (routeSegments path) ∨
          Returns (segmentsOf root) false (routeSegments path)) := by
  constructor
  · rintro ⟨_, listed', whole⟩
    cases Except.ok.inj (listed.symm.trans listed')
    exact whole
  · exact fun whole => ⟨allowed, listed, whole⟩

theorem below_route_iff (listed : settings.downstreamAllowedPathPrefixList = .ok allowed)
    (start : ['/'] <+: path) :
    Below allowed (removeDotSegments (before '?' (before '#' path))) ↔
      ∃ root ∈ allowed, Stays (segmentsOf root) false (routeSegments path) ∨
        Returns (segmentsOf root) false (routeSegments path) := by
  have absolute : ['/'] <+: before '?' (before '#' path) := by
    obtain ⟨rest, rfl⟩ := start
    exact ⟨_, by simp [before]; rfl⟩
  refine exists_congr fun root => and_congr_right fun member => ?_
  obtain ⟨first, ends⟩ := roots_spec listed member
  have removed := removed_below_iff first ends (segmentsOf_ne_nil (absolute.ne_nil (by simp)))
    (plain_segmentsOf (before '?' (before '#' path)))
  rwa [join_segmentsOf (Or.inr absolute)] at removed

/-- The allowlist is checked before dot segments are removed, so a sent request stays on its route
exactly where the path given does. -/
theorem route_confined_iff (accepted : settings.requireDownstreamIdentity U = .ok ())
    (made : settings.downstreamUrl U path = .ok url) (sent : httpx.sends url = true) :
    RouteConfined U settings url ↔ RouteStays settings path := by
  obtain ⟨base, split, schemed, hosted, rooted⟩ := accepted_base accepted
  obtain ⟨start, rfl, allowed, listed⟩ := downstreamUrl_ok made
  obtain ⟨host, route⟩ := sent_route split schemed hosted rooted start sent
  have confined : RouteConfined U settings (rstrip '/' settings.downstreamBaseUrl ++ path) ↔
      Below allowed (removeDotSegments
        (generic (rstrip '/' settings.downstreamBaseUrl ++ path)).path) := by
    constructor
    · rintro ⟨_, _, _, listed', _, below⟩
      cases Except.ok.inj (listed.symm.trans listed')
      exact below
    · exact fun below => ⟨base, allowed, split, listed, host, below⟩
  rw [confined, routeStays_iff listed]
  rcases route with ⟨noQuery, noFragment, own⟩ | ⟨marked, top⟩
  · rw [own, below_route_iff listed start]
    constructor
    · exact fun stays => Or.inr ⟨noQuery, noFragment, stays⟩
    · rintro (everything | ⟨_, _, stays⟩)
      · exact ⟨[], everything, stays_top _⟩
      · exact stays
  · have stripped := fun root (member : root ∈ allowed) => (roots_spec listed member).2
    have removed : removeDotSegments (generic (rstrip '/' settings.downstreamBaseUrl ++ path)).path =
        (generic (rstrip '/' settings.downstreamBaseUrl ++ path)).path := by
      rcases top with none_ | slash
      · rw [none_]
        rfl
      · rw [slash]
        rfl
    rw [removed, below_top stripped top]
    constructor
    · exact Or.inl
    · rintro (everything | ⟨noQuery, noFragment, _⟩)
      · exact everything
      · exact absurd ⟨noQuery, noFragment⟩ marked

theorem route_confined_sample :
    RouteConfined Settings.asciiPlatform Settings.sampleSettings
        "https://down.example/api/internal/v1/runs/1".toList ↔
      RouteStays Settings.sampleSettings "/api/internal/v1/runs/1".toList :=
  route_confined_iff rfl rfl (by decide +kernel : Httpx.sample.sends _ = true)

/-- The path is allowed as it is written, and sent to `/admin`. -/
theorem route_escapes : ¬ ∀ (U : Platform) (settings : Settings) (httpx : Httpx) (path url : Str),
    settings.requireDownstreamIdentity U = .ok () → settings.downstreamUrl U path = .ok url →
      httpx.sends url = true → RouteConfined U settings url := by
  intro confined
  obtain ⟨_, allowed, _, listed, _, below⟩ :=
    confined Settings.asciiPlatform Settings.sampleSettings Httpx.sample
      "/api/internal/v1/../../../admin".toList
      "https://down.example/api/internal/v1/../../../admin".toList rfl rfl (by decide +kernel)
  have only : Settings.sampleSettings.downstreamAllowedPathPrefixList =
      .ok ["/api/internal/v1".toList] := rfl
  cases Except.ok.inj (listed.symm.trans only)
  exact absurd below (by decide +kernel)

end Route

end TplBackend
