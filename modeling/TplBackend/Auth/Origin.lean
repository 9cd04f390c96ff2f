import TplBackend.Auth.ReturnPath

namespace TplBackend

open Raise Text Url

variable {U : Platform} {browser : BrowserHosts} {value origin : Str} {field : String}
variable {parts : SplitResult}

def SameOrigin (U : Platform) (first second : SplitResult) : Prop :=
  first.scheme = second.scheme ∧ first.hostname U = second.hostname U ∧ first.port = second.port

/-- The text is accepted as it stands as the origin of these parts, a browser on them sends it, and
redirects that start with it lead to them. -/
structure Canonical (U : Platform) (browser : BrowserHosts) (parts : SplitResult) (origin : Str) :
    Prop where
  fixed : ∀ field, Settings.strictOrigin U origin field = .ok origin
  parsed : ∃ again, urlsplit U origin = some again ∧ SameOrigin U again parts
  sent : browser.Sends parts origin
  extended : ∀ (profile : BrowserSurfaceProfile) (path : Str), profile.frontendBaseUrl = origin →
    ['/'] <+: path →
      ∃ landed, urlsplit U (frontendRedirect profile path) = some landed ∧ SameOrigin U landed parts

section Netloc

theorem netloc_of_mem_hostname (unicode : U.Unicode) {c : Char} (ascii : isAscii c = true)
    (plain : isLetter c = false) (member : c ∈ parts.hostname U) : c ∈ parts.netloc :=
  mem_rawHost ((mem_hostname unicode ascii plain).mp member)

theorem hosted_inside (unicode : U.Unicode) (well : Wellsplit U parts) (port : Option Nat) :
    ∀ c ∈ parts.hostname U ++ portText port, isDelim c = false ∧ isUnsafe c = false := by
  intro c member
  rcases List.mem_append.mp member with host | added
  · constructor
    · by_contra stops
      refine stops (well.netloc c (netloc_of_mem_hostname unicode ?_ ?_ host)) <;>
      · simp only [isDelim, Bool.not_eq_false, Bool.or_eq_true, beq_iff_eq] at stops
        rcases stops with (rfl | rfl) | rfl <;> rfl
    · by_contra dirty
      refine dirty (well.safe c (List.mem_append_left _ (netloc_of_mem_hostname unicode ?_ ?_ host))) <;>
      · simp only [isUnsafe, Bool.not_eq_false, Bool.or_eq_true, beq_iff_eq] at dirty
        rcases dirty with (rfl | rfl) | rfl <;> rfl
  · rcases mem_portText added with rfl | digit
    · exact ⟨rfl, rfl⟩
    · refine ⟨isDelim_of_isDigit digit, ?_⟩
      by_contra dirty
      simp only [isUnsafe, Bool.not_eq_false, Bool.or_eq_true, beq_iff_eq] at dirty
      rcases dirty with (rfl | rfl) | rfl <;> exact absurd digit (by decide)

theorem hosted_checknetloc (unicode : U.Unicode) (well : Wellsplit U parts) (port : Option Nat) :
    checknetloc U (parts.hostname U ++ portText port) = true := by
  have checked := (Bool.and_eq_true_iff.mp well.checked).2
  rw [checknetloc_iff unicode well.netloc] at checked
  rw [checknetloc_iff unicode fun c member => (hosted_inside unicode well port c member).1]
  intro d member other c separator gained
  rcases List.mem_append.mp member with host | added
  · refine checked d (mem_rawHost ?_) other c separator gained
    by_cases empty : parts.rawHost = []
    · rw [SplitResult.hostname, if_pos empty] at host
      cases host
    · rw [hostname_eq parts empty] at host
      rcases List.mem_append.mp host with lowered | zone
      · exact (prefix_before _ _).subset (unicode.lower_separator _ d lowered c separator gained)
      · exact (List.dropWhile_sublist _).subset zone
  · rcases mem_portText added with rfl | digit
    · exact other (by decide)
    · have ascii : [d].all isAscii = true := by simp [isAscii_of_isDigit digit]
      rw [unicode.nfkc_ascii [d] ascii, List.mem_singleton] at gained
      exact other (gained ▸ separator)

end Netloc

section Canonical

variable {port : Option Nat}

theorem canonical_of_plain (unicode : U.Unicode) (well : Wellsplit U parts)
    (ported : parts.port = some port) (only : Settings.OriginOnly U parts)
    (colon : ':' ∉ parts.rawHost) (opening : '[' ∉ parts.rawHost)
    (serialized : browser.serialize parts.hostText = some (parts.hostname U)) :
    Canonical U browser parts (parts.scheme ++ ':' :: '/' :: '/' :: (parts.hostname U ++ portText port)) := by
  obtain ⟨brackets, _⟩ := Bool.and_eq_true_iff.mp well.checked
  have closing := rawHost_closing brackets only.bare.1 only.bare.2
  have free {c : Char} (ascii : isAscii c = true) (plain : isLetter c = false)
      (absent : c ∉ parts.rawHost) : c ∉ parts.hostname U := fun member =>
    absent ((mem_hostname unicode ascii plain).mp member)
  have colon' := free (c := ':') rfl rfl colon
  have opening' := free (c := '[') rfl rfl opening
  have closing' := free (c := ']') rfl rfl closing
  have credentials := free (c := '@') rfl rfl fun member => not_mem_hostinfo parts (mem_hostinfo member)
  have unbracketed : ∀ c ∈ ['[', ']'], c ∉ portText port := by
    intro c listed member
    simp only [List.mem_cons, List.not_mem_nil, or_false] at listed
    rcases mem_portText member with rfl | digit
    · rcases listed with same | same <;> exact absurd same (by decide)
    · rcases listed with rfl | rfl <;> exact absurd digit (by decide)
  have checked : (checkBrackets U (parts.hostname U ++ portText port) &&
      checknetloc U (parts.hostname U ++ portText port)) = true := by
    rw [hosted_checknetloc unicode well port, Bool.and_true]
    refine checkBrackets_of_free ?_ ?_ <;> rw [List.mem_append, not_or]
    · exact ⟨opening', unbracketed '[' (by decide)⟩
    · exact ⟨closing', unbracketed ']' (by decide)⟩
  have split := urlsplit_origin (U := U) only.web (hosted_inside unicode well port)
  rw [if_pos checked] at split
  let again : SplitResult := ⟨parts.scheme, parts.hostname U ++ portText port, [], [], []⟩
  have hosted : again.netloc = parts.hostname U ++ portText port := rfl
  obtain ⟨whole, host, raw⟩ := rawHost_hosted credentials opening' colon' hosted
  have named := hostname_of_rawHost unicode host
  have ported' : again.port = some port :=
    port_of_rawPort (fun n given => port_le (given ▸ ported)) raw
  have bare : '@' ∉ again.netloc := whole ▸ not_mem_hostinfo again
  have same : SameOrigin U again parts := ⟨rfl, named, ported'.trans ported.symm⟩
  have some_ : again.netloc ≠ [] := fun none_ => only.named (List.append_eq_nil_iff.mp none_).1
  refine ⟨fun field => ?_, ⟨again, split, same⟩, ?_, fun profile path base rooted => ?_⟩
  · refine Settings.strictOrigin_iff.mpr ⟨fun wild => ?_, again, port, split, ported',
      ⟨only.web, named ▸ only.named, ⟨if_neg bare, if_neg bare⟩, Or.inl rfl, rfl, rfl⟩, by rw [named]⟩
    have scheme : ':' ∈ ['*'] := wild ▸ (by simp)
    exact absurd scheme (by decide)
  · exact (sends_iff ported opening').mpr serialized
  · obtain ⟨rest, rfl⟩ := rooted
    obtain ⟨landed, reached, scheme, netloc⟩ := urlsplit_append split
      (webSchemes_spec only.web).1.free.1 some_ (show isDelim '/' = true from rfl) rest
    refine ⟨landed, ?_, scheme, (hostname_congr netloc).trans named, (port_congr netloc).trans same.2.2⟩
    rw [frontendRedirect, base, rstrip_origin some_ fun c member =>
      (hosted_inside unicode well port c member).1]
    exact reached

/-- What `_strict_origin` returns is canonical exactly where the host of the value has no colon and no
opening bracket, since brackets around a host are dropped, and a browser writes it as its lower case. -/
theorem strictOrigin_canonical_iff (unicode : U.Unicode)
    (strict : Settings.strictOrigin U value field = .ok origin) (split : urlsplit U value = some parts) :
    Canonical U browser parts origin ↔ ':' ∉ parts.rawHost ∧ '[' ∉ parts.rawHost ∧
      browser.serialize parts.hostText = some (parts.hostname U) := by
  obtain ⟨_, parts', port, split', ported, only, rfl⟩ := Settings.strictOrigin_iff.mp strict
  cases Option.some.inj (split.symm.trans split')
  have well := wellsplit_of_urlsplit split
  refine ⟨fun canonical => ?_, fun plain =>
    canonical_of_plain unicode well ported only plain.1 plain.2.1 plain.2.2⟩
  obtain ⟨again, parsed, same⟩ := canonical.parsed
  rw [urlsplit_origin only.web (hosted_inside unicode well port), Option.ite_none_right_eq_some] at parsed
  obtain ⟨checked, built⟩ := parsed
  cases built
  obtain ⟨brackets, _⟩ := Bool.and_eq_true_iff.mp checked
  have lettered {c : Char} (ascii : isAscii c = true) (plain : isLetter c = false) :
      c ∈ parts.hostname U ↔ c ∈ parts.rawHost := mem_hostname unicode ascii plain
  have closing : ']' ∉ parts.hostname U ++ portText port := by
    rw [List.mem_append, not_or, lettered rfl rfl]
    refine ⟨rawHost_closing (Bool.and_eq_true_iff.mp well.checked).1 only.bare.1 only.bare.2,
      fun member => ?_⟩
    rcases mem_portText member with same | digit
    · exact absurd same (by decide)
    · exact absurd digit (by decide)
  have opening : '[' ∉ parts.hostname U ++ portText port := by
    simp only [checkBrackets, Bool.and_eq_true, beq_iff_eq] at brackets
    simpa [closing] using brackets.1
  have opening' : '[' ∉ parts.rawHost := by
    rw [← lettered rfl rfl]
    exact fun member => opening (List.mem_append_left _ member)
  refine ⟨?_, opening', ?_⟩
  · rw [← lettered rfl rfl, ← same.2.1]
    intro member
    exact rawHost_colon opening ((mem_hostname unicode rfl rfl).mp member)
  · exact (sends_iff ported fun member => opening (List.mem_append_left _ member)).mp canonical.sent

theorem unicode_ascii : Settings.asciiPlatform.Unicode where
  lower_lower s := by
    simp only [Settings.asciiPlatform, List.map_map]
    exact List.map_congr_left fun c _ => toLower_toLower c
  lower_ascii s c _ plain := by
    constructor
    · intro member
      obtain ⟨d, old, rfl⟩ := List.mem_map.mp member
      rwa [toLower_eq_self ((isLetter_toLower d).symm.trans plain)]
    · exact fun old => List.mem_map.mpr ⟨c, old, toLower_eq_self plain⟩
  lower_separator s d member c separator gained := by
    obtain ⟨e, old, rfl⟩ := List.mem_map.mp member
    have same : c = e.toLower := by simpa [Settings.asciiPlatform] using gained
    have plain : isLetter e.toLower = false := by
      simp only [separators, List.mem_cons, List.not_mem_nil, or_false] at separator
      rw [← same]
      rcases separator with rfl | rfl | rfl | rfl | rfl <;> rfl
    rwa [toLower_eq_self ((isLetter_toLower e).symm.trans plain)]
  nfkc_ascii _ _ := rfl
  nfkc_separator s c _ := by simp [Settings.asciiPlatform]

/-- The browsers that take hosts of letters, digits, hyphens and dots. -/
def plainHosts : BrowserHosts where
  serialize host :=
    if host.all (fun c => isLetter c || isDigit c || c == '-' || c == '.') then some (asciiLower host)
    else none
  bracketed host text serialized colon := by
    rw [Option.ite_none_right_eq_some] at serialized
    obtain ⟨plain, ⟨⟩⟩ := serialized
    obtain ⟨c, member, lower⟩ := List.mem_map.mp colon
    have other : isLetter c = false := by
      rw [← isLetter_toLower, lower]
      rfl
    rw [toLower_eq_self other] at lower
    exact absurd (List.all_eq_true.mp plain c member) (by rw [lower]; decide)

theorem strictOrigin_canonical_sample :
    Canonical Settings.asciiPlatform plainHosts
        ⟨"https".toList, "Tpl.Example:0443".toList, ['/'], [], []⟩ "https://tpl.example:443".toList ↔
      ':' ∉ "Tpl.Example".toList ∧ '[' ∉ "Tpl.Example".toList ∧
        plainHosts.serialize "Tpl.Example".toList = some "tpl.example".toList := by
  have strict : Settings.strictOrigin Settings.asciiPlatform "HTTPS://Tpl.Example:0443/".toList "" =
      .ok "https://tpl.example:443".toList := rfl
  exact strictOrigin_canonical_iff unicode_ascii strict rfl

/-- An IPv6 address loses its brackets, and what is left is no origin. -/
theorem strictOrigin_not_canonical : ¬ ∀ (U : Platform) (browser : BrowserHosts) (value origin : Str)
    (field : String) (parts : SplitResult), U.Unicode →
      Settings.strictOrigin U value field = .ok origin → urlsplit U value = some parts →
        Canonical U browser parts origin := by
  intro canonical
  have sample := canonical Settings.asciiPlatform plainHosts "http://[::1]:3000".toList
    "http://::1:3000".toList "" _ unicode_ascii rfl rfl
  exact absurd (sample.fixed "") (by decide)

end Canonical

end TplBackend
