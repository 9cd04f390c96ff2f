import TplBackend.Auth.Transactions
import TplBackend.Library.Browser

namespace TplBackend

open DotSegments Raise Text Transition Url

variable {U : Platform} {svc : AuthService U} {value : Option Str} {returnTo path : Str}

def frontendRedirect (profile : BrowserSurfaceProfile) (path : Str) : Str :=
  rstrip '/' profile.frontendBaseUrl ++ path

/-- The path is one of `allowed_return_paths`, or below one at a segment boundary. -/
def BrowserSurfaceProfile.Allows (profile : BrowserSurfaceProfile) (path : Str) : Prop :=
  ∃ allowed ∈ profile.allowedReturnPaths, Settings.pathWithin path allowed = true

instance (profile : BrowserSurfaceProfile) (path : Str) : Decidable (profile.Allows path) :=
  inferInstanceAs (Decidable (∃ _ ∈ _, _))

/-- A browser ends on an allowed path, or where the default leads it. -/
def ReturnConfined (profile : BrowserSurfaceProfile) (returnTo : Str) : Prop :=
  profile.Allows (visitedPath (frontendRedirect profile returnTo)) ∨
    visitedPath (frontendRedirect profile returnTo) =
      visitedPath (frontendRedirect profile profile.defaultReturnTo)

/-- The segments of a return path that a browser reads, all of the redirect where it reads the base URL
otherwise than it is written. -/
def returnSegments (profile : BrowserSurfaceProfile) (returnTo : Str) : List Str :=
  if profile.frontendBaseUrl.any fun c => isUnsafe c || c == '\\' then
    browsedSegments (frontendRedirect profile returnTo)
  else readSegments (browserClean returnTo)

/-- Behind one of `allowed_return_paths`, which the segments start with or come back to, they never
climb above it. -/
def BrowserSurfaceProfile.Holds (profile : BrowserSurfaceProfile) (segments : List Str) : Prop :=
  ∃ allowed ∈ profile.allowedReturnPaths,
    Stays (segmentsOf (rstrip '/' allowed)) (allowed ≠ ['/'] ∧ ['/'] <:+ allowed) segments ∨
      Returns (segmentsOf (rstrip '/' allowed)) (allowed ≠ ['/'] ∧ ['/'] <:+ allowed) segments

/-- If the value is kept, its segments stay behind an allowed path; a default that does not takes along
the values that end where it ends. -/
def ReturnStays (svc : AuthService U) (value : Option Str) : Prop :=
  ∀ text, value = some text → svc.Keeps text →
    svc.profile.Holds (returnSegments svc.profile text) ∨
      ¬ svc.profile.Holds (returnSegments svc.profile svc.profile.defaultReturnTo) ∧
        kept (returnSegments svc.profile text) ++ closing (returnSegments svc.profile text) =
          kept (returnSegments svc.profile svc.profile.defaultReturnTo) ++
            closing (returnSegments svc.profile svc.profile.defaultReturnTo)

section Base

theorem frontend_shape (delims : U.KeepsDelims) (svc : AuthService U) : ∃ scheme netloc,
    IsScheme scheme ∧ netloc ≠ [] ∧ (∀ c ∈ netloc, isDelim c = false) ∧
      svc.profile.frontendBaseUrl = scheme ++ ':' :: '/' :: '/' :: netloc := by
  have built := svc.built
  simp only [Settings.browserProfile, bind_ok, require_ok, pure_ok] at built
  obtain ⟨base, strict, _, _, _, _, _, _, _, _, _, _, _, _, same⟩ := built
  obtain ⟨scheme, netloc, valid, hosted, inside, rfl⟩ := Settings.strictOrigin_shape delims strict
  exact ⟨scheme, netloc, valid, hosted, inside, by rw [← same]⟩

theorem AuthService.Keeps.safe {text : Str} (keeps : svc.Keeps text) : ['/'] <+: text ∧ '\\' ∉ text :=
  have accepted := (Settings.validateRelativePath_ok.mp keeps.2.1).1
  ⟨accepted.1, accepted.2.2.1⟩

/-- Behind the host a browser reads the segments of the value itself. -/
theorem browsedSegments_redirect (delims : U.KeepsDelims) (svc : AuthService U) {text : Str}
    (keeps : svc.Keeps text) :
    browsedSegments (frontendRedirect svc.profile text) = returnSegments svc.profile text := by
  unfold returnSegments
  split
  · rfl
  · next read =>
    obtain ⟨scheme, netloc, valid, hosted, inside, base⟩ := frontend_shape delims svc
    obtain ⟨⟨rest, rfl⟩, free⟩ := keeps.safe
    have plain : ∀ c ∈ netloc, isDelim c = false ∧ isUnsafe c = false ∧ c ≠ '\\' := by
      intro c member
      refine ⟨inside c member, ?_⟩
      simp only [base, List.any_eq_true, not_exists, not_and, Bool.or_eq_true, not_or,
        Bool.not_eq_true, beq_iff_eq] at read
      exact read c (by simp [member])
    rw [frontendRedirect, base, rstrip_origin hosted inside]
    exact browsedSegments_absolute valid hosted plain fun member => free (List.mem_cons_of_mem _ member)

theorem returnSegments_spec (svc : AuthService U) (text : Str) :
    returnSegments svc.profile text ≠ [] ∧ Plain (returnSegments svc.profile text) := by
  unfold returnSegments
  split
  · exact ⟨readSegments_ne_nil _, plain_readSegments _⟩
  · exact ⟨readSegments_ne_nil _, plain_readSegments _⟩

theorem allowedReturnPaths_spec (svc : AuthService U) {allowed : Str}
    (member : allowed ∈ svc.profile.allowedReturnPaths) :
    ['/'] <+: allowed ∧ ¬ ['/', '/'] <+: allowed := by
  have built := svc.built
  simp only [Settings.browserProfile, bind_ok, require_ok, pure_ok] at built
  obtain ⟨_, _, _, _, _, _, _, _, paths, listed, _, _, _, _, same⟩ := built
  rw [← same] at member
  obtain ⟨item, _, valid⟩ := (mem_mapM_iff listed).mp member
  obtain ⟨⟨slash, slashes, _⟩, rfl⟩ := Settings.validateRelativePath_ok.mp valid
  exact ⟨slash, slashes⟩

end Base

section Allowed

variable {allowed : Str} {segments : List Str}

theorem rstrip_allowed (slash : ['/'] <+: allowed) (slashes : ¬ ['/', '/'] <+: allowed)
    (top : allowed ≠ ['/']) : ['/'] <+: rstrip '/' allowed := by
  obtain ⟨marks, whole, only⟩ := rstrip_append '/' allowed
  obtain ⟨rest, rfl⟩ := slash
  refine (rstrip_cons '/' rest).resolve_left fun none_ => ?_
  -- a text of slashes is the top or starts with two of them
  rw [show ['/'] ++ rest = '/' :: rest from rfl] at *
  rw [none_, List.nil_append] at whole
  cases rest with
  | nil => exact top rfl
  | cons c rest =>
      rw [only c (by simp [← whole])] at slashes
      exact slashes ⟨rest, rfl⟩

theorem pathWithin_iff (slash : ['/'] <+: allowed) (slashes : ¬ ['/', '/'] <+: allowed)
    (some_ : segments ≠ []) (plain : Plain segments) :
    Settings.pathWithin (removeDotSegments (join segments)) allowed = true ↔
      Stays (segmentsOf (rstrip '/' allowed)) (allowed ≠ ['/'] ∧ ['/'] <:+ allowed) segments ∨
        Returns (segmentsOf (rstrip '/' allowed)) (allowed ≠ ['/'] ∧ ['/'] <:+ allowed) segments := by
  by_cases top : allowed = ['/']
  · rw [top, decide_eq_false (by simp), Settings.pathWithin, if_pos rfl, decide_eq_true_iff]
    exact iff_of_true (removed_rooted some_ plain) (stays_top segments)
  have rooted := rstrip_allowed slash slashes top
  rw [Settings.pathWithin, if_neg top, decide_eq_true_iff]
  obtain ⟨marks, whole, only⟩ := rstrip_append '/' allowed
  by_cases ends : ['/'] <:+ allowed
  · rw [decide_eq_true ⟨top, ends⟩, ← removed_inside_iff rooted (rstrip_ne_concat _) some_ plain]
    refine or_iff_right_of_imp fun same => ?_
    cases marks with
    | nil =>
        obtain ⟨front, shape⟩ := ends
        rw [List.append_nil, ← shape] at whole
        exact absurd whole.symm (rstrip_ne_concat _ front)
    | cons mark more =>
        rw [only mark List.mem_cons_self] at whole
        exact ⟨more, by rw [same, List.append_assoc]; exact whole.symm⟩
  · have none_ : marks = [] := by
      rcases List.eq_nil_or_concat' marks with none_ | ⟨front, last, rfl⟩
      · exact none_
      · rw [only last (by simp), ← List.append_assoc] at whole
        exact absurd ⟨_, whole.symm⟩ ends
    rw [none_, List.append_nil] at whole
    rw [decide_eq_false fun deep => ends deep.2, ← whole]
    exact removed_below_iff (Or.inr (whole ▸ slash)) (whole ▸ rstrip_ne_concat _) some_ plain

theorem allows_iff (svc : AuthService U) (text : Str) :
    svc.profile.Allows (removeDotSegments (join (returnSegments svc.profile text))) ↔
      svc.profile.Holds (returnSegments svc.profile text) := by
  obtain ⟨some_, plain⟩ := returnSegments_spec svc text
  refine exists_congr fun allowed => and_congr_right fun member => ?_
  obtain ⟨slash, slashes⟩ := allowedReturnPaths_spec svc member
  exact pathWithin_iff slash slashes some_ plain

end Allowed

theorem confined_of_keeps (delims : U.KeepsDelims) {text : Str} (keeps : svc.Keeps text) :
    ReturnConfined svc.profile text ↔ ReturnStays svc (some text) := by
  have default := AuthService.default_keeps svc
  obtain ⟨some_, plain⟩ := returnSegments_spec svc text
  obtain ⟨some', plain'⟩ := returnSegments_spec svc svc.profile.defaultReturnTo
  rw [ReturnConfined, visitedPath, visitedPath, browsedSegments_redirect delims svc keeps,
    browsedSegments_redirect delims svc default, allows_iff]
  have taken (same : removeDotSegments (join (returnSegments svc.profile text)) =
      removeDotSegments (join (returnSegments svc.profile svc.profile.defaultReturnTo)))
      (holds : svc.profile.Holds (returnSegments svc.profile svc.profile.defaultReturnTo)) :
      svc.profile.Holds (returnSegments svc.profile text) := by
    rw [← allows_iff] at holds ⊢
    rwa [same]
  rw [removed_eq_iff some_ plain some' plain'] at taken ⊢
  constructor
  · rintro stays _ ⟨⟩ _
    by_cases holds : svc.profile.Holds (returnSegments svc.profile text)
    · exact Or.inl holds
    · exact Or.inr ⟨fun own => holds (taken (stays.resolve_left holds) own), stays.resolve_left holds⟩
  · intro stays
    exact (stays text rfl keeps).imp_right And.right

/-- The allowlist is checked before dot segments are removed, so a browser stays on its paths
exactly where the value given does. -/
theorem return_confined_iff (delims : U.KeepsDelims) (svc : AuthService U) (value : Option Str) :
    (∃ returnTo, svc.normalizeReturnTo value = .ok returnTo ∧ ReturnConfined svc.profile returnTo) ↔
      AuthService.Splits U value ∧ ReturnStays svc value := by
  constructor
  · rintro ⟨returnTo, normalized, confined⟩
    refine ⟨(AuthService.normalizeReturnTo_ok_iff svc value).mp ⟨returnTo, normalized⟩, ?_⟩
    rintro text rfl keeps
    rw [AuthService.normalizeReturnTo_of_keeps keeps, Except.ok.injEq] at normalized
    subst normalized
    exact (confined_of_keeps delims keeps).mp confined text rfl keeps
  · rintro ⟨splits, stays⟩
    obtain ⟨returnTo, normalized⟩ := (AuthService.normalizeReturnTo_ok_iff svc value).mpr splits
    refine ⟨returnTo, normalized, ?_⟩
    rcases AuthService.normalizeReturnTo_cases normalized with rfl | ⟨rfl, keeps⟩
    · exact Or.inr rfl
    · exact (confined_of_keeps delims keeps).mpr stays

theorem keepsDelims_ascii : Settings.asciiPlatform.KeepsDelims := by
  intro s c member stops
  obtain ⟨d, old, rfl⟩ := List.mem_map.mp member
  have plain : isLetter d.toLower = false := by
    simp only [isDelim, Bool.or_eq_true, beq_iff_eq] at stops
    rcases stops with (same | same) | same <;> rw [same] <;> rfl
  have lower := toLower_eq_self ((isLetter_toLower d).symm.trans plain)
  rwa [lower]

theorem return_confined_sample : (∃ returnTo,
    sampleService.normalizeReturnTo (some "/home/a/../b".toList) = .ok returnTo ∧
      ReturnConfined sampleService.profile returnTo) ↔
    AuthService.Splits Settings.asciiPlatform (some "/home/a/../b".toList) ∧
      ReturnStays sampleService (some "/home/a/../b".toList) :=
  return_confined_iff keepsDelims_ascii sampleService (some "/home/a/../b".toList)

/-- The value is allowed as it is written, and leads a browser to `/admin`. -/
theorem return_escapes : ¬ ∀ (U : Platform) (svc : AuthService U) (value : Option Str) (returnTo : Str),
    U.KeepsDelims → svc.normalizeReturnTo value = .ok returnTo →
      ReturnConfined svc.profile returnTo := by
  intro confined
  have sample := confined _ sampleService (some "/home/../admin".toList) _ keepsDelims_ascii rfl
  rcases sample with allowed | default
  · exact absurd allowed (by decide +kernel)
  · exact absurd default (by decide +kernel)

/-- A dot that is written `%2e` is a dot to a browser. -/
example : visitedPath "https://tpl.example/home/%2E%2e/admin".toList = "/admin".toList := by
  decide +kernel

section Origin

/-- A redirect after login: the base URL and a path that starts with one slash, which neither
RFC 3986 nor a browser takes to another host. -/
structure OnBase (profile : BrowserSurfaceProfile) (returnTo : Str) : Prop where
  spelled : frontendRedirect profile returnTo = profile.frontendBaseUrl ++ returnTo
  slash : ['/'] <+: returnTo ∧ ¬ ['/', '/'] <+: returnTo
  free : '\\' ∉ returnTo ∧ '\x00' ∉ returnTo
  scheme : (generic (frontendRedirect profile returnTo)).scheme =
    (generic profile.frontendBaseUrl).scheme
  netloc : (generic (frontendRedirect profile returnTo)).netloc =
    (generic profile.frontendBaseUrl).netloc
  browsed : browse (frontendRedirect profile returnTo) = browse profile.frontendBaseUrl

theorem normalizeReturnTo_keeps (normalized : svc.normalizeReturnTo value = .ok returnTo) :
    svc.Keeps returnTo := by
  rcases AuthService.normalizeReturnTo_cases normalized with rfl | ⟨_, kept⟩
  · exact AuthService.default_keeps svc
  · exact kept

theorem onBase_of_keeps {scheme netloc : Str} (kept : svc.Keeps returnTo)
    (origin : IsOrigin scheme netloc svc.profile.frontendBaseUrl) : OnBase svc.profile returnTo := by
  obtain ⟨⟨slash, slashes, backslash, nul, _⟩, _⟩ := Settings.validateRelativePath_ok.mp kept.2.1
  obtain ⟨front, last, ends⟩ := (List.eq_nil_or_concat' netloc).resolve_left origin.hosted
  have whole : rstrip '/' svc.profile.frontendBaseUrl = svc.profile.frontendBaseUrl := by
    have other := isDelim_eq_false.mp (origin.visible last (by simp [ends])).2.1
    rw [origin.spelled, ends, ← List.cons_append, ← List.cons_append, ← List.cons_append,
      ← List.append_assoc, rstrip, List.rdropWhile_concat_neg _ _ _ (by simp [other.1])]
  have spelled : frontendRedirect svc.profile returnTo = svc.profile.frontendBaseUrl ++ returnTo := by
    rw [frontendRedirect, whole]
  obtain ⟨rest, rfl⟩ := slash
  have alone := origin.generic_append [] (by simp)
  have joined := origin.generic_append ('/' :: rest) (by rintro c ⟨⟩; rfl)
  rw [List.append_nil] at alone
  refine ⟨spelled, ⟨⟨rest, rfl⟩, slashes⟩, ⟨backslash, nul⟩, ?_, ?_, ?_⟩
  · rw [spelled]
    exact joined.1.trans alone.1.symm
  · rw [spelled]
    exact joined.2.trans alone.2.symm
  · have alone' := origin.browse_append (Or.inl rfl)
    rw [List.append_nil] at alone'
    rw [spelled, alone']
    exact origin.browse_append (Or.inr ⟨rest, rfl⟩)

end Origin

namespace World

variable {py : Builtins} {settings : Settings} {w : World U}
variable {history : List (Event (World U) (Action U))}

/-- The call took the transaction of a `begin_login` that normalized its value to `returnTo`. -/
def Returns (history : List (Event (World U) (Action U))) (call : Nat) (returnTo : Str) : Prop :=
  ∃ begun ∈ history, ∃ b, Begins begun.label b ∧ returnTo = b.returnTo ∧
    ∃ redeemed ∈ history, ∃ code now,
      redeemed.label = .completeLogin call b.service code b.state (some b.transactionId) now

/-- A value that `urlsplit` takes where it is a safe relative path, and no other, normalizes to a return
path that normalizes to itself and leads nowhere but to the frontend; and a login completes on the
one that it began with. -/
theorem no_open_redirect (run : Run (Step py) init history w) (shared : Shared settings history) :
    (∀ (svc : AuthService U) value, (∃ returnTo, svc.normalizeReturnTo value = .ok returnTo ∧
      svc.normalizeReturnTo (some returnTo) = .ok returnTo ∧
        ∀ scheme netloc, IsOrigin scheme netloc svc.profile.frontendBaseUrl →
          OnBase svc.profile returnTo) ↔ AuthService.Splits U value) ∧
    ∀ front event rest sessionId expiresAt returnTo, history = front ++ event :: rest →
      outcome py event = some (.completed sessionId expiresAt returnTo) →
      ∃ call now, event.label = .createSession call now ∧ Returns front call returnTo := by
  refine ⟨fun svc value => ?_, ?_⟩
  · rw [← AuthService.normalizeReturnTo_ok_iff svc value]
    constructor
    · rintro ⟨returnTo, normalized, _⟩
      exact ⟨returnTo, normalized⟩
    · rintro ⟨returnTo, normalized⟩
      exact ⟨returnTo, normalized, AuthService.normalizeReturnTo_idempotent normalized,
        fun _ _ => onBase_of_keeps (normalizeReturnTo_keeps normalized)⟩
  · intro front event rest sessionId expiresAt returnTo shape told
    obtain ⟨call, now, label, completes⟩ := completed_own run shared shape told
    obtain ⟨earlier, begun, between, redeemed, later, b, code, now', rfl, begins, redeems, _, _, _,
      returns, _⟩ := completes
    exact ⟨call, now, label, begun, by simp, b, begins, returns, redeemed, by simp, code, now',
      redeems⟩

theorem no_open_redirect_sample : (sampleService.normalizeReturnTo (some "/home/x".toList) =
      .ok "/home/x".toList ∧ OnBase sampleService.profile "/home/x".toList) ∧
    ∃ call now, (events sampleBuiltins loginSteps)[5].label = .createSession call now ∧
      Returns ((events sampleBuiltins loginSteps).take 5) call "/home/x".toList := by
  obtain ⟨safe, completes⟩ := no_open_redirect (events_run _ _ loginSteps_taken) loginSteps_shared
  have origin : IsOrigin "https".toList "tpl.example".toList sampleService.profile.frontendBaseUrl :=
    ⟨⟨rfl, rfl⟩, rfl, List.cons_ne_nil _ _, by simp [isDelim]⟩
  obtain ⟨returnTo, normalized, again, onBase⟩ := (safe sampleService (some "/home/x".toList)).mpr
    (by rintro _ ⟨⟩ _; rfl)
  cases Except.ok.inj (normalized.symm.trans (rfl : sampleService.normalizeReturnTo _ =
    .ok "/home/x".toList))
  exact ⟨⟨again, onBase _ _ origin⟩,
    completes _ _ [] (List.replicate 43 'e') (seconds 3611) _ rfl rfl⟩

/-- Without its tab the value starts with a netloc that has an open bracket. -/
theorem redirect_raises : ¬ ∀ (U : Platform) (svc : AuthService U) (value : Option Str)
    (scheme netloc : Str), IsOrigin scheme netloc svc.profile.frontendBaseUrl →
      ∃ returnTo, svc.normalizeReturnTo value = .ok returnTo ∧
        svc.normalizeReturnTo (some returnTo) = .ok returnTo ∧ OnBase svc.profile returnTo := by
  intro safe
  obtain ⟨returnTo, normalized, _⟩ := safe _ sampleService (some "/\t/[".toList) "https".toList
    "tpl.example".toList ⟨⟨rfl, rfl⟩, rfl, List.cons_ne_nil _ _, by simp [isDelim]⟩
  have raised : sampleService.normalizeReturnTo (some "/\t/[".toList) = .error "Invalid URL" := rfl
  rw [raised] at normalized
  cases normalized

end World

end TplBackend
