import TplBackend.Auth.ServiceIdentity

namespace TplBackend

open Raise Text

namespace ServiceIdentityVerifier

/-- Distinct names without white space, within the bounds of `_scopes`. -/
structure ScopeNames (names : List Str) : Prop where
  distinct : names.Nodup
  few : names.length ≤ 128
  name : ∀ scope ∈ names, scope ≠ [] ∧ scope.length ≤ 128 ∧ ∀ c ∈ scope, isSpace c = false

/-- The names as a text with white space between and around them, or as a list, in any order. -/
inductive Encodes (names : List Str) : Json → Prop
  | text {raw : Str} : (words raw).Perm names → Encodes names (.str raw)
  | list {values : List Str} : values.Perm names → Encodes names (.arr (values.map .str))

def Absent (claims : Claims) : Prop :=
  claims.lookup "scope".toList = none ∧ claims.lookup "scp".toList = none

inductive Carries (names : List Str) (claims : Claims) : Prop
  | scope {raw : Json} : claims.lookup "scope".toList = some raw → Encodes names raw →
      Carries names claims
  | scp {raw : Json} : claims.lookup "scope".toList = none →
      claims.lookup "scp".toList = some raw → Encodes names raw → Carries names claims
  | absent : Absent claims → names = [] → Carries names claims

def SameIdentity (claims claims' : Claims) : Prop :=
  ∀ name, name ∉ ["scope".toList, "scp".toList] → claims.lookup name = claims'.lookup name

section Scopes

variable {names values : List Str} {claims : Claims} {raw : Json}

theorem length_sortedSet (distinct : names.Nodup) : (sortedSet names).length = names.length := by
  rw [sortedSet, List.length_insertionSort, distinct.dedup]

theorem normalize_of_perm (valid : ScopeNames names) (perm : values.Perm names) :
    Principal.normalize values = sortedSet names := by
  have plain : ∀ scope ∈ values, strip scope = scope := fun scope member =>
    strip_eq_self (valid.name scope (perm.mem_iff.mp member)).2.2
  have stripped : values.map strip = values := by
    rw [List.map_congr_left plain, List.map_id']
  have kept : values.filter (· ≠ []) = values := List.filter_eq_self.mpr fun scope member => by
    simpa using (valid.name scope (perm.mem_iff.mp member)).1
  rw [Principal.normalize, stripped, kept]
  exact sortedSet_congr fun scope => perm.mem_iff

theorem texts_map (values : List Str) : Json.texts (values.map .str) = some values := by
  induction values with
  | nil => rfl
  | cons value values ih =>
      rw [List.map_cons, Json.texts, List.mapM_cons, ← Json.texts, ih]
      rfl

theorem scopeValues_of_encodes (encodes : Encodes names raw) :
    ∃ values, scopeValues (some raw) = .ok values ∧ values.Perm names := by
  cases encodes with
  | @text raw perm =>
      refine ⟨words raw, ?_, perm⟩
      by_cases blank : strip raw = []
      · have none_ : words raw = [] := by rw [← words_strip, blank]; rfl
        simp [scopeValues, blank, none_]
      · simp [scopeValues, blank, words_strip]
  | @list values perm => exact ⟨values, by simp [scopeValues, texts_map, expect], perm⟩

theorem scopes_of_encodes (valid : ScopeNames names) (encodes : Encodes names raw)
    (found : (claims.lookup "scope".toList).or (claims.lookup "scp".toList) = some raw) :
    scopes claims = .ok (sortedSet names) := by
  obtain ⟨values, read, perm⟩ := scopeValues_of_encodes encodes
  have within : (sortedSet names).length = values.length ∧
      Principal.withinContract (sortedSet names) = true := by
    rw [length_sortedSet valid.distinct, perm.length_eq]
    refine ⟨rfl, ?_⟩
    simp only [Principal.withinContract, Bool.and_eq_true, decide_eq_true_eq, List.all_eq_true,
      length_sortedSet valid.distinct, mem_sortedSet]
    exact ⟨valid.few, fun scope member => (valid.name scope member).2.1⟩
  simp only [scopes, found, read, ok_bind, normalize_of_perm valid perm, require_pos within]
  rfl

theorem scopes_of_carries (valid : ScopeNames names) (carries : Carries names claims)
    (present : ¬ Absent claims) : scopes claims = .ok (sortedSet names) := by
  cases carries with
  | scope found encodes => exact scopes_of_encodes valid encodes (by rw [found, Option.some_or])
  | scp none_ found encodes =>
      exact scopes_of_encodes valid encodes (by rw [none_, found, Option.none_or])
  | absent none_ _ => exact absurd none_ present

theorem scopes_of_absent (none_ : Absent claims) : scopes claims = .error invalidScopes := by
  simp only [scopes, none_.1, none_.2, Option.or_none, scopeValues, error_bind]

end Scopes

section Stages

variable {self : ServiceIdentityVerifier} {claims claims' : Claims} {encoded : Str}
  {names required : List Str}

def Sized (encoded : Str) : Prop := encoded ≠ [] ∧ encoded.length ≤ 16384

instance (encoded : Str) : Decidable (Sized encoded) := inferInstanceAs (Decidable (_ ∧ _))

/-- The checks of `verify` from the claims of a token to the scopes of its subject. -/
def identify (self : ServiceIdentityVerifier) (claims : Claims) :
    Except AuthError (Str × Str × List Str) := do
  require (self.settings.serviceAuthAudience ∈ audiences (Json.get claims "aud"))
    (AuthError.unauthorized "The service identity audience is invalid" "audience_mismatch")
  require (self.registered claims = true) tokenInvalid
  let subject ← expect (Json.get claims "sub").text? tokenInvalid
  let issuer ← expect (Json.get claims "iss").text? tokenInvalid
  let bindings ← self.settings.serviceAuthSubjectBindings self.py
  let allowedScopes ← expect (Dict.get bindings subject)
    (.forbidden "The service identity is not bound to this Backend" "service_subject_unbound")
  return (subject, issuer, allowedScopes)

/-- What `verify` does once it knows the scopes of a token. -/
def authorize (self : ServiceIdentityVerifier) (claims : Claims) (required tokenScopes : List Str)
    (found : Str × Str × List Str) : Except AuthError ServicePrincipal := do
  require ((∀ scope ∈ tokenScopes, scope ∈ found.2.2) ∧ ∀ scope ∈ required, scope ∈ tokenScopes)
    (.forbidden "The service identity scope is not authorized" "service_scope_denied")
  self.principal claims found.1 found.2.1 tokenScopes

theorem verify_eq (decoded : self.decodeSignedToken encoded = .ok claims)
    (ready : self.settings.requireServiceIdentity self.py = .ok ()) :
    self.verify encoded required = (do
      require (Sized encoded) tokenInvalid
      let found ← self.identify claims
      let tokenScopes ← scopes claims
      self.authorize claims required tokenScopes found) := by
  simp only [verify, ready, ok_bind, verifyAccessToken, decoded, identify, authorize, bind_assoc, pure_bind]
  rfl

theorem SameIdentity.get (same : SameIdentity claims claims') {name : String}
    (other : name.toList ∉ ["scope".toList, "scp".toList]) :
    Json.get claims name = Json.get claims' name := by
  rw [Json.get, same _ other, Json.get]

theorem sameIdentity_cons {key : Str} (listed : key ∈ ["scope".toList, "scp".toList]) (raw : Json)
    (claims : Claims) : SameIdentity ((key, raw) :: claims) claims := by
  intro name other
  have apart : (name == key) = false := beq_eq_false_iff_ne.mpr fun same => other (same ▸ listed)
  rw [List.lookup_cons, apart]

theorem identify_congr (same : SameIdentity claims claims') :
    self.identify claims = self.identify claims' := by
  simp only [identify, self.registered_congr _ _ same, same.get (by decide : "aud".toList ∉ _),
    same.get (by decide : "sub".toList ∉ _), same.get (by decide : "iss".toList ∉ _)]

theorem authorize_congr (same : SameIdentity claims claims') {tokenScopes : List Str}
    {found : Str × Str × List Str} : self.authorize claims required tokenScopes found =
      self.authorize claims' required tokenScopes found := by
  simp only [authorize, principal, same.get (by decide : "iat".toList ∉ _),
    same.get (by decide : "exp".toList ∉ _)]

structure Identified (self : ServiceIdentityVerifier) (claims : Claims)
    (found : Str × Str × List Str) : Prop where
  audience : self.settings.serviceAuthAudience ∈ audiences (Json.get claims "aud")
  registered : self.registered claims = true
  subject : (Json.get claims "sub").text? = some found.1
  issuer : (Json.get claims "iss").text? = some found.2.1
  bound : ∃ bindings, self.settings.serviceAuthSubjectBindings self.py = .ok bindings ∧
    Dict.get bindings found.1 = some found.2.2

def Malformed (self : ServiceIdentityVerifier) (claims : Claims) : Prop :=
  self.settings.serviceAuthAudience ∈ audiences (Json.get claims "aud") ∧
    (self.registered claims = false ∨ (Json.get claims "sub").text? = none ∨
      (Json.get claims "iss").text? = none)

def Permitted (names required allowed : List Str) : Prop :=
  (∀ scope ∈ names, scope ∈ allowed) ∧ ∀ scope ∈ required, scope ∈ names

def Misdated (self : ServiceIdentityVerifier) (claims : Claims) : Prop :=
  self.timestamp (Json.get claims "iat") = .error tokenInvalid ∨
    self.timestamp (Json.get claims "exp") = .error tokenInvalid

theorem identify_ok {found : Str × Str × List Str} :
    self.identify claims = .ok found ↔ Identified self claims found := by
  simp only [identify, bind_ok, require_ok, expect_ok, pure_ok]
  constructor
  · rintro ⟨_, audience, _, registered, subject, sub, issuer, iss, bindings, read, allowed, bound, rfl⟩
    exact ⟨audience, registered, sub, iss, bindings, read, bound⟩
  · rintro ⟨audience, registered, sub, iss, bindings, read, bound⟩
    exact ⟨(), audience, (), registered, _, sub, _, iss, bindings, read, _, bound, rfl⟩

theorem bindings_of_ready (ready : self.settings.requireServiceIdentity self.py = .ok ()) :
    ∃ bindings, self.settings.serviceAuthSubjectBindings self.py = .ok bindings := by
  simp only [ServiceSettings.requireServiceIdentity, bind_ok] at ready
  obtain ⟨_, _, bindings, read, _⟩ := ready
  exact ⟨bindings, read⟩

theorem identify_invalid (ready : self.settings.requireServiceIdentity self.py = .ok ()) :
    self.identify claims = .error tokenInvalid ↔ Malformed self claims := by
  obtain ⟨bindings, read⟩ := bindings_of_ready ready
  simp only [identify, bind_error, require_error, require_ok, expect_error, expect_ok]
  constructor
  · rintro (⟨_, other⟩ | ⟨_, audience, ⟨unregistered, _⟩ | ⟨_, registered, ⟨none_, _⟩ | ⟨sub, _,
      ⟨none_, _⟩ | ⟨iss, _, failed | ⟨_, _, ⟨_, other⟩ | ⟨_, _, other⟩⟩⟩⟩⟩⟩)
    · simp [tokenInvalid] at other
    · exact ⟨audience, Or.inl (Bool.not_eq_true _ ▸ unregistered)⟩
    · exact ⟨audience, Or.inr (Or.inl none_)⟩
    · exact ⟨audience, Or.inr (Or.inr none_)⟩
    · rw [read] at failed
      cases failed
    · cases other
    · cases other
  · rintro ⟨audience, untrusted⟩
    refine Or.inr ⟨(), audience, ?_⟩
    by_cases registered : self.registered claims = true
    · refine Or.inr ⟨(), registered, ?_⟩
      cases subject : (Json.get claims "sub").text? with
      | none => exact Or.inl ⟨rfl, trivial⟩
      | some sub => exact Or.inr ⟨sub, rfl, Or.inl ⟨by simpa [registered, subject] using untrusted, trivial⟩⟩
    · exact Or.inl ⟨registered, trivial⟩

theorem timestamp_error {value : Json} {raised : AuthError}
    (failed : self.timestamp value = .error raised) : raised = tokenInvalid := by
  have mapped {epoch : Int} (failed : (fromTimestamp epoch).mapError (fun _ => tokenInvalid) =
      .error raised) : raised = tokenInvalid := by
    cases read : fromTimestamp epoch with
    | ok _ => rw [read] at failed; cases failed
    | error _ => rw [read] at failed; exact (Except.error.inj failed).symm
  cases value with
  | int epoch => exact mapped failed
  | bool value => exact mapped failed
  | float repr => exact (expect_error.mp failed).2.symm
  | null | str _ | arr _ | obj _ => exact (Except.error.inj failed).symm

theorem validate_error {p : ServicePrincipal} {raised : AuthError}
    (failed : p.validate = .error raised) : ∃ msg, raised = .validation msg := by
  simp only [ServicePrincipal.validate, bind_error, require_error, require_ok] at failed
  rcases failed with ⟨_, same⟩ | ⟨_, _, ⟨_, same⟩ | ⟨_, _, ⟨_, same⟩ | ⟨_, _, other⟩⟩⟩
  · exact ⟨_, same.symm⟩
  · exact ⟨_, same.symm⟩
  · exact ⟨_, same.symm⟩
  · cases other

theorem authorize_error {tokenScopes : List Str} {found : Str × Str × List Str} {raised : AuthError}
    (failed : self.authorize claims required tokenScopes found = .error raised) :
    (raised = .forbidden "The service identity scope is not authorized" "service_scope_denied") ∨
      (raised = tokenInvalid ∧ Permitted tokenScopes required found.2.2 ∧ Misdated self claims) ∨
      ∃ msg, raised = .validation msg := by
  simp only [authorize, principal, bind_error, require_error, require_ok] at failed
  rcases failed with ⟨_, same⟩ | ⟨_, permitted, early | ⟨_, _, late | ⟨_, _, invalid⟩⟩⟩
  · exact Or.inl same.symm
  · exact Or.inr (Or.inl ⟨timestamp_error early, permitted, Or.inl (timestamp_error early ▸ early)⟩)
  · exact Or.inr (Or.inl ⟨timestamp_error late, permitted, Or.inr (timestamp_error late ▸ late)⟩)
  · exact Or.inr (Or.inr (validate_error invalid))

theorem authorize_invalid {tokenScopes : List Str} {found : Str × Str × List Str} :
    self.authorize claims required tokenScopes found = .error tokenInvalid ↔
      Permitted tokenScopes required found.2.2 ∧ Misdated self claims := by
  constructor
  · intro failed
    rcases authorize_error failed with other | ⟨_, holds⟩ | ⟨_, other⟩
    · cases other
    · exact holds
    · cases other
  · rintro ⟨permitted, misdated⟩
    simp only [authorize, principal, bind_error, require_ok]
    refine Or.inr ⟨(), permitted, ?_⟩
    cases early : self.timestamp (Json.get claims "iat") with
    | error raised => exact Or.inl (by rw [timestamp_error early])
    | ok authenticatedAt =>
        refine Or.inr ⟨authenticatedAt, rfl, Or.inl ?_⟩
        exact misdated.resolve_left fun failed => by
          rw [early] at failed
          cases failed

end Stages

section Agreement

variable {self : ServiceIdentityVerifier} {first second : Str} {claims claims' : Claims}
  {names required : List Str}

def Spoiled (self : ServiceIdentityVerifier) (names required : List Str) (claims : Claims) : Prop :=
  Malformed self claims ∨ ∃ found, Identified self claims found ∧ ¬ Absent claims ∧
    Permitted names required found.2.2 ∧ Misdated self claims

/-- Two tokens that carry the same scopes: both are read, and neither or both of them lack the claims
that a bound subject needs; or none is read; or the one that is read is refused as the other is. -/
def Alike (self : ServiceIdentityVerifier) (names required : List Str) (first second : Str)
    (claims claims' : Claims) : Prop :=
  (Sized first ∧ Sized second ∧
      ∀ found, Identified self claims found → (Absent claims ↔ Absent claims')) ∨
    (¬ Sized first ∧ ¬ Sized second) ∨
    (Sized first ∧ ¬ Sized second ∧ Spoiled self names required claims) ∨
    (¬ Sized first ∧ Sized second ∧ Spoiled self names required claims')

theorem verify_unsized (decoded : self.decodeSignedToken first = .ok claims)
    (ready : self.settings.requireServiceIdentity self.py = .ok ()) (long : ¬ Sized first) :
    self.verify first required = .error tokenInvalid := by
  rw [verify_eq decoded ready, require_neg long, error_bind]

theorem verify_sized (decoded : self.decodeSignedToken first = .ok claims)
    (ready : self.settings.requireServiceIdentity self.py = .ok ()) (sized : Sized first) :
    self.verify first required = (do
      let found ← self.identify claims
      let tokenScopes ← scopes claims
      self.authorize claims required tokenScopes found) := by
  rw [verify_eq decoded ready, require_pos sized, ok_bind]

theorem verify_invalid_iff (valid : ScopeNames names) (carries : Carries names claims)
    (decoded : self.decodeSignedToken first = .ok claims)
    (ready : self.settings.requireServiceIdentity self.py = .ok ()) (sized : Sized first) :
    self.verify first required = .error tokenInvalid ↔ Spoiled self names required claims := by
  rw [verify_sized decoded ready sized, bind_error, identify_invalid ready, Spoiled]
  refine or_congr_right (exists_congr fun found => and_congr identify_ok ?_)
  by_cases none_ : Absent claims
  · rw [scopes_of_absent none_, error_bind]
    simp [invalidScopes, tokenInvalid, none_]
  · rw [scopes_of_carries valid carries none_, ok_bind, authorize_invalid]
    simp only [none_, not_false_eq_true, true_and, Permitted, mem_sortedSet]

theorem verify_sized_iff (valid : ScopeNames names) (carries : Carries names claims)
    (carries' : Carries names claims') (same : SameIdentity claims claims')
    (decoded : self.decodeSignedToken first = .ok claims)
    (decoded' : self.decodeSignedToken second = .ok claims')
    (ready : self.settings.requireServiceIdentity self.py = .ok ()) (sized : Sized first)
    (sized' : Sized second) : self.verify first required = self.verify second required ↔
      ∀ found, Identified self claims found → (Absent claims ↔ Absent claims') := by
  have other {claims : Claims} {found : Str × Str × List Str} :
      self.authorize claims required (sortedSet names) found ≠ .error invalidScopes := fun failed => by
    rcases authorize_error failed with same | ⟨same, _⟩ | ⟨_, same⟩
    · cases same
    · simp [invalidScopes, tokenInvalid] at same
    · cases same
  rw [verify_sized decoded ready sized, verify_sized decoded' ready sized', ← identify_congr same]
  cases identified : self.identify claims with
  | error raised =>
      refine iff_of_true rfl fun found holds => ?_
      rw [identify_ok.mpr holds] at identified
      cases identified
  | ok found =>
      have unique : ∀ found', Identified self claims found' → found' = found := fun found' holds =>
        Except.ok.inj ((identify_ok.mpr holds).symm.trans identified)
      rw [ok_bind, ok_bind]
      have reduce : (∀ found, Identified self claims found → (Absent claims ↔ Absent claims')) ↔
          (Absent claims ↔ Absent claims') :=
        ⟨fun all => all found (identify_ok.mp identified), fun holds _ _ => holds⟩
      rw [reduce]
      by_cases none_ : Absent claims <;> by_cases none' : Absent claims'
      · rw [scopes_of_absent none_, scopes_of_absent none']
        exact iff_of_true rfl (iff_of_true none_ none')
      · rw [scopes_of_absent none_, scopes_of_carries valid carries' none', error_bind, ok_bind]
        exact iff_of_false other.symm fun both => none' (both.mp none_)
      · rw [scopes_of_carries valid carries none_, scopes_of_absent none', error_bind, ok_bind]
        exact iff_of_false other fun both => none_ (both.mpr none')
      · rw [scopes_of_carries valid carries none_, scopes_of_carries valid carries' none', ok_bind,
          ok_bind, authorize_congr same]
        exact iff_of_true rfl (iff_of_false none_ none')

theorem principal_scopes {subject issuer : Str} {tokenScopes : List Str} {p : ServicePrincipal}
    (made : self.principal claims subject issuer tokenScopes = .ok p) :
    p.scopes = Principal.normalize tokenScopes := by
  obtain ⟨_, _, made⟩ := bind_ok.mp made
  obtain ⟨_, _, made⟩ := bind_ok.mp made
  obtain ⟨_, _, made⟩ := bind_ok.mp made
  obtain ⟨_, _, made⟩ := bind_ok.mp made
  obtain ⟨_, _, made⟩ := bind_ok.mp made
  rw [← pure_ok.mp made]

theorem verify_scopes (valid : ScopeNames names) (carries : Carries names claims)
    (decoded : self.decodeSignedToken first = .ok claims) {p : ServicePrincipal}
    (verified : self.verify first required = .ok p) : p.scopes = sortedSet names := by
  have ready : self.settings.requireServiceIdentity self.py = .ok () := by
    obtain ⟨_, ready, _⟩ := bind_ok.mp verified
    exact ready
  rw [verify_eq decoded ready] at verified
  simp only [bind_ok, require_ok] at verified
  obtain ⟨_, _, found, _, tokenScopes, read, authorized⟩ := verified
  have present : ¬ Absent claims := fun none_ => by
    rw [scopes_of_absent none_] at read
    cases read
  have given := Except.ok.inj ((scopes_of_carries valid carries present).symm.trans read)
  obtain ⟨_, _, made⟩ := bind_ok.mp authorized
  rw [principal_scopes made, ← given]
  have perm : (sortedSet names).Perm names := by
    rw [sortedSet, valid.distinct.dedup]
    exact List.perm_insertionSort _ _
  exact normalize_of_perm valid perm

/-- Two tokens that carry the same scopes in any shape are decided alike exactly where both or
neither of them leave the scopes out, as far as the length of the tokens lets them be read. -/
theorem verify_agrees_iff (valid : ScopeNames names) (carries : Carries names claims)
    (carries' : Carries names claims') (same : SameIdentity claims claims')
    (decoded : self.decodeSignedToken first = .ok claims)
    (decoded' : self.decodeSignedToken second = .ok claims') (required : List Str) :
    (self.verify first required = self.verify second required ↔
      (self.settings.requireServiceIdentity self.py = .ok () →
        Alike self names required first second claims claims')) ∧
      ∀ p, self.verify first required = .ok p → p.scopes = sortedSet names := by
  refine ⟨?_, fun p => verify_scopes valid carries decoded⟩
  cases ready : self.settings.requireServiceIdentity self.py with
  | error raised =>
      refine iff_of_true ?_ fun given => by cases given
      simp only [verify, ready, error_bind]
  | ok done =>
      by_cases sized : Sized first <;> by_cases sized' : Sized second
      · rw [verify_sized_iff valid carries carries' same decoded decoded' ready sized sized']
        simp [Alike, sized, sized']
      · rw [verify_unsized decoded' ready sized', verify_invalid_iff valid carries decoded ready sized]
        simp [Alike, sized, sized']
      · rw [verify_unsized decoded ready sized, eq_comm,
          verify_invalid_iff valid carries' decoded' ready sized']
        simp [Alike, sized, sized']
      · rw [verify_unsized decoded ready sized, verify_unsized decoded' ready sized']
        simp [Alike, sized, sized']

def agentClaims : Claims :=
  [("iss".toList, .str "https://id.example".toList), ("sub".toList, .str "agent".toList),
    ("aud".toList, .str "tpl".toList), ("iat".toList, .int 10), ("exp".toList, .int 310)]

def textClaims : Claims := ("scope".toList, .str " tpl:write\ttpl:read ".toList) :: agentClaims

def listClaims : Claims :=
  ("scp".toList, .arr (["tpl:read".toList, "tpl:write".toList].map .str)) :: agentClaims

def emptyClaims : Claims := ("scope".toList, .str []) :: agentClaims

def sampleVerifier : ServiceIdentityVerifier where
  settings := { Settings.sampleSettings with
    serviceAuthAudience := "tpl".toList
    serviceAuthSubjectBindingsJson := "\x7b\"agent\":[\"tpl:read\",\"tpl:write\"]\x7d".toList }
  py := { sampleBuiltins with
    loads := fun _ => .value (.obj
      [("agent".toList, .arr [.str "tpl:read".toList, .str "tpl:write".toList])]) }
  decodeSignedToken encoded :=
    .ok (if encoded = ['t'] then textClaims else if encoded = ['l'] then listClaims
      else if encoded = ['e'] then emptyClaims else agentClaims)
  registered _ := true
  fromFloat _ := none
  registered_congr _ _ _ := rfl

def sampleNames : List Str := ["tpl:read".toList, "tpl:write".toList]

theorem sampleNames_valid : ScopeNames sampleNames :=
  ⟨by decide, by decide, by simp [sampleNames, isSpace]⟩

theorem verify_agrees_sample : sampleVerifier.verify ['t'] ["tpl:read".toList] =
    sampleVerifier.verify ['l'] ["tpl:read".toList] := by
  have text : Carries sampleNames textClaims := .scope rfl (.text (by decide))
  have list : Carries sampleNames listClaims := .scp rfl rfl (.list (by decide))
  have same : SameIdentity textClaims listClaims := fun name other =>
    (sameIdentity_cons (by decide) _ _ name other).trans
      (sameIdentity_cons (by decide) _ _ name other).symm
  refine (verify_agrees_iff sampleNames_valid text list same rfl rfl _).1.mpr fun _ => Or.inl ?_
  exact ⟨by decide, by decide, fun _ _ => iff_of_false (fun none_ => by cases none_.1)
    fun none_ => by cases none_.2⟩

/-- A token without scopes is refused where one with an empty text of scopes is accepted. -/
theorem verify_disagrees : ¬ ∀ (self : ServiceIdentityVerifier) (names required : List Str)
    (first second : Str) (claims claims' : Claims), ScopeNames names → Carries names claims →
      Carries names claims' → SameIdentity claims claims' →
      self.decodeSignedToken first = .ok claims → self.decodeSignedToken second = .ok claims' →
      self.verify first required = self.verify second required := by
  intro agrees
  have same : SameIdentity agentClaims emptyClaims := fun name other =>
    (sameIdentity_cons (by decide) _ _ name other).symm
  have alike := agrees sampleVerifier [] [] ['n'] ['e'] agentClaims emptyClaims
    ⟨List.nodup_nil, by decide, by simp⟩ (.absent ⟨rfl, rfl⟩ rfl) (.scope rfl (.text (by decide)))
    same rfl rfl
  have refused : sampleVerifier.verify ['n'] [] = .error invalidScopes := rfl
  have accepted : ∃ p, sampleVerifier.verify ['e'] [] = .ok p := ⟨_, rfl⟩
  obtain ⟨p, accepted⟩ := accepted
  rw [refused, accepted] at alike
  cases alike

end Agreement

end ServiceIdentityVerifier

end TplBackend
