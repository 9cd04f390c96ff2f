import TplBackend.Auth.Service

namespace TplBackend

open Raise Text Url

variable {U : Platform} {py : Builtins}

def fullAdminRole : Str := "admin".toList

/-- The scopes a user has; `none` is every scope. -/
def grantedScopes (adminProfile : BrowserSurfaceProfile) (p : Principal) : Option (List Str) :=
  let roles := p.roles.filter (· ∈ adminProfile.roleAllowlist)
  if fullAdminRole ∈ roles then none
  else some (p.scopes ++ if roles = [] then [] else adminProfile.requiredScopes)

def requireAdminScopes (adminProfile : BrowserSurfaceProfile) (required : List Str) (p : Principal) :
    Except AuthError Principal :=
  match grantedScopes adminProfile p with
  | none => .ok p
  | some granted =>
    if required.all (· ∈ granted) then .ok p
    else .error (.forbidden "Required scope missing" "forbidden")

/-- `_principal_from_verified_claims`; `id` is the row of the user directory. -/
def AuthService.principalFromVerifiedClaims (svc : AuthService U) (py : Builtins) (claims : Claims)
    (now : Clock) (id : Uuid) : Except AuthError Principal := do
  let draft ← svc.principalDraft py claims now
  svc.principalOf draft id

def AuthService.decision (svc : AuthService U) (py : Builtins) (claims : Claims) (now : Clock)
    (id : Uuid) (required : List Str) : Except AuthError Principal := do
  let principal ← svc.principalFromVerifiedClaims py claims now id
  requireAdminScopes svc.profile required principal

def roleClaims : List String := ["roles", "role"]

def scopeClaims : List String := ["scope", "scp", "permissions"]

section Variation

/-- Lists of entries that differ by order, repetition, disabled or unnamed role objects and entries
outside the allowlist. -/
inductive Varies (py : Builtins) (allowlist : List Str) : List Json → List Json → Prop
  | reordered {items items' : List Json} : items.Perm items' → Varies py allowlist items items'
  | duplicated {items : List Json} {entry : Json} : entry ∈ items →
      Varies py allowlist items (entry :: items)
  | disabled {items : List Json} {fields : Claims} : Json.get fields "isEnabled" = .bool false →
      Varies py allowlist items (.obj fields :: items)
  | unnamed {items : List Json} {fields : Claims} : (∀ name, Json.get fields "name" ≠ .str name) →
      Varies py allowlist items (.obj fields :: items)
  | namedOutside {items : List Json} {fields : Claims} {name : Str} :
      Json.get fields "name" = .str name → strip name ∉ allowlist →
      Varies py allowlist items (.obj fields :: items)
  | outside {items : List Json} {entry : Json} : (∀ fields, entry ≠ .obj fields) →
      strip (py.text entry) ∉ allowlist → Varies py allowlist items (entry :: items)
  | symm {items items' : List Json} : Varies py allowlist items items' →
      Varies py allowlist items' items
  | trans {items items' items'' : List Json} : Varies py allowlist items items' →
      Varies py allowlist items' items'' → Varies py allowlist items items''

def VariesClaim (py : Builtins) (allowlist : List Str) (value value' : Json) : Prop :=
  value = value' ∨ ∃ items items', claimCandidates py value = .ok items ∧
    claimCandidates py value' = .ok items' ∧ Varies py allowlist items items'

def Elsewhere (claims claims' : Claims) : Prop :=
  ∀ name, name ∉ roleClaims ++ scopeClaims →
    claims.lookup name.toList = claims'.lookup name.toList

structure VaryTogether (py : Builtins) (profile : BrowserSurfaceProfile) (claims claims' : Claims) :
    Prop where
  roles : ∀ name ∈ roleClaims,
    VariesClaim py profile.roleAllowlist (Json.get claims name) (Json.get claims' name)
  scopes : ∀ name ∈ scopeClaims,
    VariesClaim py profile.scopeAllowlist (Json.get claims name) (Json.get claims' name)
  others : Elsewhere claims claims'

variable {allowlist : List Str} {items items' : List Json} {item : Str}

def Lists (py : Builtins) (items : List Json) (item : Str) : Prop :=
  ∃ entry ∈ items, claimItem py entry = some item

theorem lists_cons {entry : Json} :
    Lists py (entry :: items) item ↔ claimItem py entry = some item ∨ Lists py items item := by
  simp [Lists]

theorem claimItem_obj {fields : Claims} : claimItem py (.obj fields) = some item ↔
    Json.get fields "isEnabled" ≠ .bool false ∧
      ∃ name, Json.get fields "name" = .str name ∧ strip name = item := by
  unfold claimItem
  simp only
  split
  · rename_i disabled
    simp [disabled]
  · rename_i name named enabled
    have on : Json.get fields "isEnabled" ≠ .bool false := enabled
    simp [on, named]
  · rename_i _ unnamed
    constructor
    · simp
    · rintro ⟨on, name, named, _⟩
      exact (unnamed name named).elim

theorem claimItem_plain {entry : Json} (plain : ∀ fields, entry ≠ .obj fields) :
    claimItem py entry = some (strip (py.text entry)) := by
  cases entry with
  | obj fields => exact absurd rfl (plain fields)
  | _ => rfl

theorem Varies.lists (varies : Varies py allowlist items items') (allowed : item ∈ allowlist) :
    Lists py items item ↔ Lists py items' item := by
  induction varies with
  | reordered perm => exact exists_congr fun entry => and_congr_left' perm.mem_iff
  | duplicated member =>
      rw [lists_cons]
      exact ⟨Or.inr, fun either => either.elim (fun stands => ⟨_, member, stands⟩) id⟩
  | disabled off =>
      rw [lists_cons, claimItem_obj]
      simp [off]
  | unnamed nameless =>
      rw [lists_cons, claimItem_obj]
      simp [nameless]
  | namedOutside named out =>
      rw [lists_cons, claimItem_obj]
      refine ⟨Or.inr, fun either => either.resolve_left ?_⟩
      rintro ⟨_, name, named', rfl⟩
      rw [named] at named'
      cases named'
      exact out allowed
  | outside plain out =>
      rw [lists_cons, claimItem_plain plain]
      refine ⟨Or.inr, fun either => either.resolve_left fun same => ?_⟩
      exact out (Option.some.inj same ▸ allowed)
  | symm _ ih => exact ih.symm
  | trans _ _ ih ih' => exact ih.trans ih'

theorem mapM_candidates {values values' : List Json}
    (vary : List.Forall₂ (VariesClaim py allowlist) values values') :
    (∃ error, values.mapM (claimCandidates py) = .error error ∧
      values'.mapM (claimCandidates py) = .error error) ∨
    ∃ found found', values.mapM (claimCandidates py) = .ok found ∧
      values'.mapM (claimCandidates py) = .ok found' ∧
      ∀ item ∈ allowlist, Lists py found.flatten item ↔ Lists py found'.flatten item := by
  induction vary with
  | nil => exact Or.inr ⟨[], [], rfl, rfl, fun _ _ => Iff.rfl⟩
  | @cons value value' values values' head tail ih =>
      simp only [List.mapM_cons]
      have heads : (∃ error, claimCandidates py value = .error error ∧
            claimCandidates py value' = .error error) ∨
          ∃ items items', claimCandidates py value = .ok items ∧
            claimCandidates py value' = .ok items' ∧
            ∀ item ∈ allowlist, Lists py items item ↔ Lists py items' item := by
        rcases head with rfl | ⟨items, items', ran, ran', varies⟩
        · cases ran : claimCandidates py value with
          | error error => exact Or.inl ⟨error, rfl, rfl⟩
          | ok items => exact Or.inr ⟨items, items, rfl, rfl, fun _ _ => Iff.rfl⟩
        · exact Or.inr ⟨items, items', ran, ran', fun item allowed => varies.lists allowed⟩
      rcases heads with ⟨error, ran, ran'⟩ | ⟨items, items', ran, ran', same⟩
      · exact Or.inl ⟨error, by rw [ran]; rfl, by rw [ran']; rfl⟩
      rw [ran, ran']
      rcases ih with ⟨error, more, more'⟩ | ⟨found, found', more, more', rest⟩
      · exact Or.inl ⟨error, by rw [more]; rfl, by rw [more']; rfl⟩
      · refine Or.inr ⟨items :: found, items' :: found', by rw [more]; rfl, by rw [more']; rfl, ?_⟩
        intro item allowed
        have both := or_congr (same item allowed) (rest item allowed)
        simp only [Lists, ← exists_or, ← or_and_right] at both
        simpa [Lists] using both

theorem mem_selected : item ∈ (items.filterMap (claimItem py)).filter (· ∈ allowlist) ↔
    Lists py items item ∧ item ∈ allowlist := by
  simp [Lists]

theorem allowedClaims_congr {values values' : List Json}
    (vary : List.Forall₂ (VariesClaim py allowlist) values values') :
    allowedClaims py values allowlist = allowedClaims py values' allowlist := by
  unfold allowedClaims
  rcases mapM_candidates vary with ⟨error, ran, ran'⟩ | ⟨found, found', ran, ran', same⟩
  · rw [ran, ran']
  · rw [ran, ran']
    refine congrArg Except.ok (sortedSet_congr fun item => ?_)
    rw [mem_selected, mem_selected]
    exact and_congr_left (same item)

end Variation

section Login

variable {svc : AuthService U} {claims claims' : Claims} {now : Clock} {id : Uuid} {name : String}
variable {allowlist : List Str} {item : Str}

def claimedRoles (svc : AuthService U) (py : Builtins) (claims : Claims) :
    Except AuthError (List Str) :=
  allowedClaims py (roleClaims.map (Json.get claims)) svc.profile.roleAllowlist

def claimedScopes (svc : AuthService U) (py : Builtins) (claims : Claims) :
    Except AuthError (List Str) :=
  allowedClaims py (scopeClaims.map (Json.get claims)) svc.profile.scopeAllowlist

theorem Elsewhere.item_eq (others : Elsewhere claims claims') (free : name ∉ roleClaims ++ scopeClaims) :
    Json.item claims name = Json.item claims' name := by
  rw [Json.item, Json.item, others name free]

theorem Elsewhere.get_eq (others : Elsewhere claims claims') (free : name ∉ roleClaims ++ scopeClaims) :
    Json.get claims name = Json.get claims' name := by
  rw [Json.get, Json.get, others name free]

def bare (claims : Claims) : Claims :=
  claims.filter fun field => decide (field.1 ∉ (roleClaims ++ scopeClaims).map String.toList)

theorem lookup_filter (keep : Str → Bool) (fields : Claims) (key : Str) :
    (fields.filter fun field => keep field.1).lookup key =
      if keep key then fields.lookup key else none := by
  induction fields with
  | nil => simp
  | cons field fields ih =>
      obtain ⟨found, value⟩ := field
      by_cases same : key = found
      · subst same
        cases kept : keep key <;> simp [kept, ih]
      · have other : (key == found) = false := by simpa using same
        cases kept : keep found <;> simp [kept, ih, List.lookup_cons, other]

theorem lookup_bare (claims : Claims) (name : String) : (bare claims).lookup name.toList =
    if name ∈ roleClaims ++ scopeClaims then none else claims.lookup name.toList := by
  have listed : name.toList ∈ (roleClaims ++ scopeClaims).map String.toList ↔
      name ∈ roleClaims ++ scopeClaims :=
    List.mem_map_of_injective fun _ _ => String.toList_inj.mp
  rw [bare, lookup_filter fun key => decide (key ∉ (roleClaims ++ scopeClaims).map String.toList)]
  by_cases member : name ∈ roleClaims ++ scopeClaims
  · rw [if_pos member, if_neg (by simpa only [decide_eq_true_eq, listed, not_not])]
  · rw [if_neg member, if_pos (by simpa only [decide_eq_true_eq, listed])]

theorem elsewhere_bare (claims : Claims) : Elsewhere claims (bare claims) := fun name free => by
  rw [lookup_bare, if_neg free]

theorem get_bare (listed : name ∈ roleClaims ++ scopeClaims) :
    Json.get (bare claims) name = .null := by
  rw [Json.get, lookup_bare, if_pos listed]
  rfl

theorem claimedRoles_bare : claimedRoles svc py (bare claims) = .ok [] := by
  have none_ : ∀ name ∈ roleClaims, Json.get (bare claims) name = .null := fun name listed =>
    get_bare (List.mem_append_left _ listed)
  rw [claimedRoles, List.map_congr_left none_]
  rfl

theorem claimedScopes_bare : claimedScopes svc py (bare claims) = .ok [] := by
  have none_ : ∀ name ∈ scopeClaims, Json.get (bare claims) name = .null := fun name listed =>
    get_bare (List.mem_append_right _ listed)
  rw [claimedScopes, List.map_congr_left none_]
  rfl

def Draft.withAuthority (draft : Draft) (roles scopes : List Str) : Draft :=
  { draft with user := { draft.user with roles, scopes } }

theorem principalDraft_ok {draft : Draft} : svc.principalDraft py claims now = .ok draft ↔
    ∃ bareDraft roles scopes, svc.principalDraft py (bare claims) now = .ok bareDraft ∧
      claimedRoles svc py claims = .ok roles ∧ claimedScopes svc py claims = .ok scopes ∧
      bareDraft.withAuthority roles scopes = draft := by
  have others := elsewhere_bare claims
  have item (name : String) (free : name ∉ roleClaims ++ scopeClaims) := others.item_eq free
  have get (name : String) (free : name ∉ roleClaims ++ scopeClaims) := others.get_eq free
  have owner : svc.ownerAllowed claims = svc.ownerAllowed (bare claims) := by
    rw [AuthService.ownerAllowed, AuthService.ownerAllowed, get "owner" (by decide)]
  have bareRoles := @claimedRoles_bare U py svc claims
  have bareScopes := @claimedScopes_bare U py svc claims
  simp only [claimedRoles, claimedScopes, roleClaims, scopeClaims, List.map_cons, List.map_nil]
    at bareRoles bareScopes ⊢
  simp only [AuthService.principalDraft, loadOrCreateUser, bind_ok, require_ok, pure_ok, bareRoles,
    bareScopes, owner, item "iss" (by decide), item "sub" (by decide), item "exp" (by decide),
    item "iat" (by decide), get "preferred_username" (by decide), get "name" (by decide),
    get "email" (by decide)]
  constructor
  · rintro ⟨issuer, iss, subject, sub, exp, expires, providerExp, number, iat, issued, issuedAt,
      number', _, early, _, allowed, _, ⟨roles, ranRoles, scopes, ranScopes, rfl⟩, rfl⟩
    exact ⟨_, roles, scopes, ⟨issuer, iss, subject, sub, exp, expires, providerExp, number, iat, issued,
      issuedAt, number', (), early, (), allowed, _, ⟨[], rfl, [], rfl, rfl⟩, rfl⟩, ranRoles, ranScopes,
      rfl⟩
  · rintro ⟨_, roles, scopes, ⟨issuer, iss, subject, sub, exp, expires, providerExp, number, iat,
      issued, issuedAt, number', _, early, _, allowed, _, ⟨_, _, _, _, rfl⟩, rfl⟩, ranRoles,
      ranScopes, rfl⟩
    exact ⟨issuer, iss, subject, sub, exp, expires, providerExp, number, iat, issued, issuedAt, number',
      (), early, (), allowed, _, ⟨roles, ranRoles, scopes, ranScopes, rfl⟩, rfl⟩

theorem validate_authority {p valid : Principal} (validated : p.validate = .ok valid) :
    valid.roles = Principal.normalize p.roles ∧ valid.scopes = Principal.normalize p.scopes := by
  unfold Principal.validate at validated
  split_ifs at validated
  exact Except.ok.inj validated ▸ ⟨rfl, rfl⟩

theorem validate_iff (p : Principal) : (∃ valid, p.validate = .ok valid) ↔
    (∃ valid, { p with roles := [], scopes := [] }.validate = .ok valid) ∧
      Principal.withinContract (Principal.normalize p.roles) = true ∧
      Principal.withinContract (Principal.normalize p.scopes) = true := by
  have empty : Principal.withinContract (Principal.normalize []) = true := by decide
  unfold Principal.validate
  simp only [empty]
  split_ifs <;> simp_all

theorem normalize_eq {items : List Str} (trimmed : ∀ item ∈ items, strip item = item ∧ item ≠ [])
    : Principal.normalize (sortedSet items) = sortedSet items := by
  refine sortedSet_congr fun item => ?_
  simp only [List.mem_filter, List.mem_map, mem_sortedSet, decide_eq_true_eq]
  constructor
  · rintro ⟨⟨other, member, same⟩, _⟩
    rw [(trimmed other member).1] at same
    exact same ▸ member
  · exact fun member => ⟨⟨item, member, (trimmed item member).1⟩, (trimmed item member).2⟩

theorem allowlists (svc : AuthService U) :
    (∀ item ∈ svc.profile.roleAllowlist, strip item = item ∧ item ≠ []) ∧
      ∀ item ∈ svc.profile.scopeAllowlist, strip item = item ∧ item ≠ [] := by
  have built := svc.built
  simp only [Settings.browserProfile, bind_ok, require_ok, pure_ok] at built
  obtain ⟨_, _, _, _, _, _, _, _, _, _, _, _, _, _, same⟩ := built
  rw [← same]
  exact ⟨fun _ => mem_splitCsv, fun _ => mem_splitCsv⟩

theorem normalize_allowedClaims {values : List Json} {items : List Str}
    (trimmed : ∀ item ∈ allowlist, strip item = item ∧ item ≠ [])
    (ran : allowedClaims py values allowlist = .ok items) : Principal.normalize items = items := by
  obtain ⟨found, _, chosen⟩ := bind_ok.mp ran
  rw [pure_ok] at chosen
  rw [← chosen]
  exact normalize_eq fun item member => trimmed item (by simpa using (List.mem_filter.mp member).2)

def Claimed (py : Builtins) (claims : Claims) (names : List String) (allowlist : List Str)
    (item : Str) : Prop :=
  item ∈ allowlist ∧ ∃ name ∈ names, ∃ entries,
    claimCandidates py (Json.get claims name) = .ok entries ∧ Lists py entries item

theorem mem_allowedClaims {names : List String} {items : List Str}
    (ran : allowedClaims py (names.map (Json.get claims)) allowlist = .ok items) :
    item ∈ items ↔ Claimed py claims names allowlist item := by
  obtain ⟨found, mapped, chosen⟩ := bind_ok.mp ran
  rw [pure_ok] at chosen
  rw [← chosen, mem_sortedSet, mem_selected, and_comm, Claimed]
  refine and_congr_right' ?_
  constructor
  · rintro ⟨entry, member, stands⟩
    obtain ⟨entries, listed, inside⟩ := List.mem_flatten.mp member
    obtain ⟨value, given, read⟩ := (mem_mapM_iff mapped).mp listed
    obtain ⟨name, named, rfl⟩ := List.mem_map.mp given
    exact ⟨name, named, entries, read, entry, inside, stands⟩
  · rintro ⟨name, named, entries, read, entry, inside, stands⟩
    have listed := (mem_mapM_iff mapped).mpr ⟨_, List.mem_map_of_mem named, read⟩
    exact ⟨entry, List.mem_flatten.mpr ⟨entries, listed, inside⟩, stands⟩

def AuthService.unchecked (svc : AuthService U) (draft : Draft) (id : Uuid)
    (authenticatedAt expiresAt : Clock) : Principal where
  subject := draft.user.subject
  issuer := draft.user.issuer
  app := svc.settings.appSlug
  surface := svc.surface
  audience := svc.profile.clientId
  actorId := id
  displayName := draft.user.displayName
  email := draft.user.email
  roles := draft.user.roles
  scopes := draft.user.scopes
  authenticatedAt := authenticatedAt
  expiresAt := expiresAt
  policyVersion := svc.profile.policyVersion

theorem principalOf_ok {draft : Draft} {p : Principal} : svc.principalOf draft id = .ok p ↔
    ∃ authenticatedAt expiresAt, fromTimestamp draft.issuedAt = .ok authenticatedAt ∧
      fromTimestamp draft.expiresAtEpoch = .ok expiresAt ∧
      (svc.unchecked draft id authenticatedAt expiresAt).validate = .ok p := by
  rw [AuthService.principalOf, bind_ok]
  constructor
  · rintro ⟨authenticatedAt, first, made⟩
    obtain ⟨expiresAt, second, validated⟩ := bind_ok.mp made
    exact ⟨authenticatedAt, expiresAt, first, second, validated⟩
  · rintro ⟨authenticatedAt, expiresAt, first, second, validated⟩
    exact ⟨authenticatedAt, first, bind_ok.mpr ⟨expiresAt, second, validated⟩⟩

theorem principalOf_withAuthority (svc : AuthService U) (draft : Draft) (roles scopes : List Str)
    (id : Uuid) : (∃ p, svc.principalOf (draft.withAuthority roles scopes) id = .ok p) ↔
      (∃ p, svc.principalOf (draft.withAuthority [] []) id = .ok p) ∧
        Principal.withinContract (Principal.normalize roles) = true ∧
        Principal.withinContract (Principal.normalize scopes) = true := by
  simp only [principalOf_ok]
  constructor
  · rintro ⟨p, authenticatedAt, expiresAt, first, second, validated⟩
    obtain ⟨⟨q, valid⟩, contract⟩ := (validate_iff (svc.unchecked (draft.withAuthority roles scopes)
      id authenticatedAt expiresAt)).mp ⟨p, validated⟩
    exact ⟨⟨q, authenticatedAt, expiresAt, first, second, valid⟩, contract⟩
  · rintro ⟨⟨p, authenticatedAt, expiresAt, first, second, validated⟩, contract⟩
    obtain ⟨q, valid⟩ := (validate_iff (svc.unchecked (draft.withAuthority roles scopes)
      id authenticatedAt expiresAt)).mpr ⟨⟨p, validated⟩, contract⟩
    exact ⟨q, authenticatedAt, expiresAt, first, second, valid⟩

theorem withAuthority_bare {draft : Draft}
    (drafted : svc.principalDraft py (bare claims) now = .ok draft) :
    draft.withAuthority [] [] = draft := by
  obtain ⟨_, _, _, _, roles, scopes, rfl⟩ := principalDraft_ok.mp drafted
  cases Except.ok.inj (roles.symm.trans claimedRoles_bare)
  cases Except.ok.inj (scopes.symm.trans claimedScopes_bare)
  rfl

theorem principalFromVerifiedClaims_ok {p : Principal} :
    svc.principalFromVerifiedClaims py claims now id = .ok p ↔ ∃ bareDraft roles scopes,
      svc.principalDraft py (bare claims) now = .ok bareDraft ∧
      claimedRoles svc py claims = .ok roles ∧ claimedScopes svc py claims = .ok scopes ∧
      svc.principalOf (bareDraft.withAuthority roles scopes) id = .ok p := by
  rw [AuthService.principalFromVerifiedClaims, bind_ok]
  constructor
  · rintro ⟨_, drafted, made⟩
    obtain ⟨bareDraft, roles, scopes, base, ranRoles, ranScopes, rfl⟩ := principalDraft_ok.mp drafted
    exact ⟨bareDraft, roles, scopes, base, ranRoles, ranScopes, made⟩
  · rintro ⟨bareDraft, roles, scopes, base, ranRoles, ranScopes, made⟩
    exact ⟨_, principalDraft_ok.mpr ⟨bareDraft, roles, scopes, base, ranRoles, ranScopes, rfl⟩, made⟩

theorem authority_of_login {p : Principal}
    (login : svc.principalFromVerifiedClaims py claims now id = .ok p) :
    claimedRoles svc py claims = .ok p.roles ∧ claimedScopes svc py claims = .ok p.scopes := by
  obtain ⟨_, roles, scopes, _, ranRoles, ranScopes, made⟩ := principalFromVerifiedClaims_ok.mp login
  obtain ⟨_, _, _, _, validated⟩ := principalOf_ok.mp made
  obtain ⟨ownRoles, ownScopes⟩ := validate_authority validated
  have normalRoles := normalize_allowedClaims (allowlists svc).1 ranRoles
  have normalScopes := normalize_allowedClaims (allowlists svc).2 ranScopes
  rw [ownRoles, ownScopes]
  exact ⟨ranRoles.trans (congrArg _ normalRoles.symm), ranScopes.trans (congrArg _ normalScopes.symm)⟩

/-- The login is accepted: without roles and scopes it would be, and the allowed ones the claims
name can be read and are within the contract of a session. -/
def Accepted (svc : AuthService U) (py : Builtins) (claims : Claims) (now : Clock) (id : Uuid) :
    Prop :=
  (∃ p, svc.principalFromVerifiedClaims py (bare claims) now id = .ok p) ∧
    ∃ roles scopes, claimedRoles svc py claims = .ok roles ∧
      claimedScopes svc py claims = .ok scopes ∧ Principal.withinContract roles = true ∧
      Principal.withinContract scopes = true

theorem accepted_iff : Accepted svc py claims now id ↔
    ∃ p, svc.principalFromVerifiedClaims py claims now id = .ok p := by
  constructor
  · rintro ⟨⟨p, login⟩, roles, scopes, ranRoles, ranScopes, contract⟩
    obtain ⟨draft, drafted, made⟩ := bind_ok.mp login
    rw [← withAuthority_bare drafted] at made
    rw [← normalize_allowedClaims (allowlists svc).1 ranRoles,
      ← normalize_allowedClaims (allowlists svc).2 ranScopes] at contract
    obtain ⟨q, whole⟩ := (principalOf_withAuthority svc draft roles scopes id).mpr ⟨⟨p, made⟩, contract⟩
    exact ⟨q, principalFromVerifiedClaims_ok.mpr
      ⟨draft, roles, scopes, drafted, ranRoles, ranScopes, whole⟩⟩
  · rintro ⟨p, login⟩
    obtain ⟨draft, roles, scopes, drafted, ranRoles, ranScopes, made⟩ :=
      principalFromVerifiedClaims_ok.mp login
    obtain ⟨⟨q, without⟩, contract⟩ := (principalOf_withAuthority svc draft roles scopes id).mp ⟨p, made⟩
    rw [withAuthority_bare drafted] at without
    rw [normalize_allowedClaims (allowlists svc).1 ranRoles,
      normalize_allowedClaims (allowlists svc).2 ranScopes] at contract
    exact ⟨⟨q, bind_ok.mpr ⟨draft, drafted, without⟩⟩, roles, scopes, ranRoles, ranScopes, contract⟩

end Login

section Decision

variable {svc : AuthService U} {claims claims' : Claims} {now : Clock} {id : Uuid}
variable {required : List Str}

theorem requireAdminScopes_ok {profile : BrowserSurfaceProfile} {p : Principal} :
    (∃ q, requireAdminScopes profile required p = .ok q) ↔
      (fullAdminRole ∈ p.roles ∧ fullAdminRole ∈ profile.roleAllowlist) ∨
        ∀ scope ∈ required, scope ∈ p.scopes ∨
          (∃ role ∈ p.roles, role ∈ profile.roleAllowlist) ∧ scope ∈ profile.requiredScopes := by
  unfold requireAdminScopes grantedScopes
  simp only [List.mem_filter, decide_eq_true_eq]
  by_cases full : fullAdminRole ∈ p.roles ∧ fullAdminRole ∈ profile.roleAllowlist
  · simp [full]
  rw [if_neg full, or_iff_right full]
  by_cases none_ : p.roles.filter (· ∈ profile.roleAllowlist) = []
  · have nobody : ¬ ∃ role ∈ p.roles, role ∈ profile.roleAllowlist := by
      rintro ⟨role, member, allowed⟩
      exact List.filter_eq_nil_iff.mp none_ role member (by simpa using allowed)
    simp [none_, nobody, exists_ite_ok]
  · have somebody : ∃ role ∈ p.roles, role ∈ profile.roleAllowlist := by
      obtain ⟨role, member⟩ := List.exists_mem_of_ne_nil _ none_
      exact ⟨role, by simpa using member⟩
    simp [none_, somebody, exists_ite_ok]

/-- The claims name the full role, or every required scope or a role whose base scopes have it. -/
def Entitled (svc : AuthService U) (py : Builtins) (claims : Claims) (required : List Str) : Prop :=
  Claimed py claims roleClaims svc.profile.roleAllowlist fullAdminRole ∨
    ∀ scope ∈ required, Claimed py claims scopeClaims svc.profile.scopeAllowlist scope ∨
      (∃ role, Claimed py claims roleClaims svc.profile.roleAllowlist role) ∧
        scope ∈ svc.profile.requiredScopes

theorem entitled_of_login {p : Principal}
    (login : svc.principalFromVerifiedClaims py claims now id = .ok p) :
    (∃ q, requireAdminScopes svc.profile required p = .ok q) ↔ Entitled svc py claims required := by
  obtain ⟨ranRoles, ranScopes⟩ := authority_of_login login
  have role (item : Str) := @mem_allowedClaims py claims svc.profile.roleAllowlist item _ _ ranRoles
  have scope (item : Str) := @mem_allowedClaims py claims svc.profile.scopeAllowlist item _ _ ranScopes
  rw [requireAdminScopes_ok, Entitled]
  simp only [role, scope]
  have allowed (item : Str) : Claimed py claims roleClaims svc.profile.roleAllowlist item ∧
      item ∈ svc.profile.roleAllowlist ↔
      Claimed py claims roleClaims svc.profile.roleAllowlist item :=
    and_iff_left_of_imp And.left
  simp only [allowed]

theorem principalDraft_congr (vary : VaryTogether py svc.profile claims claims') :
    svc.principalDraft py claims now = svc.principalDraft py claims' now := by
  have item (name : String) (free : name ∉ roleClaims ++ scopeClaims) := vary.others.item_eq free
  have get (name : String) (free : name ∉ roleClaims ++ scopeClaims) := vary.others.get_eq free
  have owner : svc.ownerAllowed claims = svc.ownerAllowed claims' := by
    rw [AuthService.ownerAllowed, AuthService.ownerAllowed, get "owner" (by decide)]
  have roles := allowedClaims_congr (.cons (vary.roles "roles" (by decide))
    (.cons (vary.roles "role" (by decide)) .nil))
  have scopes := allowedClaims_congr (.cons (vary.scopes "scope" (by decide))
    (.cons (vary.scopes "scp" (by decide)) (.cons (vary.scopes "permissions" (by decide)) .nil)))
  simp only [AuthService.principalDraft, loadOrCreateUser, roles, scopes, owner,
    item "iss" (by decide), item "sub" (by decide), item "exp" (by decide), item "iat" (by decide),
    get "preferred_username" (by decide), get "name" (by decide), get "email" (by decide)]

/-- Claims that vary in what no allowlist admits lead to the same decision, which is made by the
full role, or by the allowed scopes with the base scopes of an allowed role, once the login is
accepted. -/
theorem authority_decision (svc : AuthService U) (py : Builtins) (now : Clock) (id : Uuid) :
    (∀ claims claims' required, VaryTogether py svc.profile claims claims' →
      svc.decision py claims now id required = svc.decision py claims' now id required) ∧
    ∀ claims required, (∃ p, svc.decision py claims now id required = .ok p) ↔
      Accepted svc py claims now id ∧ Entitled svc py claims required := by
  constructor
  · intro claims claims' required vary
    rw [AuthService.decision, AuthService.decision, AuthService.principalFromVerifiedClaims,
      AuthService.principalFromVerifiedClaims, principalDraft_congr vary]
  · intro claims required
    rw [accepted_iff]
    constructor
    · rintro ⟨q, decided⟩
      obtain ⟨p, login, admitted⟩ := bind_ok.mp decided
      exact ⟨⟨p, login⟩, (entitled_of_login login).mp ⟨q, admitted⟩⟩
    · rintro ⟨⟨p, login⟩, entitled⟩
      obtain ⟨q, admitted⟩ := (entitled_of_login login).mpr entitled
      exact ⟨q, bind_ok.mpr ⟨p, login, admitted⟩⟩

def longRole : Str := List.replicate 129 'x'

def longSettings : Settings :=
  { Settings.sampleSettings with
    admin := { Settings.sampleSurface with authRoleAllowlist := "admin,".toList ++ longRole } }

def longProfile : BrowserSurfaceProfile :=
  { Settings.sampleProfile with
    surface := .admin
    roleAllowlist := ["admin".toList, longRole]
    requiredScopes := ["tpl:admin".toList]
    sessionKeyPrefix := "tpl:auth:admin:session:".toList
    transactionKeyPrefix := "tpl:auth:admin:oidc:".toList }

def longService : AuthService Settings.asciiPlatform where
  settings := longSettings
  profile := longProfile
  built := rfl

/-- A full administrator who also has the long role cannot sign in. -/
theorem authority_refused :
    ¬ ∀ claims required, (∃ p, longService.decision sampleBuiltins claims (seconds 11) 5 required =
        .ok p) ↔ Entitled longService sampleBuiltins claims required := by
  intro exactly
  have entitled : Entitled longService sampleBuiltins
      (sampleClaims "ops".toList [.str "admin".toList, .str longRole]) [] := by
    refine Or.inl ⟨List.mem_cons_self, "roles", List.mem_cons_self, _, rfl, _, List.mem_cons_self, ?_⟩
    rfl
  have refused : (longService.decision sampleBuiltins (sampleClaims "ops".toList
      [.str "admin".toList, .str longRole]) (seconds 11) 5 []).toOption.isNone = true := by
    decide +kernel
  obtain ⟨p, decided⟩ := (exactly _ []).mpr entitled
  rw [decided] at refused
  cases refused

theorem elsewhere_sample (owner : Str) (roles roles' : List Json) :
    Elsewhere (sampleClaims owner roles) (sampleClaims owner roles') := by
  intro name free
  have other : (name.toList == "roles".toList) = false := by
    refine beq_eq_false_iff_ne.mpr fun same => free ?_
    rw [String.toList_inj.mp same]
    exact List.mem_cons_self
  simp only [sampleClaims, List.lookup_cons, other]

def disabledRole : Json :=
  .obj [("name".toList, .str longRole), ("isEnabled".toList, .bool false)]

/-- It and a repetition change nothing. -/
theorem authority_decision_sample :
    longService.decision sampleBuiltins (sampleClaims "ops".toList [.str "admin".toList])
        (seconds 11) 5 [] =
      longService.decision sampleBuiltins (sampleClaims "ops".toList
        [disabledRole, .str "admin".toList, .str "admin".toList]) (seconds 11) 5 [] := by
  have varies : Varies sampleBuiltins longProfile.roleAllowlist [.str "admin".toList]
      [disabledRole, .str "admin".toList, .str "admin".toList] :=
    (Varies.duplicated List.mem_cons_self).trans (Varies.disabled rfl)
  refine (authority_decision longService sampleBuiltins (seconds 11) 5).1 _ _ []
    ⟨?_, ?_, elsewhere_sample _ _ _⟩
  · intro name named
    rcases List.mem_cons.mp named with rfl | rest
    · exact Or.inr ⟨_, _, rfl, rfl, varies⟩
    · rw [List.mem_singleton.mp rest]
      exact Or.inl rfl
  · intro name named
    simp only [scopeClaims, List.mem_cons, List.not_mem_nil, or_false] at named
    rcases named with rfl | rfl | rfl <;> exact Or.inl rfl

end Decision

end TplBackend
