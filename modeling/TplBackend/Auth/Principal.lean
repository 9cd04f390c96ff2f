import Mathlib.Data.Char
import Mathlib.Data.List.Lex
import Mathlib.Data.List.Sort
import TplBackend.Config.Settings
import TplBackend.Outbox.Schema

namespace TplBackend

open Text

inductive AuthError
  | unauthorized (msg code : String)
  | forbidden (msg code : String)
  | keyError (key : String)
  | typeError
  | valueError (msg : String)
  /-- A failed pydantic validation. -/
  | validation (msg : String)
  /-- Whatever the provider, the user directory or the JSON decoder raised. -/
  | external

/-- A value of a decoded JSON document; a float is kept as its `repr`. -/
inductive Json
  | null
  | bool (value : Bool)
  | int (value : Int)
  | float (repr : Str)
  | str (text : Str)
  | arr (items : List Json)
  | obj (fields : List (Str × Json))

abbrev Claims := List (Str × Json)

/-- What `json.loads` makes of a text. -/
inductive Loaded
  | value (decoded : Json)
  | decodeError
  | raises

structure Builtins where
  loads : Str → Loaded
  str : Json → Str
  int : Json → Option Int

namespace Json

/-- `claims.get(name)` -/
def get (fields : Claims) (name : String) : Json := (fields.lookup name.toList).getD .null

/-- `claims[name]` -/
def item (fields : Claims) (name : String) : Except AuthError Json :=
  match fields.lookup name.toList with
  | some value => .ok value
  | none => .error (.keyError name)

def truthy : Json → Bool
  | .null => false
  | .bool value => value
  | .int value => value ≠ 0
  | .float repr => repr ∉ ["0.0".toList, "-0.0".toList]
  | .str text => text ≠ []
  | .arr items => !items.isEmpty
  | .obj fields => !fields.isEmpty

/-- `first or second` -/
def orElse (first second : Json) : Json := if first.truthy then first else second

end Json

namespace Builtins

variable (py : Builtins)

/-- `str(value)` -/
def text : Json → Str
  | .str s => s
  | value => py.str value

/-- `int(value)` -/
def number : Json → Except AuthError Int
  | .int n => .ok n
  | value =>
    match py.int value with
    | some n => .ok n
    | none => .error (.valueError "invalid literal for int()")

end Builtins

/-- `sorted(set(items))` -/
def sortedSet (items : List Str) : List Str := items.dedup.insertionSort (· ≤ ·)

@[simp] theorem mem_sortedSet {items : List Str} {item : Str} :
    item ∈ sortedSet items ↔ item ∈ items := by
  simp [sortedSet]

theorem sortedSet_congr {items items' : List Str} (same : ∀ item, item ∈ items ↔ item ∈ items') :
    sortedSet items = sortedSet items' := by
  have perm : items.dedup.Perm items'.dedup :=
    (List.perm_ext_iff_of_nodup (List.nodup_dedup _) (List.nodup_dedup _)).mpr (by simpa using same)
  exact List.Perm.eq_of_pairwise' (List.pairwise_insertionSort _ _)
    (List.pairwise_insertionSort _ _) (((List.perm_insertionSort _ _).trans perm).trans
      (List.perm_insertionSort _ _).symm)

/-- The browser user of a session; `actor_type` is `user` throughout. -/
structure Principal where
  subject : Str
  issuer : Str
  app : Str
  surface : BrowserSurface
  audience : Str
  actorId : Uuid
  displayName : Option Str
  email : Option Str
  roles : List Str
  scopes : List Str
  authenticatedAt : Clock
  expiresAt : Clock
  policyVersion : Str

namespace Principal

/-- Whether a text is within its `Field(min_length=…, max_length=…)`. -/
def sized (low high : Nat) (text : Str) : Bool := low ≤ text.length && text.length ≤ high

/-- `pattern=r"^[a-z0-9][a-z0-9-]{0,62}$"` -/
def appMatches : Str → Bool
  | [] => false
  | c :: rest => isSlugChar c && c != '-' && rest.all isSlugChar && rest.length ≤ 62

/-- `{item.strip() for item in value if item.strip()}` in order -/
def normalize (items : List Str) : List Str := sortedSet ((items.map strip).filter (· ≠ []))

def withinContract (items : List Str) : Bool :=
  items.length ≤ 128 && items.all fun item => item.length ≤ 128

/-- `Principal(...)`: the validated and normalized value. -/
def validate (p : Principal) : Except AuthError Principal :=
  if !(sized 1 512 p.subject && sized 1 2048 p.issuer && appMatches p.app &&
      sized 1 512 p.audience && p.displayName.all (sized 0 256) && p.email.all (sized 0 320) &&
      sized 1 64 p.policyVersion) then
    .error (.validation "string constraint")
  else if !withinContract (normalize p.roles) then
    .error (.validation "roles exceed the browser session contract")
  else if !withinContract (normalize p.scopes) then
    .error (.validation "scopes exceed the browser session contract")
  else if p.expiresAt ≤ p.authenticatedAt then
    .error (.validation "principal expiration must follow authentication")
  else .ok { p with roles := normalize p.roles, scopes := normalize p.scopes }

end Principal

structure BrowserSession where
  principal : Principal
  csrfToken : Str

/-- `BrowserSession(...)` -/
def BrowserSession.validate (principal : Principal) (csrfToken : Str) :
    Except AuthError BrowserSession :=
  if Principal.sized 32 256 csrfToken then .ok ⟨principal, csrfToken⟩
  else .error (.validation "csrf_token")

section Claims

/-- `re.split(r"[,\s]+", text)` -/
def splitRuns (text : Str) : List Str :=
  match text.splitOnP fun c => c == ',' || isSpace c with
  | [] => []
  | [whole] => [whole]
  | first :: next :: rest =>
    first :: (((next :: rest).dropLast.filter (· ≠ [])) ++ [(next :: rest).getLast (by simp)])

/-- The candidates of one claim in `_allowed_claims`. -/
def claimCandidates (py : Builtins) : Json → Except AuthError (List Json)
  | .arr items => .ok items
  | .str text =>
    if strip text = [] then .ok []
    else
      match py.loads (strip text) with
      | .value (.arr items) => .ok items
      | .value _ | .decodeError => .ok ((splitRuns (strip text)).map .str)
      | .raises => .error .external
  | _ => .ok []

def claimItem (py : Builtins) : Json → Option Str
  | .obj fields =>
    match Json.get fields "isEnabled", Json.get fields "name" with
    | .bool false, _ => none
    | _, .str name => some (strip name)
    | _, _ => none
  | candidate => some (strip (py.text candidate))

def allowedClaims (py : Builtins) (values : List Json) (allowlist : List Str) :
    Except AuthError (List Str) := do
  let candidates ← values.mapM (claimCandidates py)
  return sortedSet ((candidates.flatten.filterMap (claimItem py)).filter (· ∈ allowlist))

end Claims

/-- The arguments of `UserDirectory.upsert`. -/
structure UpsertUser where
  issuer : Str
  subject : Str
  username : Str
  email : Option Str
  displayName : Option Str
  roles : List Str
  scopes : List Str

/-- `text or None` -/
def orNone (text : Str) : Option Str := if text = [] then none else some text

/-- `_load_or_create_user` up to the call of the directory. -/
def loadOrCreateUser (py : Builtins) (profile : BrowserSurfaceProfile) (issuer subject : Str)
    (claims : Claims) : Except AuthError UpsertUser := do
  let get := Json.get claims
  let username := (strip (py.text ((((get "preferred_username").orElse (get "name")).orElse
    (get "email")).orElse (.str subject)))).take 255
  let email := orNone ((strip (py.text ((get "email").orElse (.str [])))).take 320)
  let displayName := orNone ((strip (py.text ((get "name").orElse (.str username)))).take 256)
  let roles ← allowedClaims py [get "roles", get "role"] profile.roleAllowlist
  let scopes ← allowedClaims py [get "scope", get "scp", get "permissions"] profile.scopeAllowlist
  return { issuer, subject, username, email, displayName, roles, scopes }

/-- No text is JSON and no number is a text. -/
def sampleBuiltins : Builtins := ⟨fun _ => .decodeError, fun _ => [], fun _ => none⟩

def sampleClaims (owner : Str) (roles : List Json) : Claims :=
  [("iss".toList, .str "https://id.example".toList), ("sub".toList, .str "ada".toList),
    ("exp".toList, .int 7200), ("iat".toList, .int 10), ("owner".toList, .str owner),
    ("roles".toList, .arr roles)]

end TplBackend
