import Mathlib.Data.List.Infix
import TplBackend.Library.JsonReader
import TplBackend.Library.Percent
import TplBackend.Library.Raise
import TplBackend.Library.Url

namespace TplBackend.CrossApp

open JsonText Percent Raise Text Url

def maxUrlChars : Nat := 1024

def refSlot : Str := ['\x7b', 'r', 'e', 'f', '\x7d']

/-- `^[a-z][a-z0-9-]{0,31}$` -/
def isApp : Str → Bool
  | [] => false
  | first :: rest =>
      first.isLower && decide (rest.length ≤ 31) &&
        rest.all fun c => c.isLower || isDigit c || c == '-'

/-- `^[A-Za-z0-9._:-]{1,128}$` -/
def isRef (ref : Str) : Bool :=
  decide (1 ≤ ref.length ∧ ref.length ≤ 128) &&
    ref.all fun c => isLetter c || isDigit c || c == '.' || c == '_' || c == ':' || c == '-'

structure Origin where
  app : Str
  ref : Option Str
  deriving DecidableEq

structure Source where
  app : Str
  returnUrl : Option Str
  deriving DecidableEq

inductive Given (O : Type)
  | str (text : Str)
  | other (object : O)

section Link

variable {O : Type}

def cleanRef : Given O → Option Str
  | .str ref => if isRef ref then some ref else none
  | .other _ => none

def cleanOrigin (app ref : Given O) (knownApps : List Str) : Option Origin :=
  match app with
  | .str app => if isApp app ∧ app ∈ knownApps then some ⟨app, cleanRef ref⟩ else none
  | .other _ => none

def returnUrl (source : Option Source) (origin : Option Origin) : Option Str :=
  match source, origin with
  | some source, some origin =>
      if source.app ≠ origin.app then none
      else source.returnUrl.map fun template =>
        replace refSlot (quote none_ (origin.ref.getD [])) template
  | _, _ => none

def knownApps (sources : List (Str × Source)) : List Str := sources.map Prod.fst

structure OriginRead where
  app : Str
  ref : Option Str
  returnUrl : Option Str

/-- The endpoint `origin`. -/
def origin (sources : List (Str × Source)) (source ref : Given O) : Option OriginRead :=
  (cleanOrigin source ref (knownApps sources)).map fun found =>
    ⟨found.app, found.ref, returnUrl (Dict.get sources found.app) (some found)⟩

end Link

/-- The `ValueError`s of the configuration; `urllib` is the one that `urlsplit` raises. -/
inductive ConfigError
  | valueError (message : String)
  | urllib
  deriving DecidableEq

def absoluteUrl (U : Platform) (value : Value) (field : String) : Except ConfigError Str := do
  let refused := ConfigError.valueError (field ++ " must be an absolute http(s) URL")
  let text ← match value with
    | .str text => .ok text
    | _ => .error refused
  require (text ≠ [] ∧ text.length ≤ maxUrlChars) refused
  let parts ← expect (urlsplit U text) refused
  let _ ← expect parts.port refused
  -- `username is not None` wherever the netloc has an `@`, and so is every `password`
  require (parts.scheme ∈ webSchemes ∧ parts.hostname U ≠ [] ∧ '@' ∉ parts.netloc ∧
    parts.fragment = [] ∧ '\\' ∉ text ∧ text.all fun c => 32 < c.toNat && c.toNat != 127) refused
  return text

def entries (text : Str) (field : String) (allowed : List Str) :
    Except ConfigError (List (Str × List (Str × Value))) := do
  let parsed ← expect (loads (if text = [] then ['\x7b', '\x7d'] else text))
    (.valueError (field ++ " is not JSON"))
  let items ← match parsed with
    | .obj items => .ok items
    | _ => .error (.valueError (field ++ " must be an object"))
  items.mapM fun item => do
    require (isApp item.1 = true) (.valueError (field ++ " has an invalid application name"))
    match item.2 with
    | .obj entry => do
        require (∀ key ∈ entry.map Prod.fst, key ∈ allowed)
          (.valueError (field ++ " has an invalid entry for " ++ String.ofList item.1))
        return (item.1, entry)
    | _ => .error (.valueError (field ++ " has an invalid entry for " ++ String.ofList item.1))

/-- The checks of one `return_url`. -/
def checkTemplate (U : Platform) (field : String) (name template : Str) :
    Except ConfigError Unit := do
  let rest := replaceFirst refSlot [] template
  require ('\x7b' ∉ rest ∧ '\x7d' ∉ rest) (.valueError
    (field ++ " return_url of " ++ String.ofList name ++ " holds more than \x7bref\x7d"))
  let _ ← absoluteUrl U (.str (replace refSlot ['x'] template)) field
  let parts ← expect (urlsplit U template) .urllib
  require (¬ refSlot <:+: parts.netloc)
    (.valueError (field ++ " return_url of " ++ String.ofList name ++ " is invalid"))

/-- One turn of the loop of `parse_sources`. -/
def parseSource (U : Platform) (field : String) (item : Str × List (Str × Value)) :
    Except ConfigError (Str × Source) :=
  match Dict.get item.2 "return_url".toList with
  | none => .ok (item.1, ⟨item.1, none⟩)
  | some .null => .ok (item.1, ⟨item.1, none⟩)
  | some (.str template) => do
      checkTemplate U field item.1 template
      return (item.1, ⟨item.1, some template⟩)
  | some _ => .error (.valueError
      (field ++ " return_url of " ++ String.ofList item.1 ++ " is invalid"))

def parseSources (U : Platform) (text : Str) (field : String) :
    Except ConfigError (List (Str × Source)) := do
  let entries ← entries text field ["return_url".toList]
  let sources ← entries.mapM (parseSource U field)
  return Dict.ofPairs sources

section Template

variable {U : Platform} {field : String} {name template scheme netloc front back : Str}

theorem clean_of_printed {text : Str} (printed : ∀ c ∈ text, 32 < c.toNat) : clean text = text := by
  cases text with
  | nil => rfl
  | cons c rest =>
      refine clean_eq_self (by simpa [isC0ControlOrSpace] using printed c List.mem_cons_self) ?_
      intro d member
      have far := printed d member
      simp only [isUnsafe, Bool.or_eq_false_iff, beq_eq_false_iff_ne]
      refine ⟨⟨?_, ?_⟩, ?_⟩ <;> rintro rfl <;> exact absurd far (by decide)

theorem refSlot_visible : ∀ c ∈ refSlot, 32 < c.toNat ∧ c ≠ '#' := by simp [refSlot]

theorem refSlot_inside : ∀ c ∈ refSlot, isDelim c = false := by simp [refSlot, isDelim]

theorem absoluteUrl_ok {text result : Str} (accepted : absoluteUrl U (.str text) field = .ok result) :
    ∃ parts, urlsplit U text = some parts ∧ parts.scheme ∈ webSchemes ∧ parts.hostname U ≠ [] ∧
      parts.fragment = [] ∧ ∀ c ∈ text, 32 < c.toNat := by
  obtain ⟨_, same, accepted⟩ := bind_ok.mp accepted
  cases same
  obtain ⟨_, _, accepted⟩ := bind_ok.mp accepted
  obtain ⟨parts, split, accepted⟩ := bind_ok.mp accepted
  obtain ⟨_, _, accepted⟩ := bind_ok.mp accepted
  obtain ⟨_, holds, _⟩ := bind_ok.mp accepted
  obtain ⟨web, named, _, fragment, _, printed⟩ := require_ok.mp holds
  refine ⟨parts, expect_ok.mp split, web, named, fragment, fun c member => ?_⟩
  have visible := List.all_eq_true.mp printed c member
  simp only [Bool.and_eq_true, decide_eq_true_eq] at visible
  exact visible.1

structure Slotted (U : Platform) (template scheme netloc front back : Str) : Prop where
  whole : template = scheme ++ ':' :: '/' :: '/' :: (netloc ++ (front ++ (refSlot ++ back)))
  valid : IsScheme scheme
  inside : ∀ c ∈ netloc, isDelim c = false
  checked : (checkBrackets U netloc && checknetloc U netloc) = true
  rooted : ∃ c rest, front = c :: rest ∧ isDelim c = true
  free : '\x7b' ∉ scheme ++ ':' :: '/' :: '/' :: (netloc ++ front) ∧ '\x7b' ∉ back
  printed : ∀ c ∈ template, 32 < c.toNat
  hash : '#' ∉ front ∧ after '#' back = []

def filled (scheme netloc front fill back : Str) : Str :=
  scheme ++ ':' :: '/' :: '/' :: (netloc ++ (front ++ (fill ++ back)))

theorem Slotted.replace_eq (slotted : Slotted U template scheme netloc front back) (fill : Str) :
    replace refSlot fill template = filled scheme netloc front fill back := by
  have parted : template = scheme ++ ':' :: '/' :: '/' :: (netloc ++ front) ++ refSlot ++ back := by
    simp [slotted.whole]
  rw [parted, refSlot, replace_one slotted.free.1 slotted.free.2]
  simp [filled]

theorem Slotted.split (slotted : Slotted U template scheme netloc front back) {fill : Str}
    (printed : ∀ c ∈ fill, 32 < c.toNat ∧ c ≠ '#') :
    urlsplit U (filled scheme netloc front fill back) = some
      ⟨asciiLower scheme, netloc, before '?' (before '#' (front ++ (fill ++ back))),
        after '?' (before '#' (front ++ (fill ++ back))), []⟩ := by
  have plain : ∀ c ∈ filled scheme netloc front fill back, 32 < c.toNat := by
    intro c member
    by_cases mine : c ∈ fill
    · exact (printed c mine).1
    · refine slotted.printed c ?_
      rw [slotted.whole]
      simp only [filled, List.mem_append, List.mem_cons] at member ⊢
      tauto
  have boundary : ∀ c ∈ (front ++ (fill ++ back)).head?, isDelim c = true := by
    obtain ⟨c, rest, rfl, stops⟩ := slotted.rooted
    simp [stops]
  have fragment : after '#' (front ++ (fill ++ back)) = [] := by
    rw [after_append slotted.hash.1, after_append fun member => (printed '#' member).2 rfl,
      slotted.hash.2]
  rw [urlsplit_eq_some, clean_of_printed plain, filled,
    generic_absolute slotted.valid slotted.inside boundary, fragment]
  exact ⟨rfl, slotted.checked⟩

theorem mem_stood {c d : Char} {left slot right : Str} (member : c ∈ left ++ (slot ++ right))
    (other : c ∉ slot) : c ∈ left ++ d :: right := by
  simp only [List.mem_append, List.mem_cons] at member ⊢
  tauto

/-- Where the letter that stands in for the slot can be in a URL whose scheme has none of it. -/
theorem stand_in_place {rest : Str} (other : 'x' ∉ scheme)
    (boundary : ∀ c ∈ rest.head?, isDelim c = true)
    (spelled : front ++ 'x' :: back = scheme ++ ':' :: '/' :: '/' :: (netloc ++ rest)) :
    (∃ c path, front = scheme ++ ':' :: '/' :: '/' :: (netloc ++ c :: path) ∧ isDelim c = true ∧
        rest = c :: path ++ 'x' :: back) ∨
      ∃ left right, netloc = left ++ 'x' :: right ∧
        front = scheme ++ ':' :: '/' :: '/' :: left ∧ back = right ++ rest := by
  have apart : rest ≠ 'x' :: back := by
    rintro rfl
    exact absurd (boundary 'x' rfl) (by decide)
  rcases List.append_eq_append_iff.mp spelled with ⟨inner, whole, tail⟩ | ⟨lead, rfl, tail⟩
  · -- the letter would be in the scheme or be its colon
    cases inner with
    | nil => simp at tail
    | cons c inner =>
        rw [List.cons_append, List.cons.injEq] at tail
        exact absurd (by simp [whole, ← tail.1]) other
  · have marks : ∃ path, lead = ':' :: '/' :: '/' :: path ∧ netloc ++ rest = path ++ 'x' :: back := by
      rcases lead with _ | ⟨c, _ | ⟨d, _ | ⟨e, path⟩⟩⟩ <;> simp_all
    obtain ⟨path, rfl, here⟩ := marks
    rcases List.append_eq_append_iff.mp here with ⟨behind, rfl, after_⟩ | ⟨inner, rfl, left⟩
    · cases behind with
      | nil => exact absurd after_ apart
      | cons c behind =>
          exact Or.inl ⟨c, behind, rfl, boundary c (by simp [after_]), after_⟩
    · cases inner with
      | nil => exact absurd left.symm apart
      | cons c inner =>
          rw [List.cons_append, List.cons.injEq] at left
          exact Or.inr ⟨path, inner, by rw [left.1], rfl, left.2⟩

/-- What `parse_sources` lets through: a template without a brace, or one whose only braces are those
of a slot behind the origin. -/
theorem checkTemplate_ok (accepted : checkTemplate U field name template = .ok ()) :
    ('\x7b' ∉ template ∧ ∃ parts, urlsplit U template = some parts ∧ parts.fragment = []) ∨
      ∃ scheme netloc front back, Slotted U template scheme netloc front back := by
  obtain ⟨_, holds, accepted⟩ := bind_ok.mp accepted
  obtain ⟨opens, _⟩ := require_ok.mp holds
  obtain ⟨_, absolute, accepted⟩ := bind_ok.mp accepted
  obtain ⟨parts, split, accepted⟩ := bind_ok.mp accepted
  have outside := require_ok.mp accepted
  obtain ⟨standIn, standSplit, web, named, fragment, printed⟩ := absoluteUrl_ok absolute
  rcases replaceFirst_cases (by decide : refSlot ≠ []) [] template with
    ⟨free, same⟩ | ⟨front, back, rfl, same⟩
  · rw [replace_eq_self free] at standSplit
    rw [same] at opens
    exact Or.inl ⟨opens, standIn, standSplit, fragment⟩
  · rw [same, List.append_nil, List.mem_append, not_or] at opens
    have stood : replace refSlot ['x'] (front ++ refSlot ++ back) = front ++ 'x' :: back := by
      rw [refSlot, replace_one opens.1 opens.2, List.append_assoc]
      rfl
    rw [stood] at standSplit printed
    obtain ⟨shape, checked⟩ := urlsplit_eq_some.mp standSplit
    rw [clean_of_printed printed] at shape
    have schemed : (generic (front ++ 'x' :: back)).scheme ≠ [] := by
      rw [shape]
      exact (webSchemes_spec web).1.free.1
    have hosted : (generic (front ++ 'x' :: back)).netloc ≠ [] := by
      rw [shape]
      exact netloc_of_hostname named
    obtain ⟨scheme, rest, valid, lower, spelled, inside, boundary⟩ :=
      absolute_of_generic schemed hosted
    rw [shape] at lower spelled inside
    have other : 'x' ∉ scheme := by
      intro member
      have lowered : 'x' ∈ asciiLower scheme := List.mem_map.mpr ⟨'x', member, by decide⟩
      rw [lower] at lowered
      simp only [webSchemes, List.mem_cons, List.not_mem_nil, or_false] at web
      rcases web with same | same <;> exact absurd (same ▸ lowered) (by decide)
    have visible : ∀ c ∈ front ++ refSlot ++ back, 32 < c.toNat := by
      intro c member
      by_cases braced : c ∈ refSlot
      · exact (refSlot_visible c braced).1
      · exact printed c (mem_stood (List.append_assoc .. ▸ member) braced)
    have tail : after '#' rest = [] := by
      have parted := generic_absolute valid inside boundary
      rw [← spelled, shape] at parted
      exact (congrArg SplitResult.fragment parted).symm.trans fragment
    rcases stand_in_place other boundary spelled with
      ⟨c, path, rfl, stops, rfl⟩ | ⟨left, right, host, rfl, rfl⟩
    · refine Or.inr ⟨scheme, standIn.netloc, c :: path, back, ?_⟩
      have hash : '#' ∉ c :: path := by
        intro member
        rw [after_append_of_mem member] at tail
        simp at tail
      rw [after_append hash] at tail
      exact {
        whole := by simp
        valid := valid
        inside := inside
        checked := checked
        rooted := ⟨c, path, rfl, stops⟩
        free := opens
        printed := visible
        hash := ⟨hash, by simpa [after] using tail⟩ }
    · refine absurd ?_ outside
      obtain ⟨spelt, _⟩ := urlsplit_eq_some.mp (expect_ok.mp split)
      have inner : ∀ c ∈ left ++ (refSlot ++ right), isDelim c = false := by
        intro c member
        by_cases braced : c ∈ refSlot
        · exact refSlot_inside c braced
        · exact inside c (host ▸ mem_stood member braced)
      have parted := generic_absolute valid inner boundary
      have whole : scheme ++ ':' :: '/' :: '/' :: left ++ refSlot ++ (right ++ rest) =
          scheme ++ ':' :: '/' :: '/' :: (left ++ (refSlot ++ right) ++ rest) := by simp
      rw [clean_of_printed visible, whole, parted] at spelt
      rw [← spelt]
      exact ⟨left, right, by simp⟩

end Template

def Fills (template t url : Str) : Prop :=
  (¬ refSlot <:+: template ∧ url = template) ∨
    ∃ front back, template = front ++ refSlot ++ back ∧ url = front ++ t ++ back ∧
      ¬ refSlot <:+: front ∧ ¬ refSlot <:+: back

/-- The URL leads to the origin of the template, with the reference in the slot and nothing else. -/
structure ReturnsTo (U : Platform) (template : Str) (ref : Option Str) (url : Str) : Prop where
  origin : ∃ parts longer, urlsplit U template = some parts ∧ urlsplit U url = some longer ∧
    longer.scheme = parts.scheme ∧ longer.netloc = parts.netloc ∧ longer.fragment = []
  slot : ∃ t, isEscaped t = true ∧ unquote t = ref.getD [] ∧ Fills template t url

section Return

variable {U : Platform} {text : Str} {field : String} {sources : List (Str × Source)}
  {name template url : Str} {source : Source} {O : Type}

theorem parseSource_ok {item : Str × List (Str × Value)}
    (parsed : parseSource U field item = .ok (name, source))
    (registered : source.returnUrl = some template) :
    checkTemplate U field item.1 template = .ok () := by
  unfold parseSource at parsed
  split at parsed
  · cases parsed
    cases registered
  · cases parsed
    cases registered
  · obtain ⟨_, checked, done⟩ := bind_ok.mp parsed
    cases pure_ok.mp done
    cases registered
    exact checked
  · cases parsed

theorem parseSources_ok (parsed : parseSources U text field = .ok sources)
    (listed : (name, source) ∈ sources) (registered : source.returnUrl = some template) :
    ∃ name, checkTemplate U field name template = .ok () := by
  obtain ⟨items, _, parsed⟩ := bind_ok.mp parsed
  obtain ⟨pairs, ran, done⟩ := bind_ok.mp parsed
  cases pure_ok.mp done
  obtain ⟨item, _, turn⟩ := (mem_mapM_iff ran).mp (Dict.mem_ofPairs listed)
  exact ⟨item.1, parseSource_ok turn registered⟩

theorem cleanRef_ascii {given : Given O} {ref : Str} (clean_ : cleanRef given = some ref) :
    ∀ c ∈ ref, isAscii c = true := by
  unfold cleanRef at clean_
  split at clean_
  · obtain ⟨valid, same⟩ := Option.ite_none_right_eq_some.mp clean_
    cases same
    intro c member
    have allowed := List.all_eq_true.mp (Bool.and_eq_true_iff.mp valid).2 c member
    simp only [Bool.or_eq_true, beq_iff_eq] at allowed
    rcases allowed with ((((letter | digit) | rfl) | rfl) | rfl) | rfl
    · exact isAscii_of_isLetter letter
    · exact isAscii_of_isDigit digit
    all_goals rfl
  · cases clean_

theorem quote_visible {ref : Str} : ∀ c ∈ quote none_ ref, 32 < c.toNat ∧ c ≠ '#' := by
  intro c member
  rcases quote_chars member with plain | rfl
  · have letters : 'a'.val.toNat = 97 ∧ 'A'.val.toNat = 65 ∧ '0'.val.toNat = 48 := by decide
    have bound : 45 ≤ c.toNat := by
      simp only [isUnreserved, isLetter, isDigit, Bool.or_eq_true, Bool.and_eq_true,
        decide_eq_true_eq, Char.le_def, UInt32.le_iff_toNat_le, beq_iff_eq, Char.toNat] at plain ⊢
      rcases plain with ((((letter | digit) | rfl) | rfl) | rfl) | rfl
      · omega
      · omega
      all_goals decide
    refine ⟨by omega, ?_⟩
    rintro rfl
    exact absurd bound (by decide)
  · exact ⟨by decide, by decide⟩

theorem returnsTo (parsed : parseSources U text field = .ok sources)
    (listed : (name, source) ∈ sources) (registered : source.returnUrl = some template)
    {ref : Option Str} (ascii : ∀ text ∈ ref, ∀ c ∈ text, isAscii c = true) :
    ReturnsTo U template ref (replace refSlot (quote none_ (ref.getD [])) template) := by
  have plain : ∀ c ∈ ref.getD [], isAscii c = true := by
    cases ref with
    | none => exact fun c member => absurd member List.not_mem_nil
    | some text => exact ascii text rfl
  obtain ⟨_, checked⟩ := parseSources_ok parsed listed registered
  rcases checkTemplate_ok checked with
    ⟨free, parts, split, fragment⟩ | ⟨scheme, netloc, front, back, slotted⟩
  · have absent : ¬ refSlot <:+: template := not_infix_of_not_mem free
    rw [replace_eq_self absent]
    exact ⟨⟨parts, parts, split, split, rfl, rfl, fragment⟩,
      ⟨_, isEscaped_quote _, unquote_quote plain, Or.inl ⟨absent, rfl⟩⟩⟩
  · rw [slotted.replace_eq]
    have own : urlsplit U template = _ := 
      (congrArg (urlsplit U) slotted.whole).trans (slotted.split refSlot_visible)
    refine ⟨⟨_, _, own, slotted.split quote_visible, rfl, rfl, rfl⟩,
      ⟨_, isEscaped_quote _, unquote_quote plain, Or.inr ?_⟩⟩
    refine ⟨scheme ++ ':' :: '/' :: '/' :: (netloc ++ front), back, by simp [slotted.whole],
      by simp [filled], not_infix_of_not_mem slotted.free.1, not_infix_of_not_mem slotted.free.2⟩

theorem returnUrl_eq_some {source : Option Source} {from_ : Option Origin} :
    returnUrl source from_ = some url ↔ ∃ found template origin, source = some found ∧
      from_ = some origin ∧ found.app = origin.app ∧ found.returnUrl = some template ∧
      replace refSlot (quote none_ (origin.ref.getD [])) template = url := by
  cases source with
  | none => simp [returnUrl]
  | some found =>
      cases from_ with
      | none => simp [returnUrl]
      | some origin => by_cases same : found.app = origin.app <;> simp [returnUrl, same]

theorem cleanOrigin_ref {app ref : Given O} {known : List Str} {origin : Origin}
    (found : cleanOrigin app ref known = some origin) : origin.ref = cleanRef ref := by
  unfold cleanOrigin at found
  split at found
  · obtain ⟨_, same⟩ := Option.ite_none_right_eq_some.mp found
    exact (congrArg Origin.ref (Option.some.inj same)).symm
  · cases found

/-- A return link keeps the configured origin, carries the accepted reference in its slot, and
nothing else of the link is in it. -/
theorem return_link_keeps_origin (parsed : parseSources U text field = .ok sources)
    (app ref : Given O) :
    (∀ source, (∀ found ∈ source, ∃ name, (name, found) ∈ sources) → ∀ url,
      returnUrl source (cleanOrigin app ref (knownApps sources)) = some url →
        ∃ found template, source = some found ∧ found.returnUrl = some template ∧
          ReturnsTo U template (cleanRef ref) url ∧
          ∀ app' ref' : Given O, cleanRef ref' = cleanRef ref → ∀ url',
            returnUrl source (cleanOrigin app' ref' (knownApps sources)) = some url' →
              url' = url) ∧
      ∀ read, origin sources app ref = some read →
        ∃ source, (∀ found ∈ source, ∃ name, (name, found) ∈ sources) ∧
          read.returnUrl = returnUrl source (cleanOrigin app ref (knownApps sources)) := by
  constructor
  · intro source listed url opened
    obtain ⟨found, template, from_, rfl, cleaned, _, registered, rfl⟩ :=
      returnUrl_eq_some.mp opened
    obtain ⟨name, member⟩ := listed found rfl
    rw [cleanOrigin_ref cleaned]
    refine ⟨found, template, rfl, registered, returnsTo parsed member registered ?_, ?_⟩
    · exact fun text accepted => cleanRef_ascii accepted
    · intro app' ref' same url' opened'
      obtain ⟨_, template', from', one, cleaned', _, registered', rfl⟩ :=
        returnUrl_eq_some.mp opened'
      cases one
      rw [registered, Option.some.injEq] at registered'
      rw [cleanOrigin_ref cleaned', same, registered']
  · intro read answered
    obtain ⟨found, cleaned, rfl⟩ := Option.map_eq_some_iff.mp answered
    refine ⟨Dict.get sources found.app, fun source got => ⟨_, Dict.mem_of_get got⟩, ?_⟩
    rw [cleaned]

end Return

def samplePlatform : Platform := ⟨asciiLower, id, fun _ => false⟩

def sampleField : String := "CROSS_APP_SOURCES_JSON"

def sampleText : Str :=
  "\x7b\"knowbench\": \x7b\"return_url\": \"https://kb.test/back?ref=\x7bref\x7d\"\x7d\x7d".toList

def sampleSource : Source :=
  ⟨"knowbench".toList, some "https://kb.test/back?ref=\x7bref\x7d".toList⟩

def sampleSources : List (Str × Source) := [(sampleSource.app, sampleSource)]

theorem ok_of_toOption {ε α : Type} {x : Except ε α} {a : α} (same : x.toOption = some a) :
    x = .ok a := by
  cases x with
  | error raised => cases same
  | ok b => exact congrArg Except.ok (Option.some.inj same)

theorem parse_sample : parseSources samplePlatform sampleText sampleField = .ok sampleSources :=
  ok_of_toOption (by decide +kernel)

def sampleLink : Option Origin :=
  cleanOrigin (.str "knowbench".toList) (.str "task:42".toList : Given Unit) (knownApps sampleSources)

def sampleUrl : Str := "https://kb.test/back?ref=task%3A42".toList

theorem return_link_keeps_origin_sample :
    returnUrl (some sampleSource) sampleLink = some sampleUrl ∧
      ∃ template, sampleSource.returnUrl = some template ∧
        ReturnsTo samplePlatform template (some "task:42".toList) sampleUrl := by
  have opened : returnUrl (some sampleSource) sampleLink = some sampleUrl := by decide +kernel
  obtain ⟨returns, -⟩ := return_link_keeps_origin parse_sample
    (.str "knowbench".toList : Given Unit) (.str "task:42".toList)
  have listed : ∀ found ∈ some sampleSource, ∃ name, (name, found) ∈ sampleSources := by
    intro found member
    exact ⟨sampleSource.app, by rw [← Option.some.inj member]; exact List.mem_cons_self⟩
  obtain ⟨found, template, one, registered, reached, -⟩ := returns _ listed _ opened
  rw [← Option.some.inj one] at registered
  exact ⟨opened, template, registered, reached⟩

end TplBackend.CrossApp
