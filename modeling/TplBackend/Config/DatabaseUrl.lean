import TplBackend.Library.Form
import TplBackend.Library.Replace
import TplBackend.Library.Unsplit

/-! `Settings.normalize_postgres_url` -/

namespace TplBackend.DatabaseUrl

open Percent Text Url

/-- `postgresql` -/
def sync : Str := ['p', 'o', 's', 't', 'g', 'r', 'e', 's', 'q', 'l']

/-- `postgresql+asyncpg` -/
def async : Str := sync ++ ['+', 'a', 's', 'y', 'n', 'c', 'p', 'g']

def slashes : Str := [':', '/', '/']

def sslmode : Str := ['s', 's', 'l', 'm', 'o', 'd', 'e']

/-- The value, or nothing where `urlsplit` raises. -/
def normalizePostgresUrl (U : Platform) (value : Str) : Option Str :=
  if ¬ (sync ++ slashes <+: value ∨ async ++ slashes <+: value) then some value
  else (urlsplit U (replaceFirst (sync ++ slashes) (async ++ slashes) value)).map fun parts =>
    unsplit { parts with
      query := urlencode ((parseQsl parts.query).filter fun field => decide (field.1 ≠ sslmode)) }

/-- The characters that `urlsplit` does not drop. -/
def keep (c : Char) : Bool := !isUnsafe c

/-- The normalized URL names the same target. -/
structure Preserves (U : Platform) (parts : SplitResult) (result : Str) : Prop where
  starts : async ++ slashes <+: result
  target : ∃ after, urlsplit U result = some after ∧ after.netloc = parts.netloc ∧ after.path = parts.path ∧
    after.fragment = parts.fragment ∧
    parseQsl after.query = (parseQsl parts.query).filter fun field => decide (field.1 ≠ sslmode)
  again : normalizePostgresUrl U result = some result

/-- The text that is replaced stands in no part that is kept. -/
structure Sound (value : Str) (parts : SplitResult) : Prop where
  hosted : parts.netloc ≠ [] ∨ ['/', '/'] <+: parts.path
  front : ¬ sync ++ slashes <:+: parts.netloc ++ parts.path
  fragment : ¬ sync ++ slashes <:+: parts.fragment
  /-- Only a URL that names the driver already is searched beyond its start. -/
  query : async ++ slashes <+: value → ∀ front piece back,
    (queryOf value).splitOn '&' = front ++ piece :: back →
    (∀ other ∈ front, ¬ sync ++ slashes <:+: other) → sync ++ slashes <:+: piece →
      (parsePiece (piece.filter keep)).1 = sslmode

def partsOf (scheme rest : Str) : SplitResult :=
  ⟨scheme, before '/' (frontOf (rest.filter keep)), (frontOf (rest.filter keep)).dropWhile (· != '/'),
    queryOf (rest.filter keep), after '#' (rest.filter keep)⟩

def checked (U : Platform) (netloc : Str) : Prop := (checkBrackets U netloc && checknetloc U netloc) = true

section Parts

variable {U : Platform} {scheme rest : Str} {parts : SplitResult}

theorem urlsplit_start (either : scheme = sync ∨ scheme = async) (rest : Str) :
    urlsplit U (scheme ++ slashes ++ rest) = some parts ↔
      partsOf scheme rest = parts ∧ checked U parts.netloc := by
  have valid : IsScheme scheme ∧ asciiLower scheme = scheme ∧ scheme.filter keep = scheme ∧
      ∃ tail, scheme = 'p' :: tail := by
    obtain rfl | rfl := either
    · exact ⟨⟨rfl, rfl⟩, rfl, rfl, _, rfl⟩
    · exact ⟨⟨rfl, rfl⟩, rfl, rfl, _, rfl⟩
  obtain ⟨valid, lower, own, tail, shape⟩ := valid
  have cleaned : clean (scheme ++ slashes ++ rest) = scheme ++ ':' :: '/' :: '/' :: rest.filter keep := by
    have start : (scheme ++ slashes ++ rest).dropWhile isC0ControlOrSpace = scheme ++ slashes ++ rest := by
      rw [shape]
      rfl
    rw [clean, start]
    change (scheme ++ slashes ++ rest).filter keep = _
    rw [List.filter_append, List.filter_append, own, List.append_assoc]
    rfl
  rw [urlsplit_eq_some, cleaned, generic_slashes valid, lower]
  rfl

theorem netloc_append_path (scheme rest : Str) :
    (partsOf scheme rest).netloc ++ (partsOf scheme rest).path = frontOf (rest.filter keep) :=
  List.takeWhile_append_dropWhile

end Parts

section Normalizing

variable {U : Platform} {rest front query fragment result : Str}

def kept (query : Str) : List (Str × Str) :=
  (parseQsl query).filter fun field => decide (field.1 ≠ sslmode)

def finish (U : Platform) (rest : Str) : Option Str :=
  (urlsplit U (async ++ slashes ++ rest)).map fun parts => unsplit { parts with query := urlencode (kept parts.query) }

theorem sync_ne_nil : sync ++ slashes ≠ [] := by decide

theorem normalize_sync (rest : Str) : normalizePostgresUrl U (sync ++ slashes ++ rest) = finish U rest := by
  have starts : sync ++ slashes <+: sync ++ slashes ++ rest := List.prefix_append _ _
  rw [normalizePostgresUrl, if_neg (not_not.mpr (.inl starts)), replaceFirst_prefix _ _ sync_ne_nil]
  rfl

theorem replaceFirst_async (new rest : Str) : replaceFirst (sync ++ slashes) new (async ++ slashes ++ rest) =
    async ++ slashes ++ replaceFirst (sync ++ slashes) new rest := by
  simp [replaceFirst, sync, async, slashes, List.cons_prefix_cons]

theorem normalize_async (rest : Str) : normalizePostgresUrl U (async ++ slashes ++ rest) =
    finish U (replaceFirst (sync ++ slashes) (async ++ slashes) rest) := by
  have starts : async ++ slashes <+: async ++ slashes ++ rest := List.prefix_append _ _
  rw [normalizePostgresUrl, if_neg (not_not.mpr (.inr starts)), replaceFirst_async]
  rfl

def Hosted (front : Str) : Prop :=
  before '/' front ≠ [] ∨ ['/', '/'] <+: front.dropWhile (· != '/')

def finished (front query fragment : Str) : Str :=
  unsplit ⟨async, before '/' front, front.dropWhile (· != '/'), query, fragment⟩

theorem finish_eq_some : finish U rest = some result ↔
    checked U (before '/' (frontOf (rest.filter keep))) ∧
      result = finished (frontOf (rest.filter keep)) (urlencode (kept (queryOf (rest.filter keep))))
        (after '#' (rest.filter keep)) := by
  rw [finish, Option.map_eq_some_iff]
  constructor
  · rintro ⟨parts, split, rfl⟩
    obtain ⟨rfl, passed⟩ := (urlsplit_start (.inr rfl) rest).mp split
    exact ⟨passed, rfl⟩
  · rintro ⟨passed, rfl⟩
    exact ⟨_, (urlsplit_start (.inr rfl) rest).mpr ⟨rfl, passed⟩, rfl⟩

theorem head_dropWhile_slash {c : Char} (starts : c ∈ (front.dropWhile (· != '/')).head?) : c = '/' := by
  have stopped := List.head?_dropWhile_not (· != '/') front
  rw [Option.mem_def.mp starts] at stopped
  simpa using stopped

theorem finished_hosted (hosted : Hosted front) (query fragment : Str) :
    finished front query fragment = async ++ slashes ++ assemble front query fragment := by
  have whole : before '/' front ++ front.dropWhile (· != '/') = front := List.takeWhile_append_dropWhile
  have rooted : before '/' front ≠ [] ∧ (∀ c ∈ (front.dropWhile (· != '/')).head?, c = '/') ∨
      before '/' front = [] ∧ ['/', '/'] <+: front.dropWhile (· != '/') := by
    by_cases bare : before '/' front = []
    · exact .inr ⟨bare, hosted.resolve_left (not_not.mpr bare)⟩
    · exact .inl ⟨bare, fun c => head_dropWhile_slash⟩
  have parted : finished front query fragment = async ++ ':' :: '/' :: '/' ::
      assemble (before '/' front ++ front.dropWhile (· != '/')) query fragment :=
    unsplit_slashes (by decide) rooted
  rw [parted, whole, List.append_assoc]
  rfl

theorem hosted_of_starts (starts : async ++ slashes <+: finished front query fragment) : Hosted front := by
  by_contra bare
  obtain ⟨netloc, path⟩ := not_or.mp bare
  rw [not_not] at netloc
  have whole : before '/' front ++ front.dropWhile (· != '/') = front := List.takeWhile_append_dropWhile
  rw [netloc, List.nil_append] at whole
  rw [whole] at path
  have parted : finished front query fragment = async ++ ':' :: assemble front query fragment := by
    rw [finished, netloc, whole]
    exact unsplit_bare (by decide) (by decide) path
  rw [parted, List.prefix_append_right_inj] at starts
  have two := (List.cons_prefix_cons.mp starts).2
  cases front with
  | nil =>
      by_cases empty : query = [] <;> by_cases none_ : fragment = [] <;>
        simp [assemble, queryPart, fragmentPart, empty, none_, List.cons_prefix_cons] at two
  | cons c tail =>
      cases tail with
      | nil =>
          by_cases empty : query = [] <;> by_cases none_ : fragment = [] <;>
            simp [assemble, queryPart, fragmentPart, empty, none_, List.cons_prefix_cons] at two
      | cons d tail =>
          simp only [assemble, List.cons_append, List.cons_prefix_cons] at two
          exact path ⟨tail, by rw [← two.1, ← two.2.1]; rfl⟩

theorem form_plain {fields : List (Str × Str)} {c : Char} (member : c ∈ urlencode fields) :
    c ≠ ':' ∧ c ≠ '#' ∧ keep c = true := by
  have table : ∀ d ∈ [':', '#', '\t', '\r', '\n'], ¬ (isForm d = true ∨ d = '=' ∨ d = '&') := by
    simp [isForm, isUnreserved, isLetter, isDigit]
  have apart {d : Char} (listed : d ∈ [':', '#', '\t', '\r', '\n']) : c ≠ d := by
    rintro rfl
    exact table c listed (mem_urlencode member)
  refine ⟨apart (by simp), apart (by simp), ?_⟩
  simp [keep, isUnsafe, apart]

theorem infix_assemble (colon : ':' ∉ query) : sync ++ slashes <:+: assemble front query fragment ↔
    sync ++ slashes <:+: front ∨ sync ++ slashes <:+: fragment := by
  have nil_ : ¬ sync ++ slashes <:+: [] := fun inside => sync_ne_nil (List.eq_nil_of_infix_nil inside)
  have query_ : ¬ sync ++ slashes <:+: query := fun inside => colon (inside.subset (by decide))
  have hash : '#' ∉ sync ++ slashes := by decide
  have mark : '?' ∉ sync ++ slashes := by decide
  have tail {text : Str} : sync ++ slashes <:+: text ++ fragmentPart fragment ↔
      sync ++ slashes <:+: text ∨ sync ++ slashes <:+: fragment := by
    by_cases none_ : fragment = []
    · simp [fragmentPart, none_, nil_]
    · rw [fragmentPart, if_neg none_, infix_append_cons hash sync_ne_nil]
  rw [assemble, ← List.append_assoc, tail]
  by_cases empty : query = []
  · simp [queryPart, empty]
  · rw [queryPart, if_neg empty, infix_append_cons mark sync_ne_nil]
    simp [query_]

theorem frontOf_replaceFirst (text : Str) :
    frontOf (replaceFirst (sync ++ slashes) (async ++ slashes) text) =
      replaceFirst (sync ++ slashes) (async ++ slashes) (frontOf text) := by
  rw [frontOf, before_replaceFirst (by decide) sync_ne_nil (by decide),
    before_replaceFirst (by decide) sync_ne_nil (by decide), frontOf]

theorem replaceFirst_same {text : Str} :
    replaceFirst (sync ++ slashes) (async ++ slashes) text = text ↔ ¬ sync ++ slashes <:+: text :=
  replaceFirst_eq_self_iff sync_ne_nil (by decide)

theorem filter_replaceFirst {text : Str} (own : text.filter keep = text) :
    (replaceFirst (sync ++ slashes) (async ++ slashes) text).filter keep =
      replaceFirst (sync ++ slashes) (async ++ slashes) text := by
  rcases replaceFirst_cases sync_ne_nil (async ++ slashes) text with ⟨_, same⟩ | ⟨left, right, whole, done⟩
  · rwa [same]
  · have inside (c : Char) (member : c ∈ left ++ right) : keep c = true := by
      refine List.filter_eq_self.mp own c ?_
      rw [whole]
      simp only [List.mem_append] at member ⊢
      exact member.imp_left .inl
    rw [done, List.filter_append, List.filter_append,
      List.filter_eq_self.mpr fun c member => inside c (List.mem_append_left _ member),
      List.filter_eq_self.mpr fun c member => inside c (List.mem_append_right _ member)]
    rfl

theorem filter_assemble (fields : List (Str × Str)) (front_ : front.filter keep = front)
    (fragment_ : fragment.filter keep = fragment) :
    (assemble front (urlencode fields) fragment).filter keep = assemble front (urlencode fields) fragment := by
  have query_ : (urlencode fields).filter keep = urlencode fields :=
    List.filter_eq_self.mpr fun c member => (form_plain member).2.2
  have mark : keep '?' = true := rfl
  have hash : keep '#' = true := rfl
  rw [assemble, List.filter_append, List.filter_append, front_]
  by_cases empty : urlencode fields = [] <;> by_cases none_ : fragment = [] <;>
    simp [queryPart, fragmentPart, empty, none_, query_, fragment_, mark, hash]

theorem again_iff {fields : List (Str × Str)} (free : '?' ∉ front ∧ '#' ∉ front)
    (front_ : front.filter keep = front) (fragment_ : fragment.filter keep = fragment)
    (names : ∀ field ∈ fields, field.1 ≠ sslmode) (hosted : Hosted front)
    (passed : checked U (before '/' front)) :
    normalizePostgresUrl U (async ++ slashes ++ assemble front (urlencode fields) fragment) =
        some (async ++ slashes ++ assemble front (urlencode fields) fragment) ↔
      ¬ sync ++ slashes <:+: front ∧ ¬ sync ++ slashes <:+: fragment := by
  have plain : '#' ∉ urlencode fields := fun member => (form_plain member).2.1 rfl
  have colon : ':' ∉ urlencode fields := fun member => (form_plain member).1 rfl
  obtain ⟨start, query_, tail⟩ := parts_assemble free plain fragment
  have own := filter_assemble fields front_ fragment_
  rw [normalize_async, ← not_or, ← infix_assemble colon]
  constructor
  · intro same inside
    obtain ⟨_, result_⟩ := finish_eq_some.mp same
    rw [filter_replaceFirst own] at result_
    have two := hosted_of_starts (result_ ▸ List.prefix_append _ _)
    rw [finished_hosted two] at result_
    have equal := List.append_cancel_left result_
    have front' := congrArg frontOf equal
    rw [start, (parts_assemble (frontOf_free _) (fun member => (form_plain member).2.1 rfl) _).1,
      frontOf_replaceFirst, start] at front'
    have outside := replaceFirst_same.mp front'.symm
    have fragment' := congrArg (after '#') equal
    have early : ¬ sync ++ slashes <:+: before '#' (assemble front (urlencode fields) fragment) := by
      have without : before '#' (assemble front (urlencode fields) fragment) =
          assemble front (urlencode fields) [] := by
        rw [(before_hash_assemble free.2 plain fragment).1, assemble, fragmentPart, if_pos rfl, List.append_nil]
      rw [without, infix_assemble colon, or_iff_left fun inner => sync_ne_nil (List.eq_nil_of_infix_nil inner)]
      exact outside
    rw [tail, (parts_assemble (frontOf_free _) (fun member => (form_plain member).2.1 rfl) _).2.2,
      after_replaceFirst (by decide) sync_ne_nil early, tail] at fragment'
    exact ((infix_assemble colon).mp inside).elim outside (replaceFirst_same.mp fragment'.symm)
  · intro outside
    rw [replaceFirst_same.mpr outside, finish_eq_some, own, start, query_, tail, kept, parseQsl_urlencode,
      List.filter_eq_self.mpr fun field member => decide_eq_true (names field member)]
    exact ⟨passed, (finished_hosted hosted _ _).symm⟩

end Normalizing

section Fields

variable {text piece piece' : Str}

def spaced : Str := sync ++ [' ', 'a', 's', 'y', 'n', 'c', 'p', 'g']

theorem decoded (inside : sync ++ slashes <:+: text) : ∃ left right,
    unquotePlus (text.filter keep) = left ++ (sync ++ slashes) ++ right ∧
      unquotePlus ((replaceFirst (sync ++ slashes) (async ++ slashes) text).filter keep) =
        left ++ (spaced ++ slashes) ++ right := by
  rcases replaceFirst_cases sync_ne_nil (async ++ slashes) text with ⟨free, _⟩ | ⟨left, right, whole, done⟩
  · exact absurd inside free
  refine ⟨unquotePlus (left.filter keep), unquotePlus (right.filter keep), ?_, ?_⟩
  · have spelled : text.filter keep = left.filter keep ++ 'p' ::
        (['o', 's', 't', 'g', 'r', 'e', 's', 'q', 'l', ':', '/'] ++ '/' :: right.filter keep) := by
      rw [whole, List.filter_append, List.filter_append, List.append_assoc]
      rfl
    rw [spelled, unquotePlus_append rfl (by decide) rfl, unquotePlus_append rfl (by decide) rfl,
      List.append_assoc]
    rfl
  · have spelled : (replaceFirst (sync ++ slashes) (async ++ slashes) text).filter keep =
        left.filter keep ++ 'p' :: (['o', 's', 't', 'g', 'r', 'e', 's', 'q', 'l', '+', 'a', 's', 'y', 'n', 'c',
          'p', 'g', ':', '/'] ++ '/' :: right.filter keep) := by
      rw [done, List.filter_append, List.filter_append, List.append_assoc]
      rfl
    rw [spelled, unquotePlus_append rfl (by decide) rfl, unquotePlus_append rfl (by decide) rfl,
      List.append_assoc]
    rfl

def fieldsOf (pieces : List Str) : List (Str × Str) :=
  (((pieces.map (List.filter keep)).filter (· ≠ [])).map parsePiece).filter fun field => decide (field.1 ≠ sslmode)

theorem fieldsOf_append (pieces more : List Str) : fieldsOf (pieces ++ more) = fieldsOf pieces ++ fieldsOf more := by
  simp only [fieldsOf, List.map_append, List.filter_append]

theorem kept_filter (query : Str) : kept (query.filter keep) = fieldsOf (query.splitOn '&') := by
  rw [kept, parseQsl, splitOn_filter rfl, fieldsOf]

theorem fieldsOf_singleton (some_ : piece.filter keep ≠ []) : fieldsOf [piece] =
    if (parsePiece (piece.filter keep)).1 = sslmode then [] else [parsePiece (piece.filter keep)] := by
  by_cases name : (parsePiece (piece.filter keep)).1 = sslmode <;> simp [fieldsOf, some_, name]

theorem fieldsOf_replaceFirst (inside : sync ++ slashes <:+: piece) :
    fieldsOf [replaceFirst (sync ++ slashes) (async ++ slashes) piece] = fieldsOf [piece] ↔
      (parsePiece (piece.filter keep)).1 = sslmode := by
  have nil_ : unquotePlus [] = [] := rfl
  have filled : piece.filter keep ≠ [] ∧
      (replaceFirst (sync ++ slashes) (async ++ slashes) piece).filter keep ≠ [] := by
    obtain ⟨left, right, plain, changed⟩ := decoded inside
    constructor
    · intro empty
      rw [empty, nil_] at plain
      simp [sync] at plain
    · intro empty
      rw [empty, nil_] at changed
      simp [spaced, sync] at changed
  have parsed (text : Str) : parsePiece (text.filter keep) =
      (unquotePlus ((before '=' text).filter keep), unquotePlus ((after '=' text).filter keep)) := by
    rw [parsePiece, before_filter rfl, after_filter rfl]
  rw [fieldsOf_singleton filled.1, fieldsOf_singleton filled.2, parsed, parsed,
    before_replaceFirst (by decide) sync_ne_nil (by decide)]
  by_cases early : sync ++ slashes <:+: before '=' piece
  · obtain ⟨left, right, plain, changed⟩ := decoded early
    have colon (middle : Str) : left ++ (middle ++ slashes) ++ right ≠ sslmode := by
      intro same
      have member : ':' ∈ sslmode := by
        rw [← same]
        simp [slashes]
      exact absurd member (by decide)
    dsimp only
    rw [plain, changed, if_neg (colon sync), if_neg (colon spaced)]
    refine iff_of_false (fun same => ?_) (colon sync)
    have length := congrArg List.length (congrArg Prod.fst (List.cons.inj same).1)
    simp only [spaced, List.length_append, List.length_cons, List.length_nil] at length
    omega
  · have late : sync ++ slashes <:+: after '=' piece := by
      by_cases member : '=' ∈ piece
      · rw [← before_append_after member, infix_append_cons (by decide) sync_ne_nil] at inside
        exact inside.resolve_left early
      · rw [before_eq_self member] at early
        exact absurd inside early
    obtain ⟨left, right, plain, changed⟩ := decoded late
    rw [replaceFirst_same.mpr early, after_replaceFirst (by decide) sync_ne_nil early]
    dsimp only
    rw [plain, changed]
    by_cases name : unquotePlus ((before '=' piece).filter keep) = sslmode
    · rw [if_pos name, if_pos name]
      exact iff_of_true rfl name
    · rw [if_neg name, if_neg name]
      refine iff_of_false (fun same => ?_) name
      have length := congrArg List.length (congrArg Prod.snd (List.cons.inj same).1)
      simp only [spaced, List.length_append, List.length_cons, List.length_nil] at length
      omega

theorem first_unique {α : Type} {p : α → Prop} {front front' back back' : List α} {a a' : α}
    (none_ : ∀ b ∈ front, ¬ p b) (here : p a) (none_' : ∀ b ∈ front', ¬ p b) (here' : p a')
    (same : front ++ a :: back = front' ++ a' :: back') : a = a' := by
  induction front generalizing front' with
  | nil =>
      cases front' with
      | nil => exact (List.cons.inj same).1
      | cons b front' => exact absurd ((List.cons.inj same).1 ▸ here) (none_' b List.mem_cons_self)
  | cons b front ih =>
      cases front' with
      | nil => exact absurd ((List.cons.inj same).1 ▸ here') (none_ b List.mem_cons_self)
      | cons b' front' =>
          exact ih (fun d member => none_ d (List.mem_cons_of_mem _ member))
            (fun d member => none_' d (List.mem_cons_of_mem _ member)) (List.cons.inj same).2

theorem kept_replaceFirst (query : Str) :
    kept ((replaceFirst (sync ++ slashes) (async ++ slashes) query).filter keep) = kept (query.filter keep) ↔
      ∀ front piece back, query.splitOn '&' = front ++ piece :: back →
        (∀ other ∈ front, ¬ sync ++ slashes <:+: other) → sync ++ slashes <:+: piece →
          (parsePiece (piece.filter keep)).1 = sslmode := by
  rw [kept_filter, kept_filter]
  have mark : '&' ∉ sync ++ slashes := by decide
  have mark' : '&' ∉ async ++ slashes := by decide
  rcases splitOn_replaceFirst mark mark' sync_ne_nil query with ⟨each, whole⟩ | ⟨front, piece, back, shape, none_, inside, done⟩
  · rw [replaceFirst_same.mpr whole]
    refine iff_of_true rfl fun front piece back shape _ inside => ?_
    exact absurd inside (each piece (by simp [shape]))
  · have same : fieldsOf ((replaceFirst (sync ++ slashes) (async ++ slashes) query).splitOn '&') =
        fieldsOf (query.splitOn '&') ↔ (parsePiece (piece.filter keep)).1 = sslmode := by
      rw [done, shape, List.append_cons, List.append_cons front piece back, fieldsOf_append, fieldsOf_append,
        fieldsOf_append, fieldsOf_append, List.append_cancel_right_eq, List.append_cancel_left_eq,
        fieldsOf_replaceFirst inside]
    rw [same]
    refine ⟨fun name front' piece' back' shape' none_' inside' => ?_, fun all => all _ _ _ shape none_ inside⟩
    have equal : piece = piece' := first_unique none_ inside none_' inside' (shape.symm.trans shape')
    exact equal ▸ name

end Fields

section Whole

variable {U : Platform} {scheme rest inner value : Str} {parts : SplitResult}

theorem frontOf_filter (text : Str) : frontOf (text.filter keep) = (frontOf text).filter keep := by
  rw [frontOf, before_filter rfl, before_filter rfl, frontOf]

theorem queryOf_filter (text : Str) : queryOf (text.filter keep) = (queryOf text).filter keep := by
  rw [queryOf, before_filter rfl, after_filter rfl, queryOf]

theorem filter_parts (text : Str) : (frontOf (text.filter keep)).filter keep = frontOf (text.filter keep) ∧
    (after '#' (text.filter keep)).filter keep = after '#' (text.filter keep) := by
  rw [frontOf_filter, after_filter rfl, List.filter_filter, List.filter_filter]
  simp

theorem finish_preserves (split : urlsplit U (scheme ++ slashes ++ rest) = some parts)
    (either : scheme = sync ∨ scheme = async) :
    (∃ result, finish U inner = some result ∧ Preserves U parts result) ↔
      Hosted (frontOf (rest.filter keep)) ∧ ¬ sync ++ slashes <:+: frontOf (rest.filter keep) ∧
        ¬ sync ++ slashes <:+: after '#' (rest.filter keep) ∧
          frontOf (inner.filter keep) = frontOf (rest.filter keep) ∧
            after '#' (inner.filter keep) = after '#' (rest.filter keep) ∧
              kept (queryOf (inner.filter keep)) = kept (queryOf (rest.filter keep)) := by
  obtain ⟨rfl, passed⟩ := (urlsplit_start either rest).mp split
  have hash (fields : List (Str × Str)) : '#' ∉ urlencode fields := fun member => (form_plain member).2.1 rfl
  have read (text : Str) : partsOf async (assemble (frontOf (text.filter keep))
      (urlencode (kept (queryOf (text.filter keep)))) (after '#' (text.filter keep))) =
      ⟨async, before '/' (frontOf (text.filter keep)), (frontOf (text.filter keep)).dropWhile (· != '/'),
        urlencode (kept (queryOf (text.filter keep))), after '#' (text.filter keep)⟩ := by
    obtain ⟨front_, fragment_⟩ := filter_parts text
    obtain ⟨start, query_, tail⟩ := parts_assemble (frontOf_free (text.filter keep))
      (hash (kept (queryOf (text.filter keep)))) (after '#' (text.filter keep))
    rw [partsOf, filter_assemble _ front_ fragment_, start, query_, tail]
  have names (query : Str) : ∀ field ∈ kept query, field.1 ≠ sslmode := fun field member =>
    of_decide_eq_true (List.mem_filter.mp member).2
  have repeats (text : Str) (hosted : Hosted (frontOf (text.filter keep)))
      (checks : checked U (before '/' (frontOf (text.filter keep)))) :=
    again_iff (frontOf_free (text.filter keep)) (filter_parts text).1 (filter_parts text).2
      (names (queryOf (text.filter keep))) hosted checks
  constructor
  · rintro ⟨result, ran, starts, ⟨after_, split', netloc, path, fragment, pairs⟩, again⟩
    obtain ⟨checks, rfl⟩ := finish_eq_some.mp ran
    have hosted := hosted_of_starts starts
    rw [finished_hosted hosted] at split' again
    obtain ⟨rfl, _⟩ := (urlsplit_start (.inr rfl) _).mp split'
    rw [read inner] at netloc path fragment pairs
    have front : frontOf (inner.filter keep) = frontOf (rest.filter keep) := by
      rw [← netloc_append_path scheme rest, ← netloc, ← path]
      exact List.takeWhile_append_dropWhile.symm
    obtain ⟨first, second⟩ := (repeats inner hosted checks).mp again
    rw [front] at hosted first
    change after '#' (inner.filter keep) = after '#' (rest.filter keep) at fragment
    rw [fragment] at second
    refine ⟨hosted, first, second, front, fragment, ?_⟩
    exact (parseQsl_urlencode _).symm.trans pairs
  · rintro ⟨hosted, first, second, front, fragment, pairs⟩
    have ran : finish U inner = some (async ++ slashes ++ assemble (frontOf (rest.filter keep))
        (urlencode (kept (queryOf (rest.filter keep)))) (after '#' (rest.filter keep))) := by
      rw [finish_eq_some, front, fragment, pairs, finished_hosted hosted]
      exact ⟨passed, rfl⟩
    refine ⟨_, ran, ⟨_, rfl⟩, ⟨_, (urlsplit_start (.inr rfl) _).mpr ⟨rfl, ?_⟩, ?_⟩, ?_⟩
    · rw [read rest]
      exact passed
    · rw [read rest]
      exact ⟨rfl, rfl, rfl, parseQsl_urlencode _⟩
    · exact (repeats rest hosted passed).mpr ⟨first, second⟩

theorem outside_of_filter {text : Str} (outside : ¬ sync ++ slashes <:+: text.filter keep) :
    ¬ sync ++ slashes <:+: text :=
  fun inside => outside (infix_filter (List.all_eq_true.mp rfl) inside)

theorem after_hash_replaceFirst {text : Str} (outside : ¬ sync ++ slashes <:+: after '#' text) :
    after '#' (replaceFirst (sync ++ slashes) (async ++ slashes) text) = after '#' text := by
  have mark : '#' ∉ sync ++ slashes := by decide
  by_cases early : sync ++ slashes <:+: before '#' text
  · by_cases member : '#' ∈ text
    · conv_lhs => rw [← before_append_after member, replaceFirst_left mark sync_ne_nil early]
      exact after_append_of_not_mem (not_mem_replaceFirst sync_ne_nil (by decide) not_mem_before)
    · rw [after_of_not_mem member, after_of_not_mem (not_mem_replaceFirst sync_ne_nil (by decide) member)]
  · rw [after_replaceFirst mark sync_ne_nil early, replaceFirst_same.mpr outside]

theorem queryOf_start (rest : Str) : queryOf (async ++ slashes ++ rest) = queryOf rest := by
  have hash : '#' ∉ async ++ slashes := by decide
  have mark : '?' ∉ async ++ slashes := by decide
  rw [queryOf, before_append_of_not_mem hash, after_append mark, queryOf]

/-- The target is preserved just where the text that is replaced stands in no part that is kept. -/
theorem normalize_iff (starts : sync ++ slashes <+: value ∨ async ++ slashes <+: value)
    (split : urlsplit U value = some parts) :
    (∃ result, normalizePostgresUrl U value = some result ∧ Preserves U parts result) ↔ Sound value parts := by
  rcases starts with ⟨rest, rfl⟩ | ⟨rest, rfl⟩
  · obtain ⟨rfl, _⟩ := (urlsplit_start (.inl rfl) rest).mp split
    have other : ¬ async ++ slashes <+: sync ++ slashes ++ rest := by
      simp [async, sync, slashes, List.cons_prefix_cons]
    simp only [normalize_sync]
    rw [finish_preserves split (.inl rfl)]
    constructor
    · rintro ⟨hosted, front, fragment, _⟩
      refine ⟨hosted, ?_, fragment, fun bad => absurd bad other⟩
      rw [netloc_append_path]
      exact front
    · intro sound
      have front := sound.front
      rw [netloc_append_path] at front
      exact ⟨sound.hosted, front, sound.fragment, rfl, rfl, rfl⟩
  · obtain ⟨rfl, _⟩ := (urlsplit_start (.inr rfl) rest).mp split
    simp only [normalize_async]
    rw [finish_preserves split (.inr rfl)]
    have changed (front : ¬ sync ++ slashes <:+: frontOf (rest.filter keep)) :
        queryOf ((replaceFirst (sync ++ slashes) (async ++ slashes) rest).filter keep) =
          (replaceFirst (sync ++ slashes) (async ++ slashes) (queryOf rest)).filter keep := by
      rw [frontOf_filter] at front
      rw [queryOf_filter, queryOf, before_replaceFirst (by decide) sync_ne_nil (by decide),
        after_replaceFirst (by decide) sync_ne_nil (outside_of_filter front), queryOf]
    constructor
    · rintro ⟨hosted, front, fragment, _, _, pairs⟩
      refine ⟨hosted, ?_, fragment, fun _ => ?_⟩
      · rw [netloc_append_path]
        exact front
      · rw [changed front, queryOf_filter] at pairs
        rw [queryOf_start]
        exact (kept_replaceFirst (queryOf rest)).mp pairs
    · intro sound
      have front := sound.front
      rw [netloc_append_path] at front
      have query := sound.query (List.prefix_append _ _)
      rw [queryOf_start] at query
      refine ⟨sound.hosted, front, sound.fragment, ?_, ?_, ?_⟩
      · rw [frontOf_filter, frontOf_filter, frontOf_replaceFirst]
        rw [frontOf_filter] at front
        rw [replaceFirst_same.mpr (outside_of_filter front)]
      · have fragment : ¬ sync ++ slashes <:+: (after '#' rest).filter keep := by
          rw [← after_filter rfl]
          exact sound.fragment
        rw [after_filter rfl, after_filter rfl, after_hash_replaceFirst (outside_of_filter fragment)]
      · rw [changed front, queryOf_filter]
        exact (kept_replaceFirst (queryOf rest)).mpr query

end Whole

def plainPlatform : Platform := ⟨asciiLower, id, fun _ => false⟩

def sampleUrl : Str :=
  sync ++ slashes ++ ['h', '/', 'd', '?', 's', 's', 'l', 'm', 'o', 'd', 'e', '=', 'a', '&', 'b']

theorem normalize_iff_sample : ∃ result, normalizePostgresUrl plainPlatform sampleUrl = some result ∧
    Preserves plainPlatform ⟨sync, ['h'], ['/', 'd'], ['s', 's', 'l', 'm', 'o', 'd', 'e', '=', 'a', '&', 'b'], []⟩ result := by
  refine (normalize_iff (.inl ⟨_, rfl⟩) (by decide)).mpr ⟨.inl (by decide), fun inside => ?_, fun inside => ?_, fun bad => ?_⟩
  · exact absurd inside.length_le (by decide)
  · exact absurd inside.length_le (by decide)
  · exact absurd bad (by decide)

/-- A URL without a host loses the two slashes before its path. -/
theorem normalize_bare :
    urlsplit plainPlatform (sync ++ slashes ++ ['/', 'd', 'b']) = some ⟨sync, [], ['/', 'd', 'b'], [], []⟩ ∧
      ∃ result, normalizePostgresUrl plainPlatform (sync ++ slashes ++ ['/', 'd', 'b']) = some result ∧
        result = async ++ [':', '/', 'd', 'b'] ∧
          ¬ Preserves plainPlatform ⟨sync, [], ['/', 'd', 'b'], [], []⟩ result :=
  ⟨by decide, _, by decide, rfl, fun preserves => absurd preserves.starts (by decide)⟩

end TplBackend.DatabaseUrl
