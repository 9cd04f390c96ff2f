import TplBackend.Interaction.RunEvent
import TplBackend.Library.Raise

/-! The identifiers that the addresses of the interaction routes carry. -/

namespace TplBackend.Interaction

open JsonText Raise Text Url

/-- An `AppException` of the interaction routes. -/
structure AppException where
  code : String
  statusCode : Nat
  msg : String
  deriving DecidableEq

def badRequestError (msg code : String) : AppException := ⟨code, 400, msg⟩

def forbiddenError (msg code : String) : AppException := ⟨code, 403, msg⟩

def concurrencyConflictError : AppException :=
  ⟨"cursor_expired", 409, "The requested cursor is no longer available"⟩

/-- The white space that the number parser skips. -/
def isBlank (c : Char) : Bool := (9 ≤ c.toNat && c.toNat ≤ 13) || c == ' '

/-- The digits of a number in base 16: one underscore may stand between two of them. `digit` tells
that a digit has just been read. -/
def readHex (digit : Bool) (value : Nat) : Str → Option Nat
  | [] => if digit then some value else none
  | c :: rest =>
      if c = '_' then if digit then readHex false value rest else none
      else (hexValue c).bind fun n => readHex true (value * 16 + n) rest

/-- What may stand behind `0x`. -/
def readMarked : Str → Option Nat
  | '_' :: rest => readHex false 0 rest
  | rest => readHex false 0 rest

def readUnsigned : Str → Option Nat
  | '0' :: 'x' :: rest => readMarked rest
  | '0' :: 'X' :: rest => readMarked rest
  | rest => readHex false 0 rest

def readSigned : Str → Option Int
  | '-' :: rest => (readUnsigned rest).map fun n => -(n : Int)
  | '+' :: rest => (readUnsigned rest).map Int.ofNat
  | rest => (readUnsigned rest).map Int.ofNat

/-- `hex.strip('{}')` -/
def stripBraces (text : Str) : Str :=
  let brace (c : Char) : Bool := c == '\x7b' || c == '\x7d'
  (text.dropWhile brace).rdropWhile brace

section Parse

-- The decimal digits of Unicode beyond ASCII.
variable (decimal : Char → Option (Fin 10))

/-- How the number parser takes a character of a text that is not ASCII. -/
def toAscii (c : Char) : Char :=
  if c.toNat < 127 then c
  else if isSpace c then ' '
  else (decimal c).elim '?' fun n => hexDigit n

/-- `int(text, 16)` -/
def intHex (text : Str) : Option Int :=
  readSigned (((text.map (toAscii decimal)).dropWhile isBlank).rdropWhile isBlank)

/-- `UUID(value)`; `none` where it raises a `ValueError`. -/
def UUID.parse (value : Str) : Option UUID :=
  let bare := replace ['u', 'u', 'i', 'd', ':'] [] (replace ['u', 'r', 'n', ':'] [] value)
  let hex := (stripBraces bare).filter (· ≠ '-')
  if hex.length = 32 then
    (intHex decimal hex).bind fun int =>
      if bound : 0 ≤ int ∧ int < 2 ^ 128 then
        some ⟨int.toNat, by omega⟩
      else none
  else none

end Parse

/-- `self.version`; `none` where the variant is not that of RFC 4122. -/
def UUID.version (id : UUID) : Option Nat :=
  if id.int / 2 ^ 63 % 2 = 1 ∧ id.int / 2 ^ 62 % 2 = 0 then some (id.int / 2 ^ 76 % 16) else none

def UUID.Accepted (id : UUID) : Prop := id.version = some 4 ∨ id.version = some 5

instance (id : UUID) : Decidable id.Accepted := inferInstanceAs (Decidable (_ ∨ _))

def uuid (decimal : Char → Option (Fin 10)) (value : Str) (code : String) :
    Except AppException Str := do
  let parsed ← expect (UUID.parse decimal value)
    (badRequestError "The resource identifier is invalid" code)
  require parsed.Accepted (badRequestError "The resource identifier is invalid" code)
  return parsed.text

section Spelling

variable {decimal : Char → Option (Fin 10)} {id : UUID} {s : Str}

/-- The text has the digits of the identifier, in either case, and hyphens wherever it likes. -/
def UUID.Spells (id : UUID) (s : Str) : Prop :=
  (s.filter (· ≠ '-')).map hexValue = id.hex.map hexValue

theorem hexValue_range {c : Char} {n : Nat} (value : hexValue c = some n) :
    ('0' ≤ c ∧ c ≤ '9') ∨ ('a' ≤ c ∧ c ≤ 'f') ∨ ('A' ≤ c ∧ c ≤ 'F') := by
  unfold hexValue at value
  split at value
  · rename_i digit
    simp only [isDigit, Bool.and_eq_true, decide_eq_true_eq] at digit
    exact Or.inl digit
  · split at value
    · rename_i lower
      exact Or.inr (Or.inl lower)
    · split at value
      · rename_i upper
        exact Or.inr (Or.inr upper)
      · cases value

theorem hexValue_plain {c : Char} {n : Nat} (value : hexValue c = some n) :
    c.toNat < 127 ∧ isBlank c = false ∧ c ≠ '_' ∧ c ≠ 'x' ∧ c ≠ 'X' ∧ c ≠ '-' ∧ c ≠ '+' ∧
      c ≠ 'u' ∧ c ≠ '\x7b' ∧ c ≠ '\x7d' := by
  have range := hexValue_range value
  simp only [Char.le_def, UInt32.le_iff_toNat_le] at range
  have other (d : Char) (apart : hexValue d = none) : c ≠ d := by
    intro same
    rw [same, apart] at value
    cases value
  have blank : c ≠ ' ' := other ' ' (by decide)
  have ends : 48 ≤ c.toNat ∧ c.toNat ≤ 102 := by
    have zero : '0'.val.toNat = 48 := rfl
    have nine : '9'.val.toNat = 57 := rfl
    have a : 'a'.val.toNat = 97 := rfl
    have f : 'f'.val.toNat = 102 := rfl
    have A : 'A'.val.toNat = 65 := rfl
    have F : 'F'.val.toNat = 70 := rfl
    simp only [Char.toNat]
    omega
  refine ⟨by omega, ?_, other _ (by decide), other _ (by decide), other _ (by decide),
    other _ (by decide), other _ (by decide), other _ (by decide), other _ (by decide),
    other _ (by decide)⟩
  simp only [isBlank, Bool.or_eq_false_iff, Bool.and_eq_false_iff, decide_eq_false_iff_not, beq_eq_false_iff_ne]
  exact ⟨Or.inr (by omega), blank⟩

theorem foldl_digits (value length : Nat) :
    ((List.range length).map fun i => value / 16 ^ (length - 1 - i) % 16).foldl
      (fun sum n => sum * 16 + n) 0 = value % 16 ^ length := by
  induction length generalizing value with
  | zero => simp [Nat.mod_one]
  | succ length ih =>
      have front : (List.range length).map (fun i => value / 16 ^ (length - i) % 16) =
          (List.range length).map fun i => value / 16 / 16 ^ (length - 1 - i) % 16 := by
        refine List.map_congr_left fun i member => ?_
        have small := List.mem_range.mp member
        rw [Nat.div_div_eq_div_mul, ← pow_succ', show length - 1 - i + 1 = length - i by omega]
      rw [List.range_succ, List.map_append, List.foldl_append]
      simp only [Nat.add_sub_cancel, List.map_cons, List.map_nil, List.foldl_cons, List.foldl_nil,
        Nat.sub_self, pow_zero, Nat.div_one]
      rw [front, ih, pow_succ', Nat.mod_mul]
      omega

theorem readHex_digits {values : List Nat} (digits : s.map hexValue = values.map some)
    (value : Nat) :
    readHex true value s = some (values.foldl (fun sum n => sum * 16 + n) value) := by
  induction s generalizing values value with
  | nil =>
      rw [List.map_nil, eq_comm, List.map_eq_nil_iff] at digits
      rw [digits]
      rfl
  | cons c s ih =>
      obtain ⟨n, values, rfl, head, tail⟩ := List.map_eq_cons_iff.mp digits.symm
      have plain := hexValue_plain head.symm
      rw [readHex, if_neg plain.2.2.1, ← head, Option.bind_some, ih tail.symm]
      rfl

theorem readSigned_digits {c : Char} {values : List Nat}
    (digits : (c :: s).map hexValue = values.map some) :
    readSigned (c :: s) = some (Int.ofNat (values.foldl (fun sum n => sum * 16 + n) 0)) := by
  obtain ⟨n, rest, rfl, head, tail⟩ := List.map_eq_cons_iff.mp digits.symm
  obtain ⟨_, _, score, _, _, minus, plus, _⟩ := hexValue_plain head.symm
  have read : readHex false 0 (c :: s) = some ((n :: rest).foldl (fun sum n => sum * 16 + n) 0) := by
    rw [readHex, if_neg score, ← head, Option.bind_some, readHex_digits tail.symm]
    rfl
  have unsigned : readUnsigned (c :: s) = readHex false 0 (c :: s) := by
    unfold readUnsigned
    split
    · rename_i marked
      rw [(List.cons.inj marked).2, List.map_cons] at tail
      obtain ⟨_, _, _, mark, _⟩ := List.map_eq_cons_iff.mp tail
      exact absurd (mark.trans (show hexValue 'x' = none by decide)) (Option.some_ne_none _)
    · rename_i marked
      rw [(List.cons.inj marked).2, List.map_cons] at tail
      obtain ⟨_, _, _, mark, _⟩ := List.map_eq_cons_iff.mp tail
      exact absurd (mark.trans (show hexValue 'X' = none by decide)) (Option.some_ne_none _)
    · rfl
  unfold readSigned
  split
  · rename_i signed
    exact absurd (List.cons.inj signed).1 minus
  · rename_i signed
    exact absurd (List.cons.inj signed).1 plus
  · rw [unsigned, read]
    rfl

theorem UUID.hex_values (id : UUID) : id.hex.map hexValue =
    ((List.range 32).map fun i => id.int / 16 ^ (32 - 1 - i) % 16).map some := by
  rw [UUID.hex, List.map_map, List.map_map]
  exact List.map_congr_left fun i _ => hexValue_hexDigit (Nat.mod_lt _ (by decide))

theorem UUID.spells_values (spells : id.Spells s) : (s.filter (· ≠ '-')).map hexValue =
    ((List.range 32).map fun i => id.int / 16 ^ (32 - 1 - i) % 16).map some :=
  spells.trans id.hex_values

theorem UUID.Spells.chars (spells : id.Spells s) : ∀ c ∈ s, c = '-' ∨ ∃ n, hexValue c = some n := by
  intro c member
  by_cases hyphen : c = '-'
  · exact Or.inl hyphen
  · have inside : hexValue c ∈ (s.filter (· ≠ '-')).map hexValue :=
      List.mem_map_of_mem (List.mem_filter.mpr ⟨member, by simpa using hyphen⟩)
    rw [UUID.spells_values spells] at inside
    obtain ⟨n, _, same⟩ := List.mem_map.mp inside
    exact Or.inr ⟨n, same.symm⟩

theorem UUID.Spells.free (spells : id.Spells s) {mark : Char} (hyphen : mark ≠ '-')
    (digit : hexValue mark = none) : mark ∉ s := by
  intro member
  rcases spells.chars mark member with same | ⟨n, value⟩
  · exact hyphen same
  · rw [digit] at value
    cases value

theorem trim_eq_self {p : Char → Bool} (free : ∀ c ∈ s, p c = false) :
    (s.dropWhile p).rdropWhile p = s := by
  have front : s.dropWhile p = s := List.dropWhile_eq_self_iff.mpr fun longer => by
    simpa using free _ (List.getElem_mem longer)
  rw [front, List.rdropWhile_eq_self_iff]
  exact fun some_ => by simpa using free _ (List.getLast_mem some_)

theorem UUID.Spells.braceless (spells : id.Spells s) :
    ∀ c ∈ s, (c == '\x7b' || c == '\x7d') = false := by
  intro c member
  simp only [Bool.or_eq_false_iff, beq_eq_false_iff_ne]
  constructor
  · intro same
    exact spells.free (by decide) (by decide) (same ▸ member)
  · intro same
    exact spells.free (by decide) (by decide) (same ▸ member)

theorem UUID.Spells.ne_nil (spells : id.Spells s) : s ≠ [] := by
  intro none_
  have digits := UUID.spells_values spells
  rw [none_] at digits
  exact absurd (congrArg List.length digits) (by simp)

theorem UUID.Spells.stripBraces (spells : id.Spells s) :
    Interaction.stripBraces ('\x7b' :: s ++ ['\x7d']) = s := by
  obtain ⟨c, rest, rfl⟩ := List.exists_cons_of_ne_nil spells.ne_nil
  have first := spells.braceless c List.mem_cons_self
  have trimmed := trim_eq_self spells.braceless
  rw [List.dropWhile_cons_of_neg (by simpa using first)] at trimmed
  simp only [Interaction.stripBraces]
  rw [List.cons_append, List.dropWhile_cons_of_pos (by decide), List.cons_append,
    List.dropWhile_cons_of_neg (by simpa using first), ← List.cons_append,
    List.rdropWhile_concat_pos _ _ _ (by decide), trimmed]

theorem intHex_spells (spells : id.Spells s) :
    intHex decimal (s.filter (· ≠ '-')) = some (id.int : Int) := by
  have digits := UUID.spells_values spells
  have plain : ∀ c ∈ s.filter (· ≠ '-'), c.toNat < 127 ∧ isBlank c = false := by
    intro c member
    have value := List.mem_map_of_mem (f := hexValue) member
    rw [digits] at value
    obtain ⟨n, _, same⟩ := List.mem_map.mp value
    have known := hexValue_plain same.symm
    exact ⟨known.1, known.2.1⟩
  have ascii : (s.filter (· ≠ '-')).map (toAscii decimal) = s.filter (· ≠ '-') := by
    have kept : ∀ c ∈ s.filter (· ≠ '-'), toAscii decimal c = c :=
      fun c member => if_pos (plain c member).1
    rw [List.map_congr_left kept]
    exact List.map_id' _
  rw [intHex, ascii, trim_eq_self fun c member => (plain c member).2]
  obtain ⟨c, rest, shape⟩ : ∃ c rest, s.filter (· ≠ '-') = c :: rest := by
    refine List.exists_cons_of_ne_nil fun none_ => ?_
    rw [none_] at digits
    exact absurd (congrArg List.length digits) (by simp)
  rw [shape] at digits ⊢
  have small : id.int < 16 ^ 32 := by
    calc
      id.int < 2 ^ 128 := id.int_lt
      _ = 16 ^ 32 := by decide
  rw [readSigned_digits digits, foldl_digits, Nat.mod_eq_of_lt small]
  rfl

theorem UUID.parse_bare {value : Str} (spells : id.Spells s)
    (bare : Interaction.stripBraces (replace ['u', 'u', 'i', 'd', ':'] []
      (replace ['u', 'r', 'n', ':'] [] value)) = s) : UUID.parse decimal value = some id := by
  have length : (s.filter (· ≠ '-')).length = 32 := by
    have digits := congrArg List.length (UUID.spells_values spells)
    simpa using digits
  rw [UUID.parse, bare, if_pos length, intHex_spells spells, Option.bind_some]
  have bound : (0 : Int) ≤ id.int ∧ (id.int : Int) < 2 ^ 128 := by
    have small := id.int_lt
    omega
  rw [dif_pos bound]
  rfl

inductive UUID.Written (id : UUID) : Str → Prop
  | plain {s : Str} : id.Spells s → id.Written s
  | braced {s : Str} : id.Spells s → id.Written ('\x7b' :: s ++ ['\x7d'])
  | urn {s : Str} : id.Spells s → id.Written (['u', 'r', 'n', ':', 'u', 'u', 'i', 'd', ':'] ++ s)

theorem UUID.parse_written {value : Str} (written : id.Written value) :
    UUID.parse decimal value = some id := by
  cases written with
  | plain spells =>
      refine parse_bare spells ?_
      have free : 'u' ∉ _ := spells.free (by decide) (by decide)
      rw [replace_eq_self (not_infix_of_not_mem free), replace_eq_self (not_infix_of_not_mem free)]
      exact trim_eq_self spells.braceless
  | @braced s spells =>
      refine parse_bare spells ?_
      have free : 'u' ∉ '\x7b' :: s ++ ['\x7d'] := by
        have inner : 'u' ∉ s := spells.free (by decide) (by decide)
        simp [inner]
      rw [replace_eq_self (not_infix_of_not_mem free), replace_eq_self (not_infix_of_not_mem free)]
      exact spells.stripBraces
  | @urn s spells =>
      refine parse_bare spells ?_
      have free : 'u' ∉ _ := spells.free (by decide) (by decide)
      have other : ¬ ['u', 'r', 'n', ':'] <:+: ['u', 'u', 'i', 'd', ':'] ++ s := by
        intro inside
        have member : 'r' ∈ ['u', 'u', 'i', 'd', ':'] ++ s := inside.subset (by simp)
        have inner : 'r' ∉ s := spells.free (by decide) (by decide)
        simp [inner] at member
      rw [show ['u', 'r', 'n', ':', 'u', 'u', 'i', 'd', ':'] ++ s =
          ['u', 'r', 'n', ':'] ++ (['u', 'u', 'i', 'd', ':'] ++ s) from rfl, replace_match,
        List.nil_append, replace_eq_self other, replace_match, List.nil_append,
        replace_eq_self (not_infix_of_not_mem free)]
      exact trim_eq_self spells.braceless

theorem UUID.spells_text (id : UUID) : id.Spells id.text := by
  have digits : id.hex.filter (· ≠ '-') = id.hex := by
    refine List.filter_eq_self.mpr fun c member => ?_
    obtain ⟨i, _, rfl⟩ := List.mem_map.mp member
    have value := hexValue_hexDigit (Nat.mod_lt (id.int / 16 ^ (31 - i)) (show 0 < 16 by decide))
    simpa using (hexValue_plain value).2.2.2.2.2.1
  have kept (part : Str) (inside : part <:+: id.hex) : part.filter (· ≠ '-') = part := by
    rw [List.filter_eq_self] at digits ⊢
    exact fun c member => digits c (inside.subset member)
  have slice (n m : Nat) : ((id.hex.drop n).take m).filter (· ≠ '-') = (id.hex.drop n).take m :=
    kept _ ((List.take_prefix _ _).isInfix.trans (List.drop_suffix _ _).isInfix)
  have hyphen (rest : Str) : ('-' :: rest).filter (· ≠ '-') = rest.filter (· ≠ '-') := rfl
  have next (n m : Nat) : (id.hex.drop n).take m ++ id.hex.drop (n + m) = id.hex.drop n := by
    rw [← List.drop_drop, List.take_append_drop]
  have joined : id.text.filter (· ≠ '-') = id.hex := by
    rw [UUID.text, List.filter_append, hyphen, List.filter_append, hyphen, List.filter_append,
      hyphen, List.filter_append, hyphen, slice 8 4, slice 12 4, slice 16 4,
      kept _ (List.take_prefix _ _).isInfix, kept _ (List.drop_suffix _ _).isInfix, next 16 4,
      next 12 4, next 8 4, List.take_append_drop]
  rw [UUID.Spells, joined]

theorem UUID.parse_text (decimal : Char → Option (Fin 10)) (id : UUID) :
    UUID.parse decimal id.text = some id :=
  parse_written (.plain id.spells_text)

theorem UUID.text_inj {id id' : UUID} (same : id.text = id'.text) : id = id' := by
  have read := UUID.parse_text (fun _ => none) id
  rw [same, UUID.parse_text] at read
  exact (Option.some.inj read).symm

theorem uuid_ok {value text : Str} {code : String} :
    uuid decimal value code = .ok text ↔
      ∃ id, UUID.parse decimal value = some id ∧ id.Accepted ∧ id.text = text := by
  rw [uuid, bind_ok]
  constructor
  · rintro ⟨id, parsed, rest⟩
    obtain ⟨accepted, returned⟩ := require_bind_ok.mp rest
    exact ⟨id, expect_ok.mp parsed, accepted, pure_ok.mp returned⟩
  · rintro ⟨id, parsed, accepted, rfl⟩
    exact ⟨id, expect_ok.mpr parsed, require_bind_ok.mpr ⟨accepted, rfl⟩⟩

theorem UUID.Accepted.shown (accepted : id.Accepted) :
    (id.text[14]? = some '4' ∨ id.text[14]? = some '5') ∧
      (id.text[19]? = some '8' ∨ id.text[19]? = some '9' ∨ id.text[19]? = some 'a' ∨
        id.text[19]? = some 'b') := by
  have fourteenth : id.text[14]? = some (hexDigit (id.int / 16 ^ 19 % 16)) := by
    simp [UUID.text, UUID.hex]
  have nineteenth : id.text[19]? = some (hexDigit (id.int / 16 ^ 15 % 16)) := by
    simp [UUID.text, UUID.hex]
  have digits : (id.int / 16 ^ 19 % 16 = 4 ∨ id.int / 16 ^ 19 % 16 = 5) ∧
      id.int / 16 ^ 15 / 8 % 2 = 1 ∧ id.int / 16 ^ 15 / 4 % 2 = 0 := by
    rw [Nat.div_div_eq_div_mul, Nat.div_div_eq_div_mul, show 16 ^ 15 * 8 = 2 ^ 63 by decide,
      show 16 ^ 15 * 4 = 2 ^ 62 by decide, show 16 ^ 19 = 2 ^ 76 by decide]
    have known : id.version = some (id.int / 2 ^ 76 % 16) ∧
        id.int / 2 ^ 63 % 2 = 1 ∧ id.int / 2 ^ 62 % 2 = 0 := by
      unfold Accepted version at accepted
      split at accepted
      · rename_i rfc
        exact ⟨if_pos rfc, rfc⟩
      · simp at accepted
    refine ⟨?_, known.2⟩
    rw [Accepted, known.1, Option.some_inj, Option.some_inj] at accepted
    exact accepted
  rw [fourteenth, nineteenth]
  constructor
  · rcases digits.1 with four | five
    · rw [four]
      exact Or.inl rfl
    · rw [five]
      exact Or.inr rfl
  · have range : id.int / 16 ^ 15 % 16 = 8 ∨ id.int / 16 ^ 15 % 16 = 9 ∨
        id.int / 16 ^ 15 % 16 = 10 ∨ id.int / 16 ^ 15 % 16 = 11 := by
      generalize id.int / 16 ^ 15 = high at digits
      omega
    rcases range with eight | nine | ten | eleven
    · rw [eight]
      exact Or.inl rfl
    · rw [nine]
      exact Or.inr (Or.inl rfl)
    · rw [ten]
      exact Or.inr (Or.inr (Or.inl rfl))
    · rw [eleven]
      exact Or.inr (Or.inr (Or.inr rfl))

variable (decimal)

/-- The routes give every identifier one text: what they took they take again, two texts come out
the same exactly if they name one identifier, and every way to write an identifier of an accepted
version is taken and no way to write another. -/
theorem uuid_canonical (code : String) :
    (∀ value text, uuid decimal value code = .ok text →
      uuid decimal text code = .ok text ∧ text.length = 36 ∧ (∀ c ∈ text, isUUIDChar c = true) ∧
        (text[14]? = some '4' ∨ text[14]? = some '5') ∧
        (text[19]? = some '8' ∨ text[19]? = some '9' ∨ text[19]? = some 'a' ∨
          text[19]? = some 'b')) ∧
      (∀ value value' text text', uuid decimal value code = .ok text →
        uuid decimal value' code = .ok text' →
          (text = text' ↔ UUID.parse decimal value = UUID.parse decimal value')) ∧
      ∀ (id : UUID) (value : Str), id.Written value →
        uuid decimal value code =
          if id.Accepted then .ok id.text
          else .error (badRequestError "The resource identifier is invalid" code) := by
  refine ⟨?_, ?_, ?_⟩
  · intro value text taken
    obtain ⟨id, parsed, accepted, rfl⟩ := uuid_ok.mp taken
    exact ⟨uuid_ok.mpr ⟨id, id.parse_text decimal, accepted, rfl⟩, id.text_length, id.text_chars,
      accepted.shown⟩
  · intro value value' text text' taken taken'
    obtain ⟨id, parsed, _, rfl⟩ := uuid_ok.mp taken
    obtain ⟨id', parsed', _, rfl⟩ := uuid_ok.mp taken'
    rw [parsed, parsed', Option.some_inj]
    exact ⟨UUID.text_inj, fun same => by rw [same]⟩
  · intro id value written
    rw [uuid, UUID.parse_written written, expect_some, ok_bind]
    by_cases accepted : id.Accepted
    · rw [if_pos accepted, require_pos accepted, ok_bind]
      rfl
    · rw [if_neg accepted, require_neg accepted, error_bind]

end Spelling

def referenceEvidenceId : UUID := ⟨0x00000000000050008000000000000030, by decide⟩

theorem uuid_canonical_reference :
    uuid (fun _ => none) referenceEvidenceId.text "resource_invalid" =
      .ok referenceEvidenceId.text :=
  (((uuid_canonical (fun _ => none) "resource_invalid").2.2 referenceEvidenceId _
    (.plain referenceEvidenceId.spells_text))).trans (if_pos (by decide))

end TplBackend.Interaction
