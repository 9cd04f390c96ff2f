import TplBackend.Library.Dict
import TplBackend.Library.Json

/-! `json.loads`. A text is a list of characters, so an escape that names half a surrogate pair is
refused; a float is its literal. -/

namespace JsonText

open Text

def isBlank (c : Char) : Bool := c == ' ' || c == '\t' || c == '\n' || c == '\r'

def skip (text : Str) : Str := text.dropWhile isBlank

def hex4 : Str → Option (Nat × Str)
  | a :: b :: c :: d :: rest => do
      some (((← hexValue a) * 16 + (← hexValue b)) * 256 + ((← hexValue c) * 16 + (← hexValue d)),
        rest)
  | _ => none

def ofCode (n : Nat) : Option Char :=
  if h : n.isValidChar then some (Char.ofNatAux n h) else none

/-- The second half of a pair whose first half is `high`. -/
def lowHalf (high : Nat) : Str → Option (Char × Str)
  | '\\' :: 'u' :: rest => do
      let (low, rest) ← hex4 rest
      if 0xdc00 ≤ low ∧ low ≤ 0xdfff then
        some (← ofCode (0x10000 + (high - 0xd800) * 1024 + (low - 0xdc00)), rest)
      else none
  | _ => none

def unescape : Str → Option (Char × Str)
  | [] => none
  | c :: rest =>
      if c = '"' ∨ c = '\\' ∨ c = '/' then some (c, rest)
      else if c = 'n' then some ('\n', rest)
      else if c = 'r' then some ('\r', rest)
      else if c = 't' then some ('\t', rest)
      else if c = 'b' then some ('\x08', rest)
      else if c = 'f' then some ('\x0c', rest)
      else if c = 'u' then do
        let (code, rest) ← hex4 rest
        if 0xd800 ≤ code ∧ code ≤ 0xdbff then lowHalf code rest else some (← ofCode code, rest)
      else none

def scanString : Nat → Str → Option (Str × Str)
  | 0, _ => none
  | _ + 1, [] => none
  | fuel + 1, c :: rest =>
      if c = '"' then some ([], rest)
      else if c = '\\' then do
        let (d, rest) ← unescape rest
        let (text, rest) ← scanString fuel rest
        some (d :: text, rest)
      else if c.toNat < 32 then none
      else do
        let (text, rest) ← scanString fuel rest
        some (c :: text, rest)

def digitsOf (text : Str) : Str := text.takeWhile isDigit

def fractionOf : Str → Str
  | '.' :: rest => if digitsOf rest = [] then [] else '.' :: digitsOf rest
  | _ => []

def exponentOf : Str → Str
  | mark :: sign :: rest =>
      if mark = 'e' ∨ mark = 'E' then
        if sign = '+' ∨ sign = '-' then
          if digitsOf rest = [] then [] else mark :: sign :: digitsOf rest
        else if digitsOf (sign :: rest) = [] then [] else mark :: digitsOf (sign :: rest)
      else []
  | _ => []

/-- `(-?(?:0|[1-9][0-9]*))(\.[0-9]+)?([eE][-+]?[0-9]+)?` -/
def scanNumber (text : Str) : Option (Value × Str) :=
  let negative := text.head? = some '-'
  let body := if negative then text.tail else text
  let whole := if body.head? = some '0' then ['0'] else digitsOf body
  let rest := body.drop whole.length
  let fraction := fractionOf rest
  let rest := rest.drop fraction.length
  let exponent := exponentOf rest
  let rest := rest.drop exponent.length
  if whole = [] then none
  else if fraction = [] ∧ exponent = [] then
    let n : Int := Nat.ofDigitChars 10 whole 0
    some (.int (if negative then -n else n), rest)
  else some (.float ((if negative then ['-'] else []) ++ whole ++ fraction ++ exponent), rest)

def constants : List (Str × Value) :=
  [("null".toList, .null), ("true".toList, .bool true), ("false".toList, .bool false),
    ("NaN".toList, .float "NaN".toList), ("Infinity".toList, .float "Infinity".toList),
    ("-Infinity".toList, .float "-Infinity".toList)]

mutual

def scanOnce : Nat → Str → Option (Value × Str)
  | 0, _ => none
  | _ + 1, [] => none
  | fuel + 1, c :: rest =>
      if c = '"' then (scanString fuel rest).map fun found => (.str found.1, found.2)
      else if c = '[' then
        if (skip rest).head? = some ']' then some (.arr [], (skip rest).tail)
        else (scanItems fuel (skip rest)).map fun found => (.arr found.1, found.2)
      else if c = '\x7b' then
        if (skip rest).head? = some '\x7d' then some (.obj [], (skip rest).tail)
        else (scanMembers fuel (skip rest)).map fun found => (.obj (Dict.ofPairs found.1), found.2)
      else match constants.find? fun constant => constant.1.isPrefixOf (c :: rest) with
        | some constant => some (constant.2, (c :: rest).drop constant.1.length)
        | none => scanNumber (c :: rest)

def scanItems : Nat → Str → Option (List Value × Str)
  | 0, _ => none
  | fuel + 1, text => do
      let (item, rest) ← scanOnce fuel text
      if (skip rest).head? = some ',' then
        let (items, rest) ← scanItems fuel (skip (skip rest).tail)
        some (item :: items, rest)
      else if (skip rest).head? = some ']' then some ([item], (skip rest).tail)
      else none

def scanMembers : Nat → Str → Option (List (Str × Value) × Str)
  | 0, _ => none
  | fuel + 1, text => do
      if text.head? ≠ some '"' then none
      let (key, rest) ← scanString fuel text.tail
      if (skip rest).head? ≠ some ':' then none
      let (item, rest) ← scanOnce fuel (skip (skip rest).tail)
      if (skip rest).head? = some ',' then
        let (members, rest) ← scanMembers fuel (skip (skip rest).tail)
        some ((key, item) :: members, rest)
      else if (skip rest).head? = some '\x7d' then some ([(key, item)], (skip rest).tail)
      else none

end

/-- `json.loads`; `none` is the `JSONDecodeError`. Every turn of the scanner takes a character. -/
def loads (text : Str) : Option Value := do
  if text.head? = some '\ufeff' then none
  let (value, rest) ← scanOnce (text.length + 1) (skip text)
  if skip rest = [] then some value else none

section Numbers

theorem toDigits_zero_head {n : Nat} (head : (Nat.toDigits 10 n).head? = some '0') : n = 0 := by
  induction n using Nat.strongRecOn with
  | _ n ih =>
      by_cases small : n < 10
      · rw [Nat.toDigits_of_lt_base small] at head
        simpa using head
      · rw [Nat.toDigits_of_base_le (by decide) (by omega), List.head?_append_of_ne_nil _
          Nat.toDigits_ne_nil] at head
        have none_ := ih (n / 10) (by omega) head
        omega

def Ends (rest : Str) : Prop := ∀ c ∈ rest.head?, c = ',' ∨ c = ']' ∨ c = '\x7d'

theorem digitsOf_append {digits rest : Str} (all : ∀ c ∈ digits, isDigit c = true)
    (ends : Ends rest) : digitsOf (digits ++ rest) = digits := by
  rw [digitsOf, List.takeWhile_append_of_pos all]
  cases rest with
  | nil => simp
  | cons c rest =>
      have other : isDigit c = false := by
        rcases ends c rfl with rfl | rfl | rfl <;> decide
      simp [other]

theorem fractionOf_ends {rest : Str} (ends : Ends rest) : fractionOf rest = [] := by
  cases rest with
  | nil => rfl
  | cons c rest => rcases ends c rfl with rfl | rfl | rfl <;> rfl

theorem exponentOf_ends {rest : Str} (ends : Ends rest) : exponentOf rest = [] := by
  cases rest with
  | nil => rfl
  | cons c rest =>
      cases rest with
      | nil => rfl
      | cons d rest => rcases ends c rfl with rfl | rfl | rfl <;> rfl

theorem whole_toDigits (n : Nat) {rest : Str} (ends : Ends rest) :
    (if (Nat.toDigits 10 n ++ rest).head? = some '0' then ['0']
      else digitsOf (Nat.toDigits 10 n ++ rest)) = Nat.toDigits 10 n := by
  have some_ : Nat.toDigits 10 n ≠ [] := Nat.toDigits_ne_nil
  rw [List.head?_append_of_ne_nil _ some_]
  split
  · rename_i zero
    rw [toDigits_zero_head zero]
    rfl
  · exact digitsOf_append (fun c member => isDigit_toDigits member) ends

theorem scanNumber_dumpsInt (n : Int) {rest : Str} (ends : Ends rest) :
    scanNumber (dumpsInt n ++ rest) = some (.int n, rest) := by
  have some_ : Nat.toDigits 10 n.natAbs ≠ [] := Nat.toDigits_ne_nil
  have value : (Nat.ofDigitChars 10 (Nat.toDigits 10 n.natAbs) 0 : Int) = n.natAbs := by
    rw [Nat.ofDigitChars_ten_toDigits]
  by_cases negative : n < 0
  · have body : (dumpsInt n ++ rest).tail = Nat.toDigits 10 n.natAbs ++ rest := by
      simp [dumpsInt, negative]
    have sign : (dumpsInt n ++ rest).head? = some '-' := by simp [dumpsInt, negative]
    have same : -(n.natAbs : Int) = n := by omega
    simp only [scanNumber, sign, if_true, body, whole_toDigits n.natAbs ends, List.drop_left,
      fractionOf_ends ends, List.length_nil, List.drop_zero, exponentOf_ends ends, some_, if_false,
      and_self, value, same]
  · have body : dumpsInt n ++ rest = Nat.toDigits 10 n.natAbs ++ rest := by
      simp [dumpsInt, negative]
    have sign : (Nat.toDigits 10 n.natAbs ++ rest).head? ≠ some '-' := by
      rw [List.head?_append_of_ne_nil _ some_]
      intro head
      exact absurd (isDigit_toDigits (List.mem_of_mem_head? head)) (by decide)
    have same : (n.natAbs : Int) = n := by omega
    simp only [scanNumber, body, sign, if_false, whole_toDigits n.natAbs ends, List.drop_left,
      fractionOf_ends ends, List.length_nil, List.drop_zero, exponentOf_ends ends, some_, and_self,
      if_true, value, same]

end Numbers

section Strings

theorem hexValue_hexDigit {n : Nat} (small : n < 16) : hexValue (hexDigit n) = some n := by
  have table : ∀ i : Fin 16, hexValue (hexDigit i) = some i.1 := by decide
  exact table ⟨n, small⟩

theorem ofCode_toNat (c : Char) : ofCode c.toNat = some c := by
  have valid : c.toNat.isValidChar := c.valid
  rw [ofCode, dif_pos valid]
  rfl

theorem unescape_control {c : Char} (control : c.toNat < 32) (rest : Str) :
    unescape (['u', '0', '0', hexDigit (c.toNat / 16), hexDigit (c.toNat % 16)] ++ rest) =
      some (c, rest) := by
  have code : hex4 (['0', '0', hexDigit (c.toNat / 16), hexDigit (c.toNat % 16)] ++ rest) =
      some (c.toNat, rest) := by
    have zero : hexValue '0' = some 0 := by decide
    have whole : c.toNat / 16 * 16 + c.toNat % 16 = c.toNat := by omega
    simp [hex4, zero, hexValue_hexDigit (show c.toNat / 16 < 16 by omega),
      hexValue_hexDigit (show c.toNat % 16 < 16 by omega), whole]
  have single : ¬ (0xd800 ≤ c.toNat ∧ c.toNat ≤ 0xdbff) := by omega
  rw [List.cons_append, unescape, if_neg (by decide), if_neg (by decide), if_neg (by decide),
    if_neg (by decide), if_neg (by decide), if_neg (by decide), if_pos rfl, code]
  simp only [Option.bind_eq_bind, Option.bind_some, if_neg single, ofCode_toNat]

theorem scanString_escape (c : Char) (fuel : Nat) (rest : Str) :
    scanString (fuel + 1) (escape c ++ rest) =
      (scanString fuel rest).map fun found => (c :: found.1, found.2) := by
  have behind {e : Char} {tail left : Str} (read : unescape (e :: tail) = some (c, left)) :
      scanString (fuel + 1) ('\\' :: e :: tail) =
        (scanString fuel left).map fun found => (c :: found.1, found.2) := by
    rw [scanString, if_neg (by decide), if_pos rfl, read]
    simp only [Option.bind_eq_bind, Option.bind_some]
    cases scanString fuel left <;> rfl
  unfold escape
  split
  · rename_i same
    subst same
    exact behind rfl
  split
  · rename_i same
    subst same
    exact behind rfl
  split
  · rename_i same
    subst same
    exact behind rfl
  split
  · rename_i same
    subst same
    exact behind rfl
  split
  · rename_i same
    subst same
    exact behind rfl
  split
  · rename_i code
    have same : c = '\x08' := Char.toNat_inj.mp code
    subst same
    exact behind rfl
  split
  · rename_i code
    have same : c = '\x0c' := Char.toNat_inj.mp code
    subst same
    exact behind rfl
  split
  · rename_i control
    exact behind (unescape_control control rest)
  · rename_i quote slash _ _ _ _ _ printed
    rw [List.singleton_append, scanString, if_neg quote, if_neg slash, if_neg printed]
    cases scanString fuel rest <;> rfl

theorem scanString_quoted {text : Str} {fuel : Nat} (enough : text.length < fuel) (rest : Str) :
    scanString fuel (text.flatMap escape ++ '"' :: rest) = some (text, rest) := by
  induction text generalizing fuel with
  | nil =>
      obtain ⟨fuel, rfl⟩ : ∃ less, fuel = less + 1 := ⟨fuel - 1, by simp at enough; omega⟩
      rfl
  | cons c text ih =>
      obtain ⟨fuel, rfl⟩ : ∃ less, fuel = less + 1 := ⟨fuel - 1, by simp at enough; omega⟩
      rw [List.flatMap_cons, List.append_assoc, scanString_escape,
        ih (by simpa using enough), Option.map_some]

end Strings

section Exact

/-- The values that are read back from their texts: no floats, and no key of an object twice. -/
inductive Exact : Value → Prop
  | null : Exact .null
  | bool (b : Bool) : Exact (.bool b)
  | int (n : Int) : Exact (.int n)
  | str (text : Str) : Exact (.str text)
  | arr {items : List Value} (each : ∀ item ∈ items, Exact item) : Exact (.arr items)
  | obj {members : List (Str × Value)} (distinct : (members.map Prod.fst).Nodup)
      (each : ∀ pair ∈ members, Exact pair.2) : Exact (.obj members)

theorem skip_cons {c : Char} (printed : isBlank c = false) (rest : Str) :
    skip (c :: rest) = c :: rest := by
  simp [skip, printed]

theorem dumpsInt_head (n : Int) :
    ∃ c tail, dumpsInt n = c :: tail ∧ (isDigit c = true ∨
      c = '-' ∧ ∃ d, tail.head? = some d ∧ isDigit d = true) := by
  obtain ⟨d, digits, shape⟩ := List.exists_cons_of_ne_nil
    (Nat.toDigits_ne_nil : Nat.toDigits 10 n.natAbs ≠ [])
  have digit : isDigit d = true := isDigit_toDigits (n := n.natAbs) (by simp [shape])
  by_cases negative : n < 0
  · exact ⟨'-', d :: digits, by rw [dumpsInt, if_pos negative, shape],
      Or.inr ⟨rfl, d, rfl, digit⟩⟩
  · exact ⟨d, digits, by rw [dumpsInt, if_neg negative, shape], Or.inl digit⟩

theorem constants_head : ∀ constant ∈ constants, ∃ c tail, constant.1 = c :: tail ∧
    isDigit c = false ∧ (c = '-' → tail.head? = some 'I') := by
  simp only [constants, List.forall_mem_cons]
  refine ⟨⟨'n', _, rfl, by decide, by decide⟩, ⟨'t', _, rfl, by decide, by decide⟩,
    ⟨'f', _, rfl, by decide, by decide⟩, ⟨'N', _, rfl, by decide, by decide⟩,
    ⟨'I', _, rfl, by decide, by decide⟩, ⟨'-', _, rfl, by decide, fun _ => rfl⟩, by simp⟩

theorem no_constant (n : Int) (rest : Str) :
    (constants.find? fun constant => constant.1.isPrefixOf (dumpsInt n ++ rest)) = none := by
  rw [List.find?_eq_none]
  intro constant member begins
  obtain ⟨c, tail, shape, other, signed⟩ := constants_head constant member
  obtain ⟨d, digits, number, first⟩ := dumpsInt_head n
  obtain ⟨more, same⟩ := List.isPrefixOf_iff_prefix.mp begins
  rw [shape, number, List.cons_append, List.cons_append, List.cons.injEq] at same
  obtain ⟨rfl, same⟩ := same
  rcases first with digit | ⟨rfl, e, head, digit⟩
  · rw [other] at digit
    exact absurd digit (by decide)
  · have letter : (tail ++ more).head? = some 'I' := by
      rw [List.head?_append, signed rfl, Option.some_or]
    have figure : (digits ++ rest).head? = some e := by
      rw [List.head?_append, head, Option.some_or]
    rw [same, figure] at letter
    cases letter
    exact absurd digit (by decide)

theorem scanOnce_int (n : Int) (fuel : Nat) {rest : Str} (ends : Ends rest) :
    scanOnce (fuel + 1) (dumpsInt n ++ rest) = some (.int n, rest) := by
  obtain ⟨c, tail, shape, first⟩ := dumpsInt_head n
  have plain : c ≠ '"' ∧ c ≠ '[' ∧ c ≠ '\x7b' := by
    rcases first with digit | ⟨rfl, _⟩
    · refine ⟨?_, ?_, ?_⟩ <;> (rintro rfl; exact absurd digit (by decide))
    · decide
  have absent := no_constant n rest
  have number := scanNumber_dumpsInt n ends
  rw [shape, List.cons_append] at absent number ⊢
  rw [scanOnce, if_neg plain.1, if_neg plain.2.1, if_neg plain.2.2, absent]
  exact number

theorem dumps_head {value : Value} (exact : Exact value) :
    ∃ c tail, dumps value = c :: tail ∧ isBlank c = false ∧ c ≠ ']' ∧ c ≠ '\ufeff' := by
  cases exact with
  | null => exact ⟨'n', _, rfl, by decide⟩
  | bool b => cases b with
    | true => exact ⟨'t', _, rfl, by decide⟩
    | false => exact ⟨'f', _, rfl, by decide⟩
  | int n =>
      obtain ⟨c, tail, shape, first⟩ := dumpsInt_head n
      refine ⟨c, tail, by rw [dumps, shape], ?_⟩
      rcases first with digit | ⟨rfl, _⟩
      · refine ⟨?_, ?_, ?_⟩
        · by_contra blank
          simp only [isBlank, Bool.not_eq_false, Bool.or_eq_true, beq_iff_eq] at blank
          rcases blank with ((rfl | rfl) | rfl) | rfl <;> exact absurd digit (by decide)
        · rintro rfl
          exact absurd digit (by decide)
        · rintro rfl
          exact absurd digit (by decide)
      · decide
  | str text => exact ⟨'"', _, rfl, by decide⟩
  | @arr items _ => cases items with
    | nil => exact ⟨'[', _, rfl, by decide⟩
    | cons item items => exact ⟨'[', _, by rw [dumps], by decide⟩
  | @obj members _ _ => cases members with
    | nil => exact ⟨'\x7b', _, rfl, by decide⟩
    | cons pair members => exact ⟨'\x7b', _, by rw [dumps], by decide⟩

theorem skip_dumps {value : Value} (exact : Exact value) (rest : Str) :
    skip (dumps value ++ rest) = dumps value ++ rest := by
  obtain ⟨c, tail, shape, printed, _⟩ := dumps_head exact
  rw [shape, List.cons_append, skip_cons printed]

def Reads (value : Value) : Prop :=
  ∀ ⦃fuel : Nat⦄ ⦃rest : Str⦄, (dumps value).length ≤ fuel → Ends rest →
    scanOnce fuel (dumps value ++ rest) = some (value, rest)

theorem Ends.cons {c : Char} (closes : c = ',' ∨ c = ']' ∨ c = '\x7d') (rest : Str) :
    Ends (c :: rest) := by
  rintro d head
  cases head
  exact closes

theorem scanItems_dumps {item : Value} {items : List Value}
    (exact : ∀ value ∈ item :: items, Exact value) (reads : ∀ value ∈ item :: items, Reads value)
    {fuel : Nat} (enough : (dumps item ++ dumpsItems items).length < fuel) (rest : Str) :
    scanItems fuel (dumps item ++ dumpsItems items ++ ']' :: rest) =
      some (item :: items, rest) := by
  induction items generalizing item fuel with
  | nil =>
      obtain ⟨fuel, rfl⟩ : ∃ less, fuel = less + 1 := ⟨fuel - 1, by omega⟩
      rw [dumpsItems, List.append_nil] at enough ⊢
      rw [scanItems, reads item List.mem_cons_self (by omega) (Ends.cons (by decide) rest)]
      simp [skip_cons (show isBlank ']' = false by decide)]
  | cons next items ih =>
      obtain ⟨fuel, rfl⟩ : ∃ less, fuel = less + 1 := ⟨fuel - 1, by omega⟩
      simp only [dumpsItems, List.cons_append, List.length_append, List.length_cons] at enough
      have behind : scanItems fuel (dumps next ++ (dumpsItems items ++ ']' :: rest)) =
          some (next :: items, rest) := by
        rw [← List.append_assoc]
        exact ih (fun value member => exact value (List.mem_cons_of_mem _ member))
          (fun value member => reads value (List.mem_cons_of_mem _ member))
          (by rw [List.length_append]; omega)
      have spelled : dumps item ++ dumpsItems (next :: items) ++ ']' :: rest =
          dumps item ++ ',' :: (dumps next ++ (dumpsItems items ++ ']' :: rest)) := by
        simp [dumpsItems]
      rw [spelled, scanItems, reads item List.mem_cons_self (by omega) (Ends.cons (by decide) _)]
      simp only [Option.bind_eq_bind, Option.bind_some,
        skip_cons (show isBlank ',' = false by decide), List.head?_cons, if_true, List.tail_cons]
      rw [skip_dumps (exact next (by simp)), behind]
      rfl

theorem length_quoted (text : Str) : text.length + 2 ≤ (quoted text).length := by
  have each : ∀ c, 1 ≤ (escape c).length := by
    intro c
    unfold escape
    split_ifs <;> simp
  have whole : text.length ≤ (text.flatMap escape).length := by
    induction text with
    | nil => simp
    | cons c text ih =>
        rw [List.flatMap_cons, List.length_append, List.length_cons]
        have first := each c
        omega
  simp only [quoted, List.length_cons, List.length_append, List.length_nil]
  omega

theorem scanMembers_member {key : Str} {item : Value} (exact : Exact item) (reads : Reads item)
    {fuel : Nat} (enough : (quoted key).length + (dumps item).length ≤ fuel) {more : Str}
    (ends : Ends more) :
    scanMembers (fuel + 1) (quoted key ++ ':' :: (dumps item ++ more)) =
      if (skip more).head? = some ',' then
        (scanMembers fuel (skip (skip more).tail)).map fun found =>
          ((key, item) :: found.1, found.2)
      else if (skip more).head? = some '\x7d' then some ([(key, item)], (skip more).tail)
      else none := by
  have longer := length_quoted key
  have spelled : quoted key ++ ':' :: (dumps item ++ more) =
      '"' :: (key.flatMap escape ++ '"' :: ':' :: (dumps item ++ more)) := by
    simp [quoted]
  rw [spelled, scanMembers]
  simp only [List.head?_cons, ne_eq, not_true_eq_false, if_false, List.tail_cons,
    Option.bind_eq_bind, scanString_quoted (show key.length < fuel by omega),
    skip_cons (show isBlank ':' = false by decide), skip_dumps exact,
    reads (show (dumps item).length ≤ fuel by omega) ends, Option.bind_some]
  split
  · cases scanMembers fuel (skip (skip more).tail) <;> rfl
  · rfl

theorem scanMembers_dumps {key : Str} {item : Value} {members : List (Str × Value)}
    (exact : ∀ pair ∈ (key, item) :: members, Exact pair.2)
    (reads : ∀ pair ∈ (key, item) :: members, Reads pair.2) {fuel : Nat}
    (enough : (quoted key ++ ':' :: dumps item ++ dumpsMembers members).length < fuel)
    (rest : Str) :
    scanMembers fuel (quoted key ++ ':' :: dumps item ++ dumpsMembers members ++ '\x7d' :: rest) =
      some ((key, item) :: members, rest) := by
  have exactly : Exact item := exact (key, item) List.mem_cons_self
  have read : Reads item := reads (key, item) List.mem_cons_self
  induction members generalizing key item fuel with
  | nil =>
      obtain ⟨fuel, rfl⟩ : ∃ less, fuel = less + 1 := ⟨fuel - 1, by omega⟩
      simp only [dumpsMembers, List.append_nil, List.length_append, List.length_cons] at enough
      have spelled : quoted key ++ ':' :: dumps item ++ dumpsMembers [] ++ '\x7d' :: rest =
          quoted key ++ ':' :: (dumps item ++ '\x7d' :: rest) := by
        simp [dumpsMembers]
      rw [spelled, scanMembers_member exactly read (by omega) (Ends.cons (by decide) rest),
        skip_cons (show isBlank '\x7d' = false by decide)]
      rfl
  | cons next members ih =>
      obtain ⟨fuel, rfl⟩ : ∃ less, fuel = less + 1 := ⟨fuel - 1, by omega⟩
      obtain ⟨other, value⟩ := next
      simp only [dumpsMembers, List.append_assoc, List.cons_append, List.length_append,
        List.length_cons] at enough
      have room : (quoted other ++ ':' :: dumps value ++ dumpsMembers members).length < fuel := by
        simp only [List.append_assoc, List.cons_append, List.length_append, List.length_cons]
        omega
      have behind := ih (fun pair member => exact pair (List.mem_cons_of_mem _ member))
        (fun pair member => reads pair (List.mem_cons_of_mem _ member)) room
        (exact (other, value) (by simp)) (reads (other, value) (by simp))
      have spelled : quoted key ++ ':' :: dumps item ++ dumpsMembers ((other, value) :: members) ++
            '\x7d' :: rest =
          quoted key ++ ':' :: (dumps item ++
            ',' :: (quoted other ++ ':' :: dumps value ++ dumpsMembers members ++ '\x7d' :: rest)) := by
        simp [dumpsMembers]
      have quote : ∀ more : Str, skip (quoted other ++ more) = quoted other ++ more :=
        fun more => skip_cons (by decide) _
      rw [spelled, scanMembers_member exactly read (by omega) (Ends.cons (by decide) _),
        skip_cons (show isBlank ',' = false by decide),
        List.head?_cons, if_pos rfl, List.tail_cons]
      rw [List.append_assoc, List.append_assoc, quote, ← List.append_assoc, ← List.append_assoc,
        behind]
      rfl

theorem Reads.of_succ {value : Value} (written : dumps value ≠ [])
    (step : ∀ (fuel : Nat) (rest : Str), (dumps value).length ≤ fuel + 1 → Ends rest →
      scanOnce (fuel + 1) (dumps value ++ rest) = some (value, rest)) : Reads value := by
  intro fuel rest enough ends
  have some_ := List.length_pos_iff.mpr written
  obtain ⟨fuel, rfl⟩ : ∃ less, fuel = less + 1 := ⟨fuel - 1, by omega⟩
  exact step fuel rest enough ends

theorem reads_of_exact {value : Value} (exact : Exact value) : Reads value := by
  induction exact with
  | null => exact Reads.of_succ (by simp [dumps]) fun _ _ _ _ => rfl
  | bool b => cases b with
    | true => exact Reads.of_succ (by simp [dumps]) fun _ _ _ _ => rfl
    | false => exact Reads.of_succ (by simp [dumps]) fun _ _ _ _ => rfl
  | int n =>
      obtain ⟨c, tail, shape, _⟩ := dumpsInt_head n
      exact Reads.of_succ (by simp [dumps, shape]) fun fuel _ _ ends => scanOnce_int n fuel ends
  | str text =>
      refine Reads.of_succ (by simp [dumps, quoted]) fun fuel rest enough _ => ?_
      have longer := length_quoted text
      rw [dumps] at enough ⊢
      rw [quoted, List.cons_append, List.append_assoc, List.singleton_append, scanOnce, if_pos rfl,
        scanString_quoted (by omega), Option.map_some]
  | @arr items each ih => cases items with
    | nil =>
        exact Reads.of_succ (by simp [dumps]) fun _ _ _ _ => rfl
    | cons item items =>
        refine Reads.of_succ (by simp [dumps]) fun fuel rest enough _ => ?_
        simp only [dumps, List.length_cons, List.length_append, List.length_nil] at enough
        obtain ⟨c, tail, shape, printed, opens, _⟩ := dumps_head (each item List.mem_cons_self)
        have spelled : dumps (.arr (item :: items)) ++ rest =
            '[' :: (dumps item ++ dumpsItems items ++ ']' :: rest) := by
          simp [dumps]
        have start : skip (dumps item ++ dumpsItems items ++ ']' :: rest) =
            dumps item ++ dumpsItems items ++ ']' :: rest := by
          rw [shape]
          exact skip_cons printed _
        have first : (dumps item ++ dumpsItems items ++ ']' :: rest).head? ≠ some ']' := by
          simpa [shape] using opens
        rw [spelled, scanOnce, if_neg (by decide), if_pos rfl, start, if_neg first,
          scanItems_dumps each ih (by rw [List.length_append]; omega), Option.map_some]
  | @obj members distinct each ih => cases members with
    | nil =>
        exact Reads.of_succ (by simp [dumps]) fun _ _ _ _ => rfl
    | cons pair members =>
        obtain ⟨key, item⟩ := pair
        refine Reads.of_succ (by simp [dumps]) fun fuel rest enough _ => ?_
        simp only [dumps, List.length_cons, List.length_append, List.length_nil] at enough
        have spelled : dumps (.obj ((key, item) :: members)) ++ rest =
            '\x7b' :: (quoted key ++ ':' :: dumps item ++ dumpsMembers members ++ '\x7d' :: rest) := by
          simp [dumps]
        have start : skip (quoted key ++ ':' :: dumps item ++ dumpsMembers members ++ '\x7d' :: rest) =
            quoted key ++ ':' :: dumps item ++ dumpsMembers members ++ '\x7d' :: rest :=
          skip_cons (by decide) _
        have first : (quoted key ++ ':' :: dumps item ++ dumpsMembers members ++
            '\x7d' :: rest).head? ≠ some '\x7d' := by
          simp [quoted]
        rw [spelled, scanOnce, if_neg (by decide), if_neg (by decide), if_pos rfl, start,
          if_neg first, scanMembers_dumps each ih
            (by simp only [List.length_append, List.length_cons]; omega), Option.map_some,
          Dict.ofPairs_of_nodup distinct]

/-- A value without floats is read back from its text. -/
theorem loads_dumps {value : Value} (exact : Exact value) : loads (dumps value) = some value := by
  have whole : scanOnce ((dumps value).length + 1) (skip (dumps value)) = some (value, []) := by
    have start := skip_dumps exact []
    have read := reads_of_exact exact (Nat.le_succ (dumps value).length)
      (show Ends [] by rintro _ ⟨⟩)
    rw [List.append_nil] at start read
    rw [start, read]
  have mark : (dumps value).head? ≠ some '\ufeff' := by
    obtain ⟨c, tail, shape, _, _, marked⟩ := dumps_head exact
    simpa [shape] using marked
  rw [loads, if_neg mark, whole]
  rfl

theorem printed_escape (c : Char) : ∀ d ∈ escape c, 32 ≤ d.toNat := by
  have digits {n : Nat} (small : n < 16) : 32 ≤ (hexDigit n).toNat := by
    have table : ∀ i : Fin 16, 32 ≤ (hexDigit i).toNat := by decide
    exact table ⟨n, small⟩
  unfold escape
  split_ifs with _ _ _ _ _ _ _ control
  on_goal 8 =>
    have high := digits (show c.toNat / 16 < 16 by omega)
    have low := digits (Nat.mod_lt c.toNat (show 0 < 16 by decide))
    simp [high, low]
  on_goal 8 => simpa using control
  all_goals simp

theorem printed_quoted (text : Str) : ∀ c ∈ quoted text, 32 ≤ c.toNat := by
  intro c member
  simp only [quoted, List.mem_cons, List.mem_append, List.mem_flatMap, List.not_mem_nil,
    or_false] at member
  rcases member with rfl | ⟨d, _, escaped⟩ | rfl
  · decide
  · exact printed_escape d c escaped
  · decide

theorem printed_dumps {value : Value} (exact : Exact value) : ∀ c ∈ dumps value, 32 ≤ c.toNat := by
  induction exact with
  | null => simp [dumps]
  | bool b => cases b <;> simp [dumps]
  | int n =>
      have digits : ∀ c ∈ Nat.toDigits 10 n.natAbs, 32 ≤ c.toNat := by
        intro c member
        have digit := isDigit_toDigits member
        simp only [isDigit, Bool.and_eq_true, decide_eq_true_eq, Char.le_def,
          UInt32.le_iff_toNat_le] at digit
        have zero : 48 ≤ c.toNat := digit.1
        omega
      intro c member
      rw [dumps, dumpsInt] at member
      split at member
      · rcases List.mem_cons.mp member with rfl | figure
        · decide
        · exact digits c figure
      · exact digits c member
  | str text => exact printed_quoted text
  | @arr items each ih =>
      have parts : ∀ c ∈ dumpsItems items, 32 ≤ c.toNat := by
        intro c member
        rw [dumpsItems_eq, List.mem_flatMap] at member
        obtain ⟨item, present, member⟩ := member
        rcases List.mem_cons.mp member with rfl | inner
        · decide
        · exact ih item present c inner
      intro c member
      rw [dumps_arr] at member
      simp only [List.mem_cons, List.mem_append, List.not_mem_nil, or_false] at member
      rcases member with rfl | inner | rfl
      · decide
      · exact parts c (List.mem_of_mem_tail inner)
      · decide
  | @obj members distinct each ih =>
      have parts : ∀ c ∈ dumpsMembers members, 32 ≤ c.toNat := by
        intro c member
        rw [dumpsMembers_eq, List.mem_flatMap] at member
        obtain ⟨pair, present, member⟩ := member
        simp only [List.cons_append, List.mem_cons, List.mem_append] at member
        rcases member with rfl | key | rfl | inner
        · decide
        · exact printed_quoted pair.1 c key
        · decide
        · exact ih pair present c inner
      intro c member
      rw [dumps_obj] at member
      simp only [List.mem_cons, List.mem_append, List.not_mem_nil, or_false] at member
      rcases member with rfl | inner | rfl
      · decide
      · exact parts c (List.mem_of_mem_tail inner)
      · decide

end Exact

end JsonText
