import Mathlib.Data.List.SplitBy
import TplBackend.Library.Text

namespace Percent

open Text

/-- `_ALWAYS_SAFE` -/
def isUnreserved (c : Char) : Bool :=
  isLetter c || isDigit c || c == '_' || c == '.' || c == '-' || c == '~'

def hexDigit (n : Nat) : Char := if n < 10 then Char.ofNat (48 + n) else Char.ofNat (55 + n)

def escapeByte (byte : UInt8) : Str := ['%', hexDigit (byte.toNat / 16), hexDigit (byte.toNat % 16)]

/-- `urllib.parse.quote`; `safe` are the characters that it leaves as well. -/
def quote (safe : Char → Bool) (text : Str) : Str :=
  text.flatMap fun c =>
    if isUnreserved c || safe c then [c] else (String.utf8EncodeChar c).flatMap escapeByte

def quotePlus (text : Str) : Str :=
  (quote (· == ' ') text).map fun c => if c == ' ' then '+' else c

/-- `urllib.parse.urlencode` of pairs of texts. -/
def urlencode (fields : List (Str × Str)) : Str :=
  ['&'].intercalate (fields.map fun field => quotePlus field.1 ++ '=' :: quotePlus field.2)

def hexPair : Str → Option Nat
  | a :: b :: _ => do some ((← hexValue a) * 16 + (← hexValue b))
  | _ => none

/-- `skip` is what is left of an escape that has been read. -/
def unquoteFrom : Nat → Str → List Nat
  | _, [] => []
  | skip + 1, _ :: rest => unquoteFrom skip rest
  | 0, c :: rest =>
      match if c = '%' then hexPair rest else none with
      | some byte => byte :: unquoteFrom 2 rest
      | none => c.toNat :: unquoteFrom 0 rest

def unquoteToBytes (text : Str) : List Nat := unquoteFrom 0 text

/-- A character that a UTF-8 decoder has begun: its bits so far, the bytes that are missing and the
range of the next one. -/
structure Begun where
  code : Nat
  missing : Nat
  low : Nat
  high : Nat

def replacement : Char := '\ufffd'

/-- The first byte of a character: what it writes at once, and what it begins. -/
def begin_ (byte : Nat) : Str × Option Begun :=
  if byte < 0x80 then ([Char.ofNat byte], none)
  else if 0xc2 ≤ byte ∧ byte ≤ 0xdf then ([], some ⟨byte - 0xc0, 1, 0x80, 0xbf⟩)
  else if 0xe0 ≤ byte ∧ byte ≤ 0xef then
    ([], some ⟨byte - 0xe0, 2, if byte = 0xe0 then 0xa0 else 0x80, if byte = 0xed then 0x9f else 0xbf⟩)
  else if 0xf0 ≤ byte ∧ byte ≤ 0xf4 then
    ([], some ⟨byte - 0xf0, 3, if byte = 0xf0 then 0x90 else 0x80, if byte = 0xf4 then 0x8f else 0xbf⟩)
  else ([replacement], none)

/-- `bytes.decode("utf-8", "replace")` -/
def decode : Option Begun → List Nat → Str
  | none, [] => []
  | some _, [] => [replacement]
  | none, byte :: rest => (begin_ byte).1 ++ decode (begin_ byte).2 rest
  | some begun, byte :: rest =>
      if begun.low ≤ byte ∧ byte ≤ begun.high then
        let code := begun.code * 64 + (byte - 0x80)
        if begun.missing = 1 then Char.ofNat code :: decode none rest
        else decode (some ⟨code, begun.missing - 1, 0x80, 0xbf⟩) rest
      else replacement :: ((begin_ byte).1 ++ decode (begin_ byte).2 rest)

/-- `urllib.parse.unquote` -/
def unquote (text : Str) : Str :=
  if '%' ∉ text then text
  else (text.splitBy fun c d => isAscii c == isAscii d).flatMap fun run =>
    if run.all isAscii then decode none (unquoteToBytes run) else run

def isEscaped : Str → Bool
  | [] => true
  | c :: rest =>
      if c = '%' then
        match rest with
        | a :: b :: more => (hexValue a).isSome && (hexValue b).isSome && isEscaped more
        | _ => false
      else isUnreserved c && isEscaped rest

def none_ : Char → Bool := fun _ => false

example : quote none_ "task:42".toList = "task%3A42".toList := by decide

example : unquote "a%3ab%e2%82%ac%ff".toList = "a:b€\ufffd".toList := by decide +kernel

theorem hexValue_hexDigit {n : Nat} (small : n < 16) : hexValue (hexDigit n) = some n := by
  have table : ∀ i : Fin 16, hexValue (hexDigit i) = some i.1 := by decide
  exact table ⟨n, small⟩

theorem isAscii_of_isUnreserved {c : Char} (plain : isUnreserved c = true) : isAscii c = true := by
  simp only [isUnreserved, Bool.or_eq_true, beq_iff_eq] at plain
  rcases plain with ((((letter | digit) | rfl) | rfl) | rfl) | rfl
  · exact isAscii_of_isLetter letter
  · exact isAscii_of_isDigit digit
  all_goals rfl

theorem isEscaped_escapeByte (byte : UInt8) (rest : Str) :
    isEscaped (escapeByte byte ++ rest) = isEscaped rest := by
  have high : byte.toNat / 16 < 16 := by have := byte.toNat_lt; omega
  have low : byte.toNat % 16 < 16 := Nat.mod_lt _ (by omega)
  simp [escapeByte, isEscaped, hexValue_hexDigit high, hexValue_hexDigit low]

theorem isEscaped_quote (text : Str) : isEscaped (quote none_ text) = true := by
  induction text with
  | nil => rfl
  | cons c text ih =>
      rw [quote, List.flatMap_cons, ← quote]
      by_cases plain : isUnreserved c = true
      · have mark : c ≠ '%' := by
          rintro rfl
          exact absurd plain (by decide)
        rw [if_pos (by simp [plain]), List.singleton_append, isEscaped.eq_def]
        simp [mark, plain, ih]
      · rw [if_neg (by simp [plain, none_])]
        generalize String.utf8EncodeChar c = bytes
        induction bytes with
        | nil => exact ih
        | cons byte bytes inner =>
            rw [List.flatMap_cons, List.append_assoc, isEscaped_escapeByte, inner]

theorem quote_chars {text : Str} {c : Char} (member : c ∈ quote none_ text) :
    isUnreserved c = true ∨ c = '%' := by
  have digit : ∀ i : Fin 16, isUnreserved (hexDigit i) = true := by decide
  obtain ⟨d, _, inside⟩ := List.mem_flatMap.mp member
  split at inside
  · rename_i plain
    rw [List.mem_singleton.mp inside]
    exact Or.inl (by simpa [none_] using plain)
  · obtain ⟨byte, _, inside⟩ := List.mem_flatMap.mp inside
    have high : byte.toNat / 16 < 16 := by have := byte.toNat_lt; omega
    have low : byte.toNat % 16 < 16 := Nat.mod_lt _ (by omega)
    simp only [escapeByte, List.mem_cons, List.not_mem_nil, or_false] at inside
    rcases inside with rfl | rfl | rfl
    · exact Or.inr rfl
    · exact Or.inl (digit ⟨_, high⟩)
    · exact Or.inl (digit ⟨_, low⟩)

section Ascii

variable {text : Str} (ascii : ∀ c ∈ text, isAscii c = true)

include ascii

theorem decode_ascii : decode none (text.map Char.toNat) = text := by
  induction text with
  | nil => rfl
  | cons c text ih =>
      have small : c.toNat < 128 := by simpa [isAscii] using ascii c List.mem_cons_self
      rw [List.map_cons, decode, begin_, if_pos small,
        ih fun d member => ascii d (List.mem_cons_of_mem _ member), Char.ofNat_toNat]
      rfl

theorem unquoteToBytes_quote : unquoteToBytes (quote none_ text) = text.map Char.toNat := by
  induction text with
  | nil => rfl
  | cons c text ih =>
      have small : c.toNat < 128 := by simpa [isAscii] using ascii c List.mem_cons_self
      have rest := ih fun d member => ascii d (List.mem_cons_of_mem _ member)
      rw [quote, List.flatMap_cons, ← quote, List.map_cons, ← rest]
      by_cases plain : isUnreserved c = true
      · have mark : c ≠ '%' := by
          rintro rfl
          exact absurd plain (by decide)
        rw [if_pos (by simp [plain]), List.singleton_append, unquoteToBytes, unquoteFrom,
          if_neg mark]
        rfl
      · have width : c.utf8Size = 1 := by
          rw [Char.utf8Size_eq_one_iff, UInt32.le_iff_toNat_le]
          exact Nat.le_of_lt_succ small
        have byte : c.val.toUInt8.toNat = c.toNat := by
          rw [UInt32.toNat_toUInt8]
          exact Nat.mod_eq_of_lt (Nat.lt_trans small (by decide))
        have pair : hexPair (hexDigit (c.toNat / 16) :: hexDigit (c.toNat % 16) ::
            quote none_ text) = some c.toNat := by
          rw [hexPair, hexValue_hexDigit (by omega), hexValue_hexDigit (by omega)]
          exact congrArg some (by omega)
        rw [if_neg (by simp [plain, none_]), String.utf8EncodeChar_eq_singleton width,
          List.flatMap_singleton, escapeByte, byte, List.cons_append, unquoteToBytes, unquoteFrom,
          if_pos rfl, List.cons_append, List.cons_append, List.nil_append, pair]
        rfl

theorem unquote_ascii : unquote text = decode none (unquoteToBytes text) := by
  unfold unquote
  by_cases mark : '%' ∈ text
  · have some_ : text ≠ [] := fun empty => by simp [empty] at mark
    have chain : text.IsChain fun c d => (isAscii c == isAscii d) = true :=
      (List.pairwise_of_forall_mem_list fun c first d second => by
        rw [ascii c first, ascii d second]
        rfl).isChain
    rw [if_neg (by simpa using mark), List.splitBy_of_isChain some_ chain, List.flatMap_singleton,
      if_pos (List.all_eq_true.mpr ascii)]
  · have plain : unquoteToBytes text = text.map Char.toNat := by
      clear ascii
      induction text with
      | nil => rfl
      | cons c text ih =>
          rw [List.mem_cons, not_or] at mark
          rw [unquoteToBytes, unquoteFrom, if_neg (Ne.symm mark.1)]
          exact congrArg (c.toNat :: ·) (ih mark.2)
    rw [if_pos mark, plain, decode_ascii ascii]

theorem unquote_quote : unquote (quote none_ text) = text := by
  have quoted : ∀ c ∈ quote none_ text, isAscii c = true := fun c member =>
    (quote_chars member).elim isAscii_of_isUnreserved fun mark => by
      rw [mark]
      rfl
  rw [unquote_ascii quoted, unquoteToBytes_quote ascii, decode_ascii ascii]

end Ascii

end Percent
