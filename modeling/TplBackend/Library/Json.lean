import Mathlib.Algebra.BigOperators.Group.List.Basic
import Mathlib.Algebra.Ring.Nat
import TplBackend.Library.Text

/-! JSON texts as `json.dumps(ensure_ascii=False, separators=(",", ":"))` writes them. -/

namespace JsonText

open Text

inductive Value
  | null
  | bool (b : Bool)
  | int (n : Int)
  | float (repr : Str)
  | str (text : Str)
  | arr (items : List Value)
  | obj (members : List (Str × Value))

def hexDigit (n : Nat) : Char :=
  ['0', '1', '2', '3', '4', '5', '6', '7', '8', '9', 'a', 'b', 'c', 'd', 'e', 'f'].getD n '0'

def escape (c : Char) : Str :=
  if c = '"' then ['\\', '"']
  else if c = '\\' then ['\\', '\\']
  else if c = '\n' then ['\\', 'n']
  else if c = '\r' then ['\\', 'r']
  else if c = '\t' then ['\\', 't']
  else if c.toNat = 8 then ['\\', 'b']
  else if c.toNat = 12 then ['\\', 'f']
  else if c.toNat < 32 then
    ['\\', 'u', '0', '0', hexDigit (c.toNat / 16), hexDigit (c.toNat % 16)]
  else [c]

def quoted (text : Str) : Str := '"' :: (text.flatMap escape ++ ['"'])

def dumpsInt (n : Int) : Str :=
  if n < 0 then '-' :: Nat.toDigits 10 n.natAbs else Nat.toDigits 10 n.natAbs

mutual

def dumps : Value → Str
  | .null => ['n', 'u', 'l', 'l']
  | .bool true => ['t', 'r', 'u', 'e']
  | .bool false => ['f', 'a', 'l', 's', 'e']
  | .int n => dumpsInt n
  | .float repr => repr
  | .str text => quoted text
  | .arr [] => ['[', ']']
  | .arr (item :: items) => '[' :: (dumps item ++ dumpsItems items ++ [']'])
  | .obj [] => ['\x7b', '\x7d']
  | .obj ((key, item) :: members) =>
      '\x7b' :: (quoted key ++ ':' :: dumps item ++ dumpsMembers members ++ ['\x7d'])

def dumpsItems : List Value → Str
  | [] => []
  | item :: items => ',' :: dumps item ++ dumpsItems items

def dumpsMembers : List (Str × Value) → Str
  | [] => []
  | (key, item) :: members => ',' :: quoted key ++ ':' :: dumps item ++ dumpsMembers members

end

def utf8Length (text : Str) : Nat := (text.map Char.utf8Size).sum

theorem utf8Length_append (s t : Str) : utf8Length (s ++ t) = utf8Length s + utf8Length t := by
  simp [utf8Length]

theorem utf8Length_member (key : Str) (item : Value) :
    utf8Length (quoted key ++ ':' :: dumps item) =
      utf8Length (quoted key) + 1 + utf8Length (dumps item) := by
  have colon : Char.utf8Size ':' = 1 := rfl
  rw [utf8Length_append, utf8Length, utf8Length, List.map_cons, List.sum_cons, colon, utf8Length,
    Nat.add_assoc]

theorem dumpsItems_eq (items : List Value) :
    dumpsItems items = items.flatMap fun item => ',' :: dumps item := by
  induction items with
  | nil => simp [dumpsItems]
  | cons item items ih => simp [dumpsItems, ih]

theorem dumpsMembers_eq (members : List (Str × Value)) :
    dumpsMembers members =
      members.flatMap fun member => ',' :: quoted member.1 ++ ':' :: dumps member.2 := by
  induction members with
  | nil => simp [dumpsMembers]
  | cons member members ih => simp [dumpsMembers, ih]

theorem dumps_arr (items : List Value) :
    dumps (.arr items) = '[' :: ((dumpsItems items).tail ++ [']']) := by
  cases items <;> simp [dumps, dumpsItems]

theorem dumps_obj (members : List (Str × Value)) :
    dumps (.obj members) = '\x7b' :: ((dumpsMembers members).tail ++ ['\x7d']) := by
  cases members <;> simp [dumps, dumpsMembers]

theorem utf8Length_dumps_obj (members : List (Str × Value)) :
    utf8Length (dumps (.obj members)) =
      (members.map fun member =>
        1 + utf8Length (quoted member.1 ++ ':' :: dumps member.2)).sum - 1 + 2 := by
  have tail : ∀ text : Str, (text = [] ∨ ∃ rest, text = ',' :: rest) →
      utf8Length text.tail = utf8Length text - 1 := by
    rintro _ (rfl | ⟨rest, rfl⟩)
    · rfl
    · have comma : Char.utf8Size ',' = 1 := rfl
      simp [utf8Length, comma]
  have shape : dumpsMembers members = [] ∨ ∃ rest, dumpsMembers members = ',' :: rest := by
    cases members <;> simp [dumpsMembers]
  have total : utf8Length (dumpsMembers members) = (members.map fun member =>
      1 + utf8Length (quoted member.1 ++ ':' :: dumps member.2)).sum := by
    rw [dumpsMembers_eq]
    clear shape
    induction members with
    | nil => rfl
    | cons member members ih =>
        have comma : Char.utf8Size ',' = 1 := rfl
        rw [List.flatMap_cons, utf8Length_append, ih, List.map_cons, List.sum_cons]
        simp [utf8Length, comma]
  have braces : Char.utf8Size '\x7b' = 1 ∧ Char.utf8Size '\x7d' = 1 := ⟨rfl, rfl⟩
  rw [dumps_obj, ← total, ← tail _ shape]
  simp [utf8Length, braces.1, braces.2]
  omega

theorem utf8Length_dumps_perm {members members' : List (Str × Value)}
    (perm : members.Perm members') :
    utf8Length (dumps (.obj members)) = utf8Length (dumps (.obj members')) := by
  rw [utf8Length_dumps_obj, utf8Length_dumps_obj, (perm.map _).sum_eq]

end JsonText
