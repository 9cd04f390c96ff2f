import Mathlib.Data.List.DropRight
import Mathlib.Data.List.TakeWhile

namespace Text

/-- A string as its code points. -/
abbrev Str := List Char

instance instLawfulBEqStr : LawfulBEq (List Char) := List.instLawfulBEq

/-- The characters that `str.strip()` removes and that `\s` matches in a pattern. -/
def isSpace (c : Char) : Bool :=
  let n := c.toNat
  (9 ≤ n && n ≤ 13) || (28 ≤ n && n ≤ 32) || n == 0x85 || n == 0xa0 || n == 0x1680 ||
    (0x2000 ≤ n && n ≤ 0x200a) || n == 0x2028 || n == 0x2029 || n == 0x202f || n == 0x205f ||
    n == 0x3000

def strip (s : Str) : Str := (s.dropWhile isSpace).rdropWhile isSpace

def rstrip (mark : Char) (s : Str) : Str := s.rdropWhile (· == mark)

/-- What stands before the first `mark`, or everything. -/
def before (mark : Char) (s : Str) : Str := s.takeWhile (· != mark)

/-- What stands after the first `mark`, or nothing. -/
def after (mark : Char) (s : Str) : Str := (s.dropWhile (· != mark)).tail

/-- What stands after the last `mark`, or everything. -/
def afterLast (mark : Char) (s : Str) : Str := s.rtakeWhile (· != mark)

/-- What stands before the last `mark`, or nothing. -/
def beforeLast (mark : Char) (s : Str) : Str := (s.rdropWhile (· != mark)).dropLast

/-- `[item.strip() for item in value.split(",") if item.strip()]` -/
def splitCsv (value : Str) : List Str := ((value.splitOn ',').map strip).filter (· ≠ [])

/-- `text.split()` -/
def words (text : Str) : List Str := (text.splitOnP isSpace).filter (· ≠ [])

def isAscii (c : Char) : Bool := c.toNat < 128

def isLetter (c : Char) : Bool := ('a' ≤ c && c ≤ 'z') || ('A' ≤ c && c ≤ 'Z')

def isDigit (c : Char) : Bool := '0' ≤ c && c ≤ '9'

def hexValue (c : Char) : Option Nat :=
  if isDigit c then some (c.toNat - 48)
  else if 'a' ≤ c ∧ c ≤ 'f' then some (c.toNat - 87)
  else if 'A' ≤ c ∧ c ≤ 'F' then some (c.toNat - 55)
  else none

def readDecimal (text : Str) : Option Nat :=
  if text ≠ [] ∧ text.all isDigit then some (Nat.ofDigitChars 10 text 0) else none

theorem isDigit_toDigits {n : Nat} {c : Char} (member : c ∈ Nat.toDigits 10 n) :
    isDigit c = true := by
  have digit := Nat.isDigit_of_mem_toDigits (by decide) (by decide) member
  simpa [Char.isDigit, isDigit, Char.le_def] using digit

theorem readDecimal_toDigits (n : Nat) : readDecimal (Nat.toDigits 10 n) = some n := by
  have digits : (Nat.toDigits 10 n).all isDigit = true :=
    List.all_eq_true.mpr fun c member => isDigit_toDigits member
  rw [readDecimal, if_pos ⟨Nat.toDigits_ne_nil, digits⟩, Nat.ofDigitChars_ten_toDigits]

theorem isAscii_of_isLetter {c : Char} (letter : isLetter c = true) : isAscii c = true := by
  simp only [isLetter, Bool.or_eq_true, Bool.and_eq_true, decide_eq_true_eq, Char.le_def,
    UInt32.le_iff_toNat_le] at letter
  have lower : 'z'.val.toNat = 122 := rfl
  have upper : 'Z'.val.toNat = 90 := rfl
  simp only [isAscii, decide_eq_true_eq, Char.toNat]
  omega

theorem isAscii_of_isDigit {c : Char} (digit : isDigit c = true) : isAscii c = true := by
  simp only [isDigit, Bool.and_eq_true, decide_eq_true_eq, Char.le_def,
    UInt32.le_iff_toNat_le] at digit
  have nine : '9'.val.toNat = 57 := rfl
  simp only [isAscii, decide_eq_true_eq, Char.toNat]
  omega

theorem isLetter_of_upper {c : Char} (upper : c.val ≥ 'A'.val ∧ c.val ≤ 'Z'.val) :
    isLetter c = true := by
  simp only [isLetter, Bool.or_eq_true, Bool.and_eq_true, decide_eq_true_eq, Char.le_def]
  exact Or.inr ⟨upper.1, upper.2⟩

theorem isLetter_toLower (c : Char) : isLetter c.toLower = isLetter c := by
  by_cases upper : c.val ≥ 'A'.val ∧ c.val ≤ 'Z'.val
  · have lower : c.toLower = ⟨c.val + ('a'.val - 'A'.val), _⟩ := dif_pos upper
    rw [lower, isLetter_of_upper upper]
    simp only [isLetter, Bool.or_eq_true, Bool.and_eq_true, decide_eq_true_eq, Char.le_def,
      UInt32.le_iff_toNat_le]
    simp only [ge_iff_le, UInt32.le_iff_toNat_le] at upper
    simp at upper ⊢
    omega
  · have same : c.toLower = c := dif_neg upper
    rw [same]

theorem toLower_eq_self {c : Char} (plain : isLetter c = false) : c.toLower = c := by
  refine dif_neg fun upper => ?_
  rw [isLetter_of_upper upper] at plain
  cases plain

theorem toLower_toLower (c : Char) : c.toLower.toLower = c.toLower := by
  refine dif_neg fun upper => ?_
  unfold Char.toLower at upper
  split at upper
  · rename_i raised
    simp only [ge_iff_le, UInt32.le_iff_toNat_le] at upper raised
    simp at upper raised
    omega
  · rename_i other
    exact other upper

variable {mark : Char} {s t : Str}

theorem strip_strip (s : Str) : strip (strip s) = strip s := by
  have front : (strip s).dropWhile isSpace = strip s := by
    refine List.dropWhile_eq_self_iff.mpr fun some_ => ?_
    obtain ⟨rest, whole⟩ : strip s <+: s.dropWhile isSpace := List.rdropWhile_prefix _ _
    have longer : 0 < (s.dropWhile isSpace).length := by
      rw [← whole, List.length_append]
      omega
    have first : (strip s)[0] = (s.dropWhile isSpace)[0] := by
      simp only [← whole, List.getElem_append_left some_]
    rw [first]
    exact List.dropWhile_get_zero_not _ _ longer
  rw [strip, front, strip, List.rdropWhile_idempotent]

theorem strip_eq_self (free : ∀ c ∈ s, isSpace c = false) : strip s = s := by
  have front : s.dropWhile isSpace = s := List.dropWhile_eq_self_iff.mpr fun longer => by
    simpa using free _ (List.getElem_mem longer)
  rw [strip, front, List.rdropWhile_eq_self_iff]
  exact fun some_ => by simpa using free _ (List.getLast_mem some_)

theorem strip_line (free : ∀ c ∈ s, isSpace c = false) : strip (s ++ ['\n']) = s := by
  cases s with
  | nil => decide
  | cons c s =>
      have front : ((c :: s) ++ ['\n']).dropWhile isSpace = (c :: s) ++ ['\n'] := by
        rw [List.cons_append, List.dropWhile_cons_of_neg (by simp [free c List.mem_cons_self])]
      rw [strip, front, List.rdropWhile_concat_pos _ _ _ rfl, List.rdropWhile_eq_self_iff]
      exact fun some_ => by simpa using free _ (List.getLast_mem some_)

theorem words_cons {c : Char} (space : isSpace c = true) (s : Str) : words (c :: s) = words s := by
  simp [words, List.splitOnP_cons_eq_if_modifyHead, space]

theorem words_concat {c : Char} (space : isSpace c = true) (s : Str) :
    words (s ++ [c]) = words s := by
  simp [words, List.splitOnP_append_cons s [] space]

theorem words_strip (s : Str) : words (strip s) = words s := by
  have front : words (s.dropWhile isSpace) = words s := by
    induction s with
    | nil => rfl
    | cons c s ih =>
        by_cases space : isSpace c = true
        · rw [List.dropWhile_cons_of_pos space, ih, words_cons space]
        · rw [List.dropWhile_cons_of_neg space]
  have back (s : Str) : words (s.rdropWhile isSpace) = words s := by
    induction s using List.reverseRecOn with
    | nil => rfl
    | append_singleton s c ih =>
        by_cases space : isSpace c = true
        · rw [List.rdropWhile_concat_pos _ _ _ space, ih, words_concat space]
        · rw [List.rdropWhile_concat_neg _ _ _ space]
  rw [strip, back, front]

theorem words_append_cons {c : Char} (space : isSpace c = true) (s t : Str) :
    words (s ++ c :: t) = words s ++ words t := by
  simp [words, List.splitOnP_append_cons s t space]

theorem words_word (free : ∀ c ∈ s, isSpace c = false) (some_ : s ≠ []) : words s = [s] := by
  rw [words, List.splitOnP_eq_singleton fun c member => by simp [free c member]]
  simp [some_]

theorem words_line {fields : List Str} (plain : ∀ field ∈ fields, field ≠ [] ∧ ∀ c ∈ field, isSpace c = false) :
    words (fields.flatMap (' ' :: ·) ++ ['\n']) = fields := by
  induction fields with
  | nil => decide
  | cons field fields ih =>
      obtain ⟨⟨some_, free⟩, rest⟩ := List.forall_mem_cons.mp plain
      obtain ⟨c, tail, space, whole⟩ : ∃ c tail, isSpace c = true ∧
          fields.flatMap (' ' :: ·) ++ ['\n'] = c :: tail := by
        cases fields with
        | nil => exact ⟨'\n', [], rfl, rfl⟩
        | cons next fields => exact ⟨' ', _, rfl, rfl⟩
      have ends := ih rest
      rw [whole, words_cons space] at ends
      rw [List.flatMap_cons, List.append_assoc, whole, List.cons_append, words_cons rfl,
        words_append_cons space, words_word free some_, ends, List.singleton_append]

theorem afterLast_append (free : mark ∉ t) : afterLast mark (s ++ mark :: t) = t := by
  have differs : ∀ c ∈ t.reverse, (c != mark) = true := fun c member => by
    have other : c ≠ mark := ne_of_mem_of_not_mem (List.mem_reverse.mp member) free
    simpa using other
  rw [afterLast, List.rtakeWhile, List.reverse_append, List.reverse_cons, List.append_assoc,
    List.takeWhile_append_of_pos differs, List.singleton_append,
    List.takeWhile_cons_of_neg (by simp), List.append_nil, List.reverse_reverse]

theorem mem_splitCsv {value : Str} (member : s ∈ splitCsv value) : strip s = s ∧ s ≠ [] := by
  obtain ⟨listed, some_⟩ := List.mem_filter.mp member
  obtain ⟨item, _, rfl⟩ := List.mem_map.mp listed
  exact ⟨strip_strip item, by simpa using some_⟩

theorem not_mem_before : mark ∉ before mark s := fun member => by
  simpa using List.mem_takeWhile_imp member

theorem mem_after {c : Char} (member : c ∈ after mark s) : c ∈ s :=
  (List.dropWhile_sublist _).subset (List.mem_of_mem_tail member)

theorem after_append_of_not_mem (free : mark ∉ s) : after mark (s ++ mark :: t) = t := by
  have passed : ∀ c ∈ s, (c != mark) = true := fun c member =>
    bne_iff_ne.mpr fun same => free (same ▸ member)
  simp [after, List.dropWhile_append_of_pos passed]

theorem after_of_not_mem (free : mark ∉ s) : after mark s = [] := by
  have passed : ∀ c ∈ s, (c != mark) = true := fun c member =>
    bne_iff_ne.mpr fun same => free (same ▸ member)
  rw [after, List.dropWhile_eq_nil_iff.mpr passed, List.tail_nil]

theorem after_append (free : mark ∉ s) (t : Str) : after mark (s ++ t) = after mark t := by
  have passed : ∀ c ∈ s, (c != mark) = true := fun c member =>
    bne_iff_ne.mpr fun same => free (same ▸ member)
  rw [after, List.dropWhile_append_of_pos passed, after]

theorem after_append_of_mem (member : mark ∈ s) (t : Str) :
    after mark (s ++ t) = after mark s ++ t := by
  induction s with
  | nil => cases member
  | cons c s ih =>
      by_cases same : c = mark
      · simp [after, same]
      · have rest := ih ((List.mem_cons.mp member).resolve_left (Ne.symm same))
        simpa [after, List.dropWhile_cons, same] using rest

theorem before_append_after (member : mark ∈ s) : before mark s ++ mark :: after mark s = s := by
  induction s with
  | nil => cases member
  | cons c s ih =>
      by_cases same : c = mark
      · simp [before, after, same]
      · have rest := ih ((List.mem_cons.mp member).resolve_left (Ne.symm same))
        simpa [before, after, List.takeWhile_cons, List.dropWhile_cons, same] using rest

theorem rdropWhile_append_cons {α : Type} {p : α → Bool} {a : α} (kept : p a = false) (front rest : List α) :
    (front ++ a :: rest).rdropWhile p = front ++ a :: rest.rdropWhile p := by
  induction rest using List.reverseRecOn with
  | nil => rw [List.rdropWhile_concat_neg _ _ _ (by simp [kept]), List.rdropWhile_nil]
  | append_singleton rest last ih =>
      rw [← List.cons_append, ← List.append_assoc]
      by_cases dropped : p last = true
      · rw [List.rdropWhile_concat_pos _ _ _ dropped, List.rdropWhile_concat_pos _ _ _ dropped, ih]
      · rw [List.rdropWhile_concat_neg _ _ _ dropped, List.rdropWhile_concat_neg _ _ _ dropped]
        simp

theorem prefix_rstrip {c : Char} (other : c ≠ mark) (s t : Str) :
    s ++ [c] <+: rstrip mark (s ++ [c] ++ t) := by
  induction t using List.reverseRecOn with
  | nil =>
      have kept : rstrip mark (s ++ [c] ++ []) = s ++ [c] := by
        rw [List.append_nil, rstrip, List.rdropWhile_concat_neg _ _ _ (by simpa using other)]
      exact ⟨[], by rw [kept, List.append_nil]⟩
  | append_singleton t d ih =>
      rw [← List.append_assoc]
      by_cases same : d = mark
      · rw [rstrip, List.rdropWhile_concat_pos _ _ _ (by simpa using same)]
        exact ih
      · rw [rstrip, List.rdropWhile_concat_neg _ _ _ (by simpa using same)]
        exact (List.prefix_append _ _).trans (List.prefix_append _ _)

theorem rstrip_append (mark : Char) (s : Str) :
    ∃ marks, s = rstrip mark s ++ marks ∧ ∀ c ∈ marks, c = mark := by
  refine ⟨s.rtakeWhile (· == mark), ?_, fun c member => by simpa using List.mem_rtakeWhile_imp member⟩
  rw [rstrip, List.rdropWhile, List.rtakeWhile, ← List.reverse_append, List.takeWhile_append_dropWhile,
    List.reverse_reverse]

theorem rstrip_cons (mark : Char) (s : Str) :
    rstrip mark (mark :: s) = [] ∨ [mark] <+: rstrip mark (mark :: s) := by
  obtain ⟨marks, whole, _⟩ := rstrip_append mark (mark :: s)
  cases shape : rstrip mark (mark :: s) with
  | nil => exact Or.inl rfl
  | cons c kept =>
      rw [shape, List.cons_append, List.cons.injEq] at whole
      exact Or.inr ⟨kept, by rw [whole.1]; rfl⟩

theorem rstrip_ne_concat (s t : Str) : rstrip mark s ≠ t ++ [mark] := by
  intro same
  have some_ : rstrip mark s ≠ [] := by simp [same]
  have ends : (rstrip mark s).getLast some_ = mark := by simp [same]
  exact List.rdropWhile_last_not (· == mark) s some_ (beq_iff_eq.mpr ends)

theorem prefix_before (mark : Char) (s : Str) : before mark s <+: s := List.takeWhile_prefix _

theorem before_eq_self (free : mark ∉ s) : before mark s = s :=
  List.takeWhile_eq_self_iff.mpr fun _ member => bne_iff_ne.mpr fun same => free (same ▸ member)

theorem before_append_of_mem (member : mark ∈ s) : before mark (s ++ t) = before mark s := by
  induction s with
  | nil => cases member
  | cons c s ih =>
      by_cases same : c = mark
      · simp [before, same]
      · have rest := ih ((List.mem_cons.mp member).resolve_left (Ne.symm same))
        simpa [before, List.takeWhile_cons, same] using rest

theorem before_append_of_not_mem (free : mark ∉ s) :
    before mark (s ++ t) = s ++ before mark t := by
  induction s with
  | nil => rfl
  | cons c s ih =>
      rw [List.mem_cons, not_or] at free
      simpa [before, List.takeWhile_cons, Ne.symm free.1] using ih free.2

theorem split_at_first {α : Type} {mark : α} {first second rest rest' : List α} (free : mark ∉ first)
    (free' : mark ∉ second) (same : first ++ mark :: rest = second ++ mark :: rest') :
    first = second ∧ rest = rest' := by
  induction first generalizing second with
  | nil =>
      cases second with
      | nil => exact ⟨rfl, (List.cons.inj same).2⟩
      | cons item second => exact absurd (List.cons.inj same).1 (fun equal => free' (by simp [equal]))
  | cons item first ih =>
      rw [List.mem_cons, not_or] at free
      cases second with
      | nil => exact absurd (List.cons.inj same).1.symm free.1
      | cons item' second =>
          obtain ⟨rfl, tail⟩ := List.cons.inj same
          rw [List.mem_cons, not_or] at free'
          obtain ⟨rfl, equal⟩ := ih free.2 free'.2 tail
          exact ⟨rfl, equal⟩

/-- `s.replace(old, new, 1)` -/
def replaceFirst (old new : Str) : Str → Str
  | [] => if old = [] then new else []
  | c :: rest =>
      if old <+: c :: rest then new ++ (c :: rest).drop old.length
      else c :: replaceFirst old new rest

/-- `skip` is what is left of a match that has been replaced. -/
def replaceFrom (old new : Str) : Nat → Str → Str
  | _, [] => []
  | skip + 1, _ :: rest => replaceFrom old new skip rest
  | 0, c :: rest =>
      if old <+: c :: rest then new ++ replaceFrom old new (old.length - 1) rest
      else c :: replaceFrom old new 0 rest

/-- `s.replace(old, new)`, where `old` is not empty. -/
def replace (old new s : Str) : Str := replaceFrom old new 0 s

section Replace

variable {old new front back : Str}

theorem replaceFirst_cases (some_ : old ≠ []) (new s : Str) :
    (¬ old <:+: s ∧ replaceFirst old new s = s) ∨
      ∃ front back, s = front ++ old ++ back ∧ replaceFirst old new s = front ++ new ++ back := by
  induction s with
  | nil => exact Or.inl ⟨by simpa using some_, if_neg some_⟩
  | cons c rest ih =>
      by_cases here : old <+: c :: rest
      · obtain ⟨back, whole⟩ := here
        refine Or.inr ⟨[], back, by simpa using whole.symm, ?_⟩
        rw [replaceFirst, if_pos ⟨back, whole⟩, ← whole, List.drop_left, List.nil_append]
      · rw [replaceFirst, if_neg here]
        rcases ih with ⟨free, same⟩ | ⟨front, back, whole, done⟩
        · refine Or.inl ⟨fun inside => ?_, by rw [same]⟩
          exact (List.infix_cons_iff.mp inside).elim here free
        · exact Or.inr ⟨c :: front, back, by rw [whole]; rfl, by rw [done]; rfl⟩

theorem replaceFrom_skip (old new s back : Str) :
    replaceFrom old new s.length (s ++ back) = replaceFrom old new 0 back := by
  induction s with
  | nil => rfl
  | cons c s ih => exact ih

theorem replace_eq_self (free : ¬ old <:+: s) : replace old new s = s := by
  induction s with
  | nil => rfl
  | cons c rest ih =>
      rw [List.infix_cons_iff, not_or] at free
      rw [replace, replaceFrom, if_neg free.1]
      exact congrArg (c :: ·) (ih free.2)

theorem replace_append (free : mark ∉ front) (new back : Str) :
    replace (mark :: old) new (front ++ back) = front ++ replace (mark :: old) new back := by
  induction front with
  | nil => rfl
  | cons c front ih =>
      rw [List.mem_cons, not_or] at free
      have apart : ¬ mark :: old <+: c :: (front ++ back) := fun starts =>
        free.1 (List.cons_prefix_cons.mp starts).1
      rw [List.cons_append, replace, replaceFrom, if_neg apart]
      exact congrArg (c :: ·) (ih free.2)

theorem replace_match (mark : Char) (old new back : Str) :
    replace (mark :: old) new (mark :: old ++ back) = new ++ replace (mark :: old) new back := by
  have starts : mark :: old <+: mark :: (old ++ back) := List.prefix_append (mark :: old) back
  rw [replace, List.cons_append, replaceFrom, if_pos starts]
  exact congrArg (new ++ ·) (replaceFrom_skip (mark :: old) new old back)

theorem not_infix_of_not_mem (free : mark ∉ s) : ¬ mark :: old <:+: s := fun inside =>
  free (inside.subset List.mem_cons_self)

theorem replace_one (left : mark ∉ front) (right : mark ∉ back) (new : Str) :
    replace (mark :: old) new (front ++ mark :: old ++ back) = front ++ new ++ back := by
  rw [List.append_assoc, replace_append left, replace_match,
    replace_eq_self (not_infix_of_not_mem right), List.append_assoc]

end Replace

end Text
