import TplBackend.Library.Percent

/-! Queries as lists of decoded pairs: what `urlencode` writes, `parse_qsl` reads. -/

namespace Percent

open Text

def unquotePlus (text : Str) : Str := unquote (text.map fun c => if c = '+' then ' ' else c)

/-- The pair of a piece between two `&`. -/
def parsePiece (piece : Str) : Str × Str := (unquotePlus (before '=' piece), unquotePlus (after '=' piece))

/-- `urllib.parse.parse_qsl` with `keep_blank_values`. -/
def parseQsl (query : Str) : List (Str × Str) := ((query.splitOn '&').filter (· ≠ [])).map parsePiece

def utf8 (text : Str) : List Nat := text.flatMap fun c => (String.utf8EncodeChar c).map UInt8.toNat

section Decoding

variable {begun : Begun} {byte : Nat} {rest : List Nat}

theorem decode_continue (inside : begun.low ≤ byte ∧ byte ≤ begun.high) (more : begun.missing ≠ 1) :
    decode (some begun) (byte :: rest) =
      decode (some ⟨begun.code * 64 + (byte - 0x80), begun.missing - 1, 0x80, 0xbf⟩) rest := by
  rw [decode, if_pos inside]
  exact if_neg more

theorem decode_last (inside : begun.low ≤ byte ∧ byte ≤ begun.high) (last : begun.missing = 1) :
    decode (some begun) (byte :: rest) = Char.ofNat (begun.code * 64 + (byte - 0x80)) :: decode none rest := by
  rw [decode, if_pos inside]
  exact if_pos last

theorem decode_begin {text : Str} (first : begin_ byte = (text, some begun)) :
    decode none (byte :: rest) = text ++ decode (some begun) rest := by
  rw [decode, first]

theorem begin_two (least : 0xc2 ≤ byte) (most : byte ≤ 0xdf) :
    begin_ byte = ([], some ⟨byte - 0xc0, 1, 0x80, 0xbf⟩) := by
  have high : ¬ byte < 0x80 := by omega
  rw [begin_, if_neg high, if_pos ⟨least, most⟩]

theorem begin_three (least : 0xe0 ≤ byte) (most : byte ≤ 0xef) : begin_ byte =
    ([], some ⟨byte - 0xe0, 2, if byte = 0xe0 then 0xa0 else 0x80, if byte = 0xed then 0x9f else 0xbf⟩) := by
  have high : ¬ byte < 0x80 := by omega
  have longer : ¬ (0xc2 ≤ byte ∧ byte ≤ 0xdf) := by omega
  rw [begin_, if_neg high, if_neg longer, if_pos ⟨least, most⟩]

theorem begin_four (least : 0xf0 ≤ byte) (most : byte ≤ 0xf4) : begin_ byte =
    ([], some ⟨byte - 0xf0, 3, if byte = 0xf0 then 0x90 else 0x80, if byte = 0xf4 then 0x8f else 0xbf⟩) := by
  have high : ¬ byte < 0x80 := by omega
  have longer : ¬ (0xc2 ≤ byte ∧ byte ≤ 0xdf) := by omega
  have longest : ¬ (0xe0 ≤ byte ∧ byte ≤ 0xef) := by omega
  rw [begin_, if_neg high, if_neg longer, if_neg longest, if_pos ⟨least, most⟩]

theorem toNat_ofNat_byte (small : byte < 256) : (UInt8.ofNat byte).toNat = byte := by
  rw [UInt8.toNat_ofNat']
  exact Nat.mod_eq_of_lt small

theorem decode_char (c : Char) (rest : List Nat) :
    decode none ((String.utf8EncodeChar c).map UInt8.toNat ++ rest) = c :: decode none rest := by
  have same : c.val.toNat = c.toNat := rfl
  have valid : c.toNat < 0xd800 ∨ 0xdfff < c.toNat ∧ c.toNat < 0x110000 := c.valid
  rw [String.utf8EncodeChar.eq_def, same]
  conv_rhs => rw [← Char.ofNat_toNat c]
  generalize c.toNat = code at valid
  by_cases one : code ≤ 0x7f
  · have small : code < 0x80 := by omega
    simp only [if_pos one, List.map_cons, List.map_nil, List.cons_append, List.nil_append]
    rw [toNat_ofNat_byte (by omega), decode, begin_, if_pos small]
    rfl
  by_cases two : code ≤ 0x7ff
  · simp only [if_neg one, if_pos two, List.map_cons, List.map_nil, List.cons_append, List.nil_append]
    rw [toNat_ofNat_byte (by omega), toNat_ofNat_byte (by omega),
      decode_begin (begin_two (by omega) (by omega)), decode_last ⟨?_, ?_⟩ rfl, List.nil_append]
    · refine congrArg (fun code => Char.ofNat code :: decode none rest) ?_
      dsimp only
      omega
    all_goals dsimp only; omega
  by_cases three : code ≤ 0xffff
  · simp only [if_neg one, if_neg two, if_pos three, List.map_cons, List.map_nil, List.cons_append,
      List.nil_append]
    rw [toNat_ofNat_byte (by omega), toNat_ofNat_byte (by omega), toNat_ofNat_byte (by omega),
      decode_begin (begin_three (by omega) (by omega)),
      decode_continue ⟨?_, ?_⟩ (show 2 ≠ 1 by decide),
      decode_last ⟨?_, ?_⟩ rfl, List.nil_append]
    · refine congrArg (fun code => Char.ofNat code :: decode none rest) ?_
      dsimp only
      omega
    all_goals dsimp only; (try split) <;> omega
  · simp only [if_neg one, if_neg two, if_neg three, List.map_cons, List.map_nil, List.cons_append,
      List.nil_append]
    rw [toNat_ofNat_byte (by omega), toNat_ofNat_byte (by omega), toNat_ofNat_byte (by omega),
      toNat_ofNat_byte (by omega), decode_begin (begin_four (by omega) (by omega)),
      decode_continue ⟨?_, ?_⟩ (show 3 ≠ 1 by decide), decode_continue ⟨?_, ?_⟩ (show 2 ≠ 1 by decide),
      decode_last ⟨?_, ?_⟩ rfl, List.nil_append]
    · refine congrArg (fun code => Char.ofNat code :: decode none rest) ?_
      dsimp only
      omega
    all_goals dsimp only; (try split) <;> omega

theorem decode_utf8 (text : Str) : decode none (utf8 text) = text := by
  induction text with
  | nil => rfl
  | cons c text ih => rw [utf8, List.flatMap_cons, decode_char, ← utf8, ih]

end Decoding

section Quoting

variable {safe : Char → Bool} {text : Str} {c : Char}

theorem unquoteFrom_escapeByte (byte : UInt8) (rest : Str) :
    unquoteFrom 0 (escapeByte byte ++ rest) = byte.toNat :: unquoteFrom 0 rest := by
  have bound := byte.toNat_lt
  have pair : hexPair (hexDigit (byte.toNat / 16) :: hexDigit (byte.toNat % 16) :: rest) =
      some byte.toNat := by
    rw [hexPair, hexValue_hexDigit (by omega), hexValue_hexDigit (by omega)]
    exact congrArg some (by omega)
  simp only [escapeByte, List.cons_append, List.nil_append]
  rw [unquoteFrom, if_pos rfl, pair]
  rfl

theorem unquoteFrom_escapeBytes (bytes : List UInt8) (rest : Str) :
    unquoteFrom 0 (bytes.flatMap escapeByte ++ rest) = bytes.map UInt8.toNat ++ unquoteFrom 0 rest := by
  induction bytes with
  | nil => rfl
  | cons byte bytes ih =>
      rw [List.flatMap_cons, List.append_assoc, unquoteFrom_escapeByte, ih]
      rfl

theorem unquoteFrom_plain (plain : c ≠ '%') (rest : Str) :
    unquoteFrom 0 (c :: rest) = c.toNat :: unquoteFrom 0 rest := by
  rw [unquoteFrom, if_neg plain]

theorem utf8EncodeChar_ascii (ascii : isAscii c = true) :
    (String.utf8EncodeChar c).map UInt8.toNat = [c.toNat] := by
  have small : c.toNat < 128 := by simpa [isAscii] using ascii
  have one : c.val.toNat ≤ 0x7f := Nat.le_of_lt_succ small
  have byte : c.val.toNat < 256 := by omega
  rw [String.utf8EncodeChar.eq_def]
  simp only [if_pos one, List.map_cons, List.map_nil]
  rw [toNat_ofNat_byte byte]
  rfl

theorem unquoteFrom_quote (kept : ∀ c, safe c = true → isAscii c = true ∧ c ≠ '%') (text : Str) :
    unquoteFrom 0 (quote safe text) = utf8 text := by
  induction text with
  | nil => rfl
  | cons c text ih =>
      rw [quote, List.flatMap_cons, ← quote, utf8, List.flatMap_cons, ← utf8, ← ih]
      split
      · rename_i literal
        have plain : isAscii c = true ∧ c ≠ '%' := by
          rcases Bool.or_eq_true_iff.mp literal with unreserved | held
          · refine ⟨isAscii_of_isUnreserved unreserved, ?_⟩
            rintro rfl
            exact absurd unreserved (by decide)
          · exact kept c held
        rw [List.singleton_append, unquoteFrom_plain plain.2, utf8EncodeChar_ascii plain.1]
        rfl
      · exact unquoteFrom_escapeBytes _ _

theorem mem_quote (member : c ∈ quote safe text) : isUnreserved c = true ∨ safe c = true ∨ c = '%' := by
  have digit : ∀ i : Fin 16, isUnreserved (hexDigit i) = true := by decide
  obtain ⟨d, _, inside⟩ := List.mem_flatMap.mp member
  split at inside
  · rename_i plain
    rw [List.mem_singleton.mp inside]
    exact (Bool.or_eq_true_iff.mp plain).imp_right .inl
  · obtain ⟨byte, _, inside⟩ := List.mem_flatMap.mp inside
    have bound := byte.toNat_lt
    simp only [escapeByte, List.mem_cons, List.not_mem_nil, or_false] at inside
    rcases inside with rfl | rfl | rfl
    · exact .inr (.inr rfl)
    · exact .inl (digit ⟨_, by omega⟩)
    · exact .inl (digit ⟨_, Nat.mod_lt _ (by decide)⟩)

theorem unquote_quoted (kept : ∀ c, safe c = true → isAscii c = true ∧ c ≠ '%') (text : Str) :
    unquote (quote safe text) = text := by
  have ascii : ∀ c ∈ quote safe text, isAscii c = true := fun c member => by
    rcases mem_quote member with plain | held | rfl
    · exact isAscii_of_isUnreserved plain
    · exact (kept c held).1
    · rfl
  rw [unquote_ascii ascii, unquoteToBytes, unquoteFrom_quote kept, decode_utf8]

def isForm (c : Char) : Bool := isUnreserved c || c == '%' || c == '+'

theorem mem_quotePlus (member : c ∈ quotePlus text) : isForm c = true := by
  obtain ⟨d, inside, rfl⟩ := List.mem_map.mp member
  rcases mem_quote inside with plain | space | rfl
  · have other : (d == ' ') = false := by
      refine beq_eq_false_iff_ne.mpr ?_
      rintro rfl
      exact absurd plain (by decide)
    simp [isForm, other, plain]
  · rw [if_pos space]
    rfl
  · rfl

theorem unquotePlus_quotePlus (text : Str) : unquotePlus (quotePlus text) = text := by
  have back : (quotePlus text).map (fun c => if c = '+' then ' ' else c) = quote (· == ' ') text := by
    rw [quotePlus, List.map_map]
    refine (List.map_congr_left fun c member => ?_).trans (List.map_id _)
    by_cases space : c = ' '
    · rw [space]
      rfl
    · have plus : c ≠ '+' := by
        rintro rfl
        exact absurd (mem_quote member) (by decide)
      simp [space, plus]
  rw [unquotePlus, back, unquote_quoted]
  intro c space
  rw [eq_of_beq space]
  decide

def joined (field : Str × Str) : Str := quotePlus field.1 ++ '=' :: quotePlus field.2

theorem mem_joined {field : Str × Str} (member : c ∈ joined field) : isForm c = true ∨ c = '=' := by
  rcases List.mem_append.mp member with name | value
  · exact .inl (mem_quotePlus name)
  · exact (List.mem_cons.mp value).symm.imp_left mem_quotePlus

theorem parsePiece_joined (field : Str × Str) : parsePiece (joined field) = field := by
  have free : '=' ∉ quotePlus field.1 := fun member => absurd (mem_quotePlus member) (by decide)
  have name : before '=' (joined field) = quotePlus field.1 := by
    rw [joined, before_append_of_not_mem free]
    simp [before]
  rw [parsePiece, name, joined, after_append_of_not_mem free, unquotePlus_quotePlus, unquotePlus_quotePlus]

theorem mem_intercalate {mark : Char} {pieces : List Str} (member : c ∈ [mark].intercalate pieces) :
    c = mark ∨ ∃ piece ∈ pieces, c ∈ piece := by
  induction pieces with
  | nil => cases member
  | cons piece pieces ih =>
      cases pieces with
      | nil => exact .inr ⟨piece, List.mem_cons_self, by simpa using member⟩
      | cons next pieces =>
          rw [List.intercalate_cons_cons] at member
          rcases List.mem_append.mp member with front | later
          · rcases List.mem_append.mp front with own | sep
            · exact .inr ⟨piece, List.mem_cons_self, own⟩
            · exact .inl (List.mem_singleton.mp sep)
          · exact (ih later).imp_right fun ⟨other, listed, inside⟩ =>
              ⟨other, List.mem_cons_of_mem _ listed, inside⟩

theorem mem_urlencode {fields : List (Str × Str)} (member : c ∈ urlencode fields) :
    isForm c = true ∨ c = '=' ∨ c = '&' := by
  rcases mem_intercalate member with rfl | ⟨piece, listed, inside⟩
  · exact .inr (.inr rfl)
  · obtain ⟨field, _, rfl⟩ := List.mem_map.mp listed
    exact (mem_joined inside).imp_right .inl

theorem parseQsl_urlencode (fields : List (Str × Str)) : parseQsl (urlencode fields) = fields := by
  by_cases none_ : fields = []
  · rw [none_]
    rfl
  have pieces : (urlencode fields).splitOn '&' = fields.map joined := by
    refine List.splitOn_intercalate '&' (fun piece listed member => ?_) (by simpa using none_)
    obtain ⟨field, _, rfl⟩ := List.mem_map.mp listed
    exact absurd (mem_joined member) (by decide)
  have kept : (fields.map joined).filter (· ≠ []) = fields.map joined := by
    refine List.filter_eq_self.mpr fun piece listed => ?_
    obtain ⟨field, _, rfl⟩ := List.mem_map.mp listed
    simp [joined]
  rw [parseQsl, pieces, kept, List.map_map]
  exact (List.map_congr_left fun field _ => parsePiece_joined field).trans (List.map_id _)

end Quoting

section Parting

variable {text front back : Str} {c : Char}

theorem begin_low {byte : Nat} : ∀ begun ∈ (begin_ byte).2, 0x80 ≤ begun.low := by
  intro begun member
  unfold begin_ at member
  split_ifs at member <;> simp only [Option.mem_def, Option.some.injEq, reduceCtorEq] at member <;>
    rw [← member] <;> dsimp only <;> omega

theorem decode_append (byte : Nat) (small : byte < 0x80) (bytes rest : List Nat) :
    ∀ begun : Option Begun, (∀ inner ∈ begun, 0x80 ≤ inner.low) →
      decode begun (bytes ++ byte :: rest) = decode begun bytes ++ Char.ofNat byte :: decode none rest := by
  have alone : begin_ byte = ([Char.ofNat byte], none) := if_pos small
  induction bytes with
  | nil =>
      intro begun low
      cases begun with
      | none =>
          change (begin_ byte).1 ++ decode (begin_ byte).2 rest = _
          rw [alone]
          rfl
      | some begun =>
          have outside : ¬ (begun.low ≤ byte ∧ byte ≤ begun.high) := by
            have := low begun rfl
            omega
          refine (if_neg outside).trans ?_
          rw [alone]
          rfl
  | cons first bytes ih =>
      intro begun low
      cases begun with
      | none =>
          rw [List.cons_append, decode, decode, ih _ begin_low, List.append_assoc]
      | some begun =>
          rw [List.cons_append, decode, decode]
          split
          · split
            · rw [ih none fun inner member => absurd member (Option.not_mem_none inner), List.cons_append]
            · refine ih _ fun inner same => ?_
              rw [← Option.some.inj same]
          · rw [ih _ begin_low, List.cons_append, List.append_assoc]

theorem unquoteFrom_append (plain : c ≠ '%') (digit : hexValue c = none) (front back : Str) :
    unquoteFrom 0 (front ++ c :: back) = unquoteFrom 0 front ++ c.toNat :: unquoteFrom 0 back := by
  induction length : front.length using Nat.strong_induction_on generalizing front with
  | _ size ih =>
      cases front with
      | nil => exact unquoteFrom_plain plain back
      | cons d rest =>
          have step (other : (if d = '%' then hexPair (rest ++ c :: back) else none) = none)
              (same : (if d = '%' then hexPair rest else none) = none) :
              unquoteFrom 0 (d :: rest ++ c :: back) = unquoteFrom 0 (d :: rest) ++ c.toNat :: unquoteFrom 0 back := by
            rw [List.cons_append, unquoteFrom, unquoteFrom, other, same]
            have shorter : rest.length < size := by
              rw [← length]
              exact Nat.lt_succ_self _
            exact congrArg (d.toNat :: ·) (ih rest.length shorter rest rfl)
          by_cases mark : d = '%'
          · cases rest with
            | nil => exact step (by cases back <;> simp [hexPair, digit]) (by simp [hexPair])
            | cons a rest =>
                cases rest with
                | nil => exact step (by simp [hexPair, digit]) (by simp [hexPair])
                | cons b rest =>
                    by_cases pair : hexPair (a :: b :: rest) = none
                    · exact step ((if_pos mark).trans pair) ((if_pos mark).trans pair)
                    · obtain ⟨byte, read⟩ := Option.ne_none_iff_exists'.mp pair
                      have longer : hexPair (a :: b :: rest ++ c :: back) = some byte := read
                      have shorter : rest.length < size := by
                        rw [← length]
                        simp only [List.length_cons]
                        omega
                      rw [List.cons_append, unquoteFrom, unquoteFrom, if_pos mark, if_pos mark, read, longer]
                      exact congrArg (byte :: ·) (ih rest.length shorter rest rfl)
          · exact step (if_neg mark) (if_neg mark)

def runs (text : Str) : Str :=
  (text.splitBy fun c d => isAscii c == isAscii d).flatMap fun run =>
    if run.all isAscii then decode none (unquoteToBytes run) else run

theorem unquote_eq_runs (text : Str) : unquote text = runs text := by
  unfold unquote runs
  split
  · rename_i free
    have own : ∀ run ∈ text.splitBy fun c d => isAscii c == isAscii d,
        (if run.all isAscii then decode none (unquoteToBytes run) else run) = run := by
      intro run member
      have inside : '%' ∉ run := fun mark => free (by
        rw [← List.flatten_splitBy (fun c d => isAscii c == isAscii d) text]
        exact List.mem_flatten.mpr ⟨run, member, mark⟩)
      split
      · rename_i ascii
        rw [← unquote_ascii (List.all_eq_true.mp ascii)]
        exact if_pos inside
      · rfl
    rw [List.flatMap, List.map_congr_left own, List.map_id']
    exact (List.flatten_splitBy _ text).symm
  · rfl

theorem runs_append (apart : ∀ x ∈ front.getLast?, ∀ y ∈ back.head?, (isAscii x == isAscii y) = false) :
    runs (front ++ back) = runs front ++ runs back := by
  rw [runs, List.splitBy_append apart, List.flatMap_append]
  rfl

theorem runs_ascii (ascii : ∀ c ∈ text, isAscii c = true) : runs text = decode none (unquoteToBytes text) := by
  rw [← unquote_eq_runs, unquote_ascii ascii]

theorem unquote_append (ascii : isAscii c = true) (plain : c ≠ '%') (digit : hexValue c = none)
    (front back : Str) : unquote (front ++ c :: back) = unquote front ++ c :: unquote back := by
  have small : c.toNat < 0x80 := by simpa [isAscii] using ascii
  -- The run of the character reaches from the last other character before it to the first one behind it.
  have parted : front.rdropWhile isAscii ++ front.rtakeWhile isAscii = front :=
    List.rdropWhile_append_rtakeWhile
  have ends : ∀ x ∈ (front.rdropWhile isAscii).getLast?, isAscii x = false := fun x member => by
    obtain ⟨some_, same⟩ := List.mem_getLast?_eq_getLast member
    rw [same]
    exact eq_false_of_ne_true (List.rdropWhile_last_not isAscii front some_)
  have parted' : back.takeWhile isAscii ++ back.dropWhile isAscii = back := List.takeWhile_append_dropWhile
  have begins : ∀ y ∈ (back.dropWhile isAscii).head?, isAscii y = false := fun y member => by
    have stopped := List.head?_dropWhile_not isAscii back
    rw [Option.mem_def.mp member] at stopped
    simpa using stopped
  have own : ∀ d ∈ front.rtakeWhile isAscii, isAscii d = true := fun d => List.mem_rtakeWhile_imp
  have own' : ∀ d ∈ back.takeWhile isAscii, isAscii d = true := fun d => List.mem_takeWhile_imp
  generalize front.rdropWhile isAscii = first at parted ends
  generalize front.rtakeWhile isAscii = tail at parted own
  generalize back.takeWhile isAscii = head at parted' own'
  generalize back.dropWhile isAscii = last at parted' begins
  subst parted parted'
  have run : ∀ d ∈ tail ++ c :: head, isAscii d = true := by
    intro d member
    rcases List.mem_append.mp member with early | later
    · exact own d early
    · rcases List.mem_cons.mp later with rfl | late
      · exact ascii
      · exact own' d late
  have before_ {rest : Str} (start : ∀ y ∈ rest.head?, isAscii y = true) :
      runs (first ++ rest) = runs first ++ runs rest :=
    runs_append fun x member y member' => by rw [ends x member, start y member']; rfl
  have behind {rest : Str} (inside : ∀ d ∈ rest, isAscii d = true) :
      runs (rest ++ last) = runs rest ++ runs last :=
    runs_append fun x member y member' => by
      rw [inside x (List.mem_of_getLast? member), begins y member']
      rfl
  have whole : first ++ tail ++ c :: (head ++ last) = first ++ ((tail ++ c :: head) ++ last) := by simp
  have start : ∀ y ∈ ((tail ++ c :: head) ++ last).head?, isAscii y = true := fun y member => by
    rw [List.head?_append_of_ne_nil _ (by simp)] at member
    exact run y (List.mem_of_mem_head? member)
  rw [unquote_eq_runs, unquote_eq_runs, unquote_eq_runs, whole, before_ start, behind run,
    before_ fun y member => own y (List.mem_of_mem_head? member), behind own', runs_ascii run, runs_ascii own,
    runs_ascii own', unquoteToBytes, unquoteFrom_append plain digit,
    decode_append c.toNat small _ _ none fun inner member => absurd member (Option.not_mem_none inner),
    Char.ofNat_toNat]
  simp [unquoteToBytes]

theorem unquotePlus_append (ascii : isAscii c = true) (plain : c ≠ '%' ∧ c ≠ '+') (digit : hexValue c = none)
    (front back : Str) : unquotePlus (front ++ c :: back) = unquotePlus front ++ c :: unquotePlus back := by
  rw [unquotePlus, List.map_append, List.map_cons, if_neg plain.2, unquote_append ascii plain.1 digit]
  rfl

end Parting

end Percent
