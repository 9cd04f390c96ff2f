import TplBackend.Library.Url

namespace Url

open Text

def separators : List Char := ['/', '?', '#', '@', ':']

/-- What lower case and NFKC do to ASCII, and to the characters whose NFKC form has a separator. -/
structure Platform.Unicode (U : Platform) : Prop where
  lower_lower : ∀ s, U.lower (U.lower s) = U.lower s
  lower_ascii : ∀ s c, isAscii c = true → isLetter c = false → (c ∈ U.lower s ↔ c ∈ s)
  lower_separator : ∀ s, ∀ d ∈ U.lower s, ∀ c ∈ separators, c ∈ U.nfkc [d] → d ∈ s
  nfkc_ascii : ∀ s, s.all isAscii = true → U.nfkc s = s
  nfkc_separator : ∀ s, ∀ c ∈ separators, (c ∈ U.nfkc s ↔ ∃ d ∈ s, c ∈ U.nfkc [d])

variable {U : Platform} {scheme netloc : Str} {parts again : SplitResult} {c : Char}

section Checks

theorem checknetloc_iff (unicode : U.Unicode) (inside : ∀ c ∈ netloc, isDelim c = false) :
    checknetloc U netloc = true ↔
      ∀ d ∈ netloc, d ∉ separators → ∀ c ∈ separators, c ∉ U.nfkc [d] := by
  let n := netloc.filter fun c => c ∉ ['@', ':', '#', '?']
  have kept {d : Char} : d ∈ n ↔ d ∈ netloc ∧ d ∉ separators := by
    simp only [n, separators, List.mem_filter, List.mem_cons, List.not_mem_nil, or_false,
      decide_eq_true_eq]
    refine and_congr_right fun member => ?_
    have slash := (isDelim_eq_false.mp (inside d member)).1
    tauto
  have gains : checknetloc U netloc = true ↔ ∀ c ∈ separators, c ∉ U.nfkc n := by
    simp only [checknetloc, Bool.or_eq_true, beq_iff_eq]
    constructor
    · rintro (ascii | same | free) c separator member
      · have own : n.all isAscii = true := List.all_eq_true.mpr fun d inner =>
          List.all_eq_true.mp ascii d (kept.mp inner).1
        rw [unicode.nfkc_ascii n own] at member
        exact (kept.mp member).2 separator
      · rw [← show n = U.nfkc n from same] at member
        exact (kept.mp member).2 separator
      · exact absurd separator (of_decide_eq_true (List.all_eq_true.mp free c member))
    · refine fun free => Or.inr (Or.inr (List.all_eq_true.mpr fun c member => ?_))
      exact decide_eq_true fun separator => free c separator member
  rw [gains]
  constructor
  · exact fun free d member other c separator gained =>
      free c separator ((unicode.nfkc_separator n c separator).mpr ⟨d, kept.mpr ⟨member, other⟩, gained⟩)
  · intro free c separator gained
    obtain ⟨d, member, own⟩ := (unicode.nfkc_separator n c separator).mp gained
    exact free d (kept.mp member).1 (kept.mp member).2 c separator own

theorem checkBrackets_of_free (opening : '[' ∉ netloc) (closing : ']' ∉ netloc) :
    checkBrackets U netloc = true := by
  simp [checkBrackets, opening, closing]

theorem urlsplit_origin (web : scheme ∈ webSchemes)
    (inside : ∀ c ∈ netloc, isDelim c = false ∧ isUnsafe c = false) :
    urlsplit U (scheme ++ ':' :: '/' :: '/' :: netloc) =
      if checkBrackets U netloc && checknetloc U netloc then some ⟨scheme, netloc, [], [], []⟩
      else none := by
  obtain ⟨valid, lower, safe, printable⟩ := webSchemes_spec web
  have cleaned : clean (scheme ++ ':' :: '/' :: '/' :: netloc) =
      scheme ++ ':' :: '/' :: '/' :: netloc := by
    obtain ⟨c, rest, shape⟩ := List.exists_cons_of_ne_nil valid.free.1
    rw [shape, List.cons_append]
    refine clean_eq_self (printable c (by simp [shape])) fun d member => ?_
    rw [← List.cons_append, ← shape] at member
    simp only [List.mem_append, List.mem_cons] at member
    rcases member with mine | rfl | rfl | rfl | mine
    · exact safe d mine
    · rfl
    · rfl
    · rfl
    · exact (inside d mine).2
  have none_ : ∀ c ∈ ([] : Str).head?, isDelim c = true := fun c member => by cases member
  have whole := generic_absolute valid (fun c member => (inside c member).1) none_
  rw [List.append_nil, lower] at whole
  have split : urlsplit U (scheme ++ ':' :: '/' :: '/' :: netloc) =
      if checkBrackets U (generic (clean (scheme ++ ':' :: '/' :: '/' :: netloc))).netloc &&
        checknetloc U (generic (clean (scheme ++ ':' :: '/' :: '/' :: netloc))).netloc then
      some (generic (clean (scheme ++ ':' :: '/' :: '/' :: netloc))) else none := rfl
  rw [split, cleaned, whole]
  rfl

end Checks

section Host

theorem hostname_eq (parts : SplitResult) (some_ : parts.rawHost ≠ []) : parts.hostname U =
    U.lower (before '%' parts.rawHost) ++ parts.rawHost.dropWhile (· != '%') := if_neg some_

theorem mem_hostname (unicode : U.Unicode) (ascii : isAscii c = true) (plain : isLetter c = false) :
    c ∈ parts.hostname U ↔ c ∈ parts.rawHost := by
  by_cases empty : parts.rawHost = []
  · rw [SplitResult.hostname, if_pos empty, empty]
  · rw [hostname_eq parts empty, List.mem_append, unicode.lower_ascii _ c ascii plain,
      ← List.mem_append, before, List.takeWhile_append_dropWhile]

theorem hostname_of_rawHost (unicode : U.Unicode) (raw : again.rawHost = parts.hostname U) :
    again.hostname U = parts.hostname U := by
  by_cases named : parts.hostname U = []
  · rw [SplitResult.hostname, if_pos (raw.trans named), named]
  have some_ : parts.rawHost ≠ [] := fun none_ => named (if_pos none_)
  have zoned : '%' ∉ U.lower (before '%' parts.rawHost) := fun member =>
    not_mem_before ((unicode.lower_ascii _ '%' (by decide) (by decide)).mp member)
  have passed : ∀ c ∈ U.lower (before '%' parts.rawHost), (c != '%') = true := fun c member =>
    bne_iff_ne.mpr fun same => zoned (same ▸ member)
  have zone : before '%' (parts.rawHost.dropWhile (· != '%')) = [] ∧
      (parts.rawHost.dropWhile (· != '%')).dropWhile (· != '%') =
        parts.rawHost.dropWhile (· != '%') := by
    refine ⟨?_, List.dropWhile_idempotent _ _⟩
    rw [before, List.takeWhile_eq_nil_iff]
    exact fun longer => by simpa using List.dropWhile_get_zero_not _ _ longer
  rw [hostname_eq again (raw ▸ named), raw, hostname_eq parts some_, before_append_of_not_mem zoned,
    zone.1, List.append_nil, unicode.lower_lower, List.dropWhile_append_of_pos passed, zone.2]

theorem hostinfo_of_free (free : '@' ∉ parts.netloc) : parts.hostinfo = parts.netloc := by
  refine List.rtakeWhile_eq_self_iff.mpr fun c member => ?_
  exact bne_iff_ne.mpr fun same => free (same ▸ member)

theorem not_mem_hostinfo (parts : SplitResult) : '@' ∉ parts.hostinfo := fun member => by
  simpa using List.mem_rtakeWhile_imp member

theorem mem_hostinfo (member : c ∈ parts.rawHost) : c ∈ parts.hostinfo := by
  unfold SplitResult.rawHost at member
  split at member
  · exact mem_after ((prefix_before _ _).subset member)
  · exact (prefix_before _ _).subset member

theorem netloc_eq (member : '@' ∈ parts.netloc) :
    parts.netloc = parts.userinfo ++ '@' :: parts.hostinfo := by
  have some_ : parts.netloc.rdropWhile (· != '@') ≠ [] := fun none_ => by
    have passed := List.rdropWhile_eq_nil_iff.mp none_ '@' member
    simp at passed
  have last : (parts.netloc.rdropWhile (· != '@')).getLast some_ = '@' := by
    simpa using List.rdropWhile_last_not (· != '@') parts.netloc some_
  have parted := List.dropLast_append_getLast some_
  rw [last] at parted
  have whole : parts.netloc.rdropWhile (· != '@') ++ parts.hostinfo = parts.netloc := by
    rw [SplitResult.hostinfo, afterLast, List.rdropWhile, List.rtakeWhile, ← List.reverse_append,
      List.takeWhile_append_dropWhile, List.reverse_reverse]
  rw [← whole, ← parted]
  simp [SplitResult.userinfo, beforeLast, SplitResult.hostinfo]

theorem rawHost_closing (checked : checkBrackets U parts.netloc = true)
    (user : parts.username = []) (word : parts.password = []) : ']' ∉ parts.rawHost := by
  intro member
  unfold SplitResult.rawHost at member
  split at member
  · exact not_mem_before member
  rename_i opening
  have closing : ']' ∈ parts.netloc :=
    (List.rtakeWhile_suffix _ _).subset ((prefix_before _ _).subset member)
  simp only [checkBrackets, Bool.and_eq_true, beq_iff_eq] at checked
  have opened : '[' ∈ parts.netloc := by simpa [closing] using checked.1
  by_cases credentials : '@' ∈ parts.netloc
  · rw [netloc_eq credentials] at opened
    simp only [SplitResult.username, SplitResult.password, if_pos credentials] at user word
    have inside : '[' ∉ parts.userinfo := by
      by_cases colon : ':' ∈ parts.userinfo
      · have whole := before_append_after colon
        rw [user, word] at whole
        rw [← whole]
        decide
      · rw [before_eq_self colon] at user
        rw [user]
        exact List.not_mem_nil
    simp [inside, opening] at opened
  · rw [hostinfo_of_free credentials] at opening
    exact opening opened

end Host

section Port

variable {host : Str} {port : Option Nat} {n : Nat}

theorem mem_portText (member : c ∈ portText port) : c = ':' ∨ isDigit c = true := by
  cases port with
  | none => cases member
  | some n => exact (List.mem_cons.mp member).imp_right isDigit_toDigits

theorem rawHost_colon (opening : '[' ∉ parts.netloc) : ':' ∉ parts.rawHost := by
  have free : '[' ∉ parts.hostinfo := fun member =>
    opening ((List.rtakeWhile_suffix _ _).subset member)
  rw [SplitResult.rawHost, if_neg free]
  exact not_mem_before

theorem rawHost_hosted (credentials : '@' ∉ host) (opening : '[' ∉ host) (colon : ':' ∉ host)
    (hosted : parts.netloc = host ++ portText port) :
    parts.hostinfo = parts.netloc ∧ parts.rawHost = host ∧
      parts.rawPort = port.elim [] (Nat.toDigits 10 ·) := by
  have added : ∀ c ∈ ['@', '['], c ∉ portText port := by
    intro c listed member
    rcases mem_portText member with rfl | digit
    · exact absurd listed (by decide)
    · simp only [List.mem_cons, List.not_mem_nil, or_false] at listed
      rcases listed with rfl | rfl <;> exact absurd digit (by decide)
  have whole : parts.hostinfo = parts.netloc := by
    refine hostinfo_of_free ?_
    rw [hosted, List.mem_append, not_or]
    exact ⟨credentials, added '@' (by decide)⟩
  have free : '[' ∉ host ++ portText port := by
    rw [List.mem_append, not_or]
    exact ⟨opening, added '[' (by decide)⟩
  refine ⟨whole, ?_, ?_⟩
  · rw [SplitResult.rawHost, whole, hosted, if_neg free, before_append_of_not_mem colon]
    cases port <;> simp [portText, before]
  · rw [SplitResult.rawPort, whole, hosted, if_neg free, after_append colon]
    cases port <;> simp [portText, after]

theorem port_le (ported : parts.port = some (some n)) : n ≤ 65535 := by
  unfold SplitResult.port at ported
  split at ported
  · cases ported
  · split at ported
    · simp only [Option.ite_none_right_eq_some] at ported
      obtain ⟨small, same⟩ := ported
      cases same
      exact small
    · cases ported

theorem port_of_rawPort (small : ∀ n, port = some n → n ≤ 65535)
    (raw : parts.rawPort = port.elim [] (Nat.toDigits 10 ·)) : parts.port = some port := by
  cases port with
  | none => exact if_pos raw
  | some n =>
      have digits : (Nat.toDigits 10 n).all isDigit = true :=
        List.all_eq_true.mpr fun c member => isDigit_toDigits member
      have value : (Nat.toDigits 10 n).foldl (fun n c => 10 * n + (c.toNat - '0'.toNat)) 0 = n := by
        rw [← Nat.ofDigitChars_eq_foldl, Nat.ofDigitChars_ten_toDigits]
      simp only [Option.elim_some] at raw
      simp only [SplitResult.port, raw, Nat.toDigits_ne_nil, if_false, digits, if_true, value,
        small n rfl]

end Port

end Url
