import TplBackend.Library.Text

/-! Bytes in the alphabet of URLs and file names, with the padding and without. -/

namespace Base64

open Text

def symbol (n : Nat) : Char :=
  if n < 26 then Char.ofNat (65 + n)
  else if n < 52 then Char.ofNat (71 + n)
  else if n < 62 then Char.ofNat (n - 4)
  else if n = 62 then '-'
  else '_'

def value (c : Char) : Nat :=
  if 'A' ≤ c ∧ c ≤ 'Z' then c.toNat - 65
  else if 'a' ≤ c ∧ c ≤ 'z' then c.toNat - 71
  else if '0' ≤ c ∧ c ≤ '9' then c.toNat + 4
  else if c = '-' then 62
  else 63

def encode : List UInt8 → Str
  | [] => []
  | [a] => [symbol (a.toNat / 4), symbol (a.toNat % 4 * 16)]
  | [a, b] =>
    [symbol (a.toNat / 4), symbol (a.toNat % 4 * 16 + b.toNat / 16), symbol (b.toNat % 16 * 4)]
  | a :: b :: c :: rest =>
    symbol (a.toNat / 4) :: symbol (a.toNat % 4 * 16 + b.toNat / 16) ::
      symbol (b.toNat % 16 * 4 + c.toNat / 64) :: symbol (c.toNat % 64) :: encode rest

def padding (bytes : List UInt8) : Str := List.replicate ((3 - bytes.length % 3) % 3) '='

/-- `base64.urlsafe_b64encode` -/
def urlsafeB64encode (bytes : List UInt8) : Str := encode bytes ++ padding bytes

def decode : Str → List Nat
  | a :: b :: c :: d :: rest =>
    (value a * 4 + value b / 16) :: (value b % 16 * 16 + value c / 4) :: (value c % 4 * 64 + value d) ::
      decode rest
  | [a, b, c] => [value a * 4 + value b / 16, value b % 16 * 16 + value c / 4]
  | [a, b] => [value a * 4 + value b / 16]
  | _ => []

theorem value_symbol {n : Nat} (small : n < 64) : value (symbol n) = n := by
  have table : ∀ n : Fin 64, value (symbol n) = n := by decide
  exact table ⟨n, small⟩

theorem symbol_ne {n : Nat} (small : n < 64) : symbol n ≠ '=' := by
  have table : ∀ n : Fin 64, symbol n ≠ '=' := by decide
  exact table ⟨n, small⟩

theorem decode_encode (bytes : List UInt8) : decode (encode bytes) = bytes.map UInt8.toNat := by
  induction bytes using encode.induct with
  | case1 => rfl
  | case2 a =>
      have bound := a.toNat_lt
      simp (disch := omega) only [encode, decode, value_symbol, List.map_cons, List.map_nil, List.cons.injEq,
        and_true]
      omega
  | case3 a b =>
      have bound := a.toNat_lt
      have bound' := b.toNat_lt
      simp (disch := omega) only [encode, decode, value_symbol, List.map_cons, List.map_nil, List.cons.injEq,
        and_true]
      omega
  | case4 a b c rest ih =>
      have bound := a.toNat_lt
      have bound' := b.toNat_lt
      have bound'' := c.toNat_lt
      simp (disch := omega) only [encode, decode, value_symbol, List.map_cons, List.cons.injEq, ih, and_true]
      omega

theorem encode_injective : Function.Injective encode := by
  intro bytes others same
  have read := congrArg decode same
  rw [decode_encode, decode_encode] at read
  exact List.map_injective_iff.mpr (fun _ _ => UInt8.toNat_inj.mp) read

theorem not_mem_encode (bytes : List UInt8) : '=' ∉ encode bytes := by
  induction bytes using encode.induct with
  | case1 => exact List.not_mem_nil
  | case2 a =>
      have bound := a.toNat_lt
      simp only [encode, List.mem_cons, List.not_mem_nil, or_false, not_or]
      exact ⟨(symbol_ne (by omega)).symm, (symbol_ne (by omega)).symm⟩
  | case3 a b =>
      have bound := a.toNat_lt
      have bound' := b.toNat_lt
      simp only [encode, List.mem_cons, List.not_mem_nil, or_false, not_or]
      exact ⟨(symbol_ne (by omega)).symm, (symbol_ne (by omega)).symm, (symbol_ne (by omega)).symm⟩
  | case4 a b c rest ih =>
      have bound := a.toNat_lt
      have bound' := b.toNat_lt
      have bound'' := c.toNat_lt
      simp only [encode, List.mem_cons, not_or]
      exact ⟨(symbol_ne (by omega)).symm, (symbol_ne (by omega)).symm, (symbol_ne (by omega)).symm,
        (symbol_ne (by omega)).symm, ih⟩

theorem rstrip_urlsafeB64encode (bytes : List UInt8) :
    rstrip '=' (urlsafeB64encode bytes) = encode bytes := by
  have dropped (n : Nat) : rstrip '=' (encode bytes ++ List.replicate n '=') = encode bytes := by
    induction n with
    | zero =>
        rw [List.replicate_zero, List.append_nil, rstrip, List.rdropWhile_eq_self_iff]
        intro nonempty mark
        apply not_mem_encode bytes
        rw [← eq_of_beq mark]
        exact List.getLast_mem nonempty
    | succ n ih =>
        rw [List.replicate_succ', ← List.append_assoc, rstrip, List.rdropWhile_concat_pos _ _ _ rfl]
        exact ih
  exact dropped _

end Base64
