import Mathlib.Tactic

/-!
# Bytes as text

UTF-8, hexadecimal and unpadded URL-safe base64 over lists of bytes. The decoders are as lenient as
those of Go: UTF-8 reads a broken byte as a replacement character, hexadecimal takes both cases,
base64 skips line ends and ignores the bits of its last digit that belong to no byte. Each reads
back what its encoder wrote.
-/

namespace Encoding

abbrev Bytes := List UInt8

/-! ### UTF-8 -/

def utf8 (s : List Char) : Bytes := s.flatMap String.utf8EncodeChar

/-- The characters of the bytes after the first few. A byte that begins no character stands for
one. -/
def utf8Decode : ℕ → Bytes → List Char
  | _, [] => []
  | skip + 1, _ :: s => utf8Decode skip s
  | 0, b :: s =>
      match (b :: s).toByteArray.utf8DecodeChar? 0 with
      | some c => c :: utf8Decode (c.utf8Size - 1) s
      | none => '\uFFFD' :: utf8Decode 0 s

theorem utf8Decode_skip (t s : Bytes) : utf8Decode t.length (t ++ s) = utf8Decode 0 s := by
  induction t with
  | nil => rfl
  | cons b t ih =>
      rw [List.length_cons, List.cons_append, utf8Decode]
      exact ih

theorem utf8Decode_char (c : Char) (s : Bytes) :
    utf8Decode 0 (String.utf8EncodeChar c ++ s) = c :: utf8Decode 0 s := by
  have hlen : (String.utf8EncodeChar c).length = c.utf8Size := String.length_utf8EncodeChar c
  have hdecode : (String.utf8EncodeChar c ++ s).toByteArray.utf8DecodeChar? 0 = some c := by
    rw [List.toByteArray_append]
    exact ByteArray.utf8DecodeChar?_utf8EncodeChar_append
  cases hc : String.utf8EncodeChar c with
  | nil =>
      have hpos : 0 < c.utf8Size := Char.utf8Size_pos c
      rw [hc, List.length_nil] at hlen
      omega
  | cons b t =>
      rw [hc, List.length_cons] at hlen
      rw [hc, List.cons_append] at hdecode
      rw [List.cons_append, utf8Decode, hdecode]
      have hskip : c.utf8Size - 1 = t.length := by omega
      simp only [hskip, utf8Decode_skip]

theorem utf8Decode_utf8 (s : List Char) : utf8Decode 0 (utf8 s) = s := by
  induction s with
  | nil => rfl
  | cons c s ih =>
      rw [utf8, List.flatMap_cons, utf8Decode_char]
      exact congrArg (c :: ·) ih

theorem utf8_injective {s t : List Char} (h : utf8 s = utf8 t) : s = t := by
  rw [← utf8Decode_utf8 s, h, utf8Decode_utf8]

/-! ### Hexadecimal -/

def hexDigit (n : ℕ) : UInt8 := if n < 10 then UInt8.ofNat (48 + n) else UInt8.ofNat (87 + n)

def hexValue (b : UInt8) : Option ℕ :=
  let n := b.toNat
  if 48 ≤ n ∧ n ≤ 57 then some (n - 48)
  else if 97 ≤ n ∧ n ≤ 102 then some (n - 87)
  else if 65 ≤ n ∧ n ≤ 70 then some (n - 55)
  else none

def hex (s : Bytes) : Bytes :=
  s.flatMap (fun b => [hexDigit (b.toNat / 16), hexDigit (b.toNat % 16)])

def hexDecode : Bytes → Option Bytes
  | [] => some []
  | [_] => none
  | a :: b :: s => do
      let high ← hexValue a
      let low ← hexValue b
      let rest ← hexDecode s
      return UInt8.ofNat (16 * high + low) :: rest

/-! ### Base64 -/

def base64Digit (n : ℕ) : UInt8 :=
  UInt8.ofNat (if n < 26 then 65 + n else if n < 52 then 71 + n else if n < 62 then n - 4
    else if n = 62 then 45 else 95)

def base64Value (b : UInt8) : Option ℕ :=
  let n := b.toNat
  if 65 ≤ n ∧ n ≤ 90 then some (n - 65)
  else if 97 ≤ n ∧ n ≤ 122 then some (n - 71)
  else if 48 ≤ n ∧ n ≤ 57 then some (n + 4)
  else if n = 45 then some 62
  else if n = 95 then some 63
  else none

def sextets : Bytes → List ℕ
  | [] => []
  | [a] => [a.toNat / 4, a.toNat % 4 * 16]
  | [a, b] => [a.toNat / 4, a.toNat % 4 * 16 + b.toNat / 16, b.toNat % 16 * 4]
  | a :: b :: c :: s =>
      a.toNat / 4 :: (a.toNat % 4 * 16 + b.toNat / 16) :: (b.toNat % 16 * 4 + c.toNat / 64) ::
        c.toNat % 64 :: sextets s

def ofSextets : List ℕ → Option Bytes
  | [] => some []
  | [_] => none
  | [a, b] => some [UInt8.ofNat (a * 4 + b / 16)]
  | [a, b, c] => some [UInt8.ofNat (a * 4 + b / 16), UInt8.ofNat (b % 16 * 16 + c / 4)]
  | a :: b :: c :: d :: s =>
      (ofSextets s).map (fun rest => UInt8.ofNat (a * 4 + b / 16) ::
        UInt8.ofNat (b % 16 * 16 + c / 4) :: UInt8.ofNat (c % 4 * 64 + d) :: rest)

def base64 (s : Bytes) : Bytes := (sextets s).map base64Digit

/-- A line end, which the decoder skips wherever it stands. -/
def isLineEnd (b : UInt8) : Bool := b = 10 || b = 13

def base64Decode (s : Bytes) : Option Bytes :=
  ((s.filter (fun b => !isLineEnd b)).mapM base64Value).bind ofSextets

theorem base64Value_base64Digit : ∀ n < 64, base64Value (base64Digit n) = some n := by decide

theorem base64Digit_not_lineEnd : ∀ n < 64, isLineEnd (base64Digit n) = false := by decide

theorem sextets_lt (s : Bytes) : ∀ n ∈ sextets s, n < 64 := by
  have hlt : ∀ b : UInt8, b.toNat < 256 := fun b => b.toNat_lt
  fun_induction sextets s with
  | case1 => simp
  | case2 a =>
      have ha := hlt a
      simp only [List.mem_cons, List.not_mem_nil, or_false, forall_eq_or_imp, forall_eq]
      omega
  | case3 a b =>
      have ha := hlt a
      have hb := hlt b
      simp only [List.mem_cons, List.not_mem_nil, or_false, forall_eq_or_imp, forall_eq]
      omega
  | case4 a b c s ih =>
      have ha := hlt a
      have hb := hlt b
      have hc := hlt c
      simp only [List.mem_cons, forall_eq_or_imp]
      exact ⟨by omega, by omega, by omega, by omega, ih⟩

theorem ofSextets_sextets (s : Bytes) : ofSextets (sextets s) = some s := by
  have hlt : ∀ b : UInt8, b.toNat < 256 := fun b => b.toNat_lt
  have hbyte : ∀ (b : UInt8) (n : ℕ), n = b.toNat → UInt8.ofNat n = b := by
    rintro b n rfl
    exact UInt8.ofNat_toNat
  fun_induction sextets s with
  | case1 => rfl
  | case2 a =>
      have ha := hlt a
      rw [ofSextets, hbyte a _ (by omega)]
  | case3 a b =>
      have ha := hlt a
      have hb := hlt b
      rw [ofSextets, hbyte a _ (by omega), hbyte b _ (by omega)]
  | case4 a b c s ih =>
      have ha := hlt a
      have hb := hlt b
      have hc := hlt c
      rw [ofSextets, ih, Option.map_some, hbyte a _ (by omega), hbyte b _ (by omega),
        hbyte c _ (by omega)]

theorem base64Decode_base64 (s : Bytes) : base64Decode (base64 s) = some s := by
  have hkeep : (base64 s).filter (fun b => !isLineEnd b) = base64 s := by
    refine List.filter_eq_self.mpr (fun b hb => ?_)
    obtain ⟨n, hn, rfl⟩ := List.mem_map.mp hb
    rw [base64Digit_not_lineEnd n (sextets_lt s n hn), Bool.not_false]
  have hvalues : ∀ l : List ℕ, (∀ n ∈ l, n < 64) →
      (l.map base64Digit).mapM base64Value = some l := by
    intro l hl
    induction l with
    | nil => rfl
    | cons n l ih =>
        rw [List.map_cons, List.mapM_cons, base64Value_base64Digit n (hl n List.mem_cons_self),
          ih (fun m hm => hl m (List.mem_cons_of_mem n hm))]
        rfl
  rw [base64Decode, hkeep, base64, hvalues _ (sextets_lt s), Option.bind_some, ofSextets_sextets]

end Encoding
