import Dufaka.YuanText
import Mathlib.Data.List.TakeWhile

/-!
# Scanning an integer

`fmt.Sscan` into an integer, and `strconv.ParseInt` with base 0 behind it. Space is skipped, a sign
and a base prefix are recognised, the digits of that base are taken as far as they go, and the rest
of the text is left alone. Plain digits are decimal, and digits after a zero are octal.
-/

namespace Dufaka
namespace Text

def digitValue (c : Char) : Option ℕ :=
  if c.isDigit then some (c.toNat - 48)
  else if 'a' ≤ c.toLower && c.toLower ≤ 'z' then some (c.toLower.toNat - 97 + 10)
  else none

/-- `underscoreOK`, after the sign: `saw` is `^` at the start, `0` after a digit or a base prefix,
`_` after an underscore, and `!` after anything else. -/
def underscoreFrom (hex : Bool) (saw : Char) : Text → Bool
  | [] => saw ≠ '_'
  | c :: s =>
      if c.isDigit || (hex && 'a' ≤ c.toLower && c.toLower ≤ 'f') then underscoreFrom hex '0' s
      else if c = '_' then saw = '0' && underscoreFrom hex '_' s
      else saw ≠ '_' && underscoreFrom hex '!' s

def underscoreOK : Text → Bool
  | '0' :: c :: s =>
      if c.toLower = 'b' || c.toLower = 'o' || c.toLower = 'x' then
        underscoreFrom (c.toLower = 'x') '0' s
      else underscoreFrom false '^' ('0' :: c :: s)
  | s => underscoreFrom false '^' s

def intBase : Text → ℕ × Text
  | '0' :: c :: d :: s =>
      if c.toLower = 'b' then (2, d :: s)
      else if c.toLower = 'o' then (8, d :: s)
      else if c.toLower = 'x' then (16, d :: s)
      else (8, c :: d :: s)
  | '0' :: s => (8, s)
  | s => (10, s)

def digitsValue (base : ℕ) (s : Text) : ℕ := s.foldl (fun n c => n * base + (digitValue c).getD 0) 0

/-- `strconv.ParseUint(s, 0, 64)`. -/
def parseUint0 (s : Text) : Option ℕ :=
  let base := (intBase s).1
  let digits := (intBase s).2.filter (fun c => c ≠ '_')
  if s = [] || !digits.all (fun c => (digitValue c).any (fun v => v < base)) then none
  else if digitsValue base digits ≥ 2 ^ 64 then none
  else if '_' ∈ (intBase s).2 && !underscoreOK s then none
  else some (digitsValue base digits)

/-- `strconv.ParseInt(s, 0, 64)`. -/
def parseInt0 (s : Text) : Option ℤ :=
  let neg := s.head? = some '-'
  (parseUint0 (if neg || s.head? = some '+' then s.tail else s)).bind (fun n =>
    if neg then (if n ≤ 2 ^ 63 then some (-n) else none) else if n < 2 ^ 63 then some n else none)

def binaryDigits : Text := ['0', '1']
def octalDigits : Text := ['0', '1', '2', '3', '4', '5', '6', '7']
def decimalDigits : Text := ['0', '1', '2', '3', '4', '5', '6', '7', '8', '9']
def hexadecimalDigits : Text :=
  ['0', '1', '2', '3', '4', '5', '6', '7', '8', '9', 'a', 'A', 'b', 'B', 'c', 'C', 'd', 'D', 'e',
    'E', 'f', 'F']

/-- The digits of a set as far as they go; underscores count as digits here. -/
def scanDigits (digits s : Text) : Text := s.takeWhile (fun c => c ∈ digits || c = '_')

/-- The token that `scanInt` takes after the sign, unless there is none. -/
def scanToken : Text → Option Text
  | '0' :: c :: s =>
      if c = 'b' ∨ c = 'B' then some ('0' :: c :: scanDigits binaryDigits s)
      else if c = 'o' ∨ c = 'O' then some ('0' :: c :: scanDigits octalDigits s)
      else if c = 'x' ∨ c = 'X' then some ('0' :: c :: scanDigits hexadecimalDigits s)
      else some ('0' :: scanDigits octalDigits (c :: s))
  | s => if scanDigits decimalDigits s = [] then none else some (scanDigits decimalDigits s)

/-- `fmt.Sscan(s, &n)` into an `int`: the value stored, unless the scan fails. -/
def sscanInt (s : Text) : Option ℤ :=
  let s := s.dropWhile isSpace
  let sign := if s.head? = some '-' || s.head? = some '+' then s.take 1 else []
  (scanToken (s.drop sign.length)).bind (fun token => parseInt0 (sign ++ token))

example : sscanInt "30".toList = some 30 ∧ sscanInt "010".toList = some 8 ∧
    sscanInt " +0x1f,".toList = some 31 ∧ sscanInt "1_0".toList = some 10 ∧
    sscanInt "_1".toList = none := by
  decide

/-! ### Plain digits -/

section Digits
variable {s : Text}

theorem toLower_of_isDigit {c : Char} (h : c.isDigit = true) : c.toLower = c := by
  have hrange := digit_le h
  have hup : ¬(c.val ≥ 'A'.val ∧ c.val ≤ 'Z'.val) := by
    intro hup
    have hlow : 65 ≤ c.toNat := hup.1
    omega
  exact dif_neg hup

theorem mem_decimalDigits {c : Char} (h : c.isDigit = true) : c ∈ decimalDigits := by
  obtain ⟨hlow, hhigh⟩ := digit_le h
  have hc : c = Char.ofNat c.toNat := (Char.ofNat_toNat c).symm
  rw [hc]
  generalize c.toNat = n at hlow hhigh
  interval_cases n <;> decide

theorem digitsValue_eq (base : ℕ) (h : ∀ c ∈ s, c.isDigit = true) :
    digitsValue base s = Nat.ofDigitChars base s 0 := by
  have hfold : ∀ (n : ℕ) (s : Text), (∀ c ∈ s, c.isDigit = true) →
      s.foldl (fun n c => n * base + (digitValue c).getD 0) n = Nat.ofDigitChars base s n := by
    intro n s hs
    induction s generalizing n with
    | nil => rfl
    | cons c s ih =>
        have hc : (digitValue c).getD 0 = c.toNat - 48 := by
          rw [digitValue, if_pos (hs c (by simp))]
          rfl
        rw [List.foldl_cons, ih _ (fun c hc => hs c (by simp [hc])), Nat.ofDigitChars_cons, hc,
          Nat.mul_comm]
        rfl
  exact hfold 0 s h

theorem intBase_of_head (h : s.head? ≠ some '0') : intBase s = (10, s) := by
  unfold intBase
  split
  · exact absurd rfl h
  · exact absurd rfl h
  · rfl

theorem intBase_zero (h : ∀ c ∈ s, c.isDigit = true) : intBase ('0' :: s) = (8, s) := by
  match s with
  | [] => rfl
  | [c] => rfl
  | c :: d :: s =>
      have hc := h c (by simp)
      rw [intBase, toLower_of_isDigit hc, if_neg (ne_of_isDigit hc rfl),
        if_neg (ne_of_isDigit hc rfl), if_neg (ne_of_isDigit hc rfl)]

/-- A number whose digits are plain, in the base that its first digits show. -/
theorem parseUint0_digits {base : ℕ} {digits : Text} (hne : s ≠ [])
    (hbase : intBase s = (base, digits)) (hdigits : ∀ c ∈ digits, c.isDigit = true)
    (hsmall : ∀ c ∈ digits, c.toNat - 48 < base) (hlt : Nat.ofDigitChars base digits 0 < 2 ^ 64) :
    parseUint0 s = some (Nat.ofDigitChars base digits 0) := by
  have hunder : '_' ∉ digits := fun h => ne_of_isDigit (hdigits _ h) rfl rfl
  have hfilter : digits.filter (fun c => c ≠ '_') = digits := by
    rw [List.filter_eq_self]
    intro c hc
    simpa using ne_of_mem_of_not_mem hc hunder
  have hall : digits.all (fun c => (digitValue c).any (fun v => v < base)) = true := by
    rw [List.all_eq_true]
    intro c hc
    rw [digitValue, if_pos (hdigits c hc)]
    simpa using hsmall c hc
  rw [parseUint0, hbase]
  simp only [hfilter, hall, hne, digitsValue_eq base hdigits, hunder, decide_false, Bool.not_true,
    Bool.or_self, Bool.false_eq_true, if_false, Bool.false_and, not_le.mpr hlt]

theorem parseInt0_unsigned {n : ℕ} (hminus : s.head? ≠ some '-') (hplus : s.head? ≠ some '+')
    (h : parseUint0 s = some n) (hlt : n < 2 ^ 63) : parseInt0 s = some (n : ℤ) := by
  simpa [parseInt0, hminus, hplus, h] using hlt

theorem parseInt0_plus (hminus : s.head? ≠ some '-') (hplus : s.head? ≠ some '+') :
    parseInt0 ('+' :: s) = parseInt0 s := by
  simp [parseInt0, hminus, hplus]

end Digits

/-! ### What a scan makes of plain digits -/

section Scan
variable {sign digits : Text}

theorem scanDigits_of_digits (set : Text) {s : Text} (h : ∀ c ∈ s, c.isDigit = true) :
    scanDigits set s = s.takeWhile (· ∈ set) := by
  induction s with
  | nil => rfl
  | cons c s ih =>
      have hunder : c ≠ '_' := ne_of_isDigit (h c (by simp)) rfl
      have hrest := ih (fun c hc => h c (by simp [hc]))
      rw [scanDigits] at hrest
      rw [scanDigits, List.takeWhile_cons, List.takeWhile_cons, hrest, decide_eq_false hunder,
        Bool.or_false]

theorem scanDigits_of_forall {set s : Text} (h : ∀ c ∈ s, c ∈ set) : scanDigits set s = s := by
  rw [scanDigits, List.takeWhile_eq_self_iff]
  intro c hc
  simp [h c hc]

theorem sscanInt_sign (hsign : sign = [] ∨ sign = ['+']) (hne : digits ≠ [])
    (hdigits : ∀ c ∈ digits, c.isDigit = true) :
    sscanInt (sign ++ digits) = (scanToken digits).bind
      (fun token => parseInt0 (sign ++ token)) := by
  obtain ⟨c, s, rfl⟩ := List.exists_cons_of_ne_nil hne
  have hc := hdigits c (by simp)
  have hspace : isSpace c = false := isSpace_of_isDigit hc
  have hminus : c ≠ '-' := ne_of_isDigit hc rfl
  have hplus : c ≠ '+' := ne_of_isDigit hc rfl
  rcases hsign with rfl | rfl
  · simp [sscanInt, hspace, hminus, hplus]
  · simp [sscanInt, show isSpace '+' = false from rfl]

/-- Digits without a leading zero are scanned in full, as a decimal number. -/
theorem sscanInt_decimal (hsign : sign = [] ∨ sign = ['+']) (hne : digits ≠ [])
    (hdigits : ∀ c ∈ digits, c.isDigit = true) (hzero : digits.head? ≠ some '0')
    (hlt : number digits < 2 ^ 63) : sscanInt (sign ++ digits) = some (number digits : ℤ) := by
  have hscan : scanDigits decimalDigits digits = digits :=
    scanDigits_of_forall (fun c hc => mem_decimalDigits (hdigits c hc))
  have htoken : scanToken digits = some digits := by
    unfold scanToken
    split
    · exact absurd rfl hzero
    · rw [hscan, if_neg hne]
  have hminus : digits.head? ≠ some '-' := head_of_digits hdigits rfl
  have hplus : digits.head? ≠ some '+' := head_of_digits hdigits rfl
  have hread : parseInt0 digits = some (number digits : ℤ) := by
    refine parseInt0_unsigned hminus hplus ?_ hlt
    refine parseUint0_digits hne (intBase_of_head hzero) hdigits ?_ (by rw [← number]; omega)
    intro c hc
    have hrange := digit_le (hdigits c hc)
    omega
  rw [sscanInt_sign hsign hne hdigits, htoken, Option.bind_some]
  rcases hsign with rfl | rfl
  · exact hread
  · exact (parseInt0_plus hminus hplus).trans hread

theorem isDigit_of_octal {c : Char} (h : c ∈ octalDigits) :
    c.isDigit = true ∧ c.toNat - 48 < 8 := by
  have hall : octalDigits.all (fun c => c.isDigit = true ∧ c.toNat - 48 < 8) = true := by decide
  exact of_decide_eq_true (List.all_eq_true.mp hall c h)

/-- Digits after a zero are scanned up to the first that is not octal, as an octal number. -/
theorem sscanInt_octal (hsign : sign = [] ∨ sign = ['+']) (hdigits : ∀ c ∈ digits, c.isDigit = true)
    (hlt : Nat.ofDigitChars 8 (digits.takeWhile (· ∈ octalDigits)) 0 < 2 ^ 63) :
    sscanInt (sign ++ '0' :: digits) =
      some (Nat.ofDigitChars 8 (digits.takeWhile (· ∈ octalDigits)) 0 : ℤ) := by
  have hall : ∀ c ∈ '0' :: digits, c.isDigit = true := by
    intro c hc
    rcases List.mem_cons.mp hc with rfl | hc
    · rfl
    · exact hdigits c hc
  have htoken : scanToken ('0' :: digits) = some ('0' :: digits.takeWhile (· ∈ octalDigits)) := by
    rw [← scanDigits_of_digits octalDigits hdigits]
    cases digits with
    | nil => rfl
    | cons c s =>
        have hc := hdigits c (by simp)
        have hnot : ∀ d e : Char, d.isDigit = false → e.isDigit = false → ¬ (c = d ∨ c = e) :=
          fun d e hd he => not_or.mpr ⟨ne_of_isDigit hc hd, ne_of_isDigit hc he⟩
        rw [scanToken, if_neg (hnot 'b' 'B' rfl rfl), if_neg (hnot 'o' 'O' rfl rfl),
          if_neg (hnot 'x' 'X' rfl rfl)]
  have hoctal : ∀ c ∈ digits.takeWhile (· ∈ octalDigits), c ∈ octalDigits := by
    intro c hc
    simpa using List.mem_takeWhile_imp hc
  have hminus : ('0' :: digits.takeWhile (· ∈ octalDigits)).head? ≠ some '-' := by simp
  have hplus : ('0' :: digits.takeWhile (· ∈ octalDigits)).head? ≠ some '+' := by simp
  have hbase : intBase ('0' :: digits.takeWhile (· ∈ octalDigits)) =
      (8, digits.takeWhile (· ∈ octalDigits)) :=
    intBase_zero (fun c hc => (isDigit_of_octal (hoctal c hc)).1)
  have hread : parseInt0 ('0' :: digits.takeWhile (· ∈ octalDigits)) =
      some (Nat.ofDigitChars 8 (digits.takeWhile (· ∈ octalDigits)) 0 : ℤ) := by
    refine parseInt0_unsigned hminus hplus ?_ hlt
    refine parseUint0_digits (List.cons_ne_nil _ _) hbase ?_ ?_ (by omega)
    · exact fun c hc => (isDigit_of_octal (hoctal c hc)).1
    · exact fun c hc => (isDigit_of_octal (hoctal c hc)).2
  rw [sscanInt_sign hsign (List.cons_ne_nil _ _) hall, htoken, Option.bind_some]
  rcases hsign with rfl | rfl
  · exact hread
  · exact (parseInt0_plus hminus hplus).trans hread

end Scan

end Text
end Dufaka
