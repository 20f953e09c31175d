import Dufaka.Price

/-!
# Amounts as texts

A decimal amount is a text with an optional sign, digits, and perhaps a point with more digits; its
value is cut to whole cents. `ParseYuan` reads every such amount that an `int64` holds. It also
takes some other texts, since each half goes through a parser of signed integers.
-/

namespace Dufaka

namespace Text

def number (s : Text) : ℕ := Nat.ofDigitChars 10 s 0

theorem number_append (s t : Text) : number (s ++ t) = number s * 10 ^ t.length + number t := by
  rw [number, Nat.ofDigitChars_append, Nat.ofDigitChars_eq_ofDigitChars_zero, Nat.mul_comm]
  rfl

theorem number_singleton (c : Char) : number [c] = c.toNat - 48 := by
  simp [number, Nat.ofDigitChars_cons]

theorem digit_le {c : Char} (h : c.isDigit = true) : 48 ≤ c.toNat ∧ c.toNat ≤ 57 := by
  simp only [Char.isDigit, Bool.and_eq_true, decide_eq_true_eq] at h
  exact ⟨h.1, h.2⟩

theorem number_lt {s : Text} (h : ∀ c ∈ s, c.isDigit = true) : number s < 10 ^ s.length := by
  induction s using List.reverseRecOn with
  | nil => simp [number]
  | append_singleton s c ih =>
      have hs : number s < 10 ^ s.length := ih (fun x hx => h x (by simp [hx]))
      have hc := digit_le (h c (by simp))
      rw [number_append, number_singleton, List.length_append, List.length_singleton, pow_succ]
      omega

theorem ne_of_isDigit {c d : Char} (h : c.isDigit = true) (hd : d.isDigit = false) : c ≠ d := by
  rintro rfl
  rw [h] at hd
  cases hd

theorem head_of_digits {s : Text} {d : Char} (h : ∀ c ∈ s, c.isDigit = true)
    (hd : d.isDigit = false) : s.head? ≠ some d := by
  intro hs
  have hmem : d ∈ s := List.mem_of_head? hs
  exact ne_of_isDigit (h d hmem) hd rfl

theorem cut_of_notMem {sep : Char} {s : Text} (h : sep ∉ s) : s.cut sep = none := by
  induction s with
  | nil => rfl
  | cons c s ih =>
      rw [List.mem_cons, not_or] at h
      rw [cut, if_neg (Ne.symm h.1), ih h.2]
      rfl

theorem cut_append {sep : Char} {s : Text} (t : Text) (h : sep ∉ s) :
    (s ++ sep :: t).cut sep = some (s, t) := by
  induction s with
  | nil => simp [cut]
  | cons c s ih =>
      rw [List.mem_cons, not_or] at h
      rw [List.cons_append, cut, if_neg (Ne.symm h.1), ih h.2]
      rfl

theorem cut_eq_some {sep : Char} {s : Text} {p : Text × Text} (h : s.cut sep = some p) :
    s = p.1 ++ sep :: p.2 := by
  induction s generalizing p with
  | nil => cases h
  | cons c s ih =>
      rw [cut] at h
      split_ifs at h with hc
      · obtain rfl := Option.some.inj h
        rw [hc]
        rfl
      · obtain ⟨q, hq, rfl⟩ := Option.map_eq_some_iff.mp h
        rw [ih hq]
        rfl

theorem parseInt_digits {s : Text} (hne : s ≠ []) (h : ∀ c ∈ s, c.isDigit = true)
    (hlt : number s < 2 ^ 63) : parseInt s = some (number s : ℤ) := by
  have hminus : s.head? ≠ some '-' := head_of_digits h rfl
  have hplus : s.head? ≠ some '+' := head_of_digits h rfl
  have hall : s.all Char.isDigit = true := List.all_eq_true.mpr h
  have hfit : ((number s : ℕ) : ℤ) < 2 ^ 63 := by exact_mod_cast hlt
  rw [number] at hfit ⊢
  simp only [parseInt, hminus, hplus, hne, hall, decide_false, Bool.or_self, Bool.false_eq_true,
    if_false, Bool.not_true, hfit, if_true]

theorem parseInt_plus {s : Text} (h : ∀ c ∈ s, c.isDigit = true) :
    parseInt ('+' :: s) = parseInt s := by
  have hminus : s.head? ≠ some '-' := head_of_digits h rfl
  have hplus : s.head? ≠ some '+' := head_of_digits h rfl
  simp [parseInt, hminus, hplus]

theorem digits_of_check {s : Text} (h : ¬ (decide (s = []) || !s.all Char.isDigit) = true) :
    s ≠ [] ∧ ∀ c ∈ s, c.isDigit = true := by
  simp only [Bool.or_eq_true, decide_eq_true_eq, Bool.not_eq_true', not_or, Bool.not_eq_false] at h
  exact ⟨h.1, List.all_eq_true.mp h.2⟩

/-- What `strconv.ParseInt` reads: a sign, if there is one, and digits. -/
theorem parseInt_eq_some {s : Text} {n : ℤ} (h : parseInt s = some n) :
    ∃ digits, digits ≠ [] ∧ (∀ c ∈ digits, c.isDigit = true) ∧
      (s = '-' :: digits ∧ n = -(number digits : ℤ) ∨
        (s = '+' :: digits ∨ s = digits) ∧ n = (number digits : ℤ)) := by
  cases s with
  | nil => cases h
  | cons c s =>
      rw [parseInt] at h
      simp only [List.head?_cons, Option.some.injEq, List.tail_cons] at h
      by_cases hminus : c = '-'
      · subst hminus
        simp only [decide_true, Bool.true_or, if_true] at h
        split_ifs at h with hbad hrange
        obtain ⟨hne, hdigits⟩ := digits_of_check hbad
        exact ⟨s, hne, hdigits, Or.inl ⟨rfl, (Option.some.inj h).symm⟩⟩
      · by_cases hplus : c = '+'
        · subst hplus
          simp only [decide_true, Bool.or_true, if_true, hminus, decide_false, if_false] at h
          split_ifs at h with hbad hrange
          obtain ⟨hne, hdigits⟩ := digits_of_check hbad
          exact ⟨s, hne, hdigits, Or.inr ⟨Or.inl rfl, (Option.some.inj h).symm⟩⟩
        · simp only [hminus, hplus, decide_false, Bool.or_self, Bool.false_eq_true, if_false] at h
          split at h
          case isTrue => cases h
          case isFalse hbad =>
            obtain ⟨hne, hdigits⟩ := digits_of_check hbad
            split at h
            case isTrue => exact ⟨c :: s, hne, hdigits,
              Or.inr ⟨Or.inr rfl, (Option.some.inj h).symm⟩⟩
            case isFalse => cases h

end Text

/-! ### The grammar -/

/-- A decimal amount: an optional sign, digits, and perhaps a point with more digits. -/
structure Decimal where
  sign : Text
  whole : Text
  frac : Option Text
  sign_one : sign = [] ∨ sign = ['+'] ∨ sign = ['-']
  whole_ne : whole ≠ []
  whole_digits : ∀ c ∈ whole, c.isDigit = true
  frac_digits : ∀ c ∈ frac.getD [], c.isDigit = true

namespace Decimal

def point : Option Text → Text
  | none => []
  | some frac => '.' :: frac

def text (d : Decimal) : Text := d.sign ++ d.whole ++ point d.frac

def digits (d : Decimal) : Text := d.whole ++ d.frac.getD []

def magnitude (d : Decimal) : ℕ := Text.number d.digits * 100 / 10 ^ (d.frac.getD []).length

def cents (d : Decimal) : ℤ := if d.sign = ['-'] then -(d.magnitude : ℤ) else d.magnitude

end Decimal

def Fits64 (n : ℤ) : Prop := -2 ^ 63 ≤ n ∧ n < 2 ^ 63

/-- The text, without the space around it, is a decimal amount of `c` cents that an `int64`
holds. -/
def IsAmount (s : Text) (c : Cents) : Prop :=
  Fits64 c ∧ ∃ d : Decimal, s.trimSpace = d.text ∧ d.cents = c

/-! ### The parser -/

/-- The parser drops a minus sign. -/
def yuanNegative (s : Text) : Bool := s.trimSpace.head? = some '-'

def yuanHalves (s : Text) : Text × Text :=
  let t : Text := if yuanNegative s then s.trimSpace.tail else s.trimSpace
  (t.cut '.').getD (t, ['0', '0'])

def clipFrac (s : Text) : Text := (s ++ ['0', '0']).take 2

/-- The cents of two numbers that were read, as a mathematical integer. -/
def yuanValue (neg : Bool) (w f : ℤ) : ℤ := if neg then -(w * 100 + f) else w * 100 + f

/-- The texts that the parser takes and that are no amounts: both halves read as integers, but a
second sign stands before the digits, or the fraction has a character that is no digit, or the cents
do not fit an `int64`. -/
def Misread (s : Text) : Prop :=
  ∃ w f, (yuanHalves s).1.parseInt = some w ∧ (clipFrac (yuanHalves s).2).parseInt = some f ∧
    ((yuanNegative s = true ∧
      ((yuanHalves s).1.head? = some '-' ∨ (yuanHalves s).1.head? = some '+')) ∨
      (∃ c ∈ (yuanHalves s).2, c.isDigit = false) ∨ ¬ Fits64 (yuanValue (yuanNegative s) w f))

theorem parseYuan_eq_some {s : Text} {c : Cents} : parseYuan s = some c ↔
    ∃ w f, (yuanHalves s).1.parseInt = some w ∧ (clipFrac (yuanHalves s).2).parseInt = some f ∧
      c = if yuanNegative s then int64 (-(int64 (w * 100 + f))) else int64 (w * 100 + f) := by
  rw [parseYuan]
  by_cases hnil : s.trimSpace = []
  · simp [hnil, yuanHalves, yuanNegative, Text.cut, Text.parseInt]
  · simp only [hnil, if_false, yuanHalves, yuanNegative, clipFrac, decide_eq_true_eq]
    split
    case h_1 w f hw hf =>
      rw [hw, hf]
      constructor
      · intro h
        exact ⟨w, f, rfl, rfl, (Option.some.inj h).symm⟩
      · rintro ⟨w', f', hw', hf', rfl⟩
        rw [Option.some.inj hw', Option.some.inj hf']
    case h_2 hnone =>
      constructor
      · intro h
        cases h
      · rintro ⟨w, f, hw, hf, -⟩
        exact (hnone w f hw hf).elim

/-! ### Amounts are read exactly -/

namespace Text

theorem number_cons (c : Char) (s : Text) :
    number (c :: s) = (c.toNat - 48) * 10 ^ s.length + number s := by
  rw [← List.singleton_append, number_append, number_singleton]

/-- Cutting the digits of a fraction after two is cutting its value after two places. -/
theorem number_clipFrac {s : Text} (h : ∀ c ∈ s, c.isDigit = true) :
    number ((s ++ ['0', '0']).take 2) = number s * 100 / 10 ^ s.length := by
  match s with
  | [] => rfl
  | [a] =>
      change number [a, '0'] = number [a] * 100 / 10 ^ 1
      rw [number_cons, number_singleton, number_singleton]
      change (a.toNat - 48) * 10 ^ 1 + (48 - 48) = _
      omega
  | a :: b :: s =>
      change number [a, b] = number (a :: b :: s) * 100 / 10 ^ (s.length + 2)
      have hrest : number s < 10 ^ s.length := number_lt (fun c hc => h c (by simp [hc]))
      have hpos : 0 < 10 ^ s.length := Nat.pow_pos (by omega)
      have hsplit : number (a :: b :: s) * 100 =
          (number [a, b] * 10 ^ s.length + number s) * 100 := by
        rw [show a :: b :: s = [a, b] ++ s from rfl, number_append]
      rw [hsplit, pow_add, show 10 ^ 2 = 100 from rfl, Nat.mul_div_mul_right _ _ (by omega),
        Nat.add_comm, Nat.add_mul_div_right _ _ hpos, Nat.div_eq_of_lt hrest, Nat.zero_add]

end Text

/-! ### Leading zeros -/

namespace Text

def dropZeros (s : Text) : Text := s.dropWhile (fun c => c = '0')

theorem number_dropZeros (s : Text) : number (dropZeros s) = number s := by
  induction s with
  | nil => rfl
  | cons c s ih =>
      rw [dropZeros, List.dropWhile_cons]
      by_cases hc : c = '0'
      · subst hc
        rw [if_pos (by decide), number_cons]
        change number (dropZeros s) = (48 - 48) * 10 ^ s.length + number s
        rw [ih]
        omega
      · rw [if_neg (by simpa using hc)]

theorem dropZeros_digits {s : Text} (h : ∀ c ∈ s, c.isDigit = true) :
    ∀ c ∈ dropZeros s, c.isDigit = true :=
  fun c hc => h c ((List.dropWhile_sublist _).subset hc)

/-- A number without a leading zero is at least the power of ten of its other digits. -/
theorem pow_le_number {c : Char} {s : Text} (hc : c.isDigit = true) (hzero : c ≠ '0') :
    10 ^ s.length ≤ number (c :: s) := by
  have hrange := digit_le hc
  have hne : c.toNat ≠ 48 := by
    intro h
    apply hzero
    exact Char.ext (UInt32.toNat_inj.mp h)
  have hpos : 1 ≤ c.toNat - 48 := by omega
  rw [number_cons]
  calc 10 ^ s.length = 1 * 10 ^ s.length := (Nat.one_mul _).symm
    _ ≤ (c.toNat - 48) * 10 ^ s.length := Nat.mul_le_mul_right _ hpos
    _ ≤ (c.toNat - 48) * 10 ^ s.length + number s := Nat.le_add_right _ _

/-- How many digits are left without the leading zeros says how large the number is. -/
theorem length_dropZeros_le_iff {s : Text} (h : ∀ c ∈ s, c.isDigit = true) (k : ℕ) :
    (dropZeros s).length ≤ k ↔ number s < 10 ^ k := by
  have hdigits := dropZeros_digits h
  rw [← number_dropZeros s]
  constructor
  · intro hlen
    exact (number_lt hdigits).trans_le (Nat.pow_le_pow_right (by omega) hlen)
  · intro hlt
    cases hs : dropZeros s with
    | nil => simp
    | cons c t =>
        have hc : c ≠ '0' := by
          have hfirst := List.head?_dropWhile_not (fun c : Char => decide (c = '0')) s
          rw [← dropZeros, hs] at hfirst
          simpa using hfirst
        rw [hs] at hlt hdigits
        have hlow := pow_le_number (s := t) (hdigits c (by simp)) hc
        have hpow : 10 ^ t.length < 10 ^ k := hlow.trans_lt hlt
        have hlen : t.length < k := (Nat.pow_lt_pow_iff_right (by omega)).mp hpow
        exact hlen

end Text

/-! ### Decimal amounts -/

namespace Decimal
variable (d : Decimal)

theorem magnitude_eq :
    d.magnitude = Text.number d.whole * 100 + Text.number (clipFrac (d.frac.getD [])) := by
  have hpos : 0 < 10 ^ (d.frac.getD []).length := Nat.pow_pos (by omega)
  rw [magnitude, digits, Text.number_append, clipFrac, Text.number_clipFrac d.frac_digits,
    Nat.add_mul, Nat.mul_right_comm, Nat.add_comm, Nat.add_mul_div_right _ _ hpos, Nat.add_comm]

theorem point_notMem_whole : '.' ∉ d.whole := by
  intro hmem
  exact Text.ne_of_isDigit (d.whole_digits '.' hmem) rfl rfl

def signedWhole : Text := if d.sign = ['+'] then '+' :: d.whole else d.whole

theorem parseInt_signedWhole (h : Text.number d.whole < 2 ^ 63) :
    d.signedWhole.parseInt = some (Text.number d.whole : ℤ) := by
  rw [signedWhole]
  split
  · rw [Text.parseInt_plus d.whole_digits, Text.parseInt_digits d.whole_ne d.whole_digits h]
  · rw [Text.parseInt_digits d.whole_ne d.whole_digits h]

theorem clip_digits : ∀ c ∈ clipFrac (d.frac.getD []), c.isDigit = true := by
  intro c hc
  have hmem : c ∈ d.frac.getD [] ++ ['0', '0'] := List.mem_of_mem_take hc
  rcases List.mem_append.mp hmem with hfrac | hzero
  · exact d.frac_digits c hfrac
  · simp only [List.mem_cons, List.not_mem_nil, or_false, or_self] at hzero
    rw [hzero]
    rfl

theorem clip_length : (clipFrac (d.frac.getD [])).length = 2 := by
  rw [clipFrac, List.length_take, List.length_append]
  simp

theorem parseInt_clip : (clipFrac (d.frac.getD [])).parseInt =
    some (Text.number (clipFrac (d.frac.getD [])) : ℤ) := by
  have hlen := d.clip_length
  have hne : clipFrac (d.frac.getD []) ≠ [] := by
    intro hnil
    rw [hnil] at hlen
    cases hlen
  have hlt := Text.number_lt d.clip_digits
  rw [hlen] at hlt
  exact Text.parseInt_digits hne d.clip_digits (by omega)

variable {d} {s : Text}

theorem negative_of_text (h : s.trimSpace = d.text) :
    yuanNegative s = true ↔ d.sign = ['-'] := by
  rw [yuanNegative, h, text, decide_eq_true_eq]
  obtain ⟨c, w, hw⟩ := List.exists_cons_of_ne_nil d.whole_ne
  have hc : c ≠ '-' := Text.ne_of_isDigit (d.whole_digits c (by simp [hw])) rfl
  rcases d.sign_one with hs | hs | hs <;> simp [hs, hw, hc]

theorem halves_of_text (h : s.trimSpace = d.text) :
    (yuanHalves s).1 = d.signedWhole ∧ (yuanHalves s).2 = d.frac.getD ['0', '0'] := by
  have hrest : (if yuanNegative s then s.trimSpace.tail else s.trimSpace) =
      d.signedWhole ++ point d.frac := by
    have hneg := negative_of_text h
    rw [h, text, signedWhole]
    rcases d.sign_one with hs | hs | hs
    all_goals
      rw [hs] at hneg
      simp [hneg, hs]
  have hpoint : '.' ∉ d.signedWhole := by
    rw [signedWhole]
    split
    · rw [List.mem_cons, not_or]
      exact ⟨by decide, d.point_notMem_whole⟩
    · exact d.point_notMem_whole
  rw [yuanHalves, hrest]
  cases hf : d.frac with
  | none =>
      rw [point, List.append_nil, Text.cut_of_notMem hpoint]
      exact ⟨rfl, rfl⟩
  | some frac =>
      rw [point, Text.cut_append frac hpoint]
      exact ⟨rfl, rfl⟩

theorem clipFrac_getD (frac : Option Text) :
    clipFrac (frac.getD ['0', '0']) = clipFrac (frac.getD []) := by
  cases frac with
  | none => rfl
  | some frac => rfl

end Decimal
theorem int64_of_fits {n : ℤ} (h : Fits64 n) : int64 n = n := by
  obtain ⟨hlow, hhigh⟩ := h
  exact Int.bmod_eq_of_le_mul_two (by omega) (by omega)

/-- What the parser computes is the value, wrapped once. -/
theorem wrapped_yuanValue (neg : Bool) (w f : ℤ) :
    (if neg then int64 (-(int64 (w * 100 + f))) else int64 (w * 100 + f)) =
      int64 (yuanValue neg w f) := by
  cases neg with
  | true => exact Int.bmod_neg_bmod
  | false => rfl

variable {s : Text} {c : ℤ}

theorem IsAmount.halves (h : IsAmount s c) : ∃ w f, (yuanHalves s).1.parseInt = some w ∧
    (clipFrac (yuanHalves s).2).parseInt = some f ∧ yuanValue (yuanNegative s) w f = c := by
  obtain ⟨⟨hlow, hhigh⟩, d, htext, rfl⟩ := h
  obtain ⟨hwhole, hfrac⟩ := Decimal.halves_of_text htext
  have hneg := Decimal.negative_of_text htext
  have hmag := d.magnitude_eq
  rw [Decimal.cents] at hlow hhigh
  have hlt : Text.number d.whole < 2 ^ 63 := by
    split_ifs at hlow hhigh
    · omega
    · omega
  refine ⟨Text.number d.whole, Text.number (clipFrac (d.frac.getD [])), ?_, ?_, ?_⟩
  · rw [hwhole]
    exact d.parseInt_signedWhole hlt
  · rw [hfrac, Decimal.clipFrac_getD]
    exact d.parseInt_clip
  · rw [yuanValue, Decimal.cents, hmag]
    simp only [hneg]
    push_cast
    rfl

theorem IsAmount.parse (h : IsAmount s c) : parseYuan s = some c := by
  obtain ⟨w, f, hw, hf, hvalue⟩ := h.halves
  refine parseYuan_eq_some.mpr ⟨w, f, hw, hf, ?_⟩
  rw [wrapped_yuanValue, hvalue, int64_of_fits h.1]

theorem IsAmount.not_misread (h : IsAmount s c) : ¬ Misread s := by
  rintro ⟨w, f, hw, hf, hbad⟩
  obtain ⟨w', f', hw', hf', hvalue⟩ := h.halves
  rw [hw] at hw'
  rw [hf] at hf'
  obtain rfl := Option.some.inj hw'
  obtain rfl := Option.some.inj hf'
  obtain ⟨hfits, d, htext, -⟩ := h
  obtain ⟨hwhole, hfrac⟩ := Decimal.halves_of_text htext
  rcases hbad with ⟨hneg, hsign⟩ | ⟨x, hx, hdigit⟩ | hrange
  · -- after a minus sign the amount goes on with digits
    have hminus : d.sign = ['-'] := (Decimal.negative_of_text htext).mp hneg
    rw [hwhole, Decimal.signedWhole, if_neg (by rw [hminus]; decide)] at hsign
    rcases hsign with hsign | hsign
    · exact Text.head_of_digits d.whole_digits rfl hsign
    · exact Text.head_of_digits d.whole_digits rfl hsign
  · rw [hfrac] at hx
    cases hd : d.frac with
    | none =>
        rw [hd] at hx
        simp only [Option.getD_none, List.mem_cons, List.not_mem_nil, or_false, or_self] at hx
        rw [hx] at hdigit
        cases hdigit
    | some frac =>
        have hall := d.frac_digits
        rw [hd] at hx hall
        rw [hall x hx] at hdigit
        cases hdigit
  · rw [hvalue] at hrange
    exact hrange hfits

/-- The halves put together again, with the point if there is one. -/
theorem halves_append (s : Text) : ∃ frac : Option Text,
    (if yuanNegative s then s.trimSpace.tail else s.trimSpace) =
      (yuanHalves s).1 ++ Decimal.point frac ∧ (yuanHalves s).2 = frac.getD ['0', '0'] := by
  rw [yuanHalves]
  generalize (if yuanNegative s then s.trimSpace.tail else s.trimSpace) = t
  cases hcut : Text.cut '.' t with
  | none =>
      refine ⟨none, ?_, rfl⟩
      rw [Decimal.point, List.append_nil]
      rfl
  | some p => exact ⟨some p.2, Text.cut_eq_some hcut, rfl⟩

theorem trimSpace_of_negative (h : yuanNegative s = true) :
    s.trimSpace = '-' :: s.trimSpace.tail := by
  rw [yuanNegative, decide_eq_true_eq] at h
  obtain ⟨t, ht⟩ := List.head?_eq_some_iff.mp h
  rw [ht, List.tail_cons]

/-- A text that is taken without being misread is an amount. -/
theorem isAmount_of_parse (h : parseYuan s = some c) (hm : ¬ Misread s) : IsAmount s c := by
  obtain ⟨w, f, hw, hf, hc⟩ := parseYuan_eq_some.mp h
  rw [wrapped_yuanValue] at hc
  have hsign : yuanNegative s = true → (yuanHalves s).1.head? ≠ some '-' ∧
      (yuanHalves s).1.head? ≠ some '+' := by
    intro hneg
    constructor
    · exact fun hminus => hm ⟨w, f, hw, hf, Or.inl ⟨hneg, Or.inl hminus⟩⟩
    · exact fun hplus => hm ⟨w, f, hw, hf, Or.inl ⟨hneg, Or.inr hplus⟩⟩
  have hfrac : ∀ x ∈ (yuanHalves s).2, x.isDigit = true := by
    intro x hx
    by_contra hx'
    exact hm ⟨w, f, hw, hf, Or.inr (Or.inl ⟨x, hx, by simpa using hx'⟩)⟩
  have hfits : Fits64 (yuanValue (yuanNegative s) w f) := by
    by_contra hrange
    exact hm ⟨w, f, hw, hf, Or.inr (Or.inr hrange)⟩
  rw [int64_of_fits hfits] at hc
  obtain ⟨frac, happend, hsecond⟩ := halves_append s
  obtain ⟨digits, hne, hdigits, hread⟩ := Text.parseInt_eq_some hw
  have hfrac' : ∀ x ∈ frac.getD [], x.isDigit = true := by
    cases frac with
    | none => simp
    | some frac =>
        rw [hsecond] at hfrac
        exact hfrac
  -- the sign of the amount is the dropped minus sign, or the plus sign that stays with the digits
  obtain ⟨sign, hone, hnegative, htext, hvalue⟩ : ∃ sign : Text,
      (sign = [] ∨ sign = ['+'] ∨ sign = ['-']) ∧ (yuanNegative s = true ↔ sign = ['-']) ∧
        s.trimSpace = sign ++ digits ++ Decimal.point frac ∧ w = (Text.number digits : ℤ) := by
    cases hneg : yuanNegative s with
    | true =>
        obtain ⟨hminus, hplus⟩ := hsign hneg
        have hstart := trimSpace_of_negative hneg
        rw [if_pos hneg] at happend
        rcases hread with ⟨hfirst, -⟩ | ⟨hfirst | hfirst, hvalue⟩
        · rw [hfirst] at hminus
          exact (hminus rfl).elim
        · rw [hfirst] at hplus
          exact (hplus rfl).elim
        · refine ⟨['-'], Or.inr (Or.inr rfl), by simp, ?_, hvalue⟩
          rw [hstart, happend, hfirst]
          rfl
    | false =>
        rw [if_neg (by simp [hneg])] at happend
        rcases hread with ⟨hfirst, -⟩ | ⟨hfirst | hfirst, hvalue⟩
        · rw [yuanNegative, happend, hfirst] at hneg
          simp at hneg
        · refine ⟨['+'], Or.inr (Or.inl rfl), by simp, ?_, hvalue⟩
          rw [happend, hfirst]
          rfl
        · refine ⟨[], Or.inl rfl, by simp, ?_, hvalue⟩
          rw [happend, hfirst]
          rfl
  let d : Decimal := ⟨sign, digits, frac, hone, hne, hdigits, hfrac'⟩
  have hf' : f = (Text.number (clipFrac (frac.getD [])) : ℤ) := by
    rw [hsecond, Decimal.clipFrac_getD, d.parseInt_clip] at hf
    exact (Option.some.inj hf).symm
  have hcents : d.cents = c := by
    rw [hc, yuanValue, Decimal.cents, d.magnitude_eq, hvalue, hf']
    simp only [hnegative]
    push_cast
    rfl
  refine ⟨?_, d, htext, hcents⟩
  rw [hc]
  exact hfits

theorem parse_iff_isAmount : (∀ c, parseYuan s = some c ↔ IsAmount s c) ↔ ¬ Misread s := by
  constructor
  · rintro h hm
    obtain ⟨w, f, hw, hf, hbad⟩ := hm
    have hparse := parseYuan_eq_some.mpr ⟨w, f, hw, hf, rfl⟩
    have hamount := (h _).mp hparse
    exact hamount.not_misread ⟨w, f, hw, hf, hbad⟩
  · intro hm c
    constructor
    · exact fun h => isAmount_of_parse h hm
    · exact IsAmount.parse

/-! ### Printed amounts -/

namespace Text

theorem isDigit_digitChar {n : ℕ} (h : n < 10) : (Nat.digitChar n).isDigit = true := by
  interval_cases n <;> rfl

theorem digitChar_toNat {n : ℕ} (h : n < 10) : (Nat.digitChar n).toNat - 48 = n := by
  interval_cases n <;> rfl

theorem itoa_of_lt {n : ℕ} (h : n < 10) : itoa (n : ℤ) = [Nat.digitChar n] := by
  have hpos : ¬ (n : ℤ) < 0 := by omega
  rw [itoa, if_neg hpos, Int.natAbs_natCast, Nat.toDigits_of_lt_base h]

theorem itoa_natCast (n : ℕ) : itoa (n : ℤ) = Nat.toDigits 10 n := by
  have hpos : ¬ (n : ℤ) < 0 := by omega
  rw [itoa, if_neg hpos, Int.natAbs_natCast]

end Text

namespace Decimal

def ofCents (c : ℤ) : Decimal where
  sign := if c < 0 then ['-'] else []
  whole := Nat.toDigits 10 (c.natAbs / 100)
  frac := some [Nat.digitChar (c.natAbs % 100 / 10), Nat.digitChar (c.natAbs % 10)]
  sign_one := by
    split
    · exact Or.inr (Or.inr rfl)
    · exact Or.inl rfl
  whole_ne := Nat.toDigits_ne_nil
  whole_digits c hc := Nat.isDigit_of_mem_toDigits (by decide) (by decide) hc
  frac_digits x hx := by
    simp only [Option.getD_some, List.mem_cons, List.not_mem_nil, or_false] at hx
    rcases hx with rfl | rfl
    · exact Text.isDigit_digitChar (by omega)
    · exact Text.isDigit_digitChar (by omega)

theorem ofCents_magnitude (c : ℤ) : (ofCents c).magnitude = c.natAbs := by
  have hten : c.natAbs % 100 / 10 < 10 := by omega
  have hone : c.natAbs % 10 < 10 := by omega
  have hwhole : Text.number (ofCents c).whole = c.natAbs / 100 := Nat.ofDigitChars_ten_toDigits
  have hfrac : Text.number (clipFrac ((ofCents c).frac.getD [])) = c.natAbs % 100 := by
    change Text.number [Nat.digitChar (c.natAbs % 100 / 10), Nat.digitChar (c.natAbs % 10)] = _
    rw [Text.number_cons, Text.number_singleton, Text.digitChar_toNat hten,
      Text.digitChar_toNat hone, List.length_singleton]
    omega
  rw [magnitude_eq, hwhole, hfrac]
  omega

@[simp] theorem ofCents_cents (c : ℤ) : (ofCents c).cents = c := by
  have hsign : (ofCents c).sign = ['-'] ↔ c < 0 := by
    simp only [ofCents]
    split_ifs with hc <;> simp [hc]
  rw [cents, ofCents_magnitude]
  simp only [hsign]
  split_ifs with hc
  · omega
  · omega

theorem trimSpace_text (d : Decimal) : d.text.trimSpace = d.text := by
  refine Text.trimSpace_of_no_space (fun c hc => ?_)
  have hpoint : ∀ c ∈ point d.frac, Text.isSpace c = false := by
    intro c hc
    have hall := d.frac_digits
    cases hf : d.frac with
    | none =>
        rw [hf] at hc
        cases hc
    | some frac =>
        rw [hf] at hc hall
        rcases List.mem_cons.mp hc with rfl | hc
        · rfl
        · exact Text.isSpace_of_isDigit (hall c hc)
  rw [text, List.append_assoc] at hc
  rcases List.mem_append.mp hc with hsign | hrest
  · rcases d.sign_one with hs | hs | hs
    all_goals
      rw [hs] at hsign
      simp only [List.mem_cons, List.not_mem_nil, or_false] at hsign
    · rw [hsign]
      rfl
    · rw [hsign]
      rfl
  · rcases List.mem_append.mp hrest with hwhole | hfrac
    · exact Text.isSpace_of_isDigit (d.whole_digits c hwhole)
    · exact hpoint c hfrac

end Decimal

/-- Every amount but the smallest is printed with two places. -/
theorem yuan_eq_text (h : Fits64 c) (hmin : c ≠ -2 ^ 63) : yuan c = (Decimal.ofCents c).text := by
  have hv : (if c < 0 then int64 (-c) else c) = (c.natAbs : ℤ) := by
    obtain ⟨hlow, hhigh⟩ := h
    split
    · rw [int64_of_fits ⟨by omega, by omega⟩]
      omega
    · omega
  have hwhole : ((c.natAbs : ℤ)).tdiv 100 = ((c.natAbs / 100 : ℕ) : ℤ) := rfl
  have hten : (((c.natAbs : ℤ)).tmod 100).tdiv 10 = ((c.natAbs % 100 / 10 : ℕ) : ℤ) := rfl
  have hone : ((c.natAbs : ℤ)).tmod 10 = ((c.natAbs % 10 : ℕ) : ℤ) := rfl
  rw [yuan]
  simp only [hv]
  rw [hwhole, hten, hone, Text.itoa_natCast, Text.itoa_of_lt (by omega), Text.itoa_of_lt (by omega)]
  rfl

theorem isAmount_yuan (h : Fits64 c) (hmin : c ≠ -2 ^ 63) : IsAmount (yuan c) c := by
  refine ⟨h, Decimal.ofCents c, ?_, Decimal.ofCents_cents c⟩
  rw [yuan_eq_text h hmin, Decimal.trimSpace_text]

theorem parseYuan_yuan (h : Fits64 c) (hmin : c ≠ -2 ^ 63) : parseYuan (yuan c) = some c :=
  (isAmount_yuan h hmin).parse

/-- The parser reads exactly the amounts, but for the texts that it misreads, and it reads back
every amount that was printed. -/
theorem parseYuan_exact (s : Text) :
    ((∀ c, parseYuan s = some c ↔ IsAmount s c) ↔ ¬ Misread s) ∧
      ∀ c, Fits64 c → c ≠ -2 ^ 63 → parseYuan (yuan c) = some c := by
  constructor
  · exact parse_iff_isAmount
  · intro c h hmin
    exact parseYuan_yuan h hmin

theorem parseYuan_exact_price :
    (∀ c, parseYuan "+12.509".toList = some c ↔ IsAmount "+12.509".toList c) ∧
      parseYuan (yuan (-1250)) = some (-1250) := by
  obtain ⟨hexact, hprinted⟩ := parseYuan_exact "+12.509".toList
  constructor
  · have hamount : IsAmount "+12.509".toList 1250 := by
      refine ⟨⟨by decide, by decide⟩, ?_⟩
      exact ⟨⟨['+'], "12".toList, some "509".toList, Or.inr (Or.inl rfl), by decide,
        List.all_eq_true.mp rfl, List.all_eq_true.mp rfl⟩, by decide, by decide⟩
    exact hexact.mpr hamount.not_misread
  · exact hprinted (-1250) ⟨by decide, by decide⟩ (by decide)

/-- A second sign, a sign after the point, a letter after two places, and an amount whose cents do
not fit are all taken. -/
theorem parseYuan_takes_misread :
    (¬ ∀ c, parseYuan "--5".toList = some c ↔ IsAmount "--5".toList c) ∧
      (¬ ∀ c, parseYuan "1.-5".toList = some c ↔ IsAmount "1.-5".toList c) ∧
      (¬ ∀ c, parseYuan "1.50x".toList = some c ↔ IsAmount "1.50x".toList c) ∧
      ¬ ∀ c, parseYuan "92233720368547759".toList = some c ↔
      IsAmount "92233720368547759".toList c := by
  have hmisread : ∀ s, Misread s → ¬ ∀ c, parseYuan s = some c ↔ IsAmount s c :=
    fun s hm h => parse_iff_isAmount.mp h hm
  refine ⟨hmisread _ ?_, hmisread _ ?_, hmisread _ ?_, hmisread _ ?_⟩
  · exact ⟨-5, 0, by decide, by decide, Or.inl ⟨by decide, Or.inl (by decide)⟩⟩
  · exact ⟨1, -5, by decide, by decide, Or.inr (Or.inl ⟨'-', by decide, by decide⟩)⟩
  · exact ⟨1, 50, by decide, by decide, Or.inr (Or.inl ⟨'x', by decide, by decide⟩)⟩
  · refine ⟨92233720368547759, 0, by decide, by decide, Or.inr (Or.inr ?_)⟩
    rintro ⟨-, hhigh⟩
    revert hhigh
    decide

end Dufaka
