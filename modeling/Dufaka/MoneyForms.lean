import Dufaka.PricePipeline

/-!
# Amounts in the owner's forms

The goods and the coupon form take an amount by a pattern and a length test on the digits without
their leading zeros, and keep the zeros in the text they store. The value of an accepted amount is
below a hundred million yuan, the column holds it to the cent, and a quote computes with just that.
-/

namespace Dufaka
open Relational

/-! ### The pattern -/

namespace Decimal

def value (d : Decimal) : ℚ :=
  (if d.sign = ['-'] then -1 else 1) * Text.number d.digits / 10 ^ (d.frac.getD []).length

structure IsPrice (d : Decimal) : Prop where
  unsigned : d.sign = []
  places : ∀ f, d.frac = some f → f.length = 1 ∨ f.length = 2

variable {d : Decimal}

theorem cents_of_unsigned (h : d.sign = []) : d.cents = d.magnitude := by
  rw [cents, h]
  rfl

theorem IsPrice.text_eq (hd : d.IsPrice) : d.text = d.whole ++ point d.frac := by
  rw [text, hd.unsigned]
  rfl

theorem IsPrice.cut (hd : d.IsPrice) :
    d.text.cut '.' = d.frac.map (fun f => (d.whole, f)) := by
  rw [hd.text_eq]
  cases hf : d.frac with
  | none =>
      rw [point, List.append_nil, Text.cut_of_notMem d.point_notMem_whole]
      rfl
  | some f =>
      rw [point, Text.cut_append f d.point_notMem_whole]
      rfl

theorem IsPrice.frac_le (hd : d.IsPrice) : (d.frac.getD []).length ≤ 2 := by
  cases hf : d.frac with
  | none => exact Nat.zero_le 2
  | some f =>
      rw [Option.getD_some]
      rcases hd.places f hf with h | h
      · omega
      · omega

/-- A price is its number of cents. -/
theorem IsPrice.cents_eq (hd : d.IsPrice) : (d.cents : ℚ) = d.value * 100 := by
  have hlen := hd.frac_le
  have hexact : d.magnitude * 10 ^ (d.frac.getD []).length = Text.number d.digits * 100 := by
    have hdvd : 10 ^ (d.frac.getD []).length ∣ Text.number d.digits * 100 := by
      have hpow : 10 ^ (d.frac.getD []).length ∣ 10 ^ 2 := Nat.pow_dvd_pow 10 hlen
      exact hpow.trans (Nat.dvd_mul_left _ _)
    exact Nat.div_mul_cancel hdvd
  have hpos : (10 : ℚ) ^ (d.frac.getD []).length ≠ 0 := by positivity
  have hcast : (d.magnitude : ℚ) * 10 ^ (d.frac.getD []).length = Text.number d.digits * 100 := by
    exact_mod_cast hexact
  rw [cents_of_unsigned hd.unsigned, value, hd.unsigned]
  simp only [List.nil_eq, List.cons_ne_nil, if_false, one_mul]
  rw [div_mul_eq_mul_div, eq_div_iff hpos, ← hcast]
  push_cast
  rfl

/-- The digits before the point decide how large a price is. -/
theorem IsPrice.value_lt_iff (hd : d.IsPrice) :
    d.value < 100000000 ↔ Text.number d.whole < 10 ^ 8 := by
  have hfrac : Text.number (d.frac.getD []) < 10 ^ (d.frac.getD []).length :=
    Text.number_lt d.frac_digits
  have hpos : (0 : ℚ) < 10 ^ (d.frac.getD []).length := by positivity
  have hvalue : d.value < 100000000 ↔
      Text.number d.digits < 10 ^ 8 * 10 ^ (d.frac.getD []).length := by
    rw [value, hd.unsigned]
    simp only [List.nil_eq, List.cons_ne_nil, if_false, one_mul]
    rw [div_lt_iff₀ hpos]
    norm_num
    exact_mod_cast Iff.rfl
  rw [hvalue, digits, Text.number_append]
  constructor
  · intro h
    by_contra hbig
    have hle := Nat.mul_le_mul_right (10 ^ (d.frac.getD []).length) (not_lt.mp hbig)
    omega
  · intro h
    calc Text.number d.whole * 10 ^ (d.frac.getD []).length + Text.number (d.frac.getD [])
        < Text.number d.whole * 10 ^ (d.frac.getD []).length + 10 ^ (d.frac.getD []).length :=
          Nat.add_lt_add_left hfrac _
      _ = (Text.number d.whole + 1) * 10 ^ (d.frac.getD []).length := (Nat.succ_mul _ _).symm
      _ ≤ 10 ^ 8 * 10 ^ (d.frac.getD []).length := Nat.mul_le_mul_right _ h

end Decimal

theorem moneyMatches_of_price {d : Decimal} (hd : d.IsPrice) : moneyMatches d.text = true := by
  have hwhole : d.whole.all Char.isDigit = true := List.all_eq_true.mpr d.whole_digits
  rw [moneyMatches, hd.cut]
  cases hf : d.frac with
  | none => simp [hd.text_eq, hf, Decimal.point, d.whole_ne, hwhole]
  | some f =>
      have hfrac : f.all Char.isDigit = true := by
        have hall := d.frac_digits
        rw [hf] at hall
        exact List.all_eq_true.mpr hall
      simp [d.whole_ne, hwhole, hfrac, hd.places f hf]

theorem price_of_moneyMatches {s : Text} (h : moneyMatches s = true) :
    ∃ d : Decimal, d.IsPrice ∧ s = d.text := by
  rw [moneyMatches] at h
  cases hcut : s.cut '.' with
  | none =>
      simp only [hcut, Bool.and_eq_true, decide_eq_true_eq, and_true] at h
      obtain ⟨hne, hdigits⟩ := h
      refine ⟨⟨[], s, none, Or.inl rfl, hne, List.all_eq_true.mp hdigits, by simp⟩, ⟨rfl, ?_⟩, ?_⟩
      · intro f hf
        cases hf
      · exact (List.append_nil s).symm
  | some p =>
      obtain ⟨w, f⟩ := p
      simp only [hcut, Bool.and_eq_true, Bool.or_eq_true, decide_eq_true_eq] at h
      obtain ⟨⟨hne, hdigits⟩, hlen, hfrac⟩ := h
      refine ⟨⟨[], w, some f, Or.inl rfl, hne, List.all_eq_true.mp hdigits,
        List.all_eq_true.mp hfrac⟩, ⟨rfl, ?_⟩, ?_⟩
      · intro f' hf
        obtain rfl := Option.some.inj hf
        exact hlen
      · exact Text.cut_eq_some hcut

/-! ### The returned text -/

namespace Decimal

def filled : Option Text → Text
  | none => ['0', '0']
  | some f => if f.length = 1 then f ++ ['0'] else f

theorem IsPrice.filled_eq {d : Decimal} (hd : d.IsPrice) :
    filled d.frac = clipFrac (d.frac.getD []) := by
  cases hf : d.frac with
  | none => rfl
  | some f =>
      rcases hd.places f hf with h | h
      · obtain ⟨a, rfl⟩ := List.length_eq_one_iff.mp h
        rfl
      · obtain ⟨a, b, rfl⟩ := List.length_eq_two.mp h
        rfl

def filledOut (d : Decimal) : Decimal where
  sign := []
  whole := d.whole
  frac := some (clipFrac (d.frac.getD []))
  sign_one := Or.inl rfl
  whole_ne := d.whole_ne
  whole_digits := d.whole_digits
  frac_digits := d.clip_digits

theorem IsPrice.filledOut_cents {d : Decimal} (hd : d.IsPrice) : d.filledOut.cents = d.cents := by
  have hclip : clipFrac (clipFrac (d.frac.getD [])) = clipFrac (d.frac.getD []) := by
    have hlen := d.clip_length
    rw [clipFrac, ← hlen, List.take_left]
  rw [cents_of_unsigned hd.unsigned, cents_of_unsigned (d := d.filledOut) rfl, magnitude_eq,
    magnitude_eq]
  change ((Text.number d.whole * 100 +
    Text.number (clipFrac (clipFrac (d.frac.getD []))) : ℕ) : ℤ) = _
  rw [hclip]

theorem IsPrice.cents_range {d : Decimal} (hd : d.IsPrice) (h : Text.number d.whole < 10 ^ 8) :
    0 ≤ d.cents ∧ d.cents ≤ maxCents := by
  have hfrac := Text.number_lt d.clip_digits
  rw [d.clip_length] at hfrac
  have hmag := d.magnitude_eq
  rw [cents_of_unsigned hd.unsigned, maxCents]
  omega

end Decimal

section Money
variable {s t : Text} {allowEmpty : Bool} {d : Decimal}

theorem money_of_price (hd : d.IsPrice) (hs : s.trimSpace = d.text) :
    money s allowEmpty = if Text.number d.whole < 10 ^ 8 then
      .ok (d.whole ++ '.' :: clipFrac (d.frac.getD [])) else .error "超出范围".toList := by
  have hne : d.text ≠ [] := by
    rw [hd.text_eq]
    simp [d.whole_ne]
  have hparts : (d.text.cut '.').getD (d.text, "00".toList) = (d.whole,
      d.frac.getD "00".toList) := by
    rw [hd.cut, hd.text_eq]
    cases d.frac with
    | none => simp [Decimal.point]
    | some f => rfl
  have hfrac : (if (d.frac.getD "00".toList).length = 1 then d.frac.getD "00".toList ++ ['0']
      else d.frac.getD "00".toList) = clipFrac (d.frac.getD []) := by
    rw [← hd.filled_eq]
    cases d.frac with
    | none => rfl
    | some f => rfl
  have htrimmed : (if Text.dropZeros d.whole = [] then ['0']
      else Text.dropZeros d.whole).length > 8 ↔ ¬ Text.number d.whole < 10 ^ 8 := by
    rw [← Text.length_dropZeros_le_iff d.whole_digits 8, not_le]
    split_ifs with hzero
    · simp [hzero]
    · exact Iff.rfl
  rw [money, hs]
  simp only [hne, if_false, moneyMatches_of_price hd, Bool.not_true, Bool.false_eq_true, hparts,
    hfrac]
  rw [Text.dropZeros] at htrimmed
  by_cases hlt : Text.number d.whole < 10 ^ 8
  · rw [if_pos hlt, if_neg (fun h => htrimmed.mp h hlt)]
  · rw [if_neg hlt, if_pos (htrimmed.mpr hlt)]

/-- What `money` accepts besides a blank field. -/
theorem price_of_money (h : money s allowEmpty = .ok t) (hblank : s.trimSpace ≠ []) :
    ∃ d : Decimal, d.IsPrice ∧ s.trimSpace = d.text ∧ Text.number d.whole < 10 ^ 8 ∧
      t = d.whole ++ '.' :: clipFrac (d.frac.getD []) := by
  have hmatch : moneyMatches s.trimSpace = true := by
    rw [money] at h
    simp only [hblank, if_false] at h
    split at h
    · cases h
    · rename_i hmatch
      simpa using hmatch
  obtain ⟨d, hd, hs⟩ := price_of_moneyMatches hmatch
  rw [money_of_price hd hs] at h
  split_ifs at h with hlt
  exact ⟨d, hd, hs, hlt, (Except.ok.inj h).symm⟩

/-- The parser reads the returned text as the amount that was entered. -/
theorem parseYuan_filled (hd : d.IsPrice) (hlt : Text.number d.whole < 10 ^ 8) :
    parseYuan (d.whole ++ '.' :: clipFrac (d.frac.getD [])) = some d.cents := by
  have hrange := hd.cents_range hlt
  have hin : InColumn d.cents := ⟨(by decide : -maxCents ≤ 0).trans hrange.1, hrange.2⟩
  have hamount : IsAmount d.filledOut.text d.cents := by
    refine ⟨hin.fits.1, d.filledOut, ?_, hd.filledOut_cents⟩
    exact d.filledOut.trimSpace_text
  exact hamount.parse

/-- The column holds the returned text as it is, with nothing to round. -/
theorem columnTakes_filled (hd : d.IsPrice) (hlt : Text.number d.whole < 10 ^ 8) :
    ColumnTakes (d.whole ++ '.' :: clipFrac (d.frac.getD [])) d.cents := by
  have hrange := hd.cents_range hlt
  have hrounded : d.filledOut.rounded = d.filledOut.magnitude := by
    have hlen : (d.filledOut.frac.getD []).length = 2 := d.clip_length
    rw [Decimal.rounded, Decimal.magnitude, hlen]
    omega
  refine ⟨⟨(by decide : -maxCents ≤ 0).trans hrange.1, hrange.2⟩, d.filledOut, rfl, ?_⟩
  have hcents := Decimal.cents_of_unsigned (d := d.filledOut) rfl
  rw [← hd.filledOut_cents, hcents, hrounded]
  rfl

def FormAmount (s : Text) (d : Decimal) : Prop :=
  d.IsPrice ∧ s.trimSpace = d.text ∧ d.value < 100000000

theorem FormAmount.money_eq (h : FormAmount s d) :
    money s allowEmpty = .ok (d.whole ++ '.' :: clipFrac (d.frac.getD [])) := by
  obtain ⟨hd, hs, hvalue⟩ := h
  rw [money_of_price hd hs, if_pos (hd.value_lt_iff.mp hvalue)]

/-- The fields `money` accepts: the amounts, and a blank one where the form allows it. -/
theorem money_ok_iff : (∃ t, money s allowEmpty = .ok t) ↔
    (∃ d, FormAmount s d) ∨ allowEmpty = true ∧ s.trimSpace = [] := by
  constructor
  · rintro ⟨t, ht⟩
    by_cases hblank : s.trimSpace = []
    · right
      rw [money] at ht
      cases allowEmpty with
      | true => exact ⟨rfl, hblank⟩
      | false => simp [hblank] at ht
    · left
      obtain ⟨d, hd, hs, hlt, -⟩ := price_of_money ht hblank
      exact ⟨d, hd, hs, hd.value_lt_iff.mpr hlt⟩
  · rintro (⟨d, hd⟩ | ⟨rfl, hblank⟩)
    · exact ⟨_, hd.money_eq⟩
    · exact ⟨"0.00".toList, by simp [money, hblank]⟩

theorem FormAmount.exact (h : FormAmount s d) (ht : money s allowEmpty = .ok t) :
    parseYuan t = some d.cents ∧ ColumnTakes t d.cents ∧ (d.cents : ℚ) = d.value * 100 ∧
      0 ≤ d.cents ∧ d.cents ≤ maxCents := by
  rw [h.money_eq] at ht
  obtain rfl := Except.ok.inj ht
  obtain ⟨hd, -, hvalue⟩ := h
  have hlt := hd.value_lt_iff.mp hvalue
  exact ⟨parseYuan_filled hd hlt, columnTakes_filled hd hlt, hd.cents_eq, hd.cents_range hlt⟩

/-- A required field that was accepted is an amount. -/
theorem money_required (ht : money s false = .ok t) : ∃ d, FormAmount s d := by
  rcases money_ok_iff.mp ⟨t, ht⟩ with hd | ⟨hfalse, -⟩
  · exact hd
  · cases hfalse

end Money

/-! ### The goods and the coupon form -/

theorem labelled_ok {label t : Text} {e : Except Text Text} :
    labelled label e = .ok t ↔ e = .ok t := by
  cases e with
  | ok s => exact Iff.rfl
  | error msg => simp [labelled]

theorem readGoodForm_actual {r : GoodInput} {f : GoodForm} (h : readGoodForm r = .ok f) :
    money r.actual false = .ok f.actual := by
  simp only [readGoodForm, except_bind_ok] at h
  obtain ⟨_, -, _, -, actual, hactual, _, -, _, -, _, -, _, -, _, -, _, -, h⟩ := h
  split at h
  · cases h
  · rw [← Except.ok.inj h]
    exact labelled_ok.mp hactual

theorem readCoupon_discount {r : CouponInput} {f : CouponForm} (h : readCoupon r = .ok f) :
    money r.discount false = .ok f.discount := by
  rw [readCoupon, except_bind_ok] at h
  obtain ⟨discount, hdiscount, h⟩ := h
  simp only [] at h
  split at h
  · cases h
  split at h
  · cases h
  split at h
  · cases h
  split at h
  · cases h
  split at h
  · cases h
  obtain ⟨goods, -, h⟩ := except_bind_ok.mp h
  rw [← Except.ok.inj h]
  exact labelled_ok.mp hdiscount

/-- One piece at a price of the column can always be quoted. -/
theorem quote_one {unit : ℤ} (hunit : 0 ≤ unit) (htop : unit ≤ maxCents) (coupon raw : Text) :
    ∃ q, quote unit 1 coupon raw = some q ∧ q.total = unit := by
  have hone : unit * max 1 1 = unit := by
    rw [max_self, mul_one]
  rw [quote_eq hunit, hone, if_pos htop]
  exact ⟨_, rfl, rfl⟩

theorem quote_couponOff {unit qty : ℤ} {coupon raw : Text} {q : Quote}
    (h : quote unit qty coupon raw = some q) :
    q.couponOff = couponOff coupon ∧ q.actual = max (q.total - q.couponOff - q.wholesaleOff) 0 := by
  rw [quote] at h
  simp only at h
  split at h
  · cases h
  · obtain rfl := Option.some.inj h
    exact ⟨rfl, rfl⟩

/-- The owner's amounts are exact on the storefront: what the forms accept, what it is worth, and
what a quote makes of it. -/
theorem money_exact :
    (∀ s allowEmpty, (∃ t, money s allowEmpty = .ok t) ↔
      (∃ d, FormAmount s d) ∨ allowEmpty = true ∧ s.trimSpace = []) ∧
    (∀ s allowEmpty t d, money s allowEmpty = .ok t → FormAmount s d →
      ∃ c : ℤ, parseYuan t = some c ∧ ColumnTakes t c ∧ (c : ℚ) = d.value * 100 ∧
        0 ≤ c ∧ c ≤ 9999999999) ∧
    (∀ s t, money s true = .ok t → s.trimSpace = [] → parseYuan t = some 0) ∧
    (∀ r f deleted coupon raw, readGoodForm r = .ok f →
      ∃ (d : Decimal) (unit : ℤ) (q : Quote), FormAmount r.actual d ∧ (unit : ℚ) = d.value * 100 ∧
        parseYuan f.actual = some unit ∧ (f.row deleted).actualPrice = unit ∧
        parseYuan (columnText unit) = some unit ∧ quote unit 1 coupon raw = some q ∧
        q.total = unit) ∧
    ∀ r f deleted unit qty raw q, readCoupon r = .ok f →
      quote unit qty (columnText (f.row deleted).discount) raw = some q →
      ∃ d, FormAmount r.discount d ∧ (q.couponOff : ℚ) = d.value * 100 ∧
        q.actual = max (q.total - q.couponOff - q.wholesaleOff) 0 := by
  refine ⟨fun s allowEmpty => money_ok_iff, ?_, ?_, ?_, ?_⟩
  · intro s allowEmpty t d ht hd
    exact ⟨d.cents, hd.exact ht⟩
  · intro s t ht hblank
    rw [money] at ht
    simp only [hblank, if_true] at ht
    obtain rfl := Except.ok.inj ht
    decide
  · intro r f deleted coupon raw h
    have hmoney := readGoodForm_actual h
    obtain ⟨d, hd⟩ := money_required hmoney
    obtain ⟨hparse, -, hexact, hzero, htop⟩ := hd.exact hmoney
    obtain ⟨q, hq, htotal⟩ := quote_one hzero htop coupon raw
    have hprice : (f.row deleted).actualPrice = d.cents := by
      change numeric f.actual = d.cents
      rw [numeric, hparse]
      rfl
    have hin : InColumn d.cents := ⟨(by decide : -maxCents ≤ 0).trans hzero, htop⟩
    exact ⟨d, d.cents, q, hd, hexact, hparse, hprice, parseYuan_columnText hin, hq, htotal⟩
  · intro r f deleted unit qty raw q h hq
    have hmoney := readCoupon_discount h
    obtain ⟨d, hd⟩ := money_required hmoney
    obtain ⟨hparse, -, hexact, hzero, htop⟩ := hd.exact hmoney
    have hdiscount : (f.row deleted).discount = d.cents := by
      change numeric f.discount = d.cents
      rw [numeric, hparse]
      rfl
    obtain ⟨hoff, hactual⟩ := quote_couponOff hq
    rw [hdiscount, couponOff_columnText hzero htop] at hoff
    refine ⟨d, hd, ?_, hactual⟩
    rw [hoff]
    exact hexact

def zerosGood : GoodInput where
  groupId := "1".toList
  name := "a".toList
  desc := "a".toList
  keywords := "a".toList
  picture := []
  retail := []
  actual := " 00012.5 ".toList
  inStock := []
  sales := []
  ord := []
  buyLimit := []
  prompt := []
  detail := []
  type := "1".toList
  wholesale := []
  other := []
  hook := []
  isOpen := "1".toList

def pointCoupon : CouponInput := ⟨"a".toList, "0.5".toList, "1".toList, [], [], []⟩

theorem money_exact_zeros :
    (∃ d c, FormAmount " 00012.5 ".toList d ∧ parseYuan "00012.50".toList = some c ∧
      (c : ℚ) = d.value * 100) ∧
    (∃ q, quote 1250 1 "0.50".toList [] = some q ∧ q.total = 1250) ∧
    ∃ d q, FormAmount "0.5".toList d ∧ quote 1250 1 (columnText 50) [] = some q ∧
      (q.couponOff : ℚ) = d.value * 100 := by
  obtain ⟨haccepts, hexact, -, hgoods, hcoupon⟩ := money_exact
  have hmoney : money " 00012.5 ".toList false = .ok "00012.50".toList := by decide
  have hread : ∃ f, readGoodForm zerosGood = .ok f ∧ (f.row false).actualPrice = 1250 :=
    ⟨_, rfl, by decide⟩
  have hcode : ∃ f, readCoupon pointCoupon = .ok f ∧ (f.row false).discount = 50 :=
    ⟨_, rfl, by decide⟩
  refine ⟨?_, ?_, ?_⟩
  · rcases (haccepts " 00012.5 ".toList false).mp ⟨_, hmoney⟩ with ⟨d, hd⟩ | ⟨hfalse, -⟩
    · obtain ⟨c, hparse, -, hvalue, -⟩ := hexact _ _ _ d hmoney hd
      exact ⟨d, c, hd, hparse, hvalue⟩
    · cases hfalse
  · obtain ⟨f, hf, hprice⟩ := hread
    obtain ⟨-, unit, q, -, -, -, hunit, -, hq, htotal⟩ := hgoods _ f false "0.50".toList [] hf
    obtain rfl := hprice.symm.trans hunit
    exact ⟨q, hq, htotal⟩
  · obtain ⟨f, hf, hdiscount⟩ := hcode
    obtain ⟨d, hd, hoff, -⟩ := hcoupon _ f false 1250 1 [] ⟨1250, 50, 0, 1200⟩ hf (by
      rw [hdiscount]
      decide)
    exact ⟨d, _, hd, by decide, hoff⟩

end Dufaka
