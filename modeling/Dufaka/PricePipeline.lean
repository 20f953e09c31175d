import Dufaka.Operations
import Dufaka.WholesaleTiers
import Dufaka.YuanText

/-!
# The price pipeline

From the unit price and the coupon amount in the database to the five money columns of a stored
order. The pipeline is restated with a test for overflow at every operation on `int64`, and it never
fails one. The columns are `numeric(10,2)`: the database rounds a decimal text to two places,
refuses what has more than eight digits before the point, and prints two places.
-/

namespace Dufaka
open Relational

/-! ### The money column -/

/-- What a `numeric(10,2)` column can hold. -/
def InColumn (c : ℤ) : Prop := -maxCents ≤ c ∧ c ≤ maxCents

namespace Decimal

/-- The absolute value in cents, rounded with ties away from zero. -/
def rounded (d : Decimal) : ℕ :=
  (Text.number d.digits * 200 + 10 ^ (d.frac.getD []).length) /
    (2 * 10 ^ (d.frac.getD []).length)

end Decimal

def ColumnTakes (s : Text) (c : ℤ) : Prop :=
  InColumn c ∧ ∃ d : Decimal, s = d.text ∧
    c = if d.sign = ['-'] then -(d.rounded : ℤ) else d.rounded

/-- The text of a column, as `::text` prints it. -/
def columnText (c : ℤ) : Text := (Decimal.ofCents c).text

theorem InColumn.fits {c : ℤ} (h : InColumn c) : Fits64 c ∧ c ≠ -2 ^ 63 := by
  obtain ⟨hlow, hhigh⟩ := h
  rw [maxCents] at hlow hhigh
  refine ⟨⟨by omega, by omega⟩, ?_⟩
  omega

theorem yuan_eq_columnText {c : ℤ} (h : InColumn c) : yuan c = columnText c :=
  yuan_eq_text h.fits.1 h.fits.2

namespace Decimal

theorem number_digits_ofCents (c : ℤ) : Text.number (ofCents c).digits = c.natAbs := by
  have hmag := ofCents_magnitude c
  have hlen : ((ofCents c).frac.getD []).length = 2 := rfl
  rw [magnitude, hlen] at hmag
  omega

theorem ofCents_rounded (c : ℤ) : (ofCents c).rounded = c.natAbs := by
  have hlen : ((ofCents c).frac.getD []).length = 2 := rfl
  rw [rounded, hlen, number_digits_ofCents]
  omega

end Decimal

theorem columnTakes_yuan {c : ℤ} (h : InColumn c) : ColumnTakes (yuan c) c := by
  refine ⟨h, Decimal.ofCents c, yuan_eq_columnText h, ?_⟩
  have hcents := Decimal.ofCents_cents c
  rw [Decimal.cents, Decimal.ofCents_magnitude] at hcents
  rw [Decimal.ofCents_rounded]
  exact hcents.symm

theorem parseYuan_columnText {c : ℤ} (h : InColumn c) : parseYuan (columnText c) = some c := by
  rw [← yuan_eq_columnText h]
  exact parseYuan_yuan h.fits.1 h.fits.2

/-! ### The quote -/

def couponOff (coupon : Text) : ℤ := if coupon.isBlank then 0 else max ((parseYuan coupon).getD 0) 0

theorem couponOff_nonneg (coupon : Text) : 0 ≤ couponOff coupon := by
  rw [couponOff]
  split_ifs
  · exact le_rfl
  · exact le_max_right _ _

section Quote
variable {raw : Text} {qty : ℤ} {unit k : ℤ}

theorem wholesaleOff_range (raw : Text) (hqty : 1 ≤ qty) (hunit : 0 ≤ unit)
    (htotal : unit * qty ≤ maxCents) :
    wholesaleOff raw qty unit = 0 ∨
      0 < wholesaleOff raw qty unit ∧ wholesaleOff raw qty unit < unit * qty := by
  by_cases hbest : ∃ price, BestTier (wholesaleTiers raw) qty price ∧ price * qty ≤ maxCents ∧
      price * qty < unit * qty
  · obtain ⟨price, hbest, hin, hlow⟩ := hbest
    have hprice : 0 < price := hbest.pos
    have hnext : 0 < price * qty := Int.mul_pos hprice (by omega)
    rw [wholesaleOff_of_best hqty hunit htotal hbest hin hlow]
    exact Or.inr ⟨sub_pos.mpr hlow, sub_lt_self _ hnext⟩
  · exact Or.inl (wholesaleOff_of_no_best hqty hunit hbest)

theorem couponOff_columnText (h : 0 ≤ k) (hk : k ≤ maxCents) :
    couponOff (columnText k) = k := by
  have hin : InColumn k := ⟨(by decide : -maxCents ≤ 0).trans h, hk⟩
  have hblank : (columnText k).isBlank = false := by
    rw [Text.isBlank, columnText, Decimal.trimSpace_text, decide_eq_false_iff_not, Decimal.text]
    simp [(Decimal.ofCents k).whole_ne]
  rw [couponOff, hblank, parseYuan_columnText hin]
  exact max_eq_left h

theorem quote_eq (hunit : 0 ≤ unit) (coupon : Text) :
    quote unit qty coupon raw =
      if unit * max qty 1 ≤ maxCents then
        some ⟨unit * max qty 1, couponOff coupon, wholesaleOff raw (max qty 1) unit,
          max (unit * max qty 1 - couponOff coupon - wholesaleOff raw (max qty 1) unit) 0⟩
      else none := by
  have hmax : (if qty < 1 then 1 else qty) = max qty 1 := by
    split_ifs with h
    · exact (max_eq_right (by omega)).symm
    · exact (max_eq_left (by omega)).symm
  rw [quote]
  simp only [hmax, mul_eq hunit (le_max_right qty 1)]
  by_cases hin : unit * max qty 1 ≤ maxCents
  · rw [if_pos hin, if_pos hin]
    rfl
  · rw [if_neg hin, if_neg hin]

end Quote

/-! ### No overflow -/

inductive Overflow where
  | overflow

def int64Result (n : ℤ) : Except Overflow ℤ :=
  if -2 ^ 63 ≤ n ∧ n < 2 ^ 63 then .ok n else .error .overflow

def mulChecked (unit : Cents) (qty : ℤ) : Except Overflow (Option Cents) :=
  if qty < 0 ∨ unit < 0 then .ok none
  else if qty = 0 ∨ unit = 0 then .ok (some 0)
  else do
    let bound ← int64Result ((2 ^ 63 - 1) / unit)
    if qty > bound then .ok none
    else do
      let v ← int64Result (unit * qty)
      if v > maxCents then .ok none else .ok (some v)

def wholesaleOffChecked (raw : Text) (qty : ℤ) (unit : Cents) : Except Overflow Cents :=
  if qty ≤ 0 ∨ raw = [] then .ok 0
  else match (raw.split '\n').foldl (wholesaleLine qty) none with
    | none => .ok 0
    | some (best, _) => do
        let total ← mulChecked unit qty
        let next ← mulChecked best qty
        match total, next with
        | some total, some next => if next ≥ total then .ok 0 else int64Result (total - next)
        | _, _ => .ok 0

def quoteChecked (unit : Cents) (qty : ℤ) (coupon wholesaleRaw : Text) :
    Except Overflow (Option Quote) := do
  let qty := if qty < 1 then 1 else qty
  match ← mulChecked unit qty with
  | none => .ok none
  | some total => do
      let woff ← wholesaleOffChecked wholesaleRaw qty unit
      let coff := if coupon.isBlank then 0 else max ((parseYuan coupon).getD 0) 0
      let less ← int64Result (total - coff)
      let actual ← int64Result (less - woff)
      .ok (some ⟨total, coff, woff, max actual 0⟩)

theorem int64Result_of_fits {n : ℤ} (h : Fits64 n) : int64Result n = .ok n := if_pos h

theorem mulChecked_eq (unit qty : ℤ) :
    mulChecked unit qty = .ok (mul unit qty) := by
  rw [mulChecked, mul]
  by_cases hneg : qty < 0 ∨ unit < 0
  · rw [if_pos hneg, if_pos hneg]
  · rw [if_neg hneg, if_neg hneg]
    by_cases hzero : qty = 0 ∨ unit = 0
    · rw [if_pos hzero, if_pos hzero]
    · rw [if_neg hzero, if_neg hzero]
      rw [not_or] at hneg hzero
      have hpos : 0 < unit := lt_of_le_of_ne (not_lt.mp hneg.2) (Ne.symm hzero.2)
      have hqty : 0 < qty := by omega
      have hbound : Fits64 ((2 ^ 63 - 1) / unit) := by
        have hle : (2 ^ 63 - 1) / unit ≤ 2 ^ 63 - 1 := Int.ediv_le_self _ (by decide)
        have hnonneg : 0 ≤ (2 ^ 63 - 1) / unit := Int.ediv_nonneg (by decide) (le_of_lt hpos)
        exact ⟨by omega, by omega⟩
      rw [int64Result_of_fits hbound]
      change (if qty > (2 ^ 63 - 1) / unit then _ else _) = _
      by_cases hdiv : qty > (2 ^ 63 - 1) / unit
      · rw [if_pos hdiv, if_pos hdiv]
      · rw [if_neg hdiv, if_neg hdiv]
        -- the division test keeps the product within the range
        have hle : qty * unit ≤ 2 ^ 63 - 1 := (Int.le_ediv_iff_mul_le hpos).mp (not_lt.mp hdiv)
        have hprod : Fits64 (unit * qty) := by
          have hnonneg : 0 < unit * qty := Int.mul_pos hpos hqty
          rw [mul_comm] at hle
          exact ⟨by omega, by omega⟩
        rw [int64Result_of_fits hprod]
        change (if unit * qty > maxCents then _ else _) = _
        split_ifs <;> rfl

theorem mul_range {unit qty v : ℤ} (h : mul unit qty = some v) : 0 ≤ v ∧ v ≤ maxCents := by
  rw [mul] at h
  split_ifs at h with hneg hzero hdiv hbig
  · obtain rfl := Option.some.inj h
    exact ⟨le_rfl, by decide⟩
  · obtain rfl := Option.some.inj h
    rw [not_or, not_lt, not_lt] at hneg
    exact ⟨Int.mul_nonneg hneg.2 hneg.1, not_lt.mp hbig⟩

theorem fits_of_column {n : ℤ} (hlow : -(2 * maxCents) ≤ n) (hhigh : n ≤ maxCents) : Fits64 n := by
  rw [maxCents] at hlow hhigh
  exact ⟨by omega, by omega⟩

theorem wholesaleOffChecked_eq (raw : Text) (qty unit : ℤ) :
    wholesaleOffChecked raw qty unit = .ok (wholesaleOff raw qty unit) := by
  rw [wholesaleOffChecked, wholesaleOff]
  by_cases hskip : qty ≤ 0 ∨ raw = []
  · rw [if_pos hskip, if_pos hskip]
  · rw [if_neg hskip, if_neg hskip]
    cases (raw.split '\n').foldl (wholesaleLine qty) none with
    | none => rfl
    | some best =>
        obtain ⟨best, need⟩ := best
        change (mulChecked unit qty >>= fun total => mulChecked best qty >>= fun next => _) = _
        rw [mulChecked_eq, mulChecked_eq]
        cases htotal : mul unit qty with
        | none => rfl
        | some total =>
            cases hnext : mul best qty with
            | none =>
                simp only [hnext]
                rfl
            | some next =>
                simp only [hnext]
                change (if next ≥ total then _ else _) = Except.ok (if next ≥ total then _ else _)
                obtain ⟨hzero, htop⟩ := mul_range htotal
                obtain ⟨hzero', htop'⟩ := mul_range hnext
                have hfits : Fits64 (total - next) := by
                  refine fits_of_column ?_ ?_
                  · rw [maxCents] at htop' ⊢
                    omega
                  · omega
                rw [int64Result_of_fits hfits]
                split_ifs <;> rfl

/-- No operation of the pipeline overflows, whatever prices the wholesale text holds. -/
theorem quoteChecked_eq {unit : ℤ} (qty : ℤ) {coupon : Text} (raw : Text) (hunit : 0 ≤ unit)
    (hcoupon : couponOff coupon ≤ maxCents) :
    quoteChecked unit qty coupon raw = .ok (quote unit qty coupon raw) := by
  have hcoff : 0 ≤ couponOff coupon := couponOff_nonneg coupon
  rw [quoteChecked, quote]
  simp only
  rw [mulChecked_eq]
  have hqty : 1 ≤ if qty < 1 then 1 else qty := by
    split_ifs with h
    · exact le_rfl
    · omega
  generalize (if qty < 1 then 1 else qty) = q at hqty ⊢
  cases htotal : mul unit q with
  | none => rfl
  | some total =>
      obtain ⟨hzero, htop⟩ := mul_range htotal
      have hprod : unit * q ≤ maxCents ∧ total = unit * q := by
        rw [mul_eq hunit hqty] at htotal
        split_ifs at htotal with hin
        exact ⟨hin, (Option.some.inj htotal).symm⟩
      have hwoff : 0 ≤ wholesaleOff raw q unit ∧ wholesaleOff raw q unit ≤ maxCents := by
        rcases wholesaleOff_range raw hqty hunit hprod.1 with h | ⟨hlow, hhigh⟩
        · rw [h]
          exact ⟨le_rfl, by decide⟩
        · exact ⟨le_of_lt hlow, (le_of_lt hhigh).trans hprod.1⟩
      obtain ⟨coff, hc⟩ : ∃ coff, couponOff coupon = coff := ⟨_, rfl⟩
      rw [hc] at hcoupon hcoff
      change (wholesaleOffChecked raw q unit >>= fun woff => int64Result (total - _) >>= fun less =>
        _) = _
      rw [wholesaleOffChecked_eq]
      obtain ⟨woff, hw⟩ : ∃ woff : ℤ, wholesaleOff raw q unit = woff := ⟨_, rfl⟩
      rw [hw] at hwoff ⊢
      have hwoff' : 0 ≤ woff ∧ woff ≤ maxCents := hwoff
      have hless : Fits64 (total - coff) := fits_of_column (by omega) (by omega)
      have hactual : Fits64 (total - coff - woff) := fits_of_column (by omega) (by omega)
      change (int64Result (total - couponOff coupon) >>= fun less =>
        int64Result (less - woff) >>= fun actual => Except.ok (some
          (Quote.mk total (couponOff coupon) woff (max actual 0)))) =
        Except.ok (some (Quote.mk total (couponOff coupon) woff
          (max (total - couponOff coupon - woff) 0)))
      rw [hc, int64Result_of_fits hless]
      change (int64Result (total - coff - woff) >>= fun actual => _) = _
      rw [int64Result_of_fits hactual]
      rfl

/-! ### Stored orders -/

def Order.money (o : Order) : List ℤ :=
  [o.goodsPrice, o.couponDiscountPrice, o.wholesaleDiscountPrice, o.totalPrice, o.actualPrice]

structure DB.Priceable (d : DB) : Prop where
  goods : ∀ i g, d.goods.get? i = some g → 0 ≤ g.actualPrice ∧ g.actualPrice ≤ maxCents
  coupons : ∀ i c, d.coupons.get? i = some c → 0 ≤ c.discount ∧ c.discount ≤ maxCents

/-- The amounts of a quote that a checkout accepts. -/
theorem quote_columns {unit qty : ℤ} {coupon raw : Text} {q : Quote} (hunit : 0 ≤ unit)
    (hk : couponOff coupon ≤ maxCents) (h : quote unit qty coupon raw = some q)
    (hactual : 0 < q.actual) :
    q.actual ≤ q.total ∧ q.total ≤ maxCents ∧ (0 ≤ q.couponOff ∧ q.couponOff ≤ maxCents) ∧
      (0 ≤ q.wholesaleOff ∧ q.wholesaleOff ≤ maxCents) := by
  have hcoff : 0 ≤ couponOff coupon := couponOff_nonneg coupon
  rw [quote_eq hunit] at h
  split_ifs at h with hin
  obtain rfl := Option.some.inj h
  have hwoff : 0 ≤ wholesaleOff raw (max qty 1) unit ∧
      wholesaleOff raw (max qty 1) unit ≤ maxCents := by
    rcases wholesaleOff_range raw (le_max_right qty 1) hunit hin with hzero | ⟨hlow, hhigh⟩
    · rw [hzero]
      exact ⟨le_rfl, by decide⟩
    · exact ⟨le_of_lt hlow, (le_of_lt hhigh).trans hin⟩
  refine ⟨?_, hin, ⟨hcoff, hk⟩, hwoff⟩
  -- the payable amount is the total less two amounts that are not negative
  have hprod : (0 : ℤ) ≤ unit * max qty 1 := Int.mul_nonneg hunit (by omega)
  exact max_le ((sub_le_self _ hwoff.1).trans (sub_le_self _ hcoff)) hprod

theorem createOrder_stores {env : Env} {d d' : DB} {sn : Text} {inp : CreateInput} {site : Site}
    {now : ℤ} {ids : ℕ → ℕ} {r : Reply} (hd : d.Priceable)
    (h : (createOrder env sn inp site now).commits ids d r d') :
    ∃ id o, d'.orders = d.orders.put id o ∧ 0 < o.actualPrice ∧ o.actualPrice ≤ o.totalPrice ∧
      ∀ c ∈ o.money, InColumn c := by
  obtain ⟨g, used, q, info, id, reserved, made, -, hcreated, ⟨g₀, hg₀, hprice⟩, htext, hq, hactual,
    -⟩ :=
    createOrder_quoted h
  obtain ⟨hunit, htop⟩ := hd.goods _ g₀ hg₀
  rw [hprice] at hunit htop
  have hk : couponOff used.2 ≤ maxCents := by
    rcases htext with hnone | ⟨c, hc, hdiscount⟩
    · rw [hnone]
      decide
    · obtain ⟨hzero, hhigh⟩ := hd.coupons _ c hc
      have hin : InColumn c.discount := ⟨(by decide : -maxCents ≤ 0).trans hzero, hhigh⟩
      rw [hdiscount, yuan_eq_columnText hin, couponOff_columnText hzero hhigh]
      exact hhigh
  obtain ⟨hle, htotal, ⟨hcoff, hcoff'⟩, hwoff, hwoff'⟩ := quote_columns hunit hk hq hactual
  have hzero : -maxCents ≤ (0 : ℤ) := by decide
  refine ⟨id, _, hcreated.orders, hactual, hle, ?_⟩
  have hactual' : (0 : ℤ) ≤ q.actual := le_of_lt hactual
  intro c hc
  simp only [Order.money, newOrder, List.mem_cons, List.not_mem_nil, or_false] at hc
  rcases hc with rfl | rfl | rfl | rfl | rfl
  · exact ⟨hzero.trans hunit, htop⟩
  · exact ⟨hzero.trans hcoff, hcoff'⟩
  · exact ⟨hzero.trans hwoff, hwoff'⟩
  · exact ⟨hzero.trans (hactual'.trans hle), htotal⟩
  · exact ⟨hzero.trans hactual', hle.trans htotal⟩

/-- The quote is exact and never overflows, and the amounts of every order that a checkout stores go
through the text columns of the database unchanged. -/
theorem price_pipeline :
    (∀ (unit k qty : ℤ) (raw : Text), 0 ≤ unit → unit ≤ maxCents → 0 ≤ k → k ≤ maxCents →
      (quote unit qty (columnText k) raw = none ↔ maxCents < unit * max qty 1) ∧
      (∀ q, quote unit qty (columnText k) raw = some q →
        q.total = unit * max qty 1 ∧ q.couponOff = k ∧
        (q.wholesaleOff = 0 ∨ 0 < q.wholesaleOff ∧ q.wholesaleOff < q.total) ∧
        q.actual = max 0 (q.total - q.couponOff - q.wholesaleOff)) ∧
      quoteChecked unit qty (columnText k) raw = .ok (quote unit qty (columnText k) raw)) ∧
    ∀ (env : Env) (d : DB) (rand : Fin 8 → Fin 256) (inp : CreateInput) (site : Site) (ids : ℕ → ℕ)
      (id : ℕ) (o : Order), d.Priceable → d.orders.get? id = none →
      ((Op.request (.createOrder rand inp site) ids).apply env d).orders.get? id = some o →
      0 < o.actualPrice ∧ o.actualPrice ≤ o.totalPrice ∧
        ∀ c ∈ o.money, ColumnTakes (yuan c) c ∧ parseYuan (columnText c) = some c := by
  constructor
  · intro unit k qty raw hunit _ hzero hk
    have hcoupon := couponOff_columnText hzero hk
    refine ⟨?_, ?_, ?_⟩
    · rw [quote_eq hunit]
      split_ifs with hin
      · constructor
        · intro h
          cases h
        · intro h
          exact absurd hin (not_le.mpr h)
      · exact ⟨fun _ => not_le.mp hin, fun _ => rfl⟩
    · intro q hq
      rw [quote_eq hunit, hcoupon] at hq
      split_ifs at hq with hin
      obtain rfl := Option.some.inj hq
      exact ⟨rfl, rfl, wholesaleOff_range raw (le_max_right qty 1) hunit hin, max_comm _ _⟩
    · refine quoteChecked_eq qty raw hunit ?_
      rw [hcoupon]
      exact hk
  · intro env d rand inp site ids id o hd hfresh ho
    rw [Op.apply, Request.answer] at ho
    rcases Tx.exec_fst ((Request.createOrder rand inp site).script env d.clock) ids d with
      hsame | ⟨reply, d', hc, he⟩
    · rw [hsame, hfresh] at ho
      cases ho
    · obtain ⟨id', o', horders, hactual, hle, hcolumns⟩ := createOrder_stores hd hc
      have hnew : o = o' := by
        rw [he, horders] at ho
        rcases Table.get?_put_some ho with ⟨-, rfl⟩ | ⟨-, ho⟩
        · rfl
        · rw [hfresh] at ho
          cases ho
      subst hnew
      refine ⟨hactual, hle, fun c hc => ?_⟩
      exact ⟨columnTakes_yuan (hcolumns c hc), parseYuan_columnText (hcolumns c hc)⟩

theorem price_pipeline_coupon :
    quote 1000 10 (columnText 150) "5=9\n10=8.50".toList = some ⟨10000, 150, 1500, 8350⟩ ∧
      quoteChecked 1000 10 (columnText 150) "5=9\n10=8.50".toList =
        .ok (quote 1000 10 (columnText 150) "5=9\n10=8.50".toList) ∧
      ∀ c ∈ (tinyOrder 1).money, ColumnTakes (yuan c) c ∧ parseYuan (columnText c) = some c := by
  obtain ⟨hquote, hstored⟩ := price_pipeline
  have hshop : tinyShop.Priceable := by
    have hgoods : ∀ e ∈ tinyShop.goods.entries, 0 ≤ e.2.actualPrice ∧
        e.2.actualPrice ≤ maxCents := by
      decide
    have hcoupons : ∀ e ∈ tinyShop.coupons.entries, 0 ≤ e.2.discount ∧ e.2.discount ≤ maxCents := by
      decide
    constructor
    · exact fun i g hg => hgoods (i, g) ((tinyShop.goods.mem_entries_iff i g).mpr hg)
    · exact fun i c hc => hcoupons (i, c) ((tinyShop.coupons.mem_entries_iff i c).mpr hc)
  refine ⟨by decide, ?_, ?_⟩
  · exact (hquote 1000 150 10 _ (by decide) (by decide) (by decide) (by decide)).2.2
  · exact (hstored tinyEnv tinyShop (fun _ => Fin.ofNat 256 1) (tinyInput 2 []) ⟨false,
      5⟩ (fun _ => 1) 1
      (tinyOrder 1) hshop rfl rfl).2.2

end Dufaka
