import Dufaka.Text

/-!
# Prices

Amounts in cents, with the parsing and printing of yuan texts, the wholesale tiers, the coupon check
and the price pipeline of a checkout. `Cents` is a 64-bit integer; the pipeline multiplies only
below the range of the money column, and parsing is where a product can wrap.
-/

namespace Dufaka

abbrev Cents := ℤ

def maxCents : ℤ := 9999999999

def int64 (n : ℤ) : ℤ := Int.bmod n (2 ^ 64)

def parseYuan (s : Text) : Option Cents :=
  let s := s.trimSpace
  if s = [] then none
  else
    let neg := s.head? = some '-'
    let s : Text := if neg then s.tail else s
    let parts : Text × Text := (s.cut '.').getD (s, ['0', '0'])
    match parts.1.parseInt, Text.parseInt ((parts.2 ++ ['0', '0']).take 2) with
    | some w, some f =>
        let c := int64 (w * 100 + f)
        some (if neg then int64 (-c) else c)
    | _, _ => none

/-- The smallest amount has no opposite, and is printed from its own negative digits. -/
def yuan (c : Cents) : Text :=
  let v := if c < 0 then int64 (-c) else c
  (if c < 0 then ['-'] else []) ++ Text.itoa (v.tdiv 100) ++ '.' ::
    (Text.itoa ((v.tmod 100).tdiv 10) ++ Text.itoa (v.tmod 10))

def mul (unit : Cents) (qty : ℤ) : Option Cents :=
  if qty < 0 ∨ unit < 0 then none
  else if qty = 0 ∨ unit = 0 then some 0
  else if qty > (2 ^ 63 - 1) / unit then none
  else if unit * qty > maxCents then none
  else some (unit * qty)

abbrev Tier := Option (Cents × ℤ)

def wholesaleLine (qty : ℤ) (best : Tier) (line : Text) : Tier :=
  let line := line.trimSpace
  match line.cut '=' with
  | none => best
  | some (n, p) =>
      match n.trimSpace.parseInt, parseYuan p.trimSpace with
      | some need, some price =>
          if need ≤ 0 ∨ price ≤ 0 ∨ qty < need then best
          else match best with
            | none => some (price, need)
            | some (bestPrice, bestNeed) =>
                if need > bestNeed ∨ (need = bestNeed ∧ price < bestPrice) then some (price, need)
                else best
      | _, _ => best

def wholesaleOff (raw : Text) (qty : ℤ) (unit : Cents) : Cents :=
  if qty ≤ 0 ∨ raw = [] then 0
  else match (raw.split '\n').foldl (wholesaleLine qty) none with
    | none => 0
    | some (best, _) =>
        match mul unit qty, mul best qty with
        | some total, some next => if next ≥ total then 0 else total - next
        | _, _ => 0

structure Quote where
  total : Cents
  couponOff : Cents
  wholesaleOff : Cents
  actual : Cents
  deriving DecidableEq

def quote (unit : Cents) (qty : ℤ) (coupon wholesaleRaw : Text) : Option Quote :=
  let qty := if qty < 1 then 1 else qty
  match mul unit qty with
  | none => none
  | some total =>
      let woff := wholesaleOff wholesaleRaw qty unit
      let coff := if coupon.isBlank then 0 else max ((parseYuan coupon).getD 0) 0
      some ⟨total, coff, woff, max (total - coff - woff) 0⟩

def takeCouponError (isOpen isUse ret : ℤ) (rowsAffected : ℕ) : Option Text :=
  if isOpen ≠ 1 then some "优惠码不存在".toList
  else if isUse = 2 then some "优惠码已使用".toList
  else if ret ≤ 0 ∨ rowsAffected ≠ 1 then some "优惠码可用次数不足".toList
  else none

example : parseYuan "12.5".toList = some 1250 := by decide

example : yuan 1250 = "12.50".toList := by decide

example : (quote 1000 10 [] "5=9\n10=8.50".toList).map Quote.actual = some 8500 := by decide

end Dufaka
