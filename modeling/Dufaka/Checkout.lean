import Dufaka.Schema

/-!
# Checkout

`createOrder`: the checks before the transaction, the unpaid-order quota under its advisory locks,
the stock reservation under the goods row lock, the coupon, the price, the order row and the
reservation of its cards.
-/

namespace Dufaka
open Relational

/-- The library functions a checkout calls whose text rules do not matter here. -/
structure Env where
  /-- The address `mail.ParseAddress` reads, if it accepts the text. -/
  parseAddress : Text → Option Text
  /-- `strings.ToLower`, which the database's `lower()` agrees with. -/
  toLower : Text → Text

structure Site where
  searchPwd : Bool
  expireMin : ℤ
  deriving DecidableEq

structure CreateInput where
  gid : ℕ
  payId : ℕ
  amount : ℤ
  email : Text
  searchPwd : Text
  coupon : Text
  ip : Text
  source : Text
  extra : List (Text × Text)
  deriving DecidableEq

/-- A `varchar` column of the width keeps the text as it is. -/
def fitsColumn (width : ℕ) (s : Text) : Bool := s.length ≤ width && !s.contains '\x00'

/-- The columns that the `INSERT` of an order fills take their values. PostgreSQL drops the blanks
at the end of a text that is too long; of these texts only a query password can end in one. -/
def CreateInput.fits (inp : CreateInput) (title info : Text) : Bool :=
  fitsColumn 200 title && fitsColumn 200 inp.email && fitsColumn 50 inp.ip &&
    fitsColumn 64 inp.source && (inp.searchPwd.drop 200).all (· = ' ') &&
    !inp.searchPwd.contains '\x00' && !info.contains '\x00'

def cashierChecks : List Text := ["wescan".toList, "cldx".toList, "usdt".toList]

def cashierReady (check : Text) : Bool := cashierChecks.contains check

def hexDigit (n : ℕ) : Char := if n < 10 then Char.ofNat (48 + n) else Char.ofNat (55 + n)

instance byte_neZero : NeZero 256 := ⟨by decide⟩

def newSN (b : Fin 8 → Fin 256) : Text :=
  (List.ofFn b).flatMap (fun x => [hexDigit (x.val / 16), hexDigit (x.val % 16)])

def plausibleSN (sn : Text) : Bool := sn ≠ [] && sn.byteLength ≤ 64 && !sn.contains '\x00'

namespace DB

def freeCard (gid : ℕ) (c : Carmi) : Bool :=
  c.goodsId = gid && c.status = .unsold && c.reservedOrderId = none && !c.deleted

def loopCards (d : DB) (gid : ℕ) : ℤ :=
  d.carmis.count (fun _ c => c.goodsId = gid && c.status = .unsold && c.isLoop = 1 && !c.deleted)

def goodBy (d : DB) (gid : ℕ) : Option Good :=
  ((d.goods.get? gid).filter (fun g => !g.deleted)).map (fun g =>
    { g with inStock := if g.type = .auto then d.carmis.count (fun _ c => freeCard gid c)
                        else g.inStock })

def payReady (d : DB) (payId : ℕ) : Bool :=
  match (d.pays.get? payId).filter (fun p => !p.deleted) with
  | some p => p.isOpen = 1 && cashierReady p.payCheck
  | none => false

def unpaidSince (d : DB) (since : ℤ) (p : Order → Bool) : ℤ :=
  d.orders.count (fun _ o => o.status = .unpaid && !o.deleted && since < o.createdAt && p o)

def orderBySn (d : DB) (sn : Text) : Option (ℕ × Order) :=
  d.orders.find? (fun _ o => o.orderSn = sn)

def couponBy (d : DB) (code : Text) (gid : ℕ) : Option (ℕ × Coupon) :=
  d.coupons.find? (fun i c => c.coupon = code && (d.goodsOf i).contains gid && !c.deleted)

end DB

def msgTooManyUnpaid : Text := "未付款订单过多，请先完成支付或等待订单过期后再下单".toList

def msgShortStock : Text := "库存不足".toList

def msgNotFound : Text := "订单不存在".toList

def maxUnpaidPerAddress : ℤ := 5

def maxUnpaidPerEmail : ℤ := 3

/-- `order_expire_time` in minutes; a number that is not positive means the default. -/
def effectiveMinutes (minutes : ℤ) : ℤ := if minutes ≤ 0 then 5 else minutes

def emailKey (email : Text) : Text := "dufaka-unpaid-email:".toList ++ email

def sourceKey (source : Text) : Text := "dufaka-unpaid-source:".toList ++ source

def quotaKeys (source email : Text) : List Text :=
  Text.sortStrings (emailKey email :: if source = [] then [] else [sourceKey source])

theorem emailKey_le_sourceKey (source email : Text) :
    Text.le (emailKey email) (sourceKey source) = true := by
  have he : "dufaka-unpaid-email:".toList = "dufaka-unpaid-".toList ++ 'e' :: "mail:".toList := by
    decide
  have hs : "dufaka-unpaid-source:".toList = "dufaka-unpaid-".toList ++ 's' :: "ource:".toList := by
    decide
  change Text.le ("dufaka-unpaid-email:".toList ++ email)
    ("dufaka-unpaid-source:".toList ++ source) = true
  rw [he, hs, List.append_assoc, List.append_assoc, Text.le_append]
  rfl

/-- The email key is locked first, for every email and source. -/
theorem quotaKeys_eq (source email : Text) :
    quotaKeys source email = emailKey email :: if source = [] then [] else [sourceKey source] := by
  unfold quotaKeys Text.sortStrings
  split_ifs with h
  · rfl
  · simp only [List.insertionSort_cons, List.insertionSort_nil, List.orderedInsert_nil,
      List.orderedInsert_cons, emailKey_le_sourceKey, if_true]

def buyerInfoLine (extra : List (Text × Text)) (info line : Text) : Except Text Text :=
  match line.trimSpace.split '=' with
  | key :: label :: need :: _ =>
      let val := (extra.lookup key).getD []
      if (need = ['1'] || need.equalFoldTrue) && val.isBlank then
        .error (label ++ "不能为空".toList)
      else .ok (info ++ label ++ ':' :: val ++ ['\n'])
  | _ => .ok info

def buyerInfo (other : Text) (extra : List (Text × Text)) : Except Text Text :=
  (Text.split '\n' other).foldlM (buyerInfoLine extra) []

def createRefusal (env : Env) (inp : CreateInput) (site : Site) : Option Text :=
  if inp.amount < 1 then some "购买数量不正确".toList
  else if env.parseAddress inp.email ≠ some inp.email then some "邮箱格式不正确".toList
  else if site.searchPwd && inp.searchPwd.isBlank then some "请填写查询密码".toList
  else if inp.payId = 0 then some "请选择支付方式".toList
  else none

namespace Script

def unpaidQuota (env : Env) (source email : Text) (expireMin now : ℤ) : Script Unit := do
  let email := env.toLower email
  Tx.forEach (quotaKeys source email) advisoryLock
  let since := now - effectiveMinutes expireMin * minute
  let unpaid ← Tx.read (fun d =>
    (d.unpaidSince since (fun o => o.buySource = source),
      d.unpaidSince since (fun o => env.toLower o.email = email)))
  require (!((source ≠ [] && unpaid.1 ≥ maxUnpaidPerAddress) || unpaid.2 ≥ maxUnpaidPerEmail))
    (.err msgTooManyUnpaid)

/-- The stock of an order: free cards in id order, or a share of the counted stock. -/
def reserveStock (gid : ℕ) (type : GoodsType) (amount : ℤ) : Script (List ℕ) :=
  match type with
  | .auto => do
      let reserved ← Tx.skipLocked Key.carmi (fun d skip =>
        ((d.carmis.select (fun i c => DB.freeCard gid c && !skip i)).map Prod.fst).take
          amount.toNat)
        pure
      require (reserved.length = amount) (.err msgShortStock)
      return reserved
  | .manual => do
      let row ← update (.goods gid) (fun g =>
        if g.inStock ≥ amount then some { g with inStock := g.inStock - amount } else none)
      require row.isSome (.err msgShortStock)
      return []

def useCoupon (code : Text) (gid : ℕ) : Script (ℕ × Text) :=
  if code.isBlank then pure (0, [])
  else do
    let found ← Tx.read (fun d => d.couponBy code gid)
    let found ← orElse (.err "优惠码不存在".toList) found
    let row ← lockRow (.coupon found.1) .noKeyUpdate (fun c => c.coupon = code && !c.deleted)
    let c ← orElse (.err "优惠码不存在".toList) row
    let used ← update (.coupon found.1) (fun c =>
      if c.ret > 0 ∧ c.isOpen = 1 ∧ c.isUse ≠ 2 then some { c with ret := c.ret - 1 } else none)
    let refusal := takeCouponError c.isOpen c.isUse c.ret (if used.isSome then 1 else 0)
    require (refusal = none) (.err (refusal.getD []))
    return (found.1, yuan c.discount)

def insertOrder (o : Order) (reserved : List ℕ) : Script ℕ := do
  let clash ← Tx.read (fun d => (d.orderBySn o.orderSn).isSome)
  require (!clash) .internal
  let id ← Tx.insert Key.order (fun _ => o) pure
  foreignKey (.goods o.goodsId)
  Tx.forEach reserved (fun cid =>
    change (.carmi cid) (fun c => { c with reservedOrderId := some id }))
  return id

end Script

def newOrder (sn : Text) (inp : CreateInput) (g : Good) (couponId : ℕ) (q : Quote) (info : Text)
    (now : ℤ) : Order where
  orderSn := sn
  goodsId := inp.gid
  couponId := couponId
  title := g.name
  type := g.type
  goodsPrice := g.actualPrice
  buyAmount := inp.amount
  couponDiscountPrice := q.couponOff
  wholesaleDiscountPrice := q.wholesaleOff
  totalPrice := q.total
  actualPrice := q.actual
  searchPwd := inp.searchPwd.take 200
  email := inp.email
  info := info
  payId := inp.payId
  buyIp := inp.ip
  buySource := inp.source
  tradeNo := []
  status := .unpaid
  couponRetBack := .held
  stockOwed := false
  cldxMinor := none
  cldxExpiresAt := none
  usdtPayment := none
  createdAt := now
  deleted := false

open Script in
def createOrder (env : Env) (sn : Text) (inp : CreateInput) (site : Site) (now : ℤ) :
    Script Empty := do
  let refusal := createRefusal env inp site
  require (refusal = none) (.err (refusal.getD []))
  let found ← Tx.read (fun d => d.goodBy inp.gid)
  let g ← orElse (.err "商品不存在".toList) found
  require (g.isOpen = 1) (.err "商品已下架".toList)
  require (!(g.buyLimitNum > 0 && inp.amount > g.buyLimitNum)) (.err "已超过单次限购数量".toList)
  let loops ← Tx.read (fun d => d.loopCards inp.gid)
  require (!(loops > 0 && inp.amount > 1)) (.err "循环卡密一次只能买 1 件".toList)
  let ready ← Tx.read (fun d => d.payReady inp.payId)
  require ready (.err "支付方式不可用".toList)
  unpaidQuota env inp.source inp.email site.expireMin now
  let _ ← lockRow (.goods inp.gid) .noKeyUpdate (fun _ => true)
  let reserved ← reserveStock inp.gid g.type inp.amount
  let used ← useCoupon inp.coupon inp.gid
  let info ← orRefuse (if g.type = .manual && g.otherIpuCnf ≠ [] then
    buyerInfo g.otherIpuCnf inp.extra else .ok [])
  let priced ← orElse (.err "购买数量或金额不正确".toList)
    (quote g.actualPrice inp.amount used.2 g.wholesalePriceCnf)
  require (priced.actual > 0) (.err "实付金额必须大于 0".toList)
  require (inp.fits g.name info) .internal
  let id ← insertOrder (newOrder sn inp g used.1 priced info now) reserved
  require (plausibleSN sn) (.err msgNotFound)
  let made ← Tx.read (fun d => d.orders.find? (fun _ o => o.orderSn = sn && !o.deleted))
  let made ← orElse (.err msgNotFound) made
  Tx.commit (.created id made.2)

end Dufaka
