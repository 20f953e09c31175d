import Dufaka.Checkout

/-!
# Settlement and expiry

`settle` is the one path of `Complete` and `Redeliver`: the order row first, then the goods row,
then a coupon use that expiry handed back, then the cards or the counted stock. `expireOne` hands
everything an unpaid order holds back. The two quote locks write the payment columns of an unpaid
order once.
-/

namespace Dufaka
open Relational

namespace DB

def deliverable (id gid : ℕ) (c : Carmi) : Bool :=
  c.goodsId = gid && c.status = .unsold && !c.deleted &&
    (c.reservedOrderId = some id || c.reservedOrderId = none)

/-- Cards to deliver: the order's own reservations first, each group in id order. -/
def cardsFor (d : DB) (id gid : ℕ) (amount : ℤ) (skip : ℕ → Bool) : List ℕ :=
  let mine := d.carmis.select (fun i c =>
    deliverable id gid c && c.reservedOrderId = some id && !skip i)
  let free := d.carmis.select (fun i c =>
    deliverable id gid c && c.reservedOrderId ≠ some id && !skip i)
  ((mine ++ free).map Prod.fst).take amount.toNat

def cardRows (d : DB) (cards : List ℕ) : List Carmi := cards.filterMap d.carmis.get?

def dueOrders (d : DB) (minutes : ℤ) : List (ℕ × ℕ) :=
  (d.orders.select (fun _ o => o.status = .unpaid && o.couponRetBack = .held &&
    o.createdAt < d.clock - effectiveMinutes minutes * minute)).map (fun e => (e.1, e.2.couponId))

end DB

def Carmi.delivered (c : Carmi) : Carmi :=
  if c.isLoop = 0 then { c with status := .sold, reservedOrderId := none }
  else { c with reservedOrderId := none }

def Carmi.released (c : Carmi) : Carmi := { c with reservedOrderId := none }

def Order.short (o : Order) (tradeNo : Text) (retBack : RetBack) : Order :=
  { o with
    status := .abnormal
    info := match o.type with
      | .manual => msgShortStock ++ '\n' :: o.info
      | .auto => msgShortStock
    tradeNo := tradeNo
    couponRetBack := retBack
    stockOwed := o.type = .manual }

def Order.deliver (o : Order) (info tradeNo : Text) (retBack : RetBack) : Order :=
  { o with status := .completed, info := info, tradeNo := tradeNo, couponRetBack := retBack }

def Order.handToOwner (o : Order) (tradeNo : Text) (retBack : RetBack) : Order :=
  { o with status := .pending, tradeNo := tradeNo, couponRetBack := retBack }

def Order.expire (o : Order) : Order := { o with status := .expired, couponRetBack := .returned }

/-- The trade number a settlement records: a redelivery keeps the one on file. -/
def Order.tradeFor (o : Order) (tradeNo : Text) (redeliver : Bool) : Text :=
  if redeliver then (if o.tradeNo = [] then "manual".toList else o.tradeNo) else tradeNo

namespace Script

def releaseCards (p : Carmi → Bool) : Script Unit := do
  let ids ← Tx.read (fun d => (d.carmis.select (fun _ c => p c)).map Prod.fst)
  Tx.forEach ids (fun i => do
    let _ ← update (.carmi i) (fun c => if p c then some c.released else none))

def acknowledge (c : Bool) : Script Unit := if c then Tx.commit .already else pure ()

def retakeCoupon (o : Order) : Script RetBack :=
  if o.couponId > 0 ∧ o.couponRetBack = .returned then do
    let used ← update (.coupon o.couponId) (fun c =>
      if c.ret > 0 ∧ c.deleted = false then some { c with ret := c.ret - 1 } else none)
    return (if used.isSome then .held else .unrecoverable)
  else pure o.couponRetBack

def settleShort (id : ℕ) (tradeNo : Text) (retBack : RetBack) (redeliver : Bool) {α : Type} :
    Script α := do
  require (!redeliver) (.err msgShortStock)
  change (.order id) (fun o => o.short tradeNo retBack)
  Tx.commit (.err msgShortStock)

def deliverCards (id : ℕ) (o : Order) (tradeNo : Text) (retBack : RetBack) (redeliver : Bool) :
    Script (List ℕ) := do
  let cards ← Tx.skipLocked Key.carmi (fun d skip => d.cardsFor id o.goodsId o.buyAmount skip) pure
  if cards.length = o.buyAmount then do
    let lines ← Tx.read (fun d => (d.cardRows cards).map Carmi.carmi)
    Tx.forEach cards (fun cid => change (.carmi cid) Carmi.delivered)
    releaseCards (fun c => c.reservedOrderId = some id && c.goodsId = o.goodsId && c.status =
      .unsold)
    change (.order id) (fun o => o.deliver (Text.join ['\n'] lines) tradeNo retBack)
    return cards
  else settleShort id tradeNo retBack redeliver

/-- Take the counted stock of an expired order again; any other order still has it. -/
def retakeStock (o : Order) : Script Bool :=
  if o.status = .expired then do
    let row ← update (.goods o.goodsId) (fun g =>
      if g.inStock ≥ o.buyAmount then some { g with inStock := g.inStock - o.buyAmount } else none)
    return row.isSome
  else pure true

def settleManual (id : ℕ) (o : Order) (tradeNo : Text) (retBack : RetBack) (redeliver : Bool) :
    Script (List ℕ) := do
  let taken ← retakeStock o
  if taken then do
    change (.order id) (fun o => o.handToOwner tradeNo retBack)
    return []
  else settleShort id tradeNo retBack redeliver

def fulfil (id : ℕ) (o : Order) (tradeNo : Text) (retBack : RetBack) (redeliver : Bool) :
    Script (List ℕ) :=
  match o.type with
  | .auto => deliverCards id o tradeNo retBack redeliver
  | .manual => settleManual id o tradeNo retBack redeliver

end Script

open Script in
def settle (sn : Text) (paid : Cents) (tradeNo : Text) (redeliver : Bool) : Script Empty := do
  let found ← Tx.read (fun d => d.orderBySn sn)
  let found ← orElse (.err msgNotFound) found
  let id := found.1
  let row ← lockRow (.order id) .update (fun o => o.orderSn = sn)
  let o ← orElse (.err msgNotFound) row
  require (!(redeliver && o.status ≠ .abnormal)) .untouched
  require (!(redeliver && o.type ≠ .auto)) (.err "仅自动发卡商品支持重新发货".toList)
  let paid := if redeliver then o.actualPrice else paid
  let tradeNo := o.tradeFor tradeNo redeliver
  require (paid = o.actualPrice) (.err "金额不一致".toList)
  acknowledge (o.status = .completed || o.status = .pending || o.status = .processing)
  require (o.status = .unpaid || o.status = .expired || o.status = .abnormal)
    (.err "订单状态不可支付".toList)
  acknowledge (o.type ≠ .auto && o.status = .abnormal)
  let _ ← lockRow (.goods o.goodsId) .noKeyUpdate (fun _ => true)
  let retBack ← retakeCoupon o
  let cards ← fulfil id o tradeNo retBack redeliver
  change (.goods o.goodsId) (fun g => { g with salesVolume := g.salesVolume + o.buyAmount })
  Tx.commit (.delivered id cards)

def complete (sn : Text) (paid : Cents) (tradeNo : Text) : Script Empty :=
  settle sn paid tradeNo false

def redeliver (sn : Text) : Script Empty := settle sn 0 [] true

def isPaidShort (r : Reply) : Bool := r = .err msgShortStock

/-- Hand back what an expired order held: its coupon use, its cards, its counted stock. -/
def Script.handBack (id coupon : ℕ) (o : Order) : Script Unit := do
  let _ ← lockRow (.goods o.goodsId) .noKeyUpdate (fun _ => true)
  onlyIf (coupon > 0) (change (.coupon coupon) (fun c => { c with ret := c.ret + 1 }))
  releaseCards (fun c => c.reservedOrderId = some id && c.goodsId = o.goodsId)
  onlyIf (o.type = .manual)
    (change (.goods o.goodsId) (fun g => { g with inStock := g.inStock + o.buyAmount }))

open Script in
def expireOne (id coupon : ℕ) : Script Empty := do
  let row ← update (.order id) (fun o => if o.status = .unpaid then some o.expire else none)
  match row with
  | none => Tx.commit .ok
  | some o => do
      handBack id coupon o
      Tx.commit (.expired id)

/-- The first quote stands. -/
def Order.quote (o : Order) (minor expires : ℤ) : Order :=
  { o with
    cldxMinor := some (o.cldxMinor.getD minor),
      cldxExpiresAt := some (o.cldxExpiresAt.getD expires) }

open Script in
def lockCldxQuote (sn : Text) (minor expires : ℤ) : Script Empty := do
  let found ← Tx.read (fun d => d.orders.find? (fun _ o => o.orderSn = sn && o.status = .unpaid))
  let found ← orElse .internal found
  let id := found.1
  let row ← update (.order id) (fun o =>
    if o.orderSn = sn ∧ o.status = .unpaid then some (o.quote minor expires) else none)
  let o ← orElse .internal row
  Tx.commit (.quote (o.cldxMinor.getD minor) (o.cldxExpiresAt.getD expires))

open Script in
/-- `onTime` is whether the deadline has not passed, and `created` the marshalled answer of the
remote service, when it answered. -/
def lockUSDTInvoice (sn : Text) (onTime : Bool) (created : Option Text) : Script Empty := do
  let found ← Tx.read (fun d => d.orders.find? (fun _ o => o.orderSn = sn && !o.deleted))
  let found ← orElse .internal found
  let id := found.1
  let row ← lockRow (.order id) .update (fun o => o.orderSn = sn && !o.deleted)
  let o ← orElse .internal row
  require (o.status = .unpaid && onTime) .internal
  match o.usdtPayment with
  | some raw => Tx.commit (.invoice raw)
  | none => do
      let raw ← orElse .internal created
      change (.order id) (fun o => { o with usdtPayment := some raw })
      Tx.commit (.invoice raw)

end Dufaka
