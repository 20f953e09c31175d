import Dufaka.ReadCommitted
import Dufaka.Price

/-!
# The database of the shop

The tables a purchase touches, one structure a table, with the columns the modelled code reads or
writes. A row's identity is its key in the table. Money columns are in cents, `numeric(10,2)`; a
missing text reads as the empty text and `deleted_at` as a flag, as every query reads them.
-/

namespace Dufaka
open Relational

/-- `goods.type` and `orders.type`: 1 is delivered from the card pool, 2 is handled by hand. -/
inductive GoodsType where
  | auto
  | manual
  deriving DecidableEq

inductive OrderStatus where
  | unpaid
  | pending
  | processing
  | completed
  | failed
  | abnormal
  | expired
  deriving DecidableEq

namespace OrderStatus

def code : OrderStatus → ℤ
  | unpaid => 1
  | pending => 2
  | processing => 3
  | completed => 4
  | failed => 5
  | abnormal => 6
  | expired => -1

/-- The status of a submitted number; the numbers of no status are what `validOrderStatus`
refuses. -/
def ofCode (n : ℤ) : Option OrderStatus :=
  [unpaid, pending, processing, completed, failed, abnormal, expired].find? (fun s => s.code = n)

end OrderStatus

inductive CarmiStatus where
  | unsold
  | sold
  deriving DecidableEq

/-- `orders.coupon_ret_back`: 0 the order holds its coupon use, 1 expiry handed it back, 2 it was
handed back and could not be taken again. -/
inductive RetBack where
  | held
  | returned
  | unrecoverable
  deriving DecidableEq

structure Good where
  groupId : ℕ
  name : Text
  desc : Text
  keywords : Text
  picture : Text
  retailPrice : Cents
  actualPrice : Cents
  inStock : ℤ
  salesVolume : ℤ
  ord : ℤ
  buyLimitNum : ℤ
  buyPrompt : Text
  description : Text
  type : GoodsType
  wholesalePriceCnf : Text
  otherIpuCnf : Text
  apiHook : Text
  isOpen : ℤ
  deleted : Bool
  deriving DecidableEq

structure Carmi where
  goodsId : ℕ
  status : CarmiStatus
  isLoop : ℤ
  carmi : Text
  reservedOrderId : Option ℕ
  deleted : Bool
  deriving DecidableEq

structure Coupon where
  discount : Cents
  isUse : ℤ
  isOpen : ℤ
  coupon : Text
  ret : ℤ
  deleted : Bool
  deriving DecidableEq

structure Pay where
  isOpen : ℤ
  payCheck : Text
  merchantId : Text
  merchantKey : Text
  merchantPem : Text
  deleted : Bool
  deriving DecidableEq

structure Order where
  orderSn : Text
  goodsId : ℕ
  /-- 0 when the order used no coupon. -/
  couponId : ℕ
  title : Text
  type : GoodsType
  goodsPrice : Cents
  buyAmount : ℤ
  couponDiscountPrice : Cents
  wholesaleDiscountPrice : Cents
  totalPrice : Cents
  actualPrice : Cents
  searchPwd : Text
  email : Text
  info : Text
  payId : ℕ
  buyIp : Text
  buySource : Text
  tradeNo : Text
  status : OrderStatus
  couponRetBack : RetBack
  stockOwed : Bool
  cldxMinor : Option ℤ
  cldxExpiresAt : Option ℤ
  usdtPayment : Option Text
  createdAt : ℤ
  deleted : Bool
  deriving DecidableEq

structure GoodsGroup where
  deleted : Bool
  deriving DecidableEq

structure DB where
  /-- `now()` of a transaction that begins here, in microseconds. -/
  clock : ℤ
  goodsGroup : Table GoodsGroup
  goods : Table Good
  carmis : Table Carmi
  coupons : Table Coupon
  /-- `coupons_goods`, the goods of each coupon. -/
  couponsGoods : Table (List ℕ)
  pays : Table Pay
  orders : Table Order
  deriving DecidableEq

def minute : ℤ := 60000000

/-- What a transaction can lock. -/
inductive Key where
  | advisory (k : Text)
  | order (i : ℕ)
  | goods (i : ℕ)
  | carmi (i : ℕ)
  | coupon (i : ℕ)
  | couponGoods (i : ℕ)
  | group (i : ℕ)
  deriving DecidableEq

@[reducible] def Row : Key → Type
  | .advisory _ => Empty
  | .order _ => Order
  | .goods _ => Good
  | .carmi _ => Carmi
  | .coupon _ => Coupon
  | .couponGoods _ => List ℕ
  | .group _ => GoodsGroup

namespace DB

def goodsOf (d : DB) (c : ℕ) : List ℕ := (d.couponsGoods.get? c).getD []

def getRow (d : DB) : (k : Key) → Option (Row k)
  | .advisory _ => none
  | .order i => d.orders.get? i
  | .goods i => d.goods.get? i
  | .carmi i => d.carmis.get? i
  | .coupon i => d.coupons.get? i
  | .couponGoods i => some (d.goodsOf i)
  | .group i => d.goodsGroup.get? i

def setRow (d : DB) : (k : Key) → Row k → DB
  | .advisory _, v => v.elim
  | .order i, v => { d with orders := d.orders.put i v }
  | .goods i, v => { d with goods := d.goods.put i v }
  | .carmi i, v => { d with carmis := d.carmis.put i v }
  | .coupon i, v => { d with coupons := d.coupons.put i v }
  | .couponGoods i, v => { d with couponsGoods := d.couponsGoods.put i v }
  | .group i, v => { d with goodsGroup := d.goodsGroup.put i v }

instance : RowStore DB Row where
  get := getRow
  set := setRow
  get_set_self d k v := by
    cases k with
    | advisory => exact v.elim
    | couponGoods i => simp [getRow, setRow, goodsOf]
    | _ => exact Table.get?_put_self _ _ _
  get_set_of_ne d k v k' h := by
    cases k with
    | advisory => exact v.elim
    | couponGoods i =>
        cases k' with
        | couponGoods j =>
            have hj : j ≠ i := fun he => h (by rw [he])
            simp [getRow, setRow, goodsOf, Table.get?_put_of_ne _ _ hj]
        | _ => rfl
    | order i =>
        cases k' <;> first | rfl | exact Table.get?_put_of_ne _ _ (fun he => h (by rw [he]))
    | goods i =>
        cases k' <;> first | rfl | exact Table.get?_put_of_ne _ _ (fun he => h (by rw [he]))
    | carmi i =>
        cases k' <;> first | rfl | exact Table.get?_put_of_ne _ _ (fun he => h (by rw [he]))
    | coupon i =>
        cases k' <;> first | rfl | exact Table.get?_put_of_ne _ _ (fun he => h (by rw [he]))
    | group i =>
        cases k' <;> first | rfl | exact Table.get?_put_of_ne _ _ (fun he => h (by rw [he]))

section Rows
variable (d : DB) (i : ℕ)

@[simp] theorem get_order : RowStore.get d (Key.order i) = d.orders.get? i := rfl
@[simp] theorem get_goods : RowStore.get d (Key.goods i) = d.goods.get? i := rfl
@[simp] theorem get_carmi : RowStore.get d (Key.carmi i) = d.carmis.get? i := rfl
@[simp] theorem get_coupon : RowStore.get d (Key.coupon i) = d.coupons.get? i := rfl
@[simp] theorem get_couponGoods :
    RowStore.get d (Key.couponGoods i) = some (d.goodsOf i) := rfl
@[simp] theorem get_group : RowStore.get d (Key.group i) = d.goodsGroup.get? i := rfl

@[simp] theorem set_order (v : Order) :
    RowStore.set d (Key.order i) v = { d with orders := d.orders.put i v } := rfl
@[simp] theorem set_goods (v : Good) :
    RowStore.set d (Key.goods i) v = { d with goods := d.goods.put i v } := rfl
@[simp] theorem set_carmi (v : Carmi) :
    RowStore.set d (Key.carmi i) v = { d with carmis := d.carmis.put i v } := rfl
@[simp] theorem set_coupon (v : Coupon) :
    RowStore.set d (Key.coupon i) v = { d with coupons := d.coupons.put i v } := rfl
@[simp] theorem set_couponGoods (v : List ℕ) : RowStore.set d (Key.couponGoods i) v =
    { d with couponsGoods := d.couponsGoods.put i v } := rfl
@[simp] theorem set_group (v : GoodsGroup) : RowStore.set d (Key.group i) v =
    { d with goodsGroup := d.goodsGroup.put i v } := rfl

end Rows

end DB

/-- What a call returns. `err` is the business error with its message, `internal` any other failure;
`delivered` names the order and the cards it was given, and `created` the new order. -/
inductive Reply where
  | ok
  | err (msg : Text)
  | internal
  | created (id : ℕ) (o : Order)
  | delivered (id : ℕ) (cards : List ℕ)
  | already
  | untouched
  | expired (id : ℕ)
  | quote (minor expires : ℤ)
  | invoice (raw : Text)
  deriving DecidableEq

theorem except_bind_ok {ε α β : Type} {x : Except ε α} {g : α → Except ε β} {b : β} :
    (x >>= g) = .ok b ↔ ∃ a, x = .ok a ∧ g a = .ok b := by
  cases x with
  | ok a =>
      constructor
      · exact fun h => ⟨a, rfl, h⟩
      · rintro ⟨a', h, hg⟩
        rw [Except.ok.inj h]
        exact hg
  | error e =>
      constructor
      · intro h
        cases h
      · rintro ⟨a', h, -⟩
        cases h

abbrev Script (α : Type) := Tx DB Row Reply α

namespace Script
variable {α : Type}

def require (c : Bool) (r : Reply) : Script Unit := if c then pure () else Tx.rollback r

def orElse (r : Reply) : Option α → Script α
  | some a => pure a
  | none => Tx.rollback r

def orRefuse : Except Text α → Script α
  | .ok a => pure a
  | .error msg => Tx.rollback (.err msg)

def onlyIf (c : Bool) (s : Script Unit) : Script Unit := if c then s else pure ()

def lockRow (k : Key) (mode : LockMode) (p : Row k → Bool) : Script (Option (Row k)) :=
  Tx.lockRow k mode p pure

/-- `UPDATE` of one row with its `WHERE` test; `keyChange` is whether it changes a unique column. -/
def updateKey (k : Key) (keyChange : Row k → Bool) (f : Row k → Option (Row k)) :
    Script (Option (Row k)) := Tx.update k keyChange f pure

def update (k : Key) (f : Row k → Option (Row k)) : Script (Option (Row k)) :=
  updateKey k (fun _ => false) f

def change (k : Key) (f : Row k → Row k) : Script Unit := do
  let _ ← update k (fun v => some (f v))

def advisoryLock (k : Text) : Script Unit :=
  Tx.advisory (.advisory k) (pure ())

def foreignKey (k : Key) : Script Unit := do
  let row ← lockRow k .keyShare (fun _ => true)
  require row.isSome .internal

end Script

/-! ### Rules of isolated runs -/

namespace DB

def changeRow (d : DB) (k : Key) (f : Row k → Row k) : DB :=
  Tx.writeRow d k ((RowStore.get d k).map f)

section Change
variable (d : DB) (i : ℕ)

theorem changeRow_order (f : Order → Order) :
    d.changeRow (.order i) f = { d with orders := d.orders.modify i f } := by
  cases h : d.orders.get? i with
  | none => simp [changeRow, h, Tx.writeRow, Table.modify_of_none]
  | some a => simp [changeRow, h, Tx.writeRow, Table.put_eq_modify h]

theorem changeRow_goods (f : Good → Good) :
    d.changeRow (.goods i) f = { d with goods := d.goods.modify i f } := by
  cases h : d.goods.get? i with
  | none => simp [changeRow, h, Tx.writeRow, Table.modify_of_none]
  | some a => simp [changeRow, h, Tx.writeRow, Table.put_eq_modify h]

theorem changeRow_carmi (f : Carmi → Carmi) :
    d.changeRow (.carmi i) f = { d with carmis := d.carmis.modify i f } := by
  cases h : d.carmis.get? i with
  | none => simp [changeRow, h, Tx.writeRow, Table.modify_of_none]
  | some a => simp [changeRow, h, Tx.writeRow, Table.put_eq_modify h]

theorem changeRow_coupon (f : Coupon → Coupon) :
    d.changeRow (.coupon i) f = { d with coupons := d.coupons.modify i f } := by
  cases h : d.coupons.get? i with
  | none => simp [changeRow, h, Tx.writeRow, Table.modify_of_none]
  | some a => simp [changeRow, h, Tx.writeRow, Table.put_eq_modify h]

end Change
end DB

namespace Script
open Tx
section Rules
variable {α : Type} {ids ids' : ℕ → ℕ} {d d' : DB} {r r' : Reply} {u : Unit}

@[simp] theorem returns_require {c : Bool} :
    (require c r).returns ids d u ids' d' ↔ c = true ∧ ids = ids' ∧ d = d' := by
  cases c <;> simp [require]

@[simp] theorem commits_require {c : Bool} : (require c r).commits ids d r' d' ↔ False := by
  cases c <;> simp [require]

@[simp] theorem returns_orElse {o : Option α} {a : α} :
    (orElse r o).returns ids d a ids' d' ↔ o = some a ∧ ids = ids' ∧ d = d' := by
  cases o <;> simp [orElse]

@[simp] theorem commits_orElse {o : Option α} : (orElse r o).commits ids d r' d' ↔ False := by
  cases o <;> simp [orElse]

@[simp] theorem returns_orRefuse {e : Except Text α} {a : α} :
    (orRefuse e).returns ids d a ids' d' ↔ e = .ok a ∧ ids = ids' ∧ d = d' := by
  cases e <;> simp [orRefuse]

@[simp] theorem commits_orRefuse {e : Except Text α} :
    (orRefuse e).commits ids d r' d' ↔ False := by
  cases e <;> simp [orRefuse]

theorem returns_onlyIf {c : Bool} {s : Script Unit} : (onlyIf c s).returns ids d u ids' d' ↔
    (c = true ∧ s.returns ids d u ids' d') ∨ (c = false ∧ ids = ids' ∧ d = d') := by
  cases c <;> simp [onlyIf]

theorem commits_onlyIf {c : Bool} {s : Script Unit} :
    (onlyIf c s).commits ids d r d' ↔ c = true ∧ s.commits ids d r d' := by
  cases c <;> simp [onlyIf]

theorem returns_lockRow (k : Key) {m : LockMode} {p : Row k → Bool} {a : Option (Row k)} :
    (lockRow k m p).returns ids d a ids' d' ↔
      (RowStore.get d k).filter p = a ∧ ids = ids' ∧ d = d' := Tx.returns_lockRow

theorem commits_lockRow (k : Key) {m : LockMode} {p : Row k → Bool} :
    (lockRow k m p).commits ids d r d' ↔ False := Tx.commits_lockRow

theorem returns_updateKey (k : Key) {kc : Row k → Bool} {f : Row k → Option (Row k)}
    {a : Option (Row k)} : (updateKey k kc f).returns ids d a ids' d' ↔
      (RowStore.get d k).bind f = a ∧ ids = ids' ∧ Tx.writeRow d k a = d' := Tx.returns_update

theorem commits_updateKey (k : Key) {kc : Row k → Bool} {f : Row k → Option (Row k)} :
    (updateKey k kc f).commits ids d r d' ↔ False := Tx.commits_update

theorem returns_update (k : Key) {f : Row k → Option (Row k)} {a : Option (Row k)} :
    (update k f).returns ids d a ids' d' ↔
      (RowStore.get d k).bind f = a ∧ ids = ids' ∧ Tx.writeRow d k a = d' := returns_updateKey k

theorem commits_update (k : Key) {f : Row k → Option (Row k)} :
    (update k f).commits ids d r d' ↔ False := commits_updateKey k

/-- An `UPDATE` that found its row. -/
theorem updateKey_found {k : Key} {kc : Row k → Bool} {f : Row k → Option (Row k)}
    {a : Option (Row k)} (h : (updateKey k kc f).returns ids d a ids' d') (ha : a.isSome = true) :
    ∃ v w, RowStore.get d k = some v ∧ f v = some w ∧ a = some w ∧ ids = ids' ∧
      d' = RowStore.set d k w := by
  obtain ⟨hrow, hids, hwrite⟩ := (returns_updateKey k).mp h
  obtain ⟨w, rfl⟩ := Option.isSome_iff_exists.mp ha
  obtain ⟨v, hget, hv⟩ := Option.bind_eq_some_iff.mp hrow
  exact ⟨v, w, hget, hv, rfl, hids, hwrite.symm⟩

@[simp] theorem returns_change {k : Key} {f : Row k → Row k} :
    (change k f).returns ids d u ids' d' ↔ ids = ids' ∧ d.changeRow k f = d' := by
  simp only [change, returns_bind, returns_update k, returns_pure]
  constructor
  · rintro ⟨_, _, _, ⟨rfl, rfl, rfl⟩, _, rfl, rfl⟩
    exact ⟨rfl, by rw [DB.changeRow, Option.map_eq_bind]⟩
  · rintro ⟨rfl, rfl⟩
    exact ⟨_, _, _, ⟨rfl, rfl, rfl⟩, trivial, rfl, by rw [DB.changeRow, Option.map_eq_bind]⟩

@[simp] theorem commits_change {k : Key} {f : Row k → Row k} :
    (change k f).commits ids d r d' ↔ False := by
  simp [change, commits_bind, commits_update k]

@[simp] theorem returns_advisoryLock {k : Text} :
    (advisoryLock k).returns ids d u ids' d' ↔ ids = ids' ∧ d = d' := by
  simp [advisoryLock, Tx.returns, run]

@[simp] theorem commits_advisoryLock {k : Text} :
    (advisoryLock k).commits ids d r d' ↔ False := by
  simp [advisoryLock, Tx.commits, run]

@[simp] theorem returns_foreignKey {k : Key} :
    (foreignKey k).returns ids d u ids' d' ↔ (RowStore.get d k).isSome = true ∧ ids = ids' ∧
    d = d' := by
  simp [foreignKey, returns_bind, returns_lockRow k]

theorem require_returns {c : Bool} (h : c = true) : (require c r).returns ids d () ids d :=
  returns_require.mpr ⟨h, rfl, rfl⟩

@[simp] theorem commits_foreignKey {k : Key} :
    (foreignKey k).commits ids d r d' ↔ False := by
  simp [foreignKey, commits_bind, commits_lockRow k]

section Ends
variable {E : Bool → Reply → Prop} {k : Key}

theorem ends_pure {a : α} : (pure a : Script α).ends E := trivial

theorem ends_require {c : Bool} (h : E false r) : (require c r).ends E := by
  cases c
  · exact h
  · trivial

theorem ends_orElse {o : Option α} (h : E false r) : (orElse r o).ends E := by
  cases o
  · exact h
  · trivial

theorem ends_read {q : DB → α} : (Tx.read q : Script α).ends E := fun _ => trivial

theorem ends_lockRow {m : LockMode} {p : Row k → Bool} : (lockRow k m p).ends E := fun _ => trivial

theorem ends_update {f : Row k → Option (Row k)} : (update k f).ends E := fun _ => trivial

theorem ends_change {f : Row k → Row k} : (change k f).ends E := fun _ => trivial

end Ends

end Rules
end Script
end Dufaka
