import Dufaka.BackOfficeEffect

/-!
# Runs of whole operations

Every request as one transaction that nothing interrupts, a sweep as the transactions of the orders
it found, and the passing of time. An operation the server rejects leaves the database as it was. A
run is a list of operations; what each kind of committed transaction keeps, every run keeps.
-/

namespace Dufaka
open Relational

inductive Request where
  | createOrder (rand : Fin 8 → Fin 256) (inp : CreateInput) (site : Site)
  | complete (sn : Text) (paid : Cents) (tradeNo : Text)
  | redeliver (sn : Text)
  | lockCldxQuote (sn : Text) (minor expires : ℤ)
  | lockUSDTInvoice (sn : Text) (onTime : Bool) (created : Option Text)
  | orderSave (id : ℕ) (f : OrderForm)
  | goodsSave (id : ℕ) (r : GoodInput)
  | couponSave (id : ℕ) (r : CouponInput)
  | carmiSave (id : ℕ) (f : CarmiForm)
  | carmisImport (f : ImportForm)
  | markDeleted (table : AdminTable) (id : ℕ) (restore : Bool)

def Request.script (env : Env) (now : ℤ) : Request → Script Empty
  | createOrder rand inp site => Dufaka.createOrder env (newSN rand) inp site now
  | complete sn paid tradeNo => Dufaka.complete sn paid tradeNo
  | redeliver sn => Dufaka.redeliver sn
  | lockCldxQuote sn minor expires => Dufaka.lockCldxQuote sn minor expires
  | lockUSDTInvoice sn onTime created => Dufaka.lockUSDTInvoice sn onTime created
  | orderSave id f => Dufaka.orderSave id f
  | goodsSave id r => Dufaka.goodsSave id r
  | couponSave id r => Dufaka.couponSave id r
  | carmiSave id f => Dufaka.carmiSave id f
  | carmisImport f => Dufaka.carmisImport f
  | markDeleted table id restore => Dufaka.markDeleted table id restore

/-- One operation. `ids` are the identities the server would hand out, and a sweep handles the first
`count` orders it found: an error ends it early. -/
inductive Op where
  | request (r : Request) (ids : ℕ → ℕ)
  | expireDue (minutes : ℤ) (count : ℕ)
  | tick (n : ℕ)

namespace DB

def tick (d : DB) (n : ℕ) : DB := { d with clock := d.clock + n }

def expireAll (d : DB) (due : List (ℕ × ℕ)) : DB :=
  due.foldl (fun d e => ((expireOne e.1 e.2).exec (fun n => n) d).1) d

end DB

def Request.answer (env : Env) (r : Request) (ids : ℕ → ℕ) (d : DB) : DB × Option Reply :=
  (r.script env d.clock).exec ids d

def Op.apply (env : Env) (d : DB) : Op → DB
  | request r ids => (r.answer env ids d).1
  | expireDue minutes count => d.expireAll ((d.dueOrders minutes).take count)
  | tick n => d.tick n

def runOps (env : Env) (ops : List Op) (d : DB) : DB := ops.foldl (Op.apply env) d

section Runs
variable {env : Env} {d : DB}

@[simp] theorem runOps_nil : runOps env [] d = d := rfl

theorem runOps_append (ops ops' : List Op) :
    runOps env (ops ++ ops') d = runOps env ops' (runOps env ops d) := by
  simp [runOps]

theorem runOps_snoc (ops : List Op) (op : Op) :
    runOps env (ops ++ [op]) d = op.apply env (runOps env ops d) := by
  simp [runOps]

/-- An expiry either finds the order unpaid and hands back what it held, or changes nothing. -/
theorem expireOne_exec (d : DB) (id coupon : ℕ) (ids : ℕ → ℕ) :
    ((expireOne id coupon).exec ids d).1 = d ∨ ∃ o, d.orders.get? id = some o ∧ o.status = .unpaid ∧
      ((expireOne id coupon).exec ids d).1 = d.expire id coupon o := by
  rcases Tx.exec_fst (expireOne id coupon) ids d with h | ⟨r, d', hc, he⟩
  · exact Or.inl h
  · rcases expireOne_commits hc with ⟨rfl, -⟩ | ⟨o, hget, hu, -, rfl⟩
    · exact Or.inl (by rw [he])
    · exact Or.inr ⟨o, hget, hu, by rw [he]⟩

/-- The coupons a sweep read are those of the orders, and stay so while it works. -/
theorem dueOrders_coupon {minutes : ℤ} {e : ℕ × ℕ} (he : e ∈ d.dueOrders minutes) {o : Order}
    (ho : d.orders.get? e.1 = some o) : o.couponId = e.2 := by
  obtain ⟨⟨i, o'⟩, hm, rfl⟩ := List.mem_map.mp he
  obtain ⟨hget, -⟩ := (d.orders.mem_select_iff _ i o').mp hm
  rw [hget] at ho
  rw [Option.some.inj ho]

/-- What every expiry of an unpaid order keeps, a sweep keeps. -/
theorem expireAll_induct {P : DB → Prop}
    (hstep : ∀ (d : DB) id o, P d → d.orders.get? id = some o → o.status = .unpaid →
      P (d.expire id o.couponId o))
    (due : List (ℕ × ℕ)) (d : DB)
    (hdue : ∀ e ∈ due, ∀ o, d.orders.get? e.1 = some o → o.couponId = e.2) (h : P d) :
    P (d.expireAll due) := by
  induction due generalizing d with
  | nil => exact h
  | cons e due ih =>
      rw [DB.expireAll, List.foldl_cons]
      rcases expireOne_exec d e.1 e.2 (fun n => n) with hd | ⟨o, hget, hu, hd⟩
      · rw [hd]
        exact ih d (fun e' he' => hdue e' (by simp [he'])) h
      · rw [hd, ← hdue e (by simp) o hget]
        refine ih _ ?_ (hstep d e.1 o h hget hu)
        intro e' he' o' ho'
        simp only [DB.expire, Table.get?_modify] at ho'
        split_ifs at ho' with hi
        · obtain ⟨o'', ho'', rfl⟩ := Option.map_eq_some_iff.mp ho'
          exact hdue e' (by simp [he']) o'' (by rw [hi]; exact ho'')
        · exact hdue e' (by simp [he']) o' ho'

/-- What every committed request, every expiry and the passing of time keep, an operation keeps. -/
theorem apply_induct {P : DB → Prop} {op : Op}
    (hrequest : ∀ r ids reply d', op = .request r ids → P d →
      (r.script env d.clock).commits ids d reply d' → P d')
    (hexpire : ∀ (d : DB) id o, P d → d.orders.get? id = some o → o.status = .unpaid →
      P (d.expire id o.couponId o))
    (htick : ∀ n, P d → P (d.tick n)) (h : P d) : P (op.apply env d) := by
  cases op with
  | request r ids =>
      rcases Tx.exec_fst (r.script env d.clock) ids d with hd | ⟨reply, d', hc, he⟩
      · rw [Op.apply, Request.answer, hd]
        exact h
      · rw [Op.apply, Request.answer, he]
        exact hrequest r ids reply d' rfl h hc
  | expireDue minutes count =>
      refine expireAll_induct hexpire _ d ?_ h
      exact fun e he o ho => dueOrders_coupon (List.mem_of_mem_take he) ho
  | tick n => exact htick n h

/-- An invariant of the operations of a run holds after the run. -/
theorem runOps_induct {P : DB → Prop} {ops : List Op}
    (hstep : ∀ (d : DB) op, op ∈ ops → P d → P (op.apply env d)) (h : P d) :
    P (runOps env ops d) := by
  induction ops generalizing d with
  | nil => exact h
  | cons op ops ih =>
      exact ih (fun d op' hop => hstep d op' (by simp [hop])) (hstep d op (by simp) h)

end Runs

/-! ### A small shop -/

def tinyEnv : Env := ⟨some, id⟩

def tinyGood (type : GoodsType) (inStock : ℤ) : Good where
  groupId := 1
  name := "good".toList
  desc := "good".toList
  keywords := "good".toList
  picture := []
  retailPrice := 100
  actualPrice := 100
  inStock := inStock
  salesVolume := 0
  ord := 1
  buyLimitNum := 0
  buyPrompt := []
  description := []
  type := type
  wholesalePriceCnf := []
  otherIpuCnf := []
  apiHook := []
  isOpen := 1
  deleted := false

/-- One card of an automatic goods, one piece of a manual goods, and a coupon with one use. -/
def tinyShop : DB where
  clock := 0
  goodsGroup := .ofList [(1, ⟨false⟩)]
  goods := .ofList [(1, tinyGood .auto 0), (2, tinyGood .manual 1)]
  carmis := .ofList [(1, ⟨1, .unsold, 0, "card".toList, none, false⟩)]
  coupons := .ofList [(1, ⟨10, 1, 1, "code".toList, 1, false⟩)]
  couponsGoods := .ofList [(1, [1, 2])]
  pays :=
    .ofList [(1, ⟨1, "wescan".toList, "1900".toList, List.replicate 32 'k', "pem".toList, false⟩)]
  orders := .empty

theorem tinyShop_free (i : ℕ) (c : Carmi) (h : tinyShop.carmis.get? i = some c) :
    c.reservedOrderId = none := by
  have hall : ∀ e ∈ tinyShop.carmis.entries, e.2.reservedOrderId = none := by decide
  exact hall (i, c) ((tinyShop.carmis.mem_entries_iff i c).mpr h)

def tinySn (n : ℕ) : Text := newSN (fun _ => Fin.ofNat 256 n)

def tinyInput (gid : ℕ) (coupon : Text) : CreateInput :=
  ⟨gid, 1, 1, "e".toList, [], coupon, [], [], []⟩

def tinyBuy (gid n : ℕ) (coupon : Text) : Op :=
  .request (.createOrder (fun _ => Fin.ofNat 256 n) (tinyInput gid coupon) ⟨false, 5⟩) (fun _ => n)

def tinyOrder (n : ℕ) : Order :=
  newOrder (tinySn n) (tinyInput 2 []) (tinyGood .manual 1) 0 ⟨100, 0, 0, 100⟩ [] 0

def tinyAutoOrder : Order :=
  newOrder (tinySn 1) (tinyInput 1 []) (tinyGood .auto 1) 0 ⟨100, 0, 0, 100⟩ [] 0

def tinyPay (n : ℕ) : Op := .request (.complete (tinySn n) 100 "t".toList) (fun n => n)

def tinySave (n : ℕ) (info : Text) (status : OrderStatus) : Op :=
  .request (.orderSave n ⟨"good".toList, info, [], Text.itoa status.code⟩) (fun n => n)

end Dufaka
