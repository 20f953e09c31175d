import Dufaka.CouponUses
import Dufaka.Stock

/-!
# Forms that were loaded earlier

The owner's forms submit the values their page showed. What a save does to an order, a goods or a
coupon that moved since the page was loaded, and exactly when it does no harm.
-/

namespace Dufaka
open Relational Tx

/-! ### The order form -/

section OrderForms
variable {env : Env} {d : DB} {id : ℕ}

theorem orderStatusRefusal_completed {o : Order} (hc : o.status = .completed) (dst : OrderStatus) :
    orderStatusRefusal o dst = none ↔ dst = .completed := by
  constructor
  · intro h
    rcases Order.status_of_orderStatusRefusal h with h | h
    · exact h.trans hc
    · simp [ownerMayMove, hc] at h
  · rintro rfl
    simp [orderStatusRefusal, manualToShort, owesManualStock, hc]

/-- The save of a form over a completed order, and the information it leaves. -/
theorem orderSave_completed {o : Order} (ho : d.orders.get? id = some o)
    (hc : o.status = .completed) (f : OrderForm) (ids : ℕ → ℕ) :
    (∃ msg, ((orderSave id f).exec ids d).2 = some (.err msg) ∧
      (OrderStatus.ofCode (mustInt f.status 0) ≠ some .completed ∨
        orderTextRefusal f.title.trimSpace f.searchPwd.trimSpace ≠ none ∨ d.loadOrder id = none)) ∨
    (((orderSave id f).exec ids d).2 = some .ok ∧
      OrderStatus.ofCode (mustInt f.status 0) = some .completed ∧
      orderTextRefusal f.title.trimSpace f.searchPwd.trimSpace = none ∧ d.loadOrder id ≠ none ∧
      ∃ o', ((orderSave id f).exec ids d).1.orders.get? id = some o' ∧
        o'.info = Text.normalizeNL f.info) := by
  by_cases hok : d.loadOrder id ≠ none ∧
    orderTextRefusal f.title.trimSpace f.searchPwd.trimSpace = none ∧
      OrderStatus.ofCode (mustInt f.status 0) = some .completed
  · right
    obtain ⟨hload, htext, hdst⟩ := hok
    obtain ⟨row, hrow⟩ := Option.ne_none_iff_exists'.mp hload
    have hget := (loadOrder_some hrow).1
    rw [ho] at hget
    obtain rfl := Option.some.inj hget
    have htake : o.takesStock .completed = false := by
      simp [Order.takesStock, owesManualStock, hc]
    obtain ⟨r, d', hcommit⟩ := exists_commits (orderSave_succeeds ids hrow htext hdst
      ((orderStatusRefusal_completed hc _).mpr rfl) (fun h => by simp [htake] at h))
    obtain ⟨row, dst, hrow', -, hdst', -, rfl, -, rfl⟩ := orderSave_commits hcommit
    rw [hrow] at hrow'
    obtain rfl := Option.some.inj hrow'
    rw [hdst] at hdst'
    obtain rfl := Option.some.inj hdst'
    rw [exec_of_commits hcommit]
    refine ⟨rfl, hdst, htext, hload, _, Table.get?_modify_self _ _ _ |>.trans (by rw [ho]; rfl), ?_⟩
    simp [Order.saved, Order.edited, Order.savedInfo, htake]
  · left
    have hno : ∀ row dst, d.loadOrder id = some row →
        orderTextRefusal f.title.trimSpace f.searchPwd.trimSpace = none →
        OrderStatus.ofCode (mustInt f.status 0) = some dst → orderStatusRefusal row dst ≠ none := by
      intro row dst hrow htext hdst href
      have hget := (loadOrder_some hrow).1
      rw [ho] at hget
      obtain rfl := Option.some.inj hget
      rw [orderStatusRefusal_completed hc] at href
      exact hok ⟨by simp [hrow], htext, by rw [hdst, href]⟩
    obtain ⟨msg, hroll⟩ := orderSave_rollsBack ids hno
    refine ⟨msg, by rw [exec_of_rollsBack hroll], ?_⟩
    tauto

structure DeliveredSince (env : Env) (d : DB) (id : ℕ) (page : Order) (d₁ : DB) (o : Order) :
Prop where
  page : d.loadOrder id = some page
  delivered : ∃ ops sn paid trade redeliver ids cards,
    (settleRequest sn paid trade redeliver).answer env ids (runOps env ops d) =
      (d₁, some (.delivered id cards))
  order : d₁.orders.get? id = some o
  status : o.status = .completed

/-- A form whose page was loaded before the cards were delivered: exactly when its save is refused
or leaves the delivered texts. -/
theorem stale_order_form (env : Env) (d : DB) (id : ℕ) (page : Order) (d₁ : DB) (o : Order)
    (h : DeliveredSince env d id page d₁ o) (ops : List Op) (f : OrderForm)
    (hinfo : Text.normalizeNL f.info = Text.normalizeNL page.info) (ids : ℕ → ℕ) :
    (((Request.orderSave id f).answer env ids (runOps env ops d₁)).2 ≠ some .ok ∨
      ∃ o', ((Request.orderSave id f).answer env ids (runOps env ops d₁)).1.orders.get? id =
      some o' ∧
        o'.info = o.info) ↔
    OrderStatus.ofCode (mustInt f.status 0) ≠ some .completed ∨
      orderTextRefusal f.title.trimSpace f.searchPwd.trimSpace ≠ none ∨
      (runOps env ops d₁).loadOrder id = none ∨ Text.normalizeNL page.info = o.info := by
  obtain ⟨o₂, ho₂, hc₂⟩ := runOps_order env ops (P := fun o => o.status = .completed)
    (fun _ _ _ _ hx hm => hm.completed hx) h.order h.status
  rcases orderSave_completed ho₂ hc₂ f ids with ⟨msg, hans, hwhy⟩ | ⟨hans, hdst, htext, hload, o',
    ho', hi⟩
  · have hans' : ((Request.orderSave id f).answer env ids (runOps env ops d₁)).2 =
        some (.err msg) := hans
    constructor
    · intro _
      tauto
    · intro _
      left
      rw [hans']
      nofun
  · have hans' : ((Request.orderSave id f).answer env ids (runOps env ops d₁)).2 = some .ok := hans
    have hrow : ((Request.orderSave id f).answer env ids (runOps env ops d₁)).1.orders.get? id =
      some o' := ho'
    constructor
    · rintro (h | ⟨o₃, ho₃, hi₃⟩)
      · exact absurd hans' h
      · rw [hrow] at ho₃
        rw [← Option.some.inj ho₃, hi, hinfo] at hi₃
        exact Or.inr (Or.inr (Or.inr hi₃))
    · rintro (h | h | h | h)
      · exact absurd hdst h
      · exact absurd htext h
      · exact absurd h hload
      · exact Or.inr ⟨o', hrow, by rw [hi, hinfo, h]⟩

end OrderForms

/-- The owner opened the page of an unpaid order, and then it was paid for. -/
theorem deliveredSince_tinyPay : DeliveredSince tinyEnv (runOps tinyEnv [tinyBuy 1 1 []] tinyShop) 1
    tinyAutoOrder (runOps tinyEnv [tinyBuy 1 1 [], tinyPay 1] tinyShop)
    (tinyAutoOrder.deliver "card".toList "t".toList .held) where
  page := by decide
  delivered := ⟨[], tinySn 1, 100, "t".toList, false, fun n => n, [1], by decide⟩
  order := by decide
  status := rfl

/-- A form that asks for a status other than 已完成 is refused. -/
theorem stale_order_form_refused :
    ((Request.orderSave 1 ⟨"good".toList, [], [], "5".toList⟩).answer tinyEnv (fun n => n)
      (runOps tinyEnv [tinyBuy 1 1 [], tinyPay 1] tinyShop)).2 ≠ some .ok ∨
    ∃ o', ((Request.orderSave 1 ⟨"good".toList, [], [], "5".toList⟩).answer tinyEnv (fun n => n)
      (runOps tinyEnv [tinyBuy 1 1 [], tinyPay 1] tinyShop)).1.orders.get? 1 = some o' ∧
      o'.info = "card".toList :=
  (stale_order_form _ _ _ _ _ _ deliveredSince_tinyPay [] ⟨"good".toList, [], [], "5".toList⟩ rfl
    (fun n => n)).mpr (Or.inl (by decide))

/-- The stale form of a delivered order, submitted as 已完成, empties the card texts. -/
theorem stale_order_form_overwrites :
    ¬ ∀ (env : Env) (d : DB) (id : ℕ) (page : Order) (d₁ : DB) (o : Order) (ops : List Op)
      (f : OrderForm) (ids : ℕ → ℕ), DeliveredSince env d id page d₁ o → f.info = page.info →
      ((Request.orderSave id f).answer env ids (runOps env ops d₁)).2 ≠ some .ok ∨
        ∃ o', ((Request.orderSave id f).answer env ids (runOps env ops d₁)).1.orders.get? id =
        some o' ∧
          o'.info = o.info := by
  intro h
  rcases h _ _ _ _ _ _ [] ⟨"good".toList, [], [],
    "4".toList⟩ (fun n => n) deliveredSince_tinyPay rfl
    with hans | ⟨o', ho', hi⟩
  · exact hans (by decide)
  · have hrow : ((Request.orderSave 1 ⟨"good".toList, [], [], "4".toList⟩).answer tinyEnv
        (fun n => n)
        (runOps tinyEnv [] (runOps tinyEnv [tinyBuy 1 1 [], tinyPay 1] tinyShop))).1.orders.get? 1 =
        some (tinyAutoOrder.deliver [] "t".toList .held) := by decide
    rw [hrow] at ho'
    rw [← Option.some.inj ho'] at hi
    revert hi
    decide

/-! ### The goods and coupon forms -/

def Op.isSale : Op → Bool
  | .request (.createOrder _ _ _) _ | .request (.complete _ _ _) _ | .request (.redeliver _) _
  | .expireDue _ _ | .tick _ => true
  | _ => false

/-- What an order of the goods bought, once it was handed over or is being handled. -/
def Order.handedOf (gid : ℕ) (o : Order) : ℤ :=
  if o.goodsId = gid ∧ (o.status = .pending ∨ o.status = .processing ∨ o.status = .completed) then
    o.buyAmount else 0

def DB.handedOver (d : DB) (gid : ℕ) : ℤ := d.orders.sum (fun _ o => o.handedOf gid)

def DB.SalesKept (gid : ℕ) (d d' : DB) : Prop :=
  ∀ g, d.goods.get? gid = some g → ∃ g', d'.goods.get? gid = some g' ∧
    g'.salesVolume - d'.handedOver gid = g.salesVolume - d.handedOver gid

section Sales
variable {env : Env} {d d' d'' : DB} {gid : ℕ} {op : Op}

theorem DB.SalesKept.refl (gid : ℕ) (d : DB) : d.SalesKept gid d := fun g hg => ⟨g, hg, rfl⟩

theorem DB.SalesKept.trans (h : d.SalesKept gid d') (h' : d'.SalesKept gid d'') :
    d.SalesKept gid d'' := by
  intro g hg
  obtain ⟨g', hg', he⟩ := h g hg
  obtain ⟨g'', hg'', he'⟩ := h' g' hg'
  exact ⟨g'', hg'', he'.trans he⟩

theorem handedOver_modify {id : ℕ} {o : Order} (f : Order → Order) (ho : d.orders.get? id = some o)
    (h : d'.orders = d.orders.modify id f) :
    d'.handedOver gid = d.handedOver gid + (f o).handedOf gid - o.handedOf gid := by
  rw [DB.handedOver, h, Table.sum_modify ho]
  rfl

theorem Order.payable.handedOf {o : Order} (h : o.payable) : o.handedOf gid = 0 := by
  rcases h with h | h | ⟨h, -⟩ <;> simp [Order.handedOf, h]

theorem settled_salesKept {id : ℕ} {o : Order} {trade : Text} {redeliver : Bool} {r : Reply}
    (ho : d.orders.get? id = some o) (hs : Settled d id o trade redeliver r d') :
    d.SalesKept gid d' := by
  cases hs with
  | already => exact .refl gid d
  | @short coupons back hp =>
      intro g hg
      refine ⟨g, hg, ?_⟩
      rw [handedOver_modify (fun o => o.short trade back) ho rfl, hp.handedOf]
      simp [Order.handedOf, Order.short]
  | @cards coupons back cards hp =>
      intro g hg
      obtain ⟨g', hg', -, hs'⟩ := get?_addSales o.goodsId o.buyAmount hg
      refine ⟨g', hg', ?_⟩
      rw [handedOver_modify (fun o => o.deliver (d.cardTexts cards) trade back) ho rfl, hp.handedOf,
        hs']
      simp [Order.handedOf, Order.deliver]
  | @manual coupons back hp =>
      intro g hg
      have hpay : o.payable := hp.imp_right Or.inl
      have hmoved : ∃ g₁, (if o.status = .expired then
          o.type.moveStock d.goods o.goodsId (-o.buyAmount) else d.goods).get? gid = some g₁ ∧
          g₁.salesVolume = g.salesVolume := by
        split_ifs
        · obtain ⟨g₁, hg₁, -, hs₁⟩ := get?_moveStock o.type o.goodsId (-o.buyAmount) hg
          exact ⟨g₁, hg₁, hs₁⟩
        · exact ⟨g, hg, rfl⟩
      obtain ⟨g₁, hg₁, hs₁⟩ := hmoved
      obtain ⟨g', hg', -, hs'⟩ := get?_addSales o.goodsId o.buyAmount hg₁
      refine ⟨g', hg', ?_⟩
      rw [handedOver_modify (fun o => o.handToOwner trade back) ho rfl, hpay.handedOf, hs', hs₁]
      simp [Order.handedOf, Order.handToOwner]

theorem DB.Created.salesKept {id : ℕ} {o : Order} {reserved : List ℕ}
    (h : d.Created d' id o reserved) : d.SalesKept gid d' := by
  intro g hg
  obtain ⟨g', hg', -, hs'⟩ := get?_moveStock o.type o.goodsId (-o.buyAmount) hg
  refine ⟨g', by rw [h.goods, hg'], ?_⟩
  rw [hs', DB.handedOver, h.orders, Table.sum_put_of_none _ _ h.fresh]
  simp [Order.handedOf, h.status, DB.handedOver]

theorem expire_salesKept {id : ℕ} {o : Order} (ho : d.orders.get? id = some o)
    (hu : o.status = .unpaid) : d.SalesKept gid (d.expire id o.couponId o) := by
  intro g hg
  obtain ⟨g', hg', -, hs'⟩ := get?_moveStock o.type o.goodsId o.buyAmount hg
  refine ⟨g', hg', ?_⟩
  rw [hs', handedOver_modify Order.expire ho rfl]
  simp [Order.handedOf, Order.expire, hu]

theorem runOps_salesKept (env : Env) (ops : List Op) (hsale : ∀ op ∈ ops, op.isSale = true) :
    d.SalesKept gid (runOps env ops d) := by
  refine runOps_induct (P := fun x => d.SalesKept gid x) (fun x op hop hx => ?_) (.refl gid d)
  refine apply_induct (P := fun x => d.SalesKept gid x) ?_
    (fun x id o hx ho hu => hx.trans (expire_salesKept ho hu)) (fun n hx => hx) hx
  rintro r ids reply d' rfl hx hc
  have hop' := hsale _ hop
  refine hx.trans ?_
  cases r with
  | createOrder rand inp site =>
      obtain ⟨g, c, q, info, id, reserved, made, -, hcr⟩ := createOrder_commits hc
      exact hcr.salesKept
  | complete sn paid trade =>
      obtain ⟨id, o, hfound, -, -, hs⟩ := settle_commits hc
      exact settled_salesKept (DB.orderBySn_some hfound).1 hs
  | redeliver sn =>
      obtain ⟨id, o, hfound, -, -, hs⟩ := settle_commits hc
      exact settled_salesKept (DB.orderBySn_some hfound).1 hs
  | _ => cases hop'

end Sales

theorem parseIntField_itoa {n m : ℤ} {label : Text} {empty : ℤ} {allowEmpty : Bool}
    (h : parseIntField (Text.itoa n) label empty allowEmpty = .ok m) : m = n := by
  unfold parseIntField at h
  simp only [Text.trimSpace_itoa, Text.itoa_ne_nil, if_false] at h
  split at h
  · rename_i k hk
    obtain rfl := Except.ok.inj h
    exact Text.parseInt_itoa hk
  · cases h

/-- The number a form field submits back as it was shown. -/
theorem mustInt_itoa {n : ℤ} :
    mustInt (Text.itoa n) (-1) = n ∨ mustInt (Text.itoa n) (-1) = -1 := by
  unfold mustInt
  split_ifs
  · exact Or.inr rfl
  · rw [Text.trimSpace_itoa]
    cases hp : Text.parseInt (Text.itoa n) with
    | none => exact Or.inr rfl
    | some m => exact Or.inl (Text.parseInt_itoa hp)

/-- The stock and sales fields of a goods form that was read. -/
theorem readGoodForm_stock {r : GoodInput} {f : GoodForm} {stock sales : ℤ}
    (hstock : r.inStock = Text.itoa stock) (hsales : r.sales = Text.itoa sales)
    (h : readGoodForm r = .ok f) : f.inStock = stock ∧ f.sales = sales := by
  simp only [readGoodForm, hstock, hsales, except_bind_ok] at h
  obtain ⟨_, -, _, -, _, -, stock', hs, sales', hs', _, -, _, -, _, -, _, -, h⟩ := h
  split at h
  · cases h
  · rw [← Except.ok.inj h]
    exact ⟨parseIntField_itoa hs, parseIntField_itoa hs'⟩

/-- The remaining uses of a coupon form that was read. -/
theorem readCoupon_ret {r : CouponInput} {f : CouponForm} {ret : ℤ} (hret : r.ret = Text.itoa ret)
    (h : readCoupon r = .ok f) : f.ret = ret := by
  rw [readCoupon, except_bind_ok] at h
  obtain ⟨discount, -, h⟩ := h
  simp only [] at h
  split at h
  · cases h
  split at h
  · cases h
  split at h
  · cases h
  rename_i hret'
  split at h
  · cases h
  split at h
  · cases h
  obtain ⟨goods, -, h⟩ := except_bind_ok.mp h
  rw [← Except.ok.inj h]
  show mustInt r.ret (-1) = ret
  rw [hret] at hret' ⊢
  rcases mustInt_itoa with hm | hm
  · exact hm
  · rw [hm] at hret'
    simp at hret'

section Saved
variable {d d' : DB} {ids : ℕ → ℕ} {reply : Reply}

/-- A committed goods form writes the stock and the sales it was given. -/
theorem goodsSave_stock {gid : ℕ} {r : GoodInput} {stock sales : ℤ} {g : Good} (hid : gid ≠ 0)
    (hstock : r.inStock = Text.itoa stock) (hsales : r.sales = Text.itoa sales)
    (h : (goodsSave gid r).commits ids d reply d') (hg : d'.goods.get? gid = some g) :
    g.inStock = stock ∧ g.salesVolume = sales := by
  obtain ⟨f, hf, -, ⟨hzero, -⟩ | ⟨g₁, hg₁, -, rfl⟩⟩ := goodsSave_commits h
  · exact absurd hzero hid
  · rw [Table.get?_modify_self, hg₁, Option.map_some] at hg
    rw [← Option.some.inj hg]
    exact readGoodForm_stock hstock hsales hf

/-- A committed coupon form writes the remaining uses it was given. -/
theorem couponSave_ret {cid : ℕ} {r : CouponInput} {ret : ℤ} {c : Coupon} (hid : cid ≠ 0)
    (hret : r.ret = Text.itoa ret) (h : (couponSave cid r).commits ids d reply d')
    (hc : d'.coupons.get? cid = some c) : c.ret = ret := by
  obtain ⟨f, hf, -, goods, ⟨hzero, -⟩ | ⟨c₁, hc₁, -, rfl⟩⟩ := couponSave_commits h
  · exact absurd hzero hid
  · rw [Table.get?_modify_self, hc₁, Option.map_some] at hc
    rw [← Option.some.inj hc]
    exact readCoupon_ret hret hf

end Saved

/-- A goods or coupon form submitted with the stock, sales and uses its page showed: exactly when
the save changes none of them. -/
theorem stale_edit_forms (env : Env) (d₀ : DB) (h₀ : d₀.orders = Table.empty) (pre ops : List Op)
    (hsale : ∀ op ∈ ops, op.isSale = true) (d d₁ : DB) (hd : d = runOps env pre d₀)
    (hd₁ : d₁ = runOps env ops d) :
    (∀ gid page r ids reply d₂ g₁ g₂, gid ≠ 0 → d.loadGood gid = some page →
      r.inStock = Text.itoa page.inStock → r.sales = Text.itoa page.sales →
      (goodsSave gid r).commits ids d₁ reply d₂ → d₁.goods.get? gid = some g₁ →
      d₂.goods.get? gid = some g₂ →
      (g₂.inStock = g₁.inStock ∧ g₂.salesVolume = g₁.salesVolume ↔
        d₁.heldStock gid = d.heldStock gid ∧ d₁.handedOver gid = d.handedOver gid)) ∧
    ∀ cid page r ids reply d₂ c₁ c₂, cid ≠ 0 → d.couponEdit cid = some page →
      r.ret = Text.itoa page.ret → (couponSave cid r).commits ids d₁ reply d₂ →
      d₁.coupons.get? cid = some c₁ → d₂.coupons.get? cid = some c₂ →
      (c₂.ret = c₁.ret ↔ d₁.heldUses cid = d.heldUses cid) := by
  constructor
  · intro gid page r ids reply d₂ g₁ g₂ hid hpage hstock hsales hc hg₁ hg₂
    obtain ⟨g, hg, rfl⟩ := Option.map_eq_some_iff.mp hpage
    have hget := (Option.filter_eq_some_iff.mp hg).1
    obtain ⟨hs, hv⟩ : g₂.inStock = g.inStock ∧ g₂.salesVolume = g.salesVolume :=
      goodsSave_stock hid hstock hsales hc hg₂
    have hpos : d.Positive := hd ▸ runOps_positive env pre h₀
    obtain ⟨g₃, hg₃, hheld, -⟩ := runOps_stockKept env ops hpos
      (fun f ids hf => by have := hsale _ hf; cases this) g hget
    obtain ⟨g₄, hg₄, hsold⟩ := runOps_salesKept env ops hsale g hget
    rw [← hd₁] at hg₃ hg₄ hheld hsold
    rw [hg₁] at hg₃ hg₄
    obtain rfl := Option.some.inj hg₃
    obtain rfl := Option.some.inj hg₄
    rw [hs, hv]
    constructor
    · rintro ⟨hs', hv'⟩
      constructor <;> omega
    · rintro ⟨hs', hv'⟩
      constructor <;> omega
  · intro cid page r ids reply d₂ c₁ c₂ hid hpage hret hc hc₁ hc₂
    obtain ⟨c, hcoupon, rfl⟩ := Option.map_eq_some_iff.mp hpage
    have hget := (Option.filter_eq_some_iff.mp hcoupon).1
    have hr : c₂.ret = c.ret := couponSave_ret hid hret hc hc₂
    have hheld : d.UsesHeld := hd ▸ runOps_usesHeld env pre h₀
    obtain ⟨c₃, hc₃, huses, -⟩ := runOps_usesKept env ops (Nat.pos_of_ne_zero hid) hheld
      (fun f ids hf => by have := hsale _ hf; cases this) c hget
    rw [← hd₁] at hc₃ huses
    rw [hc₁] at hc₃
    obtain rfl := Option.some.inj hc₃
    rw [hr]
    constructor <;> intro h <;> omega

/-- The goods form of the small shop's manual goods, as its page was loaded before a sale. -/
def tinyGoodInput : GoodInput where
  groupId := "1".toList
  name := "good".toList
  desc := "good".toList
  keywords := "good".toList
  picture := []
  retail := "1.00".toList
  actual := "1.00".toList
  inStock := Text.itoa 1
  sales := Text.itoa 0
  ord := "1".toList
  buyLimit := "0".toList
  prompt := []
  detail := []
  type := "2".toList
  wholesale := []
  other := []
  hook := []
  isOpen := "1".toList

def tinySold : DB := runOps tinyEnv [tinyBuy 2 1 []] tinyShop

/-- The form that was loaded before the sale is saved after it. -/
theorem tinyGoodInput_saved : (goodsSave 2 tinyGoodInput).commits (fun n => n) tinySold .ok
    { tinySold with goods := tinySold.goods.put 2 (tinyGood .manual 1) } :=
  commits_of_exec (by decide +kernel) (by decide +kernel)

/-- The save brings the sold piece back, and the order still holds it. -/
theorem stale_edit_forms_sold :
    (1 : ℤ) = 0 ∧ (0 : ℤ) = 0 ↔ tinySold.heldStock 2 = tinyShop.heldStock 2 ∧
      tinySold.handedOver 2 = tinyShop.handedOver 2 :=
  (stale_edit_forms tinyEnv tinyShop rfl [] [tinyBuy 2 1 []] (by decide) tinyShop tinySold rfl
    rfl).1
    2 _ tinyGoodInput (fun n => n) .ok _ (tinyGood .manual 0) (tinyGood .manual 1) (by decide)
    (Option.some_get (by decide : (tinyShop.loadGood 2).isSome = true)).symm (by decide)
    (by decide) tinyGoodInput_saved (by decide) (by decide)

/-- A form loaded before a sale and saved after it makes the sold stock sellable again. -/
theorem stale_goods_form_resells :
    ¬ ∀ (env : Env) (d₀ : DB) (pre ops : List Op) (gid : ℕ) (page : GoodForm) (r : GoodInput)
      (ids : ℕ → ℕ) (reply : Reply) (d₂ : DB) (g₁ g₂ : Good), d₀.orders = Table.empty →
      (∀ op ∈ ops, op.isSale = true) → (runOps env pre d₀).loadGood gid = some page →
      r.inStock = Text.itoa page.inStock → r.sales = Text.itoa page.sales →
      (goodsSave gid r).commits ids (runOps env ops (runOps env pre d₀)) reply d₂ →
      (runOps env ops (runOps env pre d₀)).goods.get? gid = some g₁ → d₂.goods.get? gid = some g₂ →
      g₂.inStock = g₁.inStock ∧ g₂.salesVolume = g₁.salesVolume := by
  intro h
  have hsame := h tinyEnv tinyShop [] [tinyBuy 2 1 []] 2 _ tinyGoodInput (fun n => n) .ok _
    (tinyGood .manual 0) (tinyGood .manual 1) rfl (by decide)
    (Option.some_get (by decide : (tinyShop.loadGood 2).isSome = true)).symm (by decide)
    (by decide) tinyGoodInput_saved (by decide) (by decide)
  revert hsame
  decide

end Dufaka
