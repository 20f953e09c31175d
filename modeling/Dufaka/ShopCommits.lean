import Dufaka.OwnerEffects

/-!
# The commits of the shop

`ShopStep` lists what one commit of a transaction does to the database, whatever the others
committed since it began. Every commit of an interleaving is one of these steps, and each respects
what the owners of other locks rely on. So the committed databases of an interleaving are a sequence
of `ShopStep`s, and what each of them keeps, every interleaving keeps.
-/

namespace Dufaka
open Relational Tx Script

/-- A commit of a transaction that began at `now` and holds the locks `L`. -/
inductive ShopStep (env : Env) (calm : Prop) (now : ℤ) (L : Locks Key) (d : DB) :
    ShopTx → Reply → DB → Prop
  | same {tag : ShopTx} {r : Reply} (hr : r.handed = []) : ShopStep env calm now L d tag r d
  | created {rand : Fin 8 → Fin 256} {inp : CreateInput} {site : Site} {g : Good} {couponId : ℕ}
      {q : Quote} {info : Text} {id : ℕ} {reserved : List ℕ} {made : Order} {d' : DB}
      (h : d.CheckedOut d' id (newOrder (newSN rand) inp g couponId q info now) reserved)
      (hown : Owns L (.order id)) (hemail : Owns L (.advisory (emailKey (env.toLower inp.email))))
      (hsource : inp.source ≠ [] → Owns L (.advisory (sourceKey inp.source)))
      (hroom : calm → d.HasRoom env inp (now - effectiveMinutes site.expireMin * minute)) :
      ShopStep env calm now L d (.request (.createOrder rand inp site)) (.created id made) d'
  | settled {paid : Cents} {tradeNo : Text} {redeliver : Bool} {id : ℕ} {o : Order} {r : Reply}
      {d' : DB}
      (ho : d.orders.get? id = some o) (hown : Owns L (.order id))
      (hback : redeliver = true → o.status = .abnormal ∧ o.type = .auto)
      (hpaid : redeliver = false → paid = o.actualPrice)
      (h : SettledAmong d id o (o.tradeFor tradeNo redeliver) redeliver r d') :
      ShopStep env calm now L d (.request (settleRequest o.orderSn paid tradeNo redeliver)) r d'
  | expired {minutes : ℤ} {n id : ℕ} {o : Order} (ho : d.orders.get? id = some o)
      (hu : o.status = .unpaid) (hown : Owns L (.order id))
      (hdue : o.createdAt < now - effectiveMinutes minutes * minute) :
      ShopStep env calm now L d (.expire minutes n) (.expired id) (d.expire id o.couponId o)
  | saved {id : ℕ} {f : OrderForm} {o : Order} {trade : Text} {dst : OrderStatus}
      (ho : d.orders.get? id = some o) (hdst : OrderStatus.ofCode (mustInt f.status 0) = some dst)
      (hstatus : orderStatusRefusal { o with tradeNo := trade } dst = none)
        (hown : Owns L (.order id))
      (htake : o.takesStock dst = true →
        ∃ g, d.goods.get? o.goodsId = some g ∧ o.buyAmount ≤ g.inStock) :
      ShopStep env calm now L d (.request (.orderSave id f)) .ok
        (d.saveOrder id o f.title.trimSpace f.info f.searchPwd.trimSpace dst)
  | quoted {tag : ShopTx} {r : Reply} {id : ℕ} {o o' : Order} (ho : d.orders.get? id = some o)
      (h : o.quotedAs o') (hown : Owns L (.order id)) (hr : r.handed = []) :
      ShopStep env calm now L d tag r { d with orders := d.orders.put id o' }
  | goodsSaved {id i : ℕ} {f : GoodInput} {row : Good} (h : (id = 0 ∧ d.goods.get? i = none) ∨
      i = id) :
      ShopStep env calm now L d
        (.request (.goodsSave id f)) .ok { d with goods := d.goods.put i row }
  | couponSaved {id i : ℕ} {f : CouponInput} {row : Coupon} {goods : Table (List ℕ)}
      (h : (id = 0 ∧ d.coupons.get? i = none) ∨ i = id) :
      ShopStep env calm now L d (.request (.couponSave id f)) .ok
        { d with coupons := d.coupons.put i row, couponsGoods := goods }
  | carmiSaved {id : ℕ} {f : CarmiForm} {c c' : Carmi} (hc : d.carmis.get? id = some c)
      (hfree : c.reservedOrderId = none) (hunsold : c.status = .unsold)
      (hfree' : c'.reservedOrderId = none) :
      ShopStep env calm now L d
        (.request (.carmiSave id f)) .ok { d with carmis := d.carmis.put id c' }
  | imported {f : ImportForm} {carmis : Table Carmi} (h : ∀ i, carmis.get? i = d.carmis.get? i ∨
      (d.carmis.get? i = none ∧ ∃ c, carmis.get? i = some c ∧ c.reservedOrderId = none ∧
        c.status = .unsold ∧ c.deleted = false)) :
      ShopStep env calm now L d (.request (.carmisImport f)) .ok { d with carmis := carmis }
  | flipped {table : AdminTable} {id : ℕ} {restore : Bool} {d' : DB}
      (h : d.Flipped table id restore d')
      (hown : table = .orders → Owns L (.order id)) :
      ShopStep env calm now L d (.request (.markDeleted table id restore)) .ok d'

section Steps
variable {env : Env} {calm : Prop} {now : ℤ} {tag : ShopTx} {r : Reply} {d₀ d d' : DB}
  {L L' : Locks Key}
  {w : Writes Row}

theorem request_commitsAt_step {q : Request}
    (h : (q.script env now).commitsAt (shopRely env calm) d [] [] r L w) :
    ShopStep env calm now L d (.request q) r (view d w) := by
  cases q with
  | createOrder rand inp site =>
      obtain ⟨g, c, q, info, id, reserved, made, rfl, hc, hid, hemail, hsource, hroom⟩ :=
        createOrder_commitsAt h
      exact .created hc hid hemail hsource hroom
  | complete sn paid tradeNo =>
      obtain ⟨id, o, ho, rfl, hown, hback, hpaid, hs⟩ := settle_commitsAt h
      show ShopStep env calm now L d (.request (settleRequest o.orderSn paid tradeNo false)) r
        (view d w)
      exact .settled ho hown hback hpaid hs
  | redeliver sn =>
      obtain ⟨id, o, ho, rfl, hown, hback, hpaid, hs⟩ := settle_commitsAt h
      show ShopStep env calm now L d (.request (settleRequest o.orderSn 0 [] true)) r (view d w)
      exact .settled ho hown hback hpaid hs
  | lockCldxQuote sn minor expires =>
      obtain ⟨hr, id, o, o', ho, hq, hown, hd⟩ := lockCldxQuote_commitsAt h
      exact hd ▸ .quoted ho hq hown hr
  | lockUSDTInvoice sn onTime created =>
      obtain ⟨hr, hd | ⟨id, o, o', ho, hq, hown, hd⟩⟩ := lockUSDTInvoice_commitsAt h
      · rw [hd]
        exact .same hr
      · exact hd ▸ .quoted ho hq hown hr
  | orderSave id f =>
      obtain ⟨o, trade, dst, ho, hdst, hstatus, rfl, hown, htake, hd⟩ := orderSave_commitsAt h
      exact hd ▸ .saved ho hdst hstatus hown htake
  | goodsSave id f =>
      obtain ⟨rfl, i, row, hd, hi⟩ := goodsSave_commitsAt h
      exact hd ▸ .goodsSaved hi
  | couponSave id f =>
      obtain ⟨rfl, i, row, goods, hd, hi⟩ := couponSave_commitsAt h
      exact hd ▸ .couponSaved hi
  | carmiSave id f =>
      obtain ⟨rfl, c, c', hc, hfree, hunsold, hfree', hd⟩ := carmiSave_commitsAt h
      exact hd ▸ .carmiSaved hc hfree hunsold hfree'
  | carmisImport f =>
      obtain ⟨rfl, carmis, hd, hi⟩ := carmisImport_commitsAt h
      exact hd ▸ .imported hi
  | markDeleted table id restore =>
      obtain ⟨rfl, hf, hown⟩ := markDeleted_commitsAt h
      exact .flipped hf hown

theorem ShopTx.commitsAt_step (h₀ : (shopRely env calm).Past [] d₀ d)
    (h : (tag.script env d₀).commitsAt (shopRely env calm) d [] [] r L w) :
    ShopStep env calm d₀.clock L d tag r (view d w) := by
  cases tag with
  | request q => exact request_commitsAt_step h
  | expire minutes n =>
      rw [ShopTx.script] at h
      cases he : (d₀.dueOrders minutes)[n]? with
      | none =>
          rw [he] at h
          obtain ⟨rfl, -, rfl⟩ := commitsAt_commit.mp h
          exact .same rfl
      | some e =>
          rw [he] at h
          -- the sweep read an order that keeps its coupon and its age
          have hread : ∀ o, d.orders.get? e.1 = some o →
              o.couponId = e.2 ∧ o.createdAt < d₀.clock - effectiveMinutes minutes * minute := by
            intro o ho
            obtain ⟨⟨i, o₀⟩, hm, rfl⟩ := List.mem_map.mp (List.mem_of_getElem? he)
            obtain ⟨hget, hdue⟩ := (d₀.orders.mem_select_iff _ i o₀).mp hm
            obtain ⟨o₁, ho₁, hon⟩ := h₀.rely.orders i o₀ hget
            obtain rfl := Option.some.inj (ho₁.symm.trans ho)
            simp only [Bool.and_eq_true, decide_eq_true_eq] at hdue
            exact ⟨hon.fixed.couponId, by rw [hon.createdAt]; exact hdue.2⟩
          rcases expireOne_commitsAt (fun o ho => (hread o ho).1) h with
            ⟨hd, rfl⟩ | ⟨o, ho, hu, rfl, hown, hd⟩
          · rw [hd]
            exact .same rfl
          · exact hd ▸ .expired ho hu hown (hread o ho).2

end Steps

/-! ### Orders -/

namespace Order
variable {o o' : Order} {trade info title pwd : Text} {back : RetBack} {dst : OrderStatus}

theorem onward_short (hm : o.type = .manual → o.status = .expired) :
    o.Onward (o.short trade back) where
  fixed := ⟨rfl, rfl, rfl, rfl, rfl, rfl, rfl, rfl, rfl, rfl⟩
  email := rfl
  buySource := rfl
  createdAt := rfl
  unpaid h := by cases h
  stage ht := by
    rw [hm ht]
    exact Nat.zero_le _
  owed ht _ := by
    rw [hm ht]
    exact Or.inr (by decide)

theorem onward_deliver (ha : o.type = .auto) : o.Onward (o.deliver info trade back) where
  fixed := ⟨rfl, rfl, rfl, rfl, rfl, rfl, rfl, rfl, rfl, rfl⟩
  email := rfl
  buySource := rfl
  createdAt := rfl
  unpaid h := by cases h
  stage ht := by
    rw [ha] at ht
    cases ht
  owed ht := by
    rw [ha] at ht
    cases ht

/-- An order that is not paid yet may go anywhere but back. -/
theorem onward_of_waiting (hu : o.status = .unpaid ∨ o.status = .expired) (hf : o.Fixed o')
    (hrest : o'.email = o.email ∧ o'.buySource = o.buySource ∧ o'.createdAt = o.createdAt)
    (hne : o'.status ≠ .unpaid) : o.Onward o' where
  fixed := hf
  email := hrest.1
  buySource := hrest.2.1
  createdAt := hrest.2.2
  unpaid h := absurd h hne
  stage _ := by
    rcases hu with hu | hu <;> rw [hu] <;> exact Nat.zero_le _
  owed _ _ := by
    rcases hu with hu | hu <;> rw [hu] <;> exact Or.inr (by decide)

/-- A change that leaves the status and the owed stock alone. -/
theorem onward_of_same (hf : o.Fixed o')
    (hrest : o'.email = o.email ∧ o'.buySource = o.buySource ∧ o'.createdAt = o.createdAt)
    (hs : o'.status = o.status) (howed : o'.stockOwed = o.stockOwed) : o.Onward o' where
  fixed := hf
  email := hrest.1
  buySource := hrest.2.1
  createdAt := hrest.2.2
  unpaid h := hs.symm.trans h
  stage _ := by rw [hs]
  owed _ _ := Or.inl howed

theorem onward_quoted (h : o.quotedAs o') : o.Onward o' := by
  unfold quotedAs at h
  rw [h]
  exact onward_of_same ⟨rfl, rfl, rfl, rfl, rfl, rfl, rfl, rfl, rfl, rfl⟩ ⟨rfl, rfl, rfl⟩ rfl rfl

theorem onward_deleted (b : Bool) : o.Onward { o with deleted := b } :=
  onward_of_same ⟨rfl, rfl, rfl, rfl, rfl, rfl, rfl, rfl, rfl, rfl⟩ ⟨rfl, rfl, rfl⟩ rfl rfl

/-- The owner moves an order along its stages, and takes the owed stock when it leaves the
second. -/
theorem onward_saved (hstatus : orderStatusRefusal { o with tradeNo := trade } dst = none) :
    o.Onward (o.saved o title info pwd dst) := by
  have hmove := status_of_orderStatusRefusal hstatus
  have hshort : ¬ (o.type = .manual ∧ dst = .abnormal ∧ o.status ≠ .abnormal) := by
    unfold orderStatusRefusal manualToShort at hstatus
    split_ifs at hstatus with h₁
    simpa [and_assoc] using h₁
  simp only [ownerMayMove, Bool.and_eq_true, Bool.or_eq_true, decide_eq_true_eq] at hmove
  refine ⟨⟨rfl, rfl, rfl, rfl, rfl, rfl, rfl, rfl, rfl, rfl⟩, rfl, rfl, rfl, fun h => ?_,
    fun ht => ?_, fun ht he => ?_⟩
  · have hd : dst = .unpaid := h
    subst hd
    rcases hmove with h | ⟨-, h⟩
    · exact h.symm
    · simp at h
  · show o.status.stage ≤ dst.stage
    rcases hmove with rfl | ⟨hsrc, hdst⟩
    · exact le_rfl
    · by_cases hd : dst = .abnormal
      · have hs : o.status = .abnormal := by
          by_contra hs
          exact hshort ⟨ht, hd, hs⟩
        rw [hs, hd]
      · have h₂ : dst.stage = 2 := by
          rcases hdst with (((hdst | hdst) | hdst) | hdst) | hdst
          · rw [hdst]; rfl
          · rw [hdst]; rfl
          · rw [hdst]; rfl
          · rw [hdst]; rfl
          · exact absurd hdst hd
        rw [h₂]
        cases o.status <;> decide
  · have he : o.status.stage = dst.stage := he
    by_cases h₁ : o.status.stage = 1
    · -- a short order that stays short takes nothing
      have hd : dst = .abnormal := by
        rw [h₁] at he
        cases dst with
        | abnormal => rfl
        | unpaid | expired | pending | processing | completed | failed => cases he
      refine Or.inl ?_
      show (if o.takesStock dst then false else o.stockOwed) = o.stockOwed
      rw [hd, if_neg]
      simp [takesStock, takesManualStock]
    · exact Or.inr h₁

end Order

theorem onward_of_put {t : Table Order} {id : ℕ} {o o' : Order} (ho : t.get? id = some o)
    (hon : o.Onward o') (i : ℕ) (o₁ : Order) (ho₁ : t.get? i = some o₁) :
    ∃ o₂, (t.put id o').get? i = some o₂ ∧ o₁.Onward o₂ := by
  rw [Table.get?_put]
  split_ifs with hi
  · subst hi
    obtain rfl := Option.some.inj (ho.symm.trans ho₁)
    exact ⟨o', rfl, hon⟩
  · exact ⟨o₁, ho₁, .refl o₁⟩

def ShopTx.calm (tag : ShopTx) : Prop := ∀ id, tag ≠ .request (.markDeleted .orders id true)

theorem SettledAmong.orders {d d' : DB} {id : ℕ} {o : Order} {trade : Text} {redeliver : Bool}
    {r : Reply} (h : SettledAmong d id o trade redeliver r d') (ho : d.orders.get? id = some o) :
    d'.orders = d.orders ∨
      ∃ o', o.Onward o' ∧ o'.status ≠ .unpaid ∧ d'.orders = d.orders.put id o' := by
  obtain ⟨seen, left, hs⟩ := h.seen
  generalize hd : ({ d' with carmis := left } : DB) = d₂ at hs
  have hd' : d'.orders = d₂.orders := by rw [← hd]
  cases hs with
  | already hrec hr => exact Or.inl hd'
  | @short coupons back hp hr hback hcards hstock =>
      refine Or.inr ⟨o.short trade back, Order.onward_short hstock, fun h => (by cases h),
        hd'.trans ?_⟩
      exact (Table.put_eq_modify ho (fun o => o.short trade back)).symm
  | @cards coupons back cards hp hback hauto hcards hlen =>
      let info := DB.cardTexts { d with carmis := seen } cards
      refine Or.inr ⟨o.deliver info trade back, Order.onward_deliver hauto, fun h => (by cases h),
        hd'.trans ?_⟩
      exact (Table.put_eq_modify ho (fun o => o.deliver info trade back)).symm
  | @manual coupons back hu hback hmanual hstock =>
      refine Or.inr ⟨o.handToOwner trade back, ?_, fun h => (by cases h), hd'.trans ?_⟩
      · exact Order.onward_of_waiting hu ⟨rfl, rfl, rfl, rfl, rfl, rfl, rfl, rfl, rfl, rfl⟩
          ⟨rfl, rfl, rfl⟩ (fun h => by cases h)
      · exact (Table.put_eq_modify ho (fun o => o.handToOwner trade back)).symm

section Steps
variable {env : Env} {calm : Prop} {now : ℤ} {tag : ShopTx} {r : Reply} {d d' : DB}
  {L L' : Locks Key}

/-- A commit leaves the orders, moves one that it holds locked, or adds one. -/
theorem ShopStep.orders (h : ShopStep env calm now L d tag r d') : d'.orders = d.orders ∨
    (∃ id o o', d.orders.get? id = some o ∧ o.Onward o' ∧ Owns L (.order id) ∧
      (o'.Waits → tag.calm → o.Waits) ∧ d'.orders = d.orders.put id o') ∨
    ∃ id o, d.orders.get? id = none ∧ d'.orders = d.orders.put id o ∧
      (d.goods.get? o.goodsId).isSome = true ∧
      (0 < o.couponId → (d.coupons.get? o.couponId).isSome = true) ∧
      Owns L (.advisory (emailKey (env.toLower o.email))) ∧
      (o.buySource ≠ [] → Owns L (.advisory (sourceKey o.buySource))) ∧
      ∃ rand inp site, tag = .request (.createOrder rand inp site) ∧ o.email = inp.email ∧
        o.buySource = inp.source ∧
        (calm → d.HasRoom env inp (now - effectiveMinutes site.expireMin * minute)) := by
  cases h with
  | same => exact Or.inl rfl
  | created hc hown hemail hsource hroom =>
      refine Or.inr (Or.inr ⟨_, _, hc.fresh, hc.orders, hc.good, fun h => ?_, hemail, hsource, _, _,
        _, rfl,
        rfl, rfl, hroom⟩)
      rcases hc.coupon with ⟨h₀, -⟩ | ⟨c, hget, -⟩
      · omega
      · rw [hget]
        rfl
  | settled ho hown hback hpaid hs =>
      rcases hs.orders ho with h | ⟨o', hon, hne, h⟩
      · exact Or.inl h
      · exact Or.inr (Or.inl ⟨_, _, o', ho, hon, hown, fun hw => absurd hw.1 hne, h⟩)
  | @expired minutes n id o ho hu hown =>
      refine Or.inr (Or.inl ⟨id, o, o.expire, ho, ?_, hown, fun hw => (by cases hw.1), ?_⟩)
      · exact Order.onward_of_waiting (Or.inl hu) ⟨rfl, rfl, rfl, rfl, rfl, rfl, rfl, rfl, rfl, rfl⟩
          ⟨rfl, rfl, rfl⟩ (fun h => by cases h)
      · exact (Table.put_eq_modify ho Order.expire).symm
  | @saved id f o trade dst ho hdst hstatus hown htake =>
      have hon : o.Onward (o.saved o f.title.trimSpace f.info f.searchPwd.trimSpace dst) :=
        Order.onward_saved hstatus
      refine Or.inr (Or.inl ⟨id, o, _, ho, hon, hown, fun hw _ => ⟨hon.unpaid hw.1, hw.2⟩, ?_⟩)
      exact (Table.put_eq_modify ho (fun o' => o'.saved o _ _ _ dst)).symm
  | @quoted tag r id o o' ho hq hown hr =>
      refine Or.inr (Or.inl ⟨id, o, o', ho, Order.onward_quoted hq, hown, fun hw _ => ?_, rfl⟩)
      unfold Order.quotedAs at hq
      rw [hq] at hw
      exact hw
  | goodsSaved | couponSaved | carmiSaved | imported => exact Or.inl rfl
  | @flipped table id restore d' hf hown =>
      cases table with
      | orders =>
          obtain ⟨o, ho, rfl⟩ := hf
          refine Or.inr (Or.inl ⟨id, o, _, ho, Order.onward_deleted _, hown rfl, fun hw hcalm => ?_,
            rfl⟩)
          cases restore with
          | true => exact absurd rfl (hcalm id)
          | false => cases hw.2
      | goods =>
          obtain ⟨v, -, rfl⟩ := hf
          exact Or.inl rfl
      | goodsGroup =>
          obtain ⟨v, -, rfl⟩ := hf
          exact Or.inl rfl
      | carmis =>
          obtain ⟨v, -, -, -, rfl⟩ := hf
          exact Or.inl rfl
      | coupons =>
          obtain ⟨v, -, rfl⟩ := hf
          exact Or.inl rfl

/-- No commit removes an order. -/
theorem ShopStep.onward (h : ShopStep env calm now L d tag r d') {id : ℕ} {o : Order}
    (ho : d.orders.get? id = some o) : ∃ o', d'.orders.get? id = some o' ∧ o.Onward o' := by
  rcases h.orders with he | ⟨i, o₁, o₂, ho₁, hon, -, -, he⟩ | ⟨i, o₁, hfresh, he, -⟩
  · exact ⟨o, he ▸ ho, .refl o⟩
  · rw [he]
    exact onward_of_put ho₁ hon id o ho
  · refine ⟨o, ?_, .refl o⟩
    rw [he, Table.get?_put_of_ne]
    · exact ho
    · rintro rfl
      rw [hfresh] at ho
      cases ho

/-! ### Goods and coupons -/

theorem keepsRows_put {α : Type*} (t : Table α) (i : ℕ) (v : α) : KeepsRows t (t.put i v) := by
  intro j hj
  rw [Table.get?_put]
  split_ifs
  · rfl
  · exact hj

theorem keepsRows_modify {α : Type*} (t : Table α) (i : ℕ) (f : α → α) :
    KeepsRows t (t.modify i f) := by
  intro j hj
  rw [Table.get?_modify]
  split_ifs with h
  · rw [Option.isSome_map, ← h]
    exact hj
  · exact hj

theorem GoodsType.keepsRows_moveStock (type : GoodsType) (t : Table Good) (gid : ℕ) (delta : ℤ) :
    KeepsRows t (type.moveStock t gid delta) := fun _ => GoodsType.isSome_moveStock.mpr

theorem KeepsRows.trans {α : Type*} {t t' t'' : Table α} (h : KeepsRows t t')
    (h' : KeepsRows t' t'') :
    KeepsRows t t'' := fun i hi => h' i (h i hi)

theorem KeepsRows.refl {α : Type*} (t : Table α) : KeepsRows t t := fun _ h => h

theorem Retaken.keepsRows {o : Order} {coupons coupons' : Table Coupon} {back : RetBack}
    (h : Retaken o coupons coupons' back) : KeepsRows coupons coupons' := by
  cases h with
  | keep | lost => exact .refl coupons
  | taken c hid hback hc hret => exact keepsRows_modify _ _ _

/-- A settlement's own tables: what `Settled` says of them, whatever cards it saw. -/
theorem SettledAmong.tables {id : ℕ} {o : Order} {trade : Text} {redeliver : Bool}
    (h : SettledAmong d id o trade redeliver r d') :
    d'.clock = d.clock ∧ KeepsRows d.goods d'.goods ∧ KeepsRows d.coupons d'.coupons := by
  obtain ⟨seen, left, hs⟩ := h.seen
  generalize hd : ({ d' with carmis := left } : DB) = d₂ at hs
  obtain ⟨hclock, hgoods, hcoupons⟩ :
      d'.clock = d₂.clock ∧ d'.goods = d₂.goods ∧ d'.coupons = d₂.coupons := by
    rw [← hd]
    exact ⟨rfl, rfl, rfl⟩
  rw [hclock, hgoods, hcoupons]
  cases hs with
  | already => exact ⟨rfl, .refl _, .refl _⟩
  | short _ _ hback => exact ⟨rfl, .refl _, hback.keepsRows⟩
  | cards _ hback => exact ⟨rfl, keepsRows_modify _ _ _, hback.keepsRows⟩
  | manual _ hback =>
      refine ⟨rfl, .trans ?_ (keepsRows_modify _ _ _), hback.keepsRows⟩
      split_ifs
      · exact GoodsType.keepsRows_moveStock _ _ _ _
      · exact .refl _

theorem ShopStep.tables (h : ShopStep env calm now L d tag r d') :
    d'.clock = d.clock ∧ KeepsRows d.goods d'.goods ∧ KeepsRows d.coupons d'.coupons := by
  cases h with
  | same | quoted | carmiSaved | imported => exact ⟨rfl, .refl _, .refl _⟩
  | created hc =>
      refine ⟨hc.clock, hc.goods ▸ GoodsType.keepsRows_moveStock _ _ _ _, ?_⟩
      rcases hc.coupon with ⟨-, h⟩ | ⟨c, -, -, h⟩
      · exact h ▸ .refl _
      · exact h ▸ keepsRows_modify _ _ _
  | settled ho hown hback hpaid hs => exact hs.tables
  | expired =>
      refine ⟨rfl, GoodsType.keepsRows_moveStock _ _ _ _, ?_⟩
      unfold DB.expire
      split_ifs
      · exact keepsRows_modify _ _ _
      · exact .refl _
  | @saved id f o trade dst =>
      refine ⟨rfl, ?_, .refl _⟩
      show KeepsRows d.goods (if o.takesStock dst then
        GoodsType.manual.moveStock d.goods o.goodsId (-o.buyAmount) else d.goods)
      split_ifs
      · exact GoodsType.keepsRows_moveStock _ _ _ _
      · exact .refl _
  | goodsSaved => exact ⟨rfl, keepsRows_put _ _ _, .refl _⟩
  | couponSaved => exact ⟨rfl, .refl _, keepsRows_put _ _ _⟩
  | @flipped table id restore d' hf =>
      cases table with
      | orders | goodsGroup =>
          obtain ⟨v, -, rfl⟩ := hf
          exact ⟨rfl, .refl _, .refl _⟩
      | goods =>
          obtain ⟨v, -, rfl⟩ := hf
          exact ⟨rfl, keepsRows_put _ _ _, .refl _⟩
      | carmis =>
          obtain ⟨v, -, -, -, rfl⟩ := hf
          exact ⟨rfl, .refl _, .refl _⟩
      | coupons =>
          obtain ⟨v, -, rfl⟩ := hf
          exact ⟨rfl, .refl _, keepsRows_put _ _ _⟩

/-- The orders stay linked to their goods and coupons. -/
theorem ShopStep.linked (h : ShopStep env calm now L d tag r d') (hd : d.Linked) : d'.Linked := by
  obtain ⟨-, hgoods, hcoupons⟩ := h.tables
  rcases h.orders with he | ⟨i, o₁, o₂, ho₁, hon, -, -, he⟩ | ⟨i, o₁, -, he, hgood, hcoupon, -⟩
  · constructor
    · intro id o ho
      rw [he] at ho
      exact hgoods _ (hd.goods id o ho)
    · intro id o ho h₀
      rw [he] at ho
      exact hcoupons _ (hd.coupon id o ho h₀)
  · constructor
    · intro id o ho
      rw [he] at ho
      rcases Table.get?_put_some ho with ⟨-, rfl⟩ | ⟨-, ho⟩
      · rw [hon.fixed.goodsId]
        exact hgoods _ (hd.goods i o₁ ho₁)
      · exact hgoods _ (hd.goods id o ho)
    · intro id o ho h₀
      rw [he] at ho
      rcases Table.get?_put_some ho with ⟨-, rfl⟩ | ⟨-, ho⟩
      · rw [hon.fixed.couponId] at h₀ ⊢
        exact hcoupons _ (hd.coupon i o₁ ho₁ h₀)
      · exact hcoupons _ (hd.coupon id o ho h₀)
  · constructor
    · intro id o ho
      rw [he] at ho
      rcases Table.get?_put_some ho with ⟨-, rfl⟩ | ⟨-, ho⟩
      · exact hgoods _ hgood
      · exact hgoods _ (hd.goods id o ho)
    · intro id o ho h₀
      rw [he] at ho
      rcases Table.get?_put_some ho with ⟨-, rfl⟩ | ⟨-, ho⟩
      · exact hcoupons _ (hcoupon h₀)
      · exact hcoupons _ (hd.coupon id o ho h₀)

/-! ### Cards -/

inductive Carmi.Moves (L : Locks Key) (tag : ShopTx) (r : Reply) (i : ℕ) (c : Carmi) : Carmi → Prop
  | same : Moves L tag r i c c
  | reserved {id : ℕ} {made : Order} (hr : r = .created id made) (hfree : c.reservedOrderId = none)
      (hs : c.status = .unsold) (hd : c.deleted = false) (hown : Owns L (.order id)) :
      Moves L tag r i c { c with reservedOrderId := some id }
  | delivered {id : ℕ} (hr : ∃ cards, r = .delivered id cards ∧ i ∈ cards) (hs : c.status = .unsold)
      (hd : c.deleted = false) (hid : c.reservedOrderId = some id ∨ c.reservedOrderId = none)
      (hown : Owns L (.order id)) : Moves L tag r i c c.delivered
  | released {id : ℕ} (hid : c.reservedOrderId = some id) (hown : Owns L (.order id))
      (hby : (∃ cards, r = .delivered id cards ∧ i ∉ cards) ∨ r = .expired id ∨
        ∃ f, tag = .request (.orderSave id f)) : Moves L tag r i c c.released
  | edited {c' : Carmi} (hfree : c.reservedOrderId = none) (hs : c.status = .unsold)
      (hfree' : c'.reservedOrderId = none) (hr : r = .ok) : Moves L tag r i c c'

theorem CardsHanded.moves {id i : ℕ} {o : Order} {t : Table Carmi} {c : Carmi}
    (h : CardsHanded d id o r t) (hown : Owns L (.order id)) (hc : d.carmis.get? i = some c) :
    ∃ c', t.get? i = some c' ∧ c.Moves L tag r i c' := by
  cases h with
  | none => exact ⟨c, hc, .same⟩
  | @given cards hnd hcards =>
      refine ⟨DB.handOverRow id o.goodsId cards i c, by
        rw [DB.handOver_eq, Table.get?_mapRows, hc]; rfl, ?_⟩
      unfold DB.handOverRow
      split_ifs with hi hmine
      · obtain ⟨c', hc', hdel⟩ := hcards i hi
        obtain rfl := Option.some.inj (hc.symm.trans hc')
        simp only [DB.deliverable, Bool.and_eq_true, Bool.or_eq_true, decide_eq_true_eq,
          Bool.not_eq_true'] at hdel
        exact .delivered ⟨cards, rfl, hi⟩ hdel.1.1.2 hdel.1.2 hdel.2 hown
      · simp only [Bool.and_eq_true, decide_eq_true_eq] at hmine
        exact .released hmine.1.1 hown (Or.inl ⟨cards, rfl, hi⟩)
      · exact .same

/-- Every card that is there moves, or stays. -/
theorem ShopStep.card (h : ShopStep env calm now L d tag r d') {i : ℕ} {c : Carmi}
    (hc : d.carmis.get? i = some c) : ∃ c', d'.carmis.get? i = some c' ∧ c.Moves L tag r i c' := by
  cases h with
  | same | quoted | goodsSaved | couponSaved => exact ⟨c, hc, .same⟩
  | @created rand inp site g couponId q info id reserved made d' h hown =>
      rw [h.carmis, Table.get?_mapRows, hc, Option.map_some]
      refine ⟨_, rfl, ?_⟩
      split_ifs with hi
      · have hfree : DB.freeCard inp.gid c = true := by
          cases ht : g.type with
          | auto =>
              obtain ⟨c', hc', hfree⟩ := (h.cards ht).2.2 i hi
              obtain rfl := Option.some.inj (hc.symm.trans hc')
              exact hfree
          | manual =>
              rw [h.noCards ht] at hi
              cases hi
        simp only [DB.freeCard, Bool.and_eq_true, decide_eq_true_eq, Bool.not_eq_true'] at hfree
        exact .reserved rfl hfree.1.2 hfree.1.1.2 hfree.2 hown
      · exact .same
  | settled ho hown hback hpaid hs => exact hs.cards.moves hown hc
  | @expired minutes n id o ho hu hown =>
      show ∃ c', (d.carmis.mapRows _).get? i = some c' ∧ _
      rw [Table.get?_mapRows, hc, Option.map_some]
      refine ⟨_, rfl, ?_⟩
      split_ifs with hmine
      · simp only [Bool.and_eq_true, decide_eq_true_eq] at hmine
        exact .released hmine.1 hown (Or.inr (Or.inl rfl))
      · exact .same
  | @saved id f o trade dst ho hdst hstatus hown =>
      rw [DB.saveOrder_carmis]
      split_ifs with hrel
      · rw [Table.get?_mapRows, hc, Option.map_some]
        refine ⟨_, rfl, ?_⟩
        split_ifs with hmine
        · simp only [Bool.and_eq_true, decide_eq_true_eq] at hmine
          exact .released hmine.1 hown (Or.inr (Or.inr ⟨f, rfl⟩))
        · exact .same
      · exact ⟨c, hc, .same⟩
  | @carmiSaved id f c₀ c' hc₀ hfree hs hfree' =>
      rw [Table.get?_put]
      split_ifs with hi
      · subst hi
        obtain rfl := Option.some.inj (hc.symm.trans hc₀)
        exact ⟨c', rfl, .edited hfree hs hfree' rfl⟩
      · exact ⟨c, hc, .same⟩
  | imported hi =>
      rcases hi i with he | ⟨hn, -⟩
      · exact ⟨c, he.trans hc, .same⟩
      · rw [hn] at hc
        cases hc
  | @flipped table id restore d' hf =>
      cases table with
      | orders | goodsGroup | goods | coupons =>
          obtain ⟨v, -, rfl⟩ := hf
          exact ⟨c, hc, .same⟩
      | carmis =>
          obtain ⟨c₀, hc₀, hfree, hs, rfl⟩ := hf
          show ∃ c', (d.carmis.put id _).get? i = some c' ∧ _
          rw [Table.get?_put]
          split_ifs with hi
          · subst hi
            obtain rfl := Option.some.inj (hc.symm.trans hc₀)
            exact ⟨_, rfl, .edited hfree hs hfree rfl⟩
          · exact ⟨c, hc, .same⟩

/-- A card that a commit adds is unsold and in no order's hands. -/
theorem ShopStep.newCard (h : ShopStep env calm now L d tag r d') {i : ℕ} {c : Carmi}
    (hn : d.carmis.get? i = none) (hc : d'.carmis.get? i = some c) :
    c.reservedOrderId = none ∧ c.status = .unsold ∧ c.deleted = false := by
  have hgone : ∀ {f : ℕ → Carmi → Carmi}, (d.carmis.mapRows f).get? i ≠ some c := by
    intro f hf
    rw [Table.get?_mapRows, hn] at hf
    cases hf
  have hput : ∀ {j : ℕ} {c₀ c' : Carmi}, d.carmis.get? j = some c₀ →
      (d.carmis.put j c').get? i ≠ some c := by
    intro j c₀ c' hj hp
    rcases Table.get?_put_some hp with ⟨rfl, -⟩ | ⟨-, hp⟩
    · rw [hn] at hj
      cases hj
    · rw [hn] at hp
      cases hp
  have hsame : d.carmis.get? i ≠ some c := by
    rw [hn]
    exact fun he => (by cases he)
  cases h with
  | same | quoted | goodsSaved | couponSaved => exact absurd hc hsame
  | created h =>
      rw [h.carmis] at hc
      exact absurd hc hgone
  | settled ho hown hback hpaid hs =>
      generalize ht : d'.carmis = t at hc
      have hcards := hs.cards
      rw [ht] at hcards
      cases hcards with
      | none => exact absurd hc hsame
      | given =>
          rw [DB.handOver_eq] at hc
          exact absurd hc hgone
  | expired => exact absurd hc hgone
  | saved =>
      rw [DB.saveOrder_carmis] at hc
      split_ifs at hc
      · exact absurd hc hgone
      · exact absurd hc hsame
  | carmiSaved hc₀ => exact absurd hc (hput hc₀)
  | imported hi =>
      rcases hi i with he | ⟨-, c', hc', hrest⟩
      · exact absurd (he.symm.trans hc) hsame
      · obtain rfl := Option.some.inj (hc.symm.trans hc')
        exact hrest
  | @flipped table id restore d' hf =>
      cases table with
      | orders | goodsGroup | goods | coupons =>
          obtain ⟨v, -, rfl⟩ := hf
          exact absurd hc hsame
      | carmis =>
          obtain ⟨c₀, hc₀, -, -, rfl⟩ := hf
          exact absurd hc (hput hc₀)

/-- The reservations of an order move only under the lock of its row. -/
theorem ShopStep.cards_kept (h : ShopStep env calm now L d tag r d') {id : ℕ}
    (hid : ¬ Owns L (.order id)) {i : ℕ} {c : Carmi} (hr : c.reservedOrderId = some id) :
    d.carmis.get? i = some c ↔ d'.carmis.get? i = some c := by
  constructor
  · intro hc
    obtain ⟨c', hc', hm⟩ := h.card hc
    cases hm with
    | same => exact hc'
    | reserved _ hfree => rw [hr] at hfree; cases hfree
    | delivered hby hs hdel hmine hown =>
        rcases hmine with hmine | hmine
        · rw [hr] at hmine
          obtain rfl := Option.some.inj hmine
          exact absurd hown hid
        · rw [hr] at hmine
          cases hmine
    | released hmine hown =>
        rw [hr] at hmine
        obtain rfl := Option.some.inj hmine
        exact absurd hown hid
    | edited hfree => rw [hr] at hfree; cases hfree
  · intro hc'
    cases hc : d.carmis.get? i with
    | none =>
        rw [(h.newCard hc hc').1] at hr
        cases hr
    | some c₀ =>
        obtain ⟨c₁, hc₁, hm⟩ := h.card hc
        obtain rfl := Option.some.inj (hc'.symm.trans hc₁)
        cases hm with
        | same => rfl
        | reserved _ _ _ _ hown =>
            obtain rfl := Option.some.inj hr
            exact absurd hown hid
        | delivered =>
            rw [Carmi.delivered_reservedOrderId] at hr
            cases hr
        | released => cases hr
        | edited _ _ hfree' =>
            rw [hfree'] at hr
            cases hr

/-! ### What the others rely on -/

/-- No order waits anew under a quota key that another transaction holds. -/
theorem ShopStep.noneNew (h : ShopStep env calm now L d tag r d') (hcalm : tag.calm)
    {p : Order → Prop}
    (hp : ∀ o, p o → ¬ (Owns L (.advisory (emailKey (env.toLower o.email))) ∧
      (o.buySource ≠ [] → Owns L (.advisory (sourceKey o.buySource))))) : d.NoneNew p d' := by
  intro id o' ho' hw hq
  rcases h.orders with he | ⟨i, o₁, o₂, ho₁, hon, -, hwaits, he⟩ | ⟨i, o₁, hfresh, he, -, -, hemail,
    hsource, -⟩
  · rw [he] at ho'
    exact ⟨o', ho', hw⟩
  · rw [he] at ho'
    rcases Table.get?_put_some ho' with ⟨rfl, rfl⟩ | ⟨-, ho'⟩
    · exact ⟨o₁, ho₁, hwaits hw hcalm⟩
    · exact ⟨o', ho', hw⟩
  · rw [he] at ho'
    rcases Table.get?_put_some ho' with ⟨rfl, rfl⟩ | ⟨-, ho'⟩
    · exact absurd ⟨hemail, hsource⟩ (hp o' hq)
    · exact ⟨o', ho', hw⟩

theorem ShopStep.stable (h : ShopStep env calm now L d tag r d') (hcalm : calm → tag.calm)
    (hc : Compatible L L') : ShopStable env calm L' d d' where
  clock := h.tables.1.ge
  orders _ _ ho := h.onward ho
  goods := h.tables.2.1
  coupons := h.tables.2.2
  cards id hid i c hr := h.cards_kept (fun hown => hc.not_owns hown hid) hr
  email hq e he := by
    refine h.noneNew (hcalm hq) (fun o ho hown => ?_)
    rw [ho] at hown
    exact hc.not_owns hown.1 he
  source hq s hne hs := by
    refine h.noneNew (hcalm hq) (fun o ho hown => ?_)
    rw [ho] at hown
    exact hc.not_owns (hown.2 hne) hs

end Steps

/-! ### Interleavings -/

theorem shop_respected (env : Env) {calm : Prop} {A : ShopTx → Prop} (hA : calm → ∀ tag,
    A tag → tag.calm) :
    (shopRely env calm).Respected (shopSystem env) A where
  commit htag h₀ hinv hc := by
    have hstep := ShopTx.commitsAt_step h₀ hc
    exact ⟨hstep.linked hinv, fun L' hL' => hstep.stable (fun hcalm => hA hcalm _ htag) hL'⟩
  tick n d hinv := by
    refine ⟨⟨hinv.goods, hinv.coupon⟩, fun L => ?_, fun k => by cases k <;> rfl⟩
    have hle : d.clock ≤ d.clock + n := by omega
    exact { ShopStable.refl env calm L d with clock := hle }

/-- The committed databases of an interleaving of transactions that satisfy `A`, from the first to
the last, with the answers. -/
inductive ShopTrace (env : Env) (calm : Prop) (A : ShopTx → Prop) :
DB → List (ShopTx × Reply) → DB → Prop
  | nil (d : DB) : ShopTrace env calm A d [] d
  | tick (n : ℕ) {d d' : DB} {l : List (ShopTx × Reply)}
      (h : ShopTrace env calm A (d.tick n) l d') :
      ShopTrace env calm A d l d'
  | commit {now : ℤ} {L : Locks Key} {tag : ShopTx} {r : Reply} {d d₁ d' : DB}
      {l : List (ShopTx × Reply)}
      (hd : d.Linked) (hnow : now ≤ d.clock) (htag : A tag)
        (hstep : ShopStep env calm now L d tag r d₁)
      (h : ShopTrace env calm A d₁ l d') : ShopTrace env calm A d ((tag, r) :: l) d'

section Interleavings
variable {env : Env} {calm : Prop} {A : ShopTx → Prop} {as : List (Action ShopTx ℕ)} {d d' : DB}
  {c c' : Config ShopTx DB Row Reply} {l : List (ShopTx × Reply)}

theorem ShopTrace.of_trace (h : (shopRely env calm).Trace (shopSystem env) A d l d') :
    ShopTrace env calm A d l d' := by
  induction h with
  | nil d => exact .nil d
  | cons hinv hchange _ ih =>
      cases hchange with
      | same => exact ih
      | tick n => exact .tick n ih
      | commit htag hc =>
          obtain ⟨d₀, L, w, h₀, -, hc, rfl⟩ := hc
          exact .commit hinv h₀.rely.clock htag (ShopTx.commitsAt_step h₀ hc) ih

/-- Every interleaving is a sequence of commits, each of them a `ShopStep`. -/
theorem shop_runs (hA : calm → ∀ tag, A tag → tag.calm) (ha : StartsOnly A as)
    (hc : (shopRely env calm).Holds (shopSystem env) A c)
    (hr : (shopSystem env).runs as c = some c') :
    (shopRely env calm).Holds (shopSystem env) A c' ∧
      ShopTrace env calm A c.db ((shopSystem env).answers as c) c'.db := by
  obtain ⟨hc', ht⟩ := Rely.Holds.runs (shop_respected env hA) ha hc hr
  exact ⟨hc', .of_trace ht⟩

theorem linked_of_noOrders (h : ∀ id, d.orders.get? id = none) : d.Linked := by
  constructor
  · intro id o ho
    rw [h id] at ho
    cases ho
  · intro id o ho
    rw [h id] at ho
    cases ho

theorem shop_starts (hA : calm → ∀ tag, A tag → tag.calm) (ha : StartsOnly A as)
    (h : ∀ id, d.orders.get? id = none) (hr : (shopSystem env).runs as (Config.start d) = some c) :
    (shopRely env calm).Holds (shopSystem env) A c ∧
      ShopTrace env calm A d ((shopSystem env).answers as (Config.start d)) c.db :=
  shop_runs hA ha (.start (linked_of_noOrders h)) hr

/-- What every commit and the clock keep, an interleaving keeps. -/
theorem ShopTrace.keeps (h : ShopTrace env calm A d l d') {P : DB → Prop}
    (htick : ∀ d n, P d → P (DB.tick d n))
    (hstep : ∀ {now L d tag r d'}, d.Linked → now ≤ d.clock → A tag →
      ShopStep env calm now L d tag r d' → P d → P d') (hd : P d) : P d' := by
  induction h with
  | nil d => exact hd
  | tick n _ ih => exact ih (htick _ n hd)
  | commit hl hnow htag hs _ ih => exact ih (hstep hl hnow htag hs hd)

end Interleavings

def anyTx (_ : ShopTx) : Prop := True

theorem anyTx_calm : False → ∀ tag, anyTx tag → tag.calm := fun h => h.elim

theorem starts_any (as : List (Action ShopTx ℕ)) : StartsOnly anyTx as := fun _ _ _ _ _ => trivial

/-! ### A small interleaving -/

def tinyCheckout (gid n : ℕ) : ShopTx :=
  .request (.createOrder (fun _ => Fin.ofNat 256 n) (tinyInput gid []) ⟨false, 5⟩)

def tinyComplete (n : ℕ) : ShopTx := .request (.complete (tinySn n) 100 "t".toList)

def tinySession (t id : ℕ) (tag : ShopTx) (n : ℕ) : List (Action ShopTx ℕ) :=
  .start t tag :: List.replicate n (.exec t [id])

/-- The card of the small shop is bought, while its payment notice and another buyer wait. -/
def tinySale : List (Action ShopTx ℕ) :=
  tinySession 1 7 (tinyCheckout 1 1) 12 ++ .start 3 (tinyCheckout 1 2) :: .finish 1 ::
    tinySession 2 7 (tinyComplete 1) 9

theorem tinySale_runs :
    ((shopSystem tinyEnv).runs tinySale (Config.start tinyShop)).isSome = true := by
  decide

theorem tinySale_starts {A : ShopTx → Prop} (h₁ : A (tinyCheckout 1 1)) (h₂ : A (tinyCheckout 1 2))
    (h₃ : A (tinyComplete 1)) : StartsOnly A tinySale := by
  intro a ha t tag he
  subst he
  simp only [tinySale, tinySession, List.cons_append, List.mem_cons, List.mem_append,
    List.mem_replicate, Action.start.injEq, reduceCtorEq, and_false, false_or, or_false] at ha
  rcases ha with ⟨-, rfl⟩ | ⟨-, rfl⟩ | ⟨-, rfl⟩
  · exact h₁
  · exact h₂
  · exact h₃

end Dufaka
