import Dufaka.SessionEffects

/-!
# What the owner's requests do among others

The order form checks the row it read when the request began, and saves over the row that is there
at its `UPDATE`: the `WHERE` lets only the same status through, and what else the checks read of the
row has not moved since. The other forms write their rows as they do alone, except for what they
read without a lock.
-/

namespace Dufaka
open Relational Tx

namespace Script
variable {env : Env} {calm : Prop} {R : Rely DB Row} {d : DB} {L L' : Locks Key} {w w' : Writes Row}
  {r : Reply} {u : Unit}

/-- The form's `UPDATE`s that must find their row. -/
theorem yields_updateKey_isSome {k : Key} {kc : Row k → Bool} {f : Row k → Option (Row k)}
    {row : Option (Row k)} (h : (updateKey k kc f).yields R d L w row L' w')
    (hsome : row.isSome = true) :
    ∃ v v', RowStore.get (view d w) k = some v ∧ f v = some v' ∧ Owns L' k ∧ L ⊆ L' ∧
    w' = ⟨k, v'⟩ :: w := by
  obtain ⟨v', rfl⟩ := Option.isSome_iff_exists.mp hsome
  obtain ⟨v, hv, hf, rfl, rfl⟩ := yields_updateKey_some h
  exact ⟨v, v', hv, hf, Owns.head (updateMode_exclusive _), List.subset_cons_self _ _, rfl⟩

theorem takeOwedStock_yields {id : ℕ} {o : Order} (hown : Owns L (.order id))
    (h : (takeOwedStock id o).yields R d L w u L' w') :
    L ⊆ L' ∧ (∃ g, (view d w).goods.get? o.goodsId = some g ∧ o.buyAmount ≤ g.inStock) ∧
      view d w' = { view d w with
        goods := GoodsType.manual.moveStock (view d w).goods o.goodsId (-o.buyAmount)
        orders := (view d w).orders.modify id (fun o => { o with stockOwed := false }) } := by
  simp only [takeOwedStock, yields_bind, yields_require] at h
  obtain ⟨row, L₁, w₁, hupdate, _, _, _, ⟨hsome, rfl, rfl⟩, hchange⟩ := h
  obtain ⟨g, v, hget, hv, -, hL, rfl⟩ := yields_updateKey_isSome hupdate hsome
  split_ifs at hv with hle
  obtain rfl := Option.some.inj hv
  obtain ⟨hL₂, hview⟩ := yields_change_owned (hown.mono hL) hchange
  refine ⟨fun l hl => hL₂ (hL hl), ⟨g, hget, hle⟩, ?_⟩
  rw [hview, DB.changeRow_order, GoodsType.moveStock, ← Table.put_eq_modify hget]
  rfl

theorem not_commitsAt_takeOwedStock {id : ℕ} {o : Order} :
    ¬ (takeOwedStock id o).commitsAt R d L w r L' w' := by
  simp [takeOwedStock, commitsAt_bind, commitsAt_update (.goods _)]

end Script

open Script

/-! ### Orders -/

/-- What the status rules read of an order has not moved while its status stands. -/
theorem Order.Onward.rules {row o : Order} (h : row.Onward o) (hs : o.status = row.status)
    (dst : OrderStatus) :
    owesManualStock o.type o.status o.stockOwed =
    owesManualStock row.type row.status row.stockOwed ∧
      orderStatusRefusal { o with tradeNo := row.tradeNo } dst = orderStatusRefusal row dst := by
  have howes : owesManualStock row.type row.status o.stockOwed =
      owesManualStock row.type row.status row.stockOwed := by
    unfold owesManualStock
    by_cases hm : row.type = .manual ∧ row.status = .abnormal
    · rcases h.owed hm.1 (by rw [hs]) with ho | hne
      · rw [ho]
      · rw [hm.2] at hne
        exact absurd rfl hne
    · rw [not_and_or] at hm
      rcases hm with hm | hm
      · rw [decide_eq_false hm, Bool.false_and, Bool.false_and, Bool.false_and]
      · rw [decide_eq_false hm, Bool.and_false, Bool.false_and, Bool.false_and]
  unfold orderStatusRefusal
  simp only [h.fixed.type, hs, howes, and_self]

theorem orderSave_commitsAt {env : Env} {calm : Prop} {id : ℕ} {f : OrderForm} {d : DB}
    {L : Locks Key} {w : Writes Row} {r : Reply}
    (h : (orderSave id f).commitsAt (shopRely env calm) d [] [] r L w) :
    ∃ o trade dst, d.orders.get? id = some o ∧
      OrderStatus.ofCode (mustInt f.status 0) = some dst ∧
      orderStatusRefusal { o with tradeNo := trade } dst = none ∧ r = .ok ∧ Owns L (.order id) ∧
      (o.takesStock dst = true →
        ∃ g, d.goods.get? o.goodsId = some g ∧ o.buyAmount ≤ g.inStock) ∧
      view d w = d.saveOrder id o f.title.trimSpace f.info f.searchPwd.trimSpace dst := by
  simp only [orderSave, commitsAt_bind, commitsAt_read, commitsAt_orElse, commitsAt_require,
    commitsAt_update (.order _), commitsAt_onlyIf, not_commitsAt_takeOwedStock,
    not_commitsAt_releaseCards,
    commitsAt_commit, and_false, false_or, yields_read, yields_orElse, yields_require,
    yields_onlyIf,
    decide_eq_true_eq, and_assoc, exists_and_left, exists_eq_left', exists_const] at h
  obtain ⟨loaded, ⟨d₁, hd₁, hload⟩, row, rfl, -, dst, hdst, hstatus, saved, L₁, w₁, hupdate, v, rfl,
    _, L₂, w₂, htake, _, L₃, w₃, hrelease, rfl, rfl, rfl⟩ := h
  obtain ⟨o, hget, hif, rfl, rfl⟩ := yields_updateKey_some hupdate
  split_ifs at hif with hlive
  obtain rfl := Option.some.inj hif
  obtain ⟨hrow, -⟩ := loadOrder_some hload
  have hown : Owns [(Key.order id, updateMode false)] (Key.order id) := Owns.head rfl
  have hon : row.Onward o := by
    obtain ⟨o₁, ho₁, hon⟩ := hd₁.rely.orders id row hrow
    obtain rfl := Option.some.inj (ho₁.symm.trans hget)
    exact hon
  obtain ⟨howes, hrules⟩ := hon.rules hlive.1 dst
  have htakes : row.takesStock dst = o.takesStock dst := by
    rw [Order.takesStock, Order.takesStock, howes, hlive.1, hon.fixed.type]
  have hinfo : row.savedInfo dst f.info = o.savedInfo dst f.info := by
    rw [Order.savedInfo, Order.savedInfo, htakes]
  rw [htakes, hinfo] at htake
  rw [← hon.fixed.type, ← hlive.1] at hrelease
  refine ⟨o, row.tradeNo, dst, hget, hdst, hrules.trans hstatus, rfl, ?_⟩
  -- the order row and the counted stock, then the reservations
  have h₂ : [(Key.order id, updateMode false)] ⊆ L₂ ∧ (o.takesStock dst = true →
        ∃ g, d.goods.get? o.goodsId = some g ∧ o.buyAmount ≤ g.inStock) ∧
      view d w₂ = { d.saveOrder id o f.title.trimSpace f.info f.searchPwd.trimSpace dst with
        carmis := d.carmis } := by
    have hget : d.orders.get? id = some o := hget
    have hput : ∀ v : Order, view d [⟨Key.order id, v⟩] = { d with orders := d.orders.put id v } :=
      fun v => rfl
    rcases htake with ⟨ht, htake⟩ | ⟨ht, rfl, rfl⟩
    · obtain ⟨hL, hle, hview⟩ := takeOwedStock_yields hown htake
      refine ⟨hL, fun _ => hle, ?_⟩
      rw [hview, hput]
      simp only [DB.saveOrder, ht, if_true, ← Table.put_eq_modify hget]
      simp [Order.edited, Order.saved, ht]
    · refine ⟨List.Subset.refl _, fun h => by simp [ht] at h, ?_⟩
      rw [hput]
      simp only [DB.saveOrder, ht, Bool.false_eq_true, if_false, ← Table.put_eq_modify hget]
      simp [Order.edited, Order.saved, ht]
  obtain ⟨hL₂, hle, hview₂⟩ := h₂
  rcases hrelease with ⟨hr, hrelease⟩ | ⟨hr, rfl, rfl⟩
  · obtain ⟨hL₃, hview₃⟩ := yields_releaseCards (steady_of_reserved (hown.mono hL₂)
      (fun c hc => by simp at hc; exact hc.1)) hrelease
    refine ⟨(hown.mono hL₂).mono hL₃, hle, ?_⟩
    rw [hview₃, hview₂]
    simp only [DB.saveOrder, hr, if_true]
  · refine ⟨hown.mono hL₂, hle, ?_⟩
    rw [hview₂]
    simp only [DB.saveOrder, hr, Bool.false_eq_true, if_false]

/-! ### Quotes -/

def Order.quotedAs (o o' : Order) : Prop :=
  o' = { o with
    cldxMinor := o'.cldxMinor, cldxExpiresAt := o'.cldxExpiresAt, usdtPayment := o'.usdtPayment }

theorem lockCldxQuote_commitsAt {env : Env} {calm : Prop} {sn : Text} {minor expires : ℤ} {d : DB}
    {L : Locks Key} {w : Writes Row} {r : Reply}
    (h : (lockCldxQuote sn minor expires).commitsAt (shopRely env calm) d [] [] r L w) :
    r.handed = [] ∧ ∃ id o o', d.orders.get? id = some o ∧ o.quotedAs o' ∧ Owns L (.order id) ∧
      view d w = { d with orders := d.orders.put id o' } := by
  simp only [lockCldxQuote, commitsAt_bind, commitsAt_read, commitsAt_orElse,
    commitsAt_update (.order _), commitsAt_commit, false_or, yields_read, yields_orElse, and_assoc,
    exists_and_left, exists_eq_left'] at h
  obtain ⟨-, -, found, -, _, L₁, w₁, hupdate, v, rfl, rfl, rfl, rfl⟩ := h
  obtain ⟨o, v', hget, hif, hown, -, rfl⟩ := yields_updateKey_isSome hupdate rfl
  split_ifs at hif with hu
  obtain rfl := Option.some.inj hif
  exact ⟨rfl, found.1, o, o.quote minor expires, hget, rfl, hown, rfl⟩

theorem lockUSDTInvoice_commitsAt {env : Env} {calm : Prop} {sn : Text} {onTime : Bool}
    {created : Option Text} {d : DB} {L : Locks Key} {w : Writes Row} {r : Reply}
    (h : (lockUSDTInvoice sn onTime created).commitsAt (shopRely env calm) d [] [] r L w) :
    r.handed = [] ∧ (view d w = d ∨ ∃ id o o', d.orders.get? id = some o ∧ o.quotedAs o' ∧
      Owns L (.order id) ∧ view d w = { d with orders := d.orders.put id o' }) := by
  simp only [lockUSDTInvoice, commitsAt_bind, commitsAt_read, commitsAt_orElse,
    commitsAt_lockRow (.order _), commitsAt_require, false_or, yields_read, yields_orElse,
    yields_require, and_assoc, exists_and_left, exists_eq_left', exists_const] at h
  obtain ⟨-, -, found, -, _, L₁, w₁, hrow, o, rfl, -, h⟩ := h
  obtain ⟨hget, -, rfl, rfl⟩ := Tx.yields_lockRow_some rfl hrow
  cases hp : o.usdtPayment with
  | some raw =>
      rw [hp] at h
      obtain ⟨rfl, -, rfl⟩ := commitsAt_commit.mp h
      exact ⟨rfl, Or.inl rfl⟩
  | none =>
      rw [hp] at h
      simp only [commitsAt_bind, commitsAt_orElse, commitsAt_change, commitsAt_commit, false_or,
        yields_orElse] at h
      obtain ⟨raw, _, _, ⟨-, rfl, rfl⟩, _, L₂, w₂, hchange, rfl, rfl, rfl⟩ := h
      have hown : Owns [(Key.order found.1, LockMode.update)] (Key.order found.1) := Owns.head rfl
      obtain ⟨hL, hview⟩ := yields_change_owned hown hchange
      refine ⟨rfl, Or.inr ⟨found.1, o, { o with usdtPayment := some raw }, hget, rfl, hown.mono hL,
        ?_⟩⟩
      have hget : d.orders.get? found.1 = some o := hget
      rw [hview, view_nil, DB.changeRow_order, ← Table.put_eq_modify hget]

/-! ### Goods and coupons -/

theorem goodsSave_commitsAt {env : Env} {calm : Prop} {id : ℕ} {g : GoodInput} {d : DB}
    {L : Locks Key} {w : Writes Row} {r : Reply}
    (h : (goodsSave id g).commitsAt (shopRely env calm) d [] [] r L w) :
    r = .ok ∧ ∃ i row, view d w = { d with goods := d.goods.put i row } ∧
      ((id = 0 ∧ d.goods.get? i = none) ∨ i = id) := by
  simp only [goodsSave, commitsAt_bind, commitsAt_orRefuse, commitsAt_read, commitsAt_require,
    commitsAt_foreignKey, commitsAt_commit, false_or, yields_orRefuse, yields_read,
    yields_require] at h
  obtain ⟨f, _, _, ⟨-, rfl, rfl⟩, _, _, _, ⟨-, rfl, rfl⟩, _, _, _, ⟨-, rfl, rfl⟩, h⟩ := h
  rcases h with h | ⟨_, L₁, w₁, h, _, L₂, w₂, hfk, hr, rfl, rfl⟩
  · unfold writeGood at h
    split_ifs at h <;> simp [commitsAt_bind, commitsAt_update (.goods _)] at h
  · subst hr
    refine ⟨rfl, ?_⟩
    obtain ⟨-, -, rfl⟩ := yields_foreignKey hfk
    unfold writeGood at h
    split_ifs at h with hid
    · simp only [yields_bind, yields_pure] at h
      obtain ⟨n, _, _, hinsert, -, rfl, rfl⟩ := h
      obtain ⟨hfresh, rfl, rfl⟩ := Tx.yields_insert.mp hinsert
      exact ⟨n, _, rfl, Or.inl ⟨hid, hfresh⟩⟩
    · simp only [yields_bind, yields_require] at h
      obtain ⟨row, _, _, hupdate, hsome, rfl, rfl⟩ := h
      obtain ⟨v, v', -, -, -, -, rfl⟩ := yields_updateKey_isSome hupdate hsome
      exact ⟨id, v', rfl, Or.inr rfl⟩

theorem shareGoods_yields {R : Rely DB Row} {gids : List ℕ} {live : Bool} {d : DB}
    {L L' : Locks Key} {w w' : Writes Row} (h : (shareGoods gids).yields R d L w live L' w') :
    w' = w := by
  induction gids generalizing live L w with
  | nil => exact (yields_pure.mp h).2.2.symm
  | cons gid gids ih =>
      simp only [shareGoods, yields_bind, yields_pure] at h
      obtain ⟨_, L₁, w₁, hlock, _, L₂, w₂, hrest, -, rfl, rfl⟩ := h
      rw [ih hrest, (lockRow_yields hlock).2]

theorem not_commitsAt_shareGoods {R : Rely DB Row} {gids : List ℕ} {d : DB} {L L' : Locks Key}
    {w w' : Writes Row} {r : Reply} : ¬ (shareGoods gids).commitsAt R d L w r L' w' := by
  induction gids generalizing L w with
  | nil => simp [shareGoods]
  | cons gid gids ih => simp [shareGoods, commitsAt_bind, commitsAt_lockRow (.goods _), ih]

theorem writeCoupon_yields {R : Rely DB Row} {id cid : ℕ} {f : CouponForm} {d : DB}
    {L L' : Locks Key} {w w' : Writes Row} (h : (writeCoupon id f).yields R d L w cid L' w') :
    ∃ row, view d w' = { view d w with coupons := (view d w).coupons.put cid row } ∧
      ((id = 0 ∧ (view d w).coupons.get? cid = none) ∨ cid = id) := by
  simp only [writeCoupon, yields_bind, yields_read, yields_require] at h
  obtain ⟨_, _, _, ⟨-, rfl, rfl⟩, _, _, _, ⟨-, rfl, rfl⟩, h⟩ := h
  split_ifs at h with hid
  · obtain ⟨hfresh, rfl, rfl⟩ := Tx.yields_insert.mp h
    exact ⟨_, rfl, Or.inl ⟨hid, hfresh⟩⟩
  · simp only [yields_bind, yields_require, yields_pure] at h
    obtain ⟨row, _, _, hupdate, _, _, _, ⟨hsome, rfl, rfl⟩, rfl, rfl, rfl⟩ := h
    obtain ⟨v, v', -, -, -, -, rfl⟩ := yields_updateKey_isSome hupdate hsome
    exact ⟨v', rfl, Or.inr rfl⟩

theorem not_commitsAt_writeCoupon {R : Rely DB Row} {id : ℕ} {f : CouponForm} {d : DB}
    {L L' : Locks Key} {w w' : Writes Row} {r : Reply} :
    ¬ (writeCoupon id f).commitsAt R d L w r L' w' := by
  unfold writeCoupon
  split_ifs <;> simp [commitsAt_bind, commitsAt_updateKey (.coupon _)]

/-- The references of a coupon to its goods are written, and no other row. -/
theorem yields_change_goodsOf {R : Rely DB Row} {cid : ℕ} {f : List ℕ → List ℕ} {d : DB}
    {L L' : Locks Key} {w w' : Writes Row} {u : Unit}
    (h : (change (.couponGoods cid) f).yields R d L w u L' w') :
    ∃ goods, view d w' = { view d w with couponsGoods := goods } := by
  rcases yields_change h with ⟨v, -, rfl, rfl⟩ | ⟨-, rfl, rfl⟩
  · exact ⟨_, rfl⟩
  · exact ⟨_, rfl⟩

theorem couponSave_commitsAt {env : Env} {calm : Prop} {id : ℕ} {c : CouponInput} {d : DB}
    {L : Locks Key} {w : Writes Row} {r : Reply}
    (h : (couponSave id c).commitsAt (shopRely env calm) d [] [] r L w) :
    r = .ok ∧ ∃ i row goods,
      view d w = { d with coupons := d.coupons.put i row, couponsGoods := goods } ∧
      ((id = 0 ∧ d.coupons.get? i = none) ∨ i = id) := by
  simp only [couponSave, lockCouponGoods, commitsAt_bind, commitsAt_orRefuse,
    not_commitsAt_shareGoods, commitsAt_require, not_commitsAt_writeCoupon, commitsAt_change,
    commitsAt_commit, false_or, yields_bind, yields_orRefuse, yields_require] at h
  obtain ⟨f, _, _, ⟨-, rfl, rfl⟩,
    ⟨_, _, _, -, h⟩ | ⟨_, L₁, w₁, ⟨_, L₂, w₂, hshare, -, rfl, rfl⟩, cid, L₃, w₃,
    hwrite, _, L₄, w₄, hclear, h⟩⟩ := h
  · exact h.elim
  obtain rfl := shareGoods_yields hshare
  obtain ⟨row, hview₃, hcid⟩ := writeCoupon_yields hwrite
  obtain ⟨goods₄, hview₄⟩ := yields_change_goodsOf hclear
  obtain h | ⟨_, L₅, w₅, hloop, rfl, rfl, rfl⟩ := h
  · refine absurd h (not_commitsAt_forEach (fun gid _ _ _ _ _ => ?_) _)
    simp [commitsAt_bind]
  · have hgoods := yields_forEach (J := fun _ _ w₆ => ∃ goods,
      view d w₆ = { view d w₃ with couponsGoods := goods }) ?_ hloop ⟨goods₄, hview₄⟩
    · obtain ⟨goods, hgoods⟩ := hgoods
      exact ⟨rfl, cid, row, goods, by rw [hgoods, hview₃]; rfl, hcid⟩
    · rintro gid gids L₆ w₆ L₇ w₇ hbody ⟨goods, hgoods⟩
      simp only [yields_bind] at hbody
      obtain ⟨_, L₈, w₈, hchange, _, L₉, w₉, hfk, hfk'⟩ := hbody
      obtain ⟨goods', hgoods'⟩ := yields_change_goodsOf hchange
      obtain ⟨-, -, rfl⟩ := yields_foreignKey hfk
      obtain ⟨-, -, rfl⟩ := yields_foreignKey hfk'
      exact ⟨goods', by rw [hgoods', hgoods]⟩

/-! ### Cards -/

theorem carmiSave_commitsAt {env : Env} {calm : Prop} {id : ℕ} {f : CarmiForm} {d : DB}
    {L : Locks Key} {w : Writes Row} {r : Reply}
    (h : (carmiSave id f).commitsAt (shopRely env calm) d [] [] r L w) :
    r = .ok ∧ ∃ c c', d.carmis.get? id = some c ∧ c.reservedOrderId = none ∧ c.status = .unsold ∧
      c'.reservedOrderId = none ∧ view d w = { d with carmis := d.carmis.put id c' } := by
  simp only [carmiSave, commitsAt_bind, commitsAt_read, commitsAt_require,
    commitsAt_update (.carmi _), commitsAt_foreignKey, commitsAt_commit, false_or, yields_read,
    yields_require, and_assoc, exists_and_left, exists_eq_left', exists_const] at h
  obtain ⟨-, -, -, -, row, L₁, w₁, hupdate, hsome, _, L₂, w₂, hfk, rfl, rfl, rfl⟩ := h
  obtain ⟨-, -, rfl⟩ := yields_foreignKey hfk
  obtain ⟨c, c', hget, hif, -, -, rfl⟩ := yields_updateKey_isSome hupdate hsome
  split_ifs at hif with hfree
  obtain rfl := Option.some.inj hif
  exact ⟨rfl, c, c.edited _ _ _ _, hget, hfree.2.1, hfree.2.2, hfree.2.1, rfl⟩

/-- An import among others adds unsold cards that no order holds. -/
theorem carmisImport_commitsAt {env : Env} {calm : Prop} {f : ImportForm} {d : DB} {L : Locks Key}
    {w : Writes Row} {r : Reply}
    (h : (carmisImport f).commitsAt (shopRely env calm) d [] [] r L w) :
    r = .ok ∧ ∃ carmis, view d w = { d with carmis := carmis } ∧
    ∀ i, carmis.get? i = d.carmis.get? i ∨
      (d.carmis.get? i = none ∧ ∃ c, carmis.get? i = some c ∧ c.reservedOrderId = none ∧
        c.status = .unsold ∧ c.deleted = false) := by
  simp only [carmisImport, commitsAt_bind, commitsAt_read, commitsAt_orRefuse, commitsAt_require,
    commitsAt_commit, false_or, yields_read, yields_orRefuse, yields_require] at h
  obtain ⟨cards, _, _, ⟨-, rfl, rfl⟩, _, _, _, ⟨-, rfl, rfl⟩, _, _, _, ⟨-, rfl, rfl⟩, _, _, _,
    ⟨-, rfl, rfl⟩, h⟩ := h
  obtain h | ⟨_, L₁, w₁, hloop, rfl, rfl, rfl⟩ := h
  · refine absurd h (not_commitsAt_forEach (fun card _ _ _ _ _ => ?_) _)
    simp [commitsAt_bind]
  · refine ⟨rfl, ?_⟩
    refine yields_forEach (J := fun _ _ w₂ => ∃ carmis, view d w₂ = { d with carmis := carmis } ∧
      ∀ i, carmis.get? i = d.carmis.get? i ∨ (d.carmis.get? i = none ∧ ∃ c, carmis.get? i = some c ∧
        c.reservedOrderId = none ∧ c.status = .unsold ∧ c.deleted = false)) ?_ hloop
      ⟨d.carmis, rfl, fun i => Or.inl rfl⟩
    rintro card cards L₂ w₂ L₃ w₃ hbody ⟨carmis, hview, hcarmis⟩
    simp only [yields_bind] at hbody
    obtain ⟨n, _, _, hinsert, hfk⟩ := hbody
    obtain ⟨hfresh, rfl, rfl⟩ := Tx.yields_insert.mp hinsert
    obtain ⟨-, -, rfl⟩ := yields_foreignKey hfk
    have hfresh : carmis.get? n = none := by
      rw [hview] at hfresh
      exact hfresh
    refine ⟨carmis.put n ⟨(mustInt f.goodsId 0).toNat, .unsold, mustInt f.isLoop 0, card, none,
      false⟩, ?_, fun i => ?_⟩
    · rw [view_cons, hview]
      rfl
    · rw [Table.get?_put]
      split_ifs with hi
      · subst hi
        refine Or.inr ⟨?_, _, rfl, rfl, rfl, rfl⟩
        rcases hcarmis i with h | ⟨-, c, hc, -⟩
        · rw [← h]
          exact hfresh
        · exact absurd (hfresh.symm.trans hc) (by simp)
      · exact hcarmis i

/-! ### Delete and restore -/

theorem flipRow_yields {R : Rely DB Row} {k : Key} {p deleted : Row k → Bool}
    {write : Row k → Bool → Row k} {restore : Bool} {d : DB} {L L' : Locks Key} {w w' : Writes Row}
    {u : Unit} (h : (flipRow k p deleted write restore).yields R d L w u L' w') :
    ∃ v, RowStore.get (view d w) k = some v ∧ p v = true ∧ deleted v = restore ∧ Owns L' k ∧
      w' = ⟨k, write v (!restore)⟩ :: w := by
  simp only [flipRow, yields_bind, yields_require] at h
  obtain ⟨row, _, _, hupdate, hsome, rfl, rfl⟩ := h
  obtain ⟨v, v', hget, hif, hown, -, rfl⟩ := yields_updateKey_isSome hupdate hsome
  split_ifs at hif with hp
  obtain ⟨b, hb, rfl⟩ := Option.map_eq_some_iff.mp hif
  unfold flipDeleted at hb
  split_ifs at hb with hdel
  obtain rfl := Option.some.inj hb
  exact ⟨v, hget, hp, hdel, hown, rfl⟩

theorem markDeleted_commitsAt {env : Env} {calm : Prop} {table : AdminTable} {id : ℕ}
    {restore : Bool} {d : DB} {L : Locks Key} {w : Writes Row} {r : Reply}
    (h : (markDeleted table id restore).commitsAt (shopRely env calm) d [] [] r L w) :
    r = .ok ∧ d.Flipped table id restore (view d w) ∧ (table = .orders → Owns L (.order id)) := by
  rw [markDeleted, commitsAt_bind] at h
  obtain hflip | ⟨_, L₁, w₁, hflip, hc⟩ := h
  · cases table <;> simp [flipIn, flipRow, commitsAt_bind, commitsAt_update _] at hflip
  · obtain ⟨rfl, rfl, rfl⟩ := commitsAt_commit.mp hc
    refine ⟨rfl, ?_⟩
    cases table with
    | carmis =>
        obtain ⟨c, hget, hp, -, -, rfl⟩ := flipRow_yields hflip
        simp only [Bool.and_eq_true, decide_eq_true_eq] at hp
        exact ⟨⟨c, hget, hp.1, hp.2, rfl⟩, fun ht => by cases ht⟩
    | goods =>
        obtain ⟨v, hget, -, -, -, rfl⟩ := flipRow_yields hflip
        exact ⟨⟨v, hget, rfl⟩, fun ht => by cases ht⟩
    | goodsGroup =>
        obtain ⟨v, hget, -, -, -, rfl⟩ := flipRow_yields hflip
        exact ⟨⟨v, hget, rfl⟩, fun ht => by cases ht⟩
    | coupons =>
        obtain ⟨v, hget, -, -, -, rfl⟩ := flipRow_yields hflip
        exact ⟨⟨v, hget, rfl⟩, fun ht => by cases ht⟩
    | orders =>
        obtain ⟨v, hget, -, -, hown, rfl⟩ := flipRow_yields hflip
        exact ⟨⟨v, hget, rfl⟩, fun _ => hown⟩

end Dufaka
