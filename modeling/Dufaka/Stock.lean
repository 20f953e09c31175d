import Dufaka.Orders

/-!
# Counted stock

The stock a goods shows plus the stock its orders hold stays the same in every run, and the shown
stock never becomes negative.
-/

namespace Dufaka
open Relational Tx

def holdsStock (status : OrderStatus) (owed : Bool) : Bool :=
  match status with
  | .unpaid | .pending | .processing | .completed | .failed => true
  | .abnormal => !owed
  | .expired => false

def Order.stockOf (gid : ℕ) (o : Order) : ℤ :=
  if o.type = .manual ∧ o.goodsId = gid ∧ holdsStock o.status o.stockOwed = true then o.buyAmount
  else 0

def DB.heldStock (d : DB) (gid : ℕ) : ℤ := d.orders.sum (fun _ o => o.stockOf gid)

def DB.Positive (d : DB) : Prop := ∀ id o, d.orders.get? id = some o → 1 ≤ o.buyAmount

/-- The stock shown and held together stay, and the stock shown does not become negative. -/
def DB.StockKept (gid : ℕ) (d d' : DB) : Prop :=
  ∀ g, d.goods.get? gid = some g → ∃ g', d'.goods.get? gid = some g' ∧
    g'.inStock + d'.heldStock gid = g.inStock + d.heldStock gid ∧ (0 ≤ g.inStock → 0 ≤ g'.inStock)

section Ledger
variable {env : Env} {d d' d'' : DB} {gid : ℕ} {op : Op}

theorem DB.OrdersMoved.positive (hm : d.OrdersMoved op d') (h : d.Positive) : d'.Positive := by
  intro id o' ho'
  cases ho : d.orders.get? id with
  | none => exact (hm.new id o' ho ho').2.2.1
  | some o =>
      obtain ⟨o₂, ho₂, hmove⟩ := hm.old id o ho
      rw [ho'] at ho₂
      rw [Option.some.inj ho₂, hmove.fixed.buyAmount]
      exact h id o ho

theorem runOps_positive (env : Env) (ops : List Op) (h₀ : d.orders = Table.empty) :
    (runOps env ops d).Positive :=
  runOps_induct (fun x op _ hx => (x.apply_ordersMoved env op).positive hx)
    (fun id o ho => by rw [h₀] at ho; cases ho)

theorem DB.StockKept.refl (gid : ℕ) (d : DB) : d.StockKept gid d := fun g hg => ⟨g, hg, rfl, id⟩

theorem DB.StockKept.trans (h : d.StockKept gid d') (h' : d'.StockKept gid d'') :
    d.StockKept gid d'' := by
  intro g hg
  obtain ⟨g', hg', he, hn⟩ := h g hg
  obtain ⟨g'', hg'', he', hn'⟩ := h' g' hg'
  exact ⟨g'', hg'', he'.trans he, fun h => hn' (hn h)⟩

/-- Neither the goods row's stock nor the stock held changes. -/
theorem DB.StockKept.of_same (hgoods : ∀ g, d.goods.get? gid = some g →
      ∃ g', d'.goods.get? gid = some g' ∧ g'.inStock = g.inStock)
    (hheld : d'.heldStock gid = d.heldStock gid) : d.StockKept gid d' := by
  intro g hg
  obtain ⟨g', hg', he⟩ := hgoods g hg
  exact ⟨g', hg', by rw [he, hheld], fun h => by rw [he]; exact h⟩

theorem heldStock_modify {id : ℕ} {o : Order} (f : Order → Order) (ho : d.orders.get? id = some o)
    (h : d'.orders = d.orders.modify id f) :
    d'.heldStock gid = d.heldStock gid + (f o).stockOf gid - o.stockOf gid := by
  rw [DB.heldStock, h, Table.sum_modify ho]
  rfl

theorem get?_moveStock (type : GoodsType) (i : ℕ) (delta : ℤ) {goods : Table Good} {g : Good}
    (hg : goods.get? gid = some g) : ∃ g', (type.moveStock goods i delta).get? gid = some g' ∧
      g'.inStock = (g.inStock + if type = .manual ∧ i = gid then delta else 0) ∧
      g'.salesVolume = g.salesVolume := by
  cases type with
  | auto => exact ⟨g, hg, by simp, rfl⟩
  | manual =>
      rw [GoodsType.moveStock, Table.get?_modify]
      by_cases hi : gid = i
      · exact ⟨{ g with inStock := g.inStock +
          delta }, by rw [if_pos hi, ← hi, hg, Option.map_some], by rw [if_pos ⟨rfl, hi.symm⟩], rfl⟩
      · exact ⟨g, by rw [if_neg hi, hg], by rw [if_neg (fun h => hi h.2.symm), add_zero], rfl⟩

theorem get?_addSales (i : ℕ) (amount : ℤ) {goods : Table Good} {g : Good}
    (hg : goods.get? gid = some g) : ∃ g', (DB.addSales goods i amount).get? gid = some g' ∧
      g'.inStock = g.inStock ∧ g'.salesVolume = g.salesVolume + if i = gid then amount else 0 := by
  rw [DB.addSales, Table.get?_modify]
  by_cases hi : gid = i
  · exact ⟨{ g with salesVolume := g.salesVolume + amount },
      by rw [if_pos hi, ← hi, hg, Option.map_some], rfl, by rw [if_pos hi.symm]⟩
  · exact ⟨g, by rw [if_neg hi, hg], rfl, by rw [if_neg (Ne.symm hi), add_zero]⟩

theorem DB.Created.stockKept {id : ℕ} {o : Order} {reserved : List ℕ}
    (h : d.Created d' id o reserved) : d.StockKept gid d' := by
  intro g hg
  obtain ⟨g', hg', he, -⟩ := get?_moveStock o.type o.goodsId (-o.buyAmount) hg
  refine ⟨g', by rw [h.goods, hg'], ?_, ?_⟩
  · have hheld : d'.heldStock gid = d.heldStock gid + o.stockOf gid := by
      rw [DB.heldStock, h.orders, Table.sum_put_of_none _ _ h.fresh]
      rfl
    rw [hheld, he, Order.stockOf, h.status]
    simp only [holdsStock, and_true]
    split_ifs <;> ring
  · intro hn
    rw [he]
    split_ifs with hc
    · have := h.stock hc.1 g (by rw [hc.2]; exact hg)
      omega
    · simpa using hn

theorem settled_stockKept {id : ℕ} {o : Order} {trade : Text} {redeliver : Bool} {r : Reply}
    (ho : d.orders.get? id = some o) (hs : Settled d id o trade redeliver r d') :
    d.StockKept gid d' := by
  cases hs with
  | already => exact .refl gid d
  | @short coupons back hp hr hret hcards hstock =>
      refine .of_same (fun g hg => ⟨g, hg, rfl⟩) ?_
      rw [heldStock_modify (fun o => o.short trade back) ho rfl]
      have hold : o.stockOf gid = 0 ∨ o.type = .auto := by
        cases ht : o.type with
        | auto => exact Or.inr rfl
        | manual => exact Or.inl (by simp [Order.stockOf, hstock ht, holdsStock])
      have hnew : (o.short trade back).stockOf gid = 0 := by
        simp [Order.stockOf, Order.short, holdsStock]
        tauto
      rcases hold with hold | hold
      · rw [hold, hnew, add_zero, sub_zero]
      · rw [hnew, Order.stockOf, hold]
        simp
  | @cards coupons back cards hp hret hauto hcards hlen =>
      refine .of_same (fun g hg => ?_) ?_
      · obtain ⟨g', hg', he, -⟩ := get?_addSales o.goodsId o.buyAmount hg
        exact ⟨g', hg', he⟩
      · rw [heldStock_modify (fun o => o.deliver (d.cardTexts cards) trade back) ho rfl]
        simp [Order.stockOf, Order.deliver, hauto]
  | @manual coupons back hp hret hmanual hstock =>
      intro g hg
      have hheld : ∀ x : DB, x.orders = d.orders.modify id (fun o => o.handToOwner trade back) →
          x.heldStock gid = d.heldStock gid +
          (o.handToOwner trade back).stockOf gid - o.stockOf gid :=
        fun x hx => heldStock_modify _ ho hx
      have hnew : (o.handToOwner trade back).stockOf gid =
          if o.goodsId = gid then o.buyAmount else 0 := by
        simp [Order.stockOf, Order.handToOwner, hmanual, holdsStock]
      rcases hp with hu | he
      · obtain ⟨g', hg', hs', -⟩ := get?_addSales o.goodsId o.buyAmount hg
        refine ⟨g', by simpa [hu] using hg', ?_, fun h => by rw [hs']; exact h⟩
        rw [hheld _ rfl, hnew, hs', Order.stockOf, hmanual, hu]
        simp [holdsStock]
      · obtain ⟨g₁, hg₁, hs₁, -⟩ := get?_moveStock o.type o.goodsId (-o.buyAmount) hg
        obtain ⟨g', hg', hs', -⟩ := get?_addSales o.goodsId o.buyAmount hg₁
        have hmv : g'.inStock = g.inStock - if o.goodsId = gid then o.buyAmount else 0 := by
          rw [hs', hs₁, hmanual]
          simp only [true_and]
          split_ifs <;> ring
        refine ⟨g', by simpa [he] using hg', ?_, fun hn => ?_⟩
        · rw [hheld _ rfl, hnew, hmv, Order.stockOf, he]
          simp only [holdsStock, Bool.false_eq_true, and_false, if_false]
          ring
        · rw [hmv]
          split_ifs with hi
          · obtain ⟨g₂, hg₂, hle⟩ := hstock he
            rw [hi, hg] at hg₂
            rw [Option.some.inj hg₂] at hn ⊢
            omega
          · omega

theorem expire_stockKept {id : ℕ} {o : Order} (hpos : d.Positive) (ho : d.orders.get? id = some o)
    (hu : o.status = .unpaid) : d.StockKept gid (d.expire id o.couponId o) := by
  intro g hg
  obtain ⟨g', hg', hs', -⟩ := get?_moveStock o.type o.goodsId o.buyAmount hg
  have hheld : (d.expire id o.couponId o).heldStock gid =
      d.heldStock gid + o.expire.stockOf gid - o.stockOf gid := heldStock_modify Order.expire ho rfl
  refine ⟨g', hg', ?_, fun hn => ?_⟩
  · rw [hheld, hs', Order.stockOf, Order.stockOf, hu]
    simp only [Order.expire, holdsStock, Bool.false_eq_true, and_false, and_true, if_false]
    split_ifs <;> ring
  · rw [hs']
    have := hpos id o ho
    split_ifs <;> omega

/-- Where the form lets a manual order go, it holds its stock if it held it or the save takes it. -/
theorem Order.holdsStock_saved {o : Order} {dst : OrderStatus} (ht : o.type = .manual)
    (h : orderStatusRefusal o dst = none) :
    holdsStock dst (if o.takesStock dst then false else o.stockOwed) =
      (holdsStock o.status o.stockOwed || o.takesStock dst) := by
  have hmove := Order.status_of_orderStatusRefusal h
  unfold orderStatusRefusal at h
  split_ifs at h with hshort hfail
  revert hshort hfail hmove
  unfold manualToShort owesManualStock manualShortToFailed Order.takesStock owesManualStock
    takesManualStock ownerMayMove
  rw [ht]
  cases o.status <;> cases dst <;> cases o.stockOwed <;> simp [holdsStock]

theorem Order.stockOf_saved {o : Order} {title info pwd : Text} {dst : OrderStatus}
    (h : orderStatusRefusal o dst = none) : (o.saved o title info pwd dst).stockOf gid =
      o.stockOf gid + if o.takesStock dst = true ∧ o.goodsId = gid then o.buyAmount else 0 := by
  cases ht : o.type with
  | auto => simp [Order.stockOf, Order.saved, Order.edited, Order.takesStock, owesManualStock, ht]
  | manual =>
      have hnot : o.takesStock dst = true → holdsStock o.status o.stockOwed = false := by
        intro htake
        simp only [Order.takesStock, owesManualStock, Bool.and_eq_true, decide_eq_true_eq] at htake
        rw [htake.1.1.2, htake.1.2]
        rfl
      have hsaved := Order.holdsStock_saved ht h
      simp only [Order.stockOf, Order.saved, Order.edited, ht, true_and, hsaved, Bool.or_eq_true]
      by_cases htake : o.takesStock dst = true
      · simp [htake, hnot htake]
      · simp [htake]

theorem saveOrder_stockKept {id : ℕ} {row : Order} {title info pwd : Text} {dst : OrderStatus}
    (ho : d.orders.get? id = some row) (hstatus : orderStatusRefusal row dst = none)
    (hstock : row.takesStock dst = true →
      ∃ g, d.goods.get? row.goodsId = some g ∧ row.buyAmount ≤ g.inStock) :
    d.StockKept gid (d.saveOrder id row title info pwd dst) := by
  intro g hg
  have hheld : (d.saveOrder id row title info pwd dst).heldStock gid =
      d.heldStock gid + (row.saved row title info pwd dst).stockOf gid - row.stockOf gid :=
    heldStock_modify (fun o => o.saved row title info pwd dst) ho rfl
  rw [hheld, Order.stockOf_saved hstatus]
  by_cases htake : row.takesStock dst = true
  · obtain ⟨g', hg', hs', -⟩ := get?_moveStock .manual row.goodsId (-row.buyAmount) hg
    refine ⟨g', by simpa [DB.saveOrder, htake] using hg', ?_, fun hn => ?_⟩
    · rw [hs']
      simp only [htake, true_and]
      split_ifs <;> ring
    · rw [hs']
      simp only [true_and]
      split_ifs with hi
      · obtain ⟨g₂, hg₂, hle⟩ := hstock htake
        rw [hi, hg] at hg₂
        rw [Option.some.inj hg₂] at hn ⊢
        omega
      · omega
  · exact ⟨g, by simpa [DB.saveOrder, htake] using hg, by simp [htake], fun h => h⟩

/-- An order that owes its stock leaves 异常 by taking it. -/
theorem Order.takesStock_of_leaves {o : Order} {dst : OrderStatus} (ht : o.type = .manual)
    (h : orderStatusRefusal o dst = none) (hab : o.status = .abnormal) (howed : o.stockOwed = true)
    (hne : dst ≠ .abnormal) : o.takesStock dst = true := by
  have hmove := Order.status_of_orderStatusRefusal h
  rw [hab] at hmove
  have hmay := hmove.resolve_left hne
  unfold orderStatusRefusal at h
  split_ifs at h with hshort hfail
  revert hfail hne hmay
  simp only [Order.takesStock, owesManualStock, manualShortToFailed, takesManualStock, ownerMayMove,
    ht, hab, howed]
  cases dst <;> simp

theorem request_stockKept {r : Request} {ids : ℕ → ℕ} {reply : Reply} {now : ℤ}
    (hgoods : ∀ f, r ≠ .goodsSave gid f) (hc : (r.script env now).commits ids d reply d') :
    d.StockKept gid d' := by
  have hsettle : ∀ {sn paid trade redeliver},
      (settle sn paid trade redeliver).commits ids d reply d' → d.StockKept gid d' := by
    intro sn paid trade redeliver hc
    obtain ⟨id, o, hfound, -, -, hs⟩ := settle_commits hc
    exact settled_stockKept (DB.orderBySn_some hfound).1 hs
  have hframe : d'.orders = d.orders → d'.goods = d.goods → d.StockKept gid d' := by
    intro he hg
    exact .of_same (fun g hget => ⟨g, by rw [hg, hget], rfl⟩) (by rw [DB.heldStock, he]; rfl)
  have hquote : ∀ {id o} (f : Order → Order), d.orders.get? id = some o →
      (f o).stockOf gid = o.stockOf gid → d'.goods = d.goods → d'.orders = d.orders.modify id f →
      d.StockKept gid d' := by
    intro id o f ho hf hg he
    refine .of_same (fun g hget => ⟨g, by rw [hg, hget], rfl⟩) ?_
    rw [heldStock_modify f ho he, hf, add_sub_cancel_right]
  cases r with
  | createOrder rand inp site =>
      obtain ⟨g, c, q, info, id, reserved, made, -, hcr⟩ := createOrder_commits hc
      exact hcr.stockKept
  | complete sn paid tradeNo => exact hsettle hc
  | redeliver sn => exact hsettle hc
  | lockCldxQuote sn minor expires =>
      obtain ⟨id, o, ho, -, rfl⟩ := lockCldxQuote_commits hc
      exact hquote (fun o => o.quote minor expires) ho rfl rfl rfl
  | lockUSDTInvoice sn onTime created =>
      rcases lockUSDTInvoice_commits hc with rfl | ⟨id, o, raw, ho, -, rfl⟩
      · exact .refl gid _
      · exact hquote (fun o => { o with usdtPayment := some raw }) ho rfl rfl rfl
  | orderSave id f =>
      obtain ⟨row, dst, hload, -, -, hstatus, -, hstock, rfl⟩ := orderSave_commits hc
      exact saveOrder_stockKept (loadOrder_some hload).1 hstatus hstock
  | goodsSave id f =>
      obtain ⟨f, -, -, ⟨-, n, hn, rfl⟩ | ⟨g, -, -, rfl⟩⟩ := goodsSave_commits hc
      · refine .of_same (fun g hget => ⟨g, ?_, rfl⟩) rfl
        rw [Table.get?_put_of_ne _ _ (fun he => by rw [he, hn] at hget; cases hget), hget]
      · have hid : gid ≠ id := fun he => hgoods _ (by rw [he])
        exact .of_same (fun g hget => ⟨g, by rw [Table.get?_modify_of_ne _ _ hid, hget], rfl⟩) rfl
  | couponSave id f =>
      obtain ⟨f, -, -, goods, ⟨-, n, -, rfl⟩ | ⟨c, -, -, rfl⟩⟩ := couponSave_commits hc <;>
        exact hframe rfl rfl
  | carmiSave id f =>
      obtain ⟨c, -, -, -, rfl⟩ := carmiSave_commits hc
      exact hframe rfl rfl
  | carmisImport f =>
      obtain ⟨carmis, rfl, -⟩ := carmisImport_commits hc
      exact hframe rfl rfl
  | markDeleted table id restore =>
      have hf := markDeleted_commits hc
      cases table with
      | orders =>
          obtain ⟨o, ho, rfl⟩ := hf
          exact hquote (fun o => { o with deleted := !restore }) ho rfl rfl
            (Table.put_eq_modify ho (fun o => { o with deleted := !restore }))
      | goods =>
          obtain ⟨v, hv, rfl⟩ := hf
          refine .of_same (fun g hget => ?_) rfl
          rw [Table.get?_put]
          split_ifs with hi
          · rw [hi, hv] at hget
            exact ⟨_, rfl, by rw [Option.some.inj hget]⟩
          · exact ⟨g, hget, rfl⟩
      | goodsGroup =>
          obtain ⟨v, -, rfl⟩ := hf
          exact hframe rfl rfl
      | carmis =>
          obtain ⟨v, -, -, -, rfl⟩ := hf
          exact hframe rfl rfl
      | coupons =>
          obtain ⟨v, -, rfl⟩ := hf
          exact hframe rfl rfl

/-- One operation keeps the stock of a goods, unless it is the goods form of that goods. -/
theorem apply_stockKept (hpos : d.Positive) (hgoods : ∀ f ids,
    op ≠ .request (.goodsSave gid f) ids) :
    d.StockKept gid (op.apply env d) := by
  refine (apply_induct (P := fun x => x.Positive ∧ d.StockKept gid x) ?_ ?_ ?_
    ⟨hpos, .refl gid d⟩).2
  · rintro r ids reply d' rfl ⟨hpos, hk⟩ hc
    have hm : d.OrdersMoved (.request r ids) d' := DB.request_ordersMoved hc
    refine ⟨hm.positive hpos, hk.trans ?_⟩
    exact request_stockKept (fun f he => hgoods f ids (by rw [he])) hc
  · rintro x id o ⟨hpos, hk⟩ ho hu
    refine ⟨?_, hk.trans (expire_stockKept hpos ho hu)⟩
    have hm : x.OrdersMoved (.expireDue 0 0) (x.expire id o.couponId o) :=
      .of_modify Order.expire ho rfl (.expired hu)
    exact hm.positive hpos
  · exact fun n h => h

theorem runOps_stockKept (env : Env) (ops : List Op) (hpos : d.Positive)
    (hgoods : ∀ f ids, .request (.goodsSave gid f) ids ∉ ops) :
    d.StockKept gid (runOps env ops d) := by
  refine (runOps_induct (P := fun x => x.Positive ∧ d.StockKept gid x) ?_ ⟨hpos, .refl gid d⟩).2
  rintro x op hop ⟨hpos, hk⟩
  exact ⟨(x.apply_ordersMoved env op).positive hpos,
    hk.trans (apply_stockKept hpos (fun f ids he => hgoods f ids (he ▸ hop)))⟩

end Ledger

/-- The counted stock of a goods is conserved, never negative, and taken in the very step in which
the owner moves an order out of the debt of 异常. -/
theorem manual_stock_conserved (env : Env) (d : DB) (h₀ : d.orders = Table.empty) (ops : List Op)
    (gid : ℕ) (hgoods : ∀ f ids, .request (.goodsSave gid f) ids ∉ ops) (g : Good)
    (hg : d.goods.get? gid = some g) (hn : 0 ≤ g.inStock) :
    (∃ g', (runOps env ops d).goods.get? gid = some g' ∧
      g'.inStock + (runOps env ops d).heldStock gid = g.inStock ∧ 0 ≤ g'.inStock) ∧
    ∀ pre id f ids post o o' g₁ g₂, ops = pre ++ .request (.orderSave id f) ids :: post →
      (runOps env pre d).orders.get? id = some o → o.type = .manual → o.goodsId = gid →
      o.status = .abnormal → o.stockOwed = true →
      ((Op.request (.orderSave id f) ids).apply env (runOps env pre d)).orders.get? id = some o' →
      o'.status ≠ .abnormal → (runOps env pre d).goods.get? gid = some g₁ →
      ((Op.request (.orderSave id f) ids).apply env (runOps env pre d)).goods.get? gid = some g₂ →
      g₂.inStock = g₁.inStock - o.buyAmount ∧ o'.stockOwed = false ∧ o'.status ≠ .failed := by
  have hpos : d.Positive := fun id o ho => by rw [h₀] at ho; cases ho
  have hheld : d.heldStock gid = 0 := by
    rw [DB.heldStock, h₀]
    rfl
  constructor
  · obtain ⟨g', hg', he, hn'⟩ := runOps_stockKept env ops hpos hgoods g hg
    exact ⟨g', hg', by rw [he, hheld, add_zero], hn' hn⟩
  · intro pre id f ids post o o' g₁ g₂ hops ho ht hgid hab howed ho' hne hg₁ hg₂
    rcases Tx.exec_fst (orderSave id f) ids (runOps env pre d) with hd | ⟨reply, d', hc, he⟩
    · rw [Op.apply, Request.answer, Request.script, hd, ho] at ho'
      exact absurd ((Option.some.inj ho').symm ▸ hab) hne
    rw [Op.apply, Request.answer, Request.script, he] at ho' hg₂
    obtain ⟨row, dst, hload, -, -, hstatus, -, -, rfl⟩ := orderSave_commits hc
    have hrow := (loadOrder_some hload).1
    rw [ho] at hrow
    obtain rfl := Option.some.inj hrow
    have hsaved : (Table.modify (runOps env pre d).orders id _).get? id = some o' := ho'
    rw [Table.get?_modify_self, ho, Option.map_some] at hsaved
    obtain rfl := Option.some.inj hsaved
    have htake := Order.takesStock_of_leaves ht hstatus hab howed hne
    obtain ⟨g', hg', hs', -⟩ := get?_moveStock .manual o.goodsId (-o.buyAmount) hg₁
    have hgoods₂ : ((runOps env pre d).saveOrder id o f.title.trimSpace f.info f.searchPwd.trimSpace
        dst).goods.get? gid = some g' := by simpa [DB.saveOrder, htake] using hg'
    rw [hg₂] at hgoods₂
    obtain rfl := Option.some.inj hgoods₂
    refine ⟨?_, ?_, ?_⟩
    · rw [hs', if_pos ⟨rfl, hgid⟩]
      rfl
    · simp [Order.saved, htake]
    · simp only [Order.takesStock, takesManualStock, Bool.and_eq_true, Bool.or_eq_true,
        decide_eq_true_eq] at htake
      rcases htake.2.2 with (h | h) | h <;> simp [Order.saved, Order.edited, h]

/-- The one piece of the small shop: sold, and not sold again. -/
theorem manual_stock_conserved_sold : ∃ g,
    (runOps tinyEnv [tinyBuy 2 1 [], tinyPay 1, tinyBuy 2 2 []] tinyShop).goods.get? 2 = some g ∧
      g.inStock +
        (runOps tinyEnv [tinyBuy 2 1 [], tinyPay 1, tinyBuy 2 2 []] tinyShop).heldStock 2 = 1 ∧
      0 ≤ g.inStock :=
  (manual_stock_conserved tinyEnv tinyShop rfl _ 2
    (fun f ids h => by simp [tinyBuy, tinyPay] at h) (tinyGood .manual 1) (by decide) (by decide)).1

end Dufaka
