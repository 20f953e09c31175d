import Dufaka.Stock

/-!
# Sales volume

A goods' sales volume against the orders of the goods that were fulfilled: whose cards a settlement
handed over, or whose counted stock was taken for a paid order. A settlement adds an order's volume
in the step that fulfils it; the owner's form, which takes owed stock without a settlement, does
not.
-/

namespace Dufaka
open Relational Tx

def handedBy : Option Reply → List ℕ
  | some (.delivered id _) => [id]
  | _ => []

def Op.handed (env : Env) (d : DB) : Op → List ℕ
  | .request (.complete sn paid trade) ids =>
      handedBy ((Request.complete sn paid trade).answer env ids d).2
  | .request (.redeliver sn) ids => handedBy ((Request.redeliver sn).answer env ids d).2
  | _ => []

def handedIn (env : Env) : List Op → DB → List ℕ
  | [], _ => []
  | op :: ops, d => op.handed env d ++ handedIn env ops (op.apply env d)

/-- The system fulfilled the order: `handed` is whether a settlement handed it over. -/
def Order.fulfilled (handed : Bool) (o : Order) : Bool :=
  match o.type with
  | .auto => handed
  | .manual => !o.stockOwed &&
      (o.status = .pending || o.status = .processing || o.status = .completed || o.status = .failed)

def Order.volumeOf (gid : ℕ) (handed : Bool) (o : Order) : ℤ :=
  if o.goodsId = gid ∧ o.fulfilled handed = true then o.buyAmount else 0

def DB.fulfilledVolume (d : DB) (handed : List ℕ) (gid : ℕ) : ℤ :=
  d.orders.sum (fun i o => o.volumeOf gid (i ∈ handed))

def DB.takesOwed (d : DB) (id : ℕ) (f : OrderForm) : Option Order :=
  (d.loadOrder id).filter (fun row =>
    orderTextRefusal f.title.trimSpace f.searchPwd.trimSpace = none &&
    (OrderStatus.ofCode (mustInt f.status 0)).any (fun dst =>
      orderStatusRefusal row dst = none && row.takesStock dst) &&
    (d.goods.get? row.goodsId).any (fun g => row.buyAmount ≤ g.inStock))

/-- What an operation takes of the goods' stock for an order that owed it. -/
def Op.owedVolume (gid : ℕ) (d : DB) : Op → ℤ
  | .request (.orderSave id f) _ =>
      (d.takesOwed id f).elim 0 (fun row => if row.goodsId = gid then row.buyAmount else 0)
  | _ => 0

def owedIn (env : Env) (gid : ℕ) : List Op → DB → ℤ
  | [], _ => 0
  | op :: ops, d => op.owedVolume gid d + owedIn env gid ops (op.apply env d)

/-- An order owes its stock exactly while it is a manual order in 异常. -/
def DB.OwesInAbnormal (d : DB) : Prop := ∀ id o, d.orders.get? id = some o →
  (o.stockOwed = true ↔ o.type = .manual ∧ o.status = .abnormal)

/-- The orders handed over so far are there, and an automatic one among them is completed. -/
structure DB.Fulfilment (d : DB) (handed : List ℕ) : Prop where
  owes : d.OwesInAbnormal
  handed : ∀ id ∈ handed, ∃ o, d.orders.get? id = some o ∧ (o.type = .auto → o.status = .completed)

/-- The sales of the goods moved with the volume that was fulfilled, but for the `owed` part of
it. -/
def DB.SalesMoved (gid : ℕ) (d : DB) (handed : List ℕ) (owed : ℤ) (d' : DB) (handed' : List ℕ) :
    Prop :=
  ∀ g, d.goods.get? gid = some g → ∃ g', d'.goods.get? gid = some g' ∧
    g'.salesVolume + owed - d'.fulfilledVolume handed' gid =
      g.salesVolume - d.fulfilledVolume handed gid

section Volume
variable {env : Env} {d d' d'' : DB} {gid id : ℕ} {op : Op} {handed handed' handed'' : List ℕ}
  {owed owed' : ℤ}

theorem DB.SalesMoved.refl (gid : ℕ) (d : DB) (handed : List ℕ) :
    d.SalesMoved gid handed 0 d handed := by
  intro g hg
  exact ⟨g, hg, by omega⟩

theorem DB.SalesMoved.trans (h : d.SalesMoved gid handed owed d' handed')
    (h' : d'.SalesMoved gid handed' owed' d'' handed'') :
    d.SalesMoved gid handed (owed + owed') d'' handed'' := by
  intro g hg
  obtain ⟨g', hg', he⟩ := h g hg
  obtain ⟨g'', hg'', he'⟩ := h' g' hg'
  exact ⟨g'', hg'', by omega⟩

/-- Neither the goods' sales nor the volume that counts as fulfilled changes. -/
theorem DB.SalesMoved.of_same (hgoods : ∀ g, d.goods.get? gid = some g →
      ∃ g', d'.goods.get? gid = some g' ∧ g'.salesVolume = g.salesVolume)
    (hvolume : d'.fulfilledVolume handed gid = d.fulfilledVolume handed gid) :
    d.SalesMoved gid handed 0 d' handed := by
  intro g hg
  obtain ⟨g', hg', he⟩ := hgoods g hg
  exact ⟨g', hg', by omega⟩

theorem fulfilledVolume_modify {o : Order} (f : Order → Order) (ho : d.orders.get? id = some o)
    (h : d'.orders = d.orders.modify id f) :
    d'.fulfilledVolume handed gid =
      d.fulfilledVolume handed gid + (f o).volumeOf gid (id ∈ handed) - o.volumeOf gid
        (id ∈ handed) := by
  rw [DB.fulfilledVolume, h, Table.sum_modify ho]
  rfl

/-- The volume after the order `id` was handed over too. -/
theorem fulfilledVolume_handed {o : Order} (f : Order → Order) (ho : d.orders.get? id = some o)
    (h : d'.orders = d.orders.modify id f) :
    d'.fulfilledVolume (handed ++ [id]) gid =
      d.fulfilledVolume handed gid + (f o).volumeOf gid true - o.volumeOf gid (id ∈ handed) := by
  have hothers : ∀ (j : ℕ) (b : Order), j ≠ id →
      b.volumeOf gid (j ∈ handed ++ [id]) = b.volumeOf gid (j ∈ handed) := by
    intro j b hj
    simp [hj]
  rw [DB.fulfilledVolume, h, Table.sum_modify_of_agree ho f hothers]
  simp [DB.fulfilledVolume]

/-! ### Who owes stock -/

theorem Order.Moves.owes {o o' : Order} (h : o.Moves id op o')
    (hk : o.stockOwed = true ↔ o.type = .manual ∧ o.status = .abnormal) :
    o'.stockOwed = true ↔ o'.type = .manual ∧ o'.status = .abnormal := by
  cases h with
  | same => exact hk
  | priced => exact hk
  | flagged => exact hk
  | expired hu => simpa [Order.expire, hu] using hk
  | short => simp [Order.short]
  | delivered hr hauto => simpa [Order.deliver, hauto] using hk
  | pending hs =>
      have hne : o.status ≠ .abnormal := by
        rcases hs with hs | hs <;> simp [hs]
      simpa [Order.handToOwner, hne] using hk
  | @saved f ids title info pwd dst hdst hstatus =>
      show (if o.takesStock dst then false else o.stockOwed) = true ↔ o.type = .manual ∧
        dst = .abnormal
      cases ht : o.type with
      | auto =>
          have hno : o.stockOwed = false := by simpa [ht] using hk
          simp [hno]
      | manual =>
          rw [ht] at hk
          by_cases hdab : dst = .abnormal
          · -- the form cannot bring a manual order into 异常, so that it was there
            have hab : o.status = .abnormal := by
              by_contra hne
              simp [orderStatusRefusal, manualToShort, ht, hdab, hne] at hstatus
            have hnot : o.takesStock .abnormal = false := by
              simp [Order.takesStock, takesManualStock]
            simp [hdab, hnot, hk, hab]
          · by_cases hab : o.status = .abnormal
            · have howed : o.stockOwed = true := hk.mpr ⟨rfl, hab⟩
              simp [Order.takesStock_of_leaves ht hstatus hab howed hdab, hdab]
            · have hno : o.stockOwed = false := by
                rw [Bool.eq_false_iff]
                exact fun h => hab (hk.mp h).2
              simp [hno, hdab]

/-- The one new row of a committed checkout. -/
theorem DB.Created.row {o : Order} {reserved : List ℕ} (h : d.Created d' id o reserved) {i : ℕ}
    {o' : Order} (hn : d.orders.get? i = none) (ho' : d'.orders.get? i = some o') :
    i = id ∧ o' = o := by
  rw [h.orders] at ho'
  rcases Table.get?_put_some ho' with hnew | ⟨-, ho'⟩
  · exact hnew
  · rw [hn] at ho'
    cases ho'

theorem request_owes {r : Request} {ids : ℕ → ℕ} {reply : Reply} {now : ℤ} (h : d.OwesInAbnormal)
    (hc : (r.script env now).commits ids d reply d') : d'.OwesInAbnormal := by
  have hm : d.OrdersMoved (.request r ids) d' := DB.request_ordersMoved hc
  intro i o' ho'
  cases ho : d.orders.get? i with
  | some o =>
      obtain ⟨o₂, ho₂, hmove⟩ := hm.old i o ho
      rw [ho'] at ho₂
      obtain rfl := Option.some.inj ho₂
      exact hmove.owes (h i o ho)
  | none =>
      obtain ⟨-, -, -, ⟨rand, inp, site, ids', he, -⟩, -⟩ := hm.new i o' ho ho'
      obtain rfl : r = .createOrder rand inp site := by injection he
      obtain ⟨g, c, q, info, id, reserved, made, -, hcr⟩ := createOrder_commits hc
      obtain ⟨-, rfl⟩ := hcr.row ho ho'
      simp [hcr.owed, hcr.status]

theorem expire_owes {o : Order} (h : d.OwesInAbnormal) (ho : d.orders.get? id = some o)
    (hu : o.status = .unpaid) : (d.expire id o.couponId o).OwesInAbnormal := by
  have hm : d.OrdersMoved (.expireDue 0 0) (d.expire id o.couponId o) :=
    .of_modify Order.expire ho rfl (.expired hu)
  intro i o' ho'
  cases ho : d.orders.get? i with
  | some o =>
      obtain ⟨o₂, ho₂, hmove⟩ := hm.old i o ho
      rw [ho'] at ho₂
      obtain rfl := Option.some.inj ho₂
      exact hmove.owes (h i o ho)
  | none =>
      obtain ⟨-, -, -, ⟨rand, inp, site, ids', he, -⟩, -⟩ := hm.new i o' ho ho'
      cases he

theorem apply_owes (h : d.OwesInAbnormal) : (op.apply env d).OwesInAbnormal :=
  apply_induct (fun _ _ _ _ _ hx hc => request_owes hx hc) (fun _ _ _ hx ho hu =>
    expire_owes hx ho hu)
    (fun _ hx => hx) h

theorem owesInAbnormal_of_empty (h₀ : d.orders = Table.empty) : d.OwesInAbnormal := by
  intro i o ho
  rw [h₀] at ho
  cases ho

/-- The orders handed over so far stay handed over. -/
theorem DB.Fulfilment.of_moved (h : d.Fulfilment handed) (howes : d'.OwesInAbnormal)
    (hm : d.OrdersMoved op d') : d'.Fulfilment handed where
  owes := howes
  handed i hi := by
    obtain ⟨o, ho, hc⟩ := h.handed i hi
    obtain ⟨o', ho', hmove⟩ := hm.old i o ho
    exact ⟨o', ho', fun ha => hmove.completed (hc (by rw [← hmove.fixed.type, ha]))⟩

theorem DB.Fulfilment.expire {o : Order} (h : d.Fulfilment handed) (ho : d.orders.get? id = some o)
    (hu : o.status = .unpaid) : (d.expire id o.couponId o).Fulfilment handed := by
  have hm : d.OrdersMoved (.expireDue 0 0) (d.expire id o.couponId o) :=
    .of_modify Order.expire ho rfl (.expired hu)
  exact h.of_moved (expire_owes h.owes ho hu) hm

/-! ### One step -/

/-- A payable order has not been fulfilled. -/
theorem DB.Fulfilment.volumeOf_payable {o : Order} (h : d.Fulfilment handed)
    (ho : d.orders.get? id = some o) (hp : o.payable) : o.volumeOf gid (id ∈ handed) = 0 := by
  cases ht : o.type with
  | auto =>
      have hnot : id ∉ handed := by
        intro hid
        obtain ⟨o₁, ho₁, hc⟩ := h.handed id hid
        rw [ho] at ho₁
        obtain rfl := Option.some.inj ho₁
        rcases hp with hs | hs | ⟨hs, -⟩ <;> simp [hs, ht] at hc
      simp [Order.volumeOf, Order.fulfilled, ht, hnot]
  | manual =>
      have hstatus : o.status = .unpaid ∨ o.status = .expired := by
        rcases hp with hs | hs | ⟨-, ha⟩
        · exact Or.inl hs
        · exact Or.inr hs
        · simp [ht] at ha
      rcases hstatus with hs | hs <;> simp [Order.volumeOf, Order.fulfilled, ht, hs]

theorem settled_salesMoved {o : Order} {trade : Text} {redeliver : Bool} {r : Reply}
    (h : d.Fulfilment handed) (ho : d.orders.get? id = some o)
    (hs : Settled d id o trade redeliver r d') :
    d.SalesMoved gid handed 0 d' (handed ++ handedBy (some r)) := by
  cases hs with
  | already =>
      have hnone : handedBy (some .already) = [] := rfl
      rw [hnone, List.append_nil]
      exact .refl gid d handed
  | @short coupons back hp =>
      have hnone : handedBy (some (.err msgShortStock)) = [] := rfl
      rw [hnone, List.append_nil]
      refine .of_same (fun g hg => ⟨g, hg, rfl⟩) ?_
      have hzero : o.volumeOf gid (id ∈ handed) = 0 := h.volumeOf_payable ho hp
      have hnew : (o.short trade back).volumeOf gid (id ∈ handed) = 0 := by
        cases ht : o.type with
        | auto => simpa [Order.volumeOf, Order.fulfilled, Order.short, ht] using hzero
        | manual => simp [Order.volumeOf, Order.fulfilled, Order.short, ht]
      rw [fulfilledVolume_modify (fun o => o.short trade back) ho rfl]
      omega
  | @cards coupons back cards hp hret hauto =>
      intro g hg
      obtain ⟨g', hg', -, hsales⟩ := get?_addSales o.goodsId o.buyAmount hg
      refine ⟨g', hg', ?_⟩
      have hzero : o.volumeOf gid (id ∈ handed) = 0 := h.volumeOf_payable ho hp
      have hnew : (o.deliver (d.cardTexts cards) trade back).volumeOf gid true =
          if o.goodsId = gid then o.buyAmount else 0 := by
        simp [Order.volumeOf, Order.fulfilled, Order.deliver, hauto]
      rw [handedBy, fulfilledVolume_handed (fun o => o.deliver (d.cardTexts cards) trade back) ho
        rfl]
      omega
  | @manual coupons back hp hret hmanual hstock =>
      intro g hg
      have hpay : o.payable := hp.imp_right Or.inl
      have hmoved : ∃ g₁, (if o.status = .expired then
          o.type.moveStock d.goods o.goodsId (-o.buyAmount) else d.goods).get? gid = some g₁ ∧
          g₁.salesVolume = g.salesVolume := by
        split_ifs
        · obtain ⟨g₁, hg₁, -, hs₁⟩ := get?_moveStock o.type o.goodsId (-o.buyAmount) hg
          exact ⟨g₁, hg₁, hs₁⟩
        · exact ⟨g, hg, rfl⟩
      obtain ⟨g₁, hg₁, hs₁⟩ := hmoved
      obtain ⟨g', hg', -, hsales⟩ := get?_addSales o.goodsId o.buyAmount hg₁
      refine ⟨g', hg', ?_⟩
      have hzero : o.volumeOf gid (id ∈ handed) = 0 := h.volumeOf_payable ho hpay
      have hno : o.stockOwed = false := by
        rw [Bool.eq_false_iff]
        intro howed
        have hab := ((h.owes id o ho).mp howed).2
        rcases hp with hs | hs <;> simp [hs] at hab
      have hnew : (o.handToOwner trade back).volumeOf gid true =
          if o.goodsId = gid then o.buyAmount else 0 := by
        simp [Order.volumeOf, Order.fulfilled, Order.handToOwner, hmanual, hno]
      rw [handedBy, fulfilledVolume_handed (fun o => o.handToOwner trade back) ho rfl]
      omega

theorem DB.Created.salesMoved {o : Order} {reserved : List ℕ} (h : d.Fulfilment handed)
    (hc : d.Created d' id o reserved) : d.SalesMoved gid handed 0 d' handed := by
  have hfresh : id ∉ handed := by
    intro hid
    obtain ⟨o₁, ho₁, -⟩ := h.handed id hid
    rw [hc.fresh] at ho₁
    cases ho₁
  refine .of_same (fun g hg => ?_) ?_
  · obtain ⟨g', hg', -, hsales⟩ := get?_moveStock o.type o.goodsId (-o.buyAmount) hg
    exact ⟨g', by rw [hc.goods, hg'], hsales⟩
  · have hnew : o.volumeOf gid (id ∈ handed) = 0 := by
      cases ht : o.type with
      | auto => simp [Order.volumeOf, Order.fulfilled, ht, hfresh]
      | manual => simp [Order.volumeOf, Order.fulfilled, ht, hc.status]
    rw [DB.fulfilledVolume, hc.orders, Table.sum_put_of_none _ _ hc.fresh, hnew, add_zero]
    rfl

theorem expire_salesMoved {o : Order} (h : d.Fulfilment handed) (ho : d.orders.get? id = some o)
    (hu : o.status = .unpaid) : d.SalesMoved gid handed 0 (d.expire id o.couponId o) handed := by
  refine .of_same (fun g hg => ?_) ?_
  · obtain ⟨g', hg', -, hsales⟩ := get?_moveStock o.type o.goodsId o.buyAmount hg
    exact ⟨g', hg', hsales⟩
  · have hzero : o.volumeOf gid (id ∈ handed) = 0 := h.volumeOf_payable ho (Or.inl hu)
    have hnew : o.expire.volumeOf gid (id ∈ handed) = 0 := by
      cases ht : o.type with
      | auto => simpa [Order.volumeOf, Order.fulfilled, Order.expire, ht] using hzero
      | manual => simp [Order.volumeOf, Order.fulfilled, Order.expire, ht]
    rw [fulfilledVolume_modify Order.expire ho rfl]
    omega

/-- The owner's form fulfils an order exactly when it takes the stock the order owed. -/
theorem Order.volumeOf_saved {o : Order} {title info pwd : Text} {dst : OrderStatus} (b : Bool)
    (howes : o.stockOwed = true ↔ o.type = .manual ∧ o.status = .abnormal)
    (h : orderStatusRefusal o dst = none) : (o.saved o title info pwd dst).volumeOf gid b =
      o.volumeOf gid b + if o.takesStock dst = true ∧ o.goodsId = gid then o.buyAmount else 0 := by
  cases ht : o.type with
  | auto =>
      simp [Order.volumeOf, Order.fulfilled, Order.saved, Order.edited, Order.takesStock,
        owesManualStock, ht]
  | manual =>
      have hfulfilled : (o.saved o title info pwd dst).fulfilled b =
          (o.fulfilled b || o.takesStock dst) := by
        have hmove := Order.status_of_orderStatusRefusal h
        rw [ht] at howes
        unfold orderStatusRefusal at h
        split_ifs at h with hshort hfail
        revert hshort hfail hmove howes
        unfold Order.fulfilled Order.saved Order.edited manualToShort manualShortToFailed
          Order.takesStock owesManualStock takesManualStock ownerMayMove
        simp only [ht]
        cases o.status <;> cases dst <;> cases o.stockOwed <;> simp
      have hnot : o.takesStock dst = true → o.fulfilled b = false := by
        intro htake
        simp only [Order.takesStock, owesManualStock, Bool.and_eq_true, decide_eq_true_eq] at htake
        simp [Order.fulfilled, ht, htake.1.2]
      have hgoods : (o.saved o title info pwd dst).goodsId = o.goodsId := rfl
      have hamount : (o.saved o title info pwd dst).buyAmount = o.buyAmount := rfl
      rw [Order.volumeOf, Order.volumeOf, hfulfilled, hgoods, hamount]
      by_cases htake : o.takesStock dst = true
      · simp [htake, hnot htake]
      · simp [htake]

/-- A form that takes owed stock is saved. -/
theorem DB.takesOwed_commits {f : OrderForm} (ids : ℕ → ℕ) {row : Order}
    (h : d.takesOwed id f = some row) : ∃ r d', (orderSave id f).commits ids d r d' := by
  obtain ⟨hload, hchecks⟩ := Option.filter_eq_some_iff.mp h
  simp only [Bool.and_eq_true, decide_eq_true_eq, Option.any_eq_true] at hchecks
  obtain ⟨⟨htext, dst, hdst, hstatus, -⟩, g, hg, hle⟩ := hchecks
  exact exists_commits (orderSave_succeeds ids hload htext hdst hstatus (fun _ => ⟨g, hg, hle⟩))

theorem orderSave_commits_salesMoved {f : OrderForm} {ids ids' : ℕ → ℕ} {r : Reply}
    (h : d.Fulfilment handed) (hc : (orderSave id f).commits ids d r d') :
    d.SalesMoved gid handed (Op.owedVolume gid d (.request (.orderSave id f) ids')) d' handed := by
  obtain ⟨row, dst, hload, htext, hdst, hstatus, -, hstock, rfl⟩ := orderSave_commits hc
  have ho := (loadOrder_some hload).1
  have howed : Op.owedVolume gid d (.request (.orderSave id f) ids') =
      if row.takesStock dst = true ∧ row.goodsId = gid then row.buyAmount else 0 := by
    rw [Op.owedVolume, DB.takesOwed, hload, Option.filter_some]
    by_cases htake : row.takesStock dst = true
    · obtain ⟨g, hg, hle⟩ := hstock htake
      rw [if_pos (by simp [htext, hdst, hstatus, htake, hg, hle]), Option.elim_some]
      simp [htake]
    · rw [if_neg (by simp [hdst, htake]), Option.elim_none]
      simp [htake]
  intro g hg
  have hsold : ∃ g₁, (d.saveOrder id row f.title.trimSpace f.info f.searchPwd.trimSpace
      dst).goods.get?
      gid = some g₁ ∧ g₁.salesVolume = g.salesVolume := by
    by_cases htake : row.takesStock dst = true
    · obtain ⟨g', hg', -, hsales⟩ := get?_moveStock .manual row.goodsId (-row.buyAmount) hg
      exact ⟨g', by simpa [DB.saveOrder, htake] using hg', hsales⟩
    · exact ⟨g, by simpa [DB.saveOrder, htake] using hg, rfl⟩
  obtain ⟨g₁, hg₁, hsales⟩ := hsold
  refine ⟨g₁, hg₁, ?_⟩
  have hvolume : (row.saved row f.title.trimSpace f.info f.searchPwd.trimSpace dst).volumeOf gid
      (id ∈ handed) = row.volumeOf gid (id ∈ handed) +
      if row.takesStock dst = true ∧ row.goodsId = gid then row.buyAmount else 0 :=
    Order.volumeOf_saved (id ∈ handed) (h.owes id row ho) hstatus
  rw [howed, hsales, fulfilledVolume_modify (fun o => o.saved row f.title.trimSpace f.info
    f.searchPwd.trimSpace dst) ho rfl]
  omega

theorem orderSave_salesMoved {f : OrderForm} {ids : ℕ → ℕ} (h : d.Fulfilment handed) :
    d.SalesMoved gid handed (Op.owedVolume gid d (.request (.orderSave id f) ids))
      ((orderSave id f).exec ids d).1 handed := by
  rcases exec_commits_or (orderSave id f) ids d with ⟨r, d', hc, he⟩ | ⟨hno, he⟩
  · rw [he]
    exact orderSave_commits_salesMoved h hc
  · have hnone : d.takesOwed id f = none := by
      rw [Option.eq_none_iff_forall_ne_some]
      intro row htakes
      obtain ⟨r, d', hc⟩ := DB.takesOwed_commits ids htakes
      exact hno r d' hc
    rw [he, Op.owedVolume, hnone]
    exact .refl gid d handed

/-- A settlement that does not commit hands nothing over. -/
theorem handedBy_settleEnd {redeliver : Bool} {r : Reply} (h : settleEnd redeliver false r) :
    handedBy (some r) = [] := by
  rcases h rfl with ⟨rfl, -⟩ | ⟨msg, rfl, -⟩ <;> rfl

theorem settle_salesMoved {sn trade : Text} {paid : Cents} {redeliver : Bool} {ids : ℕ → ℕ}
    (h : d.Fulfilment handed) :
    d.SalesMoved gid handed 0 ((settle sn paid trade redeliver).exec ids d).1
      (handed ++ handedBy ((settle sn paid trade redeliver).exec ids d).2) := by
  rcases exec_cases_of_ends settle_ends ids d with ⟨r, d', hc, he⟩ | ⟨r, hend, he⟩ | he
  · rw [he]
    obtain ⟨i, o, hfound, -, -, hs⟩ := settle_commits hc
    exact settled_salesMoved h (DB.orderBySn_some hfound).1 hs
  · rw [he, handedBy_settleEnd hend, List.append_nil]
    exact .refl gid d handed
  · have hnone : handedBy none = [] := rfl
    rw [he, hnone, List.append_nil]
    exact .refl gid d handed

/-- A committed request that is neither a settlement nor an order form moves no sales. -/
theorem request_salesMoved {r : Request} {ids : ℕ → ℕ} {reply : Reply} {now : ℤ}
    (h : d.Fulfilment handed) (hgoods : ∀ f, r ≠ .goodsSave gid f)
    (hsettle : ∀ sn paid trade redeliver, r ≠ settleRequest sn paid trade redeliver)
    (hsave : ∀ id f, r ≠ .orderSave id f) (hc : (r.script env now).commits ids d reply d') :
    d.SalesMoved gid handed 0 d' handed := by
  have hframe : d'.orders = d.orders → d'.goods = d.goods →
      d.SalesMoved gid handed 0 d' handed := by
    intro he hg
    refine .of_same (fun g hget => ⟨g, by rw [hg, hget], rfl⟩) ?_
    rw [DB.fulfilledVolume, he]
    rfl
  have hquote : ∀ {id o} (f : Order → Order), d.orders.get? id = some o →
      (∀ b, (f o).volumeOf gid b = o.volumeOf gid b) → d'.goods = d.goods →
      d'.orders = d.orders.modify id f → d.SalesMoved gid handed 0 d' handed := by
    intro id o f ho hf hg he
    refine .of_same (fun g hget => ⟨g, by rw [hg, hget], rfl⟩) ?_
    rw [fulfilledVolume_modify f ho he, hf, add_sub_cancel_right]
  cases r with
  | createOrder rand inp site =>
      obtain ⟨g, c, q, info, id, reserved, made, -, hcr⟩ := createOrder_commits hc
      exact hcr.salesMoved h
  | complete sn paid tradeNo => exact absurd rfl (hsettle sn paid tradeNo false)
  | redeliver sn => exact absurd rfl (hsettle sn 0 [] true)
  | lockCldxQuote sn minor expires =>
      obtain ⟨id, o, ho, -, rfl⟩ := lockCldxQuote_commits hc
      exact hquote (fun o => o.quote minor expires) ho (fun _ => rfl) rfl rfl
  | lockUSDTInvoice sn onTime created =>
      rcases lockUSDTInvoice_commits hc with rfl | ⟨id, o, raw, ho, -, rfl⟩
      · exact .refl gid _ handed
      · exact hquote (fun o => { o with usdtPayment := some raw }) ho (fun _ => rfl) rfl rfl
  | orderSave id f => exact absurd rfl (hsave id f)
  | goodsSave id f =>
      obtain ⟨f, -, -, ⟨-, n, hn, rfl⟩ | ⟨g, -, -, rfl⟩⟩ := goodsSave_commits hc
      · refine .of_same (fun g hget => ⟨g, ?_, rfl⟩) rfl
        rw [Table.get?_put_of_ne _ _ (fun he => by rw [he, hn] at hget; cases hget), hget]
      · have hid : gid ≠ id := fun he => hgoods _ (by rw [he])
        exact .of_same (fun g hget => ⟨g, by rw [Table.get?_modify_of_ne _ _ hid, hget], rfl⟩) rfl
  | couponSave id f =>
      obtain ⟨f, -, -, goods, ⟨-, n, -, rfl⟩ | ⟨c, -, -, rfl⟩⟩ := couponSave_commits hc <;>
        exact hframe rfl rfl
  | carmiSave id f =>
      obtain ⟨c, -, -, -, rfl⟩ := carmiSave_commits hc
      exact hframe rfl rfl
  | carmisImport f =>
      obtain ⟨carmis, rfl, -⟩ := carmisImport_commits hc
      exact hframe rfl rfl
  | markDeleted table id restore =>
      have hf := markDeleted_commits hc
      cases table with
      | orders =>
          obtain ⟨o, ho, rfl⟩ := hf
          exact hquote (fun o => { o with deleted := !restore }) ho (fun _ => rfl) rfl
            (Table.put_eq_modify ho (fun o => { o with deleted := !restore }))
      | goods =>
          obtain ⟨v, hv, rfl⟩ := hf
          refine .of_same (fun g hget => ?_) rfl
          rw [Table.get?_put]
          split_ifs with hi
          · rw [hi, hv] at hget
            exact ⟨_, rfl, by rw [Option.some.inj hget]⟩
          · exact ⟨g, hget, rfl⟩
      | goodsGroup =>
          obtain ⟨v, -, rfl⟩ := hf
          exact hframe rfl rfl
      | carmis =>
          obtain ⟨v, -, -, -, rfl⟩ := hf
          exact hframe rfl rfl
      | coupons =>
          obtain ⟨v, -, rfl⟩ := hf
          exact hframe rfl rfl

theorem Settled.handedOver {i : ℕ} {o : Order} {trade : Text} {redeliver : Bool} {cards : List ℕ}
    (hs : Settled d i o trade redeliver (.delivered id cards) d') (ho : d.orders.get? i = some o) :
    ∃ o', d'.orders.get? id = some o' ∧ (o'.type = .auto → o'.status = .completed) := by
  cases hs with
  | @cards coupons back cards =>
      refine ⟨o.deliver (d.cardTexts cards) trade back, ?_, fun _ => rfl⟩
      exact (Table.get?_modify_self _ _ _).trans (by rw [ho, Option.map_some])
  | @manual coupons back hp hret hmanual =>
      refine ⟨o.handToOwner trade back, ?_, fun ha => ?_⟩
      · exact (Table.get?_modify_self _ _ _).trans (by rw [ho, Option.map_some])
      · exact absurd (hmanual.symm.trans ha) nofun

/-- The order a settlement hands over joins those handed over before. -/
theorem settle_fulfilment {sn trade : Text} {paid : Cents} {redeliver : Bool} {ids : ℕ → ℕ}
    (h : ((settle sn paid trade redeliver).exec ids d).1.Fulfilment handed) :
    ((settle sn paid trade redeliver).exec ids d).1.Fulfilment
      (handed ++ handedBy ((settle sn paid trade redeliver).exec ids d).2) where
  owes := h.owes
  handed i hi := by
    rcases List.mem_append.mp hi with hi | hi
    · exact h.handed i hi
    · cases hr : ((settle sn paid trade redeliver).exec ids d).2 with
      | none => simp [hr, handedBy] at hi
      | some r =>
          cases r with
          | delivered id cards =>
              rw [hr] at hi
              obtain rfl := List.mem_singleton.mp hi
              have hc := settle_commits_of_delivered (Prod.ext rfl hr)
              obtain ⟨j, o, hfound, -, -, hs⟩ := settle_commits hc
              have ho := (DB.orderBySn_some hfound).1
              exact hs.handedOver ho
          | _ => simp [hr, handedBy] at hi

theorem apply_fulfilment (h : d.Fulfilment handed) :
    (op.apply env d).Fulfilment (handed ++ op.handed env d) := by
  have hkeep : (op.apply env d).Fulfilment handed :=
    h.of_moved (apply_owes h.owes) (d.apply_ordersMoved env op)
  have hnone : op.handed env d = [] → (op.apply env d).Fulfilment (handed ++ op.handed env d) := by
    intro he
    rw [he, List.append_nil]
    exact hkeep
  cases op with
  | tick n => exact hnone rfl
  | expireDue minutes count => exact hnone rfl
  | request r ids =>
      cases r with
      | complete sn paid trade => exact settle_fulfilment hkeep
      | redeliver sn => exact settle_fulfilment hkeep
      | _ => exact hnone rfl

theorem expireAll_salesMoved (h : d.Fulfilment handed) (minutes : ℤ) (count : ℕ) :
    d.SalesMoved gid handed 0 (d.expireAll ((d.dueOrders minutes).take count)) handed := by
  refine (expireAll_induct (P := fun x => x.Fulfilment handed ∧
    d.SalesMoved gid handed 0 x handed) ?_
    _ d (fun e he o ho => dueOrders_coupon (List.mem_of_mem_take he) ho) ⟨h, .refl gid d handed⟩).2
  rintro x i o ⟨hx, hsales⟩ ho hu
  exact ⟨hx.expire ho hu, hsales.trans (expire_salesMoved hx ho hu)⟩

/-- One operation moves the sales of a goods with the volume it fulfils, but for owed stock the
owner takes. -/
theorem apply_salesMoved (h : d.Fulfilment handed)
    (hgoods : ∀ f ids, op ≠ .request (.goodsSave gid f) ids) :
    d.SalesMoved gid handed (op.owedVolume gid d) (op.apply env d) (handed ++ op.handed env d) := by
  have hnone : op.handed env d = [] →
      d.SalesMoved gid handed (op.owedVolume gid d) (op.apply env d) handed →
      d.SalesMoved gid handed (op.owedVolume gid d) (op.apply env d) (handed ++
        op.handed env d) := by
    intro he hs
    rw [he, List.append_nil]
    exact hs
  cases op with
  | tick n => exact hnone rfl (.of_same (fun g hg => ⟨g, hg, rfl⟩) rfl)
  | expireDue minutes count => exact hnone rfl (expireAll_salesMoved h minutes count)
  | request r ids =>
      have hother : (∀ sn paid trade redeliver, r ≠ settleRequest sn paid trade redeliver) →
          (∀ id f, r ≠ .orderSave id f) →
          d.SalesMoved gid handed 0 (Op.apply env d (.request r ids)) handed := by
        intro hsettle hsave
        rw [Op.apply, Request.answer]
        rcases exec_fst (r.script env d.clock) ids d with hd | ⟨reply, d', hc, he⟩
        · rw [hd]
          exact .refl gid d handed
        · rw [he]
          exact request_salesMoved h (fun f hf => hgoods f ids (by rw [hf])) hsettle hsave hc
      cases r with
      | complete sn paid trade => exact settle_salesMoved h
      | redeliver sn => exact settle_salesMoved h
      | orderSave id f => exact hnone rfl (orderSave_salesMoved h)
      | _ =>
          refine hnone rfl (hother (fun _ _ _ redeliver hr => ?_) (fun _ _ hr => by cases hr))
          cases redeliver <;> cases hr

/-! ### Runs -/

theorem runOps_salesMoved (env : Env) (ops : List Op) (h : d.Fulfilment handed)
    (hgoods : ∀ f ids, .request (.goodsSave gid f) ids ∉ ops) :
    d.SalesMoved gid handed (owedIn env gid ops d) (runOps env ops d)
      (handed ++ handedIn env ops d) := by
  induction ops generalizing d handed with
  | nil =>
      rw [handedIn, List.append_nil]
      exact .refl gid d handed
  | cons op ops ih =>
      have hstep : d.SalesMoved gid handed (op.owedVolume gid d) (op.apply env d)
          (handed ++ op.handed env d) := by
        refine apply_salesMoved h (fun f ids he => ?_)
        exact hgoods f ids (by simp [he])
      have hnext : (op.apply env d).Fulfilment (handed ++ op.handed env d) := apply_fulfilment h
      have hrest := ih hnext
        (fun f ids hm => hgoods f ids (List.mem_cons_of_mem op hm))
      rw [handedIn, ← List.append_assoc]
      exact hstep.trans hrest

theorem DB.takesOwed_some {f : OrderForm} {row : Order} (h : d.takesOwed id f = some row) :
    d.orders.get? id = some row := (loadOrder_some (Option.filter_eq_some_iff.mp h).1).1

theorem Op.owedVolume_nonneg (hpos : d.Positive) : 0 ≤ op.owedVolume gid d := by
  unfold Op.owedVolume
  split
  · rename_i id f ids
    cases htakes : d.takesOwed id f with
    | none => exact le_refl 0
    | some row =>
        have hamount := hpos id row (DB.takesOwed_some htakes)
        rw [Option.elim_some]
        split_ifs <;> omega
  · exact le_refl 0

/-- The owner takes no owed stock of the goods in a run exactly when no form of the run does. -/
theorem owedIn_eq_zero (env : Env) (ops : List Op) (hpos : d.Positive) :
    0 ≤ owedIn env gid ops d ∧ (owedIn env gid ops d = 0 ↔
      ∀ pre id f ids post row, ops = pre ++ .request (.orderSave id f) ids :: post →
        (runOps env pre d).takesOwed id f = some row → row.goodsId ≠ gid) := by
  induction ops generalizing d with
  | nil =>
      refine ⟨le_refl 0, fun _ pre id f ids post row hops => ?_, fun _ => rfl⟩
      simp at hops
  | cons op ops ih =>
      obtain ⟨hrest, hiff⟩ := ih ((d.apply_ordersMoved env op).positive hpos)
      have hstep : 0 ≤ op.owedVolume gid d := Op.owedVolume_nonneg hpos
      refine ⟨by rw [owedIn]; omega, ?_⟩
      rw [owedIn]
      constructor
      · intro hzero pre id f ids post row hops htakes
        cases pre with
        | nil =>
            obtain ⟨rfl, rfl⟩ := List.cons.inj hops
            intro hgid
            have htakes' : d.takesOwed id f = some row := htakes
            have hamount := hpos id row (DB.takesOwed_some htakes')
            have hvol : Op.owedVolume gid d (.request (.orderSave id f) ids) = row.buyAmount := by
              rw [Op.owedVolume, htakes', Option.elim_some, if_pos hgid]
            omega
        | cons op' pre =>
            obtain ⟨rfl, rfl⟩ := List.cons.inj hops
            exact hiff.mp (by omega) pre id f ids post row rfl htakes
      · intro hforms
        have hlater : owedIn env gid ops (op.apply env d) = 0 := by
          refine hiff.mpr (fun pre id f ids post row hops htakes => ?_)
          exact hforms (op :: pre) id f ids post row (by rw [hops, List.cons_append]) htakes
        have hnow : op.owedVolume gid d = 0 := by
          unfold Op.owedVolume
          split
          · rename_i id f ids
            cases htakes : d.takesOwed id f with
            | none => rfl
            | some row =>
                have hne := hforms [] id f ids ops row rfl htakes
                rw [Option.elim_some, if_neg hne]
          · rfl
        omega

/-- In every run the sales of a goods are those it began with and the volume of its fulfilled
orders, exactly when the owner's form takes no owed stock of the goods. -/
theorem sales_count_fulfilled (env : Env) (d : DB) (h₀ : d.orders = Table.empty) (ops : List Op)
    (gid : ℕ) (hgoods : ∀ f ids, .request (.goodsSave gid f) ids ∉ ops) (g g' : Good)
    (hg : d.goods.get? gid = some g) (hg' : (runOps env ops d).goods.get? gid = some g') :
    g'.salesVolume = g.salesVolume + (runOps env ops d).fulfilledVolume (handedIn env ops d) gid ↔
      ∀ pre id f ids post row, ops = pre ++ .request (.orderSave id f) ids :: post →
        (runOps env pre d).takesOwed id f = some row → row.goodsId ≠ gid := by
  have hpos : d.Positive := fun id o ho => by rw [h₀] at ho; cases ho
  have hstart : d.Fulfilment [] := ⟨owesInAbnormal_of_empty h₀, fun _ hid => nomatch hid⟩
  have hzero : d.fulfilledVolume [] gid = 0 := by
    rw [DB.fulfilledVolume, h₀]
    rfl
  obtain ⟨g₁, hg₁, hmoved⟩ := runOps_salesMoved env ops hstart hgoods g hg
  rw [hg'] at hg₁
  obtain rfl := Option.some.inj hg₁
  rw [List.nil_append] at hmoved
  rw [← (owedIn_eq_zero env ops hpos).2]
  constructor <;> intro h <;> omega

end Volume

/-- The sale of the small shop's card counts once, also when its notice is repeated. -/
theorem sales_count_fulfilled_sale : (1 : ℤ) = 0 +
    (runOps tinyEnv [tinyBuy 1 1 [], tinyPay 1, tinyPay 1] tinyShop).fulfilledVolume
      (handedIn tinyEnv [tinyBuy 1 1 [], tinyPay 1, tinyPay 1] tinyShop) 1 :=
  (sales_count_fulfilled tinyEnv tinyShop rfl [tinyBuy 1 1 [], tinyPay 1, tinyPay 1] 1
    (fun f ids h => by simp [tinyBuy, tinyPay] at h) (tinyGood .auto 0)
    { tinyGood .auto 0 with salesVolume := 1 } (by decide) (by decide)).mpr
    (fun pre id f ids post row hops _ _ => by
      have hmem : Op.request (.orderSave id f) ids ∈ [tinyBuy 1 1 [], tinyPay 1, tinyPay 1] := by
        rw [hops]
        simp
      simp [tinyBuy, tinyPay] at hmem)

def tinyOwed : List Op :=
  [tinyBuy 2 1 [], .tick 600000000, .expireDue 5 1, tinyBuy 2 2 [], tinyPay 1, .tick 600000000,
    .expireDue 5 2, tinySave 1 [] .pending]

/-- Stock that the owner's form takes for a paid order is never added to the sales. -/
theorem sales_miss_owed_stock :
    ¬ ∀ (env : Env) (d : DB) (ops : List Op) (gid : ℕ) (g g' : Good), d.orders = Table.empty →
      (∀ f ids, .request (.goodsSave gid f) ids ∉ ops) → d.goods.get? gid = some g →
      (runOps env ops d).goods.get? gid = some g' →
      g'.salesVolume = g.salesVolume + (runOps env ops d).fulfilledVolume
        (handedIn env ops d) gid := by
  intro h
  have hsales := h tinyEnv tinyShop tinyOwed 2 (tinyGood .manual 1) (tinyGood .manual 0) rfl
    (fun f ids hf => by simp [tinyOwed, tinyBuy, tinyPay, tinySave] at hf) (by decide)
    (by decide)
  have hvolume : (runOps tinyEnv tinyOwed tinyShop).fulfilledVolume
      (handedIn tinyEnv tinyOwed tinyShop) 2 = 1 := by decide
  rw [hvolume] at hsales
  cases hsales

end Dufaka
