import Dufaka.Checkout

/-!
# What a checkout does

`Created` lists everything a committed `createOrder` changes, when no other transaction runs beside
it. Each part of the script has its own rule; `createOrder_commits` puts them together.
-/

namespace Dufaka
open Relational Tx

/-- The goods table after an order moved its stock; only counted stock moves there. -/
def GoodsType.moveStock (type : GoodsType) (goods : Table Good) (gid : ℕ) (delta : ℤ) :
    Table Good :=
  match type with
  | .auto => goods
  | .manual => goods.modify gid (fun g => { g with inStock := g.inStock + delta })

structure DB.Created (d d' : DB) (id : ℕ) (o : Order) (reserved : List ℕ) : Prop where
  amount : 1 ≤ o.buyAmount
  fresh : d.orders.get? id = none
  unique : ∀ i o', d.orders.get? i = some o' → o'.orderSn ≠ o.orderSn
  status : o.status = .unpaid
  retBack : o.couponRetBack = .held
  owed : o.stockOwed = false
  kept : o.deleted = false
  good : ∃ g, d.goods.get? o.goodsId = some g ∧ g.type = o.type
  cards : o.type = .auto → (reserved.length : ℤ) = o.buyAmount ∧ reserved.Nodup ∧
    ∀ i ∈ reserved, ∃ c, d.carmis.get? i = some c ∧ DB.freeCard o.goodsId c = true
  noCards : o.type = .manual → reserved = []
  stock : o.type = .manual → ∀ g, d.goods.get? o.goodsId = some g → o.buyAmount ≤ g.inStock
  coupon : (o.couponId = 0 ∧ d'.coupons = d.coupons) ∨
    ∃ c, d.coupons.get? o.couponId = some c ∧ 0 < c.ret ∧
      d'.coupons = d.coupons.modify o.couponId (fun c => { c with ret := c.ret - 1 })
  goods : d'.goods = o.type.moveStock d.goods o.goodsId (-o.buyAmount)
  carmis : d'.carmis = d.carmis.mapRows (fun i c =>
    if i ∈ reserved then { c with reservedOrderId := some id } else c)
  orders : d'.orders = d.orders.put id o
  rest : d'.clock = d.clock ∧ d'.goodsGroup = d.goodsGroup ∧ d'.couponsGoods = d.couponsGoods ∧
    d'.pays = d.pays

namespace DB

/-- Changing distinct cards one after the other is one bulk update. -/
theorem foldl_changeRow_carmi (d : DB) (f : Carmi → Carmi) {cards : List ℕ} (h : cards.Nodup) :
    cards.foldl (fun d cid => d.changeRow (.carmi cid) f) d =
      { d with carmis := d.carmis.mapRows (fun i c => if i ∈ cards then f c else c) } := by
  have hstep : ∀ (cards : List ℕ) (d : DB),
      cards.foldl (fun d cid => d.changeRow (.carmi cid) f) d =
      { d with carmis := cards.foldl (fun t i => t.modify i f) d.carmis } := by
    intro cards
    induction cards with
    | nil => exact fun d => rfl
    | cons i is ih =>
        intro d
        rw [List.foldl_cons, changeRow_carmi, ih, List.foldl_cons]
  rw [hstep, Table.foldl_modify _ _ h]

theorem orderBySn_none {d : DB} {sn : Text} (h : d.orderBySn sn = none) {i : ℕ} {o : Order}
    (hi : d.orders.get? i = some o) : o.orderSn ≠ sn := by
  have := Table.find?_none h hi
  simpa using this

theorem orderBySn_some {d : DB} {sn : Text} {i : ℕ} {o : Order} (h : d.orderBySn sn = some (i, o)) :
    d.orders.get? i = some o ∧ o.orderSn = sn := by
  obtain ⟨hi, hp⟩ := Table.find?_some h
  exact ⟨hi, by simpa using hp⟩

end DB

namespace Script
variable {env : Env} {ids ids' : ℕ → ℕ} {d d' : DB} {r : Reply}

theorem unpaidQuota_returns {source email : Text} {expireMin now : ℤ} {u : Unit}
    (h : (unpaidQuota env source email expireMin now).returns ids d u ids' d') :
    ids = ids' ∧ d = d' := by
  simp only [unpaidQuota, returns_bind] at h
  obtain ⟨_, ids₁, d₁, h₁, _, ids₂, d₂, h₂, h₃⟩ := h
  obtain ⟨rfl, hd⟩ := (returns_forEach (fun _ d => d)
    (fun _ _ _ _ _ _ => returns_advisoryLock) _).mp h₁
  obtain ⟨-, rfl, rfl⟩ := returns_read.mp h₂
  obtain ⟨-, rfl, rfl⟩ := returns_require.mp h₃
  exact ⟨rfl, by rw [← hd]; induction quotaKeys source (env.toLower email) with
    | nil => rfl
    | cons k ks ih => exact ih⟩

theorem not_commits_unpaidQuota {source email : Text} {expireMin now : ℤ} :
    ¬ (unpaidQuota env source email expireMin now).commits ids d r d' := by
  simp only [unpaidQuota, commits_bind, commits_read, commits_require, false_or]
  rintro (h | ⟨_, _, _, -, _, _, _, -, h⟩)
  · exact not_commits_forEach (fun _ _ _ _ _ => by simp) _ h
  · exact h

theorem reserveStock_returns {gid : ℕ} {type : GoodsType} {amount : ℤ} {reserved : List ℕ}
    (h : (reserveStock gid type amount).returns ids d reserved ids' d') :
    reserved.Nodup ∧
      (type = .auto → (reserved.length : ℤ) = amount ∧
        ∀ i ∈ reserved, ∃ c, d.carmis.get? i = some c ∧ DB.freeCard gid c = true) ∧
      (type = .manual → reserved = [] ∧ ∃ g, d.goods.get? gid = some g ∧ amount ≤ g.inStock) ∧
      d' = { d with goods := type.moveStock d.goods gid (-amount) } := by
  cases type with
  | auto =>
      simp only [reserveStock, returns_bind, returns_skipLocked, returns_require, returns_pure] at h
      obtain ⟨picked, _, _, ⟨hpick, rfl, rfl⟩, _, _, _, ⟨hlen, rfl, rfl⟩, rfl, rfl, rfl⟩ := h
      have hpick' : picked = (((d.carmis.select (fun _ c => DB.freeCard gid c)).map Prod.fst).take
          amount.toNat) := by
        rw [← hpick]
        simp
      refine ⟨?_, fun _ => ⟨by simpa using hlen, ?_⟩, fun hm => (by cases hm), rfl⟩
      · rw [hpick']
        exact (d.carmis.select_keys_nodup _).sublist (List.take_sublist _ _)
      · intro i hi
        rw [hpick'] at hi
        exact Table.mem_select_keys.mp (List.mem_of_mem_take hi)
  | manual =>
      simp only [reserveStock, returns_bind, returns_update (.goods _), returns_require,
        returns_pure, DB.get_goods] at h
      obtain ⟨row, _, _, ⟨hrow, rfl, hw⟩, _, _, _, ⟨hsome, rfl, rfl⟩, rfl, rfl, rfl⟩ := h
      obtain ⟨v, rfl⟩ := Option.isSome_iff_exists.mp hsome
      obtain ⟨g, hg, hv⟩ := Option.bind_eq_some_iff.mp hrow
      split_ifs at hv with hle
      obtain rfl := Option.some.inj hv
      refine ⟨List.nodup_nil, fun ha => (by cases ha), fun _ => ⟨rfl, g, hg, hle⟩, ?_⟩
      rw [GoodsType.moveStock, ← Table.put_eq_modify hg]
      exact hw.symm

theorem not_commits_reserveStock {gid : ℕ} {type : GoodsType} {amount : ℤ} :
    ¬ (reserveStock gid type amount).commits ids d r d' := by
  cases type <;> simp [reserveStock, commits_bind, commits_update (.goods _)]

theorem useCoupon_returns {code : Text} {gid : ℕ} {used : ℕ × Text}
    (h : (useCoupon code gid).returns ids d used ids' d') :
    ∃ coupons, d' = { d with coupons := coupons } ∧
      ((used.1 = 0 ∧ used.2 = [] ∧ coupons = d.coupons) ∨
        ∃ c, d.coupons.get? used.1 = some c ∧ 0 < c.ret ∧ used.2 = yuan c.discount ∧
          coupons = d.coupons.modify used.1 (fun c => { c with ret := c.ret - 1 })) := by
  unfold useCoupon at h
  split_ifs at h with hb
  · simp only [returns_pure] at h
    obtain ⟨rfl, rfl, rfl⟩ := h
    exact ⟨_, rfl, Or.inl ⟨rfl, rfl, rfl⟩⟩
  · simp only [returns_bind, returns_read, returns_orElse, returns_lockRow (.coupon _),
      returns_update (.coupon _), returns_require, returns_pure, DB.get_coupon] at h
    obtain ⟨_, _, _, ⟨-, rfl, rfl⟩, found, _, _, ⟨-, rfl, rfl⟩, _, _, _, ⟨hrow, rfl, rfl⟩, c, _, _,
      ⟨rfl, rfl, rfl⟩, row, _, _, ⟨hup, rfl, hw⟩, _, _, _, ⟨href, rfl, rfl⟩, rfl, rfl, rfl⟩ := h
    obtain ⟨hc, -⟩ := Option.filter_eq_some_iff.mp hrow
    rw [hc, Option.bind_some] at hup
    split_ifs at hup with hok
    · subst hup
      refine ⟨_, hw.symm, Or.inr ⟨c, hc, hok.1, rfl, ?_⟩⟩
      rw [← Table.put_eq_modify hc]
    · -- an update of no row is refused by `TakeCoupon`
      subst hup
      simp only [Option.isSome_none, Bool.false_eq_true, if_false, takeCouponError, ne_eq,
        zero_ne_one, not_false_eq_true, or_true, if_true, decide_eq_true_eq] at href
      split_ifs at href

theorem not_commits_useCoupon {code : Text} {gid : ℕ} :
    ¬ (useCoupon code gid).commits ids d r d' := by
  unfold useCoupon
  split_ifs <;> simp [commits_bind, commits_lockRow (.coupon _), commits_update (.coupon _)]

theorem insertOrder_returns {o : Order} {reserved : List ℕ} {id : ℕ} (hnd : reserved.Nodup)
    (h : (insertOrder o reserved).returns ids d id ids' d') :
    d.orders.get? id = none ∧ (∀ i o', d.orders.get? i = some o' → o'.orderSn ≠ o.orderSn) ∧
      d' = { d with
        orders := d.orders.put id o
        carmis := d.carmis.mapRows (fun i c =>
          if i ∈ reserved then { c with reservedOrderId := some id } else c) } := by
  simp only [insertOrder, returns_bind, returns_read, returns_require, Tx.returns_insert,
    returns_foreignKey, returns_pure, DB.get_order, DB.set_order] at h
  obtain ⟨_, _, _, ⟨rfl, rfl, rfl⟩, _, _, _, ⟨hclash, rfl, rfl⟩, n, _, _, ⟨hfresh, hn, rfl, hd⟩,
    _, _, _, ⟨-, rfl, rfl⟩, _, _, _, hloop, rfl, rfl, rfl⟩ := h
  rw [hn] at hfresh hd
  subst hd
  have hfold := ((returns_forEach
    (fun cid d => d.changeRow (.carmi cid) (fun c => { c with reservedOrderId := some n }))
    (fun _ _ _ _ _ _ => returns_change) reserved).mp hloop).2
  have hall := DB.foldl_changeRow_carmi { d with orders := d.orders.put n o }
    (fun c => { c with reservedOrderId := some n }) hnd
  refine ⟨hfresh, ?_, hfold.symm.trans hall⟩
  intro i o' hi
  refine DB.orderBySn_none ?_ hi
  simpa using hclash

theorem not_commits_insertOrder {o : Order} {reserved : List ℕ} :
    ¬ (insertOrder o reserved).commits ids d r d' := by
  simp only [insertOrder, commits_bind, commits_read, commits_require, Tx.commits_insert,
    commits_foreignKey, commits_pure, false_or]
  rintro ⟨_, _, _, -, _, _, _, -, _, _, _, -, _, _, _, -, h | ⟨_, _, _, -, h⟩⟩
  · exact not_commits_forEach (fun _ _ _ _ _ => by simp) _ h
  · exact h

end Script

open Script

theorem goodBy_some {d : DB} {gid : ℕ} {g : Good} (h : d.goodBy gid = some g) :
    ∃ g₀, d.goods.get? gid = some g₀ ∧ g₀.type = g.type ∧ g₀.actualPrice = g.actualPrice := by
  obtain ⟨g₀, hg₀, rfl⟩ := Option.map_eq_some_iff.mp h
  exact ⟨g₀, (Option.filter_eq_some_iff.mp hg₀).1, rfl, rfl⟩

/-- A committed checkout with the quote it was priced by; `used` is its coupon and the text of the
discount. -/
theorem createOrder_quoted {env : Env} {sn : Text} {inp : CreateInput} {site : Site} {now : ℤ}
    {ids : ℕ → ℕ} {d d' : DB} {r : Reply}
    (h : (createOrder env sn inp site now).commits ids d r d') :
    ∃ g, ∃ used : ℕ × Text, ∃ q info id reserved made, r = .created id made ∧
      d.Created d' id (newOrder sn inp g used.1 q info now) reserved ∧
      (∃ g₀, d.goods.get? inp.gid = some g₀ ∧ g₀.actualPrice = g.actualPrice) ∧
      (used.2 = [] ∨ ∃ c, d.coupons.get? used.1 = some c ∧ used.2 = yuan c.discount) ∧
      quote g.actualPrice inp.amount used.2 g.wholesalePriceCnf = some q ∧ 0 < q.actual ∧
      d.goodBy inp.gid = some g ∧ (if g.type = .manual && g.otherIpuCnf ≠ [] then
        buyerInfo g.otherIpuCnf inp.extra else .ok []) = .ok info := by
  simp only [createOrder, commits_bind, commits_require, commits_read, commits_orElse,
    commits_orRefuse, commits_lockRow (.goods _), not_commits_unpaidQuota, not_commits_reserveStock,
    not_commits_useCoupon, not_commits_insertOrder, commits_commit, false_or, returns_require,
    returns_read, returns_orElse, returns_orRefuse, returns_lockRow (.goods _), and_assoc,
    exists_and_left, exists_eq_left', exists_const, decide_eq_true_eq] at h
  obtain ⟨href, g, hg, -, -, -, -, _, _, _, hquota, reserved, _, _, hstock, used, _, _, hcoupon,
    info, hinfo, q, hq, hactual, -, id, _, _, hinsert, -, made, -, rfl, rfl⟩ := h
  obtain ⟨rfl, rfl⟩ := unpaidQuota_returns hquota
  obtain ⟨g₀, hg₀, htype, hprice⟩ := goodBy_some hg
  obtain ⟨hnd, hauto, hmanual, rfl⟩ := reserveStock_returns hstock
  obtain ⟨coupons, rfl, hused⟩ := useCoupon_returns hcoupon
  obtain ⟨hfresh, huniq, rfl⟩ := insertOrder_returns hnd hinsert
  have hamount : 1 ≤ inp.amount := by
    unfold createRefusal at href
    split_ifs at href
    omega
  have htext : used.2 = [] ∨ ∃ c, d.coupons.get? used.1 = some c ∧ used.2 = yuan c.discount := by
    rcases hused with ⟨-, hnone, -⟩ | ⟨c, hc, -, hc', -⟩
    · exact Or.inl hnone
    · exact Or.inr ⟨c, hc, hc'⟩
  have hcoupons : (used.1 = 0 ∧ coupons = d.coupons) ∨ ∃ c, d.coupons.get? used.1 = some c ∧
      0 < c.ret ∧ coupons = d.coupons.modify used.1 (fun c => { c with ret := c.ret - 1 }) := by
    rcases hused with ⟨hzero, -, hsame⟩ | ⟨c, hc, hret, -, hless⟩
    · exact Or.inl ⟨hzero, hsame⟩
    · exact Or.inr ⟨c, hc, hret, hless⟩
  refine ⟨g, used, q, info, id, reserved, made.2, rfl, ?_, ⟨g₀, hg₀, hprice⟩, htext, hq, hactual,
    hg, hinfo⟩
  refine
    { amount := hamount
      fresh := hfresh
      unique := huniq
      status := rfl
      retBack := rfl
      owed := rfl
      kept := rfl
      good := ⟨g₀, hg₀, htype⟩
      cards := fun ht => ⟨(hauto ht).1, hnd, (hauto ht).2⟩
      noCards := fun ht => (hmanual ht).1
      stock := ?_
      coupon := hcoupons
      goods := rfl
      carmis := rfl
      orders := rfl
      rest := ⟨rfl, rfl, rfl, rfl⟩ }
  intro ht g₁ hg₁
  obtain ⟨-, g₂, hg₂, hle⟩ := hmanual ht
  rw [show d.goods.get? inp.gid = some g₁ from hg₁] at hg₂
  rw [Option.some.inj hg₂]
  exact hle

theorem createOrder_commits {env : Env} {sn : Text} {inp : CreateInput} {site : Site} {now : ℤ}
    {ids : ℕ → ℕ} {d d' : DB} {r : Reply}
    (h : (createOrder env sn inp site now).commits ids d r d') :
    ∃ g couponId q info id reserved made, r = .created id made ∧
      d.Created d' id (newOrder sn inp g couponId q info now) reserved := by
  obtain ⟨g, used, q, info, id, reserved, made, hr, hcreated, -⟩ := createOrder_quoted h
  exact ⟨g, used.1, q, info, id, reserved, made, hr, hcreated⟩

end Dufaka
