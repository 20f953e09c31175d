import Dufaka.SettlementEffect
import Dufaka.BackOffice

/-!
# What the back office does

One rule for each committed request of the owner, when no other transaction runs beside it: the
order form, the goods and coupon forms, the card form, the import, and the delete and restore
actions.
-/

namespace Dufaka
open Relational Tx

/-! ### Orders -/

namespace Script
variable {ids ids' : ℕ → ℕ} {d d' : DB} {r : Reply} {u : Unit}

theorem takeOwedStock_returns {id : ℕ} {o : Order}
    (h : (takeOwedStock id o).returns ids d u ids' d') :
    (∃ g, d.goods.get? o.goodsId = some g ∧ o.buyAmount ≤ g.inStock) ∧
      d' = { d with
        goods := GoodsType.manual.moveStock d.goods o.goodsId (-o.buyAmount)
        orders := d.orders.modify id (fun o => { o with stockOwed := false }) } := by
  simp only [takeOwedStock, returns_bind, returns_require, returns_change] at h
  obtain ⟨row, _, _, hupdate, _, _, _, ⟨hsome, rfl, rfl⟩, rfl, rfl⟩ := h
  obtain ⟨g, v, hget, hv, -, -, hw⟩ := updateKey_found hupdate hsome
  split_ifs at hv with hle
  obtain rfl := Option.some.inj hv
  refine ⟨⟨g, hget, hle⟩, ?_⟩
  rw [DB.changeRow_order, hw, GoodsType.moveStock, ← Table.put_eq_modify hget]
  rfl

theorem not_commits_takeOwedStock {id : ℕ} {o : Order} :
    ¬ (takeOwedStock id o).commits ids d r d' := by
  simp [takeOwedStock, commits_bind, commits_update (.goods _)]

end Script

open Script

/-- An order row after the owner's form was saved over the row it was checked against. -/
def Order.saved (o row : Order) (title info pwd : Text) (dst : OrderStatus) : Order :=
  { o.edited title (row.savedInfo dst info) pwd dst with
    stockOwed := if row.takesStock dst then false else o.stockOwed }

def DB.saveOrder (d : DB) (id : ℕ) (row : Order) (title info pwd : Text) (dst : OrderStatus) : DB :=
  { d with
    orders := d.orders.modify id (fun o => o.saved row title info pwd dst)
    goods := if row.takesStock dst then
        GoodsType.manual.moveStock d.goods row.goodsId (-row.buyAmount) else d.goods
    carmis := if releasesReservations row.type row.status dst then
        d.carmis.mapRows (fun _ c =>
          if c.reservedOrderId = some id && c.status = .unsold then c.released else c)
      else d.carmis }

theorem DB.saveOrder_carmis (d : DB) (id : ℕ) (row : Order) (title info pwd : Text)
    (dst : OrderStatus) : (d.saveOrder id row title info pwd dst).carmis =
      if releasesReservations row.type row.status dst then
        d.carmis.mapRows (fun _ c =>
          if c.reservedOrderId = some id && c.status = .unsold then c.released else c)
      else d.carmis := rfl

theorem loadOrder_some {d : DB} {id : ℕ} {row : Order} (h : d.loadOrder id = some row) :
    d.orders.get? id = some row ∧ row.deleted = false := by
  obtain ⟨hget, hdel⟩ := Option.filter_eq_some_iff.mp h
  exact ⟨hget, by simpa using hdel⟩

theorem orderSave_commits {id : ℕ} {f : OrderForm} {ids : ℕ → ℕ} {d d' : DB} {r : Reply}
    (h : (orderSave id f).commits ids d r d') :
    ∃ row dst, d.loadOrder id = some row ∧
      orderTextRefusal f.title.trimSpace f.searchPwd.trimSpace = none ∧
      OrderStatus.ofCode (mustInt f.status 0) = some dst ∧ orderStatusRefusal row dst = none ∧
      r = .ok ∧
      (row.takesStock dst = true →
        ∃ g, d.goods.get? row.goodsId = some g ∧ row.buyAmount ≤ g.inStock) ∧
      d' = d.saveOrder id row f.title.trimSpace f.info f.searchPwd.trimSpace dst := by
  simp only [orderSave, commits_bind, commits_read, commits_orElse, commits_require,
    commits_update (.order _), commits_onlyIf, not_commits_takeOwedStock, not_commits_releaseCards,
    commits_commit, and_false, false_or, returns_read, returns_orElse, returns_require,
    returns_onlyIf, returns_releaseCards, decide_eq_true_eq, and_assoc, exists_and_left,
    exists_eq_left', exists_const] at h
  obtain ⟨row, hload, htext, dst, hdst, hstatus, _, _, d₁, hupdate, v, rfl, _, _, d₂, htake, _, _,
    hrelease, rfl, rfl⟩ := h
  obtain ⟨o, _, hget', hif, hv, rfl, hw⟩ := updateKey_found hupdate rfl
  obtain rfl := Option.some.inj hv
  obtain ⟨hget, hdel⟩ := loadOrder_some hload
  rw [DB.get_order, hget] at hget'
  obtain rfl := Option.some.inj hget'
  rw [if_pos ⟨rfl, hdel⟩] at hif
  obtain rfl := Option.some.inj hif
  refine ⟨row, dst, hload, htext, hdst, hstatus, rfl, ?_⟩
  -- the order row and the counted stock, then the reservations
  have hd₂ : (row.takesStock dst = true →
        ∃ g, d.goods.get? row.goodsId = some g ∧ row.buyAmount ≤ g.inStock) ∧
      d₂ = { d.saveOrder id row f.title.trimSpace f.info f.searchPwd.trimSpace dst with
        carmis := d.carmis } := by
    subst hw
    rcases htake with ⟨ht, htake⟩ | ⟨ht, rfl, rfl⟩
    · obtain ⟨hle, rfl⟩ := takeOwedStock_returns htake
      refine ⟨fun _ => hle, ?_⟩
      simp only [DB.saveOrder, ht, if_true, ← Table.put_eq_modify hget]
      simp [Order.edited, Order.saved, ht]
    · refine ⟨fun h => by simp [ht] at h, ?_⟩
      simp only [DB.saveOrder, ht, Bool.false_eq_true, if_false, ← Table.put_eq_modify hget]
      simp [Order.edited, Order.saved, ht]
  obtain ⟨hle, rfl⟩ := hd₂
  refine ⟨hle, ?_⟩
  rcases hrelease with ⟨hr, rfl, rfl⟩ | ⟨hr, rfl, rfl⟩
  · simp only [DB.saveOrder, hr, if_true]
  · simp only [DB.saveOrder, hr, Bool.false_eq_true, if_false]

theorem Script.takeOwedStock_succeeds {id : ℕ} {o : Order} {ids : ℕ → ℕ} {d : DB} {g : Good}
    (hg : d.goods.get? o.goodsId = some g) (hle : o.buyAmount ≤ g.inStock) :
    (takeOwedStock id o).succeeds ids d := by
  have hrow : (RowStore.get d (Key.goods o.goodsId)).bind (fun g : Good =>
      if g.inStock ≥ o.buyAmount then some { g with inStock := g.inStock - o.buyAmount }
        else none) =
      some { g with inStock := g.inStock - o.buyAmount } := by
    rw [DB.get_goods, hg, Option.bind_some, if_pos hle]
  refine succeeds_of_returns ((returns_update (.goods o.goodsId)).mpr ⟨hrow, rfl, rfl⟩) ?_
  exact succeeds_of_returns (require_returns rfl) succeeds_change

/-- A form that passes every check, and finds the stock it takes, is saved. -/
theorem orderSave_succeeds {id : ℕ} {f : OrderForm} (ids : ℕ → ℕ) {d : DB} {row : Order}
    {dst : OrderStatus} (hload : d.loadOrder id = some row)
    (htext : orderTextRefusal f.title.trimSpace f.searchPwd.trimSpace = none)
    (hdst : OrderStatus.ofCode (mustInt f.status 0) = some dst)
    (hstatus : orderStatusRefusal row dst = none)
    (htake : row.takesStock dst = true →
      ∃ g, d.goods.get? row.goodsId = some g ∧ row.buyAmount ≤ g.inStock) :
    (orderSave id f).succeeds ids d := by
  obtain ⟨hget, hdel⟩ := loadOrder_some hload
  have hrow : (RowStore.get d (Key.order id)).bind (fun o : Order =>
      if o.status = row.status ∧ o.deleted = false then
        some (o.edited f.title.trimSpace (row.savedInfo dst f.info) f.searchPwd.trimSpace dst)
      else none) =
      some (row.edited f.title.trimSpace (row.savedInfo dst f.info) f.searchPwd.trimSpace dst) := by
    rw [DB.get_order, hget, Option.bind_some, if_pos ⟨rfl, hdel⟩]
  refine succeeds_of_returns (returns_read.mpr ⟨rfl, rfl, rfl⟩) ?_
  refine succeeds_of_returns (returns_orElse.mpr ⟨hload, rfl, rfl⟩) ?_
  refine succeeds_of_returns (require_returns (by simpa using htext)) ?_
  refine succeeds_of_returns (returns_orElse.mpr ⟨hdst, rfl, rfl⟩) ?_
  refine succeeds_of_returns (require_returns (by simpa using hstatus)) ?_
  refine succeeds_of_returns ((returns_update (.order id)).mpr ⟨hrow, rfl, rfl⟩) ?_
  refine succeeds_of_returns (returns_orElse.mpr ⟨rfl, rfl, rfl⟩) ?_
  refine succeeds_bind ?_ (fun _ _ _ _ => succeeds_bind ?_ (fun _ _ _ _ => succeeds_commit))
  · unfold onlyIf
    split_ifs with ht
    · obtain ⟨g, hg, hle⟩ := htake ht
      exact takeOwedStock_succeeds hg hle
    · exact succeeds_pure
  · unfold onlyIf
    split_ifs
    · exact succeeds_releaseCards
    · exact succeeds_pure

/-- A form of a missing order, with a refused text, a number of no status or a refused move ends
with an error. -/
theorem orderSave_rollsBack {id : ℕ} {f : OrderForm} (ids : ℕ → ℕ) {d : DB}
    (h : ∀ row dst, d.loadOrder id = some row →
      orderTextRefusal f.title.trimSpace f.searchPwd.trimSpace = none →
      OrderStatus.ofCode (mustInt f.status 0) = some dst → orderStatusRefusal row dst ≠ none) :
    ∃ msg, (orderSave id f).rollsBack ids d (.err msg) := by
  have hstop : ∀ {c : Bool} {r : Reply}, c = false → (require c r).rollsBack ids d r := by
    rintro c r rfl
    exact rollsBack_rollback
  cases hload : d.loadOrder id with
  | none =>
      refine ⟨msgNoRecord, rollsBack_of_returns (returns_read.mpr ⟨rfl, rfl, rfl⟩)
        (rollsBack_bind ?_)⟩
      rw [hload]
      exact rollsBack_rollback
  | some row =>
      by_cases htext : orderTextRefusal f.title.trimSpace f.searchPwd.trimSpace = none
      · cases hdst : OrderStatus.ofCode (mustInt f.status 0) with
        | none =>
            refine ⟨"订单状态不正确".toList, rollsBack_of_returns (returns_read.mpr ⟨rfl, rfl, rfl⟩) ?_⟩
            refine rollsBack_of_returns (returns_orElse.mpr ⟨hload, rfl, rfl⟩) ?_
            refine rollsBack_of_returns (require_returns (by simpa using htext)) (rollsBack_bind ?_)
            rw [hdst]
            exact rollsBack_rollback
        | some dst =>
            refine ⟨(orderStatusRefusal row dst).getD [],
              rollsBack_of_returns (returns_read.mpr ⟨rfl, rfl, rfl⟩) ?_⟩
            refine rollsBack_of_returns (returns_orElse.mpr ⟨hload, rfl, rfl⟩) ?_
            refine rollsBack_of_returns (require_returns (by simpa using htext)) ?_
            refine rollsBack_of_returns (returns_orElse.mpr ⟨hdst, rfl, rfl⟩) ?_
            exact rollsBack_bind (hstop (by simpa using h row dst hload htext hdst))
      · refine ⟨(orderTextRefusal f.title.trimSpace f.searchPwd.trimSpace).getD [],
          rollsBack_of_returns (returns_read.mpr ⟨rfl, rfl, rfl⟩) ?_⟩
        refine rollsBack_of_returns (returns_orElse.mpr ⟨hload, rfl, rfl⟩) ?_
        exact rollsBack_bind (hstop (by simpa using htext))

/-! ### Goods and coupons -/

def DB.groupLive (d : DB) (i : ℕ) : Bool :=
  ((d.goodsGroup.get? i).filter (fun g => !g.deleted)).isSome

def DB.goodsLive (d : DB) (i : ℕ) : Bool := (d.goods.get? i).any (fun g => !g.deleted)

theorem goodsSave_commits {id : ℕ} {r : GoodInput} {ids : ℕ → ℕ} {d d' : DB} {reply : Reply}
    (h : (goodsSave id r).commits ids d reply d') :
    ∃ f, readGoodForm r = .ok f ∧ d.groupLive f.groupId.toNat = true ∧
      ((id = 0 ∧ ∃ n, d.goods.get? n = none ∧
        d' = { d with goods := d.goods.put n (f.row false) }) ∨
        ∃ g, d.goods.get? id = some g ∧ g.deleted = false ∧
          d' = { d with goods := d.goods.modify id (fun g => f.row g.deleted) }) := by
  simp only [goodsSave, commits_bind, commits_orRefuse, commits_read, commits_require,
    commits_foreignKey, commits_commit, false_or, returns_orRefuse, returns_read, returns_require,
    returns_foreignKey] at h
  obtain ⟨f, _, _, ⟨hf, rfl, rfl⟩, _, _, _, ⟨rfl, rfl, rfl⟩, _, _, _, ⟨hgroup, rfl, rfl⟩, h⟩ := h
  refine ⟨f, hf, hgroup, ?_⟩
  rcases h with h | ⟨_, _, _, h, _, _, _, ⟨-, rfl, rfl⟩, -, rfl⟩
  · unfold writeGood at h
    split_ifs at h <;> simp [commits_bind, commits_update (.goods _)] at h
  · unfold writeGood at h
    split_ifs at h with hid
    · simp only [returns_bind, returns_pure] at h
      obtain ⟨n, _, _, hinsert, -, rfl, rfl⟩ := h
      obtain ⟨hfresh, rfl, -, rfl⟩ := Tx.returns_insert.mp hinsert
      exact Or.inl ⟨hid, _, hfresh, rfl⟩
    · simp only [returns_bind, returns_require] at h
      obtain ⟨row, _, _, hupdate, hsome, rfl, rfl⟩ := h
      obtain ⟨g, _, hget, hif, -, -, hw⟩ := updateKey_found hupdate hsome
      split_ifs at hif with hdel
      obtain rfl := Option.some.inj hif
      refine Or.inr ⟨g, hget, by simpa using hdel, ?_⟩
      rw [hw, ← Table.put_eq_modify hget]
      rfl

theorem shareGoods_returns {gids : List ℕ} {live : Bool} {ids ids' : ℕ → ℕ} {d d' : DB}
    (h : (shareGoods gids).returns ids d live ids' d') :
    live = gids.all d.goodsLive ∧ ids = ids' ∧ d = d' := by
  induction gids generalizing live ids d with
  | nil =>
      obtain ⟨rfl, rfl, rfl⟩ := returns_pure.mp h
      exact ⟨rfl, rfl, rfl⟩
  | cons gid gids ih =>
      simp only [shareGoods, returns_bind, returns_lockRow (.goods _), returns_pure] at h
      obtain ⟨_, _, _, ⟨rfl, rfl, rfl⟩, _, _, _, hrest, rfl, rfl, rfl⟩ := h
      obtain ⟨rfl, rfl, rfl⟩ := ih hrest
      refine ⟨?_, rfl, rfl⟩
      rw [List.all_cons, DB.goodsLive, DB.get_goods]
      cases d.goods.get? gid <;> simp

theorem not_commits_shareGoods {gids : List ℕ} {ids : ℕ → ℕ} {d d' : DB} {r : Reply} :
    ¬ (shareGoods gids).commits ids d r d' := by
  induction gids generalizing ids d with
  | nil => simp [shareGoods]
  | cons gid gids ih => simp [shareGoods, commits_bind, commits_lockRow (.goods _), ih]

theorem lockCouponGoods_returns {gids : List ℕ} {ids ids' : ℕ → ℕ} {d d' : DB} {u : Unit}
    (h : (lockCouponGoods gids).returns ids d u ids' d') :
    (∀ gid ∈ gids, d.goodsLive gid = true) ∧ ids = ids' ∧ d = d' := by
  simp only [lockCouponGoods, returns_bind, returns_require] at h
  obtain ⟨_, _, _, hshare, hlive, rfl, rfl⟩ := h
  obtain ⟨rfl, rfl, rfl⟩ := shareGoods_returns hshare
  refine ⟨fun gid hgid => ?_, rfl, rfl⟩
  exact List.all_eq_true.mp hlive gid ((List.perm_insertionSort _ gids).mem_iff.mpr hgid)

theorem not_commits_lockCouponGoods {gids : List ℕ} {ids : ℕ → ℕ} {d d' : DB} {r : Reply} :
    ¬ (lockCouponGoods gids).commits ids d r d' := by
  simp [lockCouponGoods, commits_bind, not_commits_shareGoods]

theorem writeCoupon_returns {id cid : ℕ} {f : CouponForm} {ids ids' : ℕ → ℕ} {d d' : DB}
    (h : (writeCoupon id f).returns ids d cid ids' d') : couponClash id f.code d = false ∧
    ((id = 0 ∧ d.coupons.get? cid = none ∧
        d' = { d with coupons := d.coupons.put cid (f.row false) }) ∨
      (cid = id ∧ ∃ c, d.coupons.get? id = some c ∧ c.deleted = false ∧
        d' = { d with coupons := d.coupons.modify id (fun c => f.row c.deleted) })) := by
  simp only [writeCoupon, returns_bind, returns_read, returns_require] at h
  obtain ⟨_, _, _, ⟨rfl, rfl, rfl⟩, _, _, _, ⟨hclash, rfl, rfl⟩, h⟩ := h
  refine ⟨by simpa using hclash, ?_⟩
  split_ifs at h with hid
  · obtain ⟨hfresh, rfl, -, rfl⟩ := Tx.returns_insert.mp h
    exact Or.inl ⟨hid, hfresh, rfl⟩
  · simp only [returns_bind, returns_require, returns_pure] at h
    obtain ⟨row, _, _, hupdate, _, _, _, ⟨hsome, rfl, rfl⟩, rfl, rfl, rfl⟩ := h
    obtain ⟨c, _, hget, hif, -, -, hw⟩ := updateKey_found hupdate hsome
    split_ifs at hif with hdel
    obtain rfl := Option.some.inj hif
    refine Or.inr ⟨rfl, c, hget, by simpa using hdel, ?_⟩
    rw [hw, ← Table.put_eq_modify hget]
    rfl

theorem not_commits_writeCoupon {id : ℕ} {f : CouponForm} {ids : ℕ → ℕ} {d d' : DB} {r : Reply} :
    ¬ (writeCoupon id f).commits ids d r d' := by
  unfold writeCoupon
  split_ifs <;> simp [commits_bind, commits_updateKey (.coupon _)]

/-- A committed coupon form wrote one coupon row and the goods it is good for. -/
theorem couponSave_commits {id : ℕ} {r : CouponInput} {ids : ℕ → ℕ} {d d' : DB} {reply : Reply}
    (h : (couponSave id r).commits ids d reply d') :
    ∃ f, readCoupon r = .ok f ∧
      ((∀ gid ∈ uniqueInts f.goods, d.goodsLive gid = true) ∧ couponClash id f.code d = false) ∧
      ∃ goods, ((id = 0 ∧ ∃ cid, d.coupons.get? cid = none ∧
          d' = { d with coupons := d.coupons.put cid (f.row false), couponsGoods := goods }) ∨
        ∃ c, d.coupons.get? id = some c ∧ c.deleted = false ∧
          d' = { d with
            coupons := d.coupons.modify id (fun c => f.row c.deleted),
              couponsGoods := goods }) := by
  simp only [couponSave, commits_bind, commits_orRefuse, not_commits_lockCouponGoods,
    not_commits_writeCoupon, commits_change, commits_commit, false_or, returns_orRefuse,
    returns_change] at h
  obtain ⟨f, _, _, ⟨hf, rfl, rfl⟩, _, _, _, hlock, cid, _, d₁, hwrite, _, _, _, ⟨rfl, rfl⟩, h⟩ := h
  obtain ⟨hlive, rfl, rfl⟩ := lockCouponGoods_returns hlock
  obtain ⟨hclash, hwrite⟩ := writeCoupon_returns hwrite
  refine ⟨f, hf, ⟨hlive, hclash⟩, ?_⟩
  obtain h | ⟨_, _, d₂, hloop, -, rfl⟩ := h
  · refine absurd h (not_commits_forEach (fun gid ids d r d' => ?_) _)
    simp [commits_bind]
  · have hgoods : ∃ goods, d₂ = { d₁ with couponsGoods := goods } := by
      refine returns_forEach_induct (Q := fun x => ∃ goods, x = { d₁ with couponsGoods := goods })
        ?_ hloop ⟨_, rfl⟩
      rintro gid ids x ids' x' hbody ⟨goods, rfl⟩
      simp only [returns_bind, returns_change, returns_foreignKey] at hbody
      obtain ⟨_, _, _, ⟨rfl, rfl⟩, _, _, _, ⟨-, rfl, rfl⟩, -, rfl, rfl⟩ := hbody
      exact ⟨_, rfl⟩
    obtain ⟨goods, rfl⟩ := hgoods
    refine ⟨goods, ?_⟩
    rcases hwrite with ⟨hid, hfresh, rfl⟩ | ⟨rfl, c, hget, hdel, rfl⟩
    · exact Or.inl ⟨hid, cid, hfresh, rfl⟩
    · exact Or.inr ⟨c, hget, hdel, rfl⟩

/-! ### Cards -/

theorem carmiSave_commits {id : ℕ} {f : CarmiForm} {ids : ℕ → ℕ} {d d' : DB} {r : Reply}
    (h : (carmiSave id f).commits ids d r d') :
    ∃ c, d.carmis.get? id = some c ∧ c.reservedOrderId = none ∧ c.status = .unsold ∧
      d' = { d with carmis := d.carmis.modify id (fun c =>
        c.edited (mustInt f.goodsId 0) (mustInt f.status 0)
          (mustInt f.isLoop 0) f.carmi.trimSpace) } := by
  simp only [carmiSave, commits_bind, commits_read, commits_require, commits_update (.carmi _),
    commits_foreignKey, commits_commit, false_or, returns_read, returns_require,
    returns_foreignKey, and_assoc, exists_and_left, exists_eq_left', exists_const] at h
  obtain ⟨-, -, row, _, _, hupdate, hsome, -, -, rfl⟩ := h
  obtain ⟨c, _, hget, hif, -, -, hw⟩ := updateKey_found hupdate hsome
  split_ifs at hif with hfree
  obtain rfl := Option.some.inj hif
  refine ⟨c, hget, hfree.2.1, hfree.2.2, ?_⟩
  rw [hw, ← Table.put_eq_modify hget]
  rfl

/-- A committed import only adds unsold cards that no order holds. -/
theorem carmisImport_commits {f : ImportForm} {ids : ℕ → ℕ} {d d' : DB} {r : Reply}
    (h : (carmisImport f).commits ids d r d') :
    ∃ carmis, d' = { d with carmis := carmis } ∧ ∀ i, carmis.get? i = d.carmis.get? i ∨
      (d.carmis.get? i = none ∧ ∃ c, carmis.get? i = some c ∧ c.reservedOrderId = none ∧
        c.status = .unsold ∧ c.deleted = false) := by
  simp only [carmisImport, commits_bind, commits_read, commits_orRefuse, commits_require,
    commits_commit, false_or, returns_read, returns_orRefuse, returns_require] at h
  obtain ⟨cards, _, _, ⟨-, rfl, rfl⟩, _, _, _, ⟨-, rfl, rfl⟩, _, _, _, ⟨-, rfl, rfl⟩, _, _, _,
    ⟨-, rfl, rfl⟩, h⟩ := h
  obtain h | ⟨_, _, _, hloop, -, rfl⟩ := h
  · refine absurd h (not_commits_forEach (fun card ids d r d' => ?_) _)
    simp [commits_bind]
  · refine returns_forEach_induct (Q := fun x => ∃ carmis, x = { d with carmis := carmis } ∧
      ∀ i, carmis.get? i = d.carmis.get? i ∨ (d.carmis.get? i = none ∧ ∃ c, carmis.get? i = some c ∧
        c.reservedOrderId = none ∧ c.status = .unsold ∧ c.deleted = false)) ?_ hloop
      ⟨d.carmis, rfl, fun i => Or.inl rfl⟩
    rintro card ids x ids' x' hbody ⟨carmis, rfl, hcarmis⟩
    simp only [returns_bind, returns_foreignKey] at hbody
    obtain ⟨n, _, _, hinsert, -, rfl, rfl⟩ := hbody
    obtain ⟨hfresh, rfl, -, rfl⟩ := Tx.returns_insert.mp hinsert
    refine ⟨_, rfl, fun i => ?_⟩
    rw [Table.get?_put]
    split_ifs with hi
    · subst hi
      refine Or.inr ⟨?_, _, rfl, rfl, rfl, rfl⟩
      rcases hcarmis (ids 0) with h | ⟨-, c, hc, -⟩
      · rw [← h]
        exact hfresh
      · exact absurd (hfresh.symm.trans hc) (by simp)
    · exact hcarmis i

/-! ### Delete and restore -/

theorem flipRow_returns {k : Key} {p deleted : Row k → Bool} {write : Row k → Bool → Row k}
    {restore : Bool} {ids ids' : ℕ → ℕ} {d d' : DB} {u : Unit}
    (h : (flipRow k p deleted write restore).returns ids d u ids' d') :
    ∃ v, RowStore.get d k = some v ∧ p v = true ∧ deleted v = restore ∧
      d' = RowStore.set d k (write v (!restore)) := by
  simp only [flipRow, returns_bind, returns_require] at h
  obtain ⟨row, _, _, hupdate, hsome, rfl, rfl⟩ := h
  obtain ⟨v, _, hget, hif, -, -, hw⟩ := updateKey_found hupdate hsome
  split_ifs at hif with hp
  obtain ⟨b, hb, rfl⟩ := Option.map_eq_some_iff.mp hif
  unfold flipDeleted at hb
  split_ifs at hb with hdel
  obtain rfl := Option.some.inj hb
  exact ⟨v, hget, hp, hdel, hw⟩

/-- A delete or restore flipped the flag of one row of its table; a card is only touched while it is
unsold and no order holds it. -/
def DB.Flipped (d : DB) (table : AdminTable) (id : ℕ) (restore : Bool) (d' : DB) : Prop :=
  match table with
  | .goods => ∃ g, d.goods.get? id = some g ∧
      d' = { d with goods := d.goods.put id { g with deleted := !restore } }
  | .goodsGroup => ∃ g, d.goodsGroup.get? id = some g ∧
      d' = { d with goodsGroup := d.goodsGroup.put id { g with deleted := !restore } }
  | .carmis => ∃ c, d.carmis.get? id = some c ∧ c.reservedOrderId = none ∧ c.status = .unsold ∧
      d' = { d with carmis := d.carmis.put id { c with deleted := !restore } }
  | .coupons => ∃ c, d.coupons.get? id = some c ∧
      d' = { d with coupons := d.coupons.put id { c with deleted := !restore } }
  | .orders => ∃ o, d.orders.get? id = some o ∧
      d' = { d with orders := d.orders.put id { o with deleted := !restore } }

theorem markDeleted_commits {table : AdminTable} {id : ℕ} {restore : Bool} {ids : ℕ → ℕ} {d d' : DB}
    {r : Reply} (h : (markDeleted table id restore).commits ids d r d') :
    d.Flipped table id restore d' := by
  rw [markDeleted, commits_bind] at h
  obtain hflip | ⟨_, _, _, hflip, hc⟩ := h
  · cases table <;> simp [flipIn, flipRow, commits_bind, commits_update _] at hflip
  · obtain ⟨-, rfl⟩ := commits_commit.mp hc
    cases table with
    | carmis =>
        obtain ⟨c, hget, hp, -, rfl⟩ := flipRow_returns hflip
        simp only [Bool.and_eq_true, decide_eq_true_eq] at hp
        exact ⟨c, hget, hp.1, hp.2, rfl⟩
    | goods =>
        obtain ⟨v, hget, -, -, rfl⟩ := flipRow_returns hflip
        exact ⟨v, hget, rfl⟩
    | goodsGroup =>
        obtain ⟨v, hget, -, -, rfl⟩ := flipRow_returns hflip
        exact ⟨v, hget, rfl⟩
    | coupons =>
        obtain ⟨v, hget, -, -, rfl⟩ := flipRow_returns hflip
        exact ⟨v, hget, rfl⟩
    | orders =>
        obtain ⟨v, hget, -, -, rfl⟩ := flipRow_returns hflip
        exact ⟨v, hget, rfl⟩

end Dufaka
