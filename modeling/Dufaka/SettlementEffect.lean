import Dufaka.CheckoutEffect
import Dufaka.Settlement

/-!
# What a settlement and an expiry do

`Settled` lists the four ways a committed payment or redelivery ends, and `Expired` what a committed
expiry hands back, when no other transaction runs beside it.
-/

namespace Dufaka
open Relational Tx

inductive Retaken (o : Order) (coupons : Table Coupon) : Table Coupon → RetBack → Prop
  | keep (h : o.couponId = 0 ∨ o.couponRetBack ≠ .returned) :
      Retaken o coupons coupons o.couponRetBack
  | taken (c : Coupon) (hid : 0 < o.couponId) (hback : o.couponRetBack = .returned)
      (hc : coupons.get? o.couponId = some c) (hret : 0 < c.ret) :
      Retaken o coupons (coupons.modify o.couponId (fun c => { c with ret := c.ret - 1 })) .held
  | lost (hid : 0 < o.couponId) (hback : o.couponRetBack = .returned) :
      Retaken o coupons coupons .unrecoverable

def Order.payable (o : Order) : Prop :=
  o.status = .unpaid ∨ o.status = .expired ∨ (o.status = .abnormal ∧ o.type = .auto)

def Order.recorded (o : Order) : Prop :=
  o.status = .completed ∨ o.status = .pending ∨ o.status = .processing ∨
    (o.status = .abnormal ∧ o.type = .manual)

theorem Carmi.delivered_reservedOrderId (c : Carmi) : c.delivered.reservedOrderId = none := by
  unfold Carmi.delivered
  split_ifs <;> rfl

namespace DB

def handOver (d : DB) (id gid : ℕ) (cards : List ℕ) : Table Carmi :=
  (d.carmis.mapRows (fun i c => if i ∈ cards then c.delivered else c)).mapRows (fun _ c =>
    if c.reservedOrderId = some id && c.goodsId = gid && c.status = .unsold then c.released else c)

def handOverRow (id gid : ℕ) (cards : List ℕ) (i : ℕ) (c : Carmi) : Carmi :=
  if i ∈ cards then c.delivered
  else if c.reservedOrderId = some id && c.goodsId = gid && c.status = .unsold then c.released
  else c

theorem handOver_eq (d : DB) (id gid : ℕ) (cards : List ℕ) :
    d.handOver id gid cards = d.carmis.mapRows (handOverRow id gid cards) := by
  rw [handOver, Table.mapRows_mapRows]
  apply Table.mapRows_congr
  intro i c _
  unfold handOverRow
  by_cases hi : i ∈ cards
  · simp [hi, Carmi.delivered_reservedOrderId]
  · simp [hi]

def addSales (goods : Table Good) (gid : ℕ) (amount : ℤ) : Table Good :=
  goods.modify gid (fun g => { g with salesVolume := g.salesVolume + amount })

def cardTexts (d : DB) (cards : List ℕ) : Text :=
  Text.join ['\n'] ((d.cardRows cards).map Carmi.carmi)

end DB

/-- The ends of a committed settlement of the order `o` under the identity `id`. -/
inductive Settled (d : DB) (id : ℕ) (o : Order) (trade : Text) (redeliver : Bool) :
Reply → DB → Prop
  | already (h : o.recorded) (hr : redeliver = false) : Settled d id o trade redeliver .already d
  | short {coupons : Table Coupon} {back : RetBack} (h : o.payable) (hr : redeliver = false)
      (hback : Retaken o d.coupons coupons back)
      (hcards : o.type = .auto →
        ((d.cardsFor id o.goodsId o.buyAmount (fun _ => false)).length : ℤ) ≠ o.buyAmount)
      (hstock : o.type = .manual → o.status = .expired) :
      Settled d id o trade redeliver (.err msgShortStock)
        { d with coupons := coupons, orders := d.orders.modify id (fun o => o.short trade back) }
  | cards {coupons : Table Coupon} {back : RetBack} {cards : List ℕ} (h : o.payable)
      (hback : Retaken o d.coupons coupons back) (hauto : o.type = .auto)
      (hcards : d.cardsFor id o.goodsId o.buyAmount (fun _ => false) = cards)
      (hlen : (cards.length : ℤ) = o.buyAmount) :
      Settled d id o trade redeliver (.delivered id cards)
        { d with
          coupons := coupons
          carmis := d.handOver id o.goodsId cards
          orders := d.orders.modify id (fun o => o.deliver (d.cardTexts cards) trade back)
          goods := DB.addSales d.goods o.goodsId o.buyAmount }
  | manual {coupons : Table Coupon} {back : RetBack} (h : o.status = .unpaid ∨ o.status = .expired)
      (hback : Retaken o d.coupons coupons back) (hmanual : o.type = .manual)
      (hstock : o.status = .expired → ∃ g, d.goods.get? o.goodsId = some g ∧
        o.buyAmount ≤ g.inStock) :
      Settled d id o trade redeliver (.delivered id [])
        { d with
          coupons := coupons
          orders := d.orders.modify id (fun o => o.handToOwner trade back)
          goods := DB.addSales (if o.status = .expired then
            o.type.moveStock d.goods o.goodsId (-o.buyAmount) else d.goods) o.goodsId o.buyAmount }

namespace DB

theorem cardsFor_nodup (d : DB) (id gid : ℕ) (amount : ℤ) (skip : ℕ → Bool) :
    (d.cardsFor id gid amount skip).Nodup := by
  unfold cardsFor
  refine List.Nodup.sublist (List.take_sublist _ _) ?_
  rw [List.map_append]
  refine List.Nodup.append (d.carmis.select_keys_nodup _) (d.carmis.select_keys_nodup _) ?_
  intro i hm hf
  obtain ⟨c, hc, hp⟩ := Table.mem_select_keys.mp hm
  obtain ⟨c', hc', hp'⟩ := Table.mem_select_keys.mp hf
  rw [hc] at hc'
  obtain rfl := Option.some.inj hc'
  simp at hp hp'
  exact hp'.1.2 hp.1.2

theorem mem_cardsFor {d : DB} {id gid : ℕ} {amount : ℤ} {skip : ℕ → Bool} {i : ℕ}
    (h : i ∈ d.cardsFor id gid amount skip) :
    ∃ c, d.carmis.get? i = some c ∧ deliverable id gid c = true := by
  have h := List.mem_of_mem_take h
  rw [List.map_append] at h
  rcases List.mem_append.mp h with h | h
  · obtain ⟨c, hc, hp⟩ := Table.mem_select_keys.mp h
    exact ⟨c, hc, by simp at hp; exact hp.1.1⟩
  · obtain ⟨c, hc, hp⟩ := Table.mem_select_keys.mp h
    exact ⟨c, hc, by simp at hp; exact hp.1.1⟩

end DB

namespace Script
variable {ids ids' : ℕ → ℕ} {d d' : DB} {r : Reply} {u : Unit}

/-- An `UPDATE` with a `WHERE` test, as an update of every row that keeps those failing it. -/
theorem writeRow_carmi (d : DB) (i : ℕ) (p : Carmi → Bool) (f : Carmi → Carmi) :
    Tx.writeRow d (.carmi i) ((d.carmis.get? i).bind (fun c => if p c then some (f c) else none)) =
      { d with carmis := d.carmis.modify i (fun c => if p c then f c else c) } := by
  cases hc : d.carmis.get? i with
  | none => rw [Table.modify_of_none hc]; rfl
  | some c =>
      rw [← Table.put_eq_modify hc, Option.bind_some]
      split_ifs with hp
      · rfl
      · rw [Table.put_get?_self hc]
        rfl

theorem returns_releaseCards {p : Carmi → Bool} : (releaseCards p).returns ids d u ids' d' ↔
    ids = ids' ∧
      { d with carmis := d.carmis.mapRows (fun _ c => if p c then c.released else c) } = d' := by
  have hbody : ∀ i ids (d : DB) u ids' d', Tx.returns (do
      let _ ← update (.carmi i) (fun c => if p c then some c.released else none) : Script Unit)
        ids d u ids' d' ↔ ids = ids' ∧
      d.changeRow (.carmi i) (fun c => if p c then c.released else c) = d' := by
    intro i ids d u ids' d'
    simp only [returns_bind, returns_update (.carmi _), returns_pure, DB.changeRow_carmi,
      DB.get_carmi, ← writeRow_carmi]
    constructor
    · rintro ⟨_, _, _, ⟨rfl, rfl, rfl⟩, -, rfl, rfl⟩
      exact ⟨rfl, rfl⟩
    · rintro ⟨rfl, rfl⟩
      exact ⟨_, _, _, ⟨rfl, rfl, rfl⟩, trivial, rfl, rfl⟩
  simp only [releaseCards, returns_bind, returns_read, returns_forEach _ hbody]
  have hall : ((d.carmis.select (fun _ c => p c)).map Prod.fst).foldl
      (fun d i => d.changeRow (.carmi i) (fun c => if p c then c.released else c)) d =
      { d with carmis := d.carmis.mapRows (fun _ c => if p c then c.released else c) } := by
    refine (DB.foldl_changeRow_carmi d (fun c => if p c then c.released else c)
      (d.carmis.select_keys_nodup _)).trans ?_
    congr 1
    apply Table.mapRows_congr
    intro i c hc
    by_cases hp : p c = true
    · rw [if_pos (Table.mem_select_keys.mpr ⟨c, hc, hp⟩)]
    · simp [hp]
  constructor
  · rintro ⟨_, _, _, ⟨rfl, rfl, rfl⟩, rfl, rfl⟩
    exact ⟨rfl, hall.symm⟩
  · rintro ⟨rfl, rfl⟩
    exact ⟨_, _, _, ⟨rfl, rfl, rfl⟩, rfl, hall⟩

theorem not_commits_releaseCards {p : Carmi → Bool} : ¬ (releaseCards p).commits ids d r d' := by
  simp only [releaseCards, commits_bind, commits_read, false_or]
  rintro ⟨_, _, _, -, h⟩
  exact not_commits_forEach (fun _ _ _ _ _ => by simp [commits_bind, commits_update (.carmi _)]) _ h

theorem retakeCoupon_returns {o : Order} {back : RetBack}
    (h : (retakeCoupon o).returns ids d back ids' d') :
    ids = ids' ∧ ∃ coupons, Retaken o d.coupons coupons back ∧
    d' = { d with coupons := coupons } := by
  unfold retakeCoupon at h
  split_ifs at h with hc
  · simp only [returns_bind, returns_update (.coupon _), returns_pure, DB.get_coupon] at h
    obtain ⟨row, _, _, ⟨hrow, rfl, hw⟩, hb, rfl, rfl⟩ := h
    refine ⟨rfl, ?_⟩
    cases row with
    | none =>
        obtain rfl := hb
        exact ⟨_, .lost hc.1 hc.2, hw.symm⟩
    | some v =>
        obtain rfl := hb
        obtain ⟨c, hget, hv⟩ := Option.bind_eq_some_iff.mp hrow
        split_ifs at hv with hok
        obtain rfl := Option.some.inj hv
        refine ⟨_, .taken c hc.1 hc.2 hget hok.1, ?_⟩
        rw [← Table.put_eq_modify hget, ← hw]
        rfl
  · simp only [returns_pure] at h
    obtain ⟨rfl, rfl, rfl⟩ := h
    refine ⟨rfl, _, .keep ?_, rfl⟩
    rw [not_and_or] at hc
    exact hc.imp_left (by omega)

theorem not_commits_retakeCoupon {o : Order} : ¬ (retakeCoupon o).commits ids d r d' := by
  unfold retakeCoupon
  split_ifs <;> simp [commits_bind, commits_update (.coupon _)]

theorem settleShort_commits {α : Type} {id : ℕ} {trade : Text} {back : RetBack} {redeliver : Bool}
    (h : (settleShort id trade back redeliver : Script α).commits ids d r d') :
    redeliver = false ∧ r = .err msgShortStock ∧
      d' = { d with orders := d.orders.modify id (fun o => o.short trade back) } := by
  simp only [settleShort, commits_bind, commits_require, commits_change, commits_commit, false_or,
    returns_require, returns_change] at h
  obtain ⟨_, _, _, ⟨hr, rfl, rfl⟩, _, _, _, ⟨rfl, rfl⟩, rfl, rfl⟩ := h
  exact ⟨by simpa using hr, rfl, DB.changeRow_order _ _ _⟩

theorem not_returns_settleShort {α : Type} {id : ℕ} {trade : Text} {back : RetBack}
    {redeliver : Bool} {a : α} :
    ¬ (settleShort id trade back redeliver : Script α).returns ids d a ids' d' := by
  simp [settleShort, returns_bind]

theorem not_commits_changeAll {cards : List ℕ} {f : Carmi → Carmi} :
    ¬ (Tx.forEach cards (fun cid => change (.carmi cid) f)).commits ids d r d' :=
  not_commits_forEach (fun _ _ _ _ _ => by simp) cards

theorem deliverCards_returns {id : ℕ} {o : Order} {trade : Text} {back : RetBack}
    {redeliver : Bool} {cards : List ℕ}
    (h : (deliverCards id o trade back redeliver).returns ids d cards ids' d') :
    d.cardsFor id o.goodsId o.buyAmount (fun _ => false) = cards ∧
      (cards.length : ℤ) = o.buyAmount ∧
      d' = { d with
        carmis := d.handOver id o.goodsId cards
        orders := d.orders.modify id (fun o => o.deliver (d.cardTexts cards) trade back) } := by
  simp only [deliverCards, returns_bind, returns_skipLocked] at h
  obtain ⟨picked, _, _, ⟨hpick, rfl, rfl⟩, h⟩ := h
  split_ifs at h with hlen
  · simp only [returns_bind, returns_read, returns_releaseCards, returns_change, returns_pure,
      returns_forEach _ (fun _ _ _ _ _ _ => returns_change)] at h
    obtain ⟨_, _, _, ⟨rfl, rfl, rfl⟩, _, _, _, ⟨rfl, rfl⟩, _, _, _, ⟨rfl, rfl⟩, _, _, _, ⟨rfl, rfl⟩,
      rfl, rfl, rfl⟩ := h
    refine ⟨hpick, hlen, ?_⟩
    rw [DB.changeRow_order, DB.foldl_changeRow_carmi d _ (hpick ▸ d.cardsFor_nodup _ _ _ _)]
    rfl
  · exact absurd h not_returns_settleShort

theorem deliverCards_commits {id : ℕ} {o : Order} {trade : Text} {back : RetBack}
    {redeliver : Bool} (h : (deliverCards id o trade back redeliver).commits ids d r d') :
    redeliver = false ∧ r = .err msgShortStock ∧
      ((d.cardsFor id o.goodsId o.buyAmount (fun _ => false)).length : ℤ) ≠ o.buyAmount ∧
      d' = { d with orders := d.orders.modify id (fun o => o.short trade back) } := by
  simp only [deliverCards, commits_bind, commits_skipLocked, returns_skipLocked, false_or] at h
  obtain ⟨picked, _, _, ⟨rfl, rfl, rfl⟩, h⟩ := h
  split_ifs at h with hlen
  · simp only [commits_bind, commits_read, not_commits_releaseCards, commits_change, commits_pure,
      not_commits_changeAll, false_or] at h
    obtain ⟨_, _, _, -, _, _, _, -, _, _, _, -, _, _, _, -, h⟩ := h
    exact h.elim
  · obtain ⟨hr, he, hd⟩ := settleShort_commits h
    exact ⟨hr, he, hlen, hd⟩

theorem retakeStock_returns {o : Order} {taken : Bool}
    (h : (retakeStock o).returns ids d taken ids' d') :
    ids = ids' ∧ (taken = true →
      (o.status = .expired → ∃ g, d.goods.get? o.goodsId = some g ∧ o.buyAmount ≤ g.inStock) ∧
      d' = { d with goods := if o.status = .expired then
        GoodsType.manual.moveStock d.goods o.goodsId (-o.buyAmount) else d.goods }) ∧
      (taken = false → o.status = .expired ∧ d' = d ∧
        ∀ g, d.goods.get? o.goodsId = some g → g.inStock < o.buyAmount) := by
  unfold retakeStock at h
  split_ifs at h with he
  · simp only [returns_bind, returns_update (.goods _), returns_pure, DB.get_goods] at h
    obtain ⟨row, _, _, ⟨hrow, rfl, hw⟩, rfl, rfl, rfl⟩ := h
    refine ⟨rfl, ?_⟩
    cases row with
    | none =>
        refine ⟨fun ht => (by cases ht), fun _ => ⟨he, hw.symm, fun g hget => ?_⟩⟩
        rw [hget, Option.bind_some] at hrow
        split_ifs at hrow with hok
        omega
    | some v =>
        obtain ⟨g, hget, hv⟩ := Option.bind_eq_some_iff.mp hrow
        split_ifs at hv with hok
        obtain rfl := Option.some.inj hv
        refine ⟨fun _ => ⟨fun _ => ⟨g, hget, hok⟩, ?_⟩, fun ht => by cases ht⟩
        rw [if_pos he, GoodsType.moveStock, ← Table.put_eq_modify hget, ← hw]
        rfl
  · simp only [returns_pure] at h
    obtain ⟨rfl, rfl, rfl⟩ := h
    exact ⟨rfl, fun _ => ⟨fun h => absurd h he, by rw [if_neg he]⟩, fun ht => by cases ht⟩

theorem not_commits_retakeStock {o : Order} : ¬ (retakeStock o).commits ids d r d' := by
  unfold retakeStock
  split_ifs <;> simp [commits_bind, commits_update (.goods _)]

theorem settleManual_returns {id : ℕ} {o : Order} {trade : Text} {back : RetBack}
    {redeliver : Bool} {cards : List ℕ}
    (h : (settleManual id o trade back redeliver).returns ids d cards ids' d') :
    cards = [] ∧
      (o.status = .expired → ∃ g, d.goods.get? o.goodsId = some g ∧ o.buyAmount ≤ g.inStock) ∧
      d' = { d with
        goods := if o.status = .expired then
          GoodsType.manual.moveStock d.goods o.goodsId (-o.buyAmount) else d.goods
        orders := d.orders.modify id (fun o => o.handToOwner trade back) } := by
  simp only [settleManual, returns_bind] at h
  obtain ⟨taken, _, _, hstock, h⟩ := h
  obtain ⟨rfl, hyes, -⟩ := retakeStock_returns hstock
  split_ifs at h with ht
  · simp only [returns_bind, returns_change, returns_pure] at h
    obtain ⟨_, _, _, ⟨rfl, rfl⟩, rfl, rfl, rfl⟩ := h
    obtain ⟨hle, rfl⟩ := hyes ht
    exact ⟨rfl, hle, DB.changeRow_order _ _ _⟩
  · exact absurd h not_returns_settleShort

theorem settleManual_commits {id : ℕ} {o : Order} {trade : Text} {back : RetBack}
    {redeliver : Bool} (h : (settleManual id o trade back redeliver).commits ids d r d') :
    redeliver = false ∧ r = .err msgShortStock ∧ o.status = .expired ∧
      (∀ g, d.goods.get? o.goodsId = some g → g.inStock < o.buyAmount) ∧
      d' = { d with orders := d.orders.modify id (fun o => o.short trade back) } := by
  simp only [settleManual, commits_bind, not_commits_retakeStock, false_or] at h
  obtain ⟨taken, _, _, hstock, h⟩ := h
  obtain ⟨rfl, -, hno⟩ := retakeStock_returns hstock
  split_ifs at h with ht
  · simp [commits_bind] at h
  · obtain ⟨hr, he, hd⟩ := settleShort_commits h
    obtain ⟨hexp, rfl, hless⟩ := hno (by simpa using ht)
    exact ⟨hr, he, hexp, hless, hd⟩

theorem returns_acknowledge {c : Bool} :
    (acknowledge c).returns ids d u ids' d' ↔ c = false ∧ ids = ids' ∧ d = d' := by
  cases c <;> simp [acknowledge]

theorem commits_acknowledge {c : Bool} :
    (acknowledge c).commits ids d r d' ↔ c = true ∧ Reply.already = r ∧ d = d' := by
  cases c <;> simp [acknowledge]

end Script

open Script

/-- What a committed settlement did, and to which order; short stock of goods handled by hand is
what their row says. -/
theorem settle_commits_stock {sn : Text} {paid : Cents} {tradeNo : Text} {redeliver : Bool}
    {ids : ℕ → ℕ} {d d' : DB} {r : Reply}
    (h : (settle sn paid tradeNo redeliver).commits ids d r d') :
    ∃ id o, d.orderBySn sn = some (id, o) ∧
      (redeliver = true → o.status = .abnormal ∧ o.type = .auto) ∧
      (redeliver = false → paid = o.actualPrice) ∧
      Settled d id o (o.tradeFor tradeNo redeliver) redeliver r d' ∧
      (r = .err msgShortStock → o.type = .manual →
        ∀ g, d.goods.get? o.goodsId = some g → g.inStock < o.buyAmount) := by
  simp only [settle, commits_bind, commits_read, commits_orElse, commits_lockRow (.order _),
    commits_lockRow (.goods _), commits_require, commits_acknowledge, not_commits_retakeCoupon,
    commits_change, commits_commit, false_or, returns_read, returns_orElse,
    returns_lockRow (.order _), returns_lockRow (.goods _), returns_require, returns_acknowledge,
    returns_change, and_assoc, exists_and_left, exists_eq_left', exists_const] at h
  obtain ⟨⟨id, o⟩, hfound₀, o', hrow, hab, hau, hpaid, h⟩ := h
  have hfound : d.orderBySn sn = some (id, o') := by
    obtain ⟨hget, -⟩ := Option.filter_eq_some_iff.mp hrow
    rw [DB.get_order, (DB.orderBySn_some hfound₀).1] at hget
    rw [hfound₀, Option.some.inj hget]
  refine ⟨id, o', hfound, ?_, ?_, ?_⟩
  · rintro rfl
    simpa using And.intro hab hau
  · rintro rfl
    simpa using hpaid
  have hback : redeliver = true → o'.status = .abnormal ∧ o'.type = .auto := by
    rintro rfl
    simpa using And.intro hab hau
  rcases h with ⟨hst, rfl, rfl⟩ | ⟨hst, hpay, ⟨hst', rfl, rfl⟩ | ⟨hst', back, ids₁, d₁, hretake, h⟩⟩
  · simp only [Bool.or_eq_true, decide_eq_true_eq] at hst
    refine ⟨.already (by unfold Order.recorded; tauto) ?_, fun hr => by cases hr⟩
    by_contra hr
    rw [(hback (by simpa using hr)).1] at hst
    simp at hst
  · simp only [Bool.and_eq_true, decide_eq_true_eq] at hst'
    have hm : o'.type = .manual := by
      cases ht : o'.type with
      | auto => exact absurd ht hst'.1
      | manual => rfl
    refine ⟨.already (Or.inr (Or.inr (Or.inr ⟨hst'.2, hm⟩))) ?_, fun hr => by cases hr⟩
    by_contra hr
    exact hst'.1 (hback (by simpa using hr)).2
  · have hp : o'.payable := by
      simp only [Bool.or_eq_true, Bool.and_eq_false_iff, decide_eq_true_eq, decide_eq_false_iff_not,
        not_not] at hpay hst'
      unfold Order.payable
      tauto
    obtain ⟨-, coupons, hretaken, rfl⟩ := retakeCoupon_returns hretake
    rw [fulfil] at h
    cases ht : o'.type with
    | auto =>
        simp only [ht] at h
        rcases h with h | ⟨cards, ids₂, d₂, h, rfl, rfl⟩
        · obtain ⟨hr, rfl, hlen, rfl⟩ := deliverCards_commits h
          have hm : o'.type ≠ .manual := by simp [ht]
          exact ⟨.short hp hr hretaken (fun _ => hlen) (fun h => absurd h hm),
            fun _ h => by cases h⟩
        · obtain ⟨hcards, hlen, rfl⟩ := deliverCards_returns h
          rw [DB.changeRow_goods]
          exact ⟨.cards hp hretaken ht hcards hlen, fun hr => by cases hr⟩
    | manual =>
        have hp' : o'.status = .unpaid ∨ o'.status = .expired := by
          rcases hp with h | h | h
          · exact Or.inl h
          · exact Or.inr h
          · simp [ht] at h
        simp only [ht] at h
        rcases h with h | ⟨cards, ids₂, d₂, h, rfl, rfl⟩
        · obtain ⟨hr, rfl, hexp, hless, rfl⟩ := settleManual_commits h
          exact ⟨.short hp hr hretaken (fun hm => by simp [ht] at hm) (fun _ => hexp),
            fun _ _ => hless⟩
        · obtain ⟨rfl, hle, rfl⟩ := settleManual_returns h
          rw [DB.changeRow_goods]
          have hend : Settled d id o' (o'.tradeFor tradeNo redeliver) redeliver
              (.delivered id []) _ :=
            .manual hp' hretaken ht hle
          rw [ht] at hend
          exact ⟨hend, fun hr => by cases hr⟩

theorem settle_commits {sn : Text} {paid : Cents} {tradeNo : Text} {redeliver : Bool} {ids : ℕ → ℕ}
    {d d' : DB} {r : Reply} (h : (settle sn paid tradeNo redeliver).commits ids d r d') :
    ∃ id o, d.orderBySn sn = some (id, o) ∧
      (redeliver = true → o.status = .abnormal ∧ o.type = .auto) ∧
      (redeliver = false → paid = o.actualPrice) ∧
      Settled d id o (o.tradeFor tradeNo redeliver) redeliver r d' := by
  obtain ⟨id, o, hfound, hback, hpaid, hs, -⟩ := settle_commits_stock h
  exact ⟨id, o, hfound, hback, hpaid, hs⟩

namespace Script
variable {ids : ℕ → ℕ} {d : DB}

theorem succeeds_require {c : Bool} {r : Reply} (h : c = true) : (require c r).succeeds ids d :=
  Or.inl ⟨(), ids, d, returns_require.mpr ⟨h, rfl, rfl⟩⟩

theorem succeeds_change {k : Key} {f : Row k → Row k} : (change k f).succeeds ids d :=
  Or.inl ⟨(), ids, _, returns_change.mpr ⟨rfl, rfl⟩⟩

theorem succeeds_releaseCards {p : Carmi → Bool} : (releaseCards p).succeeds ids d :=
  Or.inl ⟨(), ids, _, returns_releaseCards.mpr ⟨rfl, rfl⟩⟩

theorem succeeds_retakeCoupon {o : Order} : (retakeCoupon o).succeeds ids d := by
  unfold retakeCoupon
  split_ifs
  · exact succeeds_bind succeeds_update (fun _ _ _ _ => succeeds_pure)
  · exact succeeds_pure

theorem succeeds_settleShort {α : Type} {id : ℕ} {trade : Text} {back : RetBack} :
    (settleShort id trade back false : Script α).succeeds ids d := by
  refine succeeds_bind (succeeds_require rfl) (fun _ _ _ _ => ?_)
  exact succeeds_bind succeeds_change (fun _ _ _ _ => succeeds_commit)

theorem succeeds_deliverCards {id : ℕ} {o : Order} {trade : Text} {back : RetBack} :
    (deliverCards id o trade back false).succeeds ids d := by
  refine succeeds_of_returns (returns_skipLocked.mpr ⟨rfl, rfl, rfl⟩) ?_
  split_ifs
  · refine succeeds_of_returns (returns_read.mpr ⟨rfl, rfl, rfl⟩) ?_
    refine succeeds_bind (succeeds_forEach (fun _ => True)
      (fun _ _ _ _ _ => ⟨succeeds_change, fun _ _ _ => trivial⟩) trivial) (fun _ _ _ _ => ?_)
    refine succeeds_bind succeeds_releaseCards (fun _ _ _ _ => ?_)
    exact succeeds_bind succeeds_change (fun _ _ _ _ => succeeds_pure)
  · exact succeeds_settleShort

theorem succeeds_settleManual {id : ℕ} {o : Order} {trade : Text} {back : RetBack} :
    (settleManual id o trade back false).succeeds ids d := by
  refine succeeds_bind ?_ (fun taken _ _ _ => ?_)
  · unfold retakeStock
    split_ifs
    · exact succeeds_bind succeeds_update (fun _ _ _ _ => succeeds_pure)
    · exact succeeds_pure
  · split_ifs
    · exact succeeds_bind succeeds_change (fun _ _ _ _ => succeeds_pure)
    · exact succeeds_settleShort

theorem succeeds_acknowledge {c : Bool} : (acknowledge c).succeeds ids d := by
  cases c
  · exact succeeds_pure
  · exact succeeds_commit

end Script

/-- A notice with the right amount is settled, unless the order has failed. -/
theorem complete_succeeds {sn : Text} (tradeNo : Text) (ids : ℕ → ℕ) {d : DB} {id : ℕ} {o : Order}
    (hfound : d.orderBySn sn = some (id, o)) (hf : o.status ≠ .failed) :
    (complete sn o.actualPrice tradeNo).succeeds ids d := by
  obtain ⟨hget, hsn⟩ := DB.orderBySn_some hfound
  have hrow : (RowStore.get d (Key.order id)).filter (fun o : Order => decide (o.orderSn = sn)) =
      some o := by
    rw [DB.get_order, hget, Option.filter_some, if_pos (by simpa using hsn)]
  have hpay : (o.status = .completed || o.status = .pending || o.status = .processing) = false →
      (o.status = .unpaid || o.status = .expired || o.status = .abnormal) = true := by
    revert hf
    cases o.status <;> simp
  refine succeeds_of_returns (returns_read.mpr ⟨rfl, rfl, rfl⟩) ?_
  refine succeeds_of_returns (returns_orElse.mpr ⟨hfound, rfl, rfl⟩) ?_
  refine succeeds_of_returns ((returns_lockRow (.order id)).mpr ⟨hrow, rfl, rfl⟩) ?_
  refine succeeds_of_returns (returns_orElse.mpr ⟨rfl, rfl, rfl⟩) ?_
  refine succeeds_bind (succeeds_require rfl) (fun _ _ _ _ => ?_)
  refine succeeds_bind (succeeds_require rfl) (fun _ _ _ _ => ?_)
  refine succeeds_bind (succeeds_require (by simp)) (fun _ _ _ _ => ?_)
  refine succeeds_bind succeeds_acknowledge ?_
  intro _ ids₁ d₁ hack
  refine succeeds_bind (succeeds_require (hpay (returns_acknowledge.mp hack).1)) (fun _ _ _ _ => ?_)
  refine succeeds_bind succeeds_acknowledge (fun _ _ _ _ => ?_)
  refine succeeds_of_returns ((returns_lockRow (.goods _)).mpr ⟨rfl, rfl, rfl⟩) ?_
  refine succeeds_bind succeeds_retakeCoupon (fun _ _ _ _ => ?_)
  refine succeeds_bind ?_ (fun _ _ _ _ =>
    succeeds_bind succeeds_change (fun _ _ _ _ => succeeds_commit))
  unfold fulfil
  cases o.type with
  | auto => exact succeeds_deliverCards
  | manual => exact succeeds_settleManual

/-- A notice for a failed order is refused. -/
theorem complete_failed {sn tradeNo : Text} {ids : ℕ → ℕ} {d : DB} {id : ℕ} {o : Order}
    (hfound : d.orderBySn sn = some (id, o)) (hf : o.status = .failed) :
    (complete sn o.actualPrice tradeNo).rollsBack ids d (.err "订单状态不可支付".toList) := by
  obtain ⟨hget, hsn⟩ := DB.orderBySn_some hfound
  have hrow : (RowStore.get d (Key.order id)).filter (fun o : Order => decide (o.orderSn = sn)) =
      some o := by
    rw [DB.get_order, hget, Option.filter_some, if_pos (by simpa using hsn)]
  have hack : (o.status = .completed || o.status = .pending || o.status = .processing) = false := by
    simp [hf]
  have hpay : (o.status = .unpaid || o.status = .expired || o.status = .abnormal) = false := by
    simp [hf]
  have hgo : ∀ {c : Bool}, c = false → (acknowledge c).returns ids d () ids d := fun hc =>
    returns_acknowledge.mpr ⟨hc, rfl, rfl⟩
  refine rollsBack_of_returns (returns_read.mpr ⟨rfl, rfl, rfl⟩) ?_
  refine rollsBack_of_returns (returns_orElse.mpr ⟨hfound, rfl, rfl⟩) ?_
  refine rollsBack_of_returns ((returns_lockRow (.order id)).mpr ⟨hrow, rfl, rfl⟩) ?_
  refine rollsBack_of_returns (returns_orElse.mpr ⟨rfl, rfl, rfl⟩) ?_
  refine rollsBack_of_returns (require_returns rfl) (rollsBack_of_returns (require_returns rfl) ?_)
  refine rollsBack_of_returns (require_returns (by simp)) ?_
  refine rollsBack_of_returns (hgo hack) ?_
  refine rollsBack_bind ?_
  rw [hpay]
  exact rollsBack_rollback

/-- A settlement that does not commit answers with an error; that nothing was to be done, and that
stock is short, it answers only for a redelivery. -/
def settleEnd (redeliver : Bool) (commit : Bool) (r : Reply) : Prop :=
  commit = false → (r = .untouched ∧ redeliver = true) ∨
    ∃ msg, r = .err msg ∧ (msg = msgShortStock → redeliver = true)

section Ends
variable {sn trade : Text} {paid : Cents} {redeliver : Bool} {back : RetBack} {id : ℕ} {o : Order}

theorem settleEnd_err {msg : Text} (h : msg ≠ msgShortStock) :
    settleEnd redeliver false (.err msg) :=
  fun _ => Or.inr ⟨msg, rfl, fun he => absurd he h⟩

theorem ends_settleShort {α : Type} :
    (settleShort id trade back redeliver : Script α).ends (settleEnd redeliver) := by
  refine ends_bind ?_ (fun _ => ends_bind ends_change (fun _ h => nomatch h))
  cases redeliver with
  | false => exact ends_pure
  | true => exact ends_require (fun _ => Or.inr ⟨_, rfl, fun _ => rfl⟩)

theorem ends_releaseCards {E : Bool → Reply → Prop} {p : Carmi → Bool} : (releaseCards p).ends E :=
  ends_bind ends_read (fun _ =>
    ends_forEach (fun _ _ => ends_bind ends_update (fun _ => ends_pure)))

theorem ends_fulfil : (fulfil id o trade back redeliver).ends (settleEnd redeliver) := by
  unfold fulfil
  cases o.type with
  | auto =>
      refine ends_bind (fun _ => trivial) (fun cards => ?_)
      split_ifs
      · refine ends_bind ends_read (fun _ => ?_)
        refine ends_bind (ends_forEach (fun _ _ => ends_change)) (fun _ => ?_)
        exact ends_bind ends_releaseCards (fun _ => ends_bind ends_change (fun _ => ends_pure))
      · exact ends_settleShort
  | manual =>
      refine ends_bind ?_ (fun taken => ?_)
      · unfold retakeStock
        split_ifs
        · exact ends_bind ends_update (fun _ => ends_pure)
        · exact ends_pure
      · split_ifs
        · exact ends_bind ends_change (fun _ => ends_pure)
        · exact ends_settleShort

/-- The errors of a settlement that is rolled back. -/
theorem settle_ends : (settle sn paid trade redeliver).ends (settleEnd redeliver) := by
  have hacknowledge : ∀ c, (acknowledge c).ends (settleEnd redeliver) := by
    intro c
    cases c with
    | false => exact ends_pure
    | true => exact fun h => nomatch h
  have hretake : ∀ o, (retakeCoupon o).ends (settleEnd redeliver) := by
    intro o
    unfold retakeCoupon
    split_ifs
    · exact ends_bind ends_update (fun _ => ends_pure)
    · exact ends_pure
  unfold settle
  refine ends_bind ends_read (fun found => ?_)
  refine ends_bind (ends_orElse (settleEnd_err (by decide))) (fun found => ?_)
  refine ends_bind ends_lockRow (fun row => ?_)
  refine ends_bind (ends_orElse (settleEnd_err (by decide))) (fun o => ?_)
  refine ends_bind ?_ (fun _ => ?_)
  · cases redeliver with
    | false => exact ends_pure
    | true => exact ends_require (fun _ => Or.inl ⟨rfl, rfl⟩)
  refine ends_bind (ends_require (settleEnd_err (by decide))) (fun _ => ?_)
  refine ends_bind (ends_require (settleEnd_err (by decide))) (fun _ => ?_)
  refine ends_bind (hacknowledge _) (fun _ => ?_)
  refine ends_bind (ends_require (settleEnd_err (by decide))) (fun _ => ?_)
  refine ends_bind (hacknowledge _) (fun _ => ?_)
  refine ends_bind ends_lockRow (fun _ => ?_)
  refine ends_bind (hretake o) (fun back => ?_)
  exact ends_bind ends_fulfil (fun cards => ends_bind ends_change (fun _ h => nomatch h))

end Ends

/-- A settlement that answers with the cards it handed over has committed. -/
theorem settle_commits_of_delivered {sn trade : Text} {paid : Cents} {redeliver : Bool}
    {ids : ℕ → ℕ} {d d' : DB} {id : ℕ} {cards : List ℕ}
    (h : (settle sn paid trade redeliver).exec ids d = (d', some (.delivered id cards))) :
    (settle sn paid trade redeliver).commits ids d (.delivered id cards) d' := by
  refine commits_of_answer settle_ends h (fun hend => ?_)
  rcases hend rfl with ⟨he, -⟩ | ⟨msg, he, -⟩ <;> cases he

/-! ### Expiry -/

/-- The database after the expiry of the unpaid order `o`, with the coupon the sweep read for it. -/
def DB.expire (d : DB) (id coupon : ℕ) (o : Order) : DB :=
  { d with
    orders := d.orders.modify id Order.expire
    coupons := if coupon > 0 then d.coupons.modify coupon (fun c => { c with ret := c.ret + 1 })
      else d.coupons
    carmis := d.carmis.mapRows (fun _ c =>
      if c.reservedOrderId = some id && c.goodsId = o.goodsId then c.released else c)
    goods := o.type.moveStock d.goods o.goodsId o.buyAmount }

theorem Script.handBack_returns {id coupon : ℕ} {o : Order} {ids ids' : ℕ → ℕ} {d d' : DB}
    {u : Unit} (h : (handBack id coupon o).returns ids d u ids' d') :
    d' = { d with
      coupons := if coupon > 0 then d.coupons.modify coupon (fun c => { c with ret := c.ret + 1 })
        else d.coupons
      carmis := d.carmis.mapRows (fun _ c =>
        if c.reservedOrderId = some id && c.goodsId = o.goodsId then c.released else c)
      goods := o.type.moveStock d.goods o.goodsId o.buyAmount } := by
  simp only [handBack, returns_bind, returns_lockRow (.goods _), returns_onlyIf, returns_change,
    returns_releaseCards, decide_eq_true_eq, decide_eq_false_iff_not] at h
  obtain ⟨_, _, _, ⟨-, rfl, rfl⟩, _, _, d₁, hcoupon, _, _, _, ⟨rfl, rfl⟩, hstock⟩ := h
  have h₁ : d₁ = { d with
      coupons := if coupon > 0 then d.coupons.modify coupon (fun c => { c with ret := c.ret + 1 })
        else d.coupons } := by
    rcases hcoupon with ⟨hc, rfl, rfl⟩ | ⟨hc, rfl, rfl⟩
    · rw [if_pos hc, DB.changeRow_coupon]
    · rw [if_neg hc]
  subst h₁
  cases ht : o.type with
  | auto =>
      rcases hstock with ⟨hm, -⟩ | ⟨-, rfl, rfl⟩
      · simp [ht] at hm
      · rfl
  | manual =>
      rcases hstock with ⟨-, rfl, rfl⟩ | ⟨hm, -⟩
      · rw [DB.changeRow_goods]
        rfl
      · exact absurd ht hm

theorem Script.not_commits_handBack {id coupon : ℕ} {o : Order} {ids : ℕ → ℕ} {d d' : DB}
    {r : Reply} :
    ¬ (handBack id coupon o).commits ids d r d' := by
  simp [handBack, commits_bind, commits_lockRow (.goods _), commits_onlyIf,
    not_commits_releaseCards]

theorem expireOne_commits {id coupon : ℕ} {ids : ℕ → ℕ} {d d' : DB} {r : Reply}
    (h : (expireOne id coupon).commits ids d r d') :
    (d' = d ∧ ∀ o, d.orders.get? id = some o → o.status ≠ .unpaid) ∨
      ∃ o, d.orders.get? id = some o ∧ o.status = .unpaid ∧ r = .expired id ∧
        d' = d.expire id coupon o := by
  rw [expireOne, commits_bind] at h
  obtain h | ⟨row, ids₁, d₁, hupdate, h⟩ := h
  · exact absurd h (by simp [commits_update (.order _)])
  obtain ⟨hrow, rfl, rfl⟩ := (returns_update (.order id)).mp hupdate
  cases row with
  | none =>
      obtain ⟨-, rfl⟩ := commits_commit.mp h
      refine Or.inl ⟨rfl, fun o ho hu => ?_⟩
      rw [DB.get_order, ho, Option.bind_some, if_pos hu] at hrow
      cases hrow
  | some v =>
      obtain ⟨o, hget, hv⟩ := Option.bind_eq_some_iff.mp hrow
      split_ifs at hv with hu
      obtain rfl := Option.some.inj hv
      refine Or.inr ⟨o, hget, hu, ?_⟩
      rw [commits_bind] at h
      obtain h | ⟨_, _, _, hback, h⟩ := h
      · exact absurd h not_commits_handBack
      · obtain ⟨rfl, rfl⟩ := commits_commit.mp h
        refine ⟨rfl, ?_⟩
        rw [handBack_returns hback, DB.expire, ← Table.put_eq_modify hget]
        rfl

/-! ### Quotes -/

/-- A committed `LockCldxQuote` wrote the quote columns of one unpaid order. -/
theorem lockCldxQuote_commits {sn : Text} {minor expires : ℤ} {ids : ℕ → ℕ} {d d' : DB} {r : Reply}
    (h : (lockCldxQuote sn minor expires).commits ids d r d') :
    ∃ id o, d.orders.get? id = some o ∧ (o.orderSn = sn ∧ o.status = .unpaid ∧
        r = .quote (o.cldxMinor.getD minor) (o.cldxExpiresAt.getD expires)) ∧
      d' = { d with orders := d.orders.modify id (fun o => o.quote minor expires) } := by
  simp only [lockCldxQuote, commits_bind, commits_read, commits_orElse, commits_update (.order _),
    commits_commit, false_or, returns_read, returns_orElse, and_assoc, exists_and_left,
    exists_eq_left'] at h
  obtain ⟨found, -, _, _, _, hupdate, v, rfl, hr, rfl⟩ := h
  obtain ⟨o, _, hget, hif, hv, -, hw⟩ := updateKey_found hupdate rfl
  obtain rfl := Option.some.inj hv
  split_ifs at hif with hu
  obtain rfl := Option.some.inj hif
  refine ⟨found.1, o, hget, ⟨hu.1, hu.2, hr.symm⟩, ?_⟩
  rw [← Table.put_eq_modify hget, hw]
  rfl

/-- A committed `LockUSDTInvoice` wrote nothing, or the invoice of one unpaid order. -/
theorem lockUSDTInvoice_commits {sn : Text} {onTime : Bool} {created : Option Text} {ids : ℕ → ℕ}
    {d d' : DB} {r : Reply} (h : (lockUSDTInvoice sn onTime created).commits ids d r d') :
    d' = d ∨ ∃ id o raw, d.orders.get? id = some o ∧ (o.status = .unpaid ∧ o.usdtPayment = none) ∧
      d' = { d with
        orders := d.orders.modify id (fun o => { o with usdtPayment := some raw }) } := by
  simp only [lockUSDTInvoice, commits_bind, commits_read, commits_orElse,
    commits_lockRow (.order _), commits_require, false_or, returns_read, returns_orElse,
    returns_lockRow (.order _), returns_require] at h
  obtain ⟨_, _, _, ⟨rfl, rfl, rfl⟩, found, _, _, ⟨-, rfl, rfl⟩, row, _, _, ⟨hrow, rfl, rfl⟩, o, _,
    _, ⟨rfl, rfl, rfl⟩, _, _, _, ⟨hu, rfl, rfl⟩, h⟩ := h
  obtain ⟨hget, -⟩ := Option.filter_eq_some_iff.mp hrow
  cases hp : o.usdtPayment with
  | some raw =>
      rw [hp] at h
      exact Or.inl (commits_commit.mp h).2.symm
  | none =>
      rw [hp] at h
      simp only [commits_bind, commits_orElse, commits_change, commits_commit, false_or,
        returns_orElse, returns_change] at h
      obtain ⟨raw, _, _, ⟨-, rfl, rfl⟩, _, _, _, ⟨rfl, rfl⟩, -, rfl⟩ := h
      simp only [Bool.and_eq_true, decide_eq_true_eq] at hu
      exact Or.inr ⟨found.1, o, raw, hget, ⟨hu.1, hp⟩, DB.changeRow_order _ _ _⟩

end Dufaka
