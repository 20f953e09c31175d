import Dufaka.ShopSessions

/-!
# What a transaction of the shop does among others

One rule for each script, when it commits between the statements of other transactions. A checkout,
an expiry and the owner's forms do to the rows they wrote what they do alone. A settlement does it
too, except that `SKIP LOCKED` may hide cards from it: it is the settlement of `Settled` on the
cards that its scan saw.
-/

namespace Dufaka
open Relational Tx

def Reply.handed : Reply → List ℕ
  | delivered _ cards => cards
  | _ => []

/-- The cards after a settlement of the order `o` under the identity `id`, which may have handed
some of them over. -/
inductive CardsHanded (d : DB) (id : ℕ) (o : Order) : Reply → Table Carmi → Prop
  | none {r : Reply} (h : r.handed = []) (hm : ∀ cards,
    r = .delivered id cards → o.type = .manual) :
      CardsHanded d id o r d.carmis
  | given {cards : List ℕ} (hnd : cards.Nodup)
      (h : ∀ i ∈ cards, ∃ c, d.carmis.get? i = some c ∧ DB.deliverable id o.goodsId c = true) :
      CardsHanded d id o (.delivered id cards) (d.handOver id o.goodsId cards)

structure SettledAmong (d : DB) (id : ℕ) (o : Order) (trade : Text) (redeliver : Bool) (r : Reply)
    (d' : DB) : Prop where
  seen : ∃ seen left, Settled { d with carmis := seen } id o trade redeliver r
    { d' with carmis := left }
  cards : CardsHanded d id o r d'.carmis

def DB.seenCards (d : DB) (skip : ℕ → Bool) : Table Carmi := d.carmis.keep (fun i _ => !skip i)

theorem DB.cardsFor_seenCards (d d₁ : DB) (id gid : ℕ) (amount : ℤ) (skip : ℕ → Bool) :
    DB.cardsFor { d with carmis := d₁.seenCards skip } id gid amount (fun _ => false) =
      d₁.cardsFor id gid amount skip := by
  simp only [DB.cardsFor, DB.seenCards, Table.select_keep, Bool.not_false, Bool.and_true]

theorem DB.mem_cardsFor_seen {d : DB} {id gid : ℕ} {amount : ℤ} {skip : ℕ → Bool} {i : ℕ}
    (h : i ∈ d.cardsFor id gid amount skip) : skip i = false := by
  have h := List.mem_of_mem_take h
  rw [List.map_append] at h
  rcases List.mem_append.mp h with h | h
  · obtain ⟨c, hc, hp⟩ := Table.mem_select_keys.mp h
    simpa using (Bool.and_eq_true_iff.mp hp).2
  · obtain ⟨c, hc, hp⟩ := Table.mem_select_keys.mp h
    simpa using (Bool.and_eq_true_iff.mp hp).2

theorem DB.cardRows_congr {d d' : DB} {cards : List ℕ}
    (h : ∀ i ∈ cards, d.carmis.get? i = d'.carmis.get? i) : d.cardRows cards = d'.cardRows cards :=
  List.filterMap_congr h

namespace Script
variable {env : Env} {calm : Prop} {d : DB} {L L' : Locks Key} {w w' : Writes Row} {r : Reply}
  {u : Unit}

theorem yields_acknowledge {R : Rely DB Row} {c : Bool} :
    (acknowledge c).yields R d L w u L' w' ↔ c = false ∧ L = L' ∧ w = w' := by
  cases c <;> simp [acknowledge]

theorem commitsAt_acknowledge {R : Rely DB Row} {c : Bool} :
    (acknowledge c).commitsAt R d L w r L' w' ↔ c = true ∧ Reply.already = r ∧ L = L' ∧ w = w' := by
  cases c <;> simp [acknowledge]

theorem not_commitsAt_releaseCards {R : Rely DB Row} {p : Carmi → Bool} :
    ¬ (releaseCards p).commitsAt R d L w r L' w' := by
  simp only [releaseCards, commitsAt_bind, commitsAt_read, false_or]
  rintro ⟨_, _, _, -, h⟩
  exact not_commitsAt_forEach
    (fun _ _ _ _ _ _ => by simp [commitsAt_bind, commitsAt_update (.carmi _)]) _ h

/-- The cards of an order whose row is locked are steady. -/
theorem steady_of_reserved {p : Carmi → Bool} {id : ℕ} (hown : Owns L (.order id))
    (hp : ∀ c, p c = true → c.reservedOrderId = some id) : Steady (shopRely env calm) L d p :=
  fun _ hd i c hc hget => (hd.rely.cards id hown i c (hp c hc)).mpr hget

theorem retakeCoupon_yields {R : Rely DB Row} {o : Order} {back : RetBack}
    (h : (retakeCoupon o).yields R d L w back L' w') :
    L ⊆ L' ∧ ∃ coupons, Retaken o (view d w).coupons coupons back ∧
      view d w' = { view d w with coupons := coupons } := by
  unfold retakeCoupon at h
  split_ifs at h with hc
  · rw [yields_bind] at h
    obtain ⟨row, L₁, w₁, hup, hret⟩ := h
    obtain ⟨rfl, rfl, rfl⟩ := yields_pure.mp hret
    cases row with
    | none =>
        obtain ⟨-, rfl, rfl⟩ := yields_updateKey_none hup
        exact ⟨List.Subset.refl _, _, .lost hc.1 hc.2, rfl⟩
    | some v =>
        obtain ⟨c, hget, hv, rfl, rfl⟩ := yields_updateKey_some hup
        split_ifs at hv with hok
        obtain rfl := Option.some.inj hv
        refine ⟨List.subset_cons_self _ _, _, .taken c hc.1 hc.2 hget hok.1, ?_⟩
        rw [← Table.put_eq_modify hget]
        rfl
  · obtain ⟨rfl, rfl, rfl⟩ := yields_pure.mp h
    refine ⟨List.Subset.refl _, _, .keep ?_, rfl⟩
    rw [not_and_or] at hc
    exact hc.imp_left (by omega)

theorem not_commitsAt_retakeCoupon {R : Rely DB Row} {o : Order} :
    ¬ (retakeCoupon o).commitsAt R d L w r L' w' := by
  unfold retakeCoupon
  split_ifs <;> simp [commitsAt_bind, commitsAt_update (.coupon _)]

theorem settleShort_commitsAt {R : Rely DB Row} {α : Type} {id : ℕ} {trade : Text} {back : RetBack}
    {redeliver : Bool} (hown : Owns L (.order id))
    (h : (settleShort id trade back redeliver : Script α).commitsAt R d L w r L' w') :
    redeliver = false ∧ r = .err msgShortStock ∧ L ⊆ L' ∧ view d w' = { view d w with
      orders := (view d w).orders.modify id (fun o => o.short trade back) } := by
  simp only [settleShort, commitsAt_bind, commitsAt_require, commitsAt_change, commitsAt_commit,
    false_or, yields_require] at h
  obtain ⟨_, _, _, ⟨hr, rfl, rfl⟩, _, _, _, hchange, rfl, rfl, rfl⟩ := h
  obtain ⟨hL, hview⟩ := yields_change_owned hown hchange
  exact ⟨by simpa using hr, rfl, hL, hview.trans (DB.changeRow_order _ _ _)⟩

theorem not_yields_settleShort {R : Rely DB Row} {α : Type} {id : ℕ} {trade : Text} {back : RetBack}
    {redeliver : Bool} {a : α} :
    ¬ (settleShort id trade back redeliver : Script α).yields R d L w a L' w' := by
  simp [settleShort, yields_bind]

theorem owns_scanned {cards : List ℕ} {i : ℕ} (hi : i ∈ cards) :
    Owns (cards.map (fun n => (Key.carmi n, LockMode.update)) ++ L) (.carmi i) :=
  ⟨.update, rfl, List.mem_append_left _ (List.mem_map.mpr ⟨i, hi, rfl⟩)⟩

/-- A scan that took its cards: they are what it saw, and stay so. -/
theorem scan_yields {R : Rely DB Row} {id gid : ℕ} {amount : ℤ} {cards : List ℕ}
    (h : (Tx.skipLocked Key.carmi (fun d skip => d.cardsFor id gid amount skip) pure :
      Script (List ℕ)).yields R d L w cards L' w') :
    L' = cards.map (fun n => (Key.carmi n, .update)) ++ L ∧ w' = w ∧ cards.Nodup ∧
      (∀ i ∈ cards, ∃ c, (view d w).carmis.get? i = some c ∧ DB.deliverable id gid c = true) ∧
      ∃ seen, DB.cardsFor { view d w with carmis := seen } id gid amount (fun _ => false) = cards ∧
        ∀ i ∈ cards, seen.get? i = (view d w).carmis.get? i := by
  obtain ⟨⟨d₁, skip, hd, rfl⟩, rfl, rfl⟩ := Tx.yields_skipLocked.mp h
  have hrow : ∀ i ∈ (view d₁ w').cardsFor id gid amount skip,
      (view d₁ w').carmis.get? i = (view d w').carmis.get? i := by
    intro i hi
    exact hd.view_row (owns_scanned hi) w'
  refine ⟨rfl, rfl, DB.cardsFor_nodup _ _ _ _ _, fun i hi => ?_, (view d₁ w').seenCards skip,
    DB.cardsFor_seenCards _ _ _ _ _ _, fun i hi => ?_⟩
  · obtain ⟨c, hc, hdel⟩ := DB.mem_cardsFor hi
    exact ⟨c, (hrow i hi).symm.trans hc, hdel⟩
  · obtain ⟨c, hc, -⟩ := DB.mem_cardsFor hi
    rw [← hrow i hi, hc]
    exact Table.get?_keep_some.mpr ⟨hc, by rw [DB.mem_cardsFor_seen hi]; rfl⟩

theorem deliverCards_yields {id : ℕ} {o : Order} {trade : Text} {back : RetBack} {redeliver : Bool}
    {cards : List ℕ} (hown : Owns L (.order id))
    (h : (deliverCards id o trade back redeliver).yields (shopRely env calm) d L w cards L' w') :
    L ⊆ L' ∧ (cards.length : ℤ) = o.buyAmount ∧ cards.Nodup ∧
      (∀ i ∈ cards, ∃ c, (view d w).carmis.get? i = some c ∧ DB.deliverable id o.goodsId c = true) ∧
      (∃ seen,
        DB.cardsFor { view d w with carmis := seen } id o.goodsId o.buyAmount (fun _ => false) =
          cards ∧ ∀ i ∈ cards, seen.get? i = (view d w).carmis.get? i) ∧
      view d w' = { view d w with
        carmis := (view d w).handOver id o.goodsId cards
        orders := (view d w).orders.modify id (fun o =>
          o.deliver ((view d w).cardTexts cards) trade back) } := by
  rw [deliverCards, yields_bind] at h
  obtain ⟨picked, L₁, w₁, hscan, h⟩ := h
  obtain ⟨rfl, rfl, hnd, hrows, hseen⟩ := scan_yields hscan
  split_ifs at h with hlen
  · simp only [yields_bind, yields_read, yields_pure] at h
    obtain ⟨lines, _, _, ⟨⟨d₂, hd₂, rfl⟩, rfl, rfl⟩, _, L₂, w₂, hchange, _, L₃, w₃, hrelease, _, L₄,
      w₄, horder, rfl, rfl, rfl⟩ := h
    have hown₁ :=
      hown.mono (List.subset_append_right (picked.map fun n => (Key.carmi n, LockMode.update)) L)
    obtain ⟨hL₂, hview₂⟩ := yields_changeAll (fun i hi => owns_scanned hi) hchange
    obtain ⟨hL₃, hview₃⟩ := yields_releaseCards (steady_of_reserved (hown₁.mono hL₂)
      (fun c hc => by simp at hc; exact hc.1.1)) hrelease
    obtain ⟨hL₄, hview₄⟩ := yields_change_owned ((hown₁.mono hL₂).mono hL₃) horder
    refine ⟨fun l hl => hL₄ (hL₃ (hL₂ (List.mem_append_right _ hl))), hlen, hnd, hrows, hseen, ?_⟩
    -- the texts were read under the locks of the cards
    have htexts : (view d₂ w₁).cardRows picked = (view d w₁).cardRows picked :=
      DB.cardRows_congr (fun i hi => hd₂.view_row (owns_scanned hi) w₁)
    rw [hview₄, hview₃, hview₂, DB.changeRow_order, DB.foldl_changeRow_carmi _ _ hnd, htexts]
    rfl
  · exact absurd h not_yields_settleShort

theorem deliverCards_commitsAt {id : ℕ} {o : Order} {trade : Text} {back : RetBack}
    {redeliver : Bool} (hown : Owns L (.order id))
    (h : (deliverCards id o trade back redeliver).commitsAt (shopRely env calm) d L w r L' w') :
    redeliver = false ∧ r = .err msgShortStock ∧ L ⊆ L' ∧
      (∃ seen, ((DB.cardsFor { view d w with carmis := seen } id o.goodsId o.buyAmount
        (fun _ => false)).length : ℤ) ≠ o.buyAmount) ∧
      view d w' = { view d w with
        orders := (view d w).orders.modify id (fun o => o.short trade back) } := by
  rw [deliverCards, commitsAt_bind] at h
  obtain h | ⟨picked, L₁, w₁, hscan, h⟩ := h
  · exact absurd h (by simp)
  obtain ⟨rfl, rfl, hnd, hrows, seen, hseen, -⟩ := scan_yields hscan
  split_ifs at h with hlen
  · simp only [commitsAt_bind, commitsAt_read, not_commitsAt_releaseCards, commitsAt_change,
      commitsAt_pure, false_or] at h
    obtain ⟨_, _, _, -, h | ⟨_, _, _, -, _, _, _, -, _, _, _, -, h⟩⟩ := h
    · exact absurd h (not_commitsAt_forEach (fun _ _ _ _ _ _ => by simp) _)
    · exact h.elim
  · have hown₁ :=
      hown.mono (List.subset_append_right (picked.map fun n => (Key.carmi n, LockMode.update)) L)
    obtain ⟨hr, he, hL, hview⟩ := settleShort_commitsAt hown₁ h
    exact ⟨hr, he, fun l hl => hL (List.mem_append_right _ hl), ⟨seen, by rw [hseen]; exact hlen⟩,
      hview⟩

theorem retakeStock_yields {R : Rely DB Row} {o : Order} {taken : Bool}
    (h : (retakeStock o).yields R d L w taken L' w') :
    L ⊆ L' ∧ (taken = true →
      (o.status = .expired → ∃ g, (view d w).goods.get? o.goodsId = some g ∧
        o.buyAmount ≤ g.inStock) ∧
      view d w' = { view d w with goods := if o.status = .expired then
        GoodsType.manual.moveStock (view d w).goods o.goodsId (-o.buyAmount)
          else (view d w).goods }) ∧
      (taken = false → o.status = .expired ∧ view d w' = view d w) := by
  unfold retakeStock at h
  split_ifs at h with he
  · rw [yields_bind] at h
    obtain ⟨row, L₁, w₁, hup, hret⟩ := h
    obtain ⟨rfl, rfl, rfl⟩ := yields_pure.mp hret
    cases row with
    | none =>
        obtain ⟨-, rfl, rfl⟩ := yields_updateKey_none hup
        exact ⟨List.Subset.refl _, fun ht => (by cases ht), fun _ => ⟨he, rfl⟩⟩
    | some v =>
        obtain ⟨g, hget, hv, rfl, rfl⟩ := yields_updateKey_some hup
        split_ifs at hv with hok
        obtain rfl := Option.some.inj hv
        refine ⟨List.subset_cons_self _ _, fun _ => ⟨fun _ => ⟨g, hget, hok⟩, ?_⟩,
          fun ht => (by cases ht)⟩
        rw [if_pos he, GoodsType.moveStock, ← Table.put_eq_modify hget]
        rfl
  · obtain ⟨rfl, rfl, rfl⟩ := yields_pure.mp h
    exact ⟨List.Subset.refl _, fun _ => ⟨fun h => absurd h he, by rw [if_neg he]⟩,
      fun ht => (by cases ht)⟩

theorem not_commitsAt_retakeStock {R : Rely DB Row} {o : Order} :
    ¬ (retakeStock o).commitsAt R d L w r L' w' := by
  unfold retakeStock
  split_ifs <;> simp [commitsAt_bind, commitsAt_update (.goods _)]

theorem settleManual_yields {R : Rely DB Row} {id : ℕ} {o : Order} {trade : Text} {back : RetBack}
    {redeliver : Bool} {cards : List ℕ} (hown : Owns L (.order id))
    (h : (settleManual id o trade back redeliver).yields R d L w cards L' w') :
    L ⊆ L' ∧ cards = [] ∧
      (o.status = .expired → ∃ g, (view d w).goods.get? o.goodsId = some g ∧
        o.buyAmount ≤ g.inStock) ∧
      view d w' = { view d w with
        goods := if o.status = .expired then
          GoodsType.manual.moveStock (view d w).goods o.goodsId (-o.buyAmount) else (view d w).goods
        orders := (view d w).orders.modify id (fun o => o.handToOwner trade back) } := by
  rw [settleManual, yields_bind] at h
  obtain ⟨taken, L₁, w₁, hstock, h⟩ := h
  obtain ⟨hL₁, hyes, -⟩ := retakeStock_yields hstock
  split_ifs at h with ht
  · simp only [yields_bind, yields_pure] at h
    obtain ⟨_, L₂, w₂, hchange, rfl, rfl, rfl⟩ := h
    obtain ⟨hle, hview₁⟩ := hyes ht
    obtain ⟨hL₂, hview₂⟩ := yields_change_owned (hown.mono hL₁) hchange
    refine ⟨fun l hl => hL₂ (hL₁ hl), rfl, hle, ?_⟩
    rw [hview₂, hview₁]
    exact DB.changeRow_order _ _ _
  · exact absurd h not_yields_settleShort

theorem settleManual_commitsAt {R : Rely DB Row} {id : ℕ} {o : Order} {trade : Text}
    {back : RetBack} {redeliver : Bool} (hown : Owns L (.order id))
    (h : (settleManual id o trade back redeliver).commitsAt R d L w r L' w') :
    redeliver = false ∧ r = .err msgShortStock ∧ L ⊆ L' ∧ o.status = .expired ∧
      view d w' = { view d w with
        orders := (view d w).orders.modify id (fun o => o.short trade back) } := by
  rw [settleManual, commitsAt_bind] at h
  obtain h | ⟨taken, L₁, w₁, hstock, h⟩ := h
  · exact absurd h not_commitsAt_retakeStock
  obtain ⟨hL₁, -, hno⟩ := retakeStock_yields hstock
  split_ifs at h with ht
  · simp [commitsAt_bind] at h
  · obtain ⟨hr, he, hL₂, hview⟩ := settleShort_commitsAt (hown.mono hL₁) h
    obtain ⟨hexp, hsame⟩ := hno (by simpa using ht)
    exact ⟨hr, he, fun l hl => hL₂ (hL₁ hl), hexp, by rw [hview, hsame]⟩

/-- The goods row of an order that is locked is there to be locked. -/
theorem lockGoods_yields {id : ℕ} {o : Order} (hown : Owns L (.order id))
    (ho : d.orders.get? id = some o) {row : Option Good}
    (h : (lockRow (.goods o.goodsId) .noKeyUpdate (fun _ => true)).yields
      (shopRely env calm) d L w row L' w')
    (hw : ∀ x ∈ w, x.1 ≠ Key.goods o.goodsId) :
    L ⊆ L' ∧ Owns L' (.goods o.goodsId) ∧ w' = w := by
  rcases Tx.yields_lockRow.mp h with ⟨d₁, g, -, -, -, -, rfl, rfl⟩ | ⟨⟨d₁, hd, hnone⟩, -⟩
  · exact ⟨List.subset_cons_self _ _, Owns.head rfl, rfl⟩
  · have ho₁ : d₁.orders.get? id = some o := (hd.row _ hown).trans ho
    have hsome := hd.inv.goods id o ho₁
    rw [get_view_of_notMem hw, DB.get_goods] at hnone
    obtain ⟨g, hg⟩ := Option.isSome_iff_exists.mp hsome
    rw [hg] at hnone
    cases hnone

end Script

open Script

/-- A settlement that came to its work, from the coupon on. -/
theorem fulfil_commitsAt {env : Env} {calm : Prop} {id : ℕ} {o : Order} {trade : Text}
    {back : RetBack} {redeliver : Bool} {d : DB} {L L' : Locks Key} {w w' : Writes Row} {r : Reply}
    {coupons : Table Coupon} (hown : Owns L (.order id)) (hp : o.payable)
    (hretaken : Retaken o d.coupons coupons back) (hview : view d w = { d with coupons := coupons })
    (h : (fulfil id o trade back redeliver).commitsAt (shopRely env calm) d L w r L' w') :
    L ⊆ L' ∧ SettledAmong d id o trade redeliver r (view d w') := by
  rw [fulfil] at h
  cases ht : o.type with
  | auto =>
      simp only [ht] at h
      obtain ⟨hr, rfl, hL, ⟨seen, hlen⟩, hview'⟩ := deliverCards_commitsAt hown h
      have hm : o.type ≠ .manual := by simp [ht]
      refine ⟨hL, ⟨seen, seen, ?_⟩, ?_⟩
      · rw [hview', hview]
        exact .short hp hr hretaken (fun _ => by rw [hview] at hlen; exact hlen)
          (fun h => absurd h hm)
      · rw [hview', hview]
        exact .none rfl (fun cards hr => by cases hr)
  | manual =>
      simp only [ht] at h
      obtain ⟨hr, rfl, hL, hexp, hview'⟩ := settleManual_commitsAt hown h
      refine ⟨hL, ⟨d.carmis, d.carmis, ?_⟩, ?_⟩
      · rw [hview', hview]
        exact .short hp hr hretaken (fun ha => by simp [ht] at ha) (fun _ => hexp)
      · rw [hview', hview]
        exact .none rfl (fun cards hr => by cases hr)

/-- The same for a settlement that delivers, with the sales it counts. -/
theorem fulfil_yields {env : Env} {calm : Prop} {id : ℕ} {o : Order} {trade : Text} {back : RetBack}
    {redeliver : Bool} {d : DB} {L L' : Locks Key} {w w' : Writes Row} {cards : List ℕ} {d' : DB}
    {coupons : Table Coupon} (hown : Owns L (.order id)) (hp : o.payable)
    (hretaken : Retaken o d.coupons coupons back) (hview : view d w = { d with coupons := coupons })
    (h : (fulfil id o trade back redeliver).yields (shopRely env calm) d L w cards L' w')
    (hd' : d' = { view d w' with goods := DB.addSales (view d w').goods o.goodsId o.buyAmount }) :
    L ⊆ L' ∧ SettledAmong d id o trade redeliver (.delivered id cards) d' := by
  rw [fulfil] at h
  cases ht : o.type with
  | auto =>
      simp only [ht] at h
      obtain ⟨hL, hlen, hnd, hrows, ⟨seen, hcards, hseen⟩, hview'⟩ := deliverCards_yields hown h
      rw [hview] at hrows hcards hseen hview'
      refine ⟨hL, ⟨seen, DB.handOver { d with carmis := seen } id o.goodsId cards, ?_⟩, ?_⟩
      · have hsame : DB.cardRows { d with carmis := seen } cards = d.cardRows cards :=
          DB.cardRows_congr hseen
        have htexts : DB.cardTexts { d with carmis := seen } cards = d.cardTexts cards := by
          rw [DB.cardTexts, hsame]
          rfl
        rw [hd', hview']
        have hs : Settled { d with carmis := seen } id o trade redeliver (.delivered id cards) _ :=
          .cards hp hretaken ht hcards hlen
        rw [htexts] at hs
        exact hs
      · rw [hd', hview']
        exact .given hnd hrows
  | manual =>
      simp only [ht] at h
      obtain ⟨hL, rfl, hle, hview'⟩ := settleManual_yields hown h
      rw [hview] at hle hview'
      have hp' : o.status = .unpaid ∨ o.status = .expired := by
        rcases hp with h | h | h
        · exact Or.inl h
        · exact Or.inr h
        · simp [ht] at h
      refine ⟨hL, ⟨d.carmis, d.carmis, ?_⟩, ?_⟩
      · rw [hd', hview']
        have hs : Settled { d with carmis := d.carmis } id o trade redeliver (.delivered id []) _ :=
          .manual hp' hretaken ht hle
        rw [ht] at hs
        exact hs
      · rw [hd', hview']
        exact .none rfl (fun _ _ => ht)

/-- What a committed settlement did among others, and to which order. -/
theorem settle_commitsAt {env : Env} {calm : Prop} {sn : Text} {paid : Cents} {tradeNo : Text}
    {redeliver : Bool} {d : DB} {L : Locks Key} {w : Writes Row} {r : Reply}
    (h : (settle sn paid tradeNo redeliver).commitsAt (shopRely env calm) d [] [] r L w) :
    ∃ id o, d.orders.get? id = some o ∧ o.orderSn = sn ∧ Owns L (.order id) ∧
      (redeliver = true → o.status = .abnormal ∧ o.type = .auto) ∧
      (redeliver = false → paid = o.actualPrice) ∧
      SettledAmong d id o (o.tradeFor tradeNo redeliver) redeliver r (view d w) := by
  simp only [settle, commitsAt_bind, commitsAt_read, commitsAt_orElse, commitsAt_lockRow (.order _),
    commitsAt_lockRow (.goods _), commitsAt_require, commitsAt_acknowledge,
    not_commitsAt_retakeCoupon,
    commitsAt_change, commitsAt_commit, false_or, yields_read, yields_orElse, yields_require,
    yields_acknowledge, and_assoc, exists_and_left, exists_eq_left', exists_const] at h
  obtain ⟨_, -, ⟨id, o₀⟩, -, _, L₁, w₁, hrow, o, rfl, hab, hau, hpaid, h⟩ := h
  obtain ⟨hget, hsn, rfl, rfl⟩ := Tx.yields_lockRow_some rfl hrow
  have hown : Owns [(Key.order id, LockMode.update)] (.order id) := Owns.head rfl
  have hback : redeliver = true → o.status = .abnormal ∧ o.type = .auto := by
    rintro rfl
    simpa using And.intro hab hau
  have hpaid' : redeliver = false → paid = o.actualPrice := by
    rintro rfl
    simpa using hpaid
  have hsame : ∀ (hrec : o.recorded) (hr : redeliver = false), SettledAmong d id o
      (o.tradeFor tradeNo redeliver) redeliver .already d := fun hrec hr =>
    ⟨⟨d.carmis, d.carmis, .already hrec hr⟩, .none rfl (fun cards hr => by cases hr)⟩
  have hsn' : o.orderSn = sn := by simpa using hsn
  rcases h with ⟨hst, rfl, rfl, rfl⟩ | ⟨hst, hpay,
    ⟨hst', rfl, rfl, rfl⟩ | ⟨hst', _, L₂, w₂, hgoods, back, L₃, w₃, hretake, h⟩⟩
  · simp only [Bool.or_eq_true, decide_eq_true_eq] at hst
    have hrec : o.recorded := by
      rcases hst with (hs | hs) | hs
      · exact Or.inl hs
      · exact Or.inr (Or.inl hs)
      · exact Or.inr (Or.inr (Or.inl hs))
    refine ⟨id, o, hget, hsn', hown, hback, hpaid', hsame hrec ?_⟩
    by_contra hr
    rw [(hback (by simpa using hr)).1] at hst
    simp at hst
  · simp only [Bool.and_eq_true, decide_eq_true_eq] at hst'
    have hm : o.type = .manual := by
      cases ht : o.type with
      | auto => exact absurd ht hst'.1
      | manual => rfl
    refine ⟨id, o, hget, hsn', hown, hback, hpaid',
      hsame (Or.inr (Or.inr (Or.inr ⟨hst'.2, hm⟩))) ?_⟩
    by_contra hr
    exact hst'.1 (hback (by simpa using hr)).2
  · have hp : o.payable := by
      simp only [Bool.or_eq_true, Bool.and_eq_false_iff, decide_eq_true_eq, decide_eq_false_iff_not,
        not_not] at hpay hst'
      rcases hpay with (hs | hs) | hs
      · exact Or.inl hs
      · exact Or.inr (Or.inl hs)
      · exact Or.inr (Or.inr ⟨hs, hst'.resolve_right (fun hne => hne hs)⟩)
    obtain ⟨hL₂, hgown, rfl⟩ := lockGoods_yields hown hget hgoods (by simp)
    obtain ⟨hL₃, coupons, hretaken, hview⟩ := retakeCoupon_yields hretake
    have hown₃ := (hown.mono hL₂).mono hL₃
    rcases h with h | ⟨cards, L₄, w₄, hfulfil, _, L₅, w₅, hchange, rfl, rfl, rfl⟩
    · obtain ⟨hL, hs⟩ := fulfil_commitsAt hown₃ hp hretaken hview h
      exact ⟨id, o, hget, hsn', hown₃.mono hL, hback, hpaid', hs⟩
    · have hL₄ := (fulfil_yields hown₃ hp hretaken hview hfulfil rfl).1
      obtain ⟨hL₅, hview₅⟩ := yields_change_owned ((hgown.mono hL₃).mono hL₄) hchange
      rw [DB.changeRow_goods] at hview₅
      refine ⟨id, o, hget, hsn', (hown₃.mono hL₄).mono hL₅, hback, hpaid', ?_⟩
      exact (fulfil_yields hown₃ hp hretaken hview hfulfil hview₅).2

/-! ### Expiry -/

theorem Script.handBack_yields {env : Env} {calm : Prop} {id : ℕ} {o : Order} {d : DB}
    {L L' : Locks Key} {w' : Writes Row} {u : Unit} (hown : Owns L (.order id))
    (ho : d.orders.get? id = some o)
    (h : (handBack id o.couponId o.expire).yields (shopRely env calm) d L
      [⟨.order id, o.expire⟩] u L' w') :
    L ⊆ L' ∧ view d w' = d.expire id o.couponId o := by
  simp only [handBack, yields_bind, yields_onlyIf, decide_eq_true_eq, decide_eq_false_iff_not] at h
  obtain ⟨_, L₁, w₁, hgoods, _, L₂, w₂, hcoupon, _, L₃, w₃, hrelease, hstock⟩ := h
  obtain ⟨hL₁, hgown, rfl⟩ := lockGoods_yields hown ho hgoods (by simp)
  have hput : d.orders.put id o.expire = d.orders.modify id Order.expire := Table.put_eq_modify ho _
  have h₂ : L₁ ⊆ L₂ ∧ view d w₂ = { d with
      orders := d.orders.modify id Order.expire
      coupons := if o.couponId > 0 then
          d.coupons.modify o.couponId (fun c => { c with ret := c.ret + 1 }) else d.coupons } := by
    rcases hcoupon with ⟨hc, hchange⟩ | ⟨hc, rfl, rfl⟩
    · -- the row of the coupon was there when the order was made, and stayed
      obtain ⟨hL, hview⟩ := yields_change_of_seen hchange (fun d₁ hd hnone => by
        have ho₁ : d₁.orders.get? id = some o := (hd.row _ (hown.mono hL₁)).trans ho
        have hsome := hd.inv.coupon id o ho₁ hc
        rw [show d₁.coupons.get? o.couponId = none from hnone] at hsome
        cases hsome)
      refine ⟨hL, ?_⟩
      rw [hview, DB.changeRow_coupon, if_pos hc, ← hput]
      rfl
    · refine ⟨List.Subset.refl _, ?_⟩
      rw [if_neg hc, ← hput]
      rfl
  obtain ⟨hL₂, hview₂⟩ := h₂
  obtain ⟨hL₃, hview₃⟩ := yields_releaseCards (steady_of_reserved ((hown.mono hL₁).mono hL₂)
    (fun c hc => by simp at hc; exact hc.1)) hrelease
  have h₄ : L₃ ⊆ L' ∧ view d w' = { view d w₃ with
      goods := o.type.moveStock (view d w₃).goods o.goodsId o.buyAmount } := by
    cases ht : o.type with
    | auto =>
        rcases hstock with ⟨hm, -⟩ | ⟨-, rfl, rfl⟩
        · exact absurd (ht.symm.trans hm) (by simp)
        · exact ⟨List.Subset.refl _, rfl⟩
    | manual =>
        rcases hstock with ⟨-, hchange⟩ | ⟨hm, -⟩
        · obtain ⟨hL, hview⟩ := yields_change_owned ((hgown.mono hL₂).mono hL₃) hchange
          exact ⟨hL, hview.trans (DB.changeRow_goods _ _ _)⟩
        · exact absurd ht hm
  obtain ⟨hL₄, hview₄⟩ := h₄
  refine ⟨fun l hl => hL₄ (hL₃ (hL₂ (hL₁ hl))), ?_⟩
  rw [hview₄, hview₃, hview₂]
  rfl

/-- An expiry whose coupon is the order's, as the sweep read it. -/
theorem expireOne_commitsAt {env : Env} {calm : Prop} {id coupon : ℕ} {d : DB} {L : Locks Key}
    {w : Writes Row} {r : Reply} (hcoupon : ∀ o, d.orders.get? id = some o → o.couponId = coupon)
    (h : (expireOne id coupon).commitsAt (shopRely env calm) d [] [] r L w) :
    (view d w = d ∧ r = .ok) ∨ ∃ o, d.orders.get? id = some o ∧ o.status = .unpaid ∧
    r = .expired id ∧
      Owns L (.order id) ∧ view d w = d.expire id o.couponId o := by
  rw [expireOne, commitsAt_bind] at h
  obtain h | ⟨row, L₁, w₁, hupdate, h⟩ := h
  · exact absurd h (by simp [commitsAt_update (.order _)])
  cases row with
  | none =>
      obtain ⟨-, rfl, rfl⟩ := yields_updateKey_none hupdate
      obtain ⟨hr, -, rfl⟩ := commitsAt_commit.mp h
      exact Or.inl ⟨rfl, hr.symm⟩
  | some v =>
      obtain ⟨o, hget, hv, rfl, rfl⟩ := yields_updateKey_some hupdate
      split_ifs at hv with hu
      obtain rfl := Option.some.inj hv
      obtain rfl := hcoupon o hget
      have hown : Owns [(Key.order id, updateMode false)] (Key.order id) := Owns.head rfl
      simp only [commitsAt_bind, commitsAt_commit] at h
      obtain h | ⟨_, L₂, w₂, hback, rfl, rfl, rfl⟩ := h
      · refine absurd h ?_
        simp [handBack, commitsAt_bind, commitsAt_lockRow (.goods _), commitsAt_onlyIf,
          not_commitsAt_releaseCards]
      · obtain ⟨hL, hview⟩ := handBack_yields hown hget hback
        exact Or.inr ⟨o, hget, hu, rfl, hown.mono hL, hview⟩

/-! ### Checkout -/

/-- A committed checkout among others: what `Created` says of one alone, but for the order number,
which another checkout may have drawn as well, and the type of the goods, which the owner may have
changed meanwhile. -/
structure DB.CheckedOut (d d' : DB) (id : ℕ) (o : Order) (reserved : List ℕ) : Prop where
  amount : 1 ≤ o.buyAmount
  fresh : d.orders.get? id = none
  status : o.status = .unpaid
  retBack : o.couponRetBack = .held
  kept : o.deleted = false
  good : (d.goods.get? o.goodsId).isSome = true
  cards : o.type = .auto → (reserved.length : ℤ) = o.buyAmount ∧ reserved.Nodup ∧
    ∀ i ∈ reserved, ∃ c, d.carmis.get? i = some c ∧ DB.freeCard o.goodsId c = true
  noCards : o.type = .manual → reserved = []
  stock : o.type = .manual → ∀ g, d.goods.get? o.goodsId = some g → o.buyAmount ≤ g.inStock
  coupon : (o.couponId = 0 ∧ d'.coupons = d.coupons) ∨
    ∃ c, d.coupons.get? o.couponId = some c ∧ 0 < c.ret ∧
      d'.coupons = d.coupons.modify o.couponId (fun c => { c with ret := c.ret - 1 })
  goods : d'.goods = o.type.moveStock d.goods o.goodsId (-o.buyAmount)
  carmis : d'.carmis = d.carmis.mapRows (fun i c =>
    if i ∈ reserved then { c with reservedOrderId := some id } else c)
  orders : d'.orders = d.orders.put id o
  clock : d'.clock = d.clock

structure DB.HasRoom (d : DB) (env : Env) (inp : CreateInput) (since : ℤ) : Prop where
  email : d.unpaidSince since (fun o => env.toLower o.email = env.toLower inp.email) <
    maxUnpaidPerEmail
  source : inp.source ≠ [] →
    d.unpaidSince since (fun o => o.buySource = inp.source) < maxUnpaidPerAddress

namespace Script
variable {env : Env} {calm : Prop} {d : DB} {L L' : Locks Key} {w w' : Writes Row} {r : Reply}
  {u : Unit}

/-- Under the locks of the quota the count can only have become smaller. -/
theorem unpaidSince_le {d₁ : DB} {since : ℤ} {p : Order → Bool}
    (hnew : d₁.NoneNew (fun o => p o = true) d)
    (hon : ∀ id o, d₁.orders.get? id = some o → ∃ o', d.orders.get? id = some o' ∧ o.Onward o')
    (hp : ∀ o o', o.Onward o' → p o' = p o) : d.unpaidSince since p ≤ d₁.unpaidSince since p := by
  refine Table.count_le_of_rows (fun id o' ho' hq => ?_)
  simp only [Bool.and_eq_true, decide_eq_true_eq, Bool.not_eq_true'] at hq
  obtain ⟨o, ho, hu, hdel⟩ := hnew id o' ho' ⟨hq.1.1.1, hq.1.1.2⟩ hq.2
  obtain ⟨o₂, ho₂, h⟩ := hon id o ho
  rw [ho'] at ho₂
  obtain rfl := Option.some.inj ho₂
  refine ⟨o, ho, ?_⟩
  simp only [Bool.and_eq_true, decide_eq_true_eq, Bool.not_eq_true']
  exact ⟨⟨⟨hu, hdel⟩, h.createdAt ▸ hq.1.2⟩, (hp o o' h).symm.trans hq.2⟩

theorem advisoryLocks_yields {R : Rely DB Row} {keys : List Text}
    (h : (Tx.forEach keys advisoryLock : Script Unit).yields R d L w u L' w') :
    w' = w ∧ L ⊆ L' ∧ ∀ k ∈ keys, Owns L' (.advisory k) := by
  have hJ := yields_forEach (J := fun is L₁ w₁ => w₁ = w ∧ L ⊆ L₁ ∧ ∀ k ∈ keys,
    k ∈ is ∨ Owns L₁ (.advisory k))
    ?_ h ⟨rfl, List.Subset.refl L, fun k hk => Or.inl hk⟩
  · exact ⟨hJ.1, hJ.2.1, fun k hk => (hJ.2.2 k hk).resolve_left (by simp)⟩
  · rintro k is L₁ w₁ L₂ w₂ hk ⟨rfl, hL, hown⟩
    obtain ⟨rfl, rfl⟩ := yields_advisoryLock.mp hk
    refine ⟨rfl, fun l hl => List.mem_cons_of_mem _ (hL hl), fun k' hk' => ?_⟩
    rcases hown k' hk' with hmem | hown
    · rcases List.mem_cons.mp hmem with rfl | hmem
      · exact Or.inr (Owns.head rfl)
      · exact Or.inl hmem
    · exact Or.inr (hown.cons _)

/-- The quota was checked under locks that are held to the end. -/
theorem unpaidQuota_yields {inp : CreateInput} {expireMin now : ℤ}
    (h : (unpaidQuota env inp.source inp.email expireMin now).yields (shopRely env calm)
      d L [] u L' w') :
    w' = [] ∧ L ⊆ L' ∧ Owns L' (.advisory (emailKey (env.toLower inp.email))) ∧
      (inp.source ≠ [] → Owns L' (.advisory (sourceKey inp.source))) ∧
      (calm → d.HasRoom env inp (now - effectiveMinutes expireMin * minute)) := by
  simp only [unpaidQuota, yields_bind, yields_read, yields_require] at h
  obtain ⟨_, L₁, w₁, hlocks, counts, _, _, ⟨⟨d₁, hd, rfl⟩, rfl, rfl⟩, hroom, rfl, rfl⟩ := h
  obtain ⟨rfl, hL, hown⟩ := advisoryLocks_yields hlocks
  rw [quotaKeys_eq] at hown
  have hemail : Owns L₁ (.advisory (emailKey (env.toLower inp.email))) := hown _ (by simp)
  have hsource : inp.source ≠ [] → Owns L₁ (.advisory (sourceKey inp.source)) :=
    fun hs => hown _ (by simp [hs])
  refine ⟨rfl, hL, hemail, hsource, fun hcalm => ?_⟩
  simp only [Bool.not_eq_true', Bool.or_eq_false_iff, Bool.and_eq_false_iff,
    decide_eq_false_iff_not, not_not, not_le, ge_iff_le] at hroom
  constructor
  · refine lt_of_le_of_lt (unpaidSince_le (fun i o ho hw hq => ?_) hd.rely.orders ?_) hroom.2
    · exact hd.rely.email hcalm _ hemail i o ho hw (by simpa using hq)
    · intro o o' ho
      rw [ho.email]
  · intro hs
    refine lt_of_le_of_lt (unpaidSince_le (fun i o ho hw hq => ?_) hd.rely.orders ?_)
      (hroom.1.resolve_left hs)
    · exact hd.rely.source hcalm _ hs (hsource hs) i o ho hw (by simpa using hq)
    · intro o o' ho
      rw [ho.buySource]

theorem lockRow_yields {R : Rely DB Row} {k : Key} {m : LockMode} {p : Row k → Bool}
    {o : Option (Row k)} (h : (lockRow k m p).yields R d L w o L' w') :
    L ⊆ L' ∧ w' = w := by
  rcases Tx.yields_lockRow.mp h with ⟨_, _, -, -, -, -, rfl, rfl⟩ | ⟨-, -, rfl, rfl⟩
  · exact ⟨List.subset_cons_self _ _, rfl⟩
  · exact ⟨List.Subset.refl _, rfl⟩

theorem reserveStock_yields {R : Rely DB Row} {gid : ℕ} {type : GoodsType} {amount : ℤ}
    {reserved : List ℕ} (h : (reserveStock gid type amount).yields R d L w reserved L' w') :
    L ⊆ L' ∧ reserved.Nodup ∧ (∀ i ∈ reserved, Owns L' (.carmi i)) ∧
      (type = .auto → (reserved.length : ℤ) = amount ∧
        ∀ i ∈ reserved, ∃ c, (view d w).carmis.get? i = some c ∧ DB.freeCard gid c = true) ∧
      (type = .manual → reserved = [] ∧ ∃ g, (view d w).goods.get? gid = some g ∧
        amount ≤ g.inStock) ∧
      view d w' = { view d w with goods := type.moveStock (view d w).goods gid (-amount) } := by
  cases type with
  | auto =>
      simp only [reserveStock, yields_bind, yields_require, yields_pure] at h
      obtain ⟨picked, L₁, w₁, hpick, _, _, _, ⟨hlen, rfl, rfl⟩, rfl, rfl, rfl⟩ := h
      obtain ⟨⟨d₁, skip, hd, hpicked⟩, rfl, rfl⟩ := Tx.yields_skipLocked.mp hpick
      refine ⟨List.subset_append_right _ _, ?_, fun i hi => owns_scanned hi,
        fun _ => ⟨by simpa using hlen, fun i hi => ?_⟩, fun hm => (by cases hm), rfl⟩
      · rw [← hpicked]
        exact ((view d₁ w₁).carmis.select_keys_nodup _).sublist (List.take_sublist _ _)
      · have hrow : (view d₁ w₁).carmis.get? i = (view d w₁).carmis.get? i :=
          hd.view_row (owns_scanned hi) w₁
        rw [← hpicked] at hi
        obtain ⟨c, hc, hp⟩ := Table.mem_select_keys.mp (List.mem_of_mem_take hi)
        exact ⟨c, hrow.symm.trans hc, (Bool.and_eq_true_iff.mp hp).1⟩
  | manual =>
      simp only [reserveStock, yields_bind, yields_require, yields_pure] at h
      obtain ⟨row, L₁, w₁, hup, _, _, _, ⟨hsome, rfl, rfl⟩, rfl, rfl, rfl⟩ := h
      obtain ⟨v, rfl⟩ := Option.isSome_iff_exists.mp hsome
      obtain ⟨g, hget, hv, rfl, rfl⟩ := yields_updateKey_some hup
      split_ifs at hv with hle
      obtain rfl := Option.some.inj hv
      refine ⟨List.subset_cons_self _ _, List.nodup_nil, fun i hi => (by cases hi),
        fun ha => (by cases ha), fun _ => ⟨rfl, g, hget, hle⟩, ?_⟩
      rw [GoodsType.moveStock, ← Table.put_eq_modify hget]
      rfl

theorem not_commitsAt_reserveStock {R : Rely DB Row} {gid : ℕ} {type : GoodsType} {amount : ℤ} :
    ¬ (reserveStock gid type amount).commitsAt R d L w r L' w' := by
  cases type <;> simp [reserveStock, commitsAt_bind, commitsAt_update (.goods _)]

theorem useCoupon_yields {R : Rely DB Row} {code : Text} {gid : ℕ} {used : ℕ × Text}
    (h : (useCoupon code gid).yields R d L w used L' w') :
    L ⊆ L' ∧ ∃ coupons, view d w' = { view d w with coupons := coupons } ∧
      ((used.1 = 0 ∧ coupons = (view d w).coupons) ∨
        ∃ c, (view d w).coupons.get? used.1 = some c ∧ 0 < c.ret ∧
          coupons = (view d w).coupons.modify used.1 (fun c => { c with ret := c.ret - 1 })) := by
  unfold useCoupon at h
  split_ifs at h with hb
  · obtain ⟨rfl, rfl, rfl⟩ := yields_pure.mp h
    exact ⟨List.Subset.refl _, _, rfl, Or.inl ⟨rfl, rfl⟩⟩
  · simp only [yields_bind, yields_read, yields_orElse, yields_require, yields_pure] at h
    obtain ⟨_, _, _, ⟨-, rfl, rfl⟩, found, _, _, ⟨-, rfl, rfl⟩, _, L₁, w₁, hlock, c, _, _,
      ⟨rfl, rfl, rfl⟩, row, L₂, w₂, hup, _, _, _, ⟨href, rfl, rfl⟩, rfl, rfl, rfl⟩ := h
    obtain ⟨hc, -, rfl, rfl⟩ := Tx.yields_lockRow_some rfl hlock
    cases row with
    | none =>
        -- an update of no row is refused by `TakeCoupon`
        simp only [Option.isSome_none, Bool.false_eq_true, if_false, takeCouponError, ne_eq,
          zero_ne_one, not_false_eq_true, or_true, if_true, decide_eq_true_eq] at href
        split_ifs at href
    | some v =>
        obtain ⟨c', hc', hv, rfl, rfl⟩ := yields_updateKey_some hup
        obtain rfl := Option.some.inj (hc.symm.trans hc')
        split_ifs at hv with hok
        obtain rfl := Option.some.inj hv
        refine ⟨fun l hl => List.mem_cons_of_mem _ (List.mem_cons_of_mem _ hl), _, rfl,
          Or.inr ⟨c, hc, hok.1, ?_⟩⟩
        exact Table.put_eq_modify hc (fun c => { c with ret := c.ret - 1 })

theorem not_commitsAt_useCoupon {R : Rely DB Row} {code : Text} {gid : ℕ} :
    ¬ (useCoupon code gid).commitsAt R d L w r L' w' := by
  unfold useCoupon
  split_ifs <;> simp [commitsAt_bind, commitsAt_lockRow (.coupon _), commitsAt_update (.coupon _)]

/-- A goods row that a foreign-key check met is there at the commit. -/
theorem goods_of_past {d₁ : DB} {gid : ℕ} (hd : (shopRely env calm).Past L d₁ d)
    (h : ((view d₁ w).goods.get? gid).isSome = true) :
    ((view d w).goods.get? gid).isSome = true := by
  rw [← DB.get_goods] at h ⊢
  by_cases hm : ∃ x ∈ w, x.1 = Key.goods gid
  · have he : RowStore.get (view d w) (Key.goods gid) = RowStore.get (view d₁ w) (Key.goods gid) :=
      get_view_of_mem hm
    rw [he]
    exact h
  · push Not at hm
    rw [get_view_of_notMem hm, DB.get_goods] at h ⊢
    exact hd.rely.goods gid h

theorem insertOrder_yields {o : Order} {reserved : List ℕ} {id : ℕ} (hnd : reserved.Nodup)
    (hown : ∀ i ∈ reserved, Owns L (.carmi i))
    (h : (insertOrder o reserved).yields (shopRely env calm) d L w id L' w') :
    L ⊆ L' ∧ Owns L' (.order id) ∧ (view d w).orders.get? id = none ∧
      ((view d w).goods.get? o.goodsId).isSome = true ∧
      view d w' = { view d w with
        orders := (view d w).orders.put id o
        carmis := (view d w).carmis.mapRows (fun i c =>
          if i ∈ reserved then { c with reservedOrderId := some id } else c) } := by
  simp only [insertOrder, yields_bind, yields_read, yields_require, Tx.yields_insert,
    yields_pure] at h
  obtain ⟨_, _, _, ⟨-, rfl, rfl⟩, _, _, _, ⟨-, rfl, rfl⟩, n, _, _, ⟨hfresh, rfl, rfl⟩, _, L₁, w₁,
    hfk, _, L₂, w₂, hloop, rfl, rfl, rfl⟩ := h
  obtain ⟨⟨d₁, hd, hgood⟩, rfl, rfl⟩ := yields_foreignKey hfk
  have hsub : L ⊆ (Key.goods o.goodsId, LockMode.keyShare) :: (Key.order n, LockMode.update) :: L :=
    fun l hl => List.mem_cons_of_mem _ (List.mem_cons_of_mem _ hl)
  have hcards : ∀ i ∈ reserved, Owns ((Key.goods o.goodsId, LockMode.keyShare) ::
      (Key.order n, LockMode.update) :: L) (Key.carmi i) := fun i hi => (hown i hi).mono hsub
  obtain ⟨hL₂, hview⟩ := yields_changeAll (f := fun c => { c with reservedOrderId := some n })
    hcards hloop
  refine ⟨fun l hl => hL₂ (hsub hl), ((Owns.head rfl).cons _).mono hL₂, hfresh,
    goods_of_past hd hgood, ?_⟩
  rw [hview, DB.foldl_changeRow_carmi _ _ hnd]
  rfl

theorem not_commitsAt_insertOrder {R : Rely DB Row} {o : Order} {reserved : List ℕ} :
    ¬ (insertOrder o reserved).commitsAt R d L w r L' w' := by
  simp only [insertOrder, commitsAt_bind, commitsAt_read, commitsAt_require, Tx.commitsAt_insert,
    commitsAt_foreignKey, commitsAt_pure, false_or]
  rintro ⟨_, _, _, -, _, _, _, -, _, _, _, -, _, _, _, -, h | ⟨_, _, _, -, h⟩⟩
  · exact not_commitsAt_forEach (fun _ _ _ _ _ _ => by simp) _ h
  · exact h

theorem not_commitsAt_unpaidQuota {R : Rely DB Row} {source email : Text} {expireMin now : ℤ} :
    ¬ (unpaidQuota env source email expireMin now).commitsAt R d L w r L' w' := by
  simp only [unpaidQuota, commitsAt_bind, commitsAt_read, commitsAt_require, false_or]
  rintro (h | ⟨_, _, _, -, _, _, _, -, h⟩)
  · exact not_commitsAt_forEach (fun _ _ _ _ _ _ => by simp) _ h
  · exact h

end Script

theorem GoodsType.isSome_moveStock {type : GoodsType} {goods : Table Good} {gid i : ℕ} {delta : ℤ} :
    ((type.moveStock goods gid delta).get? i).isSome = true ↔ (goods.get? i).isSome = true := by
  cases type with
  | auto => rfl
  | manual =>
      rw [GoodsType.moveStock, Table.get?_modify]
      split_ifs with h
      · rw [Option.isSome_map, h]
      · exact Iff.rfl

/-- What a committed checkout did among others, and the locks of its quota. -/
theorem createOrder_commitsAt {env : Env} {calm : Prop} {sn : Text} {inp : CreateInput}
    {site : Site} {now : ℤ} {d : DB} {L : Locks Key} {w : Writes Row} {r : Reply}
    (h : (createOrder env sn inp site now).commitsAt (shopRely env calm) d [] [] r L w) :
    ∃ g couponId q info id reserved made, r = .created id made ∧
      d.CheckedOut (view d w) id (newOrder sn inp g couponId q info now) reserved ∧
      Owns L (.order id) ∧ Owns L (.advisory (emailKey (env.toLower inp.email))) ∧
      (inp.source ≠ [] → Owns L (.advisory (sourceKey inp.source))) ∧
      (calm → d.HasRoom env inp (now - effectiveMinutes site.expireMin * minute)) := by
  simp only [createOrder, commitsAt_bind, commitsAt_require, commitsAt_read, commitsAt_orElse,
    commitsAt_orRefuse, commitsAt_lockRow (.goods _), not_commitsAt_unpaidQuota,
    not_commitsAt_reserveStock, not_commitsAt_useCoupon, not_commitsAt_insertOrder,
    commitsAt_commit,
    false_or, yields_require, yields_read, yields_orElse, yields_orRefuse, and_assoc,
    exists_and_left, exists_eq_left', exists_const, decide_eq_true_eq] at h
  obtain ⟨href, -, -, g, -, -, -, -, -, -, -, -, -, _, L₁, w₁, hquota, _, L₂, w₂, hlock, reserved,
    L₃, w₃,
    hstock, used, L₄, w₄, hcoupon, info, -, q, -, -, -, id, L₅, w₅, hinsert, -, _, -, made, -, rfl,
    rfl,
    rfl⟩ := h
  obtain ⟨rfl, -, hemail, hsource, hroom⟩ := unpaidQuota_yields hquota
  obtain ⟨hL₂, rfl⟩ := lockRow_yields hlock
  obtain ⟨hL₃, hnd, hcards, hauto, hmanual, hview₃⟩ := reserveStock_yields hstock
  obtain ⟨hL₄, coupons, hview₄, hused⟩ := useCoupon_yields hcoupon
  obtain ⟨hL₅, hid, hfresh, hgood, hview₅⟩ :=
    insertOrder_yields hnd (fun i hi => (hcards i hi).mono hL₄) hinsert
  rw [view_nil] at hview₃ hauto hmanual
  rw [hview₃] at hview₄ hused
  rw [hview₄] at hfresh hgood hview₅
  have hL : L₁ ⊆ L₅ := fun l hl => hL₅ (hL₄ (hL₃ (hL₂ hl)))
  have hamount : 1 ≤ inp.amount := by
    unfold createRefusal at href
    split_ifs at href
    omega
  refine ⟨g, used.1, q, info, id, reserved, made.2, rfl, ?_, hid, hemail.mono hL,
    fun hs => (hsource hs).mono hL, hroom⟩
  rw [hview₅]
  exact
    { amount := hamount
      fresh := hfresh
      status := rfl
      retBack := rfl
      kept := rfl
      good := GoodsType.isSome_moveStock.mp hgood
      cards := fun ht => ⟨(hauto ht).1, hnd, (hauto ht).2⟩
      noCards := fun ht => (hmanual ht).1
      stock := fun ht g₁ hg₁ => (by
        obtain ⟨-, g₂, hg₂, hle⟩ := hmanual ht
        obtain rfl := Option.some.inj (hg₁.symm.trans hg₂)
        exact hle)
      coupon := hused
      goods := rfl
      carmis := rfl
      orders := rfl
      clock := rfl }

end Dufaka
