import Dufaka.ShopCommits
import Dufaka.Reservations

/-!
# Cards under concurrency

However the statements of checkouts, settlements, expiries and the owner's requests interleave, a
card has one holder at a time, which only its own delivery, expiry or the owner's form makes give it
up; a settlement hands over cards that are free or its own; and a card that was sold is never
touched again.
-/

namespace Dufaka
open Relational Tx

section Steps
variable {env : Env} {calm : Prop} {now : ℤ} {tag : ShopTx} {r : Reply} {d d' : DB} {L : Locks Key}

/-- What a commit hands over. -/
theorem ShopStep.handed (h : ShopStep env calm now L d tag r d') : r.handed.Nodup ∧ ∀ i ∈ r.handed,
    ∃ id cards c, r = .delivered id cards ∧ d.carmis.get? i = some c ∧ c.status = .unsold ∧
      c.deleted = false ∧ (c.reservedOrderId = some id ∨ c.reservedOrderId = none) ∧
      d'.carmis.get? i = some c.delivered := by
  have hnone : r.handed = [] → r.handed.Nodup ∧ ∀ i ∈ r.handed,
      ∃ id cards c, r = .delivered id cards ∧ d.carmis.get? i = some c ∧ c.status = .unsold ∧
        c.deleted = false ∧ (c.reservedOrderId = some id ∨ c.reservedOrderId = none) ∧
        d'.carmis.get? i = some c.delivered := by
    intro he
    rw [he]
    exact ⟨List.nodup_nil, fun i hi => (by cases hi)⟩
  cases h with
  | same hr => exact hnone hr
  | quoted _ _ _ hr => exact hnone hr
  | created | expired | saved | goodsSaved | couponSaved | carmiSaved | imported | flipped =>
      exact hnone rfl
  | @settled paid tradeNo redeliver id o r d' ho hown hback hpaid hs =>
      generalize ht : d'.carmis = t
      have hcards := hs.cards
      rw [ht] at hcards hnone
      cases hcards with
      | none hr => exact hnone hr
      | @given cards hnd hcards =>
          refine ⟨hnd, fun i hi => ?_⟩
          obtain ⟨c, hc, hdel⟩ := hcards i hi
          simp only [DB.deliverable, Bool.and_eq_true, Bool.or_eq_true, decide_eq_true_eq,
            Bool.not_eq_true'] at hdel
          refine ⟨id, cards, c, rfl, hc, hdel.1.1.2, hdel.1.2, hdel.2, ?_⟩
          have hi : i ∈ cards := hi
          rw [DB.handOver_eq, Table.get?_mapRows, hc, Option.map_some, DB.handOverRow, if_pos hi]

/-- A sold card is out of every transaction's reach. -/
theorem ShopStep.sold (h : ShopStep env calm now L d tag r d') {i : ℕ} {c : Carmi}
    (hc : d.carmis.get? i = some c) (hs : c.status = .sold) (hfree : c.reservedOrderId = none) :
    d'.carmis.get? i = some c ∧ i ∉ r.handed := by
  constructor
  · obtain ⟨c', hc', hm⟩ := h.card hc
    cases hm with
    | same => exact hc'
    | reserved _ _ hu | delivered _ hu | edited _ hu =>
        rw [hs] at hu
        cases hu
    | released hid =>
        rw [hfree] at hid
        cases hid
  · intro hi
    obtain ⟨id, cards, c', -, hc', hu, -⟩ := h.handed.2 i hi
    obtain rfl := Option.some.inj (hc.symm.trans hc')
    rw [hs] at hu
    cases hu

/-! ### Who may hold cards -/

/-- An order that may hold cards: it waits for its payment, or was paid and is short. -/
def Order.holds (o : Order) : Prop := o.status = .unpaid ∨ o.status = .abnormal

/-- Every reserved card can be sold and belongs to an order of its goods that may hold it, and an
unpaid order of automatic goods has all the cards it bought. -/
structure DB.Promised (d : DB) : Prop where
  holder : ∀ i c id, d.carmis.get? i = some c → c.reservedOrderId = some id →
    c.status = .unsold ∧ c.deleted = false ∧ ∃ o, d.orders.get? id = some o ∧ o.type = .auto ∧
      o.holds ∧ o.goodsId = c.goodsId
  exact : ∀ id o, d.orders.get? id = some o → o.type = .auto → o.status = .unpaid →
    d.reservedFor id = o.buyAmount

def SameReservations (d d' : DB) (id : ℕ) : Prop :=
  ∀ i c, c.reservedOrderId = some id → (d.carmis.get? i = some c ↔ d'.carmis.get? i = some c)

structure DB.Holds (d d' : DB) (id : ℕ) : Prop where
  cards : SameReservations d d' id
  order : ∀ o, d.orders.get? id = some o → o.type = .auto → o.holds →
    ∃ o', d'.orders.get? id = some o' ∧ o'.holds

structure DB.LetsGo (d' : DB) (id : ℕ) : Prop where
  cards : ∀ i c, d'.carmis.get? i = some c → c.reservedOrderId ≠ some id
  order : ∀ o', d'.orders.get? id = some o' → o'.status ≠ .unpaid

theorem DB.Promised.of_each (h : d.Promised)
    (hon : ∀ id o', d'.orders.get? id = some o' → ∃ o, d.orders.get? id = some o ∧ o.Onward o')
    (heach : ∀ id, d.Holds d' id ∨ d'.LetsGo id) : d'.Promised where
  holder i c id hc hr := by
    rcases heach id with hk | hg
    · obtain ⟨hs, hd, o, ho, ht, hh, hgid⟩ := h.holder i c id ((hk.cards i c hr).mpr hc) hr
      obtain ⟨o', ho', hh'⟩ := hk.order o ho ht hh
      obtain ⟨o₁, ho₁, hon⟩ := hon id o' ho'
      obtain rfl := Option.some.inj (ho₁.symm.trans ho)
      exact ⟨hs, hd, o', ho', hon.fixed.type.trans ht, hh', hon.fixed.goodsId.trans hgid⟩
    · exact absurd hr (hg.cards i c hc)
  exact id o' ho' ht hu := by
    rcases heach id with hk | hg
    · obtain ⟨o, ho, hon⟩ := hon id o' ho'
      rw [hon.fixed.buyAmount, ← h.exact id o ho (hon.fixed.type.symm.trans ht) (hon.unpaid hu)]
      refine Table.count_eq_of_rows (fun i => ?_)
      simp only [decide_eq_true_eq]
      constructor
      · rintro ⟨c, hc, hr⟩
        exact ⟨c, (hk.cards i c hr).mpr hc, hr⟩
      · rintro ⟨c, hc, hr⟩
        exact ⟨c, (hk.cards i c hr).mp hc, hr⟩
    · exact absurd hu (hg.order o' ho')

/-- A bulk change that only touches the cards of one order, and free ones. -/
theorem sameReservations_of_mapRows {g : ℕ → Carmi → Carmi} {id id' : ℕ}
    (hcarmis : d'.carmis = d.carmis.mapRows g) (hne : id' ≠ id)
    (hg : ∀ i c, d.carmis.get? i = some c → g i c = c ∨
      ((c.reservedOrderId = some id ∨ c.reservedOrderId = none) ∧
        ((g i c).reservedOrderId = some id ∨ (g i c).reservedOrderId = none))) :
    SameReservations d d' id' := by
  intro i c hr
  have hmine : ∀ {x : Carmi}, x.reservedOrderId = some id ∨ x.reservedOrderId = none → x ≠ c := by
    rintro x hx rfl
    rw [hr] at hx
    rcases hx with hx | hx
    · exact hne (Option.some.inj hx)
    · cases hx
  rw [hcarmis, Table.get?_mapRows]
  constructor
  · intro hc
    rw [hc, Option.map_some]
    rcases hg i c hc with he | ⟨hx, -⟩
    · rw [he]
    · exact absurd rfl (hmine hx)
  · intro hc
    obtain ⟨c₀, hc₀, he⟩ := Option.map_eq_some_iff.mp hc
    rcases hg i c₀ hc₀ with hg | ⟨-, hx⟩
    · rw [← he, hg, hc₀]
    · exact absurd he (hmine hx)

/-- An order of which one row was written. -/
theorem holds_of_put {id j : ℕ} {o o' : Order} (hcards : SameReservations d d' j)
    (ho : d.orders.get? id = some o) (he : d'.orders = d.orders.put id o')
    (hh : o.type = .auto → o.holds → o'.holds) : d.Holds d' j where
  cards := hcards
  order o₁ ho₁ ht hold := by
    rw [he, Table.get?_put]
    split_ifs with hj
    · subst hj
      obtain rfl := Option.some.inj (ho.symm.trans ho₁)
      exact ⟨o', rfl, hh ht hold⟩
    · exact ⟨o₁, ho₁, hold⟩

theorem old_of_put {t : Table Order} {id : ℕ} {o o' : Order} (ho : t.get? id = some o)
    (hon : o.Onward o') (i : ℕ) (o₂ : Order) (ho₂ : (t.put id o').get? i = some o₂) :
    ∃ o₁, t.get? i = some o₁ ∧ o₁.Onward o₂ := by
  rcases Table.get?_put_some ho₂ with ⟨rfl, rfl⟩ | ⟨-, ho₂⟩
  · exact ⟨o, ho, hon⟩
  · exact ⟨o₂, ho₂, .refl o₂⟩

theorem DB.Promised.of_cards (h : d.Promised) (he : d'.orders = d.orders)
    (hcards : ∀ id, SameReservations d d' id) : d'.Promised := by
  refine h.of_each (fun id o' ho' => ⟨o', he ▸ ho', .refl o'⟩) (fun id => Or.inl ⟨hcards id, ?_⟩)
  intro o ho _ hh
  exact ⟨o, he ▸ ho, hh⟩

/-- A change of one order row that stays as it stands with its cards. -/
theorem DB.Promised.of_put (h : d.Promised) {id : ℕ} {o o' : Order} (ho : d.orders.get? id = some o)
    (hon : o.Onward o') (he : d'.orders = d.orders.put id o') (hc : d'.carmis = d.carmis)
    (hh : o.type = .auto → o.holds → o'.holds) : d'.Promised := by
  refine h.of_each (fun i o₂ ho₂ => old_of_put ho hon i o₂ (he ▸ ho₂)) (fun j => Or.inl ?_)
  exact holds_of_put (fun i c _ => by rw [hc]) ho he hh

/-- One order lets its cards go, and the others hold theirs. -/
theorem DB.Promised.of_release (h : d.Promised) {id : ℕ} {o o' : Order} {g : ℕ → Carmi → Carmi}
    (ho : d.orders.get? id = some o) (hon : o.Onward o') (he : d'.orders = d.orders.put id o')
    (hc : d'.carmis = d.carmis.mapRows g) (hne : o'.status ≠ .unpaid)
    (hg : ∀ i c, d.carmis.get? i = some c → g i c = c ∧ c.reservedOrderId ≠ some id ∨
      ((c.reservedOrderId = some id ∨ c.reservedOrderId = none) ∧ (g i c).reservedOrderId = none)) :
    d'.Promised := by
  refine h.of_each (fun i o₂ ho₂ => old_of_put ho hon i o₂ (he ▸ ho₂)) (fun j => ?_)
  by_cases hj : j = id
  · subst hj
    refine Or.inr ⟨fun i c hc' => ?_, fun o₂ ho₂ => ?_⟩
    · rw [hc, Table.get?_mapRows] at hc'
      obtain ⟨c₀, hc₀, rfl⟩ := Option.map_eq_some_iff.mp hc'
      rcases hg i c₀ hc₀ with ⟨hsame, hfree⟩ | ⟨-, hfree⟩
      · rw [hsame]
        exact hfree
      · rw [hfree]
        exact fun he => (by cases he)
    · rw [he, Table.get?_put_self] at ho₂
      obtain rfl := Option.some.inj ho₂
      exact hne
  · refine Or.inl ⟨sameReservations_of_mapRows hc hj (fun i c hi => ?_), fun o₁ ho₁ _ hh => ?_⟩
    · rcases hg i c hi with ⟨hsame, -⟩ | ⟨hmine, hfree⟩
      · exact Or.inl hsame
      · exact Or.inr ⟨hmine, Or.inr hfree⟩
    · exact ⟨o₁, by rw [he, Table.get?_put_of_ne _ _ hj, ho₁], hh⟩

/-- A delivery takes every card of the order away from it. -/
theorem DB.Promised.handOverRow (h : d.Promised) {id : ℕ} {o : Order}
    (ho : d.orders.get? id = some o) {cards : List ℕ}
    (hdel : ∀ i ∈ cards, ∃ c, d.carmis.get? i = some c ∧
      DB.deliverable id o.goodsId c = true) (i : ℕ) (c : Carmi) (hc : d.carmis.get? i = some c) :
    DB.handOverRow id o.goodsId cards i c = c ∧ c.reservedOrderId ≠ some id ∨
      ((c.reservedOrderId = some id ∨ c.reservedOrderId = none) ∧
        (DB.handOverRow id o.goodsId cards i c).reservedOrderId = none) := by
  unfold DB.handOverRow
  split_ifs with hi hmine
  · obtain ⟨c', hc', hdel⟩ := hdel i hi
    obtain rfl := Option.some.inj (hc.symm.trans hc')
    simp only [DB.deliverable, Bool.and_eq_true, Bool.or_eq_true, decide_eq_true_eq] at hdel
    exact Or.inr ⟨hdel.2, Carmi.delivered_reservedOrderId c⟩
  · simp only [Bool.and_eq_true, decide_eq_true_eq] at hmine
    exact Or.inr ⟨Or.inl hmine.1.1, rfl⟩
  · -- a card of the order is unsold and of its goods, and passes the test
    refine Or.inl ⟨rfl, fun hr => hmine ?_⟩
    obtain ⟨hs, -, o₁, ho₁, -, -, hgid⟩ := h.holder i c id hc hr
    obtain rfl := Option.some.inj (ho.symm.trans ho₁)
    simp [hr, hs, hgid]

theorem SettledAmong.promised {id : ℕ} {o : Order} {trade : Text} {redeliver : Bool}
    (hs : SettledAmong d id o trade redeliver r d') (h : d.Promised)
    (ho : d.orders.get? id = some o) :
    d'.Promised := by
  obtain ⟨⟨seen, left, hs⟩, hcards⟩ := hs
  generalize hd : ({ d' with carmis := left } : DB) = d₂ at hs
  have hd' : d'.orders = d₂.orders := by rw [← hd]
  generalize ht : d'.carmis = t at hcards
  cases hs with
  | already =>
      cases hcards with
      | none => exact h.of_cards hd' (fun id i c _ => by rw [ht])
  | @short coupons back hp hr hback hcards' hstock =>
      have hput : d'.orders = d.orders.put id (o.short trade back) :=
        hd'.trans (Table.put_eq_modify ho (fun o => o.short trade back)).symm
      cases hcards with
      | none => exact h.of_put ho (Order.onward_short hstock) hput ht (fun _ _ => Or.inr rfl)
  | @cards coupons back cards hp hback hauto hcards' hlen =>
      let info := DB.cardTexts { d with carmis := seen } cards
      have hput : d'.orders = d.orders.put id (o.deliver info trade back) :=
        hd'.trans (Table.put_eq_modify ho (fun o => o.deliver info trade back)).symm
      cases hcards with
      | none _ hm =>
          have hm := hm cards rfl
          rw [hauto] at hm
          cases hm
      | given hnd hdel =>
          exact h.of_release ho (Order.onward_deliver hauto) hput (ht.trans (d.handOver_eq _ _ _))
            (fun he => by cases he) (h.handOverRow ho hdel)
  | @manual coupons back hu hback hmanual hstock =>
      have hput : d'.orders = d.orders.put id (o.handToOwner trade back) :=
        hd'.trans (Table.put_eq_modify ho (fun o => o.handToOwner trade back)).symm
      have hon : o.Onward (o.handToOwner trade back) :=
        Order.onward_of_waiting hu ⟨rfl, rfl, rfl, rfl, rfl, rfl, rfl, rfl, rfl, rfl⟩ ⟨rfl, rfl,
          rfl⟩
          (fun he => by cases he)
      cases hcards with
      | none => exact h.of_put ho hon hput ht (fun ha => by rw [hmanual] at ha; cases ha)
      | given hnd hdel =>
          exact h.of_release ho hon hput (ht.trans (d.handOver_eq _ _ _)) (fun he => by cases he)
            (h.handOverRow ho hdel)

/-- A checkout promises free cards to its new order. -/
theorem DB.CheckedOut.promised {id : ℕ} {o : Order} {reserved : List ℕ}
    (hc : d.CheckedOut d' id o reserved) (h : d.Promised) :
    d'.Promised := by
  have hnone : ∀ i c, d.carmis.get? i = some c → c.reservedOrderId ≠ some id := by
    intro i c hi hr
    obtain ⟨-, -, o₁, ho₁, -⟩ := h.holder i c id hi hr
    rw [hc.fresh] at ho₁
    cases ho₁
  have hfree : ∀ i ∈ reserved, ∃ c, d.carmis.get? i = some c ∧ DB.freeCard o.goodsId c = true ∧
      o.type = .auto := by
    intro i hi
    cases ht : o.type with
    | auto =>
        obtain ⟨c, hget, hfree⟩ := (hc.cards ht).2.2 i hi
        exact ⟨c, hget, hfree, rfl⟩
    | manual =>
        rw [hc.noCards ht] at hi
        cases hi
  -- a card of the new database is newly reserved, or as it was
  have hget : ∀ i c, d'.carmis.get? i = some c → (i ∈ reserved ∧ c.reservedOrderId = some id) ∨
      (i ∉ reserved ∧ d.carmis.get? i = some c) := by
    intro i c hi
    rw [hc.carmis, Table.get?_mapRows] at hi
    obtain ⟨c₀, hc₀, rfl⟩ := Option.map_eq_some_iff.mp hi
    split_ifs with hmem
    · exact Or.inl ⟨hmem, rfl⟩
    · exact Or.inr ⟨hmem, hc₀⟩
  have hold : ∀ {j : ℕ}, j ≠ id → SameReservations d d' j := fun hj =>
    sameReservations_of_mapRows hc.carmis hj (fun i c hi => by
      split_ifs with hmem
      · obtain ⟨c', hc', hf, -⟩ := hfree i hmem
        obtain rfl := Option.some.inj (hi.symm.trans hc')
        simp only [DB.freeCard, Bool.and_eq_true, decide_eq_true_eq] at hf
        exact Or.inr ⟨Or.inr hf.1.2, Or.inl rfl⟩
      · exact Or.inl rfl)
  have horders : ∀ {j : ℕ}, j ≠ id → d'.orders.get? j = d.orders.get? j := fun hj => by
    rw [hc.orders, Table.get?_put_of_ne _ _ hj]
  have hself : d'.orders.get? id = some o := by rw [hc.orders, Table.get?_put_self]
  constructor
  · intro i c j hi hr
    rcases hget i c hi with ⟨hmem, hid⟩ | ⟨-, hi₀⟩
    · rw [hid] at hr
      obtain rfl := Option.some.inj hr
      obtain ⟨c₀, hc₀, hf, ht⟩ := hfree i hmem
      rw [hc.carmis, Table.get?_mapRows, hc₀, Option.map_some, if_pos hmem] at hi
      obtain rfl := Option.some.inj hi
      simp only [DB.freeCard, Bool.and_eq_true, decide_eq_true_eq, Bool.not_eq_true'] at hf
      exact ⟨hf.1.1.2, hf.2, o, hself, ht, Or.inl hc.status, hf.1.1.1.symm⟩
    · obtain ⟨hs, hd, o₁, ho₁, hrest⟩ := h.holder i c j hi₀ hr
      have hj : j ≠ id := fun he => hnone i c hi₀ (he ▸ hr)
      exact ⟨hs, hd, o₁, (horders hj).trans ho₁, hrest⟩
  · intro j o₁ ho₁ ht hu
    by_cases hj : j = id
    · subst hj
      obtain rfl := Option.some.inj (ho₁.symm.trans hself)
      obtain ⟨hlen, hnd, -⟩ := hc.cards ht
      rw [← hlen]
      refine Table.count_keys hnd (fun i => ?_)
      simp only [decide_eq_true_eq]
      constructor
      · rintro ⟨c, hi, hr⟩
        rcases hget i c hi with ⟨hmem, -⟩ | ⟨-, hi₀⟩
        · exact hmem
        · exact absurd hr (hnone i c hi₀)
      · intro hmem
        obtain ⟨c₀, hc₀, -⟩ := hfree i hmem
        refine ⟨{ c₀ with reservedOrderId := some j }, ?_, rfl⟩
        rw [hc.carmis, Table.get?_mapRows, hc₀, Option.map_some, if_pos hmem]
    · rw [← h.exact j o₁ ((horders hj).symm.trans ho₁) ht hu]
      refine Table.count_eq_of_rows (fun i => ?_)
      simp only [decide_eq_true_eq]
      constructor
      · rintro ⟨c, hi, hr⟩
        exact ⟨c, (hold hj i c hr).mpr hi, hr⟩
      · rintro ⟨c, hi, hr⟩
        exact ⟨c, (hold hj i c hr).mp hi, hr⟩

theorem ShopStep.promised (h : ShopStep env calm now L d tag r d') (hp : d.Promised) :
    d'.Promised := by
  have hfree : ∀ {i : ℕ} {c c' : Carmi}, d.carmis.get? i = some c → c.reservedOrderId = none →
      c'.reservedOrderId = none → DB.Promised { d with carmis := d.carmis.put i c' } :=
    fun hc hf hf' => hp.of_cards rfl (fun id j a hr => (get?_put_free hc hf hf' hr).symm)
  cases h with
  | same => exact hp
  | created hc => exact hc.promised hp
  | settled ho hown hback hpaid hs => exact hs.promised hp ho
  | @expired minutes n id o ho hu hown =>
      have hon : o.Onward o.expire :=
        Order.onward_of_waiting (Or.inl hu) ⟨rfl, rfl, rfl, rfl, rfl, rfl, rfl, rfl, rfl, rfl⟩
          ⟨rfl, rfl, rfl⟩ (fun he => by cases he)
      have hcarmis : (d.expire id o.couponId o).carmis = d.carmis.mapRows (fun _ c =>
        if c.reservedOrderId = some id && c.goodsId = o.goodsId then c.released else c) := rfl
      refine hp.of_release ho hon (Table.put_eq_modify ho Order.expire).symm hcarmis
        (fun he => by cases he) (fun i c hc => ?_)
      by_cases hr : c.reservedOrderId = some id
      · obtain ⟨-, -, o₁, ho₁, -, -, hgid⟩ := hp.holder i c id hc hr
        obtain rfl := Option.some.inj (ho.symm.trans ho₁)
        simp [hr, hgid, Carmi.released]
      · simp [hr]
  | @saved id f o trade dst ho hdst hstatus hown htake =>
      have hon : o.Onward (o.saved o f.title.trimSpace f.info f.searchPwd.trimSpace dst) :=
        Order.onward_saved hstatus
      have hput := (Table.put_eq_modify ho (fun o' : Order =>
        o'.saved o f.title.trimSpace f.info f.searchPwd.trimSpace dst)).symm
      by_cases hrel : releasesReservations o.type o.status dst = true
      · refine hp.of_release ho hon hput ((DB.saveOrder_carmis _ _ _ _ _ _ _).trans (if_pos hrel))
          ?_
          (fun i c hc => ?_)
        · intro he
          have hd : dst = .unpaid := he
          have hu : o.status = .unpaid := hon.unpaid he
          rw [hd, hu] at hrel
          simp [releasesReservations] at hrel
        · by_cases hr : c.reservedOrderId = some id
          · obtain ⟨hs, -⟩ := hp.holder i c id hc hr
            simp [hr, hs, Carmi.released]
          · simp [hr]
      · refine hp.of_put ho hon hput ((DB.saveOrder_carmis _ _ _ _ _ _ _).trans (if_neg hrel)) ?_
        intro ht hh
        have hd : dst = o.status := by
          rcases Order.status_of_orderStatusRefusal hstatus with hd | hd
          · exact hd
          · rcases hh with hu | hab
            · simp [ownerMayMove, hu] at hd
            · unfold releasesReservations at hrel
              by_contra hne
              simp [ht, hab] at hrel
              exact hne (hrel.symm.trans hab.symm)
        show dst = .unpaid ∨ dst = .abnormal
        rw [hd]
        exact hh
  | @quoted tag r id o o' ho hq hown hr =>
      refine hp.of_put ho (Order.onward_quoted hq) rfl rfl (fun _ hh => ?_)
      unfold Order.quotedAs at hq
      rw [hq]
      exact hh
  | goodsSaved | couponSaved => exact hp.of_cards rfl (fun id i c _ => Iff.rfl)
  | carmiSaved hc hf hs hf' => exact hfree hc hf hf'
  | imported hi =>
      refine hp.of_cards rfl (fun id i c hr => ?_)
      rcases hi i with he | ⟨hn, c', hc', hf', -⟩
      · rw [← he]
      · constructor
        · intro hc
          rw [hn] at hc
          cases hc
        · intro hc
          obtain rfl := Option.some.inj (hc.symm.trans hc')
          rw [hf'] at hr
          cases hr
  | @flipped table id restore d' hf hown =>
      cases table with
      | orders =>
          obtain ⟨o, ho, rfl⟩ := hf
          exact hp.of_put ho (Order.onward_deleted _) rfl rfl (fun _ hh => hh)
      | carmis =>
          obtain ⟨c, hc, hfree', -, rfl⟩ := hf
          exact hfree hc hfree' hfree'
      | goods | goodsGroup | coupons =>
          obtain ⟨v, -, rfl⟩ := hf
          exact hp.of_cards rfl (fun id i c _ => Iff.rfl)

end Steps

/-! ### Interleavings -/

structure DB.Unused (d : DB) : Prop where
  orders : ∀ id, d.orders.get? id = none
  cards : ∀ i c, d.carmis.get? i = some c → c.reservedOrderId = none

section Interleavings
variable {env : Env} {calm : Prop} {A : ShopTx → Prop} {as bs : List (Action ShopTx ℕ)}
  {a : Action ShopTx ℕ} {d d' : DB}
  {c c₁ c' : Config ShopTx DB Row Reply} {l : List (ShopTx × Reply)}

theorem DB.Unused.promised (h : d.Unused) : d.Promised where
  holder i c id hc hr := by
    rw [h.cards i c hc] at hr
    cases hr
  exact id o ho := by
    rw [h.orders id] at ho
    cases ho

theorem ShopTrace.promised (h : ShopTrace env calm A d l d') (hd : d.Promised) : d'.Promised :=
  h.keeps (P := DB.Promised) (fun _ _ hd => ⟨hd.holder, hd.exact⟩)
    (fun _ _ _ hs hd => hs.promised hd) hd

theorem interleaved_promised (hd : d.Unused)
    (hr : (shopSystem env).runs as (Config.start d) = some c) :
    (shopRely env False).Holds (shopSystem env) anyTx c ∧ c.db.Promised := by
  obtain ⟨hc, ht⟩ := shop_starts anyTx_calm (starts_any as) hd.orders hr
  exact ⟨hc, ht.promised hd.promised⟩

/-- In every database that an interleaving commits, a reserved card can be sold and belongs to an
order of its goods that waits for payment or was paid and is short, and an unpaid order of automatic
goods has exactly the cards it bought. -/
theorem reservations_interleaved (hd : d.Unused)
    (hr : (shopSystem env).runs as (Config.start d) = some c) : c.db.Promised :=
  (interleaved_promised hd hr).2

/-- What one action makes of the card `i`; `l` is what its commit answered. -/
structure Carmi.Kept (l : List (ShopTx × Reply)) (i : ℕ) (card card' : Carmi) : Prop where
  sold : card.status = .sold → card' = card
  holder : ∀ id, card.reservedOrderId = some id → card' = card ∨ (card'.reservedOrderId = none ∧
    ∃ tag r, (tag, r) ∈ l ∧ ((∃ cards, r = .delivered id cards) ∨ r = .expired id ∨
      ∃ f, tag = .request (.orderSave id f)))
  promised : ∀ id, card'.reservedOrderId = some id → card' = card ∨ (card.reservedOrderId = none ∧
    card.status = .unsold ∧ card.deleted = false ∧ ∃ tag made, (tag, .created id made) ∈ l)

theorem Carmi.Moves.kept {L : Locks Key} {tag : ShopTx} {r : Reply} {i : ℕ} {card card' : Carmi}
    (h : card.Moves L tag r i card') (hs : card.status = .sold → card.reservedOrderId = none) :
    card.Kept [(tag, r)] i card' := by
  have hsold : card.status = .unsold → card.status = .sold → card' = card := by
    intro h h'
    rw [h] at h'
    cases h'
  cases h with
  | same => exact ⟨fun _ => rfl, fun _ _ => Or.inl rfl, fun _ _ => Or.inl rfl⟩
  | @reserved id made hr hfree hu hdel hown =>
      refine ⟨hsold hu, fun id' hid => ?_, fun id' hid => ?_⟩
      · rw [hfree] at hid
        cases hid
      · obtain rfl := Option.some.inj hid
        exact Or.inr ⟨hfree, hu, hdel, tag, made, by rw [hr]; simp⟩
  | @delivered id hby hu hdel hid hown =>
      refine ⟨hsold hu, fun id' hid' => Or.inr ⟨Carmi.delivered_reservedOrderId card, tag,
        r, by simp, ?_⟩, fun id' hid' => ?_⟩
      · obtain ⟨cards, hby, -⟩ := hby
        rcases hid with hid | hid
        · rw [hid'] at hid
          obtain rfl := Option.some.inj hid
          exact Or.inl ⟨cards, hby⟩
        · rw [hid'] at hid
          cases hid
      · rw [Carmi.delivered_reservedOrderId] at hid'
        cases hid'
  | @released id hid hown hby =>
      refine ⟨fun h' => ?_, fun id' hid' => ?_, fun id' hid' => (by cases hid')⟩
      · rw [hs h'] at hid
        cases hid
      · rw [hid'] at hid
        obtain rfl := Option.some.inj hid
        refine Or.inr ⟨rfl, tag, r, by simp, ?_⟩
        rcases hby with ⟨cards, hby, -⟩ | hby
        · exact Or.inl ⟨cards, hby⟩
        · exact Or.inr hby
  | edited hfree hu hfree' hby =>
      refine ⟨hsold hu, fun id' hid => ?_, fun id' hid => ?_⟩
      · rw [hfree] at hid
        cases hid
      · rw [hfree'] at hid
        cases hid

theorem card_kept (hc : (shopRely env False).Holds (shopSystem env) anyTx c) (hp : c.db.Promised)
    (ha : (shopSystem env).step c a = some c') {i : ℕ} {card : Carmi}
    (hcard : c.db.carmis.get? i = some card) :
    ∃ card', c'.db.carmis.get? i = some card' ∧ card.Kept (c.answerOf a) i card' := by
  obtain ⟨-, hchange⟩ := hc.step (shop_respected env anyTx_calm) (fun _ _ _ => trivial) ha
  have hsame : card.Kept (c.answerOf a) i card :=
    ⟨fun _ => rfl, fun _ _ => Or.inl rfl, fun _ _ => Or.inl rfl⟩
  generalize c.answerOf a = l at hchange hsame ⊢
  generalize c'.db = d₁ at hchange ⊢
  cases hchange with
  | same => exact ⟨card, hcard, hsame⟩
  | tick n => exact ⟨card, hcard, hsame⟩
  | commit htag hcommit =>
      obtain ⟨d₀, L, w, h₀, -, hcommit, rfl⟩ := hcommit
      obtain ⟨card', hcard', hm⟩ := (ShopTx.commitsAt_step h₀ hcommit).card hcard
      refine ⟨card', hcard', hm.kept (fun hs => ?_)⟩
      by_contra hne
      obtain ⟨id, hid⟩ := Option.ne_none_iff_exists'.mp hne
      rw [(hp.holder i card id hcard hid).1] at hs
      cases hs

/-- Whatever an interleaving has come to, its next action leaves a sold card alone, takes a card
from the order it is reserved for only by that order's delivery, expiry or save, and reserves only
cards that are free. -/
theorem card_promised_once (hd : d.Unused) (hr : (shopSystem env).runs as (Config.start d) = some c)
    (ha : (shopSystem env).step c a = some c') {i : ℕ} {card : Carmi}
    (hcard : c.db.carmis.get? i = some card) :
    ∃ card', c'.db.carmis.get? i = some card' ∧ card.Kept (c.answerOf a) i card' := by
  obtain ⟨hc, hp⟩ := interleaved_promised hd hr
  exact card_kept hc hp ha hcard

/-- The order `id` gives its cards up: by its delivery, its expiry or the owner's form. -/
def GivesUp (l : List (ShopTx × Reply)) (id : ℕ) : Prop :=
  ∃ tag r, (tag, r) ∈ l ∧ ((∃ cards, r = .delivered id cards) ∨ r = .expired id ∨
    ∃ f, tag = .request (.orderSave id f))

/-- A card that has changed its holder was given up in between, by the holder it had. -/
theorem given_up_between (hc : (shopRely env False).Holds (shopSystem env) anyTx c)
    (hp : c.db.Promised) (hb : (shopSystem env).runs bs c = some c') {i id id' : ℕ}
    {card card' : Carmi} (hcard : c.db.carmis.get? i = some card)
    (hid : card.reservedOrderId = some id) (hcard' : c'.db.carmis.get? i = some card')
    (hid' : card'.reservedOrderId = some id') (hne : id' ≠ id) :
    ∃ bs₁ b bs₂ c₁ c₂ card₂, bs = bs₁ ++ b :: bs₂ ∧ (shopSystem env).runs bs₁ c = some c₁ ∧
      (shopSystem env).step c₁ b = some c₂ ∧ c₁.db.carmis.get? i = some card ∧
      c₂.db.carmis.get? i = some card₂ ∧ card₂.reservedOrderId = none ∧
      GivesUp (c₁.answerOf b) id := by
  induction bs generalizing c with
  | nil =>
      obtain rfl := Option.some.inj hb
      obtain rfl := Option.some.inj (hcard.symm.trans hcard')
      rw [hid] at hid'
      exact absurd (Option.some.inj hid').symm hne
  | cons a bs ih =>
      obtain ⟨c₁, ha, hb⟩ := Option.bind_eq_some_iff.mp hb
      obtain ⟨card₁, hcard₁, hkept⟩ := card_kept hc hp ha hcard
      rcases hkept.holder id hid with rfl | ⟨hfree, hby⟩
      · obtain ⟨hc₁, htrace⟩ := shop_runs anyTx_calm (starts_any [a]) hc
          (show (shopSystem env).runs [a] c = some c₁ by rw [System.runs, ha]; rfl)
        obtain ⟨bs₁, b, bs₂, c₂, c₃, card₂, hsplit, hruns, hrest⟩ :=
          ih hc₁ (htrace.promised hp) hb hcard₁
        refine ⟨a :: bs₁, b, bs₂, c₂, c₃, card₂, by rw [hsplit]; rfl, ?_, hrest⟩
        rw [System.runs, ha]
        exact hruns
      · exact ⟨[], a, bs, c, c₁, card₁, rfl, rfl, ha, hcard, hcard₁, hfree, hby⟩

/-- A sold card is final. -/
theorem ShopTrace.sold (h : ShopTrace env calm A d l d') (hd : d.Promised) {i : ℕ} {card : Carmi}
    (hcard : d.carmis.get? i = some card) (hs : card.status = .sold) :
    d'.carmis.get? i = some card ∧ ∀ p ∈ l, i ∉ p.2.handed := by
  induction h with
  | nil d => exact ⟨hcard, fun p hp => (by cases hp)⟩
  | tick n _ ih => exact ih ⟨hd.holder, hd.exact⟩ hcard
  | @commit now L tag r d d₁ d' l hl hnow htag hstep _ ih =>
      have hfree : card.reservedOrderId = none := by
        by_contra hne
        obtain ⟨id, hid⟩ := Option.ne_none_iff_exists'.mp hne
        rw [(hd.holder i card id hcard hid).1] at hs
        cases hs
      obtain ⟨hcard₁, hnot⟩ := hstep.sold hcard hs hfree
      obtain ⟨hcard', hnots⟩ := ih (hstep.promised hd) hcard₁
      refine ⟨hcard', fun p hp => ?_⟩
      rcases List.mem_cons.mp hp with rfl | hp
      · exact hnot
      · exact hnots p hp

theorem handed_over (hc : (shopRely env False).Holds (shopSystem env) anyTx c) (hp : c.db.Promised)
    (ha : (shopSystem env).step c a = some c₁) (hb : (shopSystem env).runs bs c₁ = some c')
    {tag : ShopTx} {id : ℕ} {cards : List ℕ} (hdel : c.answerOf a = [(tag, .delivered id cards)]) :
    cards.Nodup ∧ ∀ i ∈ cards, ∃ card, c.db.carmis.get? i = some card ∧ card.status = .unsold ∧
      card.deleted = false ∧ (card.reservedOrderId = some id ∨ card.reservedOrderId = none) ∧
      c₁.db.carmis.get? i = some card.delivered ∧
      (card.isLoop = 0 → c'.db.carmis.get? i = some card.delivered ∧
        ∀ p ∈ (shopSystem env).answers bs c₁, i ∉ p.2.handed) := by
  obtain ⟨hc₁, hchange⟩ := hc.step (shop_respected env anyTx_calm) (fun _ _ _ => trivial) ha
  obtain ⟨-, hlater⟩ := shop_runs anyTx_calm (starts_any bs) hc₁ hb
  rw [hdel] at hchange
  generalize hd₁ : c₁.db = d₁ at hchange
  cases hchange with
  | commit htag hcommit =>
      obtain ⟨d₀, L, w, h₀, -, hcommit, rfl⟩ := hcommit
      have hstep := ShopTx.commitsAt_step h₀ hcommit
      obtain ⟨hnd, hcards⟩ := hstep.handed
      refine ⟨hnd, fun i hi => ?_⟩
      obtain ⟨id', cards', card, he, hcard, hu, hdeleted, hfree, hafter⟩ := hcards i hi
      obtain ⟨rfl, rfl⟩ := Reply.delivered.inj he
      refine ⟨card, hcard, hu, hdeleted, hfree, hafter, fun hloop => ?_⟩
      have hsold : card.delivered.status = .sold := by rw [Carmi.delivered, if_pos hloop]
      rw [hd₁] at hlater
      exact hlater.sold (hstep.promised hp) hafter hsold

/-- A delivery of any interleaving hands over different cards, each of them unsold and free or
reserved for that very order; and a card that is not a loop card is final from then on and is never
handed over again. -/
theorem card_delivered_once (hd : d.Unused)
    (hr : (shopSystem env).runs as (Config.start d) = some c)
    (ha : (shopSystem env).step c a = some c₁) (hb : (shopSystem env).runs bs c₁ = some c')
    {tag : ShopTx} {id : ℕ} {cards : List ℕ} (hdel : c.answerOf a = [(tag, .delivered id cards)]) :
    cards.Nodup ∧ ∀ i ∈ cards, ∃ card, c.db.carmis.get? i = some card ∧ card.status = .unsold ∧
      card.deleted = false ∧ (card.reservedOrderId = some id ∨ card.reservedOrderId = none) ∧
      c₁.db.carmis.get? i = some card.delivered ∧
      (card.isLoop = 0 → c'.db.carmis.get? i = some card.delivered ∧
        ∀ p ∈ (shopSystem env).answers bs c₁, i ∉ p.2.handed) := by
  obtain ⟨hc, hp⟩ := interleaved_promised hd hr
  exact handed_over hc hp ha hb hdel

/-- No card is promised or delivered twice. Between two moments of an interleaving at which a card
is reserved for two orders, the first of them gave it up; and a delivery hands over cards that are
reserved for its own order or for none, each once, and never again unless it is a loop card. -/
theorem no_card_twice (hd : d.Unused) (hr : (shopSystem env).runs as (Config.start d) = some c)
    (hb : (shopSystem env).runs bs c = some c') :
    (∀ i card id card' id', c.db.carmis.get? i = some card → card.reservedOrderId = some id →
      c'.db.carmis.get? i = some card' → card'.reservedOrderId = some id' → id' ≠ id →
      ∃ bs₁ b bs₂ c₁ c₂ card₂, bs = bs₁ ++ b :: bs₂ ∧ (shopSystem env).runs bs₁ c = some c₁ ∧
        (shopSystem env).step c₁ b = some c₂ ∧ c₁.db.carmis.get? i = some card ∧
        c₂.db.carmis.get? i = some card₂ ∧ card₂.reservedOrderId = none ∧
        GivesUp (c₁.answerOf b) id) ∧
    ∀ b bs₁ c₁ tag id cards, bs = b :: bs₁ → (shopSystem env).step c b = some c₁ →
      c.answerOf b = [(tag, .delivered id cards)] → cards.Nodup ∧ ∀ i ∈ cards, ∃ card,
        c.db.carmis.get? i = some card ∧
        (card.reservedOrderId = some id ∨ card.reservedOrderId = none) ∧
        (card.isLoop = 0 → ∀ p ∈ (shopSystem env).answers bs₁ c₁, i ∉ p.2.handed) := by
  obtain ⟨hc, hp⟩ := interleaved_promised hd hr
  refine ⟨fun i card id card' id' hcard hid hcard' hid' hne => ?_, ?_⟩
  · exact given_up_between hc hp hb hcard hid hcard' hid' hne
  · rintro b bs₁ c₁ tag id cards rfl ha hdel
    obtain ⟨c₂, ha₂, hb⟩ := Option.bind_eq_some_iff.mp hb
    obtain rfl := Option.some.inj (ha.symm.trans ha₂)
    obtain ⟨hnd, hcards⟩ := handed_over hc hp ha hb hdel
    refine ⟨hnd, fun i hi => ?_⟩
    obtain ⟨card, hcard, -, -, hfree, -, hlater⟩ := hcards i hi
    exact ⟨card, hcard, hfree, fun hloop => (hlater hloop).2⟩

end Interleavings

theorem tinyShop_unused : tinyShop.Unused := ⟨fun _ => rfl, tinyShop_free⟩

/-- The card of the small shop is reserved for the order 7 when the payment notice comes to its
commit. -/
theorem reservations_interleaved_sale :
    ∃ c, (shopSystem tinyEnv).runs tinySale (Config.start tinyShop) = some c ∧
    c.db.reservedFor 7 = 1 ∧
      c.db.Promised :=
  ⟨_, (Option.some_get tinySale_runs).symm, by decide,
    reservations_interleaved tinyShop_unused (Option.some_get tinySale_runs).symm⟩

theorem tinySale_finish : ((shopSystem tinyEnv).step
    (((shopSystem tinyEnv).runs tinySale (Config.start tinyShop)).get tinySale_runs)
    (.finish 2)).isSome =
      true := by
  decide

/-- The notice takes the card from the order it was reserved for. -/
theorem card_promised_once_sale :
    ∃ c c' card card', (shopSystem tinyEnv).runs tinySale (Config.start tinyShop) = some c ∧
      (shopSystem tinyEnv).step c (.finish 2) = some c' ∧ c.db.carmis.get? 1 = some card ∧
      card.reservedOrderId = some 7 ∧ c'.db.carmis.get? 1 = some card' ∧
      card.Kept (c.answerOf (.finish 2 : Action ShopTx ℕ)) 1 card' := by
  have hc : _ = some (⟨1, .unsold, 0, "card".toList, some 7, false⟩ : Carmi) :=
    (by decide : (((shopSystem tinyEnv).runs tinySale (Config.start tinyShop)).get
      tinySale_runs).db.carmis.get? 1 = some ⟨1, .unsold, 0, "card".toList, some 7, false⟩)
  obtain ⟨card', hcard', hkept⟩ :=
    card_promised_once tinyShop_unused (Option.some_get tinySale_runs).symm
    (Option.some_get tinySale_finish).symm hc
  exact ⟨_, _, _, card', (Option.some_get tinySale_runs).symm,
    (Option.some_get tinySale_finish).symm, hc, rfl, hcard', hkept⟩

theorem tinySale_later : ((shopSystem tinyEnv).runs (List.replicate 2 (.exec 3 [8]))
    (((shopSystem tinyEnv).step
    (((shopSystem tinyEnv).runs tinySale (Config.start tinyShop)).get tinySale_runs)
    (.finish 2)).get
      tinySale_finish)).isSome = true := by
  decide

/-- The card is handed over, and the other buyer's statements come too late. -/
theorem card_delivered_once_sale :
    ∃ c c₁ c' card, (shopSystem tinyEnv).runs tinySale (Config.start tinyShop) = some c ∧
      (shopSystem tinyEnv).step c (.finish 2) = some c₁ ∧
      (shopSystem tinyEnv).runs (List.replicate 2 (.exec 3 [8])) c₁ = some c' ∧
      c.db.carmis.get? 1 = some card ∧ c.answerOf (.finish 2 : Action ShopTx ℕ) =
        [(tinyComplete 1, .delivered 7 [1])] ∧ c'.db.carmis.get? 1 = some card.delivered := by
  have hanswer : (((shopSystem tinyEnv).runs tinySale (Config.start tinyShop)).get
      tinySale_runs).answerOf
      (.finish 2 : Action ShopTx ℕ) = [(tinyComplete 1, .delivered 7 [1])] := rfl
  obtain ⟨-, hcards⟩ := card_delivered_once tinyShop_unused (Option.some_get tinySale_runs).symm
    (Option.some_get tinySale_finish).symm (Option.some_get tinySale_later).symm hanswer
  obtain ⟨card, hcard, -, -, -, -, hfinal⟩ := hcards 1 (by simp)
  have hloop : card.isLoop = 0 := by
    have hc : (((shopSystem tinyEnv).runs tinySale (Config.start tinyShop)).get
        tinySale_runs).db.carmis.get? 1 =
        some ⟨1, .unsold, 0, "card".toList, some 7, false⟩ := by decide
    rw [← Option.some.inj (hc.symm.trans hcard)]
  exact ⟨_, _, _, card, (Option.some_get tinySale_runs).symm,
    (Option.some_get tinySale_finish).symm,
    (Option.some_get tinySale_later).symm, hcard, hanswer, (hfinal hloop).1⟩

/-- The first buyer's checkout. -/
def tinyFirst : List (Action ShopTx ℕ) := tinySession 1 7 (tinyCheckout 1 1) 12 ++ [.finish 1]

/-- The first buyer does not pay in time, and a second one takes the card. -/
def tinyResale : List (Action ShopTx ℕ) :=
  .env 300000001 :: tinySession 2 7 (.expire 5 0) 4 ++ .finish 2 ::
    tinySession 3 8 (tinyCheckout 1 2) 12 ++ [.finish 3]

/-- The second buyer's checkout, when the first one has paid. -/
def tinyTooLate : List (Action ShopTx ℕ) := List.replicate 7 (.exec 3 [8]) ++ [.finish 3]

theorem tinyFirst_runs :
    ((shopSystem tinyEnv).runs tinyFirst (Config.start tinyShop)).isSome = true := by
  decide

theorem tinyResale_runs : ((shopSystem tinyEnv).runs tinyResale
    (((shopSystem tinyEnv).runs tinyFirst (Config.start tinyShop)).get tinyFirst_runs)).isSome =
      true := by
  decide

theorem tinyTooLate_runs : ((shopSystem tinyEnv).runs (.finish 2 :: tinyTooLate)
    (((shopSystem tinyEnv).runs tinySale (Config.start tinyShop)).get tinySale_runs)).isSome =
      true := by
  decide

/-- The card goes from the first buyer's order to the second's, which it could only because the
first expired in between; in the other run it is delivered to the first buyer, and to nobody
later. -/
theorem no_card_twice_resale :
    (∃ c c' card card', (shopSystem tinyEnv).runs tinyFirst (Config.start tinyShop) = some c ∧
      (shopSystem tinyEnv).runs tinyResale c = some c' ∧
      c.db.carmis.get? 1 = some card ∧ card.reservedOrderId = some 7 ∧
      c'.db.carmis.get? 1 = some card' ∧ card'.reservedOrderId = some 8 ∧
      ∃ bs₁ b bs₂ c₁, tinyResale = bs₁ ++ b :: bs₂ ∧
        (shopSystem tinyEnv).runs bs₁ c = some c₁ ∧ GivesUp (c₁.answerOf b) 7) ∧
    ∃ c c₁, (shopSystem tinyEnv).runs tinySale (Config.start tinyShop) = some c ∧
      (shopSystem tinyEnv).step c (.finish 2) = some c₁ ∧
      c.answerOf (.finish 2 : Action ShopTx ℕ) = [(tinyComplete 1, .delivered 7 [1])] ∧
      ∀ p ∈ (shopSystem tinyEnv).answers tinyTooLate c₁, 1 ∉ p.2.handed := by
  constructor
  · have hcard : _ = some (⟨1, .unsold, 0, "card".toList, some 7, false⟩ : Carmi) :=
      (by decide : (((shopSystem tinyEnv).runs tinyFirst (Config.start tinyShop)).get
        tinyFirst_runs).db.carmis.get? 1 = some ⟨1, .unsold, 0, "card".toList, some 7, false⟩)
    have hcard' : _ = some (⟨1, .unsold, 0, "card".toList, some 8, false⟩ : Carmi) :=
      (by decide : (((shopSystem tinyEnv).runs tinyResale (((shopSystem tinyEnv).runs tinyFirst
        (Config.start tinyShop)).get tinyFirst_runs)).get tinyResale_runs).db.carmis.get? 1 =
          some ⟨1, .unsold, 0, "card".toList, some 8, false⟩)
    obtain ⟨hbetween, -⟩ := no_card_twice tinyShop_unused (Option.some_get tinyFirst_runs).symm
      (Option.some_get tinyResale_runs).symm
    obtain ⟨bs₁, b, bs₂, c₁, c₂, card₂, hsplit, hruns, -, -, -, -, hgives⟩ :=
      hbetween 1 _ 7 _ 8 hcard rfl hcard' rfl (by decide)
    exact ⟨_, _, _, _, (Option.some_get tinyFirst_runs).symm,
      (Option.some_get tinyResale_runs).symm,
      hcard, rfl, hcard', rfl, bs₁, b, bs₂, c₁, hsplit, hruns, hgives⟩
  · have hcard : (((shopSystem tinyEnv).runs tinySale (Config.start tinyShop)).get
        tinySale_runs).db.carmis.get? 1 =
        some ⟨1, .unsold, 0, "card".toList, some 7, false⟩ := by decide
    obtain ⟨-, hdelivered⟩ := no_card_twice tinyShop_unused (Option.some_get tinySale_runs).symm
      (Option.some_get tinyTooLate_runs).symm
    obtain ⟨-, hcards⟩ := hdelivered (.finish 2) tinyTooLate _ (tinyComplete 1) 7 [1] rfl
      (Option.some_get tinySale_finish).symm rfl
    obtain ⟨card, hcard₁, -, hlater⟩ := hcards 1 (by simp)
    obtain rfl := Option.some.inj (hcard.symm.trans hcard₁)
    exact ⟨_, _, (Option.some_get tinySale_runs).symm, (Option.some_get tinySale_finish).symm, rfl,
      hlater rfl⟩

end Dufaka
