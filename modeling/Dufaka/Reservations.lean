import Dufaka.Orders

/-!
# Reserved cards

Every reservation belongs to an unpaid order of the card's goods, and an unpaid order of automatic
goods has exactly as many cards reserved as it bought. All operations keep this, so that a buyer who
pays in time is never short of cards.
-/

namespace Dufaka
open Relational Tx

def DB.reservedFor (d : DB) (id : ℕ) : ℤ := d.carmis.count (fun _ c => c.reservedOrderId = some id)

structure DB.Reserved (d : DB) : Prop where
  holder : ∀ i c id, d.carmis.get? i = some c → c.reservedOrderId = some id →
    c.status = .unsold ∧ c.deleted = false ∧ ∃ o, d.orders.get? id = some o ∧ o.type = .auto ∧
      o.status = .unpaid ∧ o.goodsId = c.goodsId
  exact : ∀ id o, d.orders.get? id = some o → o.type = .auto → o.status = .unpaid →
    d.reservedFor id = o.buyAmount

section Kept
variable {env : Env} {d d' : DB} {op : Op}

def DB.Unpaid (d : DB) (id : ℕ) : Prop := ∃ o, d.orders.get? id = some o ∧ o.status = .unpaid

structure DB.Keeps (d d' : DB) : Prop where
  kept : ∀ i c id, c.reservedOrderId = some id → d.carmis.get? i = some c → d'.Unpaid id →
    d'.carmis.get? i = some c
  old : ∀ i c id, d'.carmis.get? i = some c → c.reservedOrderId = some id →
    d.carmis.get? i = some c ∧ d'.Unpaid id

theorem DB.Reserved.keeps (h : d.Reserved) (hm : d.OrdersMoved op d')
    (hnew : ∀ id, d.orders.get? id = none → d'.orders.get? id = none) (hk : d.Keeps d') :
    d'.Reserved where
  holder i c id hc hr := by
    obtain ⟨hc₀, o', ho', hu⟩ := hk.old i c id hc hr
    obtain ⟨hs, hd, o, ho, ht, -, hg⟩ := h.holder i c id hc₀ hr
    obtain ⟨o₂, ho₂, hmove⟩ := hm.old id o ho
    rw [ho'] at ho₂
    obtain rfl := Option.some.inj ho₂
    exact ⟨hs, hd, o', ho', hmove.fixed.type.trans ht, hu, hmove.fixed.goodsId.trans hg⟩
  exact id o' ho' ht hu := by
    cases ho : d.orders.get? id with
    | none =>
        rw [hnew id ho] at ho'
        cases ho'
    | some o =>
        obtain ⟨o₂, ho₂, hmove⟩ := hm.old id o ho
        rw [ho'] at ho₂
        obtain rfl := Option.some.inj ho₂
        rw [hmove.fixed.buyAmount,
          ← h.exact id o ho (hmove.fixed.type.symm.trans ht) (hmove.unpaid hu)]
        refine Table.count_eq_of_rows (fun i => ?_)
        simp only [decide_eq_true_eq]
        constructor
        · rintro ⟨c, hc, hr⟩
          exact ⟨c, (hk.old i c id hc hr).1, hr⟩
        · rintro ⟨c, hc, hr⟩
          exact ⟨c, hk.kept i c id hr hc ⟨o', ho', hu⟩, hr⟩

/-- An operation that leaves the reserved cards and the unpaid orders of automatic goods alone. -/
theorem DB.Reserved.keeps_of_frame (h : d.Reserved)
    (hcards : ∀ i c id, c.reservedOrderId = some id →
      (d'.carmis.get? i = some c ↔ d.carmis.get? i = some c))
    (horders : ∀ id o, d.orders.get? id = some o → o.type = .auto → o.status = .unpaid →
      d'.Unpaid id) : d.Keeps d' where
  kept i c id hr hc _ := (hcards i c id hr).mpr hc
  old i c id hc hr := by
    have hc₀ := (hcards i c id hr).mp hc
    obtain ⟨-, -, o, ho, ht, hu, -⟩ := h.holder i c id hc₀ hr
    exact ⟨hc₀, horders id o ho ht hu⟩

/-- A change of one card that no order holds before or after. -/
theorem get?_put_free {t : Table Carmi} {i j : ℕ} {c c' : Carmi} {a : Carmi} {id : ℕ}
    (hget : t.get? i = some c) (hfree : c.reservedOrderId = none)
    (hfree' : c'.reservedOrderId = none) (hr : a.reservedOrderId = some id) :
    (t.put i c').get? j = some a ↔ t.get? j = some a := by
  rw [Table.get?_put]
  split_ifs with hj
  · subst hj
    rw [hget]
    constructor
    · intro he
      rw [← Option.some.inj he, hfree'] at hr
      cases hr
    · intro he
      rw [← Option.some.inj he, hfree] at hr
      cases hr
  · exact Iff.rfl

theorem unpaid_of_modify (f : Order → Order) {id : ℕ} {o : Order} (hget : d.orders.get? id = some o)
    (h : d'.orders = d.orders.modify id f)
    (hu : o.type = .auto → o.status = .unpaid → (f o).status = .unpaid) {i : ℕ} {o₁ : Order}
    (ho₁ : d.orders.get? i = some o₁) (ht₁ : o₁.type = .auto) (hu₁ : o₁.status = .unpaid) :
    d'.Unpaid i := by
  unfold DB.Unpaid
  rw [h, Table.get?_modify]
  split_ifs with hi
  · subst hi
    rw [ho₁] at hget
    obtain rfl := Option.some.inj hget
    exact ⟨f o₁, by rw [ho₁, Option.map_some], hu ht₁ hu₁⟩
  · exact ⟨o₁, ho₁, hu₁⟩

/-- One order stops being unpaid, and every card it held is released. -/
theorem DB.Reserved.keeps_of_release (h : d.Reserved) {id : ℕ} (f : Order → Order)
    (g : ℕ → Carmi → Carmi) (hf : ∀ o, (f o).status ≠ .unpaid)
    (horders : d'.orders = d.orders.modify id f) (hcarmis : d'.carmis = d.carmis.mapRows g)
    (hmine : ∀ i c, d.carmis.get? i = some c → c.reservedOrderId = some id →
      (g i c).reservedOrderId = none)
    (hother : ∀ i c, d.carmis.get? i = some c → c.reservedOrderId ≠ some id →
      g i c = c ∨ (c.reservedOrderId = none ∧ (g i c).reservedOrderId = none)) : d.Keeps d' := by
  have hpaid : ¬ d'.Unpaid id := by
    rintro ⟨o, ho, hu⟩
    rw [horders, Table.get?_modify_self] at ho
    obtain ⟨o₁, -, rfl⟩ := Option.map_eq_some_iff.mp ho
    exact hf o₁ hu
  constructor
  · intro i c j hr hc hu
    have hj : j ≠ id := fun he => hpaid (he ▸ hu)
    rw [hcarmis, Table.get?_mapRows, hc, Option.map_some]
    rcases hother i c hc (by rw [hr]; simpa using hj) with he | ⟨hn, -⟩
    · rw [he]
    · rw [hr] at hn
      cases hn
  · intro i c j hc hr
    rw [hcarmis, Table.get?_mapRows] at hc
    obtain ⟨c₀, hc₀, rfl⟩ := Option.map_eq_some_iff.mp hc
    have hne : c₀.reservedOrderId ≠ some id := fun he => by
      rw [hmine i c₀ hc₀ he] at hr
      cases hr
    rcases hother i c₀ hc₀ hne with he | ⟨-, hn⟩
    · rw [he] at hr ⊢
      obtain ⟨-, -, o, ho, -, hu, -⟩ := h.holder i c₀ j hc₀ hr
      have hj : j ≠ id := fun he => hne (he ▸ hr)
      exact ⟨hc₀, o, by rw [horders, Table.get?_modify_of_ne _ _ hj, ho], hu⟩
    · rw [hr] at hn
      cases hn

/-! ### The operations -/

theorem DB.Created.reserved {id : ℕ} {o : Order} {reserved : List ℕ} (h : d.Reserved)
    (hc : d.Created d' id o reserved) : d'.Reserved := by
  have hnone : ∀ i c, d.carmis.get? i = some c → c.reservedOrderId ≠ some id := by
    intro i c hi hr
    obtain ⟨-, -, o₁, ho₁, -⟩ := h.holder i c id hi hr
    rw [hc.fresh] at ho₁
    cases ho₁
  have hfree : ∀ i ∈ reserved, ∃ c, d.carmis.get? i = some c ∧ DB.freeCard o.goodsId c = true ∧
      o.type = .auto := by
    intro i hi
    cases ht : o.type with
    | auto =>
        obtain ⟨c, hget, hfree⟩ := (hc.cards ht).2.2 i hi
        exact ⟨c, hget, hfree, rfl⟩
    | manual =>
        rw [hc.noCards ht] at hi
        cases hi
  -- a card of the new database is newly reserved, or as it was
  have hget : ∀ i c, d'.carmis.get? i = some c → (i ∈ reserved ∧ c.reservedOrderId = some id) ∨
      (i ∉ reserved ∧ d.carmis.get? i = some c) := by
    intro i c hi
    rw [hc.carmis, Table.get?_mapRows] at hi
    obtain ⟨c₀, hc₀, rfl⟩ := Option.map_eq_some_iff.mp hi
    split_ifs with hmem
    · exact Or.inl ⟨hmem, rfl⟩
    · exact Or.inr ⟨hmem, hc₀⟩
  have horders : ∀ i, i ≠ id → d'.orders.get? i = d.orders.get? i := by
    intro i hi
    rw [hc.orders, Table.get?_put_of_ne _ _ hi]
  have hself : d'.orders.get? id = some o := by rw [hc.orders, Table.get?_put_self]
  constructor
  · intro i c j hi hr
    rcases hget i c hi with ⟨hmem, hid⟩ | ⟨-, hi₀⟩
    · rw [hid] at hr
      obtain rfl := Option.some.inj hr
      obtain ⟨c₀, hc₀, hf, ht⟩ := hfree i hmem
      rw [hc.carmis, Table.get?_mapRows, hc₀, Option.map_some, if_pos hmem] at hi
      obtain rfl := Option.some.inj hi
      simp only [DB.freeCard, Bool.and_eq_true, decide_eq_true_eq, Bool.not_eq_true'] at hf
      exact ⟨hf.1.1.2, hf.2, o, hself, ht, hc.status, hf.1.1.1.symm⟩
    · obtain ⟨hs, hd, o₁, ho₁, hrest⟩ := h.holder i c j hi₀ hr
      have hj : j ≠ id := fun he => hnone i c hi₀ (he ▸ hr)
      exact ⟨hs, hd, o₁, by rw [horders j hj, ho₁], hrest⟩
  · intro j o₁ ho₁ ht hu
    by_cases hj : j = id
    · subst hj
      rw [hself] at ho₁
      obtain rfl := Option.some.inj ho₁
      obtain ⟨hlen, hnd, -⟩ := hc.cards ht
      rw [← hlen]
      refine Table.count_keys hnd (fun i => ?_)
      simp only [decide_eq_true_eq]
      constructor
      · rintro ⟨c, hi, hr⟩
        rcases hget i c hi with ⟨hmem, -⟩ | ⟨-, hi₀⟩
        · exact hmem
        · exact absurd hr (hnone i c hi₀)
      · intro hmem
        obtain ⟨c₀, hc₀, -⟩ := hfree i hmem
        refine ⟨{ c₀ with reservedOrderId := some j }, ?_, rfl⟩
        rw [hc.carmis, Table.get?_mapRows, hc₀, Option.map_some, if_pos hmem]
    · rw [horders j hj] at ho₁
      rw [← h.exact j o₁ ho₁ ht hu]
      refine Table.count_eq_of_rows (fun i => ?_)
      simp only [decide_eq_true_eq]
      constructor
      · rintro ⟨c, hi, hr⟩
        rcases hget i c hi with ⟨-, hid⟩ | ⟨-, hi₀⟩
        · rw [hid] at hr
          exact absurd (Option.some.inj hr).symm hj
        · exact ⟨c, hi₀, hr⟩
      · rintro ⟨c, hi₀, hr⟩
        refine ⟨c, ?_, hr⟩
        rw [hc.carmis, Table.get?_mapRows, hi₀, Option.map_some, if_neg]
        intro hmem
        obtain ⟨c₀, hc₀, hf, -⟩ := hfree i hmem
        rw [hi₀] at hc₀
        obtain rfl := Option.some.inj hc₀
        simp [DB.freeCard, hr] at hf

/-- The cards of an unpaid order are exactly the ones reserved for it. -/
theorem DB.Reserved.cardsFor (h : d.Reserved) {id : ℕ} {o : Order} (ho : d.orders.get? id = some o)
    (ht : o.type = .auto) (hu : o.status = .unpaid) :
    ((d.cardsFor id o.goodsId o.buyAmount (fun _ => false)).length : ℤ) = o.buyAmount ∧
      ∀ i, i ∈ d.cardsFor id o.goodsId o.buyAmount (fun _ => false) ↔
        ∃ c, d.carmis.get? i = some c ∧ c.reservedOrderId = some id := by
  have hcard : ∀ i c, d.carmis.get? i = some c → c.reservedOrderId = some id →
      DB.deliverable id o.goodsId c = true := by
    intro i c hc hr
    obtain ⟨hs, hd, o₁, ho₁, -, -, hg⟩ := h.holder i c id hc hr
    rw [ho] at ho₁
    obtain rfl := Option.some.inj ho₁
    simp [DB.deliverable, hs, hd, hr, hg]
  have hlen : (((d.carmis.select (fun i c => DB.deliverable id o.goodsId c &&
      c.reservedOrderId = some id && !(fun _ => false) i)).map Prod.fst).length : ℤ) =
      o.buyAmount := by
    rw [List.length_map, ← Table.count_eq_length, ← h.exact id o ho ht hu]
    refine Table.count_congr (fun i c hc => ?_)
    by_cases hr : c.reservedOrderId = some id
    · simp [hr, hcard i c hc hr]
    · simp [hr]
  have hcards : d.cardsFor id o.goodsId o.buyAmount (fun _ => false) =
      (d.carmis.select (fun i c => DB.deliverable id o.goodsId c &&
        c.reservedOrderId = some id && !(fun _ => false) i)).map Prod.fst := by
    show ((_ ++ _ : List (ℕ × Carmi)).map Prod.fst).take _ = _
    rw [List.map_append, List.take_append_of_le_length (by omega),
      List.take_of_length_le (by omega)]
  rw [hcards]
  refine ⟨hlen, fun i => ?_⟩
  rw [Table.mem_select_keys]
  constructor
  · rintro ⟨c, hc, hp⟩
    exact ⟨c, hc, by simp at hp; exact hp.2⟩
  · rintro ⟨c, hc, hr⟩
    exact ⟨c, hc, by simp [hr, hcard i c hc hr]⟩

theorem settled_reserved {id : ℕ} {o : Order} {trade : Text} {redeliver : Bool} {r : Reply}
    (h : d.Reserved) (ho : d.orders.get? id = some o) (hm : d.OrdersMoved op d')
    (hs : Settled d id o trade redeliver r d') : d'.Reserved := by
  cases hs with
  | already => exact h
  | @short coupons back hp hr hret hcards hstock =>
      have hnu : o.status ≠ .unpaid := by
        intro hu
        cases ht : o.type with
        | auto => exact hcards ht (h.cardsFor ho ht hu).1
        | manual =>
            rw [hstock ht] at hu
            cases hu
      refine h.keeps hm (fun i => Table.get?_modify_eq_none.mpr)
        (h.keeps_of_frame (fun i c j hr => Iff.rfl) ?_)
      exact fun i o₁ ho₁ => unpaid_of_modify (fun o => o.short trade back) ho rfl
        (fun _ hu => absurd hu hnu) ho₁
  | @manual coupons back hp hret hmanual hstock =>
      refine h.keeps hm (fun i => Table.get?_modify_eq_none.mpr)
        (h.keeps_of_frame (fun i c j hr => Iff.rfl) ?_)
      exact fun i o₁ ho₁ => unpaid_of_modify (fun o => o.handToOwner trade back) ho rfl
        (fun ht _ => by rw [hmanual] at ht; cases ht) ho₁
  | @cards coupons back cards hp hret hauto hcards hlen =>
      refine h.keeps hm (fun i => Table.get?_modify_eq_none.mpr)
        (h.keeps_of_release (fun o => o.deliver (d.cardTexts cards) trade back)
        (DB.handOverRow id o.goodsId cards) (fun o => nofun) rfl (d.handOver_eq _ _ _) ?_ ?_)
      · intro i c hc hr
        obtain ⟨hu, -, o₁, ho₁, -, -, hg⟩ := h.holder i c id hc hr
        rw [ho] at ho₁
        obtain rfl := Option.some.inj ho₁
        unfold DB.handOverRow
        split_ifs with hi hrel
        · exact c.delivered_reservedOrderId
        · rfl
        · simp [hr, hg, hu] at hrel
      · intro i c hc hr
        by_cases hi : i ∈ cards
        · have hfree : c.reservedOrderId = none := by
            obtain ⟨c₁, hc₁, hd⟩ := DB.mem_cardsFor (hcards.symm ▸ hi)
            rw [hc] at hc₁
            obtain rfl := Option.some.inj hc₁
            simp only [DB.deliverable, Bool.and_eq_true, Bool.or_eq_true, decide_eq_true_eq] at hd
            exact hd.2.resolve_left hr
          refine Or.inr ⟨hfree, ?_⟩
          rw [DB.handOverRow, if_pos hi]
          exact c.delivered_reservedOrderId
        · exact Or.inl (by simp [DB.handOverRow, hi, hr])

theorem expire_reserved {id : ℕ} {o : Order} (h : d.Reserved) (ho : d.orders.get? id = some o)
    (hu : o.status = .unpaid) : (d.expire id o.couponId o).Reserved := by
  have hm : d.OrdersMoved (.expireDue 0 0) (d.expire id o.couponId o) :=
    .of_modify Order.expire ho rfl (.expired hu)
  refine h.keeps hm (fun i => Table.get?_modify_eq_none.mpr)
    (h.keeps_of_release Order.expire (fun _ c =>
      if c.reservedOrderId = some id && c.goodsId = o.goodsId then c.released else c)
      (fun o => nofun) rfl rfl ?_ ?_)
  · intro i c hc hr
    obtain ⟨-, -, o₁, ho₁, -, -, hg⟩ := h.holder i c id hc hr
    rw [ho] at ho₁
    obtain rfl := Option.some.inj ho₁
    simp [hr, hg, Carmi.released]
  · intro i c hc hr
    exact Or.inl (by simp [hr])

theorem saveOrder_reserved {id : ℕ} {row : Order} {title info pwd : Text} {dst : OrderStatus}
    (h : d.Reserved) (hget : d.orders.get? id = some row)
    (hstatus : orderStatusRefusal row dst = none)
    (hm : d.OrdersMoved op (d.saveOrder id row title info pwd dst)) :
    (d.saveOrder id row title info pwd dst).Reserved := by
  refine h.keeps hm (fun i => Table.get?_modify_eq_none.mpr) (h.keeps_of_frame ?_ ?_)
  · intro i c j hr
    rw [DB.saveOrder_carmis]
    split_ifs with hrel
    · rw [Table.mapRows_id]
      intro i c hc
      -- the form releases cards of orders no longer unpaid only, and these hold none
      by_cases hid : c.reservedOrderId = some id
      · obtain ⟨-, -, o, ho, -, hu, -⟩ := h.holder i c id hc hid
        rw [hget] at ho
        obtain rfl := Option.some.inj ho
        unfold releasesReservations at hrel
        split_ifs at hrel <;> simp_all
      · simp [hid]
    · exact Iff.rfl
  · intro i o₁ ho₁
    refine unpaid_of_modify (fun o => o.saved row title info pwd dst) hget rfl ?_ ho₁
    intro _ hu
    rcases Order.status_of_orderStatusRefusal hstatus with hd | hd
    · exact hd.trans hu
    · simp [ownerMayMove, hu] at hd

theorem request_reserved {r : Request} {ids : ℕ → ℕ} {reply : Reply} {now : ℤ} (h : d.Reserved)
    (hc : (r.script env now).commits ids d reply d') : d'.Reserved := by
  have hm : d.OrdersMoved (.request r ids) d' := DB.request_ordersMoved hc
  have hsettle : ∀ {sn paid trade redeliver},
      (settle sn paid trade redeliver).commits ids d reply d' → d'.Reserved := by
    intro sn paid trade redeliver hc
    obtain ⟨id, o, hfound, -, -, hs⟩ := settle_commits hc
    exact settled_reserved h (DB.orderBySn_some hfound).1 hm hs
  have hframe : d'.orders = d.orders → (∀ i c id, c.reservedOrderId = some id →
      (d'.carmis.get? i = some c ↔ d.carmis.get? i = some c)) → d'.Reserved := by
    intro he hcards
    refine h.keeps hm (fun id hn => by rw [he, hn]) (h.keeps_of_frame hcards ?_)
    exact fun id o ho _ hu => ⟨o, by rw [he, ho], hu⟩
  have hquote : ∀ {id o} (f : Order → Order), d.orders.get? id = some o →
      (f o).status = o.status → d' = { d with orders := d.orders.modify id f } → d'.Reserved := by
    rintro id o f ho hf rfl
    refine h.keeps hm (fun i => Table.get?_modify_eq_none.mpr)
      (h.keeps_of_frame (fun i c j hr => Iff.rfl) ?_)
    exact fun i o₁ ho₁ => unpaid_of_modify f ho rfl (fun _ hu => hf.trans hu) ho₁
  cases r with
  | createOrder rand inp site =>
      obtain ⟨g, c, q, info, id, reserved, made, -, hcr⟩ := createOrder_commits hc
      exact hcr.reserved h
  | complete sn paid tradeNo => exact hsettle hc
  | redeliver sn => exact hsettle hc
  | lockCldxQuote sn minor expires =>
      obtain ⟨id, o, ho, -, hd⟩ := lockCldxQuote_commits hc
      exact hquote (fun o => o.quote minor expires) ho rfl hd
  | lockUSDTInvoice sn onTime created =>
      rcases lockUSDTInvoice_commits hc with rfl | ⟨id, o, raw, ho, -, hd⟩
      · exact h
      · exact hquote (fun o => { o with usdtPayment := some raw }) ho rfl hd
  | orderSave id f =>
      obtain ⟨row, dst, hload, -, -, hstatus, -, -, rfl⟩ := orderSave_commits hc
      exact saveOrder_reserved h (loadOrder_some hload).1 hstatus hm
  | goodsSave id f =>
      obtain ⟨f, -, -, ⟨-, n, -, rfl⟩ | ⟨g, -, -, rfl⟩⟩ := goodsSave_commits hc <;>
        exact hframe rfl (fun i c id _ => Iff.rfl)
  | couponSave id f =>
      obtain ⟨f, -, -, goods, ⟨-, n, -, rfl⟩ | ⟨c, -, -, rfl⟩⟩ := couponSave_commits hc <;>
        exact hframe rfl (fun i c id _ => Iff.rfl)
  | carmiSave id f =>
      obtain ⟨c, hget, hfree, -, rfl⟩ := carmiSave_commits hc
      refine hframe rfl (fun i a j hr => ?_)
      show (d.carmis.modify id _).get? i = some a ↔ _
      rw [← Table.put_eq_modify hget]
      exact get?_put_free hget hfree hfree hr
  | carmisImport f =>
      obtain ⟨carmis, rfl, hcarmis⟩ := carmisImport_commits hc
      refine hframe rfl (fun i a j hr => ?_)
      rcases hcarmis i with he | ⟨hn, c, hget, hfree, -⟩
      · show carmis.get? i = some a ↔ _
        rw [he]
      · show carmis.get? i = some a ↔ _
        rw [hget, hn]
        constructor
        · intro he
          rw [← Option.some.inj he, hfree] at hr
          cases hr
        · nofun
  | markDeleted table id restore =>
      have hf := markDeleted_commits hc
      cases table with
      | orders =>
          obtain ⟨o, ho, hd⟩ := hf
          refine hquote (fun o => { o with deleted := !restore }) ho rfl (hd.trans ?_)
          rw [← Table.put_eq_modify ho]
      | carmis =>
          obtain ⟨c, hget, hfree, -, rfl⟩ := hf
          exact hframe rfl (fun i a j hr => get?_put_free hget hfree hfree hr)
      | goods =>
          obtain ⟨v, -, rfl⟩ := hf
          exact hframe rfl (fun i c id _ => Iff.rfl)
      | goodsGroup =>
          obtain ⟨v, -, rfl⟩ := hf
          exact hframe rfl (fun i c id _ => Iff.rfl)
      | coupons =>
          obtain ⟨v, -, rfl⟩ := hf
          exact hframe rfl (fun i c id _ => Iff.rfl)

/-- Every run from a database without orders and reservations keeps the reservation invariant. -/
theorem runOps_reserved (env : Env) (ops : List Op) (h : d.Reserved) :
    (runOps env ops d).Reserved :=
  runOps_induct (fun _ _ _ hx => apply_induct (P := DB.Reserved)
    (fun _ _ _ _ _ hx hc => request_reserved hx hc) (fun _ _ _ hx ho hu => expire_reserved hx ho hu)
    (fun _ hx => ⟨hx.holder, hx.exact⟩) hx) h

theorem DB.reserved_of_empty (h₀ : d.orders = Table.empty)
    (hfree : ∀ i c, d.carmis.get? i = some c → c.reservedOrderId = none) : d.Reserved where
  holder i c id hc hr := by
    rw [hfree i c hc] at hr
    cases hr
  exact id o ho := by
    rw [h₀] at ho
    cases ho

end Kept

end Dufaka
