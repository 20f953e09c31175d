import Dufaka.Orders

/-!
# Payment comes before delivery

An order leaves unpaid and expired only through a `Complete` whose amount is its price, and only
such an order gets cards. A repeated notice of a payment on record is answered by the status the
order has when it arrives.
-/

namespace Dufaka
open Relational Tx

/-- The run contains a `Complete` for the order, made while it was unpaid or expired, with exactly
its price. -/
def PaidIn (env : Env) (d : DB) (ops : List Op) (id : ℕ) : Prop :=
  ∃ pre paid trade ids post o, ops = pre ++ .request (.complete o.orderSn paid trade) ids :: post ∧
    (runOps env pre d).orders.get? id = some o ∧ (o.status = .unpaid ∨ o.status = .expired) ∧
    paid = o.actualPrice

/-- The operation is a settlement that hands `cards` to the order `id`. -/
def Op.Delivers (d : DB) (op : Op) (id : ℕ) (cards : List ℕ) : Prop :=
  ∃ sn paid trade redeliver ids d', op = .request (settleRequest sn paid trade redeliver) ids ∧
    (settle sn paid trade redeliver).commits ids d (.delivered id cards) d'

section Paid
variable {env : Env} {d : DB} {ops : List Op} {id : ℕ}

theorem PaidIn.append (h : PaidIn env d ops id) (ops' : List Op) :
    PaidIn env d (ops ++ ops') id := by
  obtain ⟨pre, paid, trade, ids, post, o, rfl, hrest⟩ := h
  exact ⟨pre, paid, trade, ids, post ++ ops', o, by simp, hrest⟩

/-- A move out of unpaid and expired is a payment of the exact price, unless it is an expiry. -/
theorem Order.Moves.paid {o o' : Order} {op : Op} (h : o.Moves id op o')
    (hs : o.status = .unpaid ∨ o.status = .expired) (hu : o'.status ≠ .unpaid)
    (he : o'.status ≠ .expired) :
    ∃ paid trade ids, op = .request (.complete o.orderSn paid trade) ids ∧
    paid = o.actualPrice := by
  cases h with
  | same => exact absurd hs (not_or.mpr ⟨hu, he⟩)
  | priced => exact absurd hs (not_or.mpr ⟨hu, he⟩)
  | flagged => exact absurd hs (not_or.mpr ⟨hu, he⟩)
  | expired => exact absurd rfl he
  | short h hpaid => exact ⟨_, _, _, rfl, hpaid⟩
  | delivered h =>
      rcases h with ⟨paid, trade, rfl, hpaid, -⟩ | ⟨-, hab⟩
      · exact ⟨_, _, _, rfl, hpaid⟩
      · rcases hs with hs | hs <;> simp [hs] at hab
  | pending h hm hpaid => exact ⟨_, _, _, rfl, hpaid⟩
  | @saved f ids title info pwd dst hdst hstatus =>
      rcases Order.status_of_orderStatusRefusal hstatus with hd | hd
      · exact absurd hs (not_or.mpr ⟨hd ▸ hu, hd ▸ he⟩)
      · rcases hs with hs | hs <;> simp [ownerMayMove, hs] at hd

/-- An order beyond unpaid and expired was paid exactly. -/
theorem paidIn_of_status (h₀ : d.orders = Table.empty) {o : Order}
    (ho : (runOps env ops d).orders.get? id = some o) (hu : o.status ≠ .unpaid)
    (he : o.status ≠ .expired) : PaidIn env d ops id := by
  induction ops using List.reverseRecOn generalizing o with
  | nil =>
      rw [runOps_nil, h₀] at ho
      cases ho
  | append_singleton ops op ih =>
      rw [runOps_snoc] at ho
      have hmoved := (runOps env ops d).apply_ordersMoved env op
      cases hget : (runOps env ops d).orders.get? id with
      | none => exact absurd (hmoved.new id o hget ho).1 hu
      | some o₁ =>
          obtain ⟨o₂, ho₂, hm⟩ := hmoved.old id o₁ hget
          rw [ho] at ho₂
          obtain rfl := Option.some.inj ho₂
          by_cases hs : o₁.status = .unpaid ∨ o₁.status = .expired
          · obtain ⟨paid, trade, ids, rfl, hpaid⟩ := hm.paid hs hu he
            exact ⟨ops, paid, trade, ids, [], o₁, rfl, hget, hs, hpaid⟩
          · push Not at hs
            exact (ih hget hs.1 hs.2).append [op]

/-- The order of a delivery was unpaid, expired or in 异常, and the amount was its price. -/
theorem Op.Delivers.order {op : Op} {cards : List ℕ} (h : op.Delivers d id cards) :
    ∃ o, d.orders.get? id = some o ∧ ((o.status = .abnormal) ∨ ((o.status = .unpaid ∨
      o.status = .expired) ∧ ∃ trade ids, op =
      .request (.complete o.orderSn o.actualPrice trade) ids)) := by
  obtain ⟨sn, paid, trade, redeliver, ids, d', rfl, hc⟩ := h
  obtain ⟨i, o, hfound, hback, hpaid, hs⟩ := settle_commits hc
  obtain ⟨hget, rfl⟩ := DB.orderBySn_some hfound
  have hpayable : i = id ∧ o.payable := by
    cases hs with
    | cards h => exact ⟨rfl, h⟩
    | manual h => exact ⟨rfl, h.imp_right Or.inl⟩
  obtain ⟨rfl, hp⟩ := hpayable
  refine ⟨o, hget, ?_⟩
  cases redeliver with
  | true => exact Or.inl (hback rfl).1
  | false =>
      obtain rfl := hpaid rfl
      rcases hp with hu | he | ⟨hab, -⟩
      · exact Or.inr ⟨Or.inl hu, trade, ids, rfl⟩
      · exact Or.inr ⟨Or.inr he, trade, ids, rfl⟩
      · exact Or.inl hab

theorem paidIn_of_delivers (h₀ : d.orders = Table.empty) {pre post : List Op} {op : Op}
    {cards : List ℕ} (hops : ops = pre ++ op :: post)
    (h : op.Delivers (runOps env pre d) id cards) : PaidIn env d ops id := by
  subst hops
  obtain ⟨o, hget, hab | ⟨hs, trade, ids, rfl⟩⟩ := h.order
  · exact (paidIn_of_status h₀ hget (by rw [hab]; nofun) (by rw [hab]; nofun)).append _
  · exact ⟨pre, o.actualPrice, trade, ids, post, o, rfl, hget, hs, rfl⟩

/-- A move that changes the information of an order not paid for is the owner's form. -/
theorem Order.Moves.info {o o' : Order} {op : Op} (h : o.Moves id op o') (hi : o'.info ≠ o.info) :
    (∃ f ids, op = .request (.orderSave id f) ids) ∨ o.status = .abnormal ∨
      ((o.status = .unpaid ∨ o.status = .expired) ∧
        ∃ trade ids, op = .request (.complete o.orderSn o.actualPrice trade) ids) := by
  have hpay : ∀ {paid trade ids}, o.payable → paid = o.actualPrice →
      op = .request (.complete o.orderSn paid trade) ids →
      o.status = .abnormal ∨ ((o.status = .unpaid ∨ o.status = .expired) ∧
        ∃ trade ids, op = .request (.complete o.orderSn o.actualPrice trade) ids) := by
    rintro paid trade ids hp rfl rfl
    rcases hp with hu | he | ⟨hab, -⟩
    · exact Or.inr ⟨Or.inl hu, trade, ids, rfl⟩
    · exact Or.inr ⟨Or.inr he, trade, ids, rfl⟩
    · exact Or.inl hab
  cases h with
  | same => exact absurd rfl hi
  | priced => exact absurd rfl hi
  | flagged => exact absurd rfl hi
  | expired => exact absurd rfl hi
  | short h hpaid => exact Or.inr (hpay h hpaid rfl)
  | delivered h =>
      rcases h with ⟨paid, trade, rfl, hpaid, hp⟩ | ⟨-, hab⟩
      · exact Or.inr (hpay hp hpaid rfl)
      · exact Or.inr (Or.inl hab)
  | pending => exact absurd rfl hi
  | @saved f ids => exact Or.inl ⟨f, ids, rfl⟩

/-! ### Sold cards -/

def SameSold (t t' : Table Carmi) : Prop :=
  ∀ i c c', t.get? i = some c → t'.get? i = some c' → c.status = .unsold → c'.status = .unsold

theorem SameSold.refl (t : Table Carmi) : SameSold t t := by
  intro i c c' hc hc'
  rw [hc] at hc'
  rw [Option.some.inj hc']
  exact id

theorem SameSold.mapRows (t : Table Carmi) {f : ℕ → Carmi → Carmi}
    (h : ∀ i c, (f i c).status = c.status) : SameSold t (t.mapRows f) := by
  intro i c c' hc hc'
  rw [Table.get?_mapRows, hc] at hc'
  rw [← Option.some.inj hc', h]
  exact id

theorem SameSold.trans_expire {t : Table Carmi} {x : DB} {id : ℕ} {o : Order}
    (h : SameSold t x.carmis) : SameSold t (x.expire id o.couponId o).carmis := by
  intro i c c' hc hc' hu
  simp only [DB.expire, Table.get?_mapRows] at hc'
  obtain ⟨c₁, hc₁, rfl⟩ := Option.map_eq_some_iff.mp hc'
  split_ifs <;> exact h i c c₁ hc hc₁ hu

/-- A card turns sold in the owner's card form or by a delivery that names it. -/
theorem sold_cases {op : Op} {i : ℕ} {c c' : Carmi} (hc : d.carmis.get? i = some c)
    (hc' : (op.apply env d).carmis.get? i = some c') (hu : c.status = .unsold)
    (hs : c'.status = .sold) : (∃ f ids, op = .request (.carmiSave i f) ids) ∨
      ∃ id cards, op.Delivers d id cards ∧ i ∈ cards := by
  have hno : ¬ SameSold d.carmis (op.apply env d).carmis := by
    intro h
    rw [h i c c' hc hc' hu] at hs
    cases hs
  cases op with
  | tick n => exact absurd (.refl _) hno
  | expireDue minutes count =>
      refine absurd (expireAll_induct (P := fun x => SameSold d.carmis x.carmis)
        (fun x id o hx _ _ => hx.trans_expire) _ d
        (fun e he o ho => dueOrders_coupon (List.mem_of_mem_take he) ho) (.refl _)) hno
  | request r ids =>
      rcases Tx.exec_fst (r.script env d.clock) ids d with hd | ⟨reply, d', h, he⟩
      · rw [Op.apply, Request.answer, hd] at hno
        exact absurd (.refl _) hno
      rw [Op.apply, Request.answer, he] at hno hc'
      have hsettle : ∀ sn paid trade redeliver,
          (settle sn paid trade redeliver).commits ids d reply d' →
          ∃ id cards, (Op.request (settleRequest sn paid trade redeliver) ids).Delivers d id cards ∧
            i ∈ cards := by
        intro sn paid trade redeliver h
        obtain ⟨id, o, -, -, -, hset⟩ := settle_commits h
        cases hset with
        | @cards coupons back cards =>
            refine ⟨id, cards, ⟨sn, paid, trade, redeliver, ids, _, rfl, h⟩, ?_⟩
            by_contra hi
            simp only [DB.handOver, Table.get?_mapRows, hc, Option.map_some, if_neg hi] at hc'
            rw [← Option.some.inj hc'] at hs
            split_ifs at hs <;> simp [Carmi.released, hu] at hs
        | already => exact absurd (.refl _) hno
        | short => exact absurd (.refl _) hno
        | manual => exact absurd (.refl _) hno
      cases r with
      | createOrder rand inp site =>
          obtain ⟨g, cid, q, info, id, reserved, made, -, hcr⟩ := createOrder_commits h
          rw [hcr.carmis] at hno
          exact absurd (.mapRows _ (fun i c => by split_ifs <;> rfl)) hno
      | complete sn paid trade => exact Or.inr (hsettle sn paid trade false h)
      | redeliver sn => exact Or.inr (hsettle sn 0 [] true h)
      | lockCldxQuote sn minor expires =>
          obtain ⟨id, o, -, -, rfl⟩ := lockCldxQuote_commits h
          exact absurd (.refl _) hno
      | lockUSDTInvoice sn onTime created =>
          rcases lockUSDTInvoice_commits h with rfl | ⟨id, o, raw, -, -, rfl⟩ <;>
            exact absurd (.refl _) hno
      | orderSave id f =>
          obtain ⟨row, dst, -, -, -, -, -, -, rfl⟩ := orderSave_commits h
          refine absurd ?_ hno
          simp only [DB.saveOrder_carmis]
          split_ifs
          · exact .mapRows _ (fun i c => by split_ifs <;> rfl)
          · exact .refl _
      | goodsSave id f =>
          obtain ⟨f, -, -, ⟨-, n, -, rfl⟩ | ⟨g, -, -, rfl⟩⟩ := goodsSave_commits h <;>
            exact absurd (.refl _) hno
      | couponSave id f =>
          obtain ⟨f, -, -, goods, ⟨-, n, -, rfl⟩ | ⟨c, -, -, rfl⟩⟩ := couponSave_commits h <;>
            exact absurd (.refl _) hno
      | carmiSave id f =>
          obtain ⟨c₀, -, -, -, rfl⟩ := carmiSave_commits h
          by_cases hi : i = id
          · exact Or.inl ⟨f, ids, by rw [hi]⟩
          · rw [Table.get?_modify_of_ne _ _ hi, hc] at hc'
            rw [← Option.some.inj hc', hu] at hs
            cases hs
      | carmisImport f =>
          obtain ⟨carmis, rfl, hcarmis⟩ := carmisImport_commits h
          rcases hcarmis i with he | ⟨hn, -⟩
          · rw [he, hc] at hc'
            rw [← Option.some.inj hc', hu] at hs
            cases hs
          · rw [hc] at hn
            cases hn
      | markDeleted table id restore =>
          have hf := markDeleted_commits h
          cases table with
          | carmis =>
              obtain ⟨c₀, hget, -, hu₀, rfl⟩ := hf
              rcases Table.get?_put_some hc' with ⟨-, rfl⟩ | ⟨-, hc'⟩
              · rw [hu₀] at hs
                cases hs
              · rw [hc] at hc'
                rw [← Option.some.inj hc', hu] at hs
                cases hs
          | goods =>
              obtain ⟨v, -, rfl⟩ := hf
              exact absurd (.refl _) hno
          | goodsGroup =>
              obtain ⟨v, -, rfl⟩ := hf
              exact absurd (.refl _) hno
          | coupons =>
              obtain ⟨v, -, rfl⟩ := hf
              exact absurd (.refl _) hno
          | orders =>
              obtain ⟨v, -, rfl⟩ := hf
              exact absurd (.refl _) hno

/-- Without an exact payment an order gets no card and no text of the system, and no operation
changes what was sold or brings it back to unpaid. -/
theorem handed_over_only_when_paid (env : Env) (d : DB) (h₀ : d.orders = Table.empty)
    (ops : List Op) (id : ℕ) (o : Order) (ho : (runOps env ops d).orders.get? id = some o) :
    (o.status ≠ .unpaid → o.status ≠ .expired → PaidIn env d ops id) ∧
    (¬ PaidIn env d ops id → ∀ pre op post, ops = pre ++ op :: post →
      (∀ cards, ¬ op.Delivers (runOps env pre d) id cards) ∧
      (∀ i c c', (runOps env pre d).carmis.get? i = some c →
        (op.apply env (runOps env pre d)).carmis.get? i = some c' → c.status = .unsold →
        c'.status = .sold → (∃ f ids, op = .request (.carmiSave i f) ids) ∨
          ∃ other cards, other ≠ id ∧ op.Delivers (runOps env pre d) other cards ∧ i ∈ cards) ∧
      ∀ o₁ o₂, (runOps env pre d).orders.get? id = some o₁ →
        (op.apply env (runOps env pre d)).orders.get? id = some o₂ → o₂.info ≠ o₁.info →
        ∃ f ids, op = .request (.orderSave id f) ids) ∧
    ∀ pre post o₁, ops = pre ++ post → (runOps env pre d).orders.get? id = some o₁ →
      o₁.Fixed o ∧ (o.status = .unpaid → o₁.status = .unpaid) := by
  refine ⟨paidIn_of_status h₀ ho, ?_, ?_⟩
  · rintro hno pre op post hops
    have hdel : ∀ cards, ¬ op.Delivers (runOps env pre d) id cards := fun cards h =>
      hno (paidIn_of_delivers h₀ hops h)
    refine ⟨hdel, ?_, ?_⟩
    · intro i c c' hc hc' hu hs
      rcases sold_cases hc hc' hu hs with h | ⟨other, cards, h, hi⟩
      · exact Or.inl h
      · exact Or.inr ⟨other, cards, fun he => hdel cards (he ▸ h), h, hi⟩
    · intro o₁ o₂ ho₁ ho₂ hi
      obtain ⟨o₃, ho₃, hm⟩ := ((runOps env pre d).apply_ordersMoved env op).old id o₁ ho₁
      rw [ho₂] at ho₃
      obtain rfl := Option.some.inj ho₃
      rcases hm.info hi with h | hab | ⟨hs, trade, ids, rfl⟩
      · exact h
      · have hpaid := paidIn_of_status h₀ ho₁ (by rw [hab]; nofun) (by rw [hab]; nofun)
        exact absurd (hops ▸ hpaid.append _) hno
      · exact absurd ⟨pre, o₁.actualPrice, trade, ids, post, o₁, hops, ho₁, hs, rfl⟩ hno
  · rintro pre post o₁ rfl ho₁
    rw [runOps_append] at ho
    exact runOps_fixed env post ho₁ ho

end Paid

/-- A sale: the card of the small shop is bought and paid for. -/
theorem handed_over_only_when_paid_sale :
    PaidIn tinyEnv tinyShop [tinyBuy 1 1 [], tinyPay 1] 1 :=
  (handed_over_only_when_paid _ _ rfl _ 1 _ (Option.some_get (by decide)).symm).1
    (by decide) (by decide)

/-! ### Repeated notices -/

/-- Some `Complete` of the run recorded a payment of `paid` for the order: it found the order unpaid
or expired and left it in 2, 4 or 6. -/
def RecordedIn (env : Env) (d : DB) (ops : List Op) (id : ℕ) (paid : Cents) : Prop :=
  ∃ pre trade ids post o o', ops = pre ++ .request (.complete o.orderSn paid trade) ids :: post ∧
    (runOps env pre d).orders.get? id = some o ∧ (o.status = .unpaid ∨ o.status = .expired) ∧
    ((Op.request (.complete o.orderSn paid trade) ids).apply env
        (runOps env pre d)).orders.get? id =
      some o' ∧ (o'.status = .pending ∨ o'.status = .completed ∨ o'.status = .abnormal)

/-- A paid order never becomes unpaid or expired. -/
theorem Order.Moves.settled {id : ℕ} {o o' : Order} {op : Op} (h : o.Moves id op o')
    (hu : o.status ≠ .unpaid) (he : o.status ≠ .expired) :
    o'.status ≠ .unpaid ∧ o'.status ≠ .expired := by
  cases h with
  | same => exact ⟨hu, he⟩
  | priced => exact ⟨hu, he⟩
  | flagged => exact ⟨hu, he⟩
  | expired h => exact absurd h hu
  | short => exact ⟨nofun, nofun⟩
  | delivered => exact ⟨nofun, nofun⟩
  | pending => exact ⟨nofun, nofun⟩
  | @saved f ids title info pwd dst hdst hstatus =>
      show dst ≠ .unpaid ∧ dst ≠ .expired
      rcases Order.status_of_orderStatusRefusal hstatus with rfl | h
      · exact ⟨hu, he⟩
      · constructor <;> rintro rfl <;> simp [ownerMayMove] at h

section Repeated
variable {env : Env} {d : DB} {ops : List Op} {id : ℕ} {paid : Cents}

/-- After a recorded payment the order keeps its price and a status of a paid order. -/
theorem RecordedIn.order (h : RecordedIn env d ops id paid) {o : Order}
    (ho : (runOps env ops d).orders.get? id = some o) :
    paid = o.actualPrice ∧ o.status ≠ .unpaid ∧ o.status ≠ .expired := by
  obtain ⟨pre, trade, ids, post, o₁, o₂, rfl, ho₁, hs, ho₂, hs'⟩ := h
  have hne : o₂.status ≠ .unpaid ∧ o₂.status ≠ .expired := by
    rcases hs' with h | h | h <;> rw [h] <;> exact ⟨nofun, nofun⟩
  obtain ⟨o₃, ho₃, hm⟩ := ((runOps env pre d).apply_ordersMoved env _).old id o₁ ho₁
  rw [ho₂] at ho₃
  obtain rfl := Option.some.inj ho₃
  obtain ⟨paid', trade', ids', hop, rfl⟩ := hm.paid hs hne.1 hne.2
  obtain ⟨-, rfl, -⟩ := Request.complete.inj (Op.request.inj hop).1
  have hrun : runOps env (pre ++ .request (.complete o₁.orderSn o₁.actualPrice trade) ids ::
      post) d =
      runOps env post ((Op.request (.complete o₁.orderSn o₁.actualPrice trade) ids).apply env
        (runOps env pre d)) := by
    rw [runOps_append]
    rfl
  rw [hrun] at ho
  obtain ⟨o₄, ho₄, h₄⟩ := runOps_order env post
    (P := fun x => o₁.Fixed x ∧ x.status ≠ .unpaid ∧ x.status ≠ .expired)
    (fun x op y _ hx hm => ⟨hx.1.trans hm.fixed, hm.settled hx.2.1 hx.2.2⟩) ho₂ ⟨hm.fixed, hne⟩
  rw [ho] at ho₄
  obtain rfl := Option.some.inj ho₄
  exact ⟨h₄.1.actualPrice.symm, h₄.2⟩

end Repeated

end Dufaka
