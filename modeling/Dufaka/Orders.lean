import Dufaka.Operations

/-!
# The life of an order

`Moves` lists what one operation can do to an order that exists. Every operation of a run is such a
move, so that a fact about the rows of orders is proved move by move.
-/

namespace Dufaka
open Relational

structure Order.Fixed (o o' : Order) : Prop where
  orderSn : o'.orderSn = o.orderSn
  goodsId : o'.goodsId = o.goodsId
  couponId : o'.couponId = o.couponId
  type : o'.type = o.type
  goodsPrice : o'.goodsPrice = o.goodsPrice
  buyAmount : o'.buyAmount = o.buyAmount
  couponDiscountPrice : o'.couponDiscountPrice = o.couponDiscountPrice
  wholesaleDiscountPrice : o'.wholesaleDiscountPrice = o.wholesaleDiscountPrice
  totalPrice : o'.totalPrice = o.totalPrice
  actualPrice : o'.actualPrice = o.actualPrice

def Order.Retakes (o : Order) (back : RetBack) : Prop :=
  (back = o.couponRetBack ∧ (o.couponId = 0 ∨ o.couponRetBack ≠ .returned)) ∨
    (o.couponRetBack = .returned ∧ 0 < o.couponId ∧ (back = .held ∨ back = .unrecoverable))

def WrittenOnce {α : Type} (old new : Option α) : Prop := ∀ a, old = some a → new = some a

inductive Order.Moves (id : ℕ) (o : Order) : Op → Order → Prop
  | same {op : Op} : Moves id o op o
  | priced {op : Op} {minor expires : Option ℤ} {usdt : Option Text} (h : o.status = .unpaid)
      (hminor : WrittenOnce o.cldxMinor minor) (hexpires : WrittenOnce o.cldxExpiresAt expires)
      (husdt : WrittenOnce o.usdtPayment usdt) :
      Moves id o op { o with cldxMinor := minor, cldxExpiresAt := expires, usdtPayment := usdt }
  | flagged {op : Op} {b : Bool} : Moves id o op { o with deleted := b }
  | expired {minutes : ℤ} {count : ℕ} (h : o.status = .unpaid) :
      Moves id o (.expireDue minutes count) o.expire
  | short {paid : Cents} {trade : Text} {ids : ℕ → ℕ} {back : RetBack} (h : o.payable)
      (hpaid : paid = o.actualPrice) (hback : o.Retakes back)
      (hstock : o.type = .manual → o.status = .expired) :
      Moves id o (.request (.complete o.orderSn paid trade) ids) (o.short trade back)
  | delivered {r : Request} {ids : ℕ → ℕ} {trade info : Text} {back : RetBack}
      (h : (∃ paid trade, r = .complete o.orderSn paid trade ∧ paid = o.actualPrice ∧ o.payable) ∨
        (r = .redeliver o.orderSn ∧ o.status = .abnormal))
      (hauto : o.type = .auto) (hback : o.Retakes back) :
      Moves id o (.request r ids) (o.deliver info trade back)
  | pending {paid : Cents} {trade : Text} {ids : ℕ → ℕ} {back : RetBack}
      (h : o.status = .unpaid ∨ o.status = .expired) (hmanual : o.type = .manual)
      (hpaid : paid = o.actualPrice) (hback : o.Retakes back) :
      Moves id o (.request (.complete o.orderSn paid trade) ids) (o.handToOwner trade back)
  | saved {f : OrderForm} {ids : ℕ → ℕ} {title info pwd : Text} {dst : OrderStatus}
      (hdst : OrderStatus.ofCode (mustInt f.status 0) = some dst)
      (hstatus : orderStatusRefusal o dst = none) :
      Moves id o (.request (.orderSave id f) ids) (o.saved o title info pwd dst)

namespace WrittenOnce
variable {α : Type} {a b c : Option α}

theorem refl : WrittenOnce a a := fun _ h => h

theorem trans (h : WrittenOnce a b) (h' : WrittenOnce b c) : WrittenOnce a c :=
  fun v hv => h' v (h v hv)

theorem none : WrittenOnce Option.none a := fun _ h => nomatch h

/-- The first value stands. -/
theorem getD (v : α) : WrittenOnce a (some (a.getD v)) := by
  rintro w rfl
  rfl

end WrittenOnce

theorem Retaken.retakes {o : Order} {coupons coupons' : Table Coupon} {back : RetBack}
    (h : Retaken o coupons coupons' back) : o.Retakes back := by
  cases h with
  | keep hkeep => exact Or.inl ⟨rfl, hkeep⟩
  | taken c hid hback => exact Or.inr ⟨hback, hid, Or.inl rfl⟩
  | lost hid hback => exact Or.inr ⟨hback, hid, Or.inr rfl⟩

def settleRequest (sn : Text) (paid : Cents) (tradeNo : Text) (redeliver : Bool) : Request :=
  bif redeliver then .redeliver sn else .complete sn paid tradeNo

structure DB.OrdersMoved (d : DB) (op : Op) (d' : DB) : Prop where
  old : ∀ id o, d.orders.get? id = some o → ∃ o', d'.orders.get? id = some o' ∧ o.Moves id op o'
  new : ∀ id o', d.orders.get? id = none → d'.orders.get? id = some o' →
    o'.status = .unpaid ∧ o'.couponRetBack = .held ∧ 1 ≤ o'.buyAmount ∧
      (∃ rand inp site ids, op = .request (.createOrder rand inp site) ids ∧
        o'.orderSn = newSN rand ∧ o'.usdtPayment = none) ∧
      ∀ i o, d.orders.get? i = some o → o.orderSn ≠ o'.orderSn
  single : ∀ i j o o', d.orders.get? i = none → d.orders.get? j = none →
    d'.orders.get? i = some o → d'.orders.get? j = some o' → i = j

namespace DB
variable {env : Env} {d d' : DB} {op : Op}

theorem OrdersMoved.of_eq (h : d'.orders = d.orders) : d.OrdersMoved op d' where
  old id o ho := ⟨o, by rw [h, ho], .same⟩
  new id o' hn ho' := by
    rw [h, hn] at ho'
    cases ho'
  single i j o o' hn _ ho := by
    rw [h, hn] at ho
    cases ho

/-- An operation that writes one order row. -/
theorem OrdersMoved.of_modify (f : Order → Order) {id : ℕ} {o : Order}
    (hget : d.orders.get? id = some o) (h : d'.orders = d.orders.modify id f)
    (hmove : o.Moves id op (f o)) : d.OrdersMoved op d' where
  old i o₁ ho₁ := by
    rw [h, Table.get?_modify]
    split_ifs with hi
    · subst hi
      rw [hget] at ho₁
      obtain rfl := Option.some.inj ho₁
      exact ⟨f o, by rw [hget, Option.map_some], hmove⟩
    · exact ⟨o₁, ho₁, .same⟩
  new i o₁ hn ho₁ := by
    rw [h, Table.get?_modify] at ho₁
    split_ifs at ho₁ with hi
    · rw [hi, hget] at hn
      cases hn
    · rw [hn] at ho₁
      cases ho₁
  single i j o₁ o₂ hn _ ho₁ := by
    rw [h, Table.get?_modify] at ho₁
    split_ifs at ho₁ with hi
    · rw [hi, hget] at hn
      cases hn
    · rw [hn] at ho₁
      cases ho₁

theorem Created.ordersMoved {id : ℕ} {o : Order} {reserved : List ℕ}
    {rand : Fin 8 → Fin 256} {inp : CreateInput} {site : Site} {ids : ℕ → ℕ}
    (h : d.Created d' id o reserved) (hsn : o.orderSn = newSN rand) (husdt : o.usdtPayment = none) :
    d.OrdersMoved (.request (.createOrder rand inp site) ids) d' where
  old i o₁ ho₁ := by
    rw [h.orders, Table.get?_put]
    split_ifs with hi
    · rw [hi, h.fresh] at ho₁
      cases ho₁
    · exact ⟨o₁, ho₁, .same⟩
  new i o₁ hn ho₁ := by
    rw [h.orders] at ho₁
    rcases Table.get?_put_some ho₁ with ⟨-, rfl⟩ | ⟨-, ho₁⟩
    · exact ⟨h.status, h.retBack, h.amount, ⟨rand, inp, site, ids, rfl, hsn, husdt⟩, h.unique⟩
    · rw [hn] at ho₁
      cases ho₁
  single i j o₁ o₂ hi hj ho₁ ho₂ := by
    have hnew : ∀ {k : ℕ} {o₃ : Order}, d.orders.get? k = none → d'.orders.get? k = some o₃ →
        k = id := by
      intro k o₃ hk ho₃
      rw [h.orders] at ho₃
      rcases Table.get?_put_some ho₃ with ⟨hkid, -⟩ | ⟨-, ho₃⟩
      · exact hkid
      · rw [hk] at ho₃
        cases ho₃
    rw [hnew hi ho₁, hnew hj ho₂]

theorem settled_ordersMoved {id : ℕ} {o : Order} {trade : Text} {redeliver : Bool} {r : Reply}
    {paid : Cents} {tradeNo : Text} {ids : ℕ → ℕ} (hget : d.orders.get? id = some o)
    (hback : redeliver = true → o.status = .abnormal ∧ o.type = .auto)
    (hpaid : redeliver = false → paid = o.actualPrice)
    (htrade : redeliver = false → trade = tradeNo) (h : Settled d id o trade redeliver r d') :
    d.OrdersMoved (.request (settleRequest o.orderSn paid tradeNo redeliver) ids) d' := by
  cases h with
  | already => exact .of_eq rfl
  | short hp hr hret hcards hstock =>
      subst hr
      obtain rfl := htrade rfl
      refine .of_modify (fun o => o.short trade _) hget rfl ?_
      exact .short hp (hpaid rfl) hret.retakes hstock
  | cards hp hret hauto hcards hlen =>
      refine .of_modify (fun o => o.deliver _ trade _) hget rfl ?_
      refine .delivered ?_ hauto hret.retakes
      cases redeliver with
      | false => exact Or.inl ⟨paid, tradeNo, rfl, hpaid rfl, hp⟩
      | true => exact Or.inr ⟨rfl, (hback rfl).1⟩
  | manual hp hret hmanual hstock =>
      cases redeliver with
      | true =>
          rw [(hback rfl).2] at hmanual
          cases hmanual
      | false =>
          obtain rfl := htrade rfl
          refine .of_modify (fun o => o.handToOwner trade _) hget rfl ?_
          exact .pending hp hmanual (hpaid rfl) hret.retakes

theorem settle_ordersMoved {sn : Text} {paid : Cents} {tradeNo : Text} (redeliver : Bool)
    {ids ids' : ℕ → ℕ} {r : Reply} (h : (settle sn paid tradeNo redeliver).commits ids d r d') :
    d.OrdersMoved (.request (settleRequest sn paid tradeNo redeliver) ids') d' := by
  obtain ⟨id, o, hfound, hback, hpaid, hs⟩ := settle_commits h
  obtain ⟨hget, rfl⟩ := orderBySn_some hfound
  refine settled_ordersMoved hget hback hpaid ?_ hs
  rintro rfl
  rfl

theorem flipped_ordersMoved {table : AdminTable} {id : ℕ} {restore : Bool}
    (h : d.Flipped table id restore d') : d.OrdersMoved op d' := by
  cases table with
  | orders =>
      obtain ⟨o, hget, rfl⟩ := h
      refine .of_modify (fun o => { o with deleted := !restore }) hget
        (Table.put_eq_modify hget (fun o => { o with deleted := !restore })) ?_
      exact .flagged
  | goods =>
      obtain ⟨v, -, rfl⟩ := h
      exact .of_eq rfl
  | goodsGroup =>
      obtain ⟨v, -, rfl⟩ := h
      exact .of_eq rfl
  | carmis =>
      obtain ⟨v, -, -, -, rfl⟩ := h
      exact .of_eq rfl
  | coupons =>
      obtain ⟨v, -, rfl⟩ := h
      exact .of_eq rfl

theorem request_ordersMoved {r : Request} {ids ids' : ℕ → ℕ} {reply : Reply} {now : ℤ}
    (h : (r.script env now).commits ids d reply d') : d.OrdersMoved (.request r ids') d' := by
  cases r with
  | createOrder rand inp site =>
      obtain ⟨g, c, q, info, id, reserved, made, -, hc⟩ := createOrder_commits h
      exact hc.ordersMoved rfl rfl
  | complete sn paid tradeNo => exact settle_ordersMoved false h
  | redeliver sn => exact settle_ordersMoved true h
  | lockCldxQuote sn minor expires =>
      obtain ⟨id, o, hget, ⟨-, hu, -⟩, rfl⟩ := lockCldxQuote_commits h
      refine .of_modify (fun o => o.quote minor expires) hget rfl ?_
      exact .priced hu (.getD minor) (.getD expires) .refl
  | lockUSDTInvoice sn onTime created =>
      rcases lockUSDTInvoice_commits h with rfl | ⟨id, o, raw, hget, hu, rfl⟩
      · exact .of_eq rfl
      · refine .of_modify (fun o => { o with usdtPayment := some raw }) hget rfl ?_
        exact .priced hu.1 .refl .refl (hu.2 ▸ .none)
  | orderSave id f =>
      obtain ⟨row, dst, hload, -, hdst, hstatus, -, -, rfl⟩ := orderSave_commits h
      refine .of_modify (fun o => o.saved row _ _ _ dst) (loadOrder_some hload).1 rfl ?_
      exact .saved hdst hstatus
  | goodsSave id f =>
      obtain ⟨f, -, -, ⟨-, n, -, rfl⟩ | ⟨g, -, -, rfl⟩⟩ := goodsSave_commits h <;> exact .of_eq rfl
  | couponSave id f =>
      obtain ⟨f, -, -, goods, ⟨-, n, -, rfl⟩ | ⟨c, -, -, rfl⟩⟩ := couponSave_commits h <;>
        exact .of_eq rfl
  | carmiSave id f =>
      obtain ⟨c, -, -, -, rfl⟩ := carmiSave_commits h
      exact .of_eq rfl
  | carmisImport f =>
      obtain ⟨carmis, rfl, -⟩ := carmisImport_commits h
      exact .of_eq rfl
  | markDeleted table id restore => exact flipped_ordersMoved (markDeleted_commits h)

/-- A sweep expires unpaid orders and leaves every other order alone. -/
theorem expireAll_orders (minutes : ℤ) (count : ℕ) (id : ℕ) :
    ((d.expireAll ((d.dueOrders minutes).take count)).orders.get? id = d.orders.get? id) ∨
      ∃ o, d.orders.get? id = some o ∧ o.status = .unpaid ∧
        (d.expireAll ((d.dueOrders minutes).take count)).orders.get? id = some o.expire := by
  refine expireAll_induct (P := fun x => x.orders.get? id = d.orders.get? id ∨
    ∃ o, d.orders.get? id = some o ∧ o.status = .unpaid ∧ x.orders.get? id = some o.expire) ?_ _ d
    (fun e he o ho => dueOrders_coupon (List.mem_of_mem_take he) ho) (Or.inl rfl)
  intro x i o hx hget hu
  have hx' : (x.expire i o.couponId o).orders = x.orders.modify i Order.expire := rfl
  rw [hx', Table.get?_modify]
  split_ifs with hi
  · -- an expired order is no longer unpaid, so that it expires once
    subst hi
    rw [hget, Option.map_some]
    rcases hx with hx | ⟨o₁, ho₁, -, hx⟩
    · exact Or.inr ⟨o, by rw [← hx, hget], hu, rfl⟩
    · rw [hget] at hx
      rw [Option.some.inj hx] at hu
      cases hu
  · exact hx

/-- Every operation moves the orders. -/
theorem apply_ordersMoved (env : Env) (d : DB) (op : Op) : d.OrdersMoved op (op.apply env d) := by
  cases op with
  | request r ids =>
      rcases Tx.exec_fst (r.script env d.clock) ids d with hd | ⟨reply, d', hc, he⟩
      · exact .of_eq (by rw [Op.apply, Request.answer, hd])
      · rw [Op.apply, Request.answer, he]
        exact request_ordersMoved hc
  | tick n => exact .of_eq rfl
  | expireDue minutes count =>
      have hnone : ∀ {id : ℕ} {o : Order}, d.orders.get? id = none →
          ((Op.expireDue minutes count).apply env d).orders.get? id ≠ some o := by
        intro id o hn ho
        rcases expireAll_orders minutes count id with h | ⟨o₁, ho₁, -, -⟩
        · have := h.symm.trans ho
          rw [hn] at this
          cases this
        · rw [hn] at ho₁
          cases ho₁
      refine ⟨?_, fun id o hn ho => absurd ho (hnone hn),
        fun i j o o' hn _ ho => absurd ho (hnone hn)⟩
      intro id o ho
      rcases expireAll_orders minutes count id with h | ⟨o₁, ho₁, hu, h⟩
      · exact ⟨o, h.trans ho, .same⟩
      · rw [ho] at ho₁
        obtain rfl := Option.some.inj ho₁
        exact ⟨o.expire, h, .expired hu⟩

end DB

namespace Order
variable {id : ℕ} {o o' o'' : Order} {op : Op}

theorem Fixed.refl (o : Order) : o.Fixed o := ⟨rfl, rfl, rfl, rfl, rfl, rfl, rfl, rfl, rfl, rfl⟩

theorem Fixed.trans (h : o.Fixed o') (h' : o'.Fixed o'') : o.Fixed o'' where
  orderSn := h'.orderSn.trans h.orderSn
  goodsId := h'.goodsId.trans h.goodsId
  couponId := h'.couponId.trans h.couponId
  type := h'.type.trans h.type
  goodsPrice := h'.goodsPrice.trans h.goodsPrice
  buyAmount := h'.buyAmount.trans h.buyAmount
  couponDiscountPrice := h'.couponDiscountPrice.trans h.couponDiscountPrice
  wholesaleDiscountPrice := h'.wholesaleDiscountPrice.trans h.wholesaleDiscountPrice
  totalPrice := h'.totalPrice.trans h.totalPrice
  actualPrice := h'.actualPrice.trans h.actualPrice

theorem Moves.fixed (h : o.Moves id op o') : o.Fixed o' := by
  cases h <;> exact ⟨rfl, rfl, rfl, rfl, rfl, rfl, rfl, rfl, rfl, rfl⟩

structure Later (o o' : Order) : Prop where
  fixed : o.Fixed o'
  minor : WrittenOnce o.cldxMinor o'.cldxMinor
  expires : WrittenOnce o.cldxExpiresAt o'.cldxExpiresAt
  usdt : WrittenOnce o.usdtPayment o'.usdtPayment

theorem Later.refl (o : Order) : o.Later o := ⟨.refl o, .refl, .refl, .refl⟩

theorem Later.trans (h : o.Later o') (h' : o'.Later o'') : o.Later o'' where
  fixed := h.fixed.trans h'.fixed
  minor := h.minor.trans h'.minor
  expires := h.expires.trans h'.expires
  usdt := h.usdt.trans h'.usdt

theorem Moves.later (h : o.Moves id op o') : o.Later o' := by
  have hfixed := h.fixed
  cases h with
  | priced hu hminor hexpires husdt => exact ⟨hfixed, hminor, hexpires, husdt⟩
  | _ => exact ⟨hfixed, .refl, .refl, .refl⟩

/-- The invoice of an order is first written while the order is unpaid. -/
theorem Moves.usdt (h : o.Moves id op o') :
    o'.usdtPayment = o.usdtPayment ∨ o.status = .unpaid ∧ o'.status = .unpaid := by
  cases h with
  | priced hu => exact Or.inr ⟨hu, hu⟩
  | _ => exact Or.inl rfl

/-- The form moves an order only along the owner's own transitions. -/
theorem status_of_orderStatusRefusal {dst : OrderStatus} (h : orderStatusRefusal o dst = none) :
    dst = o.status ∨ ownerMayMove o.tradeNo o.status dst = true := by
  unfold orderStatusRefusal at h
  split_ifs at h with h₁ h₂ h₃
  simp only [ne_eq, Bool.and_eq_true, decide_eq_true_eq, Bool.not_eq_true', not_and] at h₃
  by_cases he : dst = o.status
  · exact Or.inl he
  · exact Or.inr (by simpa using h₃ he)

/-- No operation brings an order back to unpaid. -/
theorem Moves.unpaid (h : o.Moves id op o') (hu : o'.status = .unpaid) : o.status = .unpaid := by
  cases h with
  | same => exact hu
  | priced h => exact h
  | flagged => exact hu
  | expired h => exact h
  | short => cases hu
  | delivered => cases hu
  | pending => cases hu
  | @saved f ids title info pwd dst hdst hstatus =>
      have hd : dst = .unpaid := hu
      subst hd
      rcases status_of_orderStatusRefusal hstatus with h | h
      · exact h.symm
      · simp [ownerMayMove] at h

/-- A delivered order stays delivered. -/
theorem Moves.completed (h : o.Moves id op o')
    (hc : o.status = .completed) : o'.status = .completed := by
  cases h with
  | same => exact hc
  | priced => exact hc
  | flagged => exact hc
  | expired h => rw [hc] at h; cases h
  | short h => simp [payable, hc] at h
  | delivered => rfl
  | pending h => simp [hc] at h
  | @saved f ids title info pwd dst hdst hstatus =>
      rcases status_of_orderStatusRefusal hstatus with h | h
      · exact h.trans hc
      · simp [ownerMayMove, hc] at h

end Order

section Runs
variable (env : Env) {d : DB} {id : ℕ} (ops : List Op)

/-- What every move of an order keeps, a run keeps of it. -/
theorem runOps_order {P : Order → Prop}
    (hstep : ∀ o op o', op ∈ ops → P o → o.Moves id op o' → P o') {o : Order}
    (ho : d.orders.get? id = some o) (h : P o) :
    ∃ o', (runOps env ops d).orders.get? id = some o' ∧ P o' := by
  refine runOps_induct (P := fun d => ∃ o', d.orders.get? id = some o' ∧ P o') ?_ ⟨o, ho, h⟩
  rintro x op hop ⟨o₁, ho₁, h₁⟩
  obtain ⟨o₂, ho₂, hm⟩ := (x.apply_ordersMoved env op).old id o₁ ho₁
  exact ⟨o₂, ho₂, hstep o₁ op o₂ hop h₁ hm⟩

/-- The columns fixed at creation stay, and an order that left the unpaid status stays out of it. -/
theorem runOps_fixed {o o' : Order} (ho : d.orders.get? id = some o)
    (ho' : (runOps env ops d).orders.get? id = some o') :
    o.Fixed o' ∧ (o'.status = .unpaid → o.status = .unpaid) := by
  obtain ⟨o₂, ho₂, h⟩ := runOps_order env ops
    (P := fun x => o.Fixed x ∧ (x.status = .unpaid → o.status = .unpaid))
    (fun o₁ op o₂ _ h hm => ⟨h.1.trans hm.fixed, fun hu => h.2 (hm.unpaid hu)⟩) ho
    ⟨.refl o, fun h => h⟩
  rw [ho'] at ho₂
  rw [Option.some.inj ho₂]
  exact h

/-- Two orders never share an order number. -/
def DB.UniqueSn (d : DB) : Prop :=
  ∀ i j o o', d.orders.get? i = some o → d.orders.get? j = some o' → o.orderSn = o'.orderSn → i = j

theorem DB.OrdersMoved.uniqueSn {op : Op} {d' : DB} (hm : d.OrdersMoved op d') (h : d.UniqueSn) :
    d'.UniqueSn := by
  intro i j o o' ho ho' he
  cases hi : d.orders.get? i with
  | some o₁ =>
      obtain ⟨o₂, ho₂, hm₂⟩ := hm.old i o₁ hi
      rw [ho] at ho₂
      obtain rfl := Option.some.inj ho₂
      cases hj : d.orders.get? j with
      | some o₃ =>
          obtain ⟨o₄, ho₄, hm₄⟩ := hm.old j o₃ hj
          rw [ho'] at ho₄
          obtain rfl := Option.some.inj ho₄
          exact h i j o₁ o₃ hi hj (by rw [← hm₂.fixed.orderSn, ← hm₄.fixed.orderSn, he])
      | none =>
          exact absurd (by rw [← hm₂.fixed.orderSn, he]) ((hm.new j o' hj ho').2.2.2.2 i o₁ hi)
  | none =>
      obtain ⟨-, -, -, -, hi'⟩ := hm.new i o hi ho
      cases hj : d.orders.get? j with
      | some o₃ =>
          obtain ⟨o₄, ho₄, hm₄⟩ := hm.old j o₃ hj
          rw [ho'] at ho₄
          obtain rfl := Option.some.inj ho₄
          exact absurd (by rw [← hm₄.fixed.orderSn, he]) (hi' j o₃ hj)
      | none => exact hm.single i j o o' hi hj ho ho'

/-- In every run that starts without orders, the order numbers stay unique. -/
theorem runOps_uniqueSn (h : d.UniqueSn) : (runOps env ops d).UniqueSn :=
  runOps_induct (fun x op _ hx => (x.apply_ordersMoved env op).uniqueSn hx) h

theorem DB.uniqueSn_of_empty (h : d.orders = Table.empty) : d.UniqueSn := by
  intro i j o o' ho
  rw [h] at ho
  cases ho

/-- Order numbers are unique, and none has a colon: those of a checkout are hexadecimal, those of an
imported shop alphanumeric. -/
structure DB.Numbered (d : DB) : Prop where
  unique : d.UniqueSn
  plain : ∀ i o, d.orders.get? i = some o → ':' ∉ o.orderSn

theorem newSN_plain (rand : Fin 8 → Fin 256) : ':' ∉ newSN rand := by
  have hdigit : ∀ n : Fin 16, ':' ≠ hexDigit n := by decide
  intro h
  obtain ⟨x, -, hx⟩ := List.mem_flatMap.mp h
  have hlt : x.val / 16 < 16 := by omega
  have hlt' : x.val % 16 < 16 := by omega
  rcases List.mem_pair.mp hx with hx | hx
  · exact hdigit ⟨x.val / 16, hlt⟩ hx
  · exact hdigit ⟨x.val % 16, hlt'⟩ hx

def DB.Later (d d' : DB) : Prop :=
  ∀ i o, d.orders.get? i = some o → ∃ o', d'.orders.get? i = some o' ∧ o.Later o'

theorem DB.Later.refl (d : DB) : d.Later d := fun _ o ho => ⟨o, ho, .refl o⟩

theorem DB.Later.trans {d' d'' : DB} (h : d.Later d') (h' : d'.Later d'') : d.Later d'' := by
  intro i o ho
  obtain ⟨o', ho', hl⟩ := h i o ho
  obtain ⟨o'', ho'', hl'⟩ := h' i o' ho'
  exact ⟨o'', ho'', hl.trans hl'⟩

theorem DB.OrdersMoved.later {op : Op} {d' : DB} (hm : d.OrdersMoved op d') : d.Later d' := by
  intro i o ho
  obtain ⟨o', ho', hmove⟩ := hm.old i o ho
  exact ⟨o', ho', hmove.later⟩

theorem DB.OrdersMoved.numbered {op : Op} {d' : DB} (hm : d.OrdersMoved op d') (h : d.Numbered) :
    d'.Numbered := by
  refine ⟨hm.uniqueSn h.unique, fun i o' ho' => ?_⟩
  cases ho : d.orders.get? i with
  | some o =>
      obtain ⟨o₂, ho₂, hmove⟩ := hm.old i o ho
      rw [ho'] at ho₂
      rw [Option.some.inj ho₂, hmove.fixed.orderSn]
      exact h.plain i o ho
  | none =>
      obtain ⟨-, -, -, ⟨rand, -, -, -, -, hsn, -⟩, -⟩ := hm.new i o' ho ho'
      rw [hsn]
      exact newSN_plain rand

/-- The order an order number names. -/
theorem DB.UniqueSn.orderBySn (h : d.UniqueSn) {o : Order} (ho : d.orders.get? id = some o) :
    d.orderBySn o.orderSn = some (id, o) := by
  refine Table.find?_eq_some_of_unique ho (by simp) ?_
  intro j o' ho' he
  exact h j id o' o ho' ho (by simpa using he)

end Runs
end Dufaka
