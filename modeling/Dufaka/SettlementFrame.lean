import Dufaka.CouponUses
import Dufaka.SalesVolume

/-!
# What a settlement leaves alone

The exits of a settlement that fulfil nothing. An error of `Complete` other than short stock, and
every end of a redelivery that hands nothing over, leave the database as it was, whichever statement
of the transaction failed; short stock commits the payment and one order row. A notice repeated for
a payment on record comes back to the short-stock exit as long as the cards are missing, and writes
it again.
-/

namespace Dufaka
open Relational Tx

/-! ### Failing settlements -/

def isError : Option Reply → Bool
  | none => true
  | some (.err _) => true
  | some .internal => true
  | _ => false

def paidShort (r : Option Reply) : Bool := r.any isPaidShort

/-- All that short stock changes: one order row, and the coupon whose use is taken again. -/
structure DB.PaidShort (d : DB) (sn : Text) (paid : Cents) (trade : Text) (id : ℕ) (o : Order)
    (back : RetBack) (d' : DB) : Prop where
  found : d.orders.get? id = some o
  orderSn : o.orderSn = sn
  paid : paid = o.actualPrice
  order : d'.orders = d.orders.modify id (fun _ =>
    { o with
      status := .abnormal
      info := (o.short trade back).info
      tradeNo := trade
      couponRetBack := back
      stockOwed := o.type = .manual })
  coupons : (d'.coupons = d.coupons ∧ (back = o.couponRetBack ∨
      (o.couponRetBack = .returned ∧ back = .unrecoverable))) ∨
    (o.couponRetBack = .returned ∧ back = .held ∧ ∃ c, d.coupons.get? o.couponId = some c ∧
      0 < c.ret ∧ d'.coupons = d.coupons.put o.couponId { c with ret := c.ret - 1 })
  cards : d'.carmis = d.carmis
  goods : d'.goods = d.goods
  rest : d'.clock = d.clock ∧ d'.goodsGroup = d.goodsGroup ∧ d'.couponsGoods = d.couponsGoods ∧
    d'.pays = d.pays
  info : o.type = .manual → ∃ first, '\n' ∉ first ∧
    (o.short trade back).info = first ++ '\n' :: o.info

section Failing
variable {d d' : DB} {sn trade : Text} {paid : Cents} {ids : ℕ → ℕ} {n : ℕ}

theorem Settled.paidShort {id : ℕ} {o : Order} (hfound : d.orderBySn sn = some (id, o))
    (hpaid : paid = o.actualPrice) (h : Settled d id o trade false (.err msgShortStock) d') :
    ∃ back, d.PaidShort sn paid trade id o back d' := by
  obtain ⟨hget, hsn⟩ := DB.orderBySn_some hfound
  cases h with
  | @short coupons back hp hr hret hcards hstock =>
      refine ⟨back, ?_⟩
      refine
        { found := hget
          orderSn := hsn
          paid := hpaid
          order := Table.modify_eq_const hget (fun o => o.short trade back)
          coupons := ?_
          cards := rfl
          goods := rfl
          rest := ⟨rfl, rfl, rfl, rfl⟩
          info := ?_ }
      · cases hret with
        | keep => exact Or.inl ⟨rfl, Or.inl rfl⟩
        | taken c hid hback hc hret =>
            refine Or.inr ⟨hback, rfl, c, hc, hret, ?_⟩
            exact (Table.put_eq_modify hc (fun c => { c with ret := c.ret - 1 })).symm
        | lost hid hback => exact Or.inl ⟨rfl, Or.inr ⟨hback, rfl⟩⟩
      · intro hm
        refine ⟨msgShortStock, by decide, ?_⟩
        simp [Order.short, hm]

/-- An error of `Complete` is short stock, which is committed, or it changes nothing. -/
theorem complete_error {r : Option Reply} (h : (complete sn paid trade).execFor n ids d = (d', r)) :
    (isError r = true → paidShort r = false → d' = d) ∧
      (paidShort r = true → ∃ id o back, d.PaidShort sn paid trade id o back d') := by
  rcases execFor_cases (E := settleEnd false) (p := complete sn paid trade) settle_ends n ids d with
    ⟨reply, d₁, hc, he⟩ | ⟨reply, hend, he⟩ | he
  · rw [h] at he
    obtain ⟨rfl, rfl⟩ := Prod.mk.inj he
    obtain ⟨id, o, hfound, -, hpaid, hs⟩ := settle_commits hc
    have hshort : paidShort (some reply) = true →
        ∃ id o back, d.PaidShort sn paid trade id o back d' := by
      intro hp
      have hreply : reply = .err msgShortStock := by simpa [paidShort, isPaidShort] using hp
      subst hreply
      obtain ⟨back, hback⟩ := hs.paidShort hfound (hpaid rfl)
      exact ⟨id, o, back, hback⟩
    refine ⟨fun herr hno => ?_, hshort⟩
    cases hs with
    | already => rfl
    | short => simp [paidShort, isPaidShort] at hno
    | cards => simp [isError] at herr
    | manual => simp [isError] at herr
  · rw [h] at he
    obtain ⟨rfl, rfl⟩ := Prod.mk.inj he
    refine ⟨fun _ _ => rfl, fun hp => ?_⟩
    have hreply : reply = .err msgShortStock := by simpa [paidShort, isPaidShort] using hp
    rcases hend rfl with ⟨-, hredeliver⟩ | ⟨msg, hmsg, honly⟩
    · cases hredeliver
    · rw [hmsg] at hreply
      exact absurd (honly (Reply.err.inj hreply)) (by decide)
  · rw [h] at he
    obtain ⟨rfl, rfl⟩ := Prod.mk.inj he
    exact ⟨fun _ _ => rfl, fun hp => by simp [paidShort] at hp⟩

/-- A redelivery that hands nothing over changes nothing. -/
theorem redeliver_undelivered {r : Option Reply} (h : (redeliver sn).execFor n ids d = (d', r))
    (hno : ∀ id cards, r ≠ some (.delivered id cards)) : d' = d := by
  rcases execFor_cases (E := settleEnd true) (p := redeliver sn) settle_ends n ids d with
    ⟨reply, d₁, hc, he⟩ | ⟨reply, -, he⟩ | he
  · rw [h] at he
    obtain ⟨rfl, rfl⟩ := Prod.mk.inj he
    obtain ⟨id, o, hfound, -, -, hs⟩ := settle_commits hc
    cases hs with
    | already => rfl
    | short hp hr => cases hr
    | cards => exact absurd rfl (hno _ _)
    | manual => exact absurd rfl (hno _ _)
  · rw [h] at he
    exact (Prod.mk.inj he).1
  · rw [h] at he
    exact (Prod.mk.inj he).1

/-- A form of an order that is not saved changes nothing. -/
theorem orderSave_refused {id : ℕ} {f : OrderForm} {r : Option Reply}
    (h : (orderSave id f).execFor n ids d = (d', r)) (hno : r ≠ some .ok) : d' = d := by
  rcases execFor_cases (E := fun _ _ => True) (p := orderSave id f) (ends_true _) n ids d with
    ⟨reply, d₁, hc, he⟩ | ⟨reply, -, he⟩ | he
  · rw [h] at he
    obtain ⟨rfl, rfl⟩ := Prod.mk.inj he
    obtain ⟨row, dst, -, -, -, -, hok, -⟩ := orderSave_commits hc
    exact absurd (by rw [hok]) hno
  · rw [h] at he
    exact (Prod.mk.inj he).1
  · rw [h] at he
    exact (Prod.mk.inj he).1

/-- Whichever statement fails: an error of `Complete` other than short stock, a redelivery that
hands nothing over and an order form refused for want of stock change no row, and short stock
changes exactly the order row and the coupon whose use is taken again. -/
theorem settlement_failures_atomic (d d' : DB) (ids : ℕ → ℕ) (n : ℕ) (r : Option Reply) :
    (∀ sn paid trade, (complete sn paid trade).execFor n ids d = (d', r) →
      (isError r = true → paidShort r = false → d' = d) ∧
      (paidShort r = true → ∃ id o back, d.PaidShort sn paid trade id o back d')) ∧
    (∀ sn, (redeliver sn).execFor n ids d = (d', r) → (∀ id cards, r ≠ some (.delivered id cards)) →
      d' = d) ∧
    ∀ id f, (orderSave id f).execFor n ids d = (d', r) → r = some (.err orderManualShort) →
    d' = d := by
  refine ⟨fun sn paid trade h => complete_error h, fun sn h hno => redeliver_undelivered h hno, ?_⟩
  rintro id f h rfl
  exact orderSave_refused h (by nofun)

end Failing

def tinyLate : DB :=
  runOps tinyEnv [tinyBuy 2 1 [], .tick 600000000, .expireDue 5 1, tinyBuy 2 2 []] tinyShop

/-- A late payment of the expired order meets short stock. -/
theorem settlement_failures_atomic_late :
    ∃ id o back, tinyLate.PaidShort (tinySn 1) 100 "t".toList id o
    back ((complete (tinySn 1) 100 "t".toList).execFor 20 (fun n => n) tinyLate).1 :=
  ((settlement_failures_atomic tinyLate _ (fun n => n) 20 _).1 (tinySn 1) 100 "t".toList rfl).2
    (by decide)

/-! ### Repeated notices -/

section Repeated
variable {d : DB} {id : ℕ} {o : Order}

/-- A notice for a payment on record writes its order only in the short-stock exit of an automatic
order in 异常, where no coupon use is left to take. -/
theorem repeated_short {trade : Text} {redeliver : Bool} {r : Reply} {d' : DB} (huses : d.UsesHeld)
    (howes : d.OwesInAbnormal) (ho : d.orders.get? id = some o) (hu : o.status ≠ .unpaid)
    (he : o.status ≠ .expired) (hno : ∀ cards, r ≠ .delivered id cards)
    (hs : Settled d id o trade redeliver r d') :
    (o.recorded ∧ d' = d) ∨ (o.type = .auto ∧ o.status = .abnormal ∧
      d' = { d with
        orders := d.orders.put id { o with info := msgShortStock, tradeNo := trade } }) := by
  cases hs with
  | already hrec => exact Or.inl ⟨hrec, rfl⟩
  | cards => exact absurd rfl (hno _)
  | manual => exact absurd rfl (hno _)
  | @short coupons back hp hr hret =>
      obtain ⟨hab, hauto⟩ : o.status = .abnormal ∧ o.type = .auto := by
        rcases hp with h | h | h
        · exact absurd h hu
        · exact absurd h he
        · exact h
      have hkept : coupons = d.coupons ∧ back = o.couponRetBack := by
        have hnone : ¬ (0 < o.couponId ∧ o.couponRetBack = .returned) := by
          rintro ⟨hid, hback⟩
          rcases (huses id o ho).2 hback with h | h
          · omega
          · exact he h
        cases hret with
        | keep => exact ⟨rfl, rfl⟩
        | taken c hid hback => exact absurd ⟨hid, hback⟩ hnone
        | lost hid hback => exact absurd ⟨hid, hback⟩ hnone
      obtain ⟨rfl, rfl⟩ := hkept
      have howed : o.stockOwed = false := by
        rw [Bool.eq_false_iff]
        intro h
        exact absurd (hauto.symm.trans ((howes id o ho).mp h).1) nofun
      have hrow : o.short trade o.couponRetBack =
          { o with info := msgShortStock, tradeNo := trade } := by
        cases o
        simp only at hauto hab howed
        subst hauto hab howed
        rfl
      refine Or.inr ⟨hauto, hab, ?_⟩
      rw [← Table.put_eq_modify ho, hrow]

end Repeated

/-- A later notice for a payment on record that delivers no cards leaves every row as it was,
exactly unless it meets short stock again and finds another text or trade number on file. -/
theorem repeated_notice_frame (env : Env) (d : DB) (h₀ : d.orders = Table.empty) (ops : List Op)
    (id : ℕ) (o : Order) (ho : (runOps env ops d).orders.get? id = some o) (hu : o.status ≠ .unpaid)
    (he : o.status ≠ .expired) (paid : Cents) (trade : Text) (ids : ℕ → ℕ)
    (hno : ∀ cards, ((Request.complete o.orderSn paid trade).answer env ids (runOps env ops d)).2 ≠
      some (.delivered id cards)) :
    ((Request.complete o.orderSn paid trade).answer env ids (runOps env ops d)).1 =
    runOps env ops d ↔
      ¬ (o.type = .auto ∧ o.status = .abnormal ∧ paid = o.actualPrice) ∨
        (o.info = msgShortStock ∧ o.tradeNo = trade) := by
  have hfound := (runOps_uniqueSn env ops (DB.uniqueSn_of_empty h₀)).orderBySn ho
  have huses : (runOps env ops d).UsesHeld := runOps_usesHeld env ops h₀
  have howes : (runOps env ops d).OwesInAbnormal :=
    runOps_induct (fun x op _ hx => apply_owes hx) (owesInAbnormal_of_empty h₀)
  generalize runOps env ops d = d₁ at *
  rw [Request.answer, Request.script] at hno ⊢
  rcases exec_commits_or (complete o.orderSn paid trade) ids d₁ with ⟨r, d', hc, hans⟩ | ⟨hnot,
    hans⟩
  · rw [hans] at hno ⊢
    obtain ⟨id', o', hfound', -, hpaid, hs⟩ := settle_commits hc
    rw [hfound] at hfound'
    obtain ⟨rfl, rfl⟩ := Prod.mk.inj (Option.some.inj hfound')
    rcases repeated_short huses howes ho hu he (fun cards hr => hno cards (by rw [hr])) hs with
      ⟨hrec, rfl⟩ | ⟨hauto, hab, rfl⟩
    · refine ⟨fun _ => Or.inl ?_, fun _ => rfl⟩
      rintro ⟨hauto, hab, -⟩
      simp [Order.recorded, hauto, hab] at hrec
    · have hput : { d₁ with
            orders := d₁.orders.put id { o with info := msgShortStock, tradeNo := trade } }
          = d₁ ↔ o.info = msgShortStock ∧ o.tradeNo = trade := by
        constructor
        · intro heq
          have hget :
              (d₁.orders.put id { o with info := msgShortStock, tradeNo := trade }).get? id =
              d₁.orders.get? id := congrArg (fun x : DB => x.orders.get? id) heq
          rw [Table.get?_put_self, ho] at hget
          have hrow := Option.some.inj hget
          exact ⟨(congrArg Order.info hrow).symm, (congrArg Order.tradeNo hrow).symm⟩
        · rintro ⟨hinfo, htrade⟩
          have hsame : ({ o with info := msgShortStock, tradeNo := trade } : Order) = o := by
            rw [← hinfo, ← htrade]
          rw [hsame, Table.put_get?_self ho]
      have hpay : paid = o.actualPrice := hpaid rfl
      rw [show o.tradeFor trade false = trade from rfl, hput]
      refine ⟨Or.inr, fun h => h.resolve_left (fun hn => hn ⟨hauto, hab, hpay⟩)⟩
  · refine ⟨fun _ => Or.inl ?_, fun _ => hans⟩
    rintro ⟨-, hab, rfl⟩
    obtain ⟨r, d', hc⟩ := exists_commits (complete_succeeds trade ids hfound (by simp [hab]))
    exact hnot r d' hc

/-- The notice of a manual order's payment arrives a second time. -/
theorem repeated_notice_frame_pending :
    ((Request.complete (tinySn 1) 100 "t".toList).answer tinyEnv (fun n => n)
      (runOps tinyEnv [tinyBuy 2 1 [], tinyPay 1] tinyShop)).1 =
      runOps tinyEnv [tinyBuy 2 1 [], tinyPay 1] tinyShop :=
  (repeated_notice_frame tinyEnv tinyShop rfl [tinyBuy 2 1 [], tinyPay 1] 1
    ((tinyOrder 1).handToOwner "t".toList .held) (by decide) (by decide) (by decide) 100
    "t".toList (fun n => n) (fun cards h => by
      have hans : ((Request.complete (tinySn 1) 100 "t".toList).answer tinyEnv (fun n => n)
          (runOps tinyEnv [tinyBuy 2 1 [], tinyPay 1] tinyShop)).2 = some .already := by decide
      exact absurd (hans.symm.trans h) nofun)).mpr (Or.inl (by decide))

def tinyNoted : List Op :=
  [tinyBuy 1 1 [], .tick 600000000, .expireDue 5 1, tinyBuy 1 2 [], tinyPay 1,
    tinySave 1 "note".toList .abnormal]

/-- The repeated notice overwrites the owner's note. -/
theorem repeated_notice_overwrites :
    ¬ ∀ (env : Env) (d : DB) (ops : List Op) (id : ℕ) (o : Order) (paid : Cents) (trade : Text)
      (ids : ℕ → ℕ), d.orders = Table.empty → (runOps env ops d).orders.get? id = some o →
      o.status ≠ .unpaid → o.status ≠ .expired →
      (∀ cards, ((Request.complete o.orderSn paid trade).answer env ids (runOps env ops d)).2 ≠
        some (.delivered id cards)) →
      ((Request.complete o.orderSn paid trade).answer env ids (runOps env ops d)).1 =
      runOps env ops d := by
  intro h
  have hans : ((Request.complete (tinySn 1) 100 "t".toList).answer tinyEnv (fun n => n)
      (runOps tinyEnv tinyNoted tinyShop)).2 = some (.err msgShortStock) := by decide
  have hsame := h tinyEnv tinyShop tinyNoted 1
    { tinyAutoOrder.expire.short "t".toList .returned with info := "note".toList } 100 "t".toList
    (fun n => n) rfl (by decide) (by decide) (by decide)
    (fun cards hc => absurd (hans.symm.trans hc) nofun)
  revert hsame
  decide

end Dufaka
