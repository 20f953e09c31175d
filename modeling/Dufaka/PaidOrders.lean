import Dufaka.ShopLedgers
import Dufaka.CardPromises

/-!
# Order statuses under concurrency

An order leaves 待支付 and 已过期 only through a payment of its exact amount, and a paid order goes on
along the owner's form or a redelivery. The form checks the status before it writes, and writes only
where the status is still the one it checked; so a stale form moves no order back. The sweep writes
an order off only when its time is over, and until then the order keeps what it was promised.
-/

namespace Dufaka
open Relational Tx

def Order.isPaid (o : Order) : Prop := o.status ≠ .unpaid ∧ o.status ≠ .expired

/-- What one commit of `tag`, which began at `now` and answers `r`, makes of the status of the order
`id`. -/
inductive Order.Path (now : ℤ) (id : ℕ) (tag : ShopTx) (r : Reply) (o o' : Order) : Prop
  | same (h : o'.status = o.status)
  | expired {minutes : ℤ} {n : ℕ} (htag : tag = .expire minutes n)
      (hdue : o.createdAt < now - effectiveMinutes minutes * minute) (hs : o.status = .unpaid)
      (hs' : o'.status = .expired)
  | paid {trade : Text} (htag : tag = .request (.complete o.orderSn o.actualPrice trade))
      (hs : o.status = .unpaid ∨ o.status = .expired)
      (hs' : o'.status = .pending ∨ o'.status = .completed ∨ o'.status = .abnormal)
      (hr : (∃ cards, r = .delivered id cards) ∨ r = .err msgShortStock)
  | delivered {cards : List ℕ} (hs : o.status = .abnormal) (hs' : o'.status = .completed)
      (hr : r = .delivered id cards)
  | saved {f : OrderForm} {trade : Text} (htag : tag = .request (.orderSave id f))
      (hmove : ownerMayMove trade o.status o'.status = true)

/-- The answers hold one of a payment of the exact amount of the order, delivered or short. -/
def PaidAmong (l : List (ShopTx × Reply)) (id : ℕ) (o : Order) : Prop :=
  ∃ trade r, ((.request (.complete o.orderSn o.actualPrice trade) : ShopTx), r) ∈ l ∧
    ((∃ cards, r = .delivered id cards) ∨ r = .err msgShortStock)

structure Order.Progress (l : List (ShopTx × Reply)) (id : ℕ) (o o' : Order) : Prop where
  onward : o.Onward o'
  paid : o.isPaid → o'.isPaid
  completed : o.status = .completed → o'.status = .completed
  exact : o'.isPaid → o.isPaid ∨ PaidAmong l id o

section Steps
variable {env : Env} {calm : Prop} {now : ℤ} {tag : ShopTx} {r : Reply} {d d' : DB} {L : Locks Key}
  {id : ℕ}
  {o o' o'' : Order} {l : List (ShopTx × Reply)}

theorem ownerMayMove_src {trade : Text} {src dst : OrderStatus}
    (h : ownerMayMove trade src dst = true) :
    src ≠ .unpaid ∧ src ≠ .expired ∧ src ≠ .completed := by
  refine ⟨?_, ?_, ?_⟩ <;> rintro rfl <;> simp [ownerMayMove] at h

theorem ownerMayMove_dst {trade : Text} {src dst : OrderStatus}
    (h : ownerMayMove trade src dst = true) :
    dst ≠ .unpaid ∧ dst ≠ .expired := by
  refine ⟨?_, ?_⟩ <;> rintro rfl <;> simp [ownerMayMove] at h

/-- A settlement moves the order it locked. -/
theorem SettledAmong.path {i : ℕ} {o₁ : Order} {paid : Cents} {trade tradeNo : Text}
    {redeliver : Bool} (hs : SettledAmong d i o₁ trade redeliver r d')
    (ho₁ : d.orders.get? i = some o₁)
    (hback : redeliver = true → o₁.status = .abnormal ∧ o₁.type = .auto)
    (hpaid : redeliver = false → paid = o₁.actualPrice)
    (htag : tag = .request (settleRequest o₁.orderSn paid tradeNo redeliver))
    (ho : d.orders.get? id = some o) (ho' : d'.orders.get? id = some o') :
    o.Path now id tag r o' := by
  obtain ⟨seen, left, hs⟩ := hs.seen
  generalize hd : ({ d' with carmis := left } : DB) = d₂ at hs
  have hd' : d'.orders = d₂.orders := by rw [← hd]
  rw [hd'] at ho'
  -- the other orders stand still
  have hexit : ∀ {f : Order → Order}, d₂.orders = d.orders.modify i f →
      (id = i → o₁.Path now i tag r (f o₁)) → o.Path now id tag r o' := by
    intro f he hpath
    rw [he, Table.get?_modify] at ho'
    split_ifs at ho' with hi
    · subst hi
      rw [ho₁, Option.map_some] at ho'
      obtain rfl := Option.some.inj ho'
      obtain rfl := Option.some.inj (ho.symm.trans ho₁)
      exact hpath rfl
    · obtain rfl := Option.some.inj (ho.symm.trans ho')
      exact .same rfl
  -- a settlement of an order that waited for its payment is one of a `Complete`
  have hcomplete : o₁.status = .unpaid ∨ o₁.status = .expired →
      tag = .request (.complete o₁.orderSn o₁.actualPrice tradeNo) := by
    intro hw
    cases redeliver with
    | true =>
        rw [(hback rfl).1] at hw
        rcases hw with hw | hw <;> cases hw
    | false =>
        rw [htag, hpaid rfl]
        rfl
  cases hs with
  | already =>
      obtain rfl := Option.some.inj (ho.symm.trans ho')
      exact .same rfl
  | @short coupons back hp hr hret =>
      refine hexit (f := fun o => o.short trade back) rfl (fun _ => ?_)
      rcases hp with hu | hu | ⟨hab, -⟩
      · exact .paid (hcomplete (Or.inl hu)) (Or.inl hu) (Or.inr (Or.inr rfl)) (Or.inr rfl)
      · exact .paid (hcomplete (Or.inr hu)) (Or.inr hu) (Or.inr (Or.inr rfl)) (Or.inr rfl)
      · exact .same hab.symm
  | @cards coupons back cards hp =>
      refine hexit (f := fun o => o.deliver _ trade back) rfl (fun _ => ?_)
      rcases hp with hu | hu | ⟨hab, -⟩
      · exact .paid (hcomplete (Or.inl hu)) (Or.inl hu) (Or.inr (Or.inl rfl)) (Or.inl ⟨cards, rfl⟩)
      · exact .paid (hcomplete (Or.inr hu)) (Or.inr hu) (Or.inr (Or.inl rfl)) (Or.inl ⟨cards, rfl⟩)
      · exact .delivered hab rfl rfl
  | @manual coupons back hu =>
      refine hexit (f := fun o => o.handToOwner trade back) rfl (fun _ => ?_)
      exact .paid (hcomplete hu) hu (Or.inl rfl) (Or.inl ⟨[], rfl⟩)

theorem ShopStep.path (h : ShopStep env calm now L d tag r d') (ho : d.orders.get? id = some o)
    (ho' : d'.orders.get? id = some o') : o.Path now id tag r o' := by
  have hsame : d'.orders = d.orders → o.Path now id tag r o' := by
    intro he
    rw [he, ho] at ho'
    exact .same (by rw [← Option.some.inj ho'])
  -- one order is written, with the given path
  have hput : ∀ {i : ℕ} {o₁ o₂ : Order}, d.orders.get? i = some o₁ → d'.orders = d.orders.put i o₂ →
      (id = i → o₁.Path now i tag r o₂) → o.Path now id tag r o' := by
    intro i o₁ o₂ hi he hpath
    rw [he] at ho'
    rcases Table.get?_put_some ho' with ⟨rfl, rfl⟩ | ⟨-, ho'⟩
    · obtain rfl := Option.some.inj (ho.symm.trans hi)
      exact hpath rfl
    · obtain rfl := Option.some.inj (ho.symm.trans ho')
      exact .same rfl
  cases h with
  | same | goodsSaved | couponSaved | carmiSaved | imported => exact hsame rfl
  | created hc =>
      rw [hc.orders] at ho'
      rcases Table.get?_put_some ho' with ⟨rfl, -⟩ | ⟨-, ho'⟩
      · rw [hc.fresh] at ho
        cases ho
      · obtain rfl := Option.some.inj (ho.symm.trans ho')
        exact .same rfl
  | settled ho₁ hown hback hpaid hs => exact hs.path ho₁ hback hpaid rfl ho ho'
  | @expired minutes n i o₁ ho₁ hu hown hdue =>
      exact hput ho₁ (Table.put_eq_modify ho₁ Order.expire).symm (fun _ => .expired rfl hdue hu rfl)
  | @saved i f o₁ trade dst ho₁ hdst hstatus =>
      refine hput ho₁ (Table.put_eq_modify ho₁ (fun x => x.saved o₁ _ _ _ dst)).symm (fun hi => ?_)
      rcases Order.status_of_orderStatusRefusal hstatus with hd | hm
      · exact .same hd
      · exact .saved rfl hm
  | @quoted tag r i o₁ o₂ ho₁ hq =>
      refine hput ho₁ rfl (fun _ => .same ?_)
      unfold Order.quotedAs at hq
      rw [hq]
  | @flipped table i restore d' hf hown =>
      cases table with
      | orders =>
          obtain ⟨o₁, ho₁, rfl⟩ := hf
          exact hput ho₁ rfl (fun _ => .same rfl)
      | carmis =>
          obtain ⟨v, -, -, -, rfl⟩ := hf
          exact hsame rfl
      | goods | goodsGroup | coupons =>
          obtain ⟨v, -, rfl⟩ := hf
          exact hsame rfl

theorem Order.Progress.refl (l : List (ShopTx × Reply)) (id : ℕ) (o : Order) : o.Progress l id o :=
  ⟨.refl o, fun h => h, fun h => h, Or.inl⟩

/-- A commit, and what came after it. -/
theorem Order.Progress.cons (h : o.Path now id tag r o') (hon : o.Onward o')
    (hl : o'.Progress l id o'') :
    o.Progress ((tag, r) :: l) id o'' where
  onward := hon.trans hl.onward
  paid hp := by
    refine hl.paid ?_
    cases h with
    | same he =>
        unfold isPaid
        rw [he]
        exact hp
    | expired htag hdue hs => exact absurd hs hp.1
    | paid htag hs hs' =>
        rcases hs' with he | he | he <;> exact ⟨by rw [he]; decide, by rw [he]; decide⟩
    | delivered hs hs' => exact ⟨by rw [hs']; decide, by rw [hs']; decide⟩
    | saved htag hmove => exact ownerMayMove_dst hmove
  completed hc := by
    refine hl.completed ?_
    cases h with
    | same he => exact he.trans hc
    | expired htag hdue hs =>
        rw [hc] at hs
        cases hs
    | delivered hs =>
        rw [hc] at hs
        cases hs
    | paid htag hs =>
        rw [hc] at hs
        rcases hs with hs | hs <;> cases hs
    | saved htag hmove => exact absurd hc (ownerMayMove_src hmove).2.2
  exact hp := by
    rcases hl.exact hp with hp' | ⟨trade, r', hmem, hr'⟩
    · cases h with
      | same he =>
          refine Or.inl ?_
          unfold isPaid at hp' ⊢
          rw [← he]
          exact hp'
      | expired htag hdue hs hs' => exact absurd hs' hp'.2
      | @paid trade htag hs hs' hr =>
          exact Or.inr ⟨trade, r, by rw [← htag]; exact List.mem_cons_self, hr⟩
      | delivered hs =>
          exact Or.inl ⟨by rw [hs]; decide, by rw [hs]; decide⟩
      | saved htag hmove =>
          obtain ⟨hu, he, -⟩ := ownerMayMove_src hmove
          exact Or.inl ⟨hu, he⟩
    · rw [hon.fixed.orderSn, hon.fixed.actualPrice] at hmem
      exact Or.inr ⟨trade, r', List.mem_cons_of_mem _ hmem, hr'⟩

theorem PaidAmong.cons {p : ShopTx × Reply} (h : PaidAmong l id o) : PaidAmong (p :: l) id o := by
  obtain ⟨trade, r', hmem, hr⟩ := h
  exact ⟨trade, r', List.mem_cons_of_mem _ hmem, hr⟩

/-- An order whose cards a commit hands over is paid then. -/
theorem ShopStep.delivered_isPaid {cards : List ℕ}
    (h : ShopStep env calm now L d tag (.delivered id cards) d') (hne : cards ≠ []) :
    ∃ o', d'.orders.get? id = some o' ∧ o'.isPaid := by
  generalize hr : Reply.delivered id cards = r at h
  have hhand : ∀ {r' : Reply}, r = r' → r'.handed ≠ [] := by
    rintro r' rfl
    rw [← hr]
    exact hne
  cases h with
  | same hn | quoted _ _ _ hn => exact absurd hn (hhand rfl)
  | created | expired | saved | goodsSaved | couponSaved | carmiSaved | imported | flipped =>
      exact absurd rfl (hhand rfl)
  | @settled paid tradeNo redeliver i o r d' ho hown hback hpaid hs =>
      obtain ⟨seen, left, hs⟩ := hs.seen
      generalize hd : ({ d' with carmis := left } : DB) = d₂ at hs
      have hd' : d'.orders = d₂.orders := by rw [← hd]
      rw [hd']
      cases hs with
      | already | short => cases hr
      | @cards coupons back cards' =>
          obtain ⟨rfl, rfl⟩ := Reply.delivered.inj hr
          exact ⟨_, (Table.get?_modify_self _ _ _).trans (congrArg _ ho),
            fun he => (by cases he), fun he => (by cases he)⟩
      | manual =>
          obtain ⟨-, rfl⟩ := Reply.delivered.inj hr
          exact absurd rfl hne

end Steps

/-! ### Interleavings -/

section Interleavings
variable {env : Env} {calm : Prop} {A : ShopTx → Prop} {as bs : List (Action ShopTx ℕ)} {d d' : DB}
  {c c' : Config ShopTx DB Row Reply} {l : List (ShopTx × Reply)} {id : ℕ} {o o' : Order}

theorem ShopTrace.progress (h : ShopTrace env calm A d l d') (ho : d.orders.get? id = some o) :
    ∃ o', d'.orders.get? id = some o' ∧ o.Progress l id o' := by
  induction h generalizing o with
  | nil d => exact ⟨o, ho, .refl [] id o⟩
  | tick n _ ih => exact ih ho
  | commit _ _ _ hstep _ ih =>
      obtain ⟨o₁, ho₁, hon⟩ := hstep.onward ho
      obtain ⟨o', ho', hl⟩ := ih ho₁
      exact ⟨o', ho', .cons (hstep.path ho ho₁) hon hl⟩

/-- An order that was not there at first was made unpaid. -/
theorem ShopTrace.paidAmong (h : ShopTrace env calm A d l d') (hn : d.orders.get? id = none)
    (ho' : d'.orders.get? id = some o') (hp : o'.isPaid) : PaidAmong l id o' := by
  induction h with
  | nil d =>
      rw [hn] at ho'
      cases ho'
  | tick n _ ih => exact ih hn ho'
  | @commit now L tag r d d₁ d' l _ _ _ hstep hl ih =>
      cases ho₁ : d₁.orders.get? id with
      | none => exact (ih ho₁ ho').cons
      | some o₁ =>
          obtain ⟨-, hu, -⟩ := hstep.newOrder hn ho₁
          obtain ⟨o₂, ho₂, hpr⟩ := hl.progress ho₁
          obtain rfl := Option.some.inj (ho'.symm.trans ho₂)
          rcases hpr.exact hp with hp₁ | hpaid
          · exact absurd hu hp₁.1
          · unfold PaidAmong at hpaid ⊢
            rw [hpr.onward.fixed.orderSn, hpr.onward.fixed.actualPrice]
            exact PaidAmong.cons hpaid

theorem ShopTrace.delivered_isPaid (h : ShopTrace env calm A d l d') {tag : ShopTx} {cards : List ℕ}
    (hmem : (tag, .delivered id cards) ∈ l) (hne : cards ≠ []) :
    ∃ o', d'.orders.get? id = some o' ∧ o'.isPaid := by
  induction h with
  | nil d => cases hmem
  | tick n _ ih => exact ih hmem
  | commit _ _ _ hstep hl ih =>
      rcases List.mem_cons.mp hmem with he | hmem
      · obtain ⟨rfl, rfl⟩ := Prod.mk.inj he
        obtain ⟨o₁, ho₁, hp⟩ := hstep.delivered_isPaid hne
        obtain ⟨o', ho', hpr⟩ := hl.progress ho₁
        exact ⟨o', ho', hpr.paid hp⟩
      · exact ih hmem

/-- An order that is past 待支付 and 已过期, and one whose cards were handed over, were paid: among the
answers is one of `Complete` with the order's own number and its exact amount. -/
theorem paid_exactly_interleaved (hd : ∀ id, d.orders.get? id = none)
    (hr : (shopSystem env).runs as (Config.start d) = some c) :
    (∀ id o, c.db.orders.get? id = some o → o.isPaid →
      PaidAmong ((shopSystem env).answers as (Config.start d)) id o) ∧
    ∀ tag id cards, (tag, .delivered id cards) ∈ (shopSystem env).answers as (Config.start d) →
    cards ≠ [] →
      ∃ o, c.db.orders.get? id = some o ∧ o.isPaid ∧
        PaidAmong ((shopSystem env).answers as (Config.start d)) id o := by
  obtain ⟨-, ht⟩ := shop_starts anyTx_calm (starts_any as) hd hr
  refine ⟨fun id o ho hp => ht.paidAmong (hd id) ho hp, fun tag id cards hmem hne => ?_⟩
  obtain ⟨o, ho, hp⟩ := ht.delivered_isPaid hmem hne
  exact ⟨o, ho, hp, ht.paidAmong (hd id) ho hp⟩

/-- From any moment of an interleaving to any later one, an order keeps its number, goods and
prices; it does not come back to 待支付, a paid one stays paid and a finished one finished, and a
manual order does not come back to 异常. -/
theorem status_forward_interleaved (hd : ∀ id, d.orders.get? id = none)
    (hr : (shopSystem env).runs as (Config.start d) = some c)
    (hr' : (shopSystem env).runs bs c = some c') (ho : c.db.orders.get? id = some o) :
    ∃ o', c'.db.orders.get? id = some o' ∧ o.Progress ((shopSystem env).answers bs c) id o' := by
  obtain ⟨hc, -⟩ := shop_starts anyTx_calm (starts_any as) hd hr
  obtain ⟨-, ht⟩ := shop_runs anyTx_calm (starts_any bs) hc hr'
  exact ht.progress ho

end Interleavings

theorem tinySale_paid : ((shopSystem tinyEnv).runs (tinySale ++ [.finish 2])
    (Config.start tinyShop)).isSome = true := by
  decide

/-- The order of the sale is finished, and its payment among the answers. -/
theorem paid_exactly_interleaved_sale :
    ∃ c o, (shopSystem tinyEnv).runs (tinySale ++ [.finish 2]) (Config.start tinyShop) = some c ∧
      c.db.orders.get? 7 = some o ∧ o.status = .completed ∧
      PaidAmong ((shopSystem tinyEnv).answers (tinySale ++ [.finish 2]) (Config.start tinyShop))
        7 o := by
  have hs : ((((shopSystem tinyEnv).runs (tinySale ++ [.finish 2]) (Config.start tinyShop)).get
      tinySale_paid).db.orders.get? 7).map Order.status = some .completed := by decide
  obtain ⟨o, ho, hs⟩ := Option.map_eq_some_iff.mp hs
  have hp : o.isPaid := by
    constructor <;> rw [hs] <;> decide
  exact ⟨_, o, (Option.some_get tinySale_paid).symm, ho, hs,
    (paid_exactly_interleaved (fun _ => rfl) (Option.some_get tinySale_paid).symm).1 7 o ho hp⟩

theorem tinySale_notice :
    ((shopSystem tinyEnv).runs [.finish 2] (((shopSystem tinyEnv).runs tinySale
    (Config.start tinyShop)).get tinySale_runs)).isSome = true := by
  decide

/-- The notice moves the order on. -/
theorem status_forward_interleaved_sale :
    ∃ c c' o o', (shopSystem tinyEnv).runs tinySale (Config.start tinyShop) = some c ∧
      (shopSystem tinyEnv).runs [.finish 2] c = some c' ∧ c.db.orders.get? 7 = some o ∧
      c'.db.orders.get? 7 = some o' ∧ o.status = .unpaid ∧
      o.Progress ((shopSystem tinyEnv).answers [.finish 2] c) 7 o' := by
  have hs : ((((shopSystem tinyEnv).runs tinySale (Config.start tinyShop)).get
      tinySale_runs).db.orders.get? 7).map Order.status = some .unpaid := by decide
  obtain ⟨o, ho, hu⟩ := Option.map_eq_some_iff.mp hs
  obtain ⟨o', ho', hp⟩ := status_forward_interleaved (fun _ => rfl)
    (Option.some_get tinySale_runs).symm
    (Option.some_get tinySale_notice).symm ho
  exact ⟨_, _, o, o', (Option.some_get tinySale_runs).symm, (Option.some_get tinySale_notice).symm,
    ho, ho', hu, hp⟩

/-! ### Time to pay -/

def sweepTx (minutes : ℤ) (tag : ShopTx) : Prop := ∀ m n, tag = .expire m n → m = minutes

def DB.NotEarly (minutes : ℤ) (d : DB) : Prop :=
  ∀ id o, d.orders.get? id = some o → o.status = .expired →
    o.createdAt < d.clock - effectiveMinutes minutes * minute

section Time
variable {env : Env} {calm : Prop} {now minutes : ℤ} {tag : ShopTx} {r : Reply} {d d' : DB}
  {L : Locks Key}
  {as : List (Action ShopTx ℕ)} {c : Config ShopTx DB Row Reply} {id : ℕ} {o : Order}

theorem ShopStep.notEarly (h : ShopStep env calm now L d tag r d') (htag : sweepTx minutes tag)
    (hnow : now ≤ d.clock) (hd : d.NotEarly minutes) : d'.NotEarly minutes := by
  intro id o' ho' hs
  rw [h.tables.1]
  cases ho : d.orders.get? id with
  | none =>
      obtain ⟨-, hu, -⟩ := h.newOrder ho ho'
      rw [hu] at hs
      cases hs
  | some o =>
      obtain ⟨o₂, ho₂, hon⟩ := h.onward ho
      obtain rfl := Option.some.inj (ho'.symm.trans ho₂)
      rw [hon.createdAt]
      cases h.path ho ho' with
      | same he => exact hd id o ho (he.symm.trans hs)
      | expired htag' hdue =>
          rw [htag _ _ htag'] at hdue
          omega
      | paid htag' hs₁ hs' =>
          rw [hs] at hs'
          rcases hs' with hs' | hs' | hs' <;> cases hs'
      | delivered hs₁ hs' =>
          rw [hs] at hs'
          cases hs'
      | saved htag' hmove => exact absurd hs (ownerMayMove_dst hmove).2

/-- An order still in its time that was not paid waits for its payment: it holds exactly the cards
it bought, or its share of the stock, and its use of the coupon. -/
theorem in_time_interleaved (ha : StartsOnly (sweepTx minutes) as) (hd : d.Unused)
    (hr : (shopSystem env).runs as (Config.start d) = some c) (ho : c.db.orders.get? id = some o)
    (htime : c.db.clock - effectiveMinutes minutes * minute ≤ o.createdAt) (hp : ¬ o.isPaid) :
    o.status = .unpaid ∧ (o.type = .auto → c.db.reservedFor id = o.buyAmount) ∧
      (o.type = .manual → o.stockOf o.goodsId = o.buyAmount) ∧ o.usesOf o.couponId = 1 := by
  obtain ⟨-, ht⟩ := shop_starts (fun h : False => h.elim) ha hd.orders hr
  have hnone : ∀ id o, d.orders.get? id ≠ some o := by
    intro id o ho
    rw [hd.orders id] at ho
    cases ho
  have hearly : c.db.NotEarly minutes := by
    refine ht.keeps (P := DB.NotEarly minutes) (fun d n hd id o ho hs => ?_)
      (fun _ hnow htag hs hd => hs.notEarly htag hnow hd) (fun id o ho => absurd ho (hnone id o))
    have hlt := hd id o ho hs
    show o.createdAt < d.clock + n - _
    omega
  have huses : c.db.UsesHeld :=
    ht.keeps (P := DB.UsesHeld) (fun _ _ hd => hd) (fun _ _ _ hs hd => hs.usesHeld hd)
      (fun id o ho => absurd ho (hnone id o))
  have hu : o.status = .unpaid := by
    by_contra hu
    have hs : o.status = .expired := by
      by_contra hs
      exact hp ⟨hu, hs⟩
    have hlt := hearly id o ho hs
    omega
  refine ⟨hu, fun hauto => (ht.promised hd.promised).exact id o ho hauto hu, fun hmanual => ?_, ?_⟩
  · simp [Order.stockOf, hmanual, hu, holdsStock]
  · simp [Order.usesOf, (huses id o ho).1 hu]

end Time

/-- The order of the sale holds its card while the notice is on its way. -/
theorem in_time_interleaved_sale :
    ∃ c o, (shopSystem tinyEnv).runs tinySale (Config.start tinyShop) = some c ∧
      c.db.orders.get? 7 = some o ∧ o.status = .unpaid ∧ c.db.reservedFor 7 = o.buyAmount := by
  have hs : ((((shopSystem tinyEnv).runs tinySale (Config.start tinyShop)).get
      tinySale_runs).db.orders.get? 7).map (fun o => (o.status, o.type, o.createdAt)) =
        some (.unpaid, .auto, 0) := by decide
  obtain ⟨o, ho, hs⟩ := Option.map_eq_some_iff.mp hs
  obtain ⟨hu, hs⟩ := Prod.mk.inj hs
  obtain ⟨hauto, htime⟩ := Prod.mk.inj hs
  have hclock : (((shopSystem tinyEnv).runs tinySale (Config.start tinyShop)).get
      tinySale_runs).db.clock - effectiveMinutes 5 * minute ≤ o.createdAt := by
    rw [htime]
    decide
  obtain ⟨-, hcards, -⟩ := in_time_interleaved
    (tinySale_starts (A := sweepTx 5) (fun m n h => by cases h) (fun m n h => by cases h)
      (fun m n h => by cases h))
    tinyShop_unused (Option.some_get tinySale_runs).symm ho hclock (fun hp => hp.1 hu)
  exact ⟨_, o, (Option.some_get tinySale_runs).symm, ho, hu, hcards hauto⟩

end Dufaka
