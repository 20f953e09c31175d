import Dufaka.ShopCommits
import Dufaka.Stock
import Dufaka.CouponUses

/-!
# Stock and coupon uses under concurrency

However the statements of the transactions interleave, the stock a goods shows plus the stock its
orders hold stays what it was, and so do the uses of a coupon; neither is ever oversold. Each commit
keeps the two sums, because what it writes to the goods or the coupon it computes from rows that it
holds locked.
-/

namespace Dufaka
open Relational Tx

section Steps
variable {env : Env} {calm : Prop} {now : ℤ} {tag : ShopTx} {r : Reply} {d d' : DB} {L : Locks Key}
  {gid c : ℕ}

/-- A new order was made by a checkout, which is the only one to answer with it. -/
theorem ShopStep.newOrder (h : ShopStep env calm now L d tag r d') {id : ℕ} {o : Order}
    (hn : d.orders.get? id = none) (ho : d'.orders.get? id = some o) :
    1 ≤ o.buyAmount ∧ o.status = .unpaid ∧ o.couponRetBack = .held ∧
      ∃ made rand inp site, tag = .request (.createOrder rand inp site) ∧ r = .created id made := by
  have hput : ∀ {i : ℕ} {o₁ o₂ : Order}, d.orders.get? i = some o₁ →
      d'.orders ≠ d.orders.put i o₂ := by
    intro i o₁ o₂ hi he
    rw [he] at ho
    rcases Table.get?_put_some ho with ⟨rfl, -⟩ | ⟨-, ho⟩
    · rw [hn] at hi
      cases hi
    · rw [hn] at ho
      cases ho
  have hsame : d'.orders ≠ d.orders := by
    intro he
    rw [he, hn] at ho
    cases ho
  cases h with
  | same | goodsSaved | couponSaved | carmiSaved | imported => exact absurd rfl hsame
  | created hc =>
      rw [hc.orders] at ho
      rcases Table.get?_put_some ho with ⟨rfl, rfl⟩ | ⟨-, ho⟩
      · exact ⟨hc.amount, hc.status, hc.retBack, _, _, _, _, rfl, rfl⟩
      · rw [hn] at ho
        cases ho
  | settled ho₁ hown hback hpaid hs =>
      rcases hs.orders ho₁ with he | ⟨o', -, -, he⟩
      · exact absurd he hsame
      · exact absurd he (hput ho₁)
  | expired ho₁ => exact absurd (Table.put_eq_modify ho₁ Order.expire).symm (hput ho₁)
  | @saved i f o₁ trade dst ho₁ =>
      exact absurd (Table.put_eq_modify ho₁ (fun o => o.saved o₁ _ _ _ dst)).symm (hput ho₁)
  | quoted ho₁ => exact absurd rfl (hput ho₁)
  | @flipped table i restore d' hf hown =>
      cases table with
      | orders =>
          obtain ⟨o₁, ho₁, rfl⟩ := hf
          exact absurd rfl (hput ho₁)
      | carmis =>
          obtain ⟨v, -, -, -, rfl⟩ := hf
          exact absurd rfl hsame
      | goods | goodsGroup | coupons =>
          obtain ⟨v, -, rfl⟩ := hf
          exact absurd rfl hsame

theorem ShopStep.positive (h : ShopStep env calm now L d tag r d') (hd : d.Positive) :
    d'.Positive := by
  intro id o' ho'
  cases ho : d.orders.get? id with
  | none => exact (h.newOrder ho ho').1
  | some o =>
      obtain ⟨o₂, ho₂, hon⟩ := h.onward ho
      obtain rfl := Option.some.inj (ho'.symm.trans ho₂)
      rw [hon.fixed.buyAmount]
      exact hd id o ho

/-! ### Stock -/

theorem DB.CheckedOut.stockKept {id : ℕ} {o : Order} {reserved : List ℕ}
    (h : d.CheckedOut d' id o reserved) : d.StockKept gid d' := by
  intro g hg
  obtain ⟨g', hg', he, -⟩ := get?_moveStock o.type o.goodsId (-o.buyAmount) hg
  have hheld : d'.heldStock gid = d.heldStock gid + o.stockOf gid := by
    rw [DB.heldStock, h.orders, Table.sum_put_of_none _ _ h.fresh]
    rfl
  have hof : o.stockOf gid = if o.type = .manual ∧ o.goodsId = gid then o.buyAmount else 0 := by
    simp only [Order.stockOf, h.status, holdsStock, and_true]
  refine ⟨g', by rw [h.goods, hg'], ?_, fun hn => ?_⟩
  · rw [hheld, he, hof]
    split_ifs <;> ring
  · rw [he]
    split_ifs with hc
    · have hle := h.stock hc.1 g (by rw [hc.2]; exact hg)
      omega
    · omega

/-- A settlement on the cards it saw moves the stock of the database it ran on. -/
theorem SettledAmong.stockKept {id : ℕ} {o : Order} {trade : Text} {redeliver : Bool}
    (hs : SettledAmong d id o trade redeliver r d') (ho : d.orders.get? id = some o) :
    d.StockKept gid d' := by
  obtain ⟨seen, left, hs⟩ := hs.seen
  have hkept : ({ d with carmis := seen } : DB).StockKept gid { d' with carmis := left } :=
    settled_stockKept ho hs
  exact hkept

/-- The form was checked against a row whose payment number may have been another. -/
theorem saveOrder_stockKept_trade {id : ℕ} {o : Order} {trade title info pwd : Text}
    {dst : OrderStatus} (ho : d.orders.get? id = some o)
    (hstatus : orderStatusRefusal { o with tradeNo := trade } dst = none)
    (hstock : o.takesStock dst = true →
      ∃ g, d.goods.get? o.goodsId = some g ∧ o.buyAmount ≤ g.inStock) :
    d.StockKept gid (d.saveOrder id o title info pwd dst) := by
  let o₁ : Order := { o with tradeNo := trade }
  let d₁ : DB := { d with orders := d.orders.put id o₁ }
  have ho₁ : d₁.orders.get? id = some o₁ := Table.get?_put_self _ _ _
  have hin : d₁.heldStock gid = d.heldStock gid := by
    rw [heldStock_modify (fun _ => o₁) ho (Table.put_eq_modify ho (fun _ => o₁))]
    exact add_sub_cancel_right _ _
  have hout : (d₁.saveOrder id o₁ title info pwd dst).heldStock gid =
      (d.saveOrder id o title info pwd dst).heldStock gid := by
    have h₁ : (d₁.saveOrder id o₁ title info pwd dst).heldStock gid = _ :=
      heldStock_modify (fun x => x.saved o₁ title info pwd dst) ho₁ rfl
    have h : (d.saveOrder id o title info pwd dst).heldStock gid = _ :=
      heldStock_modify (fun x => x.saved o title info pwd dst) ho rfl
    rw [h₁, h, hin]
    rfl
  have hkept : d₁.StockKept gid (d₁.saveOrder id o₁ title info pwd dst) :=
    saveOrder_stockKept ho₁ hstatus hstock
  intro g hg
  obtain ⟨g', hg', he, hn⟩ := hkept g hg
  exact ⟨g', hg', by rw [← hout, he, hin], hn⟩

def stockTx (gid : ℕ) (tag : ShopTx) : Prop := ∀ f, tag ≠ .request (.goodsSave gid f)

theorem ShopStep.stockKept (h : ShopStep env calm now L d tag r d') (htag : stockTx gid tag)
    (hpos : d.Positive) : d.StockKept gid d' := by
  -- a write to one order that leaves its status and its debt alone
  have hput : ∀ {id : ℕ} {o o' : Order} {x : DB}, d.orders.get? id = some o →
      x.orders = d.orders.put id o' → x.goods = d.goods → o'.stockOf gid = o.stockOf gid →
      d.StockKept gid x := by
    intro id o o' x ho he hgoods hof
    refine .of_same (fun g hg => ⟨g, by rw [hgoods, hg], rfl⟩) ?_
    rw [heldStock_modify (fun _ => o') ho (he.trans (Table.put_eq_modify ho (fun _ => o'))), hof,
      add_sub_cancel_right]
  cases h with
  | same | couponSaved | carmiSaved | imported => exact .of_same (fun g hg => ⟨g, hg, rfl⟩) rfl
  | created hc => exact hc.stockKept
  | settled ho hown hback hpaid hs => exact hs.stockKept ho
  | expired ho hu => exact expire_stockKept hpos ho hu
  | saved ho hdst hstatus hown htake => exact saveOrder_stockKept_trade ho hstatus htake
  | @quoted tag r id o o' ho hq =>
      refine hput ho rfl rfl ?_
      unfold Order.quotedAs at hq
      rw [hq]
      rfl
  | @goodsSaved id i f row hi =>
      refine .of_same (fun g hg => ⟨g, ?_, rfl⟩) rfl
      have hne : gid ≠ i := by
        rintro rfl
        rcases hi with ⟨-, hn⟩ | rfl
        · rw [hg] at hn
          cases hn
        · exact htag f rfl
      show (d.goods.put i row).get? gid = some g
      rw [Table.get?_put_of_ne _ _ hne, hg]
  | @flipped table id restore d' hf hown =>
      cases table with
      | orders =>
          obtain ⟨o, ho, rfl⟩ := hf
          exact hput ho rfl rfl rfl
      | goods =>
          obtain ⟨v, hv, rfl⟩ := hf
          refine .of_same (fun g hg => ?_) rfl
          show ∃ g', (d.goods.put id _).get? gid = some g' ∧ _
          rw [Table.get?_put]
          split_ifs with hi
          · rw [hi, hv] at hg
            exact ⟨_, rfl, by rw [Option.some.inj hg]⟩
          · exact ⟨g, hg, rfl⟩
      | carmis =>
          obtain ⟨v, -, -, -, rfl⟩ := hf
          exact .of_same (fun g hg => ⟨g, hg, rfl⟩) rfl
      | goodsGroup | coupons =>
          obtain ⟨v, -, rfl⟩ := hf
          exact .of_same (fun g hg => ⟨g, hg, rfl⟩) rfl

/-! ### Coupon uses -/

/-- An order row stands with its coupon use as `DB.UsesHeld` wants. -/
theorem DB.UsesHeld.of_put {id : ℕ} {o' : Order} (h : d.UsesHeld)
    (he : d'.orders = d.orders.put id o') (hu : o'.status = .unpaid → o'.couponRetBack = .held)
    (hr : o'.couponRetBack = .returned → o'.couponId = 0 ∨ o'.status = .expired) : d'.UsesHeld := by
  intro i x hx
  rw [he] at hx
  rcases Table.get?_put_some hx with ⟨-, rfl⟩ | ⟨-, hx⟩
  · exact ⟨hu, hr⟩
  · exact h i x hx

theorem SettledAmong.usesHeld {id : ℕ} {o : Order} {trade : Text} {redeliver : Bool}
    (hs : SettledAmong d id o trade redeliver r d') (ho : d.orders.get? id = some o)
    (h : d.UsesHeld) :
    d'.UsesHeld := by
  obtain ⟨seen, left, hs⟩ := hs.seen
  generalize hd : ({ d' with carmis := left } : DB) = d₂ at hs
  have hd' : d'.orders = d₂.orders := by rw [← hd]
  -- every exit leaves the order paid, with the marker of its coupon
  have hexit : ∀ {coupons : Table Coupon} {back : RetBack} (f : Order → Order),
      Retaken o d.coupons coupons back → (f o).couponId = o.couponId → (f o).couponRetBack = back →
      (f o).status ≠ .unpaid → d'.orders = d.orders.modify id f → d'.UsesHeld := by
    intro coupons back f hret hid hback hne horders
    refine h.of_put (horders.trans (Table.put_eq_modify ho f).symm) (fun hu => absurd hu hne)
      (fun hb => ?_)
    exact Or.inl (hid.trans (hret.retakes.kept (hback.symm.trans hb)))
  cases hs with
  | already =>
      intro i x hx
      exact h i x (hd' ▸ hx)
  | @short coupons back hp hr hret =>
      exact hexit (fun o => o.short trade back) hret rfl rfl (fun he => by cases he) hd'
  | @cards coupons back cards hp hret =>
      exact hexit (fun o => o.deliver _ trade back) hret rfl rfl (fun he => by cases he) hd'
  | @manual coupons back hp hret =>
      exact hexit (fun o => o.handToOwner trade back) hret rfl rfl (fun he => by cases he) hd'

theorem ShopStep.usesHeld (h : ShopStep env calm now L d tag r d') (hd : d.UsesHeld) :
    d'.UsesHeld := by
  cases h with
  | same | goodsSaved | couponSaved | carmiSaved | imported => exact hd
  | created hc =>
      refine hd.of_put hc.orders (fun _ => hc.retBack) (fun hb => ?_)
      rw [hc.retBack] at hb
      cases hb
  | settled ho hown hback hpaid hs => exact hs.usesHeld ho hd
  | expired ho =>
      exact hd.of_put (Table.put_eq_modify ho Order.expire).symm (fun he => by cases he)
        (fun _ => Or.inr rfl)
  | @saved id f o trade dst ho hdst hstatus =>
      have hon : o.Onward (o.saved o f.title.trimSpace f.info f.searchPwd.trimSpace dst) :=
        Order.onward_saved hstatus
      obtain ⟨hu, hr⟩ := hd id o ho
      refine hd.of_put (Table.put_eq_modify ho (fun x => x.saved o _ _ _ dst)).symm
        (fun he => hu (hon.unpaid he)) (fun hb => (hr hb).imp_right (fun he => ?_))
      have hmove : ownerMayMove trade o.status dst = false := by simp [ownerMayMove, he]
      rcases Order.status_of_orderStatusRefusal hstatus with h | h
      · exact h.trans he
      · rw [hmove] at h
        cases h
  | @quoted tag r id o o' ho hq =>
      unfold Order.quotedAs at hq
      obtain ⟨hu, hr⟩ := hd id o ho
      refine hd.of_put rfl ?_ ?_
      · rw [hq]
        exact hu
      · rw [hq]
        exact hr
  | @flipped table id restore d' hf hown =>
      cases table with
      | orders =>
          obtain ⟨o, ho, rfl⟩ := hf
          exact hd.of_put rfl (hd id o ho).1 (hd id o ho).2
      | carmis =>
          obtain ⟨v, -, -, -, rfl⟩ := hf
          exact hd
      | goods | goodsGroup | coupons =>
          obtain ⟨v, -, rfl⟩ := hf
          exact hd

theorem DB.CheckedOut.usesKept {id : ℕ} {o : Order} {reserved : List ℕ} (hc : 0 < c)
    (h : d.CheckedOut d' id o reserved) : d.UsesKept c d' := by
  intro k hk
  have hheld : d'.heldUses c = d.heldUses c + if o.couponId = c then 1 else 0 := by
    rw [DB.heldUses, h.orders, Table.sum_put_of_none _ _ h.fresh]
    simp only [Order.usesOf, h.retBack, and_true]
    rfl
  rcases h.coupon with ⟨hid, he⟩ | ⟨k₀, hk₀, hpos, he⟩
  · refine ⟨k, by rw [he, hk], ?_, fun h => h⟩
    rw [hheld, if_neg (by omega), add_zero]
  · obtain ⟨k', hk', hr⟩ := get?_moveUse o.couponId (-1) hk
    refine ⟨k', by rw [he]; exact hk', ?_, fun hn => ?_⟩
    · rw [hheld, hr]
      split_ifs <;> ring
    · rw [hr]
      split_ifs with hi
      · rw [hi, hk] at hk₀
        rw [Option.some.inj hk₀] at hn ⊢
        omega
      · omega

theorem SettledAmong.usesKept {id : ℕ} {o : Order} {trade : Text} {redeliver : Bool}
    (hs : SettledAmong d id o trade redeliver r d') (ho : d.orders.get? id = some o) :
    d.UsesKept c d' := by
  obtain ⟨seen, left, hs⟩ := hs.seen
  have hkept : ({ d with carmis := seen } : DB).UsesKept c { d' with carmis := left } :=
    settled_usesKept ho hs
  exact hkept

def couponTx (c : ℕ) (tag : ShopTx) : Prop := ∀ f, tag ≠ .request (.couponSave c f)

theorem ShopStep.usesKept (h : ShopStep env calm now L d tag r d') (hc : 0 < c)
    (htag : couponTx c tag) (hheld : d.UsesHeld) :
    d.UsesKept c d' := by
  have hput : ∀ {id : ℕ} {o o' : Order} {x : DB}, d.orders.get? id = some o →
      x.orders = d.orders.put id o' → x.coupons = d.coupons → o'.usesOf c = o.usesOf c →
      d.UsesKept c x := by
    intro id o o' x ho he hcoupons hof
    refine .of_same (fun k hk => ⟨k, by rw [hcoupons, hk], rfl⟩) ?_
    rw [heldUses_modify (fun _ => o') ho (he.trans (Table.put_eq_modify ho (fun _ => o'))), hof,
      add_sub_cancel_right]
  cases h with
  | same | goodsSaved | carmiSaved | imported => exact .of_same (fun k hk => ⟨k, hk, rfl⟩) rfl
  | created hco => exact hco.usesKept hc
  | settled ho hown hback hpaid hs => exact hs.usesKept ho
  | expired ho hu => exact expire_usesKept hc hheld ho hu
  | @saved id f o trade dst ho =>
      exact hput ho (Table.put_eq_modify ho (fun x => x.saved o _ _ _ dst)).symm rfl rfl
  | @quoted tag r id o o' ho hq =>
      refine hput ho rfl rfl ?_
      unfold Order.quotedAs at hq
      rw [hq]
      rfl
  | @couponSaved id i f row goods hi =>
      refine .of_same (fun k hk => ⟨k, ?_, rfl⟩) rfl
      have hne : c ≠ i := by
        rintro rfl
        rcases hi with ⟨-, hn⟩ | rfl
        · rw [hk] at hn
          cases hn
        · exact htag f rfl
      show (d.coupons.put i row).get? c = some k
      rw [Table.get?_put_of_ne _ _ hne, hk]
  | @flipped table id restore d' hf hown =>
      cases table with
      | orders =>
          obtain ⟨o, ho, rfl⟩ := hf
          exact hput ho rfl rfl rfl
      | coupons =>
          obtain ⟨v, hv, rfl⟩ := hf
          refine .of_same (fun k hk => ?_) rfl
          show ∃ k', (d.coupons.put id _).get? c = some k' ∧ _
          rw [Table.get?_put]
          split_ifs with hi
          · rw [hi, hv] at hk
            exact ⟨_, rfl, by rw [Option.some.inj hk]⟩
          · exact ⟨k, hk, rfl⟩
      | carmis =>
          obtain ⟨v, -, -, -, rfl⟩ := hf
          exact .of_same (fun k hk => ⟨k, hk, rfl⟩) rfl
      | goods | goodsGroup =>
          obtain ⟨v, -, rfl⟩ := hf
          exact .of_same (fun k hk => ⟨k, hk, rfl⟩) rfl

end Steps

/-! ### Interleavings -/

section Interleavings
variable {env : Env} {calm : Prop} {A : ShopTx → Prop} {as : List (Action ShopTx ℕ)} {d d' : DB}
  {c : Config ShopTx DB Row Reply} {l : List (ShopTx × Reply)} {gid cid : ℕ}

theorem ShopTrace.stockKept (h : ShopTrace env calm A d l d') (hA : ∀ tag, A tag → stockTx gid tag)
    (hpos : d.Positive) : d.StockKept gid d' := by
  induction h with
  | nil d => exact .refl gid d
  | tick n _ ih => exact (DB.StockKept.of_same (fun g hg => ⟨g, hg, rfl⟩) rfl).trans (ih hpos)
  | commit _ _ htag hstep _ ih =>
      exact (hstep.stockKept (hA _ htag) hpos).trans (ih (hstep.positive hpos))

theorem ShopTrace.usesKept (h : ShopTrace env calm A d l d') (hA : ∀ tag, A tag → couponTx cid tag)
    (hc : 0 < cid) (hheld : d.UsesHeld) : d.UsesKept cid d' := by
  induction h with
  | nil d => exact .refl cid d
  | tick n _ ih => exact (DB.UsesKept.of_same (fun k hk => ⟨k, hk, rfl⟩) rfl).trans (ih hheld)
  | commit _ _ htag hstep _ ih =>
      exact (hstep.usesKept hc (hA _ htag) hheld).trans (ih (hstep.usesHeld hheld))

/-- Without its form, a goods shows and its orders hold together the stock it began with, whatever
the order of the statements, and it is never oversold. -/
theorem stock_interleaved (ha : StartsOnly (stockTx gid) as) (hd : ∀ id, d.orders.get? id = none)
    {g : Good} (hg : d.goods.get? gid = some g) (hn : 0 ≤ g.inStock)
    (hr : (shopSystem env).runs as (Config.start d) = some c) :
    ∃ g', c.db.goods.get? gid = some g' ∧ g'.inStock + c.db.heldStock gid = g.inStock ∧
    0 ≤ g'.inStock := by
  obtain ⟨-, ht⟩ := shop_starts (fun h : False => h.elim) ha hd hr
  have hpos : d.Positive := by
    intro id o ho
    rw [hd id] at ho
    cases ho
  have hheld : d.heldStock gid = 0 := by
    refine Table.sum_eq_zero (fun id o ho => ?_)
    rw [hd id] at ho
    cases ho
  obtain ⟨g', hg', he, hn'⟩ := ht.stockKept (fun _ h => h) hpos g hg
  exact ⟨g', hg', by rw [he, hheld, add_zero], hn' hn⟩

/-- Without its form, a coupon has left and its orders hold together the uses it began with,
whatever the order of the statements, and it is never used more often. -/
theorem coupon_uses_interleaved (ha : StartsOnly (couponTx cid) as) (hc : 0 < cid)
    (hd : ∀ id, d.orders.get? id = none) {k : Coupon} (hk : d.coupons.get? cid = some k)
    (hn : 0 ≤ k.ret) (hr : (shopSystem env).runs as (Config.start d) = some c) :
    ∃ k', c.db.coupons.get? cid = some k' ∧ k'.ret + c.db.heldUses cid = k.ret ∧ 0 ≤ k'.ret := by
  obtain ⟨-, ht⟩ := shop_starts (fun h : False => h.elim) ha hd hr
  have huses : d.UsesHeld := by
    intro id o ho
    rw [hd id] at ho
    cases ho
  have hheld : d.heldUses cid = 0 := by
    refine Table.sum_eq_zero (fun id o ho => ?_)
    rw [hd id] at ho
    cases ho
  obtain ⟨k', hk', he, hn'⟩ := ht.usesKept (fun _ h => h) hc huses k hk
  exact ⟨k', hk', by rw [he, hheld, add_zero], hn' hn⟩

end Interleavings

def tinyCoupon (n : ℕ) : ShopTx :=
  .request (.createOrder (fun _ => Fin.ofNat 256 n) (tinyInput 2 "code".toList) ⟨false, 5⟩)

def tinyRace : List (Action ShopTx ℕ) :=
  tinySession 1 7 (tinyCoupon 1) 14 ++ tinySession 3 8 (tinyCoupon 2) 3 ++ [.finish 1]

theorem tinyRace_runs :
    ((shopSystem tinyEnv).runs tinyRace (Config.start tinyShop)).isSome = true := by
  decide

theorem tinyRace_starts {A : ShopTx → Prop} (h₁ : A (tinyCoupon 1)) (h₂ : A (tinyCoupon 2)) :
    StartsOnly A tinyRace := by
  intro a ha t tag he
  subst he
  simp only [tinyRace, tinySession, List.cons_append, List.mem_cons, List.mem_append,
    List.mem_replicate, Action.start.injEq, reduceCtorEq, and_false, false_or, or_false,
    List.not_mem_nil] at ha
  rcases ha with ⟨-, rfl⟩ | ⟨-, rfl⟩
  · exact h₁
  · exact h₂

/-- The first buyer's order holds the piece. -/
theorem stock_interleaved_race :
    ∃ c g, (shopSystem tinyEnv).runs tinyRace (Config.start tinyShop) = some c ∧
    c.db.goods.get? 2 = some g ∧ c.db.heldStock 2 = 1 ∧ g.inStock + c.db.heldStock 2 = 1 := by
  obtain ⟨g, hg, he, -⟩ := stock_interleaved
    (tinyRace_starts (A := stockTx 2) (fun f h => by cases h) (fun f h => by cases h)) (fun _ =>
      rfl)
    (rfl : tinyShop.goods.get? 2 = some (tinyGood .manual 1))
      (by decide) (Option.some_get tinyRace_runs).symm
  exact ⟨_, g, (Option.some_get tinyRace_runs).symm, hg, by decide, he⟩

/-- And the use of the coupon. -/
theorem coupon_uses_interleaved_race :
    ∃ c k, (shopSystem tinyEnv).runs tinyRace (Config.start tinyShop) = some c ∧
      c.db.coupons.get? 1 = some k ∧ c.db.heldUses 1 = 1 ∧ k.ret + c.db.heldUses 1 = 1 := by
  obtain ⟨k, hk, he, -⟩ := coupon_uses_interleaved
    (tinyRace_starts (A := couponTx 1) (fun f h => by cases h)
      (fun f h => by cases h)) (by decide) (fun _ => rfl)
    (rfl : tinyShop.coupons.get? 1 = some ⟨10, 1, 1, "code".toList, 1, false⟩) (by decide)
    (Option.some_get tinyRace_runs).symm
  exact ⟨_, k, (Option.some_get tinyRace_runs).symm, hk, by decide, he⟩

end Dufaka
