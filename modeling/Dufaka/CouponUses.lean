import Dufaka.Orders

/-!
# Coupon uses

The uses a coupon has left plus the uses its orders hold stay the same in every run. An order hands
its use back when it expires, and a late payment takes it again or records that it could not.
-/

namespace Dufaka
open Relational Tx

def Order.usesOf (c : ℕ) (o : Order) : ℤ :=
  if o.couponId = c ∧ o.couponRetBack = .held then 1 else 0

def DB.heldUses (d : DB) (c : ℕ) : ℤ := d.orders.sum (fun _ o => o.usesOf c)

/-- An unpaid order holds its coupon use, and only an expired one has handed it back. -/
def DB.UsesHeld (d : DB) : Prop := ∀ id o, d.orders.get? id = some o →
  (o.status = .unpaid → o.couponRetBack = .held) ∧
    (o.couponRetBack = .returned → o.couponId = 0 ∨ o.status = .expired)

/-- The uses left and held together stay, and the uses left do not become negative. -/
def DB.UsesKept (c : ℕ) (d d' : DB) : Prop :=
  ∀ k, d.coupons.get? c = some k → ∃ k', d'.coupons.get? c = some k' ∧
    k'.ret + d'.heldUses c = k.ret + d.heldUses c ∧ (0 ≤ k.ret → 0 ≤ k'.ret)

section Ledger
variable {env : Env} {d d' d'' : DB} {c : ℕ} {op : Op}

theorem Order.Retakes.kept {o : Order} {back : RetBack} (h : o.Retakes back)
    (hb : back = .returned) : o.couponId = 0 := by
  rcases h with ⟨rfl, h | h⟩ | ⟨-, -, rfl | rfl⟩
  · exact h
  · exact absurd hb h
  · cases hb
  · cases hb

theorem DB.OrdersMoved.usesHeld (hm : d.OrdersMoved op d') (h : d.UsesHeld) : d'.UsesHeld := by
  intro id o' ho'
  cases ho : d.orders.get? id with
  | none =>
      obtain ⟨hu, hb, -⟩ := hm.new id o' ho ho'
      exact ⟨fun _ => hb, fun hr => by rw [hb] at hr; cases hr⟩
  | some o =>
      obtain ⟨o₂, ho₂, hmove⟩ := hm.old id o ho
      rw [ho'] at ho₂
      obtain rfl := Option.some.inj ho₂
      obtain ⟨hu, hr⟩ := h id o ho
      cases hmove with
      | same => exact ⟨hu, hr⟩
      | priced => exact ⟨hu, hr⟩
      | flagged => exact ⟨hu, hr⟩
      | expired => exact ⟨nofun, fun _ => Or.inr rfl⟩
      | short hp hpaid hback => exact ⟨nofun, fun hb => Or.inl (hback.kept hb)⟩
      | delivered hp hauto hback => exact ⟨nofun, fun hb => Or.inl (hback.kept hb)⟩
      | pending hp hm hpaid hback => exact ⟨nofun, fun hb => Or.inl (hback.kept hb)⟩
      | @saved f ids title info pwd dst hdst hstatus =>
          have hmove := Order.status_of_orderStatusRefusal hstatus
          refine ⟨fun hd => hu ?_, fun hb => ?_⟩
          · have hd : dst = .unpaid := hd
            subst hd
            rcases hmove with h | h
            · exact h.symm
            · simp [ownerMayMove] at h
          · rcases hr hb with hc | he
            · exact Or.inl hc
            · right
              rcases hmove with h | h
              · exact h.trans he
              · simp [ownerMayMove, he] at h

theorem runOps_usesHeld (env : Env) (ops : List Op) (h₀ : d.orders = Table.empty) :
    (runOps env ops d).UsesHeld :=
  runOps_induct (fun x op _ hx => (x.apply_ordersMoved env op).usesHeld hx)
    (fun id o ho => by rw [h₀] at ho; cases ho)

theorem DB.UsesKept.refl (c : ℕ) (d : DB) : d.UsesKept c d := fun k hk => ⟨k, hk, rfl, fun h => h⟩

theorem DB.UsesKept.trans (h : d.UsesKept c d') (h' : d'.UsesKept c d'') : d.UsesKept c d'' := by
  intro k hk
  obtain ⟨k', hk', he, hn⟩ := h k hk
  obtain ⟨k'', hk'', he', hn'⟩ := h' k' hk'
  exact ⟨k'', hk'', he'.trans he, fun h => hn' (hn h)⟩

theorem DB.UsesKept.of_same (hcoupons : ∀ k, d.coupons.get? c = some k →
      ∃ k', d'.coupons.get? c = some k' ∧ k'.ret = k.ret)
    (hheld : d'.heldUses c = d.heldUses c) : d.UsesKept c d' := by
  intro k hk
  obtain ⟨k', hk', he⟩ := hcoupons k hk
  exact ⟨k', hk', by rw [he, hheld], fun h => by rw [he]; exact h⟩

theorem heldUses_modify {id : ℕ} {o : Order} (f : Order → Order) (ho : d.orders.get? id = some o)
    (h : d'.orders = d.orders.modify id f) :
    d'.heldUses c = d.heldUses c + (f o).usesOf c - o.usesOf c := by
  rw [DB.heldUses, h, Table.sum_modify ho]
  rfl

/-- A coupon after one of its uses was moved. -/
theorem get?_moveUse (i : ℕ) (delta : ℤ) {coupons : Table Coupon} {k : Coupon}
    (hk : coupons.get? c = some k) :
    ∃ k', (coupons.modify i (fun k => { k with ret := k.ret + delta })).get? c = some k' ∧
      k'.ret = k.ret + if i = c then delta else 0 := by
  rw [Table.get?_modify]
  by_cases hi : c = i
  · exact ⟨{ k with ret := k.ret + delta }, by rw [if_pos hi, ← hi, hk, Option.map_some],
      by rw [if_pos hi.symm]⟩
  · exact ⟨k, by rw [if_neg hi, hk], by rw [if_neg (Ne.symm hi), add_zero]⟩

theorem DB.Created.usesKept {id : ℕ} {o : Order} {reserved : List ℕ} (hc : 0 < c)
    (h : d.Created d' id o reserved) : d.UsesKept c d' := by
  intro k hk
  have hheld : d'.heldUses c = d.heldUses c + o.usesOf c := by
    rw [DB.heldUses, h.orders, Table.sum_put_of_none _ _ h.fresh]
    rfl
  have huse : o.usesOf c = if o.couponId = c then 1 else 0 := by
    simp [Order.usesOf, h.retBack]
  rcases h.coupon with ⟨hid, he⟩ | ⟨k₀, hk₀, hpos, he⟩
  · refine ⟨k, by rw [he, hk], ?_, fun h => h⟩
    rw [hheld, huse, if_neg (by omega), add_zero]
  · obtain ⟨k', hk', hr⟩ := get?_moveUse o.couponId (-1) hk
    refine ⟨k', by rw [he]; exact hk', ?_, fun hn => ?_⟩
    · rw [hheld, huse, hr]
      split_ifs <;> ring
    · rw [hr]
      split_ifs with hi
      · rw [hi, hk] at hk₀
        rw [Option.some.inj hk₀] at hn ⊢
        omega
      · omega

/-- What a settlement does with the coupon is what it records on the order. -/
theorem Retaken.kept {o : Order} {coupons coupons' : Table Coupon} {back : RetBack}
    (h : Retaken o coupons coupons' back) {k : Coupon} (hk : coupons.get? c = some k) :
    ∃ k', coupons'.get? c = some k' ∧
      k'.ret + (if o.couponId = c ∧ back = .held then 1 else 0) = k.ret + o.usesOf c ∧
      (0 ≤ k.ret → 0 ≤ k'.ret) := by
  cases h with
  | keep => exact ⟨k, hk, rfl, fun h => h⟩
  | taken k₀ hid hback hk₀ hret =>
      obtain ⟨k', hk', hr⟩ := get?_moveUse o.couponId (-1) hk
      refine ⟨k', hk', ?_, fun hn => ?_⟩
      · rw [hr, Order.usesOf, hback]
        simp only [reduceCtorEq, and_false, and_true, if_false]
        split_ifs <;> ring
      · rw [hr]
        split_ifs with hi
        · rw [hi, hk] at hk₀
          rw [Option.some.inj hk₀] at hn ⊢
          omega
        · omega
  | lost hid hback => exact ⟨k, hk, by simp [Order.usesOf, hback], fun h => h⟩

theorem settled_usesKept {id : ℕ} {o : Order} {trade : Text} {redeliver : Bool} {r : Reply}
    (ho : d.orders.get? id = some o) (hs : Settled d id o trade redeliver r d') :
    d.UsesKept c d' := by
  -- every exit writes the coupons and the marker together
  have hexit : ∀ {coupons back} (f : Order → Order), Retaken o d.coupons coupons back →
      (f o).couponId = o.couponId → (f o).couponRetBack = back → d'.coupons = coupons →
      d'.orders = d.orders.modify id f → d.UsesKept c d' := by
    intro coupons back f hret hid hback hcoupons horders k hk
    obtain ⟨k', hk', he, hn⟩ := hret.kept hk
    refine ⟨k', by rw [hcoupons, hk'], ?_, hn⟩
    have hnew : (f o).usesOf c = if o.couponId = c ∧ back = .held then 1 else 0 := by
      rw [Order.usesOf, hid, hback]
    rw [heldUses_modify f ho horders, hnew]
    linarith
  cases hs with
  | already => exact .refl c d
  | @short coupons back hp hr hret => exact hexit (fun o => o.short trade back) hret rfl rfl rfl rfl
  | @cards coupons back cards hp hret =>
      exact hexit (fun o => o.deliver (d.cardTexts cards) trade back) hret rfl rfl rfl rfl
  | @manual coupons back hp hret =>
      exact hexit (fun o => o.handToOwner trade back) hret rfl rfl rfl rfl

theorem expire_usesKept {id : ℕ} {o : Order} (hc : 0 < c) (hheld : d.UsesHeld)
    (ho : d.orders.get? id = some o) (hu : o.status = .unpaid) :
    d.UsesKept c (d.expire id o.couponId o) := by
  intro k hk
  have hsum : (d.expire id o.couponId o).heldUses c = d.heldUses c +
      o.expire.usesOf c - o.usesOf c :=
    heldUses_modify Order.expire ho rfl
  have hold : o.usesOf c = if o.couponId = c then 1 else 0 := by
    simp [Order.usesOf, (hheld id o ho).1 hu]
  have hnew : o.expire.usesOf c = 0 := by simp [Order.usesOf, Order.expire]
  rw [hsum, hold, hnew]
  by_cases hid : o.couponId > 0
  · obtain ⟨k', hk', hr⟩ := get?_moveUse o.couponId 1 hk
    refine ⟨k', by rw [DB.expire, if_pos hid]; exact hk', ?_, fun hn => ?_⟩
    · rw [hr]
      ring
    · rw [hr]
      split_ifs <;> omega
  · refine ⟨k, by rw [DB.expire, if_neg hid]; exact hk, ?_, fun h => h⟩
    rw [if_neg (by omega)]
    ring

theorem request_usesKept {r : Request} {ids : ℕ → ℕ} {reply : Reply} {now : ℤ} (hpos : 0 < c)
    (hsave : ∀ f, r ≠ .couponSave c f) (hc : (r.script env now).commits ids d reply d') :
    d.UsesKept c d' := by
  have hsettle : ∀ {sn paid trade redeliver},
      (settle sn paid trade redeliver).commits ids d reply d' → d.UsesKept c d' := by
    intro sn paid trade redeliver hc
    obtain ⟨id, o, hfound, -, -, hs⟩ := settle_commits hc
    exact settled_usesKept (DB.orderBySn_some hfound).1 hs
  have hframe : d'.orders = d.orders → d'.coupons = d.coupons → d.UsesKept c d' := by
    intro he hg
    exact .of_same (fun k hget => ⟨k, by rw [hg, hget], rfl⟩) (by rw [DB.heldUses, he]; rfl)
  have hquote : ∀ {id o} (f : Order → Order), d.orders.get? id = some o →
      (f o).usesOf c = o.usesOf c → d'.coupons = d.coupons → d'.orders = d.orders.modify id f →
      d.UsesKept c d' := by
    intro id o f ho hf hg he
    refine .of_same (fun k hget => ⟨k, by rw [hg, hget], rfl⟩) ?_
    rw [heldUses_modify f ho he, hf, add_sub_cancel_right]
  cases r with
  | createOrder rand inp site =>
      obtain ⟨g, cid, q, info, id, reserved, made, -, hcr⟩ := createOrder_commits hc
      exact hcr.usesKept hpos
  | complete sn paid tradeNo => exact hsettle hc
  | redeliver sn => exact hsettle hc
  | lockCldxQuote sn minor expires =>
      obtain ⟨id, o, ho, -, rfl⟩ := lockCldxQuote_commits hc
      exact hquote (fun o => o.quote minor expires) ho rfl rfl rfl
  | lockUSDTInvoice sn onTime created =>
      rcases lockUSDTInvoice_commits hc with rfl | ⟨id, o, raw, ho, -, rfl⟩
      · exact .refl c _
      · exact hquote (fun o => { o with usdtPayment := some raw }) ho rfl rfl rfl
  | orderSave id f =>
      obtain ⟨row, dst, hload, -, -, -, -, -, rfl⟩ := orderSave_commits hc
      exact hquote (fun o => o.saved row _ _ _ dst) (loadOrder_some hload).1 rfl rfl rfl
  | goodsSave id f =>
      obtain ⟨f, -, -, ⟨-, n, -, rfl⟩ | ⟨g, -, -, rfl⟩⟩ :=
        goodsSave_commits hc <;> exact hframe rfl rfl
  | couponSave id f =>
      obtain ⟨f, -, -, goods, ⟨-, n, hn, rfl⟩ | ⟨k, -, -, rfl⟩⟩ := couponSave_commits hc
      · refine .of_same (fun k hget => ⟨k, ?_, rfl⟩) rfl
        rw [Table.get?_put_of_ne _ _ (fun he => by rw [he, hn] at hget; cases hget), hget]
      · have hid : c ≠ id := fun he => hsave _ (by rw [he])
        exact .of_same (fun k hget => ⟨k, by rw [Table.get?_modify_of_ne _ _ hid, hget], rfl⟩) rfl
  | carmiSave id f =>
      obtain ⟨k, -, -, -, rfl⟩ := carmiSave_commits hc
      exact hframe rfl rfl
  | carmisImport f =>
      obtain ⟨carmis, rfl, -⟩ := carmisImport_commits hc
      exact hframe rfl rfl
  | markDeleted table id restore =>
      have hf := markDeleted_commits hc
      cases table with
      | orders =>
          obtain ⟨o, ho, rfl⟩ := hf
          exact hquote (fun o => { o with deleted := !restore }) ho rfl rfl
            (Table.put_eq_modify ho (fun o => { o with deleted := !restore }))
      | coupons =>
          obtain ⟨v, hv, rfl⟩ := hf
          refine .of_same (fun k hget => ?_) rfl
          rw [Table.get?_put]
          split_ifs with hi
          · rw [hi, hv] at hget
            exact ⟨_, rfl, by rw [Option.some.inj hget]⟩
          · exact ⟨k, hget, rfl⟩
      | goodsGroup =>
          obtain ⟨v, -, rfl⟩ := hf
          exact hframe rfl rfl
      | carmis =>
          obtain ⟨v, -, -, -, rfl⟩ := hf
          exact hframe rfl rfl
      | goods =>
          obtain ⟨v, -, rfl⟩ := hf
          exact hframe rfl rfl

/-- One operation keeps the uses of a coupon, unless it is the coupon form of that coupon. -/
theorem apply_usesKept (hc : 0 < c) (hheld : d.UsesHeld)
    (hsave : ∀ f ids, op ≠ .request (.couponSave c f) ids) : d.UsesKept c (op.apply env d) := by
  refine (apply_induct (P := fun x => x.UsesHeld ∧ d.UsesKept c x) ?_ ?_ ?_ ⟨hheld, .refl c d⟩).2
  · rintro r ids reply d' rfl ⟨hheld, hk⟩ h
    have hm : d.OrdersMoved (.request r ids) d' := DB.request_ordersMoved h
    refine ⟨hm.usesHeld hheld, hk.trans ?_⟩
    exact request_usesKept hc (fun f he => hsave f ids (by rw [he])) h
  · rintro x id o ⟨hheld, hk⟩ ho hu
    refine ⟨?_, hk.trans (expire_usesKept hc hheld ho hu)⟩
    have hm : x.OrdersMoved (.expireDue 0 0) (x.expire id o.couponId o) :=
      .of_modify Order.expire ho rfl (.expired hu)
    exact hm.usesHeld hheld
  · exact fun n h => h

theorem runOps_usesKept (env : Env) (ops : List Op) (hc : 0 < c) (hheld : d.UsesHeld)
    (hsave : ∀ f ids, .request (.couponSave c f) ids ∉ ops) : d.UsesKept c (runOps env ops d) := by
  refine (runOps_induct (P := fun x => x.UsesHeld ∧ d.UsesKept c x) ?_ ⟨hheld, .refl c d⟩).2
  rintro x op hop ⟨hheld, hk⟩
  exact ⟨(x.apply_ordersMoved env op).usesHeld hheld,
    hk.trans (apply_usesKept hc hheld (fun f ids he => hsave f ids (he ▸ hop)))⟩

inductive Order.UseMoves (o o' : Order) (op : Op) : Prop
  | same (h : o'.couponRetBack = o.couponRetBack)
  | expired {minutes : ℤ} {count : ℕ} (hop : op = .expireDue minutes count)
      (hs : o.status = .unpaid ∧ o'.status = .expired)
      (h : o.couponRetBack = .held ∧ o'.couponRetBack = .returned)
  | late {paid : Cents} {trade : Text} {ids : ℕ → ℕ}
      (hop : op = .request (.complete o.orderSn paid trade) ids) (hs : o.status = .expired)
      (h : o.couponRetBack = .returned ∧
        (o'.couponRetBack = .held ∨ o'.couponRetBack = .unrecoverable))

theorem Order.Moves.use {id : ℕ} {o o' : Order} (h : o.Moves id op o')
    (hu : o.status = .unpaid → o.couponRetBack = .held)
    (hr : o.couponRetBack = .returned → o.couponId = 0 ∨ o.status = .expired) :
    o.UseMoves o' op := by
  -- a marker that a payment changes stood at handed back, so that the order had expired
  have hlate : ∀ {paid trade ids back}, op = .request (.complete o.orderSn paid trade) ids →
      o'.couponRetBack = back → o.Retakes back → o.UseMoves o' op := by
    rintro paid trade ids back hop hb (⟨hk, -⟩ | ⟨hret, hid, hback⟩)
    · exact .same (hb.trans hk)
    · exact .late hop ((hr hret).resolve_left (by omega)) ⟨hret, hb ▸ hback⟩
  cases h with
  | same => exact .same rfl
  | priced => exact .same rfl
  | flagged => exact .same rfl
  | expired h => exact .expired rfl ⟨h, rfl⟩ ⟨hu h, rfl⟩
  | short hp hpaid hback => exact hlate rfl rfl hback
  | pending hp hm hpaid hback => exact hlate rfl rfl hback
  | saved => exact .same rfl
  | delivered hp hauto hback =>
      rcases hp with ⟨paid, trade, rfl, -, -⟩ | ⟨rfl, hab⟩
      · exact hlate rfl rfl hback
      · rcases hback with ⟨hk, -⟩ | ⟨hret, hid, -⟩
        · exact .same hk
        · rcases hr hret with h | h
          · omega
          · rw [hab] at h
            cases h

/-- A settlement of an order whose use is given up leaves the coupons alone. -/
theorem settle_keeps_coupons {sn : Text} {paid : Cents} {trade : Text} {redeliver : Bool}
    {ids : ℕ → ℕ} {r : Reply} {id : ℕ} {o : Order} (hfound : d.orderBySn sn = some (id, o))
    (hb : o.couponRetBack = .unrecoverable)
    (h : (settle sn paid trade redeliver).commits ids d r d') :
    d'.coupons = d.coupons := by
  obtain ⟨id', o', hfound', -, -, hs⟩ := settle_commits h
  rw [hfound] at hfound'
  obtain ⟨rfl, rfl⟩ := Prod.mk.inj (Option.some.inj hfound')
  have hkeep : ∀ {coupons back}, Retaken o d.coupons coupons back → coupons = d.coupons := by
    intro coupons back hret
    cases hret with
    | keep => rfl
    | taken k hid hback => rw [hb] at hback; cases hback
    | lost => rfl
  cases hs with
  | already => rfl
  | short hp hr hret => exact hkeep hret
  | cards hp hret => exact hkeep hret
  | manual hp hret => exact hkeep hret

end Ledger

/-- The uses of a coupon are conserved and never negative; an order returns its use once, when it
expires, and a late payment takes it or gives it up for good. -/
theorem coupon_uses_conserved (env : Env) (d : DB) (h₀ : d.orders = Table.empty) (ops : List Op)
    (c : ℕ) (hc : 0 < c) (hsave : ∀ f ids, .request (.couponSave c f) ids ∉ ops) (k : Coupon)
    (hk : d.coupons.get? c = some k) (hn : 0 ≤ k.ret) :
    (∃ k', (runOps env ops d).coupons.get? c = some k' ∧
      k'.ret + (runOps env ops d).heldUses c = k.ret ∧ 0 ≤ k'.ret) ∧
    ∀ pre op post id o o', ops = pre ++ op :: post → (runOps env pre d).orders.get? id = some o →
      (op.apply env (runOps env pre d)).orders.get? id = some o' → o.couponId = c →
      o.UseMoves o' op ∧ (o.status ≠ .unpaid → o'.status ≠ .unpaid) ∧
      (o.couponRetBack = .unrecoverable → o'.couponRetBack = .unrecoverable ∧
        ∀ paid trade redeliver ids, op = .request
          (settleRequest o.orderSn paid trade redeliver) ids →
          (op.apply env (runOps env pre d)).coupons = (runOps env pre d).coupons) := by
  have hheld : d.heldUses c = 0 := by
    rw [DB.heldUses, h₀]
    rfl
  have hempty : d.UsesHeld := fun id o ho => by rw [h₀] at ho; cases ho
  constructor
  · obtain ⟨k', hk', he, hn'⟩ := runOps_usesKept env ops hc hempty hsave k hk
    exact ⟨k', hk', by rw [he, hheld, add_zero], hn' hn⟩
  · intro pre op post id o o' hops ho ho' hid
    obtain ⟨o₂, ho₂, hm⟩ := ((runOps env pre d).apply_ordersMoved env op).old id o ho
    rw [ho'] at ho₂
    obtain rfl := Option.some.inj ho₂
    obtain ⟨hu, hr⟩ := runOps_usesHeld env pre h₀ id o ho
    have huse := hm.use hu hr
    refine ⟨huse, fun hne he => hne (hm.unpaid he), fun hb => ⟨?_, ?_⟩⟩
    · cases huse with
      | same h => exact h.trans hb
      | expired hop hs h => rw [hb] at h; cases h.1
      | late hop hs h => rw [hb] at h; cases h.1
    · rintro paid trade redeliver ids rfl
      have hfound := (runOps_uniqueSn env pre (DB.uniqueSn_of_empty h₀)).orderBySn ho
      rw [Op.apply, Request.answer]
      rcases Tx.exec_fst ((settleRequest o.orderSn paid trade redeliver).script env
          (runOps env pre d).clock) ids (runOps env pre d) with hd | ⟨reply, d', h, he⟩
      · rw [hd]
      · rw [he]
        cases redeliver with
        | false =>
            exact settle_keeps_coupons hfound hb (show (settle _ _ _ false).commits _ _ _ _ from h)
        | true =>
            exact settle_keeps_coupons hfound hb (show (settle _ _ _ true).commits _ _ _ _ from h)

/-- The one use of the coupon of the small shop is held by the order that used it. -/
theorem coupon_uses_conserved_used : ∃ k,
    (runOps tinyEnv [tinyBuy 2 1 "code".toList] tinyShop).coupons.get? 1 = some k ∧
      k.ret + (runOps tinyEnv [tinyBuy 2 1 "code".toList] tinyShop).heldUses 1 = 1 ∧ 0 ≤ k.ret :=
  (coupon_uses_conserved tinyEnv tinyShop rfl _ 1 (by decide)
    (fun f ids h => by simp [tinyBuy] at h)
    ⟨10, 1, 1, "code".toList, 1, false⟩ (by decide) (by decide)).1

end Dufaka
