import Dufaka.ShopLocks

/-!
# The quota of unpaid orders

A checkout counts the unpaid orders of its buyer under the advisory locks of the buyer's address and
email, and inserts one more before it lets go of them. The count uses the time at which the checkout
began, which may be long ago; the orders it then misses are the older ones, which the quota of any
later moment does not count either.
-/

namespace Dufaka
open Relational Tx

structure DB.WithinQuota (env : Env) (minutes : ℤ) (d : DB) : Prop where
  source : ∀ s, s ≠ [] → d.unpaidSince (d.clock - effectiveMinutes minutes * minute)
    (fun o => o.buySource = s) ≤ maxUnpaidPerAddress
  email : ∀ e, d.unpaidSince (d.clock - effectiveMinutes minutes * minute)
    (fun o => env.toLower o.email = e) ≤ maxUnpaidPerEmail

def quotaTx (minutes : ℤ) (tag : ShopTx) : Prop :=
  tag.calm ∧ ∀ rand inp site, tag = .request (.createOrder rand inp site) → site.expireMin = minutes

/-- The owner may change the expiry time, but no checkout uses a shorter one. -/
def quotaTxAtLeast (minutes : ℤ) (tag : ShopTx) : Prop :=
  tag.calm ∧ ∀ rand inp site, tag = .request (.createOrder rand inp site) →
    effectiveMinutes minutes ≤ effectiveMinutes site.expireMin

theorem quotaTx.atLeast {minutes : ℤ} {tag : ShopTx} (h : quotaTx minutes tag) :
    quotaTxAtLeast minutes tag :=
  ⟨h.1, fun rand inp site he => by rw [h.2 rand inp site he]⟩

section Steps
variable {env : Env} {now minutes since since' : ℤ} {tag : ShopTx} {r : Reply} {d d' : DB}
  {L : Locks Key}
  {p : Order → Bool}

theorem unpaidSince_anti (h : since ≤ since') : d.unpaidSince since' p ≤ d.unpaidSince since p := by
  refine Table.count_mono (fun i o _ hp => ?_)
  simp only [Bool.and_eq_true, decide_eq_true_eq, Bool.not_eq_true'] at hp ⊢
  exact ⟨⟨hp.1.1, by omega⟩, hp.2⟩

theorem window_le {now now' minutes minutes' : ℤ} (h : now ≤ now')
    (hm : effectiveMinutes minutes ≤ effectiveMinutes minutes') :
    now - effectiveMinutes minutes' * minute ≤ now' - effectiveMinutes minutes * minute := by
  have hmul : effectiveMinutes minutes * minute ≤ effectiveMinutes minutes' * minute :=
    mul_le_mul_of_nonneg_right hm (by decide)
  omega

/-- Which orders are counted does not depend on what happens to them later. -/
def Counted (p : Order → Bool) : Prop := ∀ o o', o.Onward o' → p o' = p o

theorem ShopStep.unpaidSince (h : ShopStep env True now L d tag r d') (hcalm : tag.calm)
    (hp : Counted p) :
    d'.unpaidSince since p ≤ d.unpaidSince since p ∨
      ∃ rand inp site, tag = .request (.createOrder rand inp site) ∧
        d.HasRoom env inp (now - effectiveMinutes site.expireMin * minute) ∧
        ∃ o : Order, o.email = inp.email ∧ o.buySource = inp.source ∧ p o = true ∧
          d'.unpaidSince since p ≤ d.unpaidSince since p + 1 := by
  rcases h.orders with he | ⟨i, o₁, o₂, ho₁, hon, -, hwaits, he⟩ |
    ⟨i, o, hfresh, he, -, -, -, -, rand, inp, site, htag, hemail, hsource, hroom⟩
  · refine Or.inl (le_of_eq ?_)
    unfold DB.unpaidSince
    rw [he]
  · refine Or.inl (Table.count_le_of_rows (fun j o' ho' hq => ?_))
    rw [he] at ho'
    rcases Table.get?_put_some ho' with ⟨rfl, rfl⟩ | ⟨-, ho'⟩
    · refine ⟨o₁, ho₁, ?_⟩
      simp only [Bool.and_eq_true, decide_eq_true_eq, Bool.not_eq_true'] at hq ⊢
      obtain ⟨hu, hdel⟩ := hwaits ⟨hq.1.1.1, hq.1.1.2⟩ hcalm
      exact ⟨⟨⟨hu, hdel⟩, by rw [← hon.createdAt]; exact hq.1.2⟩, by
        rw [← hp o₁ o' hon]; exact hq.2⟩
    · exact ⟨o', ho', hq⟩
  · by_cases hpo : p o = true
    · refine Or.inr ⟨rand, inp, site, htag, hroom trivial, o, hemail, hsource, hpo, ?_⟩
      unfold DB.unpaidSince Table.count
      rw [he, Table.sum_put_of_none _ o hfresh]
      split_ifs <;> omega
    · refine Or.inl (le_of_eq ?_)
      unfold DB.unpaidSince Table.count
      rw [he, Table.sum_put_of_none _ o hfresh]
      simp [hpo]

theorem counted_source (s : Text) : Counted (fun o => o.buySource = s) := fun o o' h => by
  show decide (o'.buySource = s) = decide (o.buySource = s)
  rw [h.buySource]

theorem counted_email (env : Env) (e : Text) : Counted (fun o => env.toLower o.email = e) :=
  fun o o' h => by
  show decide (env.toLower o'.email = e) = decide (env.toLower o.email = e)
  rw [h.email]

/-- The room a checkout found is room for its order. -/
theorem ShopStep.withinQuota (h : ShopStep env True now L d tag r d')
    (htag : quotaTxAtLeast minutes tag) (hnow : now ≤ d.clock) (hq : d.WithinQuota env minutes) :
    d'.WithinQuota env minutes := by
  have hclock := h.tables.1
  constructor
  · intro s hs
    rw [hclock]
    rcases (h.unpaidSince htag.1 (counted_source s) :
        d'.unpaidSince (d.clock - effectiveMinutes minutes * minute) _ ≤ _ ∨ _) with
      hle | ⟨rand, inp, site, he, hroom, o, -, hsource, hpo, hle⟩
    · exact hle.trans (hq.source s hs)
    · have hs' : inp.source = s := hsource.symm.trans (by simpa using hpo)
      have hlt := hroom.source (hs' ▸ hs)
      rw [hs'] at hlt
      have hanti := unpaidSince_anti (d := d) (p := fun o => o.buySource = s)
        (window_le hnow (htag.2 rand inp site he))
      omega
  · intro e
    rw [hclock]
    rcases (h.unpaidSince htag.1 (counted_email env e) :
        d'.unpaidSince (d.clock - effectiveMinutes minutes * minute) _ ≤ _ ∨ _) with
      hle | ⟨rand, inp, site, he, hroom, o, hemail, -, hpo, hle⟩
    · exact hle.trans (hq.email e)
    · have hpo : env.toLower o.email = e := by simpa using hpo
      have he' : env.toLower inp.email = e := by rw [← hemail, hpo]
      have hlt := hroom.email
      rw [he'] at hlt
      have hanti := unpaidSince_anti (d := d) (p := fun o => env.toLower o.email = e)
        (window_le hnow (htag.2 rand inp site he))
      omega

theorem DB.WithinQuota.tick (hq : d.WithinQuota env minutes) (n : ℕ) :
    (d.tick n).WithinQuota env minutes := by
  have hle : d.clock - effectiveMinutes minutes * minute ≤
      (d.tick n).clock - effectiveMinutes minutes * minute := by
    show _ ≤ d.clock + n - _
    omega
  exact ⟨fun s hs => (unpaidSince_anti hle).trans (hq.source s hs),
    fun e => (unpaidSince_anti hle).trans (hq.email e)⟩

theorem withinQuota_of_noOrders (h : ∀ id, d.orders.get? id = none) :
    d.WithinQuota env minutes := by
  have hnone : ∀ since p, d.unpaidSince since p = 0 := by
    intro since p
    unfold DB.unpaidSince Table.count
    refine Table.sum_eq_zero (fun i o ho => ?_)
    rw [h i] at ho
    cases ho
  constructor
  · intro s _
    rw [hnone]
    decide
  · intro e
    rw [hnone]
    decide

end Steps

section Interleavings
variable {env : Env} {minutes : ℤ} {as : List (Action ShopTx ℕ)} {d d' : DB}
  {c : Config ShopTx DB Row Reply} {l : List (ShopTx × Reply)}

theorem ShopTrace.withinQuota (h : ShopTrace env True (quotaTxAtLeast minutes) d l d')
    (hq : d.WithinQuota env minutes) : d'.WithinQuota env minutes :=
  h.keeps (P := DB.WithinQuota env minutes) (fun _ n hq => hq.tick n)
    (fun _ hnow htag hs hq => hs.withinQuota htag hnow hq) hq

/-- Whatever expiry times the checkouts use, with no order restored, no moment of an interleaving
sees more than the allowed number of unpaid orders of a buyer address, or of an email in any
spelling of its letters, that are younger than the shortest of these times. -/
theorem quota_interleaved (ha : StartsOnly (quotaTxAtLeast minutes) as)
    (hd : ∀ id, d.orders.get? id = none) (hr : (shopSystem env).runs as (Config.start d) = some c) :
    c.db.WithinQuota env minutes :=
  (shop_starts (fun _ _ h => h.1) ha hd hr).2.withinQuota (withinQuota_of_noOrders hd)

/-- With one expiry time, a database within the quota stays within it at every moment of an
interleaving, and no transactions wait for each other in a circle, in particular not for the two
keys of a checkout. -/
theorem quota_kept (ha : StartsOnly (quotaTx minutes) as) (hd : d.Linked)
    (hq : d.WithinQuota env minutes)
    (hr : (shopSystem env).runs as (Config.start d) = some c) :
    c.db.WithinQuota env minutes ∧ ∀ t, ¬ WaitCycle c.waits t := by
  have hleast : StartsOnly (quotaTxAtLeast minutes) as :=
    fun a h t tag he => (ha a h t tag he).atLeast
  have hcalm : True → ∀ tag, quotaTxAtLeast minutes tag → tag.calm := fun _ _ h => h.1
  obtain ⟨-, htrace⟩ := shop_runs hcalm hleast (.start hd) hr
  exact ⟨htrace.withinQuota hq, (interleaved_obeyed (shopLocks_closed hd.goods) hr).no_waitCycle⟩

end Interleavings

theorem quotaTx_tinyCheckout (gid n : ℕ) : quotaTx 5 (tinyCheckout gid n) := by
  refine ⟨fun id h => (by cases h), fun rand inp site h => ?_⟩
  obtain ⟨-, -, rfl⟩ := Request.createOrder.inj (ShopTx.request.inj h)
  rfl

theorem quotaTx_tinyComplete (n : ℕ) : quotaTx 5 (tinyComplete n) :=
  ⟨fun id h => (by cases h), fun rand inp site h => (by cases h)⟩

/-- Two checkouts of one buyer, and the owner has raised the expiry time in between. -/
def tinyRaise : List (Action ShopTx ℕ) :=
  tinySession 1 7 (tinyCheckout 1 1) 12 ++ .finish 1 :: tinySession 3 8
    (.request (.createOrder (fun _ => Fin.ofNat 256 2) (tinyInput 2 []) ⟨false, 7⟩)) 11 ++
    [.finish 3]

theorem tinyRaise_runs :
    ((shopSystem tinyEnv).runs tinyRaise (Config.start tinyShop)).isSome = true := by
  decide

theorem quota_interleaved_raise :
    ∃ c, (shopSystem tinyEnv).runs tinyRaise (Config.start tinyShop) = some c ∧
      c.db.unpaidSince (c.db.clock - 5 * minute) (fun o => o.email = "e".toList) = 2 ∧
      c.db.WithinQuota tinyEnv 5 := by
  refine ⟨_, (Option.some_get tinyRaise_runs).symm, by decide,
    quota_interleaved ?_ (fun _ => rfl) (Option.some_get tinyRaise_runs).symm⟩
  intro a ha t tag he
  subst he
  simp only [tinyRaise, tinySession, List.cons_append, List.mem_cons, List.mem_append,
    List.mem_replicate, List.not_mem_nil, Action.start.injEq, reduceCtorEq, and_false, false_or,
    or_false] at ha
  rcases ha with ⟨-, rfl⟩ | ⟨-, rfl⟩
  · exact (quotaTx_tinyCheckout 1 1).atLeast
  · refine ⟨fun id h => (by cases h), fun rand inp site h => ?_⟩
    obtain ⟨-, -, rfl⟩ := Request.createOrder.inj (ShopTx.request.inj h)
    decide

/-- The second checkout waits for the goods row with the key of its email in hand. -/
theorem quota_kept_jam :
    ∃ c s, (shopSystem tinyEnv).runs tinyJam (Config.start tinyShop) = some c ∧
      c.sessions.get? 3 = some s ∧ s.locks = [(.advisory (emailKey "e".toList), .update)] ∧
      c.waits 3 2 ∧ c.db.WithinQuota tinyEnv 5 ∧ ∀ t, ¬ WaitCycle c.waits t := by
  refine ⟨_, _, (Option.some_get tinyJam_runs).symm, (Option.some_get (by decide)).symm,
    by decide, tinyJam_waits, quota_kept ?_ (linked_of_noOrders (fun _ => rfl))
      (withinQuota_of_noOrders (fun _ => rfl)) (Option.some_get tinyJam_runs).symm⟩
  intro a ha t tag he
  rcases List.mem_append.mp ha with ha | ha
  · exact tinySale_starts (quotaTx_tinyCheckout 1 1) (quotaTx_tinyCheckout 1 2)
      (quotaTx_tinyComplete 1) a ha t tag he
  · rw [List.eq_of_mem_replicate ha] at he
    cases he

end Dufaka
