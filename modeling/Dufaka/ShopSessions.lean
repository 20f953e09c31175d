import Dufaka.CommitPoint
import Dufaka.Orders

/-!
# The shop as sessions

Every request and every order of a sweep as a transaction whose statements interleave with those of
all the others. `shopRely` says what a transaction may rely on between two of its statements: an
order keeps what it was created with and never goes back, a goods or coupon row is never removed,
the reservations of an order move only under its row lock, and no unpaid order appears under a quota
key that is locked.
-/

namespace Dufaka
open Relational Tx

/-- A transaction of the shop: a request, or the expiry of the `n`-th order a sweep read. -/
inductive ShopTx where
  | request (r : Request)
  | expire (minutes : ℤ) (n : ℕ)

def ShopTx.script (env : Env) (d : DB) : ShopTx → Script Empty
  | request r => r.script env d.clock
  | expire minutes n =>
      match (d.dueOrders minutes)[n]? with
      | some e => expireOne e.1 e.2
      | none => Tx.commit .ok

def shopSystem (env : Env) : System ShopTx ℕ DB Row Reply where
  prog tag d := tag.script env d
  tick n d := d.tick n

/-! ### What stays -/

/-- How far an order of manual goods has come: not paid, owing its stock, or handed over. -/
def OrderStatus.stage : OrderStatus → ℕ
  | unpaid | expired => 0
  | abnormal => 1
  | pending | processing | completed | failed => 2

structure Order.Onward (o o' : Order) : Prop where
  fixed : o.Fixed o'
  email : o'.email = o.email
  buySource : o'.buySource = o.buySource
  createdAt : o'.createdAt = o.createdAt
  unpaid : o'.status = .unpaid → o.status = .unpaid
  stage : o.type = .manual → o.status.stage ≤ o'.status.stage
  owed : o.type = .manual → o.status.stage = o'.status.stage → o'.stockOwed = o.stockOwed ∨
    o.status.stage ≠ 1

theorem Order.Onward.refl (o : Order) : o.Onward o :=
  ⟨.refl o, rfl, rfl, rfl, id, fun _ => le_rfl, fun _ _ => Or.inl rfl⟩

theorem Order.Onward.trans {o o' o'' : Order} (h : o.Onward o') (h' : o'.Onward o'') :
    o.Onward o'' where
  fixed := h.fixed.trans h'.fixed
  email := h'.email.trans h.email
  buySource := h'.buySource.trans h.buySource
  createdAt := h'.createdAt.trans h.createdAt
  unpaid hu := h.unpaid (h'.unpaid hu)
  stage ht := (h.stage ht).trans (h'.stage (h.fixed.type.trans ht))
  owed ht he := by
    have ht' := h.fixed.type.trans ht
    have h₁ := h.stage ht
    have h₂ := h'.stage ht'
    rcases h.owed ht (by omega) with ho | hne
    · rcases h'.owed ht' (by omega) with ho' | hne
      · exact Or.inl (ho'.trans ho)
      · exact Or.inr (by omega)
    · exact Or.inr hne

def KeepsRows {α : Type*} (t t' : Table α) : Prop :=
  ∀ i, (t.get? i).isSome = true → (t'.get? i).isSome = true

def Order.Waits (o : Order) : Prop := o.status = .unpaid ∧ o.deleted = false

def DB.NoneNew (p : Order → Prop) (d d' : DB) : Prop :=
  ∀ id o', d'.orders.get? id = some o' → o'.Waits → p o' → ∃ o, d.orders.get? id = some o ∧ o.Waits

/-- What the owner of some locks relies on while others commit. `calm` is that no deleted order is
restored: a restored order may be unpaid again. -/
structure ShopStable (env : Env) (calm : Prop) (L : Locks Key) (d d' : DB) : Prop where
  clock : d.clock ≤ d'.clock
  orders : ∀ id o, d.orders.get? id = some o → ∃ o', d'.orders.get? id = some o' ∧ o.Onward o'
  goods : KeepsRows d.goods d'.goods
  coupons : KeepsRows d.coupons d'.coupons
  cards : ∀ id, Owns L (.order id) → ∀ i c, c.reservedOrderId = some id →
    (d.carmis.get? i = some c ↔ d'.carmis.get? i = some c)
  email : calm → ∀ e, Owns L (.advisory (emailKey e)) →
    d.NoneNew (fun o => env.toLower o.email = e) d'
  source : calm → ∀ s, s ≠ [] → Owns L (.advisory (sourceKey s)) →
    d.NoneNew (fun o => o.buySource = s) d'

/-- Every order names a goods row, and a coupon row if it used one. -/
structure DB.Linked (d : DB) : Prop where
  goods : ∀ id o, d.orders.get? id = some o → (d.goods.get? o.goodsId).isSome = true
  coupon : ∀ id o, d.orders.get? id = some o → 0 < o.couponId →
    (d.coupons.get? o.couponId).isSome = true

theorem DB.NoneNew.refl (p : Order → Prop) (d : DB) : d.NoneNew p d :=
  fun _ o ho hw _ => ⟨o, ho, hw⟩

theorem DB.NoneNew.trans {p : Order → Prop} {d d' d'' : DB}
    (hp : ∀ id o, d'.orders.get? id = some o → ∀ o', d''.orders.get? id = some o' → p o' → p o)
    (h : d.NoneNew p d') (h' : d'.NoneNew p d'') : d.NoneNew p d'' := by
  intro id o'' ho'' hw hq
  obtain ⟨o', ho', hw'⟩ := h' id o'' ho'' hw hq
  exact h id o' ho' hw' (hp id o' ho' o'' ho'' hq)

section Stable
variable {env : Env} {calm : Prop} {L L' : Locks Key} {d d' d'' : DB}

theorem ShopStable.refl (env : Env) (calm : Prop) (L : Locks Key) (d : DB) :
    ShopStable env calm L d d where
  clock := le_rfl
  orders _ o ho := ⟨o, ho, .refl o⟩
  goods _ h := h
  coupons _ h := h
  cards _ _ _ _ _ := Iff.rfl
  email _ _ _ := .refl _ d
  source _ _ _ _ := .refl _ d

theorem ShopStable.trans (h : ShopStable env calm L d d') (h' : ShopStable env calm L d' d'') :
    ShopStable env calm L d d'' where
  clock := h.clock.trans h'.clock
  orders id o ho := by
    obtain ⟨o', ho', hon⟩ := h.orders id o ho
    obtain ⟨o'', ho'', hon'⟩ := h'.orders id o' ho'
    exact ⟨o'', ho'', hon.trans hon'⟩
  goods i hi := h'.goods i (h.goods i hi)
  coupons i hi := h'.coupons i (h.coupons i hi)
  cards id hid i c hc := (h.cards id hid i c hc).trans (h'.cards id hid i c hc)
  email hcalm e he := by
    refine .trans (fun i o ho o' ho' hq => ?_) (h.email hcalm e he) (h'.email hcalm e he)
    obtain ⟨o₁, ho₁, hon⟩ := h'.orders i o ho
    rw [ho'] at ho₁
    rw [Option.some.inj ho₁, hon.email] at hq
    exact hq
  source hcalm s hne hs := by
    refine .trans (fun i o ho o' ho' hq => ?_) (h.source hcalm s hne hs) (h'.source hcalm s hne hs)
    obtain ⟨o₁, ho₁, hon⟩ := h'.orders i o ho
    rw [ho'] at ho₁
    rw [Option.some.inj ho₁, hon.buySource] at hq
    exact hq

theorem ShopStable.mono (hs : L ⊆ L') (h : ShopStable env calm L' d d') :
    ShopStable env calm L d d' where
  clock := h.clock
  orders := h.orders
  goods := h.goods
  coupons := h.coupons
  cards id hid := h.cards id (hid.mono hs)
  email hcalm e he := h.email hcalm e (he.mono hs)
  source hcalm s hne hs' := h.source hcalm s hne (hs'.mono hs)

end Stable

def shopRely (env : Env) (calm : Prop) : Rely DB Row where
  inv := DB.Linked
  rely := ShopStable env calm
  refl := ShopStable.refl env calm
  trans := ShopStable.trans
  mono := ShopStable.mono

/-! ### Rules at a commit -/

namespace Script
variable {R : Rely DB Row} {d : DB} {L L' : Locks Key} {w w' : Writes Row} {r r' : Reply} {α : Type}
  {u : Unit} {k : Key}

@[simp] theorem yields_require {c : Bool} :
    (require c r).yields R d L w u L' w' ↔ c = true ∧ L = L' ∧ w = w' := by
  cases c <;> simp [require]

@[simp] theorem commitsAt_require {c : Bool} :
    (require c r).commitsAt R d L w r' L' w' ↔ False := by
  cases c <;> simp [require]

@[simp] theorem yields_orElse {o : Option α} {a : α} :
    (orElse r o).yields R d L w a L' w' ↔ o = some a ∧ L = L' ∧ w = w' := by
  cases o <;> simp [orElse]

@[simp] theorem commitsAt_orElse {o : Option α} :
    (orElse r o).commitsAt R d L w r' L' w' ↔ False := by
  cases o <;> simp [orElse]

@[simp] theorem yields_orRefuse {e : Except Text α} {a : α} :
    (orRefuse e).yields R d L w a L' w' ↔ e = .ok a ∧ L = L' ∧ w = w' := by
  cases e <;> simp [orRefuse]

@[simp] theorem commitsAt_orRefuse {e : Except Text α} :
    (orRefuse e).commitsAt R d L w r' L' w' ↔ False := by
  cases e <;> simp [orRefuse]

theorem yields_onlyIf {c : Bool} {s : Script Unit} : (onlyIf c s).yields R d L w u L' w' ↔
    (c = true ∧ s.yields R d L w u L' w') ∨ (c = false ∧ L = L' ∧ w = w') := by
  cases c <;> simp [onlyIf]

theorem commitsAt_onlyIf {c : Bool} {s : Script Unit} :
    (onlyIf c s).commitsAt R d L w r L' w' ↔ c = true ∧ s.commitsAt R d L w r L' w' := by
  cases c <;> simp [onlyIf]

theorem commitsAt_lockRow (k : Key) {m : LockMode} {p : Row k → Bool} :
    (lockRow k m p).commitsAt R d L w r L' w' ↔ False := Tx.commitsAt_lockRow

theorem commitsAt_updateKey (k : Key) {kc : Row k → Bool} {f : Row k → Option (Row k)} :
    (updateKey k kc f).commitsAt R d L w r L' w' ↔ False := Tx.commitsAt_update

theorem commitsAt_update (k : Key) {f : Row k → Option (Row k)} :
    (update k f).commitsAt R d L w r L' w' ↔ False := commitsAt_updateKey k

/-- An `UPDATE` that found its row wrote the row as it is at the commit. -/
theorem yields_updateKey_some {kc : Row k → Bool} {f : Row k → Option (Row k)} {v' : Row k}
    (h : (updateKey k kc f).yields R d L w (some v') L' w') :
    ∃ v, RowStore.get (view d w) k = some v ∧ f v = some v' ∧ L' = (k, updateMode (kc v)) :: L ∧
      w' = ⟨k, v'⟩ :: w := by
  rcases Tx.yields_update.mp h with ⟨v, v₁, hv, hf, he, rfl, rfl⟩ | ⟨-, he, -⟩
  · obtain rfl := Option.some.inj he
    exact ⟨v, hv, hf, rfl, rfl⟩
  · cases he

theorem yields_updateKey_none {kc : Row k → Bool} {f : Row k → Option (Row k)}
    (h : (updateKey k kc f).yields R d L w none L' w') :
    (∃ d₁, R.Past L d₁ d ∧ (RowStore.get (view d₁ w) k).bind f = none) ∧ L' = L ∧ w' = w := by
  rcases Tx.yields_update.mp h with ⟨v, v₁, -, -, he, -⟩ | ⟨hd, -, rfl, rfl⟩
  · cases he
  · exact ⟨hd, rfl, rfl⟩

theorem yields_change {f : Row k → Row k} (h : (change k f).yields R d L w u L' w') :
    (∃ v, RowStore.get (view d w) k = some v ∧ L' = (k, .noKeyUpdate) :: L ∧ w' = ⟨k, f v⟩ :: w) ∨
      (∃ d₁, R.Past L d₁ d ∧ RowStore.get (view d₁ w) k = none) ∧ L' = L ∧ w' = w := by
  rw [change, yields_bind] at h
  obtain ⟨o, L₁, w₁, h, hret⟩ := h
  obtain ⟨-, rfl, rfl⟩ := yields_pure.mp hret
  cases o with
  | some v' =>
      obtain ⟨v, hv, he, rfl, rfl⟩ := yields_updateKey_some h
      obtain rfl := Option.some.inj he
      exact Or.inl ⟨v, hv, rfl, rfl⟩
  | none =>
      obtain ⟨⟨d₁, hd, hnone⟩, rfl, rfl⟩ := yields_updateKey_none h
      refine Or.inr ⟨⟨d₁, hd, ?_⟩, rfl, rfl⟩
      cases hv : RowStore.get (view d₁ w₁) k with
      | none => rfl
      | some v =>
          rw [hv, Option.bind_some] at hnone
          cases hnone

@[simp] theorem commitsAt_change {f : Row k → Row k} :
    (change k f).commitsAt R d L w r L' w' ↔ False := by
  simp [change, commitsAt_bind, commitsAt_update k]

/-- A row that is there for every transaction since some statement is changed. -/
theorem yields_change_of_seen {f : Row k → Row k} (h : (change k f).yields R d L w u L' w')
    (hseen : ∀ d₁, R.Past L d₁ d → RowStore.get (view d₁ w) k = none →
      RowStore.get (view d w) k = none) :
    L ⊆ L' ∧ view d w' = (view d w).changeRow k f := by
  rcases yields_change h with ⟨v, hv, rfl, rfl⟩ | ⟨⟨d₁, hd, hnone⟩, rfl, rfl⟩
  · refine ⟨List.subset_cons_self _ _, ?_⟩
    rw [DB.changeRow, hv]
    rfl
  · refine ⟨List.Subset.refl _, ?_⟩
    rw [DB.changeRow, hseen d₁ hd hnone]
    rfl

theorem yields_change_owned {f : Row k → Row k} (hk : Owns L k)
    (h : (change k f).yields R d L w u L' w') : L ⊆ L' ∧ view d w' = (view d w).changeRow k f :=
  yields_change_of_seen h (fun _ hd hnone => (hd.view_row hk w).symm.trans hnone)

@[simp] theorem yields_advisoryLock {key : Text} : (advisoryLock key).yields R d L w u L' w' ↔
    L' = (.advisory key, .update) :: L ∧ w' = w := by
  constructor
  · rintro ⟨-, hL, hw⟩
    exact ⟨hL.symm, hw.symm⟩
  · rintro ⟨rfl, rfl⟩
    exact ⟨rfl, rfl, rfl⟩

@[simp] theorem commitsAt_advisoryLock {key : Text} :
    (advisoryLock key).commitsAt R d L w r L' w' ↔ False := iff_false_intro (fun h => by cases h.1)

/-- A foreign-key check met the row in an earlier committed database. -/
theorem yields_foreignKey (h : (foreignKey k).yields R d L w u L' w') :
    (∃ d₁, R.Past L d₁ d ∧ (RowStore.get (view d₁ w) k).isSome = true) ∧ L' = (k, .keyShare) :: L ∧
      w' = w := by
  rw [foreignKey, yields_bind] at h
  obtain ⟨o, L₁, w₁, h, hreq⟩ := h
  obtain ⟨hsome, rfl, rfl⟩ := yields_require.mp hreq
  rcases Tx.yields_lockRow.mp h with ⟨d₁, row, hd, hrow, -, rfl, rfl, rfl⟩ | ⟨-, rfl, -⟩
  · exact ⟨⟨d₁, hd.mono (List.subset_cons_self _ _), by rw [hrow]; rfl⟩, rfl, rfl⟩
  · cases hsome

@[simp] theorem commitsAt_foreignKey : (foreignKey k).commitsAt R d L w r L' w' ↔ False := by
  simp [foreignKey, commitsAt_bind, commitsAt_lockRow k]

/-- Owned cards are changed one after the other. -/
theorem yields_changeAll {f : Carmi → Carmi} {cards : List ℕ} (hown : ∀ i ∈ cards,
    Owns L (.carmi i))
    (h : (Tx.forEach cards (fun i => change (.carmi i) f)).yields R d L w u L' w') :
    L ⊆ L' ∧ view d w' = cards.foldl (fun x i => x.changeRow (.carmi i) f) (view d w) := by
  have hJ := yields_forEach (J := fun is L₁ w₁ => L ⊆ L₁ ∧ (∀ i ∈ is, Owns L (.carmi i)) ∧
      is.foldl (fun x i => x.changeRow (.carmi i) f) (view d w₁) =
        cards.foldl (fun x i => x.changeRow (.carmi i) f) (view d w)) ?_ h
    ⟨List.Subset.refl L, hown, rfl⟩
  · exact ⟨hJ.1, hJ.2.2⟩
  · rintro i is L₁ w₁ L₂ w₂ hi ⟨hL, hown, hfold⟩
    obtain ⟨hL₂, hview⟩ := yields_change_owned ((hown i (by simp)).mono hL) hi
    refine ⟨fun l hl => hL₂ (hL hl), fun j hj => hown j (by simp [hj]), ?_⟩
    rw [hview]
    exact hfold

def Steady (R : Rely DB Row) (L : Locks Key) (d : DB) (p : Carmi → Bool) : Prop :=
  ∀ d₁, R.Past L d₁ d → ∀ i c, p c = true → d.carmis.get? i = some c → d₁.carmis.get? i = some c

theorem Steady.view {p : Carmi → Bool} (h : Steady R L d p) {d₁ : DB} (hd : R.Past L d₁ d) {i : ℕ}
    {c : Carmi} (hp : p c = true) (hc : (view d w).carmis.get? i = some c) :
    (Relational.view d₁ w).carmis.get? i = some c := by
  rw [← DB.get_carmi] at hc ⊢
  by_cases hm : ∃ x ∈ w, x.1 = Key.carmi i
  · have he : RowStore.get (Relational.view d₁ w) (Key.carmi i) =
        RowStore.get (Relational.view d w) (Key.carmi i) :=
      get_view_of_mem hm
    rw [he]
    exact hc
  · push Not at hm
    rw [get_view_of_notMem hm, DB.get_carmi] at hc ⊢
    exact h d₁ hd i c hp hc

/-- Every card that satisfies the test is released. -/
theorem yields_releaseCards {p : Carmi → Bool} (hp : Steady R L d p)
    (h : (releaseCards p).yields R d L w u L' w') : L ⊆ L' ∧ view d w' = { view d w with
      carmis := (view d w).carmis.mapRows (fun _ c => if p c then c.released else c) } := by
  rw [releaseCards, yields_bind] at h
  obtain ⟨cards, L₁, w₁, hread, hloop⟩ := h
  obtain ⟨⟨d₁, hd, rfl⟩, rfl, rfl⟩ := yields_read.mp hread
  let step : DB → ℕ → DB :=
    fun x i => x.changeRow (.carmi i) (fun c => if p c then c.released else c)
  have hJ := yields_forEach (J := fun is L₁ w₁ => L ⊆ L₁ ∧ is.foldl step (view d w₁) =
      (((view d₁ w).carmis.select (fun _ c => p c)).map Prod.fst).foldl step (view d w)) ?_ hloop
    ⟨List.Subset.refl L, rfl⟩
  · refine ⟨hJ.1, hJ.2.trans ?_⟩
    refine (DB.foldl_changeRow_carmi _ (fun c => if p c then c.released else c)
      ((view d₁ w).carmis.select_keys_nodup _)).trans ?_
    congr 1
    apply Table.mapRows_congr
    intro i c hc
    by_cases hpc : p c = true
    · rw [if_pos (Table.mem_select_keys.mpr ⟨c, hp.view hd hpc hc, hpc⟩)]
    · simp [hpc]
  · rintro i is L₂ w₂ L₃ w₃ hi ⟨hL, hfold⟩
    rw [yields_bind] at hi
    obtain ⟨o, L₄, w₄, hi, hret⟩ := hi
    obtain ⟨-, rfl, rfl⟩ := yields_pure.mp hret
    rw [List.foldl_cons] at hfold
    rw [← hfold]
    cases o with
    | some c' =>
        obtain ⟨c, hc, hpc, rfl, rfl⟩ := yields_updateKey_some hi
        refine ⟨fun l hl => List.mem_cons_of_mem _ (hL hl), ?_⟩
        split_ifs at hpc with hpc'
        obtain rfl := Option.some.inj hpc
        show is.foldl step _ = is.foldl step (DB.changeRow _ _ _)
        rw [DB.changeRow, hc]
        simp only [Option.map_some, hpc', if_true]
        rfl
    | none =>
        -- a card that failed the test when the transaction looked fails it now
        obtain ⟨⟨d₂, hd₂, hnone⟩, rfl, rfl⟩ := yields_updateKey_none hi
        refine ⟨hL, ?_⟩
        show is.foldl step _ = is.foldl step (DB.changeRow _ _ _)
        congr 1
        rw [DB.changeRow_carmi]
        cases hc : (view d w₄).carmis.get? i with
        | none => rw [Table.modify_of_none hc]
        | some c =>
            have hpc : p c = false := by
              by_contra hpc
              have hpc : p c = true := by simpa using hpc
              rw [DB.get_carmi, hp.view (hd₂.mono hL) hpc hc, Option.bind_some, if_pos hpc] at hnone
              cases hnone
            rw [← Table.put_eq_modify hc]
            simp only [hpc, Bool.false_eq_true, if_false]
            rw [Table.put_get?_self hc]

end Script

end Dufaka
