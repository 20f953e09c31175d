import Dufaka.LockOrder
import Dufaka.ShopCommits

/-!
# No deadlock

The locks of the shop's transactions in their order: the keys of the quota, orders, goods, coupons.
Cards are at the bottom, as a transaction that waits for one holds nothing yet. The others either
skip the cards that are locked, or release cards of an order they have locked themselves, and these
nobody else can hold. A goods row is shared with every foreign key, as only its insert locks it
against them.
-/

namespace Dufaka
open Relational Tx

def Key.level : Key → ℕ
  | .carmi _ => 0
  | .advisory k => if "dufaka-unpaid-source:".toList.isPrefixOf k then 2 else 1
  | .order _ => 3
  | .goods _ => 4
  | .coupon _ => 5
  | .couponGoods _ => 6
  | .group _ => 7

/-- A card in hand is free or reserved for an order in hand, and a goods row that is locked against
foreign keys is a new one. -/
def Key.knows : (k : Key) → LockMode → Option (Row k) → Locks Key → Prop
  | .carmi _, m, r, L => m.exclusive = true ∧
      ∀ c : Carmi, r = some c → ∀ id, c.reservedOrderId = some id → Owns L (.order id)
  | .goods _, m, r, _ => m = .update → r = none
  | _, _, _, _ => True

def Key.leads : (k : Key) → Row k → Key → Prop
  | .order _, o, k => k = .goods o.goodsId
  | _, _, _ => False

def shopLocks : LockRules Row where
  level := Key.level
  knows := Key.knows
  leads := Key.leads
  mono {k m r L L'} hsub h := by
    cases k with
    | carmi i => exact ⟨h.1, fun c hc id hid => (h.2 c hc id hid).mono hsub⟩
    | goods i => exact h
    | advisory | order | coupon | couponGoods | group => trivial
  shared {k m r r' L} hm h := by
    cases k with
    | carmi i =>
        have hx : m.exclusive = true := h.1
        rw [hm] at hx
        cases hx
    | goods i =>
        rintro rfl
        cases hm
    | advisory | order | coupon | couponGoods | group => trivial

/-! ### Locks in hand -/

/-- Nothing above the key is locked, and the key itself only in a mode that keeps others away. -/
def Ready (k : Key) (L : Locks Key) : Prop :=
  ∀ h ∈ L, h.1.level < k.level ∨ (h.1 = k ∧ h.2.exclusive = true)

def NoCards (L : Locks Key) : Prop := ∀ h ∈ L, 0 < h.1.level

section Hands
variable {L : Locks Key} {k k' : Key} {m : LockMode}

theorem Ready.below (h : Ready k L) (hk : k.level < k'.level) : ∀ l ∈ L, l.1.level < k'.level := by
  intro l hl
  rcases h l hl with hlt | ⟨rfl, -⟩
  · exact hlt.trans hk
  · exact hk

theorem Ready.cons (h : Ready k L) (hm : m.exclusive = true) : Ready k ((k, m) :: L) := by
  intro l hl
  rcases List.mem_cons.mp hl with rfl | hl
  · exact Or.inr ⟨rfl, hm⟩
  · exact h l hl

theorem Ready.of_below (h : ∀ l ∈ L, l.1.level < k.level) : Ready k L := fun l hl => Or.inl (h l hl)

theorem Ready.asks (h : Ready k L) (hm : m ≠ .update) {r : Option (Row k)} :
    shopLocks.Asks L k m r := by
  by_cases hmem : ∃ l ∈ L, l.1 = k
  · obtain ⟨l, hl, rfl⟩ := hmem
    rcases h l hl with hlt | ⟨-, hx⟩
    · exact absurd hlt (lt_irrefl _)
    · exact shopLocks.asks_of_owns ⟨l.2, hx, hl⟩ hm
  · push Not at hmem
    refine Or.inr (Or.inr (fun l hl => ?_))
    rcases h l hl with hlt | ⟨he, -⟩
    · exact hlt
    · exact absurd he (hmem l hl)

theorem below_cons {n : ℕ} (hk : k.level < n) (h : ∀ l ∈ L, l.1.level < n) :
    ∀ l ∈ (k, m) :: L, l.1.level < n := List.forall_mem_cons.mpr ⟨hk, h⟩

theorem NoCards.nil : NoCards [] := fun l hl => by cases hl

theorem NoCards.cons (h : NoCards L) (hk : 0 < k.level) : NoCards ((k, m) :: L) :=
  List.forall_mem_cons.mpr ⟨hk, h⟩

theorem asks_first {r : Option (Row k)} : shopLocks.Asks [] k m r :=
  Or.inr (Or.inr (fun l hl => by cases hl))

/-- A row that is locked below its own key, in any mode, is a new lock. -/
theorem takes_of_below (h : ∀ l ∈ L, l.1.level < k.level) {r : Option (Row k)}
    (hk : k.knows m r L) : shopLocks.Takes L k m r := by
  refine Or.inr ⟨fun _ l hl he => ?_, hk⟩
  have hlt := h l hl
  rw [he] at hlt
  exact lt_irrefl _ hlt

theorem takes_of_ne (hm : m ≠ .update) {r : Option (Row k)} (hk : k.knows m r L) :
    shopLocks.Takes L k m r := Or.inr ⟨fun he => absurd he hm, hk⟩

end Hands

/-! ### Rules of scripts -/

namespace Script
variable {P : Key → Prop} {L : Locks Key} {α : Type} {Q : (Key → Prop) → Locks Key → α → Prop}
  {r : Reply} {k : Key}

theorem obeys_require {c : Bool} {Q : (Key → Prop) → Locks Key → Unit → Prop}
    (h : c = true → Q P L ()) : (require c r).obeys shopLocks Q P L := by
  cases c with
  | false => trivial
  | true => exact h rfl

theorem obeys_orElse {o : Option α} (h : ∀ a, o = some a → Q P L a) :
    (orElse r o).obeys shopLocks Q P L := by
  cases o with
  | none => trivial
  | some a => exact h a rfl

theorem obeys_orRefuse {x : Except Text α} (h : ∀ a, Q P L a) :
    (orRefuse x).obeys shopLocks Q P L := by
  cases x with
  | error msg => trivial
  | ok a => exact h a

theorem obeys_read {q : DB → α} (h : ∀ v : DB, (∀ k, P k → (RowStore.get v k).isSome = true) →
    Q (fun k => (RowStore.get v k).isSome = true) L (q v)) :
    (Tx.read q : Script α).obeys shopLocks Q P L := h

theorem obeys_lockRow {m : LockMode} {p : Row k → Bool}
    {Q : (Key → Prop) → Locks Key → Option (Row k) → Prop}
    (hlock : ∀ row, p row = true →
      shopLocks.Asks L k m (some row) ∧ shopLocks.Takes L k m (some row))
    (hsome : ∀ row, p row = true →
      Q (fun k' => P k' ∨ k' = k ∨ k.leads row k') ((k, m) :: L) (some row))
    (hnone : (P k → ∃ row, p row = false) → Q P L none) :
    (lockRow k m p).obeys shopLocks Q P L :=
  ⟨fun row hp => ⟨(hlock row hp).1, (hlock row hp).2, hsome row hp⟩, hnone⟩

theorem obeys_updateKey {kc : Row k → Bool} {f : Row k → Option (Row k)}
    {Q : (Key → Prop) → Locks Key → Option (Row k) → Prop}
    (hlock : ∀ row row', f row = some row' → shopLocks.Asks L k (updateMode (kc row)) (some row) ∧
      shopLocks.Takes L k (updateMode (kc row)) (some row) ∧ ∀ k', k.leads row' k' → k.leads row k')
    (hsome : ∀ row row', f row = some row' → Q (fun k' => P k' ∨ k' = k ∨ k.leads row k')
      ((k, updateMode (kc row)) :: L) (some row'))
    (hnone : Q P L none) : (updateKey k kc f).obeys shopLocks Q P L := by
  refine ⟨fun row row' hf => ?_, hnone⟩
  obtain ⟨hasks, htakes, hleads⟩ := hlock row row' hf
  exact ⟨hasks, htakes, hleads, hsome row row' hf⟩

theorem obeys_skipLocked {rk : ℕ → Key} {pick : DB → (ℕ → Bool) → List ℕ}
    {Q : (Key → Prop) → Locks Key → List ℕ → Prop} (htakes : ∀ v skip, ∀ n ∈ pick v skip,
      shopLocks.Takes L (rk n) .update (RowStore.get v (rk n)))
    (hQ : ∀ ids : List ℕ, Q P (ids.map (fun n => (rk n, LockMode.update)) ++ L) ids) :
    (Tx.skipLocked rk pick pure : Script (List ℕ)).obeys shopLocks Q P L :=
  fun v skip _ => ⟨htakes v skip, hQ (pick v skip)⟩

theorem obeys_insert {rk : ℕ → Key} {row : (n : ℕ) → Row (rk n)}
    {Q : (Key → Prop) → Locks Key → ℕ → Prop} (hknows : ∀ n, (rk n).knows .update none L)
    (hleads : ∀ n k, (rk n).leads (row n) k → P k)
    (hQ : ∀ n, Q (fun k => P k ∨ k = rk n) ((rk n, .update) :: L) n) :
    (Tx.insert rk row pure : Script ℕ).obeys shopLocks Q P L :=
  fun n => ⟨hknows n, hleads n, hQ n⟩

/-- An update of a row in hand, or of one above all that is locked. -/
theorem obeys_change {f : Row k → Row k} {Q : (Key → Prop) → Locks Key → Unit → Prop}
    (hready : Ready k L ∨ Owns L k) (hknows : Owns L k ∨ ∀ r, k.knows .noKeyUpdate r L)
    (hleads : ∀ row k', k.leads (f row) k' → k.leads row k')
    (hQ : ∀ P' L', (∀ k, P k → P' k) → (L' = L ∨ L' = (k, .noKeyUpdate) :: L) → Q P' L' ()) :
    (change k f).obeys shopLocks Q P L := by
  have hne : LockMode.noKeyUpdate ≠ .update := by decide
  refine (obeys_bind _ _).mpr (obeys_updateKey (fun row row' hf => ⟨?_, ?_, ?_⟩) ?_ ?_)
  · rcases hready with hready | hown
    · exact hready.asks hne
    · exact shopLocks.asks_of_owns hown hne
  · rcases hknows with hown | hknows
    · exact shopLocks.takes_of_owns hown hne
    · exact takes_of_ne hne (hknows _)
  · obtain rfl := Option.some.inj hf
    exact hleads row
  · exact fun row row' hf => hQ _ _ (fun _ => Or.inl) (Or.inr rfl)
  · exact hQ _ _ (fun _ hk => hk) (Or.inl rfl)

/-- A foreign key is locked in the mode that only a new row is locked against. -/
theorem asks_foreignKey (i : ℕ) (g : Good) :
    shopLocks.Asks L (.goods i) .keyShare (some g) := by
  refine Or.inr (Or.inl ⟨by decide, fun L' n _ _ hknows => ?_⟩)
  have hne : n ≠ .update := fun he => by cases hknows he
  cases n with
  | update => exact absurd rfl hne
  | keyShare | share | noKeyUpdate => rfl

theorem obeys_goodsKey {i : ℕ} {Q : (Key → Prop) → Locks Key → Unit → Prop}
    (hQ : ∀ P', (∀ k, P k → P' k) → Q P' ((.goods i, .keyShare) :: L) ()) :
    (foreignKey (.goods i)).obeys shopLocks Q P L := by
  refine (obeys_bind _ _).mpr (obeys_lockRow (fun row _ => ⟨asks_foreignKey i row, ?_⟩) ?_ ?_)
  · exact takes_of_ne (by decide) (fun he => by cases he)
  · exact fun row _ => obeys_require (fun _ => hQ _ (fun _ => Or.inl))
  · exact fun _ => obeys_require (fun he => by cases he)

/-- The cards of an order in hand are locked by nobody else. -/
theorem obeys_releaseCards {p : Carmi → Bool} {id : ℕ}
    {Q : (Key → Prop) → Locks Key → Unit → Prop} (hown : Owns L (.order id))
    (hp : ∀ c, p c = true → c.reservedOrderId = some id)
    (hQ : ∀ P' L', (∀ k, P k → P' k) → L ⊆ L' → Q P' L' ()) :
    (releaseCards p).obeys shopLocks Q P L := by
  have hne : LockMode.noKeyUpdate ≠ .update := by decide
  refine (obeys_bind _ _).mpr (obeys_read (fun v hv => ?_))
  refine (obeys_forEach (J := fun _ P' L' => (∀ k, P k → P' k) ∧ L ⊆ L') ?_
    ⟨hv, List.Subset.refl L⟩).mono (fun P' L' _ h => hQ P' L' h.1 h.2)
  rintro i is P₁ L₁ ⟨hP, hL⟩
  refine (obeys_bind _ _).mpr (obeys_updateKey (fun c c' hc => ⟨?_, ?_, fun _ h => h⟩) ?_ ?_)
  · split_ifs at hc with hpc
    -- whoever has locked the card would have locked its order too
    refine Or.inr (Or.inl ⟨hne, fun L' n hcompat _ hknows => ?_⟩)
    exact absurd (hknows.2 c rfl id (hp c hpc)) (hcompat.not_owns (hown.mono hL))
  · split_ifs at hc with hpc
    refine takes_of_ne hne ⟨rfl, fun c₁ hc₁ id₁ hid => ?_⟩
    obtain rfl := Option.some.inj hc₁
    rw [hp c hpc] at hid
    obtain rfl := Option.some.inj hid
    exact hown.mono hL
  · exact fun c c' _ => ⟨fun k hk => Or.inl (hP k hk), fun l hl => List.mem_cons_of_mem _ (hL hl)⟩
  · exact ⟨hP, hL⟩


/-! ### Checkout -/

theorem level_emailKey (e : Text) : (Key.advisory (emailKey e)).level = 1 := rfl

theorem level_sourceKey (a : Text) : (Key.advisory (sourceKey a)).level = 2 := rfl

theorem level_advisory (k : Text) :
    0 < (Key.advisory k).level ∧ (Key.advisory k).level < 3 := by
  simp only [Key.level]
  split_ifs <;> decide

/-- The two keys of a checkout are locked in their order. -/
theorem quotaKeys_pairwise (source email : Text) : (quotaKeys source email).Pairwise
    (fun a b => (Key.advisory a).level < (Key.advisory b).level) := by
  rw [quotaKeys_eq]
  split_ifs
  · exact List.pairwise_singleton _ _
  · refine List.pairwise_pair.mpr ?_
    rw [level_emailKey, level_sourceKey]
    decide

theorem obeys_unpaidQuota {env : Env} {source email : Text} {expireMin now : ℤ}
    {Q : (Key → Prop) → Locks Key → Unit → Prop}
    (hQ : ∀ P' L', (∀ k, P k → P' k) → (∀ h ∈ L', 0 < h.1.level ∧ h.1.level < 3) → Q P' L' ()) :
    (unpaidQuota env source email expireMin now).obeys shopLocks Q P [] := by
  refine (obeys_bind _ _).mpr ((obeys_forEach (J := fun is P' L' => (∀ k, P k → P' k) ∧
    (∀ h ∈ L', 0 < h.1.level ∧ h.1.level < 3) ∧
    is.Pairwise (fun a b => (Key.advisory a).level < (Key.advisory b).level) ∧
    ∀ h ∈ L', ∀ a ∈ is, h.1.level < (Key.advisory a).level) ?_ ?_).mono ?_)
  · rintro a is P₁ L₁ ⟨hP, hL, hpair, hbelow⟩
    obtain ⟨ha, hpair⟩ := List.pairwise_cons.mp hpair
    have hup : ∀ h ∈ L₁, h.1.level < (Key.advisory a).level :=
      fun h hh => hbelow h hh a List.mem_cons_self
    refine ⟨fun r => ⟨Or.inr (Or.inr hup), takes_of_below hup trivial⟩, hP, ?_, hpair, ?_⟩
    · intro h hh
      rcases List.mem_cons.mp hh with rfl | hh
      · exact level_advisory a
      · exact hL h hh
    · intro h hh b hb
      rcases List.mem_cons.mp hh with rfl | hh
      · exact ha b hb
      · exact hbelow h hh b (List.mem_cons_of_mem a hb)
  · exact ⟨fun _ hk => hk, (by simp), quotaKeys_pairwise _ _, (by simp)⟩
  · rintro P₁ L₁ - ⟨hP, hL, -⟩
    refine (obeys_bind _ _).mpr (obeys_read (fun v hv => obeys_require (fun _ => ?_)))
    exact hQ _ L₁ (fun k hk => hv k (hP k hk)) hL

/-- The goods row is there, and it is locked next. -/
theorem obeys_lockGoods {gid : ℕ} {Q : (Key → Prop) → Locks Key → Option Good → Prop}
    (hthere : P (.goods gid)) (hL : ∀ h ∈ L, h.1.level < 4)
    (hQ : ∀ P' row, (∀ k, P k → P' k) → Q P' ((.goods gid, .noKeyUpdate) :: L) (some row)) :
    (lockRow (.goods gid) .noKeyUpdate (fun _ => true)).obeys shopLocks Q P L := by
  refine obeys_lockRow (fun row _ => ⟨Or.inr (Or.inr hL), ?_⟩) (fun row _ => hQ _ row ?_) ?_
  · exact takes_of_ne (by decide) (fun he => by cases he)
  · exact fun _ => Or.inl
  · intro hnone
    obtain ⟨row, hrow⟩ := hnone hthere
    cases hrow

/-- Cards that a scan picks for an order in hand, or for none. -/
theorem takes_cards {v : DB} {i : ℕ} (hcards : NoCards L) (hfree : ∀ c, v.carmis.get? i = some c →
    ∀ id, c.reservedOrderId = some id → Owns L (.order id)) :
    shopLocks.Takes L (.carmi i) .update (RowStore.get v (Key.carmi i)) := by
  refine Or.inr ⟨fun _ h hh he => ?_, rfl, hfree⟩
  have hlevel := hcards h hh
  rw [he] at hlevel
  exact lt_irrefl _ hlevel

theorem obeys_reserveStock {gid : ℕ} {type : GoodsType} {amount : ℤ}
    {Q : (Key → Prop) → Locks Key → List ℕ → Prop}
    (hready : Ready (.goods gid) L) (hown : Owns L (.goods gid)) (hcards : NoCards L)
    (hQ : ∀ P' L' ids, (∀ k, P k → P' k) → Ready (.goods gid) L' →
      (∀ i ∈ ids, Owns L' (.carmi i)) → Q P' L' ids) :
    (reserveStock gid type amount).obeys shopLocks Q P L := by
  cases type with
  | auto =>
      refine (obeys_bind _ _).mpr (obeys_skipLocked (fun v skip i hi => takes_cards hcards ?_)
        (fun ids => ?_))
      · intro c hc id hid
        obtain ⟨c', hc', hfree⟩ := Table.mem_select_keys.mp (List.mem_of_mem_take hi)
        obtain rfl := Option.some.inj (hc.symm.trans hc')
        simp [DB.freeCard, hid] at hfree
      · refine (obeys_bind _ _).mpr (obeys_require (fun _ => hQ _ _ _ (fun _ hk => hk) ?_ ?_))
        · intro h hh
          rcases List.mem_append.mp hh with hh | hh
          · obtain ⟨i, -, rfl⟩ := List.mem_map.mp hh
            exact Or.inl (by decide : (0 : ℕ) < 4)
          · exact hready h hh
        · exact fun i hi => ⟨.update, rfl, List.mem_append_left _ (List.mem_map.mpr ⟨i, hi, rfl⟩)⟩
  | manual =>
      have hne : LockMode.noKeyUpdate ≠ .update := by decide
      refine (obeys_bind _ _).mpr
        (obeys_updateKey (fun row row' hf => ⟨?_, ?_, fun _ h => h⟩) ?_ ?_)
      · exact shopLocks.asks_of_owns hown hne
      · exact shopLocks.takes_of_owns hown hne
      · intro row row' hf
        refine (obeys_bind _ _).mpr (obeys_require (fun _ => ?_))
        exact hQ _ _ [] (fun _ => Or.inl) (hready.cons rfl) (by simp)
      · exact (obeys_bind _ _).mpr (obeys_require (fun he => by cases he))

theorem obeys_useCoupon {code : Text} {gid : ℕ} {Q : (Key → Prop) → Locks Key → ℕ × Text → Prop}
    (hready : Ready (.goods gid) L)
    (hQ : ∀ P' L' x, (∀ k, P k → P' k) → L ⊆ L' → Q P' L' x) :
    (useCoupon code gid).obeys shopLocks Q P L := by
  have hne : LockMode.noKeyUpdate ≠ .update := by decide
  unfold useCoupon
  split_ifs
  · exact hQ P L _ (fun _ hk => hk) (List.Subset.refl L)
  refine (obeys_bind _ _).mpr (obeys_read (fun v hv => ?_))
  refine (obeys_bind _ _).mpr (obeys_orElse (fun found _ => ?_))
  have hup : ∀ h ∈ L, h.1.level < (Key.coupon found.1).level :=
    hready.below (by decide : (4 : ℕ) < 5)
  refine (obeys_bind _ _).mpr (obeys_lockRow (fun row _ => ⟨Or.inr (Or.inr hup), ?_⟩) ?_ ?_)
  · exact takes_of_ne hne trivial
  · intro row _
    have hown : Owns ((Key.coupon found.1, LockMode.noKeyUpdate) :: L) (.coupon found.1) :=
      Owns.head rfl
    refine (obeys_bind _ _).mpr (obeys_orElse (fun c _ => ?_))
    refine (obeys_bind _ _).mpr (obeys_updateKey (fun row row' hf => ⟨?_, ?_, fun _ h => h⟩) ?_ ?_)
    · exact shopLocks.asks_of_owns hown hne
    · exact shopLocks.takes_of_owns hown hne
    · intro row row' hf
      refine (obeys_bind _ _).mpr (obeys_require (fun _ => hQ _ _ _ (fun k hk => ?_) ?_))
      · exact Or.inl (Or.inl (hv k hk))
      · exact fun l hl => List.mem_cons_of_mem _ (List.mem_cons_of_mem _ hl)
    · refine (obeys_bind _ _).mpr (obeys_require (fun _ => hQ _ _ _ (fun k hk => ?_) ?_))
      · exact Or.inl (hv k hk)
      · exact fun l hl => List.mem_cons_of_mem _ hl
  · exact fun _ => (obeys_bind _ _).mpr (obeys_orElse (fun c hc => by cases hc))

/-- The cards in hand are written, each under its own lock. -/
theorem obeys_changeCards {f : Carmi → Carmi} {ids : List ℕ}
    {Q : (Key → Prop) → Locks Key → Unit → Prop} (hown : ∀ i ∈ ids, Owns L (.carmi i))
    (hQ : ∀ P' L', (∀ k, P k → P' k) → L ⊆ L' → Q P' L' ()) :
    (Tx.forEach ids (fun i => change (.carmi i) f)).obeys shopLocks Q P L := by
  refine (obeys_forEach (J := fun is P' L' => (∀ k, P k → P' k) ∧ L ⊆ L' ∧ is ⊆ ids) ?_
    ⟨fun _ hk => hk, List.Subset.refl L, List.Subset.refl ids⟩).mono
    (fun P' L' _ h => hQ P' L' h.1 h.2.1)
  rintro i is P₁ L₁ ⟨hP, hL, his⟩
  have hi : Owns L₁ (.carmi i) := (hown i (his List.mem_cons_self)).mono hL
  refine obeys_change (Or.inr hi) (Or.inl hi) (fun _ _ h => h) (fun P' L' hP' hL' => ⟨?_, ?_, ?_⟩)
  · exact fun k hk => hP' k (hP k hk)
  · rcases hL' with rfl | rfl
    · exact hL
    · exact fun l hl => List.mem_cons_of_mem _ (hL hl)
  · exact fun j hj => his (List.mem_cons_of_mem i hj)

theorem obeys_insertOrder {o : Order} {reserved : List ℕ}
    {Q : (Key → Prop) → Locks Key → ℕ → Prop} (hgoods : P (.goods o.goodsId))
    (hown : ∀ i ∈ reserved, Owns L (.carmi i)) (hQ : ∀ P' L' id, Q P' L' id) :
    (insertOrder o reserved).obeys shopLocks Q P L := by
  refine (obeys_bind _ _).mpr (obeys_read (fun v hv => ?_))
  refine (obeys_bind _ _).mpr (obeys_require (fun _ => ?_))
  refine (obeys_bind _ _).mpr (obeys_insert (fun _ => trivial) (fun n k hk => ?_) (fun id => ?_))
  · obtain rfl : k = .goods o.goodsId := hk
    exact hv _ hgoods
  · refine (obeys_bind _ _).mpr (obeys_goodsKey (fun P' _ => ?_))
    have hcards : ∀ i ∈ reserved,
        Owns ((.goods o.goodsId, .keyShare) :: (.order id, .update) :: L) (.carmi i) :=
      fun i hi => ((hown i hi).cons _).cons _
    exact (obeys_bind _ _).mpr (obeys_changeCards (f := fun c =>
      { c with reservedOrderId := some id }) hcards (fun P' L' _ _ => hQ P' L' id))


/-! ### Settlement and expiry -/

theorem obeys_retakeCoupon {o : Order} {gid : ℕ} {Q : (Key → Prop) → Locks Key → RetBack → Prop}
    (hready : Ready (.goods gid) L) (hcards : NoCards L)
    (hQ : ∀ P' L' b, (∀ k, P k → P' k) → L ⊆ L' → NoCards L' → Q P' L' b) :
    (retakeCoupon o).obeys shopLocks Q P L := by
  unfold retakeCoupon
  split_ifs
  · have hup : ∀ h ∈ L, h.1.level < (Key.coupon o.couponId).level :=
      hready.below (by decide : (4 : ℕ) < 5)
    refine (obeys_bind _ _).mpr (obeys_updateKey (fun row row' _ => ⟨Or.inr (Or.inr hup), ?_,
      fun _ h => h⟩) (fun row row' _ => hQ _ _ _ (fun _ => Or.inl) ?_ ?_) ?_)
    · exact takes_of_ne (by decide : LockMode.noKeyUpdate ≠ .update) trivial
    · exact fun l hl => List.mem_cons_of_mem _ hl
    · exact hcards.cons (by decide : (0 : ℕ) < 5)
    · exact hQ P L _ (fun _ hk => hk) (List.Subset.refl L) hcards
  · exact hQ P L _ (fun _ hk => hk) (List.Subset.refl L) hcards

/-- A row in hand is written. -/
theorem obeys_changeOwned {f : Row k → Row k} {Q : (Key → Prop) → Locks Key → Unit → Prop}
    (hown : Owns L k) (hleads : ∀ row k', k.leads (f row) k' → k.leads row k')
    (hQ : ∀ P' L', (∀ k, P k → P' k) → L ⊆ L' → Q P' L' ()) :
    (change k f).obeys shopLocks Q P L := by
  refine obeys_change (Or.inr hown) (Or.inl hown) hleads (fun P' L' hP' hL' => hQ P' L' hP' ?_)
  rcases hL' with rfl | rfl
  · exact List.Subset.refl _
  · exact fun l hl => List.mem_cons_of_mem _ hl

theorem obeys_settleShort {id : ℕ} {tradeNo : Text} {retBack : RetBack} {redeliver : Bool}
    (hown : Owns L (.order id)) :
    (settleShort id tradeNo retBack redeliver : Script α).obeys shopLocks Q P L := by
  refine (obeys_bind _ _).mpr (obeys_require (fun _ => ?_))
  exact (obeys_bind _ _).mpr (obeys_changeOwned hown (fun _ _ h => h) (fun _ _ _ _ => trivial))

theorem obeys_deliverCards {id : ℕ} {o : Order} {tradeNo : Text} {retBack : RetBack}
    {redeliver : Bool} {Q : (Key → Prop) → Locks Key → List ℕ → Prop}
    (hown : Owns L (.order id)) (hcards : NoCards L)
    (hQ : ∀ P' L' cards, (∀ k, P k → P' k) → L ⊆ L' → Q P' L' cards) :
    (deliverCards id o tradeNo retBack redeliver).obeys shopLocks Q P L := by
  refine (obeys_bind _ _).mpr (obeys_skipLocked (fun v skip i hi => takes_cards hcards ?_)
    (fun ids => ?_))
  · intro c hc id' hid
    have hmem := List.mem_of_mem_take hi
    rw [List.map_append, List.mem_append] at hmem
    -- picked by either scan, the card is free or the order's own
    have hmine : DB.deliverable id o.goodsId c = true := by
      rcases hmem with hmem | hmem
      · obtain ⟨c', hc', hd⟩ := Table.mem_select_keys.mp hmem
        obtain rfl := Option.some.inj (hc.symm.trans hc')
        simp only [Bool.and_eq_true] at hd
        exact hd.1.1
      · obtain ⟨c', hc', hd⟩ := Table.mem_select_keys.mp hmem
        obtain rfl := Option.some.inj (hc.symm.trans hc')
        simp only [Bool.and_eq_true] at hd
        exact hd.1.1
    simp only [DB.deliverable, hid, Bool.and_eq_true, Bool.or_eq_true, decide_eq_true_eq,
      reduceCtorEq, or_false] at hmine
    obtain rfl := Option.some.inj hmine.2
    exact hown
  · have hsub : L ⊆ ids.map (fun n => (Key.carmi n, LockMode.update)) ++ L :=
      List.subset_append_right _ _
    split_ifs
    · refine (obeys_bind _ _).mpr (obeys_read (fun v₁ hv₁ => ?_))
      have hheld : ∀ i ∈ ids, Owns (ids.map (fun n => (Key.carmi n, LockMode.update)) ++ L)
          (.carmi i) :=
        fun i hi => ⟨.update, rfl, List.mem_append_left _ (List.mem_map.mpr ⟨i, hi, rfl⟩)⟩
      refine (obeys_bind _ _).mpr (obeys_changeCards hheld (fun P₂ L₂ hP₂ hL₂ => ?_))
      have hown₂ : Owns L₂ (.order id) := (hown.mono hsub).mono hL₂
      refine (obeys_bind _ _).mpr (obeys_releaseCards hown₂ (fun c hc => ?_)
        (fun P₃ L₃ hP₃ hL₃ => ?_))
      · simp only [Bool.and_eq_true, decide_eq_true_eq] at hc
        exact hc.1.1
      refine (obeys_bind _ _).mpr (obeys_changeOwned (hown₂.mono hL₃) (fun _ _ h => h)
        (fun P₄ L₄ hP₄ hL₄ => hQ P₄ L₄ ids ?_ ?_))
      · exact fun k hk => hP₄ k (hP₃ k (hP₂ k (hv₁ k hk)))
      · exact fun l hl => hL₄ (hL₃ (hL₂ (hsub hl)))
    · exact obeys_settleShort (hown.mono hsub)

theorem obeys_settleManual {id : ℕ} {o : Order} {tradeNo : Text} {retBack : RetBack}
    {redeliver : Bool} {Q : (Key → Prop) → Locks Key → List ℕ → Prop}
    (hown : Owns L (.order id)) (hgoods : Owns L (.goods o.goodsId))
    (hQ : ∀ P' L' cards, (∀ k, P k → P' k) → L ⊆ L' → Q P' L' cards) :
    (settleManual id o tradeNo retBack redeliver).obeys shopLocks Q P L := by
  have hne : LockMode.noKeyUpdate ≠ .update := by decide
  have hrest : ∀ P₁ L₁ taken, (∀ k, P k → P₁ k) → L ⊆ L₁ →
      (if taken = true then do
        change (.order id) (fun o => o.handToOwner tradeNo retBack)
        return []
      else settleShort id tradeNo retBack redeliver : Script (List ℕ)).obeys shopLocks Q P₁ L₁ := by
    intro P₁ L₁ taken hP₁ hL₁
    split_ifs
    · refine (obeys_bind _ _).mpr (obeys_changeOwned (hown.mono hL₁) (fun _ _ h => h)
        (fun P₂ L₂ hP₂ hL₂ => hQ P₂ L₂ [] (fun k hk => hP₂ k (hP₁ k hk)) ?_))
      exact fun l hl => hL₂ (hL₁ hl)
    · exact obeys_settleShort (hown.mono hL₁)
  refine (obeys_bind _ _).mpr ?_
  unfold retakeStock
  split_ifs
  · refine (obeys_bind _ _).mpr (obeys_updateKey (fun row row' _ => ⟨?_, ?_, fun _ h => h⟩) ?_ ?_)
    · exact shopLocks.asks_of_owns hgoods hne
    · exact shopLocks.takes_of_owns hgoods hne
    · exact fun row row' _ => hrest _ _ _ (fun _ => Or.inl) (fun l hl => List.mem_cons_of_mem _ hl)
    · exact hrest _ _ _ (fun _ hk => hk) (List.Subset.refl L)
  · exact hrest _ _ _ (fun _ hk => hk) (List.Subset.refl L)

theorem obeys_fulfil {id : ℕ} {o : Order} {tradeNo : Text} {retBack : RetBack} {redeliver : Bool}
    {Q : (Key → Prop) → Locks Key → List ℕ → Prop} (hown : Owns L (.order id))
    (hgoods : Owns L (.goods o.goodsId)) (hcards : NoCards L)
    (hQ : ∀ P' L' cards, (∀ k, P k → P' k) → L ⊆ L' → Q P' L' cards) :
    (fulfil id o tradeNo retBack redeliver).obeys shopLocks Q P L := by
  unfold fulfil
  split
  · exact obeys_deliverCards hown hcards hQ
  · exact obeys_settleManual hown hgoods hQ

theorem obeys_acknowledge {c : Bool} {Q : (Key → Prop) → Locks Key → Unit → Prop} (h : Q P L ()) :
    (acknowledge c).obeys shopLocks Q P L := by
  cases c with
  | false => exact h
  | true => trivial

theorem obeys_onlyIf {c : Bool} {s : Script Unit} {Q : (Key → Prop) → Locks Key → Unit → Prop}
    (hs : c = true → s.obeys shopLocks Q P L) (h : Q P L ()) :
    (onlyIf c s).obeys shopLocks Q P L := by
  cases c with
  | false => exact h
  | true => exact hs rfl

theorem obeys_handBack {id coupon : ℕ} {o : Order} {Q : (Key → Prop) → Locks Key → Unit → Prop}
    (hthere : P (.goods o.goodsId)) (hL : ∀ h ∈ L, h.1.level < 4) (hown : Owns L (.order id))
    (hQ : ∀ P' L', Q P' L' ()) : (handBack id coupon o).obeys shopLocks Q P L := by
  refine (obeys_bind _ _).mpr (obeys_lockGoods hthere hL (fun P₁ row hP₁ => ?_))
  have hgoods : Owns ((Key.goods o.goodsId, LockMode.noKeyUpdate) :: L) (.goods o.goodsId) :=
    Owns.head rfl
  have hlast : ∀ P₂ L₂, (Key.goods o.goodsId, LockMode.noKeyUpdate) :: L ⊆ L₂ →
      (do
        releaseCards (fun c => c.reservedOrderId = some id && c.goodsId = o.goodsId)
        onlyIf (o.type = .manual) (change (.goods o.goodsId) (fun g =>
          { g with inStock := g.inStock + o.buyAmount })) : Script Unit).obeys shopLocks Q P₂
            L₂ := by
    intro P₂ L₂ hL₂
    refine (obeys_bind _ _).mpr (obeys_releaseCards ((hown.cons _).mono hL₂) (fun c hc => ?_)
      (fun P₃ L₃ _ hL₃ => ?_))
    · simp only [Bool.and_eq_true, decide_eq_true_eq] at hc
      exact hc.1
    · refine obeys_onlyIf (fun _ => ?_) (hQ P₃ L₃)
      exact obeys_changeOwned ((hgoods.mono hL₂).mono hL₃) (fun _ _ h => h)
        (fun P₄ L₄ _ _ => hQ P₄ L₄)
  have hready : Ready (.coupon coupon) ((.goods o.goodsId, .noKeyUpdate) :: L) :=
    Ready.of_below (below_cons (by decide : (4 : ℕ) < 5)
      (fun h hh => (hL h hh).trans (by decide : (4 : ℕ) < 5)))
  refine (obeys_bind _ _).mpr (obeys_onlyIf (fun _ => ?_) (hlast _ _ (List.Subset.refl _)))
  refine obeys_change (Or.inl hready) (Or.inr (fun _ => trivial)) (fun _ _ h => h)
    (fun P₂ L₂ _ hL₂ => hlast P₂ L₂ ?_)
  rcases hL₂ with rfl | rfl
  · exact List.Subset.refl _
  · exact fun l hl => List.mem_cons_of_mem _ hl

/-! ### The back office -/

theorem obeys_takeOwedStock {id : ℕ} {o : Order} {Q : (Key → Prop) → Locks Key → Unit → Prop}
    (hL : ∀ h ∈ L, h.1.level < 4) (hown : Owns L (.order id))
    (hQ : ∀ P' L', L ⊆ L' → Q P' L' ()) : (takeOwedStock id o).obeys shopLocks Q P L := by
  have hne : LockMode.noKeyUpdate ≠ .update := by decide
  refine (obeys_bind _ _).mpr (obeys_updateKey (fun row row' _ => ⟨Or.inr (Or.inr hL), ?_,
    fun _ h => h⟩) (fun row row' _ => ?_) ?_)
  · exact takes_of_ne hne (fun he => absurd he hne)
  · refine (obeys_bind _ _).mpr (obeys_require (fun _ => ?_))
    exact obeys_changeOwned (hown.cons _) (fun _ _ h => h)
      (fun P' L' _ hL' => hQ P' L' (fun l hl => hL' (List.mem_cons_of_mem _ hl)))
  · exact (obeys_bind _ _).mpr (obeys_require (fun he => by cases he))

theorem obeys_shareGoods {ids : List ℕ} {Q : (Key → Prop) → Locks Key → Bool → Prop}
    (hL : ∀ h ∈ L, h.1.level < 5) (hQ : ∀ P' L' b, (∀ h ∈ L', h.1.level < 5) → Q P' L' b) :
    (shareGoods ids).obeys shopLocks Q P L := by
  induction ids generalizing P L Q with
  | nil => exact hQ P L true hL
  | cons gid ids ih =>
      have hrest : ∀ P₁ L₁ (row : Option Good), (∀ h ∈ L₁, h.1.level < 5) → (do
          let rest ← shareGoods ids
          return row.any (fun g => !g.deleted) && rest : Script Bool).obeys shopLocks Q P₁ L₁ :=
        fun P₁ L₁ row hL₁ => (obeys_bind _ _).mpr (ih hL₁ (fun P' L' b hL' => hQ P' L' _ hL'))
      refine (obeys_bind _ _).mpr (obeys_lockRow (fun row _ => ⟨asks_foreignKey gid row, ?_⟩)
        (fun row _ => hrest _ _ _ ?_) (fun _ => hrest _ _ _ hL))
      · exact takes_of_ne (by decide) (fun he => by cases he)
      · exact below_cons (by decide : (4 : ℕ) < 5) hL

theorem obeys_writeCoupon {id : ℕ} {f : CouponForm} {Q : (Key → Prop) → Locks Key → ℕ → Prop}
    (hL : ∀ h ∈ L, h.1.level < 5)
    (hQ : ∀ P' L' cid, (∀ h ∈ L', h.1.level < 6) → Owns L' (.coupon cid) → Q P' L' cid) :
    (writeCoupon id f).obeys shopLocks Q P L := by
  have hnew : ∀ i m, ∀ h ∈ (Key.coupon i, m) :: L, h.1.level < 6 := fun i m =>
    below_cons (by decide : (5 : ℕ) < 6) (fun h hh => (hL h hh).trans (by decide))
  refine (obeys_bind _ _).mpr (obeys_read (fun v _ => ?_))
  refine (obeys_bind _ _).mpr (obeys_require (fun _ => ?_))
  split_ifs
  · exact obeys_insert (fun _ => trivial) (fun _ _ h => h.elim)
      (fun n => hQ _ _ n (hnew n _) (Owns.head rfl))
  · refine (obeys_bind _ _).mpr (obeys_updateKey (fun row row' _ => ⟨Or.inr (Or.inr hL),
      takes_of_below hL trivial, fun _ h => h⟩) (fun row row' _ => ?_) ?_)
    · exact (obeys_bind _ _).mpr (obeys_require (fun _ =>
        hQ _ _ id (hnew id _) (Owns.head (updateMode_exclusive _))))
    · exact (obeys_bind _ _).mpr (obeys_require (fun he => by cases he))

/-- A foreign key to a row in hand. -/
theorem obeys_foreignKey {Q : (Key → Prop) → Locks Key → Unit → Prop} (hown : Owns L k)
    (hQ : ∀ P', Q P' ((k, .keyShare) :: L) ()) : (foreignKey k).obeys shopLocks Q P L := by
  have hne : LockMode.keyShare ≠ .update := by decide
  refine (obeys_bind _ _).mpr (obeys_lockRow (fun row _ => ⟨shopLocks.asks_of_owns hown hne,
    shopLocks.takes_of_owns hown hne⟩) ?_ ?_)
  · exact fun row _ => obeys_require (fun _ => hQ _)
  · exact fun _ => obeys_require (fun he => by cases he)

theorem obeys_writeCouponGoods {cid : ℕ} {ids : List ℕ} (hL : ∀ h ∈ L, h.1.level < 6)
    (hown : Owns L (.coupon cid)) : (do
      change (.couponGoods cid) (fun _ => [])
      Tx.forEach ids (fun gid => do
        change (.couponGoods cid) (fun l => l ++ [gid])
        foreignKey (.goods gid)
        foreignKey (.coupon cid))
      Tx.commit .ok : Script Empty).obeys shopLocks (fun _ _ _ => True) P L := by
  have hcons : ∀ {L₁ : Locks Key} {l : Key × LockMode}, l.1.level < 6 →
      Ready (.couponGoods cid) L₁ → Ready (.couponGoods cid) (l :: L₁) := by
    intro L₁ l hl hL₁ h hh
    rcases List.mem_cons.mp hh with rfl | hh
    · exact Or.inl hl
    · exact hL₁ h hh
  have hwrite : ∀ {P₁ L₁} {f : List ℕ → List ℕ} {Q : (Key → Prop) → Locks Key → Unit → Prop},
      Ready (.couponGoods cid) L₁ → Owns L₁ (.coupon cid) →
      (∀ P' L', Ready (.couponGoods cid) L' → Owns L' (.coupon cid) → Q P' L' ()) →
      (change (.couponGoods cid) f).obeys shopLocks Q P₁ L₁ := by
    intro P₁ L₁ f Q hready hown hQ
    refine obeys_change (Or.inl hready) (Or.inr (fun _ => trivial)) (fun _ _ h => h)
      (fun P' L' _ hL' => ?_)
    rcases hL' with rfl | rfl
    · exact hQ _ _ hready hown
    · exact hQ _ _ (hready.cons rfl) (hown.cons _)
  refine (obeys_bind _ _).mpr (hwrite (Ready.of_below hL) hown (fun P₁ L₁ hready₁ hown₁ => ?_))
  refine (obeys_bind _ _).mpr ((obeys_forEach (J := fun _ _ L' => Ready (.couponGoods cid) L' ∧
    Owns L' (.coupon cid)) ?_ ⟨hready₁, hown₁⟩).mono (fun _ _ _ _ => trivial))
  rintro gid is P₂ L₂ ⟨hready₂, hown₂⟩
  refine (obeys_bind _ _).mpr (hwrite hready₂ hown₂ (fun P₃ L₃ hready₃ hown₃ => ?_))
  refine (obeys_bind _ _).mpr (obeys_goodsKey (fun P₄ _ => obeys_foreignKey (hown₃.cons _)
    (fun P₅ => ⟨?_, (hown₃.cons _).cons _⟩)))
  exact hcons (by decide : (5 : ℕ) < 6) (hcons (by decide : (4 : ℕ) < 6) hready₃)

theorem obeys_flipRow {p : Row k → Bool} {deleted : Row k → Bool} {write : Row k → Bool → Row k}
    {restore : Bool} {Q : (Key → Prop) → Locks Key → Unit → Prop}
    (hknows : ∀ row, p row = true → k.knows .noKeyUpdate (some row) [])
    (hleads : ∀ row b k', k.leads (write row b) k' → k.leads row k') (hQ : ∀ P' L', Q P' L' ()) :
    (flipRow k p deleted write restore).obeys shopLocks Q P [] := by
  refine (obeys_bind _ _).mpr (obeys_updateKey (fun row row' hf => ⟨?_, ?_, ?_⟩) ?_ ?_)
  · exact asks_first
  · split_ifs at hf with hp
    exact takes_of_ne (by decide : LockMode.noKeyUpdate ≠ .update) (hknows row hp)
  · split_ifs at hf
    obtain ⟨b, -, rfl⟩ := Option.map_eq_some_iff.mp hf
    exact hleads row b
  · exact fun row row' _ => obeys_require (fun _ => hQ _ _)
  · exact obeys_require (fun he => by cases he)

end Script

def Obeying (s : Script Empty) : Prop :=
  s.obeys shopLocks (fun _ _ _ => True) (fun _ => False) []

section Scripts
open Script

theorem createOrder_obeys (env : Env) (sn : Text) (inp : CreateInput) (site : Site) (now : ℤ) :
    Obeying (createOrder env sn inp site now) := by
  refine (obeys_bind _ _).mpr (obeys_require (fun _ => ?_))
  refine (obeys_bind _ _).mpr (obeys_read (fun v _ => ?_))
  refine (obeys_bind _ _).mpr (obeys_orElse (fun g hg => ?_))
  have hgoods : (RowStore.get v (Key.goods inp.gid)).isSome = true := by
    obtain ⟨g', hg', -⟩ := Option.map_eq_some_iff.mp hg
    exact Option.isSome_iff_exists.mpr ⟨g', (Option.filter_eq_some_iff.mp hg').1⟩
  refine (obeys_bind _ _).mpr (obeys_require (fun _ => ?_))
  refine (obeys_bind _ _).mpr (obeys_require (fun _ => ?_))
  refine (obeys_bind _ _).mpr (obeys_read (fun v₁ hv₁ => ?_))
  refine (obeys_bind _ _).mpr (obeys_require (fun _ => ?_))
  refine (obeys_bind _ _).mpr (obeys_read (fun v₂ hv₂ => ?_))
  refine (obeys_bind _ _).mpr (obeys_require (fun _ => ?_))
  refine (obeys_bind _ _).mpr (obeys_unpaidQuota (fun P₃ L₃ hP₃ hL₃ => ?_))
  have hgoods₃ : P₃ (.goods inp.gid) := hP₃ _ (hv₂ _ (hv₁ _ hgoods))
  have hbelow : ∀ h ∈ L₃, h.1.level < 4 := fun h hh => (hL₃ h hh).2.trans (by decide)
  refine (obeys_bind _ _).mpr (obeys_lockGoods hgoods₃ hbelow (fun P₄ row hP₄ => ?_))
  have hready : Ready (.goods inp.gid) ((.goods inp.gid, .noKeyUpdate) :: L₃) :=
    (Ready.of_below hbelow).cons rfl
  have hcards : NoCards ((.goods inp.gid, .noKeyUpdate) :: L₃) :=
    NoCards.cons (fun h hh => (hL₃ h hh).1) (by decide : (0 : ℕ) < 4)
  refine (obeys_bind _ _).mpr (obeys_reserveStock hready (Owns.head rfl) hcards
    (fun P₅ L₅ ids hP₅ hready₅ hown₅ => ?_))
  refine (obeys_bind _ _).mpr (obeys_useCoupon hready₅ (fun P₆ L₆ used hP₆ hL₆ => ?_))
  refine (obeys_bind _ _).mpr (obeys_orRefuse (fun info => ?_))
  refine (obeys_bind _ _).mpr (obeys_orElse (fun q _ => ?_))
  refine (obeys_bind _ _).mpr (obeys_require (fun _ => ?_))
  refine (obeys_bind _ _).mpr (obeys_require (fun _ => ?_))
  refine (obeys_bind _ _).mpr (obeys_insertOrder ?_ (fun i hi => (hown₅ i hi).mono hL₆)
    (fun P₇ L₇ id => ?_))
  · exact hP₆ _ (hP₅ _ (hP₄ _ hgoods₃))
  refine (obeys_bind _ _).mpr (obeys_require (fun _ => ?_))
  refine (obeys_bind _ _).mpr (obeys_read (fun v₈ _ => ?_))
  exact (obeys_bind _ _).mpr (obeys_orElse (fun made _ => trivial))

theorem settle_obeys (sn : Text) (paid : Cents) (tradeNo : Text) (redeliver : Bool) :
    Obeying (settle sn paid tradeNo redeliver) := by
  refine (obeys_bind _ _).mpr (obeys_read (fun v _ => ?_))
  refine (obeys_bind _ _).mpr (obeys_orElse (fun found _ => ?_))
  refine (obeys_bind _ _).mpr (obeys_lockRow (fun row _ => ⟨?_, ?_⟩) (fun o _ => ?_) (fun _ => ?_))
  · exact asks_first
  · exact takes_of_below (fun h hh => by cases hh) trivial
  · refine (obeys_bind _ _).mpr (obeys_orElse (fun o' ho' => ?_))
    obtain rfl := Option.some.inj ho'
    refine (obeys_bind _ _).mpr (obeys_require (fun _ => ?_))
    refine (obeys_bind _ _).mpr (obeys_require (fun _ => ?_))
    refine (obeys_bind _ _).mpr (obeys_require (fun _ => ?_))
    refine (obeys_bind _ _).mpr (obeys_acknowledge ?_)
    refine (obeys_bind _ _).mpr (obeys_require (fun _ => ?_))
    refine (obeys_bind _ _).mpr (obeys_acknowledge ?_)
    have hbelow : ∀ h ∈ [(Key.order found.1, LockMode.update)], h.1.level < 4 :=
      below_cons (by decide : (3 : ℕ) < 4) (by simp)
    refine (obeys_bind _ _).mpr (obeys_lockGoods (Or.inr (Or.inr rfl)) hbelow (fun P₁ row _ => ?_))
    have hready : Ready (.goods o.goodsId)
        [(.goods o.goodsId, .noKeyUpdate), (.order found.1, .update)] :=
      (Ready.of_below hbelow).cons rfl
    have hcards : NoCards [(.goods o.goodsId, .noKeyUpdate), (.order found.1, .update)] :=
      NoCards.cons (NoCards.cons NoCards.nil (by simp [Key.level])) (by simp [Key.level])
    have hgoods : Owns [(Key.goods o.goodsId, LockMode.noKeyUpdate), (.order found.1, .update)]
        (.goods o.goodsId) := Owns.head rfl
    have hown : Owns [(Key.goods o.goodsId, LockMode.noKeyUpdate), (.order found.1, .update)]
        (.order found.1) := Owns.cons (Owns.head rfl) _
    refine (obeys_bind _ _).mpr (obeys_retakeCoupon hready hcards
      (fun P₂ L₂ retBack _ hL₂ hcards₂ => ?_))
    refine (obeys_bind _ _).mpr (obeys_fulfil (hown.mono hL₂) (hgoods.mono hL₂) hcards₂
      (fun P₃ L₃ cards _ hL₃ => ?_))
    exact (obeys_bind _ _).mpr (obeys_changeOwned ((hgoods.mono hL₂).mono hL₃) (fun _ _ h => h)
      (fun _ _ _ _ => trivial))
  · exact (obeys_bind _ _).mpr (obeys_orElse (fun o ho => by cases ho))

theorem expireOne_obeys (id coupon : ℕ) : Obeying (expireOne id coupon) := by
  refine (obeys_bind _ _).mpr (obeys_updateKey (fun row row' hf => ⟨?_, ?_, ?_⟩)
    (fun row row' hf => ?_) trivial)
  · exact asks_first
  · exact takes_of_ne (by decide : LockMode.noKeyUpdate ≠ .update) trivial
  · split_ifs at hf
    obtain rfl := Option.some.inj hf
    exact fun _ h => h
  · split_ifs at hf
    obtain rfl := Option.some.inj hf
    have hbelow : ∀ h ∈ [(Key.order id, updateMode false)], h.1.level < 4 :=
      below_cons (by decide : (3 : ℕ) < 4) (by simp)
    exact (obeys_bind _ _).mpr (obeys_handBack (Or.inr (Or.inr rfl)) hbelow (Owns.head rfl)
      (fun _ _ => trivial))

theorem orderSave_obeys (id : ℕ) (f : OrderForm) : Obeying (orderSave id f) := by
  refine (obeys_bind _ _).mpr (obeys_read (fun v _ => ?_))
  refine (obeys_bind _ _).mpr (obeys_orElse (fun row _ => ?_))
  refine (obeys_bind _ _).mpr (obeys_require (fun _ => ?_))
  refine (obeys_bind _ _).mpr (obeys_orElse (fun dst _ => ?_))
  refine (obeys_bind _ _).mpr (obeys_require (fun _ => ?_))
  refine (obeys_bind _ _).mpr (obeys_updateKey (fun o o' hf => ⟨?_, ?_, ?_⟩) (fun o o' hf => ?_) ?_)
  · exact asks_first
  · exact takes_of_ne (by decide : LockMode.noKeyUpdate ≠ .update) trivial
  · split_ifs at hf
    obtain rfl := Option.some.inj hf
    exact fun _ h => h
  · have hbelow : ∀ h ∈ [(Key.order id, updateMode false)], h.1.level < 4 :=
      below_cons (by decide : (3 : ℕ) < 4) (by simp)
    have hown : Owns [(Key.order id, updateMode false)] (.order id) := Owns.head rfl
    have hrelease : ∀ P₁ L₁, Owns L₁ (.order id) → (do
        onlyIf (releasesReservations row.type row.status dst)
          (releaseCards (fun c => c.reservedOrderId = some id && c.status = .unsold))
        Tx.commit .ok : Script Empty).obeys shopLocks (fun _ _ _ => True) P₁ L₁ := by
      intro P₁ L₁ hown₁
      refine (obeys_bind _ _).mpr (obeys_onlyIf (fun _ => ?_) trivial)
      refine obeys_releaseCards hown₁ (fun c hc => ?_) (fun _ _ _ _ => trivial)
      simp only [Bool.and_eq_true, decide_eq_true_eq] at hc
      exact hc.1
    refine (obeys_bind _ _).mpr (obeys_orElse (fun o₁ _ => ?_))
    refine (obeys_bind _ _).mpr (obeys_onlyIf (fun _ => ?_) (hrelease _ _ hown))
    exact obeys_takeOwedStock hbelow hown (fun P₁ L₁ hL₁ => hrelease P₁ L₁ (hown.mono hL₁))
  · exact (obeys_bind _ _).mpr (obeys_orElse (fun o ho => by cases ho))

theorem lockCldxQuote_obeys (sn : Text) (minor expires : ℤ) :
    Obeying (lockCldxQuote sn minor expires) := by
  refine (obeys_bind _ _).mpr (obeys_read (fun v _ => ?_))
  refine (obeys_bind _ _).mpr (obeys_orElse (fun found _ => ?_))
  refine (obeys_bind _ _).mpr (obeys_updateKey (fun o o' hf => ⟨?_, ?_, ?_⟩) (fun o o' _ => ?_) ?_)
  · exact asks_first
  · exact takes_of_ne (by decide : LockMode.noKeyUpdate ≠ .update) trivial
  · split_ifs at hf
    obtain rfl := Option.some.inj hf
    exact fun _ h => h
  · exact (obeys_bind _ _).mpr (obeys_orElse (fun _ _ => trivial))
  · exact (obeys_bind _ _).mpr (obeys_orElse (fun o ho => by cases ho))

theorem lockUSDTInvoice_obeys (sn : Text) (onTime : Bool) (created : Option Text) :
    Obeying (lockUSDTInvoice sn onTime created) := by
  refine (obeys_bind _ _).mpr (obeys_read (fun v _ => ?_))
  refine (obeys_bind _ _).mpr (obeys_orElse (fun found _ => ?_))
  refine (obeys_bind _ _).mpr
    (obeys_lockRow (fun row _ => ⟨?_, ?_⟩) (fun row _ => ?_) (fun _ => ?_))
  · exact asks_first
  · exact takes_of_below (fun h hh => by cases hh) trivial
  · refine (obeys_bind _ _).mpr (obeys_orElse (fun o _ => ?_))
    refine (obeys_bind _ _).mpr (obeys_require (fun _ => ?_))
    cases o.usdtPayment with
    | some raw => trivial
    | none =>
        refine (obeys_bind _ _).mpr (obeys_orElse (fun raw _ => ?_))
        exact (obeys_bind _ _).mpr (obeys_changeOwned (Owns.head rfl) (fun _ _ h => h)
          (fun _ _ _ _ => trivial))
  · exact (obeys_bind _ _).mpr (obeys_orElse (fun o ho => by cases ho))

theorem couponSave_obeys (id : ℕ) (r : CouponInput) : Obeying (couponSave id r) := by
  refine (obeys_bind _ _).mpr (obeys_orRefuse (fun f => ?_))
  refine (obeys_bind _ _).mpr ((obeys_bind _ _).mpr (obeys_shareGoods (fun h hh => by cases hh)
    (fun P₁ L₁ live hL₁ => obeys_require (fun _ => ?_))))
  refine (obeys_bind _ _).mpr (obeys_writeCoupon hL₁ (fun P₂ L₂ cid hL₂ hown₂ => ?_))
  exact obeys_writeCouponGoods hL₂ hown₂

theorem goodsSave_obeys (id : ℕ) (r : GoodInput) : Obeying (goodsSave id r) := by
  have hend : ∀ P₁ L₁ group, (∀ h ∈ L₁, h.1.level < 5) → (do
      foreignKey (.group group)
      Tx.commit .ok : Script Empty).obeys shopLocks (fun _ _ _ => True) P₁ L₁ := by
    intro P₁ L₁ group hL₁
    have hup : ∀ h ∈ L₁, h.1.level < (Key.group group).level :=
      fun h hh => (hL₁ h hh).trans (by decide : (5 : ℕ) < 7)
    refine (obeys_bind _ _).mpr ((obeys_bind _ _).mpr (obeys_lockRow (fun row _ =>
      ⟨Or.inr (Or.inr hup), takes_of_below hup trivial⟩) ?_ ?_))
    · exact fun row _ => obeys_require (fun _ => trivial)
    · exact fun _ => obeys_require (fun _ => trivial)
  have hone : ∀ (i : ℕ) (m : LockMode), ∀ h ∈ [(Key.goods i, m)], h.1.level < 5 := fun i m =>
    below_cons (by decide : (4 : ℕ) < 5) (by simp)
  refine (obeys_bind _ _).mpr (obeys_orRefuse (fun f => ?_))
  refine (obeys_bind _ _).mpr (obeys_read (fun v _ => ?_))
  refine (obeys_bind _ _).mpr (obeys_require (fun _ => ?_))
  refine (obeys_bind _ _).mpr ?_
  unfold writeGood
  split_ifs
  · exact (obeys_bind _ _).mpr (obeys_insert (fun _ _ => rfl) (fun _ _ h => h.elim)
      (fun n => hend _ _ _ (hone n _)))
  · refine (obeys_bind _ _).mpr (obeys_updateKey (fun row row' _ => ⟨?_, ?_, fun _ h => h⟩)
      (fun row row' _ => obeys_require (fun _ => hend _ _ _ (hone id _)))
      (obeys_require (fun he => by cases he)))
    · exact asks_first
    · exact takes_of_ne (by decide : LockMode.noKeyUpdate ≠ .update) (fun he => by cases he)

theorem carmiSave_obeys (id : ℕ) (f : CarmiForm) : Obeying (carmiSave id f) := by
  refine (obeys_bind _ _).mpr (obeys_require (fun _ => ?_))
  refine (obeys_bind _ _).mpr (obeys_read (fun v _ => ?_))
  refine (obeys_bind _ _).mpr (obeys_require (fun _ => ?_))
  refine (obeys_bind _ _).mpr (obeys_updateKey (fun c c' hf => ⟨?_, ?_, fun _ h => h⟩)
    (fun c c' _ => ?_) ?_)
  · exact asks_first
  · split_ifs at hf with hfree
    refine takes_of_ne (by decide : LockMode.noKeyUpdate ≠ .update) ⟨rfl, fun c₁ hc₁ id hid => ?_⟩
    obtain rfl := Option.some.inj hc₁
    rw [hfree.2.1] at hid
    cases hid
  · refine (obeys_bind _ _).mpr (obeys_require (fun _ => ?_))
    exact (obeys_bind _ _).mpr (obeys_goodsKey (fun _ _ => trivial))
  · exact (obeys_bind _ _).mpr (obeys_require (fun he => by cases he))

theorem carmisImport_obeys (f : ImportForm) : Obeying (carmisImport f) := by
  refine (obeys_bind _ _).mpr (obeys_orRefuse (fun cards => ?_))
  refine (obeys_bind _ _).mpr (obeys_require (fun _ => ?_))
  refine (obeys_bind _ _).mpr (obeys_read (fun v _ => ?_))
  refine (obeys_bind _ _).mpr (obeys_require (fun _ => ?_))
  refine (obeys_bind _ _).mpr ((obeys_forEach (J := fun _ _ _ => True) ?_ trivial).mono
    (fun _ _ _ _ => trivial))
  rintro card is P₁ L₁ -
  refine (obeys_bind _ _).mpr (obeys_insert (fun _ => ⟨rfl, fun c hc => by cases hc⟩)
    (fun _ _ h => h.elim) (fun n => obeys_goodsKey (fun _ _ => trivial)))

theorem markDeleted_obeys (table : AdminTable) (id : ℕ) (restore : Bool) :
    Obeying (markDeleted table id restore) := by
  refine (obeys_bind _ _).mpr ?_
  cases table with
  | goods => exact obeys_flipRow (fun _ _ he => by cases he) (fun _ _ _ h => h) (fun _ _ => trivial)
  | goodsGroup => exact obeys_flipRow (fun _ _ => trivial) (fun _ _ _ h => h) (fun _ _ => trivial)
  | coupons => exact obeys_flipRow (fun _ _ => trivial) (fun _ _ _ h => h) (fun _ _ => trivial)
  | orders => exact obeys_flipRow (fun _ _ => trivial) (fun _ _ _ h => h) (fun _ _ => trivial)
  | carmis =>
      refine obeys_flipRow (fun c hc => ⟨rfl, fun c₁ hc₁ id hid => ?_⟩) (fun _ _ _ h => h)
        (fun _ _ => trivial)
      obtain rfl := Option.some.inj hc₁
      simp [hid] at hc

theorem Request.script_obeys (env : Env) (now : ℤ) (r : Request) : Obeying (r.script env now) := by
  cases r with
  | createOrder rand inp site => exact createOrder_obeys env _ inp site now
  | complete sn paid tradeNo => exact settle_obeys sn paid tradeNo false
  | redeliver sn => exact settle_obeys sn _ _ true
  | lockCldxQuote sn minor expires => exact lockCldxQuote_obeys sn minor expires
  | lockUSDTInvoice sn onTime created => exact lockUSDTInvoice_obeys sn onTime created
  | orderSave id f => exact orderSave_obeys id f
  | goodsSave id r => exact goodsSave_obeys id r
  | couponSave id r => exact couponSave_obeys id r
  | carmiSave id f => exact carmiSave_obeys id f
  | carmisImport f => exact carmisImport_obeys f
  | markDeleted table id restore => exact markDeleted_obeys table id restore

theorem ShopTx.script_obeys (env : Env) (d : DB) (tag : ShopTx) : Obeying (tag.script env d) := by
  cases tag with
  | request r => exact r.script_obeys env d.clock
  | expire minutes n =>
      simp only [ShopTx.script]
      split
      · exact expireOne_obeys _ _
      · trivial

end Scripts

/-! ### Interleavings -/

section Interleavings
variable {env : Env} {as : List (Action ShopTx ℕ)} {d : DB} {c : Config ShopTx DB Row Reply}

theorem shopLocks_closed
    (hd : ∀ id o, d.orders.get? id = some o → (d.goods.get? o.goodsId).isSome = true) :
    shopLocks.Closed d := by
  intro k row hrow k' hk'
  cases k with
  | order id =>
      obtain rfl : k' = .goods row.goodsId := hk'
      exact hd id row hrow
  | carmi | goods | advisory | coupon | couponGoods | group => exact hk'.elim

theorem interleaved_obeyed (hd : shopLocks.Closed d)
    (hr : (shopSystem env).runs as (Config.start d) = some c) : shopLocks.Obeyed c := by
  refine LockRules.Obeyed.runs (.start hd) ?_ ?_ (starts_any as) hr
  · exact fun tag d _ => ShopTx.script_obeys env d tag
  · intro n d k
    cases k <;> rfl

/-- Whatever transactions of the shop run at once, on whatever orders, goods, cards, coupons and
buyers, and however their statements interleave, no transactions wait for each other in a circle. -/
theorem no_deadlock
    (hd : ∀ id o, d.orders.get? id = some o → (d.goods.get? o.goodsId).isSome = true)
    (hr : (shopSystem env).runs as (Config.start d) = some c) (t : ℕ) : ¬ WaitCycle c.waits t :=
  (interleaved_obeyed (shopLocks_closed hd) hr).no_waitCycle t

end Interleavings

/-- The notice is at its commit, and the second checkout runs into the goods row. -/
def tinyJam : List (Action ShopTx ℕ) := tinySale ++ List.replicate 5 (.exec 3 [8])

theorem tinyJam_runs :
    ((shopSystem tinyEnv).runs tinyJam (Config.start tinyShop)).isSome = true := by
  decide

theorem tinyJam_waits :
    (((shopSystem tinyEnv).runs tinyJam (Config.start tinyShop)).get tinyJam_runs).waits 3 2 := by
  refine ⟨by decide, _, _, (Option.some_get (by decide)).symm, (Option.some_get (by decide)).symm,
    (.goods 1, .noKeyUpdate), by decide, (.goods 1, .noKeyUpdate), by decide, rfl, rfl⟩

/-- The second checkout waits for the goods row that the payment notice has locked. -/
theorem no_deadlock_jam :
    ∃ c, (shopSystem tinyEnv).runs tinyJam (Config.start tinyShop) = some c ∧
      c.waits 3 2 ∧ ∀ t, ¬ WaitCycle c.waits t :=
  ⟨_, (Option.some_get tinyJam_runs).symm, tinyJam_waits,
    no_deadlock (fun id o ho => by cases ho) (Option.some_get tinyJam_runs).symm⟩

end Dufaka
