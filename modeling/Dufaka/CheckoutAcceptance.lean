import Dufaka.Reservations

/-!
# Which checkouts are accepted

`Accepts` says, without the order in which `createOrder` asks, what a checkout has to satisfy: the
goods is on sale and shows enough stock, the buyer is not waiting on too many unpaid orders, the
coupon has a use left, the price is positive, and the texts are within the columns of the order. A
checkout that runs alone commits exactly when it is accepted, and then does exactly what `placed`
says. An expiry of the order takes all of it back.
-/

namespace Dufaka
open Relational Tx Script

/-- The coupon a checkout takes, with the text of its discount: none without a code, else the first
coupon with the code that is for the goods, if it is open and has a use left. -/
inductive DB.Coupons (d : DB) (code : Text) (gid : ℕ) : ℕ × Text → Table Coupon → Prop
  | blank (h : code.isBlank = true) : Coupons d code gid (0, []) d.coupons
  | used {i : ℕ} {c : Coupon} (h : code.isBlank = false) (hc : d.couponBy code gid = some (i, c))
      (hopen : c.isOpen = 1) (hunused : c.isUse ≠ 2) (hret : 0 < c.ret) :
      Coupons d code gid (i, yuan c.discount)
        (d.coupons.modify i (fun c => { c with ret := c.ret - 1 }))

/-- The texts of the order are within their columns. A query password may end in more blanks. -/
structure CreateInput.Fits (inp : CreateInput) (title info : Text) : Prop where
  title : title.length ≤ 200 ∧ '\x00' ∉ title
  email : inp.email.length ≤ 200 ∧ '\x00' ∉ inp.email
  ip : inp.ip.length ≤ 50 ∧ '\x00' ∉ inp.ip
  source : inp.source.length ≤ 64 ∧ '\x00' ∉ inp.source
  searchPwd : (∀ c ∈ inp.searchPwd.drop 200, c = ' ') ∧ '\x00' ∉ inp.searchPwd
  info : '\x00' ∉ info

/-- What a checkout at `now` has to satisfy; `g` is the goods as the storefront shows it. -/
structure DB.Accepts (d : DB) (env : Env) (sn : Text) (inp : CreateInput) (site : Site) (now : ℤ)
  (g : Good)
    (info : Text) : Prop where
  amount : 1 ≤ inp.amount
  address : env.parseAddress inp.email = some inp.email
  searchPwd : site.searchPwd = true → inp.searchPwd.isBlank = false
  pay : inp.payId ≠ 0 ∧ d.payReady inp.payId = true
  good : d.goodBy inp.gid = some g
  onSale : g.isOpen = 1
  limit : 0 < g.buyLimitNum → inp.amount ≤ g.buyLimitNum
  loops : 0 < d.loopCards inp.gid → inp.amount ≤ 1
  source : inp.source ≠ [] → d.unpaidSince (now - effectiveMinutes site.expireMin * minute)
    (fun o => o.buySource = inp.source) < maxUnpaidPerAddress
  email : d.unpaidSince (now - effectiveMinutes site.expireMin * minute)
    (fun o => env.toLower o.email = env.toLower inp.email) < maxUnpaidPerEmail
  stock : inp.amount ≤ g.inStock
  fits : inp.Fits g.name info
  info : (if g.type = .manual && g.otherIpuCnf ≠ [] then buyerInfo g.otherIpuCnf inp.extra
    else .ok []) = .ok info
  fresh : d.orderBySn sn = none

/-- A checkout that satisfies everything: `used` is the coupon it takes, `coupons` the coupons that
are left then, and `q` the quote of its price. -/
structure DB.Sells (d : DB) (env : Env) (sn : Text) (inp : CreateInput) (site : Site) (now : ℤ)
  (g : Good)
    (info : Text) (used : ℕ × Text) (coupons : Table Coupon) (q : Quote) : Prop where
  accepts : d.Accepts env sn inp site now g info
  coupon : d.Coupons inp.coupon inp.gid used coupons
  quoted : quote g.actualPrice inp.amount used.2 g.wholesalePriceCnf = some q
  positive : 0 < q.actual

def DB.firstFree (d : DB) (gid : ℕ) (amount : ℤ) : List ℕ :=
  ((d.carmis.select (fun _ c => DB.freeCard gid c)).map Prod.fst).take amount.toNat

def DB.takenCards (d : DB) (gid : ℕ) (type : GoodsType) (amount : ℤ) : List ℕ :=
  match type with
  | .auto => d.firstFree gid amount
  | .manual => []

def DB.placed (d : DB) (id : ℕ) (o : Order) (coupons : Table Coupon) : DB :=
  { d with
    goods := o.type.moveStock d.goods o.goodsId (-o.buyAmount)
    coupons := coupons
    carmis := d.carmis.mapRows (fun i c =>
      if i ∈ d.takenCards o.goodsId o.type o.buyAmount then { c with reservedOrderId := some id }
      else c)
    orders := d.orders.put id o }

namespace Script
variable {env : Env} {ids ids' : ℕ → ℕ} {d d' : DB}

theorem unpaidQuota_returns_iff {source email : Text} {expireMin now : ℤ} {u : Unit} :
    (unpaidQuota env source email expireMin now).returns ids d u ids' d' ↔
      ((source ≠ [] → d.unpaidSince (now - effectiveMinutes expireMin * minute)
          (fun o => o.buySource = source) < maxUnpaidPerAddress) ∧
        d.unpaidSince (now - effectiveMinutes expireMin * minute)
          (fun o => env.toLower o.email = env.toLower email) < maxUnpaidPerEmail) ∧
      ids = ids' ∧ d = d' := by
  have hlocks : ∀ u ids₁ d₁,
      (Tx.forEach (quotaKeys source (env.toLower email)) advisoryLock).returns ids d u
      ids₁ d₁ ↔ ids = ids₁ ∧ d = d₁ := by
    intro u ids₁ d₁
    rw [returns_forEach (fun _ d => d) (fun _ _ _ _ _ _ => returns_advisoryLock)]
    rw [List.foldl_fixed' (fun _ => rfl)]
  simp only [unpaidQuota, returns_bind, hlocks, returns_read, returns_require, and_assoc,
    exists_and_left, exists_eq_left', exists_const, ge_iff_le, ne_eq, Bool.not_eq_true',
    Bool.or_eq_false_iff, Bool.and_eq_false_iff, decide_eq_false_iff_not, not_not, not_le,
    imp_iff_not_or]

theorem firstFree_length {gid : ℕ} {amount : ℤ} (ha : 0 ≤ amount) :
    ((d.firstFree gid amount).length : ℤ) = amount ↔
    amount ≤ d.carmis.count (fun _ c => DB.freeCard gid c) := by
  rw [DB.firstFree, List.length_take, List.length_map, Table.count_eq_length]
  omega

/-- Stock is reserved exactly when the storefront shows enough of it. -/
theorem reserveStock_returns_iff {gid : ℕ} {g : Good} {type : GoodsType} {amount : ℤ}
    {reserved : List ℕ} (ha : 0 ≤ amount) (hg : d.goods.get? gid = some g) :
    (reserveStock gid type amount).returns ids d reserved ids' d' ↔
      amount ≤ (if type = .auto then d.carmis.count (fun _ c => DB.freeCard gid c) else g.inStock) ∧
        d.takenCards gid type amount = reserved ∧ ids = ids' ∧
        { d with goods := type.moveStock d.goods gid (-amount) } = d' := by
  cases type with
  | auto =>
      have hpick : ((d.carmis.select (fun i c => DB.freeCard gid c && !(fun _ : ℕ => false) i)).map
          Prod.fst).take amount.toNat = d.firstFree gid amount := by
        simp only [DB.firstFree, Bool.not_false, Bool.and_true]
      simp only [reserveStock, returns_bind, returns_skipLocked, returns_require, returns_pure,
        if_true, hpick, and_assoc, exists_and_left, exists_eq_left', exists_const,
        decide_eq_true_eq, firstFree_length ha, GoodsType.moveStock, DB.takenCards]
  | manual =>
      simp only [reserveStock, returns_bind, returns_update (.goods _), returns_require,
        returns_pure, DB.get_goods, hg, Option.bind_some, and_assoc, exists_and_left,
        exists_eq_left', exists_const]
      by_cases hle : amount ≤ g.inStock
      · simp only [ge_iff_le, hle, if_true, Option.isSome_some, true_and, reduceCtorEq, if_false,
          DB.takenCards, GoodsType.moveStock, ← Table.put_eq_modify hg]
        rfl
      · simp [hle]

theorem couponBy_some {code : Text} {gid i : ℕ} {c : Coupon}
    (h : d.couponBy code gid = some (i, c)) :
    d.coupons.get? i = some c ∧ c.coupon = code ∧ c.deleted = false := by
  obtain ⟨hget, hp⟩ := Table.find?_some h
  simp only [Bool.and_eq_true, decide_eq_true_eq, Bool.not_eq_true'] at hp
  exact ⟨hget, hp.1.1, hp.2⟩

theorem takeCouponError_zero {isOpen isUse ret : ℤ} :
    takeCouponError isOpen isUse ret 0 ≠ none := by
  unfold takeCouponError
  split_ifs with h₁ h₂ h₃
  · exact Option.some_ne_none _
  · exact Option.some_ne_none _
  · exact Option.some_ne_none _
  · exact absurd (Or.inr zero_ne_one) h₃

theorem takeCouponError_one {isOpen isUse ret : ℤ} (hopen : isOpen = 1) (hunused : isUse ≠ 2)
    (hret : 0 < ret) : takeCouponError isOpen isUse ret 1 = none := by
  unfold takeCouponError
  rw [if_neg (not_not_intro hopen), if_neg hunused, if_neg]
  rintro (h | h)
  · omega
  · exact h rfl

theorem useCoupon_returns_iff {code : Text} {gid : ℕ} {used : ℕ × Text} :
    (useCoupon code gid).returns ids d used ids' d' ↔
      ∃ coupons, d.Coupons code gid used coupons ∧ ids = ids' ∧
      { d with coupons := coupons } = d' := by
  unfold useCoupon
  cases hb : code.isBlank with
  | true =>
      simp only [if_true, returns_pure]
      constructor
      · rintro ⟨rfl, rfl, rfl⟩
        exact ⟨_, .blank hb, rfl, rfl⟩
      · rintro ⟨coupons, h, rfl, rfl⟩
        cases h with
        | blank => exact ⟨rfl, rfl, rfl⟩
        | used h =>
            rw [hb] at h
            cases h
  | false =>
      simp only [Bool.false_eq_true, if_false, returns_bind, returns_read, returns_orElse,
        returns_lockRow (.coupon _), returns_update (.coupon _), returns_require, returns_pure,
        DB.get_coupon, and_assoc, exists_and_left, exists_eq_left', exists_const]
      constructor
      · rintro ⟨⟨i, c⟩, hc, c', hrow, href, rfl, rfl, rfl⟩
        obtain ⟨hget, -⟩ := couponBy_some hc
        rw [hget] at hrow
        obtain rfl := Option.some.inj (Option.filter_eq_some_iff.mp hrow).1
        by_cases hok : c.ret > 0 ∧ c.isOpen = 1 ∧ c.isUse ≠ 2
        · refine ⟨_, .used hb hc hok.2.1 hok.2.2 hok.1, rfl, ?_⟩
          rw [hget, Option.bind_some, if_pos hok, ← Table.put_eq_modify hget]
          rfl
        · -- an update of no row is refused by `TakeCoupon`
          rw [hget, Option.bind_some, if_neg hok] at href
          exact absurd (of_decide_eq_true href) takeCouponError_zero
      · rintro ⟨coupons, h, rfl, rfl⟩
        cases h with
        | blank h =>
            rw [hb] at h
            cases h
        | @used i c h hc hopen hunused hret =>
            obtain ⟨hget, hcode, hdel⟩ := couponBy_some hc
            have hok : c.ret > 0 ∧ c.isOpen = 1 ∧ c.isUse ≠ 2 := ⟨hret, hopen, hunused⟩
            refine ⟨(i, c), hc, c, ?_, ?_, rfl, rfl, ?_⟩
            · rw [hget, Option.filter_some, if_pos (by simp [hcode, hdel])]
            · rw [hget, Option.bind_some, if_pos hok, Option.isSome_some, if_pos rfl]
              exact decide_eq_true (takeCouponError_one hopen hunused hret)
            · rw [hget, Option.bind_some, if_pos hok, ← Table.put_eq_modify hget]
              rfl

theorem insertOrder_returns_iff {o : Order} {reserved : List ℕ} {id : ℕ} (hnd : reserved.Nodup)
    (hgoods : (d.goods.get? o.goodsId).isSome = true) :
    (insertOrder o reserved).returns ids d id ids' d' ↔
      d.orderBySn o.orderSn = none ∧ d.orders.get? (ids 0) = none ∧ ids 0 = id ∧
        (fun n => ids (n + 1)) = ids' ∧
        { d with
          orders := d.orders.put (ids 0) o
          carmis := d.carmis.mapRows (fun i c =>
            if i ∈ reserved then { c with reservedOrderId := some (ids 0) } else c) } = d' := by
  have hloop : ∀ (x : DB) ids₀ u ids₁ d₁, (Tx.forEach reserved (fun cid => change (.carmi cid)
      (fun c => { c with reservedOrderId := some (ids 0) }))).returns ids₀ x u ids₁ d₁ ↔
      ids₀ = ids₁ ∧ { x with carmis := x.carmis.mapRows (fun i c =>
        if i ∈ reserved then { c with reservedOrderId := some (ids 0) } else c) } = d₁ := by
    intro x ids₀ u ids₁ d₁
    rw [← DB.foldl_changeRow_carmi x (fun c => { c with reservedOrderId := some (ids 0) }) hnd]
    exact returns_forEach (fun cid (d : DB) => d.changeRow (.carmi cid)
      (fun c => { c with reservedOrderId := some (ids 0) })) (fun _ _ _ _ _ _ =>
        returns_change) reserved
  simp only [insertOrder, returns_bind, returns_read, returns_require, Tx.returns_insert,
    returns_foreignKey, returns_pure, DB.get_order, DB.set_order, DB.get_goods, hloop, hgoods,
    and_assoc, exists_and_left, exists_eq_left', exists_const, true_and, Bool.not_eq_true',
    Option.isSome_eq_false_iff, Option.isNone_iff_eq_none]

end Script

/-! ### The whole checkout -/

theorem hexDigit_ascii : ∀ n < 16, (hexDigit n).utf8Size = 1 ∧ hexDigit n ≠ '\x00' := by decide

theorem newSN_ascii {b : Fin 8 → Fin 256} {c : Char} (h : c ∈ newSN b) :
    c.utf8Size = 1 ∧ c ≠ '\x00' := by
  obtain ⟨x, -, hc⟩ := List.mem_flatMap.mp h
  have hx := x.isLt
  simp only [List.mem_cons, List.not_mem_nil, or_false] at hc
  rcases hc with rfl | rfl
  · exact hexDigit_ascii _ (by omega)
  · exact hexDigit_ascii _ (by omega)

/-- The numbers the shop makes are short enough to be read back. -/
theorem plausibleSN_newSN (b : Fin 8 → Fin 256) : plausibleSN (newSN b) = true := by
  have hlen : (newSN b).length = 16 := by
    rw [newSN, List.length_flatMap]
    simp
  have hbytes : (newSN b).byteLength = 16 := by
    rw [Text.byteLength, List.map_congr_left (fun c hc => (newSN_ascii hc).1), List.map_const',
      List.sum_replicate, hlen]
    rfl
  have hne : newSN b ≠ [] := by
    intro h
    rw [h] at hlen
    cases hlen
  have hnul : (newSN b).contains '\x00' = false := by
    rw [Bool.eq_false_iff]
    intro h
    exact (newSN_ascii (List.contains_iff_mem.mp h)).2 rfl
  rw [plausibleSN, hbytes, hnul]
  simp [hne]

theorem createRefusal_none_iff {env : Env} {inp : CreateInput} {site : Site} :
    createRefusal env inp site = none ↔ 1 ≤ inp.amount ∧
    env.parseAddress inp.email = some inp.email ∧
      (site.searchPwd = true → inp.searchPwd.isBlank = false) ∧ inp.payId ≠ 0 := by
  unfold createRefusal
  split_ifs with h₁ h₂ h₃ h₄
  · simp only [false_iff]
    omega
  · simp [h₂]
  · simp only [Bool.and_eq_true] at h₃
    simp [h₃]
  · simp [h₄]
  · simp only [not_not] at h₂
    simp only [Bool.and_eq_true, not_and, Bool.not_eq_true] at h₃
    simp only [true_iff]
    exact ⟨by omega, h₂, h₃, h₄⟩

/-- A limit that is not positive is none. -/
theorem withinLimit_iff {limit amount bound : ℤ} :
    (!(limit > 0 && amount > bound)) = true ↔ (0 < limit → amount ≤ bound) := by
  simp only [gt_iff_lt, Bool.not_eq_true', Bool.and_eq_false_iff, decide_eq_false_iff_not, not_lt]
  omega

theorem takenCards_nodup (d : DB) (gid : ℕ) (type : GoodsType) (amount : ℤ) :
    (d.takenCards gid type amount).Nodup := by
  cases type with
  | auto => exact (d.carmis.select_keys_nodup _).sublist (List.take_sublist _ _)
  | manual => exact List.nodup_nil

/-- The goods row is still there when its stock has moved. -/
theorem moveStock_isSome {d : DB} {gid : ℕ} {g : Good} {type : GoodsType} {delta : ℤ}
    (hg : d.goods.get? gid = some g) :
    ((type.moveStock d.goods gid delta).get? gid).isSome = true := by
  cases type with
  | auto => exact Option.isSome_iff_exists.mpr ⟨g, hg⟩
  | manual =>
      rw [GoodsType.moveStock, Table.get?_modify_self, hg]
      rfl

theorem goodBy_shown {d : DB} {gid : ℕ} {g : Good} (h : d.goodBy gid = some g) :
    ∃ g₀, d.goods.get? gid = some g₀ ∧ g.inStock =
      if g.type = .auto then d.carmis.count (fun _ c => DB.freeCard gid c) else g₀.inStock := by
  obtain ⟨g₀, hg₀, rfl⟩ := Option.map_eq_some_iff.mp h
  exact ⟨g₀, (Option.filter_eq_some_iff.mp hg₀).1, rfl⟩

/-- The stock a checkout moves makes no difference to its coupon. -/
theorem DB.coupons_goods {d : DB} {goods : Table Good} {code : Text} {gid : ℕ} {used : ℕ × Text}
    {coupons : Table Coupon} :
    DB.Coupons { d with goods := goods } code gid used coupons ↔
    d.Coupons code gid used coupons := by
  constructor
  · intro h
    cases h with
    | blank h => exact .blank h
    | used h hc hopen hunused hret => exact .used h hc hopen hunused hret
  · intro h
    cases h with
    | blank h => exact .blank h
    | used h hc hopen hunused hret => exact .used h hc hopen hunused hret

/-- The order a checkout reads back is the one it inserted. -/
theorem madeOrder {t : Table Order} {id : ℕ} {o : Order} {sn : Text} (hsn : o.orderSn = sn)
    (hdel : o.deleted = false) (hnew : ∀ i o', t.get? i = some o' → o'.orderSn ≠ sn) :
    (t.put id o).find? (fun _ o => o.orderSn = sn && !o.deleted) = some (id, o) := by
  refine Table.find?_eq_some_of_unique (Table.get?_put_self _ _ _) (by simp [hsn, hdel]) ?_
  intro j o' ho' hj
  rcases Table.get?_put_some ho' with ⟨hji, -⟩ | ⟨-, ho'⟩
  · exact hji
  · simp only [Bool.and_eq_true, decide_eq_true_eq] at hj
    exact absurd hj.1 (hnew j o' ho')

theorem fitsColumn_iff {width : ℕ} {s : Text} :
    fitsColumn width s = true ↔ s.length ≤ width ∧ '\x00' ∉ s := by
  simp [fitsColumn]

theorem fits_iff {inp : CreateInput} {title info : Text} :
    inp.fits title info = true ↔ inp.Fits title info := by
  simp only [CreateInput.fits, Bool.and_eq_true, fitsColumn_iff, List.all_eq_true,
    decide_eq_true_eq, Bool.not_eq_true', List.contains_eq_mem, decide_eq_false_iff_not]
  constructor
  · rintro ⟨⟨⟨⟨⟨⟨htitle, hemail⟩, hip⟩, hsource⟩, hblank⟩, hnul⟩, hinfo⟩
    exact ⟨htitle, hemail, hip, hsource, ⟨hblank, hnul⟩, hinfo⟩
  · rintro ⟨htitle, hemail, hip, hsource, ⟨hblank, hnul⟩, hinfo⟩
    exact ⟨⟨⟨⟨⟨⟨htitle, hemail⟩, hip⟩, hsource⟩, hblank⟩, hnul⟩, hinfo⟩

section Checkout
variable {env : Env} {rand : Fin 8 → Fin 256} {inp : CreateInput} {site : Site} {now : ℤ}
  {ids : ℕ → ℕ} {d d' : DB} {r : Reply}

/-- A checkout commits exactly when the server hands out a fresh identity and the buyer, the goods,
the channel, the coupon and the price are all in order; then it answers with the new order and
leaves the database of `placed`. -/
theorem createOrder_commits_iff :
    (createOrder env (newSN rand) inp site now).commits ids d r d' ↔
      d.orders.get? (ids 0) = none ∧ ∃ g info used coupons q,
        d.Sells env (newSN rand) inp site now g info used coupons q ∧
        r = .created (ids 0) (newOrder (newSN rand) inp g used.1 q info now) ∧
        d' = d.placed (ids 0) (newOrder (newSN rand) inp g used.1 q info now) coupons := by
  simp only [createOrder, commits_bind, commits_require, commits_read, commits_orElse,
    commits_orRefuse, commits_lockRow (.goods _), not_commits_unpaidQuota, not_commits_reserveStock,
    not_commits_useCoupon, not_commits_insertOrder, commits_commit, false_or, returns_require,
    returns_read, returns_orElse, returns_orRefuse, returns_lockRow (.goods _), and_assoc,
    exists_and_left, exists_eq_left', exists_const, decide_eq_true_eq, unpaidQuota_returns_iff,
    plausibleSN_newSN, true_and, createRefusal_none_iff, withinLimit_iff, fits_iff]
  constructor
  · rintro ⟨hamount, haddr, hpwd, hpay, g, hg, hopen, hlimit, hloops, hready, hsource, hemail,
      reserved, _, _,
      hstock, used, _, _, hcoupon, info, hinfo, q, hq, hactual, hfits, id, _, _, hinsert, made,
      hmade, rfl,
      rfl⟩
    obtain ⟨g₀, hg₀, hshown⟩ := goodBy_shown hg
    obtain ⟨hle, rfl, rfl, rfl⟩ := (reserveStock_returns_iff (by omega) hg₀).mp hstock
    obtain ⟨coupons, hused, rfl, rfl⟩ := useCoupon_returns_iff.mp hcoupon
    obtain ⟨hclash, hfree, rfl, rfl, rfl⟩ := (insertOrder_returns_iff (takenCards_nodup _ _ _ _)
      (moveStock_isSome hg₀)).mp hinsert
    have hread : (d.orders.put (ids 0) (newOrder (newSN rand) inp g used.1 q info now)).find?
        (fun _ o => o.orderSn = newSN rand && !o.deleted) = some (ids 0, _) :=
      madeOrder rfl rfl (fun i o' => DB.orderBySn_none hclash)
    obtain rfl := Option.some.inj (hread.symm.trans hmade)
    refine ⟨hfree, g, info, used, coupons, q, ⟨?_, DB.coupons_goods.mp hused, hq, hactual⟩, rfl,
      rfl⟩
    exact
      { amount := hamount
        address := haddr
        searchPwd := hpwd
        pay := ⟨hpay, hready⟩
        good := hg
        onSale := hopen
        limit := hlimit
        loops := hloops
        source := hsource
        email := hemail
        stock := hshown ▸ hle
        info := hinfo
        fits := hfits
        fresh := hclash }
  · rintro ⟨hfree, g, info, used, coupons, q, ⟨hacc, hused, hq, hactual⟩, rfl, rfl⟩
    obtain ⟨g₀, hg₀, hshown⟩ := goodBy_shown hacc.good
    have hamount := hacc.amount
    exact ⟨hamount, hacc.address, hacc.searchPwd, hacc.pay.1, g, hacc.good, hacc.onSale, hacc.limit,
      hacc.loops, hacc.pay.2, hacc.source, hacc.email, _, _, _,
      (reserveStock_returns_iff (by omega) hg₀).mpr ⟨hshown ▸ hacc.stock, rfl, rfl, rfl⟩,
      used, _, _, useCoupon_returns_iff.mpr ⟨coupons, DB.coupons_goods.mpr hused, rfl, rfl⟩,
      info, hacc.info, q, hq, hactual, hacc.fits, ids 0, _, _,
      (insertOrder_returns_iff (takenCards_nodup _ _ _ _) (moveStock_isSome hg₀)).mpr
        ⟨hacc.fresh, hfree, rfl, rfl, rfl⟩,
      _, madeOrder rfl rfl (fun i o' => DB.orderBySn_none hacc.fresh), rfl, rfl⟩

/-! ### Refusals -/

section Ends
variable {E : Bool → Reply → Prop}

theorem unpaidQuota_ends (herr : ∀ m, E false (.err m)) {source email : Text} {expireMin now : ℤ} :
    (unpaidQuota env source email expireMin now).ends E := by
  refine ends_bind (ends_forEach (fun _ _ => trivial)) (fun _ => ?_)
  refine ends_bind ends_read (fun unpaid => ?_)
  exact ends_require (herr _)

theorem reserveStock_ends (herr : ∀ m, E false (.err m)) {gid : ℕ} {type : GoodsType} {amount : ℤ} :
    (reserveStock gid type amount).ends E := by
  cases type with
  | auto =>
      refine ends_bind (fun _ => trivial) (fun reserved => ?_)
      exact ends_bind (ends_require (herr _)) (fun _ => ends_pure)
  | manual =>
      refine ends_bind ends_update (fun row => ?_)
      exact ends_bind (ends_require (herr _)) (fun _ => ends_pure)

theorem useCoupon_ends (herr : ∀ m, E false (.err m)) {code : Text} {gid : ℕ} :
    (useCoupon code gid).ends E := by
  unfold useCoupon
  split_ifs
  · exact ends_pure
  · refine ends_bind ends_read (fun found => ?_)
    refine ends_bind (ends_orElse (herr _)) (fun found => ?_)
    refine ends_bind ends_lockRow (fun row => ?_)
    refine ends_bind (ends_orElse (herr _)) (fun c => ?_)
    refine ends_bind ends_update (fun used => ?_)
    exact ends_bind (ends_require (herr _)) (fun _ => ends_pure)

theorem insertOrder_ends (hint : E false .internal) {o : Order} {reserved : List ℕ} :
    (insertOrder o reserved).ends E := by
  refine ends_bind ends_read (fun clash => ?_)
  refine ends_bind (ends_require hint) (fun _ => ?_)
  refine ends_bind (fun _ => trivial) (fun id => ?_)
  refine ends_bind (ends_bind ends_lockRow (fun _ => ends_require hint)) (fun _ => ?_)
  exact ends_bind (ends_forEach (fun _ _ => ends_change)) (fun _ => ends_pure)

/-- A checkout ends with an error, or commits a new order. -/
theorem createOrder_ends (herr : ∀ m, E false (.err m)) (hint : E false .internal)
    (hmade : ∀ id o, E true (.created id o)) {sn : Text} :
    (createOrder env sn inp site now).ends E := by
  refine ends_bind (ends_require (herr _)) (fun _ => ?_)
  refine ends_bind ends_read (fun found => ?_)
  refine ends_bind (ends_orElse (herr _)) (fun g => ?_)
  refine ends_bind (ends_require (herr _)) (fun _ => ?_)
  refine ends_bind (ends_require (herr _)) (fun _ => ?_)
  refine ends_bind ends_read (fun loops => ?_)
  refine ends_bind (ends_require (herr _)) (fun _ => ?_)
  refine ends_bind ends_read (fun ready => ?_)
  refine ends_bind (ends_require (herr _)) (fun _ => ?_)
  refine ends_bind (unpaidQuota_ends herr) (fun _ => ?_)
  refine ends_bind ends_lockRow (fun _ => ?_)
  refine ends_bind (reserveStock_ends herr) (fun reserved => ?_)
  refine ends_bind (useCoupon_ends herr) (fun used => ?_)
  refine ends_bind ?_ (fun info => ?_)
  · cases (if g.type = .manual && g.otherIpuCnf ≠ [] then buyerInfo g.otherIpuCnf inp.extra
      else .ok []) with
    | error m => exact herr m
    | ok info => trivial
  refine ends_bind (ends_orElse (herr _)) (fun priced => ?_)
  refine ends_bind (ends_require (herr _)) (fun _ => ?_)
  refine ends_bind (ends_require hint) (fun _ => ?_)
  refine ends_bind (insertOrder_ends hint) (fun id => ?_)
  refine ends_bind (ends_require (herr _)) (fun _ => ?_)
  refine ends_bind ends_read (fun made => ?_)
  refine ends_bind (ends_orElse (herr _)) (fun made => ?_)
  exact hmade _ _

end Ends

/-- An answer with a new order is the answer of a commit. -/
theorem commits_of_created {sn : Text} {id : ℕ} {o : Order}
    (h : (createOrder env sn inp site now).exec ids d = (d', some (.created id o))) :
    (createOrder env sn inp site now).commits ids d (.created id o) d' := by
  have hends : (createOrder env sn inp site now).ends (fun c r => c = false → ∀ id o,
      r ≠ .created id o) :=
    createOrder_ends (fun m _ id o hr => by cases hr) (fun _ id o hr => by cases hr)
      (fun id o hc => by cases hc)
  exact commits_of_answer hends h (fun hE => hE rfl id o rfl)

/-- A checkout that does not commit changes nothing and announces no order. -/
theorem answer_of_not_commits
    (hno : ∀ r d', ¬ (createOrder env (newSN rand) inp site d.clock).commits ids d r d') :
    ((Request.createOrder rand inp site).answer env ids d).1 = d ∧
      ∀ id o, ((Request.createOrder rand inp site).answer env ids d).2 ≠ some (.created id o) := by
  constructor
  · rcases exec_fst (createOrder env (newSN rand) inp site d.clock) ids d with he | ⟨r, d', hc, -⟩
    · exact he
    · exact absurd hc (hno r d')
  · intro id o he
    exact hno (.created id o) _ (commits_of_created (Prod.ext rfl he))

/-- A checkout request either satisfies everything, and is answered with its order in the database
of `placed`; or it does not, and is answered with an error that changes nothing. -/
theorem checkout_accepted_iff (env : Env) (rand : Fin 8 → Fin 256) (inp : CreateInput) (site : Site)
    (ids : ℕ → ℕ) (d : DB) :
    (∃ g info used coupons q, d.orders.get? (ids 0) = none ∧
      d.Sells env (newSN rand) inp site d.clock g info used coupons q ∧
      (Request.createOrder rand inp site).answer env ids d =
        (d.placed (ids 0) (newOrder (newSN rand) inp g used.1 q info d.clock) coupons,
          some (.created (ids 0) (newOrder (newSN rand) inp g used.1 q info d.clock)))) ∨
    (¬ (d.orders.get? (ids 0) = none ∧ ∃ g info used coupons q,
        d.Sells env (newSN rand) inp site d.clock g info used coupons q) ∧
      ((Request.createOrder rand inp site).answer env ids d).1 = d ∧
      ∀ id o, ((Request.createOrder rand inp site).answer env ids d).2 ≠ some (.created id o)) := by
  by_cases h : d.orders.get? (ids 0) = none ∧ ∃ g info used coupons q,
      d.Sells env (newSN rand) inp site d.clock g info used coupons q
  · obtain ⟨hfree, g, info, used, coupons, q, hsells⟩ := h
    refine Or.inl ⟨g, info, used, coupons, q, hfree, hsells, ?_⟩
    exact exec_of_commits (createOrder_commits_iff.mpr ⟨hfree, g, info, used, coupons, q, hsells,
      rfl, rfl⟩)
  · refine Or.inr ⟨h, answer_of_not_commits (fun r d' hc => ?_)⟩
    obtain ⟨hfree, g, info, used, coupons, q, hsells, -⟩ := createOrder_commits_iff.mp hc
    exact h ⟨hfree, g, info, used, coupons, q, hsells⟩

/-! ### An order that nobody pays -/

theorem mem_takenCards {gid : ℕ} {type : GoodsType} {amount : ℤ} {i : ℕ}
    (h : i ∈ d.takenCards gid type amount) :
    ∃ c, d.carmis.get? i = some c ∧ DB.freeCard gid c = true := by
  cases type with
  | auto => exact Table.mem_select_keys.mp (List.mem_of_mem_take h)
  | manual => cases h

/-- The cards are as they were once the order has let them go. -/
theorem placed_cards_back {id : ℕ} {o : Order}
    (hunheld : ∀ i c, d.carmis.get? i = some c → c.reservedOrderId ≠ some id) :
    (d.carmis.mapRows (fun i c => if i ∈ d.takenCards o.goodsId o.type o.buyAmount then
        { c with reservedOrderId := some id } else c)).mapRows
      (fun _ c => if c.reservedOrderId = some id && c.goodsId = o.goodsId then c.released else c) =
      d.carmis := by
  rw [Table.mapRows_mapRows]
  apply Table.mapRows_id
  intro i c hc
  by_cases hi : i ∈ d.takenCards o.goodsId o.type o.buyAmount
  · obtain ⟨c', hc', hfree⟩ := mem_takenCards hi
    obtain rfl := Option.some.inj (hc.symm.trans hc')
    simp only [DB.freeCard, Bool.and_eq_true, decide_eq_true_eq] at hfree
    obtain ⟨⟨⟨hgid, -⟩, hnone⟩, -⟩ := hfree
    rw [if_pos hi, if_pos (by simp [hgid])]
    show { c with reservedOrderId := none } = c
    rw [← hnone]
  · simp only [hi, if_false, hunheld i c hc, decide_false, Bool.false_and, Bool.false_eq_true]

theorem placed_stock_back {goods : Table Good} {type : GoodsType} {gid : ℕ} {n : ℤ} :
    type.moveStock (type.moveStock goods gid (-n)) gid n = goods := by
  cases type with
  | auto => rfl
  | manual =>
      rw [GoodsType.moveStock, GoodsType.moveStock, Table.modify, Table.modify,
        Table.mapRows_mapRows]
      apply Table.mapRows_id
      intro i g _
      by_cases hi : i = gid
      · simp [hi]
      · simp [hi]

theorem placed_coupon_back {code : Text} {gid : ℕ} {used : ℕ × Text} {coupons : Table Coupon}
    (hzero : d.coupons.get? 0 = none) (h : d.Coupons code gid used coupons) :
    (if used.1 > 0 then coupons.modify used.1 (fun c => { c with ret := c.ret + 1 }) else coupons) =
      d.coupons := by
  cases h with
  | blank => rfl
  | @used i c h hc hopen hunused hret =>
      have hpos : i > 0 := by
        rcases Nat.eq_zero_or_pos i with rfl | hpos
        · rw [(couponBy_some hc).1] at hzero
          cases hzero
        · exact hpos
      rw [if_pos hpos, Table.modify, Table.modify, Table.mapRows_mapRows]
      apply Table.mapRows_id
      intro j c' _
      by_cases hj : j = i
      · simp [hj]
      · simp [hj]

theorem expireOne_succeeds (id coupon : ℕ) (ids : ℕ → ℕ) (d : DB) :
    (expireOne id coupon).succeeds ids d := by
  have honly : ∀ {c : Bool} {k : Key} {f : Row k → Row k} {ids : ℕ → ℕ} {d : DB},
      (onlyIf c (change k f)).succeeds ids d := by
    intro c k f ids d
    cases c with
    | true => exact succeeds_change
    | false => exact succeeds_pure
  refine succeeds_bind succeeds_update (fun row _ _ _ => ?_)
  cases row with
  | none => exact succeeds_commit
  | some o =>
      refine succeeds_bind ?_ (fun _ _ _ _ => succeeds_commit)
      refine succeeds_of_returns ((returns_lockRow (.goods _)).mpr ⟨rfl, rfl, rfl⟩) ?_
      refine succeeds_bind honly (fun _ _ _ _ => ?_)
      exact succeeds_bind succeeds_releaseCards (fun _ _ _ _ => honly)

/-- An order that is not paid leaves no trace: whatever a checkout took from a reachable shop, the
expiry of its order gives back, and nothing of the shop is changed but for the expired order on
file. -/
theorem abandoned_checkout {d₀ : DB} (h₀ : d₀.orders = Table.empty)
    (hfree : ∀ i c, d₀.carmis.get? i = some c → c.reservedOrderId = none) (ops : List Op)
    (hzero : (runOps env ops d₀).coupons.get? 0 = none)
    (h : (createOrder env (newSN rand) inp site now).commits ids (runOps env ops d₀) r d')
    (ids' : ℕ → ℕ) :
    ∃ id o, r = .created id o ∧ (expireOne id o.couponId).exec ids' d' =
      ({ runOps env ops d₀ with orders := (runOps env ops d₀).orders.put id o.expire },
        some (.expired id)) := by
  have hres := runOps_reserved env ops (DB.reserved_of_empty h₀ hfree)
  generalize runOps env ops d₀ = d at hzero h hres ⊢
  obtain ⟨hnew, g, info, used, coupons, q, ⟨-, hused, -, -⟩, rfl, rfl⟩ :=
    createOrder_commits_iff.mp h
  set o := newOrder (newSN rand) inp g used.1 q info now with ho
  refine ⟨ids 0, o, rfl, ?_⟩
  have hunheld : ∀ i c, d.carmis.get? i = some c → c.reservedOrderId ≠ some (ids 0) := by
    intro i c hc hr
    obtain ⟨-, -, o', ho', -⟩ := hres.holder i c (ids 0) hc hr
    rw [hnew] at ho'
    cases ho'
  have hback : (d.placed (ids 0) o coupons).expire (ids 0) o.couponId o =
      { d with orders := d.orders.put (ids 0) o.expire } := by
    unfold DB.expire DB.placed
    simp only [placed_cards_back hunheld, placed_stock_back, Table.modify_put_self]
    have hcoupon := placed_coupon_back hzero hused
    rw [show o.couponId = used.1 from rfl, hcoupon]
  obtain ⟨r, d', hc⟩ :=
    exists_commits (expireOne_succeeds (ids 0) o.couponId ids' (d.placed (ids 0) o coupons))
  have hget : (d.placed (ids 0) o coupons).orders.get? (ids 0) = some o := Table.get?_put_self _ _ _
  rcases expireOne_commits hc with ⟨-, hne⟩ | ⟨o', ho', -, rfl, rfl⟩
  · exact absurd rfl (hne o hget)
  · obtain rfl := Option.some.inj (hget.symm.trans ho')
    rw [exec_of_commits hc, hback]

/-- The buyer of the last card of the small shop leaves, and the card is for sale again. -/
theorem abandoned_checkout_last :
    (Request.createOrder (fun _ => Fin.ofNat 256 1) (tinyInput 1 []) ⟨false, 5⟩).answer tinyEnv
        (fun _ => 1) tinyShop = (tinyShop.placed 1 tinyAutoOrder tinyShop.coupons,
          some (.created 1 tinyAutoOrder)) ∧
      ∃ id o, Reply.created 1 tinyAutoOrder = .created id o ∧
        (expireOne id o.couponId).exec (fun n => n)
        (tinyShop.placed 1 tinyAutoOrder tinyShop.coupons) =
          ({ tinyShop with orders := tinyShop.orders.put id o.expire }, some (.expired id)) := by
  have hans : (Request.createOrder (fun _ => Fin.ofNat 256 1) (tinyInput 1 []) ⟨false, 5⟩).answer
      tinyEnv (fun _ => 1) tinyShop = (tinyShop.placed 1 tinyAutoOrder tinyShop.coupons,
        some (.created 1 tinyAutoOrder)) := by rfl
  refine ⟨hans, ?_⟩
  exact abandoned_checkout rfl tinyShop_free [] rfl (commits_of_created hans) (fun n => n)

end Checkout
end Dufaka
