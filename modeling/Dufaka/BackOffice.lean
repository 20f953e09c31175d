import Dufaka.Settlement

/-!
# The back office

The owner's requests that write the tables a purchase touches: the order form with its status rules,
the goods, coupon and card forms, the card import and the delete and restore actions. A form is the
texts of its fields as the browser submits them.
-/

namespace Dufaka
open Relational

/-- `mustInt`: the number of a form field, or the fallback when there is none. -/
def mustInt (v : Text) (fallback : ℤ) : ℤ :=
  if v.isBlank then fallback else (Text.parseInt v.trimSpace).getD fallback

def runeLen (s : Text) : ℕ := s.length

def msgNoRecord : Text := "记录不存在".toList

/-! ### Orders -/

structure OrderForm where
  title : Text
  info : Text
  searchPwd : Text
  status : Text
  deriving DecidableEq

/-- The order row the detail page shows, and the one a submitted form is checked against. -/
def DB.loadOrder (d : DB) (id : ℕ) : Option Order := (d.orders.get? id).filter (fun o => !o.deleted)

def validOrderStatus (v : ℤ) : Bool := (OrderStatus.ofCode v).isSome

def manualToShort (typ : GoodsType) (src dst : OrderStatus) : Bool :=
  typ = .manual && dst = .abnormal && src ≠ .abnormal

def owesManualStock (typ : GoodsType) (src : OrderStatus) (owed : Bool) : Bool :=
  typ = .manual && src = .abnormal && owed

def manualShortToFailed (typ : GoodsType) (src dst : OrderStatus) : Bool :=
  typ = .manual && src = .abnormal && dst = .failed

def takesManualStock (typ : GoodsType) (src dst : OrderStatus) : Bool :=
  typ = .manual && src = .abnormal && (dst = .pending || dst = .processing || dst = .completed)

def releasesReservations (typ : GoodsType) (src dst : OrderStatus) : Bool :=
  if typ ≠ .auto || src = dst then false
  else if src = .abnormal then true
  else (src = .pending || src = .processing) && (dst = .completed || dst = .failed)

def manualShortMarker : Text := msgShortStock

def stripShortMarker (info : Text) : Text :=
  if !manualShortMarker.isPrefixOf info then info
  else Text.trimPrefix ['\n'] (Text.trimPrefix ['\r'] (Text.trimPrefix manualShortMarker info))

def ownerMayMove (tradeNo : Text) (src dst : OrderStatus) : Bool :=
  (src = .pending || src = .processing || ((src = .failed || src = .abnormal) && tradeNo ≠ [])) &&
    (dst = .pending || dst = .processing || dst = .completed || dst = .failed || dst = .abnormal)

def orderManualShort : Text := "库存不足，无法改为已处理状态".toList

def orderNoManualShort : Text :=
  "人工处理订单的「异常」状态由系统在付款时库存不足时设置，不能手动改为异常".toList

def orderManualShortFailed : Text :=
  ("该人工处理订单付款时库存不足、尚未扣减库存，不能直接改为处理失败；" ++
    "请补货后改为待处理、处理中或已完成（会同时扣减库存），或保持异常状态").toList

def orderStatusLocked : Text :=
  "该状态不能手动变更；付款与过期由系统处理，已付款订单可更新发货进度。".toList

def orderTextRefusal (title pwd : Text) : Option Text :=
  if title = [] ∨ runeLen title > 200 then some "订单名称不正确".toList
  else if runeLen pwd > 200 then some "查询密码过长".toList
  else none

def orderStatusRefusal (row : Order) (dst : OrderStatus) : Option Text :=
  if manualToShort row.type row.status dst then some orderNoManualShort
  else if owesManualStock row.type row.status row.stockOwed &&
      manualShortToFailed row.type row.status dst then some orderManualShortFailed
  else if dst ≠ row.status && !ownerMayMove row.tradeNo row.status dst then some orderStatusLocked
  else none

def Order.takesStock (row : Order) (dst : OrderStatus) : Bool :=
  owesManualStock row.type row.status row.stockOwed && takesManualStock row.type row.status dst

def Order.savedInfo (row : Order) (dst : OrderStatus) (info : Text) : Text :=
  if row.takesStock dst then stripShortMarker (Text.normalizeNL info) else Text.normalizeNL info

def Order.edited (o : Order) (title info pwd : Text) (dst : OrderStatus) : Order :=
  { o with title := title, info := info, searchPwd := pwd, status := dst }

namespace Script

def takeOwedStock (id : ℕ) (o : Order) : Script Unit := do
  let taken ← update (.goods o.goodsId) (fun g =>
    if g.inStock ≥ o.buyAmount then some { g with inStock := g.inStock - o.buyAmount } else none)
  require taken.isSome (.err orderManualShort)
  change (.order id) (fun o => { o with stockOwed := false })

end Script

open Script in
def orderSave (id : ℕ) (f : OrderForm) : Script Empty := do
  let loaded ← Tx.read (fun d => d.loadOrder id)
  let row ← orElse (.err msgNoRecord) loaded
  let title := f.title.trimSpace
  let pwd := f.searchPwd.trimSpace
  let textRefusal := orderTextRefusal title pwd
  require (textRefusal = none) (.err (textRefusal.getD []))
  let dst ← orElse (.err "订单状态不正确".toList) (OrderStatus.ofCode (mustInt f.status 0))
  let statusRefusal := orderStatusRefusal row dst
  require (statusRefusal = none) (.err (statusRefusal.getD []))
  let saved ← update (.order id) (fun o =>
    if o.status = row.status ∧ o.deleted = false then
      some (o.edited title (row.savedInfo dst f.info) pwd dst)
    else none)
  let o ← orElse (.err msgNoRecord) saved
  onlyIf (row.takesStock dst) (takeOwedStock id o)
  onlyIf (releasesReservations row.type row.status dst)
    (releaseCards (fun c => c.reservedOrderId = some id && c.status = .unsold))
  Tx.commit .ok

/-! ### Goods -/

structure GoodInput where
  groupId : Text
  name : Text
  desc : Text
  keywords : Text
  picture : Text
  retail : Text
  actual : Text
  inStock : Text
  sales : Text
  ord : Text
  buyLimit : Text
  prompt : Text
  detail : Text
  type : Text
  wholesale : Text
  other : Text
  hook : Text
  isOpen : Text
  deriving DecidableEq

structure GoodForm where
  groupId : ℤ
  name : Text
  desc : Text
  keywords : Text
  picture : Text
  retail : Text
  actual : Text
  inStock : ℤ
  sales : ℤ
  ord : ℤ
  buyLimit : ℤ
  prompt : Text
  detail : Text
  type : ℤ
  wholesale : Text
  other : Text
  hook : Text
  isOpen : ℤ
  deriving DecidableEq

/-- `^\d+(\.\d{1,2})?$` -/
def moneyMatches (s : Text) : Bool :=
  let parts : Text × Option Text := match s.cut '.' with
    | some (w, f) => (w, some f)
    | none => (s, none)
  parts.1 ≠ [] && parts.1.all Char.isDigit &&
    match parts.2 with
    | none => true
    | some f => (f.length = 1 || f.length = 2) && f.all Char.isDigit

def money (s : Text) (allowEmpty : Bool) : Except Text Text :=
  let s := s.trimSpace
  if s = [] then if allowEmpty then .ok "0.00".toList else .error "不能为空".toList
  else if !moneyMatches s then .error "格式不正确".toList
  else
    let parts := (s.cut '.').getD (s, "00".toList)
    let whole := parts.1
    let frac := if parts.2.length = 1 then parts.2 ++ ['0'] else parts.2
    let trimmed := whole.dropWhile (fun c => c = '0')
    let trimmed := if trimmed = [] then ['0'] else trimmed
    if trimmed.length > 8 then .error "超出范围".toList
    else .ok (whole ++ '.' :: frac)

/-- The value a `numeric(10,2)` column takes from an accepted amount. -/
def numeric (s : Text) : Cents := (parseYuan s).getD 0

def parseIntField (raw label : Text) (empty : ℤ) (allowEmpty : Bool) : Except Text ℤ :=
  let raw := raw.trimSpace
  if raw = [] then
    if allowEmpty then .ok empty else .error ("请填写".toList ++ label)
  else match Text.parseInt raw with
    | some n => .ok n
    | none => .error (label ++ "必须是整数".toList)

def validateGood (f : GoodForm) : Option Text :=
  if f.groupId < 1 then some "请选择所属分类".toList
  else if f.name = [] then some "请填写商品名称".toList
  else if f.desc = [] then some "请填写商品描述".toList
  else if f.keywords = [] then some "请填写商品关键字".toList
  else if runeLen f.name > 200 ∨ runeLen f.desc > 200 ∨ runeLen f.keywords > 200 then
    some "商品名称、描述或关键字超过 200 字".toList
  else if f.type ≠ 1 ∧ f.type ≠ 2 then some "商品类型必须是 1（自动发货）或 2（人工处理）".toList
  else if f.isOpen ≠ 0 ∧ f.isOpen ≠ 1 then some "是否上架取值不正确".toList
  else if f.inStock < 0 then some "库存不能为负数".toList
  else if f.sales < 0 then some "销量不能为负数".toList
  else if f.buyLimit < 0 then some "单次限购不能为负数".toList
  else none

def labelled (label : Text) : Except Text Text → Except Text Text
  | .ok s => .ok s
  | .error e => .error (label ++ e)

def readGoodForm (r : GoodInput) : Except Text GoodForm := do
  let groupId ← parseIntField r.groupId "所属分类".toList 0 false
  let retail ← labelled "零售价".toList (money r.retail true)
  let actual ← labelled "实际售价".toList (money r.actual false)
  let inStock ← parseIntField r.inStock "库存".toList 0 true
  let sales ← parseIntField r.sales "销量".toList 0 true
  let ord ← parseIntField r.ord "排序权重".toList 1 true
  let buyLimit ← parseIntField r.buyLimit "单次限购".toList 0 true
  let type ← parseIntField r.type "商品类型".toList 0 false
  let isOpen ← parseIntField r.isOpen "是否上架".toList 0 false
  let f : GoodForm := {
    groupId := groupId
    name := r.name.trimSpace
    desc := r.desc.trimSpace
    keywords := r.keywords.trimSpace
    picture := r.picture.trimSpace
    retail := retail
    actual := actual
    inStock := inStock
    sales := sales
    ord := ord
    buyLimit := buyLimit
    prompt := Text.normalizeNL r.prompt
    detail := Text.normalizeNL r.detail
    type := type
    wholesale := Text.normalizeNL r.wholesale
    other := Text.normalizeNL r.other
    hook := Text.normalizeNL r.hook
    isOpen := isOpen }
  match validateGood f with
  | some e => .error e
  | none => .ok f

def GoodForm.row (f : GoodForm) (deleted : Bool) : Good where
  groupId := f.groupId.toNat
  name := f.name
  desc := f.desc
  keywords := f.keywords
  picture := f.picture
  retailPrice := numeric f.retail
  actualPrice := numeric f.actual
  inStock := f.inStock
  salesVolume := f.sales
  ord := f.ord
  buyLimitNum := f.buyLimit
  buyPrompt := f.prompt
  description := f.detail
  type := if f.type = 1 then .auto else .manual
  wholesalePriceCnf := f.wholesale
  otherIpuCnf := f.other
  apiHook := f.hook
  isOpen := f.isOpen
  deleted := deleted

def DB.loadGood (d : DB) (id : ℕ) : Option GoodForm :=
  ((d.goods.get? id).filter (fun g => !g.deleted)).map (fun g => {
    groupId := g.groupId
    name := g.name
    desc := g.desc
    keywords := g.keywords
    picture := g.picture
    retail := yuan g.retailPrice
    actual := yuan g.actualPrice
    inStock := g.inStock
    sales := g.salesVolume
    ord := g.ord
    buyLimit := g.buyLimitNum
    prompt := g.buyPrompt
    detail := g.description
    type := match g.type with
      | .auto => 1
      | .manual => 2
    wholesale := g.wholesalePriceCnf
    other := g.otherIpuCnf
    hook := g.apiHook
    isOpen := g.isOpen })

/-- `id` is 0 for a new goods. -/
def Script.writeGood (id : ℕ) (f : GoodForm) : Script Unit :=
  if id = 0 then do
    let _ ← Tx.insert Key.goods (fun _ => f.row false) pure
  else do
    let saved ← update (.goods id) (fun g => if g.deleted then none else some (f.row g.deleted))
    require saved.isSome (.err "记录不存在或已删除".toList)

open Script in
def goodsSave (id : ℕ) (r : GoodInput) : Script Empty := do
  let f ← orRefuse (readGoodForm r)
  let group ← Tx.read (fun d => (d.goodsGroup.get? f.groupId.toNat).filter (fun g => !g.deleted))
  require group.isSome (.err "所属分类不存在".toList)
  writeGood id f
  foreignKey (.group f.groupId.toNat)
  Tx.commit .ok

/-! ### Coupons -/

structure CouponInput where
  coupon : Text
  discount : Text
  ret : Text
  isUse : Text
  isOpen : Text
  goodsId : List Text
  deriving DecidableEq

structure CouponForm where
  code : Text
  discount : Text
  ret : ℤ
  use : ℤ
  isOpen : ℤ
  goods : List ℕ
  deriving DecidableEq

def DB.couponEdit (d : DB) (id : ℕ) : Option CouponForm :=
  ((d.coupons.get? id).filter (fun c => !c.deleted)).map (fun c =>
    ⟨c.coupon, yuan c.discount, c.ret, c.isUse, c.isOpen, d.goodsOf id⟩)

def readGoodsIds (raws : List Text) : Except Text (List ℕ) :=
  raws.mapM (fun raw => match Text.parseInt raw with
    | some n => if n < 1 then .error "可用商品不正确".toList else .ok n.toNat
    | none => .error "可用商品不正确".toList)

def readCoupon (r : CouponInput) : Except Text CouponForm := do
  let discount ← labelled "优惠金额".toList (money r.discount false)
  let code := r.coupon.trimSpace
  let ret := mustInt r.ret (-1)
  let use := mustInt r.isUse 1
  let isOpen := mustInt r.isOpen 1
  if code = [] then throw "请填写优惠码".toList
  if runeLen code > 150 then throw "优惠码超过 150 字".toList
  if r.ret.isBlank ∨ ret < 0 then throw "请填写剩余使用次数".toList
  if use ≠ 1 ∧ use ≠ 2 then throw "使用状态不正确".toList
  if isOpen ≠ 0 ∧ isOpen ≠ 1 then throw "是否启用不正确".toList
  let goods ← readGoodsIds r.goodsId
  return ⟨code, discount, ret, use, isOpen, goods⟩

def uniqueInts (ids : List ℕ) : List ℕ := ids.eraseDups

def CouponForm.row (f : CouponForm) (deleted : Bool) : Coupon :=
  ⟨numeric f.discount, f.use, f.isOpen, f.code, f.ret, deleted⟩

namespace Script

/-- Lock goods rows against key changes, in the given order; whether all of them are live. -/
def shareGoods : List ℕ → Script Bool
  | [] => pure true
  | gid :: ids => do
      let row ← lockRow (.goods gid) .keyShare (fun _ => true)
      let rest ← shareGoods ids
      return row.any (fun g => !g.deleted) && rest

def lockCouponGoods (ids : List ℕ) : Script Unit := do
  let live ← shareGoods (ids.insertionSort (· ≤ ·))
  require live (.err "可用商品不存在".toList)

def couponClash (id : ℕ) (code : Text) (d : DB) : Bool :=
  (d.coupons.find? (fun i c => i ≠ id && c.coupon = code)).isSome

/-- `id` is 0 for a new coupon. -/
def writeCoupon (id : ℕ) (f : CouponForm) : Script ℕ := do
  let clash ← Tx.read (couponClash id f.code)
  require (!clash) (.err "已存在相同的记录".toList)
  if id = 0 then
    Tx.insert Key.coupon (fun _ => f.row false) pure
  else do
    let saved ← updateKey (.coupon id) (fun c => c.coupon ≠ f.code)
      (fun c => if c.deleted then none else some (f.row c.deleted))
    require saved.isSome (.err "记录不存在或已删除".toList)
    return id

end Script

open Script in
def couponSave (id : ℕ) (r : CouponInput) : Script Empty := do
  let f ← orRefuse (readCoupon r)
  let goodsIDs := uniqueInts f.goods
  lockCouponGoods goodsIDs
  let cid ← writeCoupon id f
  change (.couponGoods cid) (fun _ => [])
  Tx.forEach goodsIDs (fun gid => do
    change (.couponGoods cid) (fun l => l ++ [gid])
    foreignKey (.goods gid)
    foreignKey (.coupon cid))
  Tx.commit .ok

/-! ### Cards -/

structure CarmiForm where
  goodsId : Text
  status : Text
  isLoop : Text
  carmi : Text
  deriving DecidableEq

structure ImportForm where
  goodsId : Text
  isLoop : Text
  removeDuplication : Bool
  carmisList : Text
  deriving DecidableEq

def DB.autoGood (d : DB) (n : ℤ) : Bool :=
  0 ≤ n && ((d.goods.get? n.toNat).any (fun g => g.type = .auto && !g.deleted))

def carmiRefusal (text : Text) (status loop : ℤ) : Option Text :=
  if text = [] then some "请填写卡密内容".toList
  else if status ≠ 1 ∧ status ≠ 2 then some "状态不正确".toList
  else if loop ≠ 0 ∧ loop ≠ 1 then some "循环卡密取值不正确".toList
  else none

def Carmi.edited (c : Carmi) (goodsId status loop : ℤ) (text : Text) : Carmi :=
  { c with
    goodsId := goodsId.toNat
    status := if status = 1 then .unsold else .sold
    isLoop := loop
    carmi := text }

open Script in
def carmiSave (id : ℕ) (f : CarmiForm) : Script Empty := do
  let goodsId := mustInt f.goodsId 0
  let status := mustInt f.status 0
  let loop := mustInt f.isLoop 0
  let text := f.carmi.trimSpace
  let refusal := carmiRefusal text status loop
  require (refusal = none) (.err (refusal.getD []))
  let auto ← Tx.read (fun d => d.autoGood goodsId)
  require auto (.err "请选择自动发货商品".toList)
  let saved ← update (.carmi id) (fun c =>
    if c.deleted = false ∧ c.reservedOrderId = none ∧ c.status = .unsold then
      some (c.edited goodsId status loop text)
    else none)
  require saved.isSome (.err "记录不存在、已删除、已售出或正被订单占用".toList)
  foreignKey (.goods goodsId.toNat)
  Tx.commit .ok

def parseCards (text : Text) (dedupe : Bool) : Except Text (List Text) :=
  let lines :=
    ((Text.split '\n' (Text.replaceCR (Text.replaceCRLF text))).map Text.trimSpace).filter
    (fun l => l ≠ [])
  if lines.any (fun l => runeLen l > 10000) then .error "单条卡密过长".toList
  else
    let out := if dedupe then lines.eraseDups else lines
    if out = [] then .error "请填写需要导入的卡密".toList
    else if out.length > 5000 then .error "一次最多导入 5000 条".toList
    else .ok out

open Script in
def carmisImport (f : ImportForm) : Script Empty := do
  let goodsId := mustInt f.goodsId 0
  let loop := mustInt f.isLoop 0
  let cards ← orRefuse (parseCards f.carmisList f.removeDuplication)
  require (loop = 0 || loop = 1) (.err "循环卡密取值不正确".toList)
  let auto ← Tx.read (fun d => d.autoGood goodsId)
  require auto (.err "请选择自动发货商品".toList)
  Tx.forEach cards (fun card => do
    let _ ← Tx.insert Key.carmi (fun _ => ⟨goodsId.toNat, .unsold, loop, card, none, false⟩) pure
    foreignKey (.goods goodsId.toNat))
  Tx.commit .ok

/-! ### Delete and restore -/

inductive AdminTable where
  | goods
  | goodsGroup
  | carmis
  | coupons
  | orders
  deriving DecidableEq

/-- The `deleted_at` flag of a row, flipped when it stands the other way. -/
def flipDeleted (restore deleted : Bool) : Option Bool :=
  if deleted = restore then some (!restore) else none

namespace Script

/-- Flip the flag of a row that stands the other way and passes the test. -/
def flipRow (k : Key) (p : Row k → Bool) (deleted : Row k → Bool) (write : Row k → Bool → Row k)
    (restore : Bool) : Script Unit := do
  let row ← update k (fun v =>
    if p v then (flipDeleted restore (deleted v)).map (write v) else none)
  require row.isSome (.err msgNoRecord)

def flipIn (table : AdminTable) (id : ℕ) (restore : Bool) : Script Unit :=
  match table with
  | .goods => flipRow (.goods id) (fun _ => true) Good.deleted
      (fun g b => { g with deleted := b }) restore
  | .goodsGroup => flipRow (.group id) (fun _ => true) GoodsGroup.deleted
      (fun g b => { g with deleted := b }) restore
  | .carmis => flipRow (.carmi id) (fun c => c.reservedOrderId = none && c.status = .unsold)
      Carmi.deleted (fun c b => { c with deleted := b }) restore
  | .coupons => flipRow (.coupon id) (fun _ => true) Coupon.deleted
      (fun c b => { c with deleted := b }) restore
  | .orders => flipRow (.order id) (fun _ => true) Order.deleted
      (fun o b => { o with deleted := b }) restore

end Script

def markDeleted (table : AdminTable) (id : ℕ) (restore : Bool) : Script Empty := do
  Script.flipIn table id restore
  Tx.commit .ok

end Dufaka
