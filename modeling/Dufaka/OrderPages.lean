import Dufaka.Orders
import Dufaka.SiteCache

/-!
# The order pages

The four handlers that show orders to a visitor (by number from the path, by number, email or
browser from the search form) and the template they share, with the cookie that says which orders a
browser placed. The signature, base64 and JSON of the cookie are parameters.
-/

namespace Dufaka
open Relational

/-! ### The cookie of a browser -/

structure CookieEnv where
  /-- `DUFAKA_SESSION_KEY`. -/
  sessionKey : Text
  /-- The encoded HMAC-SHA256 of a message under a key. -/
  mac : Text → Text → Text
  /-- `base64.RawURLEncoding.DecodeString`. -/
  decodeString : Text → Option Text
  /-- `json.Unmarshal` into a list of strings. -/
  unmarshal : Text → Option (List Text)

namespace CookieEnv
variable (e : CookieEnv)

def orderCookie (payload : Text) : Text :=
  if e.sessionKey = [] then []
  else payload ++ '.' :: e.mac e.sessionKey ("browser-orders:".toList ++ payload)

def browserOrders (value : Text) : List Text :=
  match Text.cut '.' value with
  | none => []
  | some (payload, _) =>
      if value ≠ e.orderCookie payload then []
      else
        match (e.decodeString payload).bind e.unmarshal with
        | none => []
        | some sns => if sns.length > 40 then [] else sns

/-- `cookie` is the value of the request's `dujiaoka_orders`, if there is one. -/
def ownsOrder (cookie : Option Text) (sn : Text) : Bool :=
  match cookie with
  | none => false
  | some value => (e.browserOrders value).contains sn

def Lists (cookie : Option Text) (sn : Text) : Prop :=
  e.sessionKey ≠ [] ∧ ∃ payload sns, cookie = some (e.orderCookie payload) ∧
    (e.decodeString payload).bind e.unmarshal = some sns ∧ sn ∈ sns

theorem lists_of_mem {value sn : Text} (h : sn ∈ e.browserOrders value) :
    e.Lists (some value) sn := by
  rw [browserOrders] at h
  split at h
  · cases h
  · rename_i payload rest hcut
    split at h
    · cases h
    · rename_i hsigned
      split at h
      · cases h
      · rename_i sns hdecoded
        split at h
        · cases h
        · have hvalue : value = e.orderCookie payload := not_not.mp hsigned
          refine ⟨fun hkey => ?_, payload, sns, by rw [hvalue], hdecoded, h⟩
          rw [hvalue, orderCookie, if_pos hkey] at hcut
          cases hcut

theorem lists_of_owns {cookie : Option Text} {sn : Text} (h : e.ownsOrder cookie sn = true) :
    e.Lists cookie sn := by
  cases cookie with
  | none => cases h
  | some value => exact e.lists_of_mem (List.contains_iff_mem.mp h)

end CookieEnv

/-! ### Order lookups -/

/-- What a lookup fails with: a rule with its message, or any other failure. -/
inductive LookupError where
  | rule (msg : Text)
  | internal

/-- The queries the database answers. -/
structure Answers where
  order : Text → Bool
  probe : Bool
  list : Bool

/-- `unicode.IsControl`. -/
def isControl (c : Char) : Bool := c.toNat < 0x20 || (0x7f ≤ c.toNat && c.toNat < 0xa0)

def plausibleOrderSN (sn : Text) : Bool := sn ≠ [] && sn.length ≤ 150 && !sn.any isControl

namespace DB
variable (ans : Answers) (d : DB)

def liveOrder (sn : Text) : Option (ℕ × Order) :=
  d.orders.find? (fun _ o => o.orderSn = sn && !o.deleted)

def orderBySN (sn : Text) : Except LookupError (ℕ × Order) :=
  if !plausibleSN sn then .error (.rule msgNotFound)
  else if !ans.order sn then .error .internal
  else
    match d.liveOrder sn with
    | none => .error (.rule msgNotFound)
    | some found => .ok found

def orderBySNChecked (sn : Text) : Except LookupError (ℕ × Order) :=
  if !plausibleOrderSN sn then .error (.rule msgNotFound)
  else
    match d.orderBySN ans sn with
    | .ok found => .ok found
    | .error .internal => .error .internal
    | .error (.rule msg) =>
        if !ans.probe || (d.liveOrder sn).isSome then .error .internal else .error (.rule msg)

/-- The numbers of the latest orders of an email, with their password where it is needed. -/
def emailOrders (email pwd : Text) (needPwd : Bool) : List Text :=
  let rows := d.orders.select (fun _ o =>
    o.email = email && !o.deleted && (!needPwd || o.searchPwd = pwd))
  (rows.reverse.take 20).map (fun row => row.2.orderSn)

def ordersByEmail (email pwd : Text) (needPwd : Bool) : Except LookupError (List (ℕ × Order)) :=
  if (email ++ pwd).contains '\x00' then .ok []
  else if !ans.list then .error .internal
  else (d.emailOrders email pwd needPwd).mapM (d.orderBySN ans)

end DB

/-! ### The pages -/

structure OrderView where
  sn : Text
  title : Text
  amount : ℤ
  created : ℤ
  email : Text
  auto : Bool
  actual : Text
  status : Text
  /-- The target of 继续支付. -/
  payLink : Option Text
  info : Text
  deriving DecidableEq

inductive OrderPage where
  | fail (msg : Text)
  | orders (title logo textLogo : Text) (views : List OrderView)
  deriving DecidableEq

def genericFailure : Text := "系统繁忙，请稍后再试".toList

def failErr : LookupError → OrderPage
  | .rule msg => .fail msg
  | .internal => .fail genericFailure

def maskSN (sn : Text) : Text :=
  if sn.length ≤ 4 then List.replicate sn.length '*' else '…' :: sn.drop (sn.length - 4)

def statusText : OrderStatus → Text
  | .unpaid => "待支付".toList
  | .pending => "待处理".toList
  | .processing => "处理中".toList
  | .completed => "已完成".toList
  | .failed => "处理失败".toList
  | .abnormal => "异常".toList
  | .expired => "过期".toList

def Order.view (maskedSN : Bool) (o : Order) : OrderView where
  sn := if maskedSN then maskSN o.orderSn else o.orderSn
  title := o.title
  amount := o.buyAmount
  created := o.createdAt
  email := o.email
  auto := o.type = .auto
  actual := yuan o.actualPrice
  status := statusText o.status
  payLink := if o.status = .unpaid ∧ maskedSN = false then some ("/bill/".toList ++ o.orderSn)
    else none
  info := o.info

def ordersPage (site : SiteSettings) (list : List Order) (maskedSN : Bool) : OrderPage :=
  .orders site.title site.logo site.textLogo (list.map (Order.view maskedSN))

/-- A request to one of the handlers, with the values of its path or form. -/
inductive OrderLookup where
  | detail (sn : Text)
  | searchSN (orderSn searchPwd : Text)
  | searchEmail (email searchPwd : Text)
  | searchBrowser

section Handlers
variable (e : CookieEnv) (ans : Answers) (site : SiteSettings) (d : DB) (cookie : Option Text)

/-- The query password is on, the order has one, and the visitor neither knows it nor owns the
order. -/
def hidesInfo (pwd : Text) (o : Order) : Bool :=
  site.searchPwd && o.searchPwd ≠ [] && pwd ≠ o.searchPwd && !e.ownsOrder cookie o.orderSn

def renderDetail (sn pwd : Text) : OrderPage :=
  match d.orderBySNChecked ans sn with
  | .error err => failErr err
  | .ok row =>
      ordersPage site [if hidesInfo e site cookie pwd row.2 then { row.2 with info := [] }
        else row.2]
        false

def searchSN (orderSn searchPwd : Text) : OrderPage :=
  let sn := orderSn.trimSpace
  if sn = [] then .fail "请输入订单号".toList
  else renderDetail e ans site d cookie sn searchPwd

def searchEmail (email searchPwd : Text) : OrderPage :=
  if email = [] ∨ (site.searchPwd ∧ searchPwd = []) then .fail "请求不合法".toList
  else
    match d.ordersByEmail ans email searchPwd site.searchPwd with
    | .error err => failErr err
    | .ok list =>
        if list = [] then .fail "未找到相关订单".toList
        else
          let mask := !site.searchPwd
          ordersPage site (list.map (fun row =>
            if mask ∧ e.ownsOrder cookie row.2.orderSn = false then { row.2 with info := [] }
            else row.2)) mask

def searchBrowser : OrderPage :=
  match cookie with
  | none => .fail "浏览器没有相关订单".toList
  | some value =>
      if value = [] then .fail "浏览器没有相关订单".toList
      else
        let answers := (e.browserOrders value).map (d.orderBySN ans)
        let list := answers.filterMap (fun a =>
          match a with | .ok row => some row.2 | .error _ => none)
        let failed := answers.any (fun a => match a with | .error .internal => true | _ => false)
        if list = [] then
          if failed then failErr .internal else .fail "浏览器没有相关订单".toList
        else ordersPage site list false

def answerLookup : OrderLookup → OrderPage
  | .detail sn => renderDetail e ans site d cookie sn []
  | .searchSN orderSn searchPwd => searchSN e ans site d cookie orderSn searchPwd
  | .searchEmail email searchPwd => searchEmail e ans site d cookie email searchPwd
  | .searchBrowser => searchBrowser e ans site d cookie

end Handlers

/-! ### Who may read an order -/

def PresentsNumber (site : SiteSettings) (sn pwd : Text) (o : Order) : Prop :=
  o.orderSn = sn ∧ (site.searchPwd = false ∨ o.searchPwd = [] ∨ pwd = o.searchPwd)

def Authorised (e : CookieEnv) (site : SiteSettings) (cookie : Option Text) (q : OrderLookup)
    (o : Order) : Prop :=
  e.Lists cookie o.orderSn ∨
    match q with
    | .detail sn => PresentsNumber site sn [] o
    | .searchSN orderSn searchPwd => PresentsNumber site orderSn.trimSpace searchPwd o
    | .searchEmail email searchPwd => site.searchPwd = true ∧ o.email = email ∧
        searchPwd ≠ [] ∧ o.searchPwd = searchPwd
    | .searchBrowser => False

/-- A page shows what an order delivered only for orders of the shop that satisfy `A`. -/
def DisclosesOnly (d : DB) (A : Order → Prop) (p : OrderPage) : Prop :=
  ∀ title logo textLogo views v, p = .orders title logo textLogo views → v ∈ views → v.info ≠ [] →
    ∃ i o, d.orders.get? i = some o ∧ v.info = o.info ∧ A o

/-- A masked order number: its last four characters at most, or none of them. -/
def Masked (sn shown : Text) : Prop :=
  (∃ last, last <:+ sn ∧ last.length ≤ 4 ∧ shown = '…' :: last) ∨ ∃ n, shown = List.replicate n '*'

variable {e : CookieEnv} {ans : Answers} {site : SiteSettings} {d : DB} {cookie : Option Text}
  {A : Order → Prop} {sn pwd email : Text} {row : ℕ × Order} {rows : List (ℕ × Order)}
  {info : ℕ → Text}

theorem maskSN_masked (sn : Text) : Masked sn (maskSN sn) := by
  rw [maskSN]
  split
  case isTrue => exact Or.inr ⟨sn.length, rfl⟩
  case isFalse hlong =>
    refine Or.inl ⟨sn.drop (sn.length - 4), List.drop_suffix _ _, ?_, rfl⟩
    rw [List.length_drop]
    omega

theorem disclosesOnly_fail (msg : Text) : DisclosesOnly d A (.fail msg) := by
  intro title logo textLogo views v hp
  cases hp

theorem disclosesOnly_failErr (err : LookupError) : DisclosesOnly d A (failErr err) := by
  cases err <;> exact disclosesOnly_fail _

theorem disclosesOnly_ordersPage {list : List Order} {mask : Bool}
    (h : ∀ o ∈ list, o.info ≠ [] → ∃ i o', d.orders.get? i = some o' ∧ o.info = o'.info ∧ A o') :
    DisclosesOnly d A (ordersPage site list mask) := by
  intro title logo textLogo views v hp hv hinfo
  obtain ⟨-, -, -, rfl⟩ := OrderPage.orders.inj hp
  obtain ⟨o, ho, rfl⟩ := List.mem_map.mp hv
  exact h o ho hinfo

theorem presentsNumber_of_shown {o : Order} (hsn : o.orderSn = sn)
    (h : hidesInfo e site cookie pwd o = false) :
    e.Lists cookie o.orderSn ∨ PresentsNumber site sn pwd o := by
  by_cases hown : e.ownsOrder cookie o.orderSn = true
  · exact Or.inl (e.lists_of_owns hown)
  · right
    refine ⟨hsn, ?_⟩
    by_contra hno
    push Not at hno
    obtain ⟨hswitch, hpwd, hposted⟩ := hno
    have hhidden : hidesInfo e site cookie pwd o = true := by
      simp [hidesInfo, hswitch, hpwd, hposted, hown]
    rw [hhidden] at h
    cases h

/-! ### What the lookups find -/

namespace DB

theorem orderBySN_ok (h : d.orderBySN ans sn = .ok row) :
    d.orders.get? row.1 = some row.2 ∧ row.2.orderSn = sn := by
  rw [orderBySN] at h
  split at h
  · cases h
  · split at h
    · cases h
    · split at h
      · cases h
      · rename_i found hfound
        obtain rfl := Except.ok.inj h
        obtain ⟨hget, htest⟩ := Table.find?_some hfound
        simp only [Bool.and_eq_true, decide_eq_true_eq] at htest
        exact ⟨hget, htest.1⟩

theorem orderBySNChecked_ok (h : d.orderBySNChecked ans sn = .ok row) :
    d.orderBySN ans sn = .ok row := by
  rw [orderBySNChecked] at h
  split at h
  · cases h
  · split at h
    · rename_i found hfound
      rw [hfound, h]
    · cases h
    · split at h <;> cases h

end DB

/-- What a loop over lookups answers, item by item. -/
theorem mem_of_mapM {α β ε : Type} {f : α → Except ε β} {l : List α} {out : List β} {b : β}
    (h : l.mapM f = .ok out) (hb : b ∈ out) : ∃ a ∈ l, f a = .ok b := by
  induction l generalizing out with
  | nil =>
      obtain rfl := Except.ok.inj h
      cases hb
  | cons a l ih =>
      rw [List.mapM_cons] at h
      cases ha : f a with
      | error err =>
          rw [ha] at h
          cases h
      | ok b' =>
          cases hl : l.mapM f with
          | error err =>
              rw [ha, hl] at h
              cases h
          | ok out' =>
              rw [ha, hl] at h
              obtain rfl := Except.ok.inj h
              rcases List.mem_cons.mp hb with rfl | hb
              · exact ⟨a, List.mem_cons_self, ha⟩
              · obtain ⟨a', ha', hf⟩ := ih hl hb
                exact ⟨a', List.mem_cons_of_mem a ha', hf⟩

namespace DB

/-- An email search finds orders of the email, with the password where one is needed. -/
theorem ordersByEmail_ok {needPwd : Bool} (huniq : d.UniqueSn)
    (h : d.ordersByEmail ans email pwd needPwd = .ok rows) (hrow : row ∈ rows) :
    d.orders.get? row.1 = some row.2 ∧ row.2.email = email ∧
      (needPwd = true → row.2.searchPwd = pwd) := by
  rw [ordersByEmail] at h
  split at h
  · obtain rfl := Except.ok.inj h
    cases hrow
  · split at h
    · cases h
    · obtain ⟨sn, hsn, hfound⟩ := mem_of_mapM h hrow
      obtain ⟨hget, horder⟩ := orderBySN_ok hfound
      obtain ⟨⟨j, o⟩, ho, rfl⟩ := List.mem_map.mp hsn
      have hmem : (j, o) ∈ d.orders.select (fun _ o =>
          o.email = email && !o.deleted && (!needPwd || o.searchPwd = pwd)) :=
        List.mem_reverse.mp (List.mem_of_mem_take ho)
      obtain ⟨hget', htest⟩ := (Table.mem_select_iff _ _ _ _).mp hmem
      have hj : row.1 = j := huniq row.1 j row.2 o hget hget' horder
      rw [← hj, hget] at hget'
      obtain rfl := Option.some.inj hget'
      simp only [Bool.and_eq_true, Bool.or_eq_true, decide_eq_true_eq, Bool.not_eq_true'] at htest
      refine ⟨hget, htest.1.1, fun hneed => ?_⟩
      rcases htest.2 with hno | hpwd
      · rw [hneed] at hno
        cases hno
      · exact hpwd

end DB

/-! ### Each handler -/

theorem renderDetail_discloses
    (hA : ∀ o, e.Lists cookie o.orderSn ∨ PresentsNumber site sn pwd o → A o) :
    DisclosesOnly d A (renderDetail e ans site d cookie sn pwd) := by
  rw [renderDetail]
  split
  case h_1 err herr => exact disclosesOnly_failErr err
  case h_2 row hrow =>
    obtain ⟨hget, horder⟩ := DB.orderBySN_ok (DB.orderBySNChecked_ok hrow)
    refine disclosesOnly_ordersPage (fun o ho hinfo => ?_)
    obtain rfl := List.mem_singleton.mp ho
    cases hhidden : hidesInfo e site cookie pwd row.2 with
    | true => simp [hhidden] at hinfo
    | false =>
        refine ⟨row.1, row.2, hget, by simp, ?_⟩
        exact hA row.2 (presentsNumber_of_shown horder hhidden)

theorem searchSN_discloses
    (hA : ∀ o, e.Lists cookie o.orderSn ∨ PresentsNumber site sn.trimSpace pwd o → A o) :
    DisclosesOnly d A (searchSN e ans site d cookie sn pwd) := by
  simp only [searchSN]
  split
  · exact disclosesOnly_fail _
  · exact renderDetail_discloses hA

theorem searchEmail_discloses (huniq : d.UniqueSn)
    (hA : ∀ o, e.Lists cookie o.orderSn ∨ (site.searchPwd = true ∧ o.email = email ∧ pwd ≠ [] ∧
      o.searchPwd = pwd) → A o) :
    DisclosesOnly d A (searchEmail e ans site d cookie email pwd) := by
  rw [searchEmail]
  split
  case isTrue => exact disclosesOnly_fail _
  case isFalse hvalid =>
    split
    case h_1 err herr => exact disclosesOnly_failErr err
    case h_2 rows hrows =>
      split
      case isTrue => exact disclosesOnly_fail _
      case isFalse =>
        refine disclosesOnly_ordersPage (fun o ho hinfo => ?_)
        obtain ⟨row, hrow, rfl⟩ := List.mem_map.mp ho
        obtain ⟨hget, hemail, hpwd⟩ := DB.ordersByEmail_ok huniq hrows hrow
        by_cases hown : e.ownsOrder cookie row.2.orderSn = true
        · exact ⟨row.1, row.2, hget, by simp [hown], hA row.2 (Or.inl (e.lists_of_owns hown))⟩
        · cases hswitch : site.searchPwd with
          | false => simp [hswitch, hown] at hinfo
          | true =>
              have hposted : pwd ≠ [] := fun hnil => hvalid (Or.inr ⟨hswitch, hnil⟩)
              refine ⟨row.1, row.2, hget, by simp, hA row.2 (Or.inr ?_)⟩
              exact ⟨hswitch, hemail, hposted, hpwd hswitch⟩

theorem searchBrowser_discloses (hA : ∀ o, e.Lists cookie o.orderSn → A o) :
    DisclosesOnly d A (searchBrowser e ans site d cookie) := by
  cases cookie with
  | none => exact disclosesOnly_fail _
  | some value =>
    simp only [searchBrowser]
    split
    · exact disclosesOnly_fail _
    · split
      · split
        · exact disclosesOnly_failErr .internal
        · exact disclosesOnly_fail _
      · refine disclosesOnly_ordersPage (fun o ho _ => ?_)
        obtain ⟨answer, hanswer, ho⟩ := List.mem_filterMap.mp ho
        obtain ⟨sn, hsn, rfl⟩ := List.mem_map.mp hanswer
        cases hrow : d.orderBySN ans sn with
        | error err =>
            rw [hrow] at ho
            cases ho
        | ok row =>
            rw [hrow] at ho
            obtain rfl := Option.some.inj ho
            obtain ⟨hget, horder⟩ := DB.orderBySN_ok hrow
            refine ⟨row.1, row.2, hget, rfl, hA row.2 ?_⟩
            rw [horder]
            exact e.lists_of_mem hsn

/-- With the query password off, an email search masks every number and offers no payment. -/
theorem searchEmail_masks (huniq : d.UniqueSn) (hswitch : site.searchPwd = false)
    {title logo textLogo : Text} {views : List OrderView} {v : OrderView}
    (h : searchEmail e ans site d cookie email pwd = .orders title logo textLogo views)
    (hv : v ∈ views) :
    v.payLink = none ∧ ∃ i o, d.orders.get? i = some o ∧ Masked o.orderSn v.sn := by
  rw [searchEmail] at h
  split at h
  · cases h
  · split at h
    · rename_i err herr
      cases err <;> cases h
    · rename_i rows hrows
      split at h
      · cases h
      · obtain ⟨-, -, -, rfl⟩ := OrderPage.orders.inj h
        obtain ⟨o, ho, rfl⟩ := List.mem_map.mp hv
        obtain ⟨row, hrow, rfl⟩ := List.mem_map.mp ho
        obtain ⟨hget, -, -⟩ := DB.ordersByEmail_ok huniq hrows hrow
        refine ⟨by simp [Order.view, hswitch], row.1, row.2, hget, ?_⟩
        have hmasked := maskSN_masked row.2.orderSn
        split <;> simpa [Order.view, hswitch] using hmasked

/-! ### Other infos, same page -/

namespace DB

def withInfo (d : DB) (info : ℕ → Text) : DB :=
  { d with orders := d.orders.mapRows (fun i o => { o with info := info i }) }

end DB

def relabel (info : ℕ → Text) (row : ℕ × Order) : ℕ × Order :=
  (row.1, { row.2 with info := info row.1 })

theorem relabel_of_eq (h : info row.1 = row.2.info) : relabel info row = row := by
  rw [relabel, h]

namespace DB

theorem liveOrder_withInfo :
    (d.withInfo info).liveOrder sn = (d.liveOrder sn).map (relabel info) := by
  rw [liveOrder, liveOrder, Table.find?, Table.find?, withInfo, Table.mapRows, List.find?_map]
  rfl

theorem orderBySN_withInfo :
    (d.withInfo info).orderBySN ans sn = (d.orderBySN ans sn).map (relabel info) := by
  rw [orderBySN, orderBySN, liveOrder_withInfo]
  split
  · rfl
  · split
    · rfl
    · cases d.liveOrder sn <;> rfl

theorem orderBySNChecked_withInfo :
    (d.withInfo info).orderBySNChecked ans sn = (d.orderBySNChecked ans sn).map (relabel info) := by
  rw [orderBySNChecked, orderBySNChecked, orderBySN_withInfo, liveOrder_withInfo, Option.isSome_map]
  split
  · rfl
  · cases d.orderBySN ans sn with
    | ok row => rfl
    | error err =>
        cases err with
        | internal => rfl
        | rule msg =>
            simp only [Except.map]
            split <;> rfl

theorem emailOrders_withInfo {needPwd : Bool} :
    (d.withInfo info).emailOrders email pwd needPwd = d.emailOrders email pwd needPwd := by
  simp only [emailOrders, withInfo, Table.select, Table.mapRows, List.filter_map,
    ← List.map_reverse, ← List.map_take, List.map_map]
  rfl

end DB

theorem mapM_map {α β ε : Type} {f : α → Except ε β} {g : β → β} (l : List α) :
    l.mapM (fun a => (f a).map g) = (l.mapM f).map (List.map g) := by
  induction l with
  | nil => rfl
  | cons a l ih =>
      rw [List.mapM_cons, List.mapM_cons, ih]
      cases f a with
      | error err => rfl
      | ok b => cases l.mapM f <;> rfl

namespace DB

theorem ordersByEmail_withInfo {needPwd : Bool} :
    (d.withInfo info).ordersByEmail ans email pwd needPwd =
      (d.ordersByEmail ans email pwd needPwd).map (List.map (relabel info)) := by
  rw [ordersByEmail, ordersByEmail, emailOrders_withInfo]
  have hlookups : (d.withInfo info).orderBySN ans = fun sn =>
      (d.orderBySN ans sn).map (relabel info) :=
    funext (fun _ => orderBySN_withInfo)
  rw [hlookups, mapM_map]
  split
  · rfl
  · split <;> rfl

end DB

theorem renderDetail_withInfo
    (hA : ∀ i o, d.orders.get? i = some o → e.Lists cookie o.orderSn ∨
      PresentsNumber site sn pwd o → info i = o.info) :
    renderDetail e ans site (d.withInfo info) cookie sn pwd =
    renderDetail e ans site d cookie sn pwd := by
  rw [renderDetail, renderDetail, DB.orderBySNChecked_withInfo]
  cases hrow : d.orderBySNChecked ans sn with
  | error err => rfl
  | ok row =>
      obtain ⟨hget, horder⟩ := DB.orderBySN_ok (DB.orderBySNChecked_ok hrow)
      have hsame : hidesInfo e site cookie pwd (relabel info row).2 =
          hidesInfo e site cookie pwd row.2 := rfl
      simp only [Except.map, hsame]
      cases hhidden : hidesInfo e site cookie pwd row.2 with
      | true => rfl
      | false =>
          have hinfo := hA row.1 row.2 hget (presentsNumber_of_shown horder hhidden)
          rw [relabel_of_eq hinfo]

theorem searchSN_withInfo
    (hA : ∀ i o, d.orders.get? i = some o →
      e.Lists cookie o.orderSn ∨ PresentsNumber site sn.trimSpace pwd o → info i = o.info) :
    searchSN e ans site (d.withInfo info) cookie sn pwd = searchSN e ans site d cookie sn pwd := by
  simp only [searchSN]
  split
  · rfl
  · exact renderDetail_withInfo hA

theorem searchEmail_withInfo (huniq : d.UniqueSn)
    (hA : ∀ i o, d.orders.get? i = some o → e.Lists cookie o.orderSn ∨ (site.searchPwd = true ∧
      o.email = email ∧ pwd ≠ [] ∧ o.searchPwd = pwd) → info i = o.info) :
    searchEmail e ans site (d.withInfo info) cookie email pwd =
      searchEmail e ans site d cookie email pwd := by
  rw [searchEmail, searchEmail, DB.ordersByEmail_withInfo]
  split
  case isTrue => rfl
  case isFalse hvalid =>
    cases hrows : d.ordersByEmail ans email pwd site.searchPwd with
    | error err => rfl
    | ok rows =>
        simp only [Except.map, List.map_eq_nil_iff, List.map_map]
        split
        · rfl
        · congr 1
          refine List.map_congr_left (fun row hrow => ?_)
          obtain ⟨hget, hemail, hpwd⟩ := DB.ordersByEmail_ok huniq hrows hrow
          have hinfo : (!site.searchPwd) = true ∧ e.ownsOrder cookie row.2.orderSn = false ∨
              info row.1 = row.2.info := by
            by_cases hown : e.ownsOrder cookie row.2.orderSn = true
            · exact Or.inr (hA row.1 row.2 hget (Or.inl (e.lists_of_owns hown)))
            · cases hswitch : site.searchPwd with
              | false => exact Or.inl ⟨rfl, by simpa using hown⟩
              | true =>
                  have hposted : pwd ≠ [] := fun hnil => hvalid (Or.inr ⟨hswitch, hnil⟩)
                  exact Or.inr (hA row.1 row.2 hget (Or.inr ⟨hswitch, hemail, hposted,
                    hpwd hswitch⟩))
          rcases hinfo with hhidden | heq
          · simp [relabel, hhidden]
          · rw [Function.comp_apply, relabel_of_eq heq]

theorem searchBrowser_withInfo
    (hA : ∀ i o, d.orders.get? i = some o → e.Lists cookie o.orderSn → info i = o.info) :
    searchBrowser e ans site (d.withInfo info) cookie = searchBrowser e ans site d cookie := by
  cases cookie with
  | none => rfl
  | some value =>
      have hlookups : (e.browserOrders value).map ((d.withInfo info).orderBySN ans) =
          (e.browserOrders value).map (d.orderBySN ans) := by
        refine List.map_congr_left (fun sn hsn => ?_)
        rw [DB.orderBySN_withInfo]
        cases hrow : d.orderBySN ans sn with
        | error err => rfl
        | ok row =>
            obtain ⟨hget, horder⟩ := DB.orderBySN_ok hrow
            have hlists : e.Lists (some value) row.2.orderSn := by
              rw [horder]
              exact e.lists_of_mem hsn
            rw [Except.map, relabel_of_eq (hA row.1 row.2 hget hlists)]
      simp only [searchBrowser, hlookups]

/-- The pages show what an order delivered to authorised visitors only, and an email search with the
query password off shows no order number and no payment link; so the infos of the orders that a
visitor is not authorised for never change a page. Order numbers are unique by the schema. -/
theorem order_info_disclosed (e : CookieEnv) (ans : Answers) (site : SiteSettings)
    (cookie : Option Text) (q : OrderLookup) (huniq : d.UniqueSn) :
    DisclosesOnly d (Authorised e site cookie q) (answerLookup e ans site d cookie q) ∧
    (∀ email pwd title logo textLogo views v, q = .searchEmail email pwd → site.searchPwd = false →
      answerLookup e ans site d cookie q = .orders title logo textLogo views → v ∈ views →
      v.payLink = none ∧ ∃ i o, d.orders.get? i = some o ∧ Masked o.orderSn v.sn) ∧
    ∀ info : ℕ → Text,
      (∀ i o, d.orders.get? i = some o → Authorised e site cookie q o → info i = o.info) →
      answerLookup e ans site (d.withInfo info) cookie q = answerLookup e ans site d cookie q := by
  refine ⟨?_, ?_, fun info hinfo => ?_⟩
  · cases q with
    | detail sn => exact renderDetail_discloses (fun _ ho => ho)
    | searchSN orderSn searchPwd => exact searchSN_discloses (fun _ ho => ho)
    | searchEmail email searchPwd => exact searchEmail_discloses huniq (fun _ ho => ho)
    | searchBrowser => exact searchBrowser_discloses (fun _ ho => Or.inl ho)
  · rintro email pwd title logo textLogo views v rfl hswitch hpage hv
    exact searchEmail_masks huniq hswitch hpage hv
  · cases q with
    | detail sn => exact renderDetail_withInfo hinfo
    | searchSN orderSn searchPwd => exact searchSN_withInfo hinfo
    | searchEmail email searchPwd => exact searchEmail_withInfo huniq hinfo
    | searchBrowser =>
        exact searchBrowser_withInfo (fun i o ho hlists => hinfo i o ho (Or.inl hlists))

def tinySoldShop : DB :=
  { tinyShop with
    orders := .ofList
      [(1, { tinyAutoOrder with searchPwd := "pwd".toList, info := "card".toList })] }

theorem tinySoldShop_order {i : ℕ} {o : Order} (h : tinySoldShop.orders.get? i = some o) :
    i = 1 ∧ o.searchPwd = "pwd".toList := by
  have hmem := (Table.mem_entries_iff _ i o).mpr h
  obtain ⟨rfl, rfl⟩ := Prod.mk.inj (List.mem_singleton.mp hmem)
  exact ⟨rfl, rfl⟩

def tinyCookies : CookieEnv := ⟨"key".toList, fun _ m => m, some, fun _ => none⟩

theorem order_info_disclosed_wrong_pwd :
    answerLookup tinyCookies ⟨fun _ => true, true, true⟩
      { SiteSettings.zero with searchPwd := true }
        (tinySoldShop.withInfo fun _ => "other card".toList) none
        (.searchSN (tinySn 1) "guess".toList) =
      answerLookup tinyCookies ⟨fun _ => true, true, true⟩
        { SiteSettings.zero with searchPwd := true }
        tinySoldShop none (.searchSN (tinySn 1) "guess".toList) := by
  have huniq : tinySoldShop.UniqueSn := by
    intro i j o o' ho ho' _
    rw [(tinySoldShop_order ho).1, (tinySoldShop_order ho').1]
  refine (order_info_disclosed tinyCookies ⟨fun _ => true, true, true⟩
    { SiteSettings.zero with searchPwd := true } none (.searchSN (tinySn 1) "guess".toList)
      huniq).2.2
    (fun _ => "other card".toList) (fun i o ho hauth => ?_)
  have hpwd := (tinySoldShop_order ho).2
  rcases hauth with ⟨-, payload, sns, hcookie, -⟩ | ⟨-, hshown⟩
  · cases hcookie
  · rw [hpwd] at hshown
    exact absurd hshown (by decide)

end Dufaka
