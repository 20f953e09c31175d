import Dufaka.SettlementFrame

/-!
# The WeChat Pay callback

`wechatNotify`: the checks of a callback, cheapest first, then the settlement, then the status code.
The libraries it calls for PEM, RSA, base64, AES-GCM and JSON are parameters, so that every
statement holds whatever they accept.
-/

namespace Dufaka
open Relational Tx

/-- `pay.WechatConfig`. -/
structure WechatConfig where
  appId : Text
  mchId : Text
  serialNo : Text
  apiV3Key : Text
  privateKeyPem : Text
  platformKeyPem : Text
  platformSerial : Text
  publicKeyId : Text
  deriving DecidableEq

structure Notice where
  timestamp : Text
  nonce : Text
  signature : Text
  serial : Text
  body : Text
  deriving DecidableEq

structure NotifyResource where
  nonce : Text
  ciphertext : Text
  associatedData : Text
  deriving DecidableEq

structure NotifyPlain where
  outTradeNo : Text
  tradeState : Text
  transactionId : Text
  total : ℤ
  deriving DecidableEq

/-- The libraries and the environment of the process. `Key` is the type of RSA public keys. -/
structure NotifyEnv (Key : Type) where
  getenv : Text → Text
  loadPublic : Text → Option Key
  /-- `base64.StdEncoding.DecodeString`. -/
  decodeBase64 : Text → Option Text
  /-- `rsa.VerifyPKCS1v15` over the SHA-256 of the message. -/
  verifyPKCS1v15 : Key → Text → Text → Bool
  /-- AES-GCM under the key and the nonce, with the associated data. -/
  gcmOpen : Text → Text → Text → Text → Option Text
  parseResource : Text → Option NotifyResource
  parsePlain : Text → Option NotifyPlain

def notifyWindow : ℕ := 300

/-- `CheckTimestamp`; the difference is one of 64-bit integers. -/
def checkTimestamp (timestamp : Text) (now : ℤ) : Bool :=
  match timestamp.trimSpace.parseInt with
  | none => false
  | some ts => (int64 (now - ts)).natAbs ≤ notifyWindow

namespace WechatConfig

def trimmed (c : WechatConfig) : WechatConfig where
  appId := c.appId.trimSpace
  mchId := c.mchId.trimSpace
  serialNo := c.serialNo.trimSpace
  apiV3Key := c.apiV3Key.trimSpace
  privateKeyPem := c.privateKeyPem.trimSpace
  platformKeyPem := c.platformKeyPem.trimSpace
  platformSerial := c.platformSerial.trimSpace
  publicKeyId := c.publicKeyId.trimSpace

def apiV3KeyLen : ℕ := 32

end WechatConfig

namespace NotifyEnv
variable {Key : Type} (e : NotifyEnv Key)

def envAPIv3Key : Text := (e.getenv "WECHAT_PAY_API_V3_KEY".toList).trimSpace

def fill (v key : Text) : Text := if v.trimSpace = [] then e.getenv key else v

/-- `WithEnv`: every empty field from the environment, and an APIv3 key of the wrong length replaced
by one of the right length. -/
def withEnv (c : WechatConfig) : WechatConfig :=
  let row := c.apiV3Key.trimSpace
  let apiV3Key := if row ≠ [] ∧ row.byteLength ≠ WechatConfig.apiV3KeyLen ∧
      e.envAPIv3Key.byteLength = WechatConfig.apiV3KeyLen then [] else c.apiV3Key
  WechatConfig.trimmed
    { appId := e.fill c.appId "WECHAT_PAY_APP_ID".toList
      mchId := e.fill c.mchId "WECHAT_PAY_MCH_ID".toList
      serialNo := e.fill c.serialNo "WECHAT_PAY_CERT_SERIAL_NO".toList
      apiV3Key := e.fill apiV3Key "WECHAT_PAY_API_V3_KEY".toList
      privateKeyPem := e.fill c.privateKeyPem "WECHAT_PAY_PRIVATE_KEY".toList
      platformKeyPem := e.fill c.platformKeyPem "WECHAT_PAY_PLATFORM_KEY".toList
      platformSerial := e.fill c.platformSerial "WECHAT_PAY_PLATFORM_SERIAL".toList
      publicKeyId := e.fill c.publicKeyId "WECHAT_PAY_PUBLIC_KEY_ID".toList }

def wechatConfig (p : Pay) : WechatConfig :=
  e.withEnv ⟨[], p.merchantId, [], p.merchantKey, p.merchantPem, [], [], []⟩

/-- `VerifyNotify`: the timestamp window, then the signature under the platform key. -/
def verifyNotify (c : WechatConfig) (n : Notice) (now : ℤ) : Bool :=
  checkTimestamp n.timestamp now &&
    match e.loadPublic c.platformKeyPem.trimSpace, e.decodeBase64 n.signature.trimSpace with
    | some pub, some sig =>
        e.verifyPKCS1v15 pub (n.timestamp ++ '\n' :: n.nonce ++ '\n' :: n.body ++ ['\n']) sig
    | _, _ => false

def decryptResource (c : WechatConfig) (r : NotifyResource) : Option Text :=
  let key := c.apiV3Key.trimSpace
  if key = [] ∨ key.byteLength ≠ WechatConfig.apiV3KeyLen then none
  else (e.decodeBase64 r.ciphertext).bind (fun raw => e.gcmOpen key r.nonce raw r.associatedData)

def decryptWithEnvFallback (c : WechatConfig) (r : NotifyResource) : Option Text :=
  match e.decryptResource c r with
  | some plain => some plain
  | none =>
      if e.envAPIv3Key = [] ∨ e.envAPIv3Key = c.apiV3Key.trimSpace then none
      else e.decryptResource { c with apiV3Key := e.envAPIv3Key } r

end NotifyEnv

def DB.payByCheck (d : DB) (check : Text) : Option (ℕ × Pay) :=
  d.pays.find? (fun _ p => p.payCheck = check && !p.deleted)

/-- How the server fared while it handled a request: the clock at its two readings in Unix seconds,
whether the first query was answered, and how many statements of the settlement its connection
survived. -/
structure Handling where
  now : ℤ
  later : ℤ
  answered : Bool
  statements : ℕ
  ids : ℕ → ℕ

def ensure (c : Bool) (code : ℕ) : Except ℕ Unit := if c then .ok () else .error code

def orStatus {α : Type} (code : ℕ) : Option α → Except ℕ α
  | some a => .ok a
  | none => .error code

theorem except_bind_of_ok {α β : Type} {x : Except ℕ α} {g : α → Except ℕ β} {a : α}
    (h : x = .ok a) :
    (x >>= g) = g a := by
  rw [h]
  rfl

theorem ensure_ok {c : Bool} {code : ℕ} {u : Unit} : ensure c code = .ok u ↔ c = true := by
  cases c <;> simp [ensure]

theorem orStatus_ok {α : Type} {code : ℕ} {o : Option α} {a : α} :
    orStatus code o = .ok a ↔ o = some a := by
  cases o <;> simp [orStatus]

section Handler
variable {Key : Type} (e : NotifyEnv Key) (h : Handling)

/-- The payment a callback reports, or the status code that ends it. -/
def notifiedPayment (n : Notice) (d : DB) : Except ℕ NotifyPlain := do
  ensure (checkTimestamp n.timestamp h.now) 401
  let found ← orStatus 500 (if h.answered then d.payByCheck "wescan".toList else none)
  let cfg := e.wechatConfig found.2
  ensure (cfg.platformKeyPem.trimSpace ≠ []) 500
  ensure (e.verifyNotify cfg n h.later) 401
  let resource ← orStatus 400 (e.parseResource n.body)
  let plain ← orStatus 500 (e.decryptWithEnvFallback cfg resource)
  let p ← orStatus 204 (e.parsePlain plain)
  ensure (p.tradeState = "SUCCESS".toList) 204
  return p

def wechatNotify (n : Notice) (d : DB) : DB × ℕ :=
  match notifiedPayment e h n d with
  | .error code => (d, code)
  | .ok p =>
      let result := (complete p.outTradeNo p.total p.transactionId).execFor h.statements h.ids d
      (result.1, if isError result.2 && !paidShort result.2 then 500 else 200)

def successStatus (code : ℕ) : Bool := 200 ≤ code && code < 300

/-- The callback passed every check under the configuration of some `wescan` row, and reports the
payment `p`. -/
structure NotifyPassed (n : Notice) (d : DB) (p : NotifyPlain) : Prop where
  timestamp : checkTimestamp n.timestamp h.now = true
  passed : ∃ i row, d.payByCheck "wescan".toList = some (i, row) ∧
    e.verifyNotify (e.wechatConfig row) n h.later = true ∧
    ∃ resource, e.parseResource n.body = some resource ∧
    ∃ plain, e.decryptWithEnvFallback (e.wechatConfig row) resource = some plain ∧
    e.parsePlain plain = some p
  success : p.tradeState = "SUCCESS".toList

variable {e h} {n : Notice} {d : DB} {p : NotifyPlain}

theorem notifiedPayment_ok (hp : notifiedPayment e h n d = .ok p) : NotifyPassed e h n d p := by
  simp only [notifiedPayment, except_bind_ok, ensure_ok, orStatus_ok] at hp
  obtain ⟨_, hts, found, hrow, _, -, _, hverify, resource, hresource, plain, hplain, p', hparse, _,
    hstate, hp⟩ := hp
  obtain rfl := Except.ok.inj hp
  split_ifs at hrow with hans
  exact ⟨hts, ⟨found.1, found.2, hrow, hverify, resource, hresource, plain, hplain, hparse⟩,
    of_decide_eq_true hstate⟩

/-- A callback that passes every check reaches the settlement, unless the configuration cannot be
read or names no platform key. -/
theorem NotifyPassed.outcome (hq : NotifyPassed e h n d p) :
    notifiedPayment e h n d = .ok p ∨ notifiedPayment e h n d = .error 500 := by
  obtain ⟨hts, ⟨i, row, hrow, hverify, resource, hresource, plain, hplain, hparse⟩, hstate⟩ := hq
  have hcheck : ∀ {c : Bool} {code : ℕ}, c = true → ensure c code = .ok () :=
    fun hc => ensure_ok.mpr hc
  unfold notifiedPayment
  rw [except_bind_of_ok (hcheck hts)]
  cases hans : h.answered with
  | false => exact Or.inr rfl
  | true =>
      rw [if_pos rfl, except_bind_of_ok (orStatus_ok.mpr hrow)]
      dsimp only
      by_cases hkey : (e.wechatConfig row).platformKeyPem.trimSpace = []
      · have hblank : ensure ((e.wechatConfig row).platformKeyPem.trimSpace ≠ []) 500 =
            .error 500 := by
          simp [ensure, hkey]
        exact Or.inr (by rw [hblank]; rfl)
      · refine Or.inl ?_
        rw [except_bind_of_ok (hcheck (decide_eq_true hkey)), except_bind_of_ok (hcheck hverify),
          except_bind_of_ok (orStatus_ok.mpr hresource), except_bind_of_ok (orStatus_ok.mpr hplain),
          except_bind_of_ok (orStatus_ok.mpr hparse),
          except_bind_of_ok (hcheck (decide_eq_true hstate))]
        rfl

theorem wechatNotify_of_ok (hp : notifiedPayment e h n d = .ok p) :
    wechatNotify e h n d =
      (((complete p.outTradeNo p.total p.transactionId).execFor h.statements h.ids d).1,
        if isError
              ((complete p.outTradeNo p.total p.transactionId).execFor h.statements h.ids d).2 &&
            !paidShort
              ((complete p.outTradeNo p.total p.transactionId).execFor h.statements h.ids d).2
        then 500 else 200) := by
  simp only [wechatNotify, hp]

theorem wechatNotify_of_error {code : ℕ} (hp : notifiedPayment e h n d = .error code) :
    wechatNotify e h n d = (d, code) := by
  rw [wechatNotify, hp]

/-- An order that a settlement answered for without refusing the payment is on record. -/
theorem complete_recorded {sn trade : Text} {paid : Cents} {m : ℕ} {ids : ℕ → ℕ} {d' : DB}
    {r : Option Reply} (hx : (complete sn paid trade).execFor m ids d = (d', r))
    (hr : (isError r && !paidShort r) = false) :
    ∃ id o, d'.orders.get? id = some o ∧ o.orderSn = sn ∧ o.status ≠ .unpaid ∧ o.status ≠ .expired ∧
      o.actualPrice = paid := by
  rcases execFor_cases (E := settleEnd false) (p := complete sn paid trade) settle_ends m ids d with
    ⟨reply, d₁, hc, he⟩ | ⟨reply, hend, he⟩ | he
  · rw [hx] at he
    obtain ⟨rfl, rfl⟩ := Prod.mk.inj he
    obtain ⟨id, o, hfound, -, hpaid, hs⟩ := settle_commits hc
    obtain ⟨hget, hsn⟩ := DB.orderBySn_some hfound
    have hmodified : ∀ f : Order → Order, (d.orders.modify id f).get? id = some (f o) := by
      intro f
      rw [Table.get?_modify_self, hget, Option.map_some]
    cases hs with
    | already hrec =>
        refine ⟨id, o, hget, hsn, ?_, ?_, (hpaid rfl).symm⟩
        · rcases hrec with h | h | h | ⟨h, -⟩ <;> rw [h] <;> nofun
        · rcases hrec with h | h | h | ⟨h, -⟩ <;> rw [h] <;> nofun
    | short => exact ⟨id, _, hmodified _, hsn, nofun, nofun, (hpaid rfl).symm⟩
    | cards => exact ⟨id, _, hmodified _, hsn, nofun, nofun, (hpaid rfl).symm⟩
    | manual => exact ⟨id, _, hmodified _, hsn, nofun, nofun, (hpaid rfl).symm⟩
  · rw [hx] at he
    obtain ⟨rfl, rfl⟩ := Prod.mk.inj he
    rcases hend rfl with ⟨-, hredeliver⟩ | ⟨msg, rfl, honly⟩
    · cases hredeliver
    · have hshort : msg ≠ msgShortStock := fun hm => absurd (honly hm) (by decide)
      simp [isError, paidShort, isPaidShort, hshort] at hr
  · rw [hx] at he
    obtain ⟨rfl, rfl⟩ := Prod.mk.inj he
    simp [isError, paidShort] at hr

end Handler

/-- A callback whose payment is acknowledged has that payment on record, and only a callback that
passes every check and reports success changes a row. -/
theorem acknowledged_payment_recorded {Key : Type} (e : NotifyEnv Key) (h : Handling) (n : Notice)
    (d : DB) :
    (∀ p, NotifyPassed e h n d p → successStatus (wechatNotify e h n d).2 = true →
      ∃ id o, (wechatNotify e h n d).1.orders.get? id = some o ∧ o.orderSn = p.outTradeNo ∧
        o.status ≠ .unpaid ∧ o.status ≠ .expired ∧ o.actualPrice = p.total) ∧
    ((wechatNotify e h n d).1 ≠ d → ∃ p, NotifyPassed e h n d p) := by
  constructor
  · intro p hq hs
    rcases hq.outcome with hp | hp
    · rcases hx : (complete p.outTradeNo p.total p.transactionId).execFor h.statements
          h.ids d with ⟨d', r⟩
      rw [wechatNotify_of_ok hp, hx] at hs ⊢
      refine complete_recorded hx ?_
      rw [Bool.eq_false_iff]
      intro hr
      rw [if_pos hr] at hs
      cases hs
    · rw [wechatNotify_of_error hp] at hs
      cases hs
  · intro hne
    cases hp : notifiedPayment e h n d with
    | error code => exact absurd (by rw [wechatNotify_of_error hp]) hne
    | ok p => exact ⟨p, notifiedPayment_ok hp⟩

def tinyNotifyEnv : NotifyEnv Unit where
  getenv key := if key = "WECHAT_PAY_PLATFORM_KEY".toList then "platform".toList else []
  loadPublic text := if text = "platform".toList then some () else none
  decodeBase64 text := some text
  verifyPKCS1v15 _ _ sig := sig = "signed".toList
  gcmOpen key _ raw _ := if key = List.replicate 32 'k' then some raw else none
  parseResource _ := some ⟨"nonce".toList, "plain".toList, []⟩
  parsePlain _ := some ⟨tinySn 1, "SUCCESS".toList, "t".toList, 100⟩

def tinyHandling : Handling := ⟨1000, 1000, true, 20, fun n => n⟩

def tinyNotice : Notice := ⟨"1000".toList, "n".toList, "signed".toList, [], "body".toList⟩

theorem tinyNotice_passed : NotifyPassed tinyNotifyEnv tinyHandling tinyNotice
    (runOps tinyEnv [tinyBuy 2 1 []] tinyShop) ⟨tinySn 1, "SUCCESS".toList, "t".toList, 100⟩ :=
  notifiedPayment_ok (by decide)

/-- The callback of the small shop's sale leaves the paid order on record. -/
theorem acknowledged_payment_recorded_sale : ∃ id o,
    (wechatNotify tinyNotifyEnv tinyHandling tinyNotice
      (runOps tinyEnv [tinyBuy 2 1 []] tinyShop)).1.orders.get?
      id = some o ∧ o.orderSn = tinySn 1 ∧ o.status ≠ .unpaid ∧ o.status ≠ .expired ∧
      o.actualPrice = 100 :=
  (acknowledged_payment_recorded tinyNotifyEnv tinyHandling tinyNotice _).1 _ tinyNotice_passed
    (by decide)

end Dufaka
