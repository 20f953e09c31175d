import Dufaka.CheckoutAcceptance
import Dufaka.PayChannels
import Dufaka.WechatNotify

/-!
# Open channels

Whatever saves, sweeps and seeds do, an open channel has a cashier, and the credentials it needs
unless nobody has saved it. At the checkout the process has a say too, as its own settings decide
which channels work: those that are open and work are accepted, and no others.
-/

namespace Dufaka
open Relational

namespace PayDesk

/-- The credentials that do not come from the environment are stored. -/
def Stored (p : PayRow) : Prop := envOnly p.check = false → p.merchantId ≠ [] ∧ p.merchantPem ≠ []

/-- An open channel has a cashier, and its credentials unless nobody has touched its row of `t`; and
a key that a call in flight read is still there. -/
structure Sound (t : Table PayRow) (s : PayDesk) : Prop where
  ready : ∀ id p, s.pays.get? id = some p → p.deleted = false → p.isOpen = 1 →
    cashierReady p.check = true ∧ (Stored p ∨ t.get? id = some p)
  held : ∀ i k r old, s.saves i = .loaded k r old → old.pem ≠ [] →
    0 < k ∧ ∃ p, s.pays.get? k.toNat = some p ∧ p.merchantPem ≠ []

section Sound
variable {s s' : PayDesk} {a : PayAct} {t : Table PayRow} {as : List PayAct}

theorem Sound.boot (t : Table PayRow) : Sound t (boot t) where
  ready id p' hp hlive hopen := by
    obtain ⟨p, hp₀, rfl⟩ := get?_disableUnwired hp
    obtain ⟨he, hready⟩ := PayRow.swept_open hlive hopen
    rw [he]
    exact ⟨hready, Or.inr hp₀⟩
  held i k r old hs := by cases hs

theorem Sound.move (h : Sound t s) (hm : s.Move a s') : Sound t s' where
  ready id p' hp hlive hopen := by
    cases hm with
    | began | answered | same => exact h.ready id p' hp hlive hopen
    | swept =>
        obtain ⟨p, hp₀, rfl⟩ := get?_disableUnwired hp
        obtain ⟨he, -⟩ := PayRow.swept_open hlive hopen
        rw [he] at hlive hopen ⊢
        exact h.ready id p hp₀ hlive hopen
    | seeded hnew =>
        rcases Table.get?_put_some hp with ⟨-, rfl⟩ | ⟨-, hp⟩
        · exact ⟨by decide, Or.inl (fun henv => absurd henv (by decide))⟩
        · exact h.ready id p' hp hlive hopen
    | @inserted i next r old f hs hf hnew =>
        rcases Table.get?_put_some hp with ⟨-, rfl⟩ | ⟨-, hp⟩
        · obtain ⟨hready, hcred⟩ := payRefusal_none (readPayOver_ok hf).2
          obtain ⟨rfl, -⟩ := readPayOver_ok hf
          refine ⟨hready hopen, Or.inl (fun henv => ⟨(hcred henv).1, fun hblank => ?_⟩)⟩
          -- a new channel has no stored key to fall back on
          obtain ⟨hpos, -⟩ := h.held i 0 r old hs ((hcred henv).2 hblank)
          exact lt_irrefl 0 hpos
        · exact h.ready id p' hp hlive hopen
    | @updated i next k r old f q hs hf hpos hq =>
        rcases Table.get?_put_some hp with ⟨rfl, rfl⟩ | ⟨-, hp⟩
        · obtain ⟨hready, hcred⟩ := payRefusal_none (readPayOver_ok hf).2
          refine ⟨hready hopen, Or.inl (fun henv => ⟨(hcred henv).1, ?_⟩)⟩
          rw [PayForm.updated_merchantPem]
          split_ifs with hblank
          · -- the key that the call read is still there
            obtain ⟨-, p, hp, hpem⟩ := h.held i k r old hs ((hcred henv).2 hblank)
            obtain rfl := Option.some.inj (hp.symm.trans hq)
            exact hpem
          · exact hblank
        · exact h.ready id p' hp hlive hopen
  held i k r old hs hpem := by
    have hbefore : 0 < k ∧ ∃ p, s.pays.get? k.toNat = some p ∧ p.merchantPem ≠ [] := by
      rcases hm.loaded hs with hs | ⟨-, hold⟩
      · exact h.held i k r old hs hpem
      · exact hold hpem
    obtain ⟨hpos, p, hp, hne⟩ := hbefore
    obtain ⟨p', hp', hrow⟩ := hm.row hp
    exact ⟨hpos, p', hp', hrow.pem_ne hne⟩

theorem run_sound (hr : Machine.run step (PayDesk.boot t) as = some s) : Sound t s :=
  Machine.run_induction (P := fun _ => Sound t) (Sound.boot t)
    (fun _ _ _ _ _ h hs => h.move (step_move hs)) hr

end Sound

end PayDesk

/-! ### Channels at the checkout -/

/-- What the process knows of the channels besides their rows: the environment, whether the wallet
and the USDT service are configured, and which private keys can be read. -/
structure ChannelEnv (Key : Type) extends NotifyEnv Key where
  walletEnabled : Bool
  usdtEnabled : Bool
  loadKey : Text → Bool

namespace WechatConfig
variable (c : WechatConfig)

def missingForOrder : List Text :=
  (if c.appId.trimSpace = [] then ["appid（WECHAT_PAY_APP_ID）".toList] else []) ++
  (if c.mchId.trimSpace = [] then ["商户号（后台 wescan 渠道的商户 ID）".toList] else []) ++
  (if c.serialNo.trimSpace = [] then ["商户证书序列号（WECHAT_PAY_CERT_SERIAL_NO）".toList] else []) ++
  (if c.privateKeyPem.trimSpace = [] then ["商户私钥（后台 wescan 渠道的商户密钥）".toList] else [])

def missingForNotify : List Text :=
  (if c.apiV3Key.trimSpace = [] then ["APIv3 密钥（后台商户 KEY 或 WECHAT_PAY_API_V3_KEY）".toList]
    else if c.apiV3Key.trimSpace.byteLength ≠ apiV3KeyLen then
      ["微信支付 APIv3 密钥必须是 32 字节（ASCII）".toList]
    else []) ++
  (if c.platformKeyPem.trimSpace = [] then ["平台公钥（WECHAT_PAY_PLATFORM_KEY）".toList] else [])

def missing : List Text := c.missingForOrder ++ c.missingForNotify

end WechatConfig

namespace ChannelEnv
variable {Key : Type} (e : ChannelEnv Key)

/-- `Validate`: what is missing, and what is there but cannot be read. -/
def validate (c : WechatConfig) : List Text :=
  let c := c.trimmed
  c.missing ++
  (if c.privateKeyPem ≠ [] ∧ e.loadKey c.privateKeyPem = false then
    ["商户私钥无法解析（后台 wescan 渠道的商户密钥）".toList] else []) ++
  (if c.platformKeyPem ≠ [] ∧ e.loadPublic c.platformKeyPem = none then
    ["平台公钥无法解析（WECHAT_PAY_PLATFORM_KEY）".toList] else [])

def hiddenWhy (p : Pay) : Option Text :=
  if p.payCheck = "usdt".toList then
    if e.usdtEnabled then none else some "USDT 服务未配置".toList
  else if p.payCheck = "cldx".toList then
    if e.walletEnabled then none else some "钱包未配置（WALLET_MERCHANT_SECRET 等）".toList
  else if p.payCheck = "wescan".toList then
    match e.validate (e.wechatConfig p) with
    | [] => none
    | v => some (Text.join "、".toList v)
  else if cashierReady p.payCheck then none
  else some "没有接通收银台".toList

def payReady (p : Pay) : Bool := (e.hiddenWhy p).isNone

/-- The handler finds the channel of a checkout, and it is not ready. -/
def refuses (d : DB) (payId : ℕ) : Bool :=
  payId > 0 && ((d.pays.get? payId).filter (fun p => !p.deleted)).any (fun p => !e.payReady p)

def create (env : Env) (rand : Fin 8 → Fin 256) (inp : CreateInput) (site : Site) (ids : ℕ → ℕ)
    (d : DB) : DB × Option Reply :=
  if e.refuses d inp.payId then (d, some (.err "支付方式不可用".toList))
  else (Request.createOrder rand inp site).answer env ids d

def Takes (p : Pay) : Prop :=
  p.payCheck = "cldx".toList ∧ e.walletEnabled = true ∨
    p.payCheck = "usdt".toList ∧ e.usdtEnabled = true ∨
    p.payCheck = "wescan".toList ∧ e.validate (e.wechatConfig p) = []

theorem cashierReady_iff {check : Text} : cashierReady check = true ↔
    check = "wescan".toList ∨ check = "cldx".toList ∨ check = "usdt".toList := by
  rw [cashierReady, List.contains_iff_mem, cashierChecks]
  simp only [List.mem_cons, List.not_mem_nil, or_false]

theorem payReady_iff_takes {p : Pay} : e.payReady p = true ↔ e.Takes p := by
  unfold payReady hiddenWhy Takes
  by_cases hu : p.payCheck = "usdt".toList
  · rw [if_pos hu, hu]
    cases e.usdtEnabled <;> simp
  · rw [if_neg hu]
    by_cases hc : p.payCheck = "cldx".toList
    · rw [if_pos hc, hc]
      cases e.walletEnabled <;> simp
    · rw [if_neg hc]
      by_cases hw : p.payCheck = "wescan".toList
      · rw [if_pos hw, hw]
        cases e.validate (e.wechatConfig p) <;> simp
      · -- a channel of another kind has no cashier
        have hno : cashierReady p.payCheck = false := by
          rw [Bool.eq_false_iff, ne_eq, cashierReady_iff]
          rintro (h | h | h)
          · exact hw h
          · exact hc h
          · exact hu h
        rw [if_neg hw, hno, if_neg Bool.false_ne_true]
        refine iff_of_false Bool.false_ne_true ?_
        rintro (⟨h, -⟩ | ⟨h, -⟩ | ⟨h, -⟩)
        · exact hc h
        · exact hu h
        · exact hw h

end ChannelEnv

namespace PayDesk
variable {s : PayDesk} {t : Table PayRow} {as : List PayAct} {Key : Type}

/-- What `CreateOrder` asks of a channel. -/
theorem payReady_iff {d : DB} (hd : ∀ id, d.pays.get? id = (t.get? id).map PayRow.pay) {id : ℕ} :
    d.payReady id = true ↔
      ∃ p, t.get? id = some p ∧ p.deleted = false ∧ p.isOpen = 1 ∧ cashierReady p.check = true := by
  unfold DB.payReady
  rw [hd id]
  cases hp : t.get? id with
  | none => exact iff_of_false (by simp) (by rintro ⟨p, hp, -⟩; cases hp)
  | some p => cases hdel : p.deleted <;> simp [PayRow.pay, hdel, Option.filter_some]

/-- The channel is on file, open, and one that the process can take a payment through. -/
def Usable (e : ChannelEnv Key) (s : PayDesk) (id : ℕ) : Prop :=
  ∃ p, s.pays.get? id = some p ∧ p.deleted = false ∧ p.isOpen = 1 ∧ e.Takes p.pay

/-- The handler lets a usable channel through, and so does `CreateOrder`. -/
theorem create_of_usable {e : ChannelEnv Key} {d : DB}
    (hd : ∀ id, d.pays.get? id = (s.pays.get? id).map PayRow.pay) {env : Env}
    {rand : Fin 8 → Fin 256} {inp : CreateInput} {site : Site} {ids : ℕ → ℕ}
    (h : Usable e s inp.payId) : d.payReady inp.payId = true ∧
      e.create env rand inp site ids d = (Request.createOrder rand inp site).answer env ids d := by
  obtain ⟨p, hp, hlive, hopen, htakes⟩ := h
  have hready : cashierReady p.check = true := by
    rw [ChannelEnv.cashierReady_iff]
    rcases htakes with ⟨hc, -⟩ | ⟨hu, -⟩ | ⟨hw, -⟩
    · exact Or.inr (Or.inl hc)
    · exact Or.inr (Or.inr hu)
    · exact Or.inl hw
  refine ⟨(payReady_iff hd).mpr ⟨p, hp, hlive, hopen, hready⟩, ?_⟩
  have hpass : e.payReady p.pay = true := e.payReady_iff_takes.mpr htakes
  have hno : e.refuses d inp.payId = false := by
    have hlive' : p.pay.deleted = false := hlive
    simp [ChannelEnv.refuses, hd, hp, hpass, hlive', Option.filter_some]
  rw [ChannelEnv.create, hno, if_neg Bool.false_ne_true]

theorem create_of_not_usable {e : ChannelEnv Key} {d : DB}
    (hd : ∀ id, d.pays.get? id = (s.pays.get? id).map PayRow.pay) {env : Env}
    {rand : Fin 8 → Fin 256} {inp : CreateInput} {site : Site} {ids : ℕ → ℕ}
    (h : ¬ Usable e s inp.payId) : (e.create env rand inp site ids d).1 = d ∧
      ∀ id o, (e.create env rand inp site ids d).2 ≠ some (.created id o) := by
  unfold ChannelEnv.create
  split_ifs with hguard
  · refine ⟨rfl, fun id o he => ?_⟩
    cases he
  · refine answer_of_not_commits (fun r d' hc => h ?_)
    -- an order that is made has an open channel, which the handler found and let through
    obtain ⟨-, g, info, used, coupons, q, hsells, -⟩ := createOrder_commits_iff.mp hc
    obtain ⟨hpos, hready⟩ := hsells.accepts.pay
    obtain ⟨p, hp, hlive, hopen, -⟩ := (payReady_iff hd).mp hready
    refine ⟨p, hp, hlive, hopen, e.payReady_iff_takes.mp ?_⟩
    have hlive' : p.pay.deleted = false := hlive
    simpa [ChannelEnv.refuses, hd, hp, hlive', Option.filter_some,
      Nat.pos_of_ne_zero hpos] using hguard

/-- After the startup sweep, whatever saves, sweeps and seeds interleave: an open channel has a
cashier, and its credentials unless its row is as it was at first. And a checkout goes on to
`CreateOrder`, which accepts the channel, if the channel is open and the process can take a payment
through it; else it makes no order. -/
theorem open_channels_ready (e : ChannelEnv Key) (env : Env)
    (hr : Machine.run step (PayDesk.boot t) as = some s) :
    (∀ id p, s.pays.get? id = some p → p.deleted = false → p.isOpen = 1 →
      cashierReady p.check = true ∧ (Stored p ∨ t.get? id = some p)) ∧
    ∀ d : DB, (∀ id, d.pays.get? id = (s.pays.get? id).map PayRow.pay) →
      ∀ (rand : Fin 8 → Fin 256) (inp : CreateInput) (site : Site) (ids : ℕ → ℕ),
      (Usable e s inp.payId → d.payReady inp.payId = true ∧
        e.create env rand inp site ids d = (Request.createOrder rand inp site).answer env ids d) ∧
      (¬ Usable e s inp.payId → (e.create env rand inp site ids d).1 = d ∧
        ∀ id o, (e.create env rand inp site ids d).2 ≠ some (.created id o)) :=
  ⟨(run_sound hr).ready, fun _ hd _ _ _ _ => ⟨create_of_usable hd, create_of_not_usable hd⟩⟩

def tinyChannelEnv : ChannelEnv Unit where
  getenv _ := []
  loadPublic _ := none
  decodeBase64 _ := none
  verifyPKCS1v15 _ _ _ := false
  gcmOpen _ _ _ _ := none
  parseResource _ := none
  parsePlain _ := none
  walletEnabled := true
  usdtEnabled := false
  loadKey _ := false

def savedChannels : Table PayRow := .ofList [
  (1, ⟨"w".toList, "wescan".toList, 2, 3, "1900".toList, List.replicate 32 'k', "new".toList,
    "/pay/wepay".toList, 1, false⟩),
  (3, cldxRow)]

theorem staleSave_saved :
    ∃ s, Machine.run step (boot tinyChannels) (staleSave ++ [.seed 3]) = some s ∧
    s.pays = savedChannels := ⟨_, rfl, by decide⟩

def tinyChannelShop : DB :=
  { tinyShop with
    pays := .ofList [
      (1, ⟨1, "wescan".toList, "1900".toList, List.replicate 32 'k', "new".toList, false⟩),
      (3, cldxRow.pay)] }

theorem tinyChannelShop_pays (id : ℕ) :
    tinyChannelShop.pays.get? id = (savedChannels.get? id).map PayRow.pay := by
  by_cases h₁ : id = 1
  · subst h₁
    rfl
  · by_cases h₃ : id = 3
    · subst h₃
      rfl
    · simp [tinyChannelShop, savedChannels, Table.ofList, Table.get?_put, h₁, h₃, Table.get?_empty]

/-- Without an environment the WeChat channel takes no payment, though it is open and stored; the
wallet channel does. -/
theorem open_channels_ready_stale :
    ∃ s, Machine.run step (boot tinyChannels) (staleSave ++ [.seed 3]) = some s ∧
      (∃ p, s.pays.get? 1 = some p ∧ p.isOpen = 1 ∧ Stored p) ∧
      ∀ (rand : Fin 8 → Fin 256) (inp : CreateInput) (site : Site) (ids : ℕ → ℕ),
        (inp.payId = 1 →
          (tinyChannelEnv.create tinyEnv rand inp site ids tinyChannelShop).1 = tinyChannelShop) ∧
        (inp.payId = 3 → tinyChannelEnv.create tinyEnv rand inp site ids tinyChannelShop =
          (Request.createOrder rand inp site).answer tinyEnv ids tinyChannelShop) := by
  obtain ⟨s, hr, hs⟩ := staleSave_saved
  obtain ⟨hopen, hcreate⟩ := open_channels_ready tinyChannelEnv tinyEnv hr
  rw [hs] at hopen
  refine ⟨s, hr, ?_, fun rand inp site ids => ?_⟩
  · rw [hs]
    refine ⟨_, rfl, rfl, ?_⟩
    rcases (hopen 1 _ rfl rfl rfl).2 with hstored | hsame
    · exact hstored
    · -- the channel was switched off at first
      cases hsame
  · have hpays : ∀ id, tinyChannelShop.pays.get? id = (s.pays.get? id).map PayRow.pay := by
      rw [hs]
      exact tinyChannelShop_pays
    obtain ⟨hyes, hno⟩ := hcreate tinyChannelShop hpays rand inp site ids
    constructor
    · intro hid
      refine (hno ?_).1
      rw [hid]
      rintro ⟨p, hp, -, -, htakes⟩
      rw [hs] at hp
      obtain rfl := Option.some.inj hp
      rw [← ChannelEnv.payReady_iff_takes] at htakes
      revert htakes
      decide
    · intro hid
      refine (hyes ?_).2
      rw [hid]
      exact ⟨cldxRow, by rw [hs]; rfl, rfl, rfl, Or.inl ⟨rfl, rfl⟩⟩

end PayDesk
end Dufaka
