import Dufaka.OrderPages
import Dufaka.ReceiptAnswers
import Dufaka.UsdtInvoice

/-!
# The cashier

The pages that ask for a cldx or USDT payment and the calls that look for one, as a machine of
interleaved steps: one step for each statement or remote call of `gateway`, `cldxPay`, `cldxLaunch`,
`usdtPay`, `syncCldxOrder` and `syncUSDTOrder`. A call that fails takes no further step, and other
requests are whole transactions, which wait for the order rows that an invoice transaction holds.
-/

namespace Dufaka
open Relational

structure CashierEnv extends Env, UsdtEnv where
  base : Text
  merchantId : Text
  walletEnabled : Bool
  usdtEnabled : Bool

/-! ### Pages -/

def queryUnreserved (c : Char) : Bool := c.isAlphanum || c = '-' || c = '_' || c = '.' || c = '~'

/-- `url.QueryEscape`. -/
def queryEscape (s : Text) : Text :=
  s.flatMap (fun c =>
    if queryUnreserved c then [c]
    else if c = ' ' then ['+']
    else (String.utf8EncodeChar c).flatMap (fun b =>
      ['%', hexDigit (b.toNat / 16), hexDigit (b.toNat % 16)]))

/-- `strings.TrimRight` of one character. -/
def trimRight (c : Char) (s : Text) : Text := (s.reverse.dropWhile (· = c)).reverse

def formatCldx (minor : ℤ) : Text :=
  let n := minor.natAbs
  let frac : Text := Text.itoa (n % 10000 / 1000) ++ Text.itoa (n % 1000 / 100) ++
    Text.itoa (n % 100 / 10) ++ Text.itoa (n % 10)
  (if minor < 0 then ['-'] else []) ++
    trimRight '.' (trimRight '0' (Text.itoa (n / 10000) ++ '.' :: frac))

def unix (t : ℤ) : ℤ := t / 1000000

/-- `cldxpay.html`; `qr` is the text of the code. -/
structure CldxPage where
  order : Order
  payDeadline : ℤ
  cldx : Text
  qr : Text
  direct : Bool
  appLink : Text

/-- `usdtpay.html`; `qr` is the text of the code. -/
structure UsdtPage where
  order : Order
  invoice : UsdtInvoice
  payDeadline : ℤ
  qr : Text

section Pages
variable (env : CashierEnv)

/-- The query `url.Values.Encode` gives, in the order of its keys. -/
def cldxQuery (sn : Text) (amount exp : ℤ) : Text :=
  "amount=".toList ++ Text.itoa amount ++ "&exp=".toList ++ Text.itoa exp ++ "&order=".toList ++
    queryEscape sn ++ "&to=".toList ++ queryEscape env.merchantId

def cldxAppLink (sn : Text) (amount exp : ℤ) : Text :=
  "clodex://pay?".toList ++ cldxQuery env sn amount exp

/-- The page for an amount and an expiry; `direct` is whether the app itself shows it. -/
def cldxView (o : Order) (amount exp : ℤ) (direct : Bool) : CldxPage where
  order := o
  payDeadline := exp
  cldx := formatCldx amount
  qr := if direct then [] else env.base ++ "/cldx/pay?order=".toList ++ queryEscape o.orderSn
  direct := direct
  appLink := cldxAppLink env o.orderSn amount exp

/-- The last seconds of a page for an invoice are the order's or the invoice's. -/
def usdtView (o : Order) (p : UsdtInvoice) (deadline : ℤ) : UsdtPage where
  order := o
  invoice := p
  payDeadline := unix (if p.expires < deadline then p.expires else deadline)
  qr := p.address

end Pages

def validSN (sn : Text) : Bool :=
  sn.length = 16 && sn.all (fun c => c.isDigit || ('A' ≤ c && c ≤ 'F'))

/-! ### Reads -/

def Answers.all : Answers := ⟨fun _ => true, true, true⟩

namespace DB
variable (d : DB)

def pay (id : ℕ) : Option Pay := (d.pays.get? id).filter (fun p => !p.deleted)

def cldxMinor (sn : Text) : Option ℤ := (d.orderBySn sn).map (fun found => found.2.cldxMinor.getD 0)

def cldxQuote (sn : Text) : Option (ℤ × ℤ) :=
  (d.liveOrder sn).map (fun found => (found.2.cldxMinor.getD 0, found.2.cldxExpiresAt.getD 0))

def usdtInvoice (env : UsdtEnv) (sn : Text) : Option UsdtInvoice := do
  let found ← d.liveOrder sn
  let raw ← found.2.usdtPayment
  env.unmarshal raw

def storeInvoice (id : ℕ) (raw : Text) : DB :=
  { d with orders := d.orders.modify id (fun o => { o with usdtPayment := some raw }) }

end DB

/-! ### Tabs -/

/-- How far a page has come. `ttl` and `deadline` are in microseconds, and the identity is that of
the order row the tab's transaction has locked. A tab that shows its page takes no further step, so
that the tabs hold every page ever shown. -/
inductive Tab where
  | idle
  | order (o : Order)
  | cldx (o : Order) (ttl : ℤ)
  | unquoted (o : Order) (ttl : ℤ)
  | quoted (o : Order) (ttl amount : ℤ)
  | locked (o : Order) (amount exp : ℤ)
  | cldxPage (page : CldxPage)
  | launch (o : Order)
  | launchable (o : Order)
  | redirected (sn link : Text)
  | usdt (o : Order) (deadline : ℤ)
  | creating (id : ℕ) (o : Order) (deadline : ℤ)
  | created (id : ℕ) (o : Order) (deadline : ℤ) (p : UsdtInvoice) (raw : Text)
  | invoiced (o : Order) (deadline : ℤ) (p : UsdtInvoice)
  | usdtPage (page : UsdtPage)
  | rolledBack

/-- A step of a page that writes nothing. `expireMin` is what the settings say at that moment, and
`amount` what the wallet quotes. -/
inductive TabAct where
  | gateway (sn : Text) (expireMin : ℤ)
  | channel (expireMin : ℤ)
  | readMinor
  | walletQuote (amount : ℤ)
  | launch (sn : Text)
  | launchChannel
  | redirect
  | view (direct : Bool)

def cldxTTL (expireMin : ℤ) : ℤ :=
  if expireMin * minute ≤ 0 then 15 * minute else expireMin * minute

def Tab.read (env : CashierEnv) (d : DB) (now : ℤ) : Tab → TabAct → Option Tab
  | .idle, .gateway sn expireMin => do
      let found ← (d.orderBySNChecked .all sn).toOption
      if found.2.status = .unpaid ∧ now < found.2.createdAt + expireMin * minute then
        some (.order found.2)
      else none
  | .order o, .channel expireMin => do
      let p ← d.pay o.payId
      if p.isOpen ≠ 1 then none
      else if p.payCheck = "usdt".toList then
        if env.usdtEnabled then some (.usdt o (o.createdAt + expireMin * minute)) else none
      else if p.payCheck = "cldx".toList then
        if env.walletEnabled then some (.cldx o (cldxTTL expireMin)) else none
      else none
  | .cldx o ttl, .readMinor => do
      let amount ← d.cldxMinor o.orderSn
      if amount ≤ 0 then some (.unquoted o ttl) else some (.quoted o ttl amount)
  | .unquoted o ttl, .walletQuote amount => if amount ≤ 0 then none else some (.quoted o ttl amount)
  | .locked o amount exp, .view direct =>
      if exp ≤ unix now then none else some (.cldxPage (cldxView env o amount exp direct))
  | .idle, .launch sn =>
      if validSN sn = false ∨ env.walletEnabled = false then none
      else do
        let found ← (d.orderBySN .all sn).toOption
        if found.2.status = .unpaid ∨ found.2.status = .expired then some (.launch found.2)
          else none
  | .launch o, .launchChannel => do
      let p ← d.pay o.payId
      if p.payCheck = "cldx".toList ∧ p.isOpen = 1 then some (.launchable o) else none
  | .launchable o, .redirect => do
      let quote ← d.cldxQuote o.orderSn
      if quote.1 ≤ 0 ∨ quote.2 ≤ 0 ∨ quote.2 ≤ unix now then none
      else some (.redirected o.orderSn (cldxAppLink env o.orderSn quote.1 quote.2))
  | .invoiced o deadline p, .view _ =>
      if p.validate env.toUsdtEnv p.orderNo o.actualPrice env.address = false ∨
          (usdtRefPrefix o.orderSn).isPrefixOf p.orderNo = false then none
      else if p.expires ≤ now ∨ deadline ≤ now then none
      else some (.usdtPage (usdtView o p deadline))
  | _, _ => none

/-! ### Polls -/

inductive Channel where
  | cldx
  | usdt
  deriving DecidableEq

def Channel.check : Channel → Text
  | .cldx => "cldx".toList
  | .usdt => "usdt".toList

def CashierEnv.enabled (env : CashierEnv) : Channel → Bool
  | .cldx => env.walletEnabled
  | .usdt => env.usdtEnabled

/-- What a poll asks about: the order as it read it, with the amount or the invoice it wants
paid. -/
inductive Job where
  | cldx (o : Order) (want : ℤ)
  | usdt (o : Order) (want : UsdtInvoice)

inductive RemoteAnswer where
  | wallet (r : Except WalletError Receipt)
  | usdt (r : UsdtAnswer)
  | panicked

/-- A question to the remote side: `Wallet.Receipt` of an order for a payee, or the check of an
invoice. -/
inductive RemoteCall where
  | receipt (payee orderID : Text)
  | check (id : Text)

def cldxPayer (s : Text) : Bool :=
  s ≠ [] && s.length ≤ 150 &&
    s.all (fun c => c.isAlphanum || c = '.' || c = '_' || c = '@' || c = '-')

def cldxTradeNo (sn payer : Text) : Text :=
  let payer := payer.trimSpace
  if payer = [] || !cldxPayer payer then "cldx:".toList ++ sn
  else "cldx:".toList ++ sn ++ ':' :: payer

def fetchEnd : Except WalletError Receipt → FetchEnd
  | .ok item => .returned item none
  | .error err => .returned .zero (some err)

def settledReply : Option Reply → Bool
  | some (.delivered _ _) => true
  | some .already => true
  | _ => false

namespace Job

def order : Job → Order
  | .cldx o _ => o
  | .usdt o _ => o

def key : Job → Text
  | .cldx o _ => o.orderSn
  | .usdt o _ => "usdt:".toList ++ o.orderSn

def call (env : CashierEnv) : Job → RemoteCall
  | .cldx o _ => .receipt env.merchantId o.orderSn
  | .usdt _ want => .check want.id

def fetch (env : CashierEnv) : Job → RemoteAnswer → Option FetchEnd
  | .cldx _ _, .wallet r => some (fetchEnd r)
  | .usdt o want, .usdt r =>
      some (fetchEnd (UsdtInvoice.check env.toUsdtEnv want o.actualPrice o.createdAt r))
  | _, .panicked => some .panicked
  | _, _ => none

def accepts : Job → Receipt → Bool
  | .cldx _ want, item => item.paid && item.refunded = 0 && item.amount = want
  | .usdt o _, item => item.paid && item.amount = o.actualPrice

def tradeNo : Job → Receipt → Text
  | .cldx o _, item => cldxTradeNo o.orderSn item.payer
  | .usdt _ _, item => "usdt:".toList ++ item.payer

def settlement (job : Job) (item : Receipt) : Request :=
  .complete job.order.orderSn job.order.actualPrice (job.tradeNo item)

def forgets : Job → Option Reply → Bool
  | .cldx _ _, reply => settledReply reply
  | .usdt _ _, reply => settledReply reply || reply.any isPaidShort

end Job

def DB.job (env : CashierEnv) (d : DB) (o : Order) : Channel → Option Job
  | .cldx => do
      let want ← d.cldxMinor o.orderSn
      if want ≤ 0 then none else some (.cldx o want)
  | .usdt => do
      let want ← d.usdtInvoice env.toUsdtEnv o.orderSn
      if (usdtRefPrefix o.orderSn).isPrefixOf want.orderNo then some (.usdt o want) else none

/-- How far a poll has come. Its calls of `MarkCldxPolled` and `MarkUSDTPolled` write no column that
is modelled. -/
inductive Poll where
  | idle
  | order (ch : Channel) (o : Order)
  | channel (ch : Channel) (o : Order)
  | asking (job : Job)
  | paid (job : Job) (item : Receipt)
  | settled (job : Job) (item : Receipt) (forgets : Bool)
  | forgotten (job : Job) (item : Receipt)

/-! ### The machine -/

/-- `locks` are the order rows that invoice transactions hold, and `jobs` and `answers` what the
fetch of each entry asks and what it was told. A poll uses the call of `get` of its own number. -/
structure Cashier where
  db : DB
  locks : List ℕ
  receipts : ReceiptThrottle
  jobs : ℕ → Option Job
  answers : ℕ → Option RemoteAnswer
  tabs : ℕ → Tab
  polls : ℕ → Poll

inductive CashierAct where
  /-- A request of another handler. -/
  | request (r : Request) (ids : ℕ → ℕ)
  | expire (id coupon : ℕ)
  /-- The owner's form of a payment channel. -/
  | savePay (id : ℕ) (p : Pay)
  | tick (n : ℕ)
  | receipts (a : ReceiptAct)
  | answer (e : ℕ) (ans : RemoteAnswer)
  | read (c : ℕ) (a : TabAct)
  | lockQuote (c : ℕ) (ids : ℕ → ℕ)
  /-- `SELECT … FOR UPDATE` of `LockUSDTInvoice`. -/
  | lockInvoice (c : ℕ)
  | create (c : ℕ) (nonce : Fin 8 → Fin 256) (answer : UsdtAnswer)
  | commit (c : ℕ)
  | rollback (c : ℕ)
  | pollOrder (c : ℕ) (ch : Channel) (sn : Text)
  | pollChannel (c : ℕ)
  /-- The last read of a poll and its call of `get`. -/
  | ask (c : ℕ)
  | judge (c : ℕ)
  | complete (c : ℕ) (ids : ℕ → ℕ)
  | forget (c : ℕ)

/-- The request is not one of the two locks, which only the pages take. -/
def Request.ofOthers : Request → Bool
  | .lockCldxQuote .. => false
  | .lockUSDTInvoice .. => false
  | _ => true

def ReceiptAct.internal : ReceiptAct → Bool
  | .get .. => false
  | .fetched .. => false
  | .forget .. => false
  | _ => true

def newCashier (d : DB) (now : ℤ) : Cashier :=
  ⟨d, [], newReceiptThrottle now, fun _ => none, fun _ => none, fun _ => .idle, fun _ => .idle⟩

namespace Cashier

def setTab (s : Cashier) (c : ℕ) (tab : Tab) : Cashier :=
  { s with tabs := Function.update s.tabs c tab }

def setPoll (s : Cashier) (c : ℕ) (p : Poll) : Cashier :=
  { s with polls := Function.update s.polls c p }

def release (s : Cashier) (c id : ℕ) (tab : Tab) : Cashier :=
  { s.setTab c tab with locks := s.locks.erase id }

/-- A transaction's commit, which waits while it has to change a row that another one holds. -/
def write (s : Cashier) (d : DB) : Option Cashier :=
  if ∀ id ∈ s.locks, d.orders.get? id = s.db.orders.get? id then some { s with db := d } else none

def jobOf (s : Cashier) : ReceiptAct → Option Job
  | .look c =>
      match s.polls c with
      | .asking job => some job
      | _ => none
  | _ => none

def started (s : Cashier) (a : ReceiptAct) (t : ReceiptThrottle) : ℕ → Option Job :=
  if t.next = s.receipts.next then s.jobs else Function.update s.jobs s.receipts.next (s.jobOf a)

def step (env : CashierEnv) (s : Cashier) : CashierAct → Option Cashier
  | .request r ids => if r.ofOthers then s.write (r.answer env.toEnv ids s.db).1 else none
  | .expire id coupon => s.write ((expireOne id coupon).exec (fun n => n) s.db).1
  | .savePay id p => some { s with db := { s.db with pays := s.db.pays.put id p } }
  | .tick n => some { s with db := s.db.tick n }
  | .receipts a =>
      if a.internal then (s.receipts.step a).map (fun t =>
        { s with receipts := t, jobs := s.started a t })
      else none
  | .answer e ans => do
      let job ← s.jobs e
      let r ← job.fetch env ans
      let t ← s.receipts.step (.fetched e r)
      some { s with receipts := t, answers := Function.update s.answers e (some ans) }
  | .read c a => ((s.tabs c).read env s.db s.receipts.now a).map (s.setTab c)
  | .lockQuote c ids =>
      match s.tabs c with
      | .quoted o ttl amount =>
          let r := (Request.lockCldxQuote o.orderSn amount (unix (o.createdAt + ttl))).answer
            env.toEnv ids
            s.db
          match r.2 with
          | some (.quote amount exp) =>
              (s.write r.1).map (fun s => s.setTab c (.locked o amount exp))
          | _ => none
      | _ => none
  | .lockInvoice c =>
      match s.tabs c with
      | .usdt o deadline => do
          let found ← s.db.liveOrder o.orderSn
          if found.1 ∈ s.locks ∨ found.2.status ≠ .unpaid ∨ deadline ≤ s.receipts.now then none
          else
            match found.2.usdtPayment with
            | some raw => (env.unmarshal raw).map (fun p => s.setTab c (.invoiced o deadline p))
            | none =>
                some { s.setTab c (.creating found.1 o deadline) with locks := found.1 :: s.locks }
      | _ => none
  | .create c nonce answer =>
      match s.tabs c with
      | .creating id o deadline => do
          let p ← (UsdtInvoice.create env.toUsdtEnv o.orderSn o.actualPrice s.receipts.now nonce
            answer).toOption
          let raw ← env.marshal p
          some (s.setTab c (.created id o deadline p raw))
      | _ => none
  | .commit c =>
      match s.tabs c with
      | .created id o deadline p raw =>
          some { s.release c id (.invoiced o deadline p) with db := s.db.storeInvoice id raw }
      | _ => none
  | .rollback c =>
      match s.tabs c with
      | .creating id _ _ => some (s.release c id .rolledBack)
      | .created id _ _ _ _ => some (s.release c id .rolledBack)
      | _ => none
  | .pollOrder c ch sn =>
      match s.polls c with
      | .idle => do
          let found ← (s.db.orderBySNChecked .all sn).toOption
          if env.enabled ch ∧ (found.2.status = .unpaid ∨ found.2.status = .expired) then
            some (s.setPoll c (.order ch found.2))
          else none
      | _ => none
  | .pollChannel c =>
      match s.polls c with
      | .order ch o => do
          let p ← s.db.pay o.payId
          if p.payCheck = ch.check then some (s.setPoll c (.channel ch o)) else none
      | _ => none
  | .ask c =>
      match s.polls c with
      | .channel ch o => do
          let job ← s.db.job env o ch
          let t ← s.receipts.step (.get c job.key)
          some { s.setPoll c (.asking job) with receipts := t }
      | _ => none
  | .judge c =>
      match s.polls c, s.receipts.calls c with
      | .asking job, .returned item _ none =>
          if job.accepts item then some (s.setPoll c (.paid job item)) else none
      | _, _ => none
  | .complete c ids =>
      match s.polls c with
      | .paid job item =>
          let r := (job.settlement item).answer env.toEnv ids s.db
          (s.write r.1).map (fun s => s.setPoll c (.settled job item (job.forgets r.2)))
      | _ => none
  | .forget c =>
      match s.polls c with
      | .settled job item true =>
          some { s.setPoll c (.forgotten job item) with receipts := s.receipts.forget job.key }
      | _ => none

end Cashier
end Dufaka
