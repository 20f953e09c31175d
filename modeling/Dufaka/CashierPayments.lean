import Dufaka.CashierRuns

/-!
# Quotes and invoices of the cashier

One locked quote and one invoice for each order, whatever pages, polls, expiries and requests
interleave: every page shows them, and a poll settles the order only on the remote side's answer
about them.
-/

namespace Dufaka
open Relational

namespace Job
variable {env : CashierEnv} {d : DB} {job : Job} {ans : RemoteAnswer} {item : Receipt}

/-- A key that is an order's number is that of a cldx job for the number. -/
theorem cldx_of_key (hd : d.Numbered) {id : ℕ} {row : Order} (hget : d.orders.get? id = some row)
    (hkey : job.key = row.orderSn) : ∃ o want, job = .cldx o want ∧ o.orderSn = row.orderSn := by
  cases job with
  | cldx o want => exact ⟨o, want, rfl, hkey⟩
  | usdt o want =>
      have hcolon : ':' ∈ (Job.usdt o want).key :=
        List.mem_append_left o.orderSn (by decide)
      rw [hkey] at hcolon
      exact absurd hcolon (hd.plain id row hget)

/-- A key with the prefix of the USDT polls is that of a USDT job. -/
theorem usdt_of_key (hd : d.Numbered) (habout : d.Has (job.About env.toUsdtEnv)) {sn : Text}
    (hkey : job.key = "usdt:".toList ++ sn) : ∃ o want, job = .usdt o want ∧ o.orderSn = sn := by
  cases job with
  | cldx o want =>
      obtain ⟨id, row, hget, hfixed, -⟩ := habout
      have hsn : row.orderSn = "usdt:".toList ++ sn := hfixed.orderSn.trans hkey
      have hcolon : ':' ∈ row.orderSn := by
        rw [hsn]
        exact List.mem_append_left _ (by decide)
      exact absurd hcolon (hd.plain id row hget)
  | usdt o want => exact ⟨o, want, rfl, List.append_cancel_left hkey⟩

theorem fetchEnd_returned {r : Except WalletError Receipt} (h : fetchEnd r = .returned item none) :
    r = .ok item := by
  cases r with
  | ok item' =>
      obtain ⟨hitem, -⟩ := FetchEnd.returned.inj h
      rw [hitem]
  | error err => cases h

theorem fetch_cldx {o : Order} {want : ℤ}
    (h : (Job.cldx o want).fetch env ans = some (.returned item none)) :
    ans = .wallet (.ok item) := by
  cases ans with
  | wallet r =>
      have hr : r = .ok item := fetchEnd_returned (Option.some.inj h)
      rw [hr]
  | usdt r | panicked => cases h

theorem fetch_usdt {o : Order} {want : UsdtInvoice}
    (h : (Job.usdt o want).fetch env ans = some (.returned item none)) :
    ∃ r, ans = .usdt r ∧
      UsdtInvoice.check env.toUsdtEnv want o.actualPrice o.createdAt r = .ok item := by
  cases ans with
  | usdt r => exact ⟨r, rfl, fetchEnd_returned (Option.some.inj h)⟩
  | wallet r | panicked => cases h

end Job

namespace Cashier
variable {env : CashierEnv} {s s' : Cashier} {c : ℕ} {job : Job} {item : Receipt}

/-- The remote side has given this answer to this question. -/
def Told (env : CashierEnv) (s : Cashier) (call : RemoteCall) (ans : RemoteAnswer) : Prop :=
  ∃ e job, s.jobs e = some job ∧ job.call env = call ∧ s.answers e = some ans

/-- The poll `c` has called `Complete` for its job, on this receipt. -/
def Completed (s : Cashier) (c : ℕ) (job : Job) (item : Receipt) : Prop :=
  (∃ forgets, s.polls c = .settled job item forgets) ∨ s.polls c = .forgotten job item

theorem Sound.completed (h : s.Sound env) (hc : s.Completed c job item) :
    s.db.Has (job.About env.toUsdtEnv) ∧ job.accepts item = true ∧
      s.receipts.Reported job.key item := by
  have hfaithful := h.polls c
  rcases hc with ⟨forgets, hpoll⟩ | hpoll
  · rwa [hpoll] at hfaithful
  · rwa [hpoll] at hfaithful

/-- A reported receipt is what the remote side's answer to a job of that key came to. -/
theorem Sound.reported (h : s.Sound env) {key : Text} (hr : s.receipts.Reported key item) :
    ∃ e job ans, s.jobs e = some job ∧ s.answers e = some ans ∧ job.key = key ∧
      s.db.Has (job.About env.toUsdtEnv) ∧ job.fetch env ans = some (.returned item none) := by
  obtain ⟨e, he⟩ := hr
  have hkey : (s.receipts.leads e).key = some key := by rw [he, Lead.key]
  have houtcome : (s.receipts.leads e).outcome = some (.returned item none) := by
    rw [he, Lead.outcome]
  obtain ⟨job, hjob, hk, habout⟩ := h.asked e key hkey
  obtain ⟨job', ans, hjob', hans, hfetch⟩ := h.told e _ houtcome
  rw [hjob] at hjob'
  obtain rfl := Option.some.inj hjob'
  exact ⟨e, job, ans, hjob, hans, hk, habout, hfetch⟩

/-- The one order of a number is the one some order of that number is such as. -/
theorem Sound.row (h : s.Sound env) {P : Order → Prop} {sn : Text}
    (hP : s.db.Has (fun o => o.orderSn = sn ∧ P o)) {id : ℕ} {o : Order}
    (ho : s.db.orders.get? id = some o) (hsn : o.orderSn = sn) : P o := by
  obtain ⟨i, row, hget, hrow, hp⟩ := hP
  have hid : i = id := h.numbered.unique i id row o hget ho (hrow.trans hsn.symm)
  rw [hid, ho] at hget
  rw [Option.some.inj hget]
  exact hp

end Cashier

/-! ### A small cashier -/

def cashierShop (ch : Channel) : DB :=
  { tinyShop with
    pays := .ofList [(1, ⟨1, ch.check, [], [], [], false⟩)]
    orders := .ofList [(1, tinyAutoOrder)] }

theorem cashierShop_numbered (ch : Channel) : (cashierShop ch).Numbered := by
  have hall : ∀ e ∈ (Table.ofList [(1, tinyAutoOrder)]).entries, e = (1, tinyAutoOrder) := by decide
  have hone : ∀ i o, (cashierShop ch).orders.get? i = some o → i = 1 ∧ o = tinyAutoOrder := by
    intro i o ho
    exact Prod.mk.inj (hall (i, o) (((cashierShop ch).orders.mem_entries_iff i o).mpr ho))
  constructor
  · intro i j o o' ho ho' _
    rw [(hone i o ho).1, (hone j o' ho').1]
  · intro i o ho
    rw [(hone i o ho).2]
    decide

def tinyInvoice : UsdtInvoice where
  id := "usdt_".toList ++ List.replicate 24 'a'
  orderNo := usdtRefPrefix (tinySn 1) ++ hexEncode (fun _ => 0)
  status := "pending".toList
  network := "TRON".toList
  token := "USDT".toList
  chain := "TRC20".toList
  address := 'T' :: List.replicate 33 'a'
  cny := "1.00".toList
  amount := "0.150000".toList
  expires := 600000000
  paidAt := none
  txId := []

def tinyPaidInvoice : UsdtInvoice :=
  { tinyInvoice with status := "paid".toList, paidAt := some 1, txId := List.replicate 64 'a' }

def tinyInvoiceText : Text :=
  "\x7b\"id\":\"".toList ++ tinyInvoice.id ++
    "\",\"order_no\":\"".toList ++ tinyInvoice.orderNo ++
    "\",\"status\":\"pending\",\"network\":\"TRON\",\"token\":\"USDT\"".toList ++
    ",\"chain\":\"TRC20\",\"address\":\"".toList ++ tinyInvoice.address ++
    "\",\"cny_amount\":1.00,\"usdt_amount\":\"0.150000\"".toList ++
    ",\"expires_at\":\"1970-01-01T00:10:00Z\",\"paid_at\":null,\"tx_id\":\"\"\x7d".toList

def tinyCashierEnv : CashierEnv where
  toEnv := tinyEnv
  address := tinyInvoice.address
  rat s :=
    if s = tinyInvoice.cny then some (mkRat 1 1)
    else if s = tinyInvoice.amount then some (mkRat 3 20)
    else none
  marshal p := if p = tinyInvoice then some tinyInvoiceText else none
  unmarshal raw := if raw = tinyInvoiceText then some tinyInvoice else none
  base := []
  merchantId := "shop".toList
  walletEnabled := true
  usdtEnabled := true

def tinyPoll (ch : Channel) (ans : RemoteAnswer) : List CashierAct :=
  [.pollOrder 0 ch (tinySn 1), .pollChannel 0, .ask 0, .receipts (.look 0), .answer 0 ans,
    .receipts (.settle 0), .receipts (.wake 0), .judge 0, .complete 0 (fun n => n), .forget 0]

def quoteRace : List CashierAct :=
  [.read 0 (.gateway (tinySn 1) 5), .read 1 (.gateway (tinySn 1) 5), .read 0 (.channel 5),
    .read 1 (.channel 5), .read 0 .readMinor, .read 1 .readMinor, .read 0 (.walletQuote 700),
    .read 1 (.walletQuote 500), .lockQuote 1 (fun n => n), .lockQuote 0 (fun n => n),
    .read 0 (.view false), .read 1 (.view true)]

/-- Two tabs of one order: the second has to wait for the first one's invoice, and gets it. -/
def invoiceRace : List CashierAct :=
  [.read 0 (.gateway (tinySn 1) 5), .read 1 (.gateway (tinySn 1) 5), .read 0 (.channel 5),
    .read 1 (.channel 5), .lockInvoice 0, .create 0 (fun _ => 0) (.ok tinyInvoice), .commit 0,
    .lockInvoice 1, .read 0 (.view false), .read 1 (.view false)]

def tinyReceipt : Receipt := ⟨true, 500, 0, []⟩

/-! ### Every run -/

section Runs
variable {env : CashierEnv} {d : DB} {now : ℤ} {acts : List CashierAct} {s : Cashier}

/-- Once a quote is locked it stays, every page and deep link of the order carries it, and a poll
completes the order, at the order's own price, only on a wallet receipt of it that is paid, not
refunded, and of the locked amount. -/
theorem cldx_quote_agreement (hd : d.Numbered)
    (h : Machine.run (Cashier.step env) (newCashier d now) acts = some s) {id : ℕ} {o : Order}
    (ho : s.db.orders.get? id = some o) :
    (∀ amount exp, o.cldxMinor = some amount → o.cldxExpiresAt = some exp →
      ∀ later s', Machine.run (Cashier.step env) s later = some s' →
        ∃ o', s'.db.orders.get? id = some o' ∧ o'.cldxMinor = some amount ∧
          o'.cldxExpiresAt = some exp) ∧
    (∀ c page, s.tabs c = .cldxPage page → page.order.orderSn = o.orderSn →
      ∃ amount exp direct, o.cldxMinor = some amount ∧ o.cldxExpiresAt = some exp ∧
        page = cldxView env page.order amount exp direct) ∧
    (∀ c link, s.tabs c = .redirected o.orderSn link →
      ∃ amount exp, o.cldxMinor = some amount ∧ o.cldxExpiresAt = some exp ∧
        link = cldxAppLink env o.orderSn amount exp) ∧
    (∀ c read want item, s.Completed c (.cldx read want) item → read.orderSn = o.orderSn →
      (Job.cldx read want).settlement item =
          .complete o.orderSn o.actualPrice (cldxTradeNo o.orderSn item.payer) ∧
        s.Told env (.receipt env.merchantId o.orderSn) (.wallet (.ok item)) ∧
        item.paid = true ∧ item.refunded = 0 ∧ o.cldxMinor = some item.amount) := by
  obtain ⟨-, hs⟩ := (Cashier.new_sound hd now).run h
  refine ⟨?_, ?_, ?_, ?_⟩
  · intro amount exp hamount hexp later s' hrun
    obtain ⟨hlater, -⟩ := hs.run hrun
    obtain ⟨o', ho', hl⟩ := hlater id o ho
    exact ⟨o', ho', hl.minor amount hamount, hl.expires exp hexp⟩
  · intro c page htab hsn
    have hfaithful := hs.tabs c
    rw [htab] at hfaithful
    obtain ⟨amount, exp, direct, hpage, hquoted⟩ := hfaithful
    obtain ⟨hamount, hexp⟩ := hs.row hquoted ho hsn.symm
    exact ⟨amount, exp, direct, hamount, hexp, hpage⟩
  · intro c link htab
    have hfaithful := hs.tabs c
    rw [htab] at hfaithful
    obtain ⟨amount, exp, hlink, hquoted⟩ := hfaithful
    obtain ⟨hamount, hexp⟩ := hs.row hquoted ho rfl
    exact ⟨amount, exp, hamount, hexp, hlink⟩
  · intro c read want item hcompleted hsn
    obtain ⟨⟨i, row, hget, hfixed, hwant⟩, haccepts, hreported⟩ := hs.completed hcompleted
    have hrow : o.actualPrice = read.actualPrice ∧ o.cldxMinor = some want :=
      hs.row (P := fun row => row.actualPrice = read.actualPrice ∧ row.cldxMinor = some want)
        ⟨i, row, hget, hfixed.orderSn, hfixed.actualPrice, hwant⟩ ho hsn.symm
    have hkey : (Job.cldx read want).key = o.orderSn := hsn
    obtain ⟨e, job, ans, hjob, hans, hk, habout, hfetch⟩ := hs.reported hreported
    obtain ⟨read', want', rfl, hsn'⟩ := Job.cldx_of_key hs.numbered ho (hk.trans hkey)
    have hwallet := Job.fetch_cldx hfetch
    simp only [Job.accepts, Bool.and_eq_true, decide_eq_true_eq] at haccepts
    obtain ⟨⟨hpaid, hrefunded⟩, hitem⟩ := haccepts
    refine ⟨?_, ⟨e, _, hjob, ?_, hwallet ▸ hans⟩, hpaid, hrefunded, ?_⟩
    · rw [hrow.1, ← hsn]
      rfl
    · rw [Job.call, hsn']
    · rw [hitem]
      exact hrow.2

def tinyQuotedOrder : Order := tinyAutoOrder.quote 500 300

/-- The tab that asked the wallet first shows the quote of the other one, and a receipt of that
amount completes the order. -/
theorem cldx_quote_agreement_race :
    ∃ s o, Machine.run (Cashier.step tinyCashierEnv) (newCashier (cashierShop .cldx) 0)
        (quoteRace ++ tinyPoll .cldx (.wallet (.ok tinyReceipt))) = some s ∧
      s.db.orders.get? 1 = some o ∧ s.Completed 0 (.cldx tinyQuotedOrder 500) tinyReceipt ∧
      o.cldxMinor = some tinyReceipt.amount := by
  have hstate : ∃ s, Machine.run (Cashier.step tinyCashierEnv) (newCashier (cashierShop .cldx) 0)
      (quoteRace ++ tinyPoll .cldx (.wallet (.ok tinyReceipt))) = some s ∧
      (s.db.orders.get? 1).map Order.orderSn = some (tinySn 1) ∧
      s.polls 0 = .forgotten (.cldx tinyQuotedOrder 500) tinyReceipt := ⟨_, rfl, rfl, rfl⟩
  obtain ⟨s, hs, horder, hpoll⟩ := hstate
  obtain ⟨o, ho, hsn⟩ := Option.map_eq_some_iff.mp horder
  have hdone : s.Completed 0 (.cldx tinyQuotedOrder 500) tinyReceipt := Or.inr hpoll
  obtain ⟨-, -, -, hcompleted⟩ := cldx_quote_agreement (cashierShop_numbered .cldx) hs ho
  obtain ⟨-, -, -, -, hminor⟩ := hcompleted 0 tinyQuotedOrder 500 tinyReceipt hdone hsn.symm
  exact ⟨s, o, hs, ho, hdone, hminor⟩

/-- An order has one invoice at most, first stored while the order is unpaid; every page of the
order shows it, and a poll completes the order, at the order's own price, only on the service's
answer that this invoice is paid at this price. -/
theorem one_usdt_invoice (hd : d.Numbered)
    (hjson : ∀ p raw, env.marshal p = some raw → env.unmarshal raw = some p)
    (h : Machine.run (Cashier.step env) (newCashier d now) acts = some s) {id : ℕ} {o : Order}
    (ho : s.db.orders.get? id = some o) :
    (∀ raw, o.usdtPayment = some raw → ∀ later s',
      Machine.run (Cashier.step env) s later = some s' →
      ∃ o', s'.db.orders.get? id = some o' ∧ o'.usdtPayment = some raw) ∧
    (∀ a s' o', s.step env a = some s' → s'.db.orders.get? id = some o' →
      o'.usdtPayment ≠ o.usdtPayment → o.status = .unpaid ∧ o'.status = .unpaid) ∧
    (∀ a s' i o', s.step env a = some s' → s.db.orders.get? i = none →
      s'.db.orders.get? i = some o' → o'.usdtPayment = none) ∧
    (∀ c page, s.tabs c = .usdtPage page → page.order.orderSn = o.orderSn →
      ∃ raw, o.usdtPayment = some raw ∧ env.unmarshal raw = some page.invoice) ∧
    (∀ c read want item, s.Completed c (.usdt read want) item → read.orderSn = o.orderSn →
      (Job.usdt read want).settlement item =
          .complete o.orderSn o.actualPrice ("usdt:".toList ++ item.payer) ∧
        ∃ raw p, o.usdtPayment = some raw ∧ env.unmarshal raw = some want ∧
          s.Told env (.check want.id) (.usdt (.ok p)) ∧
          want.PaidBy env.toUsdtEnv p o.actualPrice) := by
  obtain ⟨-, hs⟩ := (Cashier.new_sound hd now).run h
  -- what a row bears is what is read from it
  have hbears : ∀ {sn p}, s.db.Has (Order.Bears env.toUsdtEnv sn p) → o.orderSn = sn →
      ∃ raw, o.usdtPayment = some raw ∧ env.unmarshal raw = some p := by
    intro sn p hb hsn
    obtain ⟨raw, hraw, hp | hp⟩ := hs.row hb ho hsn
    · exact ⟨raw, hraw, hp⟩
    · exact ⟨raw, hraw, hjson p raw hp⟩
  refine ⟨?_, ?_, ?_, ?_, ?_⟩
  · intro raw hraw later s' hrun
    obtain ⟨hlater, -⟩ := hs.run hrun
    obtain ⟨o', ho', hl⟩ := hlater id o ho
    exact ⟨o', ho', hl.usdt raw hraw⟩
  · intro a s' o' hstep ho' hne
    obtain ⟨⟨op, hm⟩, -⟩ := hs.step hstep
    obtain ⟨o₂, ho₂, hmove⟩ := hm.old id o ho
    rw [ho'] at ho₂
    obtain rfl := Option.some.inj ho₂
    exact hmove.usdt.resolve_left hne
  · intro a s' i o' hstep hnone ho'
    obtain ⟨⟨op, hm⟩, -⟩ := hs.step hstep
    obtain ⟨-, -, -, ⟨-, -, -, -, -, -, husdt⟩, -⟩ := hm.new i o' hnone ho'
    exact husdt
  · intro c page htab hsn
    have hfaithful := hs.tabs c
    rw [htab] at hfaithful
    exact hbears hfaithful hsn.symm
  · intro c read want item hcompleted hsn
    obtain ⟨⟨i, row, hget, hfixed, hborne⟩, haccepts, hreported⟩ := hs.completed hcompleted
    have hprice : o.actualPrice = read.actualPrice :=
      hs.row (P := fun row => row.actualPrice = read.actualPrice)
        ⟨i, row, hget, hfixed.orderSn, hfixed.actualPrice⟩ ho hsn.symm
    obtain ⟨raw, hraw, hp⟩ := hbears ⟨i, row, hget, hborne⟩ hsn.symm
    obtain ⟨e, job, ans, hjob, hans, hk, ⟨i', row', hget', habout⟩, hfetch⟩ := hs.reported hreported
    obtain ⟨read', want', rfl, hsn'⟩ := Job.usdt_of_key hs.numbered ⟨i', row', hget', habout⟩ hk
    obtain ⟨r, rfl, hcheck⟩ := Job.fetch_usdt hfetch
    -- the fetch was started for the same invoice, maybe by another poll
    obtain ⟨raw', hraw', hp'⟩ := hbears ⟨i', row', hget', habout.2⟩ (hsn'.trans hsn).symm
    rw [hraw] at hraw'
    obtain rfl := Option.some.inj hraw'
    rw [hp] at hp'
    obtain rfl := Option.some.inj hp'
    have hprice' : o.actualPrice = read'.actualPrice :=
      hs.row (P := fun row => row.actualPrice = read'.actualPrice)
        ⟨i', row', hget', habout.1.orderSn, habout.1.actualPrice⟩ ho (hsn'.trans hsn).symm
    simp only [Job.accepts, Bool.and_eq_true] at haccepts
    obtain ⟨p, rfl, hpaid⟩ := UsdtInvoice.check_paid hcheck haccepts.1
    refine ⟨?_, raw, p, hraw, hp, ⟨e, _, hjob, rfl, hans⟩, ?_⟩
    · rw [hprice, ← hsn]
      rfl
    · rw [hprice']
      exact hpaid

def tinyInvoicedOrder : Order := { tinyAutoOrder with usdtPayment := some tinyInvoiceText }

def tinyUsdtReceipt : Receipt := ⟨true, 100, 0, tinyPaidInvoice.txId⟩

set_option maxRecDepth 8000 in
/-- Both tabs show the one invoice, and the service's word on it completes the order. -/
theorem one_usdt_invoice_race :
    ∃ s o, Machine.run (Cashier.step tinyCashierEnv) (newCashier (cashierShop .usdt) 0)
        (invoiceRace ++ tinyPoll .usdt (.usdt (.ok tinyPaidInvoice))) = some s ∧
      s.db.orders.get? 1 = some o ∧
      s.Completed 0 (.usdt tinyInvoicedOrder tinyInvoice) tinyUsdtReceipt ∧
      ∃ raw p, o.usdtPayment = some raw ∧
        s.Told tinyCashierEnv (.check tinyInvoice.id) (.usdt (.ok p)) ∧
        tinyInvoice.PaidBy tinyCashierEnv.toUsdtEnv p o.actualPrice := by
  have hstate : ∃ s, Machine.run (Cashier.step tinyCashierEnv) (newCashier (cashierShop .usdt) 0)
      (invoiceRace ++ tinyPoll .usdt (.usdt (.ok tinyPaidInvoice))) = some s ∧
      (s.db.orders.get? 1).map Order.orderSn = some (tinySn 1) ∧
      s.polls 0 = .forgotten (.usdt tinyInvoicedOrder tinyInvoice) tinyUsdtReceipt :=
        ⟨_, rfl, rfl, rfl⟩
  have hjson : ∀ p raw, tinyCashierEnv.marshal p = some raw →
      tinyCashierEnv.unmarshal raw = some p := by
    intro p raw h
    simp only [tinyCashierEnv] at h ⊢
    split_ifs at h with hp
    rw [← Option.some.inj h, if_pos rfl, hp]
  obtain ⟨s, hs, horder, hpoll⟩ := hstate
  obtain ⟨o, ho, hsn⟩ := Option.map_eq_some_iff.mp horder
  have hdone : s.Completed 0 (.usdt tinyInvoicedOrder tinyInvoice) tinyUsdtReceipt := Or.inr hpoll
  obtain ⟨-, -, -, -, hcompleted⟩ := one_usdt_invoice (cashierShop_numbered .usdt) hjson hs ho
  obtain ⟨-, raw, p, hraw, -, htold, hpaid⟩ :=
    hcompleted 0 tinyInvoicedOrder tinyInvoice tinyUsdtReceipt hdone hsn.symm
  exact ⟨s, o, hs, ho, hdone, raw, p, hraw, htold, hpaid⟩

end Runs
end Dufaka
