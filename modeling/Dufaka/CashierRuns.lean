import Dufaka.Cashier

/-!
# Runs of the cashier

The invariant of the cashier: what a page shows and what a poll settles is what the order's row
holds, an invoice transaction that still has to write keeps its row unpaid and without an invoice,
and every shared answer is the remote side's answer to the question its entry was made for.
-/

namespace Dufaka
open Relational Tx

namespace DB
variable {d d' d'' : DB}

def Has (d : DB) (P : Order → Prop) : Prop := ∃ id o, d.orders.get? id = some o ∧ P o

theorem Has.later {P : Order → Prop} (h : d.Has P) (hl : d.Later d')
    (hP : ∀ o o', P o → o.Later o' → P o') : d'.Has P := by
  obtain ⟨id, o, ho, hp⟩ := h
  obtain ⟨o', ho', hlater⟩ := hl id o ho
  exact ⟨id, o', ho', hP o o' hp hlater⟩

end DB

namespace Order
variable {o o' : Order} {sn : Text} {amount exp : ℤ}

def Quoted (sn : Text) (amount exp : ℤ) (o : Order) : Prop :=
  o.orderSn = sn ∧ o.cldxMinor = some amount ∧ o.cldxExpiresAt = some exp

theorem Quoted.later (h : o.Quoted sn amount exp) (hl : o.Later o') : o'.Quoted sn amount exp :=
  ⟨hl.fixed.orderSn.trans h.1, hl.minor amount h.2.1, hl.expires exp h.2.2⟩

/-- The order has this number and bears this invoice, as it is read or as it was written. -/
def Bears (env : UsdtEnv) (sn : Text) (p : UsdtInvoice) (o : Order) : Prop :=
  o.orderSn = sn ∧ ∃ raw, o.usdtPayment = some raw ∧
    (env.unmarshal raw = some p ∨ env.marshal p = some raw)

theorem Bears.later {env : UsdtEnv} {p : UsdtInvoice} (h : o.Bears env sn p) (hl : o.Later o') :
    o'.Bears env sn p := by
  obtain ⟨hsn, raw, hraw, hp⟩ := h
  exact ⟨hl.fixed.orderSn.trans hsn, raw, hl.usdt raw hraw, hp⟩

end Order

/-- The row is that of the job's order, with the amount or the invoice the job wants paid. -/
def Job.About (env : UsdtEnv) : Job → Order → Prop
  | .cldx o want, row => o.Fixed row ∧ row.cldxMinor = some want
  | .usdt o want, row => o.Fixed row ∧ row.Bears env o.orderSn want

theorem Job.About.later {env : UsdtEnv} {job : Job} {row row' : Order} (h : job.About env row)
    (hl : row.Later row') : job.About env row' := by
  cases job with
  | cldx o want => exact ⟨h.1.trans hl.fixed, hl.minor want h.2⟩
  | usdt o want => exact ⟨h.1.trans hl.fixed, h.2.later hl⟩

def Tab.Faithful (env : CashierEnv) (d : DB) : Tab → Prop
  | .locked o amount exp => d.Has (Order.Quoted o.orderSn amount exp)
  | .cldxPage page => ∃ amount exp direct, page = cldxView env page.order amount exp direct ∧
      d.Has (Order.Quoted page.order.orderSn amount exp)
  | .redirected sn link => ∃ amount exp, link = cldxAppLink env sn amount exp ∧
      d.Has (Order.Quoted sn amount exp)
  | .created _ _ _ p raw => env.marshal p = some raw
  | .invoiced o _ p => d.Has (Order.Bears env.toUsdtEnv o.orderSn p)
  | .usdtPage page => d.Has (Order.Bears env.toUsdtEnv page.order.orderSn page.invoice)
  | _ => True

def Tab.held : Tab → Option (ℕ × Order)
  | .creating id o _ => some (id, o)
  | .created id o _ _ _ => some (id, o)
  | _ => none

theorem Tab.Faithful.later {env : CashierEnv} {d d' : DB} {tab : Tab} (h : tab.Faithful env d)
    (hl : d.Later d') : tab.Faithful env d' := by
  cases tab with
  | locked o amount exp => exact DB.Has.later h hl (fun _ _ => Order.Quoted.later)
  | cldxPage page =>
      obtain ⟨amount, exp, direct, hpage, hq⟩ := h
      exact ⟨amount, exp, direct, hpage, hq.later hl (fun _ _ => Order.Quoted.later)⟩
  | redirected sn link =>
      obtain ⟨amount, exp, hlink, hq⟩ := h
      exact ⟨amount, exp, hlink, hq.later hl (fun _ _ => Order.Quoted.later)⟩
  | created id o deadline p raw => exact h
  | invoiced o deadline p => exact DB.Has.later h hl (fun _ _ => Order.Bears.later)
  | usdtPage page => exact DB.Has.later h hl (fun _ _ => Order.Bears.later)
  | _ => trivial

namespace Cashier

/-- What the poll `c` asks about is an order's, and what it settles on was reported. -/
def PollFaithful (env : CashierEnv) (s : Cashier) (c : ℕ) : Poll → Prop
  | .idle => True
  | .order _ o | .channel _ o => s.db.Has o.Fixed
  | .asking job => s.db.Has (job.About env.toUsdtEnv) ∧
      ∀ item fetched, s.receipts.calls c = .returned item fetched none →
      s.receipts.Reported job.key item
  | .paid job item | .settled job item _ | .forgotten job item =>
      s.db.Has (job.About env.toUsdtEnv) ∧ job.accepts item = true ∧
        s.receipts.Reported job.key item

structure Sound (env : CashierEnv) (s : Cashier) : Prop where
  numbered : s.db.Numbered
  tabs : ∀ c, (s.tabs c).Faithful env s.db
  held : ∀ c id o, (s.tabs c).held = some (id, o) → id ∈ s.locks ∧ ∃ row,
    s.db.orders.get? id = some row ∧ row.orderSn = o.orderSn ∧ row.deleted = false ∧
      row.status = .unpaid ∧ row.usdtPayment = none
  apart : ∀ c c' id o o', (s.tabs c).held = some (id, o) → (s.tabs c').held = some (id, o') → c = c'
  filed : s.receipts.Filed
  asked : ∀ e key, (s.receipts.leads e).key = some key →
    ∃ job, s.jobs e = some job ∧ job.key = key ∧ s.db.Has (job.About env.toUsdtEnv)
  told : ∀ e r, (s.receipts.leads e).outcome = some r →
    ∃ job ans, s.jobs e = some job ∧ s.answers e = some ans ∧ job.fetch env ans = some r
  called : ∀ c key, (s.receipts.calls c).key = some key →
    ∃ job, s.polls c = .asking job ∧ job.key = key
  polls : ∀ c, s.PollFaithful env c (s.polls c)

end Cashier

/-! ### The rows of orders -/

section Rows
variable {env : CashierEnv} {d d' : DB} {id : ℕ} {o row : Order} {sn raw : Text}

theorem DB.expireOne_ordersMoved (d : DB) (id coupon : ℕ) (ids : ℕ → ℕ) :
    d.OrdersMoved (.expireDue 0 0) ((expireOne id coupon).exec ids d).1 := by
  rcases expireOne_exec d id coupon ids with h | ⟨o, hget, hu, h⟩
  · rw [h]
    exact .of_eq rfl
  · rw [h]
    exact .of_modify Order.expire hget rfl (.expired hu)

theorem DB.answer_ordersMoved (env : Env) (r : Request) (ids : ℕ → ℕ) (d : DB) :
    d.OrdersMoved (.request r ids) (r.answer env ids d).1 :=
  d.apply_ordersMoved env (.request r ids)

/-- The commit of an invoice transaction. -/
theorem DB.storeInvoice_ordersMoved (ho : d.orders.get? id = some row) (hu : row.status = .unpaid)
    (hnone : row.usdtPayment = none) :
    d.OrdersMoved (.request (.lockUSDTInvoice row.orderSn true (some raw)) (fun n => n))
      (d.storeInvoice id raw) := by
  refine .of_modify (fun o => { o with usdtPayment := some raw }) ho rfl ?_
  exact .priced hu .refl .refl (hnone ▸ .none)

theorem DB.liveOrder_some {found : ℕ × Order} (h : d.liveOrder sn = some found) :
    d.orders.get? found.1 = some found.2 ∧ found.2.orderSn = sn ∧ found.2.deleted = false := by
  obtain ⟨hget, hp⟩ := Table.find?_some h
  simp only [Bool.and_eq_true, decide_eq_true_eq, Bool.not_eq_true'] at hp
  exact ⟨hget, hp⟩

theorem DB.liveOrder_eq (hu : d.UniqueSn) (hget : d.orders.get? id = some row)
    (hsn : row.orderSn = sn) (hlive : row.deleted = false) :
    d.liveOrder sn = some (id, row) := by
  refine Table.find?_eq_some_of_unique hget (by simp [hsn, hlive]) ?_
  intro j o' ho' hp
  simp only [Bool.and_eq_true, decide_eq_true_eq] at hp
  exact hu j id o' row ho' hget (hp.1.trans hsn.symm)

theorem DB.orderBySNChecked_has (h : (d.orderBySNChecked .all sn).toOption = some (id, o)) :
    d.Has o.Fixed := by
  cases hread : d.orderBySNChecked .all sn with
  | error err =>
      rw [hread] at h
      cases h
  | ok found =>
      rw [hread] at h
      obtain rfl := Option.some.inj h
      have hget := (orderBySN_ok (orderBySNChecked_ok hread)).1
      exact ⟨id, o, hget, .refl o⟩

open Script in
/-- Run without a pause, the transaction of an invoice stores what the service has created. -/
theorem DB.lockUSDTInvoice_answer {env : Env} {ids : ℕ → ℕ}
    (hlive : d.liveOrder sn = some (id, row)) (hu : row.status = .unpaid)
    (hnone : row.usdtPayment = none) :
    (Request.lockUSDTInvoice sn true (some raw)).answer env ids d =
      (d.storeInvoice id raw, some (.invoice raw)) := by
  have hget : d.orders.get? id = some row ∧ row.orderSn = sn ∧ row.deleted = false :=
    DB.liveOrder_some hlive
  have hrow : (d.orders.get? id).filter (fun o => o.orderSn = sn && !o.deleted) = some row := by
    rw [hget.1, Option.filter_some, if_pos (by simp [hget.2.1, hget.2.2])]
  have hpayable : (decide (row.status = .unpaid) && true) = true := by simp [hu]
  refine exec_of_commits ?_
  simp only [Request.script, lockUSDTInvoice, commits_bind, commits_read, commits_orElse,
    commits_lockRow (.order _), commits_require, false_or, returns_read, returns_orElse,
    returns_lockRow (.order _), returns_require]
  refine ⟨_, _, _, ⟨rfl, rfl, rfl⟩, (id, row), _, _, ⟨hlive, rfl, rfl⟩, _, _, _, ⟨hrow, rfl, rfl⟩,
    row, _, _, ⟨rfl, rfl, rfl⟩, (), _, _, ⟨hpayable, rfl, rfl⟩, ?_⟩
  rw [hnone]
  simp only [commits_bind, commits_orElse, commits_change, commits_commit, false_or, returns_orElse,
    returns_change]
  exact ⟨raw, _, _, ⟨rfl, rfl, rfl⟩, (), _, _, ⟨rfl, rfl⟩, rfl, DB.changeRow_order _ _ _⟩

/-- The job a poll makes of its reads is about the order it has read. -/
theorem DB.job_about (hu : d.UniqueSn) (ho : d.Has o.Fixed) {ch : Channel} {job : Job}
    (h : d.job env o ch = some job) : d.Has (job.About env.toUsdtEnv) := by
  obtain ⟨id, row, hget, hfixed⟩ := ho
  cases ch with
  | cldx =>
      obtain ⟨want, hminor, hjob⟩ := Option.bind_eq_some_iff.mp h
      split_ifs at hjob with hwant
      obtain rfl := Option.some.inj hjob
      obtain ⟨found, hfound, hvalue⟩ := Option.map_eq_some_iff.mp hminor
      obtain ⟨hget', hsn⟩ := DB.orderBySn_some (i := found.1) (o := found.2) hfound
      have hid : id = found.1 :=
        hu id found.1 row found.2 hget hget' (hfixed.orderSn.trans hsn.symm)
      rw [hid, hget'] at hget
      obtain rfl := Option.some.inj hget
      refine ⟨found.1, found.2, hget', hfixed, ?_⟩
      cases hcolumn : found.2.cldxMinor with
      | none =>
          rw [hcolumn] at hvalue
          exact absurd hvalue.symm.le hwant
      | some minor =>
          rw [hcolumn] at hvalue
          rw [← hvalue]
          rfl
  | usdt =>
      obtain ⟨want, hinvoice, hjob⟩ := Option.bind_eq_some_iff.mp h
      split_ifs at hjob with hprefix
      obtain rfl := Option.some.inj hjob
      obtain ⟨found, hfound, hraw⟩ := Option.bind_eq_some_iff.mp hinvoice
      obtain ⟨raw, hraw, hp⟩ := Option.bind_eq_some_iff.mp hraw
      obtain ⟨hget', hsn, -⟩ := DB.liveOrder_some hfound
      have hid : id = found.1 :=
        hu id found.1 row found.2 hget hget' (hfixed.orderSn.trans hsn.symm)
      rw [hid, hget'] at hget
      obtain rfl := Option.some.inj hget
      exact ⟨found.1, found.2, hget', hfixed, hsn, raw, hraw, Or.inl hp⟩

open Script in
theorem lockCldxQuote_ends {minor expires : ℤ} :
    (lockCldxQuote sn minor expires).ends (fun commit r => commit = true ∨ r = .internal) := by
  unfold lockCldxQuote
  refine ends_bind ends_read (fun found => ?_)
  refine ends_bind (ends_orElse (Or.inr rfl)) (fun found => ?_)
  refine ends_bind ends_update (fun row => ?_)
  refine ends_bind (ends_orElse (Or.inr rfl)) (fun o => ?_)
  exact Or.inl rfl

/-- What `LockCldxQuote` answers is what the row holds from then on. -/
theorem DB.lockCldxQuote_quoted {env : Env} {amount expires minor exp : ℤ} {ids : ℕ → ℕ}
    (h : ((Request.lockCldxQuote sn amount expires).answer env ids d).2 = some (.quote minor exp)) :
    ((Request.lockCldxQuote sn amount expires).answer env ids d).1.Has
      (Order.Quoted sn minor exp) := by
  have hexec : (lockCldxQuote sn amount expires).exec ids d =
      (((Request.lockCldxQuote sn amount expires).answer env ids d).1, some (.quote minor exp)) :=
    Prod.ext rfl h
  have hcommits := commits_of_answer lockCldxQuote_ends hexec (by simp)
  obtain ⟨id, o, hget, ⟨hsn, hu, hr⟩, hd⟩ := lockCldxQuote_commits hcommits
  obtain ⟨rfl, rfl⟩ := Reply.quote.inj hr
  rw [hd]
  refine ⟨id, o.quote amount expires, ?_, hsn, rfl, rfl⟩
  rw [Table.get?_modify_self, hget, Option.map_some]

end Rows
/-! ### The invariant of a run -/

namespace Cashier
variable {env : CashierEnv} {s s' : Cashier} {a : CashierAct} {c : ℕ}

theorem PollFaithful.later {p : Poll} (h : s.PollFaithful env c p) (hdb : s.db.Later s'.db)
    (hrep : ∀ key item, s.receipts.Reported key item → s'.receipts.Reported key item)
    (hans : ∀ item fetched, s'.receipts.calls c = .returned item fetched none →
      s.receipts.calls c = .returned item fetched none ∨
        ∀ job, p = .asking job → s'.receipts.Reported job.key item) :
    s'.PollFaithful env c p := by
  have habout : ∀ {job : Job}, s.db.Has (job.About env.toUsdtEnv) →
      s'.db.Has (job.About env.toUsdtEnv) := fun hj => hj.later hdb (fun _ _ => Job.About.later)
  cases p with
  | idle => trivial
  | order ch o | channel ch o => exact DB.Has.later h hdb (fun _ _ hf hl => hf.trans hl.fixed)
  | asking job =>
      refine ⟨habout h.1, fun item fetched hcall => ?_⟩
      rcases hans item fetched hcall with hold | hnew
      · exact hrep _ _ (h.2 item fetched hold)
      · exact hnew job rfl
  | paid job item | settled job item forgets | forgotten job item =>
      exact ⟨habout h.1, h.2.1, hrep _ _ h.2.2⟩

/-- A commit that leaves the rows of the invoice transactions alone. -/
theorem Sound.withDb (h : s.Sound env) {op : Op} {d : DB} (hm : s.db.OrdersMoved op d)
    (hrows : ∀ c i o, (s.tabs c).held = some (i, o) → d.orders.get? i = s.db.orders.get? i) :
    Sound env { s with db := d } where
  numbered := hm.numbered h.numbered
  tabs c := (h.tabs c).later hm.later
  held c i o hheld := by
    obtain ⟨hlock, row, hget, hrow⟩ := h.held c i o hheld
    exact ⟨hlock, row, (hrows c i o hheld).trans hget, hrow⟩
  apart := h.apart
  filed := h.filed
  asked e key hkey := by
    obtain ⟨job, hjob, hk, habout⟩ := h.asked e key hkey
    exact ⟨job, hjob, hk, habout.later hm.later (fun _ _ => Job.About.later)⟩
  told := h.told
  called := h.called
  polls c := (h.polls c).later hm.later (fun _ _ hr => hr) (fun _ _ hcall => Or.inl hcall)

theorem Sound.write (h : s.Sound env) {op : Op} {d : DB} (hm : s.db.OrdersMoved op d)
    (hw : s.write d = some s') : s' = { s with db := d } ∧ s'.Sound env := by
  unfold Cashier.write at hw
  split_ifs at hw with hfree
  obtain rfl := Option.some.inj hw
  refine ⟨rfl, h.withDb hm (fun c i o hheld => ?_)⟩
  exact hfree i (h.held c i o hheld).1

theorem Sound.setTab (h : s.Sound env) {tab : Tab} (hf : tab.Faithful env s.db)
    (hheld : ∀ i o, tab.held = some (i, o) → (s.tabs c).held = some (i, o)) :
    (s.setTab c tab).Sound env := by
  have hold : ∀ c' i o, ((s.setTab c tab).tabs c').held = some (i, o) →
      (s.tabs c').held = some (i, o) := by
    intro c' i o hh
    change (Function.update s.tabs c tab c').held = _ at hh
    by_cases hc : c' = c
    · rw [hc, Function.update_self] at hh
      rw [hc]
      exact hheld i o hh
    · rwa [Function.update_of_ne hc] at hh
  constructor
  · exact h.numbered
  · intro c'
    change (Function.update s.tabs c tab c').Faithful env s.db
    by_cases hc : c' = c
    · rwa [hc, Function.update_self]
    · rw [Function.update_of_ne hc]
      exact h.tabs c'
  · intro c' i o hh
    exact h.held c' i o (hold c' i o hh)
  · intro c₁ c₂ i o o' h₁ h₂
    exact h.apart c₁ c₂ i o o' (hold c₁ i o h₁) (hold c₂ i o' h₂)
  · exact h.filed
  · exact h.asked
  · exact h.told
  · exact h.called
  · exact h.polls

theorem Sound.setPoll (h : s.Sound env) {p : Poll} (hp : s.PollFaithful env c p)
    (hkey : ∀ key, (s.receipts.calls c).key = some key → ∃ job, p = .asking job ∧ job.key = key) :
    (s.setPoll c p).Sound env := by
  constructor
  · exact h.numbered
  · exact h.tabs
  · exact h.held
  · exact h.apart
  · exact h.filed
  · exact h.asked
  · exact h.told
  · intro c' key hcall
    change ∃ job, Function.update s.polls c p c' = .asking job ∧ job.key = key
    by_cases hc : c' = c
    · rw [hc, Function.update_self]
      exact hkey key (hc ▸ hcall)
    · rw [Function.update_of_ne hc]
      exact h.called c' key hcall
  · intro c'
    change s.PollFaithful env c' (Function.update s.polls c p c')
    by_cases hc : c' = c
    · rwa [hc, Function.update_self]
    · rw [Function.update_of_ne hc]
      exact h.polls c'

/-- An invoice transaction takes a row that no other one holds. -/
theorem Sound.hold (h : s.Sound env) {i : ℕ} {o row : Order} {deadline : ℤ} (hfree : i ∉ s.locks)
    (hget : s.db.orders.get? i = some row) (hsn : row.orderSn = o.orderSn)
    (hlive : row.deleted = false) (hu : row.status = .unpaid) (hnone : row.usdtPayment = none) :
    Sound env { s.setTab c (.creating i o deadline) with locks := i :: s.locks } := by
  have hold : ∀ c' j o', (Function.update s.tabs c (.creating i o deadline) c').held = some (j,
      o') → c' = c ∧ j = i ∧ o' = o ∨ c' ≠ c ∧ j ≠ i ∧ (s.tabs c').held = some (j, o') := by
    intro c' j o' hh
    by_cases hc : c' = c
    · rw [hc, Function.update_self] at hh
      obtain ⟨rfl, rfl⟩ := Prod.mk.inj (Option.some.inj hh)
      exact Or.inl ⟨hc, rfl, rfl⟩
    · rw [Function.update_of_ne hc] at hh
      refine Or.inr ⟨hc, ?_, hh⟩
      rintro rfl
      exact hfree (h.held c' j o' hh).1
  constructor
  · exact h.numbered
  · intro c'
    change (Function.update s.tabs c (.creating i o deadline) c').Faithful env s.db
    by_cases hc : c' = c
    · rw [hc, Function.update_self]
      trivial
    · rw [Function.update_of_ne hc]
      exact h.tabs c'
  · intro c' j o' hh
    rcases hold c' j o' hh with ⟨-, rfl, rfl⟩ | ⟨-, -, hh⟩
    · exact ⟨List.mem_cons_self, row, hget, hsn, hlive, hu, hnone⟩
    · obtain ⟨hlock, hrow⟩ := h.held c' j o' hh
      exact ⟨List.mem_cons_of_mem _ hlock, hrow⟩
  · intro c₁ c₂ j o₁ o₂ h₁ h₂
    rcases hold c₁ j o₁ h₁ with ⟨rfl, hj, -⟩ | ⟨-, hj, h₁⟩
    · rcases hold c₂ j o₂ h₂ with ⟨rfl, -⟩ | ⟨-, hne, -⟩
      · rfl
      · exact absurd hj hne
    · rcases hold c₂ j o₂ h₂ with ⟨-, hi, -⟩ | ⟨-, -, h₂⟩
      · exact absurd hi hj
      · exact h.apart c₁ c₂ j o₁ o₂ h₁ h₂
  · exact h.filed
  · exact h.asked
  · exact h.told
  · exact h.called
  · exact h.polls

theorem Sound.release (h : s.Sound env) {i : ℕ} {o : Order}
    (hheld : (s.tabs c).held = some (i, o)) :
    (s.release c i .rolledBack).Sound env := by
  have hold : ∀ c' j o', (Function.update s.tabs c .rolledBack c').held = some (j, o') →
      j ≠ i ∧ (s.tabs c').held = some (j, o') := by
    intro c' j o' hh
    by_cases hc : c' = c
    · rw [hc, Function.update_self] at hh
      cases hh
    · rw [Function.update_of_ne hc] at hh
      refine ⟨?_, hh⟩
      rintro rfl
      exact hc (h.apart c' c j o' o hh hheld)
  constructor
  · exact h.numbered
  · intro c'
    change (Function.update s.tabs c .rolledBack c').Faithful env s.db
    by_cases hc : c' = c
    · rw [hc, Function.update_self]
      trivial
    · rw [Function.update_of_ne hc]
      exact h.tabs c'
  · intro c' j o' hh
    obtain ⟨hne, hh⟩ := hold c' j o' hh
    obtain ⟨hlock, hrow⟩ := h.held c' j o' hh
    exact ⟨(List.mem_erase_of_ne hne).mpr hlock, hrow⟩
  · intro c₁ c₂ j o₁ o₂ h₁ h₂
    exact h.apart c₁ c₂ j o₁ o₂ (hold c₁ j o₁ h₁).2 (hold c₂ j o₂ h₂).2
  · exact h.filed
  · exact h.asked
  · exact h.told
  · exact h.called
  · exact h.polls

/-- A step of the throttle, with the jobs and answers that go with it. -/
theorem Sound.throttle (h : s.Sound env) {ra : ReceiptAct} {t : ReceiptThrottle}
    {jobs : ℕ → Option Job} {answers : ℕ → Option RemoteAnswer}
    (hstep : s.receipts.step ra = some t)
    (hget : ∀ c sn, ra = .get c sn → ∃ job, s.polls c = .asking job ∧ job.key = sn)
    (hasked : ∀ e key, (t.leads e).key = some key →
      ∃ job, jobs e = some job ∧ job.key = key ∧ s.db.Has (job.About env.toUsdtEnv))
    (htold : ∀ e r, (t.leads e).outcome = some r →
      ∃ job ans, jobs e = some job ∧ answers e = some ans ∧ job.fetch env ans = some r) :
    Sound env { s with receipts := t, jobs := jobs, answers := answers } where
  numbered := h.numbered
  tabs := h.tabs
  held := h.held
  apart := h.apart
  filed := h.filed.step hstep
  asked := hasked
  told := htold
  called c key hkey := by
    rcases ReceiptThrottle.step_call_key hstep hkey with hold | rfl
    · exact h.called c key hold
    · exact hget c key rfl
  polls c := by
    refine (h.polls c).later (.refl _) (fun _ _ hr => hr.step h.filed hstep) ?_
    intro item fetched hcall
    rcases ReceiptThrottle.step_answer h.filed hstep hcall with hold | ⟨sn, e, hkey, he⟩
    · exact Or.inl hold
    · refine Or.inr (fun job hjob => ?_)
      obtain ⟨job', hjob', rfl⟩ := h.called c sn hkey
      rw [hjob] at hjob'
      obtain rfl := Poll.asking.inj hjob'
      exact ⟨e, ReceiptThrottle.step_finished h.filed hstep he⟩

/-- A step of the throttle that neither starts nor ends a fetch. -/
theorem Sound.throttle_quiet (h : s.Sound env) {ra : ReceiptAct} {t : ReceiptThrottle}
    (hstep : s.receipts.step ra = some t)
    (hget : ∀ c sn, ra = .get c sn → ∃ job, s.polls c = .asking job ∧ job.key = sn)
    (hlook : ∀ c, ra ≠ .look c) (hfetched : ∀ e r, ra ≠ .fetched e r) :
    Sound env { s with receipts := t } := by
  refine h.throttle hstep hget (fun e key hkey => ?_) (fun e r he => ?_)
  · rcases ReceiptThrottle.step_lead_new hstep hkey with ⟨hold, -⟩ | ⟨c, hact, -⟩
    · exact h.asked e key hold
    · exact absurd hact (hlook c)
  · rcases ReceiptThrottle.step_outcome hstep he with hold | hact
    · exact h.told e r hold
    · exact absurd hact (hfetched e r)

theorem Sound.receipts (h : s.Sound env) {ra : ReceiptAct} {t : ReceiptThrottle}
    (hra : ra.internal = true) (hstep : s.receipts.step ra = some t) :
    Sound env { s with receipts := t, jobs := s.started ra t } := by
  have hborn : ∀ e key, (s.receipts.leads e).key = some key → e ≠ s.receipts.next := by
    rintro e key hkey rfl
    rw [h.filed.unborn _ le_rfl] at hkey
    cases hkey
  have hstarted : ∀ e key, (s.receipts.leads e).key = some key → s.started ra t e = s.jobs e := by
    intro e key hkey
    rw [started]
    split
    · rfl
    · exact Function.update_of_ne (hborn e key hkey) ..
  refine h.throttle hstep ?_ (fun e key hkey => ?_) (fun e r he => ?_)
  · rintro c sn rfl
    cases hra
  · rcases ReceiptThrottle.step_lead_new hstep hkey with ⟨hold, -⟩ | ⟨c, rfl, hcall, rfl, hnext⟩
    · rw [hstarted e key hold]
      exact h.asked e key hold
    · -- the fetch that starts is that of the poll whose call has looked
      obtain ⟨job, hpoll, hk⟩ := h.called c key (by rw [hcall, GetCall.key])
      have hne : t.next ≠ s.receipts.next := by omega
      refine ⟨job, ?_, hk, ?_⟩
      · rw [started, if_neg hne, Function.update_self, jobOf, hpoll]
      · have hfaithful := h.polls c
        rw [hpoll] at hfaithful
        exact hfaithful.1
  · rcases ReceiptThrottle.step_outcome hstep he with hold | rfl
    · have hkey : ∃ key, (s.receipts.leads e).key = some key := by
        cases hlead : s.receipts.leads e with
        | unborn | fetching sn =>
            rw [hlead] at hold
            cases hold
        | ended sn r' | finished sn r' => exact ⟨sn, rfl⟩
      obtain ⟨key, hkey⟩ := hkey
      rw [hstarted e key hkey]
      exact h.told e r hold
    · cases hra

theorem Sound.answer (h : s.Sound env) {e : ℕ} {ans : RemoteAnswer} {job : Job} {r : FetchEnd}
    {t : ReceiptThrottle} (hjob : s.jobs e = some job) (hr : job.fetch env ans = some r)
    (hstep : s.receipts.step (.fetched e r) = some t) :
    Sound env { s with receipts := t, answers := Function.update s.answers e (some ans) } := by
  have hfetching : (s.receipts.leads e).outcome = none := by
    simp only [ReceiptThrottle.step] at hstep
    split at hstep
    case h_1 sn hlead => rw [hlead, Lead.outcome]
    case h_2 => cases hstep
  refine h.throttle hstep ?_ (fun e' key hkey => ?_) (fun e' r' he => ?_)
  · rintro c sn hact
    cases hact
  · rcases ReceiptThrottle.step_lead_new hstep hkey with ⟨hold, -⟩ | ⟨c, hact, -⟩
    · exact h.asked e' key hold
    · cases hact
  · rcases ReceiptThrottle.step_outcome hstep he with hold | hact
    · have hne : e' ≠ e := by
        rintro rfl
        rw [hfetching] at hold
        cases hold
      rw [Function.update_of_ne hne]
      exact h.told e' r' hold
    · obtain ⟨rfl, rfl⟩ := ReceiptAct.fetched.inj hact
      exact ⟨job, ans, hjob, Function.update_self .., hr⟩

/-- What a page's reads lead to is what the rows hold. -/
theorem Sound.read (h : s.Sound env) {ta : TabAct} {tab : Tab}
    (hread : (s.tabs c).read env s.db s.receipts.now ta = some tab) :
    tab.Faithful env s.db ∧ tab.held = none := by
  have hfaithful := h.tabs c
  generalize s.tabs c = old at hread hfaithful
  unfold Tab.read at hread
  split at hread
  case h_1 sn expireMin =>
    obtain ⟨found, -, hread⟩ := Option.bind_eq_some_iff.mp hread
    split_ifs at hread
    obtain rfl := Option.some.inj hread
    exact ⟨trivial, rfl⟩
  case h_2 o expireMin =>
    obtain ⟨p, -, hread⟩ := Option.bind_eq_some_iff.mp hread
    split_ifs at hread
    all_goals
      obtain rfl := Option.some.inj hread
      exact ⟨trivial, rfl⟩
  case h_3 o ttl =>
    obtain ⟨amount, -, hread⟩ := Option.bind_eq_some_iff.mp hread
    split_ifs at hread
    all_goals
      obtain rfl := Option.some.inj hread
      exact ⟨trivial, rfl⟩
  case h_4 o ttl amount =>
    split_ifs at hread
    obtain rfl := Option.some.inj hread
    exact ⟨trivial, rfl⟩
  case h_5 o amount exp direct =>
    split_ifs at hread
    obtain rfl := Option.some.inj hread
    exact ⟨⟨amount, exp, direct, rfl, hfaithful⟩, rfl⟩
  case h_6 sn =>
    split_ifs at hread
    obtain ⟨found, -, hread⟩ := Option.bind_eq_some_iff.mp hread
    split_ifs at hread
    obtain rfl := Option.some.inj hread
    exact ⟨trivial, rfl⟩
  case h_7 o =>
    obtain ⟨p, -, hread⟩ := Option.bind_eq_some_iff.mp hread
    split_ifs at hread
    obtain rfl := Option.some.inj hread
    exact ⟨trivial, rfl⟩
  case h_8 o =>
    obtain ⟨quote, hquote, hread⟩ := Option.bind_eq_some_iff.mp hread
    split_ifs at hread with hlive
    obtain rfl := Option.some.inj hread
    push Not at hlive
    obtain ⟨found, hfound, rfl⟩ := Option.map_eq_some_iff.mp hquote
    obtain ⟨hget, hsn, -⟩ := DB.liveOrder_some hfound
    -- a positive amount and expiry are those of the columns
    have hcolumn : ∀ {v : Option ℤ}, 0 < v.getD 0 → v = some (v.getD 0) := by
      intro v hv
      cases v with
      | none => simp at hv
      | some n => rfl
    refine ⟨⟨_, _, rfl, found.1, found.2, hget, hsn, hcolumn hlive.1, hcolumn hlive.2.1⟩, rfl⟩
  case h_9 o deadline p direct =>
    split_ifs at hread
    obtain rfl := Option.some.inj hread
    exact ⟨hfaithful, rfl⟩
  case h_10 => cases hread

theorem Sound.lockQuote (h : s.Sound env) {ids : ℕ → ℕ}
    (hstep : s.step env (.lockQuote c ids) = some s') :
    (∃ op, s.db.OrdersMoved op s'.db) ∧ s'.Sound env := by
  simp only [Cashier.step] at hstep
  split at hstep
  case h_2 => cases hstep
  case h_1 o ttl amount htab =>
    split at hstep
    case h_2 => cases hstep
    case h_1 minor exp hreply =>
      obtain ⟨s₁, hw, rfl⟩ := Option.map_eq_some_iff.mp hstep
      have hm := s.db.answer_ordersMoved env.toEnv
        (.lockCldxQuote o.orderSn amount (unix (o.createdAt + ttl))) ids
      obtain ⟨rfl, hs⟩ := h.write hm hw
      refine ⟨⟨_, hm⟩, hs.setTab (DB.lockCldxQuote_quoted hreply) ?_⟩
      intro i o' hheld
      cases hheld

theorem Sound.lockInvoice (h : s.Sound env) (hstep : s.step env (.lockInvoice c) = some s') :
    (∃ op, s.db.OrdersMoved op s'.db) ∧ s'.Sound env := by
  simp only [Cashier.step] at hstep
  split at hstep
  case h_2 => cases hstep
  case h_1 o deadline htab =>
    obtain ⟨found, hfound, hstep⟩ := Option.bind_eq_some_iff.mp hstep
    obtain ⟨hget, hsn, hlive⟩ := DB.liveOrder_some hfound
    split_ifs at hstep with hstop
    push Not at hstop
    split at hstep
    case h_1 raw hraw =>
      obtain ⟨p, hp, rfl⟩ := Option.map_eq_some_iff.mp hstep
      refine ⟨⟨.tick 0, .of_eq rfl⟩, h.setTab ?_ ?_⟩
      · exact ⟨found.1, found.2, hget, hsn, raw, hraw, Or.inl hp⟩
      · intro i o' hheld
        cases hheld
    case h_2 hnone =>
      obtain rfl := Option.some.inj hstep
      exact ⟨⟨.tick 0, .of_eq rfl⟩, h.hold hstop.1 hget hsn hlive hstop.2.1 hnone⟩

theorem Sound.create (h : s.Sound env) {nonce : Fin 8 → Fin 256} {answer : UsdtAnswer}
    (hstep : s.step env (.create c nonce answer) = some s') :
    (∃ op, s.db.OrdersMoved op s'.db) ∧ s'.Sound env := by
  simp only [Cashier.step] at hstep
  split at hstep
  case h_2 => cases hstep
  case h_1 id o deadline htab =>
    obtain ⟨p, -, hstep⟩ := Option.bind_eq_some_iff.mp hstep
    obtain ⟨raw, hraw, hstep⟩ := Option.bind_eq_some_iff.mp hstep
    obtain rfl := Option.some.inj hstep
    refine ⟨⟨.tick 0, .of_eq rfl⟩, h.setTab hraw ?_⟩
    intro i o' hheld
    rw [htab]
    exact hheld

/-- The commit of an invoice transaction: the row it held bears the invoice, and the page goes on
with it. -/
theorem Sound.commit (h : s.Sound env) (hstep : s.step env (.commit c) = some s') :
    (∃ op, s.db.OrdersMoved op s'.db) ∧ s'.Sound env := by
  simp only [Cashier.step] at hstep
  split at hstep
  case h_2 => cases hstep
  case h_1 id o deadline p raw htab =>
    obtain rfl := Option.some.inj hstep
    have hheld : (s.tabs c).held = some (id, o) := by rw [htab, Tab.held]
    have hp : env.marshal p = some raw := by
      have hfaithful := h.tabs c
      rwa [htab] at hfaithful
    obtain ⟨-, row, hget, hsn, -, hu, hnone⟩ := h.held c id o hheld
    have hm : s.db.OrdersMoved
        (.request (.lockUSDTInvoice row.orderSn true (some raw)) (fun n => n))
        (s.db.storeInvoice id raw) := DB.storeInvoice_ordersMoved hget hu hnone
    have hreleased := h.release hheld
    have hstored : Sound env
        { s.release c id .rolledBack with db := s.db.storeInvoice id raw } := by
      refine hreleased.withDb hm (fun c' i o' hh => ?_)
      have hne : i ≠ id := by
        rintro rfl
        change (Function.update s.tabs c .rolledBack c').held = some (i, o') at hh
        by_cases hc : c' = c
        · rw [hc, Function.update_self] at hh
          cases hh
        · rw [Function.update_of_ne hc] at hh
          exact hc (h.apart c' c i o' o hh hheld)
      exact Table.get?_modify_of_ne _ _ hne
    have hbears : (s.db.storeInvoice id raw).Has (Order.Bears env.toUsdtEnv o.orderSn p) := by
      refine ⟨id, { row with usdtPayment := some raw }, ?_, hsn, raw, rfl, Or.inr hp⟩
      change (s.db.orders.modify id _).get? id = _
      rw [Table.get?_modify_self, hget, Option.map_some]
    refine ⟨⟨_, hm⟩, ?_⟩
    have hdone : ({ s.release c id .rolledBack with db := s.db.storeInvoice id raw }.setTab c
        (.invoiced o deadline p)).Sound env := hstored.setTab hbears (fun _ _ hh => nomatch hh)
    have htabs : Function.update (Function.update s.tabs c .rolledBack) c (.invoiced o deadline p) =
        Function.update s.tabs c (.invoiced o deadline p) := Function.update_idem ..
    unfold Cashier.setTab Cashier.release Cashier.setTab at hdone
    rw [htabs] at hdone
    exact hdone

/-- The steps of an invoice transaction come to the transaction run without a pause when it
commits. -/
theorem Sound.commit_answer (h : s.Sound env) {id : ℕ} {o : Order} {deadline : ℤ} {p : UsdtInvoice}
    {raw : Text} (htab : s.tabs c = .created id o deadline p raw)
    (hstep : s.step env (.commit c) = some s') (ids : ℕ → ℕ) :
    (Request.lockUSDTInvoice o.orderSn true (some raw)).answer env.toEnv ids s.db =
      (s'.db, some (.invoice raw)) := by
  have hheld : (s.tabs c).held = some (id, o) := by rw [htab, Tab.held]
  obtain ⟨-, row, hget, hsn, hkept, hu, hnone⟩ := h.held c id o hheld
  have hlive : s.db.liveOrder o.orderSn = some (id, row) :=
    DB.liveOrder_eq h.numbered.unique hget hsn hkept
  simp only [Cashier.step, htab] at hstep
  obtain rfl := Option.some.inj hstep
  exact DB.lockUSDTInvoice_answer hlive hu hnone

theorem Sound.rollback (h : s.Sound env) (hstep : s.step env (.rollback c) = some s') :
    (∃ op, s.db.OrdersMoved op s'.db) ∧ s'.Sound env := by
  simp only [Cashier.step] at hstep
  split at hstep
  case h_3 => cases hstep
  all_goals
    rename_i htab
    obtain rfl := Option.some.inj hstep
    exact ⟨⟨.tick 0, .of_eq rfl⟩, h.release (by rw [htab, Tab.held])⟩

/-- A poll that has not asked yet, or has its answer, holds no call of `get`. -/
theorem Sound.no_call (h : s.Sound env) (hpoll : ∀ job, s.polls c ≠ .asking job) {p : Poll}
    (key : Text) (hkey : (s.receipts.calls c).key = some key) :
    ∃ job, p = .asking job ∧ job.key = key := by
  obtain ⟨job, hjob, -⟩ := h.called c key hkey
  exact absurd hjob (hpoll job)

theorem Sound.ask (h : s.Sound env) (hstep : s.step env (.ask c) = some s') :
    (∃ op, s.db.OrdersMoved op s'.db) ∧ s'.Sound env := by
  simp only [Cashier.step] at hstep
  split at hstep
  case h_2 => cases hstep
  case h_1 ch o hpoll =>
    obtain ⟨job, hjob, hstep⟩ := Option.bind_eq_some_iff.mp hstep
    obtain ⟨t, hget, hstep⟩ := Option.bind_eq_some_iff.mp hstep
    obtain rfl := Option.some.inj hstep
    have horder : s.db.Has o.Fixed := by
      have hfaithful := h.polls c
      rwa [hpoll] at hfaithful
    have hidle : s.receipts.calls c = .idle := by
      simp only [ReceiptThrottle.step] at hget
      split at hget
      case h_1 hidle => exact hidle
      case h_2 => cases hget
    have hasking : (s.setPoll c (.asking job)).Sound env := by
      refine h.setPoll ⟨DB.job_about h.numbered.unique horder hjob, fun item fetched hcall => ?_⟩
        (fun key hkey => ?_)
      · rw [hidle] at hcall
        cases hcall
      · rw [hidle] at hkey
        cases hkey
    refine ⟨⟨.tick 0, .of_eq rfl⟩, hasking.throttle_quiet hget ?_ ?_ ?_⟩
    · intro c' sn hact
      obtain ⟨rfl, rfl⟩ := ReceiptAct.get.inj hact
      exact ⟨job, Function.update_self .., rfl⟩
    · intro _ hact
      cases hact
    · intro _ _ hact
      cases hact

theorem Sound.judge (h : s.Sound env) (hstep : s.step env (.judge c) = some s') :
    (∃ op, s.db.OrdersMoved op s'.db) ∧ s'.Sound env := by
  simp only [Cashier.step] at hstep
  split at hstep
  case h_2 => cases hstep
  case h_1 job item fetched hpoll hcall =>
    split_ifs at hstep with haccepts
    obtain rfl := Option.some.inj hstep
    have hfaithful := h.polls c
    rw [hpoll] at hfaithful
    refine ⟨⟨.tick 0, .of_eq rfl⟩,
      h.setPoll ⟨hfaithful.1, haccepts, hfaithful.2 item fetched hcall⟩ ?_⟩
    intro key hkey
    rw [hcall] at hkey
    cases hkey

theorem Sound.complete (h : s.Sound env) {ids : ℕ → ℕ}
    (hstep : s.step env (.complete c ids) = some s') :
    (∃ op, s.db.OrdersMoved op s'.db) ∧ s'.Sound env := by
  simp only [Cashier.step] at hstep
  split at hstep
  case h_2 => cases hstep
  case h_1 job item hpoll =>
    obtain ⟨s₁, hw, rfl⟩ := Option.map_eq_some_iff.mp hstep
    have hm := s.db.answer_ordersMoved env.toEnv (job.settlement item) ids
    obtain ⟨rfl, hs⟩ := h.write hm hw
    have hfaithful := hs.polls c
    have hpoll' : ∀ job', s.polls c ≠ .asking job' := by
      intro job' hasking
      rw [hpoll] at hasking
      cases hasking
    refine ⟨⟨_, hm⟩, hs.setPoll ?_ (fun key hkey => hs.no_call hpoll' key hkey)⟩
    change PollFaithful env _ c (s.polls c) at hfaithful
    rw [hpoll] at hfaithful
    exact hfaithful

theorem Sound.forget (h : s.Sound env) (hstep : s.step env (.forget c) = some s') :
    (∃ op, s.db.OrdersMoved op s'.db) ∧ s'.Sound env := by
  simp only [Cashier.step] at hstep
  split at hstep
  case h_2 => cases hstep
  case h_1 job item hpoll =>
    obtain rfl := Option.some.inj hstep
    have hfaithful := h.polls c
    have hpoll' : ∀ job', s.polls c ≠ .asking job' := by
      intro job' hasking
      rw [hpoll] at hasking
      cases hasking
    rw [hpoll] at hfaithful
    have hforgotten : (s.setPoll c (.forgotten job item)).Sound env :=
      h.setPoll hfaithful (fun key hkey => h.no_call hpoll' key hkey)
    refine ⟨⟨.tick 0, .of_eq rfl⟩, ?_⟩
    have hforget : s.receipts.step (.forget job.key) = some (s.receipts.forget job.key) := rfl
    exact hforgotten.throttle_quiet hforget (fun _ _ hact => nomatch hact)
      (fun _ hact => nomatch hact) (fun _ _ hact => nomatch hact)

/-- Every step moves the orders and keeps the invariant. -/
theorem Sound.step (h : s.Sound env) (hstep : s.step env a = some s') :
    (∃ op, s.db.OrdersMoved op s'.db) ∧ s'.Sound env := by
  cases a with
  | request r ids =>
      simp only [Cashier.step] at hstep
      split_ifs at hstep
      have hm := s.db.answer_ordersMoved env.toEnv r ids
      obtain ⟨rfl, hs⟩ := h.write hm hstep
      exact ⟨⟨_, hm⟩, hs⟩
  | expire id coupon =>
      have hm := s.db.expireOne_ordersMoved id coupon (fun n => n)
      obtain ⟨rfl, hs⟩ := h.write hm hstep
      exact ⟨⟨_, hm⟩, hs⟩
  | savePay id p =>
      obtain rfl := Option.some.inj hstep
      have hm : s.db.OrdersMoved (.tick 0) { s.db with pays := s.db.pays.put id p } := .of_eq rfl
      exact ⟨⟨_, hm⟩, h.withDb hm (fun _ _ _ _ => rfl)⟩
  | tick n =>
      obtain rfl := Option.some.inj hstep
      have hm : s.db.OrdersMoved (.tick n) (s.db.tick n) := .of_eq rfl
      exact ⟨⟨_, hm⟩, h.withDb hm (fun _ _ _ _ => rfl)⟩
  | receipts ra =>
      simp only [Cashier.step] at hstep
      split_ifs at hstep with hra
      obtain ⟨t, ht, rfl⟩ := Option.map_eq_some_iff.mp hstep
      exact ⟨⟨.tick 0, .of_eq rfl⟩, h.receipts hra ht⟩
  | answer e ans =>
      obtain ⟨job, hjob, hstep⟩ := Option.bind_eq_some_iff.mp hstep
      obtain ⟨r, hr, hstep⟩ := Option.bind_eq_some_iff.mp hstep
      obtain ⟨t, ht, hstep⟩ := Option.bind_eq_some_iff.mp hstep
      obtain rfl := Option.some.inj hstep
      exact ⟨⟨.tick 0, .of_eq rfl⟩, h.answer hjob hr ht⟩
  | read c ta =>
      obtain ⟨tab, hread, rfl⟩ := Option.map_eq_some_iff.mp hstep
      obtain ⟨hfaithful, hnone⟩ := h.read hread
      refine ⟨⟨.tick 0, .of_eq rfl⟩, h.setTab hfaithful (fun i o hheld => ?_)⟩
      rw [hnone] at hheld
      cases hheld
  | lockQuote c ids => exact h.lockQuote hstep
  | lockInvoice c => exact h.lockInvoice hstep
  | create c nonce answer => exact h.create hstep
  | commit c => exact h.commit hstep
  | rollback c => exact h.rollback hstep
  | pollOrder c ch sn =>
      simp only [Cashier.step] at hstep
      split at hstep
      case h_2 => cases hstep
      case h_1 hpoll =>
        obtain ⟨found, hfound, hstep⟩ := Option.bind_eq_some_iff.mp hstep
        split_ifs at hstep
        obtain rfl := Option.some.inj hstep
        have hpoll' : ∀ job, s.polls c ≠ .asking job := by
          intro job hasking
          rw [hpoll] at hasking
          cases hasking
        refine ⟨⟨.tick 0, .of_eq rfl⟩, h.setPoll ?_ (fun key hkey => h.no_call hpoll' key hkey)⟩
        exact DB.orderBySNChecked_has hfound
  | pollChannel c =>
      simp only [Cashier.step] at hstep
      split at hstep
      case h_2 => cases hstep
      case h_1 ch o hpoll =>
        obtain ⟨p, -, hstep⟩ := Option.bind_eq_some_iff.mp hstep
        split_ifs at hstep
        obtain rfl := Option.some.inj hstep
        have hpoll' : ∀ job, s.polls c ≠ .asking job := by
          intro job hasking
          rw [hpoll] at hasking
          cases hasking
        have hfaithful := h.polls c
        rw [hpoll] at hfaithful
        exact ⟨⟨.tick 0, .of_eq rfl⟩,
          h.setPoll hfaithful (fun key hkey => h.no_call hpoll' key hkey)⟩
  | ask c => exact h.ask hstep
  | judge c => exact h.judge hstep
  | complete c ids => exact h.complete hstep
  | forget c => exact h.forget hstep

theorem new_sound {d : DB} (hd : d.Numbered) (now : ℤ) : (newCashier d now).Sound env where
  numbered := hd
  tabs _ := trivial
  held _ _ _ hheld := nomatch hheld
  apart _ _ _ _ _ hheld := nomatch hheld
  filed := ReceiptThrottle.new_filed now
  asked _ _ hkey := nomatch hkey
  told _ _ he := nomatch he
  called _ _ hkey := nomatch hkey
  polls _ := trivial

/-- What a run keeps of the orders, and the invariant after it. -/
theorem Sound.run (h : s.Sound env) {acts : List CashierAct}
    (hrun : Machine.run (Cashier.step env) s acts = some s') : s.db.Later s'.db ∧ s'.Sound env := by
  refine Machine.run_preorder (R := fun s s' => s.db.Later s'.db) (fun s => .refl s.db)
    (fun _ _ _ hr hr' => hr.trans hr') h ?_ hrun
  intro s a s' hs hstep
  obtain ⟨⟨op, hm⟩, hs'⟩ := hs.step hstep
  exact ⟨hm.later, hs'⟩

end Cashier
end Dufaka
