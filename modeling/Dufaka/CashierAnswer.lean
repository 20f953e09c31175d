import Dufaka.CashierPayments
import Dufaka.SettlementFrame

/-!
# What the cashier poll answers

`poll` reads an order, lets both channels look for a payment of it, and answers from the order they
give back: each reads it again after a settlement it takes for done. Other requests run while a
channel asks the remote side, and before it reads the order again.
-/

namespace Dufaka
open Relational Tx

inductive PollAnswer where
  | success
  | wait
  | expired
  | exception
  deriving DecidableEq

def PollAnswer.code : PollAnswer → ℤ
  | success => 200
  | wait => 400000
  | expired => 400001
  | exception => 400002

def PollAnswer.msg : PollAnswer → Text
  | success => "success".toList
  | wait => "wait....".toList
  | expired => "expired".toList
  | exception => "exception".toList

/-- The order has not been paid or has expired, which is when a poll looks for its payment. -/
def Order.awaitsPayment (o : Order) : Bool := o.status = .unpaid || o.status = .expired

def pollAnswer (o : Order) : PollAnswer :=
  if o.status = .expired then .expired
  else if o.status = .unpaid then .wait
  else if o.status ≠ .pending ∧ o.status ≠ .processing ∧ o.status ≠ .completed then .exception
  else .success

def pollLookupFailed : LookupError → PollAnswer
  | .rule msg => if msg = msgNotFound then .expired else .wait
  | .internal => .wait

/-- What a poll meets: which queries of its first lookup the database answers, the receipt `get`
gives each channel, if any, and what other requests do before `Complete` runs, before the order is
read again, and between the two channels. -/
structure PollWorld where
  answers : Answers
  ids : ℕ → ℕ
  receipt : Channel → Option Receipt
  before : Channel → List Op
  after : Channel → List Op
  between : List Op

/-- A call of `Complete` by one of the channels, with the databases before it, after it, and where
the order is read again. -/
structure CompleteCall where
  channel : Channel
  job : Job
  before : DB
  after : DB
  reply : Option Reply
  reread : DB

/-- The part of `syncCldxOrder` and `syncUSDTOrder` up to the call of `Complete`, if they make
it. -/
def completeCall (env : CashierEnv) (w : PollWorld) (ch : Channel) (d : DB) (o : Order) :
    Option CompleteCall := do
  if env.enabled ch && o.awaitsPayment then
    let p ← d.pay o.payId
    if p.payCheck = ch.check then
      let job ← d.job env o ch
      let item ← w.receipt ch
      if job.accepts item then
        let before := runOps env.toEnv (w.before ch) d
        let r := (job.settlement item).answer env.toEnv w.ids before
        some ⟨ch, job, before, r.1, r.2, runOps env.toEnv (w.after ch) r.1⟩
      else none
    else none
  else none

namespace CompleteCall

def sn (c : CompleteCall) : Text := c.job.order.orderSn

def readAgain (c : CompleteCall) : Order :=
  match c.reread.orderBySNChecked .all c.sn with
  | .ok found => found.2
  | .error _ => c.job.order

/-- The order that the code of a channel gives back after such a call: it reads the order again when
it takes the settlement for done. -/
def returnedBy (c : CompleteCall) : Channel → Order
  | .cldx => if settledReply c.reply then c.readAgain else c.job.order
  | .usdt => if settledReply c.reply || c.reply.any isPaidShort then c.readAgain else c.job.order

def returned (c : CompleteCall) : Order := c.returnedBy c.channel

end CompleteCall

structure PollTrace where
  calls : List CompleteCall
  answer : PollAnswer

def poll (env : CashierEnv) (w : PollWorld) (d : DB) (sn : Text) : PollTrace :=
  match d.orderBySNChecked w.answers sn with
  | .error err => ⟨[], pollLookupFailed err⟩
  | .ok (_, o) =>
      if o.awaitsPayment then
        let cldx := completeCall env w .cldx d o
        let o₁ := (cldx.map CompleteCall.returned).getD o
        let d₁ := runOps env.toEnv w.between ((cldx.map CompleteCall.reread).getD d)
        let usdt := completeCall env w .usdt d₁ o₁
        ⟨cldx.toList ++ usdt.toList, pollAnswer ((usdt.map CompleteCall.returned).getD o₁)⟩
      else ⟨[], pollAnswer o⟩

/-- The goods handled by hand whose stock an expired order has handed back are counted, those of the
card pool are picked: a payment of the order meets short stock. -/
def DB.shortStock (d : DB) (sn : Text) : Bool :=
  match d.orderBySn sn with
  | none => false
  | some (id, o) =>
      match o.type with
      | .auto => (o.awaitsPayment || o.status = .abnormal) &&
          decide (((d.cardsFor id o.goodsId o.buyAmount (fun _ => false)).length : ℤ) ≠ o.buyAmount)
      | .manual => o.status = .expired &&
          !(d.goods.get? o.goodsId).any (fun g => o.buyAmount ≤ g.inStock)

def DB.awaitsPayment (d : DB) (sn : Text) : Bool :=
  (d.orderBySn sn).any (fun found => found.2.awaitsPayment)

namespace CompleteCall

/-- The call settled the payment: the order awaited one before it and does not after it. -/
def Commits (c : CompleteCall) : Prop :=
  c.before.awaitsPayment c.sn = true ∧ c.after.awaitsPayment c.sn = false

/-- The code that handles both outcomes agrees: each channel would have the poll answer the same. -/
def Alike (c : CompleteCall) : Prop :=
  pollAnswer (c.returnedBy .cldx) = pollAnswer (c.returnedBy .usdt)

def Rereads (c : CompleteCall) : Prop := ∃ found, c.reread.orderBySNChecked .all c.sn = .ok found

end CompleteCall

/-- A poll that settled a payment does not answer as if the order still awaited one. -/
def PollTrace.Truthful (p : PollTrace) : Prop :=
  ∀ c ∈ p.calls, c.Commits → p.answer ≠ .wait ∧ p.answer ≠ .expired

section Answers
variable {o : Order}

theorem pollAnswer_of_awaits (h : o.awaitsPayment = true) :
    pollAnswer o = .wait ∨ pollAnswer o = .expired := by
  simp only [Order.awaitsPayment, Bool.or_eq_true, decide_eq_true_eq] at h
  rcases h with h | h
  · exact Or.inl (by simp [pollAnswer, h])
  · exact Or.inr (by simp [pollAnswer, h])

theorem pollAnswer_of_settled (h : o.awaitsPayment = false) :
    pollAnswer o ≠ .wait ∧ pollAnswer o ≠ .expired := by
  simp only [Order.awaitsPayment, Bool.or_eq_false_iff, decide_eq_false_iff_not] at h
  rw [pollAnswer, if_neg h.2, if_neg h.1]
  split_ifs <;> decide

end Answers

/-! ### What other requests leave alone -/

section Ops
variable {env : Env} {d : DB} {ops : List Op}

/-- No request changes the payment ways. -/
theorem apply_pays (op : Op) : (op.apply env d).pays = d.pays := by
  have hset : ∀ (d : DB) (k : Key) (v : Row k), (RowStore.set d k v).pays = d.pays := by
    intro d k v
    cases k with
    | advisory => exact v.elim
    | _ => rfl
  refine apply_induct (P := fun x => x.pays = d.pays) ?_ (fun _ _ _ h _ _ => h) (fun _ h => h) rfl
  intro r ids reply d' _ h hc
  exact (commits_frame hset hc).trans h

theorem runOps_pays : (runOps env ops d).pays = d.pays :=
  runOps_induct (P := fun x => x.pays = d.pays) (fun _ op _ h => (apply_pays op).trans h) rfl

/-- A settled order stays settled. -/
theorem Order.Moves.settled_stays {id : ℕ} {o o' : Order} {op : Op} (h : o.Moves id op o')
    (hs : o.awaitsPayment = false) : o'.awaitsPayment = false := by
  cases h with
  | same => exact hs
  | priced => exact hs
  | flagged => exact hs
  | expired h => simp [awaitsPayment, h] at hs
  | short => rfl
  | delivered => rfl
  | pending => rfl
  | @saved f ids title info pwd dst hdst hstatus =>
      have hsaved : (o.saved o title info pwd dst).status = dst := rfl
      rw [awaitsPayment, hsaved]
      rcases status_of_orderStatusRefusal hstatus with h | h
      · rw [h]
        exact hs
      · simp only [ownerMayMove, Bool.and_eq_true, Bool.or_eq_true, decide_eq_true_eq] at h
        rcases h.2 with (((h | h) | h) | h) | h <;> rw [h] <;> rfl

/-- An order of the shop that is settled is found settled later. -/
theorem awaitsPayment_later (env : Env) (ops : List Op) {id : ℕ} {o : Order}
    (ho : d.orders.get? id = some o) (hs : o.awaitsPayment = false) :
    ∃ o', (runOps env ops d).orders.get? id = some o' ∧ o'.awaitsPayment = false :=
  runOps_order env ops (fun _ _ _ _ h hm => hm.settled_stays h) ho hs

end Ops

/-! ### One call of `Complete` -/

section Outcome
variable {env : Env} {d : DB} {sn trade : Text} {paid : Cents} {ids : ℕ → ℕ} {id : ℕ} {o : Order}

theorem shortStock_of_found (hfound : d.orderBySn sn = some (id, o)) : d.shortStock sn =
    match o.type with
    | .auto => (o.awaitsPayment || o.status = .abnormal) &&
        decide (((d.cardsFor id o.goodsId o.buyAmount (fun _ => false)).length : ℤ) ≠ o.buyAmount)
    | .manual => o.status = .expired &&
        !(d.goods.get? o.goodsId).any (fun g => o.buyAmount ≤ g.inStock) := by
  rw [DB.shortStock, hfound]

/-- An order on record meets no short stock. -/
theorem shortStock_of_recorded (hfound : d.orderBySn sn = some (id, o)) (h : o.recorded) :
    d.shortStock sn = false := by
  rw [shortStock_of_found hfound]
  rcases h with h | h | h | ⟨h, ht⟩
  · cases o.type <;> simp [Order.awaitsPayment, h]
  · cases o.type <;> simp [Order.awaitsPayment, h]
  · cases o.type <;> simp [Order.awaitsPayment, h]
  · simp [ht, h]

/-- How `Complete` ends for an order of the shop with the right amount: it meets short stock as the
rows say, and an order that awaits its payment is settled. -/
structure CompleteOutcome (d : DB) (sn : Text) (id : ℕ) (o : Order) (d' : DB)
  (reply : Option Reply) :
    Prop where
  short : reply.any isPaidShort = d.shortStock sn
  notSettled : d.shortStock sn = true → settledReply reply = false
  done : o.awaitsPayment = true → d.shortStock sn = false → settledReply reply = true
  row : o.awaitsPayment = true ∨ d.shortStock sn = true →
    ∃ o', d'.orders.get? id = some o' ∧ o'.awaitsPayment = false

theorem complete_outcome (hfound : d.orderBySn sn = some (id, o)) (hpaid : paid = o.actualPrice) :
    CompleteOutcome d sn id o ((Request.complete sn paid trade).answer env ids d).1
      ((Request.complete sn paid trade).answer env ids d).2 := by
  have hget := (DB.orderBySn_some hfound).1
  have hmodified : ∀ f : Order → Order, (d.orders.modify id f).get? id = some (f o) := by
    intro f
    rw [Table.get?_modify_self, hget, Option.map_some]
  subst hpaid
  by_cases hf : o.status = .failed
  · have hx : (Request.complete sn o.actualPrice trade).answer env ids d =
        (d, some (.err "订单状态不可支付".toList)) := exec_of_rollsBack (complete_failed hfound hf)
    have hno : d.shortStock sn = false := by
      rw [shortStock_of_found hfound]
      cases o.type <;> simp [Order.awaitsPayment, hf]
    have hawaits : o.awaitsPayment = false := by simp [Order.awaitsPayment, hf]
    rw [hx]
    refine ⟨hno.symm, fun h => ?_, fun h => ?_, fun h => ?_⟩
    · rw [hno] at h
      cases h
    · rw [hawaits] at h
      cases h
    · rw [hawaits, hno] at h
      rcases h with h | h <;> cases h
  · obtain ⟨reply, d', hc⟩ := exists_commits (complete_succeeds trade ids hfound hf)
    have hx : (Request.complete sn o.actualPrice trade).answer env ids d = (d', some reply) :=
      exec_of_commits hc
    obtain ⟨id', o₁, hfound', -, -, hs, hless⟩ := settle_commits_stock hc
    rw [hfound] at hfound'
    obtain ⟨rfl, rfl⟩ := Prod.mk.inj (Option.some.inj hfound')
    rw [hx]
    cases hs with
    | already hrec =>
        have hno := shortStock_of_recorded hfound hrec
        have hawaits : o.awaitsPayment = false := by
          rcases hrec with h | h | h | ⟨h, -⟩ <;> simp [Order.awaitsPayment, h]
        exact ⟨hno.symm, fun h => absurd h (by rw [hno]; decide), fun _ _ => rfl,
          fun _ => ⟨o, hget, hawaits⟩⟩
    | short hp hr hret hcards hstock =>
        have hshort : d.shortStock sn = true := by
          rw [shortStock_of_found hfound]
          cases ht : o.type with
          | auto =>
              have hlen := hcards ht
              rcases hp with h | h | ⟨h, -⟩ <;> simp [Order.awaitsPayment, h, hlen]
          | manual =>
              cases hg : d.goods.get? o.goodsId with
              | none => simp [hstock ht]
              | some g => simp [hstock ht, hless rfl ht g hg]
        exact ⟨hshort.symm, fun _ => rfl, fun _ h => absurd hshort (by rw [h]; decide),
          fun _ => ⟨_, hmodified _, rfl⟩⟩
    | cards hp hret hauto hcards hlen =>
        have hno : d.shortStock sn = false := by
          rw [shortStock_of_found hfound]
          simp [hauto, hcards, hlen]
        exact ⟨hno.symm, fun h => absurd h (by rw [hno]; decide), fun _ _ => rfl,
          fun _ => ⟨_, hmodified _, rfl⟩⟩
    | manual hp hret hmanual hstock =>
        have hno : d.shortStock sn = false := by
          rw [shortStock_of_found hfound]
          rcases hp with h | h
          · simp [hmanual, h]
          · obtain ⟨g, hg, hle⟩ := hstock h
            simp [hmanual, hg, hle]
        exact ⟨hno.symm, fun h => absurd h (by rw [hno]; decide), fun _ _ => rfl,
          fun _ => ⟨_, hmodified _, rfl⟩⟩

end Outcome

section Call
variable {env : CashierEnv} {w : PollWorld} {ch : Channel} {d : DB} {o : Order} {c : CompleteCall}

theorem job_order {job : Job} (h : d.job env o ch = some job) : job.order = o := by
  cases ch with
  | cldx =>
      obtain ⟨want, -, hjob⟩ := Option.bind_eq_some_iff.mp h
      split_ifs at hjob
      rw [← Option.some.inj hjob, Job.order]
  | usdt =>
      obtain ⟨want, -, hjob⟩ := Option.bind_eq_some_iff.mp h
      split_ifs at hjob
      rw [← Option.some.inj hjob, Job.order]

theorem completeCall_some (h : completeCall env w ch d o = some c) :
    o.awaitsPayment = true ∧ (∃ p, d.pay o.payId = some p ∧ p.payCheck = ch.check) ∧
    c.channel = ch ∧
      c.job.order = o ∧ c.before = runOps env.toEnv (w.before ch) d ∧
      (∃ trade, (c.after, c.reply) =
        (Request.complete o.orderSn o.actualPrice trade).answer env.toEnv w.ids c.before) ∧
      c.reread = runOps env.toEnv (w.after ch) c.after := by
  rw [completeCall] at h
  split_ifs at h with hgate
  obtain ⟨p, hp, h⟩ := Option.bind_eq_some_iff.mp h
  split_ifs at h with hcheck
  obtain ⟨job, hjob, h⟩ := Option.bind_eq_some_iff.mp h
  obtain ⟨item, -, h⟩ := Option.bind_eq_some_iff.mp h
  split_ifs at h
  obtain rfl := Option.some.inj h
  have horder := job_order hjob
  refine ⟨(Bool.and_eq_true_iff.mp hgate).2, ⟨p, hp, hcheck⟩, rfl, horder, rfl,
    ⟨job.tradeNo item, ?_⟩, rfl⟩
  rw [← horder]
  rfl

/-- A call of `Complete`, as the database before it says, and what reading the order again finds. -/
structure CompleteCall.Ended (c : CompleteCall) : Prop where
  short : c.reply.any isPaidShort = c.before.shortStock c.sn
  notSettled : c.before.shortStock c.sn = true → settledReply c.reply = false
  done : c.before.awaitsPayment c.sn = true → c.before.shortStock c.sn = false →
    settledReply c.reply = true
  settled : c.before.awaitsPayment c.sn = true → c.after.awaitsPayment c.sn = false
  fresh : c.before.awaitsPayment c.sn = true ∨ c.before.shortStock c.sn = true →
    c.readAgain.awaitsPayment = false

theorem awaitsPayment_of_row {d : DB} {id : ℕ} {row : Order} (hu : d.UniqueSn)
    (hget : d.orders.get? id = some row) : d.awaitsPayment row.orderSn = row.awaitsPayment := by
  rw [DB.awaitsPayment, hu.orderBySn hget, Option.any_some]

/-- The order read again is the row of its number. -/
theorem readAgain_of_row {id : ℕ} {row : Order} (hu : c.reread.UniqueSn) (hread : c.Rereads)
    (hget : c.reread.orders.get? id = some row) (hsn : row.orderSn = c.sn) : c.readAgain = row := by
  obtain ⟨found, hfound⟩ := hread
  obtain ⟨hget', hsn'⟩ := DB.orderBySN_ok (DB.orderBySNChecked_ok hfound)
  have hid : found.1 = id := hu found.1 id found.2 row hget' hget (hsn'.trans hsn.symm)
  rw [hid, hget] at hget'
  rw [CompleteCall.readAgain, hfound]
  exact (Option.some.inj hget').symm

theorem completeCall_ended (hu : d.UniqueSn) (ho : d.Has o.Fixed)
    (h : completeCall env w ch d o = some c) (hread : c.Rereads) : c.Ended := by
  obtain ⟨-, -, -, horder, hbefore, ⟨trade, hanswer⟩, hreread⟩ := completeCall_some h
  have hsn : c.sn = o.orderSn := by rw [CompleteCall.sn, horder]
  -- the row of the order where `Complete` runs
  obtain ⟨id, row₀, hget₀, hfixed₀⟩ := ho
  obtain ⟨row, hget, hfixed⟩ := runOps_order env.toEnv (w.before ch)
    (P := fun x => o.Fixed x) (fun _ _ _ _ h hm => h.trans hm.fixed) hget₀ hfixed₀
  rw [← hbefore] at hget
  have hu₁ : c.before.UniqueSn := by
    rw [hbefore]
    exact runOps_uniqueSn env.toEnv (w.before ch) hu
  have hrow : row.orderSn = c.sn := hfixed.orderSn.trans hsn.symm
  have hfound : c.before.orderBySn c.sn = some (id, row) := hrow ▸ hu₁.orderBySn hget
  let r := Request.complete o.orderSn o.actualPrice trade
  have hafter : c.after = (Op.request r w.ids).apply env.toEnv c.before := congrArg Prod.fst hanswer
  have hreply : c.reply = (r.answer env.toEnv w.ids c.before).2 := congrArg Prod.snd hanswer
  have hout : CompleteOutcome c.before c.sn id row c.after c.reply := by
    rw [hafter, hreply, hsn]
    exact complete_outcome (hsn ▸ hfound) hfixed.actualPrice.symm
  have hmoved := c.before.apply_ordersMoved env.toEnv (.request r w.ids)
  rw [← hafter] at hmoved
  have hu₂ : c.after.UniqueSn := hmoved.uniqueSn hu₁
  have hawaits : c.before.awaitsPayment c.sn = row.awaitsPayment := by
    rw [← hrow, awaitsPayment_of_row hu₁ hget]
  -- the row that `Complete` left
  have hrow' : ∀ row', c.after.orders.get? id = some row' → row'.orderSn = c.sn := by
    intro row' hget'
    obtain ⟨row₂, hget₂, hmove⟩ := hmoved.old id row hget
    rw [hget'] at hget₂
    rw [Option.some.inj hget₂, hmove.fixed.orderSn, hrow]
  refine ⟨hout.short, hout.notSettled, fun h => hout.done (hawaits ▸ h), fun h => ?_, fun h => ?_⟩
  · obtain ⟨row', hget', hs⟩ := hout.row (Or.inl (hawaits ▸ h))
    rw [← hrow' row' hget', awaitsPayment_of_row hu₂ hget', hs]
  · obtain ⟨row', hget', hs⟩ := hout.row (hawaits ▸ h)
    obtain ⟨row'', hget'', hs'⟩ := awaitsPayment_later env.toEnv (w.after ch) hget' hs
    have hsn'' := (runOps_fixed env.toEnv (w.after ch) hget' hget'').1.orderSn
    rw [← hreread] at hget''
    have hu₃ : c.reread.UniqueSn := by
      rw [hreread]
      exact runOps_uniqueSn env.toEnv (w.after ch) hu₂
    rw [readAgain_of_row hu₃ hread hget'' (hsn''.trans (hrow' row' hget'))]
    exact hs'

/-- A channel reads the order again exactly where its poll drops the shared answer. -/
theorem completeCall_forgets (h : completeCall env w ch d o = some c) :
    c.returned = if c.job.forgets c.reply then c.readAgain else c.job.order := by
  obtain ⟨hjob, hch⟩ : d.job env o ch = some c.job ∧ c.channel = ch := by
    rw [completeCall] at h
    split_ifs at h
    obtain ⟨p, -, h⟩ := Option.bind_eq_some_iff.mp h
    split_ifs at h
    obtain ⟨job, hjob, h⟩ := Option.bind_eq_some_iff.mp h
    obtain ⟨item, -, h⟩ := Option.bind_eq_some_iff.mp h
    split_ifs at h
    obtain rfl := Option.some.inj h
    exact ⟨hjob, rfl⟩
  cases ch with
  | cldx =>
      obtain ⟨want, -, hsome⟩ := Option.bind_eq_some_iff.mp hjob
      split_ifs at hsome
      have hforgets : c.job.forgets c.reply = settledReply c.reply := by
        rw [← Option.some.inj hsome]
        rfl
      rw [CompleteCall.returned, hch, CompleteCall.returnedBy, hforgets]
  | usdt =>
      obtain ⟨want, -, hsome⟩ := Option.bind_eq_some_iff.mp hjob
      split_ifs at hsome
      have hforgets : c.job.forgets c.reply =
          (settledReply c.reply || c.reply.any isPaidShort) := by
        rw [← Option.some.inj hsome]
        rfl
      rw [CompleteCall.returned, hch, CompleteCall.returnedBy, hforgets]

/-- A call leaves the payment ways as they were. -/
theorem completeCall_pays (h : completeCall env w ch d o = some c) : c.reread.pays = d.pays := by
  obtain ⟨-, -, -, -, hbefore, ⟨trade, hanswer⟩, hreread⟩ := completeCall_some h
  have hafter : c.after =
      (Op.request (.complete o.orderSn o.actualPrice trade) w.ids).apply env.toEnv c.before :=
    congrArg Prod.fst hanswer
  rw [hreread, runOps_pays, hafter, apply_pays, hbefore, runOps_pays]

theorem runOps_later (env : Env) (ops : List Op) (d : DB) : d.Later (runOps env ops d) :=
  runOps_induct (P := fun x => d.Later x) (fun x op _ h =>
    h.trans (x.apply_ordersMoved env op).later)
    (.refl d)

/-- The order a channel gives back is still an order of the shop. -/
theorem completeCall_returned (hu : d.UniqueSn) (ho : d.Has o.Fixed)
    (h : completeCall env w ch d o = some c) (hread : c.Rereads) :
    c.reread.UniqueSn ∧ c.reread.Has c.returned.Fixed := by
  obtain ⟨-, -, -, horder, hbefore, ⟨trade, hanswer⟩, hreread⟩ := completeCall_some h
  have hafter : c.after =
      (Op.request (.complete o.orderSn o.actualPrice trade) w.ids).apply env.toEnv c.before :=
    congrArg Prod.fst hanswer
  have hops : c.reread = runOps env.toEnv
      (w.before ch ++ .request (.complete o.orderSn o.actualPrice trade) w.ids ::
        w.after ch) d := by
    rw [runOps_append, hreread, hafter, hbefore]
    rfl
  have hlater : d.Later c.reread := by
    rw [hops]
    exact runOps_later _ _ d
  refine ⟨?_, ?_⟩
  · rw [hops]
    exact runOps_uniqueSn _ _ hu
  · have hstale : c.reread.Has c.job.order.Fixed := by
      rw [horder]
      exact ho.later hlater (fun _ _ hf hl => hf.trans hl.fixed)
    have hfresh : c.reread.Has c.readAgain.Fixed := by
      obtain ⟨found, hfound⟩ := hread
      obtain ⟨hget, -⟩ := DB.orderBySN_ok (DB.orderBySNChecked_ok hfound)
      rw [CompleteCall.readAgain, hfound]
      exact ⟨found.1, found.2, hget, .refl _⟩
    rw [CompleteCall.returned, CompleteCall.returnedBy.eq_def]
    cases c.channel <;> dsimp only <;> split_ifs <;> assumption

/-- An order is paid through one channel, as long as the payment ways stay. -/
theorem completeCall_channel {d' : DB} {o' : Order} {ch' : Channel} {c' : CompleteCall}
    (h : completeCall env w ch d o = some c) (h' : completeCall env w ch' d' o' = some c')
    (hpays : d'.pays = d.pays) (hpay : o'.payId = o.payId) : ch' = ch := by
  obtain ⟨-, ⟨p, hp, hcheck⟩, -⟩ := completeCall_some h
  obtain ⟨-, ⟨p', hp', hcheck'⟩, -⟩ := completeCall_some h'
  rw [DB.pay, hpays, hpay] at hp'
  obtain rfl := Option.some.inj (hp.symm.trans hp')
  rw [hcheck] at hcheck'
  cases ch <;> cases ch' <;> first | rfl | exact absurd hcheck' (by decide)

end Call

/-! ### The poll -/

namespace CompleteCall
variable {c : CompleteCall}

theorem Ended.commits_iff (h : c.Ended) : c.Commits ↔ c.before.awaitsPayment c.sn = true :=
  ⟨fun hc => hc.1, fun hb => ⟨hb, h.settled hb⟩⟩

/-- Where `Complete` met short stock, the code of one channel reads the order again and that of the
other does not. -/
theorem Ended.returnedBy_short (h : c.Ended) (hshort : c.before.shortStock c.sn = true) :
    c.returnedBy .cldx = c.job.order ∧ c.returnedBy .usdt = c.readAgain := by
  rw [returnedBy, returnedBy, h.notSettled hshort, h.short, hshort]
  exact ⟨rfl, rfl⟩

theorem Ended.returnedBy_plain (h : c.Ended) (hshort : c.before.shortStock c.sn = false) :
    c.returnedBy .cldx = c.returnedBy .usdt := by
  rw [returnedBy, returnedBy, h.short, hshort, Bool.or_false]

/-- A call that settled the payment with the stock at hand gives back the settled order. -/
theorem Ended.returned_plain (h : c.Ended) (hb : c.before.awaitsPayment c.sn = true)
    (hshort : c.before.shortStock c.sn = false) : c.returned.awaitsPayment = false := by
  have hread : c.returned = c.readAgain := by
    rw [returned, returnedBy.eq_def, h.done hb hshort]
    cases c.channel <;> rfl
  rw [hread]
  exact h.fresh (Or.inl hb)

theorem Ended.alike_iff (h : c.Ended) (ho : c.job.order.awaitsPayment = true) :
    c.Alike ↔ c.before.shortStock c.sn = false := by
  constructor
  · intro halike
    by_contra hne
    have hshort : c.before.shortStock c.sn = true := eq_true_of_ne_false hne
    obtain ⟨hcldx, husdt⟩ := h.returnedBy_short hshort
    rw [Alike, hcldx, husdt] at halike
    obtain ⟨hwait, hexpired⟩ := pollAnswer_of_settled (h.fresh (Or.inr hshort))
    rcases pollAnswer_of_awaits ho with ha | ha
    · exact hwait (halike.symm.trans ha)
    · exact hexpired (halike.symm.trans ha)
  · intro hshort
    rw [Alike, h.returnedBy_plain hshort]

/-- The channel whose code does not read the order again gives it back as it was. -/
theorem Ended.returned_short (h : c.Ended) (hch : c.channel = .cldx)
    (hshort : c.before.shortStock c.sn = true) : c.returned = c.job.order := by
  rw [returned, hch]
  exact (h.returnedBy_short hshort).1

/-- The code of the other one reads it again. -/
theorem Ended.returned_usdt (h : c.Ended) (hch : c.channel = .usdt)
    (hb : c.before.awaitsPayment c.sn = true) : c.returned.awaitsPayment = false := by
  cases hshort : c.before.shortStock c.sn with
  | false => exact h.returned_plain hb hshort
  | true =>
      rw [returned, hch, (h.returnedBy_short hshort).2]
      exact h.fresh (Or.inr hshort)

end CompleteCall

/-- The calls of a poll of an order that awaits its payment, and the order it answers from. -/
inductive PollTrace.Of (env : CashierEnv) (w : PollWorld) (d : DB) (o : Order) : PollTrace → Prop
  | none : Of env w d o ⟨[], pollAnswer o⟩
  | cldx {c : CompleteCall} (h : completeCall env w .cldx d o = some c) :
      Of env w d o ⟨[c], pollAnswer c.returned⟩
  | usdt {c : CompleteCall}
      (h : completeCall env w .usdt (runOps env.toEnv w.between d) o = some c) :
      Of env w d o ⟨[c], pollAnswer c.returned⟩
  | both {c c' : CompleteCall} (h : completeCall env w .cldx d o = some c)
      (h' : completeCall env w .usdt (runOps env.toEnv w.between c.reread) c.returned = some c') :
      Of env w d o ⟨[c, c'], pollAnswer c'.returned⟩

section Poll
variable {env : CashierEnv} {w : PollWorld} {d : DB} {sn : Text}

theorem poll_cases (env : CashierEnv) (w : PollWorld) (d : DB) (sn : Text) :
    (poll env w d sn).calls = [] ∨
      ∃ o, o.awaitsPayment = true ∧ d.Has o.Fixed ∧ PollTrace.Of env w d o (poll env w d sn) := by
  rw [poll]
  split
  · exact Or.inl rfl
  · rename_i id o hfound
    obtain ⟨hget, -⟩ := DB.orderBySN_ok (DB.orderBySNChecked_ok hfound)
    split_ifs with ho
    · refine Or.inr ⟨o, ho, ⟨id, o, hget, .refl o⟩, ?_⟩
      cases hc : completeCall env w .cldx d o with
      | none =>
          simp only [Option.map_none, Option.getD_none, Option.toList_none, List.nil_append]
          cases hu : completeCall env w .usdt (runOps env.toEnv w.between d) o with
          | none => exact .none
          | some c => exact .usdt hu
      | some c =>
          simp only [Option.map_some, Option.getD_some, Option.toList_some]
          cases hu : completeCall env w .usdt (runOps env.toEnv w.between c.reread) c.returned with
          | none => exact .cldx hc
          | some c' => exact .both hc hu
    · exact Or.inl rfl

theorem completeCall_awaits {ch : Channel} {o : Order} {c : CompleteCall}
    (h : completeCall env w ch d o = some c) : c.job.order.awaitsPayment = true := by
  obtain ⟨ho, -, -, horder, -⟩ := completeCall_some h
  rw [horder]
  exact ho

/-- Every call of a poll ends as the database before it says, for an order read as awaiting its
payment. -/
theorem PollTrace.Of.call {o : Order} {p : PollTrace} (hof : PollTrace.Of env w d o p)
    (hu : d.UniqueSn) (ho : d.Has o.Fixed) (hread : ∀ c ∈ p.calls, c.Rereads) {c : CompleteCall}
    (hc : c ∈ p.calls) :
    c.Ended ∧ c.job.order.awaitsPayment = true := by
  have hbetween : ∀ {x : DB} {o : Order}, x.UniqueSn → x.Has o.Fixed →
      (runOps env.toEnv w.between x).UniqueSn ∧ (runOps env.toEnv w.between x).Has o.Fixed := by
    intro x o hux hox
    exact ⟨runOps_uniqueSn _ _ hux,
      hox.later (runOps_later _ _ x) (fun _ _ hf hl => hf.trans hl.fixed)⟩
  cases hof with
  | none => cases hc
  | cldx h =>
      obtain rfl := List.mem_singleton.mp hc
      exact ⟨completeCall_ended hu ho h (hread c hc), completeCall_awaits h⟩
  | usdt h =>
      obtain rfl := List.mem_singleton.mp hc
      obtain ⟨hu', ho'⟩ := hbetween hu ho
      exact ⟨completeCall_ended hu' ho' h (hread c hc), completeCall_awaits h⟩
  | @both c₁ c₂ h h' =>
      rcases List.mem_pair.mp hc with rfl | rfl
      · exact ⟨completeCall_ended hu ho h (hread c hc), completeCall_awaits h⟩
      · obtain ⟨hu₁, ho₁⟩ := completeCall_returned hu ho h (hread c₁ List.mem_cons_self)
        obtain ⟨hu', ho'⟩ := hbetween hu₁ ho₁
        exact ⟨completeCall_ended hu' ho' h' (hread c hc), completeCall_awaits h'⟩

/-- A poll answers from the order that its last call gave back, and only a call that gave back an
order still awaiting its payment is followed by another. -/
theorem PollTrace.Of.truthful_iff {o : Order} {p : PollTrace} (hof : PollTrace.Of env w d o p)
    (hended : ∀ c ∈ p.calls, c.Ended) : p.Truthful ↔ ∀ c ∈ p.calls, c.channel = .cldx →
      c.before.awaitsPayment c.sn = true → c.before.shortStock c.sn = false := by
  constructor
  · intro htrue c hc hch hb
    by_contra hne
    have hshort : c.before.shortStock c.sn = true := eq_true_of_ne_false hne
    have hend := hended c hc
    obtain ⟨hwait, hexpired⟩ := htrue c hc (hend.commits_iff.mpr hb)
    have hstale := hend.returned_short hch hshort
    cases hof with
    | none => cases hc
    | cldx h =>
        obtain rfl := List.mem_singleton.mp hc
        rw [hstale] at hwait hexpired
        rcases pollAnswer_of_awaits (completeCall_awaits h) with ha | ha
        · exact hwait ha
        · exact hexpired ha
    | usdt h =>
        obtain rfl := List.mem_singleton.mp hc
        rw [(completeCall_some h).2.2.1] at hch
        cases hch
    | @both c₁ c₂ h h' =>
        rcases List.mem_pair.mp hc with rfl | rfl
        · -- the order as it was is paid through the other channel only
          obtain ⟨-, -, -, horder, -⟩ := completeCall_some h
          have hpays : (runOps env.toEnv w.between c.reread).pays = d.pays := by
            rw [runOps_pays, completeCall_pays h]
          have hpay : c.returned.payId = o.payId := by rw [hstale, horder]
          cases completeCall_channel h h' hpays hpay
        · rw [(completeCall_some h').2.2.1] at hch
          cases hch
  · intro hcond c hc hcommits
    have hend := hended c hc
    have hb := hend.commits_iff.mp hcommits
    have hsettled : c.returned.awaitsPayment = false := by
      cases hch : c.channel with
      | cldx => exact hend.returned_plain hb (hcond c hc hch hb)
      | usdt => exact hend.returned_usdt hch hb
    cases hof with
    | none => cases hc
    | cldx h =>
        obtain rfl := List.mem_singleton.mp hc
        exact pollAnswer_of_settled hsettled
    | usdt h =>
        obtain rfl := List.mem_singleton.mp hc
        exact pollAnswer_of_settled hsettled
    | @both c₁ c₂ h h' =>
        rcases List.mem_pair.mp hc with rfl | rfl
        · obtain ⟨ho', -⟩ := completeCall_some h'
          rw [hsettled] at ho'
          cases ho'
        · exact pollAnswer_of_settled hsettled

end Poll

/-- A poll answers truthfully about the payment it settled, and as the code of either channel would
have it, exactly when none of its calls of `Complete` meets short stock; it is truthful whenever the
code of the cldx channel meets none. -/
theorem poll_answers (env : CashierEnv) (w : PollWorld) (d : DB) (sn : Text) (hu : d.UniqueSn)
    (hread : ∀ c ∈ (poll env w d sn).calls, c.Rereads) :
    ((poll env w d sn).Truthful ∧ (∀ c ∈ (poll env w d sn).calls, c.Alike) ↔
      ∀ c ∈ (poll env w d sn).calls, c.before.shortStock c.sn = false) ∧
    ((poll env w d sn).Truthful ↔ ∀ c ∈ (poll env w d sn).calls, c.channel = .cldx →
      c.before.awaitsPayment c.sn = true → c.before.shortStock c.sn = false) := by
  rcases poll_cases env w d sn with hnil | ⟨o, -, hhas, hof⟩
  · simp [PollTrace.Truthful, hnil]
  · have hcall : ∀ c ∈ (poll env w d sn).calls, c.Ended ∧ c.job.order.awaitsPayment = true :=
      fun c hc => hof.call hu hhas hread hc
    have htruthful := hof.truthful_iff (fun c hc => (hcall c hc).1)
    refine ⟨⟨fun h c hc => ?_, fun h => ⟨?_, fun c hc => ?_⟩⟩, htruthful⟩
    · obtain ⟨hend, hawaits⟩ := hcall c hc
      exact (hend.alike_iff hawaits).mp (h.2 c hc)
    · exact htruthful.mpr (fun c hc _ _ => h c hc)
    · obtain ⟨hend, hawaits⟩ := hcall c hc
      exact (hend.alike_iff hawaits).mpr (h c hc)

def quotedShop (cards : Table Carmi) : DB :=
  { cashierShop .cldx with
    carmis := cards
    orders := .ofList [(1, { tinyAutoOrder with cldxMinor := some 500 })] }

def paidWorld : PollWorld where
  answers := .all
  ids := fun n => n
  receipt _ := some ⟨true, 500, 0, "payer".toList⟩
  before _ := []
  after _ := []
  between := []

theorem quotedShop_unique (cards : Table Carmi) : (quotedShop cards).UniqueSn := by
  have hall : ∀ e ∈ (Table.ofList [(1, { tinyAutoOrder with cldxMinor := some 500 })]).entries,
      e.1 = 1 := by
    decide
  have hone : ∀ i o, (quotedShop cards).orders.get? i = some o → i = 1 := fun i o ho =>
    hall (i, o) (((quotedShop cards).orders.mem_entries_iff i o).mpr ho)
  intro i j o o' ho ho' _
  rw [hone i o ho, hone j o' ho']

theorem rereads_of_all {calls : List CompleteCall}
    (h : calls.all (fun c => (c.reread.orderBySNChecked .all c.sn).isOk) = true) :
    ∀ c ∈ calls, c.Rereads := by
  intro c hc
  have hok := List.all_eq_true.mp h c hc
  cases hread : c.reread.orderBySNChecked .all c.sn with
  | ok found => exact ⟨found, hread⟩
  | error err =>
      rw [hread] at hok
      cases hok

/-- The card is there, and the poll says so. -/
theorem poll_answers_delivered :
    (poll tinyCashierEnv paidWorld (quotedShop tinyShop.carmis) (tinySn 1)).answer = .success ∧
      (poll tinyCashierEnv paidWorld (quotedShop tinyShop.carmis) (tinySn 1)).Truthful := by
  refine ⟨by decide, ?_⟩
  have hstock : (poll tinyCashierEnv paidWorld (quotedShop tinyShop.carmis) (tinySn 1)).calls.all
      (fun c => !c.before.shortStock c.sn) = true := by decide
  have hanswers := poll_answers tinyCashierEnv paidWorld (quotedShop tinyShop.carmis) (tinySn 1)
    (quotedShop_unique _) (rereads_of_all (by decide))
  refine hanswers.2.mpr (fun c hc _ _ => ?_)
  simpa using List.all_eq_true.mp hstock c hc

/-- The card is gone: the payment is on record, and the poll says that it waits for one. -/
theorem poll_waits_after_payment : ¬ ∀ (env : CashierEnv) (w : PollWorld) (d : DB) (sn : Text),
    d.UniqueSn → (∀ c ∈ (poll env w d sn).calls, c.Rereads) → (poll env w d sn).Truthful := by
  intro h
  have htrue := h tinyCashierEnv paidWorld (quotedShop .empty) (tinySn 1) (quotedShop_unique _)
    (rereads_of_all (by decide))
  have hwait : (poll tinyCashierEnv paidWorld (quotedShop .empty) (tinySn 1)).answer = .wait := by
    decide
  have hcommits : (poll tinyCashierEnv paidWorld (quotedShop .empty) (tinySn 1)).calls.any
      (fun c => c.before.awaitsPayment c.sn && !c.after.awaitsPayment c.sn) = true := by decide
  obtain ⟨c, hc, hboth⟩ := List.any_eq_true.mp hcommits
  obtain ⟨hbefore, hafter⟩ := Bool.and_eq_true_iff.mp hboth
  exact (htrue c hc ⟨hbefore, by simpa using hafter⟩).1 hwait

end Dufaka
