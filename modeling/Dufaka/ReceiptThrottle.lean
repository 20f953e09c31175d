import Dufaka.Machine
import Dufaka.Text
import Mathlib.Data.List.AList

/-!
# The shared wallet answers

`receiptThrottle` as interleaved steps, one for each critical section of `get` and `lead`. An entry
of the heap is a `receiptEntry`, named by its address, and has the one `lead` that was started for
it.
-/

namespace Dufaka

/-- `pay.Receipt`, without the time that no caller reads. -/
structure Receipt where
  paid : Bool
  amount : ℤ
  refunded : ℤ
  payer : Text
  deriving DecidableEq

def Receipt.zero : Receipt := ⟨false, 0, 0, []⟩

/-- An error of a fetch: one that `errors.Is` takes for `context.Canceled`, or another. -/
inductive WalletError where
  | canceled
  | failed (message : Text)
  deriving DecidableEq

inductive FetchEnd where
  | returned (item : Receipt) (err : Option WalletError)
  | panicked

namespace FetchEnd

def item : FetchEnd → Receipt
  | .returned item _ => item
  | .panicked => .zero

def err : FetchEnd → Option WalletError
  | .returned _ err => err
  | .panicked => some (.failed "查询钱包时出现异常".toList)

/-- An end that says nothing about the wallet. -/
def dropped : FetchEnd → Bool
  | .returned _ err => err = some .canceled
  | .panicked => true

end FetchEnd

/-- `inFlight` stands for `done ≠ nil`, `answeredAt` for `at`. -/
structure ReceiptEntry where
  inFlight : Bool
  answeredAt : ℤ
  item : Receipt
  err : Option WalletError

/-- How far the `lead` of an entry has come: `ended` when `fetch` is over and its bookkeeping is
not. -/
inductive Lead where
  | unborn
  | fetching (sn : Text)
  | ended (sn : Text) (r : FetchEnd)
  | finished (sn : Text) (r : FetchEnd)

/-- The error of `get`: its own context's, or the one cached with the answer. -/
inductive GetError where
  | ctx
  | wallet (err : WalletError)

inductive GetCall where
  | idle
  | looping (sn : Text)
  | waiting (sn : Text) (e : ℕ)
  | leading (sn : Text) (e : ℕ)
  | returned (item : Receipt) (fetched : Bool) (err : Option GetError)

inductive ReceiptAct where
  | tick (n : ℕ)
  | get (c : ℕ) (sn : Text)
  /-- The context of the call ends and the call sees it. -/
  | cancel (c : ℕ)
  /-- The locked part of the loop of `get`. -/
  | look (c : ℕ)
  /-- The call sees its channel closed. -/
  | wake (c : ℕ)
  | fetched (e : ℕ) (r : FetchEnd)
  /-- The deferred bookkeeping of `lead`. -/
  | settle (e : ℕ)
  | prune
  | forget (sn : Text)

structure ReceiptThrottle where
  window : ℤ
  now : ℤ
  last : AList (fun _ : Text => ℕ)
  heap : ℕ → ReceiptEntry
  leads : ℕ → Lead
  next : ℕ
  calls : ℕ → GetCall

def receiptWindow : ℤ := 10000000

def newReceiptThrottle (now : ℤ) : ReceiptThrottle :=
  ⟨receiptWindow, now, ∅, fun _ => ⟨false, 0, .zero, none⟩, fun _ => .unborn, 0, fun _ => .idle⟩

namespace ReceiptThrottle

def setCall (t : ReceiptThrottle) (c : ℕ) (p : GetCall) : ReceiptThrottle :=
  { t with calls := Function.update t.calls c p }

def setLead (t : ReceiptThrottle) (e : ℕ) (p : Lead) : ReceiptThrottle :=
  { t with leads := Function.update t.leads e p }

def setEntry (t : ReceiptThrottle) (e : ℕ) (x : ReceiptEntry) : ReceiptThrottle :=
  { t with heap := Function.update t.heap e x }

def expired (t : ReceiptThrottle) (e : ℕ) : Bool :=
  !(t.heap e).inFlight && decide (t.window ≤ t.now - (t.heap e).answeredAt)

def prune (t : ReceiptThrottle) : ReceiptThrottle :=
  if t.last.entries.length ≤ 4096 then t
  else
    { t with last := ⟨t.last.entries.filter (fun x => !t.expired x.2),
                      t.last.nodupKeys.sublist List.filter_sublist⟩ }

def forget (t : ReceiptThrottle) (sn : Text) : ReceiptThrottle := { t with last := t.last.erase sn }

def startFetch (t : ReceiptThrottle) (c : ℕ) (sn : Text) : ReceiptThrottle :=
  { ((t.setEntry t.next ⟨true, 0, .zero, none⟩).setLead t.next (.fetching sn)).setCall c
      (.leading sn t.next) with
    last := t.last.insert sn t.next
    next := t.next + 1 }

def look (t : ReceiptThrottle) (c : ℕ) (sn : Text) : ReceiptThrottle :=
  match t.last.lookup sn with
  | some e =>
      if (t.heap e).inFlight then t.setCall c (.waiting sn e)
      else if t.now - (t.heap e).answeredAt < t.window then
        t.setCall c (.returned (t.heap e).item false ((t.heap e).err.map .wallet))
      else t.startFetch c sn
  | none => t.startFetch c sn

/-- The map and the entry's time, when `lead` finds its entry still in the map. -/
def keep (t : ReceiptThrottle) (e : ℕ) (sn : Text) (r : FetchEnd) : ReceiptThrottle :=
  if t.last.lookup sn = some e then
    if r.dropped then t.forget sn
    else (t.setEntry e { t.heap e with answeredAt := t.now }).prune
  else t

def settle (t : ReceiptThrottle) (e : ℕ) (sn : Text) (r : FetchEnd) : ReceiptThrottle :=
  let t := (t.setEntry e { t.heap e with item := r.item, err := r.err }).keep e sn r
  (t.setEntry e { t.heap e with inFlight := false }).setLead e (.finished sn r)

def step (t : ReceiptThrottle) : ReceiptAct → Option ReceiptThrottle
  | .tick n => some { t with now := t.now + n }
  | .get c sn =>
      match t.calls c with
      | .idle => some (t.setCall c (.looping sn))
      | _ => none
  | .cancel c =>
      match t.calls c with
      | .looping _ => some (t.setCall c (.returned .zero false (some .ctx)))
      | .waiting _ _ => some (t.setCall c (.returned .zero false (some .ctx)))
      | .leading _ _ => some (t.setCall c (.returned .zero true (some .ctx)))
      | _ => none
  | .look c =>
      match t.calls c with
      | .looping sn => some (t.look c sn)
      | _ => none
  | .wake c =>
      match t.calls c with
      | .waiting sn e => if (t.heap e).inFlight then none else some (t.setCall c (.looping sn))
      | .leading _ e =>
          if (t.heap e).inFlight then none
          else some (t.setCall c (.returned (t.heap e).item true ((t.heap e).err.map .wallet)))
      | _ => none
  | .fetched e r =>
      match t.leads e with
      | .fetching sn => some (t.setLead e (.ended sn r))
      | _ => none
  | .settle e =>
      match t.leads e with
      | .ended sn r => some (t.settle e sn r)
      | _ => none
  | .prune => some t.prune
  | .forget sn => some (t.forget sn)

def Fetching (t : ReceiptThrottle) (e : ℕ) (sn : Text) : Prop := t.leads e = .fetching sn

def SingleFlight (t : ReceiptThrottle) : Prop :=
  ∀ sn e e', t.Fetching e sn → t.Fetching e' sn → e = e'

/-- A running fetch keeps its entry in the map, marked as in flight. -/
structure Sound (t : ReceiptThrottle) : Prop where
  kept : ∀ e sn, t.Fetching e sn → t.last.lookup sn = some e
  marked : ∀ e sn, t.Fetching e sn → (t.heap e).inFlight = true
  unborn : ∀ e, t.next ≤ e → t.leads e = .unborn

variable {t t' : ReceiptThrottle} {sn : Text} {e : ℕ}

theorem Sound.singleFlight (h : t.Sound) : t.SingleFlight := by
  intro sn e e' he he'
  have hlast := h.kept e sn he
  rw [h.kept e' sn he'] at hlast
  exact (Option.some.inj hlast).symm

theorem Sound.fetching_lt (h : t.Sound) (he : t.Fetching e sn) : e < t.next := by
  by_contra hlt
  have hunborn := h.unborn e (not_lt.mp hlt)
  rw [he] at hunborn
  cases hunborn

/-- Where the map loses an entry, the entry is not in flight. -/
theorem Sound.of_last (h : t.Sound) (hheap : ∀ e, (t'.heap e).inFlight = (t.heap e).inFlight)
    (hleads : t'.leads = t.leads) (hnext : t'.next = t.next)
    (hlast : ∀ sn e, t.Fetching e sn → t.last.lookup sn = some e → t'.last.lookup sn = some e) :
    t'.Sound := by
  have hfetching : ∀ e sn, t'.Fetching e sn → t.Fetching e sn := by
    intro e sn he
    rwa [Fetching, hleads] at he
  constructor
  · intro e sn he
    exact hlast sn e (hfetching e sn he) (h.kept e sn (hfetching e sn he))
  · intro e sn he
    rw [hheap]
    exact h.marked e sn (hfetching e sn he)
  · rw [hleads, hnext]
    exact h.unborn

theorem Sound.setCall (h : t.Sound) (c : ℕ) (p : GetCall) : (t.setCall c p).Sound :=
  h.of_last (fun _ => rfl) rfl rfl (fun _ _ _ hlast => hlast)

theorem lookup_prune (hlast : t.last.lookup sn = some e) (he : (t.heap e).inFlight = true) :
    t.prune.last.lookup sn = some e := by
  rw [prune]
  split
  case isTrue => exact hlast
  case isFalse =>
    refine AList.mem_lookup_iff.mpr (List.mem_filter.mpr ⟨AList.mem_lookup_iff.mp hlast, ?_⟩)
    simp [expired, he]

theorem Sound.prune (h : t.Sound) : t.prune.Sound := by
  have hother : t.prune.heap = t.heap ∧ t.prune.leads = t.leads ∧ t.prune.next = t.next := by
    rw [ReceiptThrottle.prune]
    split <;> exact ⟨rfl, rfl, rfl⟩
  obtain ⟨hheap, hleads, hnext⟩ := hother
  refine h.of_last (fun e => by rw [hheap]) hleads hnext (fun sn e he hlast => ?_)
  exact lookup_prune hlast (h.marked e sn he)

theorem Sound.forget (h : t.Sound) (hsn : ∀ e, ¬ t.Fetching e sn) : (t.forget sn).Sound := by
  refine h.of_last (fun _ => rfl) rfl rfl (fun sn' e he hlast => ?_)
  have hne : sn' ≠ sn := by
    rintro rfl
    exact hsn e he
  exact (AList.lookup_erase_ne hne).trans hlast

theorem Sound.startFetch (h : t.Sound) (c : ℕ) (hsn : ∀ e, ¬ t.Fetching e sn) :
    (t.startFetch c sn).Sound := by
  have hold : ∀ e sn', (t.startFetch c sn).Fetching e sn' →
      e = t.next ∧ sn' = sn ∨ e ≠ t.next ∧ sn' ≠ sn ∧ t.Fetching e sn' := by
    intro e sn' he
    have hlead : Function.update t.leads t.next (.fetching sn) e = .fetching sn' := he
    by_cases hnew : e = t.next
    · rw [hnew, Function.update_self] at hlead
      exact Or.inl ⟨hnew, (Lead.fetching.inj hlead).symm⟩
    · rw [Function.update_of_ne hnew] at hlead
      have hne : sn' ≠ sn := by
        rintro rfl
        exact hsn e hlead
      exact Or.inr ⟨hnew, hne, hlead⟩
  constructor
  · intro e sn' he
    rcases hold e sn' he with ⟨rfl, rfl⟩ | ⟨-, hne, he⟩
    · exact AList.lookup_insert t.last
    · exact (AList.lookup_insert_ne hne).trans (h.kept e sn' he)
  · intro e sn' he
    change (Function.update t.heap t.next ⟨true, 0, .zero, none⟩ e).inFlight = true
    rcases hold e sn' he with ⟨rfl, -⟩ | ⟨hne, -, he⟩
    · rw [Function.update_self]
    · rw [Function.update_of_ne hne]
      exact h.marked e sn' he
  · intro e he
    have hlt : t.next < e := he
    change Function.update t.leads t.next (.fetching sn) e = .unborn
    rw [Function.update_of_ne (by omega)]
    exact h.unborn e (by omega)

theorem Sound.look (h : t.Sound) (c : ℕ) (sn : Text) : (t.look c sn).Sound := by
  rw [ReceiptThrottle.look]
  split
  case h_1 e hlast =>
    split
    case isTrue => exact h.setCall c _
    case isFalse hidle =>
      split
      case isTrue => exact h.setCall c _
      case isFalse =>
        refine h.startFetch c (fun e' he' => hidle ?_)
        have heq := h.kept e' sn he'
        rw [hlast] at heq
        rw [Option.some.inj heq]
        exact h.marked e' sn he'
  case h_2 hnone =>
    refine h.startFetch c (fun e' he' => ?_)
    rw [h.kept e' sn he'] at hnone
    cases hnone

theorem Sound.setEntry (h : t.Sound) {x : ReceiptEntry} (hx : x.inFlight = (t.heap e).inFlight) :
    (t.setEntry e x).Sound := by
  refine h.of_last (fun e' => ?_) rfl rfl (fun _ _ _ hlast => hlast)
  change (Function.update t.heap e x e').inFlight = (t.heap e').inFlight
  by_cases he : e' = e
  · rw [he, Function.update_self, hx]
  · rw [Function.update_of_ne he]

/-- The entry of a `lead` that no longer fetches may change in any way. -/
theorem Sound.setLead (h : t.Sound) (he : e < t.next) (x : ReceiptEntry) {p : Lead}
    (hp : ∀ sn, p ≠ .fetching sn) : ((t.setEntry e x).setLead e p).Sound := by
  have hold : ∀ e' sn, ((t.setEntry e x).setLead e p).Fetching e' sn → e' ≠ e ∧
      t.Fetching e' sn := by
    intro e' sn he'
    have hlead : Function.update t.leads e p e' = .fetching sn := he'
    by_cases hsame : e' = e
    · rw [hsame, Function.update_self] at hlead
      exact (hp sn hlead).elim
    · rw [Function.update_of_ne hsame] at hlead
      exact ⟨hsame, hlead⟩
  constructor
  · intro e' sn he'
    exact h.kept e' sn (hold e' sn he').2
  · intro e' sn he'
    obtain ⟨hne, hf⟩ := hold e' sn he'
    change (Function.update t.heap e x e').inFlight = true
    rw [Function.update_of_ne hne]
    exact h.marked e' sn hf
  · intro e' he'
    have hle : t.next ≤ e' := he'
    change Function.update t.leads e p e' = .unborn
    rw [Function.update_of_ne (by omega)]
    exact h.unborn e' hle

theorem Sound.keep (h : t.Sound) {r : FetchEnd} (he : ∀ sn, ¬ t.Fetching e sn) :
    (t.keep e sn r).Sound := by
  rw [ReceiptThrottle.keep]
  split
  case isTrue hlast =>
    split
    case isTrue =>
      refine h.forget (fun e' he' => ?_)
      have heq := h.kept e' sn he'
      rw [hlast] at heq
      rw [← Option.some.inj heq] at he'
      exact he sn he'
    case isFalse =>
      have hset : (t.setEntry e { t.heap e with answeredAt := t.now }).Sound := h.setEntry rfl
      exact hset.prune
  case isFalse => exact h

theorem keep_next {r : FetchEnd} : (t.keep e sn r).next = t.next := by
  rw [ReceiptThrottle.keep]
  split
  · split
    · rfl
    · rw [ReceiptThrottle.prune]
      split <;> rfl
  · rfl

theorem Sound.settle (h : t.Sound) {r : FetchEnd} (he : t.leads e = .ended sn r) :
    (t.settle e sn r).Sound := by
  have hidle : ∀ sn', ¬ t.Fetching e sn' := by
    intro sn' hf
    rw [Fetching, he] at hf
    cases hf
  have hlt : e < t.next := by
    by_contra hle
    rw [h.unborn e (not_lt.mp hle)] at he
    cases he
  let x : ReceiptEntry := { t.heap e with item := r.item, err := r.err }
  have hset : (t.setEntry e x).Sound := h.setEntry rfl
  have hkeep : ((t.setEntry e x).keep e sn r).Sound := hset.keep hidle
  have hnext : ((t.setEntry e x).keep e sn r).next = t.next := keep_next
  exact hkeep.setLead (hnext ▸ hlt) _ (fun _ => Lead.noConfusion)

def Allowed (t : ReceiptThrottle) : ReceiptAct → Prop
  | .forget sn => ∀ e, ¬ t.Fetching e sn
  | _ => True

theorem Sound.step (h : t.Sound) {a : ReceiptAct} (ha : t.Allowed a) (hstep : t.step a = some t') :
    t'.Sound := by
  cases a with
  | tick n =>
      obtain rfl := Option.some.inj hstep
      exact h.of_last (fun _ => rfl) rfl rfl (fun _ _ _ hlast => hlast)
  | get c sn | cancel c =>
      simp only [ReceiptThrottle.step] at hstep
      split at hstep
      all_goals first
        | obtain rfl := Option.some.inj hstep
          exact h.setCall c _
        | cases hstep
  | look c =>
      simp only [ReceiptThrottle.step] at hstep
      split at hstep
      · obtain rfl := Option.some.inj hstep
        exact h.look c _
      · cases hstep
  | wake c =>
      simp only [ReceiptThrottle.step] at hstep
      split at hstep
      case h_3 => cases hstep
      all_goals
        split at hstep
        · cases hstep
        · obtain rfl := Option.some.inj hstep
          exact h.setCall c _
  | fetched e r =>
      simp only [ReceiptThrottle.step] at hstep
      split at hstep
      case h_1 sn he =>
        obtain rfl := Option.some.inj hstep
        have hset := h.setLead (h.fetching_lt he) (t.heap e) (p := .ended sn r) (fun _ =>
          Lead.noConfusion)
        rwa [ReceiptThrottle.setEntry, Function.update_eq_self] at hset
      case h_2 => cases hstep
  | settle e =>
      simp only [ReceiptThrottle.step] at hstep
      split at hstep
      case h_1 sn r he =>
        obtain rfl := Option.some.inj hstep
        exact h.settle he
      case h_2 => cases hstep
  | prune =>
      obtain rfl := Option.some.inj hstep
      exact h.prune
  | forget sn =>
      obtain rfl := Option.some.inj hstep
      exact h.forget ha

theorem new_sound (now : ℤ) : (newReceiptThrottle now).Sound := by
  constructor
  · intro e sn he
    cases he
  · intro e sn he
    cases he
  · intro e he
    rfl

/-- A forgotten order is fetched again at once, whatever fetch of it is still running. -/
theorem Sound.overlaps (h : t.Sound) {c : ℕ} (he : t.Fetching e sn) (hc : t.calls c = .idle) :
    ∃ t', Machine.run ReceiptThrottle.step t [.forget sn, .get c sn, .look c] = some t' ∧
      ¬ t'.SingleFlight := by
  let u : ReceiptThrottle := (t.forget sn).setCall c (.looping sn)
  have hnone : u.last.lookup sn = none := AList.lookup_erase sn t.last
  have hget : (t.forget sn).step (.get c sn) = some u := by
    have hidle : (t.forget sn).calls c = .idle := hc
    simp only [ReceiptThrottle.step, hidle]
    rfl
  have hlook : u.step (.look c) = some (u.startFetch c sn) := by
    have hlooping : u.calls c = .looping sn := Function.update_self ..
    simp only [ReceiptThrottle.step, hlooping, ReceiptThrottle.look, hnone]
  have hne : e ≠ t.next := (h.fetching_lt he).ne
  have hnew : (u.startFetch c sn).Fetching t.next sn := Function.update_self ..
  have hold : (u.startFetch c sn).Fetching e sn := by
    have hlead : Function.update t.leads t.next (.fetching sn) e = .fetching sn := by
      rw [Function.update_of_ne hne]
      exact he
    exact hlead
  refine ⟨u.startFetch c sn, ?_, fun hsingle => hne (hsingle sn e t.next hold hnew)⟩
  refine Machine.run_cons.mpr ⟨t.forget sn, rfl, Machine.run_cons.mpr ⟨u, hget, ?_⟩⟩
  exact Machine.run_cons.mpr ⟨u.startFetch c sn, hlook, rfl⟩

end ReceiptThrottle

variable {t : ReceiptThrottle} {now : ℤ} {acts : List ReceiptAct}

/-- While no order is forgotten in the middle of its fetch, one fetch at most is in flight for each
order; and one such call of `forget` is all that a second fetch needs. -/
theorem receipt_single_flight
    (h : Machine.run ReceiptThrottle.step (newReceiptThrottle now) acts = some t)
    (hforget : Machine.Along ReceiptThrottle.step ReceiptThrottle.Allowed
      (newReceiptThrottle now) acts) :
    t.SingleFlight ∧ ∀ sn e c, t.Fetching e sn → t.calls c = .idle →
      ∃ t', Machine.run ReceiptThrottle.step t [.forget sn, .get c sn, .look c] = some t' ∧
        ¬ t'.SingleFlight := by
  have hsound : t.Sound :=
    Machine.run_invariant (ReceiptThrottle.new_sound now)
      (fun _ _ _ hs ha hstep => hs.step ha hstep) hforget h
  refine ⟨hsound.singleFlight, fun sn e c he hc => ?_⟩
  exact hsound.overlaps he hc

def sharedFetch : List ReceiptAct :=
  [.get 0 "A1".toList, .look 0, .fetched 0 (.returned ⟨true, 5, 0, []⟩ none), .settle 0, .wake 0,
    .forget "A1".toList, .get 1 "A1".toList, .look 1, .get 2 "A1".toList, .look 2]

theorem receipt_single_flight_forgotten :
    ∃ t, Machine.run ReceiptThrottle.step (newReceiptThrottle 0) sharedFetch = some t ∧
      t.calls 1 = .leading "A1".toList 1 ∧ t.calls 2 = .waiting "A1".toList 1 ∧ t.SingleFlight ∧
      ∃ t', Machine.run ReceiptThrottle.step t [.forget "A1".toList, .get 3 "A1".toList, .look 3] =
        some t' ∧ ¬ t'.SingleFlight := by
  have hforget : Machine.Along ReceiptThrottle.step ReceiptThrottle.Allowed (newReceiptThrottle 0)
      sharedFetch := by
    refine ⟨trivial, fun t₁ h₁ => ⟨trivial, fun t₂ h₂ => ⟨trivial, fun t₃ h₃ => ?_⟩⟩⟩
    refine ⟨trivial, fun t₄ h₄ => ⟨trivial, fun t₅ h₅ => ⟨?_, fun _ _ => ?_⟩⟩⟩
    · -- the only fetch so far has ended
      obtain rfl := Option.some.inj h₁
      obtain rfl := Option.some.inj h₂
      obtain rfl := Option.some.inj h₃
      obtain rfl := Option.some.inj h₄
      obtain rfl := Option.some.inj h₅
      intro e he
      cases e with
      | zero => cases he
      | succ e => cases he
    · refine ⟨trivial, fun _ _ =>
        ⟨trivial, fun _ _ => ⟨trivial, fun _ _ => ⟨trivial, fun _ _ => ?_⟩⟩⟩⟩
      trivial
  obtain ⟨hsingle, hoverlap⟩ := receipt_single_flight rfl hforget
  exact ⟨_, rfl, rfl, rfl, hsingle, hoverlap "A1".toList 1 3 rfl rfl⟩

/-- A first caller completes the order after its answer has expired and a second one is asking
again: its `forget` takes the running fetch out of the map, and a third caller starts another
one. -/
theorem receipt_fetches_overlap :
    ∃ t, Machine.run ReceiptThrottle.step (newReceiptThrottle 0)
      [.get 0 "A1".toList, .look 0, .fetched 0 (.returned ⟨true, 5, 0, []⟩ none), .settle 0,
        .wake 0,
        .tick 10000000, .get 1 "A1".toList, .look 1, .forget "A1".toList, .get 2 "A1".toList,
        .look 2] = some t ∧ ¬ t.SingleFlight := by
  refine ⟨_, rfl, fun hsingle => ?_⟩
  have heq : 1 = 2 := hsingle "A1".toList 1 2 rfl rfl
  omega

end Dufaka
