import Dufaka.Machine
import Dufaka.WaitingOrders

/-!
# Rotation of the background polling

A tick of `SyncCldx` reads the waiting orders and starts them in that order, as many as its workers
reach before the deadline; each order it asked the wallet about is stamped. Meanwhile the clock goes
on, the tables change, and a cashier page may ask about an order and stamp it.
-/

namespace Dufaka
open Relational Turns Machine

/-- A tick under way: the orders not reached yet, those it started in their order, and those its
workers are still asking about. -/
structure PollTick where
  rest : List Text
  started : List Text
  asking : List Text
  deriving DecidableEq

structure PollState where
  db : DB
  /-- `orders.cldx_polled_at`, by row. -/
  polledAt : ℕ → Option ℤ
  /-- `time.Now().Unix()`. -/
  now : ℤ
  tick : Option PollTick

inductive PollAction where
  /-- The clock moves. -/
  | wait (n : ℕ)
  /-- Orders arrive, leave and change. -/
  | change (d : DB)
  /-- Another poller asked about an order. -/
  | stamp (sn : Text)
  /-- A tick begins and reads the list. -/
  | read
  /-- A worker takes the next order of the list. -/
  | start
  /-- A worker is done with its order; `fetched` is whether it asked the wallet itself. -/
  | done (sn : Text) (fetched : Bool)
  /-- The tick ends, wherever it is in its list. -/
  | stop

def DB.keepsNumbers (d d' : DB) : Bool :=
  d.orders.entries.all (fun e => (d'.orders.get? e.1).any (fun o => o.orderSn = e.2.orderSn)) &&
    decide ((d'.orders.entries.map (fun e => e.2.orderSn)).Nodup)

def PollState.markCldxPolled (s : PollState) (sn : Text) : PollState :=
  { s with polledAt := fun i =>
      if (s.db.orders.get? i).any (fun o => o.orderSn = sn) then some s.now else s.polledAt i }

def pollStep (workers : ℕ) (s : PollState) : PollAction → Option PollState
  | .wait n => some { s with now := s.now + n }
  | .change d => if s.db.keepsNumbers d then some { s with db := d } else none
  | .stamp sn => some (s.markCldxPolled sn)
  | .read =>
      match s.tick with
      | some _ => none
      | none =>
          some { s with tick := some ⟨s.db.waitingSNs s.polledAt "cldx".toList s.now, [], []⟩ }
  | .start =>
      match s.tick with
      | some ⟨sn :: rest, started, asking⟩ =>
          if asking.length < max 1 workers then
            some { s with tick := some ⟨rest, started ++ [sn], sn :: asking⟩ }
          else none
      | _ => none
  | .done sn fetched =>
      match s.tick with
      | some t =>
          if sn ∈ t.asking then
            let s := { s with tick := some { t with asking := t.asking.erase sn } }
            some (if fetched then s.markCldxPolled sn else s)
          else none
      | none => none
  | .stop =>
      match s.tick with
      | some ⟨_, _, []⟩ => some { s with tick := none }
      | _ => none

/-! ### The numbers of the orders -/

section Numbers
variable {d d' : DB}

theorem DB.uniqueSn_iff :
    (d.orders.entries.map (fun e => e.2.orderSn)).Nodup ↔ d.UniqueSn := by
  constructor
  · intro h i j o o' ho ho' he
    have hi := (d.orders.mem_entries_iff i o).mpr ho
    have hj := (d.orders.mem_entries_iff j o').mpr ho'
    exact congrArg Prod.fst (List.inj_on_of_nodup_map h hi hj he)
  · intro h
    rw [List.Nodup, List.pairwise_map]
    refine d.orders.sorted.imp_of_mem ?_
    rintro ⟨i, o⟩ ⟨j, o'⟩ hi hj hlt he
    have hij : i = j := h i j o o' ((d.orders.mem_entries_iff i o).mp hi)
      ((d.orders.mem_entries_iff j o').mp hj) he
    have hlt' : i < j := hlt
    omega

theorem DB.keepsNumbers_iff : d.keepsNumbers d' = true ↔
    (∀ i o, d.orders.get? i = some o →
      ∃ o', d'.orders.get? i = some o' ∧ o'.orderSn = o.orderSn) ∧ d'.UniqueSn := by
  rw [DB.keepsNumbers, Bool.and_eq_true, decide_eq_true_eq, DB.uniqueSn_iff]
  refine and_congr_left' ?_
  simp only [List.all_eq_true, Option.any_eq_true, decide_eq_true_eq, Prod.forall,
    Table.mem_entries_iff]

/-- Every operation of the shop keeps the order numbers. -/
theorem DB.OrdersMoved.keepsNumbers {op : Op} (hm : d.OrdersMoved op d') (h : d.UniqueSn) :
    d.keepsNumbers d' = true := by
  refine DB.keepsNumbers_iff.mpr ⟨fun i o ho => ?_, hm.uniqueSn h⟩
  obtain ⟨o', ho', hmove⟩ := hm.old i o ho
  exact ⟨o', ho', hmove.fixed.orderSn⟩

end Numbers

/-! ### What every step keeps -/

/-- A tick asks about orders it started, and the orders of its list are orders of the table. -/
structure PollTick.Sound (t : PollTick) (d : DB) : Prop where
  asking : t.asking ⊆ t.started
  known : ∀ sn ∈ t.started ++ t.rest, ∃ i o, d.orders.get? i = some o ∧ o.orderSn = sn

/-- The state of the polling: order numbers are unique, and no stamp is ahead of the clock. -/
structure PollState.Sound (s : PollState) : Prop where
  unique : s.db.UniqueSn
  past : ∀ i t, s.polledAt i = some t → t ≤ s.now
  tick : ∀ t, s.tick = some t → t.Sound s.db

structure PollState.Later (s s' : PollState) : Prop where
  now : s.now ≤ s'.now
  numbers : ∀ i o, s.db.orders.get? i = some o →
    ∃ o', s'.db.orders.get? i = some o' ∧ o'.orderSn = o.orderSn
  stamps : ∀ i t, s.polledAt i = some t → ∃ t', s'.polledAt i = some t' ∧ t ≤ t'

namespace PollState
variable {s s' s'' : PollState}

theorem Later.refl (s : PollState) : s.Later s :=
  ⟨le_refl _, fun _ o ho => ⟨o, ho, rfl⟩, fun _ t ht => ⟨t, ht, le_refl t⟩⟩

theorem Later.trans (h : s.Later s') (h' : s'.Later s'') : s.Later s'' where
  now := le_trans h.now h'.now
  numbers i o ho := by
    obtain ⟨o', ho', he⟩ := h.numbers i o ho
    obtain ⟨o'', ho'', he'⟩ := h'.numbers i o' ho'
    exact ⟨o'', ho'', he'.trans he⟩
  stamps i t ht := by
    obtain ⟨t', ht', hle⟩ := h.stamps i t ht
    obtain ⟨t'', ht'', hle'⟩ := h'.stamps i t' ht'
    exact ⟨t'', ht'', le_trans hle hle'⟩

/-- A step that leaves tables and stamps alone. -/
theorem Later.of_eq (hdb : s'.db = s.db) (hstamps : s'.polledAt = s.polledAt)
    (hnow : s.now ≤ s'.now) :
    s.Later s' := by
  refine ⟨hnow, fun i o ho => ⟨o, ?_, rfl⟩, fun i t ht => ⟨t, ?_, le_refl t⟩⟩
  · rw [hdb, ho]
  · rw [hstamps, ht]

theorem markCldxPolled_self {i : ℕ} {o : Order} (ho : s.db.orders.get? i = some o) :
    (s.markCldxPolled o.orderSn).polledAt i = some s.now := by
  simp [markCldxPolled, ho]

theorem markCldxPolled_cases (sn : Text) (i : ℕ) :
    (s.markCldxPolled sn).polledAt i = some s.now ∨
      (s.markCldxPolled sn).polledAt i = s.polledAt i := by
  rw [markCldxPolled]
  dsimp only
  split_ifs
  · exact Or.inl rfl
  · exact Or.inr rfl

/-- A stamp is the clock, which no earlier stamp is ahead of. -/
theorem Sound.markCldxPolled (h : s.Sound) (sn : Text) :
    s.Later (s.markCldxPolled sn) ∧ (s.markCldxPolled sn).Sound := by
  refine ⟨⟨le_refl _, fun i o ho => ⟨o, ho, rfl⟩, fun i t ht => ?_⟩,
    ⟨h.unique, fun i t ht => ?_, h.tick⟩⟩
  · rcases markCldxPolled_cases (s := s) sn i with hi | hi
    · exact ⟨s.now, hi, h.past i t ht⟩
    · exact ⟨t, hi.trans ht, le_refl t⟩
  · rcases markCldxPolled_cases (s := s) sn i with hi | hi
    · rw [hi] at ht
      exact le_of_eq (Option.some.inj ht).symm
    · exact h.past i t (hi.symm.trans ht)

/-- A step that changes the tick alone. -/
theorem Sound.setTick (h : s.Sound) {t : PollTick} (ht : t.Sound s.db) :
    s.Later { s with tick := some t } ∧ PollState.Sound { s with tick := some t } := by
  refine ⟨.of_eq rfl rfl (le_refl _), ⟨h.unique, h.past, fun t' ht' => ?_⟩⟩
  rw [← Option.some.inj ht']
  exact ht

/-- The orders of the list are orders of the table. -/
theorem waitingSNs_known (hsn : s.db.UniqueSn) {sn : Text}
    (h : sn ∈ s.db.waitingSNs s.polledAt "cldx".toList s.now) :
    ∃ i o, s.db.orders.get? i = some o ∧ o.orderSn = sn := by
  obtain ⟨b, hb⟩ := DB.waitingSNs_waiting hsn h
  obtain ⟨⟨i, o⟩, he, hsn'⟩ := List.mem_map.mp hb
  exact ⟨i, o, ((DB.pollQueue_queued.mem i o).mp he).1, hsn'⟩

theorem read_some {workers : ℕ} (h : pollStep workers s .read = some s') :
    s' = { s with tick := some ⟨s.db.waitingSNs s.polledAt "cldx".toList s.now, [], []⟩ } := by
  simp only [pollStep] at h
  split at h
  · cases h
  · exact (Option.some.inj h).symm

theorem start_some {workers : ℕ} (h : pollStep workers s .start = some s') :
    ∃ sn rest started asking, s.tick = some ⟨sn :: rest, started, asking⟩ ∧
      s' = { s with tick := some ⟨rest, started ++ [sn], sn :: asking⟩ } := by
  simp only [pollStep] at h
  split at h
  · rename_i sn rest started asking ht
    split_ifs at h
    exact ⟨sn, rest, started, asking, ht, (Option.some.inj h).symm⟩
  · cases h

theorem done_some {workers : ℕ} {sn : Text} {fetched : Bool}
    (h : pollStep workers s (.done sn fetched) = some s') :
    ∃ t, s.tick = some t ∧ sn ∈ t.asking ∧
      s' = bif fetched
        then ({ s with tick := some { t with asking := t.asking.erase sn } } :
          PollState).markCldxPolled sn
        else { s with tick := some { t with asking := t.asking.erase sn } } := by
  simp only [pollStep] at h
  split at h
  · rename_i t ht
    split_ifs at h with hmem hfetched
    · exact ⟨t, ht, hmem, by rw [hfetched]; exact (Option.some.inj h).symm⟩
    · exact ⟨t, ht, hmem, by rw [eq_false_of_ne_true hfetched]; exact (Option.some.inj h).symm⟩
  · cases h

theorem stop_some {workers : ℕ} (h : pollStep workers s .stop = some s') :
    (∃ rest started, s.tick = some ⟨rest, started, []⟩) ∧ s' = { s with tick := none } := by
  simp only [pollStep] at h
  split at h
  · rename_i rest started ht
    exact ⟨⟨rest, started, ht⟩, (Option.some.inj h).symm⟩
  · cases h

theorem Sound.step {workers : ℕ} {a : PollAction} (h : s.Sound)
    (hs : pollStep workers s a = some s') :
    s.Later s' ∧ s'.Sound := by
  cases a with
  | wait n =>
      obtain rfl := Option.some.inj hs
      have hnow : s.now ≤ s.now + n := by omega
      exact ⟨.of_eq rfl rfl hnow, ⟨h.unique, fun i t ht => le_trans (h.past i t ht) hnow, h.tick⟩⟩
  | change d =>
      simp only [pollStep, Option.ite_none_right_eq_some, Option.some.injEq] at hs
      obtain ⟨hkeeps, rfl⟩ := hs
      obtain ⟨hrows, hunique⟩ := DB.keepsNumbers_iff.mp hkeeps
      refine ⟨⟨le_refl _, hrows, fun i t ht => ⟨t, ht, le_refl t⟩⟩,
        ⟨hunique, h.past, fun t ht => ?_⟩⟩
      refine ⟨(h.tick t ht).asking, fun sn hsn => ?_⟩
      obtain ⟨i, o, ho, he⟩ := (h.tick t ht).known sn hsn
      obtain ⟨o', ho', he'⟩ := hrows i o ho
      exact ⟨i, o', ho', he'.trans he⟩
  | stamp sn =>
      obtain rfl := Option.some.inj hs
      exact h.markCldxPolled sn
  | read =>
      obtain rfl := read_some hs
      exact h.setTick ⟨List.Subset.refl [], fun sn hsn => waitingSNs_known h.unique hsn⟩
  | start =>
      obtain ⟨sn, rest, started, asking, ht, rfl⟩ := start_some hs
      obtain ⟨hasking, hknown⟩ := h.tick _ ht
      refine h.setTick ⟨?_, ?_⟩
      · intro x hx
        rcases List.mem_cons.mp hx with rfl | hx
        · exact List.mem_append_right _ (List.mem_singleton_self x)
        · exact List.mem_append_left _ (hasking hx)
      · intro x hx
        refine hknown x ?_
        simpa using hx
  | done sn fetched =>
      obtain ⟨t, ht, -, rfl⟩ := done_some hs
      obtain ⟨hasking, hknown⟩ := h.tick t ht
      have ht' : PollTick.Sound { t with asking := t.asking.erase sn } s.db :=
        ⟨List.Subset.trans List.erase_subset hasking, hknown⟩
      obtain ⟨hlater, hsound⟩ := h.setTick ht'
      cases fetched with
      | false => exact ⟨hlater, hsound⟩
      | true =>
          obtain ⟨hlater', hsound'⟩ := hsound.markCldxPolled sn
          exact ⟨hlater.trans hlater', hsound'⟩
  | stop =>
      obtain ⟨-, rfl⟩ := stop_some hs
      exact ⟨.of_eq rfl rfl (le_refl _), ⟨h.unique, h.past, fun t ht => nomatch ht⟩⟩

/-- Every run keeps the stamps, and its states are sound. -/
theorem Sound.run {workers : ℕ} {as : List PollAction} (h : s.Sound)
    (hr : Machine.run (pollStep workers) s as = some s') : s.Later s' ∧ s'.Sound :=
  Machine.run_preorder Later.refl (fun _ _ _ => Later.trans) h (fun _ _ _ hs => hs.step) hr

/-! ### One tick -/

/-- Until the next one reads, a tick has started the orders before those left on its list. -/
theorem tick_list {workers : ℕ} {list : List Text} {as : List PollAction}
    (hrun : Machine.run (pollStep workers) s as = some s') (hread : .read ∉ as)
    (h : ∀ t, s.tick = some t → t.started ++ t.rest = list) :
    ∀ t, s'.tick = some t → t.started ++ t.rest = list := by
  induction as generalizing s with
  | nil =>
      obtain rfl := Option.some.inj hrun
      exact h
  | cons a as ih =>
      obtain ⟨s₁, ha, has⟩ := run_cons.mp hrun
      obtain ⟨hne, hread⟩ := not_or.mp (List.mem_cons.not.mp hread)
      refine ih has hread ?_
      cases a with
      | wait n =>
          obtain rfl := Option.some.inj ha
          exact h
      | change d =>
          simp only [pollStep, Option.ite_none_right_eq_some, Option.some.injEq] at ha
          obtain ⟨-, rfl⟩ := ha
          exact h
      | stamp sn =>
          obtain rfl := Option.some.inj ha
          exact h
      | read => exact absurd rfl hne
      | start =>
          obtain ⟨sn, rest, started, asking, ht, rfl⟩ := start_some ha
          intro t ht'
          rw [← Option.some.inj ht', ← h _ ht, List.append_assoc]
          rfl
      | done sn fetched =>
          obtain ⟨t, ht, -, rfl⟩ := done_some ha
          intro t' ht'
          have hnext : some { t with asking := t.asking.erase sn } = some t' := by
            rw [← ht']
            cases fetched <;> rfl
          rw [← Option.some.inj hnext]
          exact h t ht
      | stop =>
          obtain ⟨-, rfl⟩ := stop_some ha
          exact fun t ht => nomatch ht

/-- On a prefix of the list, an order started before another of its bucket has the earlier turn. -/
theorem turn_lt_of_started {d : DB} {polledAt : ℕ → Option ℤ} {check : Text} {now : ℤ}
    {b : PollBucket} {started : List Text} {i j : ℕ} {o o' : Order} (hsn : d.UniqueSn)
    (hpre : started <+: d.waitingSNs polledAt check now) (ho : d.orders.get? i = some o)
    (hw : d.waits check (now - cldxLateWindow) b o = true) (ho' : d.orders.get? j = some o')
    (hw' : d.waits check (now - cldxLateWindow) b o' = true) (hmem : o.orderSn ∈ started)
    (hnot : o'.orderSn ∉ started) :
    turn polledAt (i, o) < turn polledAt (j, o') := by
  let queue := d.pollQueue polledAt check (now - cldxLateWindow) b
  have hq : d.Queued polledAt check (now - cldxLateWindow) b queue := DB.pollQueue_queued
  have hi : (i, o) ∈ queue := (hq.mem i o).mpr ⟨ho, hw⟩
  have hj : (j, o') ∈ queue := (hq.mem j o').mpr ⟨ho', hw'⟩
  -- the orders of the bucket that were started are the first of its queue
  let picked := started.filter (· ∈ d.queueSNs polledAt check (now - cldxLateWindow) b)
  have hpicked : picked <+: queue.map (fun e => e.2.orderSn) :=
    (hpre.filter _).trans (DB.waitingSNs_first hsn now)
  have htake : picked = (queue.take picked.length).map (fun e => e.2.orderSn) := by
    rw [List.map_take]
    exact List.prefix_iff_eq_take.mp hpicked
  have hfirst : (i, o) ∈ queue.take picked.length := by
    have hqueued : o.orderSn ∈ d.queueSNs polledAt check (now - cldxLateWindow) b :=
      List.mem_map_of_mem (f := fun e => e.2.orderSn) hi
    have hin : o.orderSn ∈ picked := List.mem_filter.mpr ⟨hmem, decide_eq_true hqueued⟩
    rw [htake] at hin
    obtain ⟨⟨k, o₁⟩, he, hsn₁⟩ := List.mem_map.mp hin
    have hk := ((hq.mem k o₁).mp (List.mem_of_mem_take he)).1
    obtain rfl := hsn k i o₁ o hk ho hsn₁
    rw [ho] at hk
    rw [Option.some.inj hk]
    exact he
  have hlater : (j, o') ∈ queue.drop picked.length := by
    rw [← List.take_append_drop picked.length queue] at hj
    refine (List.mem_append.mp hj).resolve_left (fun hin => hnot ?_)
    have hin' : o'.orderSn ∈ picked := by
      rw [htake]
      exact List.mem_map_of_mem (f := fun e => e.2.orderSn) hin
    exact List.mem_of_mem_filter hin'
  have hsorted := hq.sorted
  rw [← List.take_append_drop picked.length queue] at hsorted
  exact (List.pairwise_append.mp hsorted).2.2 _ hfirst _ hlater

/-- An order whose turn is later carries no earlier stamp. -/
theorem stamp_le_of_turn_lt {polledAt : ℕ → Option ℤ} {e e' : ℕ × Order} {t : ℤ}
    (h : turn polledAt e < turn polledAt e') (ht : polledAt e.1 = some t) :
    ∃ t', polledAt e'.1 = some t' ∧ t ≤ t' := by
  have hle : ((t : ℤ) : WithBot ℤ) ≤ (show WithBot ℤ from polledAt e'.1) := by
    have hfirst : (show WithBot ℤ from polledAt e.1) ≤ (show WithBot ℤ from polledAt e'.1) := by
      rcases Prod.Lex.toLex_lt_toLex.mp h with h | h
      · exact le_of_lt h
      · exact le_of_eq h.1
    rw [ht] at hfirst
    exact hfirst
  exact WithBot.coe_le_iff.mp hle

end PollState

/-- Between two polls of an order by ticks, every order of its bucket was asked about: it carries a
stamp of that time, or the later tick started it too. -/
theorem polling_rotates {workers : ℕ} {s₀ s₁ s₂ s₃ s₄ : PollState}
    {before between rest : List PollAction} {b : PollBucket} {i j : ℕ} {o o' : Order}
    (h₀ : s₀.Sound) (h₁ : run (pollStep workers) s₀ before = some s₁)
    (h₂ : run (pollStep workers) s₁ (.done o.orderSn true :: between) = some s₂)
    (h₃ : run (pollStep workers) s₂ (.read :: rest) = some s₃) (hrest : .read ∉ rest)
    (h₄ : pollStep workers s₃ (.done o.orderSn true) = some s₄) (ho : s₂.db.orders.get? i = some o)
    (hw : s₂.db.waits "cldx".toList (s₂.now - cldxLateWindow) b o = true)
    (ho' : s₂.db.orders.get? j = some o')
    (hw' : s₂.db.waits "cldx".toList (s₂.now - cldxLateWindow) b o' = true) :
    (∃ t, s₄.tick = some t ∧ o'.orderSn ∈ t.started) ∨
      ∃ t, s₄.polledAt j = some t ∧ s₁.now ≤ t ∧ t ≤ s₃.now := by
  obtain ⟨-, hs₁⟩ := h₀.run h₁
  obtain ⟨s₁', hdone, hbetween⟩ := run_cons.mp h₂
  obtain ⟨-, hs₁'⟩ := hs₁.step hdone
  obtain ⟨hlater₂, hs₂⟩ := hs₁'.run hbetween
  -- the first poll stamps the order's row, which the later stamps do not fall below
  obtain ⟨ti, hti, hle⟩ : ∃ t, s₂.polledAt i = some t ∧ s₁.now ≤ t := by
    obtain ⟨t, ht, hmem, rfl⟩ := PollState.done_some hdone
    obtain ⟨k, o₁, ho₁, hsn₁⟩ := (hs₁.tick t ht).known o.orderSn
      (List.mem_append_left _ ((hs₁.tick t ht).asking hmem))
    obtain ⟨o₂, ho₂, hsn₂⟩ := hlater₂.numbers k o₁ ho₁
    obtain rfl := hs₂.unique k i o₂ o ho₂ ho (hsn₂.trans hsn₁)
    refine hlater₂.stamps k s₁.now ?_
    rw [← hsn₁]
    exact PollState.markCldxPolled_self ho₁
  obtain ⟨s₂', hread, hrun⟩ := run_cons.mp h₃
  obtain ⟨hlater₂', hs₂'⟩ := hs₂.step hread
  obtain ⟨hlater₃, hs₃⟩ := hs₂'.run hrun
  obtain ⟨hlater₄, hs₄⟩ := hs₃.step h₄
  have hlist : ∀ t, s₃.tick = some t →
      t.started ++ t.rest = s₂.db.waitingSNs s₂.polledAt "cldx".toList s₂.now := by
    refine PollState.tick_list hrun hrest ?_
    obtain rfl := PollState.read_some hread
    intro t ht
    rw [← Option.some.inj ht]
    rfl
  obtain ⟨t, ht, hmem, rfl⟩ := PollState.done_some h₄
  by_cases hstarted : o'.orderSn ∈ t.started
  · exact Or.inl ⟨{ t with asking := t.asking.erase o.orderSn }, rfl, hstarted⟩
  · right
    have hpre : t.started <+: s₂.db.waitingSNs s₂.polledAt "cldx".toList s₂.now :=
      ⟨t.rest, hlist t ht⟩
    have hturn := PollState.turn_lt_of_started hs₂.unique hpre ho hw ho' hw'
      ((hs₃.tick t ht).asking hmem) hstarted
    obtain ⟨tj, htj, hij⟩ := PollState.stamp_le_of_turn_lt hturn hti
    obtain ⟨t', ht', hj⟩ := (hlater₂'.trans (hlater₃.trans hlater₄)).stamps j tj htj
    exact ⟨t', ht', by omega, hs₄.past j t' ht'⟩

def pollStart : PollState := ⟨pollShop, pollStamps, 100, none⟩

theorem pollStart_sound : pollStart.Sound := by
  refine ⟨pollShop_unique, fun i t ht => ?_, fun t ht => nomatch ht⟩
  have hstamp : pollStamps i = some t := ht
  change t ≤ 100
  unfold pollStamps at hstamp
  split at hstamp <;> cases hstamp <;> omega

theorem pollShop_list : pollShop.waitingSNs pollStamps "cldx".toList 100 =
    [tinySn 2, tinySn 5, tinySn 3, tinySn 1, tinySn 4] := by decide +kernel

/-- After the second order was polled it is the last of the live ones. -/
theorem pollShop_list_again :
    pollShop.waitingSNs (pollStart.markCldxPolled (tinySn 2)).polledAt "cldx".toList 100 =
      [tinySn 3, tinySn 5, tinySn 1, tinySn 2, tinySn 4] := by decide +kernel

/-- The second order, polled by two ticks, does not pass the first one. -/
theorem polling_rotates_again : ∃ s₁ s₂ s₃ s₄ : PollState,
    run (pollStep 8) pollStart [.read, .start] = some s₁ ∧
    run (pollStep 8) s₁ [.done (tinySn 2) true, .stop] = some s₂ ∧
    run (pollStep 8) s₂ [.read, .start, .start, .start, .start] = some s₃ ∧
    pollStep 8 s₃ (.done (tinySn 2) true) = some s₄ ∧
    ((∃ t, s₄.tick = some t ∧ tinySn 1 ∈ t.started) ∨
      ∃ t, s₄.polledAt 1 = some t ∧ s₁.now ≤ t ∧ t ≤ s₃.now) := by
  let stamps := (pollStart.markCldxPolled (tinySn 2)).polledAt
  have h₁ : run (pollStep 8) pollStart [.read, .start] = some ⟨pollShop, pollStamps, 100,
      some ⟨[tinySn 5, tinySn 3, tinySn 1, tinySn 4], [tinySn 2], [tinySn 2]⟩⟩ := by
    have hread : pollStep 8 pollStart .read = some ⟨pollShop, pollStamps, 100,
        some ⟨[tinySn 2, tinySn 5, tinySn 3, tinySn 1, tinySn 4], [], []⟩⟩ := by
      rw [← pollShop_list]
      rfl
    exact run_cons.mpr ⟨_, hread, rfl⟩
  have h₂ : run (pollStep 8) ⟨pollShop, pollStamps, 100,
      some ⟨[tinySn 5, tinySn 3, tinySn 1, tinySn 4], [tinySn 2], [tinySn 2]⟩⟩
      [.done (tinySn 2) true, .stop] = some ⟨pollShop, stamps, 100, none⟩ := rfl
  have h₃ : run (pollStep 8) ⟨pollShop, stamps, 100, none⟩ [.read, .start, .start, .start, .start] =
      some ⟨pollShop, stamps, 100, some ⟨[tinySn 4], [tinySn 3, tinySn 5, tinySn 1, tinySn 2],
        [tinySn 2, tinySn 1, tinySn 5, tinySn 3]⟩⟩ := by
    have hread : pollStep 8 ⟨pollShop, stamps, 100, none⟩ .read = some ⟨pollShop, stamps, 100,
        some ⟨[tinySn 3, tinySn 5, tinySn 1, tinySn 2, tinySn 4], [], []⟩⟩ := by
      rw [← pollShop_list_again]
      rfl
    exact run_cons.mpr ⟨_, hread, rfl⟩
  have ho : pollShop.orders.get? 2 = some (quotedOrder 2 .unpaid 500) := rfl
  have ho' : pollShop.orders.get? 1 = some (quotedOrder 1 .unpaid 500) := rfl
  refine ⟨_, _, _, _, h₁, h₂, h₃, rfl, ?_⟩
  exact polling_rotates (b := .live) pollStart_sound h₁ h₂ h₃ (by simp) rfl ho rfl ho' rfl

end Dufaka
