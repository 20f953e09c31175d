import Dufaka.Turns
import Dufaka.Orders

/-!
# The orders a background pass asks the wallet about

`WaitingSNs` reads two queues, the unpaid orders with a locked quote and the expired ones within the
late window, each least recently polled first, and merges them in proportion to their shares. The
stamp `cldx_polled_at` is kept beside the tables, by the row of its order: nothing but the polling
itself reads or writes it.
-/

namespace Dufaka
open Relational Turns

def cldxPollLimit : ℕ := 200

def cldxLiveShare : ℕ := 160

def cldxLateShare : ℕ := cldxPollLimit - cldxLiveShare

/-- `CldxLateWindow`, in seconds. -/
def cldxLateWindow : ℤ := 24 * 60 * 60

inductive PollBucket where
  | live
  | late
  deriving DecidableEq

namespace PollBucket

def number : PollBucket → ℕ
  | live => 0
  | late => 1

def share : PollBucket → ℕ
  | live => cldxLiveShare
  | late => cldxLateShare

def other : PollBucket → PollBucket
  | live => late
  | late => live

/-- The conditions in which the two queries differ. -/
def admits (cutoff : ℤ) : PollBucket → Order → Bool
  | live, o => o.status = .unpaid
  | late, o => o.status = .expired && o.cldxExpiresAt.any (fun t => cutoff < t)

theorem ne_other (b : PollBucket) : b ≠ b.other := by
  cases b <;> decide

theorem eq_or_other (b c : PollBucket) : c = b ∨ c = b.other := by
  cases b <;> cases c <;> decide

theorem share_add (b : PollBucket) : b.share + b.other.share = cldxPollLimit := by
  cases b <;> rfl

theorem share_pos (b : PollBucket) : 0 < b.share := by
  cases b <;> decide

theorem number_inj {b c : PollBucket} (h : b.number = c.number) : b = c := by
  cases b <;> cases c <;> first | rfl | cases h

/-- An order waits in one bucket only. -/
theorem admits_unique {cutoff : ℤ} {b c : PollBucket} {o : Order} (h : b.admits cutoff o = true)
    (h' : c.admits cutoff o = true) : b = c := by
  cases b <;> cases c <;> simp_all [admits]

end PollBucket

structure PollRow where
  sn : Text
  bucket : PollBucket
  rn : ℕ
  deriving DecidableEq

/-- `ORDER BY cldx_polled_at ASC NULLS FIRST, id ASC`: the orders never polled come first. -/
def turn (polledAt : ℕ → Option ℤ) (e : ℕ × Order) : WithBot ℤ ×ₗ ℕ :=
  toLex ((show WithBot ℤ from polledAt e.1), e.1)

/-- `ORDER BY (rn - 1)::float8 / share, bucket, rn`; quotients of numbers this small compare as
floats exactly as they do as rationals. -/
def PollRow.place (p : PollRow) : ℚ ×ₗ ℕ ×ₗ ℕ :=
  toLex (((p.rn - 1 : ℕ) : ℚ) / p.bucket.share, toLex (p.bucket.number, p.rn))

namespace DB

/-- Whether a query admits an order: the `JOIN` on its payment way and the `WHERE`. -/
def waits (d : DB) (check : Text) (cutoff : ℤ) (b : PollBucket) (o : Order) : Bool :=
  (d.pays.get? o.payId).any (fun p => p.payCheck = check) && b.admits cutoff o &&
    o.cldxMinor.isSome && !o.deleted

def pollQueue (d : DB) (polledAt : ℕ → Option ℤ) (check : Text) (cutoff : ℤ) (b : PollBucket) :
    List (ℕ × Order) :=
  sortOn (turn polledAt) (d.orders.select (fun _ o => d.waits check cutoff b o))

/-- One of the two queries: the order numbers with their `row_number()`, cut by the `LIMIT`. -/
def pollRows (d : DB) (polledAt : ℕ → Option ℤ) (check : Text) (cutoff : ℤ) (b : PollBucket) :
    List PollRow :=
  (((d.pollQueue polledAt check cutoff b).zipIdx 1).map (fun e => ⟨e.1.2.orderSn, b, e.2⟩)).take
    cldxPollLimit

/-- What a bucket may place: its share, and what the other bucket leaves of its own. -/
def pickedRows (d : DB) (polledAt : ℕ → Option ℤ) (check : Text) (cutoff : ℤ) (b : PollBucket) :
    List PollRow :=
  (d.pollRows polledAt check cutoff b).filter (fun p => p.rn ≤ max b.share
    (cldxPollLimit - min (d.pollRows polledAt check cutoff b.other).length b.other.share))

def waitingRows (d : DB) (polledAt : ℕ → Option ℤ) (check : Text) (cutoff : ℤ) : List PollRow :=
  sortOn PollRow.place
    (d.pickedRows polledAt check cutoff .live ++ d.pickedRows polledAt check cutoff .late)

/-- `WaitingSNs` at the time `now`, in seconds. -/
def waitingSNs (d : DB) (polledAt : ℕ → Option ℤ) (check : Text) (now : ℤ) : List Text :=
  (d.waitingRows polledAt check (now - cldxLateWindow)).map PollRow.sn

structure Queued (d : DB) (polledAt : ℕ → Option ℤ) (check : Text) (cutoff : ℤ) (b : PollBucket)
    (queue : List (ℕ × Order)) : Prop where
  mem : ∀ id o, (id, o) ∈ queue ↔ d.orders.get? id = some o ∧ d.waits check cutoff b o = true
  sorted : queue.Pairwise (fun e e' => turn polledAt e < turn polledAt e')

section Queue
variable {d : DB} {polledAt : ℕ → Option ℤ} {check : Text} {cutoff : ℤ} {b : PollBucket}

theorem turn_inj {e e' : ℕ × Order} (h : turn polledAt e = turn polledAt e') : e.1 = e'.1 :=
  congrArg (fun t => (ofLex t).2) h

theorem pollQueue_queued :
    d.Queued polledAt check cutoff b (d.pollQueue polledAt check cutoff b) := by
  refine ⟨fun id o => ?_, sortOn_strict ?_⟩
  · rw [pollQueue, mem_sortOn, Table.mem_select_iff]
  · have hnodup := d.orders.select_keys_nodup (fun _ o => d.waits check cutoff b o)
    rw [List.Nodup, List.pairwise_map] at hnodup ⊢
    exact hnodup.imp (fun hne h => hne (turn_inj h))

theorem waits_admits {o : Order} (h : d.waits check cutoff b o = true) :
    b.admits cutoff o = true := by
  simp only [waits, Bool.and_eq_true] at h
  exact h.1.1.2

/-- The order numbers of a bucket are distinct. -/
theorem pollQueue_sns_nodup (hsn : d.UniqueSn) :
    ((d.pollQueue polledAt check cutoff b).map (fun e => e.2.orderSn)).Nodup := by
  have hq : d.Queued polledAt check cutoff b (d.pollQueue polledAt check cutoff b) :=
    pollQueue_queued
  rw [List.Nodup, List.pairwise_map]
  refine hq.sorted.imp_of_mem ?_
  intro e e' he he' hlt heq
  have hid := hsn e.1 e'.1 e.2 e'.2 ((hq.mem e.1 e.2).mp he).1 ((hq.mem e'.1 e'.2).mp he').1 heq
  have he₂ : e = e' := by
    have h₁ := ((hq.mem e.1 e.2).mp he).1
    have h₂ := ((hq.mem e'.1 e'.2).mp he').1
    rw [hid, h₂] at h₁
    exact Prod.ext hid (Option.some.inj h₁).symm
  rw [he₂] at hlt
  exact lt_irrefl _ hlt

/-- The buckets share no order number. -/
theorem pollQueue_sns_disjoint (hsn : d.UniqueSn) {c : PollBucket} {sn : Text}
    (hb : sn ∈ (d.pollQueue polledAt check cutoff b).map (fun e => e.2.orderSn))
    (hc : sn ∈ (d.pollQueue polledAt check cutoff c).map (fun e => e.2.orderSn)) : b = c := by
  obtain ⟨⟨i, o⟩, ho, rfl⟩ := List.mem_map.mp hb
  obtain ⟨⟨j, o'⟩, ho', he⟩ := List.mem_map.mp hc
  obtain ⟨hi, hw⟩ := (pollQueue_queued.mem i o).mp ho
  obtain ⟨hj, hw'⟩ := (pollQueue_queued.mem j o').mp ho'
  obtain rfl := hsn j i o' o hj hi he
  rw [hi] at hj
  obtain rfl := Option.some.inj hj
  exact PollBucket.admits_unique (waits_admits hw) (waits_admits hw')

end Queue

section Rows
variable {d : DB} {polledAt : ℕ → Option ℤ} {check : Text} {cutoff : ℤ} {b : PollBucket}

theorem length_pollRows : (d.pollRows polledAt check cutoff b).length =
    min (d.pollQueue polledAt check cutoff b).length cldxPollLimit := by
  rw [pollRows, List.length_take, List.length_map, List.length_zipIdx, min_comm]

def pickLimit (d : DB) (polledAt : ℕ → Option ℤ) (check : Text) (cutoff : ℤ) (b : PollBucket) : ℕ :=
  max b.share (cldxPollLimit - min (d.pollRows polledAt check cutoff b.other).length b.other.share)

theorem take_numbers (n k : ℕ) : (List.range' 1 n).take k = List.range' 1 (min n k) := by
  rcases le_total n k with h | h
  · rw [min_eq_left h, List.take_range'_of_length_le h]
  · rw [min_eq_right h, List.take_range'_of_length_ge h]

/-- The numbers of the rows count them. -/
theorem rn_pollRows : (d.pollRows polledAt check cutoff b).map PollRow.rn =
    List.range' 1 (d.pollRows polledAt check cutoff b).length := by
  have hrn : ((d.pollQueue polledAt check cutoff b).zipIdx 1).map
      (PollRow.rn ∘ fun e => (⟨e.1.2.orderSn, b, e.2⟩ : PollRow)) =
      List.range' 1 (d.pollQueue polledAt check cutoff b).length := List.zipIdx_map_snd 1 _
  rw [length_pollRows, pollRows, List.map_take, List.map_map, hrn, take_numbers]

theorem sn_pollRows : (d.pollRows polledAt check cutoff b).map PollRow.sn =
    ((d.pollQueue polledAt check cutoff b).map (fun e => e.2.orderSn)).take cldxPollLimit := by
  have hsn : ((d.pollQueue polledAt check cutoff b).zipIdx 1).map
      (PollRow.sn ∘ fun e => (⟨e.1.2.orderSn, b, e.2⟩ : PollRow)) =
      (((d.pollQueue polledAt check cutoff b).zipIdx 1).map Prod.fst).map (fun e =>
        e.2.orderSn) := by
    rw [List.map_map]
    rfl
  rw [pollRows, List.map_take, List.map_map, hsn, List.zipIdx_map_fst]

theorem bucket_pollRows {p : PollRow} (h : p ∈ d.pollRows polledAt check cutoff b) :
    p.bucket = b := by
  obtain ⟨e, -, rfl⟩ := List.mem_map.mp (List.mem_of_mem_take h)
  rfl

/-- Rows numbered from `s` on that lie below `s + m` are the first `m`. -/
theorem filter_rn_lt {l : List PollRow} {s : ℕ} (m : ℕ)
    (h : l.map PollRow.rn = List.range' s l.length) :
    l.filter (fun p => p.rn < s + m) = l.take m := by
  induction l generalizing s m with
  | nil => simp
  | cons p l ih =>
      rw [List.map_cons, List.length_cons, List.range'_succ] at h
      obtain ⟨hp, hl⟩ := List.cons.inj h
      cases m with
      | zero =>
          rw [List.take_zero, List.filter_eq_nil_iff]
          intro q hq
          have hmem : q.rn ∈ (p :: l).map PollRow.rn := List.mem_map_of_mem hq
          rw [List.map_cons, hp, hl, ← List.range'_succ, List.mem_range'_1] at hmem
          simp only [add_zero, decide_eq_true_eq]
          omega
      | succ m =>
          have hlt : p.rn < s + (m + 1) := by omega
          rw [List.filter_cons_of_pos (by simpa using hlt), List.take_succ_cons, ← ih m hl,
            Nat.add_assoc, Nat.add_comm 1 m]

theorem pickedRows_eq : d.pickedRows polledAt check cutoff b =
    (d.pollRows polledAt check cutoff b).take (d.pickLimit polledAt check cutoff b) := by
  rw [← filter_rn_lt (d.pickLimit polledAt check cutoff b) rn_pollRows, pickedRows]
  apply List.filter_congr
  intro p _
  rw [decide_eq_decide, pickLimit]
  omega

theorem bucket_pickedRows {p : PollRow} (h : p ∈ d.pickedRows polledAt check cutoff b) :
    p.bucket = b := bucket_pollRows (List.mem_filter.mp h).1

theorem rn_pickedRows : (d.pickedRows polledAt check cutoff b).map PollRow.rn =
    List.range' 1 (d.pickedRows polledAt check cutoff b).length := by
  rw [pickedRows_eq, List.map_take, rn_pollRows, take_numbers, List.length_take, min_comm]

/-- In one bucket the rows stand in the order of their numbers. -/
theorem place_lt_place {p q : PollRow} (hb : p.bucket = q.bucket) (hp : 1 ≤ p.rn)
    (h : p.rn < q.rn) :
    p.place < q.place := by
  have hshare : (0 : ℚ) < q.bucket.share := by exact_mod_cast q.bucket.share_pos
  have hrank : ((p.rn - 1 : ℕ) : ℚ) < ((q.rn - 1 : ℕ) : ℚ) := by
    have : p.rn - 1 < q.rn - 1 := by omega
    exact_mod_cast this
  rw [PollRow.place, PollRow.place, Prod.Lex.toLex_lt_toLex, hb]
  exact Or.inl (div_lt_div_of_pos_right hrank hshare)

theorem pickedRows_sorted :
    (d.pickedRows polledAt check cutoff b).Pairwise (fun p q => p.place < q.place) := by
  have hlt : ((d.pickedRows polledAt check cutoff b).map PollRow.rn).Pairwise (· < ·) := by
    rw [rn_pickedRows]
    exact List.pairwise_lt_range'
  have hpos : ∀ p ∈ d.pickedRows polledAt check cutoff b, 1 ≤ p.rn := by
    intro p hp
    have hmem : p.rn ∈ (d.pickedRows polledAt check cutoff b).map PollRow.rn :=
      List.mem_map_of_mem hp
    rw [rn_pickedRows, List.mem_range'_1] at hmem
    exact hmem.1
  refine (List.pairwise_map.mp hlt).imp_of_mem ?_
  intro p q hp hq h
  exact place_lt_place ((bucket_pickedRows hp).trans (bucket_pickedRows hq).symm) (hpos p hp) h

theorem bucket_of_place {p q : PollRow} (h : p.place = q.place) : p.bucket = q.bucket := by
  have hnumber : p.bucket.number = q.bucket.number :=
    congrArg (fun t => (ofLex (ofLex t).2).1) h
  exact PollBucket.number_inj hnumber

theorem places_nodup : ((d.pickedRows polledAt check cutoff .live ++
    d.pickedRows polledAt check cutoff .late).map PollRow.place).Nodup := by
  have hone : ∀ c : PollBucket, ((d.pickedRows polledAt check cutoff c).map PollRow.place).Nodup :=
    fun c => List.pairwise_map.mpr (pickedRows_sorted.imp ne_of_lt)
  rw [List.map_append]
  refine (hone .live).append (hone .late) ?_
  intro place hlive hlate
  obtain ⟨p, hp, rfl⟩ := List.mem_map.mp hlive
  obtain ⟨q, hq, he⟩ := List.mem_map.mp hlate
  have hb := bucket_of_place he
  rw [bucket_pickedRows hp, bucket_pickedRows hq] at hb
  cases hb

theorem filter_pickedRows (c : PollBucket) :
    (d.pickedRows polledAt check cutoff c).filter (fun p => p.bucket = b) =
      if c = b then d.pickedRows polledAt check cutoff c else [] := by
  split_ifs with h
  · rw [List.filter_eq_self]
    intro p hp
    rw [bucket_pickedRows hp, decide_eq_true h]
  · rw [List.filter_eq_nil_iff]
    intro p hp
    rw [bucket_pickedRows hp, decide_eq_true_eq]
    exact h

/-- The merge keeps the rows of a bucket and their order. -/
theorem filter_waitingRows :
    (d.waitingRows polledAt check cutoff).filter (fun p => p.bucket = b) =
      d.pickedRows polledAt check cutoff b := by
  have hfilter : (d.pickedRows polledAt check cutoff .live ++
      d.pickedRows polledAt check cutoff .late).filter (fun p => p.bucket = b) =
      d.pickedRows polledAt check cutoff b := by
    rw [List.filter_append, filter_pickedRows, filter_pickedRows]
    cases b <;> simp
  rw [waitingRows, filter_sortOn _ places_nodup, hfilter]
  exact (eq_sortOn_of_strict pickedRows_sorted (List.Perm.refl _)).symm

theorem waitingRows_merged : Merged PollRow.bucket (fun p => p.rn - 1) PollBucket.share
    (d.waitingRows polledAt check cutoff) := by
  constructor
  · refine sortOn_sorted.imp ?_
    intro p q h
    have hfirst : ((p.rn - 1 : ℕ) : ℚ) / p.bucket.share ≤
        ((q.rn - 1 : ℕ) : ℚ) / q.bucket.share := by
      rcases Prod.Lex.toLex_le_toLex.mp h with h | h
      · exact le_of_lt h
      · exact le_of_eq h.1
    rw [div_le_div_iff₀ (by exact_mod_cast p.bucket.share_pos)
      (by exact_mod_cast q.bucket.share_pos)] at hfirst
    exact_mod_cast hfirst
  · intro b
    rw [filter_waitingRows]
    have hrank : (d.pickedRows polledAt check cutoff b).map (fun p => p.rn - 1) =
        ((d.pickedRows polledAt check cutoff b).map PollRow.rn).map (fun n => n - 1) := by
      rw [List.map_map]
      rfl
    rw [hrank, rn_pickedRows, List.range'_eq_map_range, List.map_map]
    conv_rhs => rw [← List.map_id (List.range _)]
    apply List.map_congr_left
    intro i _
    simp

theorem length_pickedRows : (d.pickedRows polledAt check cutoff b).length =
    min (d.pollRows polledAt check cutoff b).length (d.pickLimit polledAt check cutoff b) := by
  rw [pickedRows_eq, List.length_take, min_comm]

theorem length_waitingRows : (d.waitingRows polledAt check cutoff).length =
    (d.pickedRows polledAt check cutoff .live).length +
      (d.pickedRows polledAt check cutoff .late).length := by
  rw [waitingRows, length_sortOn, List.length_append]

end Rows

section Numbers
variable {d : DB} {polledAt : ℕ → Option ℤ} {check : Text} {cutoff : ℤ} {b : PollBucket}

def queueSNs (d : DB) (polledAt : ℕ → Option ℤ) (check : Text) (cutoff : ℤ) (b : PollBucket) :
    List Text := (d.pollQueue polledAt check cutoff b).map (fun e => e.2.orderSn)

theorem length_pollRows_queueSNs : (d.pollRows polledAt check cutoff b).length =
    min (d.queueSNs polledAt check cutoff b).length cldxPollLimit := by
  rw [length_pollRows, queueSNs, List.length_map]

/-- The rows placed are the first of their bucket. -/
theorem sn_pickedRows :
    (d.pickedRows polledAt check cutoff b).map PollRow.sn <+: d.queueSNs polledAt check cutoff
      b := by
  rw [pickedRows_eq, List.map_take, sn_pollRows, List.take_take]
  exact List.take_prefix _ _

theorem bucket_iff_sn (hsn : d.UniqueSn) {p : PollRow}
    (h : p ∈ d.waitingRows polledAt check cutoff) :
    p.sn ∈ d.queueSNs polledAt check cutoff b ↔ p.bucket = b := by
  have hown : p.sn ∈ d.queueSNs polledAt check cutoff p.bucket := by
    have hp : p ∈ (d.waitingRows polledAt check cutoff).filter (fun q => q.bucket = p.bucket) :=
      List.mem_filter.mpr ⟨h, by simp⟩
    rw [filter_waitingRows] at hp
    exact sn_pickedRows.subset (List.mem_map_of_mem hp)
  constructor
  · intro hb
    exact pollQueue_sns_disjoint hsn hown hb
  · rintro rfl
    exact hown

/-- Among rows of the merge, the order numbers of a bucket are those of its rows. -/
theorem filter_sns (hsn : d.UniqueSn) {rows : List PollRow}
    (h : rows ⊆ d.waitingRows polledAt check cutoff) :
    (rows.map PollRow.sn).filter (· ∈ d.queueSNs polledAt check cutoff b) =
      (rows.filter (fun p => p.bucket = b)).map PollRow.sn := by
  rw [List.filter_map]
  congr 1
  apply List.filter_congr
  intro p hp
  simp [bucket_iff_sn hsn (h hp)]

theorem waitingRows_sns_nodup (hsn : d.UniqueSn) :
    ((d.waitingRows polledAt check cutoff).map PollRow.sn).Nodup := by
  have hone : ∀ c : PollBucket, ((d.pickedRows polledAt check cutoff c).map PollRow.sn).Nodup :=
    fun c => (pollQueue_sns_nodup hsn).sublist sn_pickedRows.sublist
  have hperm : ((d.waitingRows polledAt check cutoff).map PollRow.sn).Perm
      ((d.pickedRows polledAt check cutoff .live).map PollRow.sn ++
        (d.pickedRows polledAt check cutoff .late).map PollRow.sn) := by
    rw [← List.map_append]
    exact sortOn_perm.map PollRow.sn
  rw [hperm.nodup_iff]
  refine (hone .live).append (hone .late) ?_
  intro sn hlive hlate
  cases pollQueue_sns_disjoint hsn (sn_pickedRows.subset hlive) (sn_pickedRows.subset hlate)

/-- The entries of one bucket in the list. -/
theorem filter_waitingSNs (hsn : d.UniqueSn) :
    ((d.waitingRows polledAt check cutoff).map PollRow.sn).filter
      (· ∈ d.queueSNs polledAt check cutoff b) =
      (d.pickedRows polledAt check cutoff b).map PollRow.sn := by
  rw [filter_sns hsn (List.Subset.refl _), filter_waitingRows]

/-- The entries of a bucket are its first orders. -/
theorem waitingSNs_first (hsn : d.UniqueSn) (now : ℤ) :
    (d.waitingSNs polledAt check now).filter
        (· ∈ d.queueSNs polledAt check (now - cldxLateWindow) b) <+:
      d.queueSNs polledAt check (now - cldxLateWindow) b := by
  rw [waitingSNs, filter_waitingSNs hsn]
  exact sn_pickedRows

theorem waitingSNs_waiting (hsn : d.UniqueSn) {now : ℤ} {sn : Text}
    (h : sn ∈ d.waitingSNs polledAt check now) :
    ∃ b, sn ∈ d.queueSNs polledAt check (now - cldxLateWindow) b := by
  obtain ⟨p, hp, rfl⟩ := List.mem_map.mp h
  exact ⟨p.bucket, (bucket_iff_sn hsn hp).mpr rfl⟩

/-- Every prefix of the list holds the share of each bucket, or all that was placed of it. -/
theorem prefix_share (hsn : d.UniqueSn) (b : PollBucket) (k : ℕ) :
    b.share * k / cldxPollLimit ≤
        (((d.waitingRows polledAt check cutoff).map PollRow.sn).take k |>.filter
          (· ∈ d.queueSNs polledAt check cutoff b)).length ∨
      (((d.waitingRows polledAt check cutoff).map PollRow.sn).take k).filter
          (· ∈ d.queueSNs polledAt check cutoff b) =
        ((d.waitingRows polledAt check cutoff).map PollRow.sn).filter
          (· ∈ d.queueSNs polledAt check cutoff b) := by
  have htake : (d.waitingRows polledAt check cutoff).take k ⊆ d.waitingRows polledAt check cutoff :=
    (List.take_prefix k _).subset
  rw [← List.map_take, filter_sns hsn htake, filter_sns hsn (List.Subset.refl _), List.length_map]
  have hsides : ∀ p ∈ d.waitingRows polledAt check cutoff, p.bucket = b ∨ p.bucket = b.other :=
    fun p _ => b.eq_or_other p.bucket
  rcases waitingRows_merged.share_le hsides b.ne_other b.other.share_pos k with h | h
  · rw [b.share_add] at h
    exact Or.inl h
  · right
    conv_rhs => rw [← List.take_append_drop k (d.waitingRows polledAt check cutoff)]
    rw [List.filter_append, h, List.append_nil]

end Numbers
end DB

structure PollList (live late list : List Text) : Prop where
  nodup : list.Nodup
  length : list.length = min 200 (min live.length 200 + min late.length 200)
  waiting : ∀ sn ∈ list, sn ∈ live ∨ sn ∈ late
  liveLeast : min live.length 160 ≤ (list.filter (· ∈ live)).length
  lateLeast : min late.length 40 ≤ (list.filter (· ∈ late)).length
  liveFirst : list.filter (· ∈ live) <+: live
  lateFirst : list.filter (· ∈ late) <+: late
  liveShare : ∀ k, 4 * k / 5 ≤ ((list.take k).filter (· ∈ live)).length ∨
    (list.take k).filter (· ∈ live) = list.filter (· ∈ live)
  lateShare : ∀ k, k / 5 ≤ ((list.take k).filter (· ∈ late)).length ∨
    (list.take k).filter (· ∈ late) = list.filter (· ∈ late)

/-- Whatever the orders and their stamps, the list is what is left of the limit for each bucket in
the order of the turns, and every prefix of it gives the live orders four fifths and the late ones
one. -/
theorem waitingSNs_shares (d : DB) (polledAt : ℕ → Option ℤ) (check : Text) (now : ℤ)
    (hsn : d.UniqueSn) :
    ∃ live late, d.Queued polledAt check (now - cldxLateWindow) .live live ∧
      d.Queued polledAt check (now - cldxLateWindow) .late late ∧
      PollList (live.map (fun e => e.2.orderSn)) (late.map (fun e => e.2.orderSn))
        (d.waitingSNs polledAt check now) := by
  let cutoff := now - cldxLateWindow
  let live := d.queueSNs polledAt check cutoff .live
  let late := d.queueSNs polledAt check cutoff .late
  refine ⟨d.pollQueue polledAt check cutoff .live, d.pollQueue polledAt check cutoff .late,
    DB.pollQueue_queued, DB.pollQueue_queued, ?_⟩
  change PollList live late ((d.waitingRows polledAt check cutoff).map PollRow.sn)
  have hrows : ∀ b, (d.pollRows polledAt check cutoff b).length =
      min (d.queueSNs polledAt check cutoff b).length 200 := fun b => DB.length_pollRows_queueSNs
  have hlive : (d.pickedRows polledAt check cutoff .live).length =
      min (min live.length 200) (max 160 (200 - min (min late.length 200) 40)) := by
    rw [DB.length_pickedRows, DB.pickLimit, hrows, hrows]
    rfl
  have hlate : (d.pickedRows polledAt check cutoff .late).length =
      min (min late.length 200) (max 40 (200 - min (min live.length 200) 160)) := by
    rw [DB.length_pickedRows, DB.pickLimit, hrows, hrows]
    rfl
  have hentries : ∀ b, ((d.waitingRows polledAt check cutoff).map PollRow.sn).filter
      (· ∈ d.queueSNs polledAt check cutoff b) =
      (d.pickedRows polledAt check cutoff b).map PollRow.sn := fun b => DB.filter_waitingSNs hsn
  constructor
  · exact DB.waitingRows_sns_nodup hsn
  · rw [List.length_map, DB.length_waitingRows, hlive, hlate]
    omega
  · intro sn hmem
    obtain ⟨b, hb⟩ := DB.waitingSNs_waiting hsn hmem
    cases b with
    | live => exact Or.inl hb
    | late => exact Or.inr hb
  · rw [hentries .live, List.length_map, hlive]
    omega
  · rw [hentries .late, List.length_map, hlate]
    omega
  · exact DB.waitingSNs_first hsn now
  · exact DB.waitingSNs_first hsn now
  · intro k
    refine (DB.prefix_share hsn .live k).imp_left (fun h => le_trans ?_ h)
    simp only [PollBucket.share, cldxLiveShare, cldxPollLimit]
    omega
  · intro k
    refine (DB.prefix_share hsn .late k).imp_left (fun h => le_trans ?_ h)
    simp only [PollBucket.share, cldxLateShare, cldxLiveShare, cldxPollLimit]
    omega

def quotedOrder (n : ℕ) (status : OrderStatus) (expires : ℤ) : Order :=
  { tinyOrder n with status := status, cldxMinor := some 100, cldxExpiresAt := some expires }

def pollShop : DB :=
  { tinyShop with
    pays := .ofList [(1, ⟨1, "cldx".toList, [], [], [], false⟩)]
    orders := .ofList [(1, quotedOrder 1 .unpaid 500), (2, quotedOrder 2 .unpaid 500),
      (3, quotedOrder 3 .unpaid 500), (4, quotedOrder 4 .expired 300), (5,
        quotedOrder 5 .expired 300)] }

def pollStamps : ℕ → Option ℤ
  | 1 => some 90
  | 3 => some 80
  | 4 => some 80
  | _ => none

theorem pollShop_unique : pollShop.UniqueSn := by
  have hall : ∀ e ∈ pollShop.orders.entries, ∀ e' ∈ pollShop.orders.entries,
      e.2.orderSn = e'.2.orderSn → e.1 = e'.1 := by decide
  intro i j o o' ho ho' he
  exact hall (i, o) ((pollShop.orders.mem_entries_iff i o).mpr ho) (j, o')
    ((pollShop.orders.mem_entries_iff j o').mpr ho') he

theorem waitingSNs_shares_five : ∃ live late,
    pollShop.Queued pollStamps "cldx".toList (100 - cldxLateWindow) .live live ∧
      pollShop.Queued pollStamps "cldx".toList (100 - cldxLateWindow) .late late ∧
      PollList (live.map (fun e => e.2.orderSn)) (late.map (fun e => e.2.orderSn))
        (pollShop.waitingSNs pollStamps "cldx".toList 100) :=
  waitingSNs_shares pollShop pollStamps "cldx".toList 100 pollShop_unique

end Dufaka
