import Mathlib.Data.List.Sort
import Mathlib.Tactic

/-!
# Queues served by turn

Rows sorted by a key that tells them apart, and two queues merged in proportion to their shares: the
row of rank `r` in its queue stands at `r / share`. Every prefix of the merge holds its share of
each queue, or all of it.
-/

namespace Turns
variable {α κ : Type*}

section Sorting
variable [LinearOrder κ] {key : α → κ} {l : List α}

def sortOn (key : α → κ) (l : List α) : List α := l.insertionSort (fun a b => key a ≤ key b)

theorem sortOn_perm : (sortOn key l).Perm l := List.perm_insertionSort _ l

@[simp] theorem mem_sortOn {a : α} : a ∈ sortOn key l ↔ a ∈ l := sortOn_perm.mem_iff

@[simp] theorem length_sortOn : (sortOn key l).length = l.length := sortOn_perm.length_eq

theorem sortOn_sorted : (sortOn key l).Pairwise (fun a b => key a ≤ key b) := by
  have : Std.Total (fun a b : α => key a ≤ key b) := ⟨fun a b => le_total (key a) (key b)⟩
  have : IsTrans α (fun a b : α => key a ≤ key b) := ⟨fun a b c => le_trans⟩
  exact List.pairwise_insertionSort _ l

/-- Keys that differ sort strictly. -/
theorem sortOn_strict (h : (l.map key).Nodup) :
    (sortOn key l).Pairwise (fun a b => key a < key b) := by
  have hnodup : ((sortOn key l).map key).Nodup := (sortOn_perm.map key).nodup_iff.mpr h
  rw [List.Nodup, List.pairwise_map] at hnodup
  exact (sortOn_sorted.and hnodup).imp (fun {a b} hab => lt_of_le_of_ne hab.1 hab.2)

/-- A strictly sorted list of the same rows is the sorted one. -/
theorem eq_sortOn_of_strict {m : List α} (hm : m.Pairwise (fun a b => key a < key b))
    (hp : m.Perm l) :
    m = sortOn key l := by
  have hkeys : (m.map key).Nodup := List.pairwise_map.mpr (hm.imp ne_of_lt)
  have hl : (l.map key).Nodup := (hp.map key).nodup_iff.mp hkeys
  refine (hp.trans sortOn_perm.symm).eq_of_pairwise ?_ hm (sortOn_strict hl)
  intro a b _ _ hab hba
  exact absurd (lt_trans hab hba) (lt_irrefl _)

/-- The rows of a sorted list that pass a test are the sorted rows that pass it. -/
theorem filter_sortOn (p : α → Bool) (h : (l.map key).Nodup) :
    (sortOn key l).filter p = sortOn key (l.filter p) :=
  eq_sortOn_of_strict ((sortOn_strict h).filter p) (sortOn_perm.filter p)

end Sorting

section Prefix
variable {l : List α} {p : α → Bool}

theorem filter_take (k : ℕ) :
    (l.take k).filter p = (l.filter p).take ((l.take k).filter p).length := by
  have hpre : (l.take k).filter p <+: l.filter p := (List.take_prefix k l).filter p
  exact List.prefix_iff_eq_take.mp hpre

theorem filter_drop (k : ℕ) :
    (l.drop k).filter p = (l.filter p).drop ((l.take k).filter p).length := by
  have hsplit : (l.take k).filter p ++ (l.drop k).filter p = l.filter p := by
    rw [← List.filter_append, List.take_append_drop]
  rw [← hsplit, List.drop_left]

end Prefix

/-- Queues merged in proportion to their shares: each keeps its own order, and the row of rank `r`
stands at `r / share`, compared across queues without the division. -/
structure Merged {β : Type*} [DecidableEq β] (side : α → β) (rank : α → ℕ) (share : β → ℕ)
    (l : List α) : Prop where
  ordered : l.Pairwise (fun a b => rank a * share (side b) ≤ rank b * share (side a))
  ranked : ∀ b, (l.filter (fun a => side a = b)).map rank =
    List.range (l.filter (fun a => side a = b)).length

namespace Merged
variable {β : Type*} [DecidableEq β] {side : α → β} {rank : α → ℕ} {share : β → ℕ} {l : List α}
  {b b' : β}

theorem rank_get (h : Merged side rank share l) (b : β) {i : ℕ}
    (hi : i < (l.filter (fun a => side a = b)).length) :
    rank (l.filter (fun a => side a = b))[i] = i := by
  have hget : ((l.filter (fun a => side a = b)).map rank)[i]? = some i := by
    rw [h.ranked b, List.getElem?_range hi]
  rw [List.getElem?_map, List.getElem?_eq_getElem hi, Option.map_some] at hget
  exact Option.some.inj hget

/-- While a queue has rows left after a prefix, the rows of the other one in the prefix stand before
its next row. -/
theorem ahead (h : Merged side rank share l) (k : ℕ) {n n' : ℕ}
    (hn : ((l.take k).filter (fun a => side a = b)).length = n)
    (hn' : ((l.take k).filter (fun a => side a = b')).length = n' + 1)
    (hleft : (l.drop k).filter (fun a => side a = b) ≠ []) : n' * share b ≤ n * share b' := by
  rw [filter_drop, hn, ne_eq, List.drop_eq_nil_iff, not_le] at hleft
  have hlast : n' < (l.filter (fun a => side a = b')).length := by
    have hle := ((List.take_prefix k l).filter (fun a => decide (side a = b'))).length_le
    omega
  -- the last row of the other queue in the prefix, and the next row of this one after it
  have hy : (l.filter (fun a => side a = b'))[n'] ∈ (l.take k).filter (fun a => side a = b') := by
    rw [filter_take, hn']
    exact List.mem_take_iff_getElem.mpr ⟨n', by omega, rfl⟩
  have hx : (l.filter (fun a => side a = b))[n] ∈ (l.drop k).filter (fun a => side a = b) := by
    rw [filter_drop, hn]
    exact List.mem_drop_iff_getElem.mpr ⟨0, by omega, by simp⟩
  obtain ⟨hytake, hyside⟩ := List.mem_filter.mp hy
  obtain ⟨hxdrop, hxside⟩ := List.mem_filter.mp hx
  have hsplit := h.ordered
  rw [← List.take_append_drop k l] at hsplit
  have hle := (List.pairwise_append.mp hsplit).2.2 _ hytake _ hxdrop
  rw [h.rank_get b' hlast, h.rank_get b hleft, of_decide_eq_true hyside,
    of_decide_eq_true hxside] at hle
  exact hle

/-- Every prefix holds its share of a queue, or the whole of it. -/
theorem share_le (h : Merged side rank share l) (hsides : ∀ a ∈ l, side a = b ∨ side a = b')
    (hne : b ≠ b') (hpos : 0 < share b') (k : ℕ) :
    share b * k / (share b + share b') ≤ ((l.take k).filter (fun a => side a = b)).length ∨
      (l.drop k).filter (fun a => side a = b) = [] := by
  by_cases hleft : (l.drop k).filter (fun a => side a = b) = []
  · exact Or.inr hleft
  · left
    have hk : (l.take k).length = k := by
      rw [List.length_take, min_eq_left]
      by_contra! hlt
      rw [List.drop_eq_nil_of_le (le_of_lt hlt)] at hleft
      exact hleft rfl
    have hother : (l.take k).filter (fun a => !decide (side a = b)) =
        (l.take k).filter (fun a => side a = b') := by
      apply List.filter_congr
      intro a ha
      rcases hsides a (List.mem_of_mem_take ha) with h | h
      · simp [h, hne]
      · simp [h, hne.symm]
    have hcount := List.length_eq_length_filter_add (l := l.take k) (fun a => side a = b)
    rw [hk, hother] at hcount
    generalize hn : ((l.take k).filter (fun a => side a = b)).length = n at hcount ⊢
    have hlt : share b * k < (n + 1) * (share b + share b') := by
      cases hn' : ((l.take k).filter (fun a => side a = b')).length with
      | zero =>
          rw [hn', add_zero] at hcount
          subst hcount
          nlinarith
      | succ n' =>
          have hle := h.ahead k hn hn' hleft
          rw [hn'] at hcount
          subst hcount
          nlinarith
    exact Nat.lt_succ_iff.mp ((Nat.div_lt_iff_lt_mul (by omega)).mpr hlt)

end Merged
end Turns
