import Mathlib.Algebra.BigOperators.Group.List.Basic
import Mathlib.Order.Basic
import Mathlib.Tactic

/-!
# Finite tables in primary-key order

A table is a finite map from numeric keys to rows, kept as its entries in increasing key order, so
that a scan of the entries is already a scan `ORDER BY id` and no key occurs twice. Writing a row
replaces or inserts it (`put`); a bulk update maps every row and keeps the keys (`mapRows`). Sums
and counts over a table change by exactly the row that was written.
-/

namespace Relational

def putEntry {α : Type*} (i : ℕ) (a : α) : List (ℕ × α) → List (ℕ × α)
  | [] => [(i, a)]
  | e :: es =>
      if i < e.1 then (i, a) :: e :: es
      else if i = e.1 then (i, a) :: es
      else e :: putEntry i a es

def getEntry {α : Type*} (i : ℕ) : List (ℕ × α) → Option α
  | [] => none
  | e :: es => if e.1 = i then some e.2 else getEntry i es

abbrev KeySorted {α : Type*} (l : List (ℕ × α)) : Prop := l.Pairwise (fun a b => a.1 < b.1)

section Entries
variable {α : Type*}

theorem fst_mem_putEntry {i : ℕ} {a : α} {l : List (ℕ × α)} {e : ℕ × α}
    (h : e ∈ putEntry i a l) : e = (i, a) ∨ e ∈ l := by
  induction l with
  | nil => simpa [putEntry] using h
  | cons b l ih =>
      simp only [putEntry] at h
      split_ifs at h with h₁ h₂
      · simpa using h
      · rcases List.mem_cons.mp h with h | h
        · exact Or.inl h
        · exact Or.inr (List.mem_cons_of_mem _ h)
      · rcases List.mem_cons.mp h with h | h
        · exact Or.inr (by simp [h])
        · rcases ih h with h | h
          · exact Or.inl h
          · exact Or.inr (List.mem_cons_of_mem _ h)

theorem putEntry_sorted (i : ℕ) (a : α) {l : List (ℕ × α)} (h : KeySorted l) :
    KeySorted (putEntry i a l) := by
  induction l with
  | nil => simp [putEntry]
  | cons e l ih =>
      obtain ⟨he, hl⟩ := List.pairwise_cons.mp h
      simp only [putEntry]
      split_ifs with h₁ h₂
      · refine List.pairwise_cons.mpr ⟨?_, h⟩
        intro b hb
        rcases List.mem_cons.mp hb with rfl | hb
        · exact h₁
        · exact lt_trans h₁ (he b hb)
      · exact List.pairwise_cons.mpr ⟨fun b hb => h₂ ▸ he b hb, hl⟩
      · refine List.pairwise_cons.mpr ⟨?_, ih hl⟩
        intro b hb
        rcases fst_mem_putEntry hb with rfl | hb
        · show e.1 < i
          omega
        · exact he b hb

theorem getEntry_eq_none_of_lt {i : ℕ} {l : List (ℕ × α)} (h : ∀ e ∈ l, i < e.1) :
    getEntry i l = none := by
  induction l with
  | nil => rfl
  | cons e l ih =>
      have he := h e (by simp)
      rw [getEntry, if_neg (by omega)]
      exact ih (fun b hb => h b (by simp [hb]))

theorem getEntry_putEntry (i j : ℕ) (a : α) (l : List (ℕ × α)) :
    getEntry j (putEntry i a l) = if j = i then some a else getEntry j l := by
  induction l with
  | nil => simp only [putEntry, getEntry, eq_comm]
  | cons e l ih =>
      by_cases h₁ : i < e.1
      · simp only [putEntry, if_pos h₁]
        rw [getEntry]
        simp only [eq_comm]
      · by_cases h₂ : i = e.1
        · subst h₂
          simp only [putEntry, lt_irrefl, if_false, if_true, getEntry]
          by_cases hj : j = e.1
          · simp [hj]
          · rw [if_neg (fun h => hj h.symm), if_neg hj, if_neg (fun h => hj h.symm)]
        · simp only [putEntry, if_neg h₁, if_neg h₂, getEntry, ih]
          by_cases hj : j = i
          · rw [if_pos hj, if_pos hj, if_neg (by omega)]
          · rw [if_neg hj, if_neg hj]

theorem mem_iff_getEntry {l : List (ℕ × α)} (h : KeySorted l) (i : ℕ) (a : α) :
    (i, a) ∈ l ↔ getEntry i l = some a := by
  induction l with
  | nil => simp [getEntry]
  | cons e l ih =>
      obtain ⟨he, hl⟩ := List.pairwise_cons.mp h
      rw [getEntry]
      split_ifs with hi
      · constructor
        · intro hm
          rcases List.mem_cons.mp hm with rfl | hm
          · rfl
          · have := he _ hm
            simp only at this
            omega
        · intro hs
          have : e = (i, a) := Prod.ext hi (Option.some.inj hs)
          simp [this]
      · rw [← ih hl, List.mem_cons]
        exact ⟨fun hm => hm.resolve_left (fun h => hi (by rw [← h])), Or.inr⟩

theorem sum_putEntry (f : ℕ → α → ℤ) (i : ℕ) (a : α) {l : List (ℕ × α)} (h : KeySorted l) :
    ((putEntry i a l).map (fun e => f e.1 e.2)).sum =
      (l.map (fun e => f e.1 e.2)).sum + f i a - (getEntry i l).elim 0 (f i) := by
  induction l with
  | nil => simp [putEntry, getEntry]
  | cons e l ih =>
      obtain ⟨he, hl⟩ := List.pairwise_cons.mp h
      simp only [putEntry]
      split_ifs with h₁ h₂
      · have hn : getEntry i (e :: l) = none := by
          apply getEntry_eq_none_of_lt
          intro b hb
          rcases List.mem_cons.mp hb with rfl | hb
          · exact h₁
          · exact lt_trans h₁ (he b hb)
        rw [hn]
        simp only [List.map_cons, List.sum_cons, Option.elim_none]
        ring
      · subst h₂
        simp only [getEntry, if_true, List.map_cons, List.sum_cons, Option.elim_some]
        ring
      · rw [getEntry, if_neg (fun h => h₂ h.symm)]
        simp only [List.map_cons, List.sum_cons, ih hl]
        ring

end Entries

/-- A finite map from keys to rows, in key order. -/
structure Table (α : Type*) where
  entries : List (ℕ × α)
  sorted : KeySorted entries
  deriving DecidableEq

namespace Table
variable {α β : Type*}

def empty : Table α := ⟨[], List.Pairwise.nil⟩

def get? (t : Table α) (i : ℕ) : Option α := getEntry i t.entries

def put (t : Table α) (i : ℕ) (a : α) : Table α :=
  ⟨putEntry i a t.entries, putEntry_sorted i a t.sorted⟩

/-- The table holding the given rows; a later row replaces an earlier one of the same key. -/
def ofList (l : List (ℕ × α)) : Table α := l.foldl (fun t e => t.put e.1 e.2) empty

def select (t : Table α) (p : ℕ → α → Bool) : List (ℕ × α) := t.entries.filter (fun e => p e.1 e.2)

def find? (t : Table α) (p : ℕ → α → Bool) : Option (ℕ × α) := t.entries.find? (fun e => p e.1 e.2)

def mapRows (t : Table α) (f : ℕ → α → α) : Table α :=
  ⟨t.entries.map (fun e => (e.1, f e.1 e.2)), by
    have h := t.sorted
    simp only [KeySorted, List.pairwise_map] at h ⊢
    exact h⟩

def modify (t : Table α) (i : ℕ) (f : α → α) : Table α :=
  t.mapRows (fun j a => if j = i then f a else a)

def erase (t : Table α) (i : ℕ) : Table α :=
  ⟨t.entries.filter (fun e => e.1 ≠ i), t.sorted.filter _⟩

def keep (t : Table α) (p : ℕ → α → Bool) : Table α :=
  ⟨t.entries.filter (fun e => p e.1 e.2), t.sorted.filter _⟩

def sum (t : Table α) (f : ℕ → α → ℤ) : ℤ := (t.entries.map (fun e => f e.1 e.2)).sum

def count (t : Table α) (p : ℕ → α → Bool) : ℤ := t.sum (fun i a => if p i a then 1 else 0)

@[simp] theorem get?_empty (i : ℕ) : (empty : Table α).get? i = none := rfl

@[simp] theorem sum_empty (f : ℕ → α → ℤ) : (empty : Table α).sum f = 0 := rfl

theorem get?_put (t : Table α) (i j : ℕ) (a : α) :
    (t.put i a).get? j = if j = i then some a else t.get? j := getEntry_putEntry i j a t.entries

@[simp] theorem get?_put_self (t : Table α) (i : ℕ) (a : α) : (t.put i a).get? i = some a := by
  rw [get?_put, if_pos rfl]

theorem get?_put_of_ne (t : Table α) {i j : ℕ} (a : α) (h : j ≠ i) :
    (t.put i a).get? j = t.get? j := by
  rw [get?_put, if_neg h]

/-- A row found after a write is the one written, or was there before. -/
theorem get?_put_some {t : Table α} {i j : ℕ} {a b : α} (h : (t.put i a).get? j = some b) :
    (j = i ∧ b = a) ∨ (j ≠ i ∧ t.get? j = some b) := by
  rw [get?_put] at h
  split_ifs at h with hj
  · exact Or.inl ⟨hj, (Option.some.inj h).symm⟩
  · exact Or.inr ⟨hj, h⟩

theorem mem_entries_iff (t : Table α) (i : ℕ) (a : α) :
    (i, a) ∈ t.entries ↔ t.get? i = some a := mem_iff_getEntry t.sorted i a

theorem mem_select_iff (t : Table α) (p : ℕ → α → Bool) (i : ℕ) (a : α) :
    (i, a) ∈ t.select p ↔ t.get? i = some a ∧ p i a = true := by
  rw [select, List.mem_filter, mem_entries_iff]

theorem mem_select_keys {t : Table α} {p : ℕ → α → Bool} {i : ℕ} :
    i ∈ (t.select p).map Prod.fst ↔ ∃ a, t.get? i = some a ∧ p i a = true := by
  simp only [List.mem_map, Prod.exists, mem_select_iff]
  exact ⟨fun ⟨j, a, ha, hj⟩ => ⟨a, hj ▸ ha⟩, fun ⟨a, ha⟩ => ⟨i, a, ha, rfl⟩⟩

theorem select_keys_nodup (t : Table α) (p : ℕ → α → Bool) :
    ((t.select p).map Prod.fst).Nodup := by
  rw [List.Nodup, List.pairwise_map]
  exact (t.sorted.filter _).imp (fun h => ne_of_lt h)

theorem select_keep (t : Table α) (p q : ℕ → α → Bool) :
    (t.keep q).select p = t.select (fun i a => p i a && q i a) := List.filter_filter

theorem get?_keep_some {t : Table α} {p : ℕ → α → Bool} {i : ℕ} {a : α} :
    (t.keep p).get? i = some a ↔ t.get? i = some a ∧ p i a = true := by
  rw [← mem_entries_iff, ← mem_entries_iff]
  exact List.mem_filter

theorem find?_some {t : Table α} {p : ℕ → α → Bool} {i : ℕ} {a : α}
    (h : t.find? p = some (i, a)) : t.get? i = some a ∧ p i a = true := by
  refine ⟨(t.mem_entries_iff i a).mp (List.mem_of_find?_eq_some h), ?_⟩
  simpa using List.find?_some h

theorem find?_none {t : Table α} {p : ℕ → α → Bool} (h : t.find? p = none) {i : ℕ} {a : α}
    (hi : t.get? i = some a) : p i a = false := by
  have := List.find?_eq_none.mp h (i, a) ((t.mem_entries_iff i a).mpr hi)
  simpa using this

/-- A test that singles out one key finds that key's row. -/
theorem find?_eq_some_of_unique {t : Table α} {p : ℕ → α → Bool} {i : ℕ} {a : α}
    (hi : t.get? i = some a) (hp : p i a = true)
    (huniq : ∀ j b, t.get? j = some b → p j b = true → j = i) : t.find? p = some (i, a) := by
  cases hf : t.find? p with
  | none => simp [find?_none hf hi] at hp
  | some e =>
      obtain ⟨j, b⟩ := e
      obtain ⟨hj, hpj⟩ := find?_some hf
      obtain rfl := huniq j b hj hpj
      rw [hi] at hj
      rw [Option.some.inj hj]

theorem sum_put (t : Table α) (f : ℕ → α → ℤ) (i : ℕ) (a : α) :
    (t.put i a).sum f = t.sum f + f i a - (t.get? i).elim 0 (f i) := sum_putEntry f i a t.sorted

theorem sum_put_of_none {t : Table α} (f : ℕ → α → ℤ) {i : ℕ} (a : α) (h : t.get? i = none) :
    (t.put i a).sum f = t.sum f + f i a := by
  rw [sum_put, h, Option.elim_none, sub_zero]

theorem sum_put_of_some {t : Table α} (f : ℕ → α → ℤ) {i : ℕ} (a : α) {b : α}
    (h : t.get? i = some b) : (t.put i a).sum f = t.sum f + f i a - f i b := by
  rw [sum_put, h, Option.elim_some]

theorem get?_erase (t : Table α) (i j : ℕ) :
    (t.erase i).get? j = if j = i then none else t.get? j := by
  apply Option.ext
  intro a
  rw [← mem_entries_iff]
  simp only [erase, List.mem_filter, mem_entries_iff, decide_eq_true_eq]
  split_ifs with h
  · simp [h]
  · simp [h]

theorem get?_erase_some {t : Table α} {i j : ℕ} {a : α} (h : (t.erase i).get? j = some a) :
    j ≠ i ∧ t.get? j = some a := by
  rw [get?_erase] at h
  split_ifs at h with hj
  exact ⟨hj, h⟩

theorem getEntry_mapRows (f : ℕ → α → β) (i : ℕ) (l : List (ℕ × α)) :
    getEntry i (l.map (fun e => (e.1, f e.1 e.2))) = (getEntry i l).map (f i) := by
  induction l with
  | nil => rfl
  | cons e l ih =>
      simp only [List.map_cons, getEntry]
      split_ifs with h
      · simp [h]
      · exact ih

@[simp] theorem get?_mapRows (t : Table α) (f : ℕ → α → α) (i : ℕ) :
    (t.mapRows f).get? i = (t.get? i).map (f i) := getEntry_mapRows f i t.entries

theorem get?_modify (t : Table α) (i j : ℕ) (f : α → α) :
    (t.modify i f).get? j = if j = i then (t.get? i).map f else t.get? j := by
  rw [modify, get?_mapRows]
  split_ifs with h
  · simp [h]
  · simp

@[simp] theorem get?_modify_self (t : Table α) (i : ℕ) (f : α → α) :
    (t.modify i f).get? i = (t.get? i).map f := by
  rw [get?_modify, if_pos rfl]

theorem get?_modify_of_ne (t : Table α) {i j : ℕ} (f : α → α) (h : j ≠ i) :
    (t.modify i f).get? j = t.get? j := by
  rw [get?_modify, if_neg h]

theorem get?_modify_eq_none {t : Table α} {i j : ℕ} {f : α → α} :
    (t.modify i f).get? j = none ↔ t.get? j = none := by
  rw [get?_modify]
  split_ifs with h
  · rw [h, Option.map_eq_none_iff]
  · exact Iff.rfl

theorem sum_congr {t : Table α} {f g : ℕ → α → ℤ}
    (h : ∀ i a, t.get? i = some a → f i a = g i a) : t.sum f = t.sum g := by
  unfold sum
  congr 1
  apply List.map_congr_left
  intro e he
  exact h e.1 e.2 ((t.mem_entries_iff e.1 e.2).mp he)

theorem sum_le_sum {t : Table α} {f g : ℕ → α → ℤ}
    (h : ∀ i a, t.get? i = some a → f i a ≤ g i a) : t.sum f ≤ t.sum g := by
  apply List.sum_le_sum
  intro e he
  exact h e.1 e.2 ((t.mem_entries_iff e.1 e.2).mp he)

theorem sum_eq_zero {t : Table α} {f : ℕ → α → ℤ}
    (h : ∀ i a, t.get? i = some a → f i a = 0) : t.sum f = 0 := by
  rw [sum_congr (g := fun _ _ => 0) h]
  simp [sum]

theorem count_eq_length (t : Table α) (p : ℕ → α → Bool) :
    t.count p = ((t.select p).length : ℤ) := by
  unfold count sum select
  induction t.entries with
  | nil => rfl
  | cons e l ih =>
      simp only [List.map_cons, List.sum_cons, List.filter_cons, ih]
      split_ifs <;> simp [add_comm]

theorem count_mono {t : Table α} {p q : ℕ → α → Bool}
    (h : ∀ i a, t.get? i = some a → p i a = true → q i a = true) : t.count p ≤ t.count q := by
  apply sum_le_sum
  intro i a hi
  by_cases hp : p i a = true
  · simp [hp, h i a hi hp]
  · simp only [hp, Bool.false_eq_true, if_false]
    split_ifs <;> simp

theorem count_congr {t : Table α} {p q : ℕ → α → Bool}
    (h : ∀ i a, t.get? i = some a → p i a = q i a) : t.count p = t.count q :=
  sum_congr (fun i a hi => by rw [h i a hi])

/-- Two tables that agree on the rows passing a test have as many of them. -/
theorem count_eq_of_rows {t u : Table α} {p q : ℕ → α → Bool}
    (h : ∀ i, (∃ a, t.get? i = some a ∧ p i a = true) ↔ ∃ a, u.get? i = some a ∧ q i a = true) :
    t.count p = u.count q := by
  have hperm : ((t.select p).map Prod.fst).Perm ((u.select q).map Prod.fst) := by
    refine (List.perm_ext_iff_of_nodup (t.select_keys_nodup p) (u.select_keys_nodup q)).mpr ?_
    intro i
    rw [mem_select_keys, mem_select_keys, h]
  have hlen := hperm.length_eq
  rw [List.length_map, List.length_map] at hlen
  rw [count_eq_length, count_eq_length, hlen]

theorem count_le_of_rows {t u : Table α} {p q : ℕ → α → Bool}
    (h : ∀ i a, t.get? i = some a → p i a = true → ∃ b, u.get? i = some b ∧ q i b = true) :
    t.count p ≤ u.count q := by
  have hsub : ((t.select p).map Prod.fst).Subperm ((u.select q).map Prod.fst) := by
    refine (t.select_keys_nodup p).subperm (fun i hi => ?_)
    obtain ⟨a, ha, hp⟩ := mem_select_keys.mp hi
    exact mem_select_keys.mpr (h i a ha hp)
  have hlen := hsub.length_le
  rw [List.length_map, List.length_map] at hlen
  rw [count_eq_length, count_eq_length]
  omega

/-- The rows under distinct keys are as many as the keys. -/
theorem count_keys {t : Table α} {is : List ℕ} (hnd : is.Nodup) {p : ℕ → α → Bool}
    (h : ∀ i, (∃ a, t.get? i = some a ∧ p i a = true) ↔ i ∈ is) : t.count p = (is.length : ℤ) := by
  have hperm : ((t.select p).map Prod.fst).Perm is := by
    refine (List.perm_ext_iff_of_nodup (t.select_keys_nodup p) hnd).mpr ?_
    intro i
    rw [← h, mem_select_keys]
  rw [count_eq_length, ← hperm.length_eq, List.length_map]

/-- Two tables with the same rows under the same keys are equal. -/
theorem ext_get? {t u : Table α} (h : ∀ i, t.get? i = u.get? i) : t = u := by
  have hmem : ∀ e, e ∈ t.entries ↔ e ∈ u.entries := by
    rintro ⟨i, a⟩
    rw [mem_entries_iff, mem_entries_iff, h]
  have hnd : ∀ v : Table α, v.entries.Nodup := fun v =>
    v.sorted.imp (fun {a b} hab he => by subst he; exact lt_irrefl _ hab)
  have hperm : t.entries.Perm u.entries :=
    (List.perm_ext_iff_of_nodup (hnd t) (hnd u)).mpr hmem
  have heq : t.entries = u.entries := by
    refine hperm.eq_of_pairwise ?_ t.sorted u.sorted
    intro a b _ _ hab hba
    exact absurd (lt_trans hab hba) (lt_irrefl _)
  cases t
  cases u
  simpa using heq

theorem put_get?_self {t : Table α} {i : ℕ} {a : α} (h : t.get? i = some a) : t.put i a = t := by
  apply ext_get?
  intro j
  rw [get?_put]
  split_ifs with hj
  · rw [hj, h]
  · rfl

theorem put_eq_modify {t : Table α} {i : ℕ} {a : α} (h : t.get? i = some a) (f : α → α) :
    t.put i (f a) = t.modify i f := by
  apply ext_get?
  intro j
  rw [get?_put, get?_modify]
  split_ifs with hj
  · rw [h, Option.map_some]
  · rfl

theorem modify_eq_const {t : Table α} {i : ℕ} {a : α} (h : t.get? i = some a) (f : α → α) :
    t.modify i f = t.modify i (fun _ => f a) := by
  rw [← put_eq_modify h, ← put_eq_modify h]

theorem modify_of_none {t : Table α} {i : ℕ} (h : t.get? i = none) (f : α → α) :
    t.modify i f = t := by
  apply ext_get?
  intro j
  rw [get?_modify]
  split_ifs with hj
  · rw [hj, h, Option.map_none]
  · rfl

@[simp] theorem modify_put_self (t : Table α) (i : ℕ) (a : α) (f : α → α) :
    (t.put i a).modify i f = t.put i (f a) := by
  apply ext_get?
  intro j
  rw [get?_modify, get?_put_self, get?_put, get?_put]
  split_ifs <;> rfl

theorem sum_modify {t : Table α} {i : ℕ} {a : α} (h : t.get? i = some a) (f : α → α)
    (g : ℕ → α → ℤ) : (t.modify i f).sum g = t.sum g + g i (f a) - g i a := by
  rw [← put_eq_modify h, sum_put_of_some g (f a) h]

/-- A sum is what the other rows add up to, and one row. -/
theorem sum_erase {t : Table α} {i : ℕ} {a : α} (h : t.get? i = some a) (f : ℕ → α → ℤ) :
    t.sum f = (t.erase i).sum f + f i a := by
  have hback : (t.erase i).put i a = t := by
    refine ext_get? (fun j => ?_)
    rw [get?_put, get?_erase]
    split_ifs with hj
    · rw [hj, h]
    · rfl
  have hnone : (t.erase i).get? i = none := by
    rw [get?_erase, if_pos rfl]
  calc t.sum f = ((t.erase i).put i a).sum f := by rw [hback]
    _ = (t.erase i).sum f + f i a := sum_put_of_none f a hnone

/-- A sum whose summand and rows change at one key only. -/
theorem sum_modify_of_agree {t : Table α} {i : ℕ} {a : α} (h : t.get? i = some a) (u : α → α)
    {f g : ℕ → α → ℤ} (hfg : ∀ j b, j ≠ i → g j b = f j b) :
    (t.modify i u).sum g = t.sum f + g i (u a) - f i a := by
  have hothers : (t.erase i).sum g = (t.erase i).sum f := by
    refine sum_congr (fun j b hj => hfg j b ?_)
    rintro rfl
    rw [get?_erase, if_pos rfl] at hj
    cases hj
  rw [sum_modify h, sum_erase h g, sum_erase h f, hothers]
  ring

theorem mapRows_mapRows (t : Table α) (f g : ℕ → α → α) :
    (t.mapRows f).mapRows g = t.mapRows (fun i a => g i (f i a)) := by
  apply ext_get?
  intro i
  simp only [get?_mapRows, Option.map_map]
  rfl

theorem mapRows_congr {t : Table α} {f g : ℕ → α → α}
    (h : ∀ i a, t.get? i = some a → f i a = g i a) : t.mapRows f = t.mapRows g := by
  apply ext_get?
  intro i
  rw [get?_mapRows, get?_mapRows]
  cases hi : t.get? i with
  | none => rfl
  | some a => rw [Option.map_some, Option.map_some, h i a hi]

theorem mapRows_id {t : Table α} {f : ℕ → α → α} (h : ∀ i a, t.get? i = some a → f i a = a) :
    t.mapRows f = t := by
  apply ext_get?
  intro i
  rw [get?_mapRows]
  cases hi : t.get? i with
  | none => rfl
  | some a => rw [Option.map_some, h i a hi]

/-- Updating the rows of distinct keys one by one updates them all at once. -/
theorem foldl_modify (t : Table α) (f : α → α) {is : List ℕ} (hnd : is.Nodup) :
    is.foldl (fun t i => t.modify i f) t = t.mapRows (fun i a => if i ∈ is then f a else a) := by
  induction is generalizing t with
  | nil => simp [mapRows_id]
  | cons i is ih =>
      obtain ⟨hi, hnd⟩ := List.nodup_cons.mp hnd
      rw [List.foldl_cons, ih _ hnd, modify, mapRows_mapRows]
      apply mapRows_congr
      intro j a _
      by_cases hj : j = i
      · subst hj
        simp [hi]
      · simp [hj]

end Table
end Relational
