import Mathlib.Data.List.AList
import Mathlib.Tactic

/-!
# Capped maps

A map with a number of entries that a program looks at: entries are added and removed by key, and a
sweep keeps those that pass a test. The map itself is an association list.
-/

namespace Relational

abbrev KeyMap (κ α : Type) := AList (fun _ : κ => α)

namespace KeyMap
variable {κ α : Type}

def size (m : KeyMap κ α) : ℕ := m.entries.length

def keep (p : α → Bool) (m : KeyMap κ α) : KeyMap κ α where
  entries := m.entries.filter (fun e => p e.2)
  nodupKeys := m.nodupKeys.sublist List.filter_sublist

@[simp] theorem size_empty : size (∅ : KeyMap κ α) = 0 := rfl

theorem size_keep_le {m : KeyMap κ α} {p : α → Bool} : (m.keep p).size ≤ m.size :=
  List.length_filter_le _ _

theorem size_eq_keys (m : KeyMap κ α) : m.size = m.keys.length := by
  rw [size, AList.keys, List.keys, List.length_map]

variable [DecidableEq κ] {m : KeyMap κ α} {k k' : κ} {a : α} {p : α → Bool}

theorem lookup_keep : (m.keep p).lookup k = (m.lookup k).filter p := by
  apply Option.ext
  intro a
  rw [Option.filter_eq_some_iff, ← Option.mem_def, ← Option.mem_def, AList.mem_lookup_iff,
    AList.mem_lookup_iff, keep, List.mem_filter]

theorem lookup_insert_eq : (m.insert k a).lookup k' = if k' = k then some a else m.lookup k' := by
  by_cases h : k' = k
  · subst h
    rw [if_pos rfl, AList.lookup_insert]
  · rw [if_neg h, AList.lookup_insert_ne h]

theorem lookup_erase_eq : (m.erase k).lookup k' = if k' = k then none else m.lookup k' := by
  by_cases h : k' = k
  · subst h
    rw [if_pos rfl, AList.lookup_erase]
  · rw [if_neg h, AList.lookup_erase_ne h]

/-- Writing a key that is there adds no entry. -/
theorem size_insert_of_some (h : m.lookup k = some a) (a' : α) : size (m.insert k a') = m.size := by
  have hk : k ∈ m.keys := AList.mem_keys.mp (AList.lookup_isSome.mp (by rw [h]; rfl))
  have hpos := List.length_pos_of_mem hk
  rw [size_eq_keys, AList.keys_insert, List.length_cons, List.length_erase_of_mem hk, size_eq_keys]
  omega

theorem size_insert_of_none (h : m.lookup k = none) (a : α) : size (m.insert k a) = m.size + 1 := by
  have hk : k ∉ m.keys := fun hmem => AList.lookup_eq_none.mp h (AList.mem_keys.mpr hmem)
  rw [size_eq_keys, AList.keys_insert, List.length_cons, List.erase_of_not_mem hk, size_eq_keys]

theorem size_erase_le : size (m.erase k) ≤ m.size := by
  rw [size_eq_keys, AList.keys_erase, size_eq_keys]
  exact List.length_erase_le

theorem lookup_foldl_erase (ks : List κ) (m : KeyMap κ α) :
    (ks.foldl (fun m k => m.erase k) m).lookup k = if k ∈ ks then none else m.lookup k := by
  induction ks generalizing m with
  | nil => rfl
  | cons k' ks ih =>
      rw [List.foldl_cons, ih, lookup_erase_eq]
      by_cases hk : k = k'
      · simp [hk]
      · simp [hk]

/-! ### Sweeps -/

/-- The second map is the first one without some of the entries that are stale. -/
structure Swept (stale : α → Bool) (m m' : KeyMap κ α) : Prop where
  size_le : m'.size ≤ m.size
  lookup : ∀ k, m'.lookup k = m.lookup k ∨ ∃ a, m.lookup k = some a ∧ stale a = true ∧
    m'.lookup k = none

variable {stale : α → Bool} {m₁ m₂ m₃ : KeyMap κ α}

theorem Swept.refl (stale : α → Bool) (m : KeyMap κ α) : Swept stale m m :=
  ⟨le_rfl, fun _ => Or.inl rfl⟩

theorem Swept.trans (h : Swept stale m₁ m₂) (h' : Swept stale m₂ m₃) : Swept stale m₁ m₃ := by
  refine ⟨h'.size_le.trans h.size_le, fun k => ?_⟩
  rcases h'.lookup k with heq | ⟨a, ha, hstale, hnone⟩
  · rw [heq]
    exact h.lookup k
  · rcases h.lookup k with heq | ⟨b, -, -, hgone⟩
    · exact Or.inr ⟨a, heq.symm.trans ha, hstale, hnone⟩
    · rw [hgone] at ha
      cases ha

/-- A sweep of everything that is stale. -/
theorem swept_keep (stale : α → Bool) (m : KeyMap κ α) :
    Swept stale m (m.keep (fun a => !stale a)) := by
  refine ⟨size_keep_le, fun k => ?_⟩
  rw [lookup_keep]
  cases hk : m.lookup k with
  | none => exact Or.inl rfl
  | some a =>
      cases hstale : stale a with
      | true => exact Or.inr ⟨a, rfl, hstale, by simp [Option.filter, hstale]⟩
      | false => exact Or.inl (by simp [Option.filter, hstale])

theorem swept_erase (hk : m.lookup k = some a) (hstale : stale a = true) :
    Swept stale m (m.erase k) := by
  refine ⟨size_erase_le, fun k' => ?_⟩
  by_cases heq : k' = k
  · subst heq
    exact Or.inr ⟨a, hk, hstale, AList.lookup_erase k' m⟩
  · exact Or.inl (AList.lookup_erase_ne heq)

/-- What a sweep leaves out stays out, and what is not stale stays. -/
theorem Swept.lookup_none (h : Swept stale m₁ m₂) (hk : m₁.lookup k = none) :
    m₂.lookup k = none := by
  rcases h.lookup k with heq | ⟨a, ha, -, -⟩
  · rw [heq, hk]
  · rw [hk] at ha
    cases ha

def live (stale : α → Bool) (m : KeyMap κ α) (k : κ) : Option α :=
  (m.lookup k).filter (fun a => !stale a)

theorem live_eq_some : live stale m k = some a ↔ m.lookup k = some a ∧ stale a = false := by
  rw [live, Option.filter_eq_some_iff, Bool.not_eq_true']

theorem Swept.live_eq (h : Swept stale m₁ m₂) (k : κ) : live stale m₂ k = live stale m₁ k := by
  rcases h.lookup k with heq | ⟨a, ha, hstale, hnone⟩
  · rw [live, heq, live]
  · rw [live, live, ha, hnone]
    simp [Option.filter, hstale]

end KeyMap
end Relational
