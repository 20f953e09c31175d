import Dufaka.ReadCommitted

/-!
# Locks of interleaved sessions

What the locks in hand mean while sessions interleave. A key that one session owns is written by no
other, and a statement is executed only when nobody else holds a conflicting lock, so the locks of
different sessions never conflict in any reachable configuration.
-/

namespace Relational

/-- No lock of the first session conflicts with a lock of the second. -/
def Compatible {K : Type} (L L' : Locks K) : Prop :=
  ∀ h ∈ L, ∀ l ∈ L', h.1 = l.1 → h.2.conflicts l.2 = false

theorem Compatible.symm {K : Type} {L L' : Locks K} (h : Compatible L L') : Compatible L' L :=
  fun l hl g hg hk => by rw [LockMode.conflicts_comm]; exact h g hg l hl hk.symm

/-- The key is locked in a mode that keeps every other writer away. -/
def Owns {K : Type} (L : Locks K) (k : K) : Prop := ∃ m, m.exclusive = true ∧ (k, m) ∈ L

theorem Owns.mono {K : Type} {L L' : Locks K} {k : K} (h : Owns L k) (hs : L ⊆ L') : Owns L' k := by
  obtain ⟨m, hm, hk⟩ := h
  exact ⟨m, hm, hs hk⟩

theorem Owns.head {K : Type} {L : Locks K} {k : K} {m : LockMode} (hm : m.exclusive = true) :
    Owns ((k, m) :: L) k := ⟨m, hm, by simp⟩

theorem Owns.cons {K : Type} {L : Locks K} {k : K} (h : Owns L k) (l : K × LockMode) :
    Owns (l :: L) k := h.mono (by simp)

theorem Compatible.not_owns {K : Type} {L L' : Locks K} (h : Compatible L L') {k : K}
    (ho : Owns L k) : ¬ Owns L' k := by
  rintro ⟨m', hm', hk'⟩
  obtain ⟨m, hm, hk⟩ := ho
  have hf := h _ hk _ hk' rfl
  rw [LockMode.conflicts_of_exclusive hm hm'] at hf
  cases hf

variable {τ ε D K : Type} {V : K → Type} {ρ α β : Type} [RowStore D V]
open RowStore

def Config.Apart (c : Config τ D V ρ) : Prop :=
  ∀ t u s s', c.sessions.get? t = some s → c.sessions.get? u = some s' → t ≠ u →
    Compatible s.locks s'.locks

omit [RowStore D V] in
theorem Config.Apart.erase {c : Config τ D V ρ} (h : c.Apart) (t : ℕ) (d : D) :
    Config.Apart (⟨d, c.sessions.erase t⟩ : Config τ D V ρ) := by
  intro u v s s' hu hv hne
  exact h u v s s' (Table.get?_erase_some hu).2 (Table.get?_erase_some hv).2 hne

omit [RowStore D V] in
theorem Config.Apart.place {c : Config τ D V ρ} (h : c.Apart) {t : ℕ} {s : Session τ D V ρ}
    (hs : ∀ u s', c.sessions.get? u = some s' → u ≠ t → Compatible s.locks s'.locks) :
    (c.place t s).Apart := by
  intro u v s₁ s₂ hu hv hne
  rcases Table.get?_put_some hu with ⟨hut, rfl⟩ | ⟨hut, hu'⟩
  · rcases Table.get?_put_some hv with ⟨hvt, -⟩ | ⟨hvt, hv'⟩
    · exact absurd (hut.trans hvt.symm) hne
    · exact hs v s₂ hv' hvt
  · rcases Table.get?_put_some hv with ⟨-, rfl⟩ | ⟨-, hv'⟩
    · exact (hs u s₁ hu' hut).symm
    · exact h u v s₁ s₂ hu' hv' hne

section Statement
variable [DecidableEq K] {c c' : Config τ D V ρ} {t : ℕ} {choice : List ℕ} {s : Session τ D V ρ}

/-- A statement that executes conflicts with the locks of nobody else. -/
theorem Config.execute_inv (hc : c.execute t choice s = some c') :
    ∃ p ws, s.prog.advance (view c.db s.writes) choice = some (p, ws) ∧
      c' = c.place t ⟨s.tag, p, s.prog.acquires (view c.db s.writes) choice ++ s.locks,
        ws ++ s.writes⟩ ∧
      ∀ u s', c.sessions.get? u = some s' → u ≠ t →
        Compatible (s.prog.acquires (view c.db s.writes) choice) s'.locks := by
  unfold Config.execute at hc
  simp only at hc
  split_ifs at hc with hb
  obtain ⟨⟨p, ws⟩, ha, rfl⟩ := Option.map_eq_some_iff.mp hc
  refine ⟨p, ws, ha, rfl, fun u s' hu hne g hg l hl hk => ?_⟩
  have hfree := List.any_eq_false.mp (Bool.not_eq_true _ ▸ hb) g hg
  rw [Bool.not_eq_true, Config.blocked_eq_false_iff] at hfree
  rw [LockMode.conflicts_comm]
  exact hfree u s' hu hne l hl hk.symm

theorem Config.Apart.execute (h : c.Apart) (ht : c.sessions.get? t = some s)
    (hc : c.execute t choice s = some c') : c'.Apart := by
  obtain ⟨p, ws, -, rfl, hfree⟩ := Config.execute_inv hc
  refine h.place (fun u s' hu hne g hg l hl hk => ?_)
  rcases List.mem_append.mp hg with hg | hg
  · exact hfree u s' hu hne g hg l hl hk
  · exact h t u s s' ht hu (Ne.symm hne) g hg l hl hk

end Statement

def StartsOnly (A : τ → Prop) (as : List (Action τ ε)) : Prop :=
  ∀ a ∈ as, ∀ t tag, a = .start t tag → A tag

end Relational
