import Mathlib.Tactic

/-!
# Machines of guarded steps

A machine is a step function that refuses what is not enabled, and a run is the list of steps it
took. An invariant may speak of that list, so that what happened before which step needs no extra
state.
-/

namespace Machine
variable {S A : Type*}

def run (step : S → A → Option S) (s : S) (as : List A) : Option S := as.foldlM step s

variable {step : S → A → Option S} {s s' s'' : S} {a : A} {as bs pre : List A}

@[simp] theorem run_nil : run step s [] = some s := rfl

theorem run_cons :
    run step s (a :: as) = some s'' ↔ ∃ s', step s a = some s' ∧ run step s' as = some s'' := by
  rw [run, List.foldlM_cons]
  exact Option.bind_eq_some_iff

theorem run_append :
    run step s (as ++ bs) = some s'' ↔ ∃ s', run step s as = some s' ∧
    run step s' bs = some s'' := by
  rw [run, List.foldlM_append]
  exact Option.bind_eq_some_iff

theorem run_snoc :
    run step s (as ++ [a]) = some s'' ↔ ∃ s', run step s as = some s' ∧ step s' a = some s'' := by
  rw [run_append]
  constructor
  · rintro ⟨s₁, h, h'⟩
    obtain ⟨s₂, hstep, hnil⟩ := run_cons.mp h'
    rw [← Option.some.inj hnil]
    exact ⟨s₁, h, hstep⟩
  · rintro ⟨s₁, h, hstep⟩
    exact ⟨s₁, h, run_cons.mpr ⟨s'', hstep, rfl⟩⟩

/-- A fact about the steps taken and the state reached, once it holds and while every step keeps it,
holds of every later run. -/
theorem run_induction_from {P : List A → S → Prop} (hpre : run step s pre = some s') (h₀ : P pre s')
    (hstep : ∀ as s₁ a s₂, run step s as = some s₁ → P as s₁ → step s₁ a = some s₂ →
      P (as ++ [a]) s₂)
    (h : run step s (pre ++ as) = some s'') : P (pre ++ as) s'' := by
  induction as using List.reverseRecOn generalizing s'' with
  | nil =>
      rw [List.append_nil] at h ⊢
      rw [hpre] at h
      rw [← Option.some.inj h]
      exact h₀
  | append_singleton as a ih =>
      rw [← List.append_assoc] at h ⊢
      obtain ⟨s₁, h₁, ha⟩ := run_snoc.mp h
      exact hstep _ s₁ a s'' h₁ (ih h₁) ha

theorem run_induction {P : List A → S → Prop} (h₀ : P [] s)
    (hstep : ∀ as s₁ a s₂, run step s as = some s₁ → P as s₁ → step s₁ a = some s₂ →
      P (as ++ [a]) s₂)
    (h : run step s as = some s') : P as s' := by
  have hnil : run step s [] = some s := rfl
  exact run_induction_from hnil h₀ hstep h

/-- Every step of a run is allowed in the state it is taken in. -/
def Along (step : S → A → Option S) (P : S → A → Prop) : S → List A → Prop
  | _, [] => True
  | s, a :: as => P s a ∧ ∀ s', step s a = some s' → Along step P s' as

theorem along_append (h : Along step P s as) (hrun : run step s as = some s')
    (h' : Along step P s' bs) : Along step P s (as ++ bs) := by
  induction as generalizing s with
  | nil =>
      obtain rfl := Option.some.inj hrun
      exact h'
  | cons a as ih =>
      obtain ⟨s₁, ha, hrest⟩ := run_cons.mp hrun
      refine ⟨h.1, fun s₂ ha₂ => ?_⟩
      rw [ha] at ha₂
      obtain rfl := Option.some.inj ha₂
      exact ih (h.2 s₁ ha) hrest

/-- An invariant that the allowed steps keep. -/
theorem run_invariant {I : S → Prop} {P : S → A → Prop} (h₀ : I s)
    (hstep : ∀ s a s', I s → P s a → step s a = some s' → I s') (hP : Along step P s as)
    (h : run step s as = some s') : I s' := by
  induction as generalizing s with
  | nil =>
      obtain rfl := Option.some.inj h
      exact h₀
  | cons a as ih =>
      obtain ⟨s₁, ha, has⟩ := run_cons.mp h
      have h₁ : I s₁ := hstep s a s₁ h₀ hP.1 ha
      exact ih h₁ (hP.2 s₁ ha) has

/-- Some step of a run, with the states before and after it, is one of `P`. -/
def Took (step : S → A → Option S) (P : S → A → S → Prop) : S → List A → Prop
  | _, [] => False
  | s, a :: as => ∃ s', step s a = some s' ∧ (P s a s' ∨ Took step P s' as)

theorem took_snoc {P : S → A → S → Prop} (h : run step s as = some s') (ha : step s' a = some s'') :
    Took step P s (as ++ [a]) ↔ Took step P s as ∨ P s' a s'' := by
  induction as generalizing s with
  | nil =>
      obtain rfl := Option.some.inj h
      constructor
      · rintro ⟨s₁, hstep, hP | hnone⟩
        · rw [ha] at hstep
          rw [Option.some.inj hstep]
          exact Or.inr hP
        · exact hnone.elim
      · rintro (hnone | hP)
        · exact hnone.elim
        · exact ⟨s'', ha, Or.inl hP⟩
  | cons b as ih =>
      obtain ⟨s₁, hb, has⟩ := run_cons.mp h
      have hlast := ih has
      constructor
      · rintro ⟨s₂, hstep, hP | hlater⟩
        · exact Or.inl ⟨s₂, hstep, Or.inl hP⟩
        · rw [hb] at hstep
          obtain rfl := Option.some.inj hstep
          rcases hlast.mp hlater with hbefore | hP
          · exact Or.inl ⟨s₁, hb, Or.inr hbefore⟩
          · exact Or.inr hP
      · rintro (⟨s₂, hstep, hP | hlater⟩ | hP)
        · exact ⟨s₂, hstep, Or.inl hP⟩
        · rw [hb] at hstep
          obtain rfl := Option.some.inj hstep
          exact ⟨s₁, hb, Or.inr (hlast.mpr (Or.inl hlater))⟩
        · exact ⟨s₁, hb, Or.inr (hlast.mpr (Or.inr hP))⟩

/-- A preorder that every step from the invariant follows relates the two ends of a run. -/
theorem run_preorder {I : S → Prop} {R : S → S → Prop} (hrefl : ∀ s, R s s)
    (htrans : ∀ s s' s'', R s s' → R s' s'' → R s s'') (h₀ : I s)
    (hstep : ∀ s a s', I s → step s a = some s' → R s s' ∧ I s') (h : run step s as = some s') :
    R s s' ∧ I s' := by
  induction as generalizing s with
  | nil =>
      obtain rfl := Option.some.inj h
      exact ⟨hrefl s, h₀⟩
  | cons a as ih =>
      obtain ⟨s₁, ha, has⟩ := run_cons.mp h
      obtain ⟨hr, h₁⟩ := hstep s a s₁ h₀ ha
      obtain ⟨hr', h'⟩ := ih h₁ has
      exact ⟨htrans s s₁ s' hr hr', h'⟩

end Machine
