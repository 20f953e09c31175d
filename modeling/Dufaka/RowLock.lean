import Mathlib.Logic.Relation
import Mathlib.Order.Basic
import Mathlib.Tactic

/-!
# Row-lock modes and waiting cycles

The four row-lock modes of PostgreSQL with their conflict table. Waiting is a relation between
transactions, and a deadlock is a cycle of it. A rank that strictly grows along every two
consecutive waits leaves no room for a cycle.
-/

namespace Relational

inductive LockMode where
  | keyShare
  | share
  | noKeyUpdate
  | update
  deriving DecidableEq

namespace LockMode

def conflicts : LockMode → LockMode → Bool
  | keyShare, update => true
  | share, noKeyUpdate => true
  | share, update => true
  | noKeyUpdate, keyShare => false
  | noKeyUpdate, _ => true
  | update, _ => true
  | _, _ => false

def exclusive : LockMode → Bool
  | noKeyUpdate | update => true
  | keyShare | share => false

theorem conflicts_comm (m n : LockMode) : m.conflicts n = n.conflicts m := by
  cases m <;> cases n <;> rfl

theorem conflicts_of_exclusive {m n : LockMode} (hm : m.exclusive = true)
    (hn : n.exclusive = true) : m.conflicts n = true := by
  cases m <;> cases n <;> simp_all [exclusive, conflicts]

end LockMode

section Cycles
variable {ι : Type*} {waits : ι → ι → Prop}

/-- `t` waits for a transaction, which waits for another, and so on back to `t`. -/
def WaitCycle (waits : ι → ι → Prop) (t : ι) : Prop := Relation.TransGen waits t t

theorem WaitCycle.waiting {t : ι} (h : WaitCycle waits t) : ∃ u, waits t u := by
  obtain ⟨u, hu, _⟩ := Relation.TransGen.head'_iff.mp h
  exact ⟨u, hu⟩

/-- Along a chain of waits whose last transaction still waits, the rank grows. -/
theorem rank_lt_of_transGen {rank : ι → ℕ}
    (hrank : ∀ t u, waits t u → (∃ v, waits u v) → rank t < rank u) {t u : ι}
    (h : Relation.TransGen waits t u) (hu : ∃ v, waits u v) : rank t < rank u := by
  induction h using Relation.TransGen.head_induction_on with
  | single h => exact hrank _ _ h hu
  | head h hrest ih =>
      obtain ⟨v, hv, _⟩ := Relation.TransGen.head'_iff.mp hrest
      exact lt_trans (hrank _ _ h ⟨v, hv⟩) ih

theorem no_waitCycle_of_rank {rank : ι → ℕ}
    (hrank : ∀ t u, waits t u → (∃ v, waits u v) → rank t < rank u) (t : ι) :
    ¬ WaitCycle waits t := fun h =>
  lt_irrefl _ (rank_lt_of_transGen hrank h h.waiting)

end Cycles
end Relational
