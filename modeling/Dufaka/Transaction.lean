import Dufaka.RowLock

/-!
# Transactions as programs of row statements

A database is read and written row by row through keys. A transaction is a program of statements:
a plain read of a snapshot, an advisory lock, a row lock with its `WHERE` test, an update of one row
with its `WHERE` test, a `SKIP LOCKED` selection, an insert under a fresh identity, and its end by
commit or rollback. The tests and the new rows are ordinary functions.

`run` executes a program alone on a database. `ReadCommitted` executes any number of programs
statement by statement.
-/

namespace Relational

class RowStore (D : Type) {K : outParam Type} (V : outParam (K → Type)) where
  get : D → (k : K) → Option (V k)
  set : D → (k : K) → V k → D
  get_set_self : ∀ d k v, get (set d k v) k = some v
  get_set_of_ne : ∀ d k v k', k' ≠ k → get (set d k v) k' = get d k'

attribute [simp] RowStore.get_set_self

/-- A transaction with result `ρ`, or a part of one with value `α`. -/
inductive Tx (D : Type) {K : Type} (V : K → Type) (ρ α : Type) : Type where
  | value (a : α)
  | done (commit : Bool) (r : ρ)
  | query (next : D → Tx D V ρ α)
  | advisory (key : K) (next : Tx D V ρ α)
  | lockRow (key : K) (mode : LockMode) (p : V key → Bool) (next : Option (V key) → Tx D V ρ α)
  | update (key : K) (keyChange : V key → Bool) (f : V key → Option (V key))
      (next : Option (V key) → Tx D V ρ α)
  | skipLocked (rowKey : ℕ → K) (pick : D → (ℕ → Bool) → List ℕ) (next : List ℕ → Tx D V ρ α)
  | insert (rowKey : ℕ → K) (row : (n : ℕ) → V (rowKey n)) (next : ℕ → Tx D V ρ α)

namespace Tx
variable {D K : Type} {V : K → Type} {ρ α β : Type}

def bind : Tx D V ρ α → (α → Tx D V ρ β) → Tx D V ρ β
  | value a, g => g a
  | done c r, _ => done c r
  | query next, g => query (fun d => (next d).bind g)
  | advisory key next, g => advisory key (next.bind g)
  | lockRow key m p next, g => lockRow key m p (fun r => (next r).bind g)
  | update key kc f next, g => update key kc f (fun r => (next r).bind g)
  | skipLocked rk pick next, g => skipLocked rk pick (fun l => (next l).bind g)
  | insert rk row next, g => insert rk row (fun n => (next n).bind g)

instance : Monad (Tx D V ρ) where
  pure := value
  bind := bind

theorem bind_def (p : Tx D V ρ α) (g : α → Tx D V ρ β) : p >>= g = p.bind g := rfl

theorem pure_def (a : α) : (pure a : Tx D V ρ α) = value a := rfl

def commit (r : ρ) : Tx D V ρ α := done true r

def rollback (r : ρ) : Tx D V ρ α := done false r

def read (q : D → α) : Tx D V ρ α := query (fun d => value (q d))

/-- The mode of the lock an `UPDATE` takes: the stronger one when a key column changes. -/
def updateMode (keyChange : Bool) : LockMode := if keyChange then .update else .noKeyUpdate

@[simp] theorem updateMode_exclusive (b : Bool) : (updateMode b).exclusive = true := by
  cases b <;> rfl

def forEach {ι : Type} : List ι → (ι → Tx D V ρ Unit) → Tx D V ρ Unit
  | [], _ => value ()
  | i :: is, body => (body i).bind (fun _ => forEach is body)

def touches (T : K → Prop) : Tx D V ρ α → Prop
  | .value _ | .done _ _ => True
  | .query next => ∀ d, (next d).touches T
  | .advisory _ next => next.touches T
  | .lockRow _ _ _ next => ∀ r, (next r).touches T
  | .update key _ _ next => T key ∧ ∀ r, (next r).touches T
  | .skipLocked _ _ next => ∀ l, (next l).touches T
  | .insert rk _ next => (∀ n, T (rk n)) ∧ ∀ n, (next n).touches T

theorem touches_bind {T : K → Prop} {p : Tx D V ρ α} {g : α → Tx D V ρ β} (hp : p.touches T)
    (hg : ∀ a, (g a).touches T) : (p >>= g).touches T := by
  rw [bind_def]
  induction p with
  | value a => exact hg a
  | done c r => trivial
  | query next ih => exact fun d => ih d (hp d)
  | advisory key next ih => exact ih hp
  | lockRow key m q next ih => exact fun r => ih r (hp r)
  | update key kc f next ih => exact ⟨hp.1, fun r => ih r (hp.2 r)⟩
  | skipLocked rk pick next ih => exact fun l => ih l (hp l)
  | insert rk row next ih => exact ⟨hp.1, fun n => ih n (hp.2 n)⟩

theorem touches_forEach {T : K → Prop} {ι : Type} {is : List ι} {body : ι → Tx D V ρ Unit}
    (h : ∀ i ∈ is, (body i).touches T) : (forEach is body).touches T := by
  induction is with
  | nil => trivial
  | cons i is ih =>
      exact touches_bind (h i (by simp)) (fun _ => ih (fun j hj => h j (by simp [hj])))

/-- Every end the program can reach, by commit or rollback, satisfies `E`. -/
def ends (E : Bool → ρ → Prop) : Tx D V ρ α → Prop
  | .value _ => True
  | .done c r => E c r
  | .query next => ∀ d, (next d).ends E
  | .advisory _ next => next.ends E
  | .lockRow _ _ _ next => ∀ r, (next r).ends E
  | .update _ _ _ next => ∀ r, (next r).ends E
  | .skipLocked _ _ next => ∀ l, (next l).ends E
  | .insert _ _ next => ∀ n, (next n).ends E

theorem ends_bind {E : Bool → ρ → Prop} {p : Tx D V ρ α} {g : α → Tx D V ρ β} (hp : p.ends E)
    (hg : ∀ a, (g a).ends E) : (p >>= g).ends E := by
  rw [bind_def]
  induction p with
  | value a => exact hg a
  | done c r => exact hp
  | query next ih => exact fun d => ih d (hp d)
  | advisory key next ih => exact ih hp
  | lockRow key m q next ih => exact fun r => ih r (hp r)
  | update key kc f next ih => exact fun r => ih r (hp r)
  | skipLocked rk pick next ih => exact fun l => ih l (hp l)
  | insert rk row next ih => exact fun n => ih n (hp n)

theorem ends_forEach {E : Bool → ρ → Prop} {ι : Type} {is : List ι} {body : ι → Tx D V ρ Unit}
    (h : ∀ i ∈ is, (body i).ends E) : (forEach is body).ends E := by
  induction is with
  | nil => trivial
  | cons i is ih =>
      exact ends_bind (h i (by simp)) (fun _ => ih (fun j hj => h j (by simp [hj])))

theorem ends_true (p : Tx D V ρ α) : p.ends (fun _ _ => True) := by
  induction p with
  | value a => trivial
  | done c r => trivial
  | query next ih => exact fun d => ih d
  | advisory key next ih => exact ih
  | lockRow key m q next ih => exact fun r => ih r
  | update key kc f next ih => exact fun r => ih r
  | skipLocked rk pick next ih => exact fun l => ih l
  | insert rk row next ih => exact fun n => ih n

/-! ### Isolated runs -/

/-- How an isolated run ends: with a value, with the end of the transaction, or with the server
rejecting a statement. -/
inductive Outcome (D ρ α : Type) where
  | value (a : α) (ids : ℕ → ℕ) (d : D)
  | done (commit : Bool) (r : ρ) (d : D)
  | rejected

variable [RowStore D V]
open RowStore

/-- Execution with no other transaction around. `ids` are the identities the server hands out; an
identity already in use is a unique violation. -/
def run : Tx D V ρ α → (ℕ → ℕ) → D → Outcome D ρ α
  | value a, ids, d => .value a ids d
  | done c r, _, d => .done c r d
  | query next, ids, d => (next d).run ids d
  | advisory _ next, ids, d => next.run ids d
  | lockRow key _ p next, ids, d => (next ((get d key).filter p)).run ids d
  | update key _ f next, ids, d =>
      match (get d key).bind f with
      | some v => (next (some v)).run ids (set d key v)
      | none => (next none).run ids d
  | skipLocked _ pick next, ids, d => (next (pick d (fun _ => false))).run ids d
  | insert rk row next, ids, d =>
      match get d (rk (ids 0)) with
      | some _ => .rejected
      | none => (next (ids 0)).run (fun n => ids (n + 1)) (set d (rk (ids 0)) (row (ids 0)))

theorem run_update {k : K} {kc : V k → Bool} {f : V k → Option (V k)}
    {next : Option (V k) → Tx D V ρ α} {ids : ℕ → ℕ} {d : D} : (update k kc f next).run ids d =
      match (get d k).bind f with
      | some v => (next (some v)).run ids (set d k v)
      | none => (next none).run ids d := by rw [run]

theorem run_insert {rk : ℕ → K} {row : (n : ℕ) → V (rk n)} {next : ℕ → Tx D V ρ α}
    {ids : ℕ → ℕ} {d : D} :
    (insert rk row next).run ids d =
      match get d (rk (ids 0)) with
      | some _ => .rejected
      | none => (next (ids 0)).run (fun n => ids (n + 1)) (set d (rk (ids 0)) (row (ids 0))) := by
  rw [run]

def Outcome.andThen : Outcome D ρ α → (α → (ℕ → ℕ) → D → Outcome D ρ β) → Outcome D ρ β
  | .value a ids d, g => g a ids d
  | .done c r d, _ => .done c r d
  | .rejected, _ => .rejected

theorem run_bind (p : Tx D V ρ α) (g : α → Tx D V ρ β) (ids : ℕ → ℕ) (d : D) :
    (p >>= g).run ids d = (p.run ids d).andThen (fun a ids d => (g a).run ids d) := by
  rw [bind_def]
  induction p generalizing ids d with
  | value a => rfl
  | done c r => rfl
  | query next ih => exact ih d ids d
  | advisory key next ih => exact ih ids d
  | lockRow key m p next ih => exact ih _ ids d
  | update key kc f next ih =>
      change (update key kc f (fun r => (next r).bind g)).run ids d = _
      rw [run_update, run_update]
      cases (get d key).bind f with
      | none => exact ih none ids d
      | some v => exact ih (some v) ids _
  | skipLocked rk pick next ih => exact ih _ ids d
  | insert rk row next ih =>
      change (insert rk row (fun n => (next n).bind g)).run ids d = _
      rw [run_insert, run_insert]
      cases get d (rk (ids 0)) with
      | none => exact ih _ _ _
      | some v => rfl

@[simp] theorem run_pure (a : α) (ids : ℕ → ℕ) (d : D) :
    (pure a : Tx D V ρ α).run ids d = .value a ids d := rfl

@[simp] theorem run_commit (r : ρ) (ids : ℕ → ℕ) (d : D) :
    (commit r : Tx D V ρ α).run ids d = .done true r d := rfl

@[simp] theorem run_rollback (r : ρ) (ids : ℕ → ℕ) (d : D) :
    (rollback r : Tx D V ρ α).run ids d = .done false r d := rfl

@[simp] theorem run_read (q : D → α) (ids : ℕ → ℕ) (d : D) :
    (read q : Tx D V ρ α).run ids d = .value (q d) ids d := rfl

/-- The database and the answer after an isolated run; no answer means that the server rejected the
transaction, which then left no trace. -/
def exec (p : Tx D V ρ Empty) (ids : ℕ → ℕ) (d : D) : D × Option ρ :=
  match p.run ids d with
  | .value a _ _ => nomatch a
  | .done true r d' => (d', some r)
  | .done false r _ => (d, some r)
  | .rejected => (d, none)

/-- A transaction either commits, or leaves the database as it was. -/
theorem exec_cases (p : Tx D V ρ Empty) (ids : ℕ → ℕ) (d : D) :
    (∃ r d', p.run ids d = .done true r d' ∧ p.exec ids d = (d', some r)) ∨
      (∃ r d', p.run ids d = .done false r d' ∧ p.exec ids d = (d, some r)) ∨
      (p.run ids d = .rejected ∧ p.exec ids d = (d, none)) := by
  unfold exec
  cases h : p.run ids d with
  | value a ids' d' => exact a.elim
  | rejected => exact Or.inr (Or.inr ⟨rfl, rfl⟩)
  | done c r d' =>
      cases c with
      | true => exact Or.inl ⟨r, d', rfl, rfl⟩
      | false => exact Or.inr (Or.inl ⟨r, d', rfl, rfl⟩)

def returns (p : Tx D V ρ α) (ids : ℕ → ℕ) (d : D) (a : α) (ids' : ℕ → ℕ) (d' : D) : Prop :=
  p.run ids d = .value a ids' d'

def commits (p : Tx D V ρ α) (ids : ℕ → ℕ) (d : D) (r : ρ) (d' : D) : Prop :=
  p.run ids d = .done true r d'

section Rules
variable {p : Tx D V ρ α} {g : α → Tx D V ρ β} {ids ids' : ℕ → ℕ} {d d' : D} {r r' : ρ} {a b : α}

theorem returns_iff : p.returns ids d a ids' d' ↔ p.run ids d = .value a ids' d' := Iff.rfl

theorem commits_iff : p.commits ids d r d' ↔ p.run ids d = .done true r d' := Iff.rfl

theorem returns_bind {b : β} : (p >>= g).returns ids d b ids' d' ↔
    ∃ a ids₁ d₁, p.returns ids d a ids₁ d₁ ∧ (g a).returns ids₁ d₁ b ids' d' := by
  simp only [returns_iff]
  rw [run_bind]
  cases hp : p.run ids d with
  | value a ids₁ d₁ =>
      constructor
      · exact fun h => ⟨a, ids₁, d₁, rfl, h⟩
      · rintro ⟨a', ids₂, d₂, he, h⟩
        cases he
        exact h
  | done c r => simp [Outcome.andThen]
  | rejected => simp [Outcome.andThen]

theorem commits_bind : (p >>= g).commits ids d r d' ↔ p.commits ids d r d' ∨
    ∃ a ids₁ d₁, p.returns ids d a ids₁ d₁ ∧ (g a).commits ids₁ d₁ r d' := by
  simp only [commits_iff, returns_iff]
  rw [run_bind]
  cases hp : p.run ids d with
  | value a ids₁ d₁ =>
      constructor
      · exact fun h => Or.inr ⟨a, ids₁, d₁, rfl, h⟩
      · rintro (h | ⟨a', ids₂, d₂, he, h⟩)
        · cases h
        · cases he
          exact h
  | done c r => simp [Outcome.andThen]
  | rejected => simp [Outcome.andThen]

@[simp] theorem returns_pure :
    (pure b : Tx D V ρ α).returns ids d a ids' d' ↔ b = a ∧ ids = ids' ∧ d = d' := by
  simp [returns_iff]

@[simp] theorem returns_commit : (commit r : Tx D V ρ α).returns ids d a ids' d' ↔ False := by
  simp [returns_iff]

@[simp] theorem returns_rollback : (rollback r : Tx D V ρ α).returns ids d a ids' d' ↔ False := by
  simp [returns_iff]

@[simp] theorem returns_read {q : D → α} :
    (read q : Tx D V ρ α).returns ids d a ids' d' ↔ q d = a ∧ ids = ids' ∧ d = d' := by
  simp [returns_iff]

@[simp] theorem commits_pure : (pure a : Tx D V ρ α).commits ids d r d' ↔ False := by
  simp [commits_iff]

@[simp] theorem commits_commit :
    (commit r : Tx D V ρ α).commits ids d r' d' ↔ r = r' ∧ d = d' := by
  simp [commits_iff]

@[simp] theorem commits_rollback : (rollback r : Tx D V ρ α).commits ids d r' d' ↔ False := by
  simp [commits_iff]

@[simp] theorem commits_read {q : D → α} :
    (read q : Tx D V ρ α).commits ids d r d' ↔ False := by
  simp [commits_iff]

def writeRow (d : D) (k : K) : Option (V k) → D
  | some v => set d k v
  | none => d

@[simp] theorem returns_lockRow {k : K} {m : LockMode} {q : V k → Bool} {o : Option (V k)} :
    (lockRow k m q pure : Tx D V ρ (Option (V k))).returns ids d o ids' d' ↔
      (get d k).filter q = o ∧ ids = ids' ∧ d = d' := returns_pure

@[simp] theorem commits_lockRow {k : K} {m : LockMode} {q : V k → Bool} :
    (lockRow k m q pure : Tx D V ρ (Option (V k))).commits ids d r d' ↔ False := commits_pure

@[simp] theorem returns_update {k : K} {kc : V k → Bool} {f : V k → Option (V k)}
    {o : Option (V k)} : (update k kc f pure : Tx D V ρ (Option (V k))).returns ids d o ids' d' ↔
      (get d k).bind f = o ∧ ids = ids' ∧ writeRow d k o = d' := by
  rw [returns_iff, run_update]
  cases (get d k).bind f with
  | none =>
      rw [run_pure, Outcome.value.injEq]
      exact ⟨fun ⟨ho, hi, hd⟩ => ⟨ho, hi, by rw [← ho]; exact hd⟩,
        fun ⟨ho, hi, hd⟩ => ⟨ho, hi, by rw [← ho] at hd; exact hd⟩⟩
  | some v =>
      simp only []
      rw [run_pure, Outcome.value.injEq]
      exact ⟨fun ⟨ho, hi, hd⟩ => ⟨ho, hi, by rw [← ho]; exact hd⟩,
        fun ⟨ho, hi, hd⟩ => ⟨ho, hi, by rw [← ho] at hd; exact hd⟩⟩

@[simp] theorem commits_update {k : K} {kc : V k → Bool} {f : V k → Option (V k)} :
    (update k kc f pure : Tx D V ρ (Option (V k))).commits ids d r d' ↔ False := by
  rw [commits_iff, run_update]
  cases (get d k).bind f <;> simp

@[simp] theorem returns_skipLocked {rk : ℕ → K} {pick : D → (ℕ → Bool) → List ℕ} {l : List ℕ} :
    (skipLocked rk pick pure : Tx D V ρ (List ℕ)).returns ids d l ids' d' ↔
      pick d (fun _ => false) = l ∧ ids = ids' ∧ d = d' := returns_pure

@[simp] theorem commits_skipLocked {rk : ℕ → K} {pick : D → (ℕ → Bool) → List ℕ} :
    (skipLocked rk pick pure : Tx D V ρ (List ℕ)).commits ids d r d' ↔ False := commits_pure

@[simp] theorem returns_insert {rk : ℕ → K} {row : (n : ℕ) → V (rk n)} {n : ℕ} :
    (insert rk row pure : Tx D V ρ ℕ).returns ids d n ids' d' ↔ get d (rk (ids 0)) = none ∧
      ids 0 = n ∧ (fun j => ids (j + 1)) = ids' ∧ set d (rk (ids 0)) (row (ids 0)) = d' := by
  rw [returns_iff, run_insert]
  cases get d (rk (ids 0)) <;> simp

@[simp] theorem commits_insert {rk : ℕ → K} {row : (n : ℕ) → V (rk n)} :
    (insert rk row pure : Tx D V ρ ℕ).commits ids d r d' ↔ False := by
  rw [commits_iff, run_insert]
  cases get d (rk (ids 0)) <;> simp

theorem exec_of_commits {p : Tx D V ρ Empty} (h : p.commits ids d r d') :
    p.exec ids d = (d', some r) := by
  rw [exec, commits_iff.mp h]

/-- A transaction that left another database behind committed it. -/
theorem commits_of_exec {p : Tx D V ρ Empty} (h : p.exec ids d = (d', some r)) (hne : d' ≠ d) :
    p.commits ids d r d' := by
  rcases exec_cases p ids d with ⟨r', d₁, hr, he⟩ | ⟨r', d₁, -, he⟩ | ⟨-, he⟩
  · rw [h] at he
    obtain ⟨rfl, hsome⟩ := Prod.mk.inj he
    rw [Option.some.inj hsome]
    exact hr
  · rw [h] at he
    exact absurd (Prod.mk.inj he).1 hne
  · rw [h] at he
    exact absurd (Prod.mk.inj he).1 hne

/-- What a transaction leaves is what it committed, or what it found. -/
theorem exec_fst (p : Tx D V ρ Empty) (ids : ℕ → ℕ) (d : D) :
    (p.exec ids d).1 = d ∨ ∃ r d', p.commits ids d r d' ∧ p.exec ids d = (d', some r) := by
  rcases exec_cases p ids d with ⟨r, d', hr, he⟩ | ⟨r, d', -, he⟩ | ⟨-, he⟩
  · exact Or.inr ⟨r, d', hr, he⟩
  · exact Or.inl (by rw [he])
  · exact Or.inl (by rw [he])

/-- What no row write changes, no transaction changes. -/
theorem commits_frame {γ : Type} {f : D → γ} (hf : ∀ d k v, f (set d k v) = f d) {p : Tx D V ρ α}
    (h : p.commits ids d r d') : f d' = f d := by
  induction p generalizing ids d with
  | value a => cases h
  | done c r =>
      cases h
      rfl
  | query next ih => exact ih d h
  | advisory key next ih => exact ih h
  | lockRow key m q next ih => exact ih _ h
  | update key kc g next ih =>
      rw [commits_iff, run_update] at h
      cases hg : (get d key).bind g with
      | none =>
          rw [hg] at h
          exact ih none h
      | some v =>
          rw [hg] at h
          exact (ih (some v) h).trans (hf d key v)
  | skipLocked rk pick next ih => exact ih _ h
  | insert rk row next ih =>
      rw [commits_iff, run_insert] at h
      cases hrow : get d (rk (ids 0)) with
      | none =>
          rw [hrow] at h
          exact (ih _ h).trans (hf d _ _)
      | some v =>
          rw [hrow] at h
          cases h

/-- A transaction commits, or it does not and the database stays as it was. -/
theorem exec_commits_or (p : Tx D V ρ Empty) (ids : ℕ → ℕ) (d : D) :
    (∃ r d', p.commits ids d r d' ∧ p.exec ids d = (d', some r)) ∨
      ((∀ r d', ¬ p.commits ids d r d') ∧ (p.exec ids d).1 = d) := by
  rcases exec_cases p ids d with ⟨r, d', hrun, he⟩ | ⟨r, d', hrun, he⟩ | ⟨hrun, he⟩
  · exact Or.inl ⟨r, d', hrun, he⟩
  · refine Or.inr ⟨fun r' d'' hc => ?_, by rw [he]⟩
    have hboth := hrun.symm.trans hc
    cases hboth
  · refine Or.inr ⟨fun r' d'' hc => ?_, by rw [he]⟩
    have hboth := hrun.symm.trans hc
    cases hboth

theorem returns_nil {ι : Type} {body : ι → Tx D V ρ Unit} {u : Unit} :
    (forEach [] body).returns ids d u ids' d' ↔ ids = ids' ∧ d = d' := by
  simp [forEach, returns_iff, run]

theorem returns_cons {ι : Type} {body : ι → Tx D V ρ Unit} {i : ι} {is : List ι} {u : Unit} :
    (forEach (i :: is) body).returns ids d u ids' d' ↔
      ∃ ids₁ d₁, (body i).returns ids d () ids₁ d₁ ∧
      (forEach is body).returns ids₁ d₁ u ids' d' := by
  rw [forEach, ← bind_def, returns_bind]
  exact ⟨fun ⟨_, h⟩ => h, fun h => ⟨(), h⟩⟩

/-- A loop whose body always returns never commits, and returns the folded database. -/
theorem returns_forEach {ι : Type} {body : ι → Tx D V ρ Unit} (step : ι → D → D)
    (hbody : ∀ i ids d u ids' d', (body i).returns ids d u ids' d' ↔ ids = ids' ∧ step i d = d')
    (is : List ι) {u : Unit} : (forEach is body).returns ids d u ids' d' ↔
      ids = ids' ∧ is.foldl (fun d i => step i d) d = d' := by
  induction is generalizing ids d with
  | nil => exact returns_nil
  | cons i is ih =>
      rw [returns_cons]
      simp only [hbody, ih, List.foldl_cons]
      constructor
      · rintro ⟨_, _, ⟨rfl, rfl⟩, h⟩
        exact h
      · exact fun h => ⟨ids, step i d, ⟨rfl, rfl⟩, h⟩

/-- What every turn of a loop keeps, the loop keeps. -/
theorem returns_forEach_induct {ι : Type} {body : ι → Tx D V ρ Unit} {Q : D → Prop}
    (hbody : ∀ i ids d ids' d', (body i).returns ids d () ids' d' → Q d → Q d') {is : List ι}
    {u : Unit} (h : (forEach is body).returns ids d u ids' d') (hQ : Q d) : Q d' := by
  induction is generalizing ids d with
  | nil =>
      obtain ⟨-, rfl⟩ := returns_nil.mp h
      exact hQ
  | cons i is ih =>
      obtain ⟨ids₁, d₁, hi, his⟩ := returns_cons.mp h
      exact ih his (hbody i ids d ids₁ d₁ hi hQ)

theorem not_commits_forEach {ι : Type} {body : ι → Tx D V ρ Unit}
    (hbody : ∀ i ids d r d', ¬ (body i).commits ids d r d') (is : List ι) :
    ¬ (forEach is body).commits ids d r d' := by
  induction is generalizing ids d with
  | nil => simp [forEach, commits_iff, run]
  | cons i is ih =>
      rw [forEach, ← bind_def, commits_bind]
      rintro (h | ⟨_, ids₁, d₁, _, h⟩)
      · exact hbody _ _ _ _ _ h
      · exact ih h

end Rules

/-- Run alone, the program is not refused: it ends with a value or commits. -/
def succeeds (p : Tx D V ρ α) (ids : ℕ → ℕ) (d : D) : Prop :=
  (∃ a ids' d', p.returns ids d a ids' d') ∨ ∃ r d', p.commits ids d r d'

section Succeeds
variable {p : Tx D V ρ α} {g : α → Tx D V ρ β} {ids : ℕ → ℕ} {d : D} {r : ρ} {a : α}

theorem succeeds_bind (hp : p.succeeds ids d)
    (hg : ∀ a ids' d', p.returns ids d a ids' d' → (g a).succeeds ids' d') :
    (p >>= g).succeeds ids d := by
  rcases hp with ⟨a, ids₁, d₁, hret⟩ | ⟨r, d', hc⟩
  · rcases hg a ids₁ d₁ hret with ⟨b, ids₂, d₂, h⟩ | ⟨r, d₂, h⟩
    · exact Or.inl ⟨b, ids₂, d₂, returns_bind.mpr ⟨a, ids₁, d₁, hret, h⟩⟩
    · exact Or.inr ⟨r, d₂, commits_bind.mpr (Or.inr ⟨a, ids₁, d₁, hret, h⟩)⟩
  · exact Or.inr ⟨r, d', commits_bind.mpr (Or.inl hc)⟩

/-- A program that returns goes on with what it returned. -/
theorem succeeds_of_returns {ids' : ℕ → ℕ} {d' : D} (hp : p.returns ids d a ids' d')
    (hg : (g a).succeeds ids' d') : (p >>= g).succeeds ids d := by
  refine succeeds_bind (Or.inl ⟨a, ids', d', hp⟩) ?_
  intro b ids'' d'' hb
  rw [returns_iff] at hp hb
  rw [hp] at hb
  obtain ⟨rfl, rfl, rfl⟩ := Outcome.value.inj hb
  exact hg

theorem succeeds_pure : (pure a : Tx D V ρ α).succeeds ids d :=
  Or.inl ⟨a, ids, d, returns_pure.mpr ⟨rfl, rfl, rfl⟩⟩

theorem succeeds_commit : (commit r : Tx D V ρ α).succeeds ids d :=
  Or.inr ⟨r, d, commits_commit.mpr ⟨rfl, rfl⟩⟩

theorem succeeds_update {k : K} {kc : V k → Bool} {f : V k → Option (V k)} :
    (update k kc f pure : Tx D V ρ (Option (V k))).succeeds ids d :=
  Or.inl ⟨_, _, _, returns_update.mpr ⟨rfl, rfl, rfl⟩⟩

/-- A loop is not refused when its body is not, under a fact its body keeps. -/
theorem succeeds_forEach {ι : Type} {body : ι → Tx D V ρ Unit} {is : List ι} (Q : D → Prop)
    (hbody : ∀ i ∈ is, ∀ ids d, Q d → (body i).succeeds ids d ∧
      ∀ ids' d', (body i).returns ids d () ids' d' → Q d') (hQ : Q d) :
    (forEach is body).succeeds ids d := by
  induction is generalizing ids d with
  | nil => exact succeeds_pure
  | cons i is ih =>
      rw [forEach, ← bind_def]
      obtain ⟨hi, hnext⟩ := hbody i (by simp) ids d hQ
      exact succeeds_bind hi (fun _ ids' d' hret =>
        ih (fun j hj => hbody j (by simp [hj])) (hnext ids' d' hret))

def rollsBack (p : Tx D V ρ α) (ids : ℕ → ℕ) (d : D) (r : ρ) : Prop :=
  ∃ d', p.run ids d = .done false r d'

theorem rollsBack_rollback : (rollback r : Tx D V ρ α).rollsBack ids d r := ⟨d, rfl⟩

theorem rollsBack_bind (hp : p.rollsBack ids d r) : (p >>= g).rollsBack ids d r := by
  obtain ⟨d', hp⟩ := hp
  exact ⟨d', by rw [run_bind, hp]; rfl⟩

theorem rollsBack_of_returns {ids' : ℕ → ℕ} {d' : D} (hp : p.returns ids d a ids' d')
    (hg : (g a).rollsBack ids' d' r) : (p >>= g).rollsBack ids d r := by
  obtain ⟨d'', hg⟩ := hg
  exact ⟨d'', by rw [run_bind, returns_iff.mp hp]; exact hg⟩

theorem exec_of_rollsBack {p : Tx D V ρ Empty} (h : p.rollsBack ids d r) :
    p.exec ids d = (d, some r) := by
  obtain ⟨d', h⟩ := h
  rw [exec, h]

theorem exists_commits {p : Tx D V ρ Empty} (h : p.succeeds ids d) :
    ∃ r d', p.commits ids d r d' := by
  rcases h with ⟨a, -⟩ | h
  · exact a.elim
  · exact h

end Succeeds

/-! ### Failing statements -/

section Failing
variable {p : Tx D V ρ α} {ids : ℕ → ℕ} {d d' : D} {r : ρ}

theorem done_of_ends {E : Bool → ρ → Prop} {c : Bool} (h : p.ends E)
    (hr : p.run ids d = .done c r d') : E c r := by
  induction p generalizing ids d with
  | value a => cases hr
  | done c' r' =>
      obtain ⟨rfl, rfl, -⟩ := Outcome.done.inj hr
      exact h
  | query next ih => exact ih d (h d) hr
  | advisory key next ih => exact ih h hr
  | lockRow key m q next ih => exact ih _ (h _) hr
  | update key kc f next ih =>
      rw [run_update] at hr
      split at hr
      · exact ih _ (h _) hr
      · exact ih _ (h _) hr
  | skipLocked rk pick next ih => exact ih _ (h _) hr
  | insert rk row next ih =>
      rw [run_insert] at hr
      split at hr
      · cases hr
      · exact ih _ (h _) hr

def endsFrom (E : Bool → ρ → Prop) (p : Tx D V ρ α) (ids : ℕ → ℕ) (d : D) : Prop :=
  ∀ c r d', p.run ids d = .done c r d' → E c r

theorem endsFrom_of_ends {E : Bool → ρ → Prop} (h : p.ends E) : p.endsFrom E ids d :=
  fun _ _ _ hr => done_of_ends h hr

/-- What follows a first part need only be right where that part ended. -/
theorem endsFrom_bind {E : Bool → ρ → Prop} {g : α → Tx D V ρ β} (hp : p.endsFrom E ids d)
    (hg : ∀ a ids' d', p.returns ids d a ids' d' → (g a).endsFrom E ids' d') :
    (p >>= g).endsFrom E ids d := by
  intro c r d' hr
  rw [run_bind] at hr
  cases hp' : p.run ids d with
  | value a ids₁ d₁ =>
      rw [hp'] at hr
      exact hg a ids₁ d₁ hp' c r d' hr
  | done c' r' d₁ =>
      rw [hp'] at hr
      obtain ⟨rfl, rfl, -⟩ := Outcome.done.inj hr
      exact hp c' r' d₁ hp'
  | rejected =>
      rw [hp'] at hr
      cases hr

/-- An isolated run whose connection survives `n` statements: the next one fails, also when it is
the commit, and the transaction is rolled back. -/
def runFor : Tx D V ρ α → ℕ → (ℕ → ℕ) → D → Outcome D ρ α
  | value a, _, ids, d => .value a ids d
  | done false r, _, _, d => .done false r d
  | done true _, 0, _, _ => .rejected
  | done true r, _ + 1, _, d => .done true r d
  | query _, 0, _, _ => .rejected
  | query next, n + 1, ids, d => (next d).runFor n ids d
  | advisory _ _, 0, _, _ => .rejected
  | advisory _ next, n + 1, ids, d => next.runFor n ids d
  | lockRow _ _ _ _, 0, _, _ => .rejected
  | lockRow key _ p next, n + 1, ids, d => (next ((get d key).filter p)).runFor n ids d
  | update _ _ _ _, 0, _, _ => .rejected
  | update key _ f next, n + 1, ids, d =>
      match (get d key).bind f with
      | some v => (next (some v)).runFor n ids (set d key v)
      | none => (next none).runFor n ids d
  | skipLocked _ _ _, 0, _, _ => .rejected
  | skipLocked _ pick next, n + 1, ids, d => (next (pick d (fun _ => false))).runFor n ids d
  | insert _ _ _, 0, _, _ => .rejected
  | insert rk row next, n + 1, ids, d =>
      match get d (rk (ids 0)) with
      | some _ => .rejected
      | none => (next (ids 0)).runFor n (fun n => ids (n + 1)) (set d (rk (ids 0)) (row (ids 0)))

/-- A failing connection only cuts a run short. -/
theorem runFor_eq (p : Tx D V ρ α) (n : ℕ) (ids : ℕ → ℕ) (d : D) :
    p.runFor n ids d = p.run ids d ∨ p.runFor n ids d = .rejected := by
  induction p generalizing n ids d with
  | value a => exact Or.inl (by simp only [runFor, run])
  | done c r =>
      cases c with
      | false => exact Or.inl (by simp only [runFor, run])
      | true =>
          cases n with
          | zero => exact Or.inr (by simp only [runFor])
          | succ n => exact Or.inl (by simp only [runFor, run])
  | query next ih =>
      cases n with
      | zero => exact Or.inr (by simp only [runFor])
      | succ n => simpa only [runFor, run] using ih d n ids d
  | advisory key next ih =>
      cases n with
      | zero => exact Or.inr (by simp only [runFor])
      | succ n => simpa only [runFor, run] using ih n ids d
  | lockRow key m q next ih =>
      cases n with
      | zero => exact Or.inr (by simp only [runFor])
      | succ n => simpa only [runFor, run] using ih _ n ids d
  | update key kc f next ih =>
      cases n with
      | zero => exact Or.inr (by simp only [runFor])
      | succ n =>
          simp only [runFor, run]
          cases (get d key).bind f with
          | none => exact ih none n ids d
          | some v => exact ih (some v) n ids _
  | skipLocked rk pick next ih =>
      cases n with
      | zero => exact Or.inr (by simp only [runFor])
      | succ n => simpa only [runFor, run] using ih _ n ids d
  | insert rk row next ih =>
      cases n with
      | zero => exact Or.inr (by simp only [runFor])
      | succ n =>
          simp only [runFor, run]
          cases get d (rk (ids 0)) with
          | none => exact ih _ n _ _
          | some v => exact Or.inl rfl

/-- The database and the answer of a transaction whose connection survives `n` statements. -/
def execFor (p : Tx D V ρ Empty) (n : ℕ) (ids : ℕ → ℕ) (d : D) : D × Option ρ :=
  match p.runFor n ids d with
  | .value a _ _ => nomatch a
  | .done true r d' => (d', some r)
  | .done false r _ => (d, some r)
  | .rejected => (d, none)

/-- A transaction over a failing connection commits as it would have, ends with one of its own
errors, or is rolled back without an answer. -/
theorem execFor_cases {E : Bool → ρ → Prop} {p : Tx D V ρ Empty} (hp : p.ends E) (n : ℕ)
    (ids : ℕ → ℕ) (d : D) :
    (∃ r d', p.commits ids d r d' ∧ p.execFor n ids d = (d', some r)) ∨
      (∃ r, E false r ∧ p.execFor n ids d = (d, some r)) ∨ p.execFor n ids d = (d, none) := by
  unfold execFor
  rcases runFor_eq p n ids d with h | h
  · rw [h]
    cases hr : p.run ids d with
    | value a ids' d' => exact a.elim
    | rejected => exact Or.inr (Or.inr rfl)
    | done c r d' =>
        cases c with
        | true => exact Or.inl ⟨r, d', hr, rfl⟩
        | false => exact Or.inr (Or.inl ⟨r, done_of_ends hp hr, rfl⟩)
  · rw [h]
    exact Or.inr (Or.inr rfl)

/-- On a connection that does not fail, the same for `exec`. -/
theorem exec_cases_of_ends {E : Bool → ρ → Prop} {p : Tx D V ρ Empty} (hp : p.ends E) (ids : ℕ → ℕ)
    (d : D) : (∃ r d', p.commits ids d r d' ∧ p.exec ids d = (d', some r)) ∨
      (∃ r, E false r ∧ p.exec ids d = (d, some r)) ∨ p.exec ids d = (d, none) := by
  rcases exec_cases p ids d with ⟨r, d', hrun, he⟩ | ⟨r, d', hrun, he⟩ | ⟨-, he⟩
  · exact Or.inl ⟨r, d', hrun, he⟩
  · exact Or.inr (Or.inl ⟨r, done_of_ends hp hrun, he⟩)
  · exact Or.inr (Or.inr he)

theorem commits_of_answer {E : Bool → ρ → Prop} {p : Tx D V ρ Empty} (hp : p.ends E)
    (h : p.exec ids d = (d', some r)) (hr : ¬ E false r) : p.commits ids d r d' := by
  rcases exec_cases_of_ends hp ids d with ⟨r', d₁, hc, he⟩ | ⟨r', hend, he⟩ | he
  · rw [h] at he
    obtain ⟨rfl, hsome⟩ := Prod.mk.inj he
    rw [Option.some.inj hsome]
    exact hc
  · rw [h] at he
    rw [Option.some.inj (Prod.mk.inj he).2] at hr
    exact absurd hend hr
  · rw [h] at he
    cases (Prod.mk.inj he).2

end Failing

end Tx
end Relational
