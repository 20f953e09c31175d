import Dufaka.Table
import Dufaka.Transaction

/-!
# Interleaved transactions under READ COMMITTED

Every session sees the committed database under its own pending writes (`view`). A statement looks
at the newest such rows when it executes: it takes its row locks, or it cannot execute while another
session holds a conflicting one, so a statement that waited evaluates its `WHERE` test on the newest
row. Locks are kept to the end of the transaction. A commit makes the pending writes the committed
rows, a rollback drops them, and any session may be aborted at any time.

A `SKIP LOCKED` scan is given the rows it met locked. They must cover the rows it would otherwise
take and cannot lock; a row that was locked only while the scan passed it may be among them.
-/

namespace Relational

abbrev Locks (K : Type) := List (K × LockMode)

abbrev Writes {K : Type} (V : K → Type) := List ((k : K) × V k)

section View
variable {D K : Type} {V : K → Type} [RowStore D V]
open RowStore

/-- The database under pending writes, the newest write first. -/
def view (d : D) : Writes V → D
  | [] => d
  | w :: ws => set (view d ws) w.1 w.2

@[simp] theorem view_nil (d : D) : view d ([] : Writes V) = d := rfl

@[simp] theorem view_cons (d : D) (w : (k : K) × V k) (ws : Writes V) :
    view d (w :: ws) = set (view d ws) w.1 w.2 := rfl

theorem view_append (d : D) (ws w : Writes V) : view d (ws ++ w) = view (view d w) ws := by
  induction ws with
  | nil => rfl
  | cons x ws ih => rw [List.cons_append, view_cons, view_cons, ih]

theorem get_view_of_notMem {d : D} {ws : Writes V} {k : K} (h : ∀ w ∈ ws, w.1 ≠ k) :
    get (view d ws) k = get d k := by
  induction ws with
  | nil => rfl
  | cons w ws ih =>
      rw [view_cons, get_set_of_ne _ _ _ _ (h w (by simp)).symm]
      exact ih (fun w' hw' => h w' (by simp [hw']))

/-- A written row reads the same over any two committed databases. -/
theorem get_view_of_mem {d d' : D} {ws : Writes V} {k : K} (h : ∃ w ∈ ws, w.1 = k) :
    get (view d ws) k = get (view d' ws) k := by
  induction ws with
  | nil => simp at h
  | cons w ws ih =>
      by_cases hw : w.1 = k
      · subst hw
        rw [view_cons, view_cons, get_set_self, get_set_self]
      · obtain ⟨w', hw', hk⟩ := h
        have hm : w' ∈ ws := by
          rcases List.mem_cons.mp hw' with rfl | hm
          · exact absurd hk hw
          · exact hm
        rw [view_cons, view_cons, get_set_of_ne _ _ _ _ (Ne.symm hw),
          get_set_of_ne _ _ _ _ (Ne.symm hw)]
        exact ih ⟨w', hm, hk⟩

theorem get_view_congr {d d' : D} {ws : Writes V} {k : K} (h : get d' k = get d k) :
    get (view d' ws) k = get (view d ws) k := by
  by_cases hm : ∃ w ∈ ws, w.1 = k
  · exact get_view_of_mem hm
  · push Not at hm
    rw [get_view_of_notMem hm, get_view_of_notMem hm, h]

end View

namespace Tx
variable {D K : Type} {V : K → Type} {ρ α : Type} [RowStore D V]
open RowStore

def acquires : Tx D V ρ α → D → List ℕ → Locks K
  | advisory key _, _, _ => [(key, .update)]
  | lockRow key m p _, v, _ => if ((get v key).filter p).isSome then [(key, m)] else []
  | update key kc f _, v, _ =>
      match get v key with
      | some r => if (f r).isSome then [(key, updateMode (kc r))] else []
      | none => []
  | skipLocked rk pick _, v, choice =>
      (pick v (fun n => choice.contains n)).map (fun n => (rk n, .update))
  | insert rk _ _, _, n :: _ => [(rk n, .update)]
  | _, _, _ => []

/-- The lock the next statement waits for when it is not free. A `SKIP LOCKED` scan and an insert
under a fresh identity never wait. -/
def request (p : Tx D V ρ α) (v : D) : Locks K :=
  match p with
  | skipLocked _ _ _ => []
  | insert _ _ _ => []
  | p => p.acquires v []

def advance : Tx D V ρ α → D → List ℕ → Option (Tx D V ρ α × Writes V)
  | query next, v, _ => some (next v, [])
  | advisory _ next, _, _ => some (next, [])
  | lockRow key _ p next, v, _ => some (next ((get v key).filter p), [])
  | update key _ f next, v, _ =>
      match (get v key).bind f with
      | some r => some (next (some r), [⟨key, r⟩])
      | none => some (next none, [])
  | skipLocked _ pick next, v, choice => some (next (pick v (fun n => choice.contains n)), [])
  | insert rk row next, v, n :: _ =>
      match get v (rk n) with
      | some _ => none
      | none => some (next n, [⟨rk n, row n⟩])
  | _, _, _ => none

/-- A statement writes only rows that its program touches. -/
theorem touches_advance {T : K → Prop} {p p' : Tx D V ρ α} {v : D} {choice : List ℕ} {ws : Writes V}
    (h : p.touches T) (ha : p.advance v choice = some (p', ws)) :
    p'.touches T ∧ ∀ w ∈ ws, T w.1 := by
  cases p with
  | value a | done c r => cases ha
  | query next =>
      obtain ⟨rfl, rfl⟩ := Prod.mk.inj (Option.some.inj ha)
      exact ⟨h v, by simp⟩
  | advisory key next =>
      obtain ⟨rfl, rfl⟩ := Prod.mk.inj (Option.some.inj ha)
      exact ⟨h, by simp⟩
  | lockRow key m q next =>
      obtain ⟨rfl, rfl⟩ := Prod.mk.inj (Option.some.inj ha)
      exact ⟨h _, by simp⟩
  | update key kc f next =>
      simp only [advance] at ha
      split at ha
      case h_1 =>
        obtain ⟨rfl, rfl⟩ := Prod.mk.inj (Option.some.inj ha)
        exact ⟨h.2 _, by simpa using h.1⟩
      case h_2 =>
        obtain ⟨rfl, rfl⟩ := Prod.mk.inj (Option.some.inj ha)
        exact ⟨h.2 _, by simp⟩
  | skipLocked rk pick next =>
      obtain ⟨rfl, rfl⟩ := Prod.mk.inj (Option.some.inj ha)
      exact ⟨h _, by simp⟩
  | insert rk row next =>
      cases choice with
      | nil => cases ha
      | cons n choice =>
          simp only [advance] at ha
          split at ha
          · cases ha
          · obtain ⟨rfl, rfl⟩ := Prod.mk.inj (Option.some.inj ha)
            exact ⟨h.2 n, by simpa using h.1 n⟩

end Tx

structure Session (τ D : Type) {K : Type} (V : K → Type) (ρ : Type) where
  tag : τ
  prog : Tx D V ρ Empty
  locks : Locks K
  writes : Writes V

structure Config (τ D : Type) {K : Type} (V : K → Type) (ρ : Type) where
  db : D
  sessions : Table (Session τ D V ρ)

structure System (τ ε D : Type) {K : Type} (V : K → Type) (ρ : Type) where
  prog : τ → D → Tx D V ρ Empty
  tick : ε → D → D

inductive Action (τ ε : Type) where
  | start (t : ℕ) (tag : τ)
  | exec (t : ℕ) (choice : List ℕ)
  | finish (t : ℕ)
  | abort (t : ℕ)
  | env (e : ε)

def Config.start {τ D K : Type} {V : K → Type} {ρ : Type} (d : D) : Config τ D V ρ :=
  ⟨d, Table.empty⟩

def Config.place {τ D K : Type} {V : K → Type} {ρ : Type} (c : Config τ D V ρ) (t : ℕ)
    (s : Session τ D V ρ) : Config τ D V ρ := { c with sessions := c.sessions.put t s }

section Steps
variable {τ ε D K : Type} {V : K → Type} {ρ : Type} [RowStore D V] [DecidableEq K]

/-- Another session holds a lock on the key that conflicts with the mode. -/
def Config.blocked (c : Config τ D V ρ) (t : ℕ) (l : K × LockMode) : Bool :=
  c.sessions.entries.any (fun e => e.1 ≠ t &&
    e.2.locks.any (fun h => h.1 = l.1 && h.2.conflicts l.2))

def Config.execute (c : Config τ D V ρ) (t : ℕ) (choice : List ℕ) (s : Session τ D V ρ) :
    Option (Config τ D V ρ) :=
  let v := view c.db s.writes
  if (s.prog.acquires v choice).any (c.blocked t) then none
  else (s.prog.advance v choice).map (fun r =>
    c.place t ⟨s.tag, r.1, s.prog.acquires v choice ++ s.locks, r.2 ++ s.writes⟩)

def Config.finish (c : Config τ D V ρ) (t : ℕ) (s : Session τ D V ρ) : Option (Config τ D V ρ) :=
  match s.prog with
  | .done true _ => some ⟨view c.db s.writes, c.sessions.erase t⟩
  | .done false _ => some ⟨c.db, c.sessions.erase t⟩
  | _ => none

def System.step (sys : System τ ε D V ρ) (c : Config τ D V ρ) :
    Action τ ε → Option (Config τ D V ρ)
  | .start t tag =>
      match c.sessions.get? t with
      | some _ => none
      | none => some (c.place t ⟨tag, sys.prog tag c.db, [], []⟩)
  | .exec t choice => (c.sessions.get? t).bind (c.execute t choice)
  | .finish t => (c.sessions.get? t).bind (c.finish t)
  | .abort t => some { c with sessions := c.sessions.erase t }
  | .env e => some { c with db := sys.tick e c.db }

/-- The configuration after a sequence of actions, each of which could happen. -/
def System.runs (sys : System τ ε D V ρ) : List (Action τ ε) → Config τ D V ρ →
    Option (Config τ D V ρ)
  | [], c => some c
  | a :: as, c => (sys.step c a).bind (sys.runs as)

def Config.commitOf (c : Config τ D V ρ) : Action τ ε → List τ
  | .finish t =>
      match c.sessions.get? t with
      | some s =>
          match s.prog with
          | .done true _ => [s.tag]
          | _ => []
      | none => []
  | _ => []

/-- The tags of the transactions that the actions commit, in the order of the commits. -/
def System.commits (sys : System τ ε D V ρ) : List (Action τ ε) → Config τ D V ρ → List τ
  | [], _ => []
  | a :: as, c => c.commitOf a ++ ((sys.step c a).map (sys.commits as)).getD []

/-- `t` cannot execute its next statement because `u` holds a conflicting lock. -/
def Config.waits (c : Config τ D V ρ) (t u : ℕ) : Prop :=
  t ≠ u ∧ ∃ s s', c.sessions.get? t = some s ∧ c.sessions.get? u = some s' ∧
    ∃ l ∈ s.prog.request (view c.db s.writes), ∃ h ∈ s'.locks, h.1 = l.1 ∧ h.2.conflicts l.2 = true

omit [RowStore D V] in
theorem Config.blocked_eq_false_iff (c : Config τ D V ρ) (t : ℕ) (l : K × LockMode) :
    c.blocked t l = false ↔ ∀ u s, c.sessions.get? u = some s → u ≠ t →
      ∀ h ∈ s.locks, h.1 = l.1 → h.2.conflicts l.2 = false := by
  unfold Config.blocked
  rw [List.any_eq_false]
  constructor
  · intro hall u s hu hne h hh hk
    have := hall (u, s) ((c.sessions.mem_entries_iff u s).mpr hu)
    simp only [ne_eq, hne, not_false_eq_true, decide_true, Bool.true_and, List.any_eq_true,
      Bool.and_eq_true, decide_eq_true_eq, not_exists, not_and, Bool.not_eq_true] at this
    exact this h hh hk
  · rintro hall ⟨u, s⟩ hmem
    have hu := (c.sessions.mem_entries_iff u s).mp hmem
    by_cases hne : u = t
    · simp [hne]
    · simp only [ne_eq, hne, not_false_eq_true, decide_true, Bool.true_and, List.any_eq_true,
        Bool.and_eq_true, decide_eq_true_eq, not_exists, not_and, Bool.not_eq_true]
      intro h hh hk
      exact hall u s hu hne h hh hk

end Steps
end Relational
