import Dufaka.CommitPoint

/-!
# The order of locks

Rules under which the waits of an interleaving form no cycle. A request is harmless when no other
session can hold the row against it: a lock in hand covers it, or what the owner of such a lock
knows of the row is not so. Any other request is for a key above all that the session has locked.
`Tx.obeys` asks this of a program and keeps book of the locks in hand and of rows that are known to
be there; what it finds for a program holds of the session that runs it, whatever others commit.
-/

namespace Relational
open RowStore

variable {τ ε D K : Type} {V : K → Type} {ρ α β : Type}

namespace LockMode

/-- Whoever the first mode keeps away, the second keeps away too. -/
def weaker (m n : LockMode) : Prop := ∀ k, m.conflicts k = true → n.conflicts k = true

theorem weaker_refl (m : LockMode) : m.weaker m := fun _ h => h

theorem weaker.trans {l m n : LockMode} (h : l.weaker m) (h' : m.weaker n) : l.weaker n :=
  fun k hk => h' k (h k hk)

theorem weaker_of_exclusive {m n : LockMode} (hm : m ≠ .update) (hn : n.exclusive = true) :
    m.weaker n := by
  intro k hk
  cases n with
  | keyShare | share => cases hn
  | update => cases k <;> rfl
  | noKeyUpdate =>
      cases m with
      | update => exact absurd rfl hm
      | keyShare | share | noKeyUpdate => cases k <;> first | rfl | cases hk

end LockMode

/-- A lock in hand is at least as strong. -/
def Covers (L : Locks K) (k : K) (m : LockMode) : Prop := ∃ n, (k, n) ∈ L ∧ m.weaker n

theorem Owns.covers {L : Locks K} {k : K} {m : LockMode} (h : Owns L k) (hm : m ≠ .update) :
    Covers L k m := by
  obtain ⟨n, hn, hk⟩ := h
  exact ⟨n, hk, LockMode.weaker_of_exclusive hm hn⟩

/-- A lock that is covered waits for nobody. -/
theorem Covers.free {L L' : Locks K} {k : K} {m n : LockMode} (h : Covers L k m)
    (hL : Compatible L L') (hn : (k, n) ∈ L') : n.conflicts m = false := by
  obtain ⟨m', hm', hw⟩ := h
  rw [LockMode.conflicts_comm, Bool.eq_false_iff]
  intro hc
  have hfree := hL _ hm' _ hn rfl
  rw [hw n hc] at hfree
  cases hfree

/-- The order of the keys, what the owner of a lock knows of the committed row, and the rows that
are there because another one is. -/
structure LockRules {K : Type} (V : K → Type) where
  level : K → ℕ
  knows : (k : K) → LockMode → Option (V k) → Locks K → Prop
  leads : (k : K) → V k → K → Prop
  mono : ∀ {k m r L L'}, L ⊆ L' → knows k m r L → knows k m r L'
  /-- Others may change a row that is locked in a shared mode. -/
  shared : ∀ {k m r r' L}, m.exclusive = false → knows k m r L → knows k m r' L

namespace LockRules
variable (R : LockRules V)

/-- The session that holds `L` may wait for the lock, or will not have to. -/
def Asks (L : Locks K) (k : K) (m : LockMode) (r : Option (V k)) : Prop :=
  Covers L k m ∨
    (m ≠ .update ∧ ∀ L' n, Compatible L L' → (k, n) ∈ L' → R.knows k n r L' →
      n.conflicts m = false) ∨
    ∀ h ∈ L, R.level h.1 < R.level k

/-- The session that holds `L` knows the row that it locks. -/
def Takes (L : Locks K) (k : K) (m : LockMode) (r : Option (V k)) : Prop :=
  Covers L k m ∨ ((m = .update → ∀ h ∈ L, h.1 ≠ k) ∧ R.knows k m r L)

theorem asks_of_owns {L : Locks K} {k : K} {m : LockMode} {r : Option (V k)} (h : Owns L k)
    (hm : m ≠ .update) : R.Asks L k m r := Or.inl (h.covers hm)

theorem takes_of_owns {L : Locks K} {k : K} {m : LockMode} {r : Option (V k)} (h : Owns L k)
    (hm : m ≠ .update) : R.Takes L k m r := Or.inl (h.covers hm)

end LockRules

namespace Tx
variable [RowStore D V]

/-- With the rows `P` there and the locks `L` in hand, the program obeys the rules; where it ends
with a value, `Q` holds. -/
def obeys (R : LockRules V) (Q : (K → Prop) → Locks K → α → Prop) :
    Tx D V ρ α → (K → Prop) → Locks K → Prop
  | .value a, P, L => Q P L a
  | .done _ _, _, _ => True
  | .query next, P, L => ∀ v, (∀ k, P k → (get v k).isSome = true) →
      (next v).obeys R Q (fun k => (get v k).isSome = true) L
  | .advisory key next, P, L => (∀ r, R.Asks L key .update r ∧ R.Takes L key .update r) ∧
      next.obeys R Q P ((key, .update) :: L)
  | .lockRow key m p next, P, L =>
      (∀ row, p row = true → R.Asks L key m (some row) ∧ R.Takes L key m (some row) ∧
        (next (some row)).obeys R Q (fun k => P k ∨ k = key ∨ R.leads key row k) ((key, m) :: L)) ∧
      ((P key → ∃ row, p row = false) → (next none).obeys R Q P L)
  | .update key kc f next, P, L =>
      (∀ row row', f row = some row' → R.Asks L key (updateMode (kc row)) (some row) ∧
        R.Takes L key (updateMode (kc row)) (some row) ∧
        (∀ k, R.leads key row' k → R.leads key row k) ∧
        (next (some row')).obeys R Q (fun k => P k ∨ k = key ∨ R.leads key row k)
          ((key, updateMode (kc row)) :: L)) ∧
      (next none).obeys R Q P L
  | .skipLocked rk pick next, P, L => ∀ v skip, (∀ k, P k → (get v k).isSome = true) →
      (∀ n ∈ pick v skip, R.Takes L (rk n) .update (get v (rk n))) ∧
      (next (pick v skip)).obeys R Q P ((pick v skip).map (fun n => (rk n, LockMode.update)) ++ L)
  | .insert rk row next, P, L => ∀ n, R.knows (rk n) .update none L ∧
      (∀ k, R.leads (rk n) (row n) k → P k) ∧
      (next n).obeys R Q (fun k => P k ∨ k = rk n) ((rk n, .update) :: L)

section Rules
variable {R : LockRules V} {P : K → Prop} {L : Locks K}

theorem obeys_bind {Q : (K → Prop) → Locks K → β → Prop} (p : Tx D V ρ α) (g : α → Tx D V ρ β) :
    (p >>= g).obeys R Q P L ↔ p.obeys R (fun P' L' a => (g a).obeys R Q P' L') P L := by
  rw [bind_def]
  induction p generalizing P L with
  | value a => exact Iff.rfl
  | done c r => exact Iff.rfl
  | query next ih => simp only [bind, obeys, ih]
  | advisory key next ih => simp only [bind, obeys, ih]
  | lockRow key m p next ih => simp only [bind, obeys, ih]
  | update key kc f next ih => simp only [bind, obeys, ih]
  | skipLocked rk pick next ih => simp only [bind, obeys, ih]
  | insert rk row next ih => simp only [bind, obeys, ih]

theorem obeys.mono {Q Q' : (K → Prop) → Locks K → α → Prop} {p : Tx D V ρ α}
    (h : p.obeys R Q P L) (hQ : ∀ P L a, Q P L a → Q' P L a) : p.obeys R Q' P L := by
  induction p generalizing P L with
  | value a => exact hQ P L a h
  | done c r => trivial
  | query next ih => exact fun v hv => ih v (h v hv)
  | advisory key next ih => exact ⟨h.1, ih h.2⟩
  | lockRow key m p next ih =>
      refine ⟨fun row hrow => ?_, fun hnone => ih none (h.2 hnone)⟩
      obtain ⟨hasks, htakes, hnext⟩ := h.1 row hrow
      exact ⟨hasks, htakes, ih (some row) hnext⟩
  | update key kc f next ih =>
      refine ⟨fun row row' hf => ?_, ih none h.2⟩
      obtain ⟨hasks, htakes, hleads, hnext⟩ := h.1 row row' hf
      exact ⟨hasks, htakes, hleads, ih (some row') hnext⟩
  | skipLocked rk pick next ih =>
      intro v skip hv
      obtain ⟨htakes, hnext⟩ := h v skip hv
      exact ⟨htakes, ih _ hnext⟩
  | insert rk row next ih =>
      intro n
      obtain ⟨hknows, hleads, hnext⟩ := h n
      exact ⟨hknows, hleads, ih n hnext⟩

/-- What every turn of a loop keeps, the loop keeps. -/
theorem obeys_forEach {ι : Type} {body : ι → Tx D V ρ Unit}
    {J : List ι → (K → Prop) → Locks K → Prop}
    (hbody : ∀ i is P L, J (i :: is) P L → (body i).obeys R (fun P' L' _ => J is P' L') P L)
    {is : List ι} (h : J is P L) : (forEach is body).obeys R (fun P' L' _ => J [] P' L') P L := by
  induction is generalizing P L with
  | nil => exact h
  | cons i is ih =>
      exact (obeys_bind _ _).mpr ((hbody i is P L h).mono (fun _ _ _ h' => ih h'))

end Rules

end Tx

/-! ### Sessions under the rules -/

section Sessions
variable [RowStore D V] {R : LockRules V} {d v : D} {w ws : Writes V} {k : K}

/-- A row that is there is not removed by writes. -/
theorem isSome_get_view (h : (get d k).isSome = true) : (get (view d w) k).isSome = true := by
  induction w with
  | nil => exact h
  | cons x w ih =>
      rw [view_cons]
      by_cases hx : k = x.1
      · subst hx
        rw [get_set_self]
        rfl
      · rw [get_set_of_ne _ _ _ _ hx]
        exact ih

theorem isSome_get_view_of_mem (h : ∃ x ∈ w, x.1 = k) : (get (view d w) k).isSome = true := by
  induction w with
  | nil =>
      obtain ⟨x, hx, -⟩ := h
      cases hx
  | cons y w ih =>
      rw [view_cons]
      by_cases hy : k = y.1
      · subst hy
        rw [get_set_self]
        rfl
      · rw [get_set_of_ne _ _ _ _ hy]
        obtain ⟨x, hx, rfl⟩ := h
        rcases List.mem_cons.mp hx with rfl | hx
        · exact absurd rfl hy
        · exact ih ⟨x, hx, rfl⟩

namespace LockRules

/-- The rows that have to be there are there. -/
def Closed (R : LockRules V) (d : D) : Prop :=
  ∀ k row, get d k = some row → ∀ k', R.leads k row k' → (get d k').isSome = true

theorem Closed.set (h : R.Closed d) {row : V k}
    (hrow : ∀ k', R.leads k row k' → (get d k').isSome = true) :
    R.Closed (RowStore.set d k row) := by
  have hmore : ∀ k', (get d k').isSome = true → (get (RowStore.set d k row) k').isSome = true :=
    fun k' hk' => isSome_get_view (w := [⟨k, row⟩]) hk'
  intro k' row' hrow' k'' hk''
  by_cases hk : k' = k
  · subst hk
    rw [get_set_self] at hrow'
    obtain rfl := Option.some.inj hrow'
    exact hmore k'' (hrow k'' hk'')
  · rw [get_set_of_ne _ _ _ _ hk] at hrow'
    exact hmore k'' (h k' row' hrow' k'' hk'')

/-- Another session's commit. -/
theorem Closed.commit {w' : Writes V} (h : R.Closed (view d w)) (h' : R.Closed (view d w')) :
    R.Closed (view (view d w') w) := by
  intro k row hrow k' hk'
  by_cases hm : ∃ x ∈ w, x.1 = k
  · have hsame : get (view d w) k = get (view (view d w') w) k := get_view_of_mem hm
    have hthere := h k row (hsame.trans hrow) k' hk'
    by_cases hm' : ∃ x ∈ w, x.1 = k'
    · exact isSome_get_view_of_mem hm'
    · push Not at hm'
      rw [get_view_of_notMem hm'] at hthere
      exact isSome_get_view (isSome_get_view hthere)
  · push Not at hm
    rw [get_view_of_notMem hm] at hrow
    exact isSome_get_view (h' k row hrow k' hk')

/-- What a session knows of the row under a lock in hand. -/
structure Obeys (R : LockRules V) (d : D) (s : Session τ D V ρ) : Prop where
  owned : ∀ x ∈ s.writes, Owns s.locks x.1
  closed : R.Closed (view d s.writes)
  knows : ∀ k m, (k, m) ∈ s.locks →
    ∃ n, (k, n) ∈ s.locks ∧ m.weaker n ∧ R.knows k n (get d k) s.locks
  prog : ∃ P, (∀ k, P k → (get (view d s.writes) k).isSome = true) ∧
    s.prog.obeys R (fun _ _ _ => True) P s.locks

structure Obeyed (R : LockRules V) (c : Config τ D V ρ) : Prop where
  apart : c.Apart
  closed : R.Closed c.db
  session : ∀ t s, c.sessions.get? t = some s → R.Obeys c.db s

end LockRules

/-- The rest of a program after one statement. -/
theorem Tx.obeys.advance {Q : (K → Prop) → Locks K → α → Prop} {P : K → Prop} {L : Locks K}
    {p p' : Tx D V ρ α} {choice : List ℕ} (h : p.obeys R Q P L)
    (hP : ∀ k, P k → (get v k).isSome = true) (hv : R.Closed v)
    (ha : p.advance v choice = some (p', ws)) :
    (∃ P', (∀ k, P' k → (get (view v ws) k).isSome = true) ∧
      p'.obeys R Q P' (p.acquires v choice ++ L)) ∧ R.Closed (view v ws) ∧
    ∀ k m, (k, m) ∈ p.acquires v choice →
      R.Takes L k m (get v k) ∨ (get v k = none ∧ R.knows k m none L) := by
  cases p with
  | value a | done c r => cases ha
  | query next =>
      obtain ⟨rfl, rfl⟩ := Prod.mk.inj (Option.some.inj ha)
      exact ⟨⟨_, fun _ hk => hk, h v hP⟩, hv, fun k m hm => by cases hm⟩
  | advisory key next =>
      obtain ⟨rfl, rfl⟩ := Prod.mk.inj (Option.some.inj ha)
      refine ⟨⟨P, hP, h.2⟩, hv, fun k m hm => Or.inl ?_⟩
      obtain ⟨rfl, rfl⟩ := Prod.mk.inj (List.mem_singleton.mp hm)
      exact (h.1 _).2
  | lockRow key m q next =>
      obtain ⟨rfl, rfl⟩ := Prod.mk.inj (Option.some.inj ha)
      cases hr : (get v key).filter q with
      | none =>
          have hacq : acquires (.lockRow key m q next : Tx D V ρ α) v choice = [] := by
            simp [acquires, hr]
          rw [hacq]
          refine ⟨⟨P, hP, h.2 (fun hkey => ?_)⟩, hv, fun k m hm => by cases hm⟩
          obtain ⟨row, hrow⟩ := Option.isSome_iff_exists.mp (hP key hkey)
          rw [hrow, Option.filter_some] at hr
          exact ⟨row, by simpa using hr⟩
      | some row =>
          obtain ⟨hrow, hq⟩ := Option.filter_eq_some_iff.mp hr
          have hacq : acquires (.lockRow key m q next : Tx D V ρ α) v choice = [(key, m)] := by
            simp [acquires, hr]
          obtain ⟨-, htakes, hnext⟩ := h.1 row hq
          rw [hacq]
          refine ⟨⟨_, fun k hk => ?_, hnext⟩, hv, fun k m hm => Or.inl ?_⟩
          · rcases hk with hk | rfl | hk
            · exact hP k hk
            · exact Option.isSome_iff_exists.mpr ⟨row, hrow⟩
            · exact hv key row hrow k hk
          · obtain ⟨rfl, rfl⟩ := Prod.mk.inj (List.mem_singleton.mp hm)
            rw [hrow]
            exact htakes
  | update key kc f next =>
      simp only [Tx.advance] at ha
      cases hr : (get v key).bind f with
      | none =>
          rw [hr] at ha
          obtain ⟨rfl, rfl⟩ := Prod.mk.inj (Option.some.inj ha)
          have hacq : acquires (.update key kc f next : Tx D V ρ α) v choice = [] := by
            simp only [acquires]
            cases hg : get v key with
            | none => rfl
            | some row =>
                rw [hg, Option.bind_some] at hr
                simp [hr]
          rw [hacq]
          exact ⟨⟨P, hP, h.2⟩, hv, fun k m hm => by cases hm⟩
      | some row' =>
          rw [hr] at ha
          obtain ⟨rfl, rfl⟩ := Prod.mk.inj (Option.some.inj ha)
          obtain ⟨row, hrow, hf⟩ := Option.bind_eq_some_iff.mp hr
          have hacq : acquires (.update key kc f next : Tx D V ρ α) v choice =
              [(key, updateMode (kc row))] := by simp [acquires, hrow, hf]
          obtain ⟨-, htakes, hleads, hnext⟩ := h.1 row row' hf
          rw [hacq]
          refine ⟨⟨_, fun k hk => ?_, hnext⟩, ?_, fun k m hm => Or.inl ?_⟩
          · apply isSome_get_view
            rcases hk with hk | rfl | hk
            · exact hP k hk
            · exact Option.isSome_iff_exists.mpr ⟨row, hrow⟩
            · exact hv key row hrow k hk
          · exact hv.set (fun k' hk' => hv key row hrow k' (hleads k' hk'))
          · obtain ⟨rfl, rfl⟩ := Prod.mk.inj (List.mem_singleton.mp hm)
            rw [hrow]
            exact htakes
  | skipLocked rk pick next =>
      obtain ⟨rfl, rfl⟩ := Prod.mk.inj (Option.some.inj ha)
      obtain ⟨htakes, hnext⟩ := h v (fun n => choice.contains n) hP
      refine ⟨⟨P, hP, hnext⟩, hv, fun k m hm => Or.inl ?_⟩
      obtain ⟨n, hn, he⟩ := List.mem_map.mp hm
      obtain ⟨rfl, rfl⟩ := Prod.mk.inj he
      exact htakes n hn
  | insert rk row next =>
      cases choice with
      | nil => cases ha
      | cons n choice =>
          simp only [Tx.advance] at ha
          cases hg : get v (rk n) with
          | some r => simp [hg] at ha
          | none =>
              rw [hg] at ha
              obtain ⟨rfl, rfl⟩ := Prod.mk.inj (Option.some.inj ha)
              obtain ⟨hknows, hleads, hnext⟩ := h n
              refine ⟨⟨_, fun k hk => ?_, hnext⟩, ?_, fun k m hm => Or.inr ?_⟩
              · rcases hk with hk | rfl
                · exact isSome_get_view (hP k hk)
                · exact isSome_get_view_of_mem ⟨_, List.mem_singleton.mpr rfl, rfl⟩
              · exact hv.set (fun k' hk' => hP k' (hleads k' hk'))
              · obtain ⟨rfl, rfl⟩ := Prod.mk.inj (List.mem_singleton.mp hm)
                exact ⟨hg, hknows⟩

namespace LockRules
variable {s : Session τ D V ρ} {d' : D}

theorem Obeys.execute (h : R.Obeys d s) {p' : Tx D V ρ Empty} {choice : List ℕ}
    (ha : s.prog.advance (view d s.writes) choice = some (p', ws)) :
    R.Obeys d ⟨s.tag, p', s.prog.acquires (view d s.writes) choice ++ s.locks, ws ++ s.writes⟩ := by
  obtain ⟨P, hP, hprog⟩ := h.prog
  obtain ⟨hprog', hclosed', htakes⟩ := hprog.advance hP h.closed ha
  have hsub : s.locks ⊆ s.prog.acquires (view d s.writes) choice ++ s.locks :=
    List.subset_append_right _ _
  have hold : ∀ k m, (k, m) ∈ s.locks →
      ∃ n, (k, n) ∈ s.prog.acquires (view d s.writes) choice ++ s.locks ∧ m.weaker n ∧
        R.knows k n (get d k) (s.prog.acquires (view d s.writes) choice ++ s.locks) := by
    intro k m hm
    obtain ⟨n, hn, hw, hknows⟩ := h.knows k m hm
    exact ⟨n, hsub hn, hw, R.mono hsub hknows⟩
  refine ⟨fun x hx => ?_, ?_, fun k m hm => ?_, ?_⟩
  · rcases List.mem_append.mp hx with hx | hx
    · exact (Tx.advance_owned ha x hx).mono (List.subset_append_left _ _)
    · exact (h.owned x hx).mono hsub
  · rw [view_append]
    exact hclosed'
  · rcases List.mem_append.mp hm with hnew | hm
    · rcases htakes k m hnew with (⟨n, hn, hw⟩ | ⟨hfirst, hknows⟩) | ⟨hnone, hknows⟩
      · obtain ⟨n', hn', hw', hknows⟩ := hold k n hn
        exact ⟨n', hn', hw.trans hw', hknows⟩
      · by_cases hmem : ∃ x ∈ s.writes, x.1 = k
        · -- the session has written the row, under a lock that is strong enough
          obtain ⟨x, hx, rfl⟩ := hmem
          obtain ⟨m', hm', hk⟩ := h.owned x hx
          have hne : m ≠ .update := fun he => hfirst he _ hk rfl
          obtain ⟨n', hn', hw', hknows⟩ := hold _ m' hk
          exact ⟨n', hn', (LockMode.weaker_of_exclusive hne hm').trans hw', hknows⟩
        · push Not at hmem
          rw [get_view_of_notMem hmem] at hknows
          exact ⟨m, hm, m.weaker_refl, R.mono hsub hknows⟩
      · have hmem : ∀ x ∈ s.writes, x.1 ≠ k := by
          rintro x hx rfl
          have hthere := isSome_get_view_of_mem (d := d) ⟨x, hx, rfl⟩
          rw [hnone] at hthere
          cases hthere
        rw [get_view_of_notMem hmem] at hnone
        rw [← hnone] at hknows
        exact ⟨m, hm, m.weaker_refl, R.mono hsub hknows⟩
    · exact hold k m hm
  · rw [view_append]
    exact hprog'

/-- What others leave as it is, and what they do not remove, is enough for a session. -/
theorem Obeys.later (h : R.Obeys d s) (hrow : ∀ k, Owns s.locks k → get d' k = get d k)
    (hmore : ∀ k, (get d k).isSome = true → (get d' k).isSome = true)
    (hclosed : R.Closed (view d' s.writes)) : R.Obeys d' s := by
  refine ⟨h.owned, hclosed, fun k m hm => ?_, ?_⟩
  · obtain ⟨n, hn, hw, hknows⟩ := h.knows k m hm
    refine ⟨n, hn, hw, ?_⟩
    cases hx : n.exclusive with
    | true =>
        rw [hrow k ⟨n, hx, hn⟩]
        exact hknows
    | false => exact R.shared hx hknows
  · obtain ⟨P, hP, hprog⟩ := h.prog
    refine ⟨P, fun k hk => ?_, hprog⟩
    by_cases hmem : ∃ x ∈ s.writes, x.1 = k
    · exact isSome_get_view_of_mem hmem
    · have hthere := hP k hk
      push Not at hmem
      rw [get_view_of_notMem hmem] at hthere
      exact isSome_get_view (hmore k hthere)

variable {sys : System τ ε D V ρ} {A : τ → Prop} {c c' : Config τ D V ρ} {t : ℕ}

theorem Obeyed.start (h : R.Closed d) : R.Obeyed (Config.start d : Config τ D V ρ) where
  apart t u s s' hs := by simp [Config.start] at hs
  closed := h
  session t s hs := by simp [Config.start] at hs

theorem Obeyed.erase (h : R.Obeyed c) (t : ℕ) :
    R.Obeyed { c with sessions := c.sessions.erase t } where
  apart := h.apart.erase t c.db
  closed := h.closed
  session u s hu := h.session u s (Table.get?_erase_some hu).2

theorem Obeyed.place (h : R.Obeyed c) (hs : R.Obeys c.db s) (hap : (c.place t s).Apart) :
    R.Obeyed (c.place t s) where
  apart := hap
  closed := h.closed
  session u s' hu := by
    rcases Table.get?_put_some hu with ⟨-, rfl⟩ | ⟨-, hu⟩
    · exact hs
    · exact h.session u s' hu

theorem Obeyed.commit (h : R.Obeyed c) (hs : c.sessions.get? t = some s) :
    R.Obeyed (⟨view c.db s.writes, c.sessions.erase t⟩ : Config τ D V ρ) where
  apart := h.apart.erase t _
  closed := (h.session t s hs).closed
  session u s' hu := by
    obtain ⟨hne, hu⟩ := Table.get?_erase_some hu
    have hown := h.session u s' hu
    refine hown.later (fun k hk => get_view_of_notMem (fun x hx he => ?_))
      (fun k => isSome_get_view) (hown.closed.commit (h.session t s hs).closed)
    -- a row that is written here is owned by nobody else
    have hx := (h.session t s hs).owned x hx
    rw [he] at hx
    exact (h.apart t u s s' hs hu (Ne.symm hne)).not_owns hx hk

variable [DecidableEq K]

theorem Obeyed.step (h : R.Obeyed c)
    (hprog : ∀ tag d, A tag → (sys.prog tag d).obeys R (fun _ _ _ => True) (fun _ => False) [])
    (htick : ∀ e d k, get (sys.tick e d) k = get d k) {a : Action τ ε}
    (ha : ∀ t tag, a = .start t tag → A tag) (hstep : sys.step c a = some c') : R.Obeyed c' := by
  cases a with
  | start t tag =>
      simp only [System.step] at hstep
      split at hstep
      · cases hstep
      · obtain rfl := Option.some.inj hstep
        refine h.place ⟨by simp, h.closed, by simp, fun _ => False, by simp, ?_⟩ ?_
        · exact hprog tag c.db (ha t tag rfl)
        · exact h.apart.place (fun u s' _ _ g hg => by simp at hg)
  | exec t choice =>
      obtain ⟨s, ht, hc⟩ := Option.bind_eq_some_iff.mp hstep
      have hapart := h.apart.execute ht hc
      obtain ⟨p', ws, ha, rfl, -⟩ := Config.execute_inv hc
      exact h.place ((h.session t s ht).execute ha) hapart
  | finish t =>
      obtain ⟨s, ht, hc⟩ := Option.bind_eq_some_iff.mp hstep
      unfold Config.finish at hc
      split at hc
      · obtain rfl := Option.some.inj hc
        exact h.commit ht
      · obtain rfl := Option.some.inj hc
        exact h.erase t
      · cases hc
  | abort t =>
      obtain rfl := Option.some.inj hstep
      exact h.erase t
  | env e =>
      obtain rfl := Option.some.inj hstep
      have hsame : ∀ w k, get (view (sys.tick e c.db) w) k = get (view c.db w) k :=
        fun w k => get_view_congr (htick e c.db k)
      have hclosed : ∀ w, R.Closed (view c.db w) → R.Closed (view (sys.tick e c.db) w) := by
        intro w hw k row hrow k' hk'
        rw [hsame] at hrow ⊢
        exact hw k row hrow k' hk'
      refine ⟨h.apart, hclosed [] h.closed, fun t s hs => ?_⟩
      refine (h.session t s hs).later (fun k _ => htick e c.db k) (fun k hk => ?_) ?_
      · rw [htick]
        exact hk
      · exact hclosed s.writes (h.session t s hs).closed

theorem Obeyed.runs (h : R.Obeyed c)
    (hprog : ∀ tag d, A tag → (sys.prog tag d).obeys R (fun _ _ _ => True) (fun _ => False) [])
    (htick : ∀ e d k, get (sys.tick e d) k = get d k) {as : List (Action τ ε)}
    (ha : StartsOnly A as) (hr : sys.runs as c = some c') : R.Obeyed c' := by
  induction as generalizing c with
  | nil =>
      obtain rfl := Option.some.inj hr
      exact h
  | cons a as ih =>
      obtain ⟨c₁, h₁, h₂⟩ := Option.bind_eq_some_iff.mp hr
      refine ih (h.step hprog htick (fun t tag he => ha a ?_ t tag he) h₁) (fun b hb => ha b ?_) h₂
      · exact List.mem_cons_self
      · exact List.mem_cons_of_mem a hb

end LockRules

/-! ### Waits -/

theorem Tx.request_cases (p : Tx D V ρ α) (v : D) :
    p.request v = [] ∨ ∃ l, p.request v = [l] := by
  cases p with
  | value | done | query | skipLocked | insert => exact Or.inl rfl
  | advisory key next => exact Or.inr ⟨_, rfl⟩
  | lockRow key m q next =>
      simp only [request, acquires]
      split_ifs
      · exact Or.inr ⟨_, rfl⟩
      · exact Or.inl rfl
  | update key kc f next =>
      simp only [request, acquires]
      split
      · split_ifs
        · exact Or.inr ⟨_, rfl⟩
        · exact Or.inl rfl
      · exact Or.inl rfl

theorem Tx.obeys.request {Q : (K → Prop) → Locks K → α → Prop} {P : K → Prop} {L : Locks K}
    {p : Tx D V ρ α} {m : LockMode} (h : p.obeys R Q P L) (hm : (k, m) ∈ p.request v) :
    R.Asks L k m (get v k) := by
  cases p with
  | value | done | query | skipLocked | insert => cases hm
  | advisory key next =>
      obtain ⟨rfl, rfl⟩ := Prod.mk.inj (List.mem_singleton.mp hm)
      exact (h.1 _).1
  | lockRow key m' q next =>
      simp only [Tx.request, acquires] at hm
      split_ifs at hm with hsome
      · obtain ⟨rfl, rfl⟩ := Prod.mk.inj (List.mem_singleton.mp hm)
        obtain ⟨row, hr⟩ := Option.isSome_iff_exists.mp hsome
        obtain ⟨hrow, hq⟩ := Option.filter_eq_some_iff.mp hr
        rw [hrow]
        exact (h.1 row hq).1
      · cases hm
  | update key kc f next =>
      simp only [Tx.request, acquires] at hm
      split at hm
      · rename_i row hrow
        split_ifs at hm with hsome
        · obtain ⟨rfl, rfl⟩ := Prod.mk.inj (List.mem_singleton.mp hm)
          obtain ⟨row', hf⟩ := Option.isSome_iff_exists.mp hsome
          rw [hrow]
          exact (h.1 row row' hf).1
        · cases hm
      · cases hm

namespace LockRules
variable {c : Config τ D V ρ} {t u : ℕ}

/-- A session waits only for a key above all that it has locked. -/
theorem Obeyed.waits (h : R.Obeyed c) (hw : c.waits t u) :
    ∃ s s' l m, c.sessions.get? t = some s ∧ c.sessions.get? u = some s' ∧
      l ∈ s.prog.request (view c.db s.writes) ∧ (l.1, m) ∈ s'.locks ∧
      ∀ g ∈ s.locks, R.level g.1 < R.level l.1 := by
  obtain ⟨hne, s, s', hs, hs', ⟨k, m⟩, hl, ⟨k', n⟩, hn, hk, hconf⟩ := hw
  obtain rfl : k' = k := hk
  have hap := h.apart t u s s' hs hs' hne
  have hcovered : ¬ Covers s.locks k' m := by
    intro hc
    rw [hc.free hap hn] at hconf
    cases hconf
  obtain ⟨P, -, hprog⟩ := (h.session t s hs).prog
  rcases hprog.request hl with hc | ⟨hm, hfree⟩ | hup
  · exact absurd hc hcovered
  · obtain ⟨n', hn', hw, hknows⟩ := (h.session u s' hs').knows k' n hn
    have hmem : ∀ x ∈ s.writes, x.1 ≠ k' := by
      rintro x hx rfl
      exact hcovered (((h.session t s hs).owned x hx).covers hm)
    rw [get_view_of_notMem hmem] at hfree
    have hno := hfree s'.locks n' hap hn' hknows
    rw [hw m hconf] at hno
    cases hno
  · exact ⟨s, s', (k', m), n, hs, hs', hl, hn, hup⟩

def rank (R : LockRules V) (c : Config τ D V ρ) (t : ℕ) : ℕ :=
  match c.sessions.get? t with
  | some s => ((s.prog.request (view c.db s.writes)).map (fun l => R.level l.1)).sum
  | none => 0

theorem rank_eq {s : Session τ D V ρ} {l : K × LockMode} (hs : c.sessions.get? t = some s)
    (hl : l ∈ s.prog.request (view c.db s.writes)) : R.rank c t = R.level l.1 := by
  simp only [rank, hs]
  rcases s.prog.request_cases (view c.db s.writes) with hnone | ⟨l', hone⟩
  · rw [hnone] at hl
    cases hl
  · rw [hone] at hl ⊢
    obtain rfl := List.mem_singleton.mp hl
    simp

/-- The waits of an interleaving that obeys the rules form no cycle. -/
theorem Obeyed.no_waitCycle (h : R.Obeyed c) (t : ℕ) : ¬ WaitCycle c.waits t := by
  have hrank : ∀ t u, c.waits t u → (∃ v, c.waits u v) → R.rank c t < R.rank c u := by
    rintro t u htu ⟨v, huv⟩
    obtain ⟨s, s', l, m, hs, hs', hl, hm, -⟩ := h.waits htu
    obtain ⟨s₁, -, l', -, hs₁, -, hl', -, hup⟩ := h.waits huv
    obtain rfl := Option.some.inj (hs'.symm.trans hs₁)
    rw [rank_eq hs hl, rank_eq hs' hl']
    exact hup (l.1, m) hm
  exact no_waitCycle_of_rank hrank t

end LockRules

end Sessions
end Relational
