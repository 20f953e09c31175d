import Dufaka.SessionLocks

/-!
# What a transaction did, told at its commit

A transaction that commits in an interleaving is replayed here on the one database that was
committed when it ended. The rows it locked exclusively still are what it read. What it read without
a lock, or did not find, it read in an earlier committed database, of which the session only knows
that the locks in hand and a rely relation connect it with the present one. `reaches` collects these
runs, and `Respects.step` says that every commit of every interleaving is one of them.
-/

namespace Relational
open RowStore

variable {τ ε D K : Type} {V : K → Type} {ρ α β : Type} [RowStore D V]

/-- What every committed database satisfies, and what the owner of some locks may rely on while
others commit. -/
structure Rely (D : Type) {K : Type} (V : K → Type) [RowStore D V] where
  inv : D → Prop
  rely : Locks K → D → D → Prop
  refl : ∀ L d, rely L d d
  trans : ∀ {L d d' d''}, rely L d d' → rely L d' d'' → rely L d d''
  mono : ∀ {L L' d d'}, L ⊆ L' → rely L' d d' → rely L d d'

/-- An earlier committed database, for a session that has held the locks since. -/
structure Rely.Past (R : Rely D V) (L : Locks K) (d₁ d : D) : Prop where
  inv : R.inv d₁
  row : ∀ k, Owns L k → get d₁ k = get d k
  rely : R.rely L d₁ d

namespace Rely.Past
variable {R : Rely D V} {L L' : Locks K} {d d₁ d₂ : D}

theorem refl (h : R.inv d) (L : Locks K) : R.Past L d d := ⟨h, fun _ _ => rfl, R.refl L d⟩

theorem trans (h : R.Past L d₁ d₂) (h' : R.Past L d₂ d) : R.Past L d₁ d where
  inv := h.inv
  row k hk := (h.row k hk).trans (h'.row k hk)
  rely := R.trans h.rely h'.rely

theorem mono (hs : L ⊆ L') (h : R.Past L' d₁ d) : R.Past L d₁ d where
  inv := h.inv
  row k hk := h.row k (hk.mono hs)
  rely := R.mono hs h.rely

theorem view_row (h : R.Past L d₁ d) {k : K} (hk : Owns L k) (w : Writes V) :
    get (view d₁ w) k = get (view d w) k := (get_view_congr (h.row k hk).symm).symm

end Rely.Past

inductive Goal (ρ α : Type) where
  | value (a : α)
  | commit (r : ρ)

namespace Tx

/-- The program, with these locks and pending writes, can have come to the goal in a session that
commits on `d`. -/
def reaches (R : Rely D V) (d : D) :
    Tx D V ρ α → Locks K → Writes V → Goal ρ α → Locks K → Writes V → Prop
  | .value a, L, w, o, L', w' => .value a = o ∧ L = L' ∧ w = w'
  | .done true r, L, w, o, L', w' => .commit r = o ∧ L = L' ∧ w = w'
  | .done false _, _, _, _, _, _ => False
  | .query next, L, w, o, L', w' =>
      ∃ d₁, R.Past L d₁ d ∧ (next (view d₁ w)).reaches R d L w o L' w'
  | .advisory key next, L, w, o, L', w' => next.reaches R d ((key, .update) :: L) w o L' w'
  | .lockRow key m p next, L, w, o, L', w' =>
      (∃ d₁ row, R.Past ((key, m) :: L) d₁ d ∧ get (view d₁ w) key = some row ∧ p row = true ∧
        (next (some row)).reaches R d ((key, m) :: L) w o L' w') ∨
      ∃ d₁, R.Past L d₁ d ∧ (get (view d₁ w) key).filter p = none ∧
        (next none).reaches R d L w o L' w'
  | .update key kc f next, L, w, o, L', w' =>
      (∃ row row', get (view d w) key = some row ∧ f row = some row' ∧
        (next (some row')).reaches R d ((key, updateMode (kc row)) :: L)
          (⟨key, row'⟩ :: w) o L' w') ∨
      ∃ d₁, R.Past L d₁ d ∧ (get (view d₁ w) key).bind f = none ∧
        (next none).reaches R d L w o L' w'
  | .skipLocked rk pick next, L, w, o, L', w' =>
      ∃ d₁ skip, R.Past ((pick (view d₁ w) skip).map (fun n => (rk n, LockMode.update)) ++ L) d₁ d ∧
        (next (pick (view d₁ w) skip)).reaches R d
          ((pick (view d₁ w) skip).map (fun n => (rk n, LockMode.update)) ++ L) w o L' w'
  | .insert rk row next, L, w, o, L', w' =>
      ∃ n, get (view d w) (rk n) = none ∧
        (next n).reaches R d ((rk n, .update) :: L) (⟨rk n, row n⟩ :: w) o L' w'

def yields (R : Rely D V) (d : D) (p : Tx D V ρ α) (L : Locks K) (w : Writes V) (a : α)
    (L' : Locks K) (w' : Writes V) : Prop := p.reaches R d L w (.value a) L' w'

def commitsAt (R : Rely D V) (d : D) (p : Tx D V ρ α) (L : Locks K) (w : Writes V) (r : ρ)
    (L' : Locks K) (w' : Writes V) : Prop := p.reaches R d L w (.commit r) L' w'

section Rules
variable {R : Rely D V} {d : D} {L L' : Locks K} {w w' : Writes V} {r r' : ρ} {a b : α}

/-! #### The cases of `reaches` -/

section Cases
variable {o : Goal ρ α}

theorem reaches_value : (value a : Tx D V ρ α).reaches R d L w o L' w' ↔
    .value a = o ∧ L = L' ∧ w = w' := Iff.rfl

theorem reaches_commit : (done true r : Tx D V ρ α).reaches R d L w o L' w' ↔
    .commit r = o ∧ L = L' ∧ w = w' := Iff.rfl

theorem reaches_rollback : (done false r : Tx D V ρ α).reaches R d L w o L' w' ↔ False := Iff.rfl

theorem reaches_query {next : D → Tx D V ρ α} : (query next).reaches R d L w o L' w' ↔
    ∃ d₁, R.Past L d₁ d ∧ (next (view d₁ w)).reaches R d L w o L' w' := Iff.rfl

theorem reaches_lockRow {k : K} {m : LockMode} {q : V k → Bool} {next : Option (V k) → Tx D V ρ α} :
    (lockRow k m q next).reaches R d L w o L' w' ↔
      (∃ d₁ row, R.Past ((k, m) :: L) d₁ d ∧ get (view d₁ w) k = some row ∧ q row = true ∧
        (next (some row)).reaches R d ((k, m) :: L) w o L' w') ∨
      ∃ d₁, R.Past L d₁ d ∧ (get (view d₁ w) k).filter q = none ∧
        (next none).reaches R d L w o L' w' := Iff.rfl

theorem reaches_update {k : K} {kc : V k → Bool} {f : V k → Option (V k)}
    {next : Option (V k) → Tx D V ρ α} : (update k kc f next).reaches R d L w o L' w' ↔
      (∃ row row', get (view d w) k = some row ∧ f row = some row' ∧
        (next (some row')).reaches R d ((k, updateMode (kc row)) :: L) (⟨k, row'⟩ :: w) o L' w') ∨
      ∃ d₁, R.Past L d₁ d ∧ (get (view d₁ w) k).bind f = none ∧
        (next none).reaches R d L w o L' w' := Iff.rfl

theorem reaches_skipLocked {rk : ℕ → K} {pick : D → (ℕ → Bool) → List ℕ}
    {next : List ℕ → Tx D V ρ α} :
    (skipLocked rk pick next).reaches R d L w o L' w' ↔
      ∃ d₁ skip, R.Past ((pick (view d₁ w) skip).map (fun n => (rk n, LockMode.update)) ++ L) d₁ d ∧
        (next (pick (view d₁ w) skip)).reaches R d
          ((pick (view d₁ w) skip).map (fun n => (rk n, LockMode.update)) ++ L) w o L' w' := Iff.rfl

theorem reaches_insert {rk : ℕ → K} {row : (n : ℕ) → V (rk n)} {next : ℕ → Tx D V ρ α} :
    (insert rk row next).reaches R d L w o L' w' ↔
      ∃ n, get (view d w) (rk n) = none ∧
        (next n).reaches R d ((rk n, .update) :: L) (⟨rk n, row n⟩ :: w) o L' w' := Iff.rfl

end Cases

theorem reaches_bind (p : Tx D V ρ α) (g : α → Tx D V ρ β) (o : Goal ρ β) :
    (p >>= g).reaches R d L w o L' w' ↔
      (∃ a L₁ w₁, p.reaches R d L w (.value a) L₁ w₁ ∧ (g a).reaches R d L₁ w₁ o L' w') ∨
        ∃ r, o = .commit r ∧ p.reaches R d L w (.commit r) L' w' := by
  rw [bind_def]
  induction p generalizing L w with
  | value a =>
      constructor
      · exact fun h => Or.inl ⟨a, L, w, ⟨rfl, rfl, rfl⟩, h⟩
      · rintro (⟨b, L₁, w₁, ⟨hb, rfl, rfl⟩, h⟩ | ⟨r, -, hr, -⟩)
        · cases hb
          exact h
        · cases hr
  | done c r =>
      cases c with
      | false => simp only [bind, reaches_rollback, and_false, false_and, exists_false, or_self]
      | true =>
          constructor
          · rintro ⟨rfl, rfl, rfl⟩
            exact Or.inr ⟨r, rfl, rfl, rfl, rfl⟩
          · rintro (⟨b, L₁, w₁, ⟨hb, -⟩, -⟩ | ⟨r', rfl, hr, rfl, rfl⟩)
            · cases hb
            · cases hr
              exact ⟨rfl, rfl, rfl⟩
  | query next ih =>
      simp only [bind, reaches_query, ih]
      constructor
      · rintro ⟨d₁, hd, ⟨a, L₁, w₁, h, hg⟩ | ⟨r, ho, h⟩⟩
        · exact Or.inl ⟨a, L₁, w₁, ⟨d₁, hd, h⟩, hg⟩
        · exact Or.inr ⟨r, ho, d₁, hd, h⟩
      · rintro (⟨a, L₁, w₁, ⟨d₁, hd, h⟩, hg⟩ | ⟨r, ho, d₁, hd, h⟩)
        · exact ⟨d₁, hd, Or.inl ⟨a, L₁, w₁, h, hg⟩⟩
        · exact ⟨d₁, hd, Or.inr ⟨r, ho, h⟩⟩
  | advisory key next ih => exact ih
  | lockRow key m p next ih =>
      simp only [bind, reaches_lockRow, ih]
      constructor
      · rintro (⟨d₁, row, hd, hrow, hp, ⟨a, L₁, w₁, h, hg⟩ | ⟨r, ho, h⟩⟩ |
          ⟨d₁, hd, hrow, ⟨a, L₁, w₁, h, hg⟩ | ⟨r, ho, h⟩⟩)
        · exact Or.inl ⟨a, L₁, w₁, Or.inl ⟨d₁, row, hd, hrow, hp, h⟩, hg⟩
        · exact Or.inr ⟨r, ho, Or.inl ⟨d₁, row, hd, hrow, hp, h⟩⟩
        · exact Or.inl ⟨a, L₁, w₁, Or.inr ⟨d₁, hd, hrow, h⟩, hg⟩
        · exact Or.inr ⟨r, ho, Or.inr ⟨d₁, hd, hrow, h⟩⟩
      · rintro (⟨a, L₁, w₁, ⟨d₁, row, hd, hrow, hp, h⟩ | ⟨d₁, hd, hrow, h⟩, hg⟩ |
          ⟨r, ho, ⟨d₁, row, hd, hrow, hp, h⟩ | ⟨d₁, hd, hrow, h⟩⟩)
        · exact Or.inl ⟨d₁, row, hd, hrow, hp, Or.inl ⟨a, L₁, w₁, h, hg⟩⟩
        · exact Or.inr ⟨d₁, hd, hrow, Or.inl ⟨a, L₁, w₁, h, hg⟩⟩
        · exact Or.inl ⟨d₁, row, hd, hrow, hp, Or.inr ⟨r, ho, h⟩⟩
        · exact Or.inr ⟨d₁, hd, hrow, Or.inr ⟨r, ho, h⟩⟩
  | update key kc f next ih =>
      simp only [bind, reaches_update, ih]
      constructor
      · rintro (⟨row, row', hrow, hf, ⟨a, L₁, w₁, h, hg⟩ | ⟨r, ho, h⟩⟩ |
          ⟨d₁, hd, hrow, ⟨a, L₁, w₁, h, hg⟩ | ⟨r, ho, h⟩⟩)
        · exact Or.inl ⟨a, L₁, w₁, Or.inl ⟨row, row', hrow, hf, h⟩, hg⟩
        · exact Or.inr ⟨r, ho, Or.inl ⟨row, row', hrow, hf, h⟩⟩
        · exact Or.inl ⟨a, L₁, w₁, Or.inr ⟨d₁, hd, hrow, h⟩, hg⟩
        · exact Or.inr ⟨r, ho, Or.inr ⟨d₁, hd, hrow, h⟩⟩
      · rintro (⟨a, L₁, w₁, ⟨row, row', hrow, hf, h⟩ | ⟨d₁, hd, hrow, h⟩, hg⟩ |
          ⟨r, ho, ⟨row, row', hrow, hf, h⟩ | ⟨d₁, hd, hrow, h⟩⟩)
        · exact Or.inl ⟨row, row', hrow, hf, Or.inl ⟨a, L₁, w₁, h, hg⟩⟩
        · exact Or.inr ⟨d₁, hd, hrow, Or.inl ⟨a, L₁, w₁, h, hg⟩⟩
        · exact Or.inl ⟨row, row', hrow, hf, Or.inr ⟨r, ho, h⟩⟩
        · exact Or.inr ⟨d₁, hd, hrow, Or.inr ⟨r, ho, h⟩⟩
  | skipLocked rk pick next ih =>
      simp only [bind, reaches_skipLocked, ih]
      constructor
      · rintro ⟨d₁, skip, hd, ⟨a, L₁, w₁, h, hg⟩ | ⟨r, ho, h⟩⟩
        · exact Or.inl ⟨a, L₁, w₁, ⟨d₁, skip, hd, h⟩, hg⟩
        · exact Or.inr ⟨r, ho, d₁, skip, hd, h⟩
      · rintro (⟨a, L₁, w₁, ⟨d₁, skip, hd, h⟩, hg⟩ | ⟨r, ho, d₁, skip, hd, h⟩)
        · exact ⟨d₁, skip, hd, Or.inl ⟨a, L₁, w₁, h, hg⟩⟩
        · exact ⟨d₁, skip, hd, Or.inr ⟨r, ho, h⟩⟩
  | insert rk row next ih =>
      simp only [bind, reaches_insert, ih]
      constructor
      · rintro ⟨n, hn, ⟨a, L₁, w₁, h, hg⟩ | ⟨r, ho, h⟩⟩
        · exact Or.inl ⟨a, L₁, w₁, ⟨n, hn, h⟩, hg⟩
        · exact Or.inr ⟨r, ho, n, hn, h⟩
      · rintro (⟨a, L₁, w₁, ⟨n, hn, h⟩, hg⟩ | ⟨r, ho, n, hn, h⟩)
        · exact ⟨n, hn, Or.inl ⟨a, L₁, w₁, h, hg⟩⟩
        · exact ⟨n, hn, Or.inr ⟨r, ho, h⟩⟩

theorem yields_iff {p : Tx D V ρ α} :
    p.yields R d L w a L' w' ↔ p.reaches R d L w (.value a) L' w' := Iff.rfl

theorem commitsAt_iff {p : Tx D V ρ α} :
    p.commitsAt R d L w r L' w' ↔ p.reaches R d L w (.commit r) L' w' := Iff.rfl

theorem yields_bind {p : Tx D V ρ α} {g : α → Tx D V ρ β} {b : β} :
    (p >>= g).yields R d L w b L' w' ↔
      ∃ a L₁ w₁, p.yields R d L w a L₁ w₁ ∧ (g a).yields R d L₁ w₁ b L' w' := by
  rw [yields_iff, reaches_bind]
  constructor
  · rintro (h | ⟨r, ho, -⟩)
    · exact h
    · cases ho
  · exact Or.inl

theorem commitsAt_bind {p : Tx D V ρ α} {g : α → Tx D V ρ β} :
    (p >>= g).commitsAt R d L w r L' w' ↔ p.commitsAt R d L w r L' w' ∨
      ∃ a L₁ w₁, p.yields R d L w a L₁ w₁ ∧ (g a).commitsAt R d L₁ w₁ r L' w' := by
  rw [commitsAt_iff, reaches_bind]
  constructor
  · rintro (h | ⟨r', ho, h⟩)
    · exact Or.inr h
    · cases ho
      exact Or.inl h
  · rintro (h | h)
    · exact Or.inr ⟨r, rfl, h⟩
    · exact Or.inl h

@[simp] theorem yields_pure :
    (pure b : Tx D V ρ α).yields R d L w a L' w' ↔ b = a ∧ L = L' ∧ w = w' := by
  rw [yields_iff, pure_def, reaches_value, Goal.value.injEq]

@[simp] theorem commitsAt_pure : (pure a : Tx D V ρ α).commitsAt R d L w r L' w' ↔ False := by
  rw [commitsAt_iff, pure_def, reaches_value]
  exact iff_false_intro (fun h => by cases h.1)

@[simp] theorem yields_commit : (commit r : Tx D V ρ α).yields R d L w a L' w' ↔ False := by
  rw [yields_iff, commit, reaches_commit]
  exact iff_false_intro (fun h => by cases h.1)

@[simp] theorem commitsAt_commit :
    (commit r : Tx D V ρ α).commitsAt R d L w r' L' w' ↔ r = r' ∧ L = L' ∧ w = w' := by
  rw [commitsAt_iff, commit, reaches_commit, Goal.commit.injEq]

@[simp] theorem yields_rollback : (rollback r : Tx D V ρ α).yields R d L w a L' w' ↔ False :=
  Iff.rfl

@[simp] theorem commitsAt_rollback :
    (rollback r : Tx D V ρ α).commitsAt R d L w r' L' w' ↔ False := Iff.rfl

/-- A plain read is of an earlier committed database, under the session's own writes. -/
theorem yields_read {q : D → α} : (read q : Tx D V ρ α).yields R d L w a L' w' ↔
    (∃ d₁, R.Past L d₁ d ∧ q (view d₁ w) = a) ∧ L = L' ∧ w = w' := by
  rw [yields_iff, read, reaches_query]
  constructor
  · rintro ⟨d₁, hd, ha, hL, hw⟩
    exact ⟨⟨d₁, hd, Goal.value.inj ha⟩, hL, hw⟩
  · rintro ⟨⟨d₁, hd, ha⟩, hL, hw⟩
    exact ⟨d₁, hd, congrArg Goal.value ha, hL, hw⟩

@[simp] theorem commitsAt_read {q : D → α} :
    (read q : Tx D V ρ α).commitsAt R d L w r L' w' ↔ False := by
  rw [commitsAt_iff, read, reaches_query]
  refine iff_false_intro ?_
  rintro ⟨_, _, h, -⟩
  cases h

theorem yields_lockRow {k : K} {m : LockMode} {q : V k → Bool} {o : Option (V k)} :
    (lockRow k m q pure : Tx D V ρ (Option (V k))).yields R d L w o L' w' ↔
      (∃ d₁ row, R.Past ((k, m) :: L) d₁ d ∧ get (view d₁ w) k = some row ∧ q row = true ∧
        o = some row ∧ L' = (k, m) :: L ∧ w' = w) ∨
      (∃ d₁, R.Past L d₁ d ∧ (get (view d₁ w) k).filter q = none) ∧ o = none ∧ L' = L ∧ w' = w := by
  rw [yields_iff, reaches_lockRow]
  constructor
  · rintro (⟨d₁, row, hd, hrow, hq, ho, rfl, rfl⟩ | ⟨d₁, hd, hrow, ho, rfl, rfl⟩)
    · cases ho
      exact Or.inl ⟨d₁, row, hd, hrow, hq, rfl, rfl, rfl⟩
    · cases ho
      exact Or.inr ⟨⟨d₁, hd, hrow⟩, rfl, rfl, rfl⟩
  · rintro (⟨d₁, row, hd, hrow, hq, rfl, rfl, rfl⟩ | ⟨⟨d₁, hd, hrow⟩, rfl, rfl, rfl⟩)
    · exact Or.inl ⟨d₁, row, hd, hrow, hq, rfl, rfl, rfl⟩
    · exact Or.inr ⟨d₁, hd, hrow, rfl, rfl, rfl⟩

/-- A row that was locked against every other writer still is what was read. -/
theorem yields_lockRow_some {k : K} {m : LockMode} {q : V k → Bool} {row : V k}
    (hm : m.exclusive = true)
    (h : (lockRow k m q pure : Tx D V ρ (Option (V k))).yields R d L w (some row) L' w') :
    get (view d w) k = some row ∧ q row = true ∧ L' = (k, m) :: L ∧ w' = w := by
  rcases yields_lockRow.mp h with ⟨d₁, row', hd, hrow, hq, ho, rfl, rfl⟩ | ⟨-, ho, -⟩
  · cases ho
    exact ⟨(hd.view_row (Owns.head hm) w').symm.trans hrow, hq, rfl, rfl⟩
  · cases ho

@[simp] theorem commitsAt_lockRow {k : K} {m : LockMode} {q : V k → Bool} :
    (lockRow k m q pure : Tx D V ρ (Option (V k))).commitsAt R d L w r L' w' ↔ False := by
  rw [commitsAt_iff, reaches_lockRow]
  refine iff_false_intro ?_
  rintro (⟨_, _, _, _, _, h, _⟩ | ⟨_, _, _, h, _⟩) <;> cases h

theorem yields_update {k : K} {kc : V k → Bool} {f : V k → Option (V k)} {o : Option (V k)} :
    (update k kc f pure : Tx D V ρ (Option (V k))).yields R d L w o L' w' ↔
      (∃ row row', get (view d w) k = some row ∧ f row = some row' ∧ o = some row' ∧
        L' = (k, updateMode (kc row)) :: L ∧ w' = ⟨k, row'⟩ :: w) ∨
      (∃ d₁, R.Past L d₁ d ∧ (get (view d₁ w) k).bind f = none) ∧ o = none ∧ L' = L ∧ w' = w := by
  rw [yields_iff, reaches_update]
  constructor
  · rintro (⟨row, row', hrow, hf, ho, rfl, rfl⟩ | ⟨d₁, hd, hrow, ho, rfl, rfl⟩)
    · cases ho
      exact Or.inl ⟨row, row', hrow, hf, rfl, rfl, rfl⟩
    · cases ho
      exact Or.inr ⟨⟨d₁, hd, hrow⟩, rfl, rfl, rfl⟩
  · rintro (⟨row, row', hrow, hf, rfl, rfl, rfl⟩ | ⟨⟨d₁, hd, hrow⟩, rfl, rfl, rfl⟩)
    · exact Or.inl ⟨row, row', hrow, hf, rfl, rfl, rfl⟩
    · exact Or.inr ⟨d₁, hd, hrow, rfl, rfl, rfl⟩

@[simp] theorem commitsAt_update {k : K} {kc : V k → Bool} {f : V k → Option (V k)} :
    (update k kc f pure : Tx D V ρ (Option (V k))).commitsAt R d L w r L' w' ↔ False := by
  rw [commitsAt_iff, reaches_update]
  refine iff_false_intro ?_
  rintro (⟨_, _, _, _, h, _⟩ | ⟨_, _, _, h, _⟩) <;> cases h

theorem yields_skipLocked {rk : ℕ → K} {pick : D → (ℕ → Bool) → List ℕ} {l : List ℕ} :
    (skipLocked rk pick pure : Tx D V ρ (List ℕ)).yields R d L w l L' w' ↔
      (∃ d₁ skip, R.Past (l.map (fun n => (rk n, LockMode.update)) ++ L) d₁ d ∧
        pick (view d₁ w) skip = l) ∧
        L' = l.map (fun n => (rk n, LockMode.update)) ++ L ∧ w' = w := by
  rw [yields_iff, reaches_skipLocked]
  constructor
  · rintro ⟨d₁, skip, hd, hl, rfl, rfl⟩
    obtain rfl := Goal.value.inj hl
    exact ⟨⟨d₁, skip, hd, rfl⟩, rfl, rfl⟩
  · rintro ⟨⟨d₁, skip, hd, rfl⟩, rfl, rfl⟩
    exact ⟨d₁, skip, hd, rfl, rfl, rfl⟩

@[simp] theorem commitsAt_skipLocked {rk : ℕ → K} {pick : D → (ℕ → Bool) → List ℕ} :
    (skipLocked rk pick pure : Tx D V ρ (List ℕ)).commitsAt R d L w r L' w' ↔ False := by
  rw [commitsAt_iff, reaches_skipLocked]
  refine iff_false_intro ?_
  rintro ⟨_, _, _, h, -⟩
  cases h

theorem yields_insert {rk : ℕ → K} {row : (n : ℕ) → V (rk n)} {n : ℕ} :
    (insert rk row pure : Tx D V ρ ℕ).yields R d L w n L' w' ↔ get (view d w) (rk n) = none ∧
      L' = (rk n, .update) :: L ∧ w' = ⟨rk n, row n⟩ :: w := by
  rw [yields_iff, reaches_insert]
  constructor
  · rintro ⟨m, hm, hn, rfl, rfl⟩
    obtain rfl := Goal.value.inj hn
    exact ⟨hm, rfl, rfl⟩
  · rintro ⟨hm, rfl, rfl⟩
    exact ⟨n, hm, rfl, rfl, rfl⟩

@[simp] theorem commitsAt_insert {rk : ℕ → K} {row : (n : ℕ) → V (rk n)} :
    (insert rk row pure : Tx D V ρ ℕ).commitsAt R d L w r L' w' ↔ False := by
  rw [commitsAt_iff, reaches_insert]
  refine iff_false_intro ?_
  rintro ⟨_, _, h, -⟩
  cases h

theorem yields_nil {ι : Type} {body : ι → Tx D V ρ Unit} {u : Unit} :
    (forEach [] body).yields R d L w u L' w' ↔ L = L' ∧ w = w' := by
  constructor
  · rintro ⟨-, h⟩
    exact h
  · exact fun h => ⟨rfl, h⟩

theorem yields_cons {ι : Type} {body : ι → Tx D V ρ Unit} {i : ι} {is : List ι} {u : Unit} :
    (forEach (i :: is) body).yields R d L w u L' w' ↔
      ∃ L₁ w₁, (body i).yields R d L w () L₁ w₁ ∧ (forEach is body).yields R d L₁ w₁ u L' w' := by
  constructor
  · intro h
    obtain ⟨_, h⟩ := yields_bind.mp h
    exact h
  · exact fun h => yields_bind.mpr ⟨(), h⟩

/-- What every turn of a loop keeps, the loop keeps. -/
theorem yields_forEach {ι : Type} {body : ι → Tx D V ρ Unit}
    {J : List ι → Locks K → Writes V → Prop}
    (hbody : ∀ i is L w L' w', (body i).yields R d L w () L' w' → J (i :: is) L w → J is L' w')
    {is : List ι} {u : Unit} (h : (forEach is body).yields R d L w u L' w') (hJ : J is L w) :
    J [] L' w' := by
  induction is generalizing L w with
  | nil =>
      obtain ⟨rfl, rfl⟩ := yields_nil.mp h
      exact hJ
  | cons i is ih =>
      obtain ⟨L₁, w₁, hi, his⟩ := yields_cons.mp h
      exact ih his (hbody i is L w L₁ w₁ hi hJ)

theorem not_commitsAt_forEach {ι : Type} {body : ι → Tx D V ρ Unit}
    (hbody : ∀ i L w r L' w', ¬ (body i).commitsAt R d L w r L' w') (is : List ι) :
    ¬ (forEach is body).commitsAt R d L w r L' w' := by
  induction is generalizing L w with
  | nil =>
      rintro ⟨h, -⟩
      cases h
  | cons i is ih =>
      intro h
      rcases commitsAt_bind.mp h with h | ⟨_, L₁, w₁, -, h⟩
      · exact hbody _ _ _ _ _ _ h
      · exact ih h

end Rules

/-! ### Statement by statement -/

/-- A statement writes under the locks it takes. -/
theorem advance_owned {p p' : Tx D V ρ α} {v : D} {choice : List ℕ} {ws : Writes V}
    (ha : p.advance v choice = some (p', ws)) : ∀ x ∈ ws, Owns (p.acquires v choice) x.1 := by
  intro x hx
  cases p with
  | value a | done c r => cases ha
  | query next | advisory key next | lockRow key m q next | skipLocked rk pick next =>
      obtain ⟨-, rfl⟩ := Prod.mk.inj (Option.some.inj ha)
      cases hx
  | update key kc f next =>
      simp only [advance] at ha
      cases hr : (get v key).bind f with
      | none =>
          rw [hr] at ha
          obtain ⟨-, rfl⟩ := Prod.mk.inj (Option.some.inj ha)
          cases hx
      | some row' =>
          rw [hr] at ha
          obtain ⟨-, rfl⟩ := Prod.mk.inj (Option.some.inj ha)
          obtain ⟨row, hrow, hf⟩ := Option.bind_eq_some_iff.mp hr
          obtain rfl := List.mem_singleton.mp hx
          have hacq : acquires (.update key kc f next : Tx D V ρ α) v choice =
              [(key, updateMode (kc row))] := by simp [acquires, hrow, hf]
          rw [hacq]
          exact Owns.head (updateMode_exclusive _)
  | insert rk row next =>
      cases choice with
      | nil => cases ha
      | cons n choice =>
          simp only [advance] at ha
          cases hg : get v (rk n) with
          | some r => simp [hg] at ha
          | none =>
              rw [hg] at ha
              obtain ⟨-, rfl⟩ := Prod.mk.inj (Option.some.inj ha)
              obtain rfl := List.mem_singleton.mp hx
              exact Owns.head rfl

/-- The run that goes on after a statement is one of the runs from before it. -/
theorem reaches_advance {R : Rely D V} {d₁ d : D} {p p' : Tx D V ρ Empty} {L L' : Locks K}
    {w w' ws : Writes V} {choice : List ℕ} {o : Goal ρ Empty}
    (ha : p.advance (view d₁ w) choice = some (p', ws))
    (hd : R.Past (p.acquires (view d₁ w) choice ++ L) d₁ d)
    (h : p'.reaches R d (p.acquires (view d₁ w) choice ++ L) (ws ++ w) o L' w') :
    p.reaches R d L w o L' w' := by
  cases p with
  | value a => exact a.elim
  | done c r => cases ha
  | query next =>
      obtain ⟨rfl, rfl⟩ := Prod.mk.inj (Option.some.inj ha)
      exact ⟨d₁, hd, h⟩
  | advisory key next =>
      obtain ⟨rfl, rfl⟩ := Prod.mk.inj (Option.some.inj ha)
      exact h
  | lockRow key m q next =>
      obtain ⟨rfl, rfl⟩ := Prod.mk.inj (Option.some.inj ha)
      cases hr : (get (view d₁ w) key).filter q with
      | none =>
          have hacq : acquires (.lockRow key m q next : Tx D V ρ Empty) (view d₁ w) choice =
              [] := by
            simp [acquires, hr]
          rw [hacq] at hd h
          rw [hr] at h
          exact Or.inr ⟨d₁, hd, hr, h⟩
      | some row =>
          obtain ⟨hrow, hq⟩ := Option.filter_eq_some_iff.mp hr
          have hacq : acquires (.lockRow key m q next : Tx D V ρ Empty) (view d₁ w) choice =
              [(key, m)] := by simp [acquires, hr]
          rw [hacq] at hd h
          rw [hr] at h
          exact Or.inl ⟨d₁, row, hd, hrow, hq, h⟩
  | update key kc f next =>
      simp only [advance] at ha
      cases hr : (get (view d₁ w) key).bind f with
      | none =>
          rw [hr] at ha
          obtain ⟨rfl, rfl⟩ := Prod.mk.inj (Option.some.inj ha)
          have hacq : acquires (.update key kc f next : Tx D V ρ Empty) (view d₁ w) choice =
              [] := by
            simp only [acquires]
            cases hg : get (view d₁ w) key with
            | none => rfl
            | some row =>
                rw [hg, Option.bind_some] at hr
                simp [hr]
          rw [hacq] at hd h
          exact Or.inr ⟨d₁, hd, hr, h⟩
      | some row' =>
          rw [hr] at ha
          obtain ⟨rfl, rfl⟩ := Prod.mk.inj (Option.some.inj ha)
          obtain ⟨row, hrow, hf⟩ := Option.bind_eq_some_iff.mp hr
          have hacq : acquires (.update key kc f next : Tx D V ρ Empty) (view d₁ w) choice =
              [(key, updateMode (kc row))] := by simp [acquires, hrow, hf]
          rw [hacq] at hd h
          have hnow := hd.view_row (Owns.head (updateMode_exclusive (kc row))) w
          exact Or.inl ⟨row, row', hnow.symm.trans hrow, hf, h⟩
  | skipLocked rk pick next =>
      obtain ⟨rfl, rfl⟩ := Prod.mk.inj (Option.some.inj ha)
      exact ⟨d₁, fun n => choice.contains n, hd, h⟩
  | insert rk row next =>
      cases choice with
      | nil => cases ha
      | cons n choice =>
          simp only [advance] at ha
          cases hg : get (view d₁ w) (rk n) with
          | some r => simp [hg] at ha
          | none =>
              rw [hg] at ha
              obtain ⟨rfl, rfl⟩ := Prod.mk.inj (Option.some.inj ha)
              have hnow := hd.view_row (Owns.head rfl : Owns ((rk n, .update) :: L) (rk n)) w
              exact ⟨n, hnow.symm.trans hg, h⟩

end Tx

/-! ### Commits of an interleaving -/

def Config.answerOf (c : Config τ D V ρ) : Action τ ε → List (τ × ρ)
  | .finish t =>
      match c.sessions.get? t with
      | some s =>
          match s.prog with
          | .done true r => [(s.tag, r)]
          | _ => []
      | none => []
  | _ => []

/-- The answers of the transactions that the actions commit, in the order of the commits. -/
def System.answers [DecidableEq K] (sys : System τ ε D V ρ) :
    List (Action τ ε) → Config τ D V ρ → List (τ × ρ)
  | [], _ => []
  | a :: as, c => c.answerOf a ++ ((sys.step c a).map (sys.answers as)).getD []

/-- A commit of the transaction of `tag`, which began at an earlier committed database and answers
`r`. -/
def Rely.Commits (R : Rely D V) (sys : System τ ε D V ρ) (tag : τ) (r : ρ) (d d' : D) : Prop :=
  ∃ d₀ L w, R.Past [] d₀ d ∧ R.inv d ∧ (sys.prog tag d₀).commitsAt R d [] [] r L w ∧ d' = view d w

/-- The transactions whose tags satisfy `A` keep the invariant, and what one of them commits
respects what the owners of other locks rely on. -/
structure Rely.Respected (R : Rely D V) (sys : System τ ε D V ρ) (A : τ → Prop) : Prop where
  commit : ∀ {tag d₀ d r L w}, A tag → R.Past [] d₀ d → R.inv d →
    (sys.prog tag d₀).commitsAt R d [] [] r L w →
    R.inv (view d w) ∧ ∀ L', Compatible L L' → R.rely L' d (view d w)
  tick : ∀ e d, R.inv d → R.inv (sys.tick e d) ∧ (∀ L, R.rely L d (sys.tick e d)) ∧
    ∀ k, get (sys.tick e d) k = get d k

/-- A session in flight: whatever it can still come to, its transaction can come to from the
start. -/
structure Rely.Replays (R : Rely D V) (sys : System τ ε D V ρ) (A : τ → Prop) (s : Session τ D V ρ)
    (d : D) : Prop where
  tag : A s.tag
  owned : ∀ x ∈ s.writes, Owns s.locks x.1
  replay : ∃ d₀, R.Past [] d₀ d ∧ ∀ d' r L w, R.Past s.locks d d' →
    s.prog.commitsAt R d' s.locks s.writes r L w → (sys.prog s.tag d₀).commitsAt R d' [] [] r L w

structure Rely.Holds (R : Rely D V) (sys : System τ ε D V ρ) (A : τ → Prop) (c : Config τ D V ρ) :
    Prop where
  inv : R.inv c.db
  replays : ∀ t s, c.sessions.get? t = some s → R.Replays sys A s c.db
  apart : c.Apart

namespace Rely
variable {R : Rely D V} {sys : System τ ε D V ρ} {A : τ → Prop} {c c' : Config τ D V ρ}

theorem Holds.start {d : D} (h : R.inv d) : R.Holds sys A (Config.start d) where
  inv := h
  replays t s hs := by simp [Config.start] at hs
  apart t u s s' hs := by simp [Config.start] at hs

theorem Replays.later {s : Session τ D V ρ} {d d' : D} (h : R.Replays sys A s d)
    (hd : R.Past s.locks d d') : R.Replays sys A s d' where
  tag := h.tag
  owned := h.owned
  replay := by
    obtain ⟨d₀, h₀, hr⟩ := h.replay
    exact ⟨d₀, h₀.trans (hd.mono (by simp)), fun d'' r L w hd' hc => hr d'' r L w (hd.trans hd') hc⟩

theorem Holds.erase (h : R.Holds sys A c) (t : ℕ) :
    R.Holds sys A { c with sessions := c.sessions.erase t } where
  inv := h.inv
  replays u s hu := h.replays u s (Table.get?_erase_some hu).2
  apart := h.apart.erase t c.db

theorem Holds.place (h : R.Holds sys A c) {t : ℕ} {s : Session τ D V ρ}
    (hs : R.Replays sys A s c.db) (hap : (c.place t s).Apart) :
    R.Holds sys A (c.place t s) where
  inv := h.inv
  replays u s' hu := by
    rcases Table.get?_put_some hu with ⟨-, rfl⟩ | ⟨-, hu⟩
    · exact hs
    · exact h.replays u s' hu
  apart := hap

/-- A transaction that ends with a commit did so on the database committed last. -/
theorem Holds.commits (h : R.Holds sys A c) {t : ℕ} {s : Session τ D V ρ} {r : ρ}
    (ht : c.sessions.get? t = some s) (hp : s.prog = .done true r) :
    R.Commits sys s.tag r c.db (view c.db s.writes) := by
  obtain ⟨d₀, h₀, hr⟩ := (h.replays t s ht).replay
  refine ⟨d₀, s.locks, s.writes, h₀, h.inv, hr c.db r _ _ (.refl h.inv _) ?_, rfl⟩
  rw [hp]
  exact ⟨rfl, rfl, rfl⟩

/-- Other sessions see a commit as their locks and the rely relation promise. -/
theorem Holds.past_commit (hR : R.Respected sys A) (h : R.Holds sys A c) {t u : ℕ}
    {s s' : Session τ D V ρ} {r : ρ} (ht : c.sessions.get? t = some s) (hp : s.prog = .done true r)
    (hu : c.sessions.get? u = some s') (hne : t ≠ u) :
    R.Past s'.locks c.db (view c.db s.writes) := by
  have hs := h.replays t s ht
  have hap := h.apart t u s s' ht hu hne
  obtain ⟨d₀, h₀, hr⟩ := hs.replay
  have hc := hr c.db r s.locks s.writes (.refl h.inv _) (by rw [hp]; exact ⟨rfl, rfl, rfl⟩)
  refine ⟨h.inv, fun k hk => ?_, (hR.commit hs.tag h₀ h.inv hc).2 s'.locks hap⟩
  refine (get_view_of_notMem (fun x hx he => ?_)).symm
  exact hap.not_owns (he ▸ hs.owned x hx) hk

variable [DecidableEq K]

theorem Holds.execute (h : R.Holds sys A c) {t : ℕ} {choice : List ℕ} {s : Session τ D V ρ}
    (ht : c.sessions.get? t = some s) (hc : c.execute t choice s = some c') : R.Holds sys A c' := by
  have hapart := h.apart.execute ht hc
  obtain ⟨p', ws, ha, rfl, -⟩ := Config.execute_inv hc
  have hs := h.replays t s ht
  obtain ⟨d₀, h₀, hr⟩ := hs.replay
  refine h.place ⟨hs.tag, ?_, d₀, h₀, ?_⟩ hapart
  · intro x hx
    rcases List.mem_append.mp hx with hx | hx
    · exact (Tx.advance_owned ha x hx).mono (by simp)
    · exact (hs.owned x hx).mono (by simp)
  · intro d' r L w hd hreach
    exact hr d' r L w (hd.mono (by simp)) (Tx.reaches_advance ha hd hreach)

/-- What one action did to the committed database: nothing, a commit, or what happens without a
transaction. -/
inductive Change (R : Rely D V) (sys : System τ ε D V ρ) (A : τ → Prop) (d : D) :
List (τ × ρ) → D → Prop
  | same : Change R sys A d [] d
  | commit {tag : τ} {r : ρ} {d' : D} (hA : A tag) (h : R.Commits sys tag r d d') :
      Change R sys A d [(tag, r)] d'
  | tick (e : ε) : Change R sys A d [] (sys.tick e d)

/-- Every action keeps a configuration reachable, and every commit among them is replayed. -/
theorem Holds.step (hR : R.Respected sys A) (h : R.Holds sys A c) {a : Action τ ε}
    (ha : ∀ t tag, a = .start t tag → A tag) (hstep : sys.step c a = some c') :
    R.Holds sys A c' ∧ R.Change sys A c.db (c.answerOf a) c'.db := by
  cases a with
  | start t tag =>
      simp only [System.step] at hstep
      split at hstep
      · cases hstep
      · obtain rfl := Option.some.inj hstep
        refine ⟨h.place ⟨ha t tag rfl, by simp, c.db, .refl h.inv _, fun d' r L w _ hc => hc⟩ ?_,
          .same⟩
        exact h.apart.place (fun u s' _ _ g hg => by simp at hg)
  | exec t choice =>
      obtain ⟨s, ht, hc⟩ := Option.bind_eq_some_iff.mp hstep
      have hdb : c'.db = c.db := by
        obtain ⟨p', ws, -, rfl, -⟩ := Config.execute_inv hc
        rfl
      exact ⟨h.execute ht hc, hdb ▸ .same⟩
  | finish t =>
      obtain ⟨s, ht, hc⟩ := Option.bind_eq_some_iff.mp hstep
      unfold Config.finish at hc
      split at hc
      · rename_i r hp
        obtain rfl := Option.some.inj hc
        have hcommit := h.commits ht hp
        have hs := h.replays t s ht
        have hanswer : c.answerOf (.finish t : Action τ ε) = [(s.tag, r)] := by
          simp only [Config.answerOf, ht, hp]
        refine ⟨⟨?_, fun u s' hu => ?_, (h.erase t).apart⟩, hanswer ▸ .commit hs.tag hcommit⟩
        · obtain ⟨d₀, L, w, h₀, hinv, hc, he⟩ := hcommit
          exact he ▸ (hR.commit hs.tag h₀ hinv hc).1
        · obtain ⟨hne, hu⟩ := Table.get?_erase_some hu
          exact (h.replays u s' hu).later (h.past_commit hR ht hp hu (Ne.symm hne))
      · rename_i r hp
        obtain rfl := Option.some.inj hc
        have hanswer : c.answerOf (.finish t : Action τ ε) = [] := by
          simp only [Config.answerOf, ht, hp]
        exact ⟨h.erase t, hanswer ▸ .same⟩
      · cases hc
  | abort t =>
      obtain rfl := Option.some.inj hstep
      exact ⟨h.erase t, .same⟩
  | env e =>
      obtain rfl := Option.some.inj hstep
      obtain ⟨hinv, hrely, hrow⟩ := hR.tick e c.db h.inv
      refine ⟨⟨hinv, fun t s ht => (h.replays t s ht).later ⟨h.inv, fun k _ => (hrow k).symm,
        hrely _⟩, h.apart⟩, .tick e⟩

inductive Trace (R : Rely D V) (sys : System τ ε D V ρ) (A : τ → Prop) : D → List (τ × ρ) → D → Prop
  | nil (d : D) : Trace R sys A d [] d
  | cons {d d₁ d' : D} {l ls : List (τ × ρ)} (hinv : R.inv d) (h : R.Change sys A d l d₁)
      (hs : Trace R sys A d₁ ls d') : Trace R sys A d (l ++ ls) d'

variable {as : List (Action τ ε)}

/-- Every interleaving is such a sequence of commits. -/
theorem Holds.runs (hR : R.Respected sys A) (ha : StartsOnly A as) (h : R.Holds sys A c)
    (hr : sys.runs as c = some c') :
    R.Holds sys A c' ∧ R.Trace sys A c.db (sys.answers as c) c'.db := by
  induction as generalizing c with
  | nil =>
      obtain rfl := Option.some.inj hr
      exact ⟨h, .nil c.db⟩
  | cons a as ih =>
      obtain ⟨c₁, h₁, h₂⟩ := Option.bind_eq_some_iff.mp hr
      obtain ⟨hc₁, hchange⟩ := h.step hR (fun t tag he => ha a (by simp) t tag he) h₁
      obtain ⟨hc', htrace⟩ := ih (fun b hb => ha b (by simp [hb])) hc₁ h₂
      refine ⟨hc', ?_⟩
      rw [System.answers, h₁]
      exact .cons h.inv hchange htrace

end Rely
end Relational
