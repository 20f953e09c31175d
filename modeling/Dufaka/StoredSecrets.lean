import Dufaka.PayChannels

/-!
# Stored secrets

The private key and the secret key of a payment channel, in any run of saves, sweeps and seeds. A
stored secret is never lost to a stale form, and none gets into another channel.
-/

namespace Dufaka
open Relational

namespace PayDesk

/-- The value is empty, was stored for the channel at first, or was submitted by a request for the
channel, or by the one that the server gave this number to. -/
def FromOwner (t : Table PayRow) (as : List PayAct) (id : ℕ) (field : PayRow → Text)
    (pick : PayInput → Text) (v : Text) : Prop :=
  v = [] ∨ (∃ p, t.get? id = some p ∧ v = field p) ∨
    ∃ i next k r, PayAct.load i k r ∈ as ∧ PayAct.write i next ∈ as ∧ (k = id ∨ k = 0 ∧ next = id) ∧
      v = (pick r).trimSpace

theorem FromOwner.mono {t : Table PayRow} {as bs : List PayAct} {id : ℕ} {field : PayRow → Text}
    {pick : PayInput → Text} {v : Text} (hsub : as ⊆ bs) (h : FromOwner t as id field pick v) :
    FromOwner t bs id field pick v := by
  rcases h with h | h | ⟨i, next, k, r, hload, hwrite, hk, hv⟩
  · exact Or.inl h
  · exact Or.inr (Or.inl h)
  · exact Or.inr (Or.inr ⟨i, next, k, r, hsub hload, hsub hwrite, hk, hv⟩)

/-- What the requests `as`, from the channels `t`, have made of the desk. -/
structure Traced (t : Table PayRow) (as : List PayAct) (s : PayDesk) : Prop where
  loads : ∀ i k r old, s.saves i = .loaded k r old → PayAct.load i k r ∈ as
  pem : ∀ id p, s.pays.get? id = some p →
    FromOwner t as id PayRow.merchantPem PayInput.pem p.merchantPem
  key : ∀ id p, s.pays.get? id = some p →
    FromOwner t as id PayRow.merchantKey PayInput.key p.merchantKey

section Traced
variable {s s' s'' : PayDesk} {a : PayAct} {t : Table PayRow} {as bs : List PayAct} {id : ℕ}
  {p p' : PayRow}

theorem Traced.boot (t : Table PayRow) : Traced t [] (boot t) where
  loads i k r old hs := by cases hs
  pem id p' hp := by
    obtain ⟨p, hp₀, rfl⟩ := get?_disableUnwired hp
    exact Or.inr (Or.inl ⟨p, hp₀, p.swept_merchantPem⟩)
  key id p' hp := by
    obtain ⟨p, hp₀, rfl⟩ := get?_disableUnwired hp
    exact Or.inr (Or.inl ⟨p, hp₀, p.swept_merchantKey⟩)

/-- What the write of a call submits comes from its request. -/
theorem Traced.submitted (h : Traced t as s) {i next : ℕ} {k : ℤ} {r : PayInput} {old : PayForm}
    (hs : s.saves i = .loaded k r old) (hk : k = id ∨ k = 0 ∧ next = id) {field : PayRow → Text}
    {pick : PayInput → Text} :
    FromOwner t (as ++ [.write i next]) id field pick (pick r).trimSpace := by
  refine Or.inr (Or.inr ⟨i, next, k, r, ?_, ?_, hk, rfl⟩)
  · exact List.mem_append_left _ (h.loads i k r old hs)
  · exact List.mem_append_right _ (List.mem_singleton.mpr rfl)

theorem Traced.row (h : Traced t as s) (hp : s.pays.get? id = some p) (hrow : s.RowStep a id p p') :
    FromOwner t (as ++ [a]) id PayRow.merchantPem PayInput.pem p'.merchantPem ∧
      FromOwner t (as ++ [a]) id PayRow.merchantKey PayInput.key p'.merchantKey := by
  have hsub : as ⊆ as ++ [a] := List.subset_append_left as [a]
  constructor
  · rcases hrow.pem with hsame | ⟨i, next, r, old, rfl, hs, -, hnew⟩
    · rw [hsame]
      exact (h.pem id p hp).mono hsub
    · rw [hnew]
      exact h.submitted hs (Or.inl rfl)
  · rcases hrow.key with hsame | ⟨i, next, r, old, rfl, hs, ⟨hempty, -⟩ | ⟨-, hnew⟩⟩
    · rw [hsame]
      exact (h.key id p hp).mono hsub
    · exact Or.inl hempty
    · rw [hnew]
      exact h.submitted hs (Or.inl rfl)

theorem Traced.new (h : Traced t as s) (hnew : s.NewRow a id p') :
    FromOwner t (as ++ [a]) id PayRow.merchantPem PayInput.pem p'.merchantPem ∧
      FromOwner t (as ++ [a]) id PayRow.merchantKey PayInput.key p'.merchantKey := by
  rcases hnew with ⟨-, hpem, hkey⟩ | ⟨i, r, old, rfl, hs, hpem, hkey⟩
  · exact ⟨Or.inl hpem, Or.inl hkey⟩
  · rw [hpem, hkey]
    exact ⟨h.submitted hs (Or.inr ⟨rfl, rfl⟩), h.submitted hs (Or.inr ⟨rfl, rfl⟩)⟩

theorem Traced.move (h : Traced t as s) (hm : s.Move a s') : Traced t (as ++ [a]) s' := by
  have hsecrets : ∀ id p', s'.pays.get? id = some p' →
      FromOwner t (as ++ [a]) id PayRow.merchantPem PayInput.pem p'.merchantPem ∧
        FromOwner t (as ++ [a]) id PayRow.merchantKey PayInput.key p'.merchantKey := by
    intro id p' hp'
    cases hp : s.pays.get? id with
    | none => exact h.new (hm.new hp hp')
    | some p =>
        obtain ⟨q, hq, hrow⟩ := hm.row hp
        obtain rfl := Option.some.inj (hq.symm.trans hp')
        exact h.row hp hrow
  constructor
  · intro i k r old hs
    rcases hm.loaded hs with hs | ⟨rfl, -⟩
    · exact List.mem_append_left _ (h.loads i k r old hs)
    · exact List.mem_append_right _ (List.mem_singleton.mpr rfl)
  · exact fun id p' hp' => (hsecrets id p' hp').1
  · exact fun id p' hp' => (hsecrets id p' hp').2

theorem run_traced (hr : Machine.run step (PayDesk.boot t) as = some s) : Traced t as s :=
  Machine.run_induction (P := Traced t) (Traced.boot t)
    (fun _ _ _ _ _ h hs => h.move (step_move hs)) hr

def LaterRow (as : List PayAct) (s : PayDesk) (id : ℕ) (p : PayRow) : Prop :=
  ∃ p', s.pays.get? id = some p' ∧ (p.merchantPem ≠ [] → p'.merchantPem ≠ []) ∧
    (p.merchantKey ≠ [] → p'.merchantKey ≠ [] ∨
      ∃ i r, PayAct.load i id r ∈ as ∧ r.clearKey = ['1'])

theorem run_later (h : Traced t as s) (hp : s.pays.get? id = some p)
    (hr : Machine.run step s bs = some s') : LaterRow (as ++ bs) s' id p := by
  have hboth : Traced t (as ++ bs) s' ∧ LaterRow (as ++ bs) s' id p := by
    refine Machine.run_induction (P := fun bs s' => Traced t (as ++ bs) s' ∧
      LaterRow (as ++ bs) s' id p)
      ⟨?_, p, hp, fun hne => hne, Or.inl⟩ ?_ hr
    · rwa [List.append_nil]
    · rintro bs s₁ b s₂ - ⟨htraced, p₁, hp₁, hpem₁, hkey₁⟩ hstep
      have hm := step_move hstep
      obtain ⟨p₂, hp₂, hrow⟩ := hm.row hp₁
      rw [← List.append_assoc]
      refine ⟨htraced.move hm, p₂, hp₂, fun hne => hrow.pem_ne (hpem₁ hne), fun hne => ?_⟩
      rcases hkey₁ hne with hne | ⟨i, r, hmem, hclear⟩
      · rcases hrow.key_ne hne with hne | ⟨i, r, old, hs, hclear⟩
        · exact Or.inl hne
        · exact Or.inr ⟨i, r, List.mem_append_left _ (htraced.loads i id r old hs), hclear⟩
      · exact Or.inr ⟨i, r, List.mem_append_left _ hmem, hclear⟩
  exact hboth.2

/-- In every run of saves, stale or not, sweeps and seeds. A step leaves the secrets of a channel as
they are then, unless it writes what a request for this channel has submitted, which it has done
when the request is told so; and a new channel has those that its request submitted. So no private
key is emptied between two moments of a run, no secret key without a request to do so, and every
secret comes from the channel's own start or requests. -/
theorem secrets_stay (hr : Machine.run step (PayDesk.boot t) as = some s) :
    (∀ i k r old, s.saves i = .loaded k r old → PayAct.load i k r ∈ as) ∧
    (∀ a s', s.step a = some s' →
      (∀ id p, s.pays.get? id = some p → ∃ p', s'.pays.get? id = some p' ∧ s.RowStep a id p p') ∧
      (∀ id p', s.pays.get? id = none → s'.pays.get? id = some p' → s.NewRow a id p') ∧
      ∀ i next k r old, a = .write i next → s.saves i = .loaded k r old →
        s'.saves i = .answered none →
        (k = 0 ∧ ∃ p', s'.pays.get? next = some p' ∧
          p'.merchantPem = r.pem.trimSpace ∧ p'.merchantKey = r.key.trimSpace) ∨
        (0 < k ∧ ∃ p p', s.pays.get? k.toNat = some p ∧ s'.pays.get? k.toNat = some p' ∧
          PutsIn r p p')) ∧
    (∀ bs s' id p, Machine.run step s bs = some s' → s.pays.get? id = some p →
      LaterRow (as ++ bs) s' id p) ∧
    ∀ id p, s.pays.get? id = some p →
      FromOwner t as id PayRow.merchantPem PayInput.pem p.merchantPem ∧
      FromOwner t as id PayRow.merchantKey PayInput.key p.merchantKey := by
  have h := run_traced hr
  refine ⟨h.loads, fun a s' hs => ⟨?_, ?_, ?_⟩, fun bs s' id p hb hp => run_later h hp hb, ?_⟩
  · exact fun id p hp => (step_move hs).row hp
  · exact fun id p' hnone hp' => (step_move hs).new hnone hp'
  · rintro i next k r old rfl hload hdone
    exact (step_move hs).stored hload hdone
  · exact fun id p hp => ⟨h.pem id p hp, h.key id p hp⟩

end Traced

/-- The stale form of the small desk, written last, keeps the key that was stored in the
meantime. -/
theorem secrets_stay_stale :
    ∃ s s' p', Machine.run step (boot tinyChannels) (staleSave.take 3) = some s ∧
    s.step (.write 0 2) = some s' ∧ s'.pays.get? 1 = some p' ∧ p'.merchantPem = "new".toList := by
  have hrun : (Machine.run step (boot tinyChannels) (staleSave.take 3)).isSome = true := by decide
  obtain ⟨-, hsteps, -⟩ := secrets_stay (Option.some_get hrun).symm
  obtain ⟨hrows, -⟩ := hsteps (.write 0 2) _ rfl
  obtain ⟨p', hp', hrow⟩ := hrows 1 _ rfl
  refine ⟨_, _, p', rfl, rfl, hp', ?_⟩
  rcases hrow.pem with hsame | ⟨i, next, r, old, ha, hs, hnew, -⟩
  · exact hsame
  · -- the form of that call has a blank key
    obtain ⟨rfl, -⟩ := PayAct.write.inj ha
    obtain ⟨-, rfl, -⟩ := PaySave.loaded.inj hs
    exact absurd rfl hnew

end PayDesk
end Dufaka
