import Dufaka.BackOffice
import Dufaka.Machine

/-!
# Payment channels

The owner's form of a payment channel. A save reads the stored row, checks the form against it and
writes with one later statement, in which a blank secret keeps what is stored then. Any number of
saves, the startup sweep that switches off channels without a cashier and the seed of the wallet
channel interleave. What a step does to the rows and to their secrets is told here once.
-/

namespace Dufaka
open Relational

structure PayRow where
  name : Text
  check : Text
  method : ℤ
  client : ℤ
  merchantId : Text
  merchantKey : Text
  merchantPem : Text
  route : Text
  isOpen : ℤ
  deleted : Bool
  deriving DecidableEq

def PayRow.pay (p : PayRow) : Pay :=
  ⟨p.isOpen, p.check, p.merchantId, p.merchantKey, p.merchantPem, p.deleted⟩

structure PayInput where
  clearKey : Text
  name : Text
  check : Text
  method : Text
  client : Text
  merchantId : Text
  key : Text
  pem : Text
  route : Text
  isOpen : Text
  deriving DecidableEq

structure PayForm where
  method : ℤ
  client : ℤ
  isOpen : ℤ
  name : Text
  check : Text
  merchantId : Text
  key : Text
  pem : Text
  route : Text
  clearKey : Bool
  hasKey : Bool
  hasPem : Bool
  deriving DecidableEq

def PayForm.zero : PayForm := ⟨0, 0, 0, [], [], [], [], [], [], false, false, false⟩

def PayRow.form (p : PayRow) : PayForm :=
  ⟨p.method, p.client, p.isOpen, p.name, p.check, p.merchantId, p.merchantKey, p.merchantPem,
    p.route, false, false, false⟩

def wechatKeyBytes : ℕ := 32

def PayInput.form (r : PayInput) (old : PayForm) : PayForm where
  clearKey := r.clearKey = ['1']
  hasKey := old.key ≠ []
  hasPem := old.pem ≠ []
  name := r.name.trimSpace
  check := r.check.trimSpace
  method := mustInt r.method 0
  client := mustInt r.client 0
  merchantId := r.merchantId.trimSpace
  key := r.key.trimSpace
  pem := r.pem.trimSpace
  route := r.route.trimSpace
  isOpen := mustInt r.isOpen 0

/-- The credentials of the wallet and of the USDT service come from the environment only. -/
def envOnly (check : Text) : Bool := check = "cldx".toList || check = "usdt".toList

def payRefusal (f old : PayForm) : Option Text :=
  if f.name = [] ∨ runeLen f.name > 200 then some "请填写支付名称".toList
  else if f.check = [] ∨ runeLen f.check > 50 then some "请填写支付标识".toList
  else if f.method ≠ 1 ∧ f.method ≠ 2 then some "支付方式请选择跳转或扫码".toList
  else if f.client ≠ 1 ∧ f.client ≠ 2 ∧ f.client ≠ 3 then some "支付场景请选择电脑、手机或通用".toList
  else if !envOnly f.check ∧ f.merchantId = [] then some "请填写商户 ID".toList
  else if !envOnly f.check ∧ f.pem = [] ∧ old.pem = [] then some "请填写商户密钥".toList
  else if f.clearKey ∧ f.key ≠ [] then some "不能同时填写并清空商户 KEY".toList
  else if f.check = "wescan".toList ∧ f.key ≠ [] ∧ f.key.byteLength ≠ wechatKeyBytes then
    some "微信支付 APIv3 密钥必须是 32 位".toList
  else if runeLen f.merchantId > 200 then some "商户 ID 超过 200 字".toList
  else if f.route = [] ∨ runeLen f.route > 200 then some "请填写支付处理路由".toList
  else if f.isOpen ≠ 0 ∧ f.isOpen ≠ 1 then some "是否启用不正确".toList
  else if f.isOpen = 1 ∧ !cashierReady f.check then some "该支付渠道尚未接通收银台，暂不能启用".toList
  else none

def readPayOver (r : PayInput) (old : PayForm) : Except Text PayForm :=
  match payRefusal (r.form old) old with
  | some msg => .error msg
  | none => .ok (r.form old)

def PayForm.inserted (f : PayForm) : PayRow :=
  ⟨f.name, f.check, f.method, f.client, f.merchantId, f.key, f.pem, f.route, f.isOpen, false⟩

def PayForm.updated (f : PayForm) (p : PayRow) : PayRow where
  name := f.name
  check := f.check
  method := f.method
  client := f.client
  merchantId := f.merchantId
  merchantKey := if f.clearKey then [] else if f.key = [] then p.merchantKey else f.key
  merchantPem := if f.pem = [] then p.merchantPem else f.pem
  route := f.route
  isOpen := f.isOpen
  deleted := p.deleted

def checkTaken (t : Table PayRow) (i : Option ℕ) (check : Text) : Bool :=
  (t.find? (fun j p => some j ≠ i && p.check = check)).isSome

def msgCheckTaken : Text := "已存在相同的记录".toList

/-- The statement of a save: an `INSERT` for the number 0, else an `UPDATE` of a row that is not
deleted. The server hands out the identity `next`. -/
def PayForm.write (f : PayForm) (id : ℤ) (next : ℕ) (t : Table PayRow) :
    Except Text (Table PayRow) :=
  if id = 0 then
    match t.get? next with
    | some _ => .error msgCheckTaken
    | none =>
        if checkTaken t none f.check then .error msgCheckTaken else .ok (t.put next f.inserted)
  else if 0 < id then
    match (t.get? id.toNat).filter (fun p => !p.deleted) with
    | none => .error "记录不存在或已删除".toList
    | some p =>
        if checkTaken t (some id.toNat) f.check then .error msgCheckTaken
        else .ok (t.put id.toNat (f.updated p))
  else .error "记录不存在或已删除".toList

def PayRow.swept (p : PayRow) : PayRow :=
  if p.isOpen = 1 && !p.deleted && !cashierReady p.check then { p with isOpen := 0 } else p

def disableUnwired (t : Table PayRow) : Table PayRow := t.mapRows (fun _ => PayRow.swept)

def cldxRow : PayRow :=
  ⟨"cldx".toList, "cldx".toList, 2, 3, [], [], [], "/pay/cldx".toList, 1, false⟩

def ensureCldxPay (next : ℕ) (t : Table PayRow) : Table PayRow :=
  match t.get? next with
  | some _ => t
  | none => if checkTaken t none "cldx".toList then t else t.put next cldxRow

/-! ### Interleaved saves -/

inductive PaySave where
  | idle
  | loaded (id : ℤ) (r : PayInput) (old : PayForm)
  | answered (refusal : Option Text)

inductive PayAct where
  /-- The request with the form `r` for the channel `id`: the stored row is read. -/
  | load (i : ℕ) (id : ℤ) (r : PayInput)
  | write (i next : ℕ)
  /-- The statement fails. -/
  | fail (i : ℕ) (msg : Text)
  | sweep
  | seed (next : ℕ)

structure PayDesk where
  pays : Table PayRow
  saves : ℕ → PaySave

namespace PayDesk

/-- The server takes requests once the startup sweep is done, which needs a database that
answers. -/
def boot (t : Table PayRow) : PayDesk := ⟨disableUnwired t, fun _ => .idle⟩

def setSave (s : PayDesk) (i : ℕ) (p : PaySave) : PayDesk :=
  { s with saves := Function.update s.saves i p }

def step (s : PayDesk) : PayAct → Option PayDesk
  | .load i id r =>
      match s.saves i with
      | .idle =>
          if 0 < id then
            match (s.pays.get? id.toNat).filter (fun p => !p.deleted) with
            | some p => some (s.setSave i (.loaded id r p.form))
            | none => some (s.setSave i (.answered (some msgNoRecord)))
          else some (s.setSave i (.loaded id r .zero))
      | _ => none
  | .write i next =>
      match s.saves i with
      | .loaded id r old =>
          match (readPayOver r old).bind (fun f => f.write id next s.pays) with
          | .error msg => some (s.setSave i (.answered (some msg)))
          | .ok t => some { s.setSave i (.answered none) with pays := t }
      | _ => none
  | .fail i msg =>
      match s.saves i with
      | .loaded _ _ _ => some (s.setSave i (.answered (some msg)))
      | _ => none
  | .sweep => some { s with pays := disableUnwired s.pays }
  | .seed next => some { s with pays := ensureCldxPay next s.pays }

end PayDesk

/-! ### What a step does -/

theorem readPayOver_ok {r : PayInput} {old f : PayForm} (h : readPayOver r old = .ok f) :
    f = r.form old ∧ payRefusal f old = none := by
  unfold readPayOver at h
  cases hr : payRefusal (r.form old) old with
  | some msg =>
      rw [hr] at h
      cases h
  | none =>
      rw [hr] at h
      obtain rfl := Except.ok.inj h
      exact ⟨rfl, hr⟩

theorem refusal_none_iff {c : Prop} [Decidable c] {msg : Text} {rest : Option Text} :
    (if c then some msg else rest) = none ↔ ¬ c ∧ rest = none := by
  by_cases h : c
  · rw [if_pos h]
    exact iff_of_false (Option.some_ne_none _) (fun hn => hn.1 h)
  · rw [if_neg h]
    exact ⟨fun hr => ⟨h, hr⟩, And.right⟩

/-- What the checks promise of a form that passed them. -/
theorem payRefusal_none {f old : PayForm} (h : payRefusal f old = none) :
    (f.isOpen = 1 → cashierReady f.check = true) ∧
      (envOnly f.check = false → f.merchantId ≠ [] ∧ (f.pem = [] → old.pem ≠ [])) := by
  unfold payRefusal at h
  obtain ⟨-, h⟩ := refusal_none_iff.mp h
  obtain ⟨-, h⟩ := refusal_none_iff.mp h
  obtain ⟨-, h⟩ := refusal_none_iff.mp h
  obtain ⟨-, h⟩ := refusal_none_iff.mp h
  obtain ⟨hid, h⟩ := refusal_none_iff.mp h
  obtain ⟨hpem, h⟩ := refusal_none_iff.mp h
  obtain ⟨-, h⟩ := refusal_none_iff.mp h
  obtain ⟨-, h⟩ := refusal_none_iff.mp h
  obtain ⟨-, h⟩ := refusal_none_iff.mp h
  obtain ⟨-, h⟩ := refusal_none_iff.mp h
  obtain ⟨-, h⟩ := refusal_none_iff.mp h
  obtain ⟨hready, -⟩ := refusal_none_iff.mp h
  constructor
  · intro hopen
    by_contra hno
    exact hready ⟨hopen, by simpa using hno⟩
  · intro henv
    have henv' : (!envOnly f.check) = true := by rw [henv]; rfl
    exact ⟨fun hnone => hid ⟨henv', hnone⟩, fun hblank hold => hpem ⟨henv', hblank, hold⟩⟩

theorem PayForm.updated_merchantPem (f : PayForm) (p : PayRow) :
    (f.updated p).merchantPem = if f.pem = [] then p.merchantPem else f.pem := rfl

theorem PayForm.updated_merchantKey (f : PayForm) (p : PayRow) : (f.updated p).merchantKey =
    if f.clearKey then [] else if f.key = [] then p.merchantKey else f.key := rfl

theorem PayRow.swept_merchantPem (p : PayRow) : p.swept.merchantPem = p.merchantPem := by
  unfold swept
  split_ifs <;> rfl

theorem PayRow.swept_merchantKey (p : PayRow) : p.swept.merchantKey = p.merchantKey := by
  unfold swept
  split_ifs <;> rfl

/-- A channel that is open after the sweep was so before it, and has a cashier. -/
theorem PayRow.swept_open {p : PayRow} (hlive : p.swept.deleted = false)
    (hopen : p.swept.isOpen = 1) :
    p.swept = p ∧ cashierReady p.check = true := by
  unfold swept at hlive hopen ⊢
  split_ifs at hlive hopen ⊢ with hc
  · cases hopen
  · exact ⟨rfl, by simpa [hlive, hopen] using hc⟩

theorem get?_disableUnwired {t : Table PayRow} {id : ℕ} {p' : PayRow}
    (h : (disableUnwired t).get? id = some p') :
    ∃ p, t.get? id = some p ∧ p.swept = p' := by
  rw [disableUnwired, Table.get?_mapRows] at h
  exact Option.map_eq_some_iff.mp h

theorem PayForm.write_ok {f : PayForm} {id : ℤ} {next : ℕ} {t t' : Table PayRow}
    (h : f.write id next t = .ok t') :
    (id = 0 ∧ t.get? next = none ∧ t' = t.put next f.inserted) ∨
      (0 < id ∧ ∃ p, t.get? id.toNat = some p ∧ p.deleted = false ∧
        t' = t.put id.toNat (f.updated p)) := by
  unfold write at h
  by_cases hzero : id = 0
  · rw [if_pos hzero] at h
    cases hn : t.get? next with
    | some p =>
        rw [hn] at h
        cases h
    | none =>
        simp only [hn] at h
        split_ifs at h
        exact Or.inl ⟨hzero, rfl, (Except.ok.inj h).symm⟩
  · rw [if_neg hzero] at h
    by_cases hpos : 0 < id
    · rw [if_pos hpos] at h
      cases hf : (t.get? id.toNat).filter (fun p => !p.deleted) with
      | none =>
          rw [hf] at h
          cases h
      | some p =>
          simp only [hf] at h
          split_ifs at h
          obtain ⟨hget, hlive⟩ := Option.filter_eq_some_iff.mp hf
          exact Or.inr ⟨hpos, p, hget, by simpa using hlive, (Except.ok.inj h).symm⟩
    · rw [if_neg hpos] at h
      cases h

namespace PayDesk

inductive Move (s : PayDesk) : PayAct → PayDesk → Prop
  | began {i : ℕ} {id : ℤ} {r : PayInput} {old : PayForm}
      (hold : old.pem ≠ [] → 0 < id ∧ ∃ p, s.pays.get? id.toNat = some p ∧ p.merchantPem ≠ []) :
      Move s (.load i id r) (s.setSave i (.loaded id r old))
  | answered {a : PayAct} {i : ℕ} {msg : Text} : Move s a (s.setSave i (.answered (some msg)))
  | inserted {i next : ℕ} {r : PayInput} {old f : PayForm} (hs : s.saves i = .loaded 0 r old)
      (hf : readPayOver r old = .ok f) (hnew : s.pays.get? next = none) :
      Move s (.write i next)
        { s.setSave i (.answered none) with pays := s.pays.put next f.inserted }
  | updated {i next : ℕ} {id : ℤ} {r : PayInput} {old f : PayForm} {p : PayRow}
      (hs : s.saves i = .loaded id r old) (hf : readPayOver r old = .ok f) (hpos : 0 < id)
      (hp : s.pays.get? id.toNat = some p) :
      Move s (.write i next)
        { s.setSave i (.answered none) with pays := s.pays.put id.toNat (f.updated p) }
  | swept : Move s .sweep { s with pays := disableUnwired s.pays }
  | seeded {next : ℕ} (hnew : s.pays.get? next = none) :
      Move s (.seed next) { s with pays := s.pays.put next cldxRow }
  | same {a : PayAct} : Move s a s

theorem step_move {s s' : PayDesk} {a : PayAct} (h : s.step a = some s') : s.Move a s' := by
  cases a with
  | load i id r =>
      simp only [step] at h
      cases hs : s.saves i with
      | loaded | answered => simp [hs] at h
      | idle =>
          simp only [hs] at h
          split_ifs at h with hpos
          · cases hf : (s.pays.get? id.toNat).filter (fun p => !p.deleted) with
            | none =>
                simp only [hf] at h
                obtain rfl := Option.some.inj h
                exact .answered
            | some p =>
                simp only [hf] at h
                obtain rfl := Option.some.inj h
                exact .began (fun hpem => ⟨hpos, p, (Option.filter_eq_some_iff.mp hf).1, hpem⟩)
          · obtain rfl := Option.some.inj h
            exact .began (fun hpem => absurd rfl hpem)
  | write i next =>
      simp only [step] at h
      cases hs : s.saves i with
      | idle | answered => simp [hs] at h
      | loaded id r old =>
          simp only [hs] at h
          cases hf : readPayOver r old with
          | error msg =>
              simp only [hf, Except.bind] at h
              obtain rfl := Option.some.inj h
              exact .answered
          | ok f =>
              cases hw : f.write id next s.pays with
              | error msg =>
                  simp only [hf, Except.bind, hw] at h
                  obtain rfl := Option.some.inj h
                  exact .answered
              | ok t =>
                  simp only [hf, Except.bind, hw] at h
                  obtain rfl := Option.some.inj h
                  rcases PayForm.write_ok hw with ⟨rfl, hnew, rfl⟩ | ⟨hpos, p, hp, -, rfl⟩
                  · exact .inserted hs hf hnew
                  · exact .updated hs hf hpos hp
  | fail i msg =>
      simp only [step] at h
      cases hs : s.saves i with
      | idle | answered => simp [hs] at h
      | loaded id r old =>
          simp only [hs] at h
          obtain rfl := Option.some.inj h
          exact .answered
  | sweep =>
      obtain rfl := Option.some.inj h
      exact .swept
  | seed next =>
      obtain rfl := Option.some.inj h
      unfold ensureCldxPay
      cases hn : s.pays.get? next with
      | some p => exact .same
      | none =>
          simp only []
          split_ifs
          · exact .same
          · exact .seeded hn

section Moves
variable {s s' : PayDesk} {a : PayAct} {id : ℕ} {p p' : PayRow}

/-- The secrets that were submitted are put in, and what was left blank is kept. -/
def PutsIn (r : PayInput) (p p' : PayRow) : Prop :=
  p'.merchantPem = (if r.pem.trimSpace = [] then p.merchantPem else r.pem.trimSpace) ∧
    p'.merchantKey = (if r.clearKey = ['1'] then [] else
      if r.key.trimSpace = [] then p.merchantKey else r.key.trimSpace)

/-- What a step does to the secrets of the channel `id`: they stay, or the step is the write of a
call for this very channel, which puts in what was submitted for it. -/
def RowStep (s : PayDesk) (a : PayAct) (id : ℕ) (p p' : PayRow) : Prop :=
  (p'.merchantPem = p.merchantPem ∧ p'.merchantKey = p.merchantKey) ∨
    ∃ i next r old, a = .write i next ∧ s.saves i = .loaded id r old ∧ PutsIn r p p'

/-- Where the secrets of a new channel come from: the seed has none, and the write of a call for a
new channel puts in what was submitted with it. -/
def NewRow (s : PayDesk) (a : PayAct) (id : ℕ) (p' : PayRow) : Prop :=
  (a = .seed id ∧ p'.merchantPem = [] ∧ p'.merchantKey = []) ∨
    ∃ i r old, a = .write i id ∧ s.saves i = .loaded 0 r old ∧
      p'.merchantPem = r.pem.trimSpace ∧ p'.merchantKey = r.key.trimSpace

theorem putsIn_updated {r : PayInput} {old : PayForm} : PutsIn r p ((r.form old).updated p) := by
  refine ⟨rfl, ?_⟩
  have hflag : (r.form old).clearKey = decide (r.clearKey = ['1']) := rfl
  rw [PayForm.updated_merchantKey, hflag]
  by_cases hclear : r.clearKey = ['1']
  · rw [decide_eq_true hclear, if_pos rfl, if_pos hclear]
  · rw [decide_eq_false hclear, if_neg Bool.false_ne_true, if_neg hclear]
    rfl

theorem Move.row (h : s.Move a s') (hp : s.pays.get? id = some p) :
    ∃ p', s'.pays.get? id = some p' ∧ s.RowStep a id p p' := by
  have hsame : s'.pays.get? id = some p → ∃ p', s'.pays.get? id = some p' ∧ s.RowStep a id p p' :=
    fun hp' => ⟨p, hp', Or.inl ⟨rfl, rfl⟩⟩
  -- a row under a new identity is another one
  have hput : ∀ {next : ℕ} {q : PayRow}, s.pays.get? next = none →
      (s.pays.put next q).get? id = some p := by
    intro next q hnew
    rw [Table.get?_put_of_ne]
    · exact hp
    · rintro rfl
      rw [hnew] at hp
      cases hp
  cases h with
  | began | answered | same => exact hsame hp
  | inserted _ _ hnew | seeded hnew => exact hsame (hput hnew)
  | swept =>
      refine ⟨p.swept, (Table.get?_mapRows _ _ _).trans (congrArg _ hp), Or.inl ?_⟩
      exact ⟨p.swept_merchantPem, p.swept_merchantKey⟩
  | @updated i next k r old f q hs hf hpos hq =>
      by_cases hk : id = k.toNat
      · subst hk
        obtain rfl := Option.some.inj (hp.symm.trans hq)
        obtain ⟨rfl, -⟩ := readPayOver_ok hf
        refine ⟨_, Table.get?_put_self _ _ _, Or.inr ⟨i, next, r, old, rfl, ?_, putsIn_updated⟩⟩
        rw [Int.toNat_of_nonneg hpos.le]
        exact hs
      · exact hsame ((Table.get?_put_of_ne _ _ hk).trans hp)

theorem Move.new (h : s.Move a s') (hnone : s.pays.get? id = none)
    (hp : s'.pays.get? id = some p') :
    s.NewRow a id p' := by
  have hno : s.pays.get? id = some p' → s.NewRow a id p' := by
    intro hp
    rw [hnone] at hp
    cases hp
  cases h with
  | began | answered | same => exact hno hp
  | swept =>
      obtain ⟨p, hp₀, -⟩ := get?_disableUnwired hp
      rw [hnone] at hp₀
      cases hp₀
  | seeded hnew =>
      rcases Table.get?_put_some hp with ⟨rfl, rfl⟩ | ⟨-, hp⟩
      · exact Or.inl ⟨rfl, rfl, rfl⟩
      · exact hno hp
  | @inserted i next r old f hs hf hnew =>
      rcases Table.get?_put_some hp with ⟨rfl, rfl⟩ | ⟨-, hp⟩
      · obtain ⟨rfl, -⟩ := readPayOver_ok hf
        exact Or.inr ⟨i, r, old, rfl, hs, rfl, rfl⟩
      · exact hno hp
  | @updated i next k r old f q hs hf hpos hq =>
      rcases Table.get?_put_some hp with ⟨rfl, -⟩ | ⟨-, hp⟩
      · rw [hnone] at hq
        cases hq
      · exact hno hp

/-- A call that is answered with success has stored what was submitted. -/
theorem Move.stored {i next : ℕ} {k : ℤ} {r : PayInput} {old : PayForm}
    (h : s.Move (.write i next) s') (hs : s.saves i = .loaded k r old)
    (hdone : s'.saves i = .answered none) :
    (k = 0 ∧ ∃ p', s'.pays.get? next = some p' ∧
      p'.merchantPem = r.pem.trimSpace ∧ p'.merchantKey = r.key.trimSpace) ∨
    (0 < k ∧ ∃ p p', s.pays.get? k.toNat = some p ∧ s'.pays.get? k.toNat = some p' ∧
      PutsIn r p p') := by
  generalize ha : PayAct.write i next = a at h
  cases h with
  | began | swept | seeded => cases ha
  | same => cases hs.symm.trans hdone
  | @answered _ j msg =>
      have hdone : Function.update s.saves j (.answered (some msg)) i = .answered none := hdone
      rw [Function.update_apply, hs] at hdone
      split_ifs at hdone
      cases hdone
  | inserted hs₀ hf hnew =>
      obtain ⟨rfl, rfl⟩ := PayAct.write.inj ha
      obtain ⟨rfl, rfl, rfl⟩ := PaySave.loaded.inj (hs.symm.trans hs₀)
      obtain ⟨rfl, -⟩ := readPayOver_ok hf
      exact Or.inl ⟨rfl, _, Table.get?_put_self _ _ _, rfl, rfl⟩
  | updated hs₀ hf hpos hp =>
      obtain ⟨rfl, rfl⟩ := PayAct.write.inj ha
      obtain ⟨rfl, rfl, rfl⟩ := PaySave.loaded.inj (hs.symm.trans hs₀)
      obtain ⟨rfl, -⟩ := readPayOver_ok hf
      exact Or.inr ⟨hpos, _, _, hp, Table.get?_put_self _ _ _, putsIn_updated⟩

theorem RowStep.pem (h : s.RowStep a id p p') : p'.merchantPem = p.merchantPem ∨
    ∃ i next r old, a = .write i next ∧ s.saves i = .loaded id r old ∧ r.pem.trimSpace ≠ [] ∧
      p'.merchantPem = r.pem.trimSpace := by
  rcases h with ⟨hpem, -⟩ | ⟨i, next, r, old, ha, hs, hpem, -⟩
  · exact Or.inl hpem
  · split_ifs at hpem with hblank
    · exact Or.inl hpem
    · exact Or.inr ⟨i, next, r, old, ha, hs, hblank, hpem⟩

theorem RowStep.key (h : s.RowStep a id p p') : p'.merchantKey = p.merchantKey ∨
    ∃ i next r old, a = .write i next ∧ s.saves i = .loaded id r old ∧
      (p'.merchantKey = [] ∧ r.clearKey = ['1'] ∨
        r.key.trimSpace ≠ [] ∧ p'.merchantKey = r.key.trimSpace) := by
  rcases h with ⟨-, hkey⟩ | ⟨i, next, r, old, ha, hs, -, hkey⟩
  · exact Or.inl hkey
  · split_ifs at hkey with hclear hblank
    · exact Or.inr ⟨i, next, r, old, ha, hs, Or.inl ⟨hkey, hclear⟩⟩
    · exact Or.inl hkey
    · exact Or.inr ⟨i, next, r, old, ha, hs, Or.inr ⟨hblank, hkey⟩⟩

/-- A private key is never emptied. -/
theorem RowStep.pem_ne (h : s.RowStep a id p p') (hne : p.merchantPem ≠ []) :
    p'.merchantPem ≠ [] := by
  rcases h.pem with hsame | ⟨_, _, _, _, -, -, hnew, hpem⟩
  · rwa [hsame]
  · rwa [hpem]

/-- A secret key is emptied on request only. -/
theorem RowStep.key_ne (h : s.RowStep a id p p') (hne : p.merchantKey ≠ []) :
    p'.merchantKey ≠ [] ∨ ∃ i r old, s.saves i = .loaded id r old ∧ r.clearKey = ['1'] := by
  rcases h.key with hsame | ⟨i, _, r, old, -, hs, ⟨-, hclear⟩ | ⟨hnew, hkey⟩⟩
  · exact Or.inl (by rwa [hsame])
  · exact Or.inr ⟨i, r, old, hs, hclear⟩
  · exact Or.inl (by rwa [hkey])

/-- A call in flight after a step was in flight before it, or its request came with the step. -/
theorem Move.loaded (h : s.Move a s') {i : ℕ} {k : ℤ} {r : PayInput} {old : PayForm}
    (hs : s'.saves i = .loaded k r old) : s.saves i = .loaded k r old ∨ (a = .load i k r ∧
      (old.pem ≠ [] → 0 < k ∧ ∃ p, s.pays.get? k.toNat = some p ∧ p.merchantPem ≠ [])) := by
  have hset : ∀ {j : ℕ} {q : PaySave}, (s.setSave j q).saves i = .loaded k r old →
      (i = j ∧ q = .loaded k r old) ∨ s.saves i = .loaded k r old := by
    intro j q hj
    have hj : Function.update s.saves j q i = .loaded k r old := hj
    rw [Function.update_apply] at hj
    split_ifs at hj with hi
    · exact Or.inl ⟨hi, hj⟩
    · exact Or.inr hj
  cases h with
  | same | swept | seeded => exact Or.inl hs
  | answered | inserted | updated =>
      rcases hset hs with ⟨-, hq⟩ | hs
      · cases hq
      · exact Or.inl hs
  | began hold =>
      rcases hset hs with ⟨rfl, hq⟩ | hs
      · obtain ⟨rfl, rfl, rfl⟩ := PaySave.loaded.inj hq
        exact Or.inr ⟨rfl, hold⟩
      · exact Or.inl hs

end Moves

def tinyChannels : Table PayRow := .ofList [(1,
  ⟨"w".toList, "wescan".toList, 2, 3, "1900".toList, List.replicate 32 'k', "pem".toList,
    "/pay/wepay".toList, 0, false⟩)]

def tinyChannelForm (pem : Text) : PayInput :=
  ⟨[], "w".toList, "wescan".toList, ['2'], ['3'], "1900".toList, [], pem, "/pay/wepay".toList,
    ['1']⟩

/-- A new private key is stored between the reading and the writing of a form without one. -/
def staleSave : List PayAct :=
  [.load 0 1 (tinyChannelForm []), .load 1 1 (tinyChannelForm "new".toList), .write 1 2, .write 0 2]

end PayDesk
end Dufaka
