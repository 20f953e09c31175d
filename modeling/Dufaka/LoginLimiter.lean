import Dufaka.KeyMap
import Dufaka.Text

/-!
# The login limiter

An attempt of a client address is reserved before any password work and handed back when it could
not be evaluated; a failed password check of an account is recorded under a key of its own. The
entries of both kinds share one map, and an entry that no longer counts for anything is swept out of
it. A time is a number of nanoseconds since the zero time.
-/

namespace Dufaka
open Relational

structure LoginFails where
  count : ℕ
  first : ℕ
  blockedUntil : ℕ
  deriving DecidableEq

structure LoginLimiter where
  fails : KeyMap Text LoginFails
  calls : ℕ
  lastFullSweep : ℕ
  maxKeys : ℕ

def loginMaxFails : ℕ := 5

def loginUnknownMaxFails : ℕ := 50

def loginUnknownKey : Text := "ip:unknown".toList

def loginWindow : ℕ := 900000000000

def loginBlock : ℕ := 900000000000

def loginMaxKeys : ℕ := 10000

def loginFullSweepGap : ℕ := 1000000000

def loginSweepEvery : ℕ := 256

def LoginFails.expired (now : ℕ) (f : LoginFails) : Bool :=
  if now < f.blockedUntil then false else f.count = 0 || loginWindow < now - f.first

namespace LoginLimiter

def capacity (l : LoginLimiter) : ℕ := if 0 < l.maxKeys then l.maxKeys else loginMaxKeys

def sweep (l : LoginLimiter) (now : ℕ) : LoginLimiter :=
  { l with fails := l.fails.keep (fun f => !f.expired now) }

/-- The first part of `reserveMax`: every so many calls there is a sweep. -/
def countCall (l : LoginLimiter) (now : ℕ) : LoginLimiter :=
  let l := { l with calls := l.calls + 1 }
  if l.calls % loginSweepEvery = 0 then l.sweep now else l

def dropExpired (l : LoginLimiter) (now : ℕ) (key : Text) : LoginLimiter :=
  match l.fails.lookup key with
  | some f => if f.expired now then { l with fails := l.fails.erase key } else l
  | none => l

def sweepFull (l : LoginLimiter) (now : ℕ) : LoginLimiter :=
  if l.capacity ≤ l.fails.size then
    if loginFullSweepGap ≤ now - l.lastFullSweep then { l with lastFullSweep := now }.sweep now
      else l
  else l

/-- Take one attempt for an address key, and whether the login may be evaluated. -/
def reserveMax (l : LoginLimiter) (now : ℕ) (key : Text) (max : ℕ) : Bool × LoginLimiter :=
  let l := (l.countCall now).dropExpired now key
  match l.fails.lookup key with
  | none =>
      let l := l.sweepFull now
      if l.capacity ≤ l.fails.size then (false, l)
      else (true, { l with fails := l.fails.insert key ⟨1, now, 0⟩ })
  | some f =>
      if now < f.blockedUntil then (false, l)
      else if max ≤ f.count then
        (false, { l with fails := l.fails.insert key ⟨0, now, now + loginBlock⟩ })
      else (true, { l with fails := l.fails.insert key { f with count := f.count + 1 } })

def handBack (f : LoginFails) : LoginFails :=
  if 0 < f.count then { f with count := f.count - 1 } else f

def release (l : LoginLimiter) (now : ℕ) (key : Text) : LoginLimiter :=
  match l.fails.lookup key with
  | none => l
  | some f =>
      let f := handBack f
      let l := { l with fails := l.fails.insert key f }
      if f.expired now then { l with fails := l.fails.erase key } else l

def fail (l : LoginLimiter) (now : ℕ) (key : Text) : LoginLimiter :=
  let f : LoginFails := match l.fails.lookup key with
    | some f => if f.expired now then ⟨0, now, 0⟩ else f
    | none => ⟨0, now, 0⟩
  { l with fails := l.fails.insert key { f with count := f.count + 1 } }

def clear (l : LoginLimiter) (keys : List Text) : LoginLimiter :=
  { l with fails := keys.foldl (fun m k => m.erase k) l.fails }

/-! ### What a reservation does -/

def live (l : LoginLimiter) (now : ℕ) (key : Text) : Option LoginFails :=
  KeyMap.live (LoginFails.expired now) l.fails key

abbrev Trimmed (l : LoginLimiter) (now : ℕ) (m : KeyMap Text LoginFails) : Prop :=
  KeyMap.Swept (LoginFails.expired now) l.fails m

inductive Reserved (l : LoginLimiter) (now : ℕ) (key : Text) (max : ℕ) :
    Bool → KeyMap Text LoginFails → Prop
  | created {m : KeyMap Text LoginFails} (htrim : l.Trimmed now m) (hgone : l.live now key = none)
      (habsent : m.lookup key = none) (hroom : m.size < l.capacity) :
      Reserved l now key max true (m.insert key ⟨1, now, 0⟩)
  | full {m : KeyMap Text LoginFails} (htrim : l.Trimmed now m) (hgone : l.live now key = none)
      (habsent : m.lookup key = none) (hfull : l.capacity ≤ m.size) : Reserved l now key max false m
  | blocked {m : KeyMap Text LoginFails} {f : LoginFails} (htrim : l.Trimmed now m)
      (hlive : l.live now key = some f) (hkey : m.lookup key = some f) (hblocked : now <
        f.blockedUntil) :
      Reserved l now key max false m
  | exhausted {m : KeyMap Text LoginFails} {f : LoginFails} (htrim : l.Trimmed now m)
      (hlive : l.live now key = some f) (hkey : m.lookup key = some f)
      (hfree : f.blockedUntil ≤ now) (hspent : max ≤ f.count) :
      Reserved l now key max false (m.insert key ⟨0, now, now + loginBlock⟩)
  | counted {m : KeyMap Text LoginFails} {f : LoginFails} (htrim : l.Trimmed now m)
      (hlive : l.live now key = some f) (hkey : m.lookup key = some f)
      (hfree : f.blockedUntil ≤ now) (hleft : f.count < max) :
      Reserved l now key max true (m.insert key { f with count := f.count + 1 })

/-- The second limiter has a map with fewer expired entries, and the same capacity. -/
def Trims (l : LoginLimiter) (now : ℕ) (l' : LoginLimiter) : Prop :=
  l.Trimmed now l'.fails ∧ l'.maxKeys = l.maxKeys

theorem trims_refl (l : LoginLimiter) (now : ℕ) : l.Trims now l := ⟨KeyMap.Swept.refl _ _, rfl⟩

theorem Trims.trans {l₁ l₂ l₃ : LoginLimiter} {now : ℕ} (h : l₁.Trims now l₂)
    (h' : l₂.Trims now l₃) :
    l₁.Trims now l₃ := ⟨KeyMap.Swept.trans h.1 h'.1, h'.2.trans h.2⟩

theorem trims_sweep (l : LoginLimiter) (now : ℕ) : l.Trims now (l.sweep now) :=
  ⟨KeyMap.swept_keep _ _, rfl⟩

theorem trims_countCall (l : LoginLimiter) (now : ℕ) : l.Trims now (l.countCall now) := by
  simp only [countCall]
  split_ifs
  · exact trims_sweep { l with calls := l.calls + 1 } now
  · exact trims_refl l now

theorem trims_sweepFull (l : LoginLimiter) (now : ℕ) : l.Trims now (l.sweepFull now) := by
  unfold sweepFull
  split_ifs
  · exact trims_sweep { l with lastFullSweep := now } now
  · exact trims_refl l now
  · exact trims_refl l now

theorem trims_dropExpired (l : LoginLimiter) (now : ℕ) (key : Text) :
    l.Trims now (l.dropExpired now key) ∧
    (l.dropExpired now key).fails.lookup key = l.live now key := by
  unfold dropExpired live KeyMap.live
  cases hkey : l.fails.lookup key with
  | none => exact ⟨trims_refl l now, hkey⟩
  | some f =>
      cases hexpired : f.expired now with
      | true =>
          simp only [hexpired, if_true]
          refine ⟨⟨KeyMap.swept_erase hkey hexpired, rfl⟩, ?_⟩
          rw [AList.lookup_erase]
          simp [Option.filter, hexpired]
      | false =>
          simp only [hexpired, Bool.false_eq_true, if_false]
          refine ⟨trims_refl l now, ?_⟩
          rw [hkey]
          simp [Option.filter, hexpired]

theorem capacity_eq {l l' : LoginLimiter} (h : l'.maxKeys = l.maxKeys) :
    l'.capacity = l.capacity := by
  rw [capacity, capacity, h]

theorem reserveMax_reserved (l : LoginLimiter) (now : ℕ) (key : Text) (max : ℕ) :
    l.Reserved now key max (l.reserveMax now key max).1 (l.reserveMax now key max).2.fails := by
  have hcall := l.trims_countCall now
  obtain ⟨hdrop, hlookup⟩ := trims_dropExpired (l.countCall now) now key
  have htrim := hcall.trans hdrop
  have hlive : ((l.countCall now).dropExpired now key).fails.lookup key = l.live now key := by
    rw [hlookup]
    exact hcall.1.live_eq key
  unfold reserveMax
  generalize (l.countCall now).dropExpired now key = l₁ at htrim hlive ⊢
  cases hkey : l₁.fails.lookup key with
  | none =>
      have hgone : l.live now key = none := by rw [← hlive, hkey]
      have hfull := trims_sweepFull l₁ now
      have hall := htrim.trans hfull
      have habsent : (l₁.sweepFull now).fails.lookup key = none := hfull.1.lookup_none hkey
      have hcap := capacity_eq hall.2
      simp only [hkey]
      rw [hcap]
      split_ifs with hsize
      · exact Reserved.full hall.1 hgone habsent hsize
      · exact Reserved.created hall.1 hgone habsent (not_le.mp hsize)
  | some f =>
      have hlive' : l.live now key = some f := by rw [← hlive, hkey]
      simp only [hkey]
      split_ifs with hblocked hspent
      · exact Reserved.blocked htrim.1 hlive' hkey hblocked
      · exact Reserved.exhausted htrim.1 hlive' hkey (not_lt.mp hblocked) hspent
      · exact Reserved.counted htrim.1 hlive' hkey (not_lt.mp hblocked) (not_le.mp hspent)

end LoginLimiter

/-! ### Operations -/

/-- The key of a client address; behind a proxy that forwards none it is `ip:unknown`. -/
def ipKey (ip : Text) : Text := "ip:".toList ++ ip

def userKey (user : Text) : Text := "user:".toList ++ user

theorem ipKey_ne_userKey (ip user : Text) : ipKey ip ≠ userKey user := by
  intro h
  have hhead : (ipKey ip).head? = (userKey user).head? := by rw [h]
  have hi : (ipKey ip).head? = some 'i' := rfl
  have hu : (userKey user).head? = some 'u' := rfl
  rw [hi, hu] at hhead
  revert hhead
  decide

theorem ipKey_inj {ip ip' : Text} : ipKey ip = ipKey ip' ↔ ip = ip' := List.append_right_inj _

inductive LoginOp where
  | reserve (ip : Text)
  | release (ip : Text)
  | fail (user : Text)
  | clear (keys : List Text)

def LoginOp.Names (k : Text) : LoginOp → Prop
  | reserve ip => k = ipKey ip
  | release ip => k = ipKey ip
  | fail user => k = userKey user
  | clear keys => k ∈ keys

namespace LoginLimiter

def apply (budget : Text → ℕ) (l : LoginLimiter) (now : ℕ) : LoginOp → Bool × LoginLimiter
  | .reserve ip => l.reserveMax now (ipKey ip) (budget ip)
  | .release ip => (true, l.release now (ipKey ip))
  | .fail user => (true, l.fail now (userKey user))
  | .clear keys => (true, l.clear keys)

section Effects
variable {l : LoginLimiter} {now : ℕ} {key k : Text} {max : ℕ} {b : Bool}
  {m : KeyMap Text LoginFails} {op : LoginOp} {f : LoginFails} {ip : Text}

def Untouched (l : LoginLimiter) (now : ℕ) (m : KeyMap Text LoginFails) (k : Text) : Prop :=
  m.lookup k = l.fails.lookup k ∨
    ∃ f, l.fails.lookup k = some f ∧ f.expired now = true ∧ m.lookup k = none

theorem Reserved.other (h : l.Reserved now key max b m) (hk : k ≠ key) : l.Untouched now m k := by
  cases h with
  | created htrim =>
      rw [Untouched, AList.lookup_insert_ne hk]
      exact htrim.lookup k
  | full htrim => exact htrim.lookup k
  | blocked htrim => exact htrim.lookup k
  | exhausted htrim =>
      rw [Untouched, AList.lookup_insert_ne hk]
      exact htrim.lookup k
  | counted htrim =>
      rw [Untouched, AList.lookup_insert_ne hk]
      exact htrim.lookup k

/-- A reservation for an entry that still counts or is blocked. -/
theorem Reserved.of_live (h : l.Reserved now key max b m) (hf : l.live now key = some f) :
    (now < f.blockedUntil ∧ b = false ∧ m.lookup key = some f) ∨
      (f.blockedUntil ≤ now ∧ max ≤ f.count ∧ b = false ∧
        m.lookup key = some ⟨0, now, now + loginBlock⟩) ∨
      (f.blockedUntil ≤ now ∧ f.count < max ∧ b = true ∧
        m.lookup key = some { f with count := f.count + 1 }) := by
  cases h with
  | created _ hgone =>
      rw [hf] at hgone
      cases hgone
  | full _ hgone =>
      rw [hf] at hgone
      cases hgone
  | blocked _ hlive hkey hblocked =>
      rw [hf] at hlive
      obtain rfl := Option.some.inj hlive
      exact Or.inl ⟨hblocked, rfl, hkey⟩
  | exhausted _ hlive _ hfree hspent =>
      rw [hf] at hlive
      obtain rfl := Option.some.inj hlive
      exact Or.inr (Or.inl ⟨hfree, hspent, rfl, AList.lookup_insert _⟩)
  | counted _ hlive _ hfree hleft =>
      rw [hf] at hlive
      obtain rfl := Option.some.inj hlive
      exact Or.inr (Or.inr ⟨hfree, hleft, rfl, AList.lookup_insert _⟩)

/-- A reservation for a new entry, or for one that is expired. -/
theorem Reserved.of_gone (h : l.Reserved now key max b m) (hgone : l.live now key = none) :
    (b = true ∧ m.lookup key = some ⟨1, now, 0⟩ ∧ m.size ≤ l.capacity) ∨
      (b = false ∧ m.lookup key = none) := by
  cases h with
  | created _ _ habsent hroom =>
      left
      refine ⟨rfl, AList.lookup_insert _, ?_⟩
      rw [KeyMap.size_insert_of_none habsent]
      exact hroom
  | full _ _ habsent => exact Or.inr ⟨rfl, habsent⟩
  | blocked _ hlive =>
      rw [hgone] at hlive
      cases hlive
  | exhausted _ hlive =>
      rw [hgone] at hlive
      cases hlive
  | counted _ hlive =>
      rw [hgone] at hlive
      cases hlive

theorem release_lookup_of_ne (hk : k ≠ key) :
    (l.release now key).fails.lookup k = l.fails.lookup k := by
  unfold release
  cases l.fails.lookup key with
  | none => rfl
  | some f =>
      simp only []
      split_ifs
      · rw [AList.lookup_erase_ne hk, AList.lookup_insert_ne hk]
      · rw [AList.lookup_insert_ne hk]

theorem fail_lookup_of_ne (hk : k ≠ key) : (l.fail now key).fails.lookup k = l.fails.lookup k :=
  AList.lookup_insert_ne hk

/-- A call leaves the entries of the other keys, up to its sweeps. -/
theorem apply_untouched (budget : Text → ℕ) (hk : ¬ op.Names k) :
    l.Untouched now (l.apply budget now op).2.fails k := by
  cases op with
  | reserve ip => exact (l.reserveMax_reserved now (ipKey ip) (budget ip)).other hk
  | release ip => exact Or.inl (release_lookup_of_ne hk)
  | fail user => exact Or.inl (fail_lookup_of_ne hk)
  | clear keys =>
      left
      change (keys.foldl (fun m k => m.erase k) l.fails).lookup k = _
      rw [KeyMap.lookup_foldl_erase]
      exact if_neg hk

/-- An entry that still counts or is blocked stays as it is while other keys are called. -/
theorem apply_live (budget : Text → ℕ) (hk : ¬ op.Names k) (hf : l.fails.lookup k = some f)
    (hlive : f.expired now = false) :
    (l.apply budget now op).2.fails.lookup k = some f := by
  rcases apply_untouched budget hk with heq | ⟨f', hf', hexpired, -⟩
  · rw [heq, hf]
  · rw [hf] at hf'
    rw [Option.some.inj hf', hexpired] at hlive
    cases hlive

end Effects

/-! ### Lives -/

def recorded (l : LoginLimiter) (key : Text) : ℕ :=
  match l.fails.lookup key with
  | some f => f.count
  | none => 0

end LoginLimiter

/-- The bookkeeping of one life of an address entry: the attempts granted, the releases, and those
of them that lowered the count. -/
structure Life where
  grants : ℕ
  effective : ℕ
  releases : ℕ

namespace LoginLimiter

/-- What a call on the entry of an address adds to its life, when the entry is alive after the
call. -/
def bookLife (budget : Text → ℕ) (l : LoginLimiter) (now : ℕ) (ip : Text) (life : Option Life) :
    LoginOp → Option Life
  | .reserve ip' =>
      if ip' = ip ∧ (l.apply budget now (.reserve ip')).1 = true then
        match l.live now (ipKey ip) with
        | none => some ⟨1, 0, 0⟩
        | some _ => life.map (fun L => { L with grants := L.grants + 1 })
      else life
  | .release ip' =>
      if ip' = ip then
        life.map (fun L => { L with
          effective := L.effective +
            (l.recorded (ipKey ip) - (l.apply budget now (.release ip')).2.recorded (ipKey ip))
          releases := L.releases + 1 })
      else life
  | .fail _ => life
  | .clear _ => life

/-- The life of the entry of an address after a call: it ends when the entry is removed or
blocked. -/
def nextLife (budget : Text → ℕ) (l : LoginLimiter) (now : ℕ) (op : LoginOp) (ip : Text)
    (life : Option Life) : Option Life :=
  match (l.apply budget now op).2.fails.lookup (ipKey ip) with
  | none => none
  | some f => if f.blockedUntil = 0 then l.bookLife budget now ip life op else none

inductive Accounted (max : ℕ) : Option LoginFails → Option Life → Prop
  | absent : Accounted max none none
  | blocked {f : LoginFails} (huntil : f.blockedUntil ≠ 0) (hcount : f.count = 0) :
      Accounted max (some f) none
  | alive {f : LoginFails} {L : Life} (huntil : f.blockedUntil = 0)
      (hcount : f.count + L.effective = L.grants) (heffective : L.effective ≤ L.releases)
      (hpos : 0 < f.count) (hmax : f.count ≤ max) : Accounted max (some f) (some L)

section Accounting
variable {l : LoginLimiter} {now : ℕ} {op : LoginOp} {f : LoginFails} {ip : Text} {max : ℕ}
  {life : Option Life}

theorem bookLife_of_not_names (budget : Text → ℕ) (h : ¬ op.Names (ipKey ip)) :
    l.bookLife budget now ip life op = life := by
  cases op with
  | reserve ip' =>
      have hne : ip' ≠ ip := fun he => h (by rw [he]; rfl)
      exact if_neg (fun hc => hne hc.1)
  | release ip' =>
      have hne : ip' ≠ ip := fun he => h (by rw [he]; rfl)
      exact if_neg hne
  | fail user => rfl
  | clear keys => rfl

/-- A call on other keys leaves an account as it is, or closes it. -/
theorem accounted_other (budget : Text → ℕ) (h : Accounted max (l.fails.lookup (ipKey ip)) life)
    (hop : ¬ op.Names (ipKey ip)) :
    Accounted max ((l.apply budget now op).2.fails.lookup (ipKey ip))
      (l.nextLife budget now op ip life) := by
  rw [nextLife, bookLife_of_not_names budget hop]
  rcases apply_untouched budget hop with heq | ⟨f, -, -, hnone⟩
  · rw [heq]
    generalize l.fails.lookup (ipKey ip) = entry at h ⊢
    cases h with
    | absent => exact Accounted.absent
    | blocked huntil hcount =>
        simp only [huntil, if_false]
        exact Accounted.blocked huntil hcount
    | alive huntil hcount heffective hpos hmax =>
        simp only [huntil, if_true]
        exact Accounted.alive huntil hcount heffective hpos hmax
  · rw [hnone]
    exact Accounted.absent

/-- An entry that is past its block is expired. -/
theorem Accounted.until_of_live (h : Accounted max (some f) life) (hlive : f.expired now = false)
    (hfree : f.blockedUntil ≤ now) : f.blockedUntil = 0 := by
  cases h with
  | blocked huntil hcount =>
      rw [LoginFails.expired, if_neg (not_lt.mpr hfree), hcount] at hlive
      cases hlive
  | alive huntil => exact huntil

theorem apply_reserved (budget : Text → ℕ) (l : LoginLimiter) (now : ℕ) (ip : Text) :
    l.Reserved now (ipKey ip) (budget ip) (l.apply budget now (.reserve ip)).1
      (l.apply budget now (.reserve ip)).2.fails := l.reserveMax_reserved now (ipKey ip) (budget ip)

theorem accounted_reserve {budget : Text → ℕ} (hbudget : 1 ≤ budget ip)
    (h : Accounted (budget ip) (l.fails.lookup (ipKey ip)) life) :
    Accounted (budget ip) ((l.apply budget now (.reserve ip)).2.fails.lookup (ipKey ip))
      (l.nextLife budget now (.reserve ip) ip life) := by
  have hstep := apply_reserved budget l now ip
  rw [nextLife, bookLife]
  generalize (l.apply budget now (.reserve ip)).1 = b at hstep ⊢
  generalize (l.apply budget now (.reserve ip)).2.fails = m at hstep ⊢
  cases hlive : l.live now (ipKey ip) with
  | none =>
      rcases hstep.of_gone hlive with ⟨rfl, hkey, -⟩ | ⟨rfl, hkey⟩
      · simp only [hkey, and_self, if_true]
        exact Accounted.alive rfl rfl le_rfl Nat.one_pos hbudget
      · rw [hkey]
        exact Accounted.absent
  | some f =>
      obtain ⟨hf, hcounting⟩ := KeyMap.live_eq_some.mp hlive
      rw [hf] at h
      rcases hstep.of_live hlive with ⟨hblocked, rfl, hkey⟩ | ⟨-, -, rfl, hkey⟩ | ⟨hfree, hleft,
        rfl, hkey⟩
      · have huntil : f.blockedUntil ≠ 0 := by omega
        simp only [hkey, huntil, if_false]
        cases h with
        | blocked _ hcount => exact Accounted.blocked huntil hcount
        | alive hzero => exact absurd hzero huntil
      · have huntil : now + loginBlock ≠ 0 := by
          have hblock : 0 < loginBlock := by decide
          omega
        simp only [hkey, huntil, if_false]
        exact Accounted.blocked huntil rfl
      · have huntil := h.until_of_live hcounting hfree
        simp only [hkey, huntil, and_self, if_true]
        cases h with
        | blocked hne => exact absurd huntil hne
        | alive _ hcount heffective hpos hmax =>
            refine Accounted.alive rfl ?_ heffective (Nat.succ_pos _) hleft
            simp only []
            omega

theorem release_lookup (now : ℕ) (hf : l.fails.lookup (ipKey ip) = some f) :
    (l.release now (ipKey ip)).fails.lookup (ipKey ip) =
      if (handBack f).expired now then none else some (handBack f) := by
  rw [release, hf]
  simp only []
  split_ifs
  · exact AList.lookup_erase _ _
  · exact AList.lookup_insert _

theorem accounted_release (budget : Text → ℕ) (h : Accounted max (l.fails.lookup (ipKey ip)) life) :
    Accounted max ((l.apply budget now (.release ip)).2.fails.lookup (ipKey ip))
      (l.nextLife budget now (.release ip) ip life) := by
  rw [nextLife, bookLife, if_pos rfl]
  change Accounted max ((l.release now (ipKey ip)).fails.lookup (ipKey ip))
    (match (l.release now (ipKey ip)).fails.lookup (ipKey ip) with
      | none => none
      | some f => if f.blockedUntil = 0 then life.map (fun L => { L with
          effective := L.effective +
            (l.recorded (ipKey ip) - (l.release now (ipKey ip)).recorded (ipKey ip))
          releases := L.releases + 1 }) else none)
  unfold recorded
  cases hf : l.fails.lookup (ipKey ip) with
  | none =>
      have hsame : l.release now (ipKey ip) = l := by rw [release, hf]
      rw [hsame, hf]
      exact Accounted.absent
  | some f =>
      rw [hf] at h
      rw [release_lookup now hf]
      by_cases hexpired : (handBack f).expired now = true
      · rw [if_pos hexpired]
        exact Accounted.absent
      · rw [if_neg hexpired]
        cases h with
        | blocked huntil hcount =>
            have hsame : handBack f = f := if_neg (by omega)
            simp only [hsame, huntil, if_false]
            exact Accounted.blocked huntil hcount
        | @alive _ L huntil hcount heffective hpos hmax =>
            have hback : handBack f = { f with count := f.count - 1 } := if_pos hpos
            have hleft : f.count - 1 ≠ 0 := by
              intro hzero
              apply hexpired
              rw [hback, LoginFails.expired]
              simp [huntil, hzero]
            simp only [hback, huntil, if_true, Option.map_some]
            refine Accounted.alive rfl ?_ ?_ ?_ ?_
            · simp only []
              omega
            · simp only []
              omega
            · exact Nat.pos_of_ne_zero hleft
            · simp only []
              omega

/-- Every call keeps the accounts of every address. -/
theorem accounted_apply {budget : Text → ℕ} (hbudget : 1 ≤ budget ip)
    (h : Accounted (budget ip) (l.fails.lookup (ipKey ip)) life) :
    Accounted (budget ip) ((l.apply budget now op).2.fails.lookup (ipKey ip))
      (l.nextLife budget now op ip life) := by
  by_cases hop : op.Names (ipKey ip)
  · cases op with
    | reserve ip' =>
        obtain rfl := ipKey_inj.mp hop
        exact accounted_reserve hbudget h
    | release ip' =>
        obtain rfl := ipKey_inj.mp hop
        exact accounted_release budget h
    | fail user => exact absurd hop (ipKey_ne_userKey ip user)
    | clear keys =>
        have hgone : (l.apply budget now (.clear keys)).2.fails.lookup (ipKey ip) = none := by
          change (keys.foldl (fun m k => m.erase k) l.fails).lookup (ipKey ip) = none
          rw [KeyMap.lookup_foldl_erase]
          exact if_pos hop
        rw [nextLife, hgone]
        exact Accounted.absent
  · exact accounted_other budget h hop

end Accounting
/-! ### One call -/

section Calls
variable {budget : Text → ℕ} {l : LoginLimiter} {now : ℕ} {op : LoginOp} {f : LoginFails}
  {ip k : Text}

def Exhausted (l : LoginLimiter) (now : ℕ) (ip : Text) (max : ℕ) : Prop :=
  ∃ f, l.live now (ipKey ip) = some f ∧ f.blockedUntil ≤ now ∧ max ≤ f.count

theorem apply_exhausted (h : l.Exhausted now ip (budget ip)) :
    (l.apply budget now (.reserve ip)).2.fails.lookup (ipKey ip) = some ⟨0, now,
      now + loginBlock⟩ := by
  obtain ⟨f, hf, hfree, hspent⟩ := h
  rcases (apply_reserved budget l now ip).of_live hf with ⟨hblocked, -⟩ | ⟨-, -, -, hkey⟩ | ⟨-,
    hleft, -⟩
  · omega
  · exact hkey
  · omega

/-- A blocked entry stays as it is until the block is over, unless it is cleared. -/
theorem apply_blocked (hf : l.fails.lookup (ipKey ip) = some f) (hcount : f.count = 0)
    (hblocked : now < f.blockedUntil) (hclear : ∀ keys, op = .clear keys → ipKey ip ∉ keys) :
    (l.apply budget now op).2.fails.lookup (ipKey ip) = some f ∧
      (op = .reserve ip → (l.apply budget now op).1 = false) := by
  have hcounting : f.expired now = false := if_pos hblocked
  by_cases hop : op.Names (ipKey ip)
  · cases op with
    | reserve ip' =>
        obtain rfl := ipKey_inj.mp hop
        have hlive : l.live now (ipKey ip) = some f := KeyMap.live_eq_some.mpr ⟨hf, hcounting⟩
        rcases (apply_reserved budget l now ip).of_live hlive with ⟨-, hno, hkey⟩ | ⟨hfree,
          -⟩ | ⟨hfree, -⟩
        · exact ⟨hkey, fun _ => hno⟩
        · omega
        · omega
    | release ip' =>
        obtain rfl := ipKey_inj.mp hop
        have hsame : handBack f = f := if_neg (by omega)
        refine ⟨?_, nofun⟩
        change (l.release now (ipKey ip)).fails.lookup (ipKey ip) = some f
        rw [release_lookup now hf, hsame, hcounting]
        rfl
    | fail user => exact absurd hop (ipKey_ne_userKey ip user)
    | clear keys => exact absurd hop (hclear keys rfl)
  · refine ⟨apply_live budget hop hf hcounting, ?_⟩
    rintro rfl
    exact absurd rfl hop

end Calls

structure CallBounds (budget : Text → ℕ) (l : LoginLimiter) (now : ℕ) (op : LoginOp) : Prop where
  refusedAddsNothing : ∀ ip, op = .reserve ip → (l.apply budget now op).1 = false →
    ∀ k, l.fails.lookup k = none → (l.apply budget now op).2.fails.lookup k = none
  othersKept : ∀ k f, l.live now k = some f → ¬ op.Names k →
    (l.apply budget now op).2.fails.lookup k = some f
  notSwept : ∀ k, l.live now k ≠ none → (∀ ip, op = .release ip → k ≠ ipKey ip) →
    (∀ keys, op = .clear keys → k ∉ keys) → (l.apply budget now op).2.fails.lookup k ≠ none
  createdBelowCapacity : ∀ ip, op = .reserve ip → l.live now (ipKey ip) = none →
    (l.apply budget now op).2.fails.lookup (ipKey ip) ≠ none →
    (l.apply budget now op).2.fails.size ≤ l.capacity
  createdByReservation : ∀ ip, l.fails.lookup (ipKey ip) = none →
    (l.apply budget now op).2.fails.lookup (ipKey ip) ≠ none →
    op = .reserve ip ∧ (l.apply budget now op).1 = true

theorem untouched_none {l : LoginLimiter} {now : ℕ} {m : KeyMap Text LoginFails} {k : Text}
    (h : l.Untouched now m k) (hk : l.fails.lookup k = none) : m.lookup k = none := by
  rcases h with heq | ⟨f, hf, -, -⟩
  · rw [heq, hk]
  · rw [hk] at hf
    cases hf

theorem live_none {l : LoginLimiter} {now : ℕ} {k : Text} (hk : l.fails.lookup k = none) :
    l.live now k = none := by
  rw [live, KeyMap.live, hk]
  rfl

theorem callBounds (budget : Text → ℕ) (l : LoginLimiter) (now : ℕ) (op : LoginOp) :
    l.CallBounds budget now op := by
  refine ⟨?_, ?_, ?_, ?_, ?_⟩
  · rintro ip rfl hno k hk
    by_cases hkey : k = ipKey ip
    · subst hkey
      rcases (apply_reserved budget l now ip).of_gone (live_none hk) with ⟨hyes, -⟩ | ⟨-, hnone⟩
      · rw [hyes] at hno
        cases hno
      · exact hnone
    · exact untouched_none (apply_untouched budget hkey) hk
  · intro k f hlive hop
    obtain ⟨hf, hcounting⟩ := KeyMap.live_eq_some.mp hlive
    exact apply_live budget hop hf hcounting
  · intro k hlive hrelease hclear
    obtain ⟨f, hlive⟩ := Option.ne_none_iff_exists'.mp hlive
    obtain ⟨hf, hcounting⟩ := KeyMap.live_eq_some.mp hlive
    by_cases hop : op.Names k
    · cases op with
      | reserve ip =>
          obtain rfl : k = ipKey ip := hop
          rcases (apply_reserved budget l now ip).of_live hlive with ⟨-, -, hkey⟩ | ⟨-, -, -,
            hkey⟩ | ⟨-, -, -, hkey⟩
          all_goals
            rw [hkey]
            exact Option.some_ne_none _
      | release ip => exact absurd hop (hrelease ip rfl)
      | fail user =>
          obtain rfl : k = userKey user := hop
          change (AList.insert _ _ l.fails).lookup (userKey user) ≠ none
          rw [AList.lookup_insert]
          exact Option.some_ne_none _
      | clear keys => exact absurd hop (hclear keys rfl)
    · rw [apply_live budget hop hf hcounting]
      exact Option.some_ne_none f
  · rintro ip rfl hgone hpresent
    rcases (apply_reserved budget l now ip).of_gone hgone with ⟨-, -, hsize⟩ | ⟨-, hnone⟩
    · exact hsize
    · exact absurd hnone hpresent
  · intro ip hk hpresent
    by_cases hop : op.Names (ipKey ip)
    · cases op with
      | reserve ip' =>
          obtain rfl := ipKey_inj.mp hop
          rcases (apply_reserved budget l now ip).of_gone (live_none hk) with ⟨hyes, -⟩ | ⟨-, hnone⟩
          · exact ⟨rfl, hyes⟩
          · exact absurd hnone hpresent
      | release ip' =>
          obtain rfl := ipKey_inj.mp hop
          have hsame : l.release now (ipKey ip) = l := by rw [release, hk]
          change (l.release now (ipKey ip)).fails.lookup (ipKey ip) ≠ none at hpresent
          rw [hsame] at hpresent
          exact absurd hk hpresent
      | fail user => exact absurd hop (ipKey_ne_userKey ip user)
      | clear keys =>
          change (keys.foldl (fun m k => m.erase k) l.fails).lookup (ipKey ip) ≠ none at hpresent
          rw [KeyMap.lookup_foldl_erase] at hpresent
          exact absurd (if_pos hop) hpresent
    · exact absurd (untouched_none (apply_untouched budget hop) hk) hpresent

end LoginLimiter

/-! ### Runs -/

structure LoginRun where
  limiter : LoginLimiter
  life : Text → Option Life

def runLogins (budget : Text → ℕ) (maxKeys : ℕ) (events : List (ℕ × LoginOp)) : LoginRun :=
  events.foldl
    (fun s e => ⟨(s.limiter.apply budget e.1 e.2).2,
      fun ip => s.limiter.nextLife budget e.1 e.2 ip (s.life ip)⟩)
    ⟨⟨∅, 0, 0, maxKeys⟩, fun _ => none⟩

theorem runLogins_snoc (budget : Text → ℕ) (maxKeys : ℕ) (events : List (ℕ × LoginOp)) (now : ℕ)
    (op : LoginOp) : runLogins budget maxKeys (events ++ [(now, op)]) =
      ⟨((runLogins budget maxKeys events).limiter.apply budget now op).2, fun ip =>
        (runLogins budget maxKeys events).limiter.nextLife budget now op ip
          ((runLogins budget maxKeys events).life ip)⟩ := by
  rw [runLogins, List.foldl_append]
  rfl

structure LoginBounds (budget : Text → ℕ) (maxKeys : ℕ) (events : List (ℕ × LoginOp)) : Prop where
  accounts : ∀ ip, LoginLimiter.Accounted (budget ip)
    ((runLogins budget maxKeys events).limiter.fails.lookup (ipKey ip))
    ((runLogins budget maxKeys events).life ip)
  granted : ∀ ip L, (runLogins budget maxKeys events).life ip = some L →
    L.grants ≤ budget ip + L.releases
  blocked : ∀ pre now ip mid now' post,
    events = pre ++ (now, .reserve ip) :: mid ++ (now', .reserve ip) :: post →
    (runLogins budget maxKeys pre).limiter.Exhausted now ip (budget ip) →
    (∀ e ∈ mid, ∀ keys, e.2 = .clear keys → ipKey ip ∉ keys) → now' < now + loginBlock →
    ((runLogins budget maxKeys (pre ++ (now, .reserve ip) :: mid)).limiter.apply budget now'
      (.reserve ip)).1 = false
  calls : ∀ pre now op post, events = pre ++ (now, op) :: post →
    (runLogins budget maxKeys pre).limiter.CallBounds budget now op

theorem runLogins_accounted {budget : Text → ℕ} (hbudget : ∀ ip, 1 ≤ budget ip) (maxKeys : ℕ)
    (events : List (ℕ × LoginOp)) (ip : Text) :
    LoginLimiter.Accounted (budget ip)
      ((runLogins budget maxKeys events).limiter.fails.lookup (ipKey ip))
      ((runLogins budget maxKeys events).life ip) := by
  induction events using List.reverseRecOn with
  | nil => exact LoginLimiter.Accounted.absent
  | append_singleton events e ih =>
      obtain ⟨now, op⟩ := e
      rw [runLogins_snoc]
      exact LoginLimiter.accounted_apply (hbudget ip) ih

/-- A block lasts over the calls until its end. -/
theorem runLogins_blocked {budget : Text → ℕ} {maxKeys : ℕ} {pre mid : List (ℕ × LoginOp)}
    {ip : Text} {f : LoginFails}
    (hf : (runLogins budget maxKeys pre).limiter.fails.lookup (ipKey ip) = some f)
    (hcount : f.count = 0) (htime : ∀ e ∈ mid, e.1 < f.blockedUntil)
    (hclear : ∀ e ∈ mid, ∀ keys, e.2 = .clear keys → ipKey ip ∉ keys) :
    (runLogins budget maxKeys (pre ++ mid)).limiter.fails.lookup (ipKey ip) = some f := by
  induction mid using List.reverseRecOn with
  | nil => rwa [List.append_nil]
  | append_singleton mid e ih =>
      obtain ⟨now, op⟩ := e
      have hbefore := ih (fun e he => htime e (by simp [he])) (fun e he => hclear e (by simp [he]))
      rw [← List.append_assoc, runLogins_snoc]
      exact (LoginLimiter.apply_blocked hbefore hcount (htime (now, op) (by simp))
        (hclear (now, op) (by simp))).1

/-- The login limiter keeps its bounds over every interleaving of calls whose clock never goes
back. -/
theorem login_limiter_bounds (budget : Text → ℕ) (hbudget : ∀ ip, 1 ≤ budget ip) (maxKeys : ℕ)
    (events : List (ℕ × LoginOp)) (hclock : (events.map Prod.fst).Pairwise (· ≤ ·)) :
    LoginBounds budget maxKeys events := by
  refine ⟨runLogins_accounted hbudget maxKeys events, ?_, ?_, ?_⟩
  · intro ip L hL
    have haccount := runLogins_accounted hbudget maxKeys events ip
    rw [hL] at haccount
    generalize (runLogins budget maxKeys events).limiter.fails.lookup (ipKey ip) = entry at haccount
    cases haccount with
    | alive _ hcount heffective _ hmax => omega
  · rintro pre now ip mid now' post rfl hexhausted hclear hlater
    have htimes : ∀ e ∈ mid, e.1 ≤ now' := by
      intro e he
      rw [List.map_append, List.pairwise_append] at hclock
      exact hclock.2.2 e.1 (by simp [List.mem_map_of_mem he]) now' (by simp)
    have hfirst : (runLogins budget maxKeys (pre ++ [(now, .reserve ip)])).limiter.fails.lookup
        (ipKey ip) = some ⟨0, now, now + loginBlock⟩ := by
      rw [runLogins_snoc]
      exact LoginLimiter.apply_exhausted hexhausted
    have hblocked : (runLogins budget maxKeys (pre ++ [(now, .reserve ip)] ++
        mid)).limiter.fails.lookup
        (ipKey ip) = some ⟨0, now, now + loginBlock⟩ :=
      runLogins_blocked hfirst rfl (fun e he => lt_of_le_of_lt (htimes e he) hlater) hclear
    rw [List.append_assoc] at hblocked
    exact (LoginLimiter.apply_blocked hblocked rfl hlater (by nofun)).2 rfl
  · rintro pre now op post rfl
    exact LoginLimiter.callBounds budget _ now op

def loginBudget (ip : Text) : ℕ :=
  if ipKey ip = loginUnknownKey then loginUnknownMaxFails else loginMaxFails

def sixAttempts : List (ℕ × LoginOp) := List.replicate 6 (5, .reserve "a".toList)

theorem login_limiter_bounds_six :
    ((runLogins loginBudget 0 sixAttempts).limiter.apply loginBudget 60000000000
      (.reserve "a".toList)).1 = false := by
  have hbudget : ∀ ip, 1 ≤ loginBudget ip := by
    intro ip
    unfold loginBudget
    split_ifs
    · decide
    · decide
  have hexhausted : (runLogins loginBudget 0
      (List.replicate 5 (5, .reserve "a".toList))).limiter.Exhausted
      5 "a".toList (loginBudget "a".toList) := ⟨⟨5, 5, 0⟩, by decide⟩
  exact (login_limiter_bounds loginBudget hbudget 0
    (sixAttempts ++ [(60000000000, .reserve "a".toList)]) (by decide)).blocked
    (List.replicate 5 (5, .reserve "a".toList)) 5 "a".toList [] 60000000000 [] rfl hexhausted
      (by nofun)
    (by decide)

end Dufaka
