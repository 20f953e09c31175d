import Dufaka.Settings
import Dufaka.Machine
import Dufaka.SessionLocks

/-!
# Concurrent settings saves

Any number of `settingsSave` requests, statement by statement. A request locks the keys in the order
in which it visits its map and writes all of them, so a commit rewrites the whole form, and at most
one request holds locks while the requests in flight visit their maps in one order.
-/

namespace Dufaka
open Relational

/-- A request with a form that passes the checks, and the order in which `range` visits its map. -/
structure SettingsRequest where
  form : Text → Text
  order : List Text
  perm : order.Perm settingKeys
  valid : settingsError (settingValues (fun _ => none) form) = none

abbrev SettingsRow : Text → Type := fun _ => Option Text

abbrev SettingsSession := Session SettingsRequest Settings SettingsRow (Option Text)

abbrev SettingsConfig := Config SettingsRequest Settings SettingsRow (Option Text)

abbrev SettingsAction := Action SettingsRequest Empty

def settingsSystem : System SettingsRequest Empty Settings SettingsRow (Option Text) where
  prog r old := settingsSave r.form r.order old
  tick e _ := nomatch e

def passwordKey : Text := "password".toList

/-! ### The form -/

theorem key_of_password : ∀ f ∈ settingFields, f.kind = .password → f.key = passwordKey := by
  decide

theorem SettingField.value_congr {f : SettingField} {old old' : Settings} {form : Text → Text}
    (h : f.kind = .password → form f.key = [] → (old f.key).getD [] = (old' f.key).getD []) :
    f.value old form = f.value old' form := by
  cases hk : f.kind with
  | password =>
      by_cases hraw : form f.key = []
      · simp only [SettingField.value, hk, hraw, if_pos, h hk hraw]
      · simp only [SettingField.value, hk, if_neg hraw]
  | text | textarea | select | switch => simp only [SettingField.value, hk]

/-- Only a blank password depends on what was read before. -/
theorem settingValues_congr {old old' : Settings} {form : Text → Text} {key : Text}
    (h : key = passwordKey → form passwordKey = [] →
      (old passwordKey).getD [] = (old' passwordKey).getD []) :
    settingValues old form key = settingValues old' form key := by
  rw [settingValues, settingValues]
  cases hf : settingFields.find? (fun f => f.key = key) with
  | none => rfl
  | some f =>
      have hmem : f ∈ settingFields := List.mem_of_find?_eq_some hf
      have hkey : f.key = key := by simpa using List.find?_some hf
      refine SettingField.value_congr (fun hkind hraw => ?_)
      have hpw : f.key = passwordKey := key_of_password f hmem hkind
      rw [hpw] at hraw ⊢
      exact h (hkey.symm.trans hpw) hraw

theorem settingValues_password {old : Settings} {form : Text → Text} (h : form passwordKey = []) :
    settingValues old form passwordKey = (old passwordKey).getD [] := by
  have hf : settingFields.find? (fun f => f.key = passwordKey) = some ⟨passwordKey, .password⟩ := by
    rfl
  simp only [settingValues, hf, SettingField.value, h, if_pos]

theorem SettingsRequest.accepted (r : SettingsRequest) (old : Settings) :
    settingsError (settingValues old r.form) = none := by
  have hother : ∀ key, key ≠ passwordKey →
      settingValues old r.form key = settingValues (fun _ => none) r.form key :=
    fun key hne => settingValues_congr (fun heq => (hne heq).elim)
  have hvalid := r.valid
  unfold settingsError at hvalid ⊢
  rwa [hother _ (by decide), hother _ (by decide), hother _ (by decide), hother _ (by decide),
    hother _ (by decide)]

theorem settingsSystem_prog (r : SettingsRequest) (old : Settings) :
    settingsSystem.prog r old = saveSettings (settingValues old r.form) r.order := by
  change settingsSave r.form r.order old = _
  simp only [settingsSave, applySettings, r.accepted old]

/-! ### One request -/

def Settings.store (d : Settings) (keys : List Text) (vals : Text → Text) : Settings :=
  fun key => if key ∈ keys then some (vals key) else d key

theorem store_cons (d : Settings) (key : Text) (keys : List Text) (vals : Text → Text) :
    Settings.store (Function.update d key (some (vals key))) keys vals =
      Settings.store d (key :: keys) vals := by
  funext key'
  simp only [Settings.store, List.mem_cons]
  by_cases hkey : key' = key
  · by_cases hmem : key ∈ keys <;> simp [hkey, hmem]
  · simp [hkey]

theorem run_saveSettings (vals : Text → Text) (order : List Text) (ids : ℕ → ℕ) (d : Settings) :
    (saveSettings vals order).run ids d = .done true none (Settings.store d order vals) := by
  induction order generalizing d with
  | nil => rfl
  | cons key order ih =>
      rw [← store_cons]
      exact ih (Function.update d key (some (vals key)))

def saveAlone (d : Settings) (r : SettingsRequest) : Settings :=
  ((settingsSystem.prog r d).exec id d).1

theorem saveAlone_eq (d : Settings) (r : SettingsRequest) :
    saveAlone d r = Settings.store d settingKeys (settingValues d r.form) := by
  have hrun := run_saveSettings (settingValues d r.form) r.order id d
  have halone : saveAlone d r = Settings.store d r.order (settingValues d r.form) := by
    rw [saveAlone, settingsSystem_prog, Tx.exec, hrun]
  rw [halone]
  funext key
  simp only [Settings.store, r.perm.mem_iff]

/-- A request in flight that read `old`, wrote and locked the keys of `done`, and has `rest` to
write. -/
structure SaveState (s : SettingsSession) (old : Settings) (done rest : List Text) : Prop where
  order : s.tag.order = done ++ rest
  prog : s.prog = saveSettings (settingValues old s.tag.form) rest
  writes : s.writes = (done.map (fun key => ⟨key, some (settingValues old s.tag.form key)⟩)).reverse
  locks : s.locks.map Prod.fst = done.reverse
  exclusive : ∀ l ∈ s.locks, l.2.exclusive = true

variable {s s' : SettingsSession} {old d : Settings} {done rest : List Text} {c c' : SettingsConfig}
  {t : ℕ} {choice : List ℕ}

theorem SaveState.start (r : SettingsRequest) (old : Settings) :
    SaveState ⟨r, settingsSystem.prog r old, [], []⟩ old [] r.order :=
  ⟨rfl, settingsSystem_prog r old, rfl, rfl, by simp⟩

theorem SaveState.mem_locks (h : SaveState s old done rest) {key : Text} :
    (∃ l ∈ s.locks, l.1 = key) ↔ key ∈ done := by
  rw [← List.mem_reverse, ← h.locks, List.mem_map]

theorem view_writes (d : Settings) (vals : Text → Text) (done : List Text) :
    view d (done.map (fun key =>
      (⟨key, some (vals key)⟩ : (key : Text) × SettingsRow key))).reverse =
      Settings.store d done vals := by
  induction done using List.reverseRecOn with
  | nil =>
      funext key
      simp [Settings.store]
  | append_singleton done key ih =>
      rw [List.map_append, List.reverse_append, List.map_singleton, List.reverse_singleton,
        List.singleton_append, view_cons, ih]
      funext key'
      change Function.update (Settings.store d done vals) key (some (vals key)) key' = _
      by_cases hkey : key' = key
      · simp [hkey, Settings.store]
      · simp [hkey, Settings.store]

theorem SaveState.view (h : SaveState s old done rest) (d : Settings) :
    Relational.view d s.writes = Settings.store d done (settingValues old s.tag.form) := by
  rw [h.writes, view_writes]

/-- The session after the upsert of its next key, with the lock mode the row gave it. -/
def SettingsRequest.wrote (s : SettingsSession) (vals : Text → Text) (key : Text) (mode : LockMode)
    (rest : List Text) : SettingsSession :=
  ⟨s.tag, saveSettings vals rest, (key, mode) :: s.locks, ⟨key, some (vals key)⟩ :: s.writes⟩

theorem SaveState.wrote {key : Text} {mode : LockMode} (h : SaveState s old done (key :: rest))
    (hmode : mode.exclusive = true) :
    SaveState (SettingsRequest.wrote s (settingValues old s.tag.form) key mode rest) old
      (done ++ [key]) rest := by
  constructor
  · change s.tag.order = (done ++ [key]) ++ rest
    rw [h.order, List.append_assoc, List.singleton_append]
  · rfl
  · change (⟨key, _⟩ :: s.writes : Writes SettingsRow) = _
    rw [h.writes, List.map_append, List.reverse_append]
    rfl
  · change key :: s.locks.map Prod.fst = _
    rw [h.locks, List.reverse_append]
    rfl
  · intro l hl
    rcases List.mem_cons.mp hl with rfl | hl
    · exact hmode
    · exact h.exclusive l hl

/-- A statement writes the next key, and only while no other request holds a lock on it. -/
theorem SaveState.execute (h : SaveState s old done rest) (hc : c.execute t choice s = some c') :
    ∃ key rest' mode, rest = key :: rest' ∧ mode.exclusive = true ∧
    c.blocked t (key, mode) = false ∧
      c' = c.place t (SettingsRequest.wrote s (settingValues old s.tag.form) key mode rest') := by
  rw [Config.execute, h.prog] at hc
  cases rest with
  | nil =>
      have hnone : (if (Tx.acquires (saveSettings (settingValues old s.tag.form) [])
          (Relational.view c.db s.writes) choice).any (c.blocked t) then none
          else (none : Option SettingsConfig)) = some c' := hc
      split at hnone <;> cases hnone
  | cons key rest' =>
      let mode : LockMode := Tx.updateMode (Relational.view c.db s.writes key).isNone
      have hif : (if ([(key, mode)] : Locks Text).any (c.blocked t) then none
          else some (c.place t
            (SettingsRequest.wrote s (settingValues old s.tag.form) key mode rest'))) =
          some c' := hc
      split at hif
      · cases hif
      · rename_i hblocked
        have hfree : c.blocked t (key, mode) = false := by simpa using hblocked
        exact ⟨key, rest', mode, rfl, Tx.updateMode_exclusive _, hfree, (Option.some.inj hif).symm⟩

theorem SaveState.finish (h : SaveState s old done rest) (hc : c.finish t s = some c') :
    rest = [] ∧ s.prog = .done true none ∧
      c' = ⟨Settings.store c.db settingKeys (settingValues old s.tag.form),
        c.sessions.erase t⟩ := by
  rw [Config.finish, h.prog] at hc
  cases rest with
  | cons key rest' => cases hc
  | nil =>
      have hdone : done = s.tag.order := by rw [h.order, List.append_nil]
      have hdb : Relational.view c.db s.writes =
          Settings.store c.db settingKeys (settingValues old s.tag.form) := by
        rw [h.view, hdone]
        funext key
        simp only [Settings.store, s.tag.perm.mem_iff]
      have heq : (⟨Relational.view c.db s.writes, c.sessions.erase t⟩ : SettingsConfig) = c' :=
        Option.some.inj hc
      exact ⟨rfl, h.prog, by rw [← heq, hdb]⟩

/-! ### All requests in flight -/

structure SavesOk (c : SettingsConfig) : Prop where
  saving : ∀ t s, c.sessions.get? t = some s → ∃ old done rest, SaveState s old done rest
  apart : ∀ t u s s', c.sessions.get? t = some s → c.sessions.get? u = some s' → t ≠ u →
    ∀ l ∈ s.locks, ∀ l' ∈ s'.locks, l.1 ≠ l'.1

theorem SavesOk.place (h : SavesOk c) (hs : SaveState s old done rest)
    (hapart : ∀ u s', c.sessions.get? u = some s' → u ≠ t →
      ∀ l ∈ s.locks, ∀ l' ∈ s'.locks, l.1 ≠ l'.1) :
    SavesOk (c.place t s) := by
  constructor
  · intro u s' hu
    rcases Table.get?_put_some hu with ⟨-, rfl⟩ | ⟨-, hu⟩
    · exact ⟨old, done, rest, hs⟩
    · exact h.saving u s' hu
  · intro u v s₁ s₂ hu hv hne
    rcases Table.get?_put_some hu with ⟨hut, rfl⟩ | ⟨hut, hu'⟩
    · rcases Table.get?_put_some hv with ⟨hvt, -⟩ | ⟨hvt, hv'⟩
      · exact (hne (hut.trans hvt.symm)).elim
      · exact hapart v s₂ hv' hvt
    · rcases Table.get?_put_some hv with ⟨-, rfl⟩ | ⟨-, hv'⟩
      · exact fun l hl l' hl' => (hapart u s₁ hu' hut l' hl' l hl).symm
      · exact h.apart u v s₁ s₂ hu' hv' hne

theorem SavesOk.erase (h : SavesOk c) (t : ℕ) (d : Settings) : SavesOk ⟨d, c.sessions.erase t⟩ := by
  constructor
  · intro u s hu
    exact h.saving u s (Table.get?_erase_some hu).2
  · intro u v s s' hu hv
    exact h.apart u v s s' (Table.get?_erase_some hu).2 (Table.get?_erase_some hv).2

theorem SavesOk.start (h : SavesOk c) (t : ℕ) (r : SettingsRequest) :
    SavesOk (c.place t ⟨r, settingsSystem.prog r c.db, [], []⟩) :=
  h.place (SaveState.start r c.db) (fun _ _ _ _ _ hl => (List.not_mem_nil hl).elim)

theorem SavesOk.wrote {key : Text} {mode : LockMode} (h : SavesOk c)
    (ht : c.sessions.get? t = some s) (hs : SaveState s old done (key :: rest))
    (hmode : mode.exclusive = true) (hfree : c.blocked t (key, mode) = false) :
    SavesOk (c.place t (SettingsRequest.wrote s (settingValues old s.tag.form) key mode rest)) := by
  refine h.place (hs.wrote hmode) (fun u s' hu hne l hl l' hl' heq => ?_)
  rcases List.mem_cons.mp hl with rfl | hl
  · obtain ⟨old', done', rest', hs'⟩ := h.saving u s' hu
    have hok := (Config.blocked_eq_false_iff c t (key, mode)).mp hfree u s' hu hne l' hl' heq.symm
    rw [LockMode.conflicts_of_exclusive (hs'.exclusive l' hl') hmode] at hok
    cases hok
  · exact h.apart t u s s' ht hu hne.symm l hl l' hl' heq

inductive SaveMove (c : SettingsConfig) : SettingsAction → SettingsConfig → Prop
  | start {t : ℕ} {r : SettingsRequest} :
      SaveMove c (.start t r) (c.place t ⟨r, settingsSystem.prog r c.db, [], []⟩)
  | wrote {t : ℕ} {choice : List ℕ} {s : SettingsSession} {old : Settings} {key : Text}
      {done rest : List Text} {mode : LockMode} (ht : c.sessions.get? t = some s)
      (hs : SaveState s old done (key :: rest)) (hmode : mode.exclusive = true)
      (hfree : c.blocked t (key, mode) = false) : SaveMove c (.exec t choice)
        (c.place t (SettingsRequest.wrote s (settingValues old s.tag.form) key mode rest))
  | finish {t : ℕ} {s : SettingsSession} {old : Settings} {done : List Text}
      (ht : c.sessions.get? t = some s) (hs : SaveState s old done []) : SaveMove c (.finish t)
        ⟨Settings.store c.db settingKeys (settingValues old s.tag.form), c.sessions.erase t⟩
  | abort {t : ℕ} : SaveMove c (.abort t) ⟨c.db, c.sessions.erase t⟩

theorem SavesOk.move {a : SettingsAction} (h : SavesOk c) (ha : settingsSystem.step c a = some c') :
    SaveMove c a c' := by
  cases a with
  | start t r =>
      simp only [System.step] at ha
      split at ha
      · cases ha
      · obtain rfl := Option.some.inj ha
        exact .start
  | exec t choice =>
      obtain ⟨s, ht, hc⟩ := Option.bind_eq_some_iff.mp ha
      obtain ⟨old, done, rest, hs⟩ := h.saving t s ht
      obtain ⟨key, rest', mode, rfl, hmode, hfree, rfl⟩ := hs.execute hc
      exact .wrote ht hs hmode hfree
  | finish t =>
      obtain ⟨s, ht, hc⟩ := Option.bind_eq_some_iff.mp ha
      obtain ⟨old, done, rest, hs⟩ := h.saving t s ht
      obtain ⟨rfl, -, rfl⟩ := hs.finish hc
      exact .finish ht hs
  | abort t =>
      obtain rfl := Option.some.inj ha
      exact .abort
  | env e => cases e

theorem SavesOk.step {a : SettingsAction} (h : SavesOk c) (ha : settingsSystem.step c a = some c') :
    SavesOk c' := by
  cases h.move ha with
  | start => exact h.start _ _
  | wrote ht hs hmode hfree => exact h.wrote ht hs hmode hfree
  | finish ht hs => exact h.erase _ _
  | abort => exact h.erase _ c.db

/-- A request that has written its whole form holds every key, so no other one holds any. -/
theorem SavesOk.alone (h : SavesOk c) (ht : c.sessions.get? t = some s)
    (hs : SaveState s old done []) {u : ℕ} (hu : c.sessions.get? u = some s') (hne : u ≠ t) :
    s'.locks = [] := by
  obtain ⟨old', done', rest', hs'⟩ := h.saving u s' hu
  rw [List.eq_nil_iff_forall_not_mem]
  intro l hl
  have hkey : l.1 ∈ s'.tag.order := by
    rw [hs'.order]
    exact List.mem_append_left _ (hs'.mem_locks.mp ⟨l, hl, rfl⟩)
  have hdone : l.1 ∈ done := by
    have hmem : l.1 ∈ s.tag.order := s.tag.perm.mem_iff.mpr (s'.tag.perm.mem_iff.mp hkey)
    rwa [hs.order, List.append_nil] at hmem
  obtain ⟨l', hl', heq⟩ := hs.mem_locks.mpr hdone
  exact h.apart t u s s' ht hu hne.symm l' hl' l hl heq

/-! ### Serialisability -/

/-- A blank password field is written only while the stored password is the one the request read. -/
def KeepsPassword (c : SettingsConfig) : SettingsAction → Prop
  | .exec t _ => ∀ s old done rest, c.sessions.get? t = some s →
      SaveState s old done (passwordKey :: rest) → s.tag.form passwordKey = [] →
      (old passwordKey).getD [] = (c.db passwordKey).getD []
  | _ => True

/-- What a request with a blank password field is going to store as the password is stored
already. -/
def PasswordKept (c : SettingsConfig) : Prop :=
  ∀ t s v, c.sessions.get? t = some s → s.tag.form passwordKey = [] →
    (⟨passwordKey, v⟩ : (key : Text) × SettingsRow key) ∈ s.writes →
    v.getD [] = (c.db passwordKey).getD []

theorem PasswordKept.place (h : PasswordKept c)
    (hs : ∀ v, s.tag.form passwordKey = [] →
      (⟨passwordKey, v⟩ : (key : Text) × SettingsRow key) ∈ s.writes →
      v.getD [] = (c.db passwordKey).getD []) : PasswordKept (c.place t s) := by
  intro u s' v hu hblank hv
  rcases Table.get?_put_some hu with ⟨-, rfl⟩ | ⟨-, hu⟩
  · exact hs v hblank hv
  · exact h u s' v hu hblank hv

theorem PasswordKept.erase (h : PasswordKept c) (t : ℕ) :
    PasswordKept ⟨c.db, c.sessions.erase t⟩ := by
  intro u s v hu
  exact h u s v (Table.get?_erase_some hu).2

theorem SaveState.mem_writes (h : SaveState s old done rest) {key : Text} (hkey : key ∈ done) :
    (⟨key, some (settingValues old s.tag.form key)⟩ : (key : Text) × SettingsRow key) ∈
    s.writes := by
  rw [h.writes, List.mem_reverse]
  exact List.mem_map.mpr ⟨key, hkey, rfl⟩

theorem PasswordKept.wrote {key : Text} {mode : LockMode} (h : PasswordKept c)
    (ht : c.sessions.get? t = some s) (hs : SaveState s old done (key :: rest))
    (hkeep : KeepsPassword c (.exec t choice)) :
    PasswordKept (c.place t
      (SettingsRequest.wrote s (settingValues old s.tag.form) key mode rest)) := by
  refine h.place (fun v hblank hv => ?_)
  rcases List.mem_cons.mp hv with heq | hv
  · obtain ⟨hkey, hval⟩ := Sigma.mk.inj heq
    subst hkey
    obtain rfl := eq_of_heq hval
    have hblank' : s.tag.form passwordKey = [] := hblank
    rw [Option.getD_some, settingValues_password hblank']
    exact hkeep s old done rest ht hs hblank'
  · exact h t s v ht hblank hv

/-- A commit rewrites the form, and no other request has written anything yet. -/
theorem PasswordKept.finish (hc : SavesOk c) (ht : c.sessions.get? t = some s)
    (hs : SaveState s old done []) (d : Settings) : PasswordKept ⟨d, c.sessions.erase t⟩ := by
  intro u s' v hu _ hv
  obtain ⟨hut, hu⟩ := Table.get?_erase_some hu
  have hlocks : s'.locks = [] := hc.alone ht hs hu hut
  obtain ⟨old', done', rest', hs'⟩ := hc.saving u s' hu
  have hnil : done'.reverse = [] := by rw [← hs'.locks, hlocks, List.map_nil]
  rw [hs'.writes, List.reverse_eq_nil_iff.mp hnil] at hv
  cases hv

theorem PasswordKept.step {a : SettingsAction} (h : PasswordKept c) (hc : SavesOk c)
    (hkeep : KeepsPassword c a) (ha : settingsSystem.step c a = some c') : PasswordKept c' := by
  cases hc.move ha with
  | start => exact h.place (fun _ _ hv => (List.not_mem_nil hv).elim)
  | wrote ht hs => exact h.wrote ht hs hkeep
  | finish ht hs => exact PasswordKept.finish hc ht hs _
  | abort => exact h.erase _

theorem SaveState.commitOf (h : SaveState s old done []) (ht : c.sessions.get? t = some s) :
    c.commitOf (.finish t : SettingsAction) = [s.tag] := by
  have hprog : s.prog = .done true none := h.prog
  simp only [Config.commitOf, ht, hprog]

/-- A commit stores what the request would store on its own in the committed table. -/
theorem SaveState.store_eq (h : SaveState s old done []) (ht : c.sessions.get? t = some s)
    (hpw : PasswordKept c) :
    Settings.store c.db settingKeys (settingValues old s.tag.form) = saveAlone c.db s.tag := by
  have hvals : settingValues old s.tag.form = settingValues c.db s.tag.form := by
    funext key
    refine settingValues_congr (fun _ hblank => ?_)
    have hdone : passwordKey ∈ done := by
      have hmem : passwordKey ∈ s.tag.order := s.tag.perm.mem_iff.mpr (by decide)
      rwa [h.order, List.append_nil] at hmem
    have hkept := hpw t s _ ht hblank (h.mem_writes hdone)
    rwa [Option.getD_some, settingValues_password hblank] at hkept
  rw [saveAlone_eq, hvals]

/-- Only a commit changes the table, and as the request on its own would. -/
theorem SavesOk.step_db {a : SettingsAction} (hc : SavesOk c) (hpw : PasswordKept c)
    (ha : settingsSystem.step c a = some c') : c'.db = (c.commitOf a).foldl saveAlone c.db := by
  cases hc.move ha with
  | start | wrote | abort => rfl
  | finish ht hs =>
      rw [hs.commitOf ht]
      exact hs.store_eq ht hpw

/-- The committed table is what the committed requests make of it one after the other. -/
theorem SavesOk.serial {as : List SettingsAction} (hc : SavesOk c) (hpw : PasswordKept c)
    (hkeep : Machine.Along settingsSystem.step KeepsPassword c as)
    (h : Machine.run settingsSystem.step c as = some c') :
    c'.db = (settingsSystem.commits as c).foldl saveAlone c.db := by
  induction as generalizing c with
  | nil =>
      obtain rfl := Option.some.inj h
      rfl
  | cons a as ih =>
      obtain ⟨c₁, ha, has⟩ := Machine.run_cons.mp h
      have hpw₁ : PasswordKept c₁ := hpw.step hc hkeep.1 ha
      rw [ih (hc.step ha) hpw₁ (hkeep.2 c₁ ha) has, hc.step_db hpw ha]
      simp only [System.commits, ha, Option.map_some, Option.getD_some, List.foldl_append]

/-! ### Progress -/

/-- A request starts only while the requests in flight visit their maps in its order. -/
def StartsInOrder (c : SettingsConfig) : SettingsAction → Prop
  | .start _ r => ∀ t s, c.sessions.get? t = some s → s.tag.order = r.order
  | _ => True

def OneOrder (c : SettingsConfig) : Prop :=
  ∀ t u s s', c.sessions.get? t = some s → c.sessions.get? u = some s' → s.tag.order = s'.tag.order

def IsStatement : SettingsAction → Prop
  | .exec _ _ | .finish _ => True
  | _ => False

/-- However the requests in flight go on, they end after a bounded number of steps, with every one
of them committed. -/
def AllCommit (c : SettingsConfig) : Prop :=
  ∃ n : ℕ, ∀ as c', (∀ a ∈ as, IsStatement a) → Machine.run settingsSystem.step c as = some c' →
    as.length ≤ n ∧ ((∀ a, IsStatement a → settingsSystem.step c' a = none) →
      ∀ t s, c.sessions.get? t = some s → s.tag ∈ settingsSystem.commits as c)

theorem OneOrder.erase (h : OneOrder c) (t : ℕ) (d : Settings) :
    OneOrder ⟨d, c.sessions.erase t⟩ := by
  intro u v s s' hu hv
  exact h u v s s' (Table.get?_erase_some hu).2 (Table.get?_erase_some hv).2

theorem OneOrder.place (h : OneOrder c)
    (hs : ∀ u s', c.sessions.get? u = some s' → s'.tag.order = s.tag.order) :
    OneOrder (c.place t s) := by
  intro u v s₁ s₂ hu hv
  rcases Table.get?_put_some hu with ⟨-, rfl⟩ | ⟨-, hu'⟩
  · rcases Table.get?_put_some hv with ⟨-, rfl⟩ | ⟨-, hv'⟩
    · rfl
    · exact (hs v s₂ hv').symm
  · rcases Table.get?_put_some hv with ⟨-, rfl⟩ | ⟨-, hv'⟩
    · exact hs u s₁ hu'
    · exact h u v s₁ s₂ hu' hv'

theorem OneOrder.step {a : SettingsAction} (h : OneOrder c) (hc : SavesOk c)
    (hstart : StartsInOrder c a) (ha : settingsSystem.step c a = some c') :
    OneOrder c' := by
  cases hc.move ha with
  | start => exact h.place hstart
  | @wrote t _ s _ _ _ _ _ ht => exact h.place (fun u s' hu => h u t s' s hu ht)
  | finish ht hs => exact h.erase _ _
  | abort => exact h.erase _ c.db

/-- Requests that visit their maps in one order all begin with the same key: one of them holds it,
and the others hold nothing. -/
theorem OneOrder.one_holder (h : OneOrder c) (hc : SavesOk c) {u : ℕ}
    (ht : c.sessions.get? t = some s) (hu : c.sessions.get? u = some s') (hs : s.locks ≠ [])
    (hs' : s'.locks ≠ []) : t = u := by
  by_contra hne
  obtain ⟨old, done, rest, hst⟩ := hc.saving t s ht
  obtain ⟨old', done', rest', hst'⟩ := hc.saving u s' hu
  have horder : done ++ rest = done' ++ rest' := by
    rw [← hst.order, ← hst'.order]
    exact h t u s s' ht hu
  cases done with
  | nil => exact hs (List.map_eq_nil_iff.mp hst.locks)
  | cons key done =>
      cases done' with
      | nil => exact hs' (List.map_eq_nil_iff.mp hst'.locks)
      | cons key' done' =>
          obtain ⟨rfl, -⟩ := List.cons.inj horder
          obtain ⟨l, hl, hkey⟩ := hst.mem_locks.mpr List.mem_cons_self
          obtain ⟨l', hl', hkey'⟩ := hst'.mem_locks.mpr List.mem_cons_self
          exact hc.apart t u s s' ht hu hne l hl l' hl' (hkey.trans hkey'.symm)

/-- A request that is waited for holds a lock, so it does not wait itself. -/
theorem OneOrder.no_waitCycle (h : OneOrder c) (hc : SavesOk c) (t : ℕ) :
    ¬ WaitCycle c.waits t := by
  let rank : ℕ → ℕ := fun _ => 0
  have hrank : ∀ t u, c.waits t u → (∃ v, c.waits u v) → rank t < rank u := by
    rintro t u ⟨-, s, s', -, hu, l, -, h₁, hlock, -, -⟩ ⟨v, hne, s₁, s₂, -, hv, l', -, h₂, hlock',
      -, -⟩
    exact (hne (h.one_holder hc hu hv (List.ne_nil_of_mem hlock) (List.ne_nil_of_mem hlock'))).elim
  exact no_waitCycle_of_rank hrank t

/-- Its next statement goes through while no other request holds a lock. -/
theorem SaveState.exec_free {key : Text} (h : SaveState s old done (key :: rest))
    (ht : c.sessions.get? t = some s)
    (hothers : ∀ u s', c.sessions.get? u = some s' → u ≠ t → s'.locks = []) :
    ∃ mode : LockMode, mode.exclusive = true ∧ settingsSystem.step c (.exec t []) =
      some (c.place t (SettingsRequest.wrote s (settingValues old s.tag.form) key mode rest)) := by
  let mode : LockMode := Tx.updateMode (Relational.view c.db s.writes key).isNone
  refine ⟨mode, Tx.updateMode_exclusive _, ?_⟩
  have hfree : ([(key, mode)] : Locks Text).any (c.blocked t) = false := by
    have hblocked : c.blocked t (key, mode) = false := by
      refine (Config.blocked_eq_false_iff c t (key, mode)).mpr (fun u s' hu hne l hl => ?_)
      rw [hothers u s' hu hne] at hl
      cases hl
    simpa using hblocked
  simp only [System.step, ht, Option.bind_some, Config.execute]
  rw [h.prog]
  change (if ([(key, mode)] : Locks Text).any (c.blocked t) then none else some _) = _
  rw [hfree]
  rfl

theorem SaveState.finish_eq (h : SaveState s old done []) (ht : c.sessions.get? t = some s) :
    settingsSystem.step c (.finish t) =
      some ⟨Settings.store c.db settingKeys (settingValues old s.tag.form),
        c.sessions.erase t⟩ := by
  have hstep : ∃ c', c.finish t s = some c' := by
    rw [Config.finish, h.prog]
    exact ⟨_, rfl⟩
  obtain ⟨c', hc⟩ := hstep
  obtain ⟨-, -, rfl⟩ := h.finish hc
  simp only [System.step, ht, Option.bind_some, hc]

/-- A request goes on while no other one holds a lock. -/
theorem SaveState.goes_on (h : SaveState s old done rest) (ht : c.sessions.get? t = some s)
    (hothers : ∀ u s', c.sessions.get? u = some s' → u ≠ t → s'.locks = []) :
    ∃ a c', IsStatement a ∧ settingsSystem.step c a = some c' := by
  cases rest with
  | nil => exact ⟨.finish t, _, trivial, h.finish_eq ht⟩
  | cons key rest =>
      obtain ⟨mode, -, hstep⟩ := h.exec_free ht hothers
      exact ⟨.exec t [], _, trivial, hstep⟩

/-- Where nothing can go on, nothing is in flight. -/
theorem OneOrder.idle (h : OneOrder c) (hc : SavesOk c)
    (hstuck : ∀ a, IsStatement a → settingsSystem.step c a = none) (t : ℕ) :
    c.sessions.get? t = none := by
  cases ht : c.sessions.get? t with
  | none => rfl
  | some s =>
      have hholder : ∃ u s', c.sessions.get? u = some s' ∧
          ∀ v s₂, c.sessions.get? v = some s₂ → v ≠ u → s₂.locks = [] := by
        by_cases hsome : ∃ u s', c.sessions.get? u = some s' ∧ s'.locks ≠ []
        · obtain ⟨u, s', hu, hlocks⟩ := hsome
          refine ⟨u, s', hu, fun v s₂ hv hne => ?_⟩
          by_contra hlocks₂
          exact hne (h.one_holder hc hv hu hlocks₂ hlocks)
        · push Not at hsome
          exact ⟨t, s, ht, fun v s₂ hv _ => hsome v s₂ hv⟩
      obtain ⟨u, s', hu, hothers⟩ := hholder
      obtain ⟨old, done, rest, hs⟩ := hc.saving u s' hu
      obtain ⟨a, c', ha, hstep⟩ := hs.goes_on hu hothers
      rw [hstuck a ha] at hstep
      cases hstep

def work (c : SettingsConfig) : ℤ :=
  c.sessions.sum (fun _ s => settingKeys.length + 1 - s.writes.length)

theorem SaveState.length (h : SaveState s old done rest) :
    (s.writes.length : ℤ) + rest.length = settingKeys.length := by
  have hlen : s.tag.order.length = settingKeys.length := s.tag.perm.length_eq
  rw [h.order, List.length_append] at hlen
  rw [h.writes, List.length_reverse, List.length_map]
  exact_mod_cast hlen

theorem SavesOk.work_nonneg (hc : SavesOk c) : 0 ≤ work c := by
  have hzero : c.sessions.sum (fun _ _ => 0) = 0 := Table.sum_eq_zero (fun _ _ _ => rfl)
  rw [← hzero]
  refine Table.sum_le_sum (fun t s ht => ?_)
  obtain ⟨old, done, rest, hs⟩ := hc.saving t s ht
  have hlen := hs.length
  omega

theorem SavesOk.work_step {a : SettingsAction} (hc : SavesOk c) (ha : IsStatement a)
    (hstep : settingsSystem.step c a = some c') : work c' = work c - 1 := by
  cases hc.move hstep with
  | start | abort => exact ha.elim
  | wrote ht =>
      rw [work, Config.place, Table.sum_put_of_some _ _ ht, ← work]
      simp only [SettingsRequest.wrote, List.length_cons, Nat.cast_add, Nat.cast_one]
      omega
  | finish ht hs =>
      have hlen := hs.length
      rw [List.length_nil, Nat.cast_zero, add_zero] at hlen
      have herase := Table.sum_erase ht (fun _ s => (settingKeys.length : ℤ) + 1 - s.writes.length)
      rw [← work] at herase
      change (c.sessions.erase _).sum
        (fun _ s => (settingKeys.length : ℤ) + 1 - s.writes.length) = _
      omega

theorem SavesOk.run {as : List SettingsAction} (hc : SavesOk c)
    (h : Machine.run settingsSystem.step c as = some c') : SavesOk c' := by
  induction as generalizing c with
  | nil =>
      obtain rfl := Option.some.inj h
      exact hc
  | cons a as ih =>
      obtain ⟨c₁, ha, has⟩ := Machine.run_cons.mp h
      exact ih (hc.step ha) has

theorem SavesOk.work_run {as : List SettingsAction} (hc : SavesOk c) (has : ∀ a ∈ as, IsStatement a)
    (h : Machine.run settingsSystem.step c as = some c') : work c' = work c - as.length := by
  induction as generalizing c with
  | nil =>
      obtain rfl := Option.some.inj h
      simp
  | cons a as ih =>
      obtain ⟨c₁, ha, hrest⟩ := Machine.run_cons.mp h
      have h₁ := hc.work_step (has a List.mem_cons_self) ha
      have h₂ := ih (hc.step ha) (fun b hb => has b (List.mem_cons_of_mem a hb)) hrest
      rw [List.length_cons]
      omega

theorem OneOrder.run {as : List SettingsAction} (h : OneOrder c) (hc : SavesOk c)
    (has : ∀ a ∈ as, IsStatement a) (hrun : Machine.run settingsSystem.step c as = some c') :
    OneOrder c' := by
  induction as generalizing c with
  | nil =>
      obtain rfl := Option.some.inj hrun
      exact h
  | cons a as ih =>
      obtain ⟨c₁, ha, hrest⟩ := Machine.run_cons.mp hrun
      have hstart : StartsInOrder c a := by
        have hstatement := has a List.mem_cons_self
        cases a with
        | start t r => exact hstatement.elim
        | exec t choice | finish t | abort t | env e => trivial
      exact ih (h.step hc hstart ha) (hc.step ha) (fun b hb => has b (List.mem_cons_of_mem a hb))
        hrest

/-- A request in flight stays so with every statement, until it commits. -/
theorem SavesOk.tag_step {a : SettingsAction} (hc : SavesOk c) (ha : IsStatement a)
    (hstep : settingsSystem.step c a = some c') (ht : c.sessions.get? t = some s) :
    s.tag ∈ c.commitOf a ∨ ∃ s', c'.sessions.get? t = some s' ∧ s'.tag = s.tag := by
  cases hc.move hstep with
  | start | abort => exact ha.elim
  | @wrote u choice s₁ old key done rest mode hu =>
      right
      rw [Config.place]
      by_cases htu : t = u
      · subst htu
        rw [ht] at hu
        obtain rfl := Option.some.inj hu
        refine ⟨SettingsRequest.wrote s (settingValues old s.tag.form) key mode rest, ?_, rfl⟩
        rw [Table.get?_put, if_pos rfl]
      · exact ⟨s, by rw [Table.get?_put_of_ne _ _ htu, ht], rfl⟩
  | @finish u s₁ old done hu hs =>
      by_cases htu : t = u
      · subst htu
        left
        rw [ht] at hu
        obtain rfl := Option.some.inj hu
        rw [hs.commitOf ht]
        exact List.mem_singleton_self s.tag
      · right
        exact ⟨s, by rw [Table.get?_erase, if_neg htu, ht], rfl⟩

theorem SavesOk.tag_run {as : List SettingsAction} (hc : SavesOk c) (has : ∀ a ∈ as, IsStatement a)
    (h : Machine.run settingsSystem.step c as = some c') (ht : c.sessions.get? t = some s) :
    s.tag ∈ settingsSystem.commits as c ∨ ∃ s', c'.sessions.get? t = some s' ∧ s'.tag = s.tag := by
  induction as generalizing c s with
  | nil =>
      obtain rfl := Option.some.inj h
      exact Or.inr ⟨s, ht, rfl⟩
  | cons a as ih =>
      obtain ⟨c₁, ha, hrest⟩ := Machine.run_cons.mp h
      have hcommits : settingsSystem.commits (a :: as) c =
          c.commitOf a ++ settingsSystem.commits as c₁ := by
        simp only [System.commits, ha, Option.map_some, Option.getD_some]
      rw [hcommits, List.mem_append]
      rcases hc.tag_step (has a List.mem_cons_self) ha ht with hmem | ⟨s₁, ht₁, htag⟩
      · exact Or.inl (Or.inl hmem)
      · rw [← htag]
        have hrun := ih (hc.step ha) (fun b hb => has b (List.mem_cons_of_mem a hb)) hrest ht₁
        rcases hrun with hmem | hlast
        · exact Or.inl (Or.inr hmem)
        · exact Or.inr hlast

theorem OneOrder.allCommit (h : OneOrder c) (hc : SavesOk c) : AllCommit c := by
  refine ⟨(work c).toNat, fun as c' has hrun => ⟨?_, fun hstuck t s ht => ?_⟩⟩
  · have hwork := hc.work_run has hrun
    have hnonneg := (hc.run hrun).work_nonneg
    omega
  · rcases hc.tag_run has hrun ht with hmem | ⟨s', ht', -⟩
    · exact hmem
    · rw [(h.run hc has hrun).idle (hc.run hrun) hstuck t] at ht'
      cases ht'

/-- Saves whose blank passwords are not overtaken add up to the committed ones run one after the
other; and saves that overlap only with saves in their own order never deadlock, and all commit. -/
theorem settingsSave_serialisable {as : List SettingsAction}
    (h : Machine.run settingsSystem.step (Config.start d) as = some c) :
    (Machine.Along settingsSystem.step KeepsPassword (Config.start d) as →
      c.db = (settingsSystem.commits as (Config.start d)).foldl saveAlone d) ∧
    (Machine.Along settingsSystem.step StartsInOrder (Config.start d) as →
      (∀ t, ¬ WaitCycle c.waits t) ∧ AllCommit c) := by
  have hok : SavesOk (Config.start d) := by
    constructor
    · intro t s ht
      cases ht
    · intro t u s s' ht
      cases ht
  constructor
  · intro hkeep
    have hpw : PasswordKept (Config.start d) := by
      intro t s v ht
      cases ht
    exact hok.serial hpw hkeep h
  · intro hstart
    have horder : OneOrder (Config.start d) := by
      intro t u s s' ht
      cases ht
    have hboth : SavesOk c ∧ OneOrder c :=
      Machine.run_invariant (I := fun c => SavesOk c ∧ OneOrder c) ⟨hok, horder⟩
        (fun _ _ _ hi hp ha => ⟨hi.1.step ha, hi.2.step hi.1 hp ha⟩) hstart h
    exact ⟨hboth.2.no_waitCycle hboth.1, hboth.2.allCommit hboth.1⟩

/-- The password that a request read is the one it is about to keep. -/
theorem SaveState.password_eq (h : SaveState s old done (passwordKey :: rest))
    (h' : SaveState s old' done' rest') (hblank : s.tag.form passwordKey = []) :
    (old passwordKey).getD [] = (old' passwordKey).getD [] := by
  have hdone : done = done' := List.reverse_injective (h.locks.symm.trans h'.locks)
  subst hdone
  have hrest : passwordKey :: rest = rest' := List.append_cancel_left (h.order.symm.trans h'.order)
  subst hrest
  have hstored := run_saveSettings (settingValues old s.tag.form) (passwordKey :: rest) id old
  rw [← h.prog, h'.prog, run_saveSettings] at hstored
  injection hstored with _ _ hstored
  have hvalue := congrFun hstored passwordKey
  simp only [Settings.store, List.mem_cons, true_or, if_true] at hvalue
  rw [settingValues_password hblank, settingValues_password hblank] at hvalue
  exact (Option.some.inj hvalue).symm

def saveRest (t n : ℕ) : List SettingsAction := List.replicate n (.exec t []) ++ [.finish t]

theorem saveRest_succ (t n : ℕ) : saveRest t (n + 1) = .exec t [] :: saveRest t n := rfl

/-- A request that meets no lock writes the rest of its form and commits; what it read of the
password is current all the way when it was current before. -/
theorem SaveState.runs_on (h : SaveState s old done rest) (ht : c.sessions.get? t = some s)
    (hothers : ∀ u s', c.sessions.get? u = some s' → u ≠ t → s'.locks = [])
    (hpw : s.tag.form passwordKey = [] → (old passwordKey).getD [] = (c.db passwordKey).getD []) :
    ∃ c', Machine.run settingsSystem.step c (saveRest t rest.length) = some c' ∧
      c'.db = Settings.store c.db settingKeys (settingValues old s.tag.form) ∧
      (∀ u, c'.sessions.get? u = if u = t then none else c.sessions.get? u) ∧
      settingsSystem.commits (saveRest t rest.length) c = [s.tag] ∧
      Machine.Along settingsSystem.step KeepsPassword c (saveRest t rest.length) := by
  induction rest generalizing s done c with
  | nil =>
      have hfinish := h.finish_eq ht
      refine ⟨_, Machine.run_cons.mpr ⟨_, hfinish, rfl⟩, rfl, fun u => Table.get?_erase _ t u, ?_,
        ?_⟩
      · change c.commitOf (.finish t : SettingsAction) ++ _ = _
        rw [h.commitOf ht, hfinish]
        rfl
      · exact ⟨trivial, fun _ _ => trivial⟩
  | cons key rest ih =>
      obtain ⟨mode, hmode, hstep⟩ := h.exec_free ht hothers
      have hplaced : ∀ u, u ≠ t → (c.place t (SettingsRequest.wrote s (settingValues old s.tag.form)
          key mode rest)).sessions.get? u = c.sessions.get? u :=
        fun u hu => Table.get?_put_of_ne _ _ hu
      obtain ⟨c', hrun, hdb, hsessions, hcommits, halong⟩ :=
        ih (h.wrote hmode) (Table.get?_put_self _ t _)
        (fun u s' hu hne => hothers u s' ((hplaced u hne).symm.trans hu) hne) hpw
      rw [List.length_cons, saveRest_succ]
      refine ⟨c', Machine.run_cons.mpr ⟨_, hstep, hrun⟩, hdb, fun u => ?_, ?_, ?_, fun c₁ hc₁ => ?_⟩
      · rw [hsessions u]
        split_ifs with hu
        · rfl
        · exact hplaced u hu
      · rw [System.commits, hstep, Option.map_some, Option.getD_some, hcommits]
        rfl
      · intro s₁ old₁ done₁ rest₁ hs₁ hread hblank
        rw [ht] at hs₁
        obtain rfl := Option.some.inj hs₁
        exact (hread.password_eq h hblank).trans (hpw hblank)
      · rw [hstep] at hc₁
        obtain rfl := Option.some.inj hc₁
        exact halong

theorem commits_append {as bs : List SettingsAction}
    (h : Machine.run settingsSystem.step c as = some c') :
    settingsSystem.commits (as ++ bs) c =
      settingsSystem.commits as c ++ settingsSystem.commits bs c' := by
  induction as generalizing c with
  | nil =>
      obtain rfl := Option.some.inj h
      rfl
  | cons a as ih =>
      obtain ⟨c₁, ha, has⟩ := Machine.run_cons.mp h
      simp only [List.cons_append, System.commits, ha, Option.map_some, Option.getD_some, ih has,
        List.append_assoc]

def tinySettingsForm (key : Text) : Text :=
  if key = "title".toList then "Shop".toList
  else if key = "language".toList then "zh_CN".toList
  else if key = "order_expire_time".toList then "5".toList
  else if key = "driver".toList then "smtp".toList
  else if key = passwordKey then "secret".toList
  else []

def tinySettings : SettingsRequest := ⟨tinySettingsForm, settingKeys, List.Perm.refl _, by decide⟩

def tinyBlankSettings : SettingsRequest where
  form key := if key = passwordKey then [] else tinySettingsForm key
  order := settingKeys
  perm := List.Perm.refl _
  valid := by decide

def tinyStoredSettings : Settings :=
  fun key => if key = passwordKey then some "old".toList else none

def twoSaves : List SettingsAction :=
  [.start 0 tinyBlankSettings, .start 1 tinySettings] ++
    (saveRest 0 settingKeys.length ++ saveRest 1 settingKeys.length)

/-- Both commit. -/
theorem twoSaves_run :
    ∃ c, Machine.run settingsSystem.step (Config.start tinyStoredSettings) twoSaves = some c ∧
      settingsSystem.commits twoSaves (Config.start tinyStoredSettings) =
        [tinyBlankSettings, tinySettings] ∧
      Machine.Along settingsSystem.step KeepsPassword
        (Config.start tinyStoredSettings) twoSaves := by
  let d := tinyStoredSettings
  let s₀ : SettingsSession := ⟨tinyBlankSettings, settingsSystem.prog tinyBlankSettings d, [], []⟩
  let s₁ : SettingsSession := ⟨tinySettings, settingsSystem.prog tinySettings d, [], []⟩
  let c : SettingsConfig := ((Config.start d).place 0 s₀).place 1 s₁
  have hstarts : Machine.run settingsSystem.step (Config.start d)
      [.start 0 tinyBlankSettings, .start 1 tinySettings] = some c := rfl
  have hothers : ∀ u s', c.sessions.get? u = some s' → s'.locks = [] := by
    intro u s' hu
    rcases Table.get?_put_some hu with ⟨-, rfl⟩ | ⟨-, hu⟩
    · rfl
    · rcases Table.get?_put_some hu with ⟨-, rfl⟩ | ⟨-, hu⟩
      · rfl
      · cases hu
  obtain ⟨c₁, hrun₁, -, hsessions₁, hcommits₁, halong₁⟩ :=
    (SaveState.start tinyBlankSettings d).runs_on (t := 0) (c := c) rfl (fun u s' hu _ =>
      hothers u s' hu)
      (fun _ => rfl)
  have hget₁ : c₁.sessions.get? 1 = some s₁ := hsessions₁ 1
  obtain ⟨c₂, hrun₂, -, -, hcommits₂, halong₂⟩ :=
    (SaveState.start tinySettings d).runs_on hget₁
      (fun u s' hu _ => by
        rw [hsessions₁] at hu
        split_ifs at hu with hzero
        exact hothers u s' hu)
      (fun hblank => by cases hblank)
  have hrests := Machine.run_append.mpr ⟨c₁, hrun₁, hrun₂⟩
  refine ⟨c₂, Machine.run_append.mpr ⟨c, hstarts, hrests⟩, ?_, ?_⟩
  · have hfirst : settingsSystem.commits [.start 0 tinyBlankSettings, .start 1 tinySettings]
        (Config.start d) = [] := rfl
    have hkeys : tinyBlankSettings.order.length = settingKeys.length := rfl
    have hkeys' : tinySettings.order.length = settingKeys.length := rfl
    rw [hkeys] at hrun₁ hcommits₁
    rw [hkeys'] at hcommits₂
    rw [twoSaves, commits_append hstarts, hfirst, List.nil_append, commits_append hrun₁, hcommits₁,
      hcommits₂]
    rfl
  · refine Machine.along_append ⟨trivial, fun _ _ => ⟨trivial, fun _ _ => trivial⟩⟩ hstarts ?_
    exact Machine.along_append halong₁ hrun₁ halong₂

/-- The second save waits while the first one is at it; then both commit, and the blank password of
the first is the one that was stored. -/
theorem settingsSave_serialisable_two :
    ∃ c c', Machine.run settingsSystem.step (Config.start tinyStoredSettings)
        [.start 0 tinyBlankSettings, .start 1 tinySettings, .exec 0 []] = some c ∧
      c.waits 1 0 ∧ (∀ t, ¬ WaitCycle c.waits t) ∧ AllCommit c ∧
      Machine.run settingsSystem.step (Config.start tinyStoredSettings) twoSaves = some c' ∧
      c'.db = saveAlone (saveAlone tinyStoredSettings tinyBlankSettings) tinySettings ∧
      saveAlone tinyStoredSettings tinyBlankSettings passwordKey = some "old".toList := by
  obtain ⟨c', hrun, hcommits, hkeep⟩ := twoSaves_run
  have hstart : Machine.Along settingsSystem.step StartsInOrder (Config.start tinyStoredSettings)
      [.start 0 tinyBlankSettings, .start 1 tinySettings, .exec 0 []] := by
    refine ⟨fun t s ht => ?_, fun c hc => ⟨fun t s ht => ?_, fun _ _ => ?_⟩⟩
    · cases ht
    · obtain rfl := Option.some.inj hc
      rcases Table.get?_put_some ht with ⟨-, rfl⟩ | ⟨-, ht⟩
      · rfl
      · cases ht
    · exact ⟨trivial, fun _ _ => trivial⟩
  have hserial := (settingsSave_serialisable hrun).1 hkeep
  rw [hcommits] at hserial
  obtain ⟨hcycle, hall⟩ := (settingsSave_serialisable rfl).2 hstart
  refine ⟨_, c', rfl, ?_, hcycle, hall, hrun, hserial, ?_⟩
  · exact ⟨by decide, _, _, rfl, rfl, _, List.mem_singleton.mpr rfl, _, List.mem_singleton.mpr rfl,
      rfl,
      rfl⟩
  · rw [saveAlone_eq]
    rfl

def tinySwappedSettings : SettingsRequest where
  form := tinySettingsForm
  order := "img_logo".toList :: "title".toList :: settingKeys.drop 2
  perm := List.Perm.swap ..
  valid := by decide

/-- Two saves that visit two keys in opposite orders lock one each and wait for the other. -/
theorem settingsSave_deadlock :
    ∃ c, Machine.run settingsSystem.step (Config.start fun _ => none)
      [.start 0 tinySettings, .start 1 tinySwappedSettings, .exec 0 [], .exec 1 []] = some c ∧
      WaitCycle c.waits 0 := by
  refine ⟨_, rfl, Relation.TransGen.head (b := 1) ?_ (Relation.TransGen.single ?_)⟩
  · exact ⟨by decide, _, _, rfl, rfl, _, List.mem_singleton.mpr rfl, _, List.mem_singleton.mpr rfl,
      rfl, rfl⟩
  · exact ⟨by decide, _, _, rfl, rfl, _, List.mem_singleton.mpr rfl, _, List.mem_singleton.mpr rfl,
      rfl, rfl⟩

end Dufaka
