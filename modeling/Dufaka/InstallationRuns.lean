import Dufaka.Installation
import Dufaka.Machine
import Dufaka.SessionLocks

/-!
# Concurrent installations

Any number of calls of `install.Run`, statement by statement. Calls that count no administrator at
the same time and install the same one exclude each other through the unique name. Different names
do not, and a commit stays when the config file cannot be written.
-/

namespace Dufaka
open Relational

abbrev InstallSession := Session Installer InstallDB InstallKey.Row Text

/-- The administrator that a call has committed, unless it answered with an error after that. -/
def InstallRun.wrote : InstallRun → Option Text
  | .committed q _ => some q.form.admin
  | .returned (.ok r) => some r.adminUser
  | _ => none

def InstallRun.error : InstallRun → Option Text
  | .returned (.error err) => some err
  | _ => none

/-- The row of an administrator is the only one of its table that the rest of the program may
write. -/
def NotAdmin (key : InstallKey) : Prop := key.isAdmin = false

/-- The session of a call that has come to `p`, over the committed rows `d`. -/
inductive Serves (d : InstallDB) : InstallRun → InstallSession → Prop
  | began {q : Installer} {dsn : Text} {s : InstallSession} (hprog : s.prog = installTx q)
      (hwrites : s.writes = []) : Serves d (.began q dsn) s
  | refused {q : Installer} {dsn err : Text} {n : ℕ} {s : InstallSession}
      (hprog : s.prog = .done false err) : Serves d (.counted q dsn n) s
  | inserting {q : Installer} {dsn : Text} {s : InstallSession} (hprog : s.prog = writeInstall q)
      (hwrites : s.writes = []) : Serves d (.counted q dsn 0) s
  | inserted {q : Installer} {dsn : Text} {s : InstallSession} {u : AdminUser}
      {ws : Writes InstallKey.Row} (hprog : s.prog.touches NotAdmin)
      (hwrites : s.writes = ws ++ [⟨.admin q.form.admin, some u⟩]) (hws : ∀ w ∈ ws, NotAdmin w.1)
      (hlock : Owns s.locks (.admin q.form.admin)) (hfree : d.admins.lookup q.form.admin = none) :
      Serves d (.counted q dsn 0) s

variable {d d' : InstallDB} {q q' : Installer} {dsn dsn' : Text} {n : ℕ} {s : InstallSession}
  {p : InstallTx Empty} {ws : Writes InstallKey.Row} {choice : List ℕ} {L : Locks InstallKey}

theorem furnish_touches (f : InstallForm) : (furnish f).touches NotAdmin := by
  have hmissing : ∀ (key : InstallKey) (v : key.Value), NotAdmin key →
      (insertMissing key v).touches NotAdmin := by
    intro key v hkey d
    change (if (d.row key).isSome = true then Tx.value () else insertRow key v).touches NotAdmin
    split
    · trivial
    · refine ⟨hkey, fun written => ?_⟩
      cases written <;> trivial
  refine Tx.touches_bind (Tx.touches_forEach fun kv _ => ⟨rfl, fun _ => trivial⟩) (fun _ => ?_)
  refine Tx.touches_bind ?_ (fun _ => trivial)
  refine Tx.touches_bind (hmissing _ _ rfl) (fun _ => ?_)
  exact Tx.touches_forEach (fun m _ => hmissing _ _ rfl)

/-- An insert writes the place of its key, or ends the transaction. -/
theorem advance_insertRow {key : InstallKey} {v : key.Value} {next : Unit → InstallTx Empty}
    (ha : (insertRow key v >>= next).advance d choice = some (p, ws)) :
    d.row key = none ∧ p = next () ∧ ws = [⟨key, some v⟩] ∧
        (insertRow key v >>= next).acquires d choice = [(key, .update)] ∨
      p = .done false key.duplicate := by
  have hget : RowStore.get d key = some (d.row key) := rfl
  simp only [insertRow, Tx.bind_def, Tx.bind, Tx.advance, hget, Option.bind_some] at ha
  cases hrow : d.row key with
  | none =>
      rw [hrow] at ha
      obtain ⟨rfl, rfl⟩ := Prod.mk.inj (Option.some.inj ha)
      refine Or.inl ⟨rfl, rfl, rfl, ?_⟩
      simp only [insertRow, Tx.bind_def, Tx.bind, Tx.acquires, hget, hrow]
      rfl
  | some old =>
      rw [hrow] at ha
      obtain ⟨rfl, rfl⟩ := Prod.mk.inj (Option.some.inj ha)
      exact Or.inr rfl

theorem Serves.count (h : Serves d (.began q dsn) s)
    (ha : s.prog.advance (view d s.writes) choice = some (p, ws)) :
    Serves d (.counted q dsn d.countAdmins) ⟨s.tag, p, L, ws ++ s.writes⟩ := by
  cases h with
  | began hprog hwrites =>
      rw [hprog, hwrites] at ha
      obtain ⟨rfl, rfl⟩ := Prod.mk.inj (Option.some.inj ha)
      by_cases hpos : 0 < d.countAdmins
      · have hrefused : (if 0 < d.countAdmins then .rollback "已经安装过了".toList else writeInstall q) =
            (Tx.done false "已经安装过了".toList : InstallTx Empty) := if_pos hpos
        exact .refused hrefused
      · have hzero : d.countAdmins = 0 := by omega
        rw [hzero]
        refine .inserting ?_ hwrites
        change (if 0 < d.countAdmins then _ else _) = _
        rw [if_neg hpos]

theorem Serves.exec (h : Serves d (.counted q dsn n) s)
    (ha : s.prog.advance (view d s.writes) choice = some (p, ws)) :
    Serves d (.counted q dsn n)
      ⟨s.tag, p, s.prog.acquires (view d s.writes) choice ++ s.locks, ws ++ s.writes⟩ := by
  cases h with
  | refused hprog =>
      rw [hprog] at ha
      cases ha
  | inserting hprog hwrites =>
      cases hhash : q.hash with
      | error err =>
          rw [hprog, writeInstall, hhash] at ha
          cases ha
      | ok hash =>
          have hinsert : s.prog = insertRow (.admin q.form.admin) ⟨hash, q.form.admin⟩ >>=
              fun _ => furnish q.form := by
            rw [hprog, writeInstall, hhash]
          rw [hinsert, hwrites] at ha ⊢
          rcases advance_insertRow ha with ⟨hfree, rfl, rfl, hlocks⟩ | hrefused
          · have hwrote : (⟨.admin q.form.admin, some ⟨hash, q.form.admin⟩⟩ ::
                [] : Writes InstallKey.Row) =
                [] ++ [⟨.admin q.form.admin, some ⟨hash, q.form.admin⟩⟩] := rfl
            refine .inserted (furnish_touches q.form) hwrote (by simp) ?_ hfree
            change Owns (Tx.acquires _ (view d []) choice ++ s.locks) _
            rw [hlocks]
            exact Owns.head rfl
          · exact .refused hrefused
  | @inserted _ _ _ u old hprog hwrites hws hlock hfree =>
      obtain ⟨hnext, hnew⟩ := Tx.touches_advance hprog ha
      have hwrote : ws ++ s.writes = (ws ++ old) ++ [⟨.admin q.form.admin, some u⟩] := by
        rw [hwrites, List.append_assoc]
      refine .inserted hnext hwrote (fun w hw => ?_) (hlock.mono (by simp)) hfree
      rcases List.mem_append.mp hw with hw | hw
      · exact hnew w hw
      · exact hws w hw

theorem admins_view (h : ∀ w ∈ ws, NotAdmin w.1) : (view d ws).admins = d.admins := by
  induction ws with
  | nil => rfl
  | cons w ws ih =>
      obtain ⟨key, v⟩ := w
      have hkey : NotAdmin key := h ⟨key, v⟩ List.mem_cons_self
      have hset : ∀ d : InstallDB, (d.setRow key v).admins = d.admins := by
        intro d
        cases key with
        | admin username => cases hkey
        | setting key | pay key | emailtpl key => rfl
      change ((view d ws).setRow key v).admins = d.admins
      rw [hset]
      exact ih (fun w hw => h w (List.mem_cons_of_mem _ hw))

/-- A call that commits has written its administrator, whom nobody else may have written. -/
theorem Serves.commit (h : Serves d (.counted q dsn n) s) {r : Text}
    (hdone : s.prog = .done true r) :
    n = 0 ∧ d.admins.lookup q.form.admin = none ∧ Owns s.locks (.admin q.form.admin) ∧
      ∃ u, (view d s.writes).admins = d.admins.insert q.form.admin u := by
  cases h with
  | refused hprog =>
      rw [hdone] at hprog
      cases hprog
  | inserting hprog =>
      rw [hdone, writeInstall] at hprog
      split at hprog <;> cases hprog
  | @inserted _ _ _ u old hprog hwrites hws hlock hfree =>
      refine ⟨rfl, hfree, hlock, u, ?_⟩
      rw [hwrites, view_append, admins_view hws]
      rfl

namespace Installs

def OneInstalled (d : InstallDB) (s : Installs) : Prop :=
  (∀ i, (s.runs i).wrote = none) ∧ s.config.db.admins = d.admins ∨
    ∃ i username u, (s.runs i).wrote = some username ∧ (∀ j, j ≠ i → (s.runs j).wrote = none) ∧
      s.config.db.admins = d.admins.insert username u

/-- A call counts nobody only while every other call that has counted nobody, and is not over,
installs the same administrator; and the key and the file of a committed installation are
written. -/
def Alone (s : Installs) : InstallAct → Prop
  | .exec i _ => ∀ q dsn, s.runs i = .began q dsn → s.config.db.countAdmins = 0 →
      ∀ j q' dsn', s.runs j = .counted q' dsn' 0 → q'.form.admin = q.form.admin
  | .save _ out => ∃ sessionKey, out = .saved sessionKey
  | _ => True

structure Ok (d : InstallDB) (s : Installs) : Prop where
  serves : ∀ i u, s.config.sessions.get? i = some u → Serves s.config.db (s.runs i) u
  apart : s.config.Apart
  same : ∀ i j q q' dsn dsn', s.runs i = .counted q dsn 0 → s.runs j = .counted q' dsn' 0 →
    q.form.admin = q'.form.admin
  settled : ∀ i q dsn, s.runs i = .counted q dsn 0 →
    (∀ j, (s.runs j).wrote = none) ∨ (s.config.db.admins.lookup q.form.admin).isSome
  one : s.OneInstalled d

variable {s s' : Installs} {i : ℕ} {p : InstallRun}
  {c : Config Installer InstallDB InstallKey.Row Text}

theorem OneInstalled.congr (h : s.OneInstalled d) (hruns : ∀ j,
    (s'.runs j).wrote = (s.runs j).wrote)
    (hdb : s'.config.db = s.config.db) : s'.OneInstalled d := by
  rw [OneInstalled, hdb]
  rcases h with ⟨hnone, hadmins⟩ | ⟨i, username, u, hi, hothers, hadmins⟩
  · refine Or.inl ⟨fun j => ?_, hadmins⟩
    rw [hruns, hnone]
  · refine Or.inr ⟨i, username, u, ?_, fun j hj => ?_, hadmins⟩
    · rw [hruns, hi]
    · rw [hruns, hothers j hj]

/-- Who sees an administrator can tell that one call has committed. -/
theorem OneInstalled.none_wrote (h : s.OneInstalled d) (hcount : s.config.db.countAdmins = 0)
    (j : ℕ) :
    (s.runs j).wrote = none := by
  rcases h with ⟨hnone, -⟩ | ⟨i, username, u, -, -, hadmins⟩
  · exact hnone j
  · have hpos : 0 < s.config.db.countAdmins := by
      rw [InstallDB.countAdmins, hadmins, AList.entries_insert]
      exact Nat.succ_pos _
    omega

/-- A step that commits nothing moves one call. -/
theorem Ok.move (h : s.Ok d) (hdb : c.db = s.config.db) (hapart : c.Apart)
    (hothers : ∀ j u, j ≠ i → c.sessions.get? j = some u → s.config.sessions.get? j = some u)
    (hown : ∀ u, c.sessions.get? i = some u → Serves s.config.db p u)
    (hwrote : p.wrote = (s.runs i).wrote)
    (hcounts : ∀ q dsn, p = .counted q dsn 0 → s.runs i = .counted q dsn 0 ∨
      (∀ j q' dsn', s.runs j = .counted q' dsn' 0 → q'.form.admin = q.form.admin) ∧
        ∀ j, (s.runs j).wrote = none) :
    Ok d ⟨c, Function.update s.runs i p⟩ := by
  have hruns : ∀ j, (Function.update s.runs i p j).wrote = (s.runs j).wrote := by
    intro j
    by_cases hj : j = i
    · rw [hj, Function.update_self, hwrote]
    · rw [Function.update_of_ne hj]
  have hcounted : ∀ j q dsn, Function.update s.runs i p j = .counted q dsn 0 →
      s.runs j = .counted q dsn 0 ∨
        j = i ∧ (∀ j q' dsn', s.runs j = .counted q' dsn' 0 → q'.form.admin = q.form.admin) ∧
          ∀ j, (s.runs j).wrote = none := by
    intro j q dsn hj
    by_cases hji : j = i
    · rw [hji, Function.update_self] at hj
      rcases hcounts q dsn hj with hold | hnew
      · exact Or.inl (hji ▸ hold)
      · exact Or.inr ⟨hji, hnew⟩
    · rw [Function.update_of_ne hji] at hj
      exact Or.inl hj
  constructor
  · intro j u hu
    change Serves c.db (Function.update s.runs i p j) u
    rw [hdb]
    by_cases hj : j = i
    · subst hj
      rw [Function.update_self]
      exact hown u hu
    · rw [Function.update_of_ne hj]
      exact h.serves j u (hothers j u hj hu)
  · exact hapart
  · intro j j' q q' dsn dsn' hj hj'
    rcases hcounted j q dsn hj with hold | ⟨hji, hnew, -⟩
    · rcases hcounted j' q' dsn' hj' with hold' | ⟨-, hnew', -⟩
      · exact h.same j j' q q' dsn dsn' hold hold'
      · exact hnew' j q dsn hold
    · rcases hcounted j' q' dsn' hj' with hold' | ⟨hji', -, -⟩
      · exact (hnew j' q' dsn' hold').symm
      · rw [hji] at hj
        rw [hji', hj] at hj'
        rw [(InstallRun.counted.inj hj').1]
  · intro j q dsn hj
    change (∀ k, (Function.update s.runs i p k).wrote = none) ∨ _
    simp only [hruns]
    rw [hdb]
    rcases hcounted j q dsn hj with hold | ⟨-, -, hnone⟩
    · exact h.settled j q dsn hold
    · exact Or.inl hnone
  · exact h.one.congr hruns hdb

theorem Ok.idle (h : s.Ok d) (hi : ∀ u, ¬ Serves s.config.db (s.runs i) u) :
    s.config.sessions.get? i = none := by
  cases hget : s.config.sessions.get? i with
  | none => rfl
  | some u => exact (hi u (h.serves i u hget)).elim

/-- A call that has no session changes its answer. -/
theorem Ok.setRun (h : s.Ok d) (hi : ∀ u, ¬ Serves s.config.db (s.runs i) u)
    (hwrote : p.wrote = (s.runs i).wrote) (hp : ∀ q dsn, p ≠ .counted q dsn 0) :
    (s.setRun i p).Ok d := by
  refine h.move rfl h.apart (fun j u _ hu => hu) (fun u hu => ?_) hwrote (fun q dsn he =>
    (hp q dsn he).elim)
  rw [h.idle hi] at hu
  cases hu

theorem Ok.start (h : s.Ok d) (hrun : s.runs i = .connecting q)
    (hstep : s.advance (.start i q) i (.began q dsn) = some s') : s'.Ok d := by
  obtain ⟨c, hc, rfl⟩ := Option.map_eq_some_iff.mp hstep
  simp only [System.step] at hc
  split at hc
  · cases hc
  · obtain rfl := Option.some.inj hc
    refine h.move rfl (h.apart.place fun u s' hu hne g hg => ?_) (fun j u hj hu => ?_) (fun u hu =>
      ?_) ?_
      (fun q dsn he => by cases he)
    · cases hg
    · rwa [Config.place, Table.get?_put_of_ne _ _ hj] at hu
    · rw [Config.place, Table.get?_put, if_pos rfl] at hu
      obtain rfl := Option.some.inj hu
      exact .began rfl rfl
    · rw [hrun]
      rfl

/-- A statement that leaves the call at `p`. -/
theorem Ok.exec (h : s.Ok d) {choice : List ℕ} (hstep : s.advance (.exec i choice) i p = some s')
    (hwrote : p.wrote = (s.runs i).wrote)
    (hnext : ∀ u p' ws, Serves s.config.db (s.runs i) u →
      u.prog.advance (view s.config.db u.writes) choice = some (p', ws) →
      Serves s.config.db p ⟨u.tag, p',
        u.prog.acquires (view s.config.db u.writes) choice ++ u.locks, ws ++ u.writes⟩)
    (hcounts : ∀ q dsn, p = .counted q dsn 0 → s.runs i = .counted q dsn 0 ∨
      (∀ j q' dsn', s.runs j = .counted q' dsn' 0 → q'.form.admin = q.form.admin) ∧
        ∀ j, (s.runs j).wrote = none) : s'.Ok d := by
  obtain ⟨c, hc, rfl⟩ := Option.map_eq_some_iff.mp hstep
  obtain ⟨u, hu, hexec⟩ := Option.bind_eq_some_iff.mp hc
  have hapart : c.Apart := h.apart.execute hu hexec
  obtain ⟨p', ws, ha, rfl, -⟩ := Config.execute_inv hexec
  refine h.move rfl hapart (fun j v hj hv => ?_) (fun v hv => ?_) hwrote hcounts
  · rwa [Config.place, Table.get?_put_of_ne _ _ hj] at hv
  · rw [Config.place, Table.get?_put, if_pos rfl] at hv
    obtain rfl := Option.some.inj hv
    exact hnext u p' ws (h.serves i u hu) ha

/-- A transaction that ends without a commit leaves no trace. -/
theorem Ok.drop (h : s.Ok d) {err : Text} (hwrote : (s.runs i).wrote = none) :
    Ok d ⟨⟨s.config.db, s.config.sessions.erase i⟩,
      Function.update s.runs i (.returned (.error err))⟩ := by
  refine h.move rfl (h.apart.erase i _) (fun j u hj hu => ?_) (fun u hu => ?_) hwrote.symm
    (fun q dsn he => by cases he)
  · rwa [Table.get?_erase, if_neg hj] at hu
  · rw [Table.get?_erase, if_pos rfl] at hu
    cases hu

/-- The call that commits is the first one, and those that have counted nobody install its
administrator: their insert fails on the name. -/
theorem Ok.commit (h : s.Ok d) {u : InstallSession} {r : Text} (hrun : s.runs i = .counted q dsn n)
    (hu : s.config.sessions.get? i = some u) (hdone : u.prog = .done true r) :
    Ok d ⟨⟨view s.config.db u.writes, s.config.sessions.erase i⟩,
      Function.update s.runs i (.committed q dsn)⟩ := by
  have hserves := h.serves i u hu
  rw [hrun] at hserves
  obtain ⟨rfl, hfree, hlock, row, hadmins⟩ := hserves.commit hdone
  have hother : ∀ {j q' dsn'}, Function.update s.runs i (.committed q dsn) j = .counted q' dsn' 0 →
      j ≠ i ∧ s.runs j = .counted q' dsn' 0 := by
    intro j q' dsn' hj
    have hne : j ≠ i := by
      rintro rfl
      rw [Function.update_self] at hj
      cases hj
    rw [Function.update_of_ne hne] at hj
    exact ⟨hne, hj⟩
  constructor
  · intro j v hv
    obtain ⟨hj, hv⟩ := Table.get?_erase_some hv
    change Serves (view s.config.db u.writes) (Function.update s.runs i _ j) v
    rw [Function.update_of_ne hj]
    have hold := h.serves j v hv
    generalize hrun' : s.runs j = p at hold
    cases hold with
    | began hprog hwrites => exact .began hprog hwrites
    | refused hprog => exact .refused hprog
    | inserting hprog hwrites => exact .inserting hprog hwrites
    | inserted hprog hwrites hws hlock' hfree' =>
        rw [h.same j i _ _ _ _ hrun' hrun] at hlock'
        exact ((h.apart i j u v hu hv (Ne.symm hj)).not_owns hlock hlock').elim
  · exact h.apart.erase i _
  · intro j j' q₁ q₂ dsn₁ dsn₂ hj hj'
    exact h.same j j' q₁ q₂ dsn₁ dsn₂ (hother hj).2 (hother hj').2
  · intro j q' dsn' hj
    refine Or.inr ?_
    change ((view s.config.db u.writes).admins.lookup q'.form.admin).isSome
    rw [h.same j i q' q dsn' dsn (hother hj).2 hrun, hadmins, AList.lookup_insert]
    rfl
  · have hnone : ∀ j, (s.runs j).wrote = none := by
      rcases h.settled i q dsn hrun with hnone | hsome
      · exact hnone
      · rw [hfree] at hsome
        cases hsome
    have hbefore : s.config.db.admins = d.admins := by
      rcases h.one with ⟨-, hbefore⟩ | ⟨j, username, v, hj, -⟩
      · exact hbefore
      · rw [hnone j] at hj
        cases hj
    refine Or.inr ⟨i, q.form.admin, row, ?_, fun j hj => ?_, ?_⟩
    · change (Function.update s.runs i _ i).wrote = _
      rw [Function.update_self]
      rfl
    · change (Function.update s.runs i _ j).wrote = _
      rw [Function.update_of_ne hj, hnone j]
    · change (view s.config.db u.writes).admins = _
      rw [hadmins, hbefore]

theorem Ok.step (h : s.Ok d) {a : InstallAct} (ha : s.Alone a) (hstep : s.step a = some s') :
    s'.Ok d := by
  cases a with
  | call i q =>
      simp only [Installs.step] at hstep
      split at hstep
      case h_1 hrun _ =>
        obtain rfl := Option.some.inj hstep
        refine h.setRun (fun u hu => ?_) (by rw [hrun]; rfl) (fun q dsn he => by cases he)
        rw [hrun] at hu
        cases hu
      case h_2 hrun _ =>
        obtain rfl := Option.some.inj hstep
        refine h.setRun (fun u hu => ?_) (by rw [hrun]; rfl) (fun q dsn he => by cases he)
        rw [hrun] at hu
        cases hu
      case h_3 => cases hstep
  | connect i dsn =>
      simp only [Installs.step] at hstep
      split at hstep
      case h_1 hrun =>
        obtain rfl := Option.some.inj hstep
        refine h.setRun (fun u hu => ?_) (by rw [hrun]; rfl) (fun q dsn he => by cases he)
        rw [hrun] at hu
        cases hu
      case h_2 hrun => exact h.start hrun hstep
      case h_3 => cases hstep
  | exec i choice =>
      simp only [Installs.step] at hstep
      split at hstep
      case h_1 q dsn hrun =>
        refine h.exec hstep (by rw [hrun]; rfl) (fun u p' ws hserves hadv => ?_) (fun q' dsn' he =>
          ?_)
        · rw [hrun] at hserves
          exact hserves.count hadv
        · obtain ⟨rfl, rfl, hzero⟩ := InstallRun.counted.inj he
          refine Or.inr ⟨fun j q' dsn' hj => ?_, fun j => h.one.none_wrote hzero j⟩
          exact ha q dsn hrun hzero j q' dsn' hj
      case h_2 q dsn n hrun =>
        refine h.exec hstep (by rw [hrun]) (fun u p' ws hserves hadv => ?_) (fun q' dsn' he => ?_)
        · rw [hrun] at hserves
          exact hserves.exec hadv
        · rw [hrun]
          exact Or.inl he
      case h_3 => cases hstep
  | finish i =>
      simp only [Installs.step] at hstep
      split at hstep
      case h_1 q dsn n r hrun hprog =>
        obtain ⟨u, hu, hdone⟩ := Option.map_eq_some_iff.mp hprog
        obtain ⟨c, hc, rfl⟩ := Option.map_eq_some_iff.mp hstep
        rw [System.step, hu, Option.bind_some, Config.finish, hdone] at hc
        obtain rfl := Option.some.inj hc
        exact h.commit hrun hu hdone
      case h_2 q dsn n err hrun hprog =>
        obtain ⟨u, hu, hdone⟩ := Option.map_eq_some_iff.mp hprog
        obtain ⟨c, hc, rfl⟩ := Option.map_eq_some_iff.mp hstep
        rw [System.step, hu, Option.bind_some, Config.finish, hdone] at hc
        obtain rfl := Option.some.inj hc
        exact h.drop (by rw [hrun]; rfl)
      case h_3 => cases hstep
  | abort i err =>
      simp only [Installs.step] at hstep
      split at hstep
      case h_1 hrun | h_2 hrun =>
        obtain ⟨c, hc, rfl⟩ := Option.map_eq_some_iff.mp hstep
        obtain rfl := Option.some.inj hc
        exact h.drop (by rw [hrun]; rfl)
      case h_3 => cases hstep
  | save i out =>
      simp only [Installs.step] at hstep
      split at hstep
      case h_1 q dsn hrun =>
        obtain rfl := Option.some.inj hstep
        obtain ⟨sessionKey, rfl⟩ := ha
        refine h.setRun (fun u hu => ?_) (by rw [hrun]; rfl) (fun q dsn he => by cases he)
        rw [hrun] at hu
        cases hu
      case h_2 => cases hstep

theorem start_ok (d : InstallDB) : (Installs.start d).Ok d := by
  constructor
  · intro i u hu
    cases hu
  · intro t u s s' ht
    cases ht
  · intro i j q q' dsn dsn' hi
    cases hi
  · intro i q dsn hi
    cases hi
  · exact Or.inl ⟨fun i => rfl, rfl⟩

end Installs

variable {acts : List InstallAct} {s : Installs}

/-- Only one installation wins while calls that overlap from their count on install the same
administrator, and while the config file of a committed one is written. -/
theorem install_one_wins (h : Machine.run Installs.step (Installs.start d) acts = some s)
    (halone : Machine.Along Installs.step Installs.Alone (Installs.start d) acts) :
    s.OneInstalled d := by
  have hok : s.Ok d :=
    Machine.run_invariant (Installs.start_ok d) (fun _ _ _ hs ha hstep => hs.step ha hstep) halone h
  exact hok.one

def tinyInstaller (admin : Text) : Installer :=
  ⟨⟨"Shop".toList, "https://shop/".toList, admin, "secret1".toList, "secret1".toList⟩,
    "dufaka.json".toList, .ok "hash".toList⟩

def emptyInstallDB : InstallDB := ⟨∅, fun _ => none, fun _ => none, fun _ => none⟩

/-- Two calls count before either of them inserts; the second one has its turn after the first. -/
def racingInstalls : List InstallAct :=
  [.call 0 (tinyInstaller "alice".toList), .call 1 (tinyInstaller "bob".toList),
    .connect 0 (.ok []),
    .connect 1 (.ok []), .exec 0 [], .exec 1 []] ++ List.replicate 20 (.exec 0 []) ++ [.finish 0] ++
    List.replicate 14 (.exec 1 []) ++ [.finish 1, .save 0 (.saved []), .save 1 (.saved [])]

def brokenInstall : List InstallAct :=
  [.call 0 (tinyInstaller "alice".toList), .connect 0 (.ok [])] ++ List.replicate 21 (.exec 0 []) ++
    [.finish 0, .save 0 (.noFile "permission denied".toList)]

/-- Two calls that install the same administrator count one after the other. -/
theorem install_one_wins_twice :
    ∃ s, Machine.run Installs.step (Installs.start emptyInstallDB)
      [.call 0 (tinyInstaller "alice".toList), .connect 0 (.ok []), .exec 0 [],
        .call 1 (tinyInstaller "alice".toList), .connect 1 (.ok []), .exec 1 []] = some s ∧
      s.OneInstalled emptyInstallDB := by
  have halone : Machine.Along Installs.step Installs.Alone (Installs.start emptyInstallDB)
      [.call 0 (tinyInstaller "alice".toList), .connect 0 (.ok []), .exec 0 [],
        .call 1 (tinyInstaller "alice".toList), .connect 1 (.ok []), .exec 1 []] := by
    refine ⟨trivial, fun s₁ h₁ =>
      ⟨trivial, fun s₂ h₂ => ⟨fun q dsn hq _ j q' dsn' hj => ?_, fun s₃ h₃ =>
      ⟨trivial, fun s₄ h₄ => ⟨trivial,
        fun s₅ h₅ => ⟨fun q dsn hq _ j q' dsn' hj => ?_, fun _ _ => trivial⟩⟩⟩⟩⟩⟩
    · obtain rfl := Option.some.inj h₁
      obtain rfl := Option.some.inj h₂
      by_cases hj₀ : j = 0
      · subst hj₀
        cases hj
      · have hidle : Function.update (Function.update (fun _ => InstallRun.idle) 0 _) 0 _ j =
            .counted q' dsn' 0 :=
          hj
        rw [Function.update_of_ne hj₀, Function.update_of_ne hj₀] at hidle
        cases hidle
    · obtain rfl := Option.some.inj h₁
      obtain rfl := Option.some.inj h₂
      obtain rfl := Option.some.inj h₃
      obtain rfl := Option.some.inj h₄
      obtain rfl := Option.some.inj h₅
      obtain ⟨rfl, -⟩ := InstallRun.began.inj hq
      by_cases hj₀ : j = 0
      · subst hj₀
        obtain ⟨rfl, -⟩ := InstallRun.counted.inj hj
        rfl
      · by_cases hj₁ : j = 1
        · subst hj₁
          cases hj
        · have hidle : Function.update
              (Function.update (Function.update (Function.update (Function.update
              (fun _ => InstallRun.idle) 0 _) 0 _) 0 _) 1 _) 1 _ j = .counted q' dsn' 0 := hj
          simp only [Function.update_of_ne hj₀, Function.update_of_ne hj₁] at hidle
          cases hidle
  exact ⟨_, rfl, install_one_wins rfl halone⟩

theorem install_two_win :
    (∃ s, Machine.run Installs.step (Installs.start emptyInstallDB) racingInstalls = some s ∧
      ¬ s.OneInstalled emptyInstallDB) ∧
    ∃ s, Machine.run Installs.step (Installs.start emptyInstallDB) brokenInstall = some s ∧
      (s.runs 0).error = some "配置文件没有写成：permission denied".toList ∧
      s.config.db.admins.keys = ["alice".toList] := by
  constructor
  · have hrun : (Machine.run Installs.step (Installs.start emptyInstallDB) racingInstalls).map
        (fun s => ((s.runs 0).wrote, (s.runs 1).wrote)) = some (some "alice".toList,
          some "bob".toList) := by
      decide
    obtain ⟨s, hs, hwrote⟩ := Option.map_eq_some_iff.mp hrun
    obtain ⟨halice, hbob⟩ := Prod.mk.inj hwrote
    refine ⟨s, hs, ?_⟩
    rintro (⟨hnone, -⟩ | ⟨i, username, u, -, hothers, -⟩)
    · rw [hnone 0] at halice
      cases halice
    · by_cases hi : i = 0
      · rw [hothers 1 (by omega)] at hbob
        cases hbob
      · rw [hothers 0 (Ne.symm hi)] at halice
        cases halice
  · have hrun : (Machine.run Installs.step (Installs.start emptyInstallDB) brokenInstall).map
        (fun s => ((s.runs 0).error, s.config.db.admins.keys)) =
          some (some "配置文件没有写成：permission denied".toList, ["alice".toList]) := by
      decide
    obtain ⟨s, hs, hboth⟩ := Option.map_eq_some_iff.mp hrun
    obtain ⟨herror, hkeys⟩ := Prod.mk.inj hboth
    exact ⟨s, hs, herror, hkeys⟩

end Dufaka
