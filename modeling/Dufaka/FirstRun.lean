import Dufaka.Encodings
import Dufaka.JsonText
import Dufaka.Machine
import Dufaka.Text

/-!
# The first run

The config file that the installer writes, and the guard in front of every page, which sends
visitors to the installer until the shop is installed. A database that does not answer looks like
one without a shop; it is the config file that keeps the installer closed then. The pool remembers
that it has seen an administrator.
-/

namespace Dufaka
open Encoding JsonText

/-! ### The config file -/

/-- `install.File`. -/
structure ConfigFile where
  databaseURL : Text
  sessionKey : Text
  baseURL : Text
  addr : Text
  deriving DecidableEq

def ConfigFile.fields (f : ConfigFile) : List (Text × Text) :=
  [("database_url".toList, f.databaseURL), ("session_key".toList, f.sessionKey),
    ("base_url".toList, f.baseURL)] ++ if f.addr = [] then [] else [("addr".toList, f.addr)]

def indented : List (Text × Text) → Text
  | [] => "\n\x7d".toList
  | [kv] =>
      "\n  ".toList ++ (renderString kv.1 ++ ':' :: ' ' :: (renderString kv.2 ++ "\n\x7d".toList))
  | kv :: kv' :: kvs =>
      "\n  ".toList ++ (renderString kv.1 ++ ':' :: ' ' ::
        (renderString kv.2 ++ ',' :: indented (kv' :: kvs)))

def saveConfig (f : ConfigFile) : Bytes := utf8 ('{' :: (indented f.fields ++ ['\n']))

def configText (old : Text) : Value → Option Text
  | .string s => some s
  | .null => some old
  | _ => none

/-- One field of the object. Names are compared without regard to case. -/
def setConfigField (f : ConfigFile) (field : Text × Value) : Option ConfigFile :=
  let name := foldName field.1
  if name = "database_url".toList then
    (configText f.databaseURL field.2).map (fun v => { f with databaseURL := v })
  else if name = "session_key".toList then
    (configText f.sessionKey field.2).map (fun v => { f with sessionKey := v })
  else if name = "base_url".toList then
    (configText f.baseURL field.2).map (fun v => { f with baseURL := v })
  else if name = "addr".toList then (configText f.addr field.2).map (fun v => { f with addr := v })
  else some f

/-- `LoadConfig` of a file that can be read. -/
def loadConfig (raw : Bytes) : Option ConfigFile :=
  match parse (utf8Decode 0 raw) with
  | some (.object fields) => fields.foldlM setConfigField ⟨[], [], [], []⟩
  | some .null => some ⟨[], [], [], []⟩
  | _ => none

/-! ### Reading back -/

theorem skipSpace_append {w : Text} (hw : w.all JsonText.isSpace = true) (s : Text) :
    skipSpace (w ++ s) = skipSpace s := by
  induction w with
  | nil => rfl
  | cons c w ih =>
      rw [List.all_cons, Bool.and_eq_true] at hw
      rw [List.cons_append, skipSpace, List.dropWhile_cons_of_pos hw.1]
      exact ih hw.2

theorem value_blank {w : Text} (hw : w.all JsonText.isSpace = true) (fuel depth : ℕ) (s : Text) :
    value (fuel + 1) depth (w ++ s) = value (fuel + 1) depth s := by
  rw [value, value, skipSpace_append hw]

theorem value_brace_blank {w : Text} (hw : w.all JsonText.isSpace = true) (fuel depth : ℕ)
    (s : Text) :
    value (fuel + 1) depth ('{' :: (w ++ s)) = value (fuel + 1) depth ('{' :: s) := by
  rw [value, value, skipSpace_cons (by decide), skipSpace_cons (by decide)]
  simp only [skipSpace_append hw]

theorem members_blank {w : Text} (hw : w.all JsonText.isSpace = true) (fuel depth : ℕ) (s : Text) :
    members (fuel + 1) depth (w ++ s) = members (fuel + 1) depth s := by
  rw [members, members, fieldName, skipSpace_append hw, ← fieldName]

theorem blank_indent : "\n  ".toList.all JsonText.isSpace = true := rfl

theorem blank_space : " ".toList.all JsonText.isSpace = true := rfl

theorem members_indented {kvs : List (Text × Text)} (hne : kvs ≠ []) {fuel : ℕ}
    (hfuel : kvs.length < fuel) (depth : ℕ) (rest : Text) :
    members fuel depth (indented kvs ++ rest) =
      some (kvs.map (fun kv => (kv.1, .string kv.2)), rest) := by
  induction kvs generalizing fuel with
  | nil => exact absurd rfl hne
  | cons kv kvs ih =>
      obtain ⟨fuel, rfl⟩ : ∃ n, fuel = n + 2 := ⟨fuel - 2, by rw [List.length_cons] at hfuel; omega⟩
      cases kvs with
      | nil =>
          have hv : value (fuel + 1) depth (" ".toList ++
              (renderString kv.2 ++ ("\n\x7d".toList ++ rest))) =
              some (.string kv.2, "\n\x7d".toList ++ rest) := by
            rw [value_blank blank_space]
            exact value_renderString fuel depth kv.2 _
          have htext : indented [kv] ++ rest = "\n  ".toList ++ (renderString kv.1 ++
              ':' :: (" ".toList ++ (renderString kv.2 ++ ("\n\x7d".toList ++ rest)))) := by
            simp [indented]
          have hclose : skipSpace ("\n\x7d".toList ++ rest) = '}' :: rest := rfl
          rw [htext, members_blank blank_indent, members, fieldName_renderString]
          simp only [Option.bind_eq_bind, Option.bind_some, afterColon_cons, hv, hclose]
          rfl
      | cons kv' kvs =>
          have hv : value (fuel + 1) depth (" ".toList ++ (renderString kv.2 ++
              ',' :: (indented (kv' :: kvs) ++ rest))) =
                some (.string kv.2, ',' :: (indented (kv' :: kvs) ++ rest)) := by
            rw [value_blank blank_space]
            exact value_renderString fuel depth kv.2 _
          have htext : indented (kv :: kv' :: kvs) ++ rest = "\n  ".toList ++ (renderString kv.1 ++
              ':' :: (" ".toList ++ (renderString kv.2 ++ ',' ::
                (indented (kv' :: kvs) ++ rest)))) := by
            simp [indented]
          have hlen : (kv' :: kvs).length < fuel + 1 := by
            rw [List.length_cons] at hfuel
            omega
          have hms : members (fuel + 1) depth (indented (kv' :: kvs) ++ rest) = _ :=
            ih (List.cons_ne_nil _ _) hlen
          rw [htext, members_blank blank_indent]
          exact members_cons hv hms

theorem value_indented {kvs : List (Text × Text)} (hne : kvs ≠ []) {fuel : ℕ}
    (hfuel : kvs.length < fuel) (depth : ℕ) (rest : Text) :
    value (fuel + 1) (depth + 1) ('{' :: (indented kvs ++ rest)) =
      some (.object (kvs.map (fun kv => (kv.1, .string kv.2))), rest) := by
  have hms := members_indented hne hfuel depth rest
  obtain ⟨key, tail, htext⟩ : ∃ key tail,
      indented kvs ++ rest = "\n  ".toList ++ (renderString key ++ tail) := by
    cases kvs with
    | nil => exact absurd rfl hne
    | cons kv kvs =>
        cases kvs with
        | nil => exact ⟨kv.1, _, by rw [indented, List.append_assoc, List.append_assoc]⟩
        | cons kv' kvs => exact ⟨kv.1, _, by rw [indented, List.append_assoc, List.append_assoc]⟩
  obtain ⟨fuel, rfl⟩ : ∃ n, fuel = n + 1 := ⟨fuel - 1, by omega⟩
  rw [htext, members_blank blank_indent] at hms
  rw [htext, value_brace_blank blank_indent]
  exact value_object hms

/-- What `SaveConfig` has written is what `LoadConfig` reads. -/
theorem loadConfig_saveConfig (f : ConfigFile) : loadConfig (saveConfig f) = some f := by
  have hne : f.fields ≠ [] := List.cons_ne_nil _ _
  have hlen : f.fields.length ≤ 4 := by
    unfold ConfigFile.fields
    split_ifs <;> simp
  have hparse : parse ('{' :: (indented f.fields ++ ['\n'])) =
      some (.object (f.fields.map (fun kv => (kv.1, .string kv.2)))) := by
    obtain ⟨fuel, hfuel⟩ : ∃ fuel,
        2 * ('{' :: (indented f.fields ++ ['\n'])).length + 2 = fuel + 1 :=
      ⟨_, rfl⟩
    have hlt : f.fields.length < fuel := by
      rw [List.length_cons, List.length_append, List.length_singleton] at hfuel
      omega
    have hvalue := value_indented hne hlt 9999 ['\n']
    rw [parse, hfuel, show maxNestingDepth = 9999 + 1 from rfl, hvalue]
    rfl
  rw [loadConfig, saveConfig, utf8Decode_utf8, hparse]
  change (f.fields.map (fun kv => (kv.1, Value.string kv.2))).foldlM setConfigField
    ⟨[], [], [], []⟩ = some f
  unfold ConfigFile.fields
  split_ifs with haddr
  · obtain ⟨url, key, base, addr⟩ := f
    subst haddr
    rfl
  · rfl

/-! ### The guard -/

/-- The pages that the guard tells apart. -/
inductive Page where
  | asset
  | installer
  | other

def Page.of (path : Text) : Page :=
  if "/assets/".toList.isPrefixOf path || path = "/favicon.ico".toList then .asset
  else if path = "/install".toList || path = "/install/test".toList || path =
    "/do-install".toList then
    .installer
  else .other

def installHandler (post : Bool) (path : Text) : Option Bool :=
  if !post && path = "/install".toList then some false
  else if post && path = "/install/test".toList then some false
  else if post && path = "/do-install".toList then some true
  else none

inductive SiteAnswer where
  | page
  | unavailable
  | toInstaller
  | toAdmin
  | installer

/-- How far a request has come: `admitted` is past the guard and before the handler's own check,
`installing` in `install.Run`, `written` behind it. -/
inductive Visit where
  | idle
  | admitted (run : Bool)
  | installing
  | written
  | answered (a : SiteAnswer)

structure FirstRun where
  /-- The pool of the process. -/
  db : Option ℕ
  /-- The pools that have seen an administrator. -/
  seen : ℕ → Bool
  file : Option Bytes
  visits : ℕ → Visit

inductive FirstRunAct where
  /-- A request meets the guard, whose questions for the number of administrators are answered with
  `first` and `second`, or with an error. -/
  | visit (i : ℕ) (post : Bool) (path : Text) (first second : Option ℕ)
  /-- The handler asks again. -/
  | check (i : ℕ) (count : Option ℕ)
  /-- `install.Run` comes through, and has written the file. -/
  | save (i : ℕ) (f : ConfigFile)
  /-- `install.Run` fails, which may be while it writes the file. -/
  | fail (i : ℕ) (left : Option Bytes)
  | connect (i : ℕ) (pool : Option ℕ)
  | restart (pool : Option ℕ)

namespace FirstRun

/-- The config file can be read and names a database. -/
def saved (s : FirstRun) : Bool :=
  match s.file.bind loadConfig with
  | none => false
  | some f => f.databaseURL ≠ []

def ask (s : FirstRun) (count : Option ℕ) : Bool × FirstRun :=
  match s.db with
  | none => (false, s)
  | some k =>
      if s.seen k then (true, s)
      else
        match count with
        | none => (false, s)
        | some n =>
            if 0 < n then (true, { s with seen := Function.update s.seen k true }) else (false, s)

def setVisit (s : FirstRun) (i : ℕ) (v : Visit) : FirstRun :=
  { s with visits := Function.update s.visits i v }

def guard (s : FirstRun) (i : ℕ) (post : Bool) (path : Text) (first second : Option ℕ) : FirstRun :=
  match Page.of path with
  | .asset => s.setVisit i (.answered .page)
  | .installer =>
      let q := s.ask first
      if !q.1 && s.saved then q.2.setVisit i (.answered .unavailable)
      else
        match installHandler post path with
        | some run => q.2.setVisit i (.admitted run)
        | none => q.2.setVisit i (.answered .page)
  | .other =>
      let q := s.ask first
      if !q.1 && s.saved then q.2.setVisit i (.answered .unavailable)
      else
        let q' := q.2.ask second
        q'.2.setVisit i (.answered (if q'.1 then .page else .toInstaller))

def step (s : FirstRun) : FirstRunAct → Option FirstRun
  | .visit i post path first second =>
      match s.visits i with
      | .idle => some (s.guard i post path first second)
      | _ => none
  | .check i count =>
      match s.visits i with
      | .admitted run =>
          let q := s.ask count
          some (q.2.setVisit i (if q.1 then .answered .toAdmin else if run then .installing
            else .answered .installer))
      | _ => none
  | .save i f =>
      match s.visits i with
      -- a connection string is never empty
      | .installing =>
          if f.databaseURL = [] then none
            else some { s.setVisit i .written with file := some (saveConfig f) }
      | _ => none
  | .fail i left =>
      match s.visits i with
      | .installing => some { s.setVisit i (.answered .installer) with file := left.or s.file }
      | _ => none
  | .connect i pool =>
      match s.visits i, pool with
      | .written, none => some (s.setVisit i (.answered .installer))
      | .written, some k =>
          if s.seen k then none else some { s.setVisit i (.answered .installer) with db := some k }
      | _, _ => none
  | .restart pool => some ⟨pool, fun _ => false, s.file, fun _ => .idle⟩

/-! ### Closed for good -/

section Asking
variable {s : FirstRun} {count : Option ℕ}

theorem ask_frame (s : FirstRun) (count : Option ℕ) :
    (s.ask count).2.db = s.db ∧ (s.ask count).2.file = s.file ∧
    (s.ask count).2.visits = s.visits := by
  unfold ask
  split
  · exact ⟨rfl, rfl, rfl⟩
  · split_ifs
    · exact ⟨rfl, rfl, rfl⟩
    · split
      · exact ⟨rfl, rfl, rfl⟩
      · split_ifs
        · exact ⟨rfl, rfl, rfl⟩
        · exact ⟨rfl, rfl, rfl⟩

def Seen (s : FirstRun) : Prop := ∃ k, s.db = some k ∧ s.seen k = true

theorem ask_of_seen (h : s.Seen) : s.ask count = (true, s) := by
  obtain ⟨k, hk, hseen⟩ := h
  unfold ask
  rw [hk]
  exact if_pos hseen

theorem seen_of_ask (h : (s.ask count).1 = true) : (s.ask count).2.Seen := by
  unfold ask at h ⊢
  cases hdb : s.db with
  | none =>
      rw [hdb] at h
      cases h
  | some k =>
      simp only [hdb] at h ⊢
      split_ifs at h ⊢ with hseen
      · exact ⟨k, hdb, hseen⟩
      · cases count with
        | none => cases h
        | some n =>
            simp only [] at h ⊢
            split_ifs at h ⊢
            exact ⟨k, rfl, Function.update_self ..⟩

/-- The answer neither comes from the installer nor leads to it. -/
def Outside (a : SiteAnswer) : Prop := a ≠ .toInstaller ∧ a ≠ .installer

/-- The file names a database, and whoever is on the way to the installer will be turned away there;
the answers are those of the state `s₀` and others that have nothing to do with the installer. -/
structure Closed (f : ConfigFile) (s₀ s : FirstRun) : Prop where
  file : s.file = some (saveConfig f)
  visits : ∀ i, s.visits i = .idle ∨
    (∃ a, s.visits i = .answered a ∧ (s₀.visits i = .answered a ∨ Outside a)) ∨
    (∃ run, s.visits i = .admitted run) ∧ s.Seen

variable {f : ConfigFile} {s₀ : FirstRun} {i : ℕ}

theorem Closed.saved (h : Closed f s₀ s) (hf : f.databaseURL ≠ []) : s.saved = true := by
  rw [FirstRun.saved, h.file, Option.bind_some, loadConfig_saveConfig]
  exact decide_eq_true hf

theorem Closed.ask (h : Closed f s₀ s) (count : Option ℕ) : Closed f s₀ (s.ask count).2 := by
  obtain ⟨-, hfile, hvisits⟩ := ask_frame s count
  refine ⟨hfile.trans h.file, fun i => ?_⟩
  rw [hvisits]
  rcases h.visits i with hi | hi | ⟨hi, hseen⟩
  · exact Or.inl hi
  · exact Or.inr (Or.inl hi)
  · refine Or.inr (Or.inr ⟨hi, ?_⟩)
    rw [ask_of_seen hseen]
    exact hseen

theorem Closed.setVisit (h : Closed f s₀ s) {v : Visit}
    (hv : (∃ a, v = .answered a ∧ Outside a) ∨ (∃ run, v = .admitted run) ∧ s.Seen) :
    Closed f s₀ (s.setVisit i v) := by
  refine ⟨h.file, fun j => ?_⟩
  have hat : (s.setVisit i v).visits j = Function.update s.visits i v j := rfl
  rw [hat]
  by_cases hj : j = i
  · subst hj
    rw [Function.update_self]
    rcases hv with ⟨a, hv, ha⟩ | hv
    · exact Or.inr (Or.inl ⟨a, hv, Or.inr ha⟩)
    · exact Or.inr (Or.inr hv)
  · rw [Function.update_of_ne hj]
    exact h.visits j

theorem Closed.answer (h : Closed f s₀ s) {a : SiteAnswer} (ha : Outside a) :
    Closed f s₀ (s.setVisit i (.answered a)) := h.setVisit (Or.inl ⟨a, rfl, ha⟩)

theorem outside_page : Outside .page := ⟨SiteAnswer.noConfusion, SiteAnswer.noConfusion⟩

theorem outside_unavailable : Outside .unavailable :=
  ⟨SiteAnswer.noConfusion, SiteAnswer.noConfusion⟩

theorem outside_toAdmin : Outside .toAdmin := ⟨SiteAnswer.noConfusion, SiteAnswer.noConfusion⟩

theorem Closed.guard (h : Closed f s₀ s) (hf : f.databaseURL ≠ []) (post : Bool) (path : Text)
    (first second : Option ℕ) : Closed f s₀ (s.guard i post path first second) := by
  -- the file is there, so past the guard the database has answered
  have hpast : ¬ (!(s.ask first).1 && s.saved) = true → (s.ask first).2.Seen := by
    intro hno
    rw [h.saved hf, Bool.and_true, Bool.not_eq_true', Bool.not_eq_false] at hno
    exact seen_of_ask hno
  unfold FirstRun.guard
  cases Page.of path with
  | asset => exact h.answer outside_page
  | installer =>
      simp only []
      split_ifs with hclosed
      · exact (h.ask first).answer outside_unavailable
      · cases installHandler post path with
        | none => exact (h.ask first).answer outside_page
        | some run => exact (h.ask first).setVisit (Or.inr ⟨⟨run, rfl⟩, hpast hclosed⟩)
  | other =>
      simp only []
      by_cases hclosed : (!(s.ask first).1 && s.saved) = true
      · rw [if_pos hclosed]
        exact (h.ask first).answer outside_unavailable
      · rw [if_neg hclosed, ask_of_seen (hpast hclosed)]
        exact (h.ask first).answer outside_page

theorem Closed.step {s' : FirstRun} {a : FirstRunAct} (h : Closed f s₀ s) (hf : f.databaseURL ≠ [])
    (hs : s.step a = some s') : Closed f s₀ s' := by
  have houtside : ∀ i, s.visits i ≠ .installing ∧ s.visits i ≠ .written := by
    intro i
    rcases h.visits i with hi | ⟨a, hi, -⟩ | ⟨⟨run, hi⟩, -⟩
    all_goals
      rw [hi]
      exact ⟨Visit.noConfusion, Visit.noConfusion⟩
  cases a with
  | visit i post path first second =>
      simp only [FirstRun.step] at hs
      split at hs
      · obtain rfl := Option.some.inj hs
        exact h.guard hf post path first second
      · cases hs
  | check i count =>
      simp only [FirstRun.step] at hs
      split at hs
      · rename_i run hi
        obtain rfl := Option.some.inj hs
        have hseen : s.Seen := by
          rcases h.visits i with hi' | ⟨a, hi', -⟩ | ⟨-, hseen⟩
          · cases hi.symm.trans hi'
          · cases hi.symm.trans hi'
          · exact hseen
        rw [ask_of_seen hseen]
        exact h.answer outside_toAdmin
      · cases hs
  | save i f' =>
      simp only [FirstRun.step] at hs
      split at hs
      · rename_i hi
        exact absurd hi (houtside i).1
      · cases hs
  | fail i left =>
      simp only [FirstRun.step] at hs
      split at hs
      · rename_i hi
        exact absurd hi (houtside i).1
      · cases hs
  | connect i pool =>
      simp only [FirstRun.step] at hs
      split at hs
      · rename_i hi
        exact absurd hi (houtside i).2
      · rename_i hi
        exact absurd hi (houtside i).2
      · cases hs
  | restart pool =>
      obtain rfl := Option.some.inj hs
      exact ⟨h.file, fun i => Or.inl rfl⟩

theorem run_closed {s' : FirstRun} {as : List FirstRunAct} (h : Closed f s₀ s)
    (hf : f.databaseURL ≠ []) (hr : Machine.run FirstRun.step s as = some s') :
    Closed f s₀ s' := by
  induction as generalizing s with
  | nil =>
      obtain rfl := Option.some.inj hr
      exact h
  | cons a as ih =>
      obtain ⟨s₁, ha, has⟩ := Machine.run_cons.mp hr
      exact ih (h.step hf ha) has

/-- Once the installer has written its file and nobody is inside it, no request reaches
`install.Run` again or is sent to the installer, whatever the database answers or fails to answer
and however often the process restarts; and the file is read as it was written. -/
theorem installer_stays_closed {s' : FirstRun} {as : List FirstRunAct} (hf : f.databaseURL ≠ [])
    (hfile : s.file = some (saveConfig f)) (hquiet : ∀ i, s.visits i = .idle ∨ ∃ a,
      s.visits i = .answered a)
    (hr : Machine.run FirstRun.step s as = some s') :
    (∀ i, s'.visits i ≠ .installing) ∧
    (∀ i a, s'.visits i = .answered a → s.visits i = .answered a ∨ a ≠ .toInstaller ∧
      a ≠ .installer) ∧
    s'.file.bind loadConfig = some f := by
  have h : Closed f s s := by
    refine ⟨hfile, fun i => ?_⟩
    rcases hquiet i with hi | ⟨a, hi⟩
    · exact Or.inl hi
    · exact Or.inr (Or.inl ⟨a, hi, Or.inl hi⟩)
  have h' := run_closed h hf hr
  refine ⟨fun i hi => ?_, fun i a hi => ?_, ?_⟩
  · rcases h'.visits i with hv | ⟨a, hv, -⟩ | ⟨⟨run, hv⟩, -⟩
    · cases hi.symm.trans hv
    · cases hi.symm.trans hv
    · cases hi.symm.trans hv
  · rcases h'.visits i with hv | ⟨a', hv, ha⟩ | ⟨⟨run, hv⟩, -⟩
    · cases hi.symm.trans hv
    · obtain rfl := Visit.answered.inj (hi.symm.trans hv)
      exact ha
    · cases hi.symm.trans hv
  · rw [h'.file, Option.bind_some, loadConfig_saveConfig]

end Asking

def downConfig : ConfigFile := ⟨"postgres://shop".toList, ['k'], "https://shop".toList, []⟩

def downShop : FirstRun := ⟨none, fun _ => false, some (saveConfig downConfig), fun _ => .idle⟩

def downVisits : List FirstRunAct :=
  [.restart (some 1), .visit 0 true "/do-install".toList (some 1) none, .check 0 none]

theorem downVisits_run : (Machine.run step downShop downVisits).isSome = true := by rfl

theorem installer_stays_closed_down : ∃ s', Machine.run step downShop downVisits = some s' ∧
    ∀ i, s'.visits i ≠ .installing := by
  have hf : downConfig.databaseURL ≠ [] := by decide
  have hquiet : ∀ i, downShop.visits i = .idle ∨ ∃ a, downShop.visits i = .answered a :=
    fun _ => Or.inl rfl
  obtain ⟨s', hr⟩ := Option.isSome_iff_exists.mp downVisits_run
  exact ⟨s', hr, (installer_stays_closed hf rfl hquiet hr).1⟩

end FirstRun
end Dufaka
