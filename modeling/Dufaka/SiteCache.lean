import Dufaka.Checkout
import Dufaka.Machine
import Dufaka.Settings
import Mathlib.Data.List.DropRight

/-!
# The cached site settings

`SiteOK` and `InvalidateSite` as interleaved steps: a call checks the cache and reads the generation
under the lock, reads the settings table without it, and stores what it read under the lock again,
unless the generation moved. `uint64` generations are taken as natural numbers.
-/

namespace Dufaka

/-- `store.Site`, with the columns of `Site` that a checkout reads. -/
structure SiteSettings extends Site where
  title : Text
  logo : Text
  textLogo : Text
  keywords : Text
  description : Text
  notice : Text
  footer : Text
  language : Text
  deriving DecidableEq

def SiteSettings.zero : SiteSettings := ⟨⟨false, 0⟩, [], [], [], [], [], [], [], []⟩

/-- The settings read from some rows. `sscan` is what `fmt.Sscan` reads into an integer. -/
def loadSite (sscan : Text → Option ℤ) (rows : Settings) : SiteSettings :=
  let value (key : Text) : Text := (rows key).getD []
  let set (dst key : Text) : Text := if value key ≠ [] then value key else dst
  let expireMin := if value "order_expire_time".toList ≠ [] then
    (sscan (value "order_expire_time".toList)).getD 5 else 5
  { searchPwd := value "is_open_search_pwd".toList = "1".toList
    expireMin := if expireMin ≤ 0 then 5 else expireMin
    title := set "Dufaka-Go".toList "title".toList
    logo := set [] "img_logo".toList
    textLogo := set "Dufaka-Go".toList "text_logo".toList
    keywords := set [] "keywords".toList
    description := set [] "description".toList
    notice := set [] "notice".toList
    footer := set [] "footer".toList
    language := set "zh_CN".toList "language".toList }

def siteCacheTTL : ℤ := 10000000

inductive SiteCall where
  | idle
  | loading (gen : ℕ)
  | loaded (gen : ℕ) (site : SiteSettings) (ok : Bool)
  | returned (site : SiteSettings) (ok : Bool)

/-- The end of the settings query: all rows, or an error after some of them. -/
inductive SiteRead where
  | complete
  | failed (rows : Settings)

inductive SiteAct where
  /-- A committed change of the settings. -/
  | save (t : Settings)
  | invalidate
  | tick (n : ℕ)
  | start (c : ℕ)
  | read (c : ℕ) (r : SiteRead)
  | finish (c : ℕ)

structure SiteCache where
  table : Settings
  now : ℤ
  siteCached : SiteSettings
  /-- The zero time when there is nothing cached. -/
  siteExpires : Option ℤ
  siteGen : ℕ
  calls : ℕ → SiteCall

namespace SiteCache

def fresh (t : Settings) (now : ℤ) : SiteCache := ⟨t, now, .zero, none, 0, fun _ => .idle⟩

def setCall (w : SiteCache) (c : ℕ) (p : SiteCall) : SiteCache :=
  { w with calls := Function.update w.calls c p }

def answer (sscan : Text → Option ℤ) (w : SiteCache) : SiteRead → SiteSettings × Bool
  | .complete => (loadSite sscan w.table, true)
  | .failed rows => (loadSite sscan rows, false)

def storeSite (w : SiteCache) (s : SiteSettings) : SiteCache :=
  { w with siteCached := s, siteExpires := some (w.now + siteCacheTTL) }

def step (sscan : Text → Option ℤ) (w : SiteCache) : SiteAct → Option SiteCache
  | .save t => some { w with table := t }
  | .invalidate =>
      some { w with siteGen := w.siteGen + 1, siteExpires := none, siteCached := .zero }
  | .tick n => some { w with now := w.now + n }
  | .start c =>
      match w.calls c with
      | .idle =>
          if w.siteExpires.any (fun e => w.now < e) then
            some (w.setCall c (.returned w.siteCached true))
          else some (w.setCall c (.loading w.siteGen))
      | _ => none
  | .read c r =>
      match w.calls c with
      | .loading gen => some (w.setCall c (.loaded gen (w.answer sscan r).1 (w.answer sscan r).2))
      | _ => none
  | .finish c =>
      match w.calls c with
      | .loaded gen s ok =>
          let w' := if ok ∧ w.siteGen = gen then w.storeSite s else w
          some (w'.setCall c (.returned s ok))
      | _ => none

end SiteCache

def savesIn (acts : List SiteAct) : ℕ :=
  acts.countP (fun a => match a with | .save _ => true | _ => false)

def SiteAct.isInvalidate : SiteAct → Bool
  | .invalidate => true
  | _ => false

/-- The settings changes that some invalidation has announced: those before the last one. -/
def announced (acts : List SiteAct) : ℕ := savesIn (acts.rdropWhile (fun a => !a.isInvalidate))

/-- A read among the steps, after `n` settings changes or more, answered `(s, ok)`. -/
def ReadIn (sscan : Text → Option ℤ) (w₀ : SiteCache) (acts : List SiteAct) (n : ℕ)
    (s : SiteSettings) (ok : Bool) : Prop :=
  ∃ x c r y w, acts = x ++ .read c r :: y ∧ Machine.run (SiteCache.step sscan) w₀ x = some w ∧
    n ≤ savesIn x ∧ w.answer sscan r = (s, ok)

def CompleteRead (sscan : Text → Option ℤ) (w₀ : SiteCache) (acts : List SiteAct)
    (s : SiteSettings) : Prop :=
  ∃ x c y w, acts = x ++ .read c .complete :: y ∧ Machine.run (SiteCache.step sscan) w₀ x = some w ∧
    loadSite sscan w.table = s

variable {sscan : Text → Option ℤ} {w₀ w w' : SiteCache} {acts a b : List SiteAct} {z : SiteAct}
  {n m : ℕ} {s : SiteSettings} {ok : Bool}

theorem savesIn_append : savesIn (a ++ b) = savesIn a + savesIn b := List.countP_append

theorem announced_invalidate : announced (acts ++ [.invalidate]) = savesIn acts := by
  rw [announced, List.rdropWhile_concat_neg _ _ _ (by simp [SiteAct.isInvalidate]), savesIn_append]
  rfl

theorem announced_snoc (hz : z.isInvalidate = false) :
    announced (acts ++ [z]) = announced acts := by
  rw [announced, List.rdropWhile_concat_pos _ _ _ (by simp [hz]), announced]

theorem savesIn_le_announced : savesIn a ≤ announced (a ++ .invalidate :: b) := by
  induction b using List.reverseRecOn with
  | nil => exact announced_invalidate.ge
  | append_singleton b z ih =>
      have heq : a ++ .invalidate :: (b ++ [z]) = (a ++ .invalidate :: b) ++ [z] := by simp
      rw [heq]
      cases hz : z.isInvalidate with
      | false => rwa [announced_snoc hz]
      | true =>
          cases z <;> cases hz
          rw [announced_invalidate, savesIn_append]
          omega

theorem ReadIn.snoc (h : ReadIn sscan w₀ acts n s ok) : ReadIn sscan w₀ (acts ++ [z]) n s ok := by
  obtain ⟨x, c, r, y, w, rfl, hx, hn, hr⟩ := h
  exact ⟨x, c, r, y ++ [z], w, by simp, hx, hn, hr⟩

theorem ReadIn.mono (h : ReadIn sscan w₀ acts n s ok) (hm : m ≤ n) :
    ReadIn sscan w₀ acts m s ok := by
  obtain ⟨x, c, r, y, w, hacts, hx, hn, hr⟩ := h
  exact ⟨x, c, r, y, w, hacts, hx, hm.trans hn, hr⟩

/-- An answer with `ok` read all of the table. -/
theorem ReadIn.complete (h : ReadIn sscan w₀ acts n s true) : CompleteRead sscan w₀ acts s := by
  obtain ⟨x, c, r, y, w, hacts, hx, -, hr⟩ := h
  cases r with
  | complete =>
      have hs := congrArg Prod.fst hr
      exact ⟨x, c, y, w, hacts, hx, hs⟩
  | failed rows =>
      have hok := congrArg Prod.snd hr
      cases hok

/-- The read that is taken now comes after all the changes so far. -/
theorem readIn_now (h : Machine.run (SiteCache.step sscan) w₀ acts = some w) (c : ℕ) (r : SiteRead)
    (hn : n ≤ savesIn acts) :
    ReadIn sscan w₀ (acts ++ [.read c r]) n (w.answer sscan r).1 (w.answer sscan r).2 :=
  ⟨acts, c, r, [], w, rfl, h, hn, rfl⟩

theorem announced_le_savesIn : announced acts ≤ savesIn acts := by
  have h : acts.rdropWhile (fun a => !a.isInvalidate) <+: acts := List.rdropWhile_prefix _ _
  obtain ⟨y, hy⟩ := h
  have hsum := savesIn_append (a := acts.rdropWhile (fun a => !a.isInvalidate)) (b := y)
  rw [hy] at hsum
  rw [announced]
  omega

/-- What a call holds at generation `gen`: a load that would still be stored read everything
announced. -/
def SiteCall.Sound (sscan : Text → Option ℤ) (w₀ : SiteCache) (acts : List SiteAct) (gen : ℕ) :
    SiteCall → Prop
  | .idle => True
  | .loading g => g ≤ gen
  | .loaded g s ok => g ≤ gen ∧ ReadIn sscan w₀ acts 0 s ok ∧
      (g = gen → ReadIn sscan w₀ acts (announced acts) s ok)
  | .returned s ok => ReadIn sscan w₀ acts 0 s ok

structure SiteCache.Sound (sscan : Text → Option ℤ) (w₀ : SiteCache) (acts : List SiteAct)
    (w : SiteCache) : Prop where
  cached : w.siteExpires = none ∧ w.siteCached = .zero ∨
    ReadIn sscan w₀ acts (announced acts) w.siteCached true
  call : ∀ c, (w.calls c).Sound sscan w₀ acts w.siteGen

theorem SiteCall.Sound.snoc {gen : ℕ} {p : SiteCall} (h : p.Sound sscan w₀ acts gen)
    (hz : z.isInvalidate = false) : p.Sound sscan w₀ (acts ++ [z]) gen := by
  cases p with
  | idle => trivial
  | loading g => exact h
  | loaded g s ok =>
      obtain ⟨hg, hread, hcur⟩ := h
      refine ⟨hg, hread.snoc, fun hgen => ?_⟩
      rw [announced_snoc hz]
      exact (hcur hgen).snoc
  | returned s ok => exact ReadIn.snoc h

/-- After an invalidation no load in flight is of the current generation. -/
theorem SiteCall.Sound.invalidate {gen : ℕ} {p : SiteCall} (h : p.Sound sscan w₀ acts gen) :
    p.Sound sscan w₀ (acts ++ [.invalidate]) (gen + 1) := by
  cases p with
  | idle => trivial
  | loading g =>
      have hg : g ≤ gen := h
      exact hg.trans (Nat.le_succ gen)
  | loaded g s ok =>
      obtain ⟨hg, hread, -⟩ := h
      refine ⟨by omega, hread.snoc, fun hgen => ?_⟩
      omega
  | returned s ok => exact ReadIn.snoc h

namespace SiteCache

/-- A step that leaves the cache and the generation alone and moves at most the call `c`. -/
theorem Sound.setCall (hw : Sound sscan w₀ acts w) (hz : z.isInvalidate = false) {c : ℕ}
    {p : SiteCall} (hp : p.Sound sscan w₀ (acts ++ [z]) w.siteGen) :
    Sound sscan w₀ (acts ++ [z]) (w.setCall c p) := by
  constructor
  · rcases hw.cached with hnone | hread
    · exact Or.inl hnone
    · right
      rw [announced_snoc hz]
      exact hread.snoc
  · intro d
    change ((Function.update w.calls c p) d).Sound sscan w₀ (acts ++ [z]) w.siteGen
    by_cases hd : d = c
    · rw [hd, Function.update_self]
      exact hp
    · rw [Function.update_of_ne hd]
      exact (hw.call d).snoc hz

/-- The steps of the world around: neither the cache nor a call moves. -/
theorem Sound.env (hw : Sound sscan w₀ acts w) (hz : z.isInvalidate = false)
    (hcached : w'.siteCached = w.siteCached) (hexpires : w'.siteExpires = w.siteExpires)
    (hgen : w'.siteGen = w.siteGen) (hcalls : w'.calls = w.calls) :
    Sound sscan w₀ (acts ++ [z]) w' := by
  constructor
  · rw [hcached, hexpires, announced_snoc hz]
    exact hw.cached.imp_right ReadIn.snoc
  · intro c
    rw [hgen, hcalls]
    exact (hw.call c).snoc hz

theorem Sound.storeSite (hw : Sound sscan w₀ acts w)
    (hs : ReadIn sscan w₀ acts (announced acts) s true) : Sound sscan w₀ acts (w.storeSite s) :=
  ⟨Or.inr hs, hw.call⟩

theorem Sound.step (hw : Sound sscan w₀ acts w) (hrun : Machine.run (step sscan) w₀ acts = some w)
    (h : step sscan w z = some w') : Sound sscan w₀ (acts ++ [z]) w' := by
  cases z with
  | save t =>
      obtain rfl := Option.some.inj h
      exact hw.env rfl rfl rfl rfl rfl
  | invalidate =>
      obtain rfl := Option.some.inj h
      exact ⟨Or.inl ⟨rfl, rfl⟩, fun c => (hw.call c).invalidate⟩
  | tick n =>
      obtain rfl := Option.some.inj h
      exact hw.env rfl rfl rfl rfl rfl
  | start c =>
      simp only [SiteCache.step] at h
      split at h
      · split at h
        case isTrue hlive =>
          obtain rfl := Option.some.inj h
          rcases hw.cached with ⟨hnone, -⟩ | hread
          · simp [hnone] at hlive
          · exact hw.setCall rfl (hread.mono (Nat.zero_le _)).snoc
        case isFalse =>
          obtain rfl := Option.some.inj h
          exact hw.setCall rfl (le_refl w.siteGen)
      · cases h
  | read c r =>
      simp only [SiteCache.step] at h
      split at h
      case h_1 gen hcall =>
        obtain rfl := Option.some.inj h
        have hgen : gen ≤ w.siteGen := by
          have hc := hw.call c
          rw [hcall] at hc
          exact hc
        refine hw.setCall rfl ⟨hgen, readIn_now hrun c r (Nat.zero_le _), fun _ => ?_⟩
        rw [announced_snoc rfl]
        exact readIn_now hrun c r announced_le_savesIn
      case h_2 => cases h
  | finish c =>
      simp only [SiteCache.step] at h
      split at h
      case h_1 gen s ok hcall =>
        obtain rfl := Option.some.inj h
        have hc := hw.call c
        rw [hcall] at hc
        obtain ⟨-, hread, hcur⟩ := hc
        split
        case isTrue hstore =>
          obtain ⟨rfl, hgen⟩ := hstore
          exact (hw.storeSite (hcur hgen.symm)).setCall rfl hread.snoc
        case isFalse => exact hw.setCall rfl hread.snoc
      case h_2 => cases h

theorem run_sound {t : Settings} {now : ℤ}
    (h : Machine.run (SiteCache.step sscan) (fresh t now) acts = some w) :
    Sound sscan (fresh t now) acts w := by
  have h₀ : Sound sscan (fresh t now) [] (fresh t now) := ⟨Or.inl ⟨rfl, rfl⟩, fun _ => trivial⟩
  exact Machine.run_induction h₀ (fun _ _ _ _ hrun hw hstep => hw.step hrun hstep) h

end SiteCache

/-- A started call that holds no value read before `n` settings changes. -/
def SiteCall.Since (sscan : Text → Option ℤ) (w₀ : SiteCache) (acts : List SiteAct) (n : ℕ) :
    SiteCall → Prop
  | .idle => False
  | .loading _ => True
  | .loaded _ s ok => ReadIn sscan w₀ acts n s ok
  | .returned s ok => ReadIn sscan w₀ acts n s ok

theorem SiteCall.Since.snoc {p : SiteCall} (h : p.Since sscan w₀ acts n) :
    p.Since sscan w₀ (acts ++ [z]) n := by
  cases p with
  | idle => exact h.elim
  | loading g => trivial
  | loaded g s ok => exact ReadIn.snoc h
  | returned s ok => exact ReadIn.snoc h

namespace SiteCache

theorem since_setCall {c d : ℕ} {p : SiteCall} (hd : (w.calls d).Since sscan w₀ acts n)
    (hp : d = c → p.Since sscan w₀ (acts ++ [z]) n) :
    ((w.setCall c p).calls d).Since sscan w₀ (acts ++ [z]) n := by
  change ((Function.update w.calls c p) d).Since sscan w₀ (acts ++ [z]) n
  by_cases hdc : d = c
  · rw [hdc, Function.update_self]
    exact hp hdc
  · rw [Function.update_of_ne hdc]
    exact hd.snoc

theorem since_step {d : ℕ} (hd : (w.calls d).Since sscan w₀ acts n) (hn : n ≤ savesIn acts)
    (hrun : Machine.run (step sscan) w₀ acts = some w) (h : step sscan w z = some w') :
    (w'.calls d).Since sscan w₀ (acts ++ [z]) n := by
  cases z with
  | save t =>
      obtain rfl := Option.some.inj h
      exact hd.snoc
  | invalidate =>
      obtain rfl := Option.some.inj h
      exact hd.snoc
  | tick n =>
      obtain rfl := Option.some.inj h
      exact hd.snoc
  | start c =>
      simp only [SiteCache.step] at h
      split at h
      case h_1 hcall =>
        have hne : d ≠ c := by
          rintro rfl
          rw [hcall] at hd
          exact hd
        split at h
        all_goals
          obtain rfl := Option.some.inj h
          exact since_setCall hd (fun hdc => (hne hdc).elim)
      case h_2 => cases h
  | read c r =>
      simp only [SiteCache.step] at h
      split at h
      case h_1 gen hcall =>
        obtain rfl := Option.some.inj h
        exact since_setCall hd (fun _ => readIn_now hrun c r hn)
      case h_2 => cases h
  | finish c =>
      simp only [SiteCache.step] at h
      split at h
      case h_1 gen s ok hcall =>
        obtain rfl := Option.some.inj h
        have hp : d = c → (SiteCall.returned s ok).Since sscan w₀ (acts ++ [.finish c]) n := by
          rintro rfl
          rw [hcall] at hd
          exact ReadIn.snoc hd
        split
        · exact since_setCall (w := w.storeSite s) hd hp
        · exact since_setCall hd hp
      case h_2 => cases h

/-- Just after its start a call has missed nothing that was announced. -/
theorem since_start {c : ℕ} (hw : Sound sscan w₀ acts w) (hn : n ≤ announced acts)
    (h : step sscan w (.start c) = some w') :
    (w'.calls c).Since sscan w₀ (acts ++ [.start c]) n := by
  simp only [SiteCache.step] at h
  split at h
  · split at h
    case isTrue hlive =>
      obtain rfl := Option.some.inj h
      rcases hw.cached with ⟨hnone, -⟩ | hread
      · simp [hnone] at hlive
      · have hstarted : (SiteCall.returned w.siteCached true).Since sscan w₀ (acts ++
            [.start c]) n :=
          (hread.mono hn).snoc
        simpa [setCall] using hstarted
    case isFalse =>
      obtain rfl := Option.some.inj h
      simp [setCall, SiteCall.Since]
  · cases h

/-- From its start on, a call holds no value read before the changes announced at the start. -/
theorem run_since {t : Settings} {now : ℤ} {c : ℕ} (hn : n ≤ announced a)
    (h : Machine.run (step sscan) (fresh t now) (a ++ .start c :: b) = some w) :
    (w.calls c).Since sscan (fresh t now) (a ++ .start c :: b) n := by
  have hsplit : a ++ SiteAct.start c :: b = (a ++ [.start c]) ++ b := by simp
  rw [hsplit] at h ⊢
  obtain ⟨w₂, h₂, -⟩ := Machine.run_append.mp h
  obtain ⟨w₁, h₁, hstart⟩ := Machine.run_snoc.mp h₂
  let P (acts : List SiteAct) (w : SiteCache) : Prop :=
    n ≤ savesIn acts ∧ (w.calls c).Since sscan (fresh t now) acts n
  have hP₂ : P (a ++ [.start c]) w₂ := by
    refine ⟨?_, since_start (run_sound h₁) hn hstart⟩
    rw [savesIn_append]
    have hle : announced a ≤ savesIn a := announced_le_savesIn
    omega
  have hP : P (a ++ [.start c] ++ b) w := by
    refine Machine.run_induction_from h₂ hP₂ ?_ h
    intro acts w₁ z w' hrun hw hstep
    refine ⟨?_, since_step hw.2 hw.1 hrun hstep⟩
    rw [savesIn_append]
    omega
  exact hP.2

end SiteCache

/-- After an invalidation no call that starts returns a value read before the changes it announced,
and only complete reads are cached or returned with `ok`. -/
theorem siteOK_after_invalidate {t : Settings} {now : ℤ}
    (h : Machine.run (SiteCache.step sscan) (.fresh t now) acts = some w) :
    (∀ a b e c s ok, acts = a ++ .invalidate :: (b ++ .start c :: e) → w.calls c = .returned s ok →
      ReadIn sscan (.fresh t now) acts (savesIn a) s ok) ∧
    (∀ c s, w.calls c = .returned s true → CompleteRead sscan (.fresh t now) acts s) ∧
    (w.siteExpires = none ∧ w.siteCached = .zero ∨
      CompleteRead sscan (.fresh t now) acts w.siteCached) := by
  have hsound := SiteCache.run_sound h
  refine ⟨?_, ?_, ?_⟩
  · rintro a b e c s ok rfl hcall
    have hsplit : a ++ SiteAct.invalidate :: (b ++ .start c :: e) =
        (a ++ .invalidate :: b) ++ .start c :: e := by simp
    rw [hsplit] at h ⊢
    have hsince := SiteCache.run_since savesIn_le_announced h
    rw [hcall] at hsince
    exact hsince
  · intro c s hcall
    have hc := hsound.call c
    rw [hcall] at hc
    exact ReadIn.complete hc
  · rcases hsound.cached with hnone | hread
    · exact Or.inl hnone
    · exact Or.inr hread.complete

/-- A load that began before the change ends after a later call has begun. -/
theorem siteOK_after_invalidate_race :
    ∃ w, Machine.run (SiteCache.step fun _ => none) (.fresh (fun _ => none) 0)
      [.start 0, .read 0 .complete, .save (fun _ => some []), .invalidate, .start 1, .finish 0,
        .read 1 .complete, .finish 1] = some w ∧
      ∀ s ok, w.calls 1 = .returned s ok →
        ReadIn (fun _ => none) (.fresh (fun _ => none) 0)
          [.start 0, .read 0 .complete, .save (fun _ => some []), .invalidate, .start 1, .finish 0,
            .read 1 .complete, .finish 1] 1 s ok := by
  refine ⟨_, rfl, fun s ok hcall => ?_⟩
  exact (siteOK_after_invalidate rfl).1
    [.start 0, .read 0 .complete, .save (fun _ => some [])] [] _ 1 s ok rfl hcall

end Dufaka
