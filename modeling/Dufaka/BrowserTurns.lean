import Dufaka.Browsers

/-!
# One checkout at a time

A browser that leaves its orders cookie alone, waits for the answer to a checkout before the next
one and comes back before its cookie expires owns the last forty orders that were placed for it,
whatever the other browsers do.
-/

namespace Dufaka
open Encoding JsonText

namespace Browsers
variable {B : Type*} [DecidableEq B] {mac : Bytes → Bytes → Bytes} {key : Bytes}
  {s s' : Browsers B} {as : List (BrowserAct B)} {a : BrowserAct B} {b c : B} {i : ℕ}

def Idle (s : Browsers B) (b : B) : Prop := ∀ i, s.flight b i = none

/-- Its cookie has not expired. -/
def Fresh (s : Browsers B) (b : B) : Prop := ∀ c, s.cookie b = some c → s.clock < c.2

/-- The browser `b` leaves its cookie alone, and asks for an order once the answer to the last one
is there, while its cookie has not expired. -/
def InTurn (b : B) (s : Browsers B) : BrowserAct B → Prop
  | .ask c _ => c = b → s.Idle b ∧ s.Fresh b
  | .change c _ => c ≠ b
  | _ => True

variable (mac key) in
/-- How far a browser with one checkout at a time has come, when it was last promised the orders
`sns`. -/
inductive Turn (b : B) (sns : List Text) (s : Browsers B) : Prop
  | idle (hidle : s.Idle b) (hshown : cookieOrders mac key (s.value b) = sns)
  | flying {i : ℕ} {f : Flight} (hf : s.flight b i = some f)
      (hothers : ∀ j, j ≠ i → s.flight b j = none)
      (hcarried : cookieOrders mac key f.carries = sns)
      (hshown : ∀ x, f = .asked x → cookieOrders mac key (s.value b) = sns)

section Turn
variable {sns : List Text} {f : Flight}

omit [DecidableEq B] in
theorem Turn.length_le (h : Turn mac key b sns s) : sns.length ≤ 40 := by
  cases h with
  | idle _ hshown =>
      rw [← hshown]
      exact length_cookieOrders_le _
  | flying _ _ hcarried =>
      rw [← hcarried]
      exact length_cookieOrders_le _

omit [DecidableEq B] in
/-- It is the browser's own cookie and checkouts that count. -/
theorem Turn.congr (h : Turn mac key b sns s) (hflight : s'.flight b = s.flight b)
    (hcookie : s'.cookie b = s.cookie b) : Turn mac key b sns s' := by
  have hvalue : s'.value b = s.value b := congrArg (Option.map Prod.fst) hcookie
  cases h with
  | idle hidle hshown => exact .idle (fun i => by rw [hflight, hidle]) (by rw [hvalue, hshown])
  | flying hf hothers hcarried hshown =>
      refine .flying (by rw [hflight, hf]) (fun j hj => by rw [hflight, hothers j hj]) hcarried ?_
      rwa [hvalue]

omit [DecidableEq B] in
/-- The checkout that is on its way is the only one. -/
theorem Turn.only (h : Turn mac key b sns s) (hf : s.flight b i = some f) :
    (∀ j, j ≠ i → s.flight b j = none) ∧ cookieOrders mac key f.carries = sns ∧
      ∀ x, f = .asked x → cookieOrders mac key (s.value b) = sns := by
  cases h with
  | idle hidle =>
      rw [hidle] at hf
      cases hf
  | @flying k g hg hothers hcarried hshown =>
      have hk : i = k := by
        by_contra hne
        rw [hothers i hne] at hf
        cases hf
      subst hk
      obtain rfl := Option.some.inj (hg.symm.trans hf)
      exact ⟨hothers, hcarried, hshown⟩

theorem setFlight_self (s : Browsers B) (b : B) (i : ℕ) (f : Option Flight) :
    (s.setFlight b i f).flight b = Function.update (s.flight b) i f := Function.update_self _ _ _

theorem setFlight_of_ne (h : c ≠ b) (s : Browsers B) (i : ℕ) (f : Option Flight) :
    (s.setFlight c i f).flight b = s.flight b := Function.update_of_ne h.symm _ _

/-- A new step of the only checkout. -/
theorem Turn.fly (hothers : ∀ j, j ≠ i → s.flight b j = none)
    (hcarried : cookieOrders mac key f.carries = sns)
    (hshown : ∀ x, f = .asked x → cookieOrders mac key (s.value b) = sns) :
    Turn mac key b sns (s.setFlight b i (some f)) := by
  refine .flying (i := i) (f := f) ?_ (fun j hj => ?_) hcarried hshown
  · rw [setFlight_self, Function.update_self]
  · rw [setFlight_self, Function.update_of_ne hj, hothers j hj]

/-- The only checkout has come to its end. -/
theorem idle_setFlight (hothers : ∀ j, j ≠ i → s.flight b j = none) :
    (s.setFlight b i none).Idle b := by
  intro j
  rw [setFlight_self]
  by_cases hj : j = i
  · rw [hj, Function.update_self]
  · rw [Function.update_of_ne hj, hothers j hj]

omit [DecidableEq B] in
theorem Fresh.carried (h : s.Fresh b) : s.carried b = s.value b := by
  unfold Browsers.carried value
  cases hc : s.cookie b with
  | none => rfl
  | some c => rw [Option.filter_some, if_pos (decide_eq_true (h c hc))]

/-- A step that places no order for the browser promises it nothing new. -/
theorem Turn.same (h : Turn mac key b sns s) (hnone : placed b [a] = []) :
    Turn mac key b (lastForty (sns ++ placed b [a])) s := by
  rwa [hnone, List.append_nil, lastForty_of_le h.length_le]

theorem Turn.step (hkey : key ≠ []) (h : Turn mac key b sns s) (hturn : InTurn b s a)
    (hs : s.step mac key a = some s') : Turn mac key b (lastForty (sns ++ placed b [a])) s' := by
  cases a with
  | ask c i =>
      refine Turn.same ?_ rfl
      simp only [Browsers.step] at hs
      split at hs
      · obtain rfl := Option.some.inj hs
        by_cases hc : c = b
        · subst hc
          obtain ⟨hidle, hfresh⟩ := hturn rfl
          have hshown : cookieOrders mac key (s.value c) = sns := by
            cases h with
            | idle _ hshown => exact hshown
            | flying hf =>
                rw [hidle] at hf
                cases hf
          refine Turn.fly (fun j _ => hidle j) ?_ (fun _ _ => hshown)
          rw [hfresh.carried]
          exact hshown
        · exact h.congr (setFlight_of_ne hc _ _ _) rfl
      · cases hs
  | place c i sn =>
      simp only [Browsers.step] at hs
      split at hs
      · rename_i x hf
        obtain rfl := Option.some.inj hs
        by_cases hc : c = b
        · subst hc
          obtain ⟨hothers, hcarried, -⟩ := h.only hf
          have hnew : cookieOrders mac key (some (remember mac key x sn)) =
              lastForty (sns ++ [sn]) := by
            rw [cookieOrders_remember hkey]
            exact congrArg (fun l => lastForty (l ++ [sn])) hcarried
          rw [placed_self]
          exact (Turn.fly hothers hnew (fun _ hx => by cases hx)).congr rfl rfl
        · exact (h.same (placed_other hc i sn)).congr (setFlight_of_ne hc _ _ _) rfl
      · cases hs
  | refuse c i =>
      refine Turn.same ?_ rfl
      simp only [Browsers.step] at hs
      split at hs
      · rename_i x hf
        obtain rfl := Option.some.inj hs
        by_cases hc : c = b
        · subst hc
          obtain ⟨hothers, -, hshown⟩ := h.only hf
          exact .idle (idle_setFlight hothers) (hshown x rfl)
        · exact h.congr (setFlight_of_ne hc _ _ _) rfl
      · cases hs
  | keep c i =>
      refine Turn.same ?_ rfl
      simp only [Browsers.step] at hs
      split at hs
      · rename_i x hf
        obtain rfl := Option.some.inj hs
        by_cases hc : c = b
        · subst hc
          obtain ⟨hothers, hcarried, -⟩ := h.only hf
          refine .idle (idle_setFlight hothers) ?_
          change cookieOrders mac key ((Function.update s.cookie c _ c).map Prod.fst) = sns
          rw [Function.update_self]
          exact hcarried
        · exact h.congr (setFlight_of_ne hc _ _ _) (Function.update_of_ne (Ne.symm hc) _ _)
      · cases hs
  | login c u =>
      obtain rfl := Option.some.inj hs
      exact (h.same rfl).congr rfl rfl
  | change c x =>
      obtain rfl := Option.some.inj hs
      have hc : b ≠ c := Ne.symm hturn
      exact (h.same rfl).congr rfl (Function.update_of_ne hc _ _)
  | wait n =>
      obtain rfl := Option.some.inj hs
      exact (h.same rfl).congr rfl rfl

theorem run_turn (hkey : key ≠ []) (h : Turn mac key b sns s)
    (hturn : Machine.Along (step mac key) (InTurn b) s as)
    (hr : Machine.run (step mac key) s as = some s') :
    Turn mac key b (lastForty (sns ++ placed b as)) s' := by
  induction as generalizing s sns with
  | nil =>
      obtain rfl := Option.some.inj hr
      rw [placed, List.filterMap_nil, List.append_nil, lastForty_of_le h.length_le]
      exact h
  | cons a as ih =>
      obtain ⟨s₁, hs, hrest⟩ := Machine.run_cons.mp hr
      have hnext := ih (h.step hkey hturn.1 hs) (hturn.2 s₁ hs) hrest
      rw [lastForty_append, List.append_assoc, ← placed_append] at hnext
      exact hnext

end Turn

/-- A browser that leaves its cookie alone, has one checkout at a time and comes back before its
cookie expires owns the last forty orders that were placed for it, whatever the others do. -/
theorem last_forty_owned (hkey : key ≠ []) (hr : Machine.run (step mac key) s as = some s')
    (hturn : Machine.Along (step mac key) (InTurn b) s as) (hidle : s.Idle b) (hidle' : s'.Idle b)
    (hfresh : s'.Fresh b) :
    let shown := lastForty (cookieOrders mac key (s.value b) ++ placed b as)
    cookieOrders mac key (s'.carried b) = shown ∧
      ∀ sn, (byteCookies mac key).ownsOrder ((s'.carried b).map latin) sn = true ↔ sn ∈ shown := by
  have hshown : cookieOrders mac key (s'.carried b) =
      lastForty (cookieOrders mac key (s.value b) ++ placed b as) := by
    rw [hfresh.carried]
    cases run_turn hkey (.idle hidle rfl) hturn hr with
    | idle _ hshown => exact hshown
    | flying hf =>
        rw [hidle'] at hf
        cases hf
  refine ⟨hshown, fun sn => ?_⟩
  rw [ownsOrder_latin, hshown]

def comesBack : List (BrowserAct Bool) :=
  [.ask false 0, .change true (some ([], 100)), .place false 0 "A1".toList, .keep false 0,
    .wait 86400, .ask false 1, .place false 1 "A2".toList, .keep false 1]

theorem comesBack_inTurn :
    Machine.Along (step twoTags [1]) (InTurn false) (start : Browsers Bool) comesBack := by
  have hcookie : ∀ (x : Bytes) (c : Bytes × ℤ), some (x, 0 + maxAge) = some c →
      (0 : ℤ) + ((86400 : ℕ) : ℤ) < c.2 := by
    intro x c hc
    obtain rfl := Option.some.inj hc
    change (0 : ℤ) + 86400 < 0 + 86400 * 30
    decide
  have hother : true ≠ false := by decide
  refine ⟨fun _ => ⟨fun _ => rfl, fun _ hc => by cases hc⟩, fun s₁ h₁ => ⟨hother, fun s₂ h₂ => ?_⟩⟩
  refine ⟨trivial, fun s₃ h₃ => ⟨trivial, fun s₄ h₄ => ⟨trivial, fun s₅ h₅ => ?_⟩⟩⟩
  refine ⟨fun _ => ?_, fun _ _ => ⟨trivial, fun _ _ => ⟨trivial, fun _ _ => trivial⟩⟩⟩
  obtain rfl := Option.some.inj h₁
  obtain rfl := Option.some.inj h₂
  obtain rfl := Option.some.inj h₃
  obtain rfl := Option.some.inj h₄
  obtain rfl := Option.some.inj h₅
  constructor
  · intro i
    cases i with
    | zero => rfl
    | succ i => rfl
  · exact hcookie _

theorem last_forty_owned_back :
    ∃ s : Browsers Bool, Machine.run (step twoTags [1]) start comesBack = some s ∧
      (byteCookies twoTags [1]).ownsOrder ((s.carried false).map latin) "A1".toList = true := by
  refine ⟨_, rfl, ?_⟩
  refine ((last_forty_owned (List.cons_ne_nil _ _) rfl comesBack_inTurn (fun _ => rfl) ?_ ?_).2
    _).mpr (by decide)
  · intro i
    cases i with
    | zero => rfl
    | succ i =>
        cases i with
        | zero => rfl
        | succ i => rfl
  · intro c hc
    obtain rfl := Option.some.inj hc
    decide

end Browsers
end Dufaka
