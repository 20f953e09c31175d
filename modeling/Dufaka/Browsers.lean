import Dufaka.BrowserOrders
import Dufaka.Machine

/-!
# Browsers

The shop with any number of browsers, which keep their orders cookie for thirty days. Their requests
and answers may overlap, and each of them may put in its cookie whatever it can build out of what
the shop has signed for it. None comes to own an order that was not placed for it.
-/

namespace Dufaka
open Encoding JsonText

/-- A checkout on its way, with the cookie that the request or the answer carries. -/
inductive Flight where
  | asked (cookie : Option Bytes)
  | answered (cookie : Bytes)

def Flight.carries : Flight → Option Bytes
  | asked x => x
  | answered x => some x

/-- What happens to the browsers and their checkouts, which each of them numbers. -/
inductive BrowserAct (B : Type*) where
  | ask (b : B) (i : ℕ)
  /-- The shop places the order `sn`. -/
  | place (b : B) (i : ℕ) (sn : Text)
  /-- The shop places no order. -/
  | refuse (b : B) (i : ℕ)
  /-- The answer arrives, and the browser keeps its cookie. -/
  | keep (b : B) (i : ℕ)
  /-- It logs in to the admin pages, and is given a session and a form token. -/
  | login (b : B) (u : AdminSession)
  /-- It puts something else in place of its cookie, with the time when it expires, or loses it. -/
  | change (b : B) (x : Option (Bytes × ℤ))
  /-- Seconds pass. -/
  | wait (n : ℕ)

def BrowserAct.order {B : Type*} [DecidableEq B] (b : B) : BrowserAct B → Option Text
  | place b' _ sn => if b' = b then some sn else none
  | _ => none

structure Browsers (B : Type*) where
  clock : ℤ
  cookie : B → Option (Bytes × ℤ)
  flight : B → ℕ → Option Flight
  /-- What the shop has signed for a browser. -/
  signed : B → List Issue

namespace Browsers
variable {B : Type*} [DecidableEq B]

def start : Browsers B := ⟨0, fun _ => none, fun _ _ => none, fun _ => []⟩

def sign (s : Browsers B) (b : B) (is : List Issue) : Browsers B :=
  { s with signed := Function.update s.signed b (is ++ s.signed b) }

def setCookie (s : Browsers B) (b : B) (x : Option (Bytes × ℤ)) : Browsers B :=
  { s with cookie := Function.update s.cookie b x }

def setFlight (s : Browsers B) (b : B) (i : ℕ) (f : Option Flight) : Browsers B :=
  { s with flight := Function.update s.flight b (Function.update (s.flight b) i f) }

def value (s : Browsers B) (b : B) : Option Bytes := (s.cookie b).map Prod.fst

/-- The cookie that a request carries now: one that has expired is not sent. -/
def carried (s : Browsers B) (b : B) : Option Bytes :=
  ((s.cookie b).filter (fun c => s.clock < c.2)).map Prod.fst

/-- The `MaxAge` of the cookie, in seconds. -/
def maxAge : ℤ := 86400 * 30

variable (mac : Bytes → Bytes → Bytes) (key : Bytes)

def step (s : Browsers B) : BrowserAct B → Option (Browsers B)
  | .ask b i =>
      match s.flight b i with
      | none => some (s.setFlight b i (some (.asked (s.carried b))))
      | some _ => none
  | .place b i sn =>
      match s.flight b i with
      | some (.asked x) =>
          some ((s.setFlight b i (some (.answered (remember mac key x sn)))).sign b
            [.orders (lastForty (cookieOrders mac key x ++ [sn]))])
      | _ => none
  | .refuse b i =>
      match s.flight b i with
      | some (.asked _) => some (s.setFlight b i none)
      | _ => none
  | .keep b i =>
      match s.flight b i with
      | some (.answered x) => some ((s.setFlight b i none).setCookie b (some (x, s.clock + maxAge)))
      | _ => none
  | .login b u => some (s.sign b [.session u, .csrf u])
  | .change b x => some (s.setCookie b x)
  | .wait n => some { s with clock := s.clock + n }

def placed (b : B) (as : List (BrowserAct B)) : List Text := as.filterMap (BrowserAct.order b)

/-- The authenticator is ideal, as far as every browser goes with what was signed for it. -/
def Unforged (as : List (BrowserAct B)) : Prop :=
  ∀ pre b x e s, pre ++ [.change b (some (x, e))] <+: as →
    Machine.run (step mac key) start pre = some s →
    IdealMac (mac key) {i | i ∈ s.signed b} x

section Runs
variable {mac key} {s s' : Browsers B} {as : List (BrowserAct B)} {a : BrowserAct B} {b c : B}
  {i : ℕ}

theorem placed_append (b : B) (as bs : List (BrowserAct B)) :
    placed b (as ++ bs) = placed b as ++ placed b bs := List.filterMap_append

theorem placed_self (b : B) (i : ℕ) (sn : Text) : placed b [.place b i sn] = [sn] := by
  have horder : BrowserAct.order b (.place b i sn) = some sn := if_pos rfl
  rw [placed, List.filterMap_cons_some horder, List.filterMap_nil]

theorem placed_other (h : b ≠ c) (i : ℕ) (sn : Text) : placed c [.place b i sn] = [] := by
  have horder : BrowserAct.order c (.place b i sn) = none := if_neg h
  rw [placed, List.filterMap_cons_none horder, List.filterMap_nil]

theorem mem_placed {sn : Text} : sn ∈ placed b as ↔ ∃ i, .place b i sn ∈ as := by
  rw [placed, List.mem_filterMap]
  constructor
  · rintro ⟨a, ha, he⟩
    cases a with
    | place b' i sn' =>
        by_cases hb : b' = b
        · obtain rfl := Option.some.inj ((if_pos hb).symm.trans he)
          rw [← hb]
          exact ⟨i, ha⟩
        · cases (if_neg hb).symm.trans he
    | ask | refuse | keep | login | change | wait => cases he
  · rintro ⟨i, ha⟩
    exact ⟨_, ha, if_pos rfl⟩

/-! ### Only their own orders -/

variable (mac key) in
/-- What a browser's cookie and its checkouts on their way show, and what the shop has signed for
it, are orders that were placed for it. -/
structure Own (as : List (BrowserAct B)) (s : Browsers B) : Prop where
  shown : ∀ b, (cookieOrders mac key (s.value b)).Sublist (placed b as)
  flight : ∀ b i f, s.flight b i = some f → (cookieOrders mac key f.carries).Sublist (placed b as)
  signed : ∀ b sns, .orders sns ∈ s.signed b → sns.Sublist (placed b as)

theorem Own.start : Own mac key [] (start : Browsers B) where
  shown _ := List.Sublist.refl []
  flight b i f h := by cases h
  signed b sns h := by cases h

theorem Own.snoc (h : Own mac key as s) (a : BrowserAct B) : Own mac key (as ++ [a]) s := by
  have hmore : ∀ b, (placed b as).Sublist (placed b (as ++ [a])) := by
    intro b
    rw [placed_append]
    exact List.sublist_append_left _ _
  constructor
  · exact fun b => (h.shown b).trans (hmore b)
  · exact fun b i f hf => (h.flight b i f hf).trans (hmore b)
  · exact fun b sns hsns => (h.signed b sns hsns).trans (hmore b)

theorem Own.setCookie (h : Own mac key as s) {x : Option (Bytes × ℤ)}
    (hx : (cookieOrders mac key (x.map Prod.fst)).Sublist (placed b as)) :
    Own mac key as (s.setCookie b x) := by
  refine ⟨fun c => ?_, h.flight, h.signed⟩
  change (cookieOrders mac key ((Function.update s.cookie b x c).map Prod.fst)).Sublist _
  by_cases hc : c = b
  · subst hc
    rw [Function.update_self]
    exact hx
  · rw [Function.update_of_ne hc]
    exact h.shown c

theorem Own.setFlight (h : Own mac key as s) {f : Option Flight}
    (hf : ∀ f', f = some f' → (cookieOrders mac key f'.carries).Sublist (placed b as)) :
    Own mac key as (s.setFlight b i f) := by
  refine ⟨h.shown, fun c j f' hj => ?_, h.signed⟩
  change Function.update s.flight b (Function.update (s.flight b) i f) c j = some f' at hj
  by_cases hc : c = b
  · subst hc
    rw [Function.update_self, Function.update_apply] at hj
    split_ifs at hj
    · exact hf f' hj
    · exact h.flight c j f' hj
  · rw [Function.update_of_ne hc] at hj
    exact h.flight c j f' hj

theorem Own.sign (h : Own mac key as s) {is : List Issue}
    (his : ∀ sns, .orders sns ∈ is → sns.Sublist (placed b as)) : Own mac key as (s.sign b is) := by
  refine ⟨h.shown, h.flight, fun c sns hsns => ?_⟩
  change .orders sns ∈ Function.update s.signed b (is ++ s.signed b) c at hsns
  by_cases hc : c = b
  · subst hc
    rw [Function.update_self] at hsns
    rcases List.mem_append.mp hsns with hsns | hsns
    · exact his sns hsns
    · exact h.signed c sns hsns
  · rw [Function.update_of_ne hc] at hsns
    exact h.signed c sns hsns

variable (mac key) in
omit [DecidableEq B] in
theorem cookieOrders_carried (s : Browsers B) (b : B) :
    cookieOrders mac key (s.carried b) = [] ∨ s.carried b = s.value b := by
  unfold carried value
  cases s.cookie b with
  | none => exact Or.inr rfl
  | some c =>
      rw [Option.filter_some]
      split_ifs
      · exact Or.inr rfl
      · exact Or.inl rfl

theorem Own.carried (h : Own mac key as s) (b : B) :
    (cookieOrders mac key (s.carried b)).Sublist (placed b as) := by
  rcases cookieOrders_carried mac key s b with hnone | hsame
  · rw [hnone]
    exact List.nil_sublist _
  · rw [hsame]
    exact h.shown b

theorem Own.place (h : Own mac key as s) {x : Option Bytes} {sn : Text}
    (hf : s.flight b i = some (.asked x)) :
    Own mac key (as ++ [.place b i sn])
      ((s.setFlight b i (some (.answered (remember mac key x sn)))).sign b
        [.orders (lastForty (cookieOrders mac key x ++ [sn]))]) := by
  have hnew : (lastForty (cookieOrders mac key x ++ [sn])).Sublist
      (placed b (as ++ [.place b i sn])) := by
    rw [placed_append, placed_self]
    exact (lastForty_sublist _).trans ((h.flight b i _ hf).append (List.Sublist.refl [sn]))
  refine ((h.snoc _).setFlight (fun f' hf' => ?_)).sign (fun sns hsns => ?_)
  · obtain rfl := Option.some.inj hf'
    change (cookieOrders mac key (some (remember mac key x sn))).Sublist _
    by_cases hkey : key = []
    · subst hkey
      rw [cookieOrders_nil]
      exact List.nil_sublist _
    · rw [cookieOrders_remember hkey]
      exact hnew
  · obtain rfl := Issue.orders.inj (List.mem_singleton.mp hsns)
    exact hnew

/-- A browser can only bring back a list that was signed for it. -/
theorem Own.change (h : Own mac key as s) {x : Option (Bytes × ℤ)}
    (hx : ∀ v e, x = some (v, e) → IdealMac (mac key) {i | i ∈ s.signed b} v) :
    (cookieOrders mac key (x.map Prod.fst)).Sublist (placed b as) := by
  cases x with
  | none => exact List.nil_sublist _
  | some c =>
      obtain ⟨v, e⟩ := c
      cases hread : browserOrders mac key v with
      | none =>
          rw [Option.map_some, cookieOrders, Option.bind_some, hread]
          exact List.nil_sublist _
      | some sns =>
          rw [Option.map_some, cookieOrders, Option.bind_some, hread]
          exact h.signed b sns (orders_accepted (hx v e rfl) hread).1

theorem Own.step (h : Own mac key as s)
    (hx : ∀ b v e, a = .change b (some (v, e)) → IdealMac (mac key) {i | i ∈ s.signed b} v)
    (hs : s.step mac key a = some s') : Own mac key (as ++ [a]) s' := by
  cases a with
  | ask b i =>
      simp only [Browsers.step] at hs
      split at hs
      · obtain rfl := Option.some.inj hs
        refine (h.snoc _).setFlight (fun f' hf' => ?_)
        obtain rfl := Option.some.inj hf'
        exact (h.snoc _).carried b
      · cases hs
  | place b i sn =>
      simp only [Browsers.step] at hs
      split at hs
      · rename_i hf
        obtain rfl := Option.some.inj hs
        exact h.place hf
      · cases hs
  | refuse b i =>
      simp only [Browsers.step] at hs
      split at hs
      · obtain rfl := Option.some.inj hs
        exact (h.snoc _).setFlight (fun f' hf' => by cases hf')
      · cases hs
  | keep b i =>
      simp only [Browsers.step] at hs
      split at hs
      · rename_i x hf
        obtain rfl := Option.some.inj hs
        refine ((h.snoc _).setFlight (fun f' hf' => by cases hf')).setCookie ?_
        exact (h.snoc _).flight b i _ hf
      · cases hs
  | login b u =>
      obtain rfl := Option.some.inj hs
      exact (h.snoc _).sign (fun sns hsns => by simp at hsns)
  | change b x =>
      obtain rfl := Option.some.inj hs
      refine (h.snoc _).setCookie ((h.snoc _).change (fun v e hv => ?_))
      subst hv
      exact hx b v e rfl
  | wait n =>
      obtain rfl := Option.some.inj hs
      exact ⟨(h.snoc _).shown, (h.snoc _).flight, (h.snoc _).signed⟩

theorem run_own (h : Unforged mac key as) (hr : Machine.run (step mac key) start as = some s) :
    Own mac key as s := by
  induction as using List.reverseRecOn generalizing s with
  | nil =>
      obtain rfl := Option.some.inj hr
      exact Own.start
  | append_singleton as a ih =>
      obtain ⟨s₁, hr₁, hs⟩ := Machine.run_snoc.mp hr
      have hown :=
        ih (fun pre b x e s hpre => h pre b x e s (hpre.trans (List.prefix_append as [a]))) hr₁
      refine hown.step (fun b v e ha => ?_) hs
      subst ha
      exact h as b v e s₁ (List.prefix_refl _) hr₁

/-- Whatever browsers put in their cookies, out of what was signed for each, and however their
checkouts overlap, none comes to own an order that was not placed for it. -/
theorem owned_orders_placed (h : Unforged mac key as)
    (hr : Machine.run (step mac key) start as = some s) (b : B) :
    (∀ sn, (byteCookies mac key).ownsOrder ((s.carried b).map latin) sn = true →
      ∃ i, .place b i sn ∈ as) ∧
      (cookieOrders mac key (s.carried b)).Sublist (placed b as) ∧
      (cookieOrders mac key (s.carried b)).length ≤ 40 := by
  have hshown := (run_own h hr).carried b
  refine ⟨fun sn hsn => ?_, hshown, length_cookieOrders_le _⟩
  exact mem_placed.mp (hshown.subset ((ownsOrder_latin mac key _ sn).mp hsn))

def twoTags (_ message : Bytes) : Bytes :=
  if message = ordersMessage (ordersPayload ["B1".toList]) then List.replicate 32 0
  else if message = ordersMessage (ordersPayload ["B1".toList, "B2".toList]) then
    List.replicate 32 1
  else List.replicate 32 255

def firstCookie : Bytes := orderCookie twoTags [1] (ordersPayload ["B1".toList])

def twoBrowsers : List (BrowserAct Bool) :=
  [.ask true 0, .ask false 0, .place true 0 "B1".toList, .keep true 0, .place false 0 "A1".toList,
    .keep false 0, .ask true 1, .place true 1 "B2".toList, .keep true 1,
    .change true (some (firstCookie, 100)), .wait 10]

theorem twoBrowsers_signed {s : Browsers Bool}
    (hr : Machine.run (step twoTags [1]) start (twoBrowsers.take 9) = some s) :
    s.signed true = [.orders ["B1".toList, "B2".toList], .orders ["B1".toList]] := by
  obtain rfl := Option.some.inj hr
  change [Issue.orders (lastForty (cookieOrders twoTags [1]
      (some (remember twoTags [1] none "B1".toList)) ++ ["B2".toList])),
    .orders (lastForty (cookieOrders twoTags [1] none ++ ["B1".toList]))] = _
  rw [cookieOrders_remember (List.cons_ne_nil _ _)]
  rfl

theorem firstCookie_ideal : IdealMac (twoTags [1])
    {i | i ∈ [Issue.orders ["B1".toList, "B2".toList], .orders ["B1".toList]]} firstCookie := by
  have hfirst : twoTags [1] (ordersMessage (ordersPayload ["B1".toList])) = List.replicate 32 0 :=
    if_pos rfl
  have hsecond : twoTags [1] (ordersMessage (ordersPayload ["B1".toList, "B2".toList])) =
      List.replicate 32 1 := by
    rw [twoTags, if_neg (by decide), if_pos rfl]
  have hdiffer : List.replicate 32 (0 : UInt8) ≠ List.replicate 32 1 := by decide
  constructor
  · rintro m ⟨w, hw, htag⟩
    by_cases hm₁ : ordersMessage (ordersPayload ["B1".toList]) = m
    · exact ⟨.orders ["B1".toList], by simp, hm₁⟩
    · by_cases hm₂ : ordersMessage (ordersPayload ["B1".toList, "B2".toList]) = m
      · exact ⟨.orders ["B1".toList, "B2".toList], by simp, hm₂⟩
      · rw [twoTags, if_neg (Ne.symm hm₁), if_neg (Ne.symm hm₂)] at htag
        have hnone : ∀ w ∈ firstCookie.tails, hexDecode w ≠ some (List.replicate 32 255) ∧
            base64Decode w ≠ some (List.replicate 32 255) := by
          decide +kernel
        have hw' := hnone w ((List.mem_tails _ _).mpr hw)
        exact (htag.elim hw'.1 hw'.2).elim
  · intro i hi j hj he
    simp only [Set.mem_ofPred_eq, List.mem_cons, List.not_mem_nil, or_false] at hi hj
    rcases hi with rfl | rfl
    · rcases hj with rfl | rfl
      · rfl
      · exact (hdiffer ((hfirst.symm.trans he.symm).trans hsecond)).elim
    · rcases hj with rfl | rfl
      · exact (hdiffer ((hfirst.symm.trans he).trans hsecond)).elim
      · rfl

theorem twoBrowsers_unforged : Unforged twoTags [1] twoBrowsers := by
  rintro pre b x e s ⟨post, hpost⟩ hr
  have hget : twoBrowsers[pre.length]? = some (.change b (some (x, e))) := by
    rw [← hpost]
    simp
  have hpre : pre = twoBrowsers.take pre.length := by
    rw [← hpost]
    simp
  have hlen : pre.length < 11 := by
    have hlt := (List.getElem?_eq_some_iff.mp hget).1
    exact hlt
  -- the ninth action is the only one of its kind
  have hnine : pre.length = 9 := by
    generalize pre.length = n at hget hlen
    interval_cases n <;> first | rfl | cases hget
  rw [hnine] at hget hpre
  rw [hpre] at hr
  cases hget
  rw [twoBrowsers_signed hr]
  exact firstCookie_ideal

theorem owned_orders_placed_two :
    ∃ s : Browsers Bool, Machine.run (step twoTags [1]) start twoBrowsers = some s ∧
      s.carried true = some firstCookie ∧
      (cookieOrders twoTags [1] (s.carried true)).Sublist ["B1".toList, "B2".toList] := by
  refine ⟨_, rfl, rfl, ?_⟩
  exact (owned_orders_placed twoBrowsers_unforged rfl true).2.1

end Runs
end Browsers
end Dufaka
