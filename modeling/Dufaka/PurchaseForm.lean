import Dufaka.BuyerInputs

/-!
# The purchase form

The product page reads `other_ipu_cnf` for itself and shows one input for each field it finds. The
browser submits the inputs of the form in the order of the page, and the server keeps the first
value under each name.
-/

namespace Dufaka
open Relational Text Tx

def shownInput (line : Text) : Option ExtraInput :=
  match line.trimSpace.split '=' with
  | field :: label :: need :: _ =>
      if field = [] then none else some ⟨field, label, need = ['1'] || need.equalFoldTrue⟩
  | _ => none

def extraInputs (raw : Text) : List ExtraInput :=
  (Text.split '\n' raw.replaceCRLF).filterMap shownInput

structure FormInput where
  name : Text
  hidden : Bool
  required : Bool
  deriving DecidableEq

namespace FormInput

def filled (i : FormInput) : Bool := i.hidden || i.required

end FormInput

/-- The named inputs of `buy.html` for a manual goods, in the order of the page. -/
def buyForm (searchPwd : Bool) (other : Text) : List FormInput :=
  [⟨"gid".toList, true, false⟩, ⟨"by_amount".toList, false, true⟩, ⟨"email".toList, false, true⟩,
    ⟨"coupon_code".toList, false, false⟩] ++
  (extraInputs other).map (fun e => ⟨e.field, false, e.required⟩) ++
  (if searchPwd then [⟨"search_pwd".toList, false, true⟩] else []) ++
  [⟨"payway".toList, true, false⟩]

/-- A submission of the form that leaves no required input blank. -/
def Fills (inputs : List FormInput) (form : List (Text × Text)) : Prop :=
  List.Forall₂ (fun i p => p.1 = i.name ∧ (i.filled = true → p.2.isBlank = false)) inputs form

/-- What `create` takes from a form: the first value under each name. -/
def formExtra (form : List (Text × Text)) : List (Text × Text) :=
  (form.map Prod.fst).dedup.map (fun name => (name, (form.lookup name).getD []))

structure FormAgrees (other : Text) : Prop where
  sameInputs : extraInputs other = configuredInputs other
  recorded : ∀ (searchPwd : Bool) (form : List (Text × Text)),
    Fills (buyForm searchPwd other) form → buyerInfo other (formExtra form) =
      .ok ((extraInputs other).flatMap (fun e => e.line (formExtra form) ++ ['\n']))

/-- No configured field has an empty name, and no required one shares its name with an optional
input that comes first on the page. -/
def FormSound (other : Text) : Prop :=
  (∀ e ∈ configuredInputs other, e.field ≠ []) ∧
    ∀ e ∈ configuredInputs other, e.required = true →
      ∀ i ∈ (buyForm false other).find? (fun i => i.name = e.field), i.filled = true

/-! ### The inputs shown and the inputs read -/

theorem shownInput_eq (line : Text) :
    shownInput line = (inputOf line).filter (fun e => e.field ≠ []) := by
  rw [shownInput, inputOf]
  cases line.trimSpace.split '=' with
  | nil => rfl
  | cons field parts =>
      cases parts with
      | nil => rfl
      | cons label parts =>
          cases parts with
          | nil => rfl
          | cons need parts =>
              by_cases hfield : field = []
              · simp [Option.filter, hfield]
              · simp [Option.filter, hfield]

theorem extraInputs_eq (raw : Text) :
    extraInputs raw = (configuredInputs raw).filter (fun e => e.field ≠ []) := by
  have hlines : extraInputs raw = (Text.split '\n' raw).filterMap shownInput := by
    refine filterMap_split_replaceCRLF (fun l l' h => ?_) raw
    rw [shownInput, shownInput, h]
  rw [hlines, configuredInputs, List.filter_filterMap]
  exact List.filterMap_congr (fun line _ => shownInput_eq line)

theorem extraInputs_eq_configured {raw : Text} :
    extraInputs raw = configuredInputs raw ↔ ∀ e ∈ configuredInputs raw, e.field ≠ [] := by
  rw [extraInputs_eq, List.filter_eq_self]
  simp

/-! ### Submissions -/

theorem lookup_map_name (names : List Text) (v : Text → Text) (k : Text) :
    (names.map (fun name => (name, v name))).lookup k = if k ∈ names then some (v k) else none := by
  induction names with
  | nil => rfl
  | cons name names ih =>
      rw [List.map_cons, List.lookup_cons, ih]
      by_cases hk : k = name
      · simp [hk]
      · have hbeq : (k == name) = false := by simpa using hk
        simp [hbeq, hk]

theorem lookup_eq_none_of_notMem {form : List (Text × Text)} {k : Text}
    (h : k ∉ form.map Prod.fst) :
    form.lookup k = none := by
  rw [List.lookup_eq_none_iff]
  intro p hp
  have hne : k ≠ p.1 := fun hk => h (hk ▸ List.mem_map_of_mem hp)
  simpa using hne

/-- The server reads each value from the first input of the name. -/
theorem value_formExtra (form : List (Text × Text)) (e : ExtraInput) :
    e.value (formExtra form) = e.value form := by
  rw [ExtraInput.value, ExtraInput.value, formExtra, lookup_map_name]
  by_cases hk : e.field ∈ form.map Prod.fst
  · rw [if_pos (List.mem_dedup.mpr hk)]
    rfl
  · rw [if_neg (fun h => hk (List.mem_dedup.mp h)), lookup_eq_none_of_notMem hk]

theorem Fills.lookup {inputs : List FormInput} {form : List (Text × Text)} (h : Fills inputs form)
    {k : Text} {i : FormInput} (hi : inputs.find? (fun i => i.name = k) = some i)
    (hfilled : i.filled = true) : ∃ v, form.lookup k = some v ∧ v.isBlank = false := by
  induction h with
  | nil => cases hi
  | @cons j p _ _ hp _ ih =>
      obtain ⟨hname, hvalue⟩ := hp
      rw [List.lookup_cons, hname]
      by_cases hk : j.name = k
      · rw [List.find?_cons_of_pos (by simpa using hk)] at hi
        obtain rfl := Option.some.inj hi
        exact ⟨p.2, by simp [hk], hvalue hfilled⟩
      · rw [List.find?_cons_of_neg (by simpa using hk)] at hi
        have hbeq : (k == j.name) = false := by simpa using Ne.symm hk
        obtain ⟨v, hv, hblank⟩ := ih hi
        exact ⟨v, by rw [hbeq]; exact hv, hblank⟩

def sparseForm (inputs : List FormInput) : List (Text × Text) :=
  inputs.map (fun i => (i.name, if i.filled then ['1'] else []))

theorem fills_sparseForm (inputs : List FormInput) : Fills inputs (sparseForm inputs) := by
  induction inputs with
  | nil => exact List.Forall₂.nil
  | cons i inputs ih =>
      refine List.Forall₂.cons ⟨rfl, fun hfilled => ?_⟩ ih
      simp only [hfilled, if_true]
      decide

theorem lookup_sparseForm {inputs : List FormInput} {k : Text} {i : FormInput}
    (hi : inputs.find? (fun i => i.name = k) = some i) :
    (sparseForm inputs).lookup k = some (if i.filled then ['1'] else []) := by
  induction inputs with
  | nil => cases hi
  | cons j inputs ih =>
      rw [sparseForm, List.map_cons, List.lookup_cons]
      by_cases hk : j.name = k
      · rw [List.find?_cons_of_pos (by simpa using hk)] at hi
        obtain rfl := Option.some.inj hi
        simp [hk]
      · rw [List.find?_cons_of_neg (by simpa using hk)] at hi
        have hbeq : (k == j.name) = false := by simpa using Ne.symm hk
        rw [hbeq]
        exact ih hi

/-- The query password comes last, behind every input with the name of a shown field. -/
theorem find_buyForm {other : Text} {e : ExtraInput} (he : e ∈ extraInputs other) :
    ∃ i, ∀ searchPwd, (buyForm searchPwd other).find? (fun i => i.name = e.field) = some i := by
  let front : List FormInput :=
    [⟨"gid".toList, true, false⟩, ⟨"by_amount".toList, false, true⟩, ⟨"email".toList, false, true⟩,
      ⟨"coupon_code".toList, false, false⟩] ++
    (extraInputs other).map (fun e => ⟨e.field, false, e.required⟩)
  have hfront : ∃ i, front.find? (fun i => i.name = e.field) = some i := by
    rw [← Option.isSome_iff_exists, List.find?_isSome]
    exact ⟨⟨e.field, false, e.required⟩, List.mem_append_right _ (List.mem_map_of_mem he), by simp⟩
  obtain ⟨i, hi⟩ := hfront
  refine ⟨i, fun searchPwd => ?_⟩
  rw [buyForm, List.append_assoc, List.find?_append]
  change (front.find? (fun i => i.name = e.field)).or _ = some i
  rw [hi]
  rfl

/-! ### Agreement -/

theorem not_missing_of_fills {other : Text} (hsound : FormSound other) {searchPwd : Bool}
    {form : List (Text × Text)} (hform : Fills (buyForm searchPwd other) form) :
    ∀ e ∈ configuredInputs other, e.missing (formExtra form) = false := by
  intro e he
  rw [ExtraInput.missing, value_formExtra]
  cases hrequired : e.required with
  | false => rfl
  | true =>
      have hshown : e ∈ extraInputs other := by
        rw [extraInputs_eq_configured.mpr hsound.1]
        exact he
      obtain ⟨i, hi⟩ := find_buyForm hshown
      have hfilled := hsound.2 e he hrequired i (hi false)
      obtain ⟨v, hv, hblank⟩ := hform.lookup (hi searchPwd) hfilled
      rw [ExtraInput.value, hv]
      simpa using hblank

theorem formAgrees_of_sound {other : Text} (hsound : FormSound other) : FormAgrees other := by
  have hsame := extraInputs_eq_configured.mpr hsound.1
  refine ⟨hsame, fun searchPwd form hform => ?_⟩
  rw [hsame]
  exact buyerInfo_ok.mpr ⟨not_missing_of_fills hsound hform, rfl⟩

theorem sound_of_formAgrees {other : Text} (h : FormAgrees other) : FormSound other := by
  have hnames := extraInputs_eq_configured.mp h.sameInputs
  refine ⟨hnames, fun e he hrequired i hi => ?_⟩
  -- the submission with nothing in the optional inputs shows which input comes first
  obtain ⟨hall, -⟩ := buyerInfo_ok.mp (h.recorded false _ (fills_sparseForm (buyForm false other)))
  have hpresent := hall e he
  rw [ExtraInput.missing, hrequired, value_formExtra, ExtraInput.value,
    lookup_sparseForm hi] at hpresent
  by_contra hfilled
  rw [if_neg hfilled] at hpresent
  revert hpresent
  decide

/-! ### The answer of a checkout -/

def NoBlank (_ : Bool) (r : Reply) : Prop := ∀ label, r ≠ .err (label ++ msgBlank)

theorem noBlank_err {msg : Text} {c : Bool} (h : msgBlank.isSuffixOf msg = false) :
    NoBlank c (.err msg) := by
  intro label heq
  have hmsg := Reply.err.inj heq
  rw [hmsg] at h
  have hsuffix : msgBlank.isSuffixOf (label ++ msgBlank) = true :=
    List.isSuffixOf_iff_suffix.mpr (List.suffix_append label msgBlank)
  rw [h] at hsuffix
  cases hsuffix

theorem noBlank_internal {c : Bool} : NoBlank c .internal := by
  intro label hr
  cases hr

theorem noBlank_createRefusal (env : Env) (inp : CreateInput) (site : Site) :
    NoBlank false (.err ((createRefusal env inp site).getD [])) := by
  apply noBlank_err
  unfold createRefusal
  split_ifs
  all_goals decide

theorem noBlank_takeCouponError (isOpen isUse ret : ℤ) (rows : ℕ) :
    NoBlank false (.err ((takeCouponError isOpen isUse ret rows).getD [])) := by
  apply noBlank_err
  unfold takeCouponError
  split_ifs
  all_goals decide

namespace Script

theorem ends_unpaidQuota {env : Env} {source email : Text} {expireMin now : ℤ} :
    (unpaidQuota env source email expireMin now).ends NoBlank := by
  refine ends_bind (ends_forEach (fun _ _ => trivial)) (fun _ => ?_)
  refine ends_bind ends_read (fun unpaid => ?_)
  exact ends_require (noBlank_err (by decide))

theorem ends_reserveStock {gid : ℕ} {type : GoodsType} {amount : ℤ} :
    (reserveStock gid type amount).ends NoBlank := by
  have hshort : NoBlank false (.err msgShortStock) := noBlank_err (by decide)
  cases type with
  | auto =>
      refine ends_bind (fun _ => trivial) (fun reserved => ?_)
      exact ends_bind (ends_require hshort) (fun _ => ends_pure)
  | manual =>
      refine ends_bind ends_update (fun row => ?_)
      exact ends_bind (ends_require hshort) (fun _ => ends_pure)

theorem ends_useCoupon {code : Text} {gid : ℕ} : (useCoupon code gid).ends NoBlank := by
  have hnone : NoBlank false (.err "优惠码不存在".toList) := noBlank_err (by decide)
  unfold useCoupon
  split_ifs
  · exact ends_pure
  · refine ends_bind ends_read (fun found => ?_)
    refine ends_bind (ends_orElse hnone) (fun found => ?_)
    refine ends_bind ends_lockRow (fun row => ?_)
    refine ends_bind (ends_orElse hnone) (fun c => ?_)
    refine ends_bind ends_update (fun used => ?_)
    exact ends_bind (ends_require (noBlank_takeCouponError _ _ _ _)) (fun _ => ends_pure)

theorem ends_insertOrder {o : Order} {reserved : List ℕ} :
    (insertOrder o reserved).ends NoBlank := by
  refine ends_bind ends_read (fun clash => ?_)
  refine ends_bind (ends_require noBlank_internal) (fun _ => ?_)
  refine ends_bind (fun _ => trivial) (fun id => ?_)
  refine ends_bind (ends_bind ends_lockRow (fun _ => ends_require noBlank_internal)) (fun _ => ?_)
  exact ends_bind (ends_forEach (fun _ _ => ends_change)) (fun _ => ends_pure)

end Script

open Script in
/-- A checkout of a manual goods refuses a blank input only when its check of the inputs does. -/
theorem createOrder_noBlank {env : Env} {sn : Text} {inp : CreateInput} {site : Site} {now : ℤ}
    {ids : ℕ → ℕ} {d : DB} {g : Good} {info : Text} (hg : d.goodBy inp.gid = some g)
    (hinfo : buyerInfo g.otherIpuCnf inp.extra = .ok info) :
    (createOrder env sn inp site now).endsFrom NoBlank ids d := by
  refine endsFrom_bind (endsFrom_of_ends (ends_require (noBlank_createRefusal env inp site)))
    (fun _ ids₁ d₁ h₁ => ?_)
  obtain ⟨-, rfl, rfl⟩ := returns_require.mp h₁
  refine endsFrom_bind (endsFrom_of_ends ends_read) (fun found ids₂ d₂ h₂ => ?_)
  obtain ⟨hfound, rfl, rfl⟩ := returns_read.mp h₂
  refine endsFrom_bind (endsFrom_of_ends (ends_orElse (noBlank_err (by decide))))
    (fun g' ids₃ d₃ h₃ => ?_)
  obtain ⟨hg', rfl, rfl⟩ := returns_orElse.mp h₃
  rw [← hfound, hg] at hg'
  obtain rfl := Option.some.inj hg'
  -- from here on nothing depends on the state
  refine endsFrom_of_ends ?_
  refine ends_bind (ends_require (noBlank_err (by decide))) (fun _ => ?_)
  refine ends_bind (ends_require (noBlank_err (by decide))) (fun _ => ?_)
  refine ends_bind ends_read (fun loops => ?_)
  refine ends_bind (ends_require (noBlank_err (by decide))) (fun _ => ?_)
  refine ends_bind ends_read (fun ready => ?_)
  refine ends_bind (ends_require (noBlank_err (by decide))) (fun _ => ?_)
  refine ends_bind ends_unpaidQuota (fun _ => ?_)
  refine ends_bind ends_lockRow (fun _ => ?_)
  refine ends_bind ends_reserveStock (fun reserved => ?_)
  refine ends_bind ends_useCoupon (fun used => ?_)
  refine ends_bind ?_ (fun info => ?_)
  · split_ifs
    · rw [hinfo]
      exact ends_pure
    · exact ends_pure
  refine ends_bind (ends_orElse (noBlank_err (by decide))) (fun priced => ?_)
  refine ends_bind (ends_require (noBlank_err (by decide))) (fun _ => ?_)
  refine ends_bind (ends_require noBlank_internal) (fun _ => ?_)
  refine ends_bind ends_insertOrder (fun id => ?_)
  refine ends_bind (ends_require (noBlank_err (by decide))) (fun _ => ?_)
  refine ends_bind ends_read (fun made => ?_)
  refine ends_bind (ends_orElse (noBlank_err (by decide))) (fun made => ?_)
  exact nofun

/-- The page and the checkout agree exactly on the sound configurations. There no checkout with a
submission of the page refuses a blank input, and the order it makes has the lines of the shown
inputs. -/
theorem purchase_form_agrees (other : Text) :
    (FormAgrees other ↔ FormSound other) ∧
    (FormSound other → ∀ (searchPwd : Bool) (form : List (Text × Text)),
      Fills (buyForm searchPwd other) form →
      ∀ (env : Env) (sn : Text) (inp : CreateInput) (site : Site) (now : ℤ) (ids : ℕ → ℕ) (d : DB)
        (g : Good), d.goodBy inp.gid = some g → g.type = .manual → g.otherIpuCnf = other →
        inp.extra = formExtra form →
        (createOrder env sn inp site now).endsFrom NoBlank ids d ∧
        ∀ r d', (createOrder env sn inp site now).commits ids d r d' →
          ∃ id o, d'.orders = d.orders.put id o ∧
            o.info = (extraInputs other).flatMap (fun e => e.line inp.extra ++ ['\n'])) := by
  refine ⟨⟨sound_of_formAgrees, formAgrees_of_sound⟩, ?_⟩
  rintro hsound searchPwd form hform env sn inp site now ids d g hg hmanual rfl hextra
  have hinfo := (formAgrees_of_sound hsound).recorded searchPwd form hform
  rw [← hextra] at hinfo
  refine ⟨createOrder_noBlank hg hinfo, fun r d' hcommits => ?_⟩
  obtain ⟨id, o, horders, ho⟩ := createOrder_info hcommits hg hmanual
  rw [hinfo] at ho
  exact ⟨id, o, horders, (Except.ok.inj ho).symm⟩

def tinyNamelessShop : DB :=
  { tinyShop with
    goods := .ofList [(2, { tinyGood .manual 1 with otherIpuCnf := "=备注=1".toList })] }

/-- The page does not show a field without a name, and no submission of the page gets past it. -/
theorem purchase_form_nameless :
    extraInputs "=备注=1".toList = [] ∧
    (((Request.createOrder (fun _ => Fin.ofNat 256 1)
      { tinyInput 2 [] with extra := formExtra (sparseForm (buyForm false "=备注=1".toList)) }
      ⟨false, 5⟩).answer tinyEnv (fun _ => 1) tinyNamelessShop).2 = some (.err "备注不能为空".toList)) ∧
    ¬ ∀ other, FormAgrees other := by
  refine ⟨by decide, by decide, ?_⟩
  intro h
  have hsame := (h "=备注=1".toList).sameInputs
  revert hsame
  decide

end Dufaka
