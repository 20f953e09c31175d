import Dufaka.Lines
import Dufaka.Operations

/-!
# The buyer's inputs of a manual goods

The text `other_ipu_cnf` of a goods configures fields, one on a line, as `field=label=required`. A
checkout asks for the value of each field and writes one entry for each into the order: the label, a
colon, the value and a line feed.
-/

namespace Dufaka
open Relational Text

structure ExtraInput where
  field : Text
  label : Text
  required : Bool
  deriving DecidableEq

def inputOf (line : Text) : Option ExtraInput :=
  match line.trimSpace.split '=' with
  | field :: label :: need :: _ => some ⟨field, label, need = ['1'] || need.equalFoldTrue⟩
  | _ => none

def configuredInputs (other : Text) : List ExtraInput := (Text.split '\n' other).filterMap inputOf

def msgBlank : Text := "不能为空".toList

namespace ExtraInput

def value (extra : List (Text × Text)) (e : ExtraInput) : Text := (extra.lookup e.field).getD []

def line (extra : List (Text × Text)) (e : ExtraInput) : Text := e.label ++ ':' :: e.value extra

def missing (extra : List (Text × Text)) (e : ExtraInput) : Bool :=
  e.required && (e.value extra).isBlank

end ExtraInput

theorem buyerInfoLine_eq (extra : List (Text × Text)) (info line : Text) :
    buyerInfoLine extra info line =
      match inputOf line with
      | none => .ok info
      | some e => if e.missing extra then .error (e.label ++ msgBlank)
          else .ok (info ++ (e.line extra ++ ['\n'])) := by
  rw [buyerInfoLine, inputOf]
  cases line.trimSpace.split '=' with
  | nil => rfl
  | cons field parts =>
      cases parts with
      | nil => rfl
      | cons label parts =>
          cases parts with
          | nil => rfl
          | cons need parts =>
              let e : ExtraInput := ⟨field, label, need = ['1'] || need.equalFoldTrue⟩
              have hline : info ++ label ++ ':' :: e.value extra ++ ['\n'] =
                  info ++ (e.line extra ++ ['\n']) := by
                rw [ExtraInput.line, List.append_assoc info, List.append_assoc info]
              change (if e.missing extra = true then _ else Except.ok
                (info ++ label ++ ':' :: e.value extra ++ ['\n'])) = _
              rw [hline]
              rfl

theorem foldlM_buyerInfoLine (extra : List (Text × Text)) (info : Text) (lines : List Text) :
    lines.foldlM (buyerInfoLine extra) info =
      match (lines.filterMap inputOf).find? (·.missing extra) with
      | some e => .error (e.label ++ msgBlank)
      | none =>
          .ok (info ++ (lines.filterMap inputOf).flatMap (fun e => e.line extra ++ ['\n'])) := by
  induction lines generalizing info with
  | nil =>
      rw [List.foldlM_nil, List.filterMap_nil, List.find?_nil, List.flatMap_nil, List.append_nil]
      rfl
  | cons line lines ih =>
      rw [List.foldlM_cons, buyerInfoLine_eq]
      cases he : inputOf line with
      | none =>
          rw [List.filterMap_cons_none he]
          exact ih info
      | some e =>
          rw [List.filterMap_cons_some he, List.find?_cons]
          by_cases hmissing : e.missing extra = true
          · simp only [hmissing, if_true]
            rfl
          · simp only [hmissing, Bool.false_eq_true, if_false, List.flatMap_cons,
              ← List.append_assoc]
            rw [List.append_assoc info]
            exact ih _

/-- A checkout refuses the first required field that is blank, and otherwise writes one entry for
each configured field. -/
theorem buyerInfo_eq (other : Text) (extra : List (Text × Text)) :
    buyerInfo other extra =
      match (configuredInputs other).find? (·.missing extra) with
      | some e => .error (e.label ++ msgBlank)
      | none => .ok ((configuredInputs other).flatMap (fun e => e.line extra ++ ['\n'])) :=
  foldlM_buyerInfoLine extra [] (Text.split '\n' other)

theorem buyerInfo_ok {other info : Text} {extra : List (Text × Text)} :
    buyerInfo other extra = .ok info ↔ (∀ e ∈ configuredInputs other, e.missing extra = false) ∧
      info = (configuredInputs other).flatMap (fun e => e.line extra ++ ['\n']) := by
  rw [buyerInfo_eq]
  cases hfind : (configuredInputs other).find? (·.missing extra) with
  | none =>
      have hnone : ∀ e ∈ configuredInputs other, e.missing extra = false := by
        simpa using hfind
      constructor
      · intro h
        exact ⟨hnone, (Except.ok.inj h).symm⟩
      · rintro ⟨-, rfl⟩
        rfl
  | some e =>
      constructor
      · intro h
        cases h
      · rintro ⟨hall, -⟩
        have hmissing := List.find?_some hfind
        rw [hall e (List.mem_of_find?_eq_some hfind)] at hmissing
        cases hmissing

/-! ### What the order keeps -/

/-- Without a configuration there is nothing to ask for. -/
theorem configuredInputs_nil : configuredInputs [] = [] := by
  decide

/-- The entries of an order that a checkout of a manual goods commits. -/
theorem createOrder_info {env : Env} {sn : Text} {inp : CreateInput} {site : Site} {now : ℤ}
    {ids : ℕ → ℕ} {d d' : DB} {r : Reply} {g : Good}
    (h : (createOrder env sn inp site now).commits ids d r d') (hg : d.goodBy inp.gid = some g)
    (hmanual : g.type = .manual) :
    ∃ id o, d'.orders = d.orders.put id o ∧ buyerInfo g.otherIpuCnf inp.extra = .ok o.info := by
  obtain ⟨g', used, q, info, id, reserved, made, -, hcreated, -, -, -, -, hg', hinfo⟩ :=
    createOrder_quoted h
  rw [hg] at hg'
  obtain rfl := Option.some.inj hg'
  refine ⟨id, _, hcreated.orders, ?_⟩
  change buyerInfo g.otherIpuCnf inp.extra = .ok info
  rw [← hinfo]
  by_cases hother : g.otherIpuCnf = []
  · rw [hother]
    simp [buyerInfo_eq, configuredInputs_nil]
  · simp [hmanual, hother]

/-- The order keeps one line for each configured field and no other line, and the line of a field
gives its value back. -/
structure RecordsInputs (other : Text) (extra : List (Text × Text)) (info : Text) : Prop where
  oneLine : Text.split '\n' info = (configuredInputs other).map (·.line extra) ++ [[]]
  readBack : ∀ (k : ℕ) (e : ExtraInput), (configuredInputs other)[k]? = some e →
    ((Text.split '\n' info)[k]?).map (·.drop (e.label.length + 1)) = some (e.value extra)

theorem inputOf_label {line : Text} {e : ExtraInput} (h : inputOf line = some e) :
    ∀ c ∈ e.label, c ∈ line := by
  rw [inputOf] at h
  split at h
  next field label need parts hsplit =>
    obtain rfl := Option.some.inj h
    intro c hc
    have hmem : label ∈ line.trimSpace.split '=' := by
      rw [hsplit]
      simp
    exact mem_of_mem_trimSpace (mem_of_mem_split hmem c hc).1
  next => cases h

/-- A label comes from one line of the configuration. -/
theorem configuredInputs_label {other : Text} {e : ExtraInput} (he : e ∈ configuredInputs other) :
    '\n' ∉ e.label := by
  obtain ⟨line, hline, hinput⟩ := List.mem_filterMap.mp he
  intro hc
  exact (mem_of_mem_split hline '\n' (inputOf_label hinput '\n' hc)).2 rfl

theorem split_flatMap_lines {ls : List Text} (h : ∀ l ∈ ls, '\n' ∉ l) :
    Text.split '\n' (ls.flatMap (· ++ ['\n'])) = ls ++ [[]] := by
  induction ls with
  | nil => rfl
  | cons l ls ih =>
      have hrest := ih (fun l' hl' => h l' (by simp [hl']))
      rw [List.flatMap_cons, List.append_assoc, List.singleton_append,
        split_append _ (h l (by simp)), hrest]
      rfl

theorem ExtraInput.notMem_line {extra : List (Text × Text)} {e : ExtraInput}
    (hlabel : '\n' ∉ e.label) :
    '\n' ∉ e.line extra ↔ '\n' ∉ e.value extra := by
  rw [ExtraInput.line]
  simp [hlabel]

theorem recordsInputs_iff {other info : Text} {extra : List (Text × Text)}
    (h : buyerInfo other extra = .ok info) :
    RecordsInputs other extra info ↔ ∀ e ∈ configuredInputs other, '\n' ∉ e.value extra := by
  obtain ⟨-, rfl⟩ := buyerInfo_ok.mp h
  constructor
  · intro hrec e he
    rw [← ExtraInput.notMem_line (configuredInputs_label he)]
    have hmem : e.line extra ∈
        Text.split '\n' ((configuredInputs other).flatMap (fun e => e.line extra ++ ['\n'])) := by
      rw [hrec.oneLine]
      exact List.mem_append_left _ (List.mem_map_of_mem he)
    intro hc
    exact (mem_of_mem_split hmem '\n' hc).2 rfl
  · intro hvalue
    have hlines : ∀ l ∈ (configuredInputs other).map (·.line extra), '\n' ∉ l := by
      intro l hl
      obtain ⟨e, he, rfl⟩ := List.mem_map.mp hl
      exact (ExtraInput.notMem_line (configuredInputs_label he)).mpr (hvalue e he)
    have hsplit : Text.split '\n'
        ((configuredInputs other).flatMap (fun e => e.line extra ++ ['\n'])) =
        (configuredInputs other).map (·.line extra) ++ [[]] := by
      rw [← split_flatMap_lines hlines, List.flatMap_map]
    refine ⟨hsplit, ?_⟩
    intro k e hk
    obtain ⟨hlt, -⟩ := List.getElem?_eq_some_iff.mp hk
    rw [hsplit, List.getElem?_append_left (by simpa using hlt), List.getElem?_map, hk]
    simp [ExtraInput.line, List.drop_append]

/-- The entries of an order can be read back, line by line, exactly when no value that was submitted
for a configured field holds a line feed. -/
theorem recorded_inputs (env : Env) (d : DB) (rand : Fin 8 → Fin 256) (inp : CreateInput)
    (site : Site) (ids : ℕ → ℕ) (g : Good) (id : ℕ) (o : Order) (hg : d.goodBy inp.gid = some g)
    (hmanual : g.type = .manual) (hfresh : d.orders.get? id = none)
    (ho : ((Op.request (.createOrder rand inp site) ids).apply env d).orders.get? id = some o) :
    RecordsInputs g.otherIpuCnf inp.extra o.info ↔
      ∀ e ∈ configuredInputs g.otherIpuCnf, '\n' ∉ e.value inp.extra := by
  rw [Op.apply, Request.answer] at ho
  rcases Tx.exec_fst ((Request.createOrder rand inp site).script env d.clock) ids d with
    hsame | ⟨reply, d', hc, he⟩
  · rw [hsame, hfresh] at ho
    cases ho
  · obtain ⟨id', o', horders, hinfo⟩ := createOrder_info hc hg hmanual
    rw [he, horders] at ho
    rcases Table.get?_put_some ho with ⟨-, rfl⟩ | ⟨-, ho⟩
    · exact recordsInputs_iff hinfo
    · rw [hfresh] at ho
      cases ho

def tinyFieldShop : DB :=
  { tinyShop with
    goods := .ofList [(2, { tinyGood .manual 1 with otherIpuCnf := "qq=QQ=1\nps=备注=0".toList })] }

def tinyFieldBuy (qq : Text) : Op :=
  .request (.createOrder (fun _ => Fin.ofNat 256 1)
    { tinyInput 2 [] with extra := [("qq".toList, qq)] } ⟨false, 5⟩) (fun _ => 1)

theorem recorded_inputs_two :
    ∃ o, ((tinyFieldBuy "1".toList).apply tinyEnv tinyFieldShop).orders.get? 1 = some o ∧
      RecordsInputs "qq=QQ=1\nps=备注=0".toList [("qq".toList, "1".toList)] o.info := by
  obtain ⟨o, ho⟩ : ∃ o, ((tinyFieldBuy "1".toList).apply tinyEnv tinyFieldShop).orders.get? 1 =
    some o :=
    Option.isSome_iff_exists.mp (by decide)
  refine ⟨o, ho, ?_⟩
  refine (recorded_inputs tinyEnv tinyFieldShop _ _ _ _ _ 1 o rfl rfl rfl ho).mpr ?_
  decide

/-- A value with a line feed in it forges the line of the next field. -/
theorem recorded_inputs_forged :
    (((tinyFieldBuy "1\n备注:2".toList).apply tinyEnv tinyFieldShop).orders.get? 1).map (·.info) =
      some "QQ:1\n备注:2\n备注:\n".toList ∧
    ¬ ∀ (env : Env) (d : DB) (rand : Fin 8 → Fin 256) (inp : CreateInput) (site : Site)
      (ids : ℕ → ℕ)
      (g : Good) (id : ℕ) (o : Order), d.goodBy inp.gid = some g → g.type = .manual →
      d.orders.get? id = none →
      ((Op.request (.createOrder rand inp site) ids).apply env d).orders.get? id = some o →
      RecordsInputs g.otherIpuCnf inp.extra o.info := by
  have hinfo : (((tinyFieldBuy "1\n备注:2".toList).apply tinyEnv tinyFieldShop).orders.get? 1).map
      (·.info) = some "QQ:1\n备注:2\n备注:\n".toList := by decide
  refine ⟨hinfo, ?_⟩
  intro h
  obtain ⟨o, ho, hforged⟩ := Option.map_eq_some_iff.mp hinfo
  have hrec := (h tinyEnv tinyFieldShop _ _ _ _ _ 1 o rfl rfl rfl ho).oneLine
  rw [hforged] at hrec
  revert hrec
  decide

end Dufaka
