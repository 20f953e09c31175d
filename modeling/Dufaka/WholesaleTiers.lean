import Dufaka.Lines
import Dufaka.Price
import Mathlib.Data.List.MinMax
import Mathlib.Data.Prod.Lex

/-!
# Wholesale tiers

The valid tiers of a wholesale text, the one that `WholesaleOff` chooses for a quantity, and the
rows that the product page shows for the same text. The single pass of `WholesaleOff` is an `argmax`
over the valid tiers that the quantity reaches, ordered by threshold and then by falling price.
-/

namespace Dufaka

def tierOf (line : Text) : Option (Cents × ℤ) :=
  match line.trimSpace.cut '=' with
  | none => none
  | some (n, p) =>
      match n.trimSpace.parseInt, parseYuan p.trimSpace with
      | some need, some price => if need ≤ 0 ∨ price ≤ 0 then none else some (price, need)
      | _, _ => none

def wholesaleTiers (raw : Text) : List (Cents × ℤ) := (raw.split '\n').filterMap tierOf

/-- The lowest price among the tiers with the greatest threshold that the quantity reaches. -/
def BestTier (tiers : List (Cents × ℤ)) (qty : ℤ) (price : Cents) : Prop :=
  ∃ need, (price, need) ∈ tiers ∧ need ≤ qty ∧
    ∀ t ∈ tiers, t.2 ≤ qty → t.2 ≤ need ∧ (t.2 = need → price ≤ t.1)

theorem tierOf_blank {line : Text} (h : line.trimSpace = []) : tierOf line = none := by
  rw [tierOf, h]
  rfl

theorem tierOf_pos {line : Text} {price : Cents} {need : ℤ} (h : tierOf line = some (price, need)) :
    0 < price ∧ 0 < need := by
  rw [tierOf] at h
  split at h
  · cases h
  · split at h
    · split_ifs at h with hbad
      rw [not_or] at hbad
      obtain ⟨rfl, rfl⟩ := Prod.mk.inj (Option.some.inj h)
      exact ⟨not_le.mp hbad.2, not_le.mp hbad.1⟩
    · cases h

theorem wholesaleTiers_pos {raw : Text} {t : Cents × ℤ} (h : t ∈ wholesaleTiers raw) :
    0 < t.1 ∧ 0 < t.2 := by
  obtain ⟨line, -, hline⟩ := List.mem_filterMap.mp h
  exact tierOf_pos hline

/-! ### The single pass -/

/-- A greater threshold comes first, and among equal ones a lower price. -/
def tierRank (t : Cents × ℤ) : ℤ ×ₗ ℤᵒᵈ := toLex (t.2, OrderDual.toDual t.1)

theorem tierRank_lt {s t : Cents × ℤ} :
    tierRank s < tierRank t ↔ t.2 > s.2 ∨ (t.2 = s.2 ∧ t.1 < s.1) := by
  rw [tierRank, tierRank, Prod.Lex.toLex_lt_toLex]
  constructor
  · rintro (h | ⟨h, h'⟩)
    · exact Or.inl h
    · exact Or.inr ⟨h.symm, h'⟩
  · rintro (h | ⟨h, h'⟩)
    · exact Or.inl h
    · exact Or.inr ⟨h.symm, h'⟩

def reachedTiers (raw : Text) (qty : ℤ) : List (Cents × ℤ) :=
  (wholesaleTiers raw).filter (fun t => t.2 ≤ qty)

/-- A line counts when it is a valid tier that the quantity reaches. -/
theorem wholesaleLine_eq (qty : ℤ) (best : Tier) (line : Text) :
    wholesaleLine qty best line =
      match tierOf line with
      | none => best
      | some t =>
          if t.2 ≤ qty then List.argAux (fun b c => tierRank c < tierRank b) best t else best := by
  rw [wholesaleLine, tierOf]
  cases hcut : Text.cut '=' line.trimSpace with
  | none => rfl
  | some p =>
      obtain ⟨n, p⟩ := p
      cases hneed : n.trimSpace.parseInt with
      | none => simp [hneed]
      | some need =>
          cases hprice : parseYuan p.trimSpace with
          | none => simp [hneed, hprice]
          | some price =>
              simp only [hneed, hprice]
              by_cases hbad : need ≤ 0 ∨ price ≤ 0
              · have hbad' : need ≤ 0 ∨ price ≤ 0 ∨ qty < need := by tauto
                simp only [hbad, hbad', if_true]
              · by_cases hqty : need ≤ qty
                · have hgood : ¬ (need ≤ 0 ∨ price ≤ 0 ∨ qty < need) := by
                    rintro (h | h | h)
                    · exact hbad (Or.inl h)
                    · exact hbad (Or.inr h)
                    · omega
                  cases best with
                  | none => simp [hbad, hgood, hqty, List.argAux]
                  | some b => simp [hbad, hgood, hqty, List.argAux, tierRank_lt]
                · have hfar : need ≤ 0 ∨ price ≤ 0 ∨ qty < need := by omega
                  simp [hbad, hfar, hqty]

theorem foldl_wholesaleLine (qty : ℤ) (best : Tier) (lines : List Text) :
    lines.foldl (wholesaleLine qty) best =
      ((lines.filterMap tierOf).filter (fun t => t.2 ≤ qty)).foldl
        (List.argAux (fun b c => tierRank c < tierRank b)) best := by
  induction lines generalizing best with
  | nil => rfl
  | cons line lines ih =>
      rw [List.foldl_cons, ih, wholesaleLine_eq]
      cases ht : tierOf line with
      | none => rw [List.filterMap_cons_none ht]
      | some t =>
          rw [List.filterMap_cons_some ht]
          by_cases hqty : t.2 ≤ qty
          · rw [List.filter_cons_of_pos (by simpa using hqty), List.foldl_cons]
            simp only [hqty, if_true]
          · rw [List.filter_cons_of_neg (by simpa using hqty)]
            simp only [hqty, if_false]

theorem chosen_eq_argmax (raw : Text) (qty : ℤ) :
    (raw.split '\n').foldl (wholesaleLine qty) none = (reachedTiers raw qty).argmax tierRank :=
  foldl_wholesaleLine qty none (raw.split '\n')

/-- The discount is computed from the chosen tier alone. -/
theorem wholesaleOff_eq (raw : Text) {qty : ℤ} (unit : Cents) (hqty : 1 ≤ qty) :
    wholesaleOff raw qty unit =
      match (reachedTiers raw qty).argmax tierRank with
      | none => 0
      | some t =>
          match mul unit qty, mul t.1 qty with
          | some total, some next => if next ≥ total then 0 else total - next
          | _, _ => 0 := by
  have hpos : ¬ qty ≤ 0 := by omega
  rw [wholesaleOff, chosen_eq_argmax]
  by_cases hraw : raw = []
  · subst hraw
    rw [if_pos (Or.inr rfl)]
    rfl
  · rw [if_neg (by tauto)]
    cases (reachedTiers raw qty).argmax tierRank with
    | none => rfl
    | some t => rfl

/-- A product in the range of the money column is computed, and no other. -/
theorem mul_eq {unit : Cents} {qty : ℤ} (hunit : 0 ≤ unit) (hqty : 1 ≤ qty) :
    mul unit qty = if unit * qty ≤ maxCents then some (unit * qty) else none := by
  have hnonneg : ¬ (qty < 0 ∨ unit < 0) := by
    rintro (h | h)
    · omega
    · exact absurd hunit (not_le.mpr h)
  rw [mul, if_neg hnonneg]
  by_cases hzero : unit = 0
  · subst hzero
    have hin : (0 : ℤ) * qty ≤ maxCents := by
      rw [zero_mul]
      decide
    rw [if_pos (Or.inr rfl), if_pos hin, zero_mul]
  · have hpos : 0 < unit := lt_of_le_of_ne hunit (Ne.symm hzero)
    rw [if_neg (by rintro (h | h) <;> [omega; exact hzero h])]
    by_cases hdiv : qty > (2 ^ 63 - 1) / unit
    · -- the division test only refuses what is far above the column
      have hbig : ¬ unit * qty ≤ maxCents := by
        intro hle
        have hmul : qty * unit ≤ 2 ^ 63 - 1 := by
          rw [mul_comm]
          exact hle.trans (by decide)
        have hfit : qty ≤ (2 ^ 63 - 1) / unit := (Int.le_ediv_iff_mul_le hpos).mpr hmul
        omega
      rw [if_pos hdiv, if_neg hbig]
    · rw [if_neg hdiv]
      by_cases hin : unit * qty ≤ maxCents
      · rw [if_neg (not_lt.mpr hin), if_pos hin]
      · rw [if_pos (not_le.mp hin), if_neg hin]

/-! ### The choice -/

section Choice
variable {raw raw' : Text} {qty : ℤ} {t : Cents × ℤ} {price price' unit : Cents}
  {tiers tiers' : List (Cents × ℤ)}

theorem mem_reachedTiers : t ∈ reachedTiers raw qty ↔ t ∈ wholesaleTiers raw ∧ t.2 ≤ qty := by
  rw [reachedTiers, List.mem_filter, decide_eq_true_eq]

theorem bestTier_of_argmax (h : t ∈ (reachedTiers raw qty).argmax tierRank) :
    BestTier (wholesaleTiers raw) qty t.1 := by
  obtain ⟨hmem, hle⟩ := mem_reachedTiers.mp (List.argmax_mem h)
  refine ⟨t.2, hmem, hle, fun s hs hsq => ?_⟩
  have hnot : ¬ tierRank t < tierRank s :=
    List.not_lt_of_mem_argmax (mem_reachedTiers.mpr ⟨hs, hsq⟩) h
  rw [tierRank_lt, not_or, not_and] at hnot
  refine ⟨not_lt.mp hnot.1, fun heq => ?_⟩
  exact not_lt.mp (hnot.2 heq)

theorem BestTier.unique (h : BestTier tiers qty price) (h' : BestTier tiers qty price') :
    price = price' := by
  obtain ⟨need, hmem, hle, hbest⟩ := h
  obtain ⟨need', hmem', hle', hbest'⟩ := h'
  obtain ⟨hneed, hprice⟩ := hbest _ hmem' hle'
  obtain ⟨hneed', hprice'⟩ := hbest' _ hmem hle
  have heq : need = need' := le_antisymm hneed' hneed
  exact le_antisymm (hprice heq.symm) (hprice' heq)

theorem BestTier.congr (h : ∀ t, t ∈ tiers ↔ t ∈ tiers') :
    BestTier tiers qty price ↔ BestTier tiers' qty price := by
  simp only [BestTier, h]

theorem BestTier.pos (h : BestTier (wholesaleTiers raw) qty price) : 0 < price := by
  obtain ⟨need, hmem, -⟩ := h
  exact (wholesaleTiers_pos hmem).1

/-- The discount when the best tier lowers the total. -/
theorem wholesaleOff_of_best (hqty : 1 ≤ qty) (hunit : 0 ≤ unit) (htotal : unit * qty ≤ maxCents)
    (hbest : BestTier (wholesaleTiers raw) qty price) (hin : price * qty ≤ maxCents)
    (hlow : price * qty < unit * qty) :
    wholesaleOff raw qty unit = unit * qty - price * qty := by
  rw [wholesaleOff_eq raw unit hqty]
  cases ht : (reachedTiers raw qty).argmax tierRank with
  | none =>
      obtain ⟨need, hmem, hle, -⟩ := hbest
      have hnil := List.argmax_eq_none.mp ht
      have hreached : (price, need) ∈ reachedTiers raw qty := mem_reachedTiers.mpr ⟨hmem, hle⟩
      rw [hnil] at hreached
      cases hreached
  | some t =>
      have hsame : t.1 = price := (bestTier_of_argmax ht).unique hbest
      have hprice : 0 ≤ price := le_of_lt hbest.pos
      simp only [hsame, mul_eq hunit hqty, mul_eq hprice hqty, htotal, hin, if_true]
      exact if_neg (not_le.mpr hlow)

/-- No discount in every other case. -/
theorem wholesaleOff_of_no_best (hqty : 1 ≤ qty) (hunit : 0 ≤ unit)
    (hnone : ¬ ∃ price, BestTier (wholesaleTiers raw) qty price ∧ price * qty ≤ maxCents ∧
      price * qty < unit * qty) : wholesaleOff raw qty unit = 0 := by
  rw [wholesaleOff_eq raw unit hqty]
  cases ht : (reachedTiers raw qty).argmax tierRank with
  | none => rfl
  | some t =>
      have hbest := bestTier_of_argmax ht
      have hprice : 0 ≤ t.1 := le_of_lt hbest.pos
      by_cases hin : t.1 * qty ≤ maxCents
      · have hhigh : ¬ t.1 * qty < unit * qty := fun hlow => hnone ⟨t.1, hbest, hin, hlow⟩
        by_cases htotal : unit * qty ≤ maxCents
        · simp only [mul_eq hunit hqty, mul_eq hprice hqty, htotal, hin, if_true]
          exact if_pos (not_lt.mp hhigh)
        · simp only [mul_eq hunit hqty, htotal, if_false]
      · simp only [mul_eq hprice hqty, hin, if_false]
        cases mul unit qty with
        | none => rfl
        | some total => rfl

/-- Texts with the same valid tiers, however often and wherever they stand, give the same
discount. -/
theorem wholesaleOff_congr (hqty : 1 ≤ qty) (hunit : 0 ≤ unit) (htotal : unit * qty ≤ maxCents)
    (h : ∀ t, t ∈ wholesaleTiers raw' ↔ t ∈ wholesaleTiers raw) :
    wholesaleOff raw' qty unit = wholesaleOff raw qty unit := by
  by_cases hbest : ∃ price, BestTier (wholesaleTiers raw) qty price ∧ price * qty ≤ maxCents ∧
      price * qty < unit * qty
  · obtain ⟨price, hbest, hin, hlow⟩ := hbest
    have hbest' : BestTier (wholesaleTiers raw') qty price := (BestTier.congr h).mpr hbest
    rw [wholesaleOff_of_best hqty hunit htotal hbest hin hlow,
      wholesaleOff_of_best hqty hunit htotal hbest' hin hlow]
  · have hbest' : ¬ ∃ price, BestTier (wholesaleTiers raw') qty price ∧ price * qty ≤ maxCents ∧
        price * qty < unit * qty := by
      rintro ⟨price, hb, hin, hlow⟩
      exact hbest ⟨price, (BestTier.congr h).mp hb, hin, hlow⟩
    rw [wholesaleOff_of_no_best hqty hunit hbest, wholesaleOff_of_no_best hqty hunit hbest']

/-- Only the lines with a tier count. -/
theorem mem_wholesaleTiers_congr
    (h : ∀ line, tierOf line ≠ none → (line ∈ raw'.split '\n' ↔ line ∈ raw.split '\n')) :
    t ∈ wholesaleTiers raw' ↔ t ∈ wholesaleTiers raw := by
  rw [wholesaleTiers, wholesaleTiers, List.mem_filterMap, List.mem_filterMap]
  constructor
  · rintro ⟨line, hline, ht⟩
    exact ⟨line, (h line (by rw [ht]; exact Option.some_ne_none t)).mp hline, ht⟩
  · rintro ⟨line, hline, ht⟩
    exact ⟨line, (h line (by rw [ht]; exact Option.some_ne_none t)).mpr hline, ht⟩

/-- The discount is what the best tier takes off, when that tier is in range and below the total,
and nothing otherwise. The order of the lines, repeated lines and lines without a tier do not
matter. -/
theorem wholesale_tier_selection (raw : Text) (qty : ℤ) (unit : Cents) (hqty : 1 ≤ qty)
    (hunit : 0 ≤ unit) (htotal : unit * qty ≤ maxCents) :
    (∀ price, BestTier (wholesaleTiers raw) qty price → price * qty ≤ maxCents →
        price * qty < unit * qty → wholesaleOff raw qty unit = unit * qty - price * qty) ∧
      ((¬ ∃ price, BestTier (wholesaleTiers raw) qty price ∧ price * qty ≤ maxCents ∧
        price * qty < unit * qty) → wholesaleOff raw qty unit = 0) ∧
      (∀ raw', (raw'.split '\n').Perm (raw.split '\n') →
        wholesaleOff raw' qty unit = wholesaleOff raw qty unit) ∧
      (∀ raw' before line after, raw.split '\n' = before ++ after →
        raw'.split '\n' = before ++ line :: after →
        line ∈ before ++ after ∨ line.trimSpace = [] ∨ tierOf line = none →
        wholesaleOff raw' qty unit = wholesaleOff raw qty unit) := by
  refine ⟨?_, ?_, ?_, ?_⟩
  · intro price hbest hin hlow
    exact wholesaleOff_of_best hqty hunit htotal hbest hin hlow
  · exact wholesaleOff_of_no_best hqty hunit
  · intro raw' hperm
    have hlines : ∀ line, line ∈ raw'.split '\n' ↔ line ∈ raw.split '\n' :=
      fun line => hperm.mem_iff
    exact wholesaleOff_congr hqty hunit htotal
      (fun t => mem_wholesaleTiers_congr (fun line _ => hlines line))
  · intro raw' before line after hraw hraw' hline
    refine wholesaleOff_congr hqty hunit htotal (fun t =>
      mem_wholesaleTiers_congr (fun line' ht => ?_))
    rw [hraw, hraw', List.mem_append, List.mem_cons, List.mem_append]
    constructor
    · rintro (h | rfl | h)
      · exact Or.inl h
      · rcases hline with hmem | hblank | hnone
        · exact List.mem_append.mp hmem
        · exact (ht (tierOf_blank hblank)).elim
        · exact (ht hnone).elim
      · exact Or.inr h
    · rintro (h | h)
      · exact Or.inl h
      · exact Or.inr (Or.inr h)

theorem wholesale_tier_selection_ten :
    wholesaleOff "10=8.50\nx\n5=9\n10=8.00".toList 12 1000 = 1000 * 12 - 800 * 12 := by
  have hbest : BestTier (wholesaleTiers "10=8.50\nx\n5=9\n10=8.00".toList) 12 800 := by
    have htiers : wholesaleTiers "10=8.50\nx\n5=9\n10=8.00".toList = [(850, 10), (900, 5),
        (800, 10)] := by
      decide
    rw [htiers]
    refine ⟨10, by decide, by decide, ?_⟩
    simp
  exact (wholesale_tier_selection _ 12 1000 (by decide) (by decide)
    (by decide)).1 800 hbest (by decide)
    (by decide)

end Choice

/-! ### The product page -/

def wholesaleRow (line : Text) : Option (Text × Text) :=
  match line.trimSpace.cut '=' with
  | none => none
  | some (n, p) =>
      if n.trimSpace = [] ∨ p.trimSpace = [] then none else some (n.trimSpace, p.trimSpace)

def wholesaleRows (raw : Text) : List (Text × Text) :=
  (raw.replaceCRLF.split '\n').filterMap wholesaleRow

def Shows (row : Text × Text) (tier : Cents × ℤ) : Prop :=
  row.1.parseInt = some tier.2 ∧ parseYuan row.2 = some tier.1

/-- On every line with something on both sides of an equals sign, there is a whole number from one
on the left and a price above zero on the right. -/
def ReadableTiers (raw : Text) : Prop :=
  ∀ line ∈ raw.split '\n', ∀ n p, line.trimSpace.cut '=' = some (n, p) → n.trimSpace ≠ [] →
    p.trimSpace ≠ [] → ∃ need price, n.trimSpace.parseInt = some need ∧ 1 ≤ need ∧
      parseYuan p.trimSpace = some price ∧ 0 < price

/-- The page drops the carriage returns first, which changes none of its rows. -/
theorem wholesaleRows_eq (raw : Text) :
    wholesaleRows raw = (raw.split '\n').filterMap wholesaleRow := by
  refine Text.filterMap_split_replaceCRLF (fun l l' h => ?_) raw
  rw [wholesaleRow, wholesaleRow, h]

theorem row_of_tier {line : Text} {t : Cents × ℤ} (h : tierOf line = some t) :
    ∃ row, wholesaleRow line = some row ∧ Shows row t := by
  rw [tierOf] at h
  rw [wholesaleRow]
  cases hcut : Text.cut '=' line.trimSpace with
  | none => simp [hcut] at h
  | some halves =>
      obtain ⟨n, p⟩ := halves
      simp only [hcut] at h
      cases hneed : n.trimSpace.parseInt with
      | none => simp [hneed] at h
      | some need =>
          cases hprice : parseYuan p.trimSpace with
          | none => simp [hneed, hprice] at h
          | some price =>
              simp only [hneed, hprice] at h
              split_ifs at h with hbad
              obtain rfl := Option.some.inj h
              have hn : n.trimSpace ≠ [] := by
                intro hnil
                rw [hnil] at hneed
                cases hneed
              have hp : p.trimSpace ≠ [] := by
                intro hnil
                rw [hnil] at hprice
                cases hprice
              have hboth : ¬ (n.trimSpace = [] ∨ p.trimSpace = []) := by tauto
              exact ⟨(n.trimSpace, p.trimSpace), if_neg hboth, hneed, hprice⟩

theorem length_tiers_le (lines : List Text) :
    (lines.filterMap tierOf).length ≤ (lines.filterMap wholesaleRow).length := by
  induction lines with
  | nil => exact le_rfl
  | cons line lines ih =>
      cases ht : tierOf line with
      | none =>
          rw [List.filterMap_cons_none ht, List.filterMap_cons]
          cases wholesaleRow line with
          | none => exact ih
          | some row => exact ih.trans (Nat.le_succ _)
      | some t =>
          obtain ⟨row, hrow, -⟩ := row_of_tier ht
          rw [List.filterMap_cons_some ht, List.filterMap_cons_some hrow]
          exact Nat.succ_le_succ ih

/-- The rows are the tiers, in the same order, when every row is a tier. -/
theorem forall₂_shows_iff (lines : List Text) :
    List.Forall₂ Shows (lines.filterMap wholesaleRow) (lines.filterMap tierOf) ↔
      ∀ line ∈ lines, wholesaleRow line ≠ none → tierOf line ≠ none := by
  induction lines with
  | nil => simp
  | cons line lines ih =>
      rw [List.forall_mem_cons, ← ih]
      cases ht : tierOf line with
      | none =>
          rw [List.filterMap_cons_none ht]
          cases hrow : wholesaleRow line with
          | none =>
              rw [List.filterMap_cons_none hrow]
              simp
          | some row =>
              rw [List.filterMap_cons_some hrow]
              constructor
              · intro h
                -- the page has a row more than there are tiers
                have hlen := h.length_eq
                have hle := length_tiers_le lines
                rw [List.length_cons] at hlen
                omega
              · rintro ⟨h, -⟩
                exact (h (Option.some_ne_none row) rfl).elim
      | some t =>
          obtain ⟨row, hrow, hshows⟩ := row_of_tier ht
          rw [List.filterMap_cons_some ht, List.filterMap_cons_some hrow, List.forall₂_cons]
          simp [hshows]

theorem readableTiers_iff (raw : Text) : ReadableTiers raw ↔
    ∀ line ∈ raw.split '\n', wholesaleRow line ≠ none → tierOf line ≠ none := by
  rw [ReadableTiers]
  refine forall₂_congr (fun line _ => ?_)
  rw [wholesaleRow, tierOf]
  cases hcut : Text.cut '=' line.trimSpace with
  | none => simp
  | some halves =>
      obtain ⟨n, p⟩ := halves
      by_cases hblank : n.trimSpace = [] ∨ p.trimSpace = []
      · have hleft : n.trimSpace ≠ [] → p.trimSpace ≠ [] → False := by tauto
        simp only [hblank, if_true, ne_eq, not_true, false_implies, iff_true]
        rintro n' p' heq hn hp
        obtain ⟨rfl, rfl⟩ := Prod.mk.inj (Option.some.inj heq)
        exact (hleft hn hp).elim
      · simp only [hblank, if_false]
        rw [not_or] at hblank
        constructor
        · intro h _
          obtain ⟨need, price, hneed, hpos, hprice, hpos'⟩ := h n p rfl hblank.1 hblank.2
          have hgood : ¬ (need ≤ 0 ∨ price ≤ 0) := by
            rintro (h | h)
            · omega
            · exact absurd hpos' (not_lt.mpr h)
          simp [hneed, hprice, hgood]
        · rintro h n' p' heq hn hp
          obtain ⟨rfl, rfl⟩ := Prod.mk.inj (Option.some.inj heq)
          have htier := h (Option.some_ne_none _)
          cases hneed : n.trimSpace.parseInt with
          | none => simp [hneed] at htier
          | some need =>
              cases hprice : parseYuan p.trimSpace with
              | none => simp [hneed, hprice] at htier
              | some price =>
                  simp only [hneed, hprice] at htier
                  split_ifs at htier with hbad
                  · exact (htier rfl).elim
                  · rw [not_or, not_le, not_le] at hbad
                    exact ⟨need, price, rfl, hbad.1, rfl, hbad.2⟩

/-- The product page shows the tiers that the price uses, in their order, exactly when every line
that it shows can be read. -/
theorem wholesaleRows_advertise (raw : Text) :
    List.Forall₂ Shows (wholesaleRows raw) (wholesaleTiers raw) ↔ ReadableTiers raw := by
  rw [wholesaleRows_eq, wholesaleTiers, forall₂_shows_iff, readableTiers_iff]

/-- A threshold with its unit is shown, and a purchase that reaches it pays the full price. -/
theorem wholesaleRows_ignored :
    wholesaleRows "10个=8.00".toList = [("10个".toList, "8.00".toList)] ∧
      wholesaleTiers "10个=8.00".toList = [] ∧ wholesaleOff "10个=8.00".toList 10 1000 = 0 ∧
      ¬ List.Forall₂ Shows (wholesaleRows "10个=8.00".toList)
        (wholesaleTiers "10个=8.00".toList) := by
  have hrows : wholesaleRows "10个=8.00".toList = [("10个".toList, "8.00".toList)] := by decide
  have htiers : wholesaleTiers "10个=8.00".toList = [] := by decide
  refine ⟨hrows, htiers, by decide, ?_⟩
  rw [hrows, htiers]
  intro h
  cases h

end Dufaka
