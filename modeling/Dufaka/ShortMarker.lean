import Dufaka.Lines
import Dufaka.Operations

/-!
# The short-stock marker

A payment that meets short stock puts a marker line in front of what the buyer of a manual order
wrote, and the owner's save that takes the stock cuts it off again. The owner's form comes in
between: the browser submits the lines of the text with line ends of its own, and the form trims
what it gets.
-/

namespace Dufaka
open Relational Text

namespace Text

def trimRight (s : Text) : Text := (s.reverse.dropWhile isSpace).reverse

theorem trimSpace_eq_trimRight {s : Text} (h : ∀ c ∈ s.head?, isSpace c = false) :
    trimSpace s = trimRight s := by
  have hdrop : s.dropWhile isSpace = s := by
    cases s with
    | nil => rfl
    | cons c s => simp [h c rfl]
  rw [trimSpace, hdrop, trimRight]

/-- Trimming at the end reaches what stands in front only when nothing but space follows. -/
theorem trimRight_append (p s : Text) :
    trimRight (p ++ s) = if trimRight s = [] then trimRight p else p ++ trimRight s := by
  rw [trimRight, List.reverse_append, List.dropWhile_append, trimRight]
  by_cases hs : s.reverse.dropWhile isSpace = []
  · simp [hs, trimRight]
  · simp [hs]

theorem trimRight_eq_self {s : Text} (h : ∀ c ∈ s.getLast?, isSpace c = false) :
    trimRight s = s := by
  have hdrop : s.reverse.dropWhile isSpace = s.reverse := by
    rw [← List.head?_reverse] at h
    cases hrev : s.reverse with
    | nil => rfl
    | cons c t =>
        rw [hrev] at h
        simp [h c rfl]
  rw [trimRight, hdrop, List.reverse_reverse]

def withLF (s : Text) : Text := join ['\n'] (lines s)

def submitted (s : Text) : Text := join ['\r', '\n'] (lines s)

theorem normalizeNL_eq (s : Text) : normalizeNL s = trimSpace (withLF s) := by
  rw [normalizeNL, withLF, ← split_replaceCR, join_split]

/-- Joined with line feeds or with pairs, any lines can be read back. -/
theorem lines_join_crlf {ls : List Text} (hne : ls ≠ []) (h : ∀ l ∈ ls, OneLine l) :
    lines (join ['\r', '\n'] ls) = ls := by
  induction ls with
  | nil => exact absurd rfl hne
  | cons l ls ih =>
      have hl := h l (by simp)
      cases ls with
      | nil => exact lines_of_oneLine hl
      | cons l' ls =>
          have hrest := ih (List.cons_ne_nil _ _) (fun l hl => h l (by simp [hl]))
          rw [join, lines_append _ hl (Or.inr (Or.inl rfl)), hrest]

theorem lines_submitted (s : Text) : lines (submitted s) = lines s :=
  lines_join_crlf (lines_ne_nil s) (oneLine_of_mem_lines s)

/-- A text without carriage returns has line feeds already. -/
theorem withLF_eq_self {s : Text} (h : '\r' ∉ s) : withLF s = s := by
  have hcrlf : replaceCRLF s = s := by
    induction s with
    | nil => rfl
    | cons c s ih =>
        rw [List.mem_cons, not_or] at h
        rw [replaceCRLF_cons (Or.inl (Ne.symm h.1)), ih h.2]
  have hcr : replaceCR s = s := by
    rw [replaceCR]
    conv_rhs => rw [← List.map_id s]
    refine List.map_congr_left (fun c hc => ?_)
    rw [if_neg (ne_of_mem_of_not_mem hc h)]
    rfl
  rw [withLF, ← split_replaceCR, join_split, hcrlf, hcr]

theorem lines_append_lf {l : Text} (s : Text) (hl : OneLine l) :
    lines (l ++ '\n' :: s) = l :: lines s := by
  have h : lines (l ++ ['\n'] ++ s) = l :: lines s := lines_append s hl (Or.inl rfl)
  rwa [List.append_assoc] at h

theorem withLF_append {l : Text} (s : Text) (hl : OneLine l) :
    withLF (l ++ '\n' :: s) = l ++ '\n' :: withLF s := by
  rw [withLF, lines_append_lf s hl]
  obtain ⟨a, ls, hs⟩ := List.exists_cons_of_ne_nil (lines_ne_nil s)
  rw [withLF, hs, join, List.append_assoc]
  rfl

theorem trimPrefix_append (p s : Text) : trimPrefix p (p ++ s) = s := by
  simp [trimPrefix]

end Text

/-! ### The marker -/

section Marker
variable {t x y : Text}

theorem marker_oneLine : OneLine manualShortMarker := by
  have hall : manualShortMarker.all (fun c => c ≠ '\n' ∧ c ≠ '\r') = true := by decide
  intro c hc
  exact of_decide_eq_true (List.all_eq_true.mp hall c hc)

theorem stripShortMarker_append (t : Text) :
    stripShortMarker (manualShortMarker ++ t) = trimPrefix ['\n'] (trimPrefix ['\r'] t) := by
  have hprefix : manualShortMarker.isPrefixOf (manualShortMarker ++ t) = true := by
    rw [List.isPrefixOf_iff_prefix]
    exact List.prefix_append _ _
  rw [stripShortMarker, hprefix, trimPrefix_append]
  rfl

theorem stripShortMarker_line (x : Text) :
    stripShortMarker (manualShortMarker ++ '\n' :: x) = x := by
  rw [stripShortMarker_append]
  exact trimPrefix_append ['\n'] x

theorem stripShortMarker_other (h : ¬ manualShortMarker <+: t) : stripShortMarker t = t := by
  have hprefix : manualShortMarker.isPrefixOf t = false := by
    rw [Bool.eq_false_iff, Ne, List.isPrefixOf_iff_prefix]
    exact h
  rw [stripShortMarker, hprefix]
  rfl

/-- What the save with a text of the same lines leaves of the buyer's text. -/
theorem stripShortMarker_saved (h : lines y = lines (manualShortMarker ++ '\n' :: x)) :
    stripShortMarker (normalizeNL y) = trimRight (withLF x) := by
  have htext : withLF y = manualShortMarker ++ '\n' :: withLF x := by
    rw [withLF, h, ← withLF, withLF_append x marker_oneLine]
  have hhead : ∀ c ∈ (manualShortMarker ++ '\n' :: withLF x).head?, isSpace c = false := by
    intro c hc
    have hfirst : (manualShortMarker ++ '\n' :: withLF x).head? = some '库' := rfl
    rw [hfirst] at hc
    obtain rfl := Option.some.inj hc
    decide
  have hlast : trimRight manualShortMarker = manualShortMarker := by decide
  have hsplit : manualShortMarker ++ '\n' :: withLF x = (manualShortMarker ++ ['\n']) ++
      withLF x := by
    rw [List.append_assoc]
    rfl
  rw [normalizeNL_eq, htext, trimSpace_eq_trimRight hhead, hsplit, trimRight_append]
  by_cases hblank : trimRight (withLF x) = []
  · have hline : trimRight (manualShortMarker ++ ['\n']) = manualShortMarker := by decide
    rw [if_pos hblank, hline, hblank]
    have hempty := stripShortMarker_append []
    rw [List.append_nil] at hempty
    exact hempty
  · rw [if_neg hblank, List.append_assoc]
    exact stripShortMarker_line _

/-- The save that takes the stock of a short order, with the form as the browser sends it back. -/
theorem orderSave_stripped {id : ℕ} {f : OrderForm} {ids : ℕ → ℕ} {d d' : DB} {r : Reply}
    {row : Order} {dst : OrderStatus} (h : (orderSave id f).commits ids d r d')
    (hrow : d.loadOrder id = some row) (hdst : OrderStatus.ofCode (mustInt f.status 0) = some dst)
    (htake : row.takesStock dst = true) (hinfo : row.info = manualShortMarker ++ '\n' :: x)
    (hform : f.info = submitted row.info) :
    ∃ o', d'.orders.get? id = some o' ∧ o'.info = trimRight (withLF x) := by
  obtain ⟨row', dst', hrow', -, hdst', -, -, -, rfl⟩ := orderSave_commits h
  rw [hrow] at hrow'
  obtain rfl := Option.some.inj hrow'
  rw [hdst] at hdst'
  obtain rfl := Option.some.inj hdst'
  have hget := (loadOrder_some hrow).1
  refine ⟨_, (Table.get?_modify_self _ _ _).trans (by rw [hget, Option.map_some]), ?_⟩
  change row.savedInfo dst f.info = _
  have hlines : lines f.info = lines (manualShortMarker ++ '\n' :: x) := by
    rw [hform, lines_submitted, hinfo]
  rw [Order.savedInfo, if_pos htake]
  exact stripShortMarker_saved hlines

end Marker

/-- The marker comes off as it was put on; through the owner's form the buyer's text keeps its lines
but not the space at its end; and a text that does not begin with the marker is not cut. -/
theorem short_marker_round_trip :
    (∀ (o : Order) trade back,
      o.type = .manual → stripShortMarker (o.short trade back).info = o.info) ∧
    (∀ (o : Order) trade back y, o.type = .manual → lines y = lines (o.short trade back).info →
      stripShortMarker (normalizeNL y) = trimRight (withLF o.info)) ∧
    (∀ (o : Order) trade back (id : ℕ) (f : OrderForm) (ids : ℕ →
      ℕ) (d d' : DB) (r : Reply) (row : Order)
      dst, o.type = .manual → (orderSave id f).commits ids d r d' → d.loadOrder id = some row →
      row.info = (o.short trade back).info → f.info = submitted row.info →
      OrderStatus.ofCode (mustInt f.status 0) = some dst → row.takesStock dst = true →
      ∃ o', d'.orders.get? id = some o' ∧ o'.info = trimRight (withLF o.info)) ∧
    (∀ x, '\r' ∉ x → (∀ c ∈ x.getLast?, isSpace c = false) → trimRight (withLF x) = x) ∧
    ∀ t, ¬ manualShortMarker <+: t → stripShortMarker t = t := by
  have hshort : ∀ (o : Order) trade back, o.type = .manual →
      (o.short trade back).info = manualShortMarker ++ '\n' :: o.info := by
    intro o trade back hmanual
    simp only [Order.short, hmanual, manualShortMarker]
  refine ⟨?_, ?_, ?_, ?_, fun t => stripShortMarker_other⟩
  · intro o trade back hmanual
    rw [hshort o trade back hmanual]
    exact stripShortMarker_line o.info
  · intro o trade back y hmanual hlines
    rw [hshort o trade back hmanual] at hlines
    exact stripShortMarker_saved hlines
  · intro o trade back id f ids d d' r row dst hmanual h hrow hinfo hform hdst htake
    rw [hshort o trade back hmanual] at hinfo
    exact orderSave_stripped h hrow hdst htake hinfo hform
  · intro x hcr hlast
    rw [withLF_eq_self hcr, trimRight_eq_self hlast]

def tinyFilledOrder : Order := { tinyOrder 1 with info := "a:b\n".toList }

/-- The text of one field, as a checkout writes it, through the owner's form. -/
theorem short_marker_round_trip_field :
    stripShortMarker (tinyFilledOrder.short [] .held).info = "a:b\n".toList ∧
    stripShortMarker (normalizeNL "库存不足\r\na:b\r\n".toList) = "a:b".toList := by
  obtain ⟨hback, hform, -⟩ := short_marker_round_trip
  refine ⟨hback tinyFilledOrder [] .held rfl, ?_⟩
  have hlines : lines "库存不足\r\na:b\r\n".toList =
      lines (tinyFilledOrder.short [] .held).info := by decide
  rw [hform tinyFilledOrder [] .held _ rfl hlines]
  decide

/-- The form does not give back the newline that a checkout writes behind each field, and a buyer's
text that only begins like the marker is cut. -/
theorem short_marker_changes :
    buyerInfo "f=a=0".toList [("f".toList, "b".toList)] = .ok "a:b\n".toList ∧
    (¬ ∀ x, stripShortMarker (normalizeNL (submitted (manualShortMarker ++ '\n' :: x))) = x) ∧
    ¬ ∀ t, (lines t).head? ≠ some manualShortMarker → stripShortMarker t = t := by
  refine ⟨by decide, ?_, ?_⟩
  · intro h
    have hfield := h "a:b\n".toList
    revert hfield
    decide
  · intro h
    have hcut := h "库存不足abc".toList (by decide)
    revert hcut
    decide

end Dufaka
