import Dufaka.Text

/-!
# Lines of a text

A line ends at a line feed, at a carriage return, or at the two together. Splitting at one separator
is the inverse of joining with it, on pieces that are free of it.
-/

namespace Dufaka
namespace Text

/-! ### Splitting and joining -/

theorem split_eq_splitOn (sep : Char) (s : Text) : split sep s = s.splitOn sep := by
  induction s with
  | nil => rfl
  | cons c s ih =>
      rw [split, ih, List.splitOn_cons_eq_if_modifyHead]
      by_cases hc : c = sep
      · rw [if_pos hc, if_pos (beq_iff_eq.mpr hc)]
      · rw [if_neg hc, if_neg (fun h => hc (beq_iff_eq.mp h))]
        cases hs : s.splitOn sep with
        | nil => exact absurd hs (List.splitOn_ne_nil sep s)
        | cons l ls => rfl

theorem join_eq_intercalate (sep : Text) (ls : List Text) : join sep ls = sep.intercalate ls := by
  induction ls with
  | nil => rfl
  | cons l ls ih =>
      cases ls with
      | nil => simp [join, List.intercalate]
      | cons l' ls =>
          rw [join, ih, List.intercalate_cons_cons]

theorem split_join {sep : Char} {ls : List Text} (hne : ls ≠ []) (h : ∀ l ∈ ls, sep ∉ l) :
    split sep (join [sep] ls) = ls := by
  rw [split_eq_splitOn, join_eq_intercalate]
  exact List.splitOn_intercalate sep h hne

theorem join_split (sep : Char) (s : Text) : join [sep] (split sep s) = s := by
  rw [split_eq_splitOn, join_eq_intercalate]
  exact List.intercalate_splitOn sep

theorem split_of_notMem {sep : Char} {s : Text} (h : sep ∉ s) : split sep s = [s] := by
  rw [split_eq_splitOn]
  exact List.splitOn_eq_singleton h

theorem split_append {sep : Char} {l : Text} (s : Text) (h : sep ∉ l) :
    split sep (l ++ sep :: s) = l :: split sep s := by
  rw [split_eq_splitOn, split_eq_splitOn]
  exact List.splitOn_append_cons_self_of_not_mem h s

/-- The pieces of a text that is put together at a separator. -/
theorem split_append_cons (sep : Char) (s s' : Text) :
    split sep (s ++ sep :: s') = split sep s ++ split sep s' := by
  rw [split_eq_splitOn, split_eq_splitOn, split_eq_splitOn]
  exact List.splitOn_append_cons_self s s'

theorem mem_join {sep : Text} {ls : List Text} {c : Char} (hc : c ∈ join sep ls) :
    c ∈ sep ∨ ∃ l ∈ ls, c ∈ l := by
  fun_induction join sep ls with
  | case1 => cases hc
  | case2 l => exact Or.inr ⟨l, List.mem_cons_self, hc⟩
  | case3 l l' ls ih =>
      rw [List.mem_append, List.mem_append] at hc
      rcases hc with (hc | hc) | hc
      · exact Or.inr ⟨l, List.mem_cons_self, hc⟩
      · exact Or.inl hc
      · cases ih hc with
        | inl hsep => exact Or.inl hsep
        | inr hmem =>
            obtain ⟨k, hk, hck⟩ := hmem
            exact Or.inr ⟨k, List.mem_cons_of_mem l hk, hck⟩

/-- The pieces of a text hold its characters other than the separator. -/
theorem mem_of_mem_split {sep : Char} {s l : Text} (hl : l ∈ split sep s) :
    ∀ c ∈ l, c ∈ s ∧ c ≠ sep := by
  induction s generalizing l with
  | nil =>
      intro c hc
      rw [split, List.mem_singleton] at hl
      rw [hl] at hc
      cases hc
  | cons a s ih =>
      have hrest : ∀ l ∈ split sep s, ∀ c ∈ l, c ∈ a :: s ∧ c ≠ sep := by
        intro l hl c hc
        exact ⟨List.mem_cons_of_mem a (ih hl c hc).1, (ih hl c hc).2⟩
      intro c hc
      rw [split] at hl
      by_cases ha : a = sep
      · rw [if_pos ha] at hl
        rcases List.mem_cons.mp hl with rfl | hl
        · cases hc
        · exact hrest l hl c hc
      · rw [if_neg ha] at hl
        cases hs : split sep s with
        | nil =>
            rw [hs, List.mem_singleton] at hl
            rw [hl, List.mem_singleton] at hc
            exact ⟨by simp [hc], by rwa [hc]⟩
        | cons l' ls =>
            rw [hs] at hl hrest
            rcases List.mem_cons.mp hl with rfl | hl
            · rcases List.mem_cons.mp hc with rfl | hc
              · exact ⟨by simp, ha⟩
              · exact hrest l' (by simp) c hc
            · exact hrest l (by simp [hl]) c hc

/-! ### Space around a text -/

theorem trimSpace_eq_self {s : Text} (hfirst : ∀ c ∈ s.head?, isSpace c = false)
    (hlast : ∀ c ∈ s.getLast?, isSpace c = false) : trimSpace s = s := by
  have hdrop : ∀ t : Text, (∀ c ∈ t.head?, isSpace c = false) → t.dropWhile isSpace = t := by
    intro t ht
    cases t with
    | nil => rfl
    | cons c t => simp [ht c rfl]
  have hrev : s.reverse.dropWhile isSpace = s.reverse := by
    apply hdrop
    rwa [List.head?_reverse]
  rw [trimSpace, hdrop s hfirst, hrev, List.reverse_reverse]

theorem head_dropWhile_isSpace (s : Text) :
    ∀ c ∈ (s.dropWhile isSpace).head?, isSpace c = false := by
  intro c hc
  have hnot := List.head?_dropWhile_not isSpace s
  rw [Option.mem_def] at hc
  rw [hc] at hnot
  exact hnot

theorem trimSpace_head (s : Text) : ∀ c ∈ (trimSpace s).head?, isSpace c = false := by
  intro c hc
  -- the first character is not reached from behind unless nothing is left
  have hprefix : trimSpace s <+: s.dropWhile isSpace := by
    rw [← List.reverse_suffix, trimSpace, List.reverse_reverse]
    exact List.dropWhile_suffix isSpace
  obtain ⟨t, ht⟩ := hprefix
  have hhead := head_dropWhile_isSpace s
  rw [← ht] at hhead
  cases htrim : trimSpace s with
  | nil =>
      rw [htrim] at hc
      cases hc
  | cons a u =>
      rw [htrim] at hc hhead
      exact hhead c hc

theorem trimSpace_last (s : Text) : ∀ c ∈ (trimSpace s).getLast?, isSpace c = false := by
  rw [trimSpace, List.getLast?_reverse]
  exact head_dropWhile_isSpace _

@[simp] theorem trimSpace_trimSpace (s : Text) : trimSpace (trimSpace s) = trimSpace s :=
  trimSpace_eq_self (trimSpace_head s) (trimSpace_last s)

theorem mem_of_mem_trimSpace {c : Char} {s : Text} (h : c ∈ trimSpace s) : c ∈ s := by
  rw [trimSpace, List.mem_reverse] at h
  have hrev := (List.dropWhile_sublist isSpace).subset h
  exact (List.dropWhile_sublist isSpace).subset (List.mem_reverse.mp hrev)

/-! ### Lines -/

def lines : Text → List Text
  | [] => [[]]
  | '\r' :: '\n' :: s => [] :: lines s
  | c :: s => if c = '\n' ∨ c = '\r' then [] :: lines s else (lines s).modifyHead (c :: ·)

def OneLine (s : Text) : Prop := ∀ c ∈ s, c ≠ '\n' ∧ c ≠ '\r'

theorem lines_ne_nil (s : Text) : lines s ≠ [] := by
  induction s using lines.induct with
  | case1 => simp [lines]
  | case2 s ih => simp [lines]
  | case3 c s hcr hbreak ih =>
      rw [lines]
      · rw [if_pos hbreak]
        exact List.cons_ne_nil _ _
      · exact hcr
  | case4 c s hcr hbreak ih =>
      rw [lines]
      · rw [if_neg hbreak]
        exact fun h => ih (List.modifyHead_eq_nil_iff.mp h)
      · exact hcr

theorem lines_cons {c : Char} {s : Text} (h : c ≠ '\r' ∨ s.head? ≠ some '\n') :
    lines (c :: s) = if c = '\n' ∨ c = '\r' then [] :: lines s
      else (lines s).modifyHead (c :: ·) := by
  rw [lines]
  intro s' hc hs
  subst hc hs
  simp at h

theorem replaceCRLF_cons {c : Char} {s : Text} (h : c ≠ '\r' ∨ s.head? ≠ some '\n') :
    replaceCRLF (c :: s) = c :: replaceCRLF s := by
  rw [replaceCRLF]
  intro s' hc hs
  subst hc hs
  simp at h

theorem not_crlf {c : Char} {s : Text} (h : ∀ s', c = '\r' → s = '\n' :: s' → False) :
    c ≠ '\r' ∨ s.head? ≠ some '\n' := by
  by_cases hc : c = '\r'
  · right
    intro hs
    cases s with
    | nil => cases hs
    | cons a s =>
        obtain rfl := Option.some.inj hs
        exact h s hc rfl
  · exact Or.inl hc

theorem split_cons_of_ne {sep c : Char} (s : Text) (h : c ≠ sep) :
    split sep (c :: s) = (split sep s).modifyHead (c :: ·) := by
  rw [split_eq_splitOn, split_eq_splitOn, List.splitOn_cons_eq_if_modifyHead,
    if_neg (by simpa using h)]

/-- What the imports and the forms split is the lines. -/
theorem split_replaceCR (s : Text) : split '\n' (replaceCR (replaceCRLF s)) = lines s := by
  induction s using lines.induct with
  | case1 => rfl
  | case2 s ih =>
      rw [lines, ← ih]
      rfl
  | case3 c s hcr hbreak ih =>
      rw [lines_cons (not_crlf hcr), if_pos hbreak, ← ih, replaceCRLF_cons (not_crlf hcr)]
      rcases hbreak with rfl | rfl
      · rfl
      · rfl
  | case4 c s hcr hbreak ih =>
      rw [lines_cons (not_crlf hcr), if_neg hbreak, ← ih, replaceCRLF_cons (not_crlf hcr)]
      obtain ⟨hlf, hret⟩ := not_or.mp hbreak
      rw [replaceCR, List.map_cons, if_neg hret]
      exact split_cons_of_ne _ hlf

theorem oneLine_nil : OneLine [] := fun _ hc => nomatch hc

theorem oneLine_of_mem_lines (s : Text) : ∀ l ∈ lines s, OneLine l := by
  induction s using lines.induct with
  | case1 =>
      intro l hl
      rw [List.mem_singleton.mp hl]
      exact oneLine_nil
  | case2 s ih =>
      intro l hl
      rw [lines] at hl
      rcases List.mem_cons.mp hl with rfl | hl
      · exact oneLine_nil
      · exact ih l hl
  | case3 c s hcr hbreak ih =>
      intro l hl
      rw [lines_cons (not_crlf hcr), if_pos hbreak] at hl
      rcases List.mem_cons.mp hl with rfl | hl
      · exact oneLine_nil
      · exact ih l hl
  | case4 c s hcr hbreak ih =>
      intro l hl
      rw [lines_cons (not_crlf hcr), if_neg hbreak] at hl
      obtain ⟨a, ls, hs⟩ := List.exists_cons_of_ne_nil (lines_ne_nil s)
      rw [hs] at hl ih
      rcases List.mem_cons.mp hl with rfl | hl
      · intro x hx
        rcases List.mem_cons.mp hx with rfl | hx
        · exact not_or.mp hbreak
        · exact ih a (by simp) x hx
      · exact ih l (by simp [hl])

/-- A line and what ends it, in front of more text. -/
theorem lines_append {l nl : Text} (s : Text) (hl : OneLine l)
    (hnl : nl = ['\n'] ∨ nl = ['\r', '\n'] ∨ nl = ['\r'] ∧ s.head? ≠ some '\n') :
    lines (l ++ nl ++ s) = l :: lines s := by
  induction l with
  | nil =>
      rcases hnl with rfl | rfl | ⟨rfl, hs⟩
      · exact lines_cons (Or.inl (by decide))
      · rfl
      · exact lines_cons (Or.inr hs)
  | cons c l ih =>
      obtain ⟨hlf, hret⟩ := hl c (by simp)
      have hrest := ih (fun c hc => hl c (by simp [hc]))
      rw [List.cons_append, List.cons_append, lines_cons (Or.inl hret), hrest,
        if_neg (not_or.mpr ⟨hlf, hret⟩)]
      rfl

theorem lines_of_oneLine {l : Text} (hl : OneLine l) : lines l = [l] := by
  induction l with
  | nil => rfl
  | cons c l ih =>
      obtain ⟨hlf, hret⟩ := hl c (by simp)
      rw [lines_cons (Or.inl hret), ih (fun c hc => hl c (by simp [hc])),
        if_neg (not_or.mpr ⟨hlf, hret⟩)]
      rfl

inductive LineEnd where
  | lf
  | crlf
  | cr
  deriving DecidableEq

def LineEnd.text : LineEnd → Text
  | lf => ['\n']
  | crlf => ['\r', '\n']
  | cr => ['\r']

/-- Lines that are joined with any line end are those lines, when none is empty: a carriage return
in front of an empty line would meet its line feed. -/
theorem lines_join {ls : List Text} (nl : LineEnd) (hne : ls ≠ []) (h : ∀ l ∈ ls,
    l ≠ [] ∧ OneLine l) :
    lines (join nl.text ls) = ls := by
  induction ls with
  | nil => exact absurd rfl hne
  | cons l ls ih =>
      obtain ⟨-, hl⟩ := h l (by simp)
      cases ls with
      | nil => exact lines_of_oneLine hl
      | cons l' ls =>
          have hrest := ih (List.cons_ne_nil _ _) (fun l hl => h l (by simp [hl]))
          obtain ⟨hl', hone⟩ := h l' (by simp)
          have hhead : (join nl.text (l' :: ls)).head? ≠ some '\n' := by
            obtain ⟨c, t, rfl⟩ := List.exists_cons_of_ne_nil hl'
            have hc := (hone c (by simp)).1
            cases ls with
            | nil => simpa [join] using hc
            | cons l'' ls => simpa [join] using hc
          rw [join, lines_append _ hl, hrest]
          cases nl with
          | lf => exact Or.inl rfl
          | crlf => exact Or.inr (Or.inl rfl)
          | cr => exact Or.inr (Or.inr ⟨rfl, hhead⟩)

/-! ### Carriage returns in front of line feeds -/

theorem trimSpace_append_return (s : Text) : trimSpace (s ++ ['\r']) = trimSpace s := by
  rw [trimSpace, trimSpace, List.dropWhile_append]
  split
  case isTrue hempty =>
    rw [List.isEmpty_iff.mp hempty]
    rfl
  case isFalse =>
    rw [List.reverse_append]
    rfl

theorem split_ne_nil (sep : Char) (s : Text) : split sep s ≠ [] := by
  rw [split_eq_splitOn]
  exact List.splitOn_ne_nil sep s

def SameLine (l l' : Text) : Prop := l = l' ∨ l = l' ++ ['\r']

theorem SameLine.trimSpace {l l' : Text} (h : SameLine l l') : l.trimSpace = l'.trimSpace := by
  rcases h with rfl | rfl
  · rfl
  · exact trimSpace_append_return l'

theorem split_replaceCRLF (s : Text) :
    List.Forall₂ SameLine (split '\n' s) (split '\n' (replaceCRLF s)) := by
  induction s using replaceCRLF.induct with
  | case1 s ih =>
      have hleft : split '\n' ('\r' :: '\n' :: s) = ['\r'] :: split '\n' s := by
        simp [split]
      have hright : split '\n' (replaceCRLF ('\r' :: '\n' :: s)) =
          [] :: split '\n' (replaceCRLF s) := by
        simp [replaceCRLF, split]
      rw [hleft, hright]
      exact List.Forall₂.cons (Or.inr rfl) ih
  | case2 c s hcr ih =>
      have hskip : replaceCRLF (c :: s) = c :: replaceCRLF s := by
        rw [replaceCRLF]
        exact hcr
      rw [hskip, split, split]
      split_ifs with hc
      · exact List.Forall₂.cons (Or.inl rfl) ih
      · cases hs : split '\n' s with
        | nil => exact (split_ne_nil _ _ hs).elim
        | cons l ls =>
            rw [hs] at ih
            obtain ⟨l', ls', hline, hrest, hs'⟩ := List.forall₂_cons_left_iff.mp ih
            rw [hs']
            refine List.Forall₂.cons ?_ hrest
            rcases hline with rfl | rfl
            · exact Or.inl rfl
            · exact Or.inr rfl
  | case3 => exact List.Forall₂.cons (Or.inl rfl) List.Forall₂.nil

/-- A reading of trimmed lines does not depend on the carriage returns in front of the line
feeds. -/
theorem filterMap_split_replaceCRLF {α : Type} {f : Text → Option α}
    (hf : ∀ l l' : Text, l.trimSpace = l'.trimSpace → f l = f l') (s : Text) :
    (split '\n' (replaceCRLF s)).filterMap f = (split '\n' s).filterMap f := by
  have hlines := split_replaceCRLF s
  generalize split '\n' s = ls at hlines ⊢
  generalize split '\n' (replaceCRLF s) = ls' at hlines ⊢
  induction hlines with
  | nil => rfl
  | @cons l l' _ _ hline _ ih =>
      rw [List.filterMap_cons, List.filterMap_cons, hf l l' hline.trimSpace, ih]

end Text
end Dufaka
