import Mathlib.Data.List.Sort
import Mathlib.Tactic

/-!
# Text

Go strings as lists of characters, with the `strings` and `strconv` functions the shop uses. The
database and the forms only ever hold valid UTF-8, so the order of the bytes is the order of the
characters.
-/

namespace Dufaka

abbrev Text := List Char

instance text_lawfulBEq : LawfulBEq Text := inferInstance

namespace Text

/-- `unicode.IsSpace`. -/
def isSpace (c : Char) : Bool :=
  c = '\t' || c = '\n' || c = '\x0b' || c = '\x0c' || c = '\r' || c = ' ' || c = '\u0085' ||
    c = '\u00a0' || c = '\u1680' || (0x2000 ≤ c.toNat && c.toNat ≤ 0x200a) || c = '\u2028' ||
    c = '\u2029' || c = '\u202f' || c = '\u205f' || c = '\u3000'

def trimSpace (s : Text) : Text := ((s.dropWhile isSpace).reverse.dropWhile isSpace).reverse

def isBlank (s : Text) : Bool := trimSpace s = []

/-- `strings.Split` at a single character. -/
def split (sep : Char) : Text → List Text
  | [] => [[]]
  | c :: s =>
      if c = sep then [] :: split sep s
      else match split sep s with
        | [] => [[c]]
        | l :: ls => (c :: l) :: ls

/-- `strings.Cut` at a single character. -/
def cut (sep : Char) : Text → Option (Text × Text)
  | [] => none
  | c :: s => if c = sep then some ([], s) else (cut sep s).map (fun p => (c :: p.1, p.2))

/-- `strings.Join`. -/
def join (sep : Text) : List Text → Text
  | [] => []
  | [s] => s
  | s :: t :: ss => s ++ sep ++ join sep (t :: ss)

def replaceCRLF : Text → Text
  | '\r' :: '\n' :: s => '\n' :: replaceCRLF s
  | c :: s => c :: replaceCRLF s
  | [] => []

def replaceCR (s : Text) : Text := s.map (fun c => if c = '\r' then '\n' else c)

def normalizeNL (s : Text) : Text := trimSpace (replaceCR (replaceCRLF s))

/-- `strings.TrimPrefix`. -/
def trimPrefix (p s : Text) : Text := if p.isPrefixOf s then s.drop p.length else s

/-- `strings.EqualFold(s, "true")`. -/
def equalFoldTrue (s : Text) : Bool := s.map Char.toLower = "true".toList

def byteLength (s : Text) : ℕ := (s.map Char.utf8Size).sum

/-- The order of `sort.Strings`. -/
def le : Text → Text → Bool
  | [], _ => true
  | _ :: _, [] => false
  | a :: s, b :: t => if a = b then le s t else a.toNat < b.toNat

theorem le_append (p s t : Text) : le (p ++ s) (p ++ t) = le s t := by
  induction p with
  | nil => rfl
  | cons c p ih => simpa [le] using ih

def sortStrings (l : List Text) : List Text := l.insertionSort (fun a b => le a b = true)

/-- `strconv.ParseInt(s, 10, 64)`, which is also `strconv.Atoi` on a 64-bit machine. -/
def parseInt (s : Text) : Option ℤ :=
  let neg := s.head? = some '-'
  let digits := if neg || s.head? = some '+' then s.tail else s
  if digits = [] || !digits.all Char.isDigit then none
  else
    let n : ℤ := Nat.ofDigitChars 10 digits 0
    if neg then (if n ≤ 2 ^ 63 then some (-n) else none)
    else (if n < 2 ^ 63 then some n else none)

/-- `strconv.Itoa`. -/
def itoa (n : ℤ) : Text :=
  if n < 0 then '-' :: Nat.toDigits 10 n.natAbs else Nat.toDigits 10 n.natAbs

/-- Reading back a printed number gives the number, unless it does not fit. -/
theorem parseInt_itoa {n m : ℤ} (h : parseInt (itoa n) = some m) : m = n := by
  have hdig : ∀ k : ℕ, (Nat.toDigits 10 k).all Char.isDigit = true := by
    intro k
    rw [List.all_eq_true]
    exact fun c hc => Nat.isDigit_of_mem_toDigits (by decide) (by decide) hc
  have hne : ∀ k : ℕ, Nat.toDigits 10 k ≠ [] := fun k => Nat.toDigits_ne_nil
  unfold itoa at h
  by_cases hn : n < 0
  · rw [if_pos hn] at h
    simp only [parseInt, List.head?_cons, List.tail_cons, decide_true, Bool.true_or, if_true,
      hne, hdig, Nat.ofDigitChars_ten_toDigits, decide_false, Bool.not_true, Bool.or_self,
      Bool.false_eq_true, if_false] at h
    split_ifs at h
    have := Option.some.inj h
    omega
  · rw [if_neg hn] at h
    have hhead : ∀ c ∈ Nat.toDigits 10 n.natAbs, c ≠ '-' ∧ c ≠ '+' := by
      intro c hc
      have hd := List.all_eq_true.mp (hdig n.natAbs) c hc
      constructor <;> rintro rfl <;> simp [Char.isDigit] at hd
    have h₁ : ∀ c, c = '-' ∨ c = '+' → (Nat.toDigits 10 n.natAbs).head? ≠ some c := by
      intro c hc hh
      obtain ⟨h1, h2⟩ := hhead c (List.mem_of_mem_head? (by rw [hh]; rfl))
      rcases hc with rfl | rfl
      · exact h1 rfl
      · exact h2 rfl
    simp only [parseInt, h₁ '-' (Or.inl rfl), h₁ '+' (Or.inr rfl), decide_false, Bool.or_self,
      Bool.false_eq_true, if_false, hne, hdig, Bool.not_true, Nat.ofDigitChars_ten_toDigits] at h
    split_ifs at h
    have := Option.some.inj h
    omega

theorem trimSpace_of_no_space {s : Text} (h : ∀ c ∈ s, isSpace c = false) : trimSpace s = s := by
  have hdrop : ∀ t : Text, (∀ c ∈ t, isSpace c = false) → t.dropWhile isSpace = t := by
    intro t ht
    cases t with
    | nil => rfl
    | cons c t => simp [ht c (by simp)]
  rw [trimSpace, hdrop s h, hdrop _ (fun c hc => h c (List.mem_reverse.mp hc)),
    List.reverse_reverse]

theorem isSpace_of_isDigit {c : Char} (h : c.isDigit = true) : isSpace c = false := by
  have hlt : c.toNat ≤ 57 := by
    simp only [Char.isDigit, Bool.and_eq_true, decide_eq_true_eq] at h
    exact h.2
  rw [Bool.eq_false_iff]
  intro hs
  simp only [isSpace, Bool.or_eq_true, Bool.and_eq_true, decide_eq_true_eq] at hs
  rcases hs with ((((((((((((((rfl | rfl) | rfl) | rfl) | rfl) | rfl) | rfl) | rfl) | rfl) | hr) |
    rfl) | rfl) | rfl) | rfl) | rfl)
  all_goals first | (revert h; decide) | omega

/-- A printed number has nothing to trim. -/
theorem trimSpace_itoa (n : ℤ) : trimSpace (itoa n) = itoa n := by
  have hdig : ∀ k : ℕ, ∀ c ∈ Nat.toDigits 10 k, isSpace c = false := fun k c hc =>
    isSpace_of_isDigit (Nat.isDigit_of_mem_toDigits (by decide) (by decide) hc)
  refine trimSpace_of_no_space ?_
  unfold itoa
  split_ifs
  · intro c hc
    rcases List.mem_cons.mp hc with rfl | hc
    · rfl
    · exact hdig _ c hc
  · exact hdig _

theorem itoa_ne_nil (n : ℤ) : itoa n ≠ [] := by
  unfold itoa
  split_ifs
  · exact List.cons_ne_nil _ _
  · exact Nat.toDigits_ne_nil

end Text
end Dufaka
