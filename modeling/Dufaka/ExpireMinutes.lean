import Dufaka.Scan
import Dufaka.SettingsRuns
import Dufaka.SiteCache

/-!
# The expiry setting read back

The settings form checks the expiry time as a decimal number, and the site settings scan the text it
stored. A text with zeros in front is scanned as an octal number up to its first digit that is not
octal.
-/

namespace Dufaka
open Relational

/-! ### Octal against decimal -/

namespace Text

theorem ofDigitChars_init (base : ℕ) (s : Text) (n : ℕ) :
    Nat.ofDigitChars base s n = n * base ^ s.length + Nat.ofDigitChars base s 0 := by
  induction s generalizing n with
  | nil => simp
  | cons c s ih =>
      rw [Nat.ofDigitChars_cons, Nat.ofDigitChars_cons, ih, ih (base * 0 + _), List.length_cons,
        pow_succ]
      ring

def octal (s : Text) : ℕ := Nat.ofDigitChars 8 s 0

theorem octal_cons (c : Char) (s : Text) :
    octal (c :: s) = (c.toNat - 48) * 8 ^ s.length + octal s := by
  rw [octal, Nat.ofDigitChars_cons, ofDigitChars_init, octal]
  simp

theorem octal_le_number (s : Text) : octal s ≤ number s := by
  induction s with
  | nil => exact le_rfl
  | cons c s ih =>
      have hpow : 8 ^ s.length ≤ 10 ^ s.length := Nat.pow_le_pow_left (by omega) _
      have hmul := Nat.mul_le_mul_left (c.toNat - 48) hpow
      rw [octal_cons, number_cons]
      omega

theorem number_le_append (s t : Text) : number s ≤ number (s ++ t) := by
  have hpos : 1 ≤ 10 ^ t.length := Nat.one_le_pow _ _ (by omega)
  have hmul := Nat.mul_le_mul_left (number s) hpos
  rw [number_append]
  omega

theorem number_lt_append {s t : Text} (hs : 0 < number s) (ht : t ≠ []) :
    number s < number (s ++ t) := by
  have hlen : t.length ≠ 0 := by simpa using ht
  have hten : 10 ≤ 10 ^ t.length := Nat.le_self_pow hlen 10
  have hmul := Nat.mul_le_mul_left (number s) hten
  rw [number_append]
  omega

theorem octal_dropZeros (s : Text) :
    octal (s.takeWhile (· ∈ octalDigits)) = octal ((dropZeros s).takeWhile (· ∈ octalDigits)) := by
  induction s with
  | nil => rfl
  | cons c s ih =>
      by_cases hc : c = '0'
      · subst hc
        have hdrop : dropZeros ('0' :: s) = dropZeros s := rfl
        have htake : ('0' :: s).takeWhile (· ∈ octalDigits) = '0' ::
            s.takeWhile (· ∈ octalDigits) := rfl
        rw [hdrop, htake, octal_cons, ← ih]
        change (48 - 48) * _ + _ = _
        omega
      · have hdrop : dropZeros (c :: s) = c :: s := by
          rw [dropZeros, List.dropWhile_cons, if_neg (by simpa using hc)]
        rw [hdrop]

theorem one_le_digit {c : Char} (hc : c.isDigit = true) (hzero : c ≠ '0') : 1 ≤ c.toNat - 48 := by
  have hlow := pow_le_number (s := []) hc hzero
  rw [number_singleton] at hlow
  exact hlow

/-- Octal digits give less than the decimal number, unless they are one digit and all of it. -/
theorem octal_lt_number {c : Char} {s : Text} (hc : c.isDigit = true) (hzero : c ≠ '0')
    (hs : s ≠ []) :
    octal ((c :: s).takeWhile (· ∈ octalDigits)) < number (c :: s) := by
  have hone := one_le_digit hc hzero
  by_cases hoct : c ∈ octalDigits
  · have htake : (c :: s).takeWhile (· ∈ octalDigits) = c :: s.takeWhile (· ∈ octalDigits) := by
      simp [hoct]
    have hwhole : c :: s = (c :: s.takeWhile (· ∈ octalDigits)) ++
        s.dropWhile (· ∈ octalDigits) := by
      rw [List.cons_append, List.takeWhile_append_dropWhile]
    have hpos : 0 < number (c :: s.takeWhile (· ∈ octalDigits)) := by
      have hpow := pow_le_number (s := s.takeWhile (· ∈ octalDigits)) hc hzero
      exact (Nat.pow_pos (by omega)).trans_le hpow
    rw [htake]
    by_cases hrest : s.takeWhile (· ∈ octalDigits) = []
    · -- nothing but the first digit is octal
      have hdrop : s.dropWhile (· ∈ octalDigits) ≠ [] := by
        intro hnil
        rw [← List.takeWhile_append_dropWhile (p := fun c => decide (c ∈ octalDigits)) (l := s),
          hrest, hnil] at hs
        exact hs rfl
      have hlt := number_lt_append hpos hdrop
      rw [← hwhole] at hlt
      exact (octal_le_number _).trans_lt hlt
    · have hlen : (s.takeWhile (· ∈ octalDigits)).length ≠ 0 := by simpa using hrest
      have hpow : 8 ^ (s.takeWhile (· ∈ octalDigits)).length <
          10 ^ (s.takeWhile (· ∈ octalDigits)).length := Nat.pow_lt_pow_left (by omega) hlen
      have hmul := Nat.mul_lt_mul_of_pos_left hpow (Nat.lt_of_lt_of_le Nat.zero_lt_one hone)
      have hle := octal_le_number (s.takeWhile (· ∈ octalDigits))
      have hprefix := number_le_append (c :: s.takeWhile (· ∈ octalDigits))
        (s.dropWhile (· ∈ octalDigits))
      rw [← hwhole, number_cons] at hprefix
      rw [octal_cons]
      omega
  · have htake : (c :: s).takeWhile (· ∈ octalDigits) = [] := by
      simp [hoct]
    have hpow := pow_le_number (s := s) hc hzero
    rw [htake]
    exact (Nat.pow_pos (by omega)).trans_le hpow

end Text

/-! ### The stored text -/

def expireKey : Text := "order_expire_time".toList

theorem settingValues_expire (old : Settings) (form : Text → Text) :
    settingValues old form expireKey = (form expireKey).trimSpace := by
  have hf : settingFields.find? (fun f => f.key = expireKey) = some ⟨expireKey, .text⟩ := by
    rfl
  simp only [settingValues, hf, SettingField.value]

theorem SettingsRequest.minutes (r : SettingsRequest) :
    ∃ n, (r.form expireKey).trimSpace.parseInt = some n ∧ 1 ≤ n ∧ n ≤ 100000 := by
  have hvalid := r.valid
  rw [settingsError] at hvalid
  split_ifs at hvalid with htitle hlanguage hminutes hdriver hport
  have hcheck : ¬ ((settingValues (fun _ => none) r.form expireKey).parseInt).all
      (fun n => n ≤ 0 ∨ n > 100000) = true := hminutes
  rw [settingValues_expire] at hcheck
  cases hn : (r.form expireKey).trimSpace.parseInt with
  | none =>
      rw [hn] at hcheck
      exact absurd rfl hcheck
  | some n =>
      rw [hn] at hcheck
      simp only [Option.all_some, decide_eq_true_eq, not_or, not_le, gt_iff_lt, not_lt] at hcheck
      exact ⟨n, rfl, hcheck.1, hcheck.2⟩

def SettingsRequest.saved (r : SettingsRequest) (old d : Settings) (ids : ℕ → ℕ) : Settings :=
  ((settingsSave r.form r.order old).exec ids d).1

theorem saved_expire (r : SettingsRequest) (old d : Settings) (ids : ℕ → ℕ) :
    r.saved old d ids expireKey = some (r.form expireKey).trimSpace := by
  have hprog := settingsSystem_prog r old
  have hrun := run_saveSettings (settingValues old r.form) r.order ids d
  have hmem : expireKey ∈ r.order := r.perm.mem_iff.mpr (by decide)
  change settingsSave r.form r.order old = _ at hprog
  rw [SettingsRequest.saved, hprog, Tx.exec, hrun]
  change Settings.store d r.order (settingValues old r.form) expireKey = _
  rw [Settings.store, if_pos hmem, settingValues_expire]

theorem saved_minutes (r : SettingsRequest) (old d : Settings) (ids : ℕ → ℕ)
    (hne : (r.form expireKey).trimSpace ≠ []) :
    (loadSite Text.sscanInt (r.saved old d ids)).expireMin =
      if (Text.sscanInt (r.form expireKey).trimSpace).getD 5 ≤ 0 then 5
      else (Text.sscanInt (r.form expireKey).trimSpace).getD 5 := by
  have hvalue : (r.saved old d ids "order_expire_time".toList).getD [] =
      (r.form expireKey).trimSpace := by
    change (r.saved old d ids expireKey).getD [] = _
    rw [saved_expire]
    rfl
  simp only [loadSite, hvalue, if_pos hne]

/-! ### Which texts are read back -/

/-- The scan reads the decimal number: no zero stands in front, or one digit from 1 to 7 is all that
stands behind the zeros. -/
def ScansDecimal (s : Text) : Prop :=
  (Text.trimPrefix ['+'] s).head? ≠ some '0' ∨
    ∃ c ∈ Text.octalDigits, Text.dropZeros (Text.trimPrefix ['+'] s) = [c]

theorem trimPrefix_sign {sign digits : Text} (hsign : sign = [] ∨ sign = ['+'])
    (hdigits : ∀ c ∈ digits, c.isDigit = true) :
    Text.trimPrefix ['+'] (sign ++ digits) = digits := by
  rcases hsign with rfl | rfl
  · cases digits with
    | nil => rfl
    | cons c s =>
        have hc : '+' ≠ c := Ne.symm (Text.ne_of_isDigit (hdigits c (by simp)) rfl)
        simp [Text.trimPrefix, hc]
  · simp [Text.trimPrefix]

/-- What is scanned after a zero is the number only when that is one octal digit. -/
theorem octal_eq_iff {digits : Text} (hdigits : ∀ c ∈ digits, c.isDigit = true)
    (hpos : 0 < Text.number digits) :
    ((if (Text.octal (digits.takeWhile (· ∈ Text.octalDigits)) : ℤ) ≤ 0 then (5 : ℤ)
      else Text.octal (digits.takeWhile (· ∈ Text.octalDigits))) = Text.number digits) ↔
      ∃ c ∈ Text.octalDigits, Text.dropZeros digits = [c] := by
  have hall := Text.dropZeros_digits hdigits
  rw [Text.octal_dropZeros, ← Text.number_dropZeros digits]
  rw [← Text.number_dropZeros digits] at hpos
  have hfirst := List.head?_dropWhile_not (fun c : Char => decide (c = '0')) digits
  rw [← Text.dropZeros] at hfirst
  generalize Text.dropZeros digits = z at hall hpos hfirst ⊢
  cases z with
  | nil => exact absurd hpos (lt_irrefl 0)
  | cons c s =>
      have hzero : c ≠ '0' := by simpa using hfirst
      have hc := hall c (by simp)
      have hone := Text.one_le_digit hc hzero
      by_cases hs : s = []
      · subst hs
        have hnumber : Text.number [c] = c.toNat - 48 := Text.number_singleton c
        by_cases hoct : c ∈ Text.octalDigits
        · have htake : [c].takeWhile (· ∈ Text.octalDigits) = [c] := by simp [hoct]
          have hvalue : Text.octal [c] = c.toNat - 48 := by
            rw [Text.octal_cons]
            simp [Text.octal]
          rw [htake, hvalue, hnumber, if_neg (by omega)]
          exact ⟨fun _ => ⟨c, hoct, rfl⟩, fun _ => rfl⟩
        · -- an 8 or a 9 is not scanned at all, and the fallback is 5
          have htake : [c].takeWhile (· ∈ Text.octalDigits) = [] := by simp [hoct]
          have hall : Text.decimalDigits.all (fun c => c ∉ Text.octalDigits → 8 ≤ c.toNat - 48) =
              true := by
            decide
          have hlarge := of_decide_eq_true (List.all_eq_true.mp hall c (Text.mem_decimalDigits hc))
            hoct
          rw [htake, hnumber]
          constructor
          · intro h
            change (if (0 : ℤ) ≤ 0 then (5 : ℤ) else 0) = _ at h
            rw [if_pos le_rfl] at h
            omega
          · rintro ⟨c', hc', he⟩
            obtain rfl := List.singleton_inj.mp he
            exact absurd hc' hoct
      · have hlt := Text.octal_lt_number hc hzero hs
        have hten : 10 ≤ Text.number (c :: s) := by
          have hpow := Text.pow_le_number (s := s) hc hzero
          have hlen : s.length ≠ 0 := by simpa using hs
          exact (Nat.le_self_pow hlen 10).trans hpow
        constructor
        · intro h
          split_ifs at h
          · omega
          · omega
        · rintro ⟨c', -, he⟩
          exact absurd (List.cons.inj he).2 hs

/-- The number a checked text writes is read back when the scan takes it for decimal. -/
theorem read_back_iff {s : Text} {n : ℤ} (h : s.parseInt = some n) (hlow : 1 ≤ n)
    (hhigh : n ≤ 100000) :
    (if (Text.sscanInt s).getD 5 ≤ 0 then 5 else (Text.sscanInt s).getD 5) = n ↔
    ScansDecimal s := by
  obtain ⟨digits, hne, hdigits, ⟨-, hneg⟩ | ⟨hsign, rfl⟩⟩ := Text.parseInt_eq_some h
  · omega
  · obtain ⟨sign, hone, rfl⟩ : ∃ sign : Text, (sign = [] ∨ sign = ['+']) ∧ s = sign ++ digits := by
      rcases hsign with rfl | rfl
      · exact ⟨['+'], Or.inr rfl, rfl⟩
      · exact ⟨[], Or.inl rfl, rfl⟩
    rw [ScansDecimal, trimPrefix_sign hone hdigits]
    by_cases hzero : digits.head? = some '0'
    · obtain ⟨rest, rfl⟩ : ∃ rest, digits = '0' :: rest := by
        cases digits with
        | nil => exact absurd rfl hne
        | cons c rest =>
            obtain rfl := Option.some.inj hzero
            exact ⟨rest, rfl⟩
      have hrest : ∀ c ∈ rest, c.isDigit = true := fun c hc => hdigits c (by simp [hc])
      have hnumber : Text.number ('0' :: rest) = Text.number rest := by
        rw [← Text.number_dropZeros, ← Text.number_dropZeros rest]
        rfl
      have hdrop : Text.dropZeros ('0' :: rest) = Text.dropZeros rest := rfl
      have hsmall : Text.octal (rest.takeWhile (· ∈ Text.octalDigits)) < 2 ^ 63 := by
        have hoct := Text.octal_le_number (rest.takeWhile (· ∈ Text.octalDigits))
        have hprefix := Text.number_le_append (rest.takeWhile (· ∈ Text.octalDigits))
          (rest.dropWhile (· ∈ Text.octalDigits))
        rw [List.takeWhile_append_dropWhile] at hprefix
        omega
      rw [Text.sscanInt_octal hone hrest hsmall, Option.getD_some, hnumber, hdrop]
      have hiff := octal_eq_iff hrest (by omega)
      rw [Text.octal] at hiff
      rw [hiff]
      simp [hzero]
    · rw [Text.sscanInt_decimal hone hne hdigits hzero (by omega), Option.getD_some,
        if_neg (by omega)]
      simp [hzero]

/-- The minutes that the site settings read from a saved form are the ones the form was checked for,
exactly when the text scans as decimal. -/
theorem expire_minutes_read_back (r : SettingsRequest) (old d : Settings) (ids : ℕ → ℕ) :
    ∃ n, (r.form expireKey).trimSpace.parseInt = some n ∧ 1 ≤ n ∧ n ≤ 100000 ∧
      ((loadSite Text.sscanInt (r.saved old d ids)).expireMin = n ↔
        ScansDecimal (r.form expireKey).trimSpace) := by
  obtain ⟨n, hn, hlow, hhigh⟩ := r.minutes
  have hne : (r.form expireKey).trimSpace ≠ [] := by
    intro hnil
    rw [hnil] at hn
    cases hn
  refine ⟨n, hn, hlow, hhigh, ?_⟩
  rw [saved_minutes r old d ids hne]
  exact read_back_iff hn hlow hhigh

def tenMinutes : SettingsRequest where
  form key := if key = expireKey then "010".toList else tinySettingsForm key
  order := settingKeys
  perm := List.Perm.refl _
  valid := by decide

/-- Ten minutes are read back as eight. -/
theorem expire_minutes_octal : ¬ ∀ (r : SettingsRequest) (old d : Settings) (ids : ℕ → ℕ) (n : ℤ),
    (r.form expireKey).trimSpace.parseInt = some n →
      (loadSite Text.sscanInt (r.saved old d ids)).expireMin = n := by
  intro h
  have hform : (tenMinutes.form expireKey).trimSpace = "010".toList := by decide
  have hten := h tenMinutes (fun _ => none) (fun _ => none) id 10 (by rw [hform]; decide)
  rw [saved_minutes tenMinutes _ _ _ (by rw [hform]; decide), hform] at hten
  revert hten
  decide

end Dufaka
