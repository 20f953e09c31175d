import Mathlib.Tactic

/-!
# Fixed windows

A fixed-window counter starts at a use, counts the uses up to a budget, and starts again at the
first use after its window is over; a counter whose window is over may also be dropped. Two windows
of one counter never overlap, so a span shorter than a window meets at most two of them; and a use
is refused only in a window in which the budget was spent.
-/

namespace FixedWindow

structure Window where
  start : ℕ
  count : ℕ
  deriving DecidableEq

variable {length budget now t a : ℕ} {w w' : Option Window} {v : Window} {times : List ℕ}
  {spent : Bool}

def booked (length now : ℕ) : Option Window → Window
  | none => ⟨now, 0⟩
  | some v => if length ≤ now - v.start then ⟨now, 0⟩ else v

inductive Turn (length budget now : ℕ) : Option Window → Option Window → Bool → Prop
  | idle (w : Option Window) : Turn length budget now w w false
  | drop (v : Window) (hover : length ≤ now - v.start) : Turn length budget now (some v) none false
  | spend (w : Option Window) (hleft : (booked length now w).count < budget) :
      Turn length budget now w
        (some { booked length now w with count := (booked length now w).count + 1 }) true
  | refuse (w : Option Window) (hnone : budget ≤ (booked length now w).count) :
      Turn length budget now w (some (booked length now w)) false

def used (budget : ℕ) (v : Window) : Window :=
  if budget ≤ v.count then v else { v with count := v.count + 1 }

/-- A counter after turns in the order of time, with the times at which a use was spent. -/
inductive History (length budget : ℕ) : Option Window → ℕ → List ℕ → Prop
  | absent : History length budget none 0 []
  | fresh : History length budget (some ⟨0, 0⟩) 0 []
  | turn {w w' : Option Window} {t now : ℕ} {times : List ℕ} {spent : Bool}
      (hist : History length budget w t times) (hclock : t ≤ now)
      (hturn : Turn length budget now w w' spent) :
      History length budget w' now (times ++ if spent then [now] else [])

/-- The booked window is the one that runs, or a new one without uses. -/
theorem booked_cases (length now : ℕ) (w : Option Window) :
    (booked length now w = ⟨now, 0⟩ ∧ ∀ v, w = some v → length ≤ now - v.start) ∨
      ∃ v, w = some v ∧ now - v.start < length ∧ booked length now w = v := by
  cases w with
  | none => exact Or.inl ⟨rfl, nofun⟩
  | some v =>
      by_cases hover : length ≤ now - v.start
      · left
        refine ⟨if_pos hover, fun v' hv' => ?_⟩
        rw [← Option.some.inj hv']
        exact hover
      · exact Or.inr ⟨v, rfl, by omega, if_neg hover⟩

theorem booked_start_le (hstart : ∀ v, w = some v → v.start ≤ now) :
    (booked length now w).start ≤ now := by
  rcases booked_cases length now w with ⟨heq, -⟩ | ⟨v, hw, -, heq⟩
  · rw [heq]
  · rw [heq]
    exact hstart v hw

theorem turn_used (length budget now : ℕ) (w : Option Window) :
    Turn length budget now w (some (used budget (booked length now w)))
      (decide ((booked length now w).count < budget)) := by
  unfold used
  by_cases hleft : (booked length now w).count < budget
  · rw [if_neg (not_le.mpr hleft), decide_eq_true hleft]
    exact Turn.spend w hleft
  · rw [if_pos (not_lt.mp hleft), decide_eq_false hleft]
    exact Turn.refuse w (not_lt.mp hleft)

/-- A window that runs keeps its start and its uses. -/
theorem Turn.running (h : Turn length budget now (some v) w spent)
    (hrunning : now - v.start < length) :
    ∃ v', w = some v' ∧ v'.start = v.start ∧ v.count ≤ v'.count := by
  have hbooked : booked length now (some v) = v := if_neg (not_le.mpr hrunning)
  cases h with
  | idle => exact ⟨v, rfl, rfl, le_rfl⟩
  | drop _ hover => exact absurd hover (not_le.mpr hrunning)
  | spend =>
      rw [hbooked]
      exact ⟨_, rfl, rfl, Nat.le_succ _⟩
  | refuse =>
      rw [hbooked]
      exact ⟨_, rfl, rfl, le_rfl⟩

theorem History.later (h : History length budget w t times) (hclock : t ≤ now) :
    History length budget w now times := by
  have hturn := History.turn h hclock (Turn.idle w)
  rwa [if_neg (by decide), List.append_nil] at hturn

/-! ### The counter -/

theorem History.start_le (h : History length budget w t times) : ∀ v, w = some v → v.start ≤ t := by
  induction h with
  | absent => exact nofun
  | fresh =>
      rintro v hv
      rw [← Option.some.inj hv]
  | @turn w w' t now times spent _ hclock hturn ih =>
      have hlater : ∀ v, w = some v → v.start ≤ now := fun v hv => (ih v hv).trans hclock
      have hbooked : (booked length now w).start ≤ now := booked_start_le hlater
      intro v hv
      cases hturn with
      | idle => exact hlater v hv
      | drop => cases hv
      | spend =>
          rw [← Option.some.inj hv]
          exact hbooked
      | refuse =>
          rw [← Option.some.inj hv]
          exact hbooked

theorem History.count_le (h : History length budget w t times) :
    ∀ v, w = some v → v.count ≤ budget := by
  induction h with
  | absent => exact nofun
  | fresh =>
      rintro v hv
      rw [← Option.some.inj hv]
      exact Nat.zero_le _
  | @turn w w' t now times spent _ _ hturn ih =>
      intro v hv
      cases hturn with
      | idle => exact ih v hv
      | drop => cases hv
      | spend _ hleft =>
          rw [← Option.some.inj hv]
          exact hleft
      | refuse =>
          rw [← Option.some.inj hv]
          rcases booked_cases length now w with ⟨heq, -⟩ | ⟨v', hw, -, heq⟩
          · rw [heq]
            exact Nat.zero_le _
          · rw [heq]
            exact ih v' hw

/-- Every use that a window counts was spent since its start. -/
theorem History.count_spent (h : History length budget w t times) :
    ∀ v, w = some v → v.count ≤ times.countP (fun x => v.start ≤ x) := by
  induction h with
  | absent => exact nofun
  | fresh =>
      rintro v hv
      rw [← Option.some.inj hv]
      exact Nat.zero_le _
  | @turn w w' t now times spent hist hclock hturn ih =>
      have hbooked : (booked length now w).count ≤
          times.countP (fun x => (booked length now w).start ≤ x) := by
        rcases booked_cases length now w with ⟨heq, -⟩ | ⟨v, hw, -, heq⟩
        · rw [heq]
          exact Nat.zero_le _
        · rw [heq]
          exact ih v hw
      intro v hv
      cases hturn with
      | idle =>
          rw [List.countP_append]
          exact Nat.le_add_right_of_le (ih v hv)
      | drop => cases hv
      | spend =>
          have hstart : (booked length now w).start ≤ now :=
            booked_start_le (fun v hv => (hist.start_le v hv).trans hclock)
          rw [← Option.some.inj hv, List.countP_append]
          simp only [if_true, List.countP_singleton, hstart, decide_true]
          omega
      | refuse =>
          rw [← Option.some.inj hv, List.countP_append]
          exact Nat.le_add_right_of_le hbooked

/-- A use finds no budget left only when the budget was spent in the window that ends now. -/
theorem History.refused (h : History length budget w t times)
    (hnone : budget ≤ (booked length now w).count) :
    budget ≤ times.countP (fun x => now < x + length) := by
  rcases booked_cases length now w with ⟨heq, -⟩ | ⟨v, hw, hrunning, heq⟩
  · rw [heq] at hnone
    exact hnone.trans (Nat.zero_le _)
  · rw [heq] at hnone
    refine (hnone.trans (h.count_spent v hw)).trans (List.countP_mono_left (fun x _ hx => ?_))
    simp only [decide_eq_true_eq] at hx ⊢
    omega

/-! ### Spans -/

/-- The most uses that a span from `a` can have seen while it lasts: those of the window that runs,
when it began before the span, and otherwise those of one window before it as well. -/
def room (budget a : ℕ) : Option Window → ℕ
  | none => budget
  | some v => if v.start < a then v.count else budget + v.count

def Fits (length budget a : ℕ) (w : Option Window) (t n : ℕ) : Prop :=
  n ≤ 2 * budget ∧ (t < a → n = 0) ∧ (t < a + length → n ≤ room budget a w)

theorem Fits.later {n : ℕ} (h : Fits length budget a w t n) (hclock : t ≤ now) :
    Fits length budget a w now n := by
  obtain ⟨htotal, hbefore, hroom⟩ := h
  exact ⟨htotal, fun hnow => hbefore (by omega), fun hnow => hroom (by omega)⟩

theorem Fits.drop {n : ℕ} (h : Fits length budget a (some v) now n) (hcount : v.count ≤ budget)
    (hstart : v.start ≤ now) (hover : length ≤ now - v.start) :
    Fits length budget a none now n := by
  obtain ⟨htotal, hbefore, hroom⟩ := h
  refine ⟨htotal, hbefore, fun hnow => ?_⟩
  have hearly : v.start < a := by omega
  have hn := hroom hnow
  rw [room, if_pos hearly] at hn
  exact hn.trans hcount

theorem Fits.start {n : ℕ} (h : Fits length budget a none now n) :
    Fits length budget a (some ⟨now, 0⟩) now n := by
  obtain ⟨htotal, hbefore, hroom⟩ := h
  refine ⟨htotal, hbefore, fun hnow => ?_⟩
  rw [room]
  by_cases hearly : now < a
  · rw [if_pos hearly, hbefore hearly]
  · rw [if_neg hearly]
    exact hroom hnow

theorem Fits.booked {n : ℕ} (h : Fits length budget a w now n)
    (hcount : ∀ v, w = some v → v.count ≤ budget) (hstart : ∀ v, w = some v → v.start ≤ now) :
    Fits length budget a (some (booked length now w)) now n := by
  rcases booked_cases length now w with ⟨heq, hover⟩ | ⟨v, hw, -, heq⟩
  · rw [heq]
    cases w with
    | none => exact h.start
    | some v => exact (h.drop (hcount v rfl) (hstart v rfl) (hover v rfl)).start
  · rw [heq, ← hw]
    exact h

theorem Fits.spend {n : ℕ} (h : Fits length budget a (some v) now n) (hleft : v.count < budget) :
    Fits length budget a (some { v with count := v.count + 1 }) now
      (n + if a ≤ now ∧ now < a + length then 1 else 0) := by
  obtain ⟨htotal, hbefore, hroom⟩ := h
  rw [room] at hroom
  simp only [Fits, room]
  by_cases hin : a ≤ now ∧ now < a + length
  · have hn := hroom hin.2
    rw [if_pos hin]
    split_ifs at hn ⊢
    · omega
    · omega
  · rw [if_neg hin]
    by_cases hearly : v.start < a
    · simp only [hearly, if_true] at hroom ⊢
      omega
    · simp only [hearly, if_false] at hroom ⊢
      omega

/-- No more than two budgets are spent in a span as long as a window. -/
theorem History.fits (h : History length budget w t times) (a : ℕ) :
    Fits length budget a w t (times.countP (fun x => a ≤ x ∧ x < a + length)) := by
  induction h with
  | absent => exact ⟨Nat.zero_le _, fun _ => rfl, fun _ => Nat.zero_le _⟩
  | fresh => exact ⟨Nat.zero_le _, fun _ => rfl, fun _ => Nat.zero_le _⟩
  | @turn w w' t now times spent hist hclock hturn ih =>
      have hnow := ih.later hclock
      have hstart : ∀ v, w = some v → v.start ≤ now := fun v hv => (hist.start_le v hv).trans hclock
      rw [List.countP_append]
      cases hturn with
      | idle => exact hnow
      | drop v hover => exact hnow.drop (hist.count_le v rfl) (hstart v rfl) hover
      | spend _ hleft =>
          have hspend := (hnow.booked hist.count_le hstart).spend hleft
          simpa [List.countP_singleton] using hspend
      | refuse => exact hnow.booked hist.count_le hstart

theorem History.span_le (h : History length budget w t times) (a : ℕ) :
    times.countP (fun x => a ≤ x ∧ x < a + length) ≤ 2 * budget := (h.fits a).1

end FixedWindow
