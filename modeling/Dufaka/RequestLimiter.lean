import Dufaka.FixedWindow
import Dufaka.KeyMap
import Dufaka.Text

/-!
# The request limiter

Requests are counted for each client address in fixed windows, in a map that is capped. When the map
is full of counters that still run, the addresses without one share the overflow counter. A time is
a number of nanoseconds since the zero time, and the log lines are left out.
-/

namespace Dufaka
open Relational FixedWindow

abbrev IpWindow : Type := Window

structure IpLimiter where
  limit : ℕ
  overflow : ℕ
  window : ℕ
  max : ℕ
  hits : KeyMap Text IpWindow
  spill : IpWindow
  lastSweep : ℕ
  lastFull : ℕ

def limiterMaxIPs : ℕ := 20000

/-- `time.Second` -/
def timeSecond : ℕ := 1000000000

def newIPLimiter (limit overflow window : ℕ) : IpLimiter where
  limit := limit
  overflow := overflow
  window := window
  max := limiterMaxIPs
  hits := ∅
  spill := ⟨0, 0⟩
  lastSweep := 0
  lastFull := 0

namespace IpLimiter

def sweep (l : IpLimiter) (now : ℕ) : IpLimiter :=
  if now - l.lastSweep < timeSecond then l
  else { l with
    lastSweep := now
    hits := l.hits.keep (fun w => !decide (l.window ≤ now - w.start)) }

def spend (l : IpLimiter) (key : Text) (w : IpWindow) : Bool × IpLimiter :=
  if l.limit ≤ w.count then (false, { l with hits := l.hits.insert key w })
  else (true, { l with hits := l.hits.insert key { w with count := w.count + 1 } })

def noteFull (l : IpLimiter) (now : ℕ) : IpLimiter :=
  if l.lastFull = 0 ∨ l.window ≤ now - l.lastFull then { l with lastFull := now } else l

/-- The part of `allow` for an address that the full table has no counter for. -/
def overflowed (l : IpLimiter) (now : ℕ) : Bool × IpLimiter :=
  let l := l.noteFull now
  if l.overflow = 0 then (true, l)
  else
    let spill : IpWindow := if l.window ≤ now - l.spill.start then ⟨now, 0⟩ else l.spill
    if l.overflow ≤ spill.count then (false, { l with spill := spill })
    else (true, { l with spill := { spill with count := spill.count + 1 } })

def makeRoom (l : IpLimiter) (now : ℕ) : IpLimiter :=
  if l.max ≤ l.hits.size then l.sweep now else l

/-- Whether the budget of the key had a request left, which is spent. -/
def allow (l : IpLimiter) (now : ℕ) (key : Text) : Bool × IpLimiter :=
  match l.hits.lookup key with
  | some w => l.spend key (if l.window ≤ now - w.start then ⟨now, 0⟩ else w)
  | none =>
      let l := l.makeRoom now
      if l.max ≤ l.hits.size then l.overflowed now else l.spend key ⟨now, 0⟩

/-! ### What a call does -/

def SameConfig (l l' : IpLimiter) : Prop :=
  l'.limit = l.limit ∧ l'.overflow = l.overflow ∧ l'.window = l.window ∧ l'.max = l.max

def isOver (l : IpLimiter) (now : ℕ) (w : IpWindow) : Bool := decide (l.window ≤ now - w.start)

theorem swept_sweep (l : IpLimiter) (now : ℕ) :
    KeyMap.Swept (l.isOver now) l.hits (l.sweep now).hits := by
  unfold sweep
  split_ifs
  · exact KeyMap.Swept.refl _ l.hits
  · exact KeyMap.swept_keep (l.isOver now) l.hits

theorem makeRoom_spec (l : IpLimiter) (now : ℕ) :
    l.SameConfig (l.makeRoom now) ∧ (l.makeRoom now).spill = l.spill ∧
      KeyMap.Swept (l.isOver now) l.hits (l.makeRoom now).hits := by
  unfold makeRoom
  split_ifs
  · refine ⟨?_, ?_, l.swept_sweep now⟩
    · unfold sweep SameConfig
      split_ifs <;> exact ⟨rfl, rfl, rfl, rfl⟩
    · unfold sweep
      split_ifs <;> rfl
  · exact ⟨⟨rfl, rfl, rfl, rfl⟩, rfl, KeyMap.Swept.refl _ l.hits⟩

theorem spend_eq (l : IpLimiter) (key : Text) (w : IpWindow) :
    l.spend key w =
      (decide (w.count < l.limit), { l with hits := l.hits.insert key (used l.limit w) }) := by
  unfold spend used
  by_cases hnone : l.limit ≤ w.count
  · simp [hnone]
  · simp [hnone, not_le.mp hnone]

section NoteFull
variable (l : IpLimiter) (now : ℕ)

@[simp] theorem noteFull_limit : (l.noteFull now).limit = l.limit := by
  unfold noteFull
  split_ifs <;> rfl

@[simp] theorem noteFull_overflow : (l.noteFull now).overflow = l.overflow := by
  unfold noteFull
  split_ifs <;> rfl

@[simp] theorem noteFull_window : (l.noteFull now).window = l.window := by
  unfold noteFull
  split_ifs <;> rfl

@[simp] theorem noteFull_max : (l.noteFull now).max = l.max := by
  unfold noteFull
  split_ifs <;> rfl

@[simp] theorem noteFull_hits : (l.noteFull now).hits = l.hits := by
  unfold noteFull
  split_ifs <;> rfl

@[simp] theorem noteFull_spill : (l.noteFull now).spill = l.spill := by
  unfold noteFull
  split_ifs <;> rfl

end NoteFull

/-- A full table either lets the call through, or books it on the overflow counter. -/
theorem overflowed_eq (l : IpLimiter) (now : ℕ) :
    l.overflowed now =
      if l.overflow = 0 then (true, l.noteFull now)
      else (decide ((booked l.window now (some l.spill)).count < l.overflow),
        { l.noteFull now with spill := used l.overflow (booked l.window now (some l.spill)) }) := by
  have hbooked : (if l.window ≤ now - l.spill.start then (⟨now, 0⟩ : IpWindow) else l.spill) =
      booked l.window now (some l.spill) := rfl
  simp only [overflowed, noteFull_overflow, noteFull_window, noteFull_spill, hbooked, used]
  by_cases hnone : l.overflow ≤ (booked l.window now (some l.spill)).count
  · simp [hnone, not_lt.mpr hnone]
  · simp [hnone, not_le.mp hnone]

structure OwnCall (l : IpLimiter) (now : ℕ) (key : Text) (r : Bool × IpLimiter) : Prop where
  answer : r.1 = decide ((booked l.window now (l.hits.lookup key)).count < l.limit)
  spill : r.2.spill = l.spill
  hits : ∃ hits, KeyMap.Swept (l.isOver now) l.hits hits ∧ hits.lookup key = l.hits.lookup key ∧
    (l.hits.lookup key = none → hits.size < l.max) ∧
    r.2.hits = hits.insert key (used l.limit (booked l.window now (l.hits.lookup key)))

structure FullCall (l : IpLimiter) (now : ℕ) (key : Text) (r : Bool × IpLimiter) : Prop where
  absent : l.hits.lookup key = none
  hits : KeyMap.Swept (l.isOver now) l.hits r.2.hits
  full : l.max ≤ r.2.hits.size
  shared : (l.overflow = 0 ∧ r.1 = true) ∨ (0 < l.overflow ∧
    r.1 = decide ((booked l.window now (some l.spill)).count < l.overflow) ∧
    r.2.spill = used l.overflow (booked l.window now (some l.spill)))

theorem allow_config (l : IpLimiter) (now : ℕ) (key : Text) : l.SameConfig (l.allow now key).2 := by
  unfold allow
  cases l.hits.lookup key with
  | some w =>
      simp only [spend_eq]
      exact ⟨rfl, rfl, rfl, rfl⟩
  | none =>
      have hroom := (l.makeRoom_spec now).1
      simp only [spend_eq, overflowed_eq]
      split_ifs
      · simpa [SameConfig] using hroom
      · simpa [SameConfig] using hroom
      · exact hroom

theorem allow_cases (l : IpLimiter) (now : ℕ) (key : Text) :
    l.OwnCall now key (l.allow now key) ∨ l.FullCall now key (l.allow now key) := by
  cases hkey : l.hits.lookup key with
  | some w =>
      left
      have hallow : l.allow now key = l.spend key (booked l.window now (some w)) := by
        rw [allow, hkey]
        rfl
      rw [hallow, spend_eq]
      refine ⟨by rw [hkey], rfl, l.hits, KeyMap.Swept.refl _ l.hits, rfl, ?_, by rw [hkey]⟩
      intro hnone
      rw [hkey] at hnone
      cases hnone
  | none =>
      obtain ⟨⟨hlimit, hoverflow, hwindow, hmax⟩, hspill, hhits⟩ := l.makeRoom_spec now
      have hallow : l.allow now key = if (l.makeRoom now).max ≤ (l.makeRoom now).hits.size
          then (l.makeRoom now).overflowed now else (l.makeRoom now).spend key ⟨now, 0⟩ := by
        rw [allow, hkey]
      generalize l.makeRoom now = l₁ at *
      have hkey₁ : l₁.hits.lookup key = none := hhits.lookup_none hkey
      rw [hallow]
      by_cases hfull : l₁.max ≤ l₁.hits.size
      · right
        rw [if_pos hfull, overflowed_eq, hoverflow, hwindow, hspill]
        rw [hmax] at hfull
        by_cases hzero : l.overflow = 0
        · rw [if_pos hzero]
          exact ⟨hkey, by simpa using hhits, by simpa using hfull, Or.inl ⟨hzero, rfl⟩⟩
        · rw [if_neg hzero]
          refine ⟨hkey, by simpa using hhits, by simpa using hfull, Or.inr ?_⟩
          exact ⟨Nat.pos_of_ne_zero hzero, rfl, rfl⟩
      · left
        rw [if_neg hfull, spend_eq, hlimit]
        rw [hmax] at hfull
        refine ⟨by rw [hkey]; rfl, hspill, l₁.hits, hhits, by rw [hkey₁, hkey],
          ?_, by rw [hkey]; rfl⟩
        intro _
        exact not_le.mp hfull

theorem swept_turn {l : IpLimiter} {now : ℕ} {hits : KeyMap Text IpWindow}
    (h : KeyMap.Swept (l.isOver now) l.hits hits) (budget : ℕ) (k : Text) :
    Turn l.window budget now (l.hits.lookup k) (hits.lookup k) false := by
  rcases h.lookup k with heq | ⟨w, hw, hover, hnone⟩
  · rw [heq]
    exact Turn.idle _
  · rw [hw, hnone]
    exact Turn.drop w (of_decide_eq_true hover)

def tracks (l : IpLimiter) (key : Text) : Bool := (l.hits.lookup key).isSome

theorem tracks_ownCall {l : IpLimiter} {now : ℕ} {key : Text} {r : Bool × IpLimiter}
    (h : l.OwnCall now key r) : r.2.tracks key = true := by
  obtain ⟨hits, -, -, -, heq⟩ := h.hits
  rw [tracks, heq, AList.lookup_insert]
  rfl

theorem tracks_fullCall {l : IpLimiter} {now : ℕ} {key : Text} {r : Bool × IpLimiter}
    (h : l.FullCall now key r) : r.2.tracks key = false := by
  rw [tracks, h.hits.lookup_none h.absent]
  rfl

/-- Each counter takes one turn, and a request is spent on it when the call was allowed and the
counter belongs to its address. -/
theorem allow_turn (l : IpLimiter) (now : ℕ) (key k : Text) :
    Turn l.window l.limit now (l.hits.lookup k) ((l.allow now key).2.hits.lookup k)
      (decide (key = k) && (l.allow now key).1 && (l.allow now key).2.tracks key) := by
  rcases l.allow_cases now key with h | h
  · obtain ⟨hits, hswept, hkey, -, heq⟩ := h.hits
    rw [tracks_ownCall h, h.answer, heq, KeyMap.lookup_insert_eq]
    by_cases hk : k = key
    · subst hk
      simpa using turn_used l.window l.limit now (l.hits.lookup k)
    · rw [if_neg hk, decide_eq_false (Ne.symm hk)]
      exact swept_turn hswept l.limit k
  · rw [tracks_fullCall h, Bool.and_false]
    exact swept_turn h.hits l.limit k

/-- The overflow counter takes one turn as well. -/
theorem allow_spill_turn {l : IpLimiter} (now : ℕ) (key : Text) (hoverflow : 0 < l.overflow) :
    Turn l.window l.overflow now (some l.spill) (some (l.allow now key).2.spill)
      ((l.allow now key).1 && !(l.allow now key).2.tracks key) := by
  rcases l.allow_cases now key with h | h
  · rw [tracks_ownCall h, h.spill, Bool.not_true, Bool.and_false]
    exact Turn.idle _
  · rw [tracks_fullCall h, Bool.not_false, Bool.and_true]
    rcases h.shared with ⟨hzero, -⟩ | ⟨-, hanswer, hspill⟩
    · omega
    · rw [hanswer, hspill]
      exact turn_used l.window l.overflow now (some l.spill)

theorem allow_size {l : IpLimiter} (now : ℕ) (key : Text) (h : l.hits.size ≤ l.max) :
    (l.allow now key).2.hits.size ≤ l.max := by
  rcases l.allow_cases now key with hcall | hcall
  · obtain ⟨hits, hswept, hkey, hroom, heq⟩ := hcall.hits
    have hle := hswept.size_le
    rw [heq]
    cases hlookup : l.hits.lookup key with
    | none =>
        have hlt := hroom hlookup
        change KeyMap.size (hits.insert key _) ≤ _
        rw [KeyMap.size_insert_of_none (hkey.trans hlookup)]
        omega
    | some w =>
        change KeyMap.size (hits.insert key _) ≤ _
        rw [KeyMap.size_insert_of_some (hkey.trans hlookup)]
        omega
  · exact hcall.hits.size_le.trans h

/-- A call is refused on the counter of its address, or on the overflow counter of a full table. -/
theorem allow_refused {l : IpLimiter} {now : ℕ} {key : Text} (h : (l.allow now key).1 = false) :
    l.limit ≤ (booked l.window now (l.hits.lookup key)).count ∨
      (l.max ≤ (l.allow now key).2.hits.size ∧ 0 < l.overflow ∧
        l.overflow ≤ (booked l.window now (some l.spill)).count) := by
  rcases l.allow_cases now key with hcall | hcall
  · left
    rw [hcall.answer, decide_eq_false_iff_not, not_lt] at h
    exact h
  · right
    rcases hcall.shared with ⟨-, hallowed⟩ | ⟨hpos, hanswer, -⟩
    · rw [hallowed] at h
      cases h
    · rw [hanswer, decide_eq_false_iff_not, not_lt] at h
      exact ⟨hcall.full, hpos, h⟩

end IpLimiter

/-! ### Runs -/

structure Answered where
  time : ℕ
  key : Text
  allowed : Bool
  tracked : Bool

namespace Answered

def isOwn (k : Text) (r : Answered) : Bool := decide (r.key = k) && r.allowed && r.tracked

def isShared (r : Answered) : Bool := r.allowed && !r.tracked

end Answered

namespace IpLimiter

def answer (l : IpLimiter) (now : ℕ) (key : Text) : Answered :=
  ⟨now, key, (l.allow now key).1, (l.allow now key).2.tracks key⟩

def serve (l : IpLimiter) (calls : List (ℕ × Text)) : IpLimiter × List Answered :=
  calls.foldl (fun s c => ((s.1.allow c.1 c.2).2, s.2 ++ [s.1.answer c.1 c.2])) (l, [])

theorem serve_snoc (l : IpLimiter) (calls : List (ℕ × Text)) (now : ℕ) (key : Text) :
    l.serve (calls ++ [(now, key)]) = (((l.serve calls).1.allow now key).2,
      (l.serve calls).2 ++ [(l.serve calls).1.answer now key]) := by
  rw [serve, List.foldl_append]
  rfl

theorem serve_config (l : IpLimiter) (calls : List (ℕ × Text)) :
    l.SameConfig (l.serve calls).1 := by
  induction calls using List.reverseRecOn with
  | nil => exact ⟨rfl, rfl, rfl, rfl⟩
  | append_singleton calls c ih =>
      obtain ⟨hlimit₀, hoverflow₀, hwindow₀, hmax₀⟩ := ih
      obtain ⟨hlimit, hoverflow, hwindow, hmax⟩ := (l.serve calls).1.allow_config c.1 c.2
      rw [serve_snoc]
      exact ⟨hlimit.trans hlimit₀, hoverflow.trans hoverflow₀, hwindow.trans hwindow₀,
        hmax.trans hmax₀⟩

/-- What holds of a limiter and the answers it gave: the times of the requests spent on a counter
are its history. -/
structure Served (l : IpLimiter) (t : ℕ) (out : List Answered) : Prop where
  size_le : l.hits.size ≤ l.max
  own : ∀ k, History l.window l.limit (l.hits.lookup k) t
    ((out.filter (·.isOwn k)).map Answered.time)
  shared : 0 < l.overflow →
    History l.window l.overflow (some l.spill) t ((out.filter Answered.isShared).map Answered.time)

theorem Served.later {l : IpLimiter} {t now : ℕ} {out : List Answered} (h : l.Served t out)
    (hclock : t ≤ now) : l.Served now out where
  size_le := h.size_le
  own k := (h.own k).later hclock
  shared hoverflow := (h.shared hoverflow).later hclock

theorem times_snoc (p : Answered → Bool) (out : List Answered) (r : Answered) :
    ((out ++ [r]).filter p).map Answered.time =
      (out.filter p).map Answered.time ++ if p r then [r.time] else [] := by
  rw [List.filter_append, List.map_append]
  cases hp : p r <;> simp [hp]

theorem Served.call {l : IpLimiter} {t now : ℕ} {out : List Answered} (h : l.Served t out)
    (hclock : t ≤ now) (key : Text) :
    (l.allow now key).2.Served now (out ++ [l.answer now key]) := by
  obtain ⟨hlimit, hoverflow, hwindow, hmax⟩ := l.allow_config now key
  refine ⟨?_, ?_, ?_⟩
  · rw [hmax]
    exact allow_size now key h.size_le
  · intro k
    rw [hwindow, hlimit, times_snoc]
    exact History.turn (h.own k) hclock (l.allow_turn now key k)
  · intro hpos
    rw [hoverflow] at hpos
    rw [hwindow, hoverflow, times_snoc]
    exact History.turn (h.shared hpos) hclock (allow_spill_turn now key hpos)

/-- The run of a limiter that starts empty, up to a time that no call is behind. -/
theorem serve_served (limit overflow window max : ℕ) {calls : List (ℕ × Text)}
    (hclock : (calls.map Prod.fst).Pairwise (· ≤ ·)) {t : ℕ} (ht : ∀ c ∈ calls, c.1 ≤ t) :
    let l := { newIPLimiter limit overflow window with max := max }
    (l.serve calls).1.Served t (l.serve calls).2 := by
  intro l
  induction calls using List.reverseRecOn generalizing t with
  | nil =>
      have hnew : l.Served 0 [] :=
        ⟨Nat.zero_le _, fun _ => History.absent, fun _ => History.fresh⟩
      exact hnew.later (Nat.zero_le t)
  | append_singleton calls c ih =>
      obtain ⟨now, key⟩ := c
      rw [List.map_append, List.pairwise_append] at hclock
      have hbefore : ∀ c ∈ calls, c.1 ≤ now := by
        intro c hc
        exact hclock.2.2 c.1 (List.mem_map_of_mem hc) now (by simp)
      have hnow : now ≤ t := ht (now, key) (by simp)
      rw [serve_snoc]
      exact ((ih hclock.1 hbefore).call le_rfl key).later hnow

/-- A counter whose window runs through the later calls is still there after them. -/
theorem serve_running {l : IpLimiter} {pre post : List (ℕ × Text)} {k : Text} {w : IpWindow}
    (hw : (l.serve pre).1.hits.lookup k = some w) (hpost : ∀ c ∈ post, c.1 - w.start < l.window) :
    ∃ w', (l.serve (pre ++ post)).1.hits.lookup k = some w' ∧ w'.start = w.start ∧
    w.count ≤ w'.count := by
  induction post using List.reverseRecOn with
  | nil =>
      rw [List.append_nil]
      exact ⟨w, hw, rfl, le_rfl⟩
  | append_singleton post c ih =>
      obtain ⟨now, key⟩ := c
      obtain ⟨w₁, hw₁, hstart, hcount⟩ := ih (fun c hc => hpost c (by simp [hc]))
      have hturn := (l.serve (pre ++ post)).1.allow_turn now key k
      have hrunning : now - w₁.start < (l.serve (pre ++ post)).1.window := by
        rw [(l.serve_config _).2.2.1, hstart]
        exact hpost (now, key) (by simp)
      rw [hw₁] at hturn
      obtain ⟨w₂, hw₂, hstart₂, hcount₂⟩ := hturn.running hrunning
      rw [← List.append_assoc, serve_snoc]
      exact ⟨w₂, hw₂, hstart₂.trans hstart, hcount.trans hcount₂⟩

theorem countP_times (p : Answered → Bool) (q : ℕ → Bool) (out : List Answered) :
    ((out.filter p).map Answered.time).countP q = out.countP (fun r => q r.time && p r) := by
  rw [List.countP_map, List.countP_filter]
  rfl

theorem countP_le_add {p q r : Answered → Bool} (h : ∀ x, p x = true → q x = true ∨ r x = true)
    (out : List Answered) : out.countP p ≤ out.countP q + out.countP r := by
  induction out with
  | nil => exact Nat.zero_le _
  | cons x out ih =>
      rw [List.countP_cons, List.countP_cons, List.countP_cons]
      by_cases hp : p x = true
      · rcases h x hp with hq | hr
        · rw [if_pos hp, if_pos hq]
          omega
        · rw [if_pos hp, if_pos hr]
          omega
      · rw [if_neg hp]
        omega

structure Bounds (l : IpLimiter) (calls : List (ℕ × Text)) : Prop where
  capped : (l.serve calls).1.hits.size ≤ l.max
  running : ∀ pre post, calls = pre ++ post → ∀ k w, (l.serve pre).1.hits.lookup k = some w →
    (∀ c ∈ post, c.1 - w.start < l.window) →
    ∃ w', (l.serve calls).1.hits.lookup k = some w' ∧ w'.start = w.start ∧ w.count ≤ w'.count
  keySpan : 0 < l.overflow → ∀ a k, (l.serve calls).2.countP (fun r =>
    a ≤ r.time ∧ r.time < a + l.window ∧ r.key = k ∧ r.allowed) ≤ 2 * l.limit + 2 * l.overflow
  sharedSpan : 0 < l.overflow → ∀ a, (l.serve calls).2.countP (fun r =>
    a ≤ r.time ∧ r.time < a + l.window ∧ r.allowed ∧ !r.tracked) ≤ 2 * l.overflow
  refused : ∀ pre now key post, calls = pre ++ (now, key) :: post →
    ((l.serve pre).1.allow now key).1 = false →
    l.limit ≤ (l.serve pre).2.countP (fun r => now < r.time + l.window ∧ r.key = key ∧ r.allowed) ∨
      (l.max ≤ ((l.serve pre).1.allow now key).2.hits.size ∧ 0 < l.overflow ∧
        l.overflow ≤ (l.serve pre).2.countP (fun r =>
          now < r.time + l.window ∧ r.allowed ∧ !r.tracked))

theorem Served.keySpan {l : IpLimiter} {t : ℕ} {out : List Answered} (h : l.Served t out)
    (hoverflow : 0 < l.overflow) (a : ℕ) (k : Text) :
    out.countP (fun r => a ≤ r.time ∧ r.time < a + l.window ∧ r.key = k ∧ r.allowed) ≤
      2 * l.limit + 2 * l.overflow := by
  have hown := (h.own k).span_le a
  have hshared := (h.shared hoverflow).span_le a
  rw [countP_times] at hown hshared
  refine (countP_le_add (fun r hr => ?_) out).trans (Nat.add_le_add hown hshared)
  simp only [decide_eq_true_eq] at hr
  obtain ⟨hlow, hhigh, hkey, hallowed⟩ := hr
  cases htracked : r.tracked with
  | true => simp [Answered.isOwn, hlow, hhigh, hkey, hallowed, htracked]
  | false => simp [Answered.isShared, hlow, hhigh, hallowed, htracked]

theorem Served.sharedSpan {l : IpLimiter} {t : ℕ} {out : List Answered} (h : l.Served t out)
    (hoverflow : 0 < l.overflow) (a : ℕ) :
    out.countP (fun r => a ≤ r.time ∧ r.time < a + l.window ∧ r.allowed ∧ !r.tracked) ≤
      2 * l.overflow := by
  have hshared := (h.shared hoverflow).span_le a
  rw [countP_times] at hshared
  refine (List.countP_mono_left (fun r _ hr => ?_)).trans hshared
  simp only [decide_eq_true_eq] at hr
  obtain ⟨hlow, hhigh, hallowed, htracked⟩ := hr
  simp [Answered.isShared, hlow, hhigh, hallowed, htracked]

theorem Served.refused {l : IpLimiter} {t now : ℕ} {out : List Answered} {key : Text}
    (h : l.Served t out) (hno : (l.allow now key).1 = false) :
    l.limit ≤ out.countP (fun r => now < r.time + l.window ∧ r.key = key ∧ r.allowed) ∨
      (l.max ≤ (l.allow now key).2.hits.size ∧ 0 < l.overflow ∧
        l.overflow ≤ out.countP (fun r => now < r.time + l.window ∧ r.allowed ∧ !r.tracked)) := by
  rcases allow_refused hno with hnone | ⟨hfull, hoverflow, hnone⟩
  · left
    have hown := (h.own key).refused hnone
    rw [countP_times] at hown
    refine hown.trans (List.countP_mono_left (fun r _ hr => ?_))
    simp only [Answered.isOwn, Bool.and_eq_true, decide_eq_true_eq] at hr ⊢
    exact ⟨hr.1, hr.2.1.1, hr.2.1.2⟩
  · right
    have hshared := (h.shared hoverflow).refused hnone
    rw [countP_times] at hshared
    refine ⟨hfull, hoverflow, hshared.trans (List.countP_mono_left (fun r _ hr => ?_))⟩
    simp only [Answered.isShared, Bool.and_eq_true, decide_eq_true_eq] at hr ⊢
    exact hr

end IpLimiter

open IpLimiter in
/-- The request limiter keeps its bounds over every run whose clock never goes back. -/
theorem request_limiter_bounds (limit overflow window max : ℕ) (calls : List (ℕ × Text))
    (hclock : (calls.map Prod.fst).Pairwise (· ≤ ·)) :
    IpLimiter.Bounds { newIPLimiter limit overflow window with max := max } calls := by
  let l : IpLimiter := { newIPLimiter limit overflow window with max := max }
  change l.Bounds calls
  obtain ⟨t, ht⟩ : ∃ t, ∀ c ∈ calls, c.1 ≤ t :=
    ⟨(calls.map Prod.fst).sum, fun c hc => List.single_le_sum (by simp) _ (List.mem_map_of_mem hc)⟩
  have hrun : (l.serve calls).1.Served t (l.serve calls).2 := serve_served _ _ _ _ hclock ht
  obtain ⟨hlimit, hoverflow, hwindow, hmax⟩ := l.serve_config calls
  refine ⟨?_, ?_, ?_, ?_, ?_⟩
  · exact hrun.size_le.trans hmax.le
  · rintro pre post rfl k w hw hpost
    exact serve_running hw hpost
  · intro hpos a k
    have hspan := hrun.keySpan (hoverflow.symm ▸ hpos) a k
    rwa [hlimit, hoverflow, hwindow] at hspan
  · intro hpos a
    have hspan := hrun.sharedSpan (hoverflow.symm ▸ hpos) a
    rwa [hoverflow, hwindow] at hspan
  · rintro pre now key post rfl hno
    rw [List.map_append, List.pairwise_append] at hclock
    have hnow : ∀ c ∈ pre, c.1 ≤ now := by
      intro c hc
      exact hclock.2.2 c.1 (List.mem_map_of_mem hc) now (by simp)
    have hpre : (l.serve pre).1.Served now (l.serve pre).2 := serve_served _ _ _ _ hclock.1 hnow
    obtain ⟨hlimit', hoverflow', hwindow', hmax'⟩ := l.serve_config pre
    have hrefused := hpre.refused hno
    rwa [hlimit', hoverflow', hwindow', hmax'] at hrefused

/-- Two addresses and a table of one counter: the second address is booked on the overflow
counter. -/
theorem request_limiter_bounds_two :
    let l := { newIPLimiter 1 1 60 with max := 1 }
    (((l.serve [(5, "a".toList), (6, "b".toList)]).1.allow 7 "b".toList).1 = false) ∧
      1 ≤ (l.serve [(5, "a".toList), (6, "b".toList)]).2.countP (fun r =>
        7 < r.time + 60 ∧ r.allowed ∧ !r.tracked) := by
  intro l
  have hno : ((l.serve [(5, "a".toList), (6, "b".toList)]).1.allow 7 "b".toList).1 = false := by
    decide
  refine ⟨hno, ?_⟩
  rcases (request_limiter_bounds 1 1 60 1 [(5, "a".toList), (6, "b".toList), (7, "b".toList)]
    (by decide)).refused [(5, "a".toList), (6,
      "b".toList)] 7 "b".toList [] rfl hno with hown | ⟨-, -, hall⟩
  · revert hown
    decide
  · exact hall

end Dufaka
