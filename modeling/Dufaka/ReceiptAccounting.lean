import Dufaka.ReceiptAnswers

/-!
# Accounts of the shared wallet answers

Which call started which fetch and when a fetch was closed are facts of the run: every fetch has the
one call that reports it, an answer out of the map is that of a recent fetch, and a closed entry
releases who waits for it.
-/

namespace Dufaka

/-- The steps that close the entry `e` when its fetch, if it still runs, ends as `r`. -/
def Lead.closing (e : ℕ) (r : FetchEnd) : Lead → List ReceiptAct
  | .fetching _ => [.fetched e r, .settle e]
  | .ended _ _ => [.settle e]
  | .unborn | .finished _ _ => []

namespace ReceiptThrottle
open Machine
variable {t t' : ReceiptThrottle} {a : ReceiptAct} {sn : Text} {e e' c c' : ℕ} {r : FetchEnd}
  {now : ℤ}
  {acts : List ReceiptAct}

inductive CallStep (t t' : ReceiptThrottle) (c : ℕ) : ReceiptAct → GetCall → Prop
  | same {a : ReceiptAct} : CallStep t t' c a (t.calls c)
  | began {sn : Text} (h : t.calls c = .idle) : CallStep t t' c (.get c sn) (.looping sn)
  | again {sn : Text} {e : ℕ} (h : t.calls c = .waiting sn e) :
      CallStep t t' c (.wake c) (.looping sn)
  | waits {sn : Text} {e : ℕ} (h : t.calls c = .looping sn) : CallStep t t' c (.look c)
      (.waiting sn e)
  | leads {sn : Text} (h : t.calls c = .looping sn) (hnext : t'.next = t.next + 1) :
      CallStep t t' c (.look c) (.leading sn t.next)
  | cached {sn : Text} {e : ℕ} (h : t.calls c = .looping sn) (hlast : t.last.lookup sn = some e)
      (hidle : (t.heap e).inFlight = false) (hfresh : t.now - (t.heap e).answeredAt < t.window) :
      CallStep t t' c (.look c) (.returned (t.heap e).item false ((t.heap e).err.map .wallet))
  | canceled {sn : Text} {e : ℕ} (h : t.calls c = .looping sn ∨ t.calls c = .waiting sn e) :
      CallStep t t' c (.cancel c) (.returned .zero false (some .ctx))
  | canceledLeader {sn : Text} {e : ℕ} (h : t.calls c = .leading sn e) :
      CallStep t t' c (.cancel c) (.returned .zero true (some .ctx))
  | answered {sn : Text} {e : ℕ} (h : t.calls c = .leading sn e) :
      CallStep t t' c (.wake c) (.returned (t.heap e).item true ((t.heap e).err.map .wallet))

theorem look_call (h : t.calls c = .looping sn) :
    CallStep t (t.look c sn) c (.look c) ((t.look c sn).calls c) := by
  have hstart : CallStep t (t.startFetch c sn) c (.look c) ((t.startFetch c sn).calls c) := by
    have hcall : (t.startFetch c sn).calls c = .leading sn t.next := Function.update_self ..
    rw [hcall]
    exact .leads h rfl
  rw [look]
  split
  case h_1 e hlast =>
    split
    case isTrue =>
      have hcall : (t.setCall c (.waiting sn e)).calls c = .waiting sn e := Function.update_self ..
      rw [hcall]
      exact .waits h
    case isFalse hidle =>
      split
      case isTrue hfresh =>
        have hcall : (t.setCall c
            (.returned (t.heap e).item false ((t.heap e).err.map .wallet))).calls c =
            .returned (t.heap e).item false ((t.heap e).err.map .wallet) := Function.update_self ..
        rw [hcall]
        exact .cached h hlast (Bool.eq_false_iff.mpr hidle) hfresh
      case isFalse => exact hstart
  case h_2 => exact hstart

theorem look_cases (t : ReceiptThrottle) (c : ℕ) (sn : Text) :
    (∃ p, t.look c sn = t.setCall c p) ∨ t.look c sn = t.startFetch c sn := by
  rw [look]
  split
  · split
    · exact Or.inl ⟨_, rfl⟩
    · split
      · exact Or.inl ⟨_, rfl⟩
      · exact Or.inr rfl
  · exact Or.inr rfl

theorem look_other (hne : c ≠ c') : (t.look c' sn).calls c = t.calls c := by
  have hset : ∀ p, Function.update t.calls c' p c = t.calls c :=
    fun p => Function.update_of_ne hne ..
  rcases look_cases t c' sn with ⟨p, hlook⟩ | hlook
  · rw [hlook]
    exact hset p
  · rw [hlook]
    exact hset _

theorem step_call (h : t.step a = some t') (c : ℕ) : CallStep t t' c a (t'.calls c) := by
  have hset : ∀ {a : ReceiptAct} {c' : ℕ} {p : GetCall}, (c = c' → CallStep t t' c a p) →
      t' = t.setCall c' p → CallStep t t' c a (t'.calls c) := by
    intro a c' p hp ht
    have hcalls : t'.calls = Function.update t.calls c' p := by rw [ht, setCall]
    rw [hcalls]
    by_cases hsame : c = c'
    · have hself : Function.update t.calls c' p c = p := by rw [hsame, Function.update_self]
      rw [hself]
      exact hp hsame
    · rw [Function.update_of_ne hsame]
      exact .same
  cases a with
  | tick n | forget sn =>
      obtain rfl := Option.some.inj h
      exact .same
  | prune =>
      obtain rfl := Option.some.inj h
      rw [t.prune_parts.2.2.2]
      exact .same
  | get c' sn =>
      simp only [ReceiptThrottle.step] at h
      split at h
      case h_1 hidle =>
        refine hset (fun hc => ?_) (Option.some.inj h).symm
        subst hc
        exact .began hidle
      case h_2 => cases h
  | cancel c' =>
      simp only [ReceiptThrottle.step] at h
      split at h
      case h_3 sn e hcall =>
        refine hset (fun hc => ?_) (Option.some.inj h).symm
        subst hc
        exact .canceledLeader hcall
      case h_1 sn hcall =>
        refine hset (fun hc => ?_) (Option.some.inj h).symm
        subst hc
        exact .canceled (e := 0) (Or.inl hcall)
      case h_2 sn e hcall =>
        refine hset (fun hc => ?_) (Option.some.inj h).symm
        subst hc
        exact .canceled (Or.inr hcall)
      case h_4 => cases h
  | look c' =>
      simp only [ReceiptThrottle.step] at h
      split at h
      case h_1 sn hcall =>
        obtain rfl := Option.some.inj h
        by_cases hsame : c = c'
        · subst hsame
          exact look_call hcall
        · rw [look_other hsame]
          exact .same
      case h_2 => cases h
  | wake c' =>
      simp only [ReceiptThrottle.step] at h
      split at h
      case h_1 sn e hcall =>
        split at h
        · cases h
        · refine hset (fun hc => ?_) (Option.some.inj h).symm
          subst hc
          exact .again hcall
      case h_2 sn e hcall =>
        split at h
        · cases h
        · refine hset (fun hc => ?_) (Option.some.inj h).symm
          subst hc
          exact .answered hcall
      case h_3 => cases h
  | fetched e r =>
      simp only [ReceiptThrottle.step] at h
      split at h
      case h_1 =>
        obtain rfl := Option.some.inj h
        exact .same
      case h_2 => cases h
  | settle e =>
      simp only [ReceiptThrottle.step] at h
      split at h
      case h_1 sn r hlead =>
        obtain rfl := Option.some.inj h
        rw [(settle_moves hlead).2]
        exact .same
      case h_2 => cases h

inductive EntryStep (t t' : ReceiptThrottle) (e : ℕ) : ReceiptAct → ReceiptEntry → Prop
  | same {a : ReceiptAct} (hover : ∀ sn r,
    t'.leads e = .finished sn r → t.leads e = .finished sn r) :
      EntryStep t t' e a (t.heap e)
  | opened {c : ℕ} {sn : Text} (hlead : t'.leads e = .fetching sn) : EntryStep t t' e
      (.look c) ⟨true, 0, .zero, none⟩
  | closed {sn : Text} {r : FetchEnd} {s : ℤ} (hended : t.leads e = .ended sn r)
      (hlead : t'.leads e = .finished sn r)
      (hkept : t'.last.lookup sn = some e → r.dropped = false ∧ s = t.now) :
      EntryStep t t' e (.settle e) ⟨false, s, r.item, r.err⟩

theorem keep_heap_of_ne (h : e ≠ e') : (t.keep e' sn r).heap e = t.heap e := by
  rw [keep]
  split
  · split
    · rfl
    · rw [(t.setEntry e' { t.heap e' with answeredAt := t.now }).prune_parts.1]
      exact Function.update_of_ne h ..
  · rfl

/-- An entry that its `lead` leaves in the map got the time of the bookkeeping. -/
theorem keep_kept (h : (t.keep e sn r).last.lookup sn = some e) :
    r.dropped = false ∧ ((t.keep e sn r).heap e).answeredAt = t.now := by
  have hlast : t.last.lookup sn = some e := keep_lookup h
  rw [keep, if_pos hlast] at h ⊢
  split at h
  case isTrue =>
    have hgone : (t.last.erase sn).lookup sn = none := AList.lookup_erase sn t.last
    have hstays : (t.last.erase sn).lookup sn = some e := h
    rw [hgone] at hstays
    cases hstays
  case isFalse hdropped =>
    rw [if_neg hdropped, (t.setEntry e { t.heap e with answeredAt := t.now }).prune_parts.1]
    have hself : (t.setEntry e { t.heap e with answeredAt := t.now }).heap e =
        { t.heap e with answeredAt := t.now } := Function.update_self ..
    rw [hself]
    exact ⟨Bool.eq_false_iff.mpr hdropped, rfl⟩

theorem settle_entry (h : t.leads e' = .ended sn r) :
    EntryStep t (t.settle e' sn r) e (.settle e') ((t.settle e' sn r).heap e) := by
  let u : ReceiptThrottle := t.setEntry e' { t.heap e' with item := r.item, err := r.err }
  have hheap : (t.settle e' sn r).heap =
      Function.update (u.keep e' sn r).heap e'
      { (u.keep e' sn r).heap e' with inFlight := false } :=
    rfl
  have hleads : (t.settle e' sn r).leads = Function.update t.leads e' (.finished sn r) := by
    change Function.update (u.keep e' sn r).leads e' _ = _
    rw [(u.keep_parts e' sn r).1]
    rfl
  rw [hheap]
  by_cases hsame : e = e'
  · subst hsame
    obtain ⟨-, hitem, herr⟩ := u.keep_entry e e sn r
    have hentry : u.heap e = { t.heap e with item := r.item, err := r.err } :=
      Function.update_self ..
    have hclosed : ({ (u.keep e sn r).heap e with inFlight := false } : ReceiptEntry) =
        ⟨false, ((u.keep e sn r).heap e).answeredAt, r.item, r.err⟩ := by
      rw [hentry] at hitem herr
      rw [ReceiptEntry.mk.injEq]
      exact ⟨rfl, rfl, hitem, herr⟩
    rw [Function.update_self, hclosed]
    refine .closed h ?_ (fun hlast => ?_)
    · rw [hleads, Function.update_self]
    · have hkept : (u.keep e sn r).last.lookup sn = some e := hlast
      exact keep_kept hkept
  · have hother : u.heap e = t.heap e := Function.update_of_ne hsame ..
    rw [Function.update_of_ne hsame, keep_heap_of_ne hsame, hother]
    refine .same (fun sn' r' hlead => ?_)
    rwa [hleads, Function.update_of_ne hsame] at hlead

theorem startFetch_entry :
    EntryStep t (t.startFetch c sn) e (.look c) ((t.startFetch c sn).heap e) := by
  have hheap : (t.startFetch c sn).heap = Function.update t.heap t.next ⟨true, 0, .zero, none⟩ :=
    rfl
  have hleads : (t.startFetch c sn).leads = Function.update t.leads t.next (.fetching sn) := rfl
  rw [hheap]
  by_cases hnew : e = t.next
  · subst hnew
    have hlead : (t.startFetch c sn).leads t.next = .fetching sn := Function.update_self ..
    rw [Function.update_self]
    exact .opened hlead
  · rw [Function.update_of_ne hnew]
    refine .same (fun sn' r' hlead => ?_)
    rwa [hleads, Function.update_of_ne hnew] at hlead

theorem step_entry (h : t.step a = some t') (e : ℕ) : EntryStep t t' e a (t'.heap e) := by
  cases a with
  | tick n | forget sn =>
      obtain rfl := Option.some.inj h
      exact .same (fun _ _ hlead => hlead)
  | prune =>
      obtain rfl := Option.some.inj h
      obtain ⟨hheap, hleads, -, -⟩ := t.prune_parts
      rw [hheap]
      refine .same (fun sn r hlead => ?_)
      rwa [hleads] at hlead
  | settle e' =>
      simp only [ReceiptThrottle.step] at h
      split at h
      case h_1 sn r hended =>
        obtain rfl := Option.some.inj h
        exact settle_entry hended
      case h_2 => cases h
  | look c =>
      simp only [ReceiptThrottle.step] at h
      split at h
      case h_2 => cases h
      case h_1 sn hcall =>
        obtain rfl := Option.some.inj h
        rcases look_cases t c sn with ⟨p, hlook⟩ | hlook
        · rw [hlook]
          exact .same (fun _ _ hlead => hlead)
        · rw [hlook]
          exact startFetch_entry
  | fetched e' r =>
      simp only [ReceiptThrottle.step] at h
      split at h
      case h_1 sn hlead =>
        obtain rfl := Option.some.inj h
        refine .same (fun sn' r' hover => ?_)
        have hleads : Function.update t.leads e' (.ended sn r) e = .finished sn' r' := hover
        by_cases hsame : e = e'
        · rw [hsame, Function.update_self] at hleads
          cases hleads
        · rwa [Function.update_of_ne hsame] at hleads
      case h_2 => cases h
  | get c sn | cancel c =>
      simp only [ReceiptThrottle.step] at h
      split at h
      all_goals first
        | obtain rfl := Option.some.inj h
          exact .same (fun _ _ hlead => hlead)
        | cases h
  | wake c =>
      simp only [ReceiptThrottle.step] at h
      split at h
      case h_3 => cases h
      all_goals
        split at h
        · cases h
        · obtain rfl := Option.some.inj h
          exact .same (fun _ _ hlead => hlead)

theorem prune_now (t : ReceiptThrottle) : t.prune.now = t.now := by
  rw [prune]
  split <;> rfl

theorem keep_now (t : ReceiptThrottle) (e : ℕ) (sn : Text) (r : FetchEnd) :
    (t.keep e sn r).now = t.now := by
  rw [keep]
  split
  · split
    · rfl
    · exact prune_now _
  · rfl

/-- The clock never goes back. -/
theorem step_now (h : t.step a = some t') : t.now ≤ t'.now := by
  cases a with
  | tick n =>
      obtain rfl := Option.some.inj h
      exact Int.le_add_of_nonneg_right (Int.natCast_nonneg n)
  | prune =>
      obtain rfl := Option.some.inj h
      exact (prune_now t).ge
  | forget sn =>
      obtain rfl := Option.some.inj h
      exact le_rfl
  | settle e =>
      simp only [ReceiptThrottle.step] at h
      split at h
      case h_1 sn r hended =>
        obtain rfl := Option.some.inj h
        exact (keep_now (t.setEntry e { t.heap e with item := r.item, err := r.err }) e sn r).ge
      case h_2 => cases h
  | look c =>
      simp only [ReceiptThrottle.step] at h
      split at h
      case h_2 => cases h
      case h_1 sn hcall =>
        obtain rfl := Option.some.inj h
        rcases look_cases t c sn with ⟨p, hlook⟩ | hlook
        · rw [hlook]
          exact le_rfl
        · rw [hlook]
          exact le_rfl
  | get c sn | cancel c | fetched e r =>
      simp only [ReceiptThrottle.step] at h
      split at h
      all_goals first
        | obtain rfl := Option.some.inj h
          exact le_rfl
        | cases h
  | wake c =>
      simp only [ReceiptThrottle.step] at h
      split at h
      case h_3 => cases h
      all_goals
        split at h
        · cases h
        · obtain rfl := Option.some.inj h
          exact le_rfl

def Starts (c e : ℕ) (t : ReceiptThrottle) (a : ReceiptAct) (t' : ReceiptThrottle) : Prop :=
  a = .look c ∧ t.next = e ∧ t'.next = e + 1

def ClosesAt (e : ℕ) (s : ℤ) (t : ReceiptThrottle) (a : ReceiptAct) (_ : ReceiptThrottle) : Prop :=
  a = .settle e ∧ t.now = s

def Answers (t : ReceiptThrottle) (c e : ℕ) : Prop :=
  (∃ sn, t.calls c = .leading sn e) ∨ ∃ item err, t.calls c = .returned item true err

theorem Starts.calls (hs : Starts c e t a t') (h : t.step a = some t') :
    ∃ sn, t.calls c = .looping sn ∧ t'.calls c = .leading sn e := by
  obtain ⟨rfl, rfl, hnext⟩ := hs
  simp only [ReceiptThrottle.step] at h
  split at h
  case h_2 => cases h
  case h_1 sn hcall =>
    obtain rfl := Option.some.inj h
    refine ⟨sn, hcall, ?_⟩
    rcases look_cases t c sn with ⟨p, hlook⟩ | hlook
    · have hsame : (t.look c sn).next = t.next := by rw [hlook, setCall]
      omega
    · rw [hlook]
      exact Function.update_self ..

theorem step_starts (h : t.step a = some t') : t'.next = t.next ∨ ∃ c, Starts c t.next t a t' := by
  obtain ⟨hmoves, -⟩ := step_moves h
  generalize hl : t'.leads = leads at hmoves
  generalize hn : t'.next = next at hmoves ⊢
  cases hmoves with
  | same | ended | finished => exact Or.inl rfl
  | @started c sn hcall => exact Or.inr ⟨c, rfl, rfl, hn⟩

structure Accounted (now : ℤ) (acts : List ReceiptAct) (t : ReceiptThrottle) : Prop where
  filed : t.Filed
  idle : ∀ e sn r, t.leads e = .finished sn r → (t.heap e).inFlight = false
  dated : ∀ sn e, t.last.lookup sn = some e → (t.heap e).inFlight = false →
    (t.heap e).answeredAt ≤ t.now ∧
      (∃ r, t.leads e = .finished sn r ∧ r.dropped = false) ∧
      Took step (ClosesAt e (t.heap e).answeredAt) (newReceiptThrottle now) acts
  born : ∀ c e, Took step (Starts c e) (newReceiptThrottle now) acts → e < t.next
  started : ∀ e < t.next, ∃ c, Took step (Starts c e) (newReceiptThrottle now) acts
  oneCall : ∀ c c' e, Took step (Starts c e) (newReceiptThrottle now) acts →
    Took step (Starts c' e) (newReceiptThrottle now) acts → c = c'
  oneFetch : ∀ c e e', Took step (Starts c e) (newReceiptThrottle now) acts →
    Took step (Starts c e') (newReceiptThrottle now) acts → e = e'
  answers : ∀ c e, Took step (Starts c e) (newReceiptThrottle now) acts → t.Answers c e
  leading : ∀ c sn e, t.calls c = .leading sn e →
    Took step (Starts c e) (newReceiptThrottle now) acts
  reported : ∀ c item err, t.calls c = .returned item true err →
    ∃ e, Took step (Starts c e) (newReceiptThrottle now) acts

theorem new_accounted (now : ℤ) : Accounted now [] (newReceiptThrottle now) where
  filed := new_filed now
  idle e sn r h := by cases h
  dated sn e h := by cases h
  born c e h := h.elim
  started e he := (Nat.not_lt_zero e he).elim
  oneCall c c' e h := h.elim
  oneFetch c e e' h := h.elim
  answers c e h := h.elim
  leading c sn e h := by cases h
  reported c item err h := by cases h

theorem Answers.ne (hc : t.Answers c e) {p : GetCall} (hlead : ∀ sn, p ≠ .leading sn e)
    (hret : ∀ item err, p ≠ .returned item true err) : t.calls c ≠ p := by
  rintro rfl
  rcases hc with ⟨sn, hc⟩ | ⟨item, err, hc⟩
  · exact hlead sn hc
  · exact hret item err hc

theorem Answers.ne_looping (hc : t.Answers c e) : t.calls c ≠ .looping sn :=
  hc.ne (fun _ => GetCall.noConfusion) (fun _ _ => GetCall.noConfusion)

theorem Answers.step (hc : t.Answers c e) (h : t.step a = some t') : t'.Answers c e := by
  have hmove := step_call h c
  generalize hcall : t'.calls c = p at hmove
  rw [Answers, hcall]
  cases hmove with
  | same => exact hc
  | began hold =>
      exact absurd hold (hc.ne (fun _ => GetCall.noConfusion) (fun _ _ => GetCall.noConfusion))
  | leads hold | cached hold | waits hold => exact absurd hold hc.ne_looping
  | again hold =>
      exact absurd hold (hc.ne (fun _ => GetCall.noConfusion) (fun _ _ => GetCall.noConfusion))
  | canceled hold =>
      rcases hold with hold | hold
      · exact absurd hold hc.ne_looping
      · exact absurd hold (hc.ne (fun _ => GetCall.noConfusion) (fun _ _ => GetCall.noConfusion))
  | canceledLeader => exact Or.inr ⟨_, _, rfl⟩
  | answered => exact Or.inr ⟨_, _, rfl⟩

theorem Accounted.step_dated (hA : Accounted now acts t)
    (hrun : run step (newReceiptThrottle now) acts = some t) (h : t.step a = some t')
    (hlast : t'.last.lookup sn = some e) (hidle : (t'.heap e).inFlight = false) :
    (t'.heap e).answeredAt ≤ t'.now ∧ (∃ r, t'.leads e = .finished sn r ∧ r.dropped = false) ∧
      Took step (ClosesAt e (t'.heap e).answeredAt) (newReceiptThrottle now) (acts ++ [a]) := by
  have hfiled : t'.Filed := hA.filed.step h
  obtain ⟨r, hlead, -⟩ := hfiled.closed e sn (hfiled.mapped sn e hlast) hidle
  have hbefore : t.last.lookup sn = some e := by
    rcases step_lookup h hlast with hbefore | hnew
    · exact hbefore
    · rw [hnew] at hlead
      cases hlead
  have hnow := step_now h
  have hentry := step_entry h e
  generalize hx : t'.heap e = x at hentry hidle ⊢
  cases hentry with
  | same =>
      obtain ⟨htime, ⟨r', hlead', hkeep⟩, htook⟩ := hA.dated sn e hbefore hidle
      refine ⟨htime.trans hnow, ⟨r', step_finished hA.filed h hlead', hkeep⟩, ?_⟩
      exact (took_snoc hrun h).mpr (Or.inl htook)
  | opened => cases hidle
  | @closed sn' r' s hended hover hkept =>
      have hkey : (t.leads e).key = some sn := hA.filed.mapped sn e hbefore
      rw [hended] at hkey
      obtain rfl := Option.some.inj hkey
      obtain ⟨hkeep, rfl⟩ := hkept hlast
      exact ⟨hnow, ⟨r', hover, hkeep⟩, (took_snoc hrun h).mpr (Or.inr ⟨rfl, rfl⟩)⟩

theorem Accounted.step_idle (hA : Accounted now acts t) (h : t.step a = some t')
    (hlead : t'.leads e = .finished sn r) : (t'.heap e).inFlight = false := by
  have hentry := step_entry h e
  generalize hx : t'.heap e = x at hentry
  cases hentry with
  | same hover => exact hA.idle e sn r (hover sn r hlead)
  | opened hnew =>
      rw [hnew] at hlead
      cases hlead
  | closed => rfl

theorem Accounted.step (hA : Accounted now acts t)
    (hrun : run step (newReceiptThrottle now) acts = some t) (h : t.step a = some t') :
    Accounted now (acts ++ [a]) t' := by
  have htook : ∀ {c e : ℕ},
      Took ReceiptThrottle.step (Starts c e) (newReceiptThrottle now) (acts ++ [a]) ↔
      Took ReceiptThrottle.step (Starts c e) (newReceiptThrottle now) acts ∨ Starts c e t a t' :=
    took_snoc hrun h
  have hnext : t.next ≤ t'.next := by
    rcases step_starts h with hsame | ⟨c, -, -, hs⟩
    · exact hsame.ge
    · omega
  -- whoever starts a fetch has not started one before
  have hfresh : ∀ {c e e' : ℕ},
      Took ReceiptThrottle.step (Starts c e) (newReceiptThrottle now) acts →
      ¬ Starts c e' t a t' := by
    intro c e e' hold hs
    obtain ⟨sn, hcall, -⟩ := hs.calls h
    exact (hA.answers c e hold).ne_looping hcall
  refine ⟨hA.filed.step h, fun e sn r => hA.step_idle h, fun sn e => hA.step_dated hrun h, ?_, ?_,
    ?_, ?_, ?_, ?_, ?_⟩
  · intro c e hstart
    rcases htook.mp hstart with hold | ⟨-, -, hs⟩
    · exact (hA.born c e hold).trans_le hnext
    · omega
  · intro e he
    rcases step_starts h with hsame | ⟨c, hs⟩
    · rw [hsame] at he
      obtain ⟨c, hc⟩ := hA.started e he
      exact ⟨c, htook.mpr (Or.inl hc)⟩
    · by_cases hnew : e = t.next
      · rw [hnew]
        exact ⟨c, htook.mpr (Or.inr hs)⟩
      · obtain ⟨-, -, hlast⟩ := hs
        obtain ⟨c', hc'⟩ := hA.started e (by omega)
        exact ⟨c', htook.mpr (Or.inl hc')⟩
  · intro c c' e hc hc'
    rcases htook.mp hc with hc | hs
    · rcases htook.mp hc' with hc' | ⟨-, rfl, -⟩
      · exact hA.oneCall c c' e hc hc'
      · exact absurd (hA.born c t.next hc) (lt_irrefl _)
    · rcases htook.mp hc' with hc' | hs'
      · obtain ⟨-, rfl, -⟩ := hs
        exact absurd (hA.born c' t.next hc') (lt_irrefl _)
      · exact ReceiptAct.look.inj (hs.1.symm.trans hs'.1)
  · intro c e e' he he'
    rcases htook.mp he with he | hs
    · rcases htook.mp he' with he' | hs'
      · exact hA.oneFetch c e e' he he'
      · exact absurd hs' (hfresh he)
    · rcases htook.mp he' with he' | hs'
      · exact absurd hs (hfresh he')
      · exact hs.2.1.symm.trans hs'.2.1
  · intro c e hc
    rcases htook.mp hc with hold | hs
    · exact (hA.answers c e hold).step h
    · obtain ⟨sn, -, hlead⟩ := hs.calls h
      exact Or.inl ⟨sn, hlead⟩
  · intro c sn e hc
    have hmove := step_call h c
    rw [hc] at hmove
    generalize hp : GetCall.leading sn e = p at hmove
    cases hmove with
    | same => exact htook.mpr (Or.inl (hA.leading c sn e hp.symm))
    | leads hcall hnew =>
        obtain ⟨-, rfl⟩ := GetCall.leading.inj hp
        exact htook.mpr (Or.inr ⟨rfl, rfl, hnew⟩)
    | _ => cases hp
  · intro c item err hc
    have hmove := step_call h c
    rw [hc] at hmove
    generalize hp : GetCall.returned item true err = p at hmove
    cases hmove with
    | same =>
        obtain ⟨e, he⟩ := hA.reported c item err hp.symm
        exact ⟨e, htook.mpr (Or.inl he)⟩
    | canceledLeader hcall | answered hcall =>
        exact ⟨_, htook.mpr (Or.inl (hA.leading c _ _ hcall))⟩
    | _ => cases hp

theorem run_accounted (h : run step (newReceiptThrottle now) acts = some t) :
    Accounted now acts t :=
  run_induction (new_accounted now) (fun _ _ _ _ hrun hA hstep => hA.step hrun hstep) h

theorem settle_idle (h : t.leads e = .ended sn r) :
    ∃ u, t.step (.settle e) = some u ∧ u.calls = t.calls ∧ (u.heap e).inFlight = false := by
  refine ⟨t.settle e sn r, by simp only [ReceiptThrottle.step, h], (settle_moves h).2, ?_⟩
  let u : ReceiptThrottle := t.setEntry e { t.heap e with item := r.item, err := r.err }
  have hheap : (t.settle e sn r).heap e = { (u.keep e sn r).heap e with inFlight := false } :=
    Function.update_self ..
  rw [hheap]

theorem closing_run (hA : Accounted now acts t) (he : (t.leads e).key = some sn) (r : FetchEnd) :
    ∃ u, run step t ((t.leads e).closing e r) = some u ∧ u.calls = t.calls ∧
      (u.heap e).inFlight = false := by
  cases hlead : t.leads e with
  | unborn =>
      rw [hlead] at he
      cases he
  | fetching sn' =>
      let u : ReceiptThrottle := t.setLead e (.ended sn' r)
      have hfetched : t.step (.fetched e r) = some u := by
        simp only [ReceiptThrottle.step, hlead]; rfl
      have hended : u.leads e = .ended sn' r := Function.update_self ..
      obtain ⟨v, hsettle, hcalls, hidle⟩ := settle_idle hended
      exact ⟨v, run_cons.mpr ⟨u, hfetched, run_cons.mpr ⟨v, hsettle, rfl⟩⟩, hcalls, hidle⟩
  | ended sn' r' =>
      obtain ⟨v, hsettle, hcalls, hidle⟩ := settle_idle hlead
      exact ⟨v, run_cons.mpr ⟨v, hsettle, rfl⟩, hcalls, hidle⟩
  | finished sn' r' => exact ⟨t, rfl, rfl, hA.idle e sn' r' hlead⟩

/-- A fetch that is over stays as it ended. -/
theorem run_finished (hf : t.Filed) (h : run step t acts = some t')
    (he : t.leads e = .finished sn r) :
    t'.leads e = .finished sn r := by
  have hstays : t'.Filed ∧ t'.leads e = .finished sn r := by
    refine run_induction (P := fun _ s => s.Filed ∧ s.leads e = .finished sn r) ⟨hf, he⟩ ?_ h
    rintro _ s₁ b s₂ - ⟨hs, hlead⟩ hstep
    exact ⟨hs.step hstep, step_finished hs hstep hlead⟩
  exact hstays.2

/-- The entry of a fetch that is over holds its answer. -/
theorem Accounted.answer (hA : Accounted now acts t) (he : t.leads e = .finished sn r) :
    (t.heap e).item = r.item ∧ (t.heap e).err = r.err := by
  have hkey : (t.leads e).key = some sn := by rw [he, Lead.key]
  obtain ⟨r', he', hitem, herr⟩ := hA.filed.closed e sn hkey (hA.idle e sn r he)
  rw [he] at he'
  obtain ⟨-, rfl⟩ := Lead.finished.inj he'
  exact ⟨hitem, herr⟩

/-- An answer that the call did not fetch is a fresh one out of the map. -/
theorem Accounted.cached (hA : Accounted now acts t) (h : t.step a = some t') {item : Receipt}
    {err : Option GetError} (hbefore : t.calls c ≠ .returned item false err)
    (hc : t'.calls c = .returned item false err) (herr : err ≠ some .ctx) :
    ∃ sn e err', t.calls c = .looping sn ∧ t.leads e = .finished sn (.returned item err') ∧
      err' ≠ some .canceled ∧ err = err'.map .wallet ∧
      Took ReceiptThrottle.step (ClosesAt e (t.heap e).answeredAt) (newReceiptThrottle now) acts ∧
      (t.heap e).answeredAt ≤ t.now ∧ t.now - (t.heap e).answeredAt < t.window := by
  have hmove := step_call h c
  rw [hc] at hmove
  generalize hp : GetCall.returned item false err = p at hmove
  cases hmove with
  | same => exact (hbefore hp.symm).elim
  | @cached sn e hcall hlast hidle hfresh =>
      obtain ⟨htime, ⟨r, hlead, hkeep⟩, htook⟩ := hA.dated sn e hlast hidle
      obtain ⟨hitem, herr'⟩ := hA.answer hlead
      obtain ⟨rfl, -, rfl⟩ := GetCall.returned.inj hp
      cases r with
      | panicked => cases hkeep
      | returned item' err' =>
          rw [hitem, herr']
          exact ⟨sn, e, err', hcall, hlead, of_decide_eq_false hkeep, rfl, htook, htime, hfresh⟩
  | canceled =>
      obtain ⟨-, -, rfl⟩ := GetCall.returned.inj hp
      exact (herr rfl).elim
  | _ => cases hp

end ReceiptThrottle

variable {t : ReceiptThrottle} {now : ℤ} {acts : List ReceiptAct}
open ReceiptThrottle

/-- Every fetch that is started is answered for as `fetched` by the one call that started it. A call
that returns another's answer returns that of a fetch for its own key, closed less than a window
before with no panic and no cancellation, and nothing writes that entry again. Whoever holds the
entry of a fetch can go on when the fetch is over, however it ends. -/
theorem receipt_accounting (h : Machine.run step (newReceiptThrottle now) acts = some t) :
    (∀ e < t.next, ∃! c, Machine.Took step (Starts c e) (newReceiptThrottle now) acts) ∧
      (∀ c e, Machine.Took step (Starts c e) (newReceiptThrottle now) acts → t.Answers c e) ∧
      (∀ c item err, t.calls c = .returned item true err →
        ∃! e, Machine.Took step (Starts c e) (newReceiptThrottle now) acts) ∧
      (∀ a t' c item err, t.step a = some t' → t.calls c ≠ .returned item false err →
        t'.calls c = .returned item false err → err ≠ some .ctx →
        ∃ sn e err' s, t.calls c = .looping sn ∧ t.leads e = .finished sn (.returned item err') ∧
          err' ≠ some .canceled ∧ err = err'.map .wallet ∧
          Machine.Took step (ClosesAt e s) (newReceiptThrottle now) acts ∧ s ≤ t.now ∧
          t.now - s < t.window ∧
          ∀ acts' u, Machine.run step t' acts' = some u → (u.heap e).item = item ∧
          (u.heap e).err = err') ∧
      (∀ c sn e r, t.calls c = .waiting sn e → t.leads e ≠ .unborn ∧
        ∃ u, Machine.run step t ((t.leads e).closing e r ++ [.wake c]) = some u ∧
          u.calls c = .looping sn) ∧
      ∀ c sn e r, t.calls c = .leading sn e → t.leads e ≠ .unborn ∧
        ∃ u item err, Machine.run step t ((t.leads e).closing e r ++ [.wake c]) = some u ∧
          u.calls c = .returned item true err := by
  have hA := run_accounted h
  refine ⟨fun e he => ?_, hA.answers, fun c item err hc => ?_,
    fun a t' c item err hstep hbefore hc herr => ?_, fun c sn e r hc => ?_, fun c sn e r hc => ?_⟩
  · obtain ⟨c, hstart⟩ := hA.started e he
    exact ⟨c, hstart, fun c' hc' => hA.oneCall c' c e hc' hstart⟩
  · obtain ⟨e, hstart⟩ := hA.reported c item err hc
    exact ⟨e, hstart, fun e' he' => hA.oneFetch c e' e he' hstart⟩
  · obtain ⟨sn, e, err', hcall, hlead, hkeep, heq, htook, htime, hfresh⟩ :=
      hA.cached hstep hbefore hc herr
    refine ⟨sn, e, err', _, hcall, hlead, hkeep, heq, htook, htime, hfresh, fun acts' u hu => ?_⟩
    have hlater : Machine.run step t (a :: acts') = some u := Machine.run_cons.mpr ⟨t', hstep, hu⟩
    have hall : Machine.run step (newReceiptThrottle now) (acts ++ a :: acts') = some u :=
      Machine.run_append.mpr ⟨t, h, hlater⟩
    exact (run_accounted hall).answer (run_finished hA.filed hlater hlead)
  · have hkey : (t.leads e).key = some sn := by rw [hA.filed.called c e (by rw [hc]; rfl), hc]; rfl
    obtain ⟨u, hu, hcalls, hidle⟩ := closing_run hA hkey r
    have hwaits : u.calls c = .waiting sn e := by rw [hcalls, hc]
    refine ⟨fun hunborn => ?_, u.setCall c (.looping sn), ?_, Function.update_self ..⟩
    · rw [hunborn] at hkey
      cases hkey
    · refine Machine.run_snoc.mpr ⟨u, hu, ?_⟩
      simp only [ReceiptThrottle.step, hwaits, hidle]
      rfl
  · have hkey : (t.leads e).key = some sn := by rw [hA.filed.called c e (by rw [hc]; rfl), hc]; rfl
    obtain ⟨u, hu, hcalls, hidle⟩ := closing_run hA hkey r
    have hwaits : u.calls c = .leading sn e := by rw [hcalls, hc]
    refine ⟨fun hunborn => ?_, u.setCall c _, (u.heap e).item, (u.heap e).err.map .wallet, ?_,
      Function.update_self ..⟩
    · rw [hunborn] at hkey
      cases hkey
    · refine Machine.run_snoc.mpr ⟨u, hu, ?_⟩
      simp only [ReceiptThrottle.step, hwaits, hidle]
      rfl

/-- The caller gives up before its fetch panics, and the one who waited goes on. -/
theorem receipt_accounting_panic :
    ∃ t, Machine.run step (newReceiptThrottle 0) [.get 0 "A1".toList, .look 0, .get 1 "A1".toList,
      .look 1,
        .cancel 0, .fetched 0 .panicked] = some t ∧ t.Answers 0 0 ∧
      ∃ u, Machine.run step t ((t.leads 0).closing 0 .panicked ++ [.wake 1]) = some u ∧
        u.calls 1 = .looping "A1".toList := by
  obtain ⟨-, hanswers, -, -, hwaits, -⟩ := @receipt_accounting _ 0 [.get 0 "A1".toList, .look 0,
    .get 1 "A1".toList, .look 1, .cancel 0, .fetched 0 .panicked] rfl
  refine ⟨_, rfl, hanswers 0 0 ?_, (hwaits 1 "A1".toList 0 .panicked rfl).2⟩
  exact ⟨_, rfl, Or.inr ⟨_, rfl, Or.inl ⟨rfl, rfl, rfl⟩⟩⟩

end Dufaka
