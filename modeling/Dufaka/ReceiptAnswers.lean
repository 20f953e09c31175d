import Dufaka.ReceiptThrottle

/-!
# What the throttle answers

What one step does to the fetches and to the calls, and the invariant that files every entry under
the key its fetch was started for. An answer of `get` without an error is then the answer of a fetch
for its own key.
-/

namespace Dufaka

def Lead.key : Lead → Option Text
  | .unborn => none
  | .fetching sn | .ended sn _ | .finished sn _ => some sn

def Lead.outcome : Lead → Option FetchEnd
  | .ended _ r | .finished _ r => some r
  | .unborn | .fetching _ => none

def GetCall.key : GetCall → Option Text
  | .looping sn | .waiting sn _ | .leading sn _ => some sn
  | .idle | .returned .. => none

def GetCall.entry : GetCall → Option ℕ
  | .waiting _ e | .leading _ e => some e
  | .idle | .looping _ | .returned .. => none

namespace ReceiptThrottle
variable {t t' : ReceiptThrottle} {a : ReceiptAct} {sn : Text} {e c : ℕ} {r : FetchEnd}

inductive LeadsMove (t : ReceiptThrottle) : ReceiptAct → (ℕ → Lead) → ℕ → Prop
  | same {a : ReceiptAct} : LeadsMove t a t.leads t.next
  | started {c : ℕ} {sn : Text} (h : t.calls c = .looping sn) :
      LeadsMove t (.look c) (Function.update t.leads t.next (.fetching sn)) (t.next + 1)
  | ended {e : ℕ} {sn : Text} {r : FetchEnd} (h : t.leads e = .fetching sn) :
      LeadsMove t (.fetched e r) (Function.update t.leads e (.ended sn r)) t.next
  | finished {e : ℕ} {sn : Text} {r : FetchEnd} (h : t.leads e = .ended sn r) :
      LeadsMove t (.settle e) (Function.update t.leads e (.finished sn r)) t.next

/-- What one step that leaves the fetches as `leads` does to the calls. -/
inductive CallsMove (t : ReceiptThrottle) (leads : ℕ → Lead) : ReceiptAct → (ℕ → GetCall) → Prop
  | same {a : ReceiptAct} : CallsMove t leads a t.calls
  | began {c : ℕ} {sn : Text} (h : t.calls c = .idle) :
      CallsMove t leads (.get c sn) (Function.update t.calls c (.looping sn))
  | again {a : ReceiptAct} {c e : ℕ} {sn : Text} (h : t.calls c = .waiting sn e) :
      CallsMove t leads a (Function.update t.calls c (.looping sn))
  | waits {a : ReceiptAct} {c e : ℕ} {sn : Text} (h : t.calls c = .looping sn)
      (hlast : t.last.lookup sn = some e) : CallsMove t leads a
        (Function.update t.calls c (.waiting sn e))
  | leads {c : ℕ} {sn : Text} (h : t.calls c = .looping sn) (hlead : leads t.next = .fetching sn) :
      CallsMove t leads (.look c) (Function.update t.calls c (.leading sn t.next))
  | canceled {a : ReceiptAct} {c : ℕ} {sn : Text} {fetched : Bool} (h : (t.calls c).key = some sn) :
      CallsMove t leads a (Function.update t.calls c (.returned .zero fetched (some .ctx)))
  | answered {a : ReceiptAct} {c e : ℕ} {sn : Text} {fetched : Bool} (h : (t.calls c).key = some sn)
      (hentry : t.last.lookup sn = some e ∨ (t.calls c).entry = some e)
      (hidle : (t.heap e).inFlight = false) :
      CallsMove t leads a (Function.update t.calls c
        (.returned (t.heap e).item fetched ((t.heap e).err.map .wallet)))

theorem prune_parts (t : ReceiptThrottle) :
    t.prune.heap = t.heap ∧ t.prune.leads = t.leads ∧ t.prune.next = t.next ∧
      t.prune.calls = t.calls := by
  rw [prune]
  split <;> exact ⟨rfl, rfl, rfl, rfl⟩

theorem keep_parts (t : ReceiptThrottle) (e : ℕ) (sn : Text) (r : FetchEnd) :
    (t.keep e sn r).leads = t.leads ∧ (t.keep e sn r).calls = t.calls := by
  rw [keep]
  split
  · split
    · exact ⟨rfl, rfl⟩
    · obtain ⟨-, hleads, -, hcalls⟩ :=
        (t.setEntry e { t.heap e with answeredAt := t.now }).prune_parts
      exact ⟨hleads, hcalls⟩
  · exact ⟨rfl, rfl⟩

theorem look_moves (h : t.calls c = .looping sn) :
    t.LeadsMove (.look c) (t.look c sn).leads (t.look c sn).next ∧
      t.CallsMove (t.look c sn).leads (.look c) (t.look c sn).calls := by
  have hkey : (t.calls c).key = some sn := by rw [h, GetCall.key]
  rw [look]
  split
  case h_1 e hlast =>
    split
    case isTrue => exact ⟨.same, .waits h hlast⟩
    case isFalse hidle =>
      split
      case isTrue => exact ⟨.same, .answered hkey (Or.inl hlast) (Bool.eq_false_iff.mpr hidle)⟩
      case isFalse => exact ⟨.started h, .leads h (Function.update_self ..)⟩
  case h_2 => exact ⟨.started h, .leads h (Function.update_self ..)⟩

theorem settle_moves (h : t.leads e = .ended sn r) :
    t.LeadsMove (.settle e) (t.settle e sn r).leads (t.settle e sn r).next ∧
      (t.settle e sn r).calls = t.calls := by
  let u : ReceiptThrottle := t.setEntry e { t.heap e with item := r.item, err := r.err }
  obtain ⟨hleads, hcalls⟩ := u.keep_parts e sn r
  have hnext : (u.keep e sn r).next = t.next := keep_next
  have hl : (t.settle e sn r).leads = Function.update t.leads e (.finished sn r) := by
    change Function.update (u.keep e sn r).leads e (.finished sn r) = _
    rw [hleads]
    rfl
  refine ⟨?_, hcalls⟩
  rw [hl, show (t.settle e sn r).next = t.next from hnext]
  exact .finished h

theorem step_moves (h : t.step a = some t') :
    t.LeadsMove a t'.leads t'.next ∧ t.CallsMove t'.leads a t'.calls := by
  cases a with
  | tick n | forget sn =>
      obtain rfl := Option.some.inj h
      exact ⟨.same, .same⟩
  | prune =>
      obtain rfl := Option.some.inj h
      obtain ⟨-, hleads, hnext, hcalls⟩ := t.prune_parts
      rw [hleads, hnext, hcalls]
      exact ⟨.same, .same⟩
  | get c sn =>
      simp only [ReceiptThrottle.step] at h
      split at h
      case h_1 hidle =>
        obtain rfl := Option.some.inj h
        exact ⟨.same, .began hidle⟩
      case h_2 => cases h
  | cancel c =>
      simp only [ReceiptThrottle.step] at h
      split at h
      case h_4 => cases h
      all_goals
        rename_i hcall
        obtain rfl := Option.some.inj h
        exact ⟨.same, .canceled (by rw [hcall, GetCall.key])⟩
  | look c =>
      simp only [ReceiptThrottle.step] at h
      split at h
      case h_1 sn hcall =>
        obtain rfl := Option.some.inj h
        exact look_moves hcall
      case h_2 => cases h
  | wake c =>
      simp only [ReceiptThrottle.step] at h
      split at h
      case h_1 sn e hcall =>
        split at h
        · cases h
        · obtain rfl := Option.some.inj h
          exact ⟨.same, .again hcall⟩
      case h_2 sn e hcall =>
        split at h
        · cases h
        · rename_i hidle
          obtain rfl := Option.some.inj h
          have hkey : (t.calls c).key = some sn := by rw [hcall, GetCall.key]
          have hentry : (t.calls c).entry = some e := by rw [hcall, GetCall.entry]
          exact ⟨.same, .answered hkey (Or.inr hentry) (Bool.eq_false_iff.mpr hidle)⟩
      case h_3 => cases h
  | fetched e r =>
      simp only [ReceiptThrottle.step] at h
      split at h
      case h_1 sn hlead =>
        obtain rfl := Option.some.inj h
        exact ⟨.ended hlead, .same⟩
      case h_2 => cases h
  | settle e =>
      simp only [ReceiptThrottle.step] at h
      split at h
      case h_1 sn r hlead =>
        obtain rfl := Option.some.inj h
        obtain ⟨hleads, hcalls⟩ := settle_moves hlead
        rw [hcalls]
        exact ⟨hleads, .same⟩
      case h_2 => cases h

structure Filed (t : ReceiptThrottle) : Prop where
  unborn : ∀ e, t.next ≤ e → t.leads e = .unborn
  mapped : ∀ sn e, t.last.lookup sn = some e → (t.leads e).key = some sn
  called : ∀ c e, (t.calls c).entry = some e → (t.leads e).key = (t.calls c).key
  closed : ∀ e sn, (t.leads e).key = some sn → (t.heap e).inFlight = false →
    ∃ r, t.leads e = .finished sn r ∧ (t.heap e).item = r.item ∧ (t.heap e).err = r.err

theorem new_filed (now : ℤ) : (newReceiptThrottle now).Filed := by
  constructor
  · intro e he
    rfl
  · intro sn e he
    cases he
  · intro c e he
    cases he
  · intro e sn he
    cases he

/-- A fetch keeps its key. -/
theorem step_lead_key (hf : t.Filed) (h : t.step a = some t') (he : (t.leads e).key = some sn) :
    (t'.leads e).key = some sn := by
  obtain ⟨hmoves, -⟩ := step_moves h
  generalize t'.leads = leads at hmoves ⊢
  generalize t'.next = next at hmoves
  cases hmoves with
  | same => exact he
  | started =>
      have hne : e ≠ t.next := by
        rintro rfl
        rw [hf.unborn _ le_rfl] at he
        cases he
      rwa [Function.update_of_ne hne]
  | @ended e' sn' r hlead | @finished e' sn' r hlead =>
      by_cases hsame : e = e'
      · rw [hsame, hlead] at he
        rw [hsame, Function.update_self]
        exact he
      · rwa [Function.update_of_ne hsame]

/-- A new key is that of the call that started the fetch. -/
theorem step_lead_new (h : t.step a = some t') (he : (t'.leads e).key = some sn) :
    (t.leads e).key = some sn ∧ (t'.next = t.next ∨ e ≠ t.next) ∨
      ∃ c, a = .look c ∧ t.calls c = .looping sn ∧ e = t.next ∧ t'.next = t.next + 1 := by
  obtain ⟨hmoves, -⟩ := step_moves h
  generalize t'.leads = leads at hmoves he
  generalize t'.next = next at hmoves ⊢
  cases hmoves with
  | same => exact Or.inl ⟨he, Or.inl rfl⟩
  | started hcall =>
      by_cases hnew : e = t.next
      · rw [hnew, Function.update_self] at he
        obtain rfl := Option.some.inj he
        exact Or.inr ⟨_, rfl, hcall, hnew, rfl⟩
      · rw [Function.update_of_ne hnew] at he
        exact Or.inl ⟨he, Or.inr hnew⟩
  | @ended e' sn' r hlead | @finished e' sn' r hlead =>
      refine Or.inl ⟨?_, Or.inl rfl⟩
      by_cases hsame : e = e'
      · rw [hsame, Function.update_self] at he
        rw [hsame, hlead]
        exact he
      · rwa [Function.update_of_ne hsame] at he

/-- The outcome of a fetch is what the fetch returned. -/
theorem step_outcome (h : t.step a = some t') (he : (t'.leads e).outcome = some r) :
    (t.leads e).outcome = some r ∨ a = .fetched e r := by
  obtain ⟨hmoves, -⟩ := step_moves h
  generalize t'.leads = leads at hmoves he
  generalize t'.next = next at hmoves
  cases hmoves with
  | same => exact Or.inl he
  | started =>
      by_cases hnew : e = t.next
      · rw [hnew, Function.update_self] at he
        cases he
      · rw [Function.update_of_ne hnew] at he
        exact Or.inl he
  | @ended e' sn' r' hlead =>
      by_cases hsame : e = e'
      · rw [hsame, Function.update_self] at he
        rw [hsame, Option.some.inj he]
        exact Or.inr rfl
      · rw [Function.update_of_ne hsame] at he
        exact Or.inl he
  | @finished e' sn' r' hlead =>
      by_cases hsame : e = e'
      · rw [hsame, Function.update_self] at he
        rw [hsame, hlead]
        exact Or.inl he
      · rw [Function.update_of_ne hsame] at he
        exact Or.inl he

/-- A fetch that is over stays as it ended. -/
theorem step_finished (hf : t.Filed) (h : t.step a = some t') (he : t.leads e = .finished sn r) :
    t'.leads e = .finished sn r := by
  obtain ⟨hmoves, -⟩ := step_moves h
  generalize t'.leads = leads at hmoves ⊢
  generalize t'.next = next at hmoves
  cases hmoves with
  | same => exact he
  | started =>
      have hne : e ≠ t.next := by
        rintro rfl
        rw [hf.unborn _ le_rfl] at he
        cases he
      rwa [Function.update_of_ne hne]
  | @ended e' sn' r' hlead | @finished e' sn' r' hlead =>
      have hne : e ≠ e' := by
        rintro rfl
        rw [he] at hlead
        cases hlead
      rwa [Function.update_of_ne hne]

/-- A call waits for the key it was made with. -/
theorem step_call_key (h : t.step a = some t') (hc : (t'.calls c).key = some sn) :
    (t.calls c).key = some sn ∨ a = .get c sn := by
  obtain ⟨-, hmoves⟩ := step_moves h
  generalize t'.calls = calls at hmoves hc
  have hold : ∀ {c' : ℕ} {p : GetCall}, (Function.update t.calls c' p c).key = some sn →
      (t.calls c).key = some sn ∨ c = c' ∧ p.key = some sn := by
    intro c' p hk
    by_cases hsame : c = c'
    · rw [hsame, Function.update_self] at hk
      exact Or.inr ⟨hsame, hk⟩
    · rw [Function.update_of_ne hsame] at hk
      exact Or.inl hk
  cases hmoves with
  | same => exact Or.inl hc
  | began hidle =>
      rcases hold hc with hk | ⟨rfl, hk⟩
      · exact Or.inl hk
      · rw [Option.some.inj hk]
        exact Or.inr rfl
  | again hcall | waits hcall | leads hcall =>
      rcases hold hc with hk | ⟨rfl, hk⟩
      · exact Or.inl hk
      · rw [hcall]
        exact Or.inl hk
  | canceled | answered =>
      rcases hold hc with hk | ⟨-, hk⟩
      · exact Or.inl hk
      · cases hk

/-- An answer without an error is that of a fetch for the key of the call. -/
theorem step_answer (hf : t.Filed) (h : t.step a = some t') {item : Receipt} {fetched : Bool}
    (hc : t'.calls c = .returned item fetched none) :
    t.calls c = .returned item fetched none ∨
      ∃ sn e, (t.calls c).key = some sn ∧ t.leads e = .finished sn (.returned item none) := by
  obtain ⟨-, hmoves⟩ := step_moves h
  generalize t'.calls = calls at hmoves hc
  have hold : ∀ {c' : ℕ} {p : GetCall},
      Function.update t.calls c' p c = .returned item fetched none →
      t.calls c = .returned item fetched none ∨ c = c' ∧ p = .returned item fetched none := by
    intro c' p hp
    by_cases hsame : c = c'
    · rw [hsame, Function.update_self] at hp
      exact Or.inr ⟨hsame, hp⟩
    · rw [Function.update_of_ne hsame] at hp
      exact Or.inl hp
  cases hmoves with
  | same => exact Or.inl hc
  | began | again | waits | leads | canceled =>
      rcases hold hc with hp | ⟨-, hp⟩
      · exact Or.inl hp
      · cases hp
  | @answered a c' e sn f hkey hentry hidle =>
      rcases hold hc with hp | ⟨rfl, hp⟩
      · exact Or.inl hp
      · refine Or.inr ⟨sn, e, hkey, ?_⟩
        have hlead : (t.leads e).key = some sn := by
          rcases hentry with hlast | hentry
          · exact hf.mapped sn e hlast
          · rw [hf.called c e hentry, hkey]
        obtain ⟨r, hfinished, hitem, herr⟩ := hf.closed e sn hlead hidle
        obtain ⟨hi, -, he⟩ := GetCall.returned.inj hp
        cases r with
        | returned item' err' =>
            have herr' : err' = none := by
              rw [herr] at he
              exact Option.map_eq_none_iff.mp he
            have hitem' : item' = item := hitem.symm.trans hi
            rw [hfinished, hitem', herr']
        | panicked =>
            rw [herr] at he
            cases he

theorem prune_lookup (h : t.prune.last.lookup sn = some e) : t.last.lookup sn = some e := by
  rw [prune] at h
  split at h
  case isTrue => exact h
  case isFalse =>
    have hmem := AList.mem_lookup_iff.mp h
    exact AList.mem_lookup_iff.mpr (List.mem_filter.mp hmem).1

theorem forget_lookup {sn' : Text} (h : (t.forget sn').last.lookup sn = some e) :
    t.last.lookup sn = some e := by
  have herase : (t.last.erase sn').lookup sn = some e := h
  by_cases hsame : sn = sn'
  · rw [hsame, AList.lookup_erase] at herase
    cases herase
  · rwa [AList.lookup_erase_ne hsame] at herase

theorem keep_lookup {e' : ℕ} {sn' : Text} (h : (t.keep e' sn' r).last.lookup sn = some e) :
    t.last.lookup sn = some e := by
  rw [keep] at h
  split at h
  · split at h
    · exact forget_lookup h
    · exact prune_lookup (t := t.setEntry e' { t.heap e' with answeredAt := t.now }) h
  · exact h

/-- The bookkeeping of `lead` changes nothing of an entry but its time. -/
theorem keep_entry (t : ReceiptThrottle) (e e' : ℕ) (sn : Text) (r : FetchEnd) :
    ((t.keep e' sn r).heap e).inFlight = (t.heap e).inFlight ∧
      ((t.keep e' sn r).heap e).item = (t.heap e).item ∧
      ((t.keep e' sn r).heap e).err = (t.heap e).err := by
  rw [keep]
  split
  · split
    · exact ⟨rfl, rfl, rfl⟩
    · obtain ⟨hheap, -⟩ := (t.setEntry e' { t.heap e' with answeredAt := t.now }).prune_parts
      rw [hheap]
      change (Function.update t.heap e' _ e).inFlight = _ ∧
        (Function.update t.heap e' _ e).item = _ ∧ (Function.update t.heap e' _ e).err = _
      by_cases hsame : e = e'
      · rw [hsame, Function.update_self]
        exact ⟨rfl, rfl, rfl⟩
      · rw [Function.update_of_ne hsame]
        exact ⟨rfl, rfl, rfl⟩
  · exact ⟨rfl, rfl, rfl⟩

theorem look_lookup {sn' : Text} (h : (t.look c sn').last.lookup sn = some e) :
    t.last.lookup sn = some e ∨ (t.look c sn').leads e = .fetching sn := by
  have hstart : (t.startFetch c sn').last.lookup sn = some e →
      t.last.lookup sn = some e ∨ (t.startFetch c sn').leads e = .fetching sn := by
    intro hl
    have hinsert : (t.last.insert sn' t.next).lookup sn = some e := hl
    by_cases hsame : sn = sn'
    · rw [hsame, AList.lookup_insert] at hinsert
      rw [← Option.some.inj hinsert, hsame]
      exact Or.inr (Function.update_self ..)
    · rw [AList.lookup_insert_ne hsame] at hinsert
      exact Or.inl hinsert
  revert h
  rw [look]
  split
  · split
    · exact Or.inl
    · split
      · exact Or.inl
      · exact hstart
  · exact hstart

/-- The map only gains the entry of a fetch that starts. -/
theorem step_lookup (h : t.step a = some t') (he : t'.last.lookup sn = some e) :
    t.last.lookup sn = some e ∨ t'.leads e = .fetching sn := by
  cases a with
  | tick n =>
      obtain rfl := Option.some.inj h
      exact Or.inl he
  | prune =>
      obtain rfl := Option.some.inj h
      exact Or.inl (prune_lookup he)
  | forget sn' =>
      obtain rfl := Option.some.inj h
      exact Or.inl (forget_lookup he)
  | look c =>
      simp only [ReceiptThrottle.step] at h
      split at h
      · obtain rfl := Option.some.inj h
        exact look_lookup he
      · cases h
  | settle e' =>
      simp only [ReceiptThrottle.step] at h
      split at h
      case h_1 sn' r hlead =>
        obtain rfl := Option.some.inj h
        have hkeep : ((t.setEntry e' { t.heap e' with item := r.item, err := r.err }).keep e' sn'
            r).last.lookup sn = some e := he
        have hlookup := keep_lookup hkeep
        exact Or.inl hlookup
      case h_2 => cases h
  | get c sn' | cancel c | fetched e' r =>
      simp only [ReceiptThrottle.step] at h
      split at h
      all_goals first
        | obtain rfl := Option.some.inj h
          exact Or.inl he
        | cases h
  | wake c =>
      simp only [ReceiptThrottle.step] at h
      split at h
      case h_3 => cases h
      all_goals
        split at h
        · cases h
        · obtain rfl := Option.some.inj h
          exact Or.inl he

/-- Where neither a fetch nor an entry changes, a closed entry stays as it was. -/
theorem Filed.closed_of_eq (hf : t.Filed) (hlead : t'.leads e = t.leads e)
    (hflight : (t'.heap e).inFlight = (t.heap e).inFlight)
    (hitem : (t'.heap e).item = (t.heap e).item) (herr : (t'.heap e).err = (t.heap e).err)
    (hkey : (t'.leads e).key = some sn) (hidle : (t'.heap e).inFlight = false) :
    ∃ r, t'.leads e = .finished sn r ∧ (t'.heap e).item = r.item ∧ (t'.heap e).err = r.err := by
  rw [hlead, hitem, herr]
  rw [hlead] at hkey
  rw [hflight] at hidle
  exact hf.closed e sn hkey hidle

theorem Filed.startFetch_closed (hf : t.Filed) {sn' : Text}
    (hkey : ((t.startFetch c sn').leads e).key = some sn)
    (hidle : ((t.startFetch c sn').heap e).inFlight = false) :
    ∃ r, (t.startFetch c sn').leads e = .finished sn r ∧
      ((t.startFetch c sn').heap e).item = r.item ∧ ((t.startFetch c sn').heap e).err = r.err := by
  have hheap : (t.startFetch c sn').heap = Function.update t.heap t.next ⟨true, 0, .zero, none⟩ :=
    rfl
  have hleads : (t.startFetch c sn').leads = Function.update t.leads t.next (.fetching sn') := rfl
  by_cases hnew : e = t.next
  · rw [hheap, hnew, Function.update_self] at hidle
    cases hidle
  · have hentry : (t.startFetch c sn').heap e = t.heap e := by
      rw [hheap, Function.update_of_ne hnew]
    have hlead : (t.startFetch c sn').leads e = t.leads e := by
      rw [hleads, Function.update_of_ne hnew]
    exact hf.closed_of_eq hlead (by rw [hentry]) (by rw [hentry]) (by rw [hentry]) hkey hidle

theorem Filed.settle_closed (hf : t.Filed) {e' : ℕ} {sn' : Text}
    (hended : t.leads e' = .ended sn' r) (hkey : ((t.settle e' sn' r).leads e).key = some sn)
    (hidle : ((t.settle e' sn' r).heap e).inFlight = false) :
    ∃ r', (t.settle e' sn' r).leads e = .finished sn r' ∧
      ((t.settle e' sn' r).heap e).item = r'.item ∧ ((t.settle e' sn' r).heap e).err = r'.err := by
  let u : ReceiptThrottle := t.setEntry e' { t.heap e' with item := r.item, err := r.err }
  obtain ⟨hflight, hitem, herr⟩ := u.keep_entry e e' sn' r
  have hleads : (t.settle e' sn' r).leads = Function.update t.leads e' (.finished sn' r) := by
    change Function.update (u.keep e' sn' r).leads e' _ = _
    rw [(u.keep_parts e' sn' r).1]
    rfl
  have hheap : (t.settle e' sn' r).heap =
      Function.update (u.keep e' sn' r).heap e'
      { (u.keep e' sn' r).heap e' with inFlight := false } :=
    rfl
  by_cases hsame : e = e'
  · subst hsame
    have hentry : u.heap e = { t.heap e with item := r.item, err := r.err } :=
      Function.update_self ..
    rw [hleads, Function.update_self] at hkey ⊢
    rw [hheap, Function.update_self]
    obtain rfl := Option.some.inj hkey
    refine ⟨r, rfl, ?_, ?_⟩
    · change ((u.keep e sn' r).heap e).item = r.item
      rw [hitem, hentry]
    · change ((u.keep e sn' r).heap e).err = r.err
      rw [herr, hentry]
  · have hentry : u.heap e = t.heap e := Function.update_of_ne hsame ..
    have hlead : (t.settle e' sn' r).leads e = t.leads e := by
      rw [hleads, Function.update_of_ne hsame]
    have hother : (t.settle e' sn' r).heap e = (u.keep e' sn' r).heap e := by
      rw [hheap, Function.update_of_ne hsame]
    refine hf.closed_of_eq hlead ?_ ?_ ?_ hkey hidle
    · rw [hother, hflight, hentry]
    · rw [hother, hitem, hentry]
    · rw [hother, herr, hentry]

theorem Filed.look_closed (hf : t.Filed) {sn' : Text}
    (hkey : ((t.look c sn').leads e).key = some sn)
    (hidle : ((t.look c sn').heap e).inFlight = false) :
    ∃ r, (t.look c sn').leads e = .finished sn r ∧
      ((t.look c sn').heap e).item = r.item ∧ ((t.look c sn').heap e).err = r.err := by
  revert hkey hidle
  rw [look]
  split
  · split
    · exact hf.closed e sn
    · split
      · exact hf.closed e sn
      · exact hf.startFetch_closed
  · exact hf.startFetch_closed

theorem Filed.step_closed (hf : t.Filed) (h : t.step a = some t')
    (hkey : (t'.leads e).key = some sn) (hidle : (t'.heap e).inFlight = false) :
    ∃ r, t'.leads e = .finished sn r ∧ (t'.heap e).item = r.item ∧ (t'.heap e).err = r.err := by
  cases a with
  | tick n | forget sn' =>
      obtain rfl := Option.some.inj h
      exact hf.closed e sn hkey hidle
  | prune =>
      obtain rfl := Option.some.inj h
      obtain ⟨hheap, hleads, -, -⟩ := t.prune_parts
      rw [hleads] at hkey ⊢
      rw [hheap] at hidle ⊢
      exact hf.closed e sn hkey hidle
  | look c =>
      simp only [ReceiptThrottle.step] at h
      split at h
      · obtain rfl := Option.some.inj h
        exact hf.look_closed hkey hidle
      · cases h
  | settle e' =>
      simp only [ReceiptThrottle.step] at h
      split at h
      case h_1 sn' r hended =>
        obtain rfl := Option.some.inj h
        exact hf.settle_closed hended hkey hidle
      case h_2 => cases h
  | fetched e' r =>
      simp only [ReceiptThrottle.step] at h
      split at h
      case h_1 sn' hfetching =>
        obtain rfl := Option.some.inj h
        by_cases hsame : e = e'
        · -- an entry whose fetch runs is not closed
          subst hsame
          have hkey' : (t.leads e).key = some sn' := by rw [hfetching, Lead.key]
          obtain ⟨r', hfinished, -⟩ := hf.closed e sn' hkey' hidle
          rw [hfetching] at hfinished
          cases hfinished
        · have hlead : (t.setLead e' (.ended sn' r)).leads e = t.leads e :=
            Function.update_of_ne hsame ..
          exact hf.closed_of_eq hlead rfl rfl rfl hkey hidle
      case h_2 => cases h
  | get c sn' | cancel c =>
      simp only [ReceiptThrottle.step] at h
      split at h
      all_goals first
        | obtain rfl := Option.some.inj h
          exact hf.closed e sn hkey hidle
        | cases h
  | wake c =>
      simp only [ReceiptThrottle.step] at h
      split at h
      case h_3 => cases h
      all_goals
        split at h
        · cases h
        · obtain rfl := Option.some.inj h
          exact hf.closed e sn hkey hidle

theorem Filed.step_called (hf : t.Filed) (h : t.step a = some t')
    (he : (t'.calls c).entry = some e) : (t'.leads e).key = (t'.calls c).key := by
  -- the fetches keep their keys, so that only the calls that move matter
  have hstay : ∀ {e k}, (t.leads e).key = some k → (t'.leads e).key = some k :=
    fun hk => step_lead_key hf h hk
  have hwaits : ∀ {p : GetCall} {e : ℕ}, p.entry = some e → ∃ k, p.key = some k := by
    intro p e hp
    cases p with
    | waiting sn e | leading sn e => exact ⟨sn, rfl⟩
    | _ => cases hp
  have hold : (t.calls c).entry = some e → (t'.leads e).key = (t.calls c).key := by
    intro hentry
    obtain ⟨k, hk⟩ := hwaits hentry
    rw [hk]
    exact hstay (by rw [hf.called c e hentry, hk])
  obtain ⟨-, hcalls⟩ := step_moves h
  generalize t'.calls = calls at hcalls he ⊢
  cases hcalls with
  | same => exact hold he
  | @waits a c' e' sn hcall hlast =>
      by_cases hsame : c = c'
      · rw [hsame, Function.update_self] at he ⊢
        obtain rfl := Option.some.inj he
        exact hstay (hf.mapped sn e' hlast)
      · rw [Function.update_of_ne hsame] at he ⊢
        exact hold he
  | @leads c' sn hcall hlead =>
      by_cases hsame : c = c'
      · rw [hsame, Function.update_self] at he ⊢
        obtain rfl := Option.some.inj he
        rw [hlead]
        rfl
      · rw [Function.update_of_ne hsame] at he ⊢
        exact hold he
  | @began c' | @again a c' | @canceled a c' | @answered a c' =>
      by_cases hsame : c = c'
      · rw [hsame, Function.update_self] at he
        cases he
      · rw [Function.update_of_ne hsame] at he ⊢
        exact hold he

theorem Filed.step (hf : t.Filed) (h : t.step a = some t') : t'.Filed where
  unborn e he := by
    obtain ⟨hleads, -⟩ := step_moves h
    generalize t'.leads = leads at hleads ⊢
    generalize t'.next = next at hleads he
    cases hleads with
    | same => exact hf.unborn e he
    | started =>
        have hne : e ≠ t.next := by omega
        rw [Function.update_of_ne hne]
        exact hf.unborn e (by omega)
    | @ended e' sn r hlead | @finished e' sn r hlead =>
        have hne : e ≠ e' := by
          rintro rfl
          rw [hf.unborn e he] at hlead
          cases hlead
        rw [Function.update_of_ne hne]
        exact hf.unborn e he
  mapped sn e he := by
    rcases step_lookup h he with hlast | hlead
    · exact step_lead_key hf h (hf.mapped sn e hlast)
    · rw [hlead, Lead.key]
  called c e he := hf.step_called h he
  closed e sn hkey hidle := hf.step_closed h hkey hidle

def Reported (t : ReceiptThrottle) (sn : Text) (item : Receipt) : Prop :=
  ∃ e, t.leads e = .finished sn (.returned item none)

theorem Reported.step {item : Receipt} (h : t.Reported sn item) (hf : t.Filed)
    (hstep : t.step a = some t') : t'.Reported sn item := by
  obtain ⟨e, he⟩ := h
  exact ⟨e, step_finished hf hstep he⟩

end ReceiptThrottle
end Dufaka
