import Dufaka.Lines
import Dufaka.Payment
import Dufaka.Stock

/-!
# Imported cards

An import box holds one card a line, whatever ends the lines. The parser keeps the lines that are
not blank, without the space around them, and drops later copies when it is asked to; what it keeps
goes into the table as one unsold card each. No card holds a line break, so the cards of a delivery
can be read back from the information of its order.
-/

namespace Dufaka
open Relational Tx Text

/-! ### First copies -/

section FirstCopies
variable {α : Type*} [DecidableEq α]

/-- The elements of a list that do not stand in front of themselves. -/
def firstCopies (l : List α) : List α :=
  (l.zipIdx.filter (fun p => p.1 ∉ l.take p.2)).map Prod.fst

theorem firstCopies_snoc (l : List α) (a : α) :
    firstCopies (l ++ [a]) = firstCopies l ++ if a ∈ l then [] else [a] := by
  have hbefore : l.zipIdx.filter (fun p => p.1 ∉ (l ++ [a]).take p.2) =
      l.zipIdx.filter (fun p => p.1 ∉ l.take p.2) := by
    apply List.filter_congr
    intro p hp
    have hle : p.2 ≤ l.length := Nat.le_of_lt (List.snd_lt_of_mem_zipIdx hp)
    rw [List.take_append_of_le_length hle]
  rw [firstCopies, List.zipIdx_append, List.filter_append, hbefore, List.map_append, firstCopies]
  congr 1
  by_cases ha : a ∈ l
  · simp [ha]
  · simp [ha]

theorem eraseDups_eq_firstCopies [BEq α] [LawfulBEq α] (l : List α) :
    l.eraseDups = firstCopies l := by
  induction l using List.reverseRecOn with
  | nil => rfl
  | append_singleton l a ih =>
      rw [List.eraseDups_append, ih, firstCopies_snoc]
      congr 1
      by_cases ha : a ∈ l
      · simp [List.removeAll, ha]
      · simp [List.removeAll, ha, List.eraseDups_cons]

theorem firstCopies_sublist (l : List α) : (firstCopies l).Sublist l := by
  have hfilter : (l.zipIdx.filter (fun p => p.1 ∉ l.take p.2)).Sublist l.zipIdx :=
    List.filter_sublist
  have hmap := hfilter.map Prod.fst
  rwa [List.zipIdx_map_fst] at hmap

theorem mem_firstCopies {l : List α} {a : α} : a ∈ firstCopies l ↔ a ∈ l := by
  constructor
  · exact fun h => (firstCopies_sublist l).subset h
  · intro h
    induction l using List.reverseRecOn with
    | nil => cases h
    | append_singleton l b ih =>
        rw [firstCopies_snoc]
        by_cases ha : a ∈ l
        · exact List.mem_append_left _ (ih ha)
        · have hab : a = b := by simpa [ha] using h
          subst hab
          rw [if_neg ha]
          exact List.mem_append_right _ (List.mem_singleton.mpr rfl)

theorem firstCopies_nodup (l : List α) : (firstCopies l).Nodup := by
  induction l using List.reverseRecOn with
  | nil => exact List.nodup_nil
  | append_singleton l a ih =>
      rw [firstCopies_snoc]
      by_cases ha : a ∈ l
      · rwa [if_pos ha, List.append_nil]
      · rw [if_neg ha]
        apply ih.append (List.nodup_singleton a)
        rw [List.disjoint_singleton]
        exact fun h => ha (mem_firstCopies.mp h)

theorem firstCopies_of_nodup {l : List α} (h : l.Nodup) : firstCopies l = l := by
  induction l using List.reverseRecOn with
  | nil => rfl
  | append_singleton l a ih =>
      rw [List.nodup_append] at h
      have ha : a ∉ l := fun ha => h.2.2 a ha a (by simp) rfl
      rw [firstCopies_snoc, ih h.1, if_neg ha]

end FirstCopies

/-! ### The parser -/

def cardLines (ls : List Text) : List Text := (ls.map trimSpace).filter (fun l => l ≠ [])

def keptCards (dedupe : Bool) (ls : List Text) : List Text := if dedupe then firstCopies ls else ls

def cardLine (dedupe : Bool) (st : List Text × List Text) (line : Text) :
    Except Text (List Text × List Text) :=
  let line := line.trimSpace
  if line = [] then .ok st
  else if runeLen line > 10000 then .error "单条卡密过长".toList
  else if dedupe then
    if line ∈ st.2 then .ok st else .ok (st.1 ++ [line], line :: st.2)
  else .ok (st.1 ++ [line], st.2)

def parseCardsLoop (text : Text) (dedupe : Bool) : Except Text (List Text) := do
  let st ← (split '\n' (replaceCR (replaceCRLF text))).foldlM (cardLine dedupe) ([], [])
  if st.1 = [] then .error "请填写需要导入的卡密".toList
  else if st.1.length > 5000 then .error "一次最多导入 5000 条".toList
  else .ok st.1

section Parser
variable {dedupe : Bool} {text : Text} {cards ls : List Text}

theorem cardLines_snoc (ls : List Text) (line : Text) :
    cardLines (ls ++ [line]) = cardLines ls ++ if line.trimSpace = [] then []
      else [line.trimSpace] := by
  rw [cardLines, List.map_append, List.filter_append, cardLines]
  congr 1
  by_cases hline : line.trimSpace = []
  · simp [hline]
  · simp [hline]

theorem keptCards_snoc (ls : List Text) (l : Text) :
    keptCards dedupe (ls ++ [l]) =
      keptCards dedupe ls ++ if dedupe = true ∧ l ∈ ls then [] else [l] := by
  cases dedupe with
  | true => simp [keptCards, firstCopies_snoc]
  | false => simp [keptCards]

/-- The state of the loop after some lines: it remembers the cards it kept, newest first. -/
def cardState (dedupe : Bool) (ls : List Text) : List Text × List Text :=
  (keptCards dedupe (cardLines ls),
    if dedupe then (keptCards dedupe (cardLines ls)).reverse else [])

theorem mem_keptCards {l : Text} : l ∈ keptCards dedupe ls ↔ l ∈ ls := by
  cases dedupe with
  | true => exact mem_firstCopies
  | false => exact Iff.rfl

theorem cardLine_cardState (ls : List Text) (line : Text) :
    cardLine dedupe (cardState dedupe ls) line =
    if runeLen line.trimSpace > 10000 then .error "单条卡密过长".toList
    else .ok (cardState dedupe (ls ++ [line])) := by
  rw [cardLine]
  by_cases hblank : line.trimSpace = []
  · have hshort : ¬ runeLen line.trimSpace > 10000 := by
      rw [hblank]
      decide
    rw [if_pos hblank, if_neg hshort, cardState, cardState, cardLines_snoc, if_pos hblank,
      List.append_nil]
  · rw [if_neg hblank]
    by_cases hlong : runeLen line.trimSpace > 10000
    · rw [if_pos hlong, if_pos hlong]
    · rw [if_neg hlong, if_neg hlong, cardState, cardState, cardLines_snoc, if_neg hblank,
        keptCards_snoc]
      cases dedupe with
      | false => simp
      | true =>
          by_cases hseen : line.trimSpace ∈ cardLines ls
          · simp [hseen, mem_keptCards]
          · simp [hseen, mem_keptCards]

/-- The loop fails at a line that is too long, and else ends in the state of all its lines. -/
theorem foldlM_cardLine (ls : List Text) : ls.foldlM (cardLine dedupe) ([], []) =
    if (cardLines ls).any (fun l => runeLen l > 10000) then .error "单条卡密过长".toList
    else .ok (cardState dedupe ls) := by
  induction ls using List.reverseRecOn with
  | nil =>
      cases dedupe with
      | true => rfl
      | false => rfl
  | append_singleton ls line ih =>
      have hany : (cardLines (ls ++ [line])).any (fun l => runeLen l > 10000) =
          ((cardLines ls).any (fun l => runeLen l > 10000) || runeLen line.trimSpace > 10000) := by
        rw [cardLines_snoc, List.any_append]
        congr 1
        by_cases hblank : line.trimSpace = []
        · rw [if_pos hblank, hblank]
          rfl
        · simp [hblank]
      rw [List.foldlM_append, ih, hany]
      by_cases hlong : (cardLines ls).any (fun l => runeLen l > 10000) = true
      · rw [hlong]
        rfl
      · rw [if_neg hlong, Bool.eq_false_iff.mpr hlong, Bool.false_or]
        change (cardLine dedupe (cardState dedupe ls) line >>= pure) = _
        rw [bind_pure, cardLine_cardState]
        simp only [decide_eq_true_eq]

theorem keptCards_eq (ls : List Text) :
    (if dedupe then ls.eraseDups else ls) = keptCards dedupe ls := by
  cases dedupe with
  | true =>
      rw [if_pos rfl]
      exact eraseDups_eq_firstCopies ls
  | false => rfl

theorem parseCards_eq (text : Text) (dedupe : Bool) : parseCards text dedupe =
    if (cardLines (lines text)).any (fun l => runeLen l > 10000) then .error "单条卡密过长".toList
    else if keptCards dedupe (cardLines (lines text)) = [] then .error "请填写需要导入的卡密".toList
    else if (keptCards dedupe (cardLines (lines text))).length > 5000 then
      .error "一次最多导入 5000 条".toList
    else .ok (keptCards dedupe (cardLines (lines text))) := by
  rw [parseCards, split_replaceCR]
  simp only [keptCards_eq]
  rfl

/-- The loop computes what the model of the parser says. -/
theorem parseCardsLoop_eq (text : Text) (dedupe : Bool) :
    parseCardsLoop text dedupe = parseCards text dedupe := by
  rw [parseCardsLoop, split_replaceCR, foldlM_cardLine, parseCards_eq]
  by_cases hlong : (cardLines (lines text)).any (fun l => runeLen l > 10000) = true
  · rw [if_pos hlong, if_pos hlong]
    rfl
  · rw [if_neg hlong, if_neg hlong]
    rfl

/-! ### What the parser returns -/

theorem parseCards_ok (h : parseCards text dedupe = .ok cards) :
    cards = keptCards dedupe (cardLines (lines text)) ∧ cards ≠ [] ∧ cards.length ≤ 5000 ∧
      ∀ l ∈ cards, runeLen l ≤ 10000 := by
  rw [parseCards_eq] at h
  split_ifs at h with hlong hnil hmany
  obtain rfl := Except.ok.inj h
  refine ⟨rfl, hnil, not_lt.mp hmany, ?_⟩
  intro l hl
  rw [Bool.not_eq_true, List.any_eq_false] at hlong
  simpa using hlong l (mem_keptCards.mp hl)

theorem mem_cardLines {l : Text} (h : l ∈ cardLines ls) :
    l ≠ [] ∧ l.trimSpace = l ∧ ∃ line ∈ ls, l = line.trimSpace := by
  obtain ⟨hl, hne⟩ := List.mem_filter.mp h
  obtain ⟨line, hline, rfl⟩ := List.mem_map.mp hl
  exact ⟨by simpa using hne, trimSpace_trimSpace line, line, hline, rfl⟩

/-- A card is not blank, has no space around it and no line break in it. -/
theorem parseCards_clean (h : parseCards text dedupe = .ok cards) :
    ∀ l ∈ cards, l ≠ [] ∧ l.trimSpace = l ∧ OneLine l := by
  obtain ⟨rfl, -⟩ := parseCards_ok h
  intro l hl
  obtain ⟨hne, htrim, line, hline, rfl⟩ := mem_cardLines (mem_keptCards.mp hl)
  refine ⟨hne, htrim, ?_⟩
  intro c hc
  exact oneLine_of_mem_lines text line hline c (mem_of_mem_trimSpace hc)

theorem cardLines_of_clean (h : ∀ l ∈ ls, l ≠ [] ∧ l.trimSpace = l) : cardLines ls = ls := by
  have hmap : ls.map trimSpace = ls := by
    conv_rhs => rw [← List.map_id ls]
    exact List.map_congr_left (fun l hl => (h l hl).2)
  rw [cardLines, hmap, List.filter_eq_self]
  intro l hl
  simpa using (h l hl).1

theorem keptCards_keptCards (ls : List Text) :
    keptCards dedupe (keptCards dedupe ls) = keptCards dedupe ls := by
  cases dedupe with
  | true => exact firstCopies_of_nodup (firstCopies_nodup ls)
  | false => rfl

/-- The parser returns what it is given when it reads its own cards again. -/
theorem parseCards_join (h : parseCards text dedupe = .ok cards) (nl : LineEnd) :
    parseCards (join nl.text cards) dedupe = .ok cards := by
  have hclean := parseCards_clean h
  obtain ⟨hcards, hne, hmany, hlong⟩ := parseCards_ok h
  have hlines : lines (join nl.text cards) = cards :=
    lines_join nl hne (fun l hl => ⟨(hclean l hl).1, (hclean l hl).2.2⟩)
  have hkept : keptCards dedupe cards = cards := by
    rw [hcards, keptCards_keptCards]
  have hsame : cardLines cards = cards :=
    cardLines_of_clean (fun l hl => ⟨(hclean l hl).1, (hclean l hl).2.1⟩)
  have hany : cards.any (fun l => runeLen l > 10000) = false := by
    rw [List.any_eq_false]
    intro l hl
    simpa using hlong l hl
  rw [parseCards_eq, hlines, hsame, hany, hkept, if_neg Bool.false_ne_true, if_neg hne,
    if_neg (not_lt.mpr hmany)]

end Parser

/-! ### The rows of an import -/

def DB.Imported (d : DB) (row : Text → Carmi) (cards : List Text) (d' : DB) : Prop :=
  ∃ news : List ℕ, news.Nodup ∧ news.length = cards.length ∧ (∀ i ∈ news, d.carmis.get? i = none) ∧
    (∃ carmis, d' = { d with carmis := carmis }) ∧
    (∀ i, i ∉ news → d'.carmis.get? i = d.carmis.get? i) ∧
    ∀ e ∈ news.zip cards, d'.carmis.get? e.1 = some (row e.2)

def importedRow (goodsId loop : ℤ) (card : Text) : Carmi :=
  ⟨goodsId.toNat, .unsold, loop, card, none, false⟩

section Import
variable {ids ids' : ℕ → ℕ} {d d' : DB} {goodsId loop : ℤ} {cards : List Text} {n : ℕ}

def Script.importCard (goodsId loop : ℤ) (card : Text) : Script Unit := do
  let _ ← Tx.insert Key.carmi (fun _ => importedRow goodsId loop card) pure
  foreignKey (.goods goodsId.toNat)

theorem importCard_returns {card : Text} {u : Unit}
    (h : (Script.importCard goodsId loop card).returns ids d u ids' d') :
    d.carmis.get? (ids 0) = none ∧
      d' = { d with carmis := d.carmis.put (ids 0) (importedRow goodsId loop card) } := by
  simp only [Script.importCard, returns_bind, Script.returns_foreignKey] at h
  obtain ⟨m, _, _, hinsert, -, rfl, rfl⟩ := h
  obtain ⟨hfresh, rfl, -, rfl⟩ := returns_insert.mp hinsert
  exact ⟨hfresh, rfl⟩

theorem forEach_importCard {u : Unit}
    (h : (forEach cards (Script.importCard goodsId loop)).returns ids d u ids' d') :
    d.Imported (importedRow goodsId loop) cards d' := by
  induction cards generalizing ids d with
  | nil =>
      obtain ⟨-, rfl⟩ := returns_nil.mp h
      exact ⟨[], List.nodup_nil, rfl, by simp, ⟨d.carmis, rfl⟩, fun _ _ => rfl, by simp⟩
  | cons card cards ih =>
      obtain ⟨ids₁, d₁, hcard, hrest⟩ := returns_cons.mp h
      obtain ⟨hfresh, rfl⟩ := importCard_returns hcard
      obtain ⟨news, hnodup, hlen, hnew, ⟨carmis, hd'⟩, hold, hrows⟩ := ih hrest
      have hput : ∀ i, (d.carmis.put (ids 0) (importedRow goodsId loop card)).get? i =
          if i = ids 0 then some (importedRow goodsId loop card) else d.carmis.get? i := by
        intro i
        rw [Table.get?_put]
      have hfirst : ids 0 ∉ news := by
        intro hmem
        have hnone := hnew _ hmem
        rw [hput, if_pos rfl] at hnone
        cases hnone
      refine ⟨ids 0 :: news, List.nodup_cons.mpr ⟨hfirst, hnodup⟩, by simp [hlen], ?_,
        ⟨carmis, hd'⟩, ?_, ?_⟩
      · intro i hi
        rcases List.mem_cons.mp hi with rfl | hi
        · exact hfresh
        · have hnone := hnew i hi
          rwa [hput, if_neg (ne_of_mem_of_not_mem hi hfirst)] at hnone
      · intro i hi
        rw [List.mem_cons, not_or] at hi
        rw [hold i hi.2, hput, if_neg hi.1]
      · intro e he
        rcases List.mem_cons.mp he with rfl | he
        · rw [hold _ hfirst, hput, if_pos rfl]
        · exact hrows e he

/-- A committed import wrote one unsold row for each card of the text. -/
theorem carmisImport_imports {f : ImportForm} {r : Reply}
    (h : (carmisImport f).commits ids d r d') :
    r = .ok ∧ ∃ cards, parseCards f.carmisList f.removeDuplication = .ok cards ∧
      d.Imported (importedRow (mustInt f.goodsId 0) (mustInt f.isLoop 0)) cards d' := by
  simp only [carmisImport, commits_bind, commits_read, Script.commits_orRefuse,
    Script.commits_require, commits_commit, false_or, returns_read, Script.returns_orRefuse,
    Script.returns_require, and_assoc, exists_and_left, exists_eq_left', exists_const] at h
  obtain ⟨cards, hcards, -, -, h⟩ := h
  rcases h with h | ⟨_, _, _, hloop, hr, rfl⟩
  · refine absurd h (not_commits_forEach (fun card ids d r d' => ?_) _)
    simp [commits_bind]
  · exact ⟨hr.symm, cards, hcards, forEach_importCard hloop⟩

/-- Only a commit is answered with success. -/
theorem carmisImport_ends {f : ImportForm} :
    (carmisImport f).ends (fun committed r => r = .ok → committed = true) := by
  have hrefuse : (Script.orRefuse (parseCards f.carmisList f.removeDuplication)).ends
      (fun committed r => r = .ok → committed = true) := by
    cases parseCards f.carmisList f.removeDuplication with
    | ok cards => trivial
    | error msg => exact nofun
  unfold carmisImport
  refine ends_bind hrefuse (fun cards => ?_)
  refine ends_bind (Script.ends_require nofun) (fun _ => ?_)
  refine ends_bind Script.ends_read (fun auto => ?_)
  refine ends_bind (Script.ends_require nofun) (fun _ => ?_)
  refine ends_bind (ends_forEach (fun card _ => ?_)) (fun _ _ => rfl)
  refine ends_bind (fun _ => trivial) (fun _ => ?_)
  exact ends_bind Script.ends_lockRow (fun _ => Script.ends_require nofun)

/-- An import adds every card of the text, or none when it fails, whichever statement that is. -/
theorem carmisImport_all_or_none {f : ImportForm} {r : Option Reply}
    (h : (carmisImport f).execFor n ids d = (d', r)) :
    (r = some .ok ∧ ∃ cards, parseCards f.carmisList f.removeDuplication = .ok cards ∧
      d.Imported (importedRow (mustInt f.goodsId 0) (mustInt f.isLoop 0)) cards d') ∨
    (r ≠ some .ok ∧ d' = d) := by
  rcases execFor_cases carmisImport_ends n ids d with ⟨reply, d₁, hc, he⟩ | ⟨reply, hend, he⟩ | he
  · rw [h] at he
    obtain ⟨rfl, rfl⟩ := Prod.mk.inj he
    obtain ⟨rfl, hcards⟩ := carmisImport_imports hc
    exact Or.inl ⟨rfl, hcards⟩
  · rw [h] at he
    obtain ⟨rfl, rfl⟩ := Prod.mk.inj he
    refine Or.inr ⟨fun hok => ?_, rfl⟩
    exact Bool.false_ne_true (hend (Option.some.inj hok))
  · rw [h] at he
    obtain ⟨rfl, rfl⟩ := Prod.mk.inj he
    exact Or.inr ⟨nofun, rfl⟩

end Import

/-! ### Cards that nobody edits -/

def KeepsText (i : ℕ) (t t' : Table Carmi) : Prop :=
  ∀ c, t.get? i = some c → ∃ c', t'.get? i = some c' ∧ c'.carmi = c.carmi

theorem KeepsText.refl (i : ℕ) (t : Table Carmi) : KeepsText i t t := fun c hc => ⟨c, hc, rfl⟩

theorem KeepsText.mapRows (i : ℕ) (t : Table Carmi) {f : ℕ → Carmi → Carmi}
    (h : ∀ i c, (f i c).carmi = c.carmi) : KeepsText i t (t.mapRows f) := by
  intro c hc
  refine ⟨f i c, ?_, h i c⟩
  rw [Table.get?_mapRows, hc]
  rfl

theorem KeepsText.trans {i : ℕ} {t t' t'' : Table Carmi} (h : KeepsText i t t')
    (h' : KeepsText i t' t'') : KeepsText i t t'' := by
  intro c hc
  obtain ⟨c', hc', he⟩ := h c hc
  obtain ⟨c'', hc'', he'⟩ := h' c' hc'
  exact ⟨c'', hc'', he'.trans he⟩

section Unedited
variable {env : Env} {d d' : DB} {i : ℕ} {ids : ℕ → ℕ} {reply : Reply}

theorem handOver_keepsText (d : DB) (i id gid : ℕ) (cards : List ℕ) :
    KeepsText i d.carmis (d.handOver id gid cards) := by
  rw [DB.handOver_eq]
  apply KeepsText.mapRows
  intro j c
  rw [DB.handOverRow, Carmi.delivered]
  split_ifs
  · rfl
  · rfl
  · rfl
  · rfl

theorem settle_keepsText {sn : Text} {paid : Cents} {trade : Text} {redeliver : Bool}
    (h : (settle sn paid trade redeliver).commits ids d reply d') :
    KeepsText i d.carmis d'.carmis := by
  obtain ⟨id, o, -, -, -, hs⟩ := settle_commits h
  cases hs with
  | cards => exact handOver_keepsText d i id _ _
  | already => exact .refl _ _
  | short => exact .refl _ _
  | manual => exact .refl _ _

theorem flipped_keepsText {table : AdminTable} {id : ℕ} {restore : Bool}
    (h : d.Flipped table id restore d') : KeepsText i d.carmis d'.carmis := by
  cases table with
  | carmis =>
      obtain ⟨c₀, hget, -, -, rfl⟩ := h
      intro c hc
      by_cases hi : i = id
      · subst hi
        rw [hget] at hc
        obtain rfl := Option.some.inj hc
        exact ⟨_, Table.get?_put_self _ _ _, rfl⟩
      · exact ⟨c, (Table.get?_put_of_ne _ _ hi).trans hc, rfl⟩
  | goods =>
      obtain ⟨v, -, rfl⟩ := h
      exact .refl _ _
  | goodsGroup =>
      obtain ⟨v, -, rfl⟩ := h
      exact .refl _ _
  | coupons =>
      obtain ⟨v, -, rfl⟩ := h
      exact .refl _ _
  | orders =>
      obtain ⟨v, -, rfl⟩ := h
      exact .refl _ _

/-- Only the owner's card form changes the text of a card. -/
theorem request_keepsText {r : Request} (hedit : ∀ f, r ≠ .carmiSave i f)
    (h : (r.script env d.clock).commits ids d reply d') : KeepsText i d.carmis d'.carmis := by
  cases r with
  | createOrder rand inp site =>
      obtain ⟨g, cid, q, info, id, reserved, made, -, hcr⟩ := createOrder_commits h
      rw [hcr.carmis]
      exact .mapRows _ _ (fun i c => by split_ifs <;> rfl)
  | complete sn paid trade => exact settle_keepsText h
  | redeliver sn => exact settle_keepsText h
  | lockCldxQuote sn minor expires =>
      obtain ⟨id, o, -, -, rfl⟩ := lockCldxQuote_commits h
      exact .refl _ _
  | lockUSDTInvoice sn onTime created =>
      rcases lockUSDTInvoice_commits h with rfl | ⟨id, o, raw, -, -, rfl⟩
      · exact .refl _ _
      · exact .refl _ _
  | orderSave id f =>
      obtain ⟨row, dst, -, -, -, -, -, -, rfl⟩ := orderSave_commits h
      simp only [DB.saveOrder_carmis]
      split_ifs
      · exact .mapRows _ _ (fun i c => by split_ifs <;> rfl)
      · exact .refl _ _
  | goodsSave id f =>
      obtain ⟨f, -, -, ⟨-, n, -, rfl⟩ | ⟨g, -, -, rfl⟩⟩ := goodsSave_commits h
      · exact .refl _ _
      · exact .refl _ _
  | couponSave id f =>
      obtain ⟨f, -, -, goods, ⟨-, n, -, rfl⟩ | ⟨c, -, -, rfl⟩⟩ := couponSave_commits h
      · exact .refl _ _
      · exact .refl _ _
  | carmiSave id f =>
      obtain ⟨c₀, -, -, -, rfl⟩ := carmiSave_commits h
      have hi : i ≠ id := fun hi => hedit f (by rw [hi])
      exact fun c hc => ⟨c, (Table.get?_modify_of_ne _ _ hi).trans hc, rfl⟩
  | carmisImport f =>
      obtain ⟨-, cards, -, news, -, -, hnew, -, hold, -⟩ := carmisImport_imports h
      intro c hc
      refine ⟨c, ?_, rfl⟩
      rw [hold i (fun hmem => by rw [hnew i hmem] at hc; cases hc), hc]
  | markDeleted table id restore => exact flipped_keepsText (markDeleted_commits h)

theorem apply_keepsText {op : Op} (hedit : ∀ f ids, op ≠ .request (.carmiSave i f) ids) :
    KeepsText i d.carmis (op.apply env d).carmis := by
  refine apply_induct (P := fun x => KeepsText i d.carmis x.carmis) ?_ ?_ ?_ (.refl i d.carmis)
  · rintro r ids reply d' rfl - hc
    exact request_keepsText (fun f hf => hedit f ids (by rw [hf])) hc
  · rintro x id o hx - -
    refine hx.trans ?_
    rw [DB.expire]
    exact .mapRows _ _ (fun i c => by split_ifs <;> rfl)
  · exact fun n hx => hx

theorem runOps_keepsText {ops : List Op} (hedit : ∀ f ids, .request (.carmiSave i f) ids ∉ ops) :
    KeepsText i d.carmis (runOps env ops d).carmis := by
  refine runOps_induct (P := fun x => KeepsText i d.carmis x.carmis) ?_ (.refl i d.carmis)
  intro x op hop hx
  refine hx.trans (apply_keepsText ?_)
  rintro f ids rfl
  exact hedit f ids hop

/-- An import of the run brought the card in, and no form has changed it since. -/
def ImportedUnedited (env : Env) (d : DB) (ops : List Op) (i : ℕ) : Prop :=
  ∃ pre f ids post, ops = pre ++ .request (.carmisImport f) ids :: post ∧
    (runOps env pre d).carmis.get? i = none ∧
    (runOps env (pre ++ [.request (.carmisImport f) ids]) d).carmis.get? i ≠ none ∧
    ∀ g ids', .request (.carmiSave i g) ids' ∉ post

theorem exists_zip_of_mem {α β : Type*} {l : List α} {l' : List β} (hlen : l.length = l'.length)
    {a : α} (h : a ∈ l) :
    ∃ b ∈ l', (a, b) ∈ l.zip l' := by
  obtain ⟨k, hk, rfl⟩ := List.mem_iff_getElem.mp h
  have hk' : k < l'.length := hlen ▸ hk
  refine ⟨l'[k], List.getElem_mem hk', ?_⟩
  have hzip : k < (l.zip l').length := by
    rw [List.length_zip]
    omega
  have hget : (l.zip l')[k] = (l[k], l'[k]) := List.getElem_zip
  rw [← hget]
  exact List.getElem_mem hzip

/-- A card an import brought in has a line of its text. -/
theorem import_text {f : ImportForm} (hnone : d.carmis.get? i = none)
    (hsome : (Op.apply env d (.request (.carmisImport f) ids)).carmis.get? i ≠ none) :
    ∃ c cards, (Op.apply env d (.request (.carmisImport f) ids)).carmis.get? i = some c ∧
      parseCards f.carmisList f.removeDuplication = .ok cards ∧ c.carmi ∈ cards := by
  rcases exec_fst (Request.script env d.clock (.carmisImport f)) ids d with hd | ⟨r, d', hc, he⟩
  · rw [Op.apply, Request.answer, hd] at hsome
    exact absurd hnone hsome
  · rw [Op.apply, Request.answer, he] at hsome ⊢
    obtain ⟨-, cards, hcards, news, -, hlen, -, -, hold, hrows⟩ := carmisImport_imports hc
    have hmem : i ∈ news := by
      by_contra hi
      rw [hold i hi] at hsome
      exact hsome hnone
    obtain ⟨card, hcard, hzip⟩ := exists_zip_of_mem hlen hmem
    exact ⟨_, cards, hrows _ hzip, hcards, hcard⟩

theorem ImportedUnedited.oneLine {ops : List Op} (h : ImportedUnedited env d ops i) :
    ∃ c, (runOps env ops d).carmis.get? i = some c ∧ OneLine c.carmi := by
  obtain ⟨pre, f, ids, post, rfl, hnone, hsome, hedit⟩ := h
  rw [runOps_snoc] at hsome
  obtain ⟨c, cards, hc, hcards, hmem⟩ := import_text hnone hsome
  have hkeep : KeepsText i (Op.apply env (runOps env pre d) (.request (.carmisImport f) ids)).carmis
      (runOps env post (Op.apply env (runOps env pre d) (.request (.carmisImport f) ids))).carmis :=
    runOps_keepsText hedit
  obtain ⟨c', hc', htext⟩ := hkeep c hc
  refine ⟨c', ?_, ?_⟩
  · rw [runOps_append]
    exact hc'
  · rw [htext]
    exact (parseCards_clean hcards _ hmem).2.2

/-! ### Delivered cards -/

theorem cardRows_texts {cards : List ℕ} (h : ∀ i ∈ cards, ∃ c, d.carmis.get? i = some c) :
    List.Forall₂ (fun i text => ∃ c, d.carmis.get? i = some c ∧ c.carmi = text) cards
      ((d.cardRows cards).map Carmi.carmi) := by
  induction cards with
  | nil => exact .nil
  | cons i cards ih =>
      obtain ⟨c, hc⟩ := h i (by simp)
      have hrows : d.cardRows (i :: cards) = c :: d.cardRows cards := by
        rw [DB.cardRows, List.filterMap_cons, hc]
        rfl
      rw [hrows, List.map_cons]
      exact .cons ⟨c, hc, rfl⟩ (ih (fun j hj => h j (by simp [hj])))

theorem settleRequest_script (sn : Text) (paid : Cents) (trade : Text) (redeliver : Bool)
    (now : ℤ) :
    (settleRequest sn paid trade redeliver).script env now = settle sn paid trade redeliver := by
  cases redeliver with
  | true => rfl
  | false => rfl

/-- A delivery of imported cards leaves their texts to be read line by line. -/
theorem delivered_lines {ops : List Op} {op : Op} {id : ℕ} {cards : List ℕ} {o : Order}
    (h₀ : d.orders = Table.empty) (hdel : op.Delivers (runOps env ops d) id cards)
    (ho : (runOps env ops d).orders.get? id = some o) (hauto : o.type = .auto)
    (hcards : ∀ i ∈ cards, ImportedUnedited env d ops i) :
    ∃ o', (op.apply env (runOps env ops d)).orders.get? id = some o' ∧
      ((split '\n' o'.info).length : ℤ) = o'.buyAmount ∧
      List.Forall₂ (fun i text => ∃ c, (runOps env ops d).carmis.get? i = some c ∧
        c.carmi = text) cards
        (split '\n' o'.info) := by
  obtain ⟨sn, paid, trade, redeliver, ids, d', rfl, hc⟩ := hdel
  have hpos := runOps_positive env ops h₀ id o ho
  rw [Op.apply, Request.answer, settleRequest_script, exec_of_commits hc]
  have hrow : ∀ i ∈ cards, ∃ c, (runOps env ops d).carmis.get? i = some c := fun i hi => by
    obtain ⟨c, hc, -⟩ := (hcards i hi).oneLine
    exact ⟨c, hc⟩
  have htexts := cardRows_texts hrow
  obtain ⟨i, o₁, hfound, -, -, hs⟩ := settle_commits hc
  obtain ⟨hget, -⟩ := DB.orderBySn_some hfound
  cases hs with
  | manual hp hret hmanual =>
      rw [hget] at ho
      rw [Option.some.inj ho, hauto] at hmanual
      cases hmanual
  | @cards coupons back _ hp hret _ hpick hlen =>
      rw [hget] at ho
      obtain rfl := Option.some.inj ho
      have hsplit : split '\n' ((runOps env ops d).cardTexts cards) =
          ((runOps env ops d).cardRows cards).map Carmi.carmi := by
        refine split_join ?_ ?_
        · intro hnil
          rw [hnil] at htexts
          rw [List.forall₂_nil_right_iff.mp htexts] at hlen
          simp only [List.length_nil, Nat.cast_zero] at hlen
          omega
        · intro l hl hlf
          obtain ⟨c, hrow, rfl⟩ := List.mem_map.mp hl
          obtain ⟨i, hi, hgot⟩ := List.mem_filterMap.mp hrow
          obtain ⟨c', hc', hone⟩ := (hcards i hi).oneLine
          rw [hgot] at hc'
          obtain rfl := Option.some.inj hc'
          exact (hone _ hlf).1 rfl
      refine ⟨_, (Table.get?_modify_self _ _ _).trans (by rw [hget, Option.map_some]), ?_, ?_⟩
      · change ((split '\n' ((runOps env ops d).cardTexts cards)).length : ℤ) = o₁.buyAmount
        rw [hsplit, ← htexts.length_eq]
        exact hlen
      · change List.Forall₂ _ cards (split '\n' ((runOps env ops d).cardTexts cards))
        rw [hsplit]
        exact htexts

end Unedited

/-- An import loses and invents nothing: what the parser returns, what it returns for its own cards,
what the table gets, and how the cards of a delivery are read back. -/
theorem card_import_exact :
    (∀ text dedupe, parseCardsLoop text dedupe = parseCards text dedupe) ∧
    (∀ text dedupe cards, parseCards text dedupe = .ok cards →
      cards = (if dedupe then firstCopies (((lines text).map trimSpace).filter (fun l => l ≠ []))
        else ((lines text).map trimSpace).filter (fun l => l ≠ [])) ∧
      (∀ l ∈ cards, l.isBlank = false ∧ ∀ c ∈ l, c ≠ '\n' ∧ c ≠ '\r') ∧
      ∀ nl : LineEnd, parseCards (join nl.text cards) dedupe = .ok cards) ∧
    (∀ (f : ImportForm) (n : ℕ) (ids : ℕ → ℕ) (d d' : DB) (r : Option Reply),
      (carmisImport f).execFor n ids d = (d', r) →
      (r = some .ok ∧ ∃ cards, parseCards f.carmisList f.removeDuplication = .ok cards ∧
        d.Imported (importedRow (mustInt f.goodsId 0) (mustInt f.isLoop 0)) cards d') ∨
      (r ≠ some .ok ∧ d' = d)) ∧
    ∀ (env : Env) (d : DB) (ops : List Op) (op : Op) (id : ℕ) (cards : List ℕ) (o : Order),
      d.orders = Table.empty → op.Delivers (runOps env ops d) id cards →
      (runOps env ops d).orders.get? id = some o → o.type = .auto →
      (∀ i ∈ cards, ImportedUnedited env d ops i) →
      ∃ o', (op.apply env (runOps env ops d)).orders.get? id = some o' ∧
        ((split '\n' o'.info).length : ℤ) = o'.buyAmount ∧
        List.Forall₂ (fun i text => ∃ c, (runOps env ops d).carmis.get? i = some c ∧
          c.carmi = text) cards
          (split '\n' o'.info) := by
  refine ⟨parseCardsLoop_eq, ?_, ?_, ?_⟩
  · intro text dedupe cards h
    refine ⟨(parseCards_ok h).1, ?_, parseCards_join h⟩
    intro l hl
    obtain ⟨hne, htrim, hone⟩ := parseCards_clean h l hl
    refine ⟨?_, hone⟩
    rw [isBlank, htrim]
    exact decide_eq_false hne
  · intro f n ids d d' r h
    exact carmisImport_all_or_none h
  · intro env d ops op id cards o h₀ hdel ho hauto hcards
    exact delivered_lines h₀ hdel ho hauto hcards

theorem delivers_of_answer {sn trade : Text} {paid : Cents} {ids : ℕ → ℕ} {d : DB} {id : ℕ}
    {cards : List ℕ} (h : ((complete sn paid trade).exec ids d).2 = some (.delivered id cards)) :
    (Op.request (.complete sn paid trade) ids).Delivers d id cards := by
  have hexec : (settle sn paid trade false).exec ids d =
      (((settle sn paid trade false).exec ids d).1, some (.delivered id cards)) := Prod.ext rfl h
  refine ⟨sn, paid, trade, false, ids, _, rfl, commits_of_answer settle_ends hexec ?_⟩
  simp [settleEnd]

def tinyImport : Op :=
  .request (.carmisImport ⟨"1".toList, "0".toList, true, "b\r\n\r\na \rb".toList⟩) (fun n => n + 2)

/-- The second buyer of the automatic goods gets a card of the import. -/
theorem card_import_exact_two :
    (∀ nl : LineEnd, parseCards (join nl.text ["b".toList, "a".toList]) true =
      .ok ["b".toList, "a".toList]) ∧
    ∃ o', ((tinyPay 2).apply tinyEnv (runOps tinyEnv [tinyImport, tinyBuy 1 1 [], tinyBuy 1 2 []]
        tinyShop)).orders.get? 2 = some o' ∧ ((split '\n' o'.info).length : ℤ) = o'.buyAmount := by
  obtain ⟨-, hparse, -, hdelivered⟩ := card_import_exact
  constructor
  · have htext : parseCards "b\r\n\r\na \rb".toList true = .ok ["b".toList, "a".toList] := by
      decide
    exact (hparse _ _ _ htext).2.2
  · obtain ⟨o', ho', hlen, -⟩ :=
      hdelivered tinyEnv tinyShop [tinyImport, tinyBuy 1 1 [], tinyBuy 1 2 []]
      (tinyPay 2) 2 [2] _ rfl (delivers_of_answer (by decide))
      (Option.some_get (by decide)).symm (by decide) (by
        intro i hi
        rw [List.mem_singleton] at hi
        subst hi
        refine ⟨[], _, _, [tinyBuy 1 1 [], tinyBuy 1 2 []], rfl, by decide, by decide, ?_⟩
        intro g ids' hmem
        simp [tinyBuy] at hmem)
    exact ⟨o', ho', hlen⟩

end Dufaka
