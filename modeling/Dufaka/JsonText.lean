import Mathlib.Tactic

/-!
# JSON text

Parsing of JSON as `encoding/json` does it, into the tree of its values, and its way of writing
strings. A string is scanned into characters and escaped code units first, so that surrogate pairs
are put together in a pass of their own. What the writer writes is read back.
-/

namespace JsonText

inductive Value where
  | null
  | bool (b : Bool)
  | number (literal : List Char)
  | string (s : List Char)
  | array (vs : List Value)
  | object (fields : List (List Char × Value))

def isSpace (c : Char) : Bool := c = ' ' || c = '\t' || c = '\r' || c = '\n'

def skipSpace (s : List Char) : List Char := s.dropWhile isSpace

/-! ### Strings -/

/-- A character of a string, or a code unit that was written as an escape. -/
inductive Piece where
  | char (c : Char)
  | code (n : ℕ)

def hexValue (c : Char) : Option ℕ :=
  let n := c.toNat
  if 48 ≤ n ∧ n ≤ 57 then some (n - 48)
  else if 97 ≤ n ∧ n ≤ 102 then some (n - 87)
  else if 65 ≤ n ∧ n ≤ 70 then some (n - 55)
  else none

def codeUnit (a b c d : Char) : Option ℕ := do
  let a ← hexValue a
  let b ← hexValue b
  let c ← hexValue c
  let d ← hexValue d
  return ((a * 16 + b) * 16 + c) * 16 + d

def unescape (c : Char) : Option Char :=
  if c = '"' ∨ c = '\\' ∨ c = '/' then some c
  else if c = 'b' then some '\x08'
  else if c = 'f' then some '\x0c'
  else if c = 'n' then some '\n'
  else if c = 'r' then some '\r'
  else if c = 't' then some '\t'
  else none

/-- The pieces of a string up to its closing quote, and what follows. -/
def pieces : List Char → Option (List Piece × List Char)
  | [] => none
  | '"' :: s => some ([], s)
  | '\\' :: 'u' :: a :: b :: c :: d :: s => do
      let n ← codeUnit a b c d
      let p ← pieces s
      return (.code n :: p.1, p.2)
  | '\\' :: c :: s => do
      let e ← unescape c
      let p ← pieces s
      return (.char e :: p.1, p.2)
  | c :: s =>
      if c.toNat < 32 then none
      else (pieces s).map (fun p => (.char c :: p.1, p.2))

def isHigh (n : ℕ) : Bool := 0xD800 ≤ n && n < 0xDC00

def isLow (n : ℕ) : Bool := 0xDC00 ≤ n && n < 0xE000

def loneChar (n : ℕ) : Char := if isHigh n || isLow n then '\uFFFD' else Char.ofNat n

def joinPieces : List Piece → List Char
  | [] => []
  | .char c :: ps => c :: joinPieces ps
  | .code h :: .code l :: ps =>
      if isHigh h && isLow l then
        Char.ofNat (0x10000 + (h - 0xD800) * 0x400 + (l - 0xDC00)) :: joinPieces ps
      else loneChar h :: joinPieces (.code l :: ps)
  | .code n :: ps => loneChar n :: joinPieces ps

def string (s : List Char) : Option (List Char × List Char) :=
  (pieces s).map (fun p => (joinPieces p.1, p.2))

/-! ### Numbers -/

def integer (s : List Char) : Option (List Char × List Char) :=
  match s with
  | '0' :: s => some (['0'], s)
  | s =>
      let ds := s.takeWhile Char.isDigit
      if ds = [] then none else some (ds, s.dropWhile Char.isDigit)

def fraction (s : List Char) : Option (List Char × List Char) :=
  match s with
  | '.' :: s =>
      let ds := s.takeWhile Char.isDigit
      if ds = [] then none else some ('.' :: ds, s.dropWhile Char.isDigit)
  | s => some ([], s)

def exponentSign (s : List Char) : List Char × List Char :=
  match s with
  | '+' :: s => (['+'], s)
  | '-' :: s => (['-'], s)
  | s => ([], s)

def exponent (s : List Char) : Option (List Char × List Char) :=
  match s with
  | [] => some ([], [])
  | e :: t =>
      if e = 'e' ∨ e = 'E' then
        let sign := exponentSign t
        let ds := sign.2.takeWhile Char.isDigit
        if ds = [] then none else some (e :: sign.1 ++ ds, sign.2.dropWhile Char.isDigit)
      else some ([], s)

def minus (s : List Char) : List Char × List Char :=
  match s with
  | '-' :: s => (['-'], s)
  | s => ([], s)

def number (s : List Char) : Option (List Char × List Char) := do
  let sign := minus s
  let whole ← integer sign.2
  let part ← fraction whole.2
  let power ← exponent part.2
  return (sign.1 ++ whole.1 ++ part.1 ++ power.1, power.2)

/-! ### Values -/

/-- How deep arrays and objects may be nested. -/
def maxNestingDepth : ℕ := 10000

def fieldName (s : List Char) : Option (List Char × List Char) :=
  match skipSpace s with
  | '"' :: s => string s
  | _ => none

def afterColon (s : List Char) : Option (List Char) :=
  match skipSpace s with
  | ':' :: s => some s
  | _ => none

mutual

/-- A value and what follows it. The fuel bounds the recursion, `depth` the nesting. -/
def value : ℕ → ℕ → List Char → Option (Value × List Char)
  | 0, _, _ => none
  | fuel + 1, depth, s =>
      match skipSpace s with
      | '{' :: s =>
          if depth = 0 then none
          else
            match skipSpace s with
            | '}' :: s => some (.object [], s)
            | s => (members fuel (depth - 1) s).map (fun p => (.object p.1, p.2))
      | '[' :: s =>
          if depth = 0 then none
          else
            match skipSpace s with
            | ']' :: s => some (.array [], s)
            | s => (elements fuel (depth - 1) s).map (fun p => (.array p.1, p.2))
      | '"' :: s => (string s).map (fun p => (.string p.1, p.2))
      | 't' :: 'r' :: 'u' :: 'e' :: s => some (.bool true, s)
      | 'f' :: 'a' :: 'l' :: 's' :: 'e' :: s => some (.bool false, s)
      | 'n' :: 'u' :: 'l' :: 'l' :: s => some (.null, s)
      | s => (number s).map (fun p => (.number p.1, p.2))

def elements : ℕ → ℕ → List Char → Option (List Value × List Char)
  | 0, _, _ => none
  | fuel + 1, depth, s => do
      let v ← value fuel depth s
      match skipSpace v.2 with
      | ',' :: s =>
          let vs ← elements fuel depth s
          return (v.1 :: vs.1, vs.2)
      | ']' :: s => return ([v.1], s)
      | _ => none

def members : ℕ → ℕ → List Char → Option (List (List Char × Value) × List Char)
  | 0, _, _ => none
  | fuel + 1, depth, s => do
      let key ← fieldName s
      let s ← afterColon key.2
      let v ← value fuel depth s
      match skipSpace v.2 with
      | ',' :: s =>
          let ms ← members fuel depth s
          return ((key.1, v.1) :: ms.1, ms.2)
      | '}' :: s => return ([(key.1, v.1)], s)
      | _ => none

end

/-- The fuel is for two calls at each character. -/
def parse (s : List Char) : Option Value := do
  let v ← value (2 * s.length + 2) maxNestingDepth s
  if skipSpace v.2 = [] then some v.1 else none

/-- The name of a field as names are compared, without regard to case: the long s and the Kelvin
sign are the only letters outside ASCII that fold to one of it. -/
def foldName (name : List Char) : List Char :=
  name.map (fun c => if c = '\u017f' then 's' else if c = '\u212a' then 'k' else c.toLower)

/-! ### Writing -/

def hexChar (n : ℕ) : Char := if n < 10 then Char.ofNat (48 + n) else Char.ofNat (87 + n)

def isCoded (c : Char) : Bool :=
  c.toNat < 32 || c = '<' || c = '>' || c = '&' || c = '\u2028' || c = '\u2029'

def renderChar (c : Char) : List Char :=
  if c = '"' ∨ c = '\\' then ['\\', c]
  else if c = '\x08' then ['\\', 'b']
  else if c = '\x0c' then ['\\', 'f']
  else if c = '\n' then ['\\', 'n']
  else if c = '\r' then ['\\', 'r']
  else if c = '\t' then ['\\', 't']
  else if isCoded c then
    ['\\', 'u', hexChar (c.toNat / 4096), hexChar (c.toNat / 256 % 16), hexChar (c.toNat / 16 % 16),
      hexChar (c.toNat % 16)]
  else [c]

def renderString (s : List Char) : List Char := '"' :: s.flatMap renderChar ++ ['"']

def renderItems : List (List Char) → List Char
  | [] => []
  | [s] => renderString s
  | s :: t :: ss => renderString s ++ ',' :: renderItems (t :: ss)

def renderStrings (ss : List (List Char)) : List Char := '[' :: renderItems ss ++ [']']

/-! ### Reading back -/

theorem hexValue_hexChar : ∀ n < 16, hexValue (hexChar n) = some n := by decide

theorem codeUnit_hexChar {n : ℕ} (h : n < 65536) :
    codeUnit (hexChar (n / 4096)) (hexChar (n / 256 % 16)) (hexChar (n / 16 % 16))
      (hexChar (n % 16)) = some n := by
  have ha := hexValue_hexChar (n / 4096) (by omega)
  have hb := hexValue_hexChar (n / 256 % 16) (by omega)
  have hc := hexValue_hexChar (n / 16 % 16) (by omega)
  have hd := hexValue_hexChar (n % 16) (by omega)
  have hjoin : ((n / 4096 * 16 + n / 256 % 16) * 16 + n / 16 % 16) * 16 + n % 16 = n := by omega
  rw [codeUnit, ha, hb, hc, hd]
  exact congrArg some hjoin

theorem joinPieces_code {n : ℕ} (hhigh : isHigh n = false) (hlow : isLow n = false)
    (ps : List Piece) :
    joinPieces (.code n :: ps) = Char.ofNat n :: joinPieces ps := by
  have hlone : loneChar n = Char.ofNat n := by simp [loneChar, hhigh, hlow]
  cases ps with
  | nil => simp only [joinPieces, hlone]
  | cons p ps =>
      cases p with
      | char c => simp only [joinPieces, hlone]
      | code l =>
          simp only [joinPieces, hhigh, Bool.false_and, Bool.false_eq_true, if_false, hlone]

theorem isCoded_lt {c : Char} (h : isCoded c = true) :
    c.toNat < 65536 ∧ isHigh c.toNat = false ∧ isLow c.toNat = false := by
  simp only [isCoded, Bool.or_eq_true, decide_eq_true_eq] at h
  rcases h with ((((h | rfl) | rfl) | rfl) | rfl) | rfl
  · have hhigh : isHigh c.toNat = false := by
      rw [isHigh, Bool.and_eq_false_iff]
      exact Or.inl (decide_eq_false (by omega))
    have hlow : isLow c.toNat = false := by
      rw [isLow, Bool.and_eq_false_iff]
      exact Or.inl (decide_eq_false (by omega))
    exact ⟨by omega, hhigh, hlow⟩
  all_goals decide

theorem pieces_escape {e c : Char} (hu : e ≠ 'u') (he : unescape e = some c) (s : List Char) :
    pieces ('\\' :: e :: s) = (pieces s).map (fun p => (.char c :: p.1, p.2)) := by
  rw [pieces.eq_4 e s (fun _ _ _ _ _ h _ => hu h), he]
  cases pieces s <;> rfl

theorem pieces_char {c : Char} (hquote : c ≠ '"') (hslash : c ≠ '\\') (hcontrol : ¬ c.toNat < 32)
    (s : List Char) : pieces (c :: s) = (pieces s).map (fun p => (.char c :: p.1, p.2)) := by
  rw [pieces.eq_5 c s hquote (fun _ _ _ _ _ h _ => hslash h) (fun _ _ h _ => hslash h),
    if_neg hcontrol]

/-- What is written for a character is scanned as one piece, which stands for the character. -/
theorem renderChar_piece (c : Char) : ∃ piece,
    (∀ s, pieces (renderChar c ++ s) = (pieces s).map (fun p => (piece :: p.1, p.2))) ∧
      ∀ ps, joinPieces (piece :: ps) = c :: joinPieces ps := by
  rw [renderChar]
  split_ifs with hquote hb hf hn hr ht hcoded
  · have hu : c ≠ 'u' := by rintro rfl; simp at hquote
    have he : unescape c = some c := if_pos (by tauto)
    exact ⟨.char c, pieces_escape hu he, fun _ => rfl⟩
  · subst hb
    exact ⟨.char '\x08', pieces_escape (by decide) rfl, fun _ => rfl⟩
  · subst hf
    exact ⟨.char '\x0c', pieces_escape (by decide) rfl, fun _ => rfl⟩
  · subst hn
    exact ⟨.char '\n', pieces_escape (by decide) rfl, fun _ => rfl⟩
  · subst hr
    exact ⟨.char '\r', pieces_escape (by decide) rfl, fun _ => rfl⟩
  · subst ht
    exact ⟨.char '\t', pieces_escape (by decide) rfl, fun _ => rfl⟩
  · obtain ⟨hlt, hhigh, hlow⟩ := isCoded_lt hcoded
    refine ⟨.code c.toNat, fun s => ?_, fun ps => ?_⟩
    · simp only [List.cons_append, List.nil_append]
      rw [pieces, codeUnit_hexChar hlt]
      cases pieces s <;> rfl
    · rw [joinPieces_code hhigh hlow, Char.ofNat_toNat]
  · have hplain : ¬ c.toNat < 32 := by
      intro hlt
      simp [isCoded, hlt] at hcoded
    rw [not_or] at hquote
    exact ⟨.char c, pieces_char hquote.1 hquote.2 hplain, fun _ => rfl⟩

/-- A written string is read back, whatever follows its closing quote. -/
theorem string_render (s rest : List Char) :
    string (s.flatMap renderChar ++ '"' :: rest) = some (s, rest) := by
  have hpieces : ∃ ps, pieces (s.flatMap renderChar ++ '"' :: rest) = some (ps, rest) ∧
      joinPieces ps = s := by
    induction s with
    | nil => exact ⟨[], rfl, rfl⟩
    | cons c s ih =>
        obtain ⟨ps, hps, hjoin⟩ := ih
        obtain ⟨piece, hpiece, hc⟩ := renderChar_piece c
        refine ⟨piece :: ps, ?_, ?_⟩
        · rw [List.flatMap_cons, List.append_assoc, hpiece, hps, Option.map_some]
        · rw [hc, hjoin]
  obtain ⟨ps, hps, hjoin⟩ := hpieces
  rw [string, hps, Option.map_some, hjoin]

theorem skipSpace_cons {c : Char} (h : isSpace c = false) (s : List Char) :
    skipSpace (c :: s) = c :: s := by
  rw [skipSpace, List.dropWhile_cons_of_neg (by simp [h])]

theorem renderString_append (s rest : List Char) :
    renderString s ++ rest = '"' :: (s.flatMap renderChar ++ '"' :: rest) := by
  rw [renderString, List.cons_append, List.cons_append, List.append_assoc, List.singleton_append]

theorem skipSpace_renderString (s rest : List Char) :
    skipSpace (renderString s ++ rest) = renderString s ++ rest := by
  rw [renderString_append]
  exact skipSpace_cons (by decide) _

theorem value_renderString (fuel depth : ℕ) (s rest : List Char) :
    value (fuel + 1) depth (renderString s ++ rest) = some (.string s, rest) := by
  rw [value, skipSpace_renderString, renderString_append]
  simp only [string_render, Option.map_some]

/-- What is neither a string, an array, an object nor a literal is read as a number. -/
theorem value_number {c : Char} (hspace : isSpace c = false)
    (hopen : c ∉ ['{', '[', '"', 't', 'f', 'n'])
    (fuel depth : ℕ) (s : List Char) :
    value (fuel + 1) depth (c :: s) = (number (c :: s)).map (fun p => (.number p.1, p.2)) := by
  simp only [List.mem_cons, List.not_mem_nil, or_false, not_or] at hopen
  obtain ⟨hbrace, hbracket, hquote, ht, hf, hn⟩ := hopen
  rw [value, skipSpace_cons hspace]
  split
  case h_1 he => exact (hbrace (List.cons.inj he).1).elim
  case h_2 he => exact (hbracket (List.cons.inj he).1).elim
  case h_3 he => exact (hquote (List.cons.inj he).1).elim
  case h_4 he => exact (ht (List.cons.inj he).1).elim
  case h_5 he => exact (hf (List.cons.inj he).1).elim
  case h_6 he => exact (hn (List.cons.inj he).1).elim
  case h_7 => rfl

/-- A text whose first character begins no value. -/
theorem parse_eq_none {c : Char} (hspace : isSpace c = false)
    (hopen : c ∉ ['{', '[', '"', 't', 'f', 'n'])
    (hminus : c ≠ '-') (hdigit : c.isDigit = false) (s : List Char) : parse (c :: s) = none := by
  have hzero : c ≠ '0' := by
    rintro rfl
    cases hdigit
  have hnumber : number (c :: s) = none := by
    have hsign : minus (c :: s) = ([], c :: s) := by simp [minus, hminus]
    have hwhole : integer (c :: s) = none := by simp [integer, hzero, hdigit]
    rw [number, hsign]
    simp only [hwhole, Option.bind_eq_bind, Option.bind_none]
  rw [parse, value_number hspace hopen, hnumber]
  rfl

/-- An integer without leading zeros is read up to what ends it. -/
theorem number_literal {sign ds : List Char} (hsign : sign = [] ∨ sign = ['-']) (hne : ds ≠ [])
    (hdigits : ∀ d ∈ ds, d.isDigit = true) (hlead : ds = ['0'] ∨ ds.head? ≠ some '0') {c : Char}
    (hc : c.isDigit = false) (hend : c ∉ ['.', 'e', 'E']) (s : List Char) :
    number (sign ++ ds ++ c :: s) = some (sign ++ ds, c :: s) := by
  simp only [List.mem_cons, List.not_mem_nil, or_false, not_or] at hend
  obtain ⟨hdot, he, hE⟩ := hend
  have hminus : minus (sign ++ ds ++ c :: s) = (sign, ds ++ c :: s) := by
    rcases hsign with rfl | rfl
    · cases ds with
      | nil => exact (hne rfl).elim
      | cons d ds =>
          have hd : d ≠ '-' := by
            rintro rfl
            exact absurd (hdigits '-' List.mem_cons_self) (by decide)
          simp [minus, hd]
    · rfl
  have hinteger : integer (ds ++ c :: s) = some (ds, c :: s) := by
    rcases hlead with rfl | hlead
    · rfl
    · cases ds with
      | nil => exact (hne rfl).elim
      | cons d ds =>
          have hd : d ≠ '0' := by
            rintro rfl
            exact hlead rfl
          have htake : (d :: ds ++ c :: s).takeWhile Char.isDigit = d :: ds := by
            rw [List.takeWhile_append_of_pos hdigits, List.takeWhile_cons_of_neg (by simp [hc]),
              List.append_nil]
          have hdrop : (d :: ds ++ c :: s).dropWhile Char.isDigit = c :: s := by
            rw [List.dropWhile_append_of_pos hdigits, List.dropWhile_cons_of_neg (by simp [hc])]
          rw [List.cons_append] at htake hdrop ⊢
          simp [integer, hd, htake, hdrop]
  have hfraction : fraction (c :: s) = some ([], c :: s) := by simp [fraction, hdot]
  have hexponent : exponent (c :: s) = some ([], c :: s) := by simp [exponent, he, hE]
  rw [number, hminus]
  simp [hinteger, hfraction, hexponent]

theorem elements_renderItems {ss : List (List Char)} (hne : ss ≠ []) {fuel : ℕ}
    (hfuel : ss.length < fuel) (depth : ℕ) (rest : List Char) :
    elements fuel depth (renderItems ss ++ ']' :: rest) = some (ss.map .string, rest) := by
  induction ss generalizing fuel with
  | nil => exact (hne rfl).elim
  | cons s ss ih =>
      obtain ⟨n, rfl⟩ : ∃ n, fuel = n + 2 := ⟨fuel - 2, by rw [List.length_cons] at hfuel; omega⟩
      rw [List.length_cons] at hfuel
      cases ss with
      | nil =>
          rw [renderItems, elements, value_renderString]
          simp [skipSpace_cons (show isSpace ']' = false by decide)]
      | cons t ss =>
          have htail : elements (n + 1) depth (renderItems (t :: ss) ++ ']' :: rest) =
              some ((t :: ss).map .string, rest) := ih (List.cons_ne_nil t ss) (by omega)
          rw [renderItems, List.append_assoc, List.cons_append, elements, value_renderString]
          simp [skipSpace_cons (show isSpace ',' = false by decide), htail]

theorem length_renderItems (ss : List (List Char)) : ss.length ≤ (renderItems ss).length := by
  induction ss with
  | nil => exact le_rfl
  | cons s ss ih =>
      cases ss with
      | nil => simp [renderItems, renderString]
      | cons t ss =>
          simp only [renderItems, List.length_append, List.length_cons] at ih ⊢
          omega

theorem renderItems_cons (s : List Char) (ss : List (List Char)) :
    ∃ t, renderItems (s :: ss) = '"' :: t := by
  cases ss with
  | nil => exact ⟨s.flatMap renderChar ++ ['"'], rfl⟩
  | cons t ss => exact ⟨s.flatMap renderChar ++ ['"'] ++ ',' :: renderItems (t :: ss), rfl⟩

theorem value_renderStrings (ss : List (List Char)) {fuel : ℕ} (hfuel : ss.length < fuel)
    (depth : ℕ) :
    value (fuel + 1) (depth + 1) (renderStrings ss) = some (.array (ss.map .string), []) := by
  have hopen : skipSpace (renderStrings ss) = '[' :: (renderItems ss ++ [']']) :=
    skipSpace_cons (by decide) _
  rw [value, hopen]
  cases ss with
  | nil => simp [renderItems, skipSpace_cons (show isSpace ']' = false by decide)]
  | cons s ss =>
      obtain ⟨t, ht⟩ := renderItems_cons s ss
      have helements := elements_renderItems (List.cons_ne_nil s ss) hfuel depth []
      rw [ht, List.cons_append] at helements ⊢
      simp [skipSpace_cons (show isSpace '"' = false by decide), helements]

theorem parse_renderStrings (ss : List (List Char)) :
    parse (renderStrings ss) = some (.array (ss.map .string)) := by
  have hlen := length_renderItems ss
  have hfuel : ss.length < 2 * (renderStrings ss).length + 1 := by
    simp only [renderStrings, List.length_append, List.length_cons]
    omega
  have hvalue : value (2 * (renderStrings ss).length + 2) maxNestingDepth (renderStrings ss) =
      some (.array (ss.map .string), []) := value_renderStrings ss hfuel 9999
  rw [parse, hvalue]
  rfl

/-! ### Objects -/

section Objects
variable {fuel depth : ℕ} {key s t rest : List Char} {v : Value} {ms : List (List Char × Value)}

theorem fieldName_renderString (key s : List Char) :
    fieldName (renderString key ++ s) = some (key, s) := by
  rw [fieldName, skipSpace_renderString, renderString_append]
  exact string_render key s

theorem afterColon_cons (s : List Char) : afterColon (':' :: s) = some s := by
  rw [afterColon, skipSpace_cons (by decide)]
  rfl

theorem members_cons (hv : value fuel depth s = some (v, ',' :: t))
    (hms : members fuel depth t = some (ms, rest)) :
    members (fuel + 1) depth (renderString key ++ ':' :: s) = some ((key, v) :: ms, rest) := by
  rw [members, fieldName_renderString]
  simp [afterColon_cons, hv, skipSpace_cons (show isSpace ',' = false by decide), hms]

theorem members_last (hv : value fuel depth s = some (v, '}' :: rest)) :
    members (fuel + 1) depth (renderString key ++ ':' :: s) = some ([(key, v)], rest) := by
  rw [members, fieldName_renderString]
  simp [afterColon_cons, hv, skipSpace_cons (show isSpace '}' = false by decide)]

theorem value_object (h : members fuel depth (renderString key ++ s) = some (ms, rest)) :
    value (fuel + 1) (depth + 1) ('{' :: (renderString key ++ s)) = some (.object ms, rest) := by
  rw [value, skipSpace_cons (by decide)]
  simp only [skipSpace_renderString]
  rw [renderString_append] at h ⊢
  simp [h]

end Objects
end JsonText
