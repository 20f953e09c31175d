import Dufaka.Encodings
import Dufaka.JsonText
import Dufaka.Text

/-!
# Tokens under one key

The session cookie, the form token and the cookie of a browser's orders are signed with the same
key. The authenticator is a parameter. What an attacker can build from issued tokens is any string
that does not end in the tag of a message that was never signed, and no two signed messages have one
tag.
-/

namespace Dufaka
open Encoding JsonText

structure AdminSession where
  uid : Int64
  exp : Int64
  name : Text
  deriving DecidableEq

/-! ### JSON -/

/-- `json.Marshal` of a session. -/
def sessionJSON (s : AdminSession) : Text :=
  '{' :: (renderString "uid".toList ++ ':' :: (Text.itoa s.uid.toInt ++ ',' ::
    (renderString "exp".toList ++ ':' :: (Text.itoa s.exp.toInt ++ ',' ::
      (renderString "name".toList ++ ':' :: (renderString s.name ++ ['}']))))))

/-- A number for an integer field; `null` leaves it as it was. -/
def readInt64 (old : Int64) : Value → Option Int64
  | .number literal => (Text.parseInt literal).map Int64.ofInt
  | .null => some old
  | _ => none

def readText (old : Text) : Value → Option Text
  | .string s => some s
  | .null => some old
  | _ => none

/-- One field of the object. Names are compared without regard to case. -/
def setSessionField (s : AdminSession) (field : Text × Value) : Option AdminSession :=
  let name := foldName field.1
  if name = "uid".toList then (readInt64 s.uid field.2).map (fun uid => { s with uid := uid })
  else if name = "exp".toList then (readInt64 s.exp field.2).map (fun exp => { s with exp := exp })
  else if name = "name".toList then
    (readText s.name field.2).map (fun name => { s with name := name })
  else some s

/-- `json.Unmarshal` into a session. -/
def unmarshalSession (raw : Bytes) : Option AdminSession :=
  match parse (utf8Decode 0 raw) with
  | some (.object fields) => fields.foldlM setSessionField ⟨0, 0, []⟩
  | some .null => some ⟨0, 0, []⟩
  | _ => none

/-- `json.Unmarshal` into a list of strings; `null` leaves the list nil. -/
def unmarshalStrings (raw : Bytes) : Option (List Text) :=
  match parse (utf8Decode 0 raw) with
  | some (.array vs) => vs.mapM (readText [])
  | _ => none

/-! ### Tokens -/

/-- `strings.Cut` at a dot. -/
def cutDot : Bytes → Option (Bytes × Bytes)
  | [] => none
  | b :: s => if b = 46 then some ([], s) else (cutDot s).map (fun p => (b :: p.1, p.2))

section Tokens
variable (mac : Bytes → Bytes → Bytes) (key : Bytes)

def signSession (s : AdminSession) : Bytes :=
  if key = [] then []
  else base64 (utf8 (sessionJSON s)) ++ 46 :: hex (mac key (utf8 (sessionJSON s)))

/-- The seconds of `time.Unix(exp, 0)`, whose count from the year 1 has 64 bits. -/
def unixSeconds (exp : Int64) : ℤ := (exp + 62135596800).toInt - 62135596800

/-- `verifySession` at the time `now`, in nanoseconds. -/
def verifySession (token : Bytes) (now : ℤ) : Option AdminSession :=
  match cutDot token with
  | none => none
  | some (payload, sig) =>
      if payload = [] ∨ sig = [] then none
      else
        match base64Decode payload with
        | none => none
        | some raw =>
            if key = [] then none
            else if hexDecode sig ≠ some (mac key raw) then none
            else
              match unmarshalSession raw with
              | none => none
              | some s =>
                  if s.uid ≤ 0 then none
                  else if ¬ now < unixSeconds s.exp * 1000000000 then none
                  else some s

def csrfMessage (s : AdminSession) : Bytes :=
  utf8 ("csrf:".toList ++ Text.itoa s.uid.toInt ++ ':' :: Text.itoa s.exp.toInt)

def csrfToken (s : AdminSession) : Bytes :=
  if key = [] ∨ s.uid ≤ 0 then [] else base64 (mac key (csrfMessage s))

def csrfOK (s : AdminSession) (got : Bytes) : Bool :=
  let want := csrfToken mac key s
  if want = [] ∨ got = [] then false else want = got

def ordersMessage (payload : Bytes) : Bytes := utf8 "browser-orders:".toList ++ payload

def orderCookie (payload : Bytes) : Bytes :=
  if key = [] then [] else payload ++ 46 :: base64 (mac key (ordersMessage payload))

/-- `browserOrders`, which answers nil with `none`. -/
def browserOrders (value : Bytes) : Option (List Text) :=
  match cutDot value with
  | none => none
  | some (payload, _) =>
      if value ≠ orderCookie mac key payload then none
      else
        match base64Decode payload with
        | none => none
        | some raw =>
            match unmarshalStrings raw with
            | none => none
            | some sns => if 40 < sns.length then none else some sns

def ordersPayload (sns : List Text) : Bytes := base64 (utf8 (renderStrings sns))

end Tokens

inductive Issue where
  | session (s : AdminSession)
  | csrf (s : AdminSession)
  | orders (sns : List Text)

def Issue.message : Issue → Bytes
  | session s => utf8 (sessionJSON s)
  | csrf s => csrfMessage s
  | orders sns => ordersMessage (ordersPayload sns)

/-- The string ends in the tag, written in one of the two ways. -/
def EndsInTag (x tag : Bytes) : Prop :=
  ∃ w, w <:+ x ∧ (hexDecode w = some tag ∨ base64Decode w = some tag)

/-- An ideal authenticator, as far as the string `x` of an attacker goes. -/
structure IdealMac (tag : Bytes → Bytes) (issued : Set Issue) (x : Bytes) : Prop where
  unforged : ∀ m, EndsInTag x (tag m) → ∃ i ∈ issued, i.message = m
  distinct : ∀ i ∈ issued, ∀ j ∈ issued, tag i.message = tag j.message → i.message = j.message

/-! ### JSON read back -/

theorem head_toDigits {n : ℕ} (h : 0 < n) : (Nat.toDigits 10 n).head? ≠ some '0' := by
  induction n using Nat.strong_induction_on with
  | _ n ih =>
      by_cases hn : n < 10
      · rw [Nat.toDigits_of_lt_base hn]
        interval_cases n <;> decide
      · rw [Nat.toDigits_of_base_le (by decide) (not_lt.mp hn),
          List.head?_append_of_ne_nil _ Nat.toDigits_ne_nil]
        exact ih (n / 10) (by omega) (by omega)

/-- How an integer is written. -/
theorem itoa_shape (n : ℤ) : ∃ sign ds, Text.itoa n = sign ++ ds ∧ (sign = [] ∨ sign = ['-']) ∧
    ds ≠ [] ∧ (∀ d ∈ ds, d.isDigit = true) ∧ (ds = ['0'] ∨ ds.head? ≠ some '0') := by
  have hdigits : ∀ k : ℕ, ∀ d ∈ Nat.toDigits 10 k, d.isDigit = true :=
    fun k d hd => Nat.isDigit_of_mem_toDigits (by decide) (by decide) hd
  have hlead : ∀ k : ℕ, Nat.toDigits 10 k = ['0'] ∨ (Nat.toDigits 10 k).head? ≠ some '0' := by
    intro k
    rcases Nat.eq_zero_or_pos k with rfl | hk
    · exact Or.inl rfl
    · exact Or.inr (head_toDigits hk)
  rw [Text.itoa]
  by_cases hn : n < 0
  · rw [if_pos hn]
    exact ⟨['-'], _, rfl, Or.inr rfl, Nat.toDigits_ne_nil, hdigits _, hlead _⟩
  · rw [if_neg hn]
    exact ⟨[], _, rfl, Or.inl rfl, Nat.toDigits_ne_nil, hdigits _, hlead _⟩

/-- A printed 64-bit number is read back. -/
theorem parseInt_itoa_int64 (n : Int64) : Text.parseInt (Text.itoa n.toInt) = some n.toInt := by
  have hlow : -2 ^ 63 ≤ n.toInt := n.le_toInt
  have hhigh : n.toInt < 2 ^ 63 := n.toInt_lt
  generalize n.toInt = m at hlow hhigh
  have hdigits : ∀ k : ℕ, ∀ d ∈ Nat.toDigits 10 k, d.isDigit = true :=
    fun k d hd => Nat.isDigit_of_mem_toDigits (by decide) (by decide) hd
  have hall : ∀ k : ℕ, (Nat.toDigits 10 k).all Char.isDigit = true :=
    fun k => List.all_eq_true.mpr (hdigits k)
  have hne : ∀ k : ℕ, Nat.toDigits 10 k ≠ [] := fun k => Nat.toDigits_ne_nil
  rw [Text.itoa]
  by_cases hm : m < 0
  · have hfits : (m.natAbs : ℤ) ≤ 2 ^ 63 := by omega
    have habs : -(m.natAbs : ℤ) = m := by omega
    rw [if_pos hm]
    simp only [Text.parseInt, List.head?_cons, List.tail_cons, decide_true, Bool.true_or, if_true,
      hne, hall, Nat.ofDigitChars_ten_toDigits, decide_false, Bool.not_true, Bool.or_self,
      Bool.false_eq_true, if_false, if_pos hfits, habs]
  · have habs : (m.natAbs : ℤ) = m := by omega
    have hhead : ∀ c, c.isDigit = false → (Nat.toDigits 10 m.natAbs).head? ≠ some c := by
      intro c hc hh
      have hd := hdigits m.natAbs c (List.mem_of_mem_head? (by rw [hh]; rfl))
      rw [hc] at hd
      cases hd
    rw [if_neg hm]
    simp only [Text.parseInt, hhead '-' (by decide), hhead '+' (by decide), decide_false,
      Bool.or_self, Bool.false_eq_true, if_false, hne, hall, Bool.not_true,
      Nat.ofDigitChars_ten_toDigits, habs, if_pos hhigh]

theorem value_itoa (n : ℤ) {c : Char} (hc : c.isDigit = false) (hend : c ∉ ['.', 'e', 'E'])
    (fuel depth : ℕ) (s : Text) :
    value (fuel + 1) depth (Text.itoa n ++ c :: s) =
      some (.number (Text.itoa n), c :: s) := by
  obtain ⟨sign, ds, hshape, hsign, hne, hdigits, hlead⟩ := itoa_shape n
  have hnumber := number_literal hsign hne hdigits hlead hc hend s
  have hhead : ∃ d t, sign ++ ds = d :: t ∧ (d = '-' ∨ d.isDigit = true) := by
    rcases hsign with rfl | rfl
    · obtain ⟨d, t, rfl⟩ := List.exists_cons_of_ne_nil hne
      exact ⟨d, t, rfl, Or.inr (hdigits d List.mem_cons_self)⟩
    · exact ⟨'-', ds, rfl, Or.inl rfl⟩
  obtain ⟨d, t, hcons, hd⟩ := hhead
  have hspace : isSpace d = false := by
    rcases hd with rfl | hd
    · rfl
    · rw [Bool.eq_false_iff]
      intro hs
      simp only [isSpace, Bool.or_eq_true, decide_eq_true_eq] at hs
      rcases hs with ((rfl | rfl) | rfl) | rfl <;> cases hd
  have hopen : d ∉ ['{', '[', '"', 't', 'f', 'n'] := by
    intro hmem
    simp only [List.mem_cons, List.not_mem_nil, or_false] at hmem
    rcases hd with rfl | hd
    · revert hmem
      decide
    · rcases hmem with rfl | rfl | rfl | rfl | rfl | rfl <;> cases hd
  rw [hcons, List.cons_append] at hnumber
  rw [hshape, hcons, List.cons_append, value_number hspace hopen, hnumber]
  rfl

theorem members_sessionJSON (s : AdminSession) (fuel depth : ℕ) :
    members (fuel + 4) depth (sessionJSON s).tail =
      some ([("uid".toList, .number (Text.itoa s.uid.toInt)),
        ("exp".toList, .number (Text.itoa s.exp.toInt)), ("name".toList, .string s.name)], []) := by
  have hcomma : ',' ∉ ['.', 'e', 'E'] := by decide
  have huid := value_itoa s.uid.toInt (c := ',') rfl hcomma (fuel + 2) depth
  have hexp := value_itoa s.exp.toInt (c := ',') rfl hcomma (fuel + 1) depth
  have hname := value_renderString fuel depth s.name ['}']
  exact members_cons (huid _) (members_cons (hexp _) (members_last hname))

theorem parse_sessionJSON (s : AdminSession) : parse (sessionJSON s) =
    some (.object [("uid".toList, .number (Text.itoa s.uid.toInt)),
      ("exp".toList, .number (Text.itoa s.exp.toInt)), ("name".toList, .string s.name)]) := by
  obtain ⟨fuel, hfuel⟩ : ∃ fuel, 2 * (sessionJSON s).length + 2 = fuel + 5 := by
    refine ⟨2 * (sessionJSON s).length - 3, ?_⟩
    have hlen : 2 ≤ (sessionJSON s).length := by
      simp only [sessionJSON, List.length_cons, List.length_append]
      omega
    omega
  have hmembers := members_sessionJSON s fuel 9999
  have hvalue : value (fuel + 5) maxNestingDepth (sessionJSON s) = _ := value_object hmembers
  rw [parse, hfuel, hvalue]
  rfl

/-- What `signSession` signs is read back as the session. -/
theorem unmarshalSession_json (s : AdminSession) :
    unmarshalSession (utf8 (sessionJSON s)) = some s := by
  have hfields : ([("uid".toList, .number (Text.itoa s.uid.toInt)),
      ("exp".toList, .number (Text.itoa s.exp.toInt)), ("name".toList, .string s.name)] :
        List (Text × Value)).foldlM setSessionField ⟨0, 0, []⟩ = some s := by
    have huid : setSessionField ⟨0, 0, []⟩ ("uid".toList, .number (Text.itoa s.uid.toInt)) =
        some ⟨s.uid, 0, []⟩ := by
      change ((Text.parseInt (Text.itoa s.uid.toInt)).map Int64.ofInt).map _ = _
      rw [parseInt_itoa_int64, Option.map_some, Int64.ofInt_toInt]
      rfl
    have hexp : setSessionField ⟨s.uid, 0, []⟩ ("exp".toList, .number (Text.itoa s.exp.toInt)) =
        some ⟨s.uid, s.exp, []⟩ := by
      change ((Text.parseInt (Text.itoa s.exp.toInt)).map Int64.ofInt).map _ = _
      rw [parseInt_itoa_int64, Option.map_some, Int64.ofInt_toInt]
      rfl
    simp only [List.foldlM_cons, List.foldlM_nil, huid, hexp, Option.bind_eq_bind, Option.bind_some]
    rfl
  rw [unmarshalSession, utf8Decode_utf8, parse_sessionJSON]
  exact hfields

theorem unmarshalStrings_render (sns : List Text) :
    unmarshalStrings (utf8 (renderStrings sns)) = some sns := by
  have hread : (sns.map Value.string).mapM (readText []) = some sns := by
    induction sns with
    | nil => rfl
    | cons sn sns ih =>
        rw [List.map_cons, List.mapM_cons, ih]
        rfl
  rw [unmarshalStrings, utf8Decode_utf8, parse_renderStrings]
  exact hread

/-! ### Messages apart -/

theorem utf8Decode_cons (c : Char) (t : Text) (s : Bytes) :
    utf8Decode 0 (utf8 (c :: t) ++ s) = c :: utf8Decode 0 (utf8 t ++ s) := by
  rw [utf8, List.flatMap_cons, List.append_assoc, utf8Decode_char]
  rfl

/-- No form token and no order cookie is signed over what reads as JSON. -/
theorem unmarshalSession_csrf (s : AdminSession) : unmarshalSession (csrfMessage s) = none := by
  have hdecode : utf8Decode 0 (csrfMessage s) = _ := utf8Decode_utf8 _
  rw [unmarshalSession, hdecode]
  rw [show ("csrf:".toList ++ Text.itoa s.uid.toInt ++ ':' :: Text.itoa s.exp.toInt : Text) =
    'c' :: ("srf:".toList ++ Text.itoa s.uid.toInt ++ ':' :: Text.itoa s.exp.toInt) from rfl,
    parse_eq_none rfl (by decide) (by decide) rfl]

theorem unmarshalSession_orders (payload : Bytes) :
    unmarshalSession (ordersMessage payload) = none := by
  have hdecode : utf8Decode 0 (ordersMessage payload) =
      'b' :: utf8Decode 0 (utf8 "rowser-orders:".toList ++ payload) := utf8Decode_cons 'b' _ payload
  rw [unmarshalSession, hdecode, parse_eq_none rfl (by decide) (by decide) rfl]

theorem head_message (i : Issue) : i.message.head? = match i with
    | .session _ => some 123
    | .csrf _ => some 99
    | .orders _ => some 98 := by
  cases i <;> rfl

theorem colon_notMem_itoa (n : ℤ) : ':' ∉ Text.itoa n := by
  obtain ⟨sign, ds, hshape, hsign, -, hdigits, -⟩ := itoa_shape n
  rw [hshape, List.mem_append, not_or]
  constructor
  · rcases hsign with rfl | rfl <;> decide
  · exact fun hmem => absurd (hdigits ':' hmem) (by decide)

theorem itoa_int64_injective {m n : Int64} (h : Text.itoa m.toInt = Text.itoa n.toInt) : m = n := by
  have hm := parseInt_itoa_int64 m
  rw [h, parseInt_itoa_int64] at hm
  exact (Int64.toInt_inj.mp (Option.some.inj hm)).symm

/-- The message of a form token tells the account and the expiry. -/
theorem csrfMessage_inj {s s' : AdminSession} (h : csrfMessage s = csrfMessage s') :
    s.uid = s'.uid ∧ s.exp = s'.exp := by
  have htext := utf8_injective h
  rw [List.append_assoc, List.append_assoc] at htext
  have hrest := List.append_cancel_left htext
  obtain ⟨huid, -, hexp⟩ :=
    (List.append_cons_inj_of_notMem (colon_notMem_itoa _) (colon_notMem_itoa _)).mp hrest
  exact ⟨itoa_int64_injective huid, itoa_int64_injective hexp⟩

theorem cutDot_some {x a b : Bytes} (h : cutDot x = some (a, b)) : x = a ++ 46 :: b := by
  induction x generalizing a with
  | nil => cases h
  | cons c x ih =>
      rw [cutDot] at h
      split at h
      case isTrue hc =>
        obtain ⟨rfl, rfl⟩ := Prod.mk.inj (Option.some.inj h)
        rw [hc, List.nil_append]
      case isFalse =>
        obtain ⟨⟨a', b'⟩, hcut, he⟩ := Option.map_eq_some_iff.mp h
        obtain ⟨rfl, rfl⟩ := Prod.mk.inj he
        rw [ih hcut, List.cons_append]

theorem unixSeconds_le (exp : Int64) : unixSeconds exp ≤ exp.toInt := by
  have hlow : -2 ^ 63 ≤ exp.toInt := exp.le_toInt
  have hhigh : exp.toInt < 2 ^ 63 := exp.toInt_lt
  have hadd : (exp + 62135596800).toInt = (exp.toInt + 62135596800).bmod (2 ^ 64) :=
    Int64.toInt_add exp _
  rw [unixSeconds, hadd, Int.bmod_def]
  split <;> omega

/-! ### What is accepted -/

variable {mac : Bytes → Bytes → Bytes} {key : Bytes} {issued : Set Issue} {x : Bytes}

theorem verifySession_some {now : ℤ} {s : AdminSession} (h : verifySession mac key x now = some s) :
    ∃ payload sig raw, cutDot x = some (payload, sig) ∧ base64Decode payload = some raw ∧ key ≠ [] ∧
      hexDecode sig = some (mac key raw) ∧ unmarshalSession raw = some s ∧ 0 < s.uid ∧
      now < unixSeconds s.exp * 1000000000 := by
  rw [verifySession] at h
  cases hcut : cutDot x with
  | none => simp only [hcut, reduceCtorEq] at h
  | some p =>
      obtain ⟨payload, sig⟩ := p
      cases hraw : base64Decode payload with
      | none => simp only [hcut, hraw, ite_self, reduceCtorEq] at h
      | some raw =>
          cases hread : unmarshalSession raw with
          | none => simp only [hcut, hraw, hread, ite_self, reduceCtorEq] at h
          | some s' =>
              simp only [hcut, hraw, hread, ite_eq_iff, reduceCtorEq, and_false, false_or,
                Option.some.injEq] at h
              obtain ⟨-, hkey, htag, huid, htime, rfl⟩ := h
              exact ⟨payload, sig, raw, rfl, hraw, hkey, not_not.mp htag, hread,
                Int64.not_le.mp huid, not_not.mp htime⟩

theorem browserOrders_some {sns : List Text} (h : browserOrders mac key x = some sns) :
    ∃ payload sig raw, cutDot x = some (payload, sig) ∧ x = orderCookie mac key payload ∧
      base64Decode payload = some raw ∧ unmarshalStrings raw = some sns ∧ sns.length ≤ 40 := by
  rw [browserOrders] at h
  cases hcut : cutDot x with
  | none => simp only [hcut, reduceCtorEq] at h
  | some p =>
      obtain ⟨payload, sig⟩ := p
      cases hraw : base64Decode payload with
      | none => simp only [hcut, hraw, ite_self, reduceCtorEq] at h
      | some raw =>
          cases hread : unmarshalStrings raw with
          | none => simp only [hcut, hraw, hread, ite_self, reduceCtorEq] at h
          | some sns' =>
              simp only [hcut, hraw, hread, ite_eq_iff, reduceCtorEq, and_false, false_or,
                Option.some.injEq] at h
              obtain ⟨hcookie, hlen, rfl⟩ := h
              exact ⟨payload, sig, raw, rfl, not_not.mp hcookie, hraw, hread, not_lt.mp hlen⟩

theorem session_accepted (hx : IdealMac (mac key) issued x) {now : ℤ} {s : AdminSession}
    (h : verifySession mac key x now = some s) :
    .session s ∈ issued ∧ now < s.exp.toInt * 1000000000 ∧
      ∃ payload sig, cutDot x = some (payload, sig) ∧
      base64Decode payload = some (utf8 (sessionJSON s)) := by
  obtain ⟨payload, sig, raw, hcut, hraw, -, htag, hread, -, htime⟩ := verifySession_some h
  have hsuffix : sig <:+ x := by
    rw [cutDot_some hcut]
    exact (List.suffix_cons 46 sig).trans (List.suffix_append payload _)
  obtain ⟨i, hi, rfl⟩ := hx.unforged raw ⟨sig, hsuffix, Or.inl htag⟩
  cases i with
  | session s' =>
      have hs : s' = s := Option.some.inj ((unmarshalSession_json s').symm.trans hread)
      subst hs
      have hexp : unixSeconds s'.exp ≤ s'.exp.toInt := unixSeconds_le s'.exp
      exact ⟨hi, by omega, payload, sig, hcut, hraw⟩
  | csrf s' => cases (unmarshalSession_csrf s').symm.trans hread
  | orders sns => cases (unmarshalSession_orders _).symm.trans hread

theorem orders_accepted (hx : IdealMac (mac key) issued x) {sns : List Text}
    (h : browserOrders mac key x = some sns) :
    .orders sns ∈ issued ∧ x = orderCookie mac key (ordersPayload sns) := by
  obtain ⟨payload, sig, raw, hcut, hcookie, hraw, hread, -⟩ := browserOrders_some h
  have hkey : key ≠ [] := by
    rintro rfl
    rw [hcookie, orderCookie, if_pos rfl] at hcut
    cases hcut
  have htag : EndsInTag x (mac key (ordersMessage payload)) := by
    refine ⟨base64 (mac key (ordersMessage payload)), ?_, Or.inr (base64Decode_base64 _)⟩
    rw [hcookie, orderCookie, if_neg hkey]
    exact (List.suffix_cons 46 _).trans (List.suffix_append payload _)
  obtain ⟨i, hi, hmessage⟩ := hx.unforged _ htag
  have hhead : i.message.head? = some 98 := by
    rw [hmessage]
    rfl
  rw [head_message] at hhead
  cases i with
  | session s => cases hhead
  | csrf s => cases hhead
  | orders sns' =>
      have hpayload : ordersPayload sns' = payload := List.append_cancel_left hmessage
      rw [← hpayload, ordersPayload, base64Decode_base64, Option.some.injEq] at hraw
      rw [← hraw, unmarshalStrings_render, Option.some.injEq] at hread
      rw [← hread]
      exact ⟨hi, hpayload ▸ hcookie⟩

theorem csrfOK_iff {u : AdminSession} :
    csrfOK mac key u x = true ↔ key ≠ [] ∧ 0 < u.uid ∧ x ≠ [] ∧
    x = base64 (mac key (csrfMessage u)) := by
  by_cases h : key = [] ∨ u.uid ≤ 0
  · simp only [csrfOK, csrfToken, if_pos h, true_or, if_true, Bool.false_eq_true, false_iff]
    rintro ⟨hkey, huid, -⟩
    exact h.elim hkey (Int64.not_le.mpr huid)
  · simp only [csrfOK, csrfToken, if_neg h]
    rw [not_or, Int64.not_le] at h
    split
    case isTrue hnil =>
      simp only [Bool.false_eq_true, false_iff]
      rintro ⟨-, -, hne, he⟩
      exact hnil.elim (fun hw => hne (he.trans hw)) hne
    case isFalse hnil =>
      rw [not_or] at hnil
      rw [decide_eq_true_iff]
      exact ⟨fun he => ⟨h.1, h.2, hnil.2, he.symm⟩, fun he => he.2.2.2.symm⟩

theorem base64_injective {s t : Bytes} (h : base64 s = base64 t) : s = t := by
  have hs := base64Decode_base64 s
  rw [h, base64Decode_base64, Option.some.injEq] at hs
  exact hs.symm

theorem csrf_accepted (hx : IdealMac (mac key) issued x) {u : AdminSession}
    (h : csrfOK mac key u x = true) :
    x = csrfToken mac key u ∧ (∃ v, .csrf v ∈ issued ∧ v.uid = u.uid ∧ v.exp = u.exp) ∧
      ∀ v, .csrf v ∈ issued → x = csrfToken mac key v → v.uid = u.uid ∧ v.exp = u.exp := by
  obtain ⟨hkey, huid, hne, he⟩ := csrfOK_iff.mp h
  have hissued : ∃ v, Issue.csrf v ∈ issued ∧ csrfMessage v = csrfMessage u := by
    obtain ⟨i, hi, hmessage⟩ := hx.unforged (csrfMessage u)
      ⟨x, List.suffix_refl x, Or.inr (by rw [he, base64Decode_base64])⟩
    have hhead : i.message.head? = some 99 := by
      rw [hmessage]
      rfl
    rw [head_message] at hhead
    cases i with
    | session s => cases hhead
    | csrf v => exact ⟨v, hi, hmessage⟩
    | orders sns => cases hhead
  obtain ⟨v, hv, hmessage⟩ := hissued
  have hown : ¬(key = [] ∨ u.uid ≤ 0) := not_or.mpr ⟨hkey, Int64.not_le.mpr huid⟩
  refine ⟨by rw [csrfToken, if_neg hown, he], ⟨v, hv, csrfMessage_inj hmessage⟩, ?_⟩
  intro w hw hxw
  have hw' : ¬(key = [] ∨ w.uid ≤ 0) := by
    intro hempty
    rw [csrfToken, if_pos hempty] at hxw
    exact hne hxw
  rw [csrfToken, if_neg hw', he] at hxw
  have htag : mac key (csrfMessage v) = mac key (csrfMessage w) := by
    rw [hmessage]
    exact base64_injective hxw
  have hvw : csrfMessage v = csrfMessage w := hx.distinct _ hv _ hw htag
  exact csrfMessage_inj (hvw.symm.trans hmessage)

/-- Without a key nothing is accepted, whatever the authenticator. -/
theorem nothing_accepted (now : ℤ) (u : AdminSession) :
    verifySession mac [] x now = none ∧ browserOrders mac [] x = none ∧
    csrfOK mac [] u x = false := by
  refine ⟨?_, ?_, ?_⟩
  · rw [Option.eq_none_iff_forall_ne_some]
    intro s h
    obtain ⟨_, _, _, -, -, hkey, -⟩ := verifySession_some h
    exact hkey rfl
  · rw [Option.eq_none_iff_forall_ne_some]
    intro sns h
    obtain ⟨_, _, _, hcut, hcookie, -⟩ := browserOrders_some h
    rw [hcookie, orderCookie, if_pos rfl] at hcut
    cases hcut
  · rw [Bool.eq_false_iff]
    exact fun h => (csrfOK_iff.mp h).1 rfl

/-- No token of one kind passes for another, and none is accepted that was not issued. -/
theorem tokens_separated (hx : IdealMac (mac key) issued x) :
    (∀ now s, verifySession mac key x now = some s →
      .session s ∈ issued ∧ now < s.exp.toInt * 1000000000 ∧
        ∃ payload sig, cutDot x = some (payload, sig) ∧
        base64Decode payload = some (utf8 (sessionJSON s))) ∧
    (∀ sns, browserOrders mac key x = some sns →
      .orders sns ∈ issued ∧ x = orderCookie mac key (ordersPayload sns)) ∧
    (∀ u, csrfOK mac key u x = true →
      x = csrfToken mac key u ∧ (∃ v, .csrf v ∈ issued ∧ v.uid = u.uid ∧ v.exp = u.exp) ∧
        ∀ v, .csrf v ∈ issued → x = csrfToken mac key v → v.uid = u.uid ∧ v.exp = u.exp) ∧
    ∀ now u, verifySession mac [] x now = none ∧ browserOrders mac [] x = none ∧
    csrfOK mac [] u x = false := by
  refine ⟨?_, ?_, ?_, ?_⟩
  · exact fun now s => session_accepted hx
  · exact fun sns => orders_accepted hx
  · exact fun u => csrf_accepted hx
  · exact nothing_accepted

def administrator : AdminSession := ⟨1, 2000000000, "admin".toList⟩

/-- An authenticator that has signed the administrator's session and nothing else. -/
def oneTag (_ message : Bytes) : Bytes :=
  if message = utf8 (sessionJSON administrator) then List.replicate 32 0 else List.replicate 32 255

theorem oneTag_ideal :
    IdealMac (oneTag [1]) {.session administrator} (signSession oneTag [1] administrator) := by
  constructor
  · rintro m ⟨w, hw, htag⟩
    refine ⟨.session administrator, rfl, ?_⟩
    by_contra hm
    rw [oneTag, if_neg (fun he => hm he.symm)] at htag
    have hnone : ∀ w ∈ (signSession oneTag [1] administrator).tails,
        hexDecode w ≠ some (List.replicate 32 255) ∧
        base64Decode w ≠ some (List.replicate 32 255) := by
      decide +kernel
    have hw' := hnone w ((List.mem_tails _ _).mpr hw)
    exact htag.elim hw'.1 hw'.2
  · rintro i rfl j rfl -
    rfl

theorem tokens_separated_administrator :
    let x := signSession oneTag [1] administrator
    verifySession oneTag [1] x 0 = some administrator ∧
      ∀ now s, verifySession oneTag [1] x now = some s → s = administrator ∧
      now < 2000000000 * 1000000000 := by
  constructor
  · decide +kernel
  · intro now s h
    obtain ⟨hissued, htime, -⟩ := (tokens_separated oneTag_ideal).1 now s h
    have hs : s = administrator := Issue.session.inj hissued
    subst hs
    exact ⟨rfl, htime⟩

end Dufaka
