import Dufaka.OrderPages
import Dufaka.Tokens

/-!
# The orders of a browser

The cookie that shows a browser's orders. Every answered checkout makes it from the one that the
request carried, and keeps the last forty. On the way the cookie of the order pages is read in
bytes.
-/

namespace Dufaka
open Encoding JsonText

/-! ### The last forty -/

def lastForty (sns : List Text) : List Text :=
  if 40 < sns.length then sns.drop (sns.length - 40) else sns

theorem lastForty_eq (sns : List Text) : lastForty sns = sns.drop (sns.length - 40) := by
  unfold lastForty
  split_ifs with h
  · rfl
  · have hzero : sns.length - 40 = 0 := by omega
    rw [hzero, List.drop_zero]

theorem lastForty_of_le {sns : List Text} (h : sns.length ≤ 40) : lastForty sns = sns :=
  if_neg (by omega)

theorem length_lastForty_le (sns : List Text) : (lastForty sns).length ≤ 40 := by
  rw [lastForty_eq, List.length_drop]
  omega

theorem lastForty_sublist (sns : List Text) : (lastForty sns).Sublist sns := by
  rw [lastForty_eq]
  exact List.drop_sublist _ sns

/-- What was dropped before does not come back. -/
theorem lastForty_append (sns more : List Text) :
    lastForty (lastForty sns ++ more) = lastForty (sns ++ more) := by
  have happ : sns.drop (sns.length - 40) ++ more = (sns ++ more).drop (sns.length - 40) :=
    (List.drop_append_of_le_length (by omega)).symm
  rw [lastForty_eq sns, happ, lastForty_eq, lastForty_eq, List.drop_drop, List.length_drop]
  congr 1
  rw [List.length_append]
  omega

/-! ### The cookie -/

theorem dot_notMem_base64 (s : Bytes) : 46 ∉ base64 s := by
  have hdigit : ∀ n < 64, base64Digit n ≠ 46 := by decide
  intro hmem
  obtain ⟨n, hn, he⟩ := List.mem_map.mp hmem
  exact hdigit n (sextets_lt s n hn) he

theorem cutDot_append {a : Bytes} (h : 46 ∉ a) (b : Bytes) :
    cutDot (a ++ 46 :: b) = some (a, b) := by
  induction a with
  | nil => rfl
  | cons c a ih =>
      rw [List.mem_cons, not_or] at h
      obtain ⟨hc, ha⟩ := h
      rw [List.cons_append, cutDot, if_neg (Ne.symm hc), ih ha, Option.map_some]

section Cookie
variable (mac : Bytes → Bytes → Bytes) (key : Bytes)

def cookieOrders (cookie : Option Bytes) : List Text :=
  (cookie.bind (browserOrders mac key)).getD []

def remember (cookie : Option Bytes) (sn : Text) : Bytes :=
  orderCookie mac key (ordersPayload (lastForty (cookieOrders mac key cookie ++ [sn])))

variable {mac key}

theorem browserOrders_orderCookie (hkey : key ≠ []) {sns : List Text} (h : sns.length ≤ 40) :
    browserOrders mac key (orderCookie mac key (ordersPayload sns)) = some sns := by
  have hcut : cutDot (orderCookie mac key (ordersPayload sns)) =
      some (ordersPayload sns, base64 (mac key (ordersMessage (ordersPayload sns)))) := by
    rw [orderCookie, if_neg hkey]
    exact cutDot_append (dot_notMem_base64 _) _
  have hpayload : base64Decode (ordersPayload sns) = some (utf8 (renderStrings sns)) :=
    base64Decode_base64 _
  rw [browserOrders, hcut]
  simp only [ne_eq, not_true_eq_false, if_false, hpayload, unmarshalStrings_render]
  exact if_neg (not_lt.mpr h)

theorem cookieOrders_remember (hkey : key ≠ []) (cookie : Option Bytes) (sn : Text) :
    cookieOrders mac key (some (remember mac key cookie sn)) =
      lastForty (cookieOrders mac key cookie ++ [sn]) := by
  have h : browserOrders mac key (remember mac key cookie sn) =
      some (lastForty (cookieOrders mac key cookie ++ [sn])) :=
    browserOrders_orderCookie hkey (length_lastForty_le _)
  rw [cookieOrders, Option.bind_some, h, Option.getD_some]

theorem cookieOrders_nil (cookie : Option Bytes) : cookieOrders mac [] cookie = [] := by
  cases cookie with
  | none => rfl
  | some x =>
      have h : browserOrders mac [] x = none := (nothing_accepted 0 ⟨0, 0, []⟩).2.1
      rw [cookieOrders, Option.bind_some, h, Option.getD_none]

theorem length_cookieOrders_le (cookie : Option Bytes) :
    (cookieOrders mac key cookie).length ≤ 40 := by
  cases h : cookie.bind (browserOrders mac key) with
  | none =>
      rw [cookieOrders, h]
      exact Nat.zero_le 40
  | some sns =>
      obtain ⟨x, -, hx⟩ := Option.bind_eq_some_iff.mp h
      obtain ⟨_, _, _, -, -, -, -, hlen⟩ := browserOrders_some hx
      rw [cookieOrders, h]
      exact hlen

end Cookie

/-! ### In the order pages -/

def latin (x : Bytes) : Text := x.map (fun b => Char.ofNat b.toNat)

def bytesOf (t : Text) : Bytes := t.map (fun c => UInt8.ofNat c.toNat)

theorem toNat_latinChar (b : UInt8) : (Char.ofNat b.toNat).toNat = b.toNat := by
  have hlt : b.toNat < 256 := b.toNat_lt
  have hvalid : b.toNat.isValidChar := Or.inl (by omega)
  rw [Char.ofNat, dif_pos hvalid]
  rfl

theorem bytesOf_latin (x : Bytes) : bytesOf (latin x) = x := by
  induction x with
  | nil => rfl
  | cons b x ih =>
      change UInt8.ofNat (Char.ofNat b.toNat).toNat :: bytesOf (latin x) = b :: x
      rw [ih, toNat_latinChar, UInt8.ofNat_toNat]

theorem latin_inj {x y : Bytes} : latin x = latin y ↔ x = y := by
  constructor
  · intro h
    rw [← bytesOf_latin x, h, bytesOf_latin]
  · exact congrArg latin

theorem latinChar_eq_dot {b : UInt8} : Char.ofNat b.toNat = '.' ↔ b = 46 := by
  constructor
  · intro h
    have hnat := toNat_latinChar b
    rw [h] at hnat
    exact UInt8.toNat_inj.mp hnat.symm
  · rintro rfl
    rfl

theorem cut_latin (x : Bytes) :
    Text.cut '.' (latin x) = (cutDot x).map (fun p => (latin p.1, latin p.2)) := by
  induction x with
  | nil => rfl
  | cons b x ih =>
      change Text.cut '.' (Char.ofNat b.toNat :: latin x) = _
      rw [Text.cut, cutDot, ih]
      by_cases hb : b = 46
      · rw [if_pos hb, if_pos (latinChar_eq_dot.mpr hb)]
        rfl
      · rw [if_neg hb, if_neg (fun h => hb (latinChar_eq_dot.mp h)), Option.map_map, Option.map_map]
        rfl

section Pages
variable (mac : Bytes → Bytes → Bytes) (key : Bytes)

def byteCookies : CookieEnv where
  sessionKey := latin key
  mac k m := latin (base64 (mac (bytesOf k) (bytesOf m)))
  decodeString payload := (base64Decode (bytesOf payload)).map latin
  unmarshal raw := unmarshalStrings (bytesOf raw)

theorem orderCookie_latin (payload : Bytes) :
    (byteCookies mac key).orderCookie (latin payload) = latin (orderCookie mac key payload) := by
  have hmessage : bytesOf ("browser-orders:".toList ++ latin payload) = ordersMessage payload := by
    have hprefix : bytesOf "browser-orders:".toList = utf8 "browser-orders:".toList := by decide
    rw [bytesOf, List.map_append, ← bytesOf, ← bytesOf, bytesOf_latin, hprefix]
    rfl
  change (if latin key = latin [] then []
    else latin payload ++ '.' :: latin (base64 (mac (bytesOf (latin key))
    (bytesOf ("browser-orders:".toList ++ latin payload))))) = _
  rw [hmessage, bytesOf_latin, orderCookie]
  by_cases hkey : key = []
  · rw [if_pos hkey, if_pos (congrArg latin hkey)]
    rfl
  · rw [if_neg hkey, if_neg (fun h => hkey (latin_inj.mp h)), latin, latin, latin, List.map_append,
      List.map_cons]
    rfl

theorem browserOrders_latin (x : Bytes) :
    (byteCookies mac key).browserOrders (latin x) = cookieOrders mac key (some x) := by
  rw [cookieOrders, Option.bind_some, CookieEnv.browserOrders, browserOrders, cut_latin]
  cases hcut : cutDot x with
  | none => rfl
  | some p =>
      obtain ⟨payload, sig⟩ := p
      rw [Option.map_some]
      simp only [orderCookie_latin]
      by_cases hcookie : x = orderCookie mac key payload
      · rw [if_neg (not_not.mpr hcookie), if_neg (not_not.mpr (latin_inj.mpr hcookie))]
        have hdecode : ((byteCookies mac key).decodeString (latin payload)).bind
            (byteCookies mac key).unmarshal = (base64Decode payload).bind unmarshalStrings := by
          change ((base64Decode (bytesOf (latin payload))).map latin).bind (fun raw =>
            unmarshalStrings (bytesOf raw)) = _
          rw [bytesOf_latin, Option.bind_map]
          simp only [Function.comp_def, bytesOf_latin]
        rw [hdecode]
        cases hraw : base64Decode payload with
        | none => rfl
        | some raw =>
            cases hread : unmarshalStrings raw with
            | none => simp only [Option.bind_some, hread, Option.getD_none]
            | some sns =>
                simp only [Option.bind_some, hread, gt_iff_lt]
                split_ifs
                · rfl
                · rfl
      · rw [if_pos hcookie, if_pos (fun h => hcookie (latin_inj.mp h))]
        rfl

/-- A request owns an order when its cookie shows it. -/
theorem ownsOrder_latin (cookie : Option Bytes) (sn : Text) :
    (byteCookies mac key).ownsOrder (cookie.map latin) sn = true ↔
    sn ∈ cookieOrders mac key cookie := by
  cases cookie with
  | none => exact iff_of_false Bool.false_ne_true (List.not_mem_nil)
  | some x =>
      rw [Option.map_some, CookieEnv.ownsOrder, browserOrders_latin]
      exact List.contains_iff_mem

end Pages

end Dufaka
