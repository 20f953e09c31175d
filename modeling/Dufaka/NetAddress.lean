import Mathlib.Data.List.TakeWhile
import Dufaka.Encodings
import Dufaka.Lines

/-!
# Internet addresses

The functions of Go's package `net` on addresses: parsing and printing of IPv4 and IPv6 addresses,
hosts with a port, masks and networks. An address is a list of four or of sixteen bytes, and a
parsed address has sixteen: an IPv4 address is stored as the IPv6 address that it is mapped to.
-/

namespace Dufaka
open Encoding

namespace Net

/-! ### Parsing -/

def octet (s : Text) : Option UInt8 :=
  if s = [] ∨ !s.all Char.isDigit ∨ (1 < s.length ∧ s.head? = some '0') ∨
    255 < Nat.ofDigitChars 10 s 0
  then none else some (UInt8.ofNat (Nat.ofDigitChars 10 s 0))

def parseIPv4 (s : Text) : Option Bytes :=
  match (Text.split '.' s).map octet with
  | [some a, some b, some c, some d] => some [a, b, c, d]
  | _ => none

def hexDigitValue (c : Char) : ℕ :=
  if c.isDigit then c.toNat - 48 else if 97 ≤ c.toNat then c.toNat - 87 else c.toNat - 55

def isHexDigit (c : Char) : Bool :=
  c.isDigit || ('a' ≤ c && c ≤ 'f') || ('A' ≤ c && c ≤ 'F')

def hexGroup (s : Text) : ℕ := s.foldl (fun n c => n * 16 + hexDigitValue c) 0

def groupBytes (digits : Text) : Bytes :=
  [UInt8.ofNat (hexGroup digits / 256), UInt8.ofNat (hexGroup digits % 256)]

def embedIPv4 (s : Text) (ip : Bytes) (ellipsis : Option ℕ) : Option (Text × Bytes × Option ℕ) :=
  if (ellipsis = none ∧ ip.length ≠ 12) ∨ 16 < ip.length + 4 then none
  else (parseIPv4 s).map (fun v4 => ([], ip ++ v4, ellipsis))

/-- The loop over the fields between colons. It has room for `n` more fields and has read the bytes
`ip`; `ellipsis` is the place of a double colon. The result has the text that is left. -/
def parseGroups : ℕ → Text → Bytes → Option ℕ → Option (Text × Bytes × Option ℕ)
  | 0, s, ip, ellipsis => some (s, ip, ellipsis)
  | n + 1, s, ip, ellipsis =>
      let digits := s.takeWhile isHexDigit
      let ip' := ip ++ groupBytes digits
      if digits = [] ∨ 4 < digits.length then none
      else match s.drop digits.length with
        | '.' :: _ => embedIPv4 s ip ellipsis
        | [] => some ([], ip', ellipsis)
        | ':' :: ':' :: s =>
            if ellipsis.isSome then none
            else if s = [] then some ([], ip', some ip'.length)
            else parseGroups n s ip' (some ip'.length)
        | ':' :: c :: s => parseGroups n (c :: s) ip' ellipsis
        | _ => none

def expand (ip : Bytes) (ellipsis : Option ℕ) : Option Bytes :=
  match ellipsis with
  | none => if ip.length < 16 then none else some ip
  | some i =>
      if ip.length < 16 then some (ip.take i ++ List.replicate (16 - ip.length) 0 ++ ip.drop i)
        else none

def parseIPv6 (s : Text) : Option Bytes :=
  -- an address with a zone is no `net.IP`
  if '%' ∈ s then none
  else
    match s with
    | [':', ':'] => some (List.replicate 16 0)
    | ':' :: ':' :: s => finish (parseGroups 8 s [] (some 0))
    | s => finish (parseGroups 8 s [] none)
where
  finish : Option (Text × Bytes × Option ℕ) → Option Bytes
    | some ([], ip, ellipsis) => expand ip ellipsis
    | _ => none

def v4InV6Prefix : Bytes := List.replicate 10 0 ++ [0xff, 0xff]

/-- `net.ParseIP`: the first dot or colon decides between the two notations. -/
def parseIP (s : Text) : Option Bytes :=
  match s.find? (fun c => c = '.' || c = ':' || c = '%') with
  | some '.' => (parseIPv4 s).map (v4InV6Prefix ++ ·)
  | some ':' => parseIPv6 s
  | _ => none

/-! ### Printing -/

/-- `IP.To4` -/
def to4 (ip : Bytes) : Option Bytes :=
  if ip.length = 4 then some ip
  else if ip.length = 16 ∧ ip.take 12 = v4InV6Prefix then some (ip.drop 12)
  else none

def fields : Bytes → List ℕ
  | a :: b :: ip => (a.toNat * 256 + b.toNat) :: fields ip
  | _ => []

def zerosFrom (gs : List ℕ) (i : ℕ) : ℕ := ((gs.drop i).takeWhile (· = 0)).length

/-- The place and the length of the first longest run of at least two zero fields. -/
def longestZeros (gs : List ℕ) : Option (ℕ × ℕ) :=
  (List.range gs.length).foldl (fun best i =>
    if 2 ≤ zerosFrom gs i ∧ (best.map Prod.snd).getD 0 < zerosFrom gs i then
      some (i, zerosFrom gs i)
    else best) none

def joinFields (gs : List ℕ) : Text := Text.join [':'] (gs.map (Nat.toDigits 16))

/-- The notation with colons, the longest run of zero fields cut short. -/
def print6 (gs : List ℕ) : Text :=
  match longestZeros gs with
  | none => joinFields gs
  | some (i, n) => joinFields (gs.take i) ++ [':', ':'] ++ joinFields (gs.drop (i + n))

def print4 (ip : Bytes) : Text := Text.join ['.'] (ip.map (fun b => Nat.toDigits 10 b.toNat))

/-- `IP.String` -/
def ipString (ip : Bytes) : Text :=
  match to4 ip with
  | some v4 => print4 v4
  | none => print6 (fields ip)

/-! ### Hosts, masks and networks -/

/-- `net.SplitHostPort` -/
def splitHostPort (hostport : Text) : Option (Text × Text) :=
  if ':' ∉ hostport then none
  else
    let port := (hostport.reverse.takeWhile (· ≠ ':')).reverse
    let i := hostport.length - port.length - 1
    if hostport.head? = some '[' then
      let stop := hostport.idxOf ']'
      if stop + 1 ≠ i ∨ '[' ∈ hostport.drop 1 ∨ ']' ∈ hostport.drop (stop + 1) then none
      else some ((hostport.take stop).drop 1, port)
    else
      let host := hostport.take i
      if ':' ∈ host ∨ '[' ∈ hostport ∨ ']' ∈ hostport then none else some (host, port)

/-- `net.CIDRMask`, with the number of bytes. -/
def cidrMask (ones size : ℕ) : Bytes :=
  (List.range size).map (fun i => UInt8.ofNat (256 - 2 ^ (8 - min 8 (ones - 8 * i))))

/-- `IP.Mask` -/
def mask (ip m : Bytes) : Option Bytes :=
  let m := if m.length = 16 ∧ ip.length = 4 ∧ m.take 12 = List.replicate 12 0xff then m.drop 12
    else m
  let ip := if m.length = 4 ∧ ip.length = 16 ∧ ip.take 12 = v4InV6Prefix then ip.drop 12 else ip
  if ip.length ≠ m.length then none else some (List.zipWith (· &&& ·) ip m)

structure IPNet where
  ip : Bytes
  mask : Bytes

/-- `IPNet.Contains` -/
def IPNet.contains (n : IPNet) (ip : Bytes) : Bool :=
  let nn := (to4 n.ip).getD n.ip
  let m := if n.mask.length = 16 ∧ nn.length = 4 then n.mask.drop 12 else n.mask
  let x := (to4 ip).getD ip
  nn.length = m.length && x.length = nn.length &&
    List.zipWith (· &&& ·) nn m = List.zipWith (· &&& ·) x m

/-- `net.ParseCIDR` -/
def parseCIDR (s : Text) : Option IPNet :=
  match Text.cut '/' s with
  | none => none
  | some (addr, bits) =>
      match parseIP addr with
      | none => none
      | some ip =>
          -- an address with a colon has 128 bits, also when it is a mapped one
          let size := if ':' ∈ addr then 16 else 4
          if bits = [] ∨ !bits.all Char.isDigit ∨ 8 * size < Nat.ofDigitChars 10 bits 0 then none
          else
            let m := cidrMask (Nat.ofDigitChars 10 bits 0) size
            (mask ip m).map (fun n => ⟨n, m⟩)

/-- `IP.IsLoopback` -/
def isLoopback (ip : Bytes) : Bool :=
  match to4 ip with
  | some v4 => v4.head? = some 127
  | none => ip = List.replicate 15 0 ++ [1]

/-! ### A parsed address has sixteen bytes -/

theorem parseIPv4_length {s : Text} {v4 : Bytes} (h : parseIPv4 s = some v4) : v4.length = 4 := by
  rw [parseIPv4] at h
  split at h
  · rw [← Option.some.inj h]
    rfl
  · cases h

theorem embedIPv4_length {s s' : Text} {ip ip' : Bytes} {e e' : Option ℕ}
    (h : embedIPv4 s ip e = some (s', ip', e')) : ip'.length ≤ 16 ∧ e' = e := by
  rw [embedIPv4] at h
  split at h
  next => cases h
  next hplace =>
    obtain ⟨v4, hv4, heq⟩ := Option.map_eq_some_iff.mp h
    cases heq
    rw [List.length_append, parseIPv4_length hv4]
    constructor
    · omega
    · rfl

/-- The loop reads at most sixteen bytes, and it sets the place of a double colon inside of them. -/
theorem parseGroups_length {n : ℕ} {s s' : Text} {ip ip' : Bytes} {e e' : Option ℕ}
    (h : parseGroups n s ip e = some (s', ip', e')) (hip : ip.length + 2 * n ≤ 16) :
    ip'.length ≤ 16 := by
  induction n generalizing s ip e with
  | zero =>
      cases h
      omega
  | succ n ih =>
      have hroom : (ip ++ groupBytes (s.takeWhile isHexDigit)).length + 2 * n ≤ 16 := by
        rw [List.length_append]
        change ip.length + 2 + 2 * n ≤ 16
        omega
      rw [parseGroups] at h
      by_cases hdigits : s.takeWhile isHexDigit = [] ∨ 4 < (s.takeWhile isHexDigit).length
      · rw [if_pos hdigits] at h
        cases h
      · rw [if_neg hdigits] at h
        split at h
        next => exact (embedIPv4_length h).1
        next =>
          cases h
          omega
        next =>
          split at h
          · cases h
          · split at h
            · cases h
              omega
            · exact ih h hroom
        next => exact ih h hroom
        next => cases h

theorem expand_length {ip r : Bytes} {e : Option ℕ} (h : expand ip e = some r)
    (hip : ip.length ≤ 16) :
    r.length = 16 := by
  cases e with
  | none =>
      rw [expand] at h
      by_cases hshort : ip.length < 16
      · rw [if_pos hshort] at h
        cases h
      · rw [if_neg hshort] at h
        cases h
        omega
  | some i =>
      rw [expand] at h
      by_cases hshort : ip.length < 16
      · rw [if_pos hshort] at h
        cases h
        rw [List.length_append, List.length_append, List.length_replicate, List.length_take,
          List.length_drop]
        omega
      · rw [if_neg hshort] at h
        cases h

theorem finish_length {s : Text} {e : Option ℕ} {r : Bytes}
    (h : parseIPv6.finish (parseGroups 8 s [] e) = some r) : r.length = 16 := by
  cases hp : parseGroups 8 s [] e with
  | none =>
      rw [hp] at h
      cases h
  | some q =>
      obtain ⟨left, ip, e'⟩ := q
      rw [hp] at h
      have hlen : ip.length ≤ 16 := parseGroups_length hp (by simp)
      cases left with
      | nil => exact expand_length h hlen
      | cons c left => cases h

theorem parseIPv6_length {s : Text} {ip : Bytes} (h : parseIPv6 s = some ip) : ip.length = 16 := by
  unfold parseIPv6 at h
  by_cases hzone : '%' ∈ s
  · rw [if_pos hzone] at h
    cases h
  · rw [if_neg hzone] at h
    split at h
    next =>
      cases h
      rfl
    next => exact finish_length h
    next => exact finish_length h

theorem parseIP_length {s : Text} {ip : Bytes} (h : parseIP s = some ip) : ip.length = 16 := by
  rw [parseIP] at h
  split at h
  next =>
    obtain ⟨v4, hv4, rfl⟩ := Option.map_eq_some_iff.mp h
    rw [List.length_append, parseIPv4_length hv4]
    rfl
  next => exact parseIPv6_length h
  next => cases h

/-! ### Hexadecimal fields -/

theorem isHexDigit_digitChar {d : ℕ} (hd : d < 16) : isHexDigit d.digitChar = true := by
  revert d
  decide

theorem hexDigitValue_digitChar {d : ℕ} (hd : d < 16) : hexDigitValue d.digitChar = d := by
  revert d
  decide

theorem isHexDigit_of_mem {g : ℕ} {c : Char} (hc : c ∈ Nat.toDigits 16 g) :
    isHexDigit c = true := by
  induction g using Nat.strong_induction_on with
  | _ g ih =>
      by_cases hsmall : g < 16
      · rw [Nat.toDigits_of_lt_base hsmall, List.mem_singleton] at hc
        rw [hc]
        exact isHexDigit_digitChar hsmall
      · rw [Nat.toDigits_of_base_le (by omega) (by omega), List.mem_append,
          List.mem_singleton] at hc
        cases hc with
        | inl hfront => exact ih (g / 16) (by omega) hfront
        | inr hlast =>
            rw [hlast]
            exact isHexDigit_digitChar (Nat.mod_lt g (by omega))

/-- The value of the printed digits is the number again. -/
theorem hexGroup_toDigits (g : ℕ) : hexGroup (Nat.toDigits 16 g) = g := by
  induction g using Nat.strong_induction_on with
  | _ g ih =>
      by_cases hsmall : g < 16
      · rw [Nat.toDigits_of_lt_base hsmall]
        change 0 * 16 + hexDigitValue g.digitChar = g
        rw [hexDigitValue_digitChar hsmall]
        omega
      · have hfront : hexGroup (Nat.toDigits 16 (g / 16)) = g / 16 := ih (g / 16) (by omega)
        rw [Nat.toDigits_of_base_le (by omega) (by omega), hexGroup, List.foldl_append]
        change hexGroup (Nat.toDigits 16 (g / 16)) * 16 + hexDigitValue (g % 16).digitChar = g
        rw [hfront, hexDigitValue_digitChar (Nat.mod_lt g (by omega))]
        omega

theorem toDigits_length_le {g : ℕ} (hg : g < 65536) : (Nat.toDigits 16 g).length ≤ 4 :=
  (Nat.length_toDigits_le_iff (by omega) (by omega)).mpr hg

theorem toDigits_eq_cons (g : ℕ) : ∃ c s, Nat.toDigits 16 g = c :: s ∧ isHexDigit c = true := by
  cases hd : Nat.toDigits 16 g with
  | nil => exact absurd hd Nat.toDigits_ne_nil
  | cons c s => exact ⟨c, s, rfl, isHexDigit_of_mem (hd ▸ List.mem_cons_self)⟩

def fieldBytes (gs : List ℕ) : Bytes :=
  gs.flatMap (fun g => [UInt8.ofNat (g / 256), UInt8.ofNat (g % 256)])

theorem fieldBytes_append (gs hs : List ℕ) :
    fieldBytes (gs ++ hs) = fieldBytes gs ++ fieldBytes hs :=
  List.flatMap_append

theorem append_fieldBytes (ip : Bytes) (g : ℕ) (gs : List ℕ) :
    ip ++ fieldBytes [g] ++ fieldBytes gs = ip ++ fieldBytes (g :: gs) := by
  rw [List.append_assoc, ← fieldBytes_append]
  rfl

theorem fieldBytes_length (gs : List ℕ) : (fieldBytes gs).length = 2 * gs.length := by
  induction gs with
  | nil => rfl
  | cons g gs ih =>
      change (fieldBytes gs).length + 1 + 1 = 2 * (gs.length + 1)
      omega

/-- The reader of fields finds a printed field, whatever comes after it. -/
theorem takeWhile_toDigits (g : ℕ) {rest : Text} (hrest : ∀ c ∈ rest.head?, isHexDigit c = false) :
    (Nat.toDigits 16 g ++ rest).takeWhile isHexDigit = Nat.toDigits 16 g := by
  rw [List.takeWhile_append_of_pos (fun c hc => isHexDigit_of_mem hc)]
  cases rest with
  | nil => rw [List.takeWhile_nil, List.append_nil]
  | cons c rest => rw [List.takeWhile_cons_of_neg (by rw [hrest c rfl]; simp), List.append_nil]

theorem groupBytes_toDigits (g : ℕ) : groupBytes (Nat.toDigits 16 g) = fieldBytes [g] := by
  rw [groupBytes, hexGroup_toDigits]
  rfl

/-! ### The loop over printed fields -/

theorem digits_fit {g : ℕ} (hg : g < 65536) :
    ¬(Nat.toDigits 16 g = [] ∨ 4 < (Nat.toDigits 16 g).length) := by
  have hlen : (Nat.toDigits 16 g).length ≤ 4 := toDigits_length_le hg
  have hne : Nat.toDigits 16 g ≠ [] := Nat.toDigits_ne_nil
  rintro (hnil | hlong)
  · exact hne hnil
  · omega

theorem parseGroups_last {g : ℕ} (hg : g < 65536) (n : ℕ) (ip : Bytes) (e : Option ℕ) :
    parseGroups (n + 1) (Nat.toDigits 16 g) ip e = some ([], ip ++ fieldBytes [g], e) := by
  have htake : (Nat.toDigits 16 g).takeWhile isHexDigit = Nat.toDigits 16 g := by
    have h : (Nat.toDigits 16 g ++ []).takeWhile isHexDigit = Nat.toDigits 16 g :=
      takeWhile_toDigits g (fun c hc => nomatch hc)
    rwa [List.append_nil] at h
  rw [parseGroups, htake, if_neg (digits_fit hg), List.drop_length, groupBytes_toDigits]

theorem parseGroups_colon {g : ℕ} (hg : g < 65536) {c : Char} (hc : c ≠ ':') (n : ℕ) (s : Text)
    (ip : Bytes) (e : Option ℕ) :
    parseGroups (n + 1) (Nat.toDigits 16 g ++ ':' :: c :: s) ip e =
      parseGroups n (c :: s) (ip ++ fieldBytes [g]) e := by
  have hrest : ∀ d ∈ (':' :: c :: s).head?, isHexDigit d = false := by
    rintro d ⟨⟩
    rfl
  rw [parseGroups, takeWhile_toDigits g hrest, if_neg (digits_fit hg), List.drop_left,
    groupBytes_toDigits]
  split
  next h => cases h
  next h => cases h
  next h =>
    cases h
    exact absurd rfl hc
  next h =>
    cases h
    rfl
  next h => exact absurd rfl (h c s)

theorem parseGroups_ellipsis {g : ℕ} (hg : g < 65536) (n : ℕ) (s : Text) (ip : Bytes) :
    parseGroups (n + 1) (Nat.toDigits 16 g ++ ':' :: ':' :: s) ip none =
      if s = [] then some ([], ip ++ fieldBytes [g], some (ip ++ fieldBytes [g]).length)
      else parseGroups n s (ip ++ fieldBytes [g]) (some (ip ++ fieldBytes [g]).length) := by
  have hrest : ∀ d ∈ (':' :: ':' :: s).head?, isHexDigit d = false := by
    rintro d ⟨⟩
    rfl
  rw [parseGroups, takeWhile_toDigits g hrest, if_neg (digits_fit hg), List.drop_left,
    groupBytes_toDigits]
  rfl

theorem joinFields_cons (g g' : ℕ) (gs : List ℕ) :
    joinFields (g :: g' :: gs) = Nat.toDigits 16 g ++ ':' :: joinFields (g' :: gs) := by
  change Nat.toDigits 16 g ++ [':'] ++ joinFields (g' :: gs) = _
  rw [List.append_assoc]
  rfl

theorem ne_colon_of_isHexDigit {c : Char} (hc : isHexDigit c = true) : c ≠ ':' := by
  rintro rfl
  revert hc
  decide

theorem joinFields_eq_cons (g : ℕ) (gs : List ℕ) :
    ∃ c s, joinFields (g :: gs) = c :: s ∧ isHexDigit c = true := by
  obtain ⟨c, s, hcs, hc⟩ := toDigits_eq_cons g
  cases gs with
  | nil => exact ⟨c, s, hcs, hc⟩
  | cons g' gs =>
      refine ⟨c, s ++ ':' :: joinFields (g' :: gs), ?_, hc⟩
      rw [joinFields_cons, hcs]
      rfl

/-- The loop reads printed fields back. -/
theorem parseGroups_joinFields {g : ℕ} {gs : List ℕ} (hgs : ∀ x ∈ g :: gs, x < 65536) {n : ℕ}
    (hn : gs.length < n) (ip : Bytes) (e : Option ℕ) :
    parseGroups n (joinFields (g :: gs)) ip e = some ([], ip ++ fieldBytes (g :: gs), e) := by
  induction gs generalizing g n ip with
  | nil =>
      obtain ⟨m, rfl⟩ := Nat.exists_eq_add_of_lt hn
      exact parseGroups_last (hgs g List.mem_cons_self) _ ip e
  | cons g' gs ih =>
      have hm : 0 < n := by omega
      obtain ⟨m, rfl⟩ := Nat.exists_eq_add_of_lt hm
      obtain ⟨c, s, hcs, hc⟩ := joinFields_eq_cons g' gs
      have hroom : gs.length < 0 + m := by
        rw [List.length_cons] at hn
        omega
      have hrun := ih (fun x hx => hgs x (List.mem_cons_of_mem g hx)) hroom (ip ++ fieldBytes [g])
      rw [hcs] at hrun
      rw [joinFields_cons, hcs,
        parseGroups_colon (hgs g List.mem_cons_self) (ne_colon_of_isHexDigit hc), hrun,
        append_fieldBytes]

/-- The loop reads printed fields on both sides of a double colon back. -/
theorem parseGroups_joinFields_ellipsis {g : ℕ} {gs hs : List ℕ} (hgs : ∀ x ∈ g :: gs, x < 65536)
    (hhs : ∀ x ∈ hs, x < 65536) {n : ℕ} (hn : (g :: gs).length + hs.length ≤ n) (ip : Bytes) :
    parseGroups n (joinFields (g :: gs) ++ ':' :: ':' :: joinFields hs) ip none =
      some ([], ip ++ fieldBytes (g :: gs) ++ fieldBytes hs,
        some (ip ++ fieldBytes (g :: gs)).length) := by
  induction gs generalizing g n ip with
  | nil =>
      have hm : 0 < n := by
        rw [List.length_cons] at hn
        omega
      obtain ⟨m, rfl⟩ := Nat.exists_eq_add_of_lt hm
      refine (parseGroups_ellipsis (hgs g List.mem_cons_self) (0 + m) (joinFields hs) ip).trans ?_
      cases hs with
      | nil =>
          rw [if_pos (show joinFields [] = [] from rfl)]
          change _ = some ([], ip ++ fieldBytes [g] ++ [], _)
          rw [List.append_nil]
      | cons h hs =>
          obtain ⟨c, s, hcs, -⟩ := joinFields_eq_cons h hs
          have hroom : hs.length < 0 + m := by
            rw [List.length_cons, List.length_cons] at hn
            omega
          rw [if_neg (by rw [hcs]; exact List.cons_ne_nil c s), parseGroups_joinFields hhs hroom]
  | cons g' gs ih =>
      have hm : 0 < n := by
        rw [List.length_cons] at hn
        omega
      obtain ⟨m, rfl⟩ := Nat.exists_eq_add_of_lt hm
      obtain ⟨c, s, hcs, hc⟩ := joinFields_eq_cons g' gs
      have hroom : (g' :: gs).length + hs.length ≤ 0 + m := by
        rw [List.length_cons] at hn
        omega
      have hrun := ih (fun x hx => hgs x (List.mem_cons_of_mem g hx)) hroom (ip ++ fieldBytes [g])
      rw [hcs, List.cons_append] at hrun
      rw [joinFields_cons, List.append_assoc, List.cons_append, hcs, List.cons_append,
        parseGroups_colon (hgs g List.mem_cons_self) (ne_colon_of_isHexDigit hc), hrun,
        append_fieldBytes]

/-! ### A printed address is read back -/

/-- The characters of the notation with colons. -/
theorem mem_joinFields {gs : List ℕ} {c : Char} (hc : c ∈ joinFields gs) :
    isHexDigit c = true ∨ c = ':' := by
  induction gs with
  | nil => cases hc
  | cons g gs ih =>
      cases gs with
      | nil => exact Or.inl (isHexDigit_of_mem hc)
      | cons g' gs =>
          rw [joinFields_cons, List.mem_append, List.mem_cons] at hc
          rcases hc with hc | hc | hc
          · exact Or.inl (isHexDigit_of_mem hc)
          · exact Or.inr hc
          · exact ih hc

theorem mem_print6 {gs : List ℕ} {c : Char} (hc : c ∈ print6 gs) :
    isHexDigit c = true ∨ c = ':' := by
  unfold print6 at hc
  split at hc
  next => exact mem_joinFields hc
  next =>
    rw [List.mem_append, List.mem_append] at hc
    rcases hc with (hc | hc) | hc
    · exact mem_joinFields hc
    · right
      simpa using hc
    · exact mem_joinFields hc

theorem zone_notMem_print6 (gs : List ℕ) : '%' ∉ print6 gs := by
  intro hc
  cases mem_print6 hc with
  | inl hhex => revert hhex; decide
  | inr hcolon => revert hcolon; decide

theorem longestZeros_eq {gs : List ℕ} {i n : ℕ} (h : longestZeros gs = some (i, n)) :
    2 ≤ n ∧ n = zerosFrom gs i := by
  have hrun : ∀ p, longestZeros gs = some p → 2 ≤ p.2 ∧ p.2 = zerosFrom gs p.1 := by
    rw [longestZeros]
    apply List.foldlRecOn
      (motive := fun best : Option (ℕ × ℕ) => ∀ p, best = some p → 2 ≤ p.2 ∧ p.2 = zerosFrom gs p.1)
    · intro p hp
      cases hp
    · intro best hbest j _ p hp
      split at hp
      next hlong =>
        cases hp
        exact ⟨hlong.1, rfl⟩
      next => exact hbest p hp
  exact hrun (i, n) h

/-- The zero fields from a place on, and what follows them. -/
theorem drop_eq_zeros (gs : List ℕ) (i : ℕ) :
    gs.drop i = List.replicate (zerosFrom gs i) 0 ++ gs.drop (i + zerosFrom gs i) := by
  have hzeros : (gs.drop i).takeWhile (· = 0) = List.replicate (zerosFrom gs i) 0 := by
    rw [List.eq_replicate_iff]
    constructor
    · rfl
    · intro g hg
      simpa using List.mem_takeWhile_imp hg
  have hrest : (gs.drop i).dropWhile (· = 0) = gs.drop (i + zerosFrom gs i) := by
    calc (gs.drop i).dropWhile (· = 0)
        = ((gs.drop i).takeWhile (· = 0) ++ (gs.drop i).dropWhile (· = 0)).drop (zerosFrom gs i) :=
          List.drop_left.symm
      _ = gs.drop (i + zerosFrom gs i) := by rw [List.takeWhile_append_dropWhile, List.drop_drop]
  rw [← hzeros, ← hrest, List.takeWhile_append_dropWhile]

theorem parseIPv6_joinFields {g : ℕ} {gs : List ℕ} {rest : Text}
    (hzone : '%' ∉ joinFields (g :: gs) ++ rest) :
    parseIPv6 (joinFields (g :: gs) ++ rest) =
      parseIPv6.finish (parseGroups 8 (joinFields (g :: gs) ++ rest) [] none) := by
  obtain ⟨c, s, hcs, hc⟩ := joinFields_eq_cons g gs
  have hcolon : c ≠ ':' := ne_colon_of_isHexDigit hc
  rw [hcs, List.cons_append] at hzone ⊢
  unfold parseIPv6
  rw [if_neg hzone]
  split
  next h => exact absurd (List.cons.inj h).1 hcolon
  next h => exact absurd (List.cons.inj h).1 hcolon
  next => rfl

theorem parseIPv6_ellipsis {s : Text} (hs : s ≠ []) (hzone : '%' ∉ s) :
    parseIPv6 (':' :: ':' :: s) = parseIPv6.finish (parseGroups 8 s [] (some 0)) := by
  have hfull : '%' ∉ ':' :: ':' :: s := by
    simpa using hzone
  unfold parseIPv6
  rw [if_neg hfull]
  split
  next h =>
    cases h
    exact absurd rfl hs
  next h =>
    cases h
    rfl
  next h => exact absurd rfl (h s)

theorem fieldBytes_replicate (n : ℕ) :
    fieldBytes (List.replicate n 0) = List.replicate (2 * n) 0 := by
  induction n with
  | zero => rfl
  | succ n ih =>
      change (0 : UInt8) :: 0 :: fieldBytes (List.replicate n 0) = List.replicate (2 * n + 2) 0
      rw [ih]
      rfl

/-- The zeros go between the fields in front of the double colon and the fields after it. -/
theorem expand_between {front back : Bytes} {m : ℕ} (hm : 0 < m)
    (hlen : front.length + m + back.length = 16) :
    expand (front ++ back) (some front.length) = some (front ++ List.replicate m 0 ++ back) := by
  have hshort : (front ++ back).length < 16 := by
    rw [List.length_append]
    omega
  have hmissing : 16 - (front ++ back).length = m := by
    rw [List.length_append]
    omega
  rw [expand, if_pos hshort, hmissing, List.take_left, List.drop_left]

/-- The reader finds fields that are printed around a double colon. -/
theorem parseIPv6_around {front back : List ℕ} {m : ℕ} (hm : 2 ≤ m)
    (hfront : ∀ x ∈ front, x < 65536) (hback : ∀ x ∈ back, x < 65536)
    (hlen : front.length + m + back.length = 8)
    (hzone : '%' ∉ joinFields front ++ [':', ':'] ++ joinFields back) :
    parseIPv6 (joinFields front ++ [':', ':'] ++ joinFields back) =
      some (fieldBytes front ++ List.replicate (2 * m) 0 ++ fieldBytes back) := by
  have hbytes : (fieldBytes front).length + 2 * m + (fieldBytes back).length = 16 := by
    rw [fieldBytes_length, fieldBytes_length]
    omega
  have hexpand := expand_between (by omega) hbytes
  rw [List.append_assoc] at hzone ⊢
  cases front with
  | nil =>
      cases back with
      | nil =>
          obtain rfl : m = 8 := by simpa using hlen
          rfl
      | cons h hs =>
          obtain ⟨c, s, hcs, -⟩ := joinFields_eq_cons h hs
          have hne : joinFields (h :: hs) ≠ [] := by
            rw [hcs]
            exact List.cons_ne_nil c s
          have hroom : hs.length < 8 := by
            rw [List.length_cons] at hlen
            omega
          have hread : '%' ∉ joinFields (h :: hs) := fun hc =>
            hzone (List.mem_append_right _ (List.mem_append_right _ hc))
          change parseIPv6 (':' :: ':' :: joinFields (h :: hs)) = _
          rw [parseIPv6_ellipsis hne hread, parseGroups_joinFields hback hroom]
          exact hexpand
  | cons g gs =>
      have hroom : (g :: gs).length + back.length ≤ 8 := by omega
      rw [parseIPv6_joinFields hzone]
      change parseIPv6.finish
        (parseGroups 8 (joinFields (g :: gs) ++ ':' :: ':' :: joinFields back) [] none) = _
      rw [parseGroups_joinFields_ellipsis hfront hback hroom]
      exact hexpand

/-- The reader of the notation with colons finds the bytes of the printed fields. -/
theorem parseIPv6_print6 {gs : List ℕ} (hgs : ∀ x ∈ gs, x < 65536) (hlen : gs.length = 8) :
    parseIPv6 (print6 gs) = some (fieldBytes gs) := by
  have hzone : '%' ∉ print6 gs := zone_notMem_print6 gs
  unfold print6 at hzone ⊢
  cases hl : longestZeros gs with
  | none =>
      rw [hl] at hzone
      cases gs with
      | nil => cases hlen
      | cons g gs =>
          have hroom : gs.length < 8 := by
            rw [List.length_cons] at hlen
            omega
          have hfull : ¬(fieldBytes (g :: gs)).length < 16 := by
            rw [fieldBytes_length, hlen]
            omega
          have hread : parseIPv6 (joinFields (g :: gs) ++ []) = _ :=
            parseIPv6_joinFields (by rwa [List.append_nil])
          rw [List.append_nil, parseGroups_joinFields hgs hroom] at hread
          change parseIPv6 (joinFields (g :: gs)) = _
          rw [hread]
          change expand (fieldBytes (g :: gs)) none = _
          rw [expand, if_neg hfull]
  | some p =>
      obtain ⟨i, n⟩ := p
      obtain ⟨hn, rfl⟩ := longestZeros_eq hl
      have hsplit : gs = gs.take i ++ List.replicate (zerosFrom gs i) 0 ++
          gs.drop (i + zerosFrom gs i) := by
        rw [List.append_assoc, ← drop_eq_zeros, List.take_append_drop]
      have hfields :
          (gs.take i).length + zerosFrom gs i + (gs.drop (i + zerosFrom gs i)).length = 8 := by
        have h := congrArg List.length hsplit
        rw [List.length_append, List.length_append, List.length_replicate] at h
        omega
      have hbytes : fieldBytes gs = fieldBytes (gs.take i) ++
          List.replicate (2 * zerosFrom gs i) 0 ++ fieldBytes (gs.drop (i + zerosFrom gs i)) := by
        rw [← fieldBytes_replicate, ← fieldBytes_append, ← fieldBytes_append, ← hsplit]
      rw [hl] at hzone
      rw [hbytes]
      exact parseIPv6_around hn (fun x hx => hgs x (List.mem_of_mem_take hx))
        (fun x hx => hgs x (List.mem_of_mem_drop hx)) hfields hzone

theorem find_eq_of_unique {p : Char → Bool} {s : Text} {m : Char} (hm : m ∈ s) (hp : p m = true)
    (honly : ∀ c ∈ s, p c = true → c = m) : s.find? p = some m := by
  cases hf : s.find? p with
  | none => exact absurd hp (List.find?_eq_none.mp hf m hm)
  | some c => rw [honly c (List.mem_of_find?_eq_some hf) (List.find?_some hf)]

theorem parseIP_of_colon {s : Text} (hc : ':' ∈ s) (hs : ∀ c ∈ s, isHexDigit c = true ∨ c = ':') :
    parseIP s = parseIPv6 s := by
  have hfirst : s.find? (fun c => c = '.' || c = ':' || c = '%') = some ':' := by
    apply find_eq_of_unique hc
    · rfl
    · intro c hcs hmark
      rcases hs c hcs with hhex | hcolon
      · rw [Bool.or_eq_true, Bool.or_eq_true, decide_eq_true_eq, decide_eq_true_eq,
          decide_eq_true_eq] at hmark
        rcases hmark with (rfl | rfl) | rfl <;> revert hhex <;> decide
      · exact hcolon
  rw [parseIP, hfirst]
  rfl

theorem parseIP_of_dot {s : Text} (hd : '.' ∈ s) (hs : ∀ c ∈ s, c.isDigit = true ∨ c = '.') :
    parseIP s = (parseIPv4 s).map (v4InV6Prefix ++ ·) := by
  have hfirst : s.find? (fun c => c = '.' || c = ':' || c = '%') = some '.' := by
    apply find_eq_of_unique hd
    · rfl
    · intro c hcs hmark
      rcases hs c hcs with hdigit | hdot
      · rw [Bool.or_eq_true, Bool.or_eq_true, decide_eq_true_eq, decide_eq_true_eq,
          decide_eq_true_eq] at hmark
        rcases hmark with (rfl | rfl) | rfl <;> revert hdigit <;> decide
      · exact hdot
  rw [parseIP, hfirst]
  rfl

theorem fieldBytes_fields {ip : Bytes} {n : ℕ} (hlen : ip.length = 2 * n) :
    fieldBytes (fields ip) = ip := by
  induction n generalizing ip with
  | zero =>
      rw [List.eq_nil_of_length_eq_zero hlen]
      rfl
  | succ n ih =>
      cases ip with
      | nil => cases hlen
      | cons a ip =>
          cases ip with
          | nil =>
              rw [List.length_singleton] at hlen
              omega
          | cons b ip =>
              have hrest : ip.length = 2 * n := by
                rw [List.length_cons, List.length_cons] at hlen
                omega
              have hb : b.toNat < 256 := b.toNat_lt
              have hhigh : (a.toNat * 256 + b.toNat) / 256 = a.toNat := by omega
              have hlow : (a.toNat * 256 + b.toNat) % 256 = b.toNat := by omega
              change UInt8.ofNat ((a.toNat * 256 + b.toNat) / 256) ::
                UInt8.ofNat ((a.toNat * 256 + b.toNat) % 256) :: fieldBytes (fields ip) =
                a :: b :: ip
              rw [hhigh, hlow, UInt8.ofNat_toNat, UInt8.ofNat_toNat, ih hrest]

theorem fields_length {ip : Bytes} {n : ℕ} (hlen : ip.length = 2 * n) : (fields ip).length = n := by
  have h : (fieldBytes (fields ip)).length = ip.length := by rw [fieldBytes_fields hlen]
  rw [fieldBytes_length] at h
  omega

theorem fields_lt (ip : Bytes) : ∀ g ∈ fields ip, g < 65536 := by
  fun_induction fields ip with
  | case1 a b ip ih =>
      intro g hg
      cases hg with
      | head =>
          have ha : a.toNat < 256 := a.toNat_lt
          have hb : b.toNat < 256 := b.toNat_lt
          omega
      | tail _ hg => exact ih g hg
  | case2 => exact fun g hg => nomatch hg

theorem colon_mem_print6 {gs : List ℕ} (hlen : gs.length = 8) : ':' ∈ print6 gs := by
  unfold print6
  split
  next =>
    match gs, hlen with
    | g :: g' :: gs, _ =>
        rw [joinFields_cons]
        exact List.mem_append_right _ List.mem_cons_self
  next => exact List.mem_append_left _ (List.mem_append_right _ List.mem_cons_self)

/-- The reader of a decimal field finds a printed byte. -/
theorem octet_toDigits (b : UInt8) : octet (Nat.toDigits 10 b.toNat) = some b := by
  have hall : ∀ n < 256, octet (Nat.toDigits 10 n) = some (UInt8.ofNat n) := by decide +kernel
  rw [hall b.toNat b.toNat_lt, UInt8.ofNat_toNat]

theorem dot_notMem_toDigits (n : ℕ) : '.' ∉ Nat.toDigits 10 n := by
  intro h
  have hdigit : '.'.isDigit = true := Nat.isDigit_of_mem_toDigits (by decide) (by decide) h
  revert hdigit
  decide

theorem parseIPv4_print4 {v4 : Bytes} (hlen : v4.length = 4) : parseIPv4 (print4 v4) = some v4 := by
  match v4, hlen with
  | [a, b, c, d], _ =>
      have hparts : Text.split '.' (print4 [a, b, c, d]) =
          [a, b, c, d].map (fun b => Nat.toDigits 10 b.toNat) := by
        apply Text.split_join
        · simp
        · intro l hl
          obtain ⟨b, -, rfl⟩ := List.mem_map.mp hl
          exact dot_notMem_toDigits b.toNat
      rw [parseIPv4, hparts, List.map_map]
      change (match [octet (Nat.toDigits 10 a.toNat), octet (Nat.toDigits 10 b.toNat),
        octet (Nat.toDigits 10 c.toNat), octet (Nat.toDigits 10 d.toNat)] with
        | [some a, some b, some c, some d] => some [a, b, c, d]
        | _ => none) = _
      rw [octet_toDigits, octet_toDigits, octet_toDigits, octet_toDigits]

theorem parseIP_print4 {v4 : Bytes} (hlen : v4.length = 4) :
    parseIP (print4 v4) = some (v4InV6Prefix ++ v4) := by
  have hchars : ∀ c ∈ print4 v4, c.isDigit = true ∨ c = '.' := by
    intro c hc
    cases Text.mem_join hc with
    | inl hsep => exact Or.inr (List.mem_singleton.mp hsep)
    | inr hmem =>
        obtain ⟨l, hl, hcl⟩ := hmem
        obtain ⟨b, -, rfl⟩ := List.mem_map.mp hl
        exact Or.inl (Nat.isDigit_of_mem_toDigits (by decide) (by decide) hcl)
  have hdot : '.' ∈ print4 v4 := by
    match v4, hlen with
    | a :: b :: v4, _ => exact List.mem_append_left _ (List.mem_append_right _ List.mem_cons_self)
  rw [parseIP_of_dot hdot hchars, parseIPv4_print4 hlen]
  rfl

/-- A printed address is read back as the same address. -/
theorem parseIP_ipString {ip : Bytes} (hlen : ip.length = 16) :
    parseIP (ipString ip) = some ip := by
  unfold ipString
  cases hv : to4 ip with
  | none =>
      have hfields : (fields ip).length = 8 := fields_length hlen
      have hchars : ∀ c ∈ print6 (fields ip), isHexDigit c = true ∨ c = ':' :=
        fun c hc => mem_print6 hc
      change parseIP (print6 (fields ip)) = some ip
      rw [parseIP_of_colon (colon_mem_print6 hfields) hchars,
        parseIPv6_print6 (fields_lt ip) hfields, fieldBytes_fields (n := 8) hlen]
  | some v4 =>
      have hne : ¬ip.length = 4 := by omega
      rw [to4, if_neg hne] at hv
      split at hv
      next hmapped =>
        cases hv
        have hrest : (ip.drop 12).length = 4 := by
          rw [List.length_drop, hlen]
        change parseIP (print4 (ip.drop 12)) = some ip
        rw [parseIP_print4 hrest, ← hmapped.2, List.take_append_drop]
      next => cases hv

theorem ipString_injective {ip ip' : Bytes} (hlen : ip.length = 16) (hlen' : ip'.length = 16)
    (h : ipString ip = ipString ip') : ip = ip' := by
  have hread : parseIP (ipString ip) = some ip := parseIP_ipString hlen
  rw [h, parseIP_ipString hlen'] at hread
  exact (Option.some.inj hread).symm

theorem ipString_ne_nil {ip : Bytes} (hlen : ip.length = 16) : ipString ip ≠ [] := by
  intro h
  have hread : parseIP (ipString ip) = some ip := parseIP_ipString hlen
  rw [h] at hread
  cases hread

/-! ### The two notations of an IPv4 address -/

/-- A number that does not begin with a zero is as large as its digits are many. -/
theorem pow_le_ofDigitChars {c : Char} (hc : c.isDigit = true) (hzero : c ≠ '0') (s : Text) :
    10 ^ s.length ≤ Nat.ofDigitChars 10 (c :: s) 0 := by
  have hfirst : 1 ≤ c.toNat - '0'.toNat := by
    have hlow : 48 ≤ c.toNat := by
      simp only [Char.isDigit, Bool.and_eq_true, decide_eq_true_eq] at hc
      exact hc.1
    have hne : c.toNat ≠ 48 := fun h => hzero (Char.toNat_inj.mp h)
    change 1 ≤ c.toNat - 48
    omega
  rw [Nat.ofDigitChars_cons, Nat.ofDigitChars_eq_ofDigitChars_zero]
  calc 10 ^ s.length = 10 ^ s.length * 1 := (Nat.mul_one _).symm
    _ ≤ 10 ^ s.length * (10 * 0 + (c.toNat - '0'.toNat)) := Nat.mul_le_mul_left _ (by omega)
    _ ≤ _ := Nat.le_add_right _ _

/-- A field of a dotted address has at most three digits. -/
theorem octet_digits {s : Text} {b : UInt8} (h : octet s = some b) :
    s ≠ [] ∧ (∀ c ∈ s, c.isDigit = true) ∧ s.length ≤ 3 := by
  rw [octet] at h
  split at h
  next => cases h
  next hgood =>
    rw [not_or, not_or, not_or] at hgood
    obtain ⟨hne, hall, hzero, hsmall⟩ := hgood
    have hdigits : ∀ c ∈ s, c.isDigit = true := by
      simpa using hall
    refine ⟨hne, hdigits, ?_⟩
    cases s with
    | nil => exact absurd rfl hne
    | cons c s =>
        by_cases hs : s = []
        · rw [hs]
          exact (by decide : 1 ≤ 3)
        · have hlong : 1 < (c :: s).length := by
            have := List.length_pos_iff.mpr hs
            rw [List.length_cons]
            omega
          have hc : c ≠ '0' := by
            rintro rfl
            exact hzero ⟨hlong, rfl⟩
          have hpow := pow_le_ofDigitChars (hdigits c List.mem_cons_self) hc s
          by_contra hmany
          have hthree : 10 ^ 3 ≤ 10 ^ s.length := by
            apply Nat.pow_le_pow_right (by omega)
            rw [List.length_cons] at hmany
            omega
          omega

/-- A dotted address is four fields of digits. -/
theorem parseIPv4_fields {s : Text} {v4 : Bytes} (h : parseIPv4 s = some v4) :
    (Text.split '.' s).length = 4 ∧ ∀ l ∈ Text.split '.' s, ∃ x, octet l = some x := by
  rw [parseIPv4] at h
  split at h
  next a b c d hsplit =>
    constructor
    · have hlen := congrArg List.length hsplit
      rwa [List.length_map] at hlen
    · intro l hl
      have hmem : octet l ∈ [some a, some b, some c, some d] := hsplit ▸ List.mem_map_of_mem hl
      cases ho : octet l with
      | none =>
          rw [ho] at hmem
          simp at hmem
      | some x => exact ⟨x, rfl⟩
  next => cases h

/-- The text of a dotted address: a field of at most three digits, a dot, and digits and dots. -/
theorem parseIPv4_text {s : Text} {v4 : Bytes} (h : parseIPv4 s = some v4) :
    ∃ l rest, s = l ++ '.' :: rest ∧ l ≠ [] ∧ l.length ≤ 3 ∧ (∀ c ∈ l, c.isDigit = true) ∧
      ∀ c ∈ s, c.isDigit = true ∨ c = '.' := by
  obtain ⟨hlen, hfields⟩ := parseIPv4_fields h
  have hchars : ∀ c ∈ s, c.isDigit = true ∨ c = '.' := by
    intro c hc
    rw [← Text.join_split '.' s] at hc
    cases Text.mem_join hc with
    | inl hsep => exact Or.inr (List.mem_singleton.mp hsep)
    | inr hmem =>
        obtain ⟨l, hl, hcl⟩ := hmem
        obtain ⟨x, hx⟩ := hfields l hl
        exact Or.inl ((octet_digits hx).2.1 c hcl)
  cases hs : Text.split '.' s with
  | nil =>
      rw [hs] at hlen
      cases hlen
  | cons l ls =>
      cases ls with
      | nil =>
          rw [hs] at hlen
          cases hlen
      | cons l' ls =>
          have hl : l ∈ Text.split '.' s := by
            rw [hs]
            exact List.mem_cons_self
          obtain ⟨x, hx⟩ := hfields l hl
          obtain ⟨hne, hdigits, hshort⟩ := octet_digits hx
          refine ⟨l, Text.join ['.'] (l' :: ls), ?_, hne, hshort, hdigits, hchars⟩
          have hjoin := Text.join_split '.' s
          rw [hs] at hjoin
          rw [← hjoin]
          change l ++ ['.'] ++ Text.join ['.'] (l' :: ls) = _
          rw [List.append_assoc]
          rfl

theorem isHexDigit_of_isDigit {c : Char} (hc : c.isDigit = true) : isHexDigit c = true := by
  rw [isHexDigit, hc]
  rfl

def mappedPrefix : Text := "::ffff:".toList

/-- The plain and the mapped notation of an IPv4 address are the same address. -/
theorem parseIP_mapped {s : Text} {v4 : Bytes} (h : parseIPv4 s = some v4) :
    parseIP s = some (v4InV6Prefix ++ v4) ∧ parseIP (mappedPrefix ++ s) = some
      (v4InV6Prefix ++ v4) := by
  obtain ⟨l, rest, hs, hne, hshort, hdigits, hchars⟩ := parseIPv4_text h
  constructor
  · have hdot : '.' ∈ s := by
      rw [hs]
      exact List.mem_append_right _ List.mem_cons_self
    rw [parseIP_of_dot hdot hchars, h]
    rfl
  · have htake : s.takeWhile isHexDigit = l := by
      rw [hs, List.takeWhile_append_of_pos (fun c hc => isHexDigit_of_isDigit (hdigits c hc)),
        List.takeWhile_cons_of_neg (by decide), List.append_nil]
    have hfit : ¬(l = [] ∨ 4 < l.length) := by
      rintro (hnil | hlong)
      · exact hne hnil
      · omega
    have hdrop : s.drop l.length = '.' :: rest := by rw [hs, List.drop_left]
    have hlast : parseGroups 7 s [0xff, 0xff] (some 0) = some ([], [0xff, 0xff] ++ v4, some 0) := by
      rw [parseGroups, htake, if_neg hfit, hdrop]
      change embedIPv4 s [0xff, 0xff] (some 0) = _
      rw [embedIPv4, if_neg (by decide), h]
      rfl
    obtain ⟨c, s', hcs, hc⟩ : ∃ c s', s = c :: s' ∧ c ≠ ':' := by
      cases l with
      | nil => exact absurd rfl hne
      | cons c l =>
          have hhex : isHexDigit c = true := isHexDigit_of_isDigit (hdigits c List.mem_cons_self)
          exact ⟨c, l ++ '.' :: rest, hs, ne_colon_of_isHexDigit hhex⟩
    have hgroups : parseGroups 8 ("ffff:".toList ++ s) [] (some 0) =
        some ([], [0xff, 0xff] ++ v4, some 0) := by
      have hstep := parseGroups_colon (g := 0xffff) (by decide) hc 7 s' [] (some 0)
      rw [← hcs] at hstep
      exact hstep.trans hlast
    have hzone : '%' ∉ "ffff:".toList ++ s := by
      intro hmem
      rw [List.mem_append] at hmem
      rcases hmem with hfront | hback
      · revert hfront
        decide
      · rcases hchars '%' hback with hdigit | hdot
        · revert hdigit
          decide
        · revert hdot
          decide
    have hv4 : v4.length = 4 := parseIPv4_length h
    have hbytes : ([] : Bytes).length + 10 + ([0xff, 0xff] ++ v4).length = 16 := by
      rw [List.length_append, hv4]
      rfl
    have hexpand : expand ([0xff, 0xff] ++ v4) (some 0) = some (v4InV6Prefix ++ v4) :=
      expand_between (by omega) hbytes
    change parseIPv6 (':' :: ':' :: ("ffff:".toList ++ s)) = _
    rw [parseIPv6_ellipsis (by simp) hzone, hgroups]
    exact hexpand

/-! ### Masks -/

theorem zipWith_ones (ip : Bytes) :
    List.zipWith (· &&& ·) ip (List.replicate ip.length 0xff) = ip := by
  induction ip with
  | nil => rfl
  | cons b ip ih =>
      have hb : b &&& 0xff = b := UInt8.and_neg_one
      rw [List.length_cons, List.replicate_succ, List.zipWith_cons_cons, ih, hb]

theorem zipWith_zeros (ip : Bytes) :
    List.zipWith (· &&& ·) ip (List.replicate ip.length 0) = List.replicate ip.length 0 := by
  induction ip with
  | nil => rfl
  | cons b ip ih =>
      rw [List.length_cons, List.replicate_succ, List.zipWith_cons_cons, ih, UInt8.and_zero]

/-- The mask of 64 bits keeps the first half of an address and clears the rest. -/
theorem mask_prefix {ip : Bytes} (hlen : ip.length = 16) :
    mask ip (cidrMask 64 16) = some (ip.take 8 ++ List.replicate 8 0) := by
  have hmask : cidrMask 64 16 = List.replicate 8 0xff ++ List.replicate 8 0 := by decide
  have hfront : (ip.take 8).length = 8 := by
    rw [List.length_take]
    omega
  have hback : (ip.drop 8).length = 8 := by
    rw [List.length_drop]
    omega
  have hand : List.zipWith (· &&& ·) (ip.take 8 ++ ip.drop 8) (cidrMask 64 16) =
      ip.take 8 ++ List.replicate 8 0 := by
    have hones := zipWith_ones (ip.take 8)
    have hzeros := zipWith_zeros (ip.drop 8)
    rw [hfront] at hones
    rw [hback] at hzeros
    rw [hmask, List.zipWith_append (by rw [hfront, List.length_replicate]), hones, hzeros]
  rw [List.take_append_drop] at hand
  have hsize : (cidrMask 64 16).length = 16 := rfl
  have hplain : ¬((cidrMask 64 16).length = 16 ∧ ip.length = 4 ∧
      (cidrMask 64 16).take 12 = List.replicate 12 0xff) := by
    rintro ⟨-, hfour, -⟩
    omega
  have hlong : ¬((cidrMask 64 16).length = 4 ∧ ip.length = 16 ∧ ip.take 12 = v4InV6Prefix) := by
    rintro ⟨hfour, -⟩
    omega
  rw [mask, if_neg hplain, if_neg hlong, if_neg (by omega), hand]

end Net
end Dufaka
