import Dufaka.NetAddress

/-!
# The client address

The package `netx`: the address of the end client of a request and the key that its limits are
counted under. Headers count only from a trusted reverse proxy, and then exactly one value of one
header does, the one that the proxy itself writes. So nothing that a client sends can choose the
key.
-/

namespace Dufaka

namespace Netx

structure ProxyEnv where
  /-- `DUFAKA_REAL_IP_HEADER` -/
  realIPHeader : Text
  /-- `DUFAKA_TRUSTED_PROXIES` -/
  trustedProxies : Text

/-- The part of a request that an address is read from: the peer and the lines of each header, under
its canonical name. -/
structure HttpRequest where
  remoteAddr : Text
  header : Text → List Text

/-- `http.CanonicalHeaderKey`, for a name of token characters. -/
def canonicalHeaderKey (name : Text) : Text := go true name
where
  go : Bool → Text → Text
    | _, [] => []
    | upper, c :: s => (if upper then c.toUpper else c.toLower) :: go (c = '-') s

def HttpRequest.values (r : HttpRequest) (name : Text) : List Text :=
  r.header (canonicalHeaderKey name)

/-- `Header.Get`: the first line of a header, or the empty text. -/
def HttpRequest.get (r : HttpRequest) (name : Text) : Text := (r.values name).headD []

def xRealIP : Text := "X-Real-IP".toList

def xForwardedFor : Text := "X-Forwarded-For".toList

/-! ### One address -/

def isBracket (c : Char) : Bool := c = '[' || c = ']'

/-- `strings.Trim` with both brackets. -/
def trimBrackets (s : Text) : Text := ((s.dropWhile isBracket).reverse.dropWhile isBracket).reverse

def hostOnly (addr : Text) : Text :=
  match Net.splitHostPort addr.trimSpace with
  | some (host, _) => trimBrackets host
  | none => trimBrackets addr.trimSpace

def stripZone (h : Text) : Text := h.takeWhile (· ≠ '%')

def parseIP (v : Text) : Text :=
  if v.trimSpace = [] ∨ 64 < v.trimSpace.byteLength then []
  else match Net.parseIP (stripZone (hostOnly v.trimSpace)) with
    | some ip => Net.ipString ip
    | none => []

/-! ### Trusted proxies -/

/-- `strings.ToLower` on the characters whose lower case is an ASCII letter. -/
def lower (s : Text) : Text :=
  s.map (fun c => if c = '\u0130' then 'i' else if c = '\u212a' then 'k' else c.toLower)

/-- The header that a trusted proxy overwrites; a setting that is not known means `X-Real-IP`. -/
def realIPHeader (env : ProxyEnv) : Text :=
  let name := lower env.realIPHeader.trimSpace
  if name = [] ∨ name = "x-real-ip".toList then xRealIP
  else if name = "x-forwarded-for".toList then xForwardedFor
  else xRealIP

/-- One entry of `DUFAKA_TRUSTED_PROXIES`: a network, or an address for a single host. -/
def trustedNet (item : Text) : Option Net.IPNet :=
  if item = [] then none
  else if '/' ∈ item then Net.parseCIDR item
  else (Net.parseIP (stripZone item)).map (fun ip =>
    match Net.to4 ip with
    | some v4 => ⟨v4, Net.cidrMask 32 4⟩
    | none => ⟨ip, Net.cidrMask 128 16⟩)

/-- Entries that do not parse are skipped. -/
def parseTrusted (spec : Text) : List Net.IPNet :=
  (Text.split ',' spec).filterMap (fun item => trustedNet item.trimSpace)

def trustsProxy (env : ProxyEnv) (r : HttpRequest) : Bool :=
  match Net.parseIP (stripZone (hostOnly r.remoteAddr)) with
  | none => false
  | some ip => Net.isLoopback ip || (parseTrusted env.trustedProxies).any (fun n => n.contains ip)

/-! ### The client of a request -/

def peer (r : HttpRequest) : Text :=
  if parseIP (hostOnly r.remoteAddr) ≠ [] then parseIP (hostOnly r.remoteAddr)
    else hostOnly r.remoteAddr

def named (peer v : Text) : Text × Bool :=
  if parseIP v ≠ [] then (parseIP v, true) else (peer, false)

def lastForwarded (peer : Text) : List Text → Text × Bool
  | [] => (peer, false)
  | entry :: entries =>
      if entry.trimSpace = [] then lastForwarded peer entries else named peer entry

/-- The address of the end client, and whether it really names the client. -/
def clientAddr (env : ProxyEnv) (r : HttpRequest) : Text × Bool :=
  if trustsProxy env r = false then (peer r, true)
  else if realIPHeader env = xForwardedFor then
    lastForwarded (peer r) ((r.values xForwardedFor).flatMap (Text.split ',')).reverse
  else named (peer r) (r.get xRealIP)

/-- The key that limits are counted under: an IPv4 address as it is, an IPv6 address with its
/64. -/
def limiterKey (ip : Text) : Text :=
  match Net.parseIP ip with
  | none => ip
  | some p =>
      match Net.to4 p with
      | some v4 => Net.ipString v4
      | none =>
          match Net.mask p (Net.cidrMask 64 16) with
          | some q => Net.ipString q ++ "/64".toList
          | none => "<nil>/64".toList

/-! ### The value that counts -/

/-- The last entry of the forwarded addresses that is not blank, over all lines of the header. -/
def lastEntry (lines : List Text) : Option Text :=
  (lines.flatMap (Text.split ',')).reverse.find? (fun entry => !entry.isBlank)

/-- The loop answers on the last entry that is not blank. -/
theorem lastForwarded_eq (peer : Text) (entries : List Text) :
    lastForwarded peer entries =
      ((entries.find? (fun entry => !entry.isBlank)).map (named peer)).getD (peer, false) := by
  induction entries with
  | nil => rfl
  | cons entry entries ih =>
      by_cases hblank : entry.trimSpace = []
      · have hskip : entry.isBlank = true := decide_eq_true hblank
        rw [lastForwarded, if_pos hblank, ih, List.find?_cons, hskip]
        rfl
      · have hstop : entry.isBlank = false := decide_eq_false hblank
        rw [lastForwarded, if_neg hblank, List.find?_cons, hstop]
        rfl

/-- Lines in front do not count. -/
theorem lastEntry_append {entry : Text} (h : lastEntry [entry] ≠ none) (lines : List Text) :
    lastEntry (lines ++ [entry]) = lastEntry [entry] := by
  obtain ⟨e, he⟩ := Option.ne_none_iff_exists'.mp h
  rw [he]
  rw [lastEntry] at he ⊢
  rw [List.flatMap_append, List.reverse_append, List.find?_append, he]
  rfl

/-- Entries in front, on the same line, do not count either. -/
theorem lastEntry_append_front {entry : Text} (h : lastEntry [entry] ≠ none) (lines : List Text)
    (front : Text) :
    lastEntry (lines ++ [front ++ ',' :: entry]) = lastEntry [entry] := by
  have hline : lastEntry (lines ++ [front ++ ',' :: entry]) =
      lastEntry (lines ++ [front] ++ [entry]) := by
    rw [lastEntry, lastEntry, List.append_assoc, List.flatMap_append, List.flatMap_append]
    congr 3
    change Text.split ',' (front ++ ',' :: entry) ++ [] = Text.split ',' front ++
      (Text.split ',' entry ++ [])
    rw [Text.split_append_cons, List.append_nil, List.append_nil]
  rw [hline, lastEntry_append h]

/-- A text that names an address: not blank, of at most 64 bytes, and an address after its port, its
brackets and its zone are taken off. -/
def NamesIP (v : Text) : Prop :=
  v.trimSpace ≠ [] ∧ v.trimSpace.byteLength ≤ 64 ∧
    ∃ ip, Net.parseIP (stripZone (hostOnly v.trimSpace)) = some ip

theorem parseIP_ne_nil_iff (v : Text) : parseIP v ≠ [] ↔ NamesIP v := by
  rw [parseIP]
  by_cases hbad : v.trimSpace = [] ∨ 64 < v.trimSpace.byteLength
  · rw [if_pos hbad]
    constructor
    · intro h
      exact absurd rfl h
    · rintro ⟨hne, hshort, -⟩
      cases hbad with
      | inl hnil => exact absurd hnil hne
      | inr hlong => omega
  · rw [if_neg hbad]
    rw [not_or, not_lt] at hbad
    cases hp : Net.parseIP (stripZone (hostOnly v.trimSpace)) with
    | none =>
        constructor
        · intro h
          exact absurd rfl h
        · rintro ⟨-, -, ip, hip⟩
          rw [hp] at hip
          cases hip
    | some ip =>
        constructor
        · intro _
          exact ⟨hbad.1, hbad.2, ip, hp⟩
        · intro _
          exact Net.ipString_ne_nil (Net.parseIP_length hp)

theorem named_of_not_namesIP {v : Text} (h : ¬NamesIP v) (peer : Text) :
    named peer v = (peer, false) := by
  rw [named, if_neg (mt (parseIP_ne_nil_iff v).mp h)]

theorem named_of_namesIP {v : Text} (h : NamesIP v) (peer : Text) :
    named peer v = (parseIP v, true) := by
  rw [named, if_pos ((parseIP_ne_nil_iff v).mpr h)]

/-! ### What the client address depends on -/

section Requests

variable {env : ProxyEnv} {r r' : HttpRequest}

theorem peer_congr (h : r.remoteAddr = r'.remoteAddr) : peer r = peer r' := by
  rw [peer, peer, h]

theorem trustsProxy_congr (h : r.remoteAddr = r'.remoteAddr) :
    trustsProxy env r = trustsProxy env r' := by
  rw [trustsProxy, trustsProxy, h]

theorem clientAddr_untrusted (htrust : trustsProxy env r = false) :
    clientAddr env r = (peer r, true) := by
  rw [clientAddr, if_pos htrust]

theorem xRealIP_ne_xForwardedFor : xRealIP ≠ xForwardedFor := by decide

theorem clientAddr_realIP (htrust : trustsProxy env r = true) (hmode : realIPHeader env = xRealIP) :
    clientAddr env r = named (peer r) (r.get xRealIP) := by
  have htrusted : ¬trustsProxy env r = false := by
    rw [htrust]
    simp
  have hother : ¬realIPHeader env = xForwardedFor := by
    rw [hmode]
    exact xRealIP_ne_xForwardedFor
  rw [clientAddr, if_neg htrusted, if_neg hother]

theorem clientAddr_forwardedFor (htrust : trustsProxy env r = true)
    (hmode : realIPHeader env = xForwardedFor) :
    clientAddr env r =
      ((lastEntry (r.values xForwardedFor)).map (named (peer r))).getD (peer r, false) := by
  have htrusted : ¬trustsProxy env r = false := by
    rw [htrust]
    simp
  rw [clientAddr, if_neg htrusted, if_pos hmode, lastForwarded_eq]
  rfl

def SameClient (env : ProxyEnv) (r r' : HttpRequest) : Prop :=
  clientAddr env r = clientAddr env r' ∧
    limiterKey (clientAddr env r).1 = limiterKey (clientAddr env r').1

theorem sameClient_of_clientAddr (h : clientAddr env r = clientAddr env r') :
    SameClient env r r' := by
  constructor
  · exact h
  · rw [h]

theorem sameClient_untrusted (hpeer : r.remoteAddr = r'.remoteAddr)
    (htrust : trustsProxy env r = false) :
    SameClient env r r' := by
  apply sameClient_of_clientAddr
  have htrust' : trustsProxy env r' = false := by rw [← trustsProxy_congr hpeer, htrust]
  rw [clientAddr_untrusted htrust, clientAddr_untrusted htrust', peer_congr hpeer]

theorem sameClient_realIP (hpeer : r.remoteAddr = r'.remoteAddr) (htrust : trustsProxy env r = true)
    (hmode : realIPHeader env = xRealIP)
    (hvalue : (r.values xRealIP).head? = (r'.values xRealIP).head?) :
    SameClient env r r' := by
  apply sameClient_of_clientAddr
  have htrust' : trustsProxy env r' = true := by rw [← trustsProxy_congr hpeer, htrust]
  have hget : r.get xRealIP = r'.get xRealIP := by
    rw [HttpRequest.get, HttpRequest.get, List.headD_eq_head?_getD, List.headD_eq_head?_getD,
      hvalue]
  rw [clientAddr_realIP htrust hmode, clientAddr_realIP htrust' hmode, peer_congr hpeer, hget]

theorem sameClient_forwardedFor (hpeer : r.remoteAddr = r'.remoteAddr)
    (htrust : trustsProxy env r = true) (hmode : realIPHeader env = xForwardedFor)
    (hvalue : lastEntry (r.values xForwardedFor) = lastEntry (r'.values xForwardedFor)) :
    SameClient env r r' := by
  apply sameClient_of_clientAddr
  have htrust' : trustsProxy env r' = true := by rw [← trustsProxy_congr hpeer, htrust]
  rw [clientAddr_forwardedFor htrust hmode, clientAddr_forwardedFor htrust' hmode, peer_congr hpeer,
    hvalue]

/-- The answer is the address that the one value names, and unknown when it names none. -/
def AnswersOn (env : ProxyEnv) (r : HttpRequest) (v : Text) : Prop :=
  (NamesIP v → clientAddr env r = (parseIP v, true)) ∧
    (¬NamesIP v → clientAddr env r = (peer r, false))

theorem answersOn_of_named {v : Text} (h : clientAddr env r = named (peer r) v) :
    AnswersOn env r v := by
  constructor
  · intro hv
    rw [h, named_of_namesIP hv]
  · intro hv
    rw [h, named_of_not_namesIP hv]

/-- An entry that names no address is not skipped. -/
theorem answersOn_lastEntry (htrust : trustsProxy env r = true)
    (hmode : realIPHeader env = xForwardedFor) {entry : Text}
    (hentry : lastEntry (r.values xForwardedFor) = some entry) :
    AnswersOn env r entry := by
  apply answersOn_of_named
  rw [clientAddr_forwardedFor htrust hmode, hentry]
  rfl

theorem clientAddr_no_entry (htrust : trustsProxy env r = true)
    (hmode : realIPHeader env = xForwardedFor) (hnone : lastEntry (r.values xForwardedFor) = none) :
    clientAddr env r = (peer r, false) := by
  rw [clientAddr_forwardedFor htrust hmode, hnone]
  rfl

/-- What the client sends in front of the entry that its proxy appends changes nothing. -/
theorem sameClient_front (hpeer : r.remoteAddr = r'.remoteAddr) (htrust : trustsProxy env r = true)
    (hmode : realIPHeader env = xForwardedFor) {lines : List Text} {front entry : Text}
    (hentry : lastEntry [entry] ≠ none)
    (hsent : r.values xForwardedFor = lines ++ [entry] ∨
      r.values xForwardedFor = lines ++ [front ++ ',' :: entry])
    (hplain : r'.values xForwardedFor = [entry]) : SameClient env r r' := by
  apply sameClient_forwardedFor hpeer htrust hmode
  rw [hplain]
  cases hsent with
  | inl hline => rw [hline, lastEntry_append hentry]
  | inr hfront => rw [hfront, lastEntry_append_front hentry]

end Requests

/-! ### Keys -/

def keyOf (ip : Encoding.Bytes) : Text :=
  match Net.to4 ip with
  | some v4 => Net.ipString v4
  | none => Net.ipString (ip.take 8 ++ List.replicate 8 0) ++ "/64".toList

/-- The key of a text depends only on the address that it is read as. -/
theorem limiterKey_of_parseIP {s : Text} {ip : Encoding.Bytes} (h : Net.parseIP s = some ip) :
    limiterKey s = keyOf ip := by
  rw [limiterKey, h, keyOf]
  dsimp only
  cases Net.to4 ip with
  | some v4 => rfl
  | none =>
      dsimp only
      rw [Net.mask_prefix (Net.parseIP_length h)]

theorem prefix_length {ip : Encoding.Bytes} (hlen : ip.length = 16) :
    (ip.take 8 ++ List.replicate 8 0).length = 16 := by
  rw [List.length_append, List.length_take, List.length_replicate]
  omega

/-- Two IPv6 addresses have one key exactly when they share their first eight bytes. -/
theorem keyOf_eq_iff {ip ip' : Encoding.Bytes} (hlen : ip.length = 16) (hlen' : ip'.length = 16)
    (h : Net.to4 ip = none) (h' : Net.to4 ip' = none) :
    keyOf ip = keyOf ip' ↔ ip.take 8 = ip'.take 8 := by
  rw [keyOf, keyOf, h, h']
  constructor
  · intro hkey
    have hprinted := List.append_cancel_right hkey
    have hbytes := Net.ipString_injective (prefix_length hlen) (prefix_length hlen') hprinted
    exact List.append_cancel_right hbytes
  · intro hfront
    rw [hfront]

theorem limiterKey_mapped {s t : Text} {v4 : Encoding.Bytes} (hs : Net.parseIPv4 s = some v4)
    (ht : Net.parseIP t = some (Net.v4InV6Prefix ++ v4)) : limiterKey t = limiterKey s := by
  rw [limiterKey_of_parseIP (Net.parseIP_mapped hs).1, limiterKey_of_parseIP ht]

/-! ### A client cannot choose its key -/

theorem client_cannot_choose_key (env : ProxyEnv) (r r' : HttpRequest)
    (hpeer : r.remoteAddr = r'.remoteAddr) :
    (trustsProxy env r = false → SameClient env r r') ∧
    (trustsProxy env r = true → realIPHeader env = xRealIP →
      ((r.values xRealIP).head? = (r'.values xRealIP).head? → SameClient env r r') ∧
      AnswersOn env r (r.get xRealIP)) ∧
    (trustsProxy env r = true → realIPHeader env = xForwardedFor →
      (lastEntry (r.values xForwardedFor) = lastEntry (r'.values xForwardedFor) →
        SameClient env r r') ∧
      (∀ lines front entry, lastEntry [entry] ≠ none →
        (r.values xForwardedFor = lines ++ [entry] ∨
          r.values xForwardedFor = lines ++ [front ++ ',' :: entry]) →
        r'.values xForwardedFor = [entry] → SameClient env r r') ∧
      (∀ entry, lastEntry (r.values xForwardedFor) = some entry → AnswersOn env r entry) ∧
      (lastEntry (r.values xForwardedFor) = none → clientAddr env r = (peer r, false))) ∧
    (∀ s t ip ip', Net.parseIP s = some ip → Net.parseIP t = some ip' →
      Net.to4 ip = none → Net.to4 ip' = none →
      (limiterKey s = limiterKey t ↔ ip.take 8 = ip'.take 8)) ∧
    ∀ s v4, Net.parseIPv4 s = some v4 →
      limiterKey (Net.mappedPrefix ++ s) = limiterKey s ∧
        ∀ t, Net.parseIP t = some (Net.v4InV6Prefix ++ v4) → limiterKey t = limiterKey s := by
  refine ⟨sameClient_untrusted hpeer, ?_, ?_, ?_, ?_⟩
  · intro htrust hmode
    constructor
    · exact sameClient_realIP hpeer htrust hmode
    · exact answersOn_of_named (clientAddr_realIP htrust hmode)
  · intro htrust hmode
    refine ⟨sameClient_forwardedFor hpeer htrust hmode, ?_, ?_, clientAddr_no_entry htrust hmode⟩
    · intro lines front entry hentry hsent hplain
      exact sameClient_front hpeer htrust hmode hentry hsent hplain
    · intro entry hentry
      exact answersOn_lastEntry htrust hmode hentry
  · intro s t ip ip' hs ht h h'
    rw [limiterKey_of_parseIP hs, limiterKey_of_parseIP ht]
    exact keyOf_eq_iff (Net.parseIP_length hs) (Net.parseIP_length ht) h h'
  · intro s v4 hs
    constructor
    · exact limiterKey_mapped hs (Net.parseIP_mapped hs).2
    · intro t ht
      exact limiterKey_mapped hs ht

def forwarded (lines : List Text) : HttpRequest :=
  ⟨"127.0.0.1:5000".toList, fun name => if name = canonicalHeaderKey xForwardedFor then lines
    else []⟩

def padded : HttpRequest :=
  forwarded ["6.6.6.6".toList, "1.2.3.4, junk".toList ++ ',' :: " 198.51.100.7".toList]

theorem client_cannot_choose_key_padded :
    SameClient ⟨xForwardedFor, []⟩ padded (forwarded [" 198.51.100.7".toList]) := by
  have hclaim :=
    client_cannot_choose_key ⟨xForwardedFor, []⟩ padded (forwarded [" 198.51.100.7".toList]) rfl
  have htrust : trustsProxy ⟨xForwardedFor, []⟩ padded = true := by decide
  have hmode : realIPHeader ⟨xForwardedFor, []⟩ = xForwardedFor := by decide
  have hentry : lastEntry [" 198.51.100.7".toList] ≠ none := by decide
  exact (hclaim.2.2.1 htrust hmode).2.1 ["6.6.6.6".toList] _ _ hentry (Or.inr rfl) rfl

end Netx
end Dufaka
