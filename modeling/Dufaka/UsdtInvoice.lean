import Dufaka.Checkout
import Dufaka.ReceiptThrottle

/-!
# Invoices of the USDT service

`Create`, `Validate` and `Check` over arbitrary answers of the remote service. Instants are in
microseconds, and the patterns are those of the source.
-/

namespace Dufaka

/-- `pay.USDTInvoice`. -/
structure UsdtInvoice where
  id : Text
  orderNo : Text
  status : Text
  network : Text
  token : Text
  chain : Text
  address : Text
  cny : Text
  amount : Text
  expires : ℤ
  paidAt : Option ℤ
  txId : Text
  deriving DecidableEq

structure UsdtEnv where
  address : Text
  /-- `big.Rat.SetString`. -/
  rat : Text → Option ℚ
  /-- `json.Marshal` and `json.Unmarshal` of an invoice. -/
  marshal : UsdtInvoice → Option Text
  unmarshal : Text → Option UsdtInvoice

/-! ### Patterns -/

def isLowerHex (c : Char) : Bool := c.isDigit || ('a' ≤ c && c ≤ 'f')

def isHex (c : Char) : Bool := isLowerHex c || ('A' ≤ c && c ≤ 'F')

/-- `[1-9A-HJ-NP-Za-km-z]`. -/
def isBase58 (c : Char) : Bool :=
  ('1' ≤ c && c ≤ '9') || ('A' ≤ c && c ≤ 'H') || ('J' ≤ c && c ≤ 'N') || ('P' ≤ c && c ≤ 'Z') ||
    ('a' ≤ c && c ≤ 'k') || ('m' ≤ c && c ≤ 'z')

/-- `^usdt_[a-f0-9]{24}$`. -/
def usdtID (s : Text) : Bool :=
  "usdt_".toList.isPrefixOf s && (s.drop 5).length = 24 && (s.drop 5).all isLowerHex

/-- `^T[1-9A-HJ-NP-Za-km-z]{33}$`. -/
def tronAddress (s : Text) : Bool := s.head? = some 'T' && s.tail.length = 33 && s.tail.all isBase58

/-- `^[0-9]{1,12}\.[0-9]{6}$`. -/
def usdtAmount (s : Text) : Bool :=
  match s.cut '.' with
  | none => false
  | some (whole, frac) => whole ≠ [] && whole.length ≤ 12 && whole.all Char.isDigit &&
      frac.length = 6 && frac.all Char.isDigit

/-- `^[a-fA-F0-9]{64}$`. -/
def tronTx (s : Text) : Bool := s.length = 64 && s.all isHex

/-! ### The service -/

/-- The instant of `time.Time{}`. -/
def zeroTime : ℤ := -62135596800000000

def hour : ℤ := 60 * minute

def lowerHexDigit (n : ℕ) : Char := if n < 10 then Char.ofNat (48 + n) else Char.ofNat (87 + n)

/-- `hex.EncodeToString`. -/
def hexEncode (b : Fin 8 → Fin 256) : Text :=
  (List.ofFn b).flatMap (fun x => [lowerHexDigit (x.val / 16), lowerHexDigit (x.val % 16)])

def usdtRefPrefix (sn : Text) : Text := "shop-".toList ++ sn ++ "-".toList

abbrev UsdtAnswer := Except WalletError UsdtInvoice

def usdtFailure {α : Type} (message : String) : Except WalletError α :=
  .error (.failed message.toList)

def invoiceHorizon : ℤ := 24 * hour

namespace UsdtInvoice
variable (env : UsdtEnv)

def validate (p : UsdtInvoice) (ref : Text) (cents : Cents) (address : Text) : Bool :=
  usdtID p.id && p.orderNo = ref && p.address = address && tronAddress address &&
    p.network = "TRON".toList && p.chain = "TRC20".toList && p.token = "USDT".toList &&
    usdtAmount p.amount && (env.rat p.amount).any (0 < ·) &&
    env.rat p.cny = some (mkRat cents 100) && p.expires ≠ zeroTime

def create (sn : Text) (cents : Cents) (now : ℤ) (nonce : Fin 8 → Fin 256) (answer : UsdtAnswer) :
    UsdtAnswer := do
  let p ← answer
  if !p.validate env (usdtRefPrefix sn ++ hexEncode nonce) cents env.address then
    usdtFailure "USDT invoice does not match order"
  else if p.status ≠ "pending".toList ∨ p.expires ≤ now ∨ now + invoiceHorizon < p.expires then
    usdtFailure "USDT invoice is not payable"
  else pure p

def untimely (want : UsdtInvoice) (created : ℤ) (paidAt : Option ℤ) : Bool :=
  match paidAt with
  | none => true
  | some t => t < created - 2 * minute || want.expires + 30 * minute < t

def check (want : UsdtInvoice) (cents : Cents) (created : ℤ) (answer : UsdtAnswer) :
    Except WalletError Receipt := do
  if !want.validate env want.orderNo cents env.address then
    usdtFailure "USDT invoice does not match order"
  else
    let p ← answer
    if !p.validate env want.orderNo cents want.address then
      usdtFailure "USDT invoice does not match order"
    else if p.id ≠ want.id ∨ p.amount ≠ want.amount ∨ p.expires ≠ want.expires then
      usdtFailure "USDT locked invoice changed"
    else if p.status = "pending".toList ∨ p.status = "expired".toList then pure .zero
    else if p.status ≠ "paid".toList ∨ tronTx p.txId = false ∨ want.untimely created p.paidAt then
      usdtFailure "USDT receipt invalid"
    else pure ⟨true, cents, 0, p.txId.map Char.toLower⟩

structure PaidBy (want p : UsdtInvoice) (cents : Cents) : Prop where
  status : p.status = "paid".toList
  id : p.id = want.id
  orderNo : p.orderNo = want.orderNo
  address : p.address = want.address
  amount : p.amount = want.amount
  expires : p.expires = want.expires
  cny : env.rat p.cny = some (mkRat cents 100)
  wantCny : env.rat want.cny = some (mkRat cents 100)

variable {env} {p want : UsdtInvoice} {ref address sn : Text} {cents : Cents} {created now : ℤ}

theorem orderNo_of_validate (h : p.validate env ref cents address = true) : p.orderNo = ref := by
  simp only [validate, Bool.and_eq_true, decide_eq_true_eq] at h
  tauto

theorem address_of_validate (h : p.validate env ref cents address = true) :
    p.address = address := by
  simp only [validate, Bool.and_eq_true, decide_eq_true_eq] at h
  tauto

theorem cny_of_validate (h : p.validate env ref cents address = true) :
    env.rat p.cny = some (mkRat cents 100) := by
  simp only [validate, Bool.and_eq_true, decide_eq_true_eq] at h
  tauto

/-- `Check` reports a payment only on a paid answer for the invoice it was given. -/
theorem check_paid {answer : UsdtAnswer} {item : Receipt}
    (h : check env want cents created answer = .ok item) (hpaid : item.paid = true) :
    ∃ p, answer = .ok p ∧ want.PaidBy env p cents := by
  rw [check] at h
  split_ifs at h with hwant
  · cases h
  have hwant' : want.validate env want.orderNo cents env.address = true := by simpa using hwant
  obtain ⟨p, ha, h⟩ := except_bind_ok.mp h
  split_ifs at h with hvalid hsame hopen hbad
  · cases h
  · cases h
  · -- an invoice still open gives the empty receipt
    rw [← Except.ok.inj h] at hpaid
    cases hpaid
  · cases h
  · have hvalid' : p.validate env want.orderNo cents want.address = true := by simpa using hvalid
    push Not at hsame hbad
    refine ⟨p, ha, ?_⟩
    exact ⟨hbad.1, hsame.1, orderNo_of_validate hvalid', address_of_validate hvalid', hsame.2.1,
      hsame.2.2, cny_of_validate hvalid', cny_of_validate hwant'⟩

end UsdtInvoice
end Dufaka
