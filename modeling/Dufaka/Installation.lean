import Dufaka.ReadCommitted
import Dufaka.Text
import Mathlib.Data.List.AList

/-!
# Installing a shop

`install.Run`: the checks of the form, the transaction that counts the administrators and writes the
first one with the site settings and the seeds, and the config file after the commit. What comes
from outside is an outcome: that of everything between the checks and the transaction, of `bcrypt`,
and of the random key with the file.
-/

namespace Dufaka
open Relational

/-- `install.Form`, without what only the connection string is made of. -/
structure InstallForm where
  title : Text
  appURL : Text
  admin : Text
  adminPwd : Text
  confirm : Text

structure Installer where
  form : InstallForm
  configPath : Text
  hash : Except Text Text

/-- `install.Result`. -/
structure InstallResult where
  title : Text
  appURL : Text
  adminUser : Text
  configPath : Text
  dsn : Text
  sessionKey : Text

structure AdminUser where
  password : Text
  name : Text

structure SeedPay where
  payName : Text
  payMethod : ℤ
  payClient : ℤ
  merchantId : Text
  merchantKey : Text
  merchantPem : Text
  payHandleroute : Text
  isOpen : ℤ

structure Emailtpl where
  tplName : Text
  tplContent : Text

inductive InstallKey where
  | admin (username : Text)
  | setting (key : Text)
  | pay (payCheck : Text)
  | emailtpl (tplToken : Text)
  deriving DecidableEq

namespace InstallKey

abbrev Value : InstallKey → Type
  | admin _ => AdminUser
  | setting _ => Text
  | pay _ => SeedPay
  | emailtpl _ => Emailtpl

abbrev Row (key : InstallKey) : Type := Option key.Value

def constraintName : InstallKey → Text
  | admin _ => "admin_users_username_key".toList
  | setting _ => "settings_pkey".toList
  | pay _ => "pays_pay_check_key".toList
  | emailtpl _ => "emailtpls_tpl_token_key".toList

def duplicate (key : InstallKey) : Text :=
  "ERROR: duplicate key value violates unique constraint \"".toList ++ key.constraintName ++
    "\" (SQLSTATE 23505)".toList

def isAdmin : InstallKey → Bool
  | admin _ => true
  | setting _ | pay _ | emailtpl _ => false

end InstallKey

structure InstallDB where
  admins : AList (fun _ : Text => AdminUser)
  settings : Text → Option Text
  pays : Text → Option SeedPay
  emailtpls : Text → Option Emailtpl

namespace InstallDB

def row (d : InstallDB) : (key : InstallKey) → key.Row
  | .admin username => d.admins.lookup username
  | .setting key => d.settings key
  | .pay payCheck => d.pays payCheck
  | .emailtpl tplToken => d.emailtpls tplToken

def setRow (d : InstallDB) : (key : InstallKey) → key.Row → InstallDB
  | .admin username, some u => { d with admins := d.admins.insert username u }
  | .admin username, none => { d with admins := d.admins.erase username }
  | .setting key, v => { d with settings := Function.update d.settings key v }
  | .pay payCheck, v => { d with pays := Function.update d.pays payCheck v }
  | .emailtpl tplToken, v => { d with emailtpls := Function.update d.emailtpls tplToken v }

theorem row_setRow_self (d : InstallDB) (key : InstallKey) (v : key.Row) :
    (d.setRow key v).row key = v := by
  cases key with
  | admin username =>
      cases v with
      | none => exact AList.lookup_erase username d.admins
      | some u => exact AList.lookup_insert d.admins
  | setting key | pay key | emailtpl key => exact Function.update_self ..

theorem row_setRow_of_ne (d : InstallDB) (key : InstallKey) (v : key.Row) (key' : InstallKey)
    (h : key' ≠ key) : (d.setRow key v).row key' = d.row key' := by
  cases key with
  | admin username =>
      cases key' with
      | admin username' =>
          have hne : username' ≠ username := fun he => h (congrArg InstallKey.admin he)
          cases v with
          | none => exact AList.lookup_erase_ne hne
          | some u => exact AList.lookup_insert_ne hne
      | setting key' | pay key' | emailtpl key' => cases v <;> rfl
  | setting key =>
      cases key' with
      | setting key' =>
          exact Function.update_of_ne (fun he => h (congrArg InstallKey.setting he)) ..
      | admin key' | pay key' | emailtpl key' => rfl
  | pay key =>
      cases key' with
      | pay key' => exact Function.update_of_ne (fun he => h (congrArg InstallKey.pay he)) ..
      | admin key' | setting key' | emailtpl key' => rfl
  | emailtpl key =>
      cases key' with
      | emailtpl key' =>
          exact Function.update_of_ne (fun he => h (congrArg InstallKey.emailtpl he)) ..
      | admin key' | setting key' | pay key' => rfl

/-- `SELECT count(*) FROM admin_users`. -/
def countAdmins (d : InstallDB) : ℕ := d.admins.entries.length

end InstallDB

instance : RowStore InstallDB InstallKey.Row where
  get d key := some (d.row key)
  set d key v := d.setRow key v
  get_set_self d key v := congrArg some (d.row_setRow_self key v)
  get_set_of_ne d key v key' h := congrArg some (d.row_setRow_of_ne key v key' h)

/-- A transaction of `install.Run`. It answers with the error it is rolled back for. -/
abbrev InstallTx := Tx InstallDB InstallKey.Row Text

/-- `INSERT`: it waits for whoever is writing a row with its key, and fails on a committed one. -/
def insertRow (key : InstallKey) (v : key.Value) : InstallTx Unit :=
  .update key Option.isNone (fun old => if old.isSome then none else some (some v)) (fun written =>
    match written with
    | some _ => .value ()
    | none => .rollback key.duplicate)

/-- `INSERT … SELECT … WHERE NOT EXISTS`. -/
def insertMissing (key : InstallKey) (v : key.Value) : InstallTx Unit :=
  .query (fun d => if (d.row key).isSome then .value () else insertRow key v)

/-- `INSERT … ON CONFLICT (key) DO UPDATE SET value=EXCLUDED.value`. -/
def upsertRow (key : InstallKey) (v : key.Value) : InstallTx Unit :=
  .update key Option.isNone (fun _ => some (some v)) (fun _ => .value ())

/-- `strings.TrimRight(s, "/")`. -/
def trimSlashes (s : Text) : Text := (s.reverse.dropWhile (fun c => c = '/')).reverse

def siteSettings (f : InstallForm) : List (Text × Text) :=
  [("title".toList, f.title), ("text_logo".toList, f.title), ("language".toList, "zh_CN".toList),
    ("order_expire_time".toList, "5".toList), ("is_open_search_pwd".toList, "1".toList),
    ("app_url".toList, trimSlashes f.appURL), ("notice".toList, "欢迎来到 Clodex小店。".toList)]

def seedMails : List (Text × Emailtpl) :=
  [("card_send_user_email".toList, ⟨"发货通知".toList,
      ("您在 \x7bwebname\x7d 购买的 \x7bord_title\x7d 已发货。\n订单号：\x7border_id\x7d\n" ++
        "数量：\x7bbuy_amount\x7d\n金额：\x7bord_price\x7d\n内容：\n\x7bord_info\x7d").toList⟩),
    ("manual_send_manage_mail".toList, ⟨"人工处理通知".toList,
      "有新的人工处理订单 \x7border_id\x7d，商品 \x7bord_title\x7d。".toList⟩),
    ("pending_order".toList, ⟨"待处理".toList,
      "订单 \x7border_id\x7d 待处理。商品 \x7bord_title\x7d，金额 \x7bord_price\x7d。".toList⟩),
    ("completed_order".toList, ⟨"已完成".toList,
      "订单 \x7border_id\x7d 已完成。商品 \x7bord_title\x7d。".toList⟩),
    ("failed_order".toList, ⟨"失败".toList,
      "订单 \x7border_id\x7d 处理失败。商品 \x7bord_title\x7d。".toList⟩)]

def seedPay : SeedPay := ⟨"微信扫码".toList, 2, 3, [], [], [], "/pay/wepay".toList, 0⟩

def seed : InstallTx Unit := do
  insertMissing (.pay "wescan".toList) seedPay
  Tx.forEach seedMails (fun m => insertMissing (.emailtpl m.1) m.2)

def furnish (f : InstallForm) : InstallTx Empty := do
  Tx.forEach (siteSettings f) (fun kv => upsertRow (.setting kv.1) kv.2)
  seed
  Tx.commit []

def writeInstall (q : Installer) : InstallTx Empty :=
  match q.hash with
  | .error err => .rollback err
  | .ok hash => insertRow (.admin q.form.admin) ⟨hash, q.form.admin⟩ >>= fun _ => furnish q.form

def installTx (q : Installer) : InstallTx Empty :=
  .query (fun d => if 0 < d.countAdmins then .rollback "已经安装过了".toList else writeInstall q)

def installSystem : System Installer Empty InstallDB InstallKey.Row Text where
  prog q _ := installTx q
  tick e _ := nomatch e

def installError (f : InstallForm) : Option Text :=
  if f.admin.trimSpace = [] ∨ f.adminPwd.byteLength < 6 then some "请填写管理员账号，密码至少 6 位".toList
  else if f.adminPwd ≠ f.confirm then some "两次输入的密码不一致".toList
  else if f.appURL.trimSpace = [] then some "请填写站点网址".toList
  else none

def InstallForm.titled (f : InstallForm) : InstallForm :=
  if f.title.trimSpace = [] then { f with title := "Dufaka-Go".toList } else f

def Installer.result (q : Installer) (dsn sessionKey : Text) : InstallResult :=
  ⟨q.form.title, trimSlashes q.form.appURL, q.form.admin, q.configPath, dsn, sessionKey⟩

/-- How far a call of `Run` has come; `counted` knows how many administrators it saw. -/
inductive InstallRun where
  | idle
  | connecting (q : Installer)
  | began (q : Installer) (dsn : Text)
  | counted (q : Installer) (dsn : Text) (admins : ℕ)
  | committed (q : Installer) (dsn : Text)
  | returned (answer : Except Text InstallResult)

inductive SaveOutcome where
  | noKey (err : Text)
  | noFile (err : Text)
  | saved (sessionKey : Text)

def SaveOutcome.answer (q : Installer) (dsn : Text) : SaveOutcome → Except Text InstallResult
  | noKey err => .error err
  | noFile err => .error ("配置文件没有写成：".toList ++ err)
  | saved sessionKey => .ok (q.result dsn sessionKey)

inductive InstallAct where
  | call (i : ℕ) (q : Installer)
  /-- Everything between the checks of the form and the transaction, up to the connection string. -/
  | connect (i : ℕ) (dsn : Except Text Text)
  | exec (i : ℕ) (choice : List ℕ)
  | finish (i : ℕ)
  /-- A statement fails. -/
  | abort (i : ℕ) (err : Text)
  | save (i : ℕ) (out : SaveOutcome)

structure Installs where
  config : Config Installer InstallDB InstallKey.Row Text
  runs : ℕ → InstallRun

namespace Installs

def start (d : InstallDB) : Installs := ⟨Config.start d, fun _ => .idle⟩

def advance (s : Installs) (a : Action Installer Empty) (i : ℕ) (p : InstallRun) :
    Option Installs :=
  (installSystem.step s.config a).map (fun c => ⟨c, Function.update s.runs i p⟩)

def setRun (s : Installs) (i : ℕ) (p : InstallRun) : Installs :=
  { s with runs := Function.update s.runs i p }

def step (s : Installs) : InstallAct → Option Installs
  | .call i q =>
      match s.runs i, installError q.form with
      | .idle, some err => some (s.setRun i (.returned (.error err)))
      | .idle, none => some (s.setRun i (.connecting { q with form := q.form.titled }))
      | _, _ => none
  | .connect i dsn =>
      match s.runs i, dsn with
      | .connecting _, .error err => some (s.setRun i (.returned (.error err)))
      | .connecting q, .ok dsn => s.advance (.start i q) i (.began q dsn)
      | _, _ => none
  | .exec i choice =>
      match s.runs i with
      | .began q dsn => s.advance (.exec i choice) i (.counted q dsn s.config.db.countAdmins)
      | .counted q dsn admins => s.advance (.exec i choice) i (.counted q dsn admins)
      | _ => none
  | .finish i =>
      match s.runs i, (s.config.sessions.get? i).map Session.prog with
      | .counted q dsn _, some (.done true _) => s.advance (.finish i) i (.committed q dsn)
      | .counted _ _ _, some (.done false err) => s.advance (.finish i) i (.returned (.error err))
      | _, _ => none
  | .abort i err =>
      match s.runs i with
      | .began _ _ | .counted _ _ _ => s.advance (.abort i) i (.returned (.error err))
      | _ => none
  | .save i out =>
      match s.runs i with
      | .committed q dsn => some (s.setRun i (.returned (out.answer q dsn)))
      | _ => none

end Installs
end Dufaka
