import Dufaka.Text
import Dufaka.Transaction

/-!
# The settings form

What `applySettings` makes of the posted form and the settings read before, and the transaction of
`settingsSave`. The upsert of a key waits for the key's writer whether or not the row is there yet.
-/

namespace Dufaka
open Relational

abbrev Settings := Text → Option Text

instance : RowStore Settings (fun _ : Text => Option Text) where
  get d key := some (d key)
  set d key v := Function.update d key v
  get_set_self d key v := by rw [Function.update_self]
  get_set_of_ne d key v key' h := by rw [Function.update_of_ne h]

inductive SettingKind where
  | text
  | textarea
  | select
  | switch
  | password
  deriving DecidableEq

structure SettingField where
  key : Text
  kind : SettingKind

def settingFields : List SettingField :=
  [⟨"title".toList, .text⟩, ⟨"img_logo".toList, .text⟩, ⟨"text_logo".toList, .text⟩,
    ⟨"keywords".toList, .text⟩, ⟨"description".toList, .textarea⟩, ⟨"language".toList, .select⟩,
    ⟨"manage_email".toList, .text⟩, ⟨"order_expire_time".toList, .text⟩,
    ⟨"is_open_anti_red".toList, .switch⟩, ⟨"is_open_search_pwd".toList, .switch⟩,
    ⟨"is_open_google_translate".toList, .switch⟩, ⟨"notice".toList, .textarea⟩,
    ⟨"footer".toList, .textarea⟩,
    ⟨"is_open_server_jiang".toList, .switch⟩, ⟨"server_jiang_token".toList, .text⟩,
    ⟨"is_open_telegram_push".toList, .switch⟩, ⟨"telegram_bot_token".toList, .text⟩,
    ⟨"telegram_userid".toList, .text⟩, ⟨"is_open_bark_push".toList, .switch⟩,
    ⟨"is_open_bark_push_url".toList, .switch⟩, ⟨"bark_server".toList, .text⟩,
    ⟨"bark_token".toList, .text⟩, ⟨"is_open_qywxbot_push".toList, .switch⟩,
    ⟨"qywxbot_key".toList, .text⟩,
    ⟨"driver".toList, .text⟩, ⟨"host".toList, .text⟩, ⟨"port".toList, .text⟩,
    ⟨"username".toList, .text⟩, ⟨"password".toList, .password⟩, ⟨"encryption".toList, .text⟩,
    ⟨"from_address".toList, .text⟩, ⟨"from_name".toList, .text⟩]

def settingKeys : List Text := settingFields.map SettingField.key

/-- The value to store for one field. A blank password keeps the one read before. -/
def SettingField.value (f : SettingField) (old : Settings) (form : Text → Text) : Text :=
  let raw := form f.key
  let val := raw.trimSpace
  match f.kind with
  | .password => if raw = [] then (old f.key).getD [] else raw
  | .textarea => Text.normalizeNL raw
  | .switch => if val ≠ "1".toList then "0".toList else val
  | .text | .select => val

def settingValues (old : Settings) (form : Text → Text) (key : Text) : Text :=
  match settingFields.find? (fun f => f.key = key) with
  | some f => f.value old form
  | none => []

def settingsError (out : Text → Text) : Option Text :=
  if (out "title".toList).trimSpace = [] then some "请填写网站标题".toList
  else if out "language".toList ≠ "zh_CN".toList ∧ out "language".toList ≠ "zh_TW".toList then
    some "请选择站点语言".toList
  else if (Text.parseInt (out "order_expire_time".toList)).all (fun n => n ≤ 0 ∨ n > 100000) then
    some "订单过期时间必须是正整数".toList
  else if out "driver".toList = [] then some "请填写邮件驱动".toList
  else if out "port".toList ≠ [] ∧
      (Text.parseInt (out "port".toList)).all (fun p => p < 1 ∨ p > 65535) then
    some "端口不正确".toList
  else none

def applySettings (old : Settings) (form : Text → Text) : (Text → Text) × Option Text :=
  (settingValues old form, settingsError (settingValues old form))

/-- `INSERT … ON CONFLICT (key) DO UPDATE SET value=EXCLUDED.value`. -/
def upsertSetting (key value : Text) :
    Tx Settings (fun _ : Text => Option Text) (Option Text) Unit :=
  .update key Option.isNone (fun _ => some (some value)) (fun _ => .value ())

def saveSettings (vals : Text → Text) (order : List Text) :
    Tx Settings (fun _ : Text => Option Text) (Option Text) Empty :=
  Tx.forEach order (fun key => upsertSetting key (vals key)) >>= fun _ => .commit none

/-- `settingsSave` after `loadSettings` has read `old`; the answer is the refusal, if there is
one. -/
def settingsSave (form : Text → Text) (order : List Text) (old : Settings) :
    Tx Settings (fun _ : Text => Option Text) (Option Text) Empty :=
  match applySettings old form with
  | (_, some err) => .rollback (some err)
  | (vals, none) => saveSettings vals order

end Dufaka
