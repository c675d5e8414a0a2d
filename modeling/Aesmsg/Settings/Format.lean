import Aesmsg.Identity.RetiredKeys

/-!
# Settings

`settings-format.ts` and `settings-store.ts` of `apps/mobile/src/settings` and `apps/webapp/src/settings`:
the record of the preferences, what is made of a stored value, and what a save writes.  The mobile app
writes a JSON text into its encrypted store, the web app a record into its database.

## Main results

- `Mobile.load_save`, `Web.load_save`: what is saved is loaded, but for the times and for a delay out of its
  range.
-/

namespace Aesmsg.Settings

open JsonText Identity.RetiredKeys

/-! ## Fields -/

def CLIPBOARD_CLEAR_MIN_SECONDS : ℤ := 10

def CLIPBOARD_CLEAR_MAX_SECONDS : ℤ := 90

/-- A number that is not finite is none. -/
def clampClipboardSeconds : Option Binary64 → ℤ
  | none => CLIPBOARD_CLEAR_MIN_SECONDS
  | some seconds =>
    let floored := ⌊seconds.value⌋
    if floored < CLIPBOARD_CLEAR_MIN_SECONDS then CLIPBOARD_CLEAR_MIN_SECONDS
    else if CLIPBOARD_CLEAR_MAX_SECONDS < floored then CLIPBOARD_CLEAR_MAX_SECONDS
    else floored

inductive AppLockTimeout where
  | never
  | oneMinute
  | fiveMinutes
  | fifteenMinutes
  | oneHour
deriving DecidableEq

def AppLockTimeout.text : AppLockTimeout → String
  | .never => "never"
  | .oneMinute => "1m"
  | .fiveMinutes => "5m"
  | .fifteenMinutes => "15m"
  | .oneHour => "1h"

def APP_LOCK_TIMEOUTS : List AppLockTimeout :=
  [.never, .oneMinute, .fiveMinutes, .fifteenMinutes, .oneHour]

/-- `record.name`, of an object or an array. -/
def property (record : Value) (s : String) : Option Value := (get record s).toOption.join

/-- Whole seconds in the range. -/
def InRange (seconds : Binary64) : Prop :=
  seconds.value.isInt = true ∧ CLIPBOARD_CLEAR_MIN_SECONDS ≤ seconds.value ∧
    seconds.value ≤ CLIPBOARD_CLEAR_MAX_SECONDS

instance (seconds : Binary64) : Decidable (InRange seconds) := inferInstanceAs (Decidable (_ ∧ _))

/-- The number where it is valid. -/
def isValidClipboardSeconds : Option Value → Option Binary64
  | some (.number (some seconds)) => if InRange seconds then some seconds else none
  | _ => none

/-- The timeout where it is one. -/
def isAppLockTimeout : Option Value → Option AppLockTimeout
  | some (.string text) => APP_LOCK_TIMEOUTS.find? fun timeout ↦ name timeout.text = text
  | _ => none

def bool (value : Option Value) (fallback : Bool) : Bool :=
  match value with
  | some (.boolean b) => b
  | _ => fallback

/-- `typeof value === "number" && Number.isFinite(value) ? value : 0`. -/
def timestamp : Option Value → Binary64
  | some (.number (some time)) => time
  | _ => .ofInt 0 (by decide)

def SETTINGS_SCHEMA_VERSION : Binary64 := .ofInt 1 (by decide)

def DEFAULT_CLIPBOARD_SECONDS : Binary64 := .ofInt 45 (by decide)

/-- `isValidClipboardSeconds(value) ? value : SETTINGS_DEFAULTS.clipboardClearSeconds`. -/
def clipboardSeconds (value : Option Value) : Option Binary64 :=
  (isValidClipboardSeconds value).or (some DEFAULT_CLIPBOARD_SECONDS)

/-! ## Mobile -/

namespace Mobile

structure SettingsRecord where
  biometric : Bool
  introSeen : Bool
  biometricOnboardingSeen : Bool
  requireUnlock : Bool
  blurPreview : Bool
  blockScreens : Bool
  autoWipe : Bool
  /-- None where it is not finite. -/
  clipboardClearSeconds : Option Binary64
  appLockTimeout : AppLockTimeout
  analytics : Bool
  createdAt : Binary64
  updatedAt : Binary64

def SETTINGS_DEFAULTS : SettingsRecord where
  biometric := true
  introSeen := false
  biometricOnboardingSeen := false
  requireUnlock := true
  blurPreview := true
  blockScreens := true
  autoWipe := true
  clipboardClearSeconds := some DEFAULT_CLIPBOARD_SECONDS
  appLockTimeout := .never
  analytics := false
  createdAt := .ofInt 0 (by decide)
  updatedAt := .ofInt 0 (by decide)

def validateSettings (input : Value) : SettingsRecord :=
  if !isRecord input then SETTINGS_DEFAULTS
  else {
    biometric := bool (property input "biometric") SETTINGS_DEFAULTS.biometric
    introSeen := bool (property input "introSeen") SETTINGS_DEFAULTS.introSeen
    biometricOnboardingSeen :=
      bool (property input "biometricOnboardingSeen") SETTINGS_DEFAULTS.biometricOnboardingSeen
    requireUnlock := bool (property input "requireUnlock") SETTINGS_DEFAULTS.requireUnlock
    blurPreview := bool (property input "blurPreview") SETTINGS_DEFAULTS.blurPreview
    blockScreens := bool (property input "blockScreens") SETTINGS_DEFAULTS.blockScreens
    autoWipe := bool (property input "autoWipe") SETTINGS_DEFAULTS.autoWipe
    clipboardClearSeconds := clipboardSeconds (property input "clipboardClearSeconds")
    appLockTimeout := (isAppLockTimeout (property input "appLockTimeout")).getD
      SETTINGS_DEFAULTS.appLockTimeout
    analytics := bool (property input "analytics") SETTINGS_DEFAULTS.analytics
    createdAt := timestamp (property input "createdAt")
    updatedAt := timestamp (property input "updatedAt") }

def migrateSettings (input : Value) : SettingsRecord := validateSettings input

/-- The record as a value, with its fields in their order. -/
def SettingsRecord.toValue (r : SettingsRecord) : Value :=
  .object [(name "biometric", .boolean r.biometric), (name "introSeen", .boolean r.introSeen),
    (name "biometricOnboardingSeen", .boolean r.biometricOnboardingSeen),
    (name "requireUnlock", .boolean r.requireUnlock), (name "blurPreview", .boolean r.blurPreview),
    (name "blockScreens", .boolean r.blockScreens), (name "autoWipe", .boolean r.autoWipe),
    (name "clipboardClearSeconds", .number r.clipboardClearSeconds),
    (name "appLockTimeout", .string (name r.appLockTimeout.text)),
    (name "analytics", .boolean r.analytics),
    (name "schemaVersion", .number (some SETTINGS_SCHEMA_VERSION)),
    (name "createdAt", .number (some r.createdAt)), (name "updatedAt", .number (some r.updatedAt))]

/-- The record that `saveSettings` stores. -/
def toStore (now : Binary64) (next : SettingsRecord) : SettingsRecord :=
  let normalised := migrateSettings next.toValue
  { normalised with
    createdAt := if 0 < normalised.createdAt.value then normalised.createdAt else now
    updatedAt := now }

/-- The text that `saveSettings` encrypts. -/
def saveSettings (now : Binary64) (next : SettingsRecord) : List UInt16 :=
  stringify (toStore now next).toValue

/-- `loadSettings`, of a blob that is decrypted to a text. -/
def loadSettings (text : List UInt16) : SettingsRecord :=
  match parse text with
  | none | some .null => SETTINGS_DEFAULTS
  | some raw => migrateSettings raw

end Mobile

/-! ## Web -/

namespace Web

structure SettingsRecord where
  /-- None where it is not finite. -/
  clipboardClearSeconds : Option Binary64
  appLockTimeout : AppLockTimeout
  createdAt : Binary64
  updatedAt : Binary64

def SETTINGS_DEFAULTS : SettingsRecord where
  clipboardClearSeconds := some DEFAULT_CLIPBOARD_SECONDS
  appLockTimeout := .never
  createdAt := .ofInt 0 (by decide)
  updatedAt := .ofInt 0 (by decide)

def validateSettings (input : Value) : SettingsRecord :=
  if !isRecord input then SETTINGS_DEFAULTS
  else {
    clipboardClearSeconds := clipboardSeconds (property input "clipboardClearSeconds")
    appLockTimeout := (isAppLockTimeout (property input "appLockTimeout")).getD
      SETTINGS_DEFAULTS.appLockTimeout
    createdAt := timestamp (property input "createdAt")
    updatedAt := timestamp (property input "updatedAt") }

def migrateSettings (input : Value) : SettingsRecord := validateSettings input

/-- The fields of a record, in their order. -/
def SettingsRecord.fields (r : SettingsRecord) : List (List UInt16 × Value) :=
  [(name "clipboardClearSeconds", .number r.clipboardClearSeconds),
    (name "appLockTimeout", .string (name r.appLockTimeout.text)),
    (name "schemaVersion", .number (some SETTINGS_SCHEMA_VERSION)),
    (name "createdAt", .number (some r.createdAt)), (name "updatedAt", .number (some r.updatedAt))]

def SettingsRecord.toValue (r : SettingsRecord) : Value := .object r.fields

def PRIMARY : String := "primary"

def toStore (now : Binary64) (next : SettingsRecord) : SettingsRecord :=
  let normalised := migrateSettings next.toValue
  { normalised with
    createdAt := if 0 < normalised.createdAt.value then normalised.createdAt else now
    updatedAt := now }

/-- The value that `saveSettings` puts. -/
def saveSettings (now : Binary64) (next : SettingsRecord) : Value :=
  .object ((toStore now next).fields ++ [(name "id", .string (name PRIMARY))])

/-- `loadSettings`, of a record that is there. -/
def loadSettings (record : Value) : SettingsRecord := migrateSettings record

end Web

/-! ## What is loaded of what is saved -/

/-- A delay in the range. -/
def ValidSeconds (seconds : Option Binary64) : Prop := ∃ x, seconds = some x ∧ InRange x

section Fields

theorem validSeconds_default : ValidSeconds (some DEFAULT_CLIPBOARD_SECONDS) := by
  refine ⟨_, rfl, by decide, ?_, ?_⟩
  · show ((10 : ℤ) : ℚ) ≤ ((45 : ℤ) : ℚ)
    norm_num
  · show ((45 : ℤ) : ℚ) ≤ ((90 : ℤ) : ℚ)
    norm_num

/-- A delay that is read is in the range. -/
theorem validSeconds_read (value : Option Value) : ValidSeconds (clipboardSeconds value) := by
  unfold clipboardSeconds
  cases h : isValidClipboardSeconds value with
  | none => exact validSeconds_default
  | some x =>
    unfold isValidClipboardSeconds at h
    split at h
    · obtain ⟨hrange, hx⟩ := Option.ite_none_right_eq_some.mp h
      exact ⟨x, rfl, Option.some.inj hx ▸ hrange⟩
    · cases h

theorem ValidSeconds.read {seconds : Option Binary64} (h : ValidSeconds seconds) :
    clipboardSeconds (some (.number seconds)) = seconds := by
  obtain ⟨x, rfl, hrange⟩ := h
  have hvalid : isValidClipboardSeconds (some (.number (some x))) = some x := if_pos hrange
  unfold clipboardSeconds
  rw [hvalid]
  rfl

theorem clampClipboardSeconds_range (seconds : Option Binary64) :
    CLIPBOARD_CLEAR_MIN_SECONDS ≤ clampClipboardSeconds seconds ∧
      clampClipboardSeconds seconds ≤ CLIPBOARD_CLEAR_MAX_SECONDS := by
  have hrange : CLIPBOARD_CLEAR_MIN_SECONDS ≤ CLIPBOARD_CLEAR_MAX_SECONDS := by decide
  cases seconds with
  | none => exact ⟨le_rfl, hrange⟩
  | some x =>
    unfold clampClipboardSeconds
    dsimp only
    split
    · exact ⟨le_rfl, hrange⟩
    · rename_i hmin
      split
      · exact ⟨hrange, le_rfl⟩
      · rename_i hmax
        exact ⟨not_lt.mp hmin, not_lt.mp hmax⟩

/-- What the slider yields is in the range. -/
theorem validSeconds_clamp (seconds : Option Binary64) {x : Binary64}
    (hx : x.value = clampClipboardSeconds seconds) : ValidSeconds (some x) := by
  obtain ⟨hmin, hmax⟩ := clampClipboardSeconds_range seconds
  refine ⟨x, rfl, ?_, ?_, ?_⟩
  · rw [hx]
    rfl
  · rw [hx]
    exact_mod_cast hmin
  · rw [hx]
    exact_mod_cast hmax

theorem isAppLockTimeout_text (timeout : AppLockTimeout) :
    isAppLockTimeout (some (.string (name timeout.text))) = some timeout := by
  cases timeout <;> rfl

end Fields

namespace Mobile

variable {r : SettingsRecord}

/-- The preferences, without the times. -/
def SettingsRecord.preferences (r : SettingsRecord) : SettingsRecord :=
  { r with createdAt := .ofInt 0 (by decide), updatedAt := .ofInt 0 (by decide) }

/-- The record with a delay in the range. -/
def SettingsRecord.clean (r : SettingsRecord) : SettingsRecord :=
  { r with clipboardClearSeconds := clipboardSeconds (some (.number r.clipboardClearSeconds)) }

theorem migrateSettings_toValue (r : SettingsRecord) : migrateSettings r.toValue = r.clean := by
  have htimeout : (isAppLockTimeout (property r.toValue "appLockTimeout")).getD
      SETTINGS_DEFAULTS.appLockTimeout = r.appLockTimeout :=
    congrArg (·.getD SETTINGS_DEFAULTS.appLockTimeout) (isAppLockTimeout_text r.appLockTimeout)
  unfold migrateSettings validateSettings
  rw [htimeout]
  rfl

theorem clean_of_valid (h : ValidSeconds r.clipboardClearSeconds) : r.clean = r := by
  unfold SettingsRecord.clean
  rw [h.read]

/-- Whatever is stored, what is made of it is valid. -/
theorem validSeconds_migrate (input : Value) : ValidSeconds (migrateSettings input).clipboardClearSeconds := by
  unfold migrateSettings validateSettings
  split
  · exact validSeconds_default
  · exact validSeconds_read _

theorem validSeconds_load (text : List UInt16) : ValidSeconds (loadSettings text).clipboardClearSeconds := by
  unfold loadSettings
  split
  · exact validSeconds_default
  · exact validSeconds_default
  · exact validSeconds_migrate _

/-- A save is read back. -/
theorem loadSettings_saveSettings (now : Binary64) (next : SettingsRecord) :
    loadSettings (saveSettings now next) = toStore now next := by
  have hvalid : ValidSeconds (toStore now next).clipboardClearSeconds := validSeconds_migrate next.toValue
  have hstored : stored (toStore now next).toValue = (toStore now next).toValue := by
    obtain ⟨x, hx, -⟩ := hvalid
    unfold SettingsRecord.toValue
    rw [hx]
    rfl
  unfold loadSettings saveSettings
  rw [parse_stringify, hstored]
  exact (migrateSettings_toValue _).trans (clean_of_valid hvalid)

theorem load_save (now : Binary64) (next : SettingsRecord) :
    (loadSettings (saveSettings now next)).preferences = next.preferences.clean := by
  rw [loadSettings_saveSettings]
  unfold toStore
  rw [migrateSettings_toValue]
  rfl

end Mobile

namespace Web

variable {r : SettingsRecord}

/-- The preferences, without the times. -/
def SettingsRecord.preferences (r : SettingsRecord) : SettingsRecord :=
  { r with createdAt := .ofInt 0 (by decide), updatedAt := .ofInt 0 (by decide) }

/-- The record with a delay in the range. -/
def SettingsRecord.clean (r : SettingsRecord) : SettingsRecord :=
  { r with clipboardClearSeconds := clipboardSeconds (some (.number r.clipboardClearSeconds)) }

theorem migrateSettings_toValue (r : SettingsRecord) : migrateSettings r.toValue = r.clean := by
  have htimeout : (isAppLockTimeout (property r.toValue "appLockTimeout")).getD
      SETTINGS_DEFAULTS.appLockTimeout = r.appLockTimeout :=
    congrArg (·.getD SETTINGS_DEFAULTS.appLockTimeout) (isAppLockTimeout_text r.appLockTimeout)
  unfold migrateSettings validateSettings
  rw [htimeout]
  rfl

theorem clean_of_valid (h : ValidSeconds r.clipboardClearSeconds) : r.clean = r := by
  unfold SettingsRecord.clean
  rw [h.read]

theorem validSeconds_migrate (input : Value) : ValidSeconds (migrateSettings input).clipboardClearSeconds := by
  unfold migrateSettings validateSettings
  split
  · exact validSeconds_default
  · exact validSeconds_read _

/-- The key of the stored record is not read. -/
theorem loadSettings_fields (r : SettingsRecord) :
    loadSettings (.object (r.fields ++ [(name "id", .string (name PRIMARY))])) = r.clean := by
  have htimeout : (isAppLockTimeout (property (.object (r.fields ++ [(name "id", .string (name PRIMARY))]))
      "appLockTimeout")).getD SETTINGS_DEFAULTS.appLockTimeout = r.appLockTimeout :=
    congrArg (·.getD SETTINGS_DEFAULTS.appLockTimeout) (isAppLockTimeout_text r.appLockTimeout)
  unfold loadSettings migrateSettings validateSettings
  rw [htimeout]
  rfl

theorem loadSettings_saveSettings (now : Binary64) (next : SettingsRecord) :
    loadSettings (saveSettings now next) = toStore now next := by
  have hvalid : ValidSeconds (toStore now next).clipboardClearSeconds := validSeconds_migrate next.toValue
  unfold saveSettings
  rw [loadSettings_fields, clean_of_valid hvalid]

theorem load_save (now : Binary64) (next : SettingsRecord) :
    (loadSettings (saveSettings now next)).preferences = next.preferences.clean := by
  rw [loadSettings_saveSettings]
  unfold toStore
  rw [migrateSettings_toValue]
  rfl

end Web

end Aesmsg.Settings
