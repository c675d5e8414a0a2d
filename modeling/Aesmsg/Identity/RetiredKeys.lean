import Aesmsg.Identity.Bundle
import Aesmsg.Lib.JsonText
import Mathlib.Data.List.ReduceOption

/-!
# The retired keys at rest

`apps/mobile/src/identity/identity-bundle.ts` and its web port: the text of the retired keys, the
tolerant parsers, and the transforms of the list, newest first.  Strings are lists of UTF-16 code
units.  `Aesmsg.Identity.Bundle` has the same transforms over a blob that is the list itself;
`parse_serialize_map` says that the text can be put in its place.

## Main results

- `parse_serialize`: the text of a list is parsed to the list without its later duplicates.
- `parseKeys_ok`: no text makes a parser throw.
- `parse_blob`: the web sanitizer keeps what the mobile parser does of the same entries.
-/

namespace Aesmsg.Identity.RetiredKeys

open JsonText

/-- An entry.  What else a stored object carries is neither read nor compared. -/
structure RetiredKeyEntry where
  wrapped : List UInt16
  publicKeyString : List UInt16
  fingerprint : List UInt16
  retiredAtMs : Binary64
deriving DecidableEq

inductive Thrown where
  | syntaxError
  | typeError

/-- `JSON.parse(raw)`. -/
def jsonParse (raw : List UInt16) : Except Thrown Value :=
  match parse raw with
  | some value => .ok value
  | none => .error .syntaxError

def name (s : String) : List UInt16 := units s.toList

/-- `typeof value === "object" && value !== null`. -/
def isRecord : Value → Bool
  | .array _ => true
  | .object _ => true
  | _ => false

/-- `value.name`, none for undefined.  Of equal names the last one counts.  A list is never asked
for its method `keys`, as it has no field `v`. -/
def get (value : Value) (s : String) : Except Thrown (Option Value) :=
  match value with
  | .null => .error .typeError
  | .object fields => .ok ((fields.reverse.find? (·.1 = name s)).map Prod.snd)
  | _ => .ok none

/-- The field where `typeof value.name === "string"`. -/
def stringField (value : Value) (s : String) : Except Thrown (Option (List UInt16)) := do
  match ← get value s with
  | some (.string text) => return some text
  | _ => return none

/-- The field where `typeof value.name === "number" && Number.isFinite(value.name)`. -/
def finiteField (value : Value) (s : String) : Except Thrown (Option Binary64) := do
  match ← get value s with
  | some (.number n) => return n
  | _ => return none

def RETIRED_BLOB_VERSION : Binary64 := ⟨1, 1, 0, by norm_num, by norm_num, by norm_num, by norm_num⟩

/-- The entry that a value is, none where it is not. -/
def isRetiredKeyEntry (value : Value) : Except Thrown (Option RetiredKeyEntry) := do
  if !isRecord value then
    return none
  let some wrapped ← stringField value "wrapped" | return none
  let some publicKeyString ← stringField value "publicKeyString" | return none
  let some fingerprint ← stringField value "fingerprint" | return none
  let some retiredAtMs ← finiteField value "retiredAtMs" | return none
  return some ⟨wrapped, publicKeyString, fingerprint, retiredAtMs⟩

/-- `keys.filter(isRetiredKeyEntry)`. -/
def filterEntries (keys : List Value) : Except Thrown (List RetiredKeyEntry) := do
  return (← keys.mapM isRetiredKeyEntry).reduceOption

def RetiredKeyEntry.toValue (entry : RetiredKeyEntry) : Value :=
  .object [(name "wrapped", .string entry.wrapped),
    (name "publicKeyString", .string entry.publicKeyString),
    (name "fingerprint", .string entry.fingerprint),
    (name "retiredAtMs", .number (some entry.retiredAtMs))]

def blob (keys : Value) : Value :=
  .object [(name "v", .number (some RETIRED_BLOB_VERSION)), (name "keys", keys)]

/-- `JSON.stringify({ v: RETIRED_BLOB_VERSION, keys })`. -/
def serializeRetiredKeys (entries : List RetiredKeyEntry) : List UInt16 :=
  stringify (blob (.array (entries.map RetiredKeyEntry.toValue)))

def dedupeRetired (entries : List RetiredKeyEntry) : List RetiredKeyEntry :=
  Dedupe.dedupeBy RetiredKeyEntry.publicKeyString entries

def prependRetired (existing : List RetiredKeyEntry) (entry : RetiredKeyEntry) :
    List RetiredKeyEntry := dedupeRetired (entry :: existing)

/-- A parser of blobs, by what it does with the array of the keys.  None is null or undefined. -/
def parseKeys (entries : List Value → Except Thrown (List RetiredKeyEntry))
    (raw : Option (List UInt16)) : Except Thrown (List RetiredKeyEntry) :=
  match raw with
  | none => return []
  | some raw =>
    if raw = [] then return []
    else
      match jsonParse raw with
      | .error _ => return []
      | .ok parsed => do
        if !isRecord parsed then
          return []
        -- What is not a finite number is not the version either.
        match ← finiteField parsed "v" with
        | none => return []
        | some v =>
          if v ≠ RETIRED_BLOB_VERSION then
            return []
          match ← get parsed "keys" with
          | some (.array keys) => entries keys
          | _ => return []

namespace Mobile

def parseRetiredKeys (raw : Option (List UInt16)) : Except Thrown (List RetiredKeyEntry) :=
  parseKeys (fun keys ↦ do return dedupeRetired (← filterEntries keys)) raw

end Mobile

namespace Web

/-- What a stored record holds, none where it is undefined. -/
def sanitizeRetiredEntries : Option Value → Except Thrown (List RetiredKeyEntry)
  | some (.array items) => do return dedupeRetired (← filterEntries items)
  | _ => return []

def parseRetiredKeys (raw : Option (List UInt16)) : Except Thrown (List RetiredKeyEntry) :=
  parseKeys (fun keys ↦ sanitizeRetiredEntries (some (.array keys))) raw

end Web

/-! ## Entries -/

section Entries

variable {value : Value} {keys : List Value} {entries : List RetiredKeyEntry}

/-- A field of what is neither null nor undefined can be read. -/
theorem get_ok (h : isRecord value = true) (s : String) : ∃ field, get value s = .ok field := by
  cases value with
  | array items => exact ⟨_, rfl⟩
  | object fields => exact ⟨_, rfl⟩
  | _ => cases h

theorem stringField_ok (h : isRecord value = true) (s : String) :
    ∃ text, stringField value s = .ok text := by
  obtain ⟨field, hfield⟩ := get_ok h s
  unfold stringField
  rw [hfield]
  rcases field with _ | _ | _ | _ | _ | _ | _ <;> exact ⟨_, rfl⟩

theorem finiteField_ok (h : isRecord value = true) (s : String) :
    ∃ n, finiteField value s = .ok n := by
  obtain ⟨field, hfield⟩ := get_ok h s
  unfold finiteField
  rw [hfield]
  rcases field with _ | _ | _ | _ | _ | _ | _ <;> exact ⟨_, rfl⟩

/-- The guard never throws. -/
theorem isRetiredKeyEntry_ok (value : Value) : ∃ entry, isRetiredKeyEntry value = .ok entry := by
  unfold isRetiredKeyEntry
  cases hrecord : isRecord value with
  | false => exact ⟨none, rfl⟩
  | true =>
    obtain ⟨wrapped, hwrapped⟩ := stringField_ok hrecord "wrapped"
    obtain ⟨publicKeyString, hkey⟩ := stringField_ok hrecord "publicKeyString"
    obtain ⟨fingerprint, hfingerprint⟩ := stringField_ok hrecord "fingerprint"
    obtain ⟨retiredAtMs, hretired⟩ := finiteField_ok hrecord "retiredAtMs"
    rw [hwrapped, hkey, hfingerprint, hretired]
    cases wrapped with
    | none => exact ⟨none, rfl⟩
    | some wrapped =>
      cases publicKeyString with
      | none => exact ⟨none, rfl⟩
      | some publicKeyString =>
        cases fingerprint with
        | none => exact ⟨none, rfl⟩
        | some fingerprint => cases retiredAtMs <;> exact ⟨_, rfl⟩

theorem filterEntries_ok (keys : List Value) : ∃ entries, filterEntries keys = .ok entries := by
  have hmap : ∃ read, keys.mapM isRetiredKeyEntry = .ok read := by
    induction keys with
    | nil => exact ⟨[], rfl⟩
    | cons key keys ih =>
      obtain ⟨entry, hentry⟩ := isRetiredKeyEntry_ok key
      obtain ⟨read, hread⟩ := ih
      refine ⟨entry :: read, ?_⟩
      rw [List.mapM_cons, hentry, hread]
      rfl
  obtain ⟨read, hread⟩ := hmap
  refine ⟨read.reduceOption, ?_⟩
  unfold filterEntries
  rw [hread]
  rfl

/-- The value of an entry passes the guard. -/
theorem isRetiredKeyEntry_toValue (entry : RetiredKeyEntry) :
    isRetiredKeyEntry entry.toValue = .ok (some entry) := rfl

theorem filterEntries_toValue (entries : List RetiredKeyEntry) :
    filterEntries (entries.map RetiredKeyEntry.toValue) = .ok entries := by
  have hmap : (entries.map RetiredKeyEntry.toValue).mapM isRetiredKeyEntry =
      .ok (entries.map some) := by
    induction entries with
    | nil => rfl
    | cons entry entries ih =>
      rw [List.map_cons, List.mapM_cons, isRetiredKeyEntry_toValue, ih]
      rfl
  unfold filterEntries
  rw [hmap]
  refine congrArg Except.ok ?_
  unfold List.reduceOption
  rw [List.filterMap_map, Function.id_comp, List.filterMap_some]

/-! The guard passes the same entries before and after their text. -/

theorem isRecord_stored (value : Value) : isRecord (stored value) = isRecord value := by
  rcases value with _ | _ | (_ | _) | _ | _ | _ <;> rfl

theorem get_stored (h : isRecord value = true) (s : String) :
    get (stored value) s = (get value s).map (Option.map stored) := by
  cases value with
  | array items => rfl
  | object fields =>
    change Except.ok _ = Except.ok _
    rw [storedFields_eq_map, ← List.map_reverse, List.find?_map, Option.map_map, Option.map_map]
    rfl
  | _ => cases h

theorem stringField_stored (h : isRecord value = true) (s : String) :
    stringField (stored value) s = stringField value s := by
  unfold stringField
  rw [get_stored h]
  rcases get value s with _ | _ | _ | _ | (_ | _) | _ | _ | _ <;> rfl

theorem finiteField_stored (h : isRecord value = true) (s : String) :
    finiteField (stored value) s = finiteField value s := by
  unfold finiteField
  rw [get_stored h]
  rcases get value s with _ | _ | _ | _ | (_ | _) | _ | _ | _ <;> rfl

theorem isRetiredKeyEntry_stored (value : Value) :
    isRetiredKeyEntry (stored value) = isRetiredKeyEntry value := by
  unfold isRetiredKeyEntry
  rw [isRecord_stored]
  cases hrecord : isRecord value with
  | false => rfl
  | true =>
    rw [stringField_stored hrecord, stringField_stored hrecord, stringField_stored hrecord,
      finiteField_stored hrecord]

theorem filterEntries_storedItems (keys : List Value) :
    filterEntries (storedItems keys) = filterEntries keys := by
  have hguard : isRetiredKeyEntry ∘ stored = isRetiredKeyEntry := funext isRetiredKeyEntry_stored
  unfold filterEntries
  rw [storedItems_eq_map, List.mapM_map, hguard]

end Entries

/-! ## Lists of entries -/

section Lists

variable {entries : List RetiredKeyEntry}

theorem nodup_dedupeRetired : ((dedupeRetired entries).map RetiredKeyEntry.publicKeyString).Nodup :=
  Dedupe.nodup_dedupeBy

theorem prependRetired_eq_cons (existing : List RetiredKeyEntry) (entry : RetiredKeyEntry) :
    prependRetired existing entry =
      entry :: (dedupeRetired existing).filter (·.publicKeyString ≠ entry.publicKeyString) :=
  Dedupe.dedupeBy_cons

theorem sanitizeRetiredEntries_array (keys : List Value) :
    Web.sanitizeRetiredEntries (some (.array keys)) =
      (do return dedupeRetired (← filterEntries keys)) := rfl

/-- Whatever a store holds, the sanitizer returns entries with distinct keys. -/
theorem sanitizeRetiredEntries_ok (value : Option Value) :
    ∃ entries, Web.sanitizeRetiredEntries value = .ok entries ∧
      (entries.map RetiredKeyEntry.publicKeyString).Nodup := by
  unfold Web.sanitizeRetiredEntries
  split
  · rename_i keys
    obtain ⟨entries, hentries⟩ := filterEntries_ok keys
    refine ⟨dedupeRetired entries, ?_, nodup_dedupeRetired⟩
    rw [hentries]
    rfl
  · exact ⟨[], rfl, .nil⟩

theorem sanitizeRetiredEntries_stored (value : Value) :
    Web.sanitizeRetiredEntries (some (stored value)) = Web.sanitizeRetiredEntries (some value) := by
  cases value with
  | array keys =>
    rw [stored, sanitizeRetiredEntries_array, sanitizeRetiredEntries_array,
      filterEntries_storedItems]
  | number n => cases n <;> rfl
  | _ => rfl

theorem sanitizeRetiredEntries_toValue (entries : List RetiredKeyEntry) :
    Web.sanitizeRetiredEntries (some (.array (entries.map RetiredKeyEntry.toValue))) =
      .ok (dedupeRetired entries) := by
  rw [sanitizeRetiredEntries_array, filterEntries_toValue]
  rfl

end Lists

/-! ## Blobs -/

section Blobs

variable {entries : List Value → Except Thrown (List RetiredKeyEntry)}

/-- A parser throws only where its last step does. -/
theorem parseKeys_ok {P : List RetiredKeyEntry → Prop} (hnil : P [])
    (hentries : ∀ keys, ∃ kept, entries keys = .ok kept ∧ P kept) (raw : Option (List UInt16)) :
    ∃ kept, parseKeys entries raw = .ok kept ∧ P kept := by
  cases raw with
  | none => exact ⟨[], rfl, hnil⟩
  | some raw =>
    unfold parseKeys
    dsimp only
    split_ifs with hempty
    · exact ⟨[], rfl, hnil⟩
    · cases jsonParse raw with
      | error thrown => exact ⟨[], rfl, hnil⟩
      | ok parsed =>
        dsimp only
        cases hrecord : isRecord parsed with
        | false => exact ⟨[], rfl, hnil⟩
        | true =>
          obtain ⟨v, hv⟩ := finiteField_ok hrecord "v"
          obtain ⟨keys, hkeys⟩ := get_ok hrecord "keys"
          rw [hv, hkeys]
          cases v with
          | none => exact ⟨[], rfl, hnil⟩
          | some v =>
            by_cases hversion : v ≠ RETIRED_BLOB_VERSION
            · refine ⟨[], ?_, hnil⟩
              change (if v ≠ RETIRED_BLOB_VERSION then _ else _) = _
              rw [if_pos hversion]
              rfl
            · obtain rfl := not_not.mp hversion
              cases keys with
              | none => exact ⟨[], rfl, hnil⟩
              | some keys =>
                cases keys with
                | array keys => exact hentries keys
                | _ => exact ⟨[], rfl, hnil⟩

/-- The two parsers are the same function. -/
theorem parseRetiredKeys_web (raw : Option (List UInt16)) :
    Web.parseRetiredKeys raw = Mobile.parseRetiredKeys raw := rfl

/-- A parser returns entries with distinct keys. -/
theorem parseRetiredKeys_ok (raw : Option (List UInt16)) :
    ∃ entries, Mobile.parseRetiredKeys raw = .ok entries ∧
      (entries.map RetiredKeyEntry.publicKeyString).Nodup :=
  parseKeys_ok .nil (fun keys ↦ sanitizeRetiredEntries_ok (some (.array keys))) raw

/-- A blob is parsed to what the sanitizer returns of its keys. -/
theorem parse_blob (keys : Value) :
    Mobile.parseRetiredKeys (some (stringify (blob keys))) =
      Web.sanitizeRetiredEntries (some keys) := by
  have hparse : jsonParse (stringify (blob keys)) = .ok (blob (stored keys)) := by
    unfold jsonParse
    rw [parse_stringify]
    rfl
  have hversion : finiteField (blob (stored keys)) "v" = .ok (some RETIRED_BLOB_VERSION) := rfl
  have hkeys : get (blob (stored keys)) "keys" = .ok (some (stored keys)) := rfl
  rw [← sanitizeRetiredEntries_stored]
  unfold Mobile.parseRetiredKeys parseKeys
  dsimp only
  rw [if_neg (stringify_ne_nil _), hparse]
  dsimp only
  rw [hversion, hkeys]
  cases stored keys <;> rfl

/-- The text of a list is parsed to the list without its later duplicates. -/
theorem parse_serialize (entries : List RetiredKeyEntry) :
    Mobile.parseRetiredKeys (some (serializeRetiredKeys entries)) = .ok (dedupeRetired entries) :=
  (parse_blob _).trans (sanitizeRetiredEntries_toValue entries)

end Blobs

/-! ## The list in place of its text -/

section Bundle

variable {WrappedKey : Type} {encode : Identity.RetiredKeyEntry WrappedKey → RetiredKeyEntry}
  (hencode : ∀ a b, (encode a).publicKeyString = (encode b).publicKeyString ↔
    a.publicKeyString = b.publicKeyString)
include hencode

theorem dedupeRetired_map (entries : List (Identity.RetiredKeyEntry WrappedKey)) :
    dedupeRetired (entries.map encode) = (Identity.dedupeRetired entries).map encode :=
  Dedupe.dedupeBy_map hencode entries

theorem prependRetired_map (existing : List (Identity.RetiredKeyEntry WrappedKey))
    (entry : Identity.RetiredKeyEntry WrappedKey) :
    prependRetired (existing.map encode) (encode entry) =
      (Identity.prependRetired existing entry).map encode :=
  dedupeRetired_map hencode (entry :: existing)

/-- What is written and read back is the same whether the blob is the text or the list. -/
theorem parse_serialize_map (entries : List (Identity.RetiredKeyEntry WrappedKey)) :
    Mobile.parseRetiredKeys (some (serializeRetiredKeys (entries.map encode))) =
      .ok ((Identity.parseRetiredKeys (some entries)).map encode) := by
  rw [parse_serialize, dedupeRetired_map hencode]
  rfl

end Bundle

/-- The text of a list is parsed to the list without its later duplicates; the transforms drop
nothing else; no text makes a parser throw; and the two ports agree, whatever the stored entries
are. -/
theorem transforms_keep_keys :
    (∀ entries,
      Mobile.parseRetiredKeys (some (serializeRetiredKeys entries)) = .ok (dedupeRetired entries) ∧
      Web.parseRetiredKeys (some (serializeRetiredKeys entries)) = .ok (dedupeRetired entries)) ∧
    (∀ entries, dedupeRetired (dedupeRetired entries) = dedupeRetired entries ∧
      (dedupeRetired entries).Sublist entries ∧
      ((dedupeRetired entries).map RetiredKeyEntry.publicKeyString).Nodup ∧
      ∀ key, (dedupeRetired entries).find? (·.publicKeyString = key) =
          entries.find? (·.publicKeyString = key) ∧
        (key ∈ (dedupeRetired entries).map RetiredKeyEntry.publicKeyString ↔
          key ∈ entries.map RetiredKeyEntry.publicKeyString)) ∧
    (∀ existing entry, (prependRetired existing entry).head? = some entry ∧
      ((prependRetired existing entry).map RetiredKeyEntry.publicKeyString).Nodup ∧
      ∀ e ∈ existing, e.publicKeyString ∈
        (prependRetired existing entry).map RetiredKeyEntry.publicKeyString) ∧
    (∀ raw, ∃ entries, Mobile.parseRetiredKeys raw = .ok entries ∧
      Web.parseRetiredKeys raw = .ok entries ∧
      (entries.map RetiredKeyEntry.publicKeyString).Nodup) ∧
    ∀ keys, Web.sanitizeRetiredEntries (some keys) =
      Mobile.parseRetiredKeys (some (stringify (blob keys))) := by
  refine ⟨fun entries ↦
      ⟨parse_serialize entries, (parseRetiredKeys_web _).trans (parse_serialize entries)⟩,
    fun entries ↦ ?_, fun existing entry ↦ ?_, fun raw ↦ ?_, fun keys ↦ (parse_blob keys).symm⟩
  · exact ⟨Dedupe.dedupeBy_dedupeBy, Dedupe.dedupeBy_sublist, nodup_dedupeRetired,
      fun key ↦ ⟨Dedupe.find?_dedupeBy key, Dedupe.mem_keys_dedupeBy⟩⟩
  · refine ⟨?_, nodup_dedupeRetired, fun e he ↦ ?_⟩
    · rw [prependRetired_eq_cons, List.head?_cons]
    · exact Dedupe.mem_keys_dedupeBy.mpr (List.mem_map_of_mem (List.mem_cons_of_mem entry he))
  · obtain ⟨entries, hentries, hnodup⟩ := parseRetiredKeys_ok raw
    exact ⟨entries, hentries, (parseRetiredKeys_web raw).trans hentries, hnodup⟩

end Aesmsg.Identity.RetiredKeys
