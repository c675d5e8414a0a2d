import Aesmsg.Contacts.Directory
import Aesmsg.Lib.JsonText
import Aesmsg.Storage.EncryptedStore
import Mathlib.Logic.Function.Basic

/-!
# Corrupt contacts

The contacts store of the mobile client over its encrypted store: a call reads the blob, plans a change
as in `Contacts/Store.lean` and writes the blob.

## Main results

- `no_recovery`: while the blob cannot be read no call gets past its read, and adding a contact does not
  overwrite it.
- `addContact_of_readable`: what is added to a blob that can be read is listed.
-/

namespace Aesmsg.Contacts.Mobile

open Crypto Storage

def CONTACTS_BLOB_KEY : String := "contacts"

/-- What the JSON of the blob is: null or a list. -/
abbrev Stored := Option (List ContactRecord)

/-- `EncryptedStore`, with the blobs of its blob store. -/
structure Disk where
  blobs : String → Option String
  dek : List UInt8

inductive Failure where
  | contacts (e : StoreError)
  | storage (e : StorageError)
deriving DecidableEq

section Calls

variable (H : Hpke) (G : Gcm) (J : Codec Stored) (compare : Label → Label → Int)

def Disk.getJson (disk : Disk) (key : String) : Except StorageError Stored :=
  match disk.blobs key with
  | none => .ok none
  | some framed => openFrame G J disk.dek key framed

def Disk.setJson (disk : Disk) (nonce : Nonce) (key : String) (value : Stored) : Except StorageError Disk :=
  (sealFrame G J disk.dek nonce value).map fun framed ↦
    { disk with blobs := Function.update disk.blobs key (some framed) }

def readAll (disk : Disk) : Except StorageError (List ContactRecord) :=
  (disk.getJson G J CONTACTS_BLOB_KEY).map (·.getD [])

def writeAll (disk : Disk) (nonce : Nonce) (records : List ContactRecord) : Except StorageError Disk :=
  disk.setJson G J nonce CONTACTS_BLOB_KEY (some records)

/-- What a call checks before it reads, which its plan checks again. -/
def precheck : Call → Outcome Unit
  | .addContact input _ _ => do
    let _ ← validateLabel input.label
    let _ ← computeFingerprint H input.publicKey
  | .renameContact _ label _ => do
    let _ ← validateLabel label
  | .updateContactKey .. | .setContactVerified .. | .deleteContact _ => return ()

/-- The write of a plan. -/
def perform (disk : Disk) (nonce : Nonce) (plan : Plan) : Disk × Except Failure (Option ContactRecord) :=
  match plan.write with
  | some (.records all) =>
    match writeAll G J disk nonce all with
    | .error e => (disk, .error (.storage e))
    | .ok disk => (disk, .ok plan.returned)
  | _ => (disk, .ok plan.returned)

/-- A call, with the nonce that it draws if it writes. -/
def call (disk : Disk) (nonce : Nonce) (c : Call) : Disk × Except Failure (Option ContactRecord) :=
  match precheck H c with
  | .error e => (disk, .error (.contacts e))
  | .ok () =>
    match readAll G J disk with
    | .error e => (disk, .error (.storage e))
    | .ok all =>
      match plan H all c with
      | .error e => (disk, .error (.contacts e))
      | .ok plan => perform G J disk nonce plan

/-- `compare` is that of the collator. -/
def listContacts (disk : Disk) : Except StorageError (List ContactRecord) :=
  (readAll G J disk).map fun all ↦ all.mergeSort fun a b ↦ compare a.label b.label ≤ 0

/-- The disk after some calls, and what they returned, the newest first. -/
def calls : Disk → List (Nonce × Call) → Disk × List (Except Failure (Option ContactRecord))
  | disk, [] => (disk, [])
  | disk, (nonce, c) :: rest =>
    let (disk, answer) := call H G J disk nonce c
    let (disk, answers) := calls disk rest
    (disk, answers ++ [answer])

/-- An input that `addContact` accepts for an empty directory. -/
structure ValidInput (input : AddContactInput) : Prop where
  label : ∃ label, validateLabel input.label = .ok label
  publicKey : ∃ fp, computeFingerprint H input.publicKey = .ok fp

/-- `addContact` succeeds and overwrites the blob, and the contact is listed then. -/
def Recovers (disk : Disk) (nonce : Nonce) (input : AddContactInput) (uuid now : String) : Prop :=
  ∃ disk' record list, call H G J disk nonce (.addContact input uuid now) = (disk', .ok (some record)) ∧
    disk'.blobs CONTACTS_BLOB_KEY ≠ disk.blobs CONTACTS_BLOB_KEY ∧
    listContacts G J compare disk' = .ok list ∧ record ∈ list

/-- What holds of a disk whose contacts cannot be read. -/
structure Stuck (disk : Disk) (e : StorageError) : Prop where
  /-- A valid contact fails with the error of the read, and nothing is written. -/
  add : ∀ nonce input uuid now, ValidInput H input →
    call H G J disk nonce (.addContact input uuid now) = (disk, .error (.storage e))
  recovers : ∀ nonce input uuid now, ¬Recovers H G J compare disk nonce input uuid now
  list : listContacts G J compare disk = .error e
  /-- Whatever is called, every call fails and the disk stays as it is. -/
  calls : ∀ nonces : List (Nonce × Call), (calls H G J disk nonces).1 = disk ∧
    ∀ answer ∈ (calls H G J disk nonces).2, ∃ failure, answer = .error failure

end Calls

section Corrupt

variable {H : Hpke} {G : Gcm} {J : Codec Stored} {compare : Label → Label → Int} {disk : Disk}
  {e : StorageError} {nonce : Nonce} {input : AddContactInput}

theorem precheck_of_valid (h : ValidInput H input) (uuid now : String) :
    precheck H (.addContact input uuid now) = .ok () := by
  obtain ⟨label, hlabel⟩ := h.label
  obtain ⟨fp, hfp⟩ := h.publicKey
  unfold precheck
  dsimp only
  rw [hlabel, hfp]
  rfl

theorem readAll_of_blob {framed : String} (hblob : disk.blobs CONTACTS_BLOB_KEY = some framed) :
    readAll G J disk = (openFrame G J disk.dek CONTACTS_BLOB_KEY framed).map (·.getD []) := by
  unfold readAll Disk.getJson
  rw [hblob]

/-- A call ends at its read, if not before. -/
theorem call_of_corrupt (h : readAll G J disk = .error e) (c : Call) :
    call H G J disk nonce c = (disk, .error (.storage e)) ∨
      ∃ e', call H G J disk nonce c = (disk, .error (.contacts e')) := by
  unfold call
  cases precheck H c with
  | error e' => exact .inr ⟨e', rfl⟩
  | ok _ =>
    rw [h]
    exact .inl rfl

theorem calls_of_corrupt (h : readAll G J disk = .error e) (cs : List (Nonce × Call)) :
    (calls H G J disk cs).1 = disk ∧
      ∀ answer ∈ (calls H G J disk cs).2, ∃ failure, answer = .error failure := by
  induction cs with
  | nil => exact ⟨rfl, fun answer hmem ↦ absurd hmem List.not_mem_nil⟩
  | cons first rest ih =>
    obtain ⟨nonce, c⟩ := first
    obtain ⟨failure, hcall⟩ : ∃ failure, call H G J disk nonce c = (disk, .error failure) := by
      rcases call_of_corrupt h c with heq | ⟨e', heq⟩
      · exact ⟨_, heq⟩
      · exact ⟨_, heq⟩
    unfold calls
    rw [hcall]
    refine ⟨ih.1, fun answer hmem ↦ ?_⟩
    rcases List.mem_append.mp hmem with hmem | hmem
    · exact ih.2 answer hmem
    · exact ⟨failure, List.mem_singleton.mp hmem⟩

theorem addContact_of_corrupt (h : readAll G J disk = .error e) (hvalid : ValidInput H input)
    (uuid now : String) :
    call H G J disk nonce (.addContact input uuid now) = (disk, .error (.storage e)) := by
  unfold call
  rw [precheck_of_valid hvalid, h]

theorem not_recovers (h : readAll G J disk = .error e) (uuid now : String) :
    ¬Recovers H G J compare disk nonce input uuid now := by
  rintro ⟨disk', record, list, hcall, -⟩
  rcases call_of_corrupt h (.addContact input uuid now) with heq | ⟨e', heq⟩
  · cases hcall.symm.trans heq
  · cases hcall.symm.trans heq

/-- A blob that cannot be read is not recovered from. -/
theorem no_recovery {framed : String} (hblob : disk.blobs CONTACTS_BLOB_KEY = some framed)
    (hcorrupt : openFrame G J disk.dek CONTACTS_BLOB_KEY framed = .error e) :
    Stuck H G J compare disk e := by
  have hread : readAll G J disk = .error e := by
    rw [readAll_of_blob hblob, hcorrupt]
    rfl
  constructor
  · exact fun nonce input uuid now hvalid ↦ addContact_of_corrupt hread hvalid uuid now
  · exact fun nonce input uuid now ↦ not_recovers hread uuid now
  · unfold listContacts
    rw [hread]
    rfl
  · exact calls_of_corrupt hread

/-! ## A blob that can be read -/

theorem addContact_eq_ok {label : Label} {fp uuid now : String} {all : List ContactRecord}
    (hlabel : validateLabel input.label = .ok label) (hfp : computeFingerprint H input.publicKey = .ok fp)
    (hfree : ∀ c ∈ all, fp ∉ c.fingerprints) :
    addContact H input uuid now all = .ok (store (all ++ [newContact label input.publicKey fp uuid now])
      (newContact label input.publicKey fp uuid now)) := by
  have hcheck : checkDuplicates fp all = .ok () := checkDuplicates_eq_ok.mpr hfree
  unfold addContact
  rw [hlabel, hfp]
  change (checkDuplicates fp all >>= fun _ ↦ _) = _
  rw [hcheck]
  rfl

theorem readAll_setJson (hG : G.Lawful) (hJ : J.Lawful) {disk' : Disk} {records : List ContactRecord}
    (h : writeAll G J disk nonce records = .ok disk') : readAll G J disk' = .ok records := by
  unfold writeAll Disk.setJson at h
  cases hframe : sealFrame G J disk.dek nonce (some records) with
  | error e =>
    rw [hframe] at h
    cases h
  | ok framed =>
    rw [hframe] at h
    cases h
    have hblob : Function.update disk.blobs CONTACTS_BLOB_KEY (some framed) CONTACTS_BLOB_KEY = some framed :=
      Function.update_self _ _ _
    rw [readAll_of_blob hblob, openFrame_sealFrame hG hJ hframe]
    rfl

/-- A contact that nobody else is in a directory that can be read is added to it and listed. -/
theorem addContact_of_readable (hG : G.Lawful) (hJ : J.Lawful) {cryptoKey : CryptoKey}
    {all : List ContactRecord} {label : Label} {fp : String}
    (hkey : importKey disk.dek = .ok cryptoKey) (hread : readAll G J disk = .ok all)
    (hlabel : validateLabel input.label = .ok label) (hfp : computeFingerprint H input.publicKey = .ok fp)
    (hfree : ∀ c ∈ all, fp ∉ c.fingerprints) (uuid now : String) :
    ∃ disk' record list, call H G J disk nonce (.addContact input uuid now) = (disk', .ok (some record)) ∧
      record = newContact label input.publicKey fp uuid now ∧
      listContacts G J compare disk' = .ok list ∧ list.Perm (all ++ [record]) := by
  obtain ⟨disk', hwrite⟩ : ∃ disk', writeAll G J disk nonce
      (all ++ [newContact label input.publicKey fp uuid now]) = .ok disk' := by
    unfold writeAll Disk.setJson sealFrame
    rw [hkey]
    exact ⟨_, rfl⟩
  refine ⟨disk', newContact label input.publicKey fp uuid now,
    (all ++ [newContact label input.publicKey fp uuid now]).mergeSort
      fun a b ↦ compare a.label b.label ≤ 0, ?_, rfl, ?_, List.mergeSort_perm _ _⟩
  · unfold call
    rw [precheck_of_valid ⟨⟨label, hlabel⟩, ⟨fp, hfp⟩⟩, hread]
    dsimp only [plan]
    rw [addContact_eq_ok hlabel hfp hfree]
    dsimp only [perform, store]
    rw [hwrite]
  · unfold listContacts
    rw [readAll_setJson hG hJ hwrite]
    rfl

end Corrupt

/-! ## A corrupt blob -/

def unitsOf (s : String) : List UInt16 := JsonText.units s.toList

/-- The string of units that are characters of their own. -/
def textOf (us : List UInt16) : String := String.ofList (us.map JsonText.char)

def recordValue (c : ContactRecord) : JsonText.Value :=
  .object [(unitsOf "id", .string (unitsOf c.id)), (unitsOf "label", .string c.label),
    (unitsOf "publicKey", .string (unitsOf c.publicKey)),
    (unitsOf "fingerprint", .string (unitsOf c.fingerprint)), (unitsOf "verified", .boolean c.verified),
    (unitsOf "previousFingerprints", .array (c.previousFingerprints.map fun fp ↦ .string (unitsOf fp))),
    (unitsOf "createdAt", .string (unitsOf c.createdAt)),
    (unitsOf "updatedAt", .string (unitsOf c.updatedAt)),
    (unitsOf "schemaVersion", .number (if h : |(c.schemaVersion : ℤ)| < 2 ^ 53 then
      some (.ofInt c.schemaVersion h) else none))]

def stringOf : JsonText.Value → Option String
  | .string us => some (textOf us)
  | _ => none

def recordOf : JsonText.Value → Option ContactRecord
  | .object [(_, .string id), (_, .string label), (_, .string publicKey), (_, .string fingerprint),
      (_, .boolean verified), (_, .array previous), (_, .string createdAt), (_, .string updatedAt),
      (_, .number (some version))] => do
    let previousFingerprints ← previous.mapM stringOf
    return {
      id := textOf id
      label := label
      publicKey := textOf publicKey
      fingerprint := textOf fingerprint
      verified := verified
      previousFingerprints := previousFingerprints
      createdAt := textOf createdAt
      updatedAt := textOf updatedAt
      schemaVersion := version.value.num.toNat }
  | _ => none

/-- The JSON of the blob, whose records are read in the order of their fields. -/
def sampleCodec : Codec Stored where
  stringify
    | none => "null"
    | some records => textOf (JsonText.stringify (.array (records.map recordValue)))
  parse text :=
    match JsonText.parse (unitsOf text) with
    | some .null => some none
    | some (.array items) => (items.mapM recordOf).map some
    | _ => none

example : sampleCodec.parse (sampleCodec.stringify (some [newContact (label "Al") "k" "f" "a" "t"])) =
    some (some [newContact (label "Al") "k" "f" "a" "t"]) := by decide +kernel

/-- A blob that is not base64. -/
def corruptDisk : Disk where
  blobs key := if key = CONTACTS_BLOB_KEY then some "!" else none
  dek := List.replicate 32 0

theorem no_recovery_corrupt : Stuck plainDigest Gcm.transparent sampleCodec (fun _ _ ↦ 0) corruptDisk
    (.decryption (blobMessage CONTACTS_BLOB_KEY "has invalid base64 framing")) := by
  have hblob : corruptDisk.blobs CONTACTS_BLOB_KEY = some "!" := rfl
  exact no_recovery hblob rfl

theorem not_recovered : ValidInput plainDigest ⟨label "Alice", aliceKey⟩ ∧
    openFrame Gcm.transparent sampleCodec corruptDisk.dek CONTACTS_BLOB_KEY "!" =
      .error (.decryption (blobMessage CONTACTS_BLOB_KEY "has invalid base64 framing")) ∧
    corruptDisk.blobs CONTACTS_BLOB_KEY = some "!" ∧
    ¬Recovers plainDigest Gcm.transparent sampleCodec (fun _ _ ↦ 0) corruptDisk
      ⟨List.replicate 12 0, rfl⟩ ⟨label "Alice", aliceKey⟩ "a" "2026-01-01T00:00:00.000Z" := by
  have hread : readAll Gcm.transparent sampleCodec corruptDisk =
      .error (.decryption (blobMessage CONTACTS_BLOB_KEY "has invalid base64 framing")) := rfl
  refine ⟨⟨⟨label "Alice", ?_⟩, ⟨_, rfl⟩⟩, rfl, rfl, not_recovers hread _ _⟩
  decide +kernel

end Aesmsg.Contacts.Mobile
