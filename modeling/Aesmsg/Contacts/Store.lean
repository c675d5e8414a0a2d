import Aesmsg.Crypto.Fingerprint
import Aesmsg.Lib.Trim
import Mathlib.Data.List.Sort

/-!
# The contacts stores

`apps/mobile/src/contacts/contacts-store.ts` keeps the directory as one list under one blob key and
rewrites the list on every change; `apps/webapp/src/contacts/contacts-store.ts` keeps every record
under its id in an object store.  A function of either reads first and writes last, so it is given
here by what it makes of the directory that it read.
-/

namespace Aesmsg.Contacts

open Crypto

/-- A string by its UTF-16 units. -/
abbrev Label := List UInt16

def MAX_LABEL_LEN : Nat := 80

structure ContactRecord where
  id : String
  label : Label
  publicKey : String
  fingerprint : String
  verified : Bool
  /-- Oldest first. -/
  previousFingerprints : List String
  createdAt : String
  updatedAt : String
  schemaVersion : Nat
deriving DecidableEq

/-- The current fingerprint and those that were rotated away. -/
def ContactRecord.fingerprints (c : ContactRecord) : List String :=
  c.fingerprint :: c.previousFingerprints

structure AddContactInput where
  label : Label
  publicKey : String
deriving DecidableEq

inductive Reason where
  | current
  | previous
deriving DecidableEq

inductive StoreError where
  | invalidLabel (message : String)
  | notFound (message : String)
  | sameKey (message : String)
  | rotatedAway (message : String)
  | duplicateFingerprint (message : String) (existingId : String) (existingLabel : Label)
    (reason : Reason)
  | crypto (e : CryptoError)
deriving DecidableEq

/-- The result of a function of the store. -/
abbrev Outcome (α : Type) := Except StoreError α

theorem Outcome.bind_eq_ok {α β : Type} {x : Outcome α} {f : α → Outcome β} {b : β} :
    (x >>= f) = .ok b ↔ ∃ a, x = .ok a ∧ f a = .ok b := by
  cases x with
  | error e => exact ⟨by rintro ⟨⟩, by rintro ⟨_, ⟨⟩, _⟩⟩
  | ok a => exact ⟨fun h ↦ ⟨a, rfl, h⟩, fun ⟨_, ha, h⟩ ↦ by cases ha; exact h⟩

/-- `if (c) throw e`. -/
def throwIf (c : Prop) [Decidable c] (e : StoreError) : Outcome Unit :=
  if c then .error e else .ok ()

theorem throwIf_eq_ok {c : Prop} [Decidable c] {e : StoreError} {u : Unit} :
    throwIf c e = .ok u ↔ ¬c := by
  unfold throwIf
  split
  · exact ⟨by rintro ⟨⟩, fun h ↦ absurd ‹c› h⟩
  · exact ⟨fun _ ↦ ‹¬c›, fun _ ↦ rfl⟩

def trim (s : Label) : Label := Trim.trim (Trim.isSpace ·.toNat) s

def validateLabel (raw : Label) : Outcome Label := do
  let trimmed := trim raw
  throwIf (trimmed.length = 0) (.invalidLabel "Label is required")
  throwIf (MAX_LABEL_LEN < trimmed.length)
    (.invalidLabel s!"Label must be {MAX_LABEL_LEN} characters or fewer")
  return trimmed

def computeFingerprint (H : Hpke) (publicKey : String) : Outcome String :=
  (fingerprint H publicKey).mapError .crypto

/-- The loop of `addContact` over the directory. -/
def checkDuplicates (fp : String) : List ContactRecord → Outcome Unit
  | [] => return ()
  | c :: rest =>
    if c.fingerprint = fp then
      .error (.duplicateFingerprint "This public key is already saved" c.id c.label .current)
    else if fp ∈ c.previousFingerprints then
      .error (.duplicateFingerprint "This public key was rotated away by another contact" c.id
        c.label .previous)
    else checkDuplicates fp rest

/-- The contact with an id, or the throw of `NotFoundError`. -/
def getContact (id : String) (all : List ContactRecord) : Outcome ContactRecord :=
  match all.find? (·.id = id) with
  | some c => .ok c
  | none => .error (.notFound s!"Contact {id} not found")

/-! ## Records -/

/-- The record that `addContact` stores under the id that `randomUUID` returns. -/
def newContact (label : Label) (publicKey fp uuid now : String) : ContactRecord where
  id := uuid
  label := label
  publicKey := publicKey
  fingerprint := fp
  verified := false
  previousFingerprints := []
  createdAt := now
  updatedAt := now
  schemaVersion := 1

/-- The record that `updateContactKey` stores. -/
def rotate (H : Hpke) (existing : ContactRecord) (newPublicKey now : String) :
    Outcome ContactRecord := do
  let newFp ← computeFingerprint H newPublicKey
  throwIf (newFp = existing.fingerprint) (.sameKey "New key equals current key")
  throwIf (newFp ∈ existing.previousFingerprints)
    (.rotatedAway "This key was previously rotated away by this contact")
  return { existing with
    publicKey := newPublicKey
    fingerprint := newFp
    verified := false
    previousFingerprints := existing.previousFingerprints ++ [existing.fingerprint]
    updatedAt := now }

/-! ## Calls -/

/-- A call with the clock reading and the random id that it gets. -/
inductive Call where
  | addContact (input : AddContactInput) (uuid now : String)
  | updateContactKey (id newPublicKey now : String)
  | setContactVerified (id : String) (verified : Bool) (now : String)
  | renameContact (id : String) (label : Label) (now : String)
  | deleteContact (id : String)
deriving DecidableEq

/-- The id that a call draws. -/
def Call.uuid : Call → Option String
  | addContact _ uuid _ => some uuid
  | _ => none

/-- What a call writes: the whole list on mobile, one record on the web. -/
inductive Write where
  | records (all : List ContactRecord)
  | put (record : ContactRecord)
  | remove (id : String)
deriving DecidableEq

/-- What a call does after its read. -/
structure Plan where
  write : Option Write
  returned : Option ContactRecord
deriving DecidableEq

namespace Mobile

/-- `next[idx] = updated`. -/
def replace (all : List ContactRecord) (id : String) (updated : ContactRecord) :
    List ContactRecord := all.set (all.findIdx (·.id = id)) updated

def store (all : List ContactRecord) (record : ContactRecord) : Plan :=
  ⟨some (.records all), some record⟩

def addContact (H : Hpke) (input : AddContactInput) (uuid now : String) (all : List ContactRecord) :
    Outcome Plan := do
  let label ← validateLabel input.label
  let fp ← computeFingerprint H input.publicKey
  checkDuplicates fp all
  let record := newContact label input.publicKey fp uuid now
  return store (all ++ [record]) record

def updateContactKey (H : Hpke) (id newPublicKey now : String) (all : List ContactRecord) :
    Outcome Plan := do
  let existing ← getContact id all
  let updated ← rotate H existing newPublicKey now
  return store (replace all id updated) updated

def setContactVerified (id : String) (verified : Bool) (now : String) (all : List ContactRecord) :
    Outcome Plan := do
  let existing ← getContact id all
  let updated := { existing with verified, updatedAt := now }
  return store (replace all id updated) updated

def renameContact (id : String) (label : Label) (now : String) (all : List ContactRecord) :
    Outcome Plan := do
  let trimmed ← validateLabel label
  let existing ← getContact id all
  let updated := { existing with label := trimmed, updatedAt := now }
  return store (replace all id updated) updated

def deleteContact (id : String) (all : List ContactRecord) : Outcome Plan :=
  let next := all.filter (·.id ≠ id)
  if next.length = all.length then .ok ⟨none, none⟩ else .ok ⟨some (.records next), none⟩

def plan (H : Hpke) (all : List ContactRecord) : Call → Outcome Plan
  | .addContact input uuid now => addContact H input uuid now all
  | .updateContactKey id newPublicKey now => updateContactKey H id newPublicKey now all
  | .setContactVerified id verified now => setContactVerified id verified now all
  | .renameContact id label now => renameContact id label now all
  | .deleteContact id => deleteContact id all

end Mobile

namespace Web

def store (record : ContactRecord) : Plan := ⟨some (.put record), some record⟩

def addContact (H : Hpke) (input : AddContactInput) (uuid now : String) (all : List ContactRecord) :
    Outcome Plan := do
  let label ← validateLabel input.label
  let fp ← computeFingerprint H input.publicKey
  checkDuplicates fp all
  return store (newContact label input.publicKey fp uuid now)

def updateContactKey (H : Hpke) (id newPublicKey now : String) (all : List ContactRecord) :
    Outcome Plan := do
  let existing ← getContact id all
  let updated ← rotate H existing newPublicKey now
  return store updated

def setContactVerified (id : String) (verified : Bool) (now : String) (all : List ContactRecord) :
    Outcome Plan := do
  let existing ← getContact id all
  return store { existing with verified, updatedAt := now }

def renameContact (id : String) (label : Label) (now : String) (all : List ContactRecord) :
    Outcome Plan := do
  let trimmed ← validateLabel label
  let existing ← getContact id all
  return store { existing with label := trimmed, updatedAt := now }

/-- One transaction, which reads nothing. -/
def deleteContact (id : String) : Outcome Plan := .ok ⟨some (.remove id), none⟩

def plan (H : Hpke) (all : List ContactRecord) : Call → Outcome Plan
  | .addContact input uuid now => addContact H input uuid now all
  | .updateContactKey id newPublicKey now => updateContactKey H id newPublicKey now all
  | .setContactVerified id verified now => setContactVerified id verified now all
  | .renameContact id label now => renameContact id label now all
  | .deleteContact id => deleteContact id

end Web

/-! ## The stored directory -/

/-- The contacts with other ids. -/
def without (id : String) (l : List ContactRecord) : List ContactRecord := l.filter (·.id ≠ id)

/-- `put` of an object store, whose records are in the order of their ids. -/
def put (record : ContactRecord) (stored : List ContactRecord) : List ContactRecord :=
  (without record.id stored).orderedInsert (·.id ≤ ·.id) record

def Write.perform : Write → List ContactRecord → List ContactRecord
  | records all, _ => all
  | put record, stored => Contacts.put record stored
  | remove id, stored => without id stored

inductive Platform where
  | mobile
  | web

def Platform.plan (H : Hpke) : Platform → List ContactRecord → Call → Outcome Plan
  | mobile => Mobile.plan H
  | web => Web.plan H

/-- The directory that a plan leaves. -/
def Plan.perform (p : Plan) (stored : List ContactRecord) : List ContactRecord :=
  match p.write with
  | some w => w.perform stored
  | none => stored

end Aesmsg.Contacts
