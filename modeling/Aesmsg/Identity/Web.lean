import Aesmsg.Identity.Bundle
import Aesmsg.Identity.Crypto
import Aesmsg.Lib.Threads
import Mathlib.Logic.Function.Basic

/-!
# The web identity provider

`apps/webapp/src/identity/identity-context.tsx` with `identity-store.ts`, `retired-keys-store.ts` and
`db.ts`: the operations of the providers of any number of tabs as threads on the memory of the tabs and
on one database.  IndexedDB serves transactions in the order in which they are requested, each of them
atomically, so a step is the code between two awaits with the transaction that it requests last.  Any
transaction may fail, and then has no effect.
-/

namespace Aesmsg.Identity.Web

open Threads

section

variable (C : IdentityCrypto)

structure StoredIdentity where
  publicKeyString : String
  wrapped : C.WrappedKey
deriving DecidableEq

/-- The object stores of the identity and of the retired keys; each holds at most one record. -/
structure Db where
  identity : Option (StoredIdentity C)
  retired : Option (List (RetiredKeyEntry C.WrappedKey))

inductive IdentityState where
  | loading
  | noIdentity
  | locked
  | unlocked
deriving DecidableEq, Repr

/-- The refs of one provider; `state`, `identity` and `publicKeyString` of the React state mirror
`stateRef` and `identityRef`. -/
structure Tab where
  stateRef : IdentityState
  wrongPassphrase : Bool
  identityRef : Option C.IdentityKeypair
  retiredKeypairsRef : List C.IdentityKeypair
  epochRef : Nat

structure State where
  db : Db C
  tabs : Nat → Tab C

/-- The operations of a provider, and the effect that runs when it is mounted. -/
inductive Operation where
  | mount
  | setupNew (passphrase : String)
  | importIdentity (envelope : C.WrappedKey) (keypair : C.IdentityKeypair)
  | unlock (passphrase : String)
  | rotate (passphrase : String)
  | lock
  | wipe
deriving DecidableEq

structure Request where
  tab : Nat
  operation : Operation C
deriving DecidableEq

inductive Item where
  | identity
  | retired
deriving DecidableEq

/-- Who puts an identity record. -/
inductive Writer where
  | create
  | rotate
deriving DecidableEq

inductive Event where
  | called (request : Request C)
  /-- The record is put into the identity store. -/
  | committed (writer : Writer) (record : StoredIdentity C)
  | erased (item : Item)
  /-- A keypair is written into a ref of the tab, or the tab is set to unlocked. -/
  | keyed (tab : Nat)
  | resolved (request : Operation C)
  | rejected (error : String)
deriving DecidableEq

/-- What the scheduler and the outside decide for one step: the clock, the random draws, whether a read
fails whose failure is caught, and the error of another transaction or awaited call that fails. -/
structure Input where
  now : Int
  generated : C.IdentityKeypair
  salt : C.Salt
  readFails : Bool
  rejects : Option String

/-- What `rotate` holds. -/
structure Rotation where
  epoch : Nat
  passphrase : String
  oldActive : C.IdentityKeypair
  stored : StoredIdentity C

/-- Where a thread of one tab stands: the call it awaits. -/
inductive Pc where
  | start (operation : Operation C)
  /-- `mount` awaits `hasIdentity`. -/
  | mounted (exists_ : Bool)
  | generateIdentity (passphrase : String)
  | wrapIdentity (passphrase : String) (id : C.IdentityKeypair)
  /-- `setupNew` or `importIdentity` awaits its transaction. -/
  | saved (operation : Operation C) (id : C.IdentityKeypair)
  /-- `unlock` awaits `loadIdentity`. -/
  | unlockLoaded (epoch : Nat) (passphrase : String) (record : Option (StoredIdentity C))
  | unwrapActive (epoch : Nat) (passphrase : String) (record : StoredIdentity C)
  /-- The background loop of `unlock` awaits `loadRetiredEntries`. -/
  | backgroundLoaded (epoch : Nat) (passphrase : String) (activePk : String)
    (entries : List (RetiredKeyEntry C.WrappedKey))
  /-- The background loop awaits the unwrap of `entry`. -/
  | background (epoch : Nat) (passphrase : String) (entry : RetiredKeyEntry C.WrappedKey)
    (entries : List (RetiredKeyEntry C.WrappedKey))
  /-- `rotate` awaits `loadIdentity`. -/
  | rotateLoaded (epoch : Nat) (passphrase : String) (oldActive : C.IdentityKeypair)
    (stored : Option (StoredIdentity C))
  | reverify (r : Rotation C)
  | fingerprintOld (r : Rotation C)
  | generateNew (r : Rotation C) (retiredEntry : RetiredKeyEntry C.WrappedKey)
  | wrapNew (r : Rotation C) (retiredEntry : RetiredKeyEntry C.WrappedKey) (newId : C.IdentityKeypair)
  /-- `rotate` awaits `loadRetiredEntries`. -/
  | priorLoaded (r : Rotation C) (retiredEntry : RetiredKeyEntry C.WrappedKey)
    (newId : C.IdentityKeypair) (newWrapped : C.WrappedKey)
    (prior : List (RetiredKeyEntry C.WrappedKey))
  /-- `rotate` awaits its transaction. -/
  | committed (r : Rotation C) (newId : C.IdentityKeypair)
  /-- `wipe` awaits the delete of the identity. -/
  | deletedIdentity
  /-- `wipe` awaits the clear of the retired entries. -/
  | clearedRetired
  | done

/-- A thread of a tab. -/
structure Thread where
  tab : Nat
  pc : Pc C

end

variable {C : IdentityCrypto}

/-- `sanitizeRetiredEntries` on what `loadRetiredEntries` reads. -/
def Db.retiredEntries (db : Db C) : List (RetiredKeyEntry C.WrappedKey) := parseRetiredKeys db.retired

def Db.putIdentity (db : Db C) (record : StoredIdentity C) : Db C := { db with identity := some record }

/-- The transaction of `rotate` over both stores. -/
def Db.putRotation (record : StoredIdentity C) (entries : List (RetiredKeyEntry C.WrappedKey)) : Db C :=
  ⟨some record, some entries⟩

def Db.deleteIdentity (db : Db C) : Db C := { db with identity := none }

def Db.clearRetired (db : Db C) : Db C := { db with retired := none }

def Db.empty : Db C := ⟨none, none⟩

/-- A provider that is not mounted yet. -/
def Tab.fresh : Tab C := ⟨.loading, false, none, [], 0⟩

def IdentityState.text : IdentityState → String
  | .loading => "loading"
  | .noIdentity => "no_identity"
  | .locked => "locked"
  | .unlocked => "unlocked"

/-- The memory after an operation that ends unlocked on `id`. -/
def Tab.enter (m : Tab C) (id : C.IdentityKeypair) (retired : List C.IdentityKeypair) : Tab C :=
  { m with
    stateRef := .unlocked
    wrongPassphrase := false
    identityRef := some id
    retiredKeypairsRef := retired }

def Tab.leave (m : Tab C) (state : IdentityState) : Tab C :=
  { m with stateRef := state, wrongPassphrase := false, identityRef := none, retiredKeypairsRef := [] }

def State.setTab (s : State C) (tab : Nat) (m : Tab C) : State C :=
  { s with tabs := Function.update s.tabs tab m }

/-- A step of a thread: its next point, the state and the events. -/
abbrev Result (C : IdentityCrypto) := Pc C × State C × List (Event C)

/-- A step that goes on with `k`, unless the call it awaits or the transaction it requests fails. -/
def awaiting (x : Input C) (s : State C) (k : Result C) : Result C :=
  match x.rejects with
  | none => k
  | some error => (.done, s, [.rejected error])

/-- The background loop at its head. -/
def backgroundFrom (m : Tab C) (epoch : Nat) (passphrase : String) :
    List (RetiredKeyEntry C.WrappedKey) → Pc C
  | [] => .done
  | entry :: entries =>
    if epoch ≠ m.epochRef then .done else .background epoch passphrase entry entries

/-- `loadRetiredEntries`, which fails soft. -/
def loadRetiredEntries (x : Input C) (db : Db C) : List (RetiredKeyEntry C.WrappedKey) :=
  if x.readFails then [] else db.retiredEntries

def rotationAborted : String := "Rotation aborted: identity state changed mid-rotation"

/-- The code of an operation up to its first await. -/
def begin_ (x : Input C) (tab : Nat) (s : State C) : Operation C → Result C
  | .mount =>
    -- an unreachable database counts as no identity
    (.mounted (!x.readFails && s.db.identity.isSome), s, [])
  | .setupNew passphrase => (.generateIdentity passphrase, s, [])
  | .importIdentity envelope keypair =>
    match (s.tabs tab).stateRef with
    | .noIdentity =>
      let record := ⟨C.exportPublicKey keypair, envelope⟩
      awaiting x s (.saved (.importIdentity envelope keypair) keypair,
        { s with db := s.db.putIdentity record }, [.committed .create record])
    | m => (.done, s, [.rejected s!"Cannot import an identity from status: {m.text}"])
  | .unlock passphrase =>
    awaiting x s (.unlockLoaded (s.tabs tab).epochRef passphrase s.db.identity, s, [])
  | .rotate passphrase =>
    match (s.tabs tab).identityRef with
    | none => (.done, s, [.rejected "Cannot rotate a locked identity — unlock first"])
    | some oldActive =>
      awaiting x s (.rotateLoaded (s.tabs tab).epochRef passphrase oldActive s.db.identity, s, [])
  | .lock =>
    let m := s.tabs tab
    (.done, s.setTab tab ({ m with epochRef := m.epochRef + 1 }.leave .locked), [.resolved .lock])
  | .wipe =>
    let m := s.tabs tab
    let s := s.setTab tab { m with epochRef := m.epochRef + 1 }
    awaiting x s (.deletedIdentity, { s with db := s.db.deleteIdentity }, [.erased .identity])

def step (x : Input C) (tab : Nat) (pc : Pc C) (s : State C) : Option (Result C) :=
  let m := s.tabs tab
  match pc with
  | .start operation =>
    let (pc, s, events) := begin_ x tab s operation
    some (pc, s, events ++ [.called ⟨tab, operation⟩])
  | .mounted exists_ =>
    some (.done, s.setTab tab { m with stateRef := if exists_ then .locked else .noIdentity },
      [.resolved .mount])
  -- setupNew, importIdentity
  | .generateIdentity passphrase => some (awaiting x s (.wrapIdentity passphrase x.generated, s, []))
  | .wrapIdentity passphrase id =>
    let record := ⟨C.exportPublicKey id, C.wrapPrivateKey id passphrase x.salt⟩
    some (awaiting x s (.saved (.setupNew passphrase) id, { s with db := s.db.putIdentity record },
      [.committed .create record]))
  | .saved operation id =>
    some (.done, s.setTab tab (m.enter id []), [.resolved operation, .keyed tab])
  -- unlock
  | .unlockLoaded epoch passphrase record =>
    match record with
    | none =>
      some (.done, if epoch = m.epochRef then s.setTab tab { m with stateRef := .noIdentity } else s,
        [.resolved (.unlock passphrase)])
    | some record => some (.unwrapActive epoch passphrase record, s, [])
  | .unwrapActive epoch passphrase record =>
    if epoch ≠ m.epochRef then some (.done, s, [.resolved (.unlock passphrase)])
    else
      match C.unwrapPrivateKey record.wrapped passphrase with
      | none =>
        match x.rejects with
        | none =>
          some (.done, s.setTab tab { m with wrongPassphrase := true }, [.resolved (.unlock passphrase)])
        | some error => some (.done, s, [.rejected error])
      | some id =>
        -- the background loop requests its read before `unlock` resolves
        some (.backgroundLoaded epoch passphrase (C.exportPublicKey id) (loadRetiredEntries x s.db),
          s.setTab tab (m.enter id []), [.resolved (.unlock passphrase), .keyed tab])
  | .backgroundLoaded epoch passphrase activePk entries =>
    some (backgroundFrom m epoch passphrase (retiredExcludingActive entries activePk), s, [])
  | .background epoch passphrase entry entries =>
    match C.unwrapPrivateKey entry.wrapped passphrase with
    | none => some (backgroundFrom m epoch passphrase entries, s, [])
    | some k =>
      if epoch ≠ m.epochRef then some (.done, s, [])
      else
        some (backgroundFrom m epoch passphrase entries,
          s.setTab tab { m with retiredKeypairsRef := m.retiredKeypairsRef ++ [k] }, [.keyed tab])
  -- rotate
  | .rotateLoaded epoch passphrase oldActive stored =>
    match stored with
    | none => some (.done, s, [.rejected "No stored identity to rotate"])
    | some stored =>
      if epoch ≠ m.epochRef then some (.done, s, [.rejected rotationAborted])
      else some (.reverify ⟨epoch, passphrase, oldActive, stored⟩, s, [])
  | .reverify r =>
    some (awaiting x s (match C.unwrapPrivateKey r.stored.wrapped r.passphrase with
      | none => (.done, s, [.rejected "The passphrase did not match"])
      | some _ => (.fingerprintOld r, s, [])))
  | .fingerprintOld r =>
    some (awaiting x s (.generateNew r ⟨r.stored.wrapped, r.stored.publicKeyString,
      C.fingerprint r.stored.publicKeyString, x.now⟩, s, []))
  | .generateNew r retiredEntry => some (awaiting x s (.wrapNew r retiredEntry x.generated, s, []))
  | .wrapNew r retiredEntry newId =>
    some (awaiting x s (if r.epoch ≠ m.epochRef then (.done, s, [.rejected rotationAborted])
      else (.priorLoaded r retiredEntry newId (C.wrapPrivateKey newId r.passphrase x.salt)
        (loadRetiredEntries x s.db), s, [])))
  | .priorLoaded r retiredEntry newId newWrapped prior =>
    let record := ⟨C.exportPublicKey newId, newWrapped⟩
    some (awaiting x s (.committed r newId,
      { s with db := .putRotation record (prependRetired prior retiredEntry) },
      [.committed .rotate record]))
  | .committed r newId =>
    if r.epoch ≠ m.epochRef then some (.done, s, [.resolved (.rotate r.passphrase)])
    else
      some (.done, s.setTab tab (m.enter newId (r.oldActive :: m.retiredKeypairsRef)),
        [.resolved (.rotate r.passphrase), .keyed tab])
  -- wipe
  | .deletedIdentity =>
    some (awaiting x s (.clearedRetired, { s with db := s.db.clearRetired }, [.erased .retired]))
  | .clearedRetired => some (.done, s.setTab tab (m.leave .noIdentity), [.resolved .wipe])
  | .done => none

/-- The providers of all tabs. -/
def program (C : IdentityCrypto) : Program (Request C) (Input C) (Thread C) (State C) (Event C) where
  init request := ⟨request.tab, .start request.operation⟩
  step _ x thread s := (step x thread.tab thread.pc s).map fun r ↦ (⟨thread.tab, r.1⟩, r.2)

/-- `getAllPrivateKeysForDecrypt` of a provider. -/
def Tab.getAllPrivateKeysForDecrypt (m : Tab C) : List C.IdentityKeypair :=
  match m.identityRef with
  | none => []
  | some active => active :: m.retiredKeypairsRef

end Aesmsg.Identity.Web
