import Aesmsg.Identity.Bundle
import Aesmsg.Identity.Crypto
import Aesmsg.Lib.Threads

/-!
# The mobile identity machine

`apps/mobile/src/identity/identity-machine.ts` with `device-secret.ts` and `secure-store.ts`: the
operations of one machine as threads on its state and on the three keystore items.  A thread step is
the effect of one awaited call on the keystore, or the code between two awaits that reads or writes
the state of the machine.  The writes to the keystore succeed; any other awaited call may reject.
-/

namespace Aesmsg.Identity.Mobile

open Threads

section

variable (C : IdentityCrypto)

structure Keystore where
  deviceSecret : Option String
  wrappedIdentity : Option C.WrappedKey
  retiredIdentities : Option (List (RetiredKeyEntry C.WrappedKey))

inductive IdentityState where
  | loading
  | noIdentity
  | locked
  | unlocked (identity : C.IdentityKeypair) (publicKeyString : String)
    (retiredKeypairs : List C.IdentityKeypair)

structure State where
  keystore : Keystore C
  machine : IdentityState C

/-- The actions of the machine, and `init`. -/
inductive Request where
  | init
  | setupNew
  | importIdentity (identity : C.IdentityKeypair)
  | unlock
  | lock
  | wipe
  | rotate
deriving DecidableEq

inductive Item where
  | wrappedIdentity
  | retiredIdentities
  | deviceSecret
deriving DecidableEq

/-- Who saves an active envelope. -/
inductive Writer where
  | persistAndUnlock
  | unlock
  | rotate
deriving DecidableEq

inductive Event where
  | called (request : Request C)
  /-- The stored active envelope now holds `identity` under `secret`. -/
  | savedIdentity (writer : Writer) (identity : C.IdentityKeypair) (secret : String)
  /-- The stored retired list now holds `identity` under `secret`. -/
  | savedRetired (identity : C.IdentityKeypair) (secret : String)
  | erased (item : Item)
  /-- The machine is set to unlocked. -/
  | unlocked
  /-- `setupNew`, `importIdentity` or `rotate` resolves, with its keypair. -/
  | resolved (identity : C.IdentityKeypair)
  /-- Another action returns. -/
  | returned (request : Request C)
  | rejected (error : String)
deriving DecidableEq

/-- What the scheduler and the outside decide for one step: the clock, the random draws, and the error
of an awaited call that rejects. -/
structure Input where
  now : Int
  generated : C.IdentityKeypair
  randomSecret : String
  salt : C.Salt
  rejects : Option String

/-- What `rotate` captures of the unlocked state. -/
structure Captured where
  oldActive : C.IdentityKeypair
  oldActivePk : String
  priorRetiredKeypairs : List C.IdentityKeypair

/-- What `rotate` holds when its keys are wrapped. -/
structure Rotation extends Captured C where
  deviceSecret : String
  retiredEntry : RetiredKeyEntry C.WrappedKey
  newIdentity : C.IdentityKeypair
  newWrapped : C.WrappedKey

/-- Where a thread stands: the call it awaits, or the code it resumes with. -/
inductive Pc where
  | start (request : Request C)
  | hasStoredIdentity
  | initialised (exists_ : Bool)
  | generateIdentity
  /-- `createDeviceSecret` checks the biometric level. -/
  | createDeviceSecret (identity : C.IdentityKeypair)
  | storeDeviceSecret (identity : C.IdentityKeypair) (secret : String)
  | wrapIdentity (identity : C.IdentityKeypair) (secret : String)
  | saveIdentity (identity : C.IdentityKeypair) (secret : String) (wrapped : C.WrappedKey)
  /-- `persistAndUnlock` has saved the envelope. -/
  | persisted (identity : C.IdentityKeypair) (secret : String)
  | loadWrappedIdentity
  /-- `unlock` has found nothing stored. -/
  | absent
  /-- `unlockDeviceSecret` checks the biometric level. -/
  | unlockDeviceSecret (wrapped : C.WrappedKey)
  | readDeviceSecret (wrapped : C.WrappedKey)
  | unwrapIdentity (wrapped : C.WrappedKey) (secret : String)
  | loadRetiredKeys (wrapped : C.WrappedKey) (secret : String) (identity : C.IdentityKeypair)
  /-- `unlock` is about to unwrap the first of `entries`. -/
  | unwrapRetired (wrapped : C.WrappedKey) (secret : String) (identity : C.IdentityKeypair)
    (entries : List (RetiredKeyEntry C.WrappedKey)) (retiredKeypairs : List C.IdentityKeypair)
  | rewrap (identity : C.IdentityKeypair) (secret : String)
  | saveRewrapped (identity : C.IdentityKeypair) (secret : String) (rewrapped : C.WrappedKey)
  | deleteWrappedIdentity
  | deleteRetiredKeys
  | deleteDeviceSecret
  | wipeStorage
  | wiped
  | rotateUnlock (r : Captured C)
  | rotateSecret (r : Captured C)
  | wrapOld (r : Captured C) (secret : String)
  | fingerprintOld (r : Captured C) (secret : String) (oldWrapped : C.WrappedKey)
  | generateNew (r : Captured C) (secret : String) (oldWrapped : C.WrappedKey) (oldFingerprint : String)
  | wrapNew (r : Captured C) (secret : String) (oldWrapped : C.WrappedKey) (oldFingerprint : String)
    (newIdentity : C.IdentityKeypair)
  | loadPrior (r : Rotation C)
  | saveRetired (r : Rotation C) (newRetired : List (RetiredKeyEntry C.WrappedKey))
  | saveActive (r : Rotation C)
  /-- `rotate` has saved the new envelope. -/
  | rotated (r : Rotation C)
  | done

end

variable {C : IdentityCrypto}

/-! ## The keystore -/

namespace Keystore

/-- `loadRetiredKeys`. -/
def retired (k : Keystore C) : List (RetiredKeyEntry C.WrappedKey) :=
  parseRetiredKeys k.retiredIdentities

def saveIdentity (k : Keystore C) (w : C.WrappedKey) : Keystore C := { k with wrappedIdentity := some w }

def saveRetired (k : Keystore C) (entries : List (RetiredKeyEntry C.WrappedKey)) : Keystore C :=
  { k with retiredIdentities := some entries }

def saveSecret (k : Keystore C) (secret : String) : Keystore C := { k with deviceSecret := some secret }

def erase (k : Keystore C) : Item → Keystore C
  | .wrappedIdentity => { k with wrappedIdentity := none }
  | .retiredIdentities => { k with retiredIdentities := none }
  | .deviceSecret => { k with deviceSecret := none }

def empty : Keystore C := ⟨none, none, none⟩

end Keystore

/-- The state that `init` sets. -/
def initialState (exists_ : Bool) : IdentityState C := if exists_ then .locked else .noIdentity

def IdentityState.status : IdentityState C → String
  | .loading => "loading"
  | .noIdentity => "no_identity"
  | .locked => "locked"
  | .unlocked .. => "unlocked"

def IdentityState.isUnlocked : IdentityState C → Bool
  | .unlocked .. => true
  | _ => false

/-- The machine is set to unlocked. -/
def State.unlock (s : State C) (identity : C.IdentityKeypair) (retired : List C.IdentityKeypair) :
    State C := { s with machine := .unlocked identity (C.exportPublicKey identity) retired }

/-- The machine after an awaited call: it goes on with `k`, or rejects. -/
def awaiting (x : Input C) (s : State C) (k : Pc C × State C × List (Event C)) :
    Pc C × State C × List (Event C) :=
  match x.rejects with
  | none => k
  | some error => (.done, s, [.rejected error])

/-- The code of an action up to its first await. -/
def begin_ (s : State C) : Request C → Pc C × State C × List (Event C)
  | .init => (.hasStoredIdentity, s, [])
  | .setupNew =>
    match s.machine with
    | .noIdentity => (.generateIdentity, s, [])
    | m => (.done, s, [.rejected s!"Cannot setup a new identity from status: {m.status}"])
  | .importIdentity identity =>
    match s.machine with
    | .noIdentity => (.createDeviceSecret identity, s, [])
    | m => (.done, s, [.rejected s!"Cannot import an identity from status: {m.status}"])
  | .unlock => (.loadWrappedIdentity, s, [])
  | .lock =>
    match s.machine with
    | .unlocked .. => (.done, { s with machine := .locked }, [.returned .lock])
    | _ => (.done, s, [.returned .lock])
  | .wipe => (.deleteWrappedIdentity, s, [])
  | .rotate =>
    match s.machine with
    | .unlocked identity publicKeyString retiredKeypairs =>
      (.rotateUnlock ⟨identity, publicKeyString, retiredKeypairs⟩, s, [])
    | m => (.done, s, [.rejected s!"Cannot rotate identity from status: {m.status}"])

/-- `unlockDeviceSecret` reads the stored secret. -/
def readSecret (x : Input C) (s : State C) (k : String → Pc C) : Pc C × State C × List (Event C) :=
  awaiting x s (match s.keystore.deviceSecret with
    | none => (.done, s, [.rejected "No device secret stored"])
    | some secret =>
      if secret.isEmpty then (.done, s, [.rejected "No device secret stored"]) else (k secret, s, []))

def step (x : Input C) (pc : Pc C) (s : State C) : Option (Pc C × State C × List (Event C)) :=
  match pc with
  | .start request =>
    let (pc, s, events) := begin_ s request
    some (pc, s, events ++ [.called request])
  -- init
  | .hasStoredIdentity => some (awaiting x s (.initialised s.keystore.wrappedIdentity.isSome, s, []))
  | .initialised exists_ => some (.done, { s with machine := initialState exists_ }, [.returned .init])
  -- setupNew, importIdentity
  | .generateIdentity => some (awaiting x s (.createDeviceSecret x.generated, s, []))
  | .createDeviceSecret identity =>
    some (awaiting x s (.storeDeviceSecret identity x.randomSecret, s, []))
  | .storeDeviceSecret identity secret =>
    some (.wrapIdentity identity secret, { s with keystore := s.keystore.saveSecret secret }, [])
  | .wrapIdentity identity secret =>
    some (awaiting x s
      (.saveIdentity identity secret (C.wrapPrivateKey identity secret x.salt), s, []))
  | .saveIdentity identity secret wrapped =>
    some (.persisted identity secret, { s with keystore := s.keystore.saveIdentity wrapped },
      [.savedIdentity .persistAndUnlock identity secret])
  | .persisted identity _ =>
    some (.done, s.unlock identity [], [.resolved identity, .unlocked])
  -- unlock
  | .loadWrappedIdentity =>
    some (awaiting x s (match s.keystore.wrappedIdentity with
      | none => (.absent, s, [])
      | some wrapped => (.unlockDeviceSecret wrapped, s, [])))
  | .absent => some (.done, { s with machine := .noIdentity }, [.returned .unlock])
  | .unlockDeviceSecret wrapped => some (awaiting x s (.readDeviceSecret wrapped, s, []))
  | .readDeviceSecret wrapped => some (readSecret x s (.unwrapIdentity wrapped))
  | .unwrapIdentity wrapped secret =>
    some (awaiting x s (match C.unwrapPrivateKey wrapped secret with
      | none => (.done, s, [.rejected "Wrong passphrase"])
      | some identity => (.loadRetiredKeys wrapped secret identity, s, [])))
  | .loadRetiredKeys wrapped secret identity =>
    some (awaiting x s (.unwrapRetired wrapped secret identity
      (retiredExcludingActive s.keystore.retired (C.exportPublicKey identity)) [], s, []))
  | .unwrapRetired wrapped secret identity entries retiredKeypairs =>
    match entries with
    | entry :: entries =>
      -- an entry that cannot be unwrapped is skipped
      some (.unwrapRetired wrapped secret identity entries
        (retiredKeypairs ++ (C.unwrapPrivateKey entry.wrapped secret).toList), s, [])
    | [] =>
      match C.needsRewrap wrapped with
      | some true => some (.rewrap identity secret, s.unlock identity retiredKeypairs, [.unlocked])
      | _ => some (.done, s.unlock identity retiredKeypairs, [.returned .unlock, .unlocked])
  | .rewrap identity secret =>
    match x.rejects, s.machine with
    | none, .unlocked .. =>
      some (.saveRewrapped identity secret (C.wrapPrivateKey identity secret x.salt), s, [])
    | _, _ => some (.done, s, [.returned .unlock])
  | .saveRewrapped identity secret rewrapped =>
    some (.done, { s with keystore := s.keystore.saveIdentity rewrapped },
      [.returned .unlock, .savedIdentity .unlock identity secret])
  -- wipe
  | .deleteWrappedIdentity =>
    some (.deleteRetiredKeys, { s with keystore := s.keystore.erase .wrappedIdentity },
      [.erased .wrappedIdentity])
  | .deleteRetiredKeys =>
    some (.deleteDeviceSecret, { s with keystore := s.keystore.erase .retiredIdentities },
      [.erased .retiredIdentities])
  | .deleteDeviceSecret =>
    some (.wipeStorage, { s with keystore := s.keystore.erase .deviceSecret },
      [.erased .deviceSecret])
  | .wipeStorage => some (awaiting x s (.wiped, s, []))
  | .wiped => some (.done, { s with machine := .noIdentity }, [.returned .wipe])
  -- rotate
  | .rotateUnlock r => some (awaiting x s (.rotateSecret r, s, []))
  | .rotateSecret r => some (readSecret x s (.wrapOld r))
  | .wrapOld r secret =>
    some (awaiting x s
      (.fingerprintOld r secret (C.wrapPrivateKey r.oldActive secret x.salt), s, []))
  | .fingerprintOld r secret oldWrapped =>
    some (awaiting x s (.generateNew r secret oldWrapped (C.fingerprint r.oldActivePk), s, []))
  | .generateNew r secret oldWrapped oldFingerprint =>
    some (awaiting x s (.wrapNew r secret oldWrapped oldFingerprint x.generated, s, []))
  | .wrapNew r secret oldWrapped oldFingerprint newIdentity =>
    some (awaiting x s (.loadPrior {
      r with
      deviceSecret := secret
      retiredEntry := ⟨oldWrapped, r.oldActivePk, oldFingerprint, x.now⟩
      newIdentity
      newWrapped := C.wrapPrivateKey newIdentity secret x.salt }, s, []))
  | .loadPrior r =>
    some (awaiting x s (.saveRetired r (prependRetired s.keystore.retired r.retiredEntry), s, []))
  | .saveRetired r newRetired =>
    some (.saveActive r, { s with keystore := s.keystore.saveRetired newRetired },
      [.savedRetired r.oldActive r.deviceSecret])
  | .saveActive r =>
    some (.rotated r, { s with keystore := s.keystore.saveIdentity r.newWrapped },
      [.savedIdentity .rotate r.newIdentity r.deviceSecret])
  | .rotated r =>
    some (.done, s.unlock r.newIdentity (r.oldActive :: r.priorRetiredKeypairs),
      [.resolved r.newIdentity, .unlocked])
  | .done => none

def program (C : IdentityCrypto) : Program (Request C) (Input C) (Pc C) (State C) (Event C) :=
  ⟨.start, fun _ ↦ step⟩

end Aesmsg.Identity.Mobile
