import Aesmsg.Lib.Threads
import Aesmsg.Storage.EncryptedStore

/-!
# Encrypted storage and its wipe

`apps/mobile/src/storage/index.ts`, `data-key.ts` and `file-blob-store.ts`: the calls of the domain stores
and of `wipeEncryptedStorage` as threads on one device.  A step is one native call, which may reject
without effect, or one continuation.

A file is known by the key that its name encodes.  The module-level `instance` is the promise of a
call that has built the store; the promise is known by the number of that call.
-/

namespace Aesmsg.Storage

open Threads

/-- A file system with the keys of the files and their contents. -/
abbrev Files := List (String × String)

namespace Files

def keys (files : Files) : List String := files.map Prod.fst

def get? (files : Files) (key : String) : Option String := files.lookup key

def remove (files : Files) (key : String) : Files := files.filter (·.1 ≠ key)

def write (files : Files) (key contents : String) : Files := (key, contents) :: files.remove key

theorem mem_remove {files : Files} {key : String} {e : String × String} :
    e ∈ files.remove key ↔ e ∈ files ∧ e.1 ≠ key := by
  unfold remove
  rw [List.mem_filter, decide_eq_true_iff]

theorem mem_keys {files : Files} {key : String} : key ∈ files.keys ↔ ∃ contents, (key, contents) ∈ files := by
  constructor
  · intro h
    obtain ⟨⟨_, contents⟩, hmem, rfl⟩ := List.mem_map.mp h
    exact ⟨contents, hmem⟩
  · rintro ⟨contents, h⟩
    exact List.mem_map.mpr ⟨_, h, rfl⟩

end Files

/-- A key as `getRandomValues` makes it. -/
abbrev Dek := { bytes : List UInt8 // bytes.length = 32 }

structure Device where
  /-- The item `aesmsg.data-key`. -/
  keychain : Option String
  /-- The directory `aesmsg/`, none where it does not exist. -/
  dir : Option Files
  /-- The call whose promise `getEncryptedStore` returns. -/
  instance_ : Option Nat
  /-- The settled promises: the key of the store, or the error. -/
  stores : Nat → Option (Except StorageError (List UInt8))

def Device.blobs (d : Device) : Files := d.dir.getD []

/-- A store that a call has got, by the call that built it. -/
structure Store where
  id : Nat
  dek : List UInt8

/-- A call of a domain store, or a wipe. -/
inductive Op (T : Type) where
  | get (key : String)
  | set (key : String) (value : T)
  | remove (key : String)
  | wipe

/-- Where a call stands: the next thing it does. -/
inductive Pc (T : Type) where
  | getEncryptedStore (op : Op T)
  /-- `getOrCreateDEK` -/
  | getItem (op : Op T)
  | setItem (op : Op T) (dek : List UInt8)
  /-- The promise that it has built is about to settle. -/
  | settle (op : Op T) (result : Except StorageError (List UInt8))
  | await (op : Op T) (id : Nat)
  /-- `getJson` -/
  | getInfo (key : String) (store : Store)
  | read (key : String) (store : Store)
  /-- `setJson` -/
  | encrypt (key : String) (value : T) (store : Store)
  | ensureDir (key : String) (store : Store) (framed : String)
  | makeDirectory (key : String) (store : Store) (framed : String)
  | write (key : String) (store : Store) (framed : String)
  | delete (key : String)
  /-- `clear` -/
  | keysInfo
  | readDirectory
  | clear (keys : List String)
  /-- The key has been deleted. -/
  | reset
  | done (result : Except StorageError (Option T))

inductive Event where
  | started
  | settled
  | wrote (key : String)
  /-- The wipe has listed the directory. -/
  | listed (keys : List String)
  | removed (key : String)
  /-- The wipe has rejected when it had listed the directory. -/
  | rejected
  | reset
deriving DecidableEq

structure Input where
  /-- The native call rejects. -/
  fails : Bool
  dek : Dek
  nonce : Nonce

/-- The call with the store that it has got. -/
def Op.withStore {T : Type} (store : Store) : Op T → Pc T
  | get key => .getInfo key store
  | set key value => .encrypt key value store
  | remove key => .delete key
  | wipe => .keysInfo

/-- `base64ToBytes(existing)` -/
def dekOf (existing : String) : Except StorageError (List UInt8) :=
  match Client.Mobile.base64ToBytes existing with
  | .ok dek => .ok dek
  | .error _ => .error (.error "Invalid base64 character")

variable {T : Type}

/-- A native call. -/
def native (x : Input) (rejected : Pc T × Device × List Event) (resolved : Pc T × Device × List Event) :
    Option (Pc T × Device × List Event) := some (if x.fails then rejected else resolved)

/-- A native call of a domain store. -/
def call (x : Input) (d : Device) (resolved : Pc T × Device × List Event) :
    Option (Pc T × Device × List Event) := native x (.done (.error .native), d, []) resolved

/-- One step of call `i`. -/
def step (G : Gcm) (J : Codec T) (i : Nat) (x : Input) (pc : Pc T) (d : Device) :
    Option (Pc T × Device × List Event) :=
  match pc with
  | .getEncryptedStore op =>
    match d.instance_ with
    | none => some (.getItem op, { d with instance_ := some i }, [.started])
    | some id => some (.await op id, d, [.started])
  | .getItem op =>
    native x (.settle op (.error .native), d, [])
      (match d.keychain with
        | some existing => (.settle op (dekOf existing), d, [])
        | none => (.setItem op x.dek, d, []))
  | .setItem op dek =>
    native x (.settle op (.error .native), d, [])
      (.settle op (.ok dek), { d with keychain := some (Client.Mobile.bytesToBase64 dek) }, [])
  | .settle op result =>
    some (.await op i, { d with stores := Function.update d.stores i (some result) }, [.settled])
  | .await op id =>
    match d.stores id with
    | none => none
    | some (.error e) => some (.done (.error e), d, [])
    | some (.ok dek) => some (op.withStore ⟨id, dek⟩, d, [])
  | .getInfo key store =>
    call x d (if key ∈ d.blobs.keys then .read key store else .done (.ok none), d, [])
  | .read key store =>
    call x d (match d.blobs.get? key with
      | none => .done (.error .native)
      | some framed => .done ((openFrame G J store.dek key framed).map some), d, [])
  | .encrypt key value store =>
    match sealFrame G J store.dek x.nonce value with
    | .error e => some (.done (.error e), d, [])
    | .ok framed => some (.ensureDir key store framed, d, [])
  | .ensureDir key store framed =>
    call x d (if d.dir.isSome then .write key store framed else .makeDirectory key store framed, d, [])
  | .makeDirectory key store framed =>
    call x d (.write key store framed, { d with dir := some d.blobs }, [])
  | .write key _ framed =>
    match d.dir with
    | none => some (.done (.error .native), d, [])
    | some files =>
      call x d (.done (.ok none), { d with dir := some (files.write key framed) }, [.wrote key])
  | .delete key => call x d (.done (.ok none), { d with dir := d.dir.map (·.remove key) }, [])
  | .keysInfo =>
    call x d (if d.dir.isSome then (.readDirectory, d, []) else (.clear [], d, [.listed []]))
  | .readDirectory => call x d (.clear d.blobs.keys, d, [.listed d.blobs.keys])
  | .clear [] =>
    native x (.done (.error .native), d, [.rejected]) (.reset, { d with keychain := none }, [])
  | .clear (key :: keys) =>
    native x (.done (.error .native), d, [.rejected])
      (.clear keys, { d with dir := d.dir.map (·.remove key) }, [.removed key])
  | .reset => some (.done (.ok none), { d with instance_ := none }, [.reset])
  | .done _ => none

def program (G : Gcm) (J : Codec T) : Program (Op T) Input (Pc T) Device Event :=
  ⟨.getEncryptedStore, step G J⟩

/-- The app has just started. -/
def Device.Started (d : Device) : Prop := d.instance_ = none ∧ ∀ id, d.stores id = none

/-- The next `getEncryptedStore` uses this key; any, where there is none in the keychain. -/
def Device.Uses (d : Device) (dek : List UInt8) : Prop :=
  match d.instance_ with
  | some id => d.stores id = some (.ok dek)
  | none =>
    match d.keychain with
    | some existing => dekOf existing = .ok dek
    | none => True

/-! ## Wipes in the trace -/

/-- A wipe has completed. -/
def wiped (t : Trace Event) : Bool := t.any (·.2 = .reset)

/-- The files that a wipe has listed and not removed, by its own events. -/
def leftOf : List Event → Option (List String)
  | [] => none
  | .listed keys :: _ => some keys
  | .removed _ :: es => (leftOf es).map List.tail
  | .rejected :: _ | .reset :: _ => none
  | _ :: es => leftOf es

/-- The files that wipe `i` has listed and has still to remove; none where it has not listed them, or
has ended. -/
def left (i : Nat) (t : Trace Event) : Option (List String) := leftOf (mine i t)

/-- A file is written while every wipe that has listed the directory has still to remove it.  Once a wipe
has completed, it is written by the store that `getEncryptedStore` returns and under the key in the
keychain, and a key is stored only when there are no files. -/
def Safe : Program.Guard Input (Pc T) Device Event := fun _ x pc d t ↦
  x.fails = false →
    match pc with
    | .write key store _ => (∀ e ∈ t, ∀ keys ∈ left e.1 t, key ∈ keys) ∧
        (wiped t = true → d.instance_ = some store.id ∧
          d.keychain = some (Client.Mobile.bytesToBase64 store.dek))
    | .setItem _ _ => wiped t = true → d.blobs = []
    | _ => True

instance (i : Nat) (x : Input) (pc : Pc T) (d : Device) (t : Trace Event) : Decidable (Safe i x pc d t) :=
  match pc with
  | .write key store _ => inferInstanceAs (Decidable (x.fails = false →
      (∀ e ∈ t, ∀ keys ∈ left e.1 t, key ∈ keys) ∧ (wiped t = true → d.instance_ = some store.id ∧
        d.keychain = some (Client.Mobile.bytesToBase64 store.dek))))
  | .setItem _ _ => inferInstanceAs (Decidable (x.fails = false → wiped t = true → d.blobs = []))
  | .getEncryptedStore _ | .getItem _ | .settle _ _ | .await _ _ | .getInfo _ _ | .read _ _
  | .encrypt _ _ _ | .ensureDir _ _ _ | .makeDirectory _ _ _ | .delete _ | .keysInfo | .readDirectory
  | .clear _ | .reset | .done _ => .isTrue fun _ ↦ trivial

/-! ## What a step does to the files -/

section Effect

variable {G : Gcm} {J : Codec T} {i : Nat} {x : Input} {pc pc' : Pc T} {d d' : Device} {es : List Event}
  {t : Trace Event}

theorem native_eq {rejected resolved : Pc T × Device × List Event}
    (h : native x rejected resolved = some (pc', d', es)) :
    (x.fails = true ∧ rejected = (pc', d', es)) ∨ (x.fails = false ∧ resolved = (pc', d', es)) := by
  unfold native at h
  split at h
  · rename_i hfails
    exact .inl ⟨hfails, Option.some.inj h⟩
  · rename_i hfails
    exact .inr ⟨Bool.eq_false_iff.mpr hfails, Option.some.inj h⟩

/-- What a native call of a domain store that did not reject has done. -/
theorem call_eq {resolved : Pc T × Device × List Event} (h : call x d resolved = some (pc', d', es)) :
    (pc' = .done (.error .native) ∧ d' = d ∧ es = []) ∨ (x.fails = false ∧ resolved = (pc', d', es)) := by
  rcases native_eq h with ⟨-, heq⟩ | hresolved
  · cases heq
    exact .inl ⟨rfl, rfl, rfl⟩
  · exact .inr hresolved

theorem same_of_call {resolved : Pc T} {es₁ : List Event} (h : call x d (resolved, d, es₁) = some (pc', d', es)) :
    d' = d := by
  rcases call_eq h with ⟨-, rfl, -⟩ | ⟨-, heq⟩
  · rfl
  · cases heq
    rfl

/-- What a step does to the directory. -/
inductive Touches (x : Input) (pc : Pc T) (d d' : Device) (es : List Event) : Prop
  | none (blobs : d'.blobs = d.blobs)
  | remove (key : String) (dir : d'.dir = d.dir.map (·.remove key))
  | write (key : String) (store : Store) (framed : String) (files : Files)
    (at_ : pc = .write key store framed) (fails : x.fails = false) (before : d.dir = some files)
    (device : d' = { d with dir := some (files.write key framed) }) (events : es = [.wrote key])

theorem Touches.same (h : d' = d) : Touches x pc d d' es := .none (h ▸ rfl)

theorem step_touches (h : step G J i x pc d = some (pc', d', es)) : Touches x pc d d' es := by
  cases pc with
  | getEncryptedStore op =>
    simp only [step] at h
    split at h
    · cases h
      exact .none rfl
    · cases h
      exact .none rfl
  | getItem op =>
    rcases native_eq h with ⟨-, heq⟩ | ⟨-, heq⟩
    · cases heq
      exact .none rfl
    · split at heq
      · cases heq
        exact .none rfl
      · cases heq
        exact .none rfl
  | setItem op dek =>
    rcases native_eq h with ⟨-, heq⟩ | ⟨-, heq⟩
    · cases heq
      exact .none rfl
    · cases heq
      exact .none rfl
  | settle op result =>
    cases h
    exact .none rfl
  | await op id =>
    simp only [step] at h
    split at h
    · cases h
    · cases h
      exact .none rfl
    · cases h
      exact .none rfl
  | getInfo | read | ensureDir | readDirectory => exact .same (same_of_call h)
  | encrypt key value store =>
    simp only [step] at h
    split at h
    · cases h
      exact .none rfl
    · cases h
      exact .none rfl
  | makeDirectory key store framed =>
    rcases call_eq h with ⟨-, rfl, -⟩ | ⟨-, heq⟩
    · exact .none rfl
    · cases heq
      exact .none rfl
  | write key store framed =>
    simp only [step] at h
    split at h
    · cases h
      exact .none rfl
    · rename_i files hdir
      rcases call_eq h with ⟨-, rfl, -⟩ | ⟨hfails, heq⟩
      · exact .none rfl
      · cases heq
        exact .write key store framed files rfl hfails hdir rfl rfl
  | delete key =>
    rcases call_eq h with ⟨-, rfl, -⟩ | ⟨-, heq⟩
    · exact .none rfl
    · cases heq
      exact .remove key rfl
  | keysInfo =>
    simp only [step] at h
    split at h
    · exact .same (same_of_call h)
    · exact .same (same_of_call h)
  | clear keys =>
    cases keys with
    | nil =>
      rcases native_eq h with ⟨-, heq⟩ | ⟨-, heq⟩
      · cases heq
        exact .none rfl
      · cases heq
        exact .none rfl
    | cons key keys =>
      rcases native_eq h with ⟨-, heq⟩ | ⟨-, heq⟩
      · cases heq
        exact .none rfl
      · cases heq
        exact .remove key rfl
  | reset =>
    cases h
    exact .none rfl
  | done result => cases h

theorem mem_remove {dir : Option Files} {key : String} {e : String × String}
    (h : e ∈ (dir.map (Files.remove · key)).getD []) : e ∈ dir.getD [] ∧ e.1 ≠ key := by
  cases dir with
  | none => cases h
  | some files => exact Files.mem_remove.mp h

/-- A file that is there after a step was there before it, or has been written in it. -/
theorem Touches.mem (h : Touches x pc d d' es) {e : String × String} (he : e ∈ d'.blobs) :
    e ∈ d.blobs ∨ ∃ store, pc = .write e.1 store e.2 ∧ x.fails = false ∧ es = [.wrote e.1] := by
  cases h with
  | none hblobs => exact .inl (hblobs ▸ he)
  | remove key hdir =>
    unfold Device.blobs at he
    rw [hdir] at he
    exact .inl (mem_remove he).1
  | write key store framed files hpc hfails hdir hd hes =>
    subst hd
    rcases List.mem_cons.mp he with rfl | he
    · exact .inr ⟨store, hpc, hfails, hes⟩
    · refine .inl ?_
      unfold Device.blobs
      rw [hdir]
      exact (Files.mem_remove.mp he).1

theorem Touches.keys (h : Touches x pc d d' es) {key : String} (hkey : key ∈ d'.blobs.keys) :
    key ∈ d.blobs.keys ∨ ∃ store framed, pc = .write key store framed ∧ x.fails = false ∧ es = [.wrote key] := by
  obtain ⟨contents, he⟩ := Files.mem_keys.mp hkey
  rcases h.mem he with he | ⟨store, hpc, hfails, hes⟩
  · exact .inl (Files.mem_keys.mpr ⟨contents, he⟩)
  · exact .inr ⟨store, contents, hpc, hfails, hes⟩

end Effect

end Aesmsg.Storage
