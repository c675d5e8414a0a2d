import Aesmsg.Identity.Crypto
import Aesmsg.Lib.Dedupe

/-!
# The retired keys of an identity

`apps/mobile/src/identity/identity-bundle.ts`: the entries of retired keys and the transforms of
their list, newest first.  The blob at rest is the list itself; what is written is read back through
`parseRetiredKeys`, which drops later entries of one public key.
-/

namespace Aesmsg.Identity

structure RetiredKeyEntry (WrappedKey : Type) where
  wrapped : WrappedKey
  publicKeyString : String
  fingerprint : String
  retiredAtMs : Int
deriving DecidableEq

variable {WrappedKey : Type}

def dedupeRetired (entries : List (RetiredKeyEntry WrappedKey)) : List (RetiredKeyEntry WrappedKey) :=
  Dedupe.dedupeBy RetiredKeyEntry.publicKeyString entries

/-- The entries of a stored blob, none where nothing is stored. -/
def parseRetiredKeys (raw : Option (List (RetiredKeyEntry WrappedKey))) :
    List (RetiredKeyEntry WrappedKey) := dedupeRetired (raw.getD [])

def prependRetired (existing : List (RetiredKeyEntry WrappedKey)) (entry : RetiredKeyEntry WrappedKey) :
    List (RetiredKeyEntry WrappedKey) := dedupeRetired (entry :: existing)

def retiredExcludingActive (entries : List (RetiredKeyEntry WrappedKey)) (activePublicKey : String) :
    List (RetiredKeyEntry WrappedKey) := entries.filter (·.publicKeyString ≠ activePublicKey)

/-- A list with a key prepended is read back as it was written. -/
@[simp] theorem parseRetiredKeys_prependRetired (existing : List (RetiredKeyEntry WrappedKey))
    (entry : RetiredKeyEntry WrappedKey) :
    parseRetiredKeys (some (prependRetired existing entry)) = prependRetired existing entry :=
  Dedupe.dedupeBy_dedupeBy

/-- To a list that was read, the entry is prepended and the others of its key are dropped. -/
theorem prependRetired_parseRetiredKeys (raw : Option (List (RetiredKeyEntry WrappedKey)))
    (entry : RetiredKeyEntry WrappedKey) : prependRetired (parseRetiredKeys raw) entry =
      entry :: (parseRetiredKeys raw).filter (·.publicKeyString ≠ entry.publicKeyString) := by
  have hcons : prependRetired (parseRetiredKeys raw) entry = entry ::
      (dedupeRetired (parseRetiredKeys raw)).filter (·.publicKeyString ≠ entry.publicKeyString) :=
    Dedupe.dedupeBy_cons
  rw [hcons]
  unfold parseRetiredKeys dedupeRetired
  rw [Dedupe.dedupeBy_dedupeBy]

theorem mem_prependRetired (existing : List (RetiredKeyEntry WrappedKey))
    (entry : RetiredKeyEntry WrappedKey) : entry ∈ prependRetired existing entry :=
  Dedupe.head_mem_dedupeBy

/-- What is unwrapped of the entries under one secret; the others are skipped. -/
def unwrapAll {C : IdentityCrypto} (secret : String) (entries : List (RetiredKeyEntry C.WrappedKey)) :
    List C.IdentityKeypair := entries.filterMap fun e ↦ C.unwrapPrivateKey e.wrapped secret

section Unwrapping

variable {C : IdentityCrypto} {secret : String} {entry : RetiredKeyEntry C.WrappedKey}
  {entries : List (RetiredKeyEntry C.WrappedKey)}

theorem unwrapAll_cons_none (h : C.unwrapPrivateKey entry.wrapped secret = none) :
    unwrapAll secret (entry :: entries) = unwrapAll secret entries := List.filterMap_cons_none h

theorem unwrapAll_cons_some {k : C.IdentityKeypair}
    (h : C.unwrapPrivateKey entry.wrapped secret = some k) :
    unwrapAll secret (entry :: entries) = k :: unwrapAll secret entries := List.filterMap_cons_some h

end Unwrapping

end Aesmsg.Identity
