import Mathlib.Logic.Function.Basic

/-!
# What the identity machines use of the crypto package

The machines get their cryptography injected.  `IdentityCrypto` has its functions;
`IdentityCrypto.Lawful` states what the machines rely on: what has been wrapped is unwrapped under the
same secret, and a public key belongs to one keypair; `IdentityCrypto.OneSecret`, that another secret
unwraps nothing.

`IdentityCrypto.transparent` is a lawful provider without secrecy.
-/

namespace Aesmsg.Identity

structure IdentityCrypto where
  IdentityKeypair : Type
  WrappedKey : Type
  /-- What one wrap draws at random: the salt and the nonce. -/
  Salt : Type
  [decEqKeypair : DecidableEq IdentityKeypair]
  [decEqWrapped : DecidableEq WrappedKey]
  wrapPrivateKey : IdentityKeypair → (secret : String) → Salt → WrappedKey
  /-- None where it throws. -/
  unwrapPrivateKey : WrappedKey → (secret : String) → Option IdentityKeypair
  exportPublicKey : IdentityKeypair → String
  fingerprint : String → String
  /-- None where it throws. -/
  needsRewrap : WrappedKey → Option Bool

attribute [instance] IdentityCrypto.decEqKeypair IdentityCrypto.decEqWrapped

structure IdentityCrypto.Lawful (C : IdentityCrypto) : Prop where
  unwrap_wrap (k : C.IdentityKeypair) (secret : String) (salt : C.Salt) :
    C.unwrapPrivateKey (C.wrapPrivateKey k secret salt) secret = some k
  exportPublicKey_injective : Function.Injective C.exportPublicKey

/-- An envelope is unwrapped under one secret; under another `unwrapPrivateKey` throws. -/
def IdentityCrypto.OneSecret (C : IdentityCrypto) : Prop :=
  ∀ w secret secret' k k', C.unwrapPrivateKey w secret = some k →
    C.unwrapPrivateKey w secret' = some k' → secret = secret'

/-- A keypair is its public key; an envelope shows its keypair and its secret, and is never due for a
re-wrap unless `heavy`. -/
def IdentityCrypto.transparent (heavy : Bool) : IdentityCrypto where
  IdentityKeypair := String
  WrappedKey := String × String
  Salt := Unit
  wrapPrivateKey k secret _ := (k, secret)
  unwrapPrivateKey w secret := if w.2 = secret then some w.1 else none
  exportPublicKey k := k
  fingerprint s := s
  needsRewrap _ := some heavy

theorem IdentityCrypto.transparent_lawful (heavy : Bool) : (transparent heavy).Lawful where
  unwrap_wrap _ _ _ := if_pos rfl
  exportPublicKey_injective := Function.injective_id

theorem IdentityCrypto.transparent_oneSecret (heavy : Bool) : (transparent heavy).OneSecret := by
  rintro ⟨k, secret⟩ s s' _ _ h h'
  have hs : ∀ {s k'}, (transparent heavy).unwrapPrivateKey (k, secret) s = some k' → secret = s := by
    intro s k' h
    by_contra hne
    cases (if_neg hne).symm.trans h
  exact (hs h).symm.trans (hs h')

end Aesmsg.Identity
