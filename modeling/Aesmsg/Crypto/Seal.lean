import Aesmsg.Crypto.Aad

/-!
# Sealing and opening

`packages/crypto/src/seal.ts`.  A recipient and an identity carry the raw public key next to the
provider's key object, as `identity.ts` builds them.
-/

namespace Aesmsg.Crypto

variable (H : Hpke)

structure RecipientPublicKey where
  rawKey : List UInt8
  cryptoKey : H.PublicKey

structure IdentityKeypair where
  privateKey : H.PrivateKey
  publicKeyString : String

def importPublicKey (s : String) : Result (RecipientPublicKey H) := do
  let decoded ← decodePubkey s
  let cryptoKey ← H.importRawPublicKey decoded.rawKey
  return ⟨decoded.rawKey, cryptoKey⟩

def exportPublicKey (id : IdentityKeypair H) : String := id.publicKeyString

/-- An identity as `generateIdentity` builds it, and as it is unwrapped again: the public key string is
the encoding of the raw public key of the private key. -/
def IdentityKeypair.WellFormed (id : IdentityKeypair H) : Prop :=
  encodePubkey (H.publicKeyRaw id.privateKey) = .ok id.publicKeyString

/-- Encrypt to a recipient under a context.  The last argument is the randomness of the
encapsulation. -/
def «seal» (plaintext : List UInt8) (recipient : RecipientPublicKey H)
    (context : MessageBindingContext) (seed : H.Seed) : Result (List UInt8) := do
  let contextKey ← decodePubkey context.recipientPublicKey
  throwIf (recipient.rawKey ≠ contextKey.rawKey) .recipientMismatch
  let aad ← encodeAad H context
  let sealed ← H.sealHpke recipient.cryptoKey plaintext aad seed
  encodeCiphertextBlob sealed.1 sealed.2

/-- Decrypt under a context.  Every failure is the same `DecryptionError`. -/
def «open» (ciphertext : List UInt8) (id : IdentityKeypair H)
    (context : MessageBindingContext) : Result (List UInt8) :=
  match encodeAad H context with
  | .error _ => .error decryptionError
  | .ok aad =>
    match decodeCiphertextBlob ciphertext with
    | .error _ => .error decryptionError
    | .ok parsed =>
      match H.openHpke id.privateKey parsed.enc parsed.aeadOutput aad with
      | none => .error decryptionError
      | some plaintext => .ok plaintext

end Aesmsg.Crypto
