import Aesmsg.Lib.JsNumber
import Aesmsg.Crypto.Hpke
import Aesmsg.Crypto.Payload

/-!
# Associated data

`packages/crypto/src/aad.ts`.  The context of a message is written as

```
u8 version | u8 WIRE_VERSION | u8 suite | u16 linkIdLen, linkId | 32-byte hash of the recipient key
  | u64 createdAtMs (version 1 only) | u64 expiresAtMs | i32 maxOpens
```

and the version is 1 iff `createdAtMs` is present.
-/

namespace Aesmsg.Crypto

open Bytes

def AAD_VERSION : UInt8 := 0x01

def AAD_VERSION_V2 : UInt8 := 0x02

def HEADER_LEN : Nat := 3

def LINK_ID_LEN_PREFIX : Nat := 2

def RECIP_HASH_LEN : Nat := 32

def CREATED_AT_LEN : Nat := 8

def EXPIRES_AT_LEN : Nat := 8

def MAX_OPENS_LEN : Nat := 4

def LINK_ID_BYTES_EXACT : Nat := 16

structure MessageBindingContext where
  linkId : String
  recipientPublicKey : String
  createdAtMs : Option JsNumber
  expiresAtMs : JsNumber
  maxOpens : JsNumber
deriving DecidableEq, Repr

/-- `DataView.setInt32`, which reduces its argument modulo 2³². -/
def writeI32BE (value : Int) : List UInt8 := toBE 4 (value % 2 ^ 32).toNat

/-- `DataView.setBigUint64`, which reduces its argument modulo 2⁶⁴. -/
def writeU64BE (value : Int) : List UInt8 := toBE 8 (value % 2 ^ 64).toNat

variable (H : Hpke)

def hashRecipientPubkey (pk : String) : Result (List UInt8) := do
  let decoded ← decodePubkey pk
  let cryptoKey ← H.importRawPublicKey decoded.rawKey
  return H.sha256 (H.exportRawPublicKey cryptoKey)

/-- The bytes of a context whose parts have been checked and encoded. -/
def writeAad (linkIdBytes recipHash : List UInt8) (createdAtMs : Option Int)
    (expiresAtMs maxOpens : Int) : List UInt8 :=
  (if createdAtMs.isSome then AAD_VERSION else AAD_VERSION_V2) ::
    WIRE_VERSION :: SUITE_X25519_AES256GCM ::
      (writeU16BE linkIdBytes.length ++ linkIdBytes ++ recipHash ++
        (createdAtMs.map writeU64BE).getD [] ++ writeU64BE expiresAtMs ++ writeI32BE maxOpens)

def encodeAad (ctx : MessageBindingContext) : Result (List UInt8) := do
  let createdAtMs := ctx.createdAtMs.map JsNumber.toInt
  let expiresAtMs := ctx.expiresAtMs.toInt
  let maxOpens := ctx.maxOpens.toInt
  throwIf (∃ c ∈ ctx.createdAtMs, ¬c.isSafeInteger ∨ c.toInt < 0)
    (.error "encodeAad: createdAtMs must be a non-negative safe integer")
  throwIf (¬ctx.expiresAtMs.isSafeInteger ∨ expiresAtMs < 0)
    (.error "encodeAad: expiresAtMs must be a non-negative safe integer")
  throwIf (¬ctx.maxOpens.isInteger ∨ maxOpens ≤ 0 ∧ maxOpens ≠ -1)
    (.error "encodeAad: maxOpens must be a positive integer or -1")
  throwIf (∃ c ∈ createdAtMs, expiresAtMs ≤ c)
    (.error "encodeAad: expiresAtMs must be strictly greater than createdAtMs")
  throwIf (createdAtMs = none ∧ expiresAtMs ≤ 0)
    (.error "encodeAad: expiresAtMs must be a positive instant")
  let linkIdBytes := TextEncoder.encode ctx.linkId
  throwIf (linkIdBytes.length ≠ LINK_ID_BYTES_EXACT)
    (.error s!"encodeAad: linkId must be exactly {LINK_ID_BYTES_EXACT} bytes, got {linkIdBytes.length}")
  let recipHash ← hashRecipientPubkey H ctx.recipientPublicKey
  throwIf (recipHash.length ≠ RECIP_HASH_LEN)
    (.error "encodeAad: recipient hash unexpected length")
  let total := HEADER_LEN + LINK_ID_LEN_PREFIX + linkIdBytes.length + RECIP_HASH_LEN +
    (if createdAtMs.isSome then CREATED_AT_LEN else 0) + EXPIRES_AT_LEN + MAX_OPENS_LEN
  let out := writeAad linkIdBytes recipHash createdAtMs expiresAtMs maxOpens
  throwIf (out.length ≠ total) (.error "encodeAad: internal offset mismatch")
  return out

end Aesmsg.Crypto
