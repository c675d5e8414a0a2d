import Aesmsg.Crypto.Hpke

/-!
# Fingerprints

`packages/crypto/src/fingerprint.ts`: the first half of the SHA-256 of a public key, in groups of
four hexadecimal digits.
-/

namespace Aesmsg.Crypto

def FINGERPRINT_BYTES : Nat := 16

def FINGERPRINT_PREFIX : String := "AM-"

def HEX_GROUP_SIZE : Nat := 4

def HEX_GROUP_COUNT : Nat := 8

def hexChar (digit : Nat) : Char := "0123456789ABCDEF".toList.getD digit '0'

def bytesToUpperHex (bytes : List UInt8) : List Char :=
  bytes.flatMap fun b ↦ [hexChar (b.toNat / 16), hexChar (b.toNat % 16)]

def fingerprint (H : Hpke) (pk : String) : Result String := do
  let decoded ← decodePubkey pk
  let digest := (H.sha256 decoded.canonical).take FINGERPRINT_BYTES
  let hex := bytesToUpperHex digest
  let groups := (List.range HEX_GROUP_COUNT).map fun i ↦
    (hex.drop (i * HEX_GROUP_SIZE)).take HEX_GROUP_SIZE
  return FINGERPRINT_PREFIX ++ String.ofList (['-'].intercalate groups)

/-- The first groups of a fingerprint, for display. -/
def truncateFingerprint (fp : String) (groups : Nat) : Result String := do
  throwIf (groups < 1 ∨ HEX_GROUP_COUNT < groups)
    (.error s!"truncateFingerprint: groups must be 1..{HEX_GROUP_COUNT}, got {groups}")
  let body := (fp.toList.drop FINGERPRINT_PREFIX.length).filter (· ≠ '-')
  let out := (List.range groups).map fun i ↦ (body.drop (i * HEX_GROUP_SIZE)).take HEX_GROUP_SIZE
  return String.ofList ([' '].intercalate out)

/-- Every public key has a fingerprint. -/
theorem fingerprint_eq_ok (H : Hpke) {pk : String} {d : DecodedPubkey} (h : decodePubkey pk = .ok d) :
    ∃ fp, fingerprint H pk = .ok fp := by
  unfold fingerprint
  rw [h]
  exact ⟨_, rfl⟩

end Aesmsg.Crypto
