import Aesmsg.Lib.Base64
import Aesmsg.Crypto.Errors

/-!
# Wire formats

`packages/crypto/src/wire.ts`: base64url with the 32-bit accumulator loops, the `amk1:` public key
string and the sealed blob

```
u8 WIRE_VERSION | u8 suite | 32-byte encapsulated key | AEAD output
```
-/

namespace Aesmsg.Crypto

def PUBKEY_PREFIX : String := "amk1:"

def WIRE_VERSION : UInt8 := 0x01

def SUITE_X25519_AES256GCM : UInt8 := 0x01

def RAW_X25519_PUBKEY_LEN : Nat := 32

def CANONICAL_PUBKEY_LEN : Nat := 2 + RAW_X25519_PUBKEY_LEN

def ENCAPSULATED_KEY_LEN : Nat := 32

def CIPHERTEXT_PREFIX_LEN : Nat := 2 + ENCAPSULATED_KEY_LEN

def BASE64URL_ALPHABET : Base64.Alphabet where
  chars :=
    ['A', 'B', 'C', 'D', 'E', 'F', 'G', 'H', 'I', 'J', 'K', 'L', 'M', 'N', 'O', 'P', 'Q', 'R',
     'S', 'T', 'U', 'V', 'W', 'X', 'Y', 'Z', 'a', 'b', 'c', 'd', 'e', 'f', 'g', 'h', 'i', 'j',
     'k', 'l', 'm', 'n', 'o', 'p', 'q', 'r', 's', 't', 'u', 'v', 'w', 'x', 'y', 'z', '0', '1',
     '2', '3', '4', '5', '6', '7', '8', '9', '-', '_']
  length_eq := rfl
  nodup := by decide +kernel

def base64urlEncode (bytes : List UInt8) : String :=
  String.ofList ((Base64.encodeLoop 0 0 bytes).map BASE64URL_ALPHABET.char)

def base64urlDecode (s : String) : Result (List UInt8) :=
  match BASE64URL_ALPHABET.digits s.toList with
  | none => .error (.invalidFormat "Invalid base64url character")
  | some digits => .ok (Base64.decodeLoop 0 0 digits)

/-- A text of the alphabet is read, and the bits that do not fill a byte are dropped. -/
theorem base64urlDecode_eq_ok {s : String} {bytes : List UInt8} :
    base64urlDecode s = .ok bytes ↔
      ∃ ds, BASE64URL_ALPHABET.digits s.toList = some ds ∧ Base64.octets ds = bytes := by
  unfold base64urlDecode
  cases hdigits : BASE64URL_ALPHABET.digits s.toList with
  | none => simp
  | some ds =>
    dsimp only
    rw [Base64.decodeLoop_eq ds 0 (BASE64URL_ALPHABET.digits_eq_some hdigits).1]
    simp

theorem toList_base64urlEncode (bytes : List UInt8) :
    (base64urlEncode bytes).toList = BASE64URL_ALPHABET.text bytes := by
  rw [base64urlEncode, String.toList_ofList, Base64.encodeLoop_eq]
  rfl

/-- The unpadded base64url text is decoded to the bytes it was written from. -/
theorem base64urlDecode_encode (bytes : List UInt8) :
    base64urlDecode (base64urlEncode bytes) = .ok bytes := by
  rw [base64urlDecode, toList_base64urlEncode, BASE64URL_ALPHABET.digits_text]
  exact congrArg Except.ok (by
    rw [← Base64.encodeLoop_eq bytes 0, Base64.decodeLoop_encodeLoop])

/-! ## Public keys -/

def encodePubkey (rawKey : List UInt8) : Result String := do
  throwIf (rawKey.length ≠ RAW_X25519_PUBKEY_LEN)
    (.invalidFormat s!"Expected {RAW_X25519_PUBKEY_LEN}-byte X25519 public key, got {rawKey.length}")
  return PUBKEY_PREFIX ++ base64urlEncode (WIRE_VERSION :: SUITE_X25519_AES256GCM :: rawKey)

theorem encodePubkey_eq {rawKey : List UInt8} (h : rawKey.length = RAW_X25519_PUBKEY_LEN) :
    encodePubkey rawKey = .ok
      (PUBKEY_PREFIX ++ base64urlEncode (WIRE_VERSION :: SUITE_X25519_AES256GCM :: rawKey)) := by
  rw [encodePubkey, throwIf_neg _ (not_not.mpr h)]
  rfl

structure DecodedPubkey where
  rawKey : List UInt8
  canonical : List UInt8
deriving DecidableEq, Repr

/-- `s.startsWith(prefix)` and `s.slice(prefix.length)`: what follows the prefix, if it is
there. -/
def afterPrefix {α : Type} [DecidableEq α] : List α → List α → Option (List α)
  | [], s => some s
  | _ :: _, [] => none
  | p :: ps, c :: s => if p = c then afterPrefix ps s else none

theorem afterPrefix_eq_some_iff {α : Type} [DecidableEq α] {p s rest : List α} :
    afterPrefix p s = some rest ↔ s = p ++ rest := by
  induction p generalizing s with
  | nil => simp [afterPrefix]
  | cons a p ih =>
      cases s with
      | nil => simp [afterPrefix]
      | cons c s =>
          by_cases h : a = c
          · simp [afterPrefix, h, ih]
          · simp [afterPrefix, h, Ne.symm h]

theorem afterPrefix_append {α : Type} [DecidableEq α] (p s : List α) :
    afterPrefix p (p ++ s) = some s := afterPrefix_eq_some_iff.mpr rfl

def decodePubkey (s : String) : Result DecodedPubkey :=
  match afterPrefix PUBKEY_PREFIX.toList s.toList with
  | none => .error (.invalidFormat "Not an aesmsg public key (missing amk1: prefix)")
  | some body => do
      let canonical ← base64urlDecode (String.ofList body)
      throwIf (canonical.length ≠ CANONICAL_PUBKEY_LEN) (.invalidFormat
        s!"Public key must decode to {CANONICAL_PUBKEY_LEN} bytes, got {canonical.length}")
      throwIf (canonical.getD 0 0 ≠ WIRE_VERSION)
        (.invalidFormat s!"Unknown public key version: {canonical.getD 0 0}")
      throwIf (canonical.getD 1 0 ≠ SUITE_X25519_AES256GCM)
        (.invalidFormat s!"Unknown public key suite: {canonical.getD 1 0}")
      return ⟨canonical.drop 2, canonical⟩

/-- An accepted public key string denotes a 32-byte key. -/
theorem length_rawKey_of_decodePubkey {s : String} {d : DecodedPubkey}
    (h : decodePubkey s = .ok d) : d.rawKey.length = RAW_X25519_PUBKEY_LEN := by
  unfold decodePubkey at h
  split at h
  · cases h
  · simp only [Result.bind_eq_ok, throwIf_eq_ok, not_not] at h
    obtain ⟨canonical, -, _, hlen, _, -, _, -, hd⟩ := h
    rw [← Except.ok.inj hd, List.length_drop, hlen]
    rfl

/-- The string of a 32-byte key denotes that key. -/
theorem decodePubkey_encodePubkey {rawKey : List UInt8} {s : String}
    (h : encodePubkey rawKey = .ok s) :
    decodePubkey s =
      .ok ⟨rawKey, WIRE_VERSION :: SUITE_X25519_AES256GCM :: rawKey⟩ := by
  simp only [encodePubkey, Result.bind_eq_ok, throwIf_eq_ok, not_not] at h
  obtain ⟨_, hlen, hs⟩ := h
  have hbody : afterPrefix PUBKEY_PREFIX.toList s.toList = some
      (base64urlEncode (WIRE_VERSION :: SUITE_X25519_AES256GCM :: rawKey)).toList := by
    rw [← Except.ok.inj hs, String.toList_append]
    exact afterPrefix_append _ _
  have hcanonical : (WIRE_VERSION :: SUITE_X25519_AES256GCM :: rawKey).length
      = CANONICAL_PUBKEY_LEN := by
    rw [List.length_cons, List.length_cons, hlen]
    rfl
  rw [decodePubkey, hbody]
  simp only [String.ofList_toList, base64urlDecode_encode, Result.ok_bind,
    throwIf_neg _ (not_not.mpr hcanonical), List.getD_cons_zero, List.getD_cons_succ,
    throwIf_neg _ (not_not.mpr rfl)]
  rfl

/-! ## Sealed blobs -/

def encodeCiphertextBlob (enc aeadOutput : List UInt8) : Result (List UInt8) := do
  throwIf (enc.length ≠ ENCAPSULATED_KEY_LEN)
    (.error s!"Encapsulated key must be {ENCAPSULATED_KEY_LEN} bytes")
  return WIRE_VERSION :: SUITE_X25519_AES256GCM :: (enc ++ aeadOutput)

structure CiphertextBlob where
  enc : List UInt8
  aeadOutput : List UInt8
deriving DecidableEq, Repr

def decodeCiphertextBlob (blob : List UInt8) : Result CiphertextBlob := do
  throwIf (blob.length < CIPHERTEXT_PREFIX_LEN) (.error "Ciphertext blob too short")
  throwIf (blob.getD 0 0 ≠ WIRE_VERSION) (.error s!"Unknown ciphertext version: {blob.getD 0 0}")
  throwIf (blob.getD 1 0 ≠ SUITE_X25519_AES256GCM)
    (.error s!"Unknown ciphertext suite: {blob.getD 1 0}")
  return ⟨(blob.drop 2).take ENCAPSULATED_KEY_LEN, blob.drop CIPHERTEXT_PREFIX_LEN⟩

/-- Taking apart the blob that was put together. -/
theorem decodeCiphertextBlob_encode {enc aeadOutput blob : List UInt8}
    (h : encodeCiphertextBlob enc aeadOutput = .ok blob) :
    decodeCiphertextBlob blob = .ok ⟨enc, aeadOutput⟩ := by
  simp only [encodeCiphertextBlob, Result.bind_eq_ok, throwIf_eq_ok, not_not] at h
  obtain ⟨_, hlen, hb⟩ := h
  obtain rfl := Except.ok.inj hb
  have hprefix : ¬(WIRE_VERSION :: SUITE_X25519_AES256GCM :: (enc ++ aeadOutput)).length
      < CIPHERTEXT_PREFIX_LEN := by
    simp only [List.length_cons, List.length_append, hlen, CIPHERTEXT_PREFIX_LEN,
      ENCAPSULATED_KEY_LEN]
    omega
  have htake : (enc ++ aeadOutput).take ENCAPSULATED_KEY_LEN = enc := by
    rw [← hlen, List.take_left]
  have hdrop : (WIRE_VERSION :: SUITE_X25519_AES256GCM :: (enc ++ aeadOutput)).drop
      CIPHERTEXT_PREFIX_LEN = aeadOutput := by
    have hlen' : CIPHERTEXT_PREFIX_LEN = enc.length + 2 := by rw [hlen]; rfl
    rw [hlen', List.drop_succ_cons, List.drop_succ_cons, List.drop_left]
  simp only [decodeCiphertextBlob, throwIf_neg _ hprefix, List.getD_cons_zero,
    List.getD_cons_succ, throwIf_neg _ (not_not.mpr rfl), Result.ok_bind, hdrop, List.drop_succ_cons,
    List.drop_zero, htake]
  rfl

end Aesmsg.Crypto
