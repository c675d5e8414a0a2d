import Aesmsg.Client.Base64

/-!
# The encrypted store

`apps/mobile/src/storage/encrypted-store.ts`: what `setJson` writes for a key and what `getJson` makes
of it.  AES-GCM and the JSON of a domain's values are injected.

## Main results

- `openFrame_sealFrame`: what has been sealed under a key is read back under it.
-/

namespace Aesmsg.Storage

open Crypto

inductive StorageError where
  /-- `DecryptionError` -/
  | decryption (message : String)
  | error (message : String)
  /-- A native call has rejected. -/
  | native
deriving DecidableEq

/-- What `crypto.subtle.importKey` accepts as an AES key. -/
abbrev CryptoKey := { raw : List UInt8 // raw.length = 16 ∨ raw.length = 24 ∨ raw.length = 32 }

def importKey (raw : List UInt8) : Except StorageError CryptoKey :=
  if h : raw.length = 16 ∨ raw.length = 24 ∨ raw.length = 32 then .ok ⟨raw, h⟩
  else .error (.error "DataError")

structure Gcm where
  encrypt (key : CryptoKey) (nonce plaintext : List UInt8) : List UInt8
  /-- None where the tag does not match. -/
  decrypt (key : CryptoKey) (nonce body : List UInt8) : Option (List UInt8)

structure Gcm.Lawful (G : Gcm) : Prop where
  decrypt_encrypt (key : CryptoKey) (nonce plaintext : List UInt8) :
    G.decrypt key nonce (G.encrypt key nonce plaintext) = some plaintext
  length_encrypt (key : CryptoKey) (nonce plaintext : List UInt8) :
    (G.encrypt key nonce plaintext).length = plaintext.length + 16

/-- `JSON.stringify` and `JSON.parse` on the values of a domain. -/
structure Codec (T : Type) where
  stringify : T → String
  /-- None where it throws. -/
  parse : String → Option T

structure Codec.Lawful {T : Type} (J : Codec T) : Prop where
  parse_stringify (value : T) : J.parse (J.stringify value) = some value
  no_bom (value : T) : (J.stringify value).toList.head? ≠ some Utf8.bom

def NONCE_LEN : Nat := 12

/-- What `getRandomValues` fills a nonce with. -/
abbrev Nonce := { bytes : List UInt8 // bytes.length = NONCE_LEN }

section Frame

variable {T : Type} (G : Gcm) (J : Codec T)

/-- The string that `setJson` hands to the blob store. -/
def sealFrame (dek : List UInt8) (nonce : Nonce) (value : T) : Except StorageError String :=
  match importKey dek with
  | .error e => .error e
  | .ok cryptoKey =>
    let cipher := G.encrypt cryptoKey nonce (TextEncoder.encode (J.stringify value))
    .ok (Client.Mobile.bytesToBase64 (nonce.val ++ cipher))

/-- The message of a `DecryptionError`. -/
def blobMessage (key problem : String) : String :=
  String.ofList ("blob for key ".toList ++ '"' :: key.toList ++ '"' :: ' ' :: problem.toList)

/-- `getJson`, of a blob that exists. -/
def openFrame (dek : List UInt8) (key framed : String) : Except StorageError T :=
  match Client.Mobile.base64ToBytes framed with
  | .error _ => .error (.decryption (blobMessage key "has invalid base64 framing"))
  | .ok frame =>
    if frame.length ≤ NONCE_LEN then
      .error (.decryption (blobMessage key "is too short to contain a nonce"))
    else
      match importKey dek with
      | .error e => .error e
      | .ok cryptoKey =>
        match G.decrypt cryptoKey (frame.take NONCE_LEN) (frame.drop NONCE_LEN) with
        | none => .error (.decryption (blobMessage key "failed to decrypt"))
        | some plaintext =>
          match J.parse (TextDecoder.decode false plaintext) with
          | none => .error (.decryption (blobMessage key "decrypted to invalid JSON"))
          | some value => .ok value

variable {G J}

theorem openFrame_sealFrame (hG : G.Lawful) (hJ : J.Lawful) {dek : List UInt8} {nonce : Nonce} {value : T}
    {framed : String} (h : sealFrame G J dek nonce value = .ok framed) (key : String) :
    openFrame G J dek key framed = .ok value := by
  unfold sealFrame at h
  split at h
  · cases h
  · rename_i cryptoKey himport
    cases h
    obtain ⟨nonce, hnonce⟩ := nonce
    have htext := (TextDecoder.decode_encode_eq_iff (J.stringify value)).mpr (hJ.no_bom value)
    have hlong : ¬(nonce ++ G.encrypt cryptoKey nonce (TextEncoder.encode (J.stringify value))).length
        ≤ NONCE_LEN := by
      rw [List.length_append, hnonce, hG.length_encrypt]
      omega
    unfold openFrame
    rw [Client.Mobile.bytesToBase64_eq, Client.Mobile.base64ToBytes_btoa]
    dsimp only
    rw [if_neg hlong, himport]
    dsimp only
    rw [← hnonce, List.take_left, List.drop_left, hG.decrypt_encrypt]
    dsimp only
    rw [htext, hJ.parse_stringify]

end Frame

/-- A cipher without secrecy, whose tag is the start of the key. -/
def Gcm.transparent : Gcm where
  encrypt key _ plaintext := plaintext ++ key.val.take 16
  decrypt key _ body :=
    if body.drop (body.length - 16) = key.val.take 16 then some (body.take (body.length - 16)) else none

theorem Gcm.transparent_lawful : Gcm.transparent.Lawful := by
  have htag (key : CryptoKey) : (key.val.take 16).length = 16 := by
    obtain ⟨raw, h⟩ := key
    rw [List.length_take]
    change min 16 raw.length = 16
    omega
  constructor
  · intro key nonce plaintext
    have hlen : (plaintext ++ key.val.take 16).length - 16 = plaintext.length := by
      rw [List.length_append, htag, Nat.add_sub_cancel]
    dsimp only [Gcm.transparent]
    rw [hlen, List.drop_left, List.take_left, if_pos rfl]
  · intro key nonce plaintext
    change (plaintext ++ key.val.take 16).length = _
    rw [List.length_append, htag]

/-- Values that are JSON texts, each of which starts with a bracket. -/
def Codec.text : Codec String where
  stringify value := String.ofList ('[' :: value.toList)
  parse text :=
    match text.toList with
    | '[' :: value => some (String.ofList value)
    | _ => none

theorem Codec.text_lawful : Codec.text.Lawful := by
  constructor
  · intro value
    simp [Codec.text]
  · intro value
    simp [Codec.text, Utf8.bom]

end Aesmsg.Storage
