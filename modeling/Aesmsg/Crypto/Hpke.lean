import Aesmsg.Crypto.Wire

/-!
# The HPKE provider

The suite of `packages/crypto/src/hpke.ts` (DHKEM X25519, HKDF-SHA256, AES-256-GCM) and SHA-256
come from libraries outside the repository, so they are parameters.  `Hpke` has the operations;
`Hpke.Lawful` states what the package relies on:

* importing and exporting a raw public key are inverse;
* SHA-256 does not collide on raw public keys;
* `openHpke` returns the plaintext for the matching private key and the exact associated data that
  was sealed, and returns something only for that key and that associated data.

Sealing is randomised; its randomness is an argument.  It throws for some keys that can be imported:
the Diffie-Hellman secret with a key of low order is zero, which the provider refuses.  `Hpke.transparent` is a provider without
secrecy that satisfies these laws: it frames the key and the associated data in front of the
plaintext.
-/

namespace Aesmsg.Crypto

structure Hpke where
  PublicKey : Type
  PrivateKey : Type
  /-- The randomness of one encapsulation. -/
  Seed : Type
  importRawPublicKey : List UInt8 → Result PublicKey
  exportRawPublicKey : PublicKey → List UInt8
  sha256 : List UInt8 → List UInt8
  /-- The public key of a private key, as raw bytes. -/
  publicKeyRaw : PrivateKey → List UInt8
  /-- The encapsulated key and the AEAD output. -/
  sealHpke : PublicKey → (plaintext aad : List UInt8) → Seed → Result (List UInt8 × List UInt8)
  openHpke : PrivateKey → (enc aeadOutput aad : List UInt8) → Option (List UInt8)

structure Hpke.Lawful (H : Hpke) : Prop where
  export_import {raw : List UInt8} {pk : H.PublicKey} :
    H.importRawPublicKey raw = .ok pk → H.exportRawPublicKey pk = raw
  sha256_injOn {raw raw' : List UInt8} : raw.length = RAW_X25519_PUBKEY_LEN →
    raw'.length = RAW_X25519_PUBKEY_LEN → H.sha256 raw = H.sha256 raw' → raw = raw'
  open_seal {pk : H.PublicKey} {sk : H.PrivateKey} {plaintext aad enc aeadOutput : List UInt8}
    {seed : H.Seed} : H.sealHpke pk plaintext aad seed = .ok (enc, aeadOutput) →
    H.publicKeyRaw sk = H.exportRawPublicKey pk → H.openHpke sk enc aeadOutput aad = some plaintext
  open_aad {pk : H.PublicKey} {sk : H.PrivateKey} {plaintext aad aad' enc aeadOutput : List UInt8}
    {seed : H.Seed} {opened : List UInt8} : H.sealHpke pk plaintext aad seed = .ok (enc, aeadOutput) →
    H.openHpke sk enc aeadOutput aad' = some opened → aad' = aad
  open_key {pk : H.PublicKey} {sk : H.PrivateKey} {plaintext aad aad' enc aeadOutput : List UInt8}
    {seed : H.Seed} {opened : List UInt8} : H.sealHpke pk plaintext aad seed = .ok (enc, aeadOutput) →
    H.openHpke sk enc aeadOutput aad' = some opened → H.publicKeyRaw sk = H.exportRawPublicKey pk

/-! ## A lawful provider -/

/-- A self-delimiting copy of a byte string. -/
def frame (bs : List UInt8) : List UInt8 := bs.flatMap (fun b ↦ [1, b]) ++ [0]

/-- Frames end where they say they end. -/
theorem frame_append_inj {a b x y : List UInt8} (h : frame a ++ x = frame b ++ y) :
    a = b ∧ x = y := by
  induction a generalizing b with
  | nil =>
      cases b with
      | nil => simpa [frame] using h
      | cons d b => simp [frame] at h
  | cons c a ih =>
      cases b with
      | nil => simp [frame] at h
      | cons d b =>
          simp only [frame, List.flatMap_cons, List.cons_append, List.nil_append,
            List.cons.injEq, true_and, List.append_assoc] at h
          obtain ⟨rfl, htail⟩ := h
          obtain ⟨rfl, rfl⟩ := ih (b := b) (by simpa [frame] using htail)
          exact ⟨rfl, rfl⟩

/-- The provider that hides nothing.  A private key is the raw bytes of its public key. -/
def Hpke.transparent : Hpke where
  PublicKey := List UInt8
  PrivateKey := List UInt8
  Seed := Unit
  importRawPublicKey raw := .ok raw
  exportRawPublicKey pk := pk
  sha256 raw := if raw.length = RAW_X25519_PUBKEY_LEN then raw else List.replicate 32 0
  publicKeyRaw sk := sk
  sealHpke pk plaintext aad _ :=
    .ok (List.replicate ENCAPSULATED_KEY_LEN 0, frame pk ++ (frame aad ++ plaintext))
  openHpke sk _ aeadOutput aad := afterPrefix (frame sk ++ frame aad) aeadOutput

theorem Hpke.transparent_lawful : Hpke.transparent.Lawful where
  export_import h := (Except.ok.inj h).symm
  sha256_injOn h h' heq := by
    simpa only [Hpke.transparent, if_pos h, if_pos h'] using heq
  open_seal {pk} {sk} _ _ _ _ _ hseal hkey := by
    obtain rfl : sk = pk := hkey
    cases hseal
    exact afterPrefix_eq_some_iff.mpr (List.append_assoc _ _ _).symm
  open_aad hseal h := by
    cases hseal
    have heq := afterPrefix_eq_some_iff.mp h
    rw [List.append_assoc] at heq
    exact (frame_append_inj (frame_append_inj heq).2).1.symm
  open_key hseal h := by
    cases hseal
    have heq := afterPrefix_eq_some_iff.mp h
    rw [List.append_assoc] at heq
    exact (frame_append_inj heq).1.symm

end Aesmsg.Crypto
