import Aesmsg.Crypto.RoundTrip
import Aesmsg.Crypto.Seal

/-!
# Lengths

How long a sealed blob is, as a function of the lengths in the payload, and when there is one.

## Main results

- `encodePayload_ok`, `length_encodePayload`: the envelope has the padded length.
- `targetPaddedLen_le_iff`: the largest envelope that leaves room for the seal below `52 * 2 ^ 19`.
- `seal_ok`, `length_seal`: a blob is longer than its plaintext by `SEAL_OVERHEAD`.
-/

namespace Aesmsg.Crypto

/-! ## The envelope -/

/-- `minLen` of `encodePayload`: the length of the envelope without its padding. -/
def envelopeLength (p : Payload) : Nat :=
  (p.attachments.map toField).foldl (fun n f ↦ n + f.size)
    (1 + 4 + (TextEncoder.encode p.text).length + 2) + PAD_LEN_FIELD_BYTES

theorem length_encodePayload {p : Payload} {out : List UInt8} (h : encodePayload p = .ok out) :
    out.length = targetPaddedLen (envelopeLength p) := by
  simp only [encodePayload, Result.bind_eq_ok, throwIf_eq_ok, mapM_encodeField_eq_ok, not_not] at h
  obtain ⟨_, -, _, -, fields, ⟨-, rfl⟩, _, -, _, hlen, hout⟩ := h
  rw [← Except.ok.inj hout]
  exact hlen

theorem foldl_size (fields : List EncodedField) (n : Nat) :
    fields.foldl (fun n f ↦ n + f.size) n = n + (fields.flatMap writeField).length := by
  induction fields generalizing n with
  | nil => rfl
  | cons f fields ih =>
    rw [List.foldl_cons, ih, List.flatMap_cons, List.length_append, length_writeField, Nat.add_assoc]

theorem length_writeBody (textBytes : List UInt8) (fields : List EncodedField) :
    (writeBody textBytes fields).length =
      fields.foldl (fun n f ↦ n + f.size) (1 + 4 + textBytes.length + 2) := by
  rw [foldl_size, writeBody]
  simp only [List.length_cons, List.length_append, length_writeU32BE, length_writeU16BE,
    Nat.add_right_comm, Nat.add_comm 1 4]

/-- What the encoder checks. -/
structure Payload.Encodable (p : Payload) : Prop where
  text : (TextEncoder.encode p.text).length ≤ U32_MAX
  count : p.attachments.length ≤ U16_MAX
  fields : ∀ att ∈ p.attachments, (toField att).Fits
  pad : targetPaddedLen (envelopeLength p) - envelopeLength p ≤ U32_MAX

theorem encodePayload_ok {p : Payload} (h : p.Encodable) : ∃ out, encodePayload p = .ok out := by
  have hfields := mapM_encodeField_eq_ok.mpr ⟨h.fields, rfl⟩
  have hpad := h.pad
  have hle := le_targetPaddedLen (envelopeLength p)
  unfold envelopeLength at hpad hle
  simp only [encodePayload, throwIf_neg _ (Nat.not_lt.mpr h.text),
    throwIf_neg _ (Nat.not_lt.mpr h.count), hfields, Result.ok_bind]
  rw [throwIf_neg _ (by rw [not_or]; exact ⟨Nat.not_lt.mpr hle, Nat.not_lt.mpr hpad⟩), Result.ok_bind,
    throwIf_neg _ ?_]
  · exact ⟨_, rfl⟩
  · rw [not_not, List.length_append, List.length_append, length_writeBody, length_writeU32BE,
      List.length_replicate]
    unfold PAD_LEN_FIELD_BYTES at hle ⊢
    omega

/-! ## Padding -/

/-- A short length is padded by at most a quarter of the next power of two. -/
theorem padme_le_of_lt {n k : Nat} (h : n < 2 ^ (k + 1)) : padme n ≤ n + 2 ^ (k - 1) := by
  unfold padme
  dsimp only
  split
  · exact Nat.le_add_right _ _
  · rename_i hm
    refine (Nat.div_mul_le_self _ _).trans ?_
    have hexp : Nat.log2 n ≤ k := by
      rcases Nat.eq_zero_or_pos n with rfl | hpos
      · simp at hm
      · exact Nat.lt_succ_iff.mp ((Nat.log2_lt (Nat.ne_of_gt hpos)).mpr h)
    have hblock : 2 ^ (Nat.log2 n - (Nat.log2 (Nat.log2 n) + 1)) ≤ 2 ^ (k - 1) :=
      Nat.pow_le_pow_right (by decide) (by omega)
    exact (Nat.sub_le _ _).trans (Nat.add_le_add_left hblock n)

/-- From `2 ^ 24` to `2 ^ 25` the blocks have `2 ^ 19` bytes. -/
theorem padme_eq {n : Nat} (hlow : 2 ^ 24 ≤ n) (hhigh : n < 2 ^ 25) :
    padme n = (n + 524287) / 524288 * 524288 := by
  have hlog : Nat.log2 n = 24 :=
    (Nat.log2_eq_iff (Nat.ne_of_gt (Nat.lt_of_lt_of_le (Nat.two_pow_pos 24) hlow))).mpr
      ⟨hlow, hhigh⟩
  have hlog' : Nat.log2 24 = 4 := by decide
  have hblock : 2 ^ (24 - (4 + 1)) = 524288 := by decide
  have hround : n + 524288 - 1 = n + 524287 := by omega
  unfold padme
  dsimp only
  rw [hlog, hlog', if_neg (by decide), hblock, hround]

/-- Padmé stays fifty bytes below `52 * 2 ^ 19` exactly up to `51 * 2 ^ 19`. -/
theorem padme_le_iff (n : Nat) : padme n ≤ 27262926 ↔ n ≤ 26738688 := by
  rcases Nat.lt_or_ge n (2 ^ 24) with hlow | hlow
  · have hle := padme_le_of_lt (k := 23) hlow
    omega
  rcases Nat.lt_or_ge n (2 ^ 25) with hhigh | hhigh
  · rw [padme_eq hlow hhigh]
    omega
  · have hle := le_padme n
    omega

theorem targetPaddedLen_le_iff (n : Nat) : targetPaddedLen n ≤ 27262926 ↔ n ≤ 26738688 := by
  rcases Nat.lt_or_ge 4096 n with hn | hn
  · have hnone : PAD_BUCKETS.find? (n ≤ ·) = none := by
      rw [List.find?_eq_none]
      intro bucket hb
      simp only [PAD_BUCKETS, List.mem_cons, List.not_mem_nil, or_false] at hb
      simp only [decide_eq_true_eq]
      omega
    rw [targetPaddedLen, hnone]
    exact padme_le_iff n
  · have hsome : (PAD_BUCKETS.find? (n ≤ ·)).isSome = true :=
      List.find?_isSome.mpr ⟨4096, by decide, decide_eq_true hn⟩
    obtain ⟨bucket, hb⟩ := Option.isSome_iff_exists.mp hsome
    have hall : ∀ b ∈ PAD_BUCKETS, b ≤ 4096 := by decide
    have hle := hall bucket (List.mem_of_find?_eq_some hb)
    rw [targetPaddedLen, hb]
    show bucket ≤ 27262926 ↔ n ≤ 26738688
    omega

/-! ## Sealing -/

def AEAD_TAG_LEN : Nat := 16

/-- What a blob has beyond its plaintext: two bytes, the encapsulated key and the tag. -/
def SEAL_OVERHEAD : Nat := 2 + ENCAPSULATED_KEY_LEN + AEAD_TAG_LEN

/-- The lengths of the suite: an X25519 key, AES-256-GCM with its tag, a SHA-256 digest. -/
structure Hpke.Sized (H : Hpke) : Prop where
  enc {pk : H.PublicKey} {plaintext aad enc aeadOutput : List UInt8} {seed : H.Seed} :
    H.sealHpke pk plaintext aad seed = .ok (enc, aeadOutput) → enc.length = ENCAPSULATED_KEY_LEN
  aead {pk : H.PublicKey} {plaintext aad enc aeadOutput : List UInt8} {seed : H.Seed} :
    H.sealHpke pk plaintext aad seed = .ok (enc, aeadOutput) →
      aeadOutput.length = plaintext.length + AEAD_TAG_LEN
  sha256 (bytes : List UInt8) : (H.sha256 bytes).length = 32

/-- The provider seals to this key. -/
def Hpke.Seals (H : Hpke) (pk : H.PublicKey) : Prop :=
  ∀ plaintext aad seed, ∃ sealed, H.sealHpke pk plaintext aad seed = .ok sealed

/-- It depends on the key alone whether the provider seals to it: the secret is zero for the keys of low
order, whatever the randomness, and for no other. -/
def Hpke.SealsByKey (H : Hpke) : Prop :=
  ∀ pk plaintext aad seed sealed, H.sealHpke pk plaintext aad seed = .ok sealed → H.Seals pk

/-- A provider that hides nothing, with the lengths of the suite.  It refuses the key zero, which has
low order. -/
def plainHpke : Hpke where
  PublicKey := List UInt8
  PrivateKey := List UInt8
  Seed := Unit
  importRawPublicKey raw := .ok raw
  exportRawPublicKey pk := pk
  sha256 _ := List.replicate 32 0
  publicKeyRaw sk := sk
  sealHpke pk plaintext _ _ :=
    if pk.all (· = 0) then .error (.error "EncapError")
    else .ok (List.replicate ENCAPSULATED_KEY_LEN 0, plaintext ++ List.replicate AEAD_TAG_LEN 0)
  openHpke _ _ aeadOutput _ := some (aeadOutput.take (aeadOutput.length - AEAD_TAG_LEN))

theorem plainHpke_sealHpke {pk plaintext aad enc aeadOutput : List UInt8} {seed : Unit}
    (h : plainHpke.sealHpke pk plaintext aad seed = .ok (enc, aeadOutput)) :
    enc = List.replicate ENCAPSULATED_KEY_LEN 0 ∧
      aeadOutput = plaintext ++ List.replicate AEAD_TAG_LEN 0 := by
  simp only [plainHpke] at h
  split at h
  · cases h
  · cases h
    exact ⟨rfl, rfl⟩

theorem plainHpke_sized : plainHpke.Sized where
  enc h := by
    rw [(plainHpke_sealHpke h).1, List.length_replicate]
  aead h := by
    rw [(plainHpke_sealHpke h).2, List.length_append, List.length_replicate]
  sha256 _ := List.length_replicate

theorem plainHpke_seals {pk : List UInt8} (h : ¬pk.all (· = 0) = true) : plainHpke.Seals pk := by
  intro plaintext aad seed
  simp only [plainHpke, if_neg h]
  exact ⟨_, rfl⟩

theorem plainHpke_sealsByKey : plainHpke.SealsByKey := by
  intro pk plaintext aad seed sealed h
  apply plainHpke_seals
  intro hzero
  simp only [plainHpke, if_pos hzero] at h
  cases h

variable {H : Hpke}

theorem length_seal (hH : H.Sized) {plaintext ciphertext : List UInt8}
    {recipient : RecipientPublicKey H} {context : MessageBindingContext} {seed : H.Seed}
    (h : «seal» H plaintext recipient context seed = .ok ciphertext) :
    ciphertext.length = plaintext.length + SEAL_OVERHEAD := by
  simp only [«seal», encodeCiphertextBlob, Result.bind_eq_ok, throwIf_eq_ok, not_not] at h
  obtain ⟨-, -, _, -, aad, -, sealed, hsealed, _, henc, hblob⟩ := h
  rw [← Except.ok.inj hblob, List.length_cons, List.length_cons, List.length_append, henc,
    hH.aead hsealed]
  unfold SEAL_OVERHEAD
  omega

/-- What the associated data of a new message needs. -/
structure MessageBindingContext.Fresh (context : MessageBindingContext) (time opens : Int) : Prop where
  createdAtMs : context.createdAtMs = none
  expiresAtMs : context.expiresAtMs = .int time
  maxOpens : context.maxOpens = .int opens
  future : 0 < time ∧ time ≤ JsNumber.MAX_SAFE_INTEGER
  positive : 0 < opens ∨ opens = -1
  linkId : (TextEncoder.encode context.linkId).length = LINK_ID_BYTES_EXACT

theorem length_writeAad {linkIdBytes recipHash : List UInt8} (time opens : Int)
    (hlink : linkIdBytes.length = LINK_ID_BYTES_EXACT) (hhash : recipHash.length = RECIP_HASH_LEN) :
    (writeAad linkIdBytes recipHash none time opens).length = HEADER_LEN + LINK_ID_LEN_PREFIX +
      linkIdBytes.length + RECIP_HASH_LEN +
      (if (none : Option Int).isSome then CREATED_AT_LEN else 0) + EXPIRES_AT_LEN + MAX_OPENS_LEN := by
  simp only [writeAad, List.length_cons, List.length_append, length_writeU16BE, hlink, hhash,
    Option.map_none, Option.getD_none, List.length_nil, writeU64BE, writeI32BE, Bytes.length_toBE]
  rfl

theorem encodeAad_ok (hH : H.Sized) {context : MessageBindingContext} {time opens : Int}
    (h : context.Fresh time opens) {recipient : RecipientPublicKey H}
    (hkey : importPublicKey H context.recipientPublicKey = .ok recipient) :
    ∃ aad, encodeAad H context = .ok aad := by
  simp only [importPublicKey, Result.bind_eq_ok] at hkey
  obtain ⟨decoded, hdecoded, cryptoKey, himport, -⟩ := hkey
  have hhash : hashRecipientPubkey H context.recipientPublicKey =
      .ok (H.sha256 (H.exportRawPublicKey cryptoKey)) := by
    unfold hashRecipientPubkey
    rw [hdecoded, Result.ok_bind, himport, Result.ok_bind]
    rfl
  have hfuture := h.future
  have hpositive := h.positive
  have hsafe : ¬(¬(JsNumber.int time).isSafeInteger = true ∨ time < 0) := by
    rw [not_or, not_not, JsNumber.isSafeInteger_iff, JsNumber.toInt_int]
    exact ⟨⟨rfl, by omega⟩, by omega⟩
  have hopens : ¬(¬(JsNumber.int opens).isInteger = true ∨ opens ≤ 0 ∧ opens ≠ -1) := by
    rw [not_or, not_not]
    exact ⟨rfl, by omega⟩
  have hpast : ¬time ≤ 0 := Int.not_le.mpr hfuture.1
  have hdigest : (H.sha256 (H.exportRawPublicKey cryptoKey)).length = RECIP_HASH_LEN := hH.sha256 _
  have hlen := length_writeAad time opens h.linkId hdigest
  unfold encodeAad
  simp only [h.createdAtMs, h.expiresAtMs, h.maxOpens, hhash, JsNumber.toInt_int, Option.map_none,
    throwIf_neg _ hsafe, throwIf_neg _ hopens, Result.ok_bind, true_and, throwIf_neg _ hpast,
    throwIf_neg _ (not_not.mpr h.linkId), throwIf_neg _ (not_not.mpr hdigest),
    throwIf_neg _ (not_not.mpr hlen), Option.not_mem_none, false_and, exists_false,
    throwIf_neg _ not_false]
  exact ⟨_, rfl⟩

/-- A message for a key that has been imported can be sealed, if the provider seals to it. -/
theorem seal_ok (hH : H.Sized) {context : MessageBindingContext} {time opens : Int}
    (h : context.Fresh time opens) {recipient : RecipientPublicKey H}
    (hkey : importPublicKey H context.recipientPublicKey = .ok recipient)
    (hseals : H.Seals recipient.cryptoKey) (plaintext : List UInt8) (seed : H.Seed) :
    ∃ ciphertext, «seal» H plaintext recipient context seed = .ok ciphertext := by
  obtain ⟨aad, haad⟩ := encodeAad_ok hH h hkey
  simp only [importPublicKey, Result.bind_eq_ok] at hkey
  obtain ⟨decoded, hdecoded, cryptoKey, -, hrecipient⟩ := hkey
  obtain rfl := Except.ok.inj hrecipient
  obtain ⟨sealed, hsealed⟩ := hseals plaintext aad seed
  unfold «seal» encodeCiphertextBlob
  simp only [hdecoded, Result.ok_bind, throwIf_neg _ (not_not.mpr rfl), haad, hsealed,
    throwIf_neg _ (not_not.mpr (hH.enc hsealed))]
  exact ⟨_, rfl⟩

end Aesmsg.Crypto
