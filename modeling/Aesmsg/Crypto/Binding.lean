import Aesmsg.Crypto.Seal

/-!
# What the associated data binds

Two accepted contexts encode to the same associated data iff they agree on the link id, the raw
recipient key, both timestamps, and on `maxOpens` *modulo 2³²* (`encodeAad_eq_iff`).  The encoder
checks that `maxOpens` is an integer but not that it fits the 32-bit field it is written to, so a
context is bound against another exactly when their `maxOpens` do not wrap onto each other.
-/

namespace Aesmsg.Crypto

open Bytes

variable {H : Hpke}

/-- The raw public key a context names. -/
def MessageBindingContext.rawKey (ctx : MessageBindingContext) : Option (List UInt8) :=
  (decodePubkey ctx.recipientPublicKey).toOption.map DecodedPubkey.rawKey

/-- Two contexts that agree on everything but `maxOpens`. -/
structure SameButMaxOpens (c₁ c₂ : MessageBindingContext) : Prop where
  linkId : c₁.linkId = c₂.linkId
  rawKey : c₁.rawKey = c₂.rawKey
  createdAtMs : c₁.createdAtMs = c₂.createdAtMs
  expiresAtMs : c₁.expiresAtMs = c₂.expiresAtMs

/-- Two contexts that agree on every bound field. -/
structure SameBinding (c₁ c₂ : MessageBindingContext) : Prop extends SameButMaxOpens c₁ c₂ where
  maxOpens : c₁.maxOpens = c₂.maxOpens

/-- What `encodeAad` checks, and the recipient hash it computes. -/
structure AcceptedAad (H : Hpke) (ctx : MessageBindingContext) (recipHash : List UInt8) :
    Prop where
  createdAtMs : ∀ c ∈ ctx.createdAtMs, c.isSafeInteger = true ∧ 0 ≤ c.toInt
  expiresAtMs : ctx.expiresAtMs.isSafeInteger = true ∧ 0 ≤ ctx.expiresAtMs.toInt
  maxOpens : ctx.maxOpens.isInteger = true
  linkId : (TextEncoder.encode ctx.linkId).length = LINK_ID_BYTES_EXACT
  hash : hashRecipientPubkey H ctx.recipientPublicKey = .ok recipHash
  length_hash : recipHash.length = RECIP_HASH_LEN

theorem encodeAad_eq_ok {ctx : MessageBindingContext} {aad : List UInt8}
    (h : encodeAad H ctx = .ok aad) :
    ∃ recipHash, AcceptedAad H ctx recipHash ∧
      aad = writeAad (TextEncoder.encode ctx.linkId) recipHash
        (ctx.createdAtMs.map JsNumber.toInt) ctx.expiresAtMs.toInt ctx.maxOpens.toInt := by
  simp only [encodeAad, Result.bind_eq_ok, throwIf_eq_ok, not_not] at h
  obtain ⟨_, hcreated, _, hexpires, _, hmax, _, -, _, -, _, hlink, recipHash, hhash, _, hlen, _, -,
    hout⟩ := h
  have hc : ∀ c ∈ ctx.createdAtMs, c.isSafeInteger = true ∧ 0 ≤ c.toInt := by
    intro c hc
    have := not_exists.mp hcreated c
    simp only [not_and, not_or, not_not, not_lt] at this
    exact this hc
  refine ⟨recipHash, ⟨hc, ?_, ?_, hlink, hhash, hlen⟩, (Except.ok.inj hout).symm⟩
  · exact ⟨not_not.mp (not_or.mp hexpires).1, not_lt.mp (not_or.mp hexpires).2⟩
  · exact not_not.mp (not_or.mp hmax).1

/-! ## Integer fields -/

theorem length_writeU64BE (n : Int) : (writeU64BE n).length = 8 := length_toBE _ _

/-- Safe non-negative integers are written apart by the 64-bit field. -/
theorem writeU64BE_inj {m n : Int} (hm : m.natAbs ≤ JsNumber.MAX_SAFE_INTEGER) (hm₀ : 0 ≤ m)
    (hn : n.natAbs ≤ JsNumber.MAX_SAFE_INTEGER) (hn₀ : 0 ≤ n)
    (h : writeU64BE m = writeU64BE n) : m = n := by
  have hmod := toBE_inj_iff.mp h
  simp only [JsNumber.MAX_SAFE_INTEGER] at hm hn
  omega

/-- The 32-bit field writes integers apart exactly up to 2³². -/
theorem writeI32BE_inj_iff {m n : Int} :
    writeI32BE m = writeI32BE n ↔ m % 2 ^ 32 = n % 2 ^ 32 := by
  rw [writeI32BE, writeI32BE, toBE_inj_iff]
  omega

theorem option_writeU64BE_inj {o₁ o₂ : Option JsNumber} (hsome : o₁.isSome = o₂.isSome)
    (h₁ : ∀ c ∈ o₁, c.isSafeInteger = true ∧ 0 ≤ c.toInt)
    (h₂ : ∀ c ∈ o₂, c.isSafeInteger = true ∧ 0 ≤ c.toInt)
    (h : ((o₁.map JsNumber.toInt).map writeU64BE).getD [] =
      ((o₂.map JsNumber.toInt).map writeU64BE).getD []) : o₁ = o₂ := by
  cases o₁ with
  | none =>
      cases o₂ with
      | none => rfl
      | some d => cases hsome
  | some c =>
      cases o₂ with
      | none => cases hsome
      | some d =>
          have hc := h₁ c rfl
          have hd := h₂ d rfl
          have hint := writeU64BE_inj (JsNumber.isSafeInteger_iff.mp hc.1).2 hc.2
            (JsNumber.isSafeInteger_iff.mp hd.1).2 hd.2 h
          rw [(JsNumber.eq_iff_toInt_eq (JsNumber.isInteger_of_isSafeInteger hc.1)
            (JsNumber.isInteger_of_isSafeInteger hd.1)).mpr hint]

/-! ## The layout -/

/-- The layout determines its parts, the last one modulo 2³². -/
theorem writeAad_inj {l₁ l₂ r₁ r₂ : List UInt8} {c₁ c₂ : Option Int} {e₁ e₂ m₁ m₂ : Int}
    (hl : l₁.length = l₂.length) (hr : r₁.length = r₂.length)
    (h : writeAad l₁ r₁ c₁ e₁ m₁ = writeAad l₂ r₂ c₂ e₂ m₂) :
    l₁ = l₂ ∧ r₁ = r₂ ∧ c₁.isSome = c₂.isSome ∧
      (c₁.map writeU64BE).getD [] = (c₂.map writeU64BE).getD [] ∧
      writeU64BE e₁ = writeU64BE e₂ ∧ m₁ % 2 ^ 32 = m₂ % 2 ^ 32 := by
  simp only [writeAad, List.cons.injEq, true_and, List.append_assoc] at h
  obtain ⟨hversion, hbody⟩ := h
  have hsome : c₁.isSome = c₂.isSome := by
    cases c₁ <;> cases c₂ <;>
      first | rfl | exact absurd hversion (by simp [AAD_VERSION, AAD_VERSION_V2])
  have hcreated : ((c₁.map writeU64BE).getD []).length = ((c₂.map writeU64BE).getD []).length := by
    cases c₁ <;> cases c₂ <;> first | rfl | cases hsome
  obtain ⟨-, hbody⟩ := List.append_inj hbody (by rw [length_writeU16BE, length_writeU16BE])
  obtain ⟨hlink, hbody⟩ := List.append_inj hbody hl
  obtain ⟨hhash, hbody⟩ := List.append_inj hbody hr
  obtain ⟨hc, hbody⟩ := List.append_inj hbody hcreated
  obtain ⟨he, hm⟩ := List.append_inj hbody (by rw [length_writeU64BE, length_writeU64BE])
  exact ⟨hlink, hhash, hsome, hc, he, writeI32BE_inj_iff.mp hm⟩

/-! ## The recipient -/

theorem hashRecipientPubkey_eq_ok (hH : H.Lawful) {pk : String} {recipHash : List UInt8} :
    hashRecipientPubkey H pk = .ok recipHash ↔
      ∃ d key, decodePubkey pk = .ok d ∧ H.importRawPublicKey d.rawKey = .ok key ∧
        recipHash = H.sha256 d.rawKey := by
  simp only [hashRecipientPubkey, Result.bind_eq_ok]
  constructor
  · rintro ⟨d, hd, key, hkey, hhash⟩
    refine ⟨d, key, hd, hkey, ?_⟩
    rw [← hH.export_import hkey]
    exact (Except.ok.inj hhash).symm
  · rintro ⟨d, key, hd, hkey, rfl⟩
    refine ⟨d, hd, key, hkey, ?_⟩
    rw [hH.export_import hkey]
    rfl

/-- Two accepted contexts have the same recipient hash iff they name the same raw key. -/
theorem recipHash_eq_iff (hH : H.Lawful) {c₁ c₂ : MessageBindingContext} {r₁ r₂ : List UInt8}
    (h₁ : hashRecipientPubkey H c₁.recipientPublicKey = .ok r₁)
    (h₂ : hashRecipientPubkey H c₂.recipientPublicKey = .ok r₂) :
    r₁ = r₂ ↔ c₁.rawKey = c₂.rawKey := by
  obtain ⟨d₁, -, hd₁, -, rfl⟩ := (hashRecipientPubkey_eq_ok hH).mp h₁
  obtain ⟨d₂, -, hd₂, -, rfl⟩ := (hashRecipientPubkey_eq_ok hH).mp h₂
  simp only [MessageBindingContext.rawKey, hd₁, hd₂, Except.toOption, Option.map_some,
    Option.some.injEq]
  constructor
  · exact hH.sha256_injOn (length_rawKey_of_decodePubkey hd₁) (length_rawKey_of_decodePubkey hd₂)
  · intro h
    rw [h]

/-- The associated data of two accepted contexts agree iff the contexts agree on every field, the
last one modulo 2³². -/
theorem encodeAad_eq_iff (hH : H.Lawful) {c₁ c₂ : MessageBindingContext} {a₁ a₂ : List UInt8}
    (h₁ : encodeAad H c₁ = .ok a₁) (h₂ : encodeAad H c₂ = .ok a₂) :
    a₁ = a₂ ↔ SameButMaxOpens c₁ c₂ ∧
      c₁.maxOpens.toInt % 2 ^ 32 = c₂.maxOpens.toInt % 2 ^ 32 := by
  obtain ⟨r₁, k₁, rfl⟩ := encodeAad_eq_ok h₁
  obtain ⟨r₂, k₂, rfl⟩ := encodeAad_eq_ok h₂
  constructor
  · intro h
    obtain ⟨hlink, hhash, hsome, hcreated, hexpires, hmax⟩ := writeAad_inj
      (k₁.linkId.trans k₂.linkId.symm) (k₁.length_hash.trans k₂.length_hash.symm) h
    have he := writeU64BE_inj (JsNumber.isSafeInteger_iff.mp k₁.expiresAtMs.1).2 k₁.expiresAtMs.2
      (JsNumber.isSafeInteger_iff.mp k₂.expiresAtMs.1).2 k₂.expiresAtMs.2 hexpires
    refine ⟨⟨?_, ?_, ?_, ?_⟩, hmax⟩
    · exact TextEncoder.encode_injective hlink
    · exact (recipHash_eq_iff hH k₁.hash k₂.hash).mp hhash
    · exact option_writeU64BE_inj (by simpa using hsome) k₁.createdAtMs k₂.createdAtMs hcreated
    · exact (JsNumber.eq_iff_toInt_eq (JsNumber.isInteger_of_isSafeInteger k₁.expiresAtMs.1)
        (JsNumber.isInteger_of_isSafeInteger k₂.expiresAtMs.1)).mpr he
  · rintro ⟨hsame, hmax⟩
    rw [writeAad, writeAad, hsame.linkId, hsame.createdAtMs, hsame.expiresAtMs,
      (recipHash_eq_iff hH k₁.hash k₂.hash).mpr hsame.rawKey, writeI32BE_inj_iff.mpr hmax]

/-! ## Opening under another context -/

/-- A sealed blob is opened under an accepted context only if that context encodes to the
associated data it was sealed with. -/
theorem encodeAad_eq_of_open_seal (hH : H.Lawful) {plaintext ciphertext opened : List UInt8}
    {recipient : RecipientPublicKey H} {id : IdentityKeypair H} {seed : H.Seed}
    {c₁ c₂ : MessageBindingContext}
    (hseal : «seal» H plaintext recipient c₁ seed = .ok ciphertext)
    (hopen : «open» H ciphertext id c₂ = .ok opened) : encodeAad H c₁ = encodeAad H c₂ := by
  simp only [«seal», Result.bind_eq_ok] at hseal
  obtain ⟨_, -, _, -, aad, haad, sealed, hsealed, hblob⟩ := hseal
  unfold «open» at hopen
  cases h₂ : encodeAad H c₂ with
  | error e => rw [h₂] at hopen; cases hopen
  | ok aad₂ =>
      rw [h₂] at hopen
      simp only [decodeCiphertextBlob_encode hblob] at hopen
      split at hopen
      · cases hopen
      · rename_i hsome
        rw [haad, hH.open_aad hsealed hsome]

/-- What is opened is opened under a context that is accepted. -/
theorem aad_of_open {ciphertext opened : List UInt8} {id : IdentityKeypair H}
    {c : MessageBindingContext} (h : «open» H ciphertext id c = .ok opened) :
    ∃ aad, encodeAad H c = .ok aad := by
  cases haad : encodeAad H c with
  | ok aad => exact ⟨aad, rfl⟩
  | error e =>
    unfold «open» at h
    rw [haad] at h
    cases h

/-- What the matching private key opens, under a context with the same associated data, is what was
sealed. -/
theorem open_seal (hH : H.Lawful) {plaintext ciphertext : List UInt8}
    {recipient : RecipientPublicKey H} {id : IdentityKeypair H} {seed : H.Seed}
    {c₁ c₂ : MessageBindingContext}
    (hseal : «seal» H plaintext recipient c₁ seed = .ok ciphertext)
    (hkey : H.publicKeyRaw id.privateKey = H.exportRawPublicKey recipient.cryptoKey)
    (haad : encodeAad H c₂ = encodeAad H c₁) : «open» H ciphertext id c₂ = .ok plaintext := by
  simp only [«seal», Result.bind_eq_ok] at hseal
  obtain ⟨_, -, _, -, aad, h₁, sealed, hsealed, hblob⟩ := hseal
  unfold «open»
  rw [haad, h₁]
  dsimp only
  rw [decodeCiphertextBlob_encode hblob]
  dsimp only
  rw [hH.open_seal hsealed hkey]

/-- Only the matching private key opens a sealed blob. -/
theorem key_of_open_seal (hH : H.Lawful) {plaintext ciphertext opened : List UInt8}
    {recipient : RecipientPublicKey H} {id : IdentityKeypair H} {seed : H.Seed}
    {c₁ c₂ : MessageBindingContext}
    (hseal : «seal» H plaintext recipient c₁ seed = .ok ciphertext)
    (hopen : «open» H ciphertext id c₂ = .ok opened) :
    H.publicKeyRaw id.privateKey = H.exportRawPublicKey recipient.cryptoKey := by
  have haad := encodeAad_eq_of_open_seal hH hseal hopen
  simp only [«seal», Result.bind_eq_ok] at hseal
  obtain ⟨_, -, _, -, aad, h₁, sealed, hsealed, hblob⟩ := hseal
  unfold «open» at hopen
  rw [← haad, h₁] at hopen
  simp only [decodeCiphertextBlob_encode hblob] at hopen
  split at hopen
  · cases hopen
  · rename_i hsome
    exact hH.open_key hsealed hsome

/-- Whatever key and context open a sealed blob, they open it to what was sealed. -/
theorem eq_of_open_seal (hH : H.Lawful) {plaintext ciphertext opened : List UInt8}
    {recipient : RecipientPublicKey H} {id : IdentityKeypair H} {seed : H.Seed}
    {c₁ c₂ : MessageBindingContext}
    (hseal : «seal» H plaintext recipient c₁ seed = .ok ciphertext)
    (hopen : «open» H ciphertext id c₂ = .ok opened) : opened = plaintext := by
  have haad := encodeAad_eq_of_open_seal hH hseal hopen
  have hkey := key_of_open_seal hH hseal hopen
  exact Except.ok.inj (hopen.symm.trans (open_seal hH hseal hkey haad.symm))

/-- Context `c₁` is bound against `c₂`: they have the same associated data only if they are the
same, and what was sealed under the one is not opened under the other unless they are the same. -/
structure BoundAgainst (H : Hpke) (c₁ c₂ : MessageBindingContext) : Prop where
  encode : encodeAad H c₁ = encodeAad H c₂ → SameBinding c₁ c₂
  openFails : ¬SameBinding c₁ c₂ →
    ∀ {plaintext ciphertext : List UInt8} {recipient : RecipientPublicKey H} {seed : H.Seed}
      (id : IdentityKeypair H), «seal» H plaintext recipient c₁ seed = .ok ciphertext →
      «open» H ciphertext id c₂ = .error decryptionError

/-- The `maxOpens` of two otherwise equal contexts are not different numbers that wrap onto the
same 32-bit value. -/
def MaxOpensDontWrap (c₁ c₂ : MessageBindingContext) : Prop :=
  SameButMaxOpens c₁ c₂ → c₁.maxOpens.toInt % 2 ^ 32 = c₂.maxOpens.toInt % 2 ^ 32 →
    c₁.maxOpens = c₂.maxOpens

/-- `open` either returns a plaintext or throws a `DecryptionError`. -/
theorem open_eq_error_or_ok (ciphertext : List UInt8) (id : IdentityKeypair H)
    (c : MessageBindingContext) : «open» H ciphertext id c = .error decryptionError ∨
      ∃ opened, «open» H ciphertext id c = .ok opened := by
  unfold «open»
  split
  · exact .inl rfl
  split
  · exact .inl rfl
  split
  · exact .inl rfl
  · exact .inr ⟨_, rfl⟩

/-- For all accepted contexts: the associated data binds the one against the other iff their
`maxOpens` do not wrap onto each other. -/
theorem boundAgainst_iff (hH : H.Lawful) {c₁ c₂ : MessageBindingContext} {a₁ a₂ : List UInt8}
    (h₁ : encodeAad H c₁ = .ok a₁) (h₂ : encodeAad H c₂ = .ok a₂) :
    BoundAgainst H c₁ c₂ ↔ MaxOpensDontWrap c₁ c₂ := by
  have heq : encodeAad H c₁ = encodeAad H c₂ ↔ a₁ = a₂ := by
    rw [h₁, h₂, Except.ok.injEq]
  rw [encodeAad_eq_iff hH h₁ h₂] at heq
  constructor
  · intro hbound hsame hmax
    exact (hbound.encode (heq.mpr ⟨hsame, hmax⟩)).maxOpens
  · intro hwrap
    have hencode : encodeAad H c₁ = encodeAad H c₂ → SameBinding c₁ c₂ := by
      intro h
      obtain ⟨hsame, hmax⟩ := heq.mp h
      exact ⟨hsame, hwrap hsame hmax⟩
    refine ⟨hencode, fun hdiff {_ ciphertext _ _} id hseal ↦ ?_⟩
    rcases open_eq_error_or_ok ciphertext id c₂ with hfail | ⟨opened, hopen⟩
    · exact hfail
    · exact absurd (hencode (encodeAad_eq_of_open_seal hH hseal hopen)) hdiff

/-- Within the range of the 32-bit field the data is bound. -/
theorem maxOpensDontWrap_of_le {c₁ c₂ : MessageBindingContext}
    (h₁ : c₁.maxOpens.isInteger = true) (h₂ : c₂.maxOpens.isInteger = true)
    (hlow₁ : -1 ≤ c₁.maxOpens.toInt) (hlow₂ : -1 ≤ c₂.maxOpens.toInt)
    (hup₁ : c₁.maxOpens.toInt < 2 ^ 31) (hup₂ : c₂.maxOpens.toInt < 2 ^ 31) :
    MaxOpensDontWrap c₁ c₂ := by
  intro _ hmod
  exact (JsNumber.eq_iff_toInt_eq h₁ h₂).mpr (by omega)

/-- A context that leaves only `maxOpens` open. -/
def sampleContext (maxOpens : Int) : MessageBindingContext where
  linkId := "AAAAAAAAAAAAAAAA"
  recipientPublicKey := "amk1:AQEAAAAAAAAAAAAAAAAAAAAAAAAAAAAAAAAAAAAAAAAAAA"
  createdAtMs := none
  expiresAtMs := .int 1700000000000
  maxOpens := .int maxOpens

/-- Contexts that allow one open and two opens are bound against each other. -/
theorem boundAgainst_iff_sample :
    BoundAgainst Hpke.transparent (sampleContext 1) (sampleContext 2) := by
  obtain ⟨a₁, h₁⟩ := Result.exists_eq_ok
    (x := encodeAad Hpke.transparent (sampleContext 1)) (by decide +kernel)
  obtain ⟨a₂, h₂⟩ := Result.exists_eq_ok
    (x := encodeAad Hpke.transparent (sampleContext 2)) (by decide +kernel)
  refine (boundAgainst_iff Hpke.transparent_lawful h₁ h₂).mpr ?_
  exact maxOpensDontWrap_of_le rfl rfl (by decide) (by decide) (by decide) (by decide)

/-- One open and 4294967297 opens are sealed with the same associated data. -/
theorem encodeAad_maxOpens_wraps :
    ¬∀ (H : Hpke), H.Lawful → ∀ c₁ c₂ aad, encodeAad H c₁ = .ok aad → encodeAad H c₂ = .ok aad →
      SameBinding c₁ c₂ := by
  intro hall
  obtain ⟨aad, h⟩ := Result.exists_eq_ok
    (x := encodeAad Hpke.transparent (sampleContext 1)) (by decide +kernel)
  have hwrap : encodeAad Hpke.transparent (sampleContext 4294967297) =
      encodeAad Hpke.transparent (sampleContext 1) := by decide +kernel
  have hsame := hall _ Hpke.transparent_lawful _ _ _ h (hwrap.trans h)
  exact absurd hsame.maxOpens (by decide)

end Aesmsg.Crypto
