import Aesmsg.Crypto.Wrap

/-!
# What unwrapping returns, and what it throws

`Holds env e` says what an envelope is, field by field; `parseEnvelope` accepts exactly these
(`parseEnvelope_eq_ok`).
-/

namespace Aesmsg.Crypto

/-! ## Well-formed envelopes -/

theorem bind_asNumber?_eq_some {value : Option Json} {x : JsNumber} :
    value.bind Json.asNumber? = some x ↔ value = some (.number x) := by
  cases value with
  | none => simp
  | some value => cases value <;> simp [Json.asNumber?]

theorem bind_asString?_eq_some {value : Option Json} {s : String} :
    value.bind Json.asString? = some s ↔ value = some (.string s) := by
  cases value with
  | none => simp
  | some value => cases value <;> simp [Json.asString?]

/-- The field is a base64url text of these bytes. -/
def HoldsBytes (env : Json) (name : String) (bytes : List UInt8) : Prop :=
  ∃ text, env.field? name = some (.string text) ∧ base64urlDecode text = .ok bytes

/-- The JSON value is an envelope with this content. -/
structure Holds (env : Json) (e : ParsedEnvelope) : Prop where
  record : env.isRecord = true
  v : env.field? "v" = some (.number (.int ENVELOPE_VERSION))
  kdf : env.field? "kdf" = some (.string KDF_ID)
  m_kib : env.field? "m_kib" = some (.number e.m_kib)
  t : env.field? "t" = some (.number e.t)
  p : env.field? "p" = some (.number e.p)
  salt : HoldsBytes env "salt" e.salt
  iv : HoldsBytes env "iv" e.iv
  ct : HoldsBytes env "ct" e.ct
  pub : HoldsBytes env "pub" e.pub
  length_salt : e.salt.length = SALT_LEN
  length_iv : e.iv.length = IV_LEN
  length_ct : e.ct.length = CT_LEN
  length_pub : e.pub.length = RAW_X25519_PUBKEY_LEN

theorem decodeField_eq_ok {s : String} {bytes : List UInt8} :
    decodeField s = .ok bytes ↔ base64urlDecode s = .ok bytes := by
  unfold decodeField
  cases base64urlDecode s with
  | ok bytes' => exact Iff.rfl
  | error e => simp

theorem readEnvelope_eq_ok {env : Json} {e : ParsedEnvelope} (hrecord : env.isRecord = true)
    (hv : env.field? "v" = some (.number (.int ENVELOPE_VERSION)))
    (hkdf : env.field? "kdf" = some (.string KDF_ID)) :
    readEnvelope env = .ok e ↔ Holds env e := by
  constructor
  · intro h
    unfold readEnvelope at h
    dsimp only at h
    split at h
    · rename_i m_kib t p hm ht hp
      split at h
      · rename_i salt iv ct hsalt hiv hct
        split at h
        · rename_i pub hpub
          simp only [Result.bind_eq_ok, throwIf_eq_ok, not_not, decodeField_eq_ok] at h
          obtain ⟨salt', hsalt', iv', hiv', ct', hct', pub', hpub', _, hlsalt, _, hliv, _, hlct, _,
            hlpub, he⟩ := h
          obtain rfl := Except.ok.inj he
          rw [bind_asNumber?_eq_some] at hm ht hp
          rw [bind_asString?_eq_some] at hsalt hiv hct hpub
          exact ⟨hrecord, hv, hkdf, hm, ht, hp, ⟨_, hsalt, hsalt'⟩, ⟨_, hiv, hiv'⟩,
            ⟨_, hct, hct'⟩, ⟨_, hpub, hpub'⟩, hlsalt, hliv, hlct, hlpub⟩
        · cases h
      · cases h
    · cases h
  · intro h
    obtain ⟨salt, hsalt, hsalt'⟩ := h.salt
    obtain ⟨iv, hiv, hiv'⟩ := h.iv
    obtain ⟨ct, hct, hct'⟩ := h.ct
    obtain ⟨pub, hpub, hpub'⟩ := h.pub
    unfold readEnvelope
    simp only [h.m_kib, h.t, h.p, hsalt, hiv, hct, hpub, Option.bind_some, Json.asNumber?,
      Json.asString?, decodeField_eq_ok.mpr hsalt', decodeField_eq_ok.mpr hiv',
      decodeField_eq_ok.mpr hct', decodeField_eq_ok.mpr hpub', Result.ok_bind,
      throwIf_neg _ (not_not.mpr h.length_salt), throwIf_neg _ (not_not.mpr h.length_iv),
      throwIf_neg _ (not_not.mpr h.length_ct), throwIf_neg _ (not_not.mpr h.length_pub)]
    rfl

section

variable {H : Hpke} {L : WrapRuntime H}

theorem throwUnknown_ne_ok {label : String} {value : Option Json} {u : Unit} :
    throwUnknown L label value ≠ .ok u := by
  unfold throwUnknown
  split <;> simp

theorem checkVersion_eq_ok {env : Json} {u : Unit} :
    checkVersion L env = .ok u ↔ env.field? "v" = some (.number (.int ENVELOPE_VERSION)) := by
  rw [← bind_asNumber?_eq_some]
  unfold checkVersion
  split
  · rename_i hne
    exact iff_of_false throwUnknown_ne_ok hne
  · rename_i heq
    exact iff_of_true rfl (not_not.mp heq)

theorem checkKdf_eq_ok {env : Json} {u : Unit} :
    checkKdf L env = .ok u ↔ env.field? "kdf" = some (.string KDF_ID) := by
  rw [← bind_asString?_eq_some]
  unfold checkKdf
  split
  · rename_i hne
    exact iff_of_false throwUnknown_ne_ok hne
  · rename_i heq
    exact iff_of_true rfl (not_not.mp heq)

theorem Result.toWrap_eq_ok {α : Type} {x : Result α} {a : α} : x.toWrap = .ok a ↔ x = .ok a :=
  Except.mapError_eq_ok

/-- The parser accepts the envelopes. -/
theorem parseEnvelope_eq_ok {s : String} {e : ParsedEnvelope} :
    parseEnvelope L s = .ok e ↔ ∃ env, L.jsonParse s = some env ∧ Holds env e := by
  unfold parseEnvelope
  cases hparse : L.jsonParse s with
  | none => simp
  | some env =>
    dsimp only
    have hsome : (∃ env', some env = some env' ∧ Holds env' e) ↔ Holds env e := by simp
    rw [hsome]
    split
    · rename_i hrecord
      simp only [Except.bind_eq_ok, checkVersion_eq_ok, checkKdf_eq_ok, Result.toWrap_eq_ok]
      constructor
      · rintro ⟨_, hv, _, hkdf, hread⟩
        exact (readEnvelope_eq_ok hrecord hv hkdf).mp hread
      · intro h
        exact ⟨(), h.v, (), h.kdf, (readEnvelope_eq_ok hrecord h.v h.kdf).mpr h⟩
    · rename_i hrecord
      exact iff_of_false (by simp) fun h ↦ hrecord h.record

/-! ## The wrap key -/

variable (L) in
/-- What the selected Argon2id library answers for one lane. -/
def argon2id (passphrase : String) (salt : List UInt8) (mKib t : JsNumber) :
    Except String (List UInt8) :=
  match selectBackend L with
  | .noble => L.nobleArgon2id (TextEncoder.encode passphrase) salt t mKib (.int 1) WRAP_KEY_LEN
  | .wasm => L.wasmArgon2id passphrase salt (.int 1) t mKib WRAP_KEY_LEN

theorem deriveWrapKey_of_ne {passphrase : String} {salt : List UInt8} {mKib t p : JsNumber}
    (hp : p ≠ .int 1) :
    deriveWrapKey L passphrase salt mKib t p = .error (.crypto (.error
      ("deriveArgon2id: parallelism (p) must be 1, got " ++ L.numberText p))) := if_pos hp

theorem deriveWrapKey_one (passphrase : String) (salt : List UInt8) (mKib t : JsNumber) :
    deriveWrapKey L passphrase salt mKib t (.int 1) =
      (argon2id L passphrase salt mKib t).mapError fun message ↦ .crypto (.error message) := by
  unfold deriveWrapKey deriveArgon2id argon2id
  refine (if_neg (not_not.mpr rfl)).trans ?_
  cases selectBackend L with
  | wasm => rfl
  | noble => rfl

theorem deriveWrapKey_eq_ok {passphrase : String} {salt key : List UInt8} {mKib t p : JsNumber} :
    deriveWrapKey L passphrase salt mKib t p = .ok key ↔
      p = .int 1 ∧ argon2id L passphrase salt mKib t = .ok key := by
  by_cases hp : p = .int 1
  · subst hp
    rw [deriveWrapKey_one, Except.mapError_eq_ok]
    exact (and_iff_right rfl).symm
  · rw [deriveWrapKey_of_ne hp]
    exact iff_of_false (by simp) fun h ↦ hp h.1

theorem WrapRuntime.Lawful.argon2id_length (hL : L.Lawful) {passphrase : String}
    {salt key : List UInt8} {mKib t : JsNumber}
    (h : argon2id L passphrase salt mKib t = .ok key) : key.length = WRAP_KEY_LEN := by
  unfold argon2id at h
  cases hb : selectBackend L with
  | wasm =>
    rw [hb] at h
    exact hL.wasm_length h
  | noble =>
    rw [hb] at h
    exact hL.noble_length h

theorem WrapRuntime.Lawful.argon2id_integer (hL : L.Lawful) {passphrase : String}
    {salt key : List UInt8} {mKib t : JsNumber}
    (h : argon2id L passphrase salt mKib t = .ok key) :
    ∃ t' m' : Nat, t = .int t' ∧ mKib = .int m' := by
  unfold argon2id at h
  cases hb : selectBackend L with
  | wasm =>
    rw [hb] at h
    exact hL.wasm_integer h
  | noble =>
    rw [hb] at h
    exact hL.noble_integer h

theorem importWrapKey_eq {key : List UInt8} (h : key.length = WRAP_KEY_LEN) :
    importWrapKey key = .ok key := if_pos (Or.inr (Or.inr h))

/-! ## What is returned -/

theorem decryptRaw_eq_ok (hL : L.Lawful) {key iv ct raw : List UInt8} :
    decryptRaw L key iv ct = .ok raw ↔
      ct = L.aesEncrypt key iv raw ∧ raw.length = RAW_X25519_PRIVKEY_LEN := by
  rw [← hL.decrypt_eq_some]
  unfold decryptRaw
  cases L.aesDecrypt key iv ct with
  | none => simp
  | some raw' =>
    dsimp only
    split
    · rename_i hlen
      constructor
      · intro h
        cases h
      · rintro ⟨⟨⟩, hlen'⟩
        exact absurd hlen' hlen
    · rename_i hlen
      constructor
      · rintro ⟨⟩
        exact ⟨rfl, not_not.mp hlen⟩
      · rintro ⟨⟨⟩, -⟩
        rfl

theorem importPair_eq_ok {raw pub : List UInt8} {sk : H.PrivateKey} {pk : H.PublicKey} :
    importPair L raw pub = .ok (sk, pk) ↔
      L.importRawPrivateKey raw = .ok sk ∧ H.importRawPublicKey pub = .ok pk := by
  unfold importPair
  cases L.importRawPrivateKey raw with
  | error e => simp
  | ok sk' =>
    cases H.importRawPublicKey pub with
    | error e => simp
    | ok pk' => simp

/-- What an unwrapping that returns has found: the private key of the result is what the cipher text
seals, and its public key is what the envelope says. -/
theorem unwrapPrivateKey_eq_ok (hL : L.Lawful) {s passphrase : String} {id : IdentityImpl H} :
    unwrapPrivateKey L s passphrase = .ok id ↔ ∃ e key,
      parseEnvelope L s = .ok e ∧ e.p = .int 1 ∧
      argon2id L passphrase e.salt e.m_kib e.t = .ok key ∧
      e.ct = L.aesEncrypt key e.iv (L.exportRawPrivateKey id.privateKey) ∧
      e.pub = id.publicKeyRaw ∧ id.Valid := by
  unfold unwrapPrivateKey
  simp only [Except.bind_eq_ok, deriveWrapKey_eq_ok, decryptRaw_eq_ok hL, Prod.exists,
    importPair_eq_ok, Result.toWrap_eq_ok]
  constructor
  · rintro ⟨e, he, key, ⟨hp, hkey⟩, key', himport, raw, ⟨hct, -⟩, sk, pk, ⟨hsk, hpk⟩, string, hstring,
      hid⟩
    obtain rfl := Except.ok.inj hid
    rw [importWrapKey_eq (hL.argon2id_length hkey)] at himport
    obtain rfl := Except.ok.inj himport
    have hexport : L.exportRawPrivateKey sk = raw := hL.import_export.mp hsk
    have hlen := (parseEnvelope_eq_ok.mp he).choose_spec.2.length_pub
    exact ⟨e, key, he, hp, hkey, by rw [hexport]; exact hct, rfl, hlen, hpk, hstring⟩
  · rintro ⟨e, key, he, hp, hkey, hct, hpub, hvalid⟩
    refine ⟨e, he, key, ⟨hp, hkey⟩, key, importWrapKey_eq (hL.argon2id_length hkey), _,
      ⟨hct, hL.length_export _⟩, id.privateKey, id.publicKey, ⟨hL.import_export.mpr rfl, ?_⟩,
      id.publicKeyString, ?_, ?_⟩
    · rw [hpub]
      exact hvalid.import_raw
    · rw [hpub]
      exact hvalid.string
    · rw [hpub]
      rfl

theorem field?_toJson (e : Envelope) :
    e.toJson.field? "v" = some (.number e.v) ∧ e.toJson.field? "kdf" = some (.string e.kdf) ∧
    e.toJson.field? "m_kib" = some (.number e.m_kib) ∧ e.toJson.field? "t" = some (.number e.t) ∧
    e.toJson.field? "p" = some (.number e.p) ∧ e.toJson.field? "salt" = some (.string e.salt) ∧
    e.toJson.field? "iv" = some (.string e.iv) ∧ e.toJson.field? "ct" = some (.string e.ct) ∧
    e.toJson.field? "pub" = some (.string e.pub) :=
  ⟨rfl, rfl, rfl, rfl, rfl, rfl, rfl, rfl, rfl⟩

/-- The object that is written is an envelope with what was put into it. -/
theorem holds_envelopeOf (params : WrapKdfParams) {salt iv ct pub : List UInt8}
    (hsalt : salt.length = SALT_LEN) (hiv : iv.length = IV_LEN) (hct : ct.length = CT_LEN)
    (hpub : pub.length = RAW_X25519_PUBKEY_LEN) :
    Holds (envelopeOf params salt iv ct pub).toJson
      ⟨salt, iv, ct, pub, params.mKib, params.t, params.p⟩ := by
  obtain ⟨hv, hkdf, hm, ht, hp, hs, hi, hc, hpb⟩ :=
    field?_toJson (envelopeOf params salt iv ct pub)
  exact ⟨rfl, hv, hkdf, hm, ht, hp, ⟨_, hs, base64urlDecode_encode salt⟩,
    ⟨_, hi, base64urlDecode_encode iv⟩, ⟨_, hc, base64urlDecode_encode ct⟩,
    ⟨_, hpb, base64urlDecode_encode pub⟩, hsalt, hiv, hct, hpub⟩

/-- What a wrapping that returns has written. -/
theorem wrapPrivateKey_eq_ok (hL : L.Lawful) {id : IdentityImpl H} {passphrase s : String}
    {params : WrapKdfParams} {salt : { bs : List UInt8 // bs.length = SALT_LEN }}
    {iv : { bs : List UInt8 // bs.length = IV_LEN }} :
    wrapPrivateKey L id passphrase params salt iv = .ok s ↔ params.p = .int 1 ∧
      ∃ key, argon2id L passphrase salt.val params.mKib params.t = .ok key ∧
        s = L.jsonStringify (envelopeOf params salt.val iv.val
          (L.aesEncrypt key iv.val (L.exportRawPrivateKey id.privateKey)) id.publicKeyRaw) := by
  unfold wrapPrivateKey
  simp only [Except.bind_eq_ok, deriveWrapKey_eq_ok]
  constructor
  · rintro ⟨key, ⟨hp, hkey⟩, key', himport, hs⟩
    rw [importWrapKey_eq (hL.argon2id_length hkey)] at himport
    obtain rfl := Except.ok.inj himport
    exact ⟨hp, key, hkey, (Except.ok.inj hs).symm⟩
  · rintro ⟨hp, key, hkey, rfl⟩
    exact ⟨key, ⟨hp, hkey⟩, key, importWrapKey_eq (hL.argon2id_length hkey), rfl⟩

/-- What has been wrapped is unwrapped, to the same keys. -/
theorem unwrap_wrap (hL : L.Lawful) {id : IdentityImpl H} (hid : id.Valid) {passphrase s : String}
    {params : WrapKdfParams} {salt : { bs : List UInt8 // bs.length = SALT_LEN }}
    {iv : { bs : List UInt8 // bs.length = IV_LEN }}
    (h : wrapPrivateKey L id passphrase params salt iv = .ok s) :
    unwrapPrivateKey L s passphrase = .ok id := by
  obtain ⟨hp, key, hkey, rfl⟩ := (wrapPrivateKey_eq_ok hL).mp h
  obtain ⟨t, m, ht, hm⟩ := hL.argon2id_integer hkey
  have hct : (L.aesEncrypt key iv.val (L.exportRawPrivateKey id.privateKey)).length = CT_LEN := by
    rw [hL.length_encrypt, hL.length_export, CT_LEN]
  obtain ⟨mKib, t', p⟩ := params
  dsimp only at hp hm ht hkey
  subst hp hm ht
  have hparse := hL.parse_stringify m t salt.val iv.val
    (L.aesEncrypt key iv.val (L.exportRawPrivateKey id.privateKey)) id.publicKeyRaw
  have hholds := holds_envelopeOf ⟨.int m, .int t, .int 1⟩ salt.property iv.property hct
    hid.length_raw
  exact (unwrapPrivateKey_eq_ok hL).mpr ⟨_, key, parseEnvelope_eq_ok.mpr ⟨_, hparse, hholds⟩, rfl,
    hkey, rfl, rfl, hid⟩

variable (L) in
/-- The public key that the text shows is that of the private key that it seals under the
passphrase. -/
def PubHonest (s passphrase : String) : Prop :=
  ∃ env e key sk, L.jsonParse s = some env ∧ Holds env e ∧
    argon2id L passphrase e.salt e.m_kib e.t = .ok key ∧
    e.ct = L.aesEncrypt key e.iv (L.exportRawPrivateKey sk) ∧ e.pub = H.publicKeyRaw sk

/-- Under one key and nonce a cipher text seals one private key. -/
theorem WrapRuntime.Lawful.encrypt_export_inj (hL : L.Lawful) {key iv : List UInt8}
    {sk sk' : H.PrivateKey}
    (h : L.aesEncrypt key iv (L.exportRawPrivateKey sk) =
      L.aesEncrypt key iv (L.exportRawPrivateKey sk')) : sk = sk' := by
  have hsome := hL.decrypt_eq_some.mpr h
  rw [hL.decrypt_eq_some.mpr rfl] at hsome
  have hraw := hL.import_export.mpr (Option.some.inj hsome).symm
  rw [hL.import_export.mpr rfl] at hraw
  exact Except.ok.inj hraw

theorem consistent_iff_pubHonest (hL : L.Lawful) {s passphrase : String} {id : IdentityImpl H}
    (h : unwrapPrivateKey L s passphrase = .ok id) :
    id.Consistent ↔ PubHonest L s passphrase := by
  obtain ⟨e, key, he, -, hkey, hct, hpub, -⟩ := (unwrapPrivateKey_eq_ok hL).mp h
  obtain ⟨env, hparse, hholds⟩ := parseEnvelope_eq_ok.mp he
  constructor
  · intro hid
    exact ⟨env, e, key, id.privateKey, hparse, hholds, hkey, hct, hpub.trans hid.symm⟩
  · rintro ⟨env', e', key', sk, hparse', hholds', hkey', hct', hpub'⟩
    have he' := (parseEnvelope_eq_ok (L := L)).mpr ⟨env', hparse', hholds'⟩
    rw [he] at he'
    obtain rfl := Except.ok.inj he'
    rw [hkey] at hkey'
    obtain rfl := Except.ok.inj hkey'
    obtain rfl := hL.encrypt_export_inj (hct.symm.trans hct')
    exact hpub'.symm.trans hpub

/-- An accepted text gives a consistent pair iff it shows the public key of what it seals, which
nothing checks; and wrapping, then unwrapping gives the identity back. -/
theorem unwrapped_pair (hL : L.Lawful) :
    (∀ s passphrase id, unwrapPrivateKey L s passphrase = .ok id →
      (id.Consistent ↔ PubHonest L s passphrase)) ∧
    ∀ id : IdentityImpl H, id.Valid → ∀ passphrase params salt iv s,
      wrapPrivateKey L id passphrase params salt iv = .ok s →
      unwrapPrivateKey L s passphrase = .ok id := by
  constructor
  · intro s passphrase id h
    exact consistent_iff_pubHonest hL h
  · intro id hid passphrase params salt iv s h
    exact unwrap_wrap hL hid h

end

/-! ### An envelope with another public key -/

/-- The wrap key of the passphrase `pw`. -/
def sampleKey : List UInt8 := firstBytes WRAP_KEY_LEN (TextEncoder.encode "pw")

theorem argon2id_sample (salt : List UInt8) {m t : Nat} (hm : 8 ≤ m) (ht : 1 ≤ t) :
    argon2id WrapRuntime.plain "pw" salt (.int m) (.int t) = .ok sampleKey := by
  show plainArgon2id _ (.int (.ofNat t)) (.int (.ofNat m)) _ = _
  unfold plainArgon2id
  dsimp only
  rw [if_neg (Nat.not_lt.mpr ht), if_neg (Nat.not_lt.mpr hm)]
  rfl

def sampleSalt : { bs : List UInt8 // bs.length = SALT_LEN } :=
  ⟨List.replicate SALT_LEN 7, List.length_replicate⟩

def sampleIv : { bs : List UInt8 // bs.length = IV_LEN } :=
  ⟨List.replicate IV_LEN 9, List.length_replicate⟩

/-- The identity with this private key and this public key. -/
def sampleIdentity (sk pub : UInt8) : IdentityImpl Hpke.fixed where
  publicKey := List.replicate RAW_X25519_PUBKEY_LEN pub
  privateKey := ⟨List.replicate RAW_X25519_PRIVKEY_LEN sk, List.length_replicate⟩
  publicKeyRaw := List.replicate RAW_X25519_PUBKEY_LEN pub
  publicKeyString := PUBKEY_PREFIX ++ base64urlEncode
    (WIRE_VERSION :: SUITE_X25519_AES256GCM :: List.replicate RAW_X25519_PUBKEY_LEN pub)

theorem sampleIdentity_valid (sk pub : UInt8) : (sampleIdentity sk pub).Valid where
  length_raw := List.length_replicate
  import_raw := rfl
  string := encodePubkey_eq List.length_replicate

/-- The envelope of the first key, with the public key of the second. -/
def sampleSealed (t : Nat) (sk pub : UInt8) : Sealed where
  m := 65536
  t := t
  salt := sampleSalt.val
  iv := sampleIv.val
  ct := firstBytes WRAP_TAG_LEN sampleKey ++ List.replicate RAW_X25519_PRIVKEY_LEN sk
  pub := List.replicate RAW_X25519_PUBKEY_LEN pub

theorem holds_sample (t : Nat) (sk pub : UInt8) : Holds (sampleSealed t sk pub).envelope.toJson
    ⟨sampleSalt.val, sampleIv.val, (sampleSealed t sk pub).ct, (sampleSealed t sk pub).pub,
      .int 65536, .int t, .int 1⟩ := by
  refine holds_envelopeOf ⟨.int 65536, .int t, .int 1⟩ sampleSalt.property sampleIv.property ?_
    List.length_replicate
  rw [sampleSealed, List.length_append, length_firstBytes, List.length_replicate]
  rfl

theorem unwrap_sample (sk pub : UInt8) :
    unwrapPrivateKey WrapRuntime.plain (sampleSealed 3 sk pub).text "pw" =
      .ok (sampleIdentity sk pub) := by
  refine (unwrapPrivateKey_eq_ok WrapRuntime.plain_lawful).mpr ⟨_, sampleKey,
    parseEnvelope_eq_ok.mpr ⟨_, WrapRuntime.jsonParse_plain _, holds_sample 3 sk pub⟩, rfl,
    argon2id_sample _ (by decide) (by decide), rfl, rfl, sampleIdentity_valid sk pub⟩

/-- A consistent identity is wrapped and comes back. -/
theorem unwrapped_pair_plain : ∃ s,
    wrapPrivateKey WrapRuntime.plain (sampleIdentity 1 1) "pw" DEFAULT_WRAP_KDF_PARAMS sampleSalt
      sampleIv = .ok s ∧
    unwrapPrivateKey WrapRuntime.plain s "pw" = .ok (sampleIdentity 1 1) ∧
    PubHonest WrapRuntime.plain s "pw" := by
  have hkey : argon2id WrapRuntime.plain "pw" sampleSalt.val (.int 65536) (.int 3) = .ok sampleKey :=
    argon2id_sample _ (by decide) (by decide)
  obtain ⟨s, hwrap⟩ : ∃ s, wrapPrivateKey WrapRuntime.plain (sampleIdentity 1 1) "pw"
      DEFAULT_WRAP_KDF_PARAMS sampleSalt sampleIv = .ok s :=
    ⟨_, (wrapPrivateKey_eq_ok WrapRuntime.plain_lawful).mpr ⟨rfl, sampleKey, hkey, rfl⟩⟩
  have hpair := unwrapped_pair WrapRuntime.plain_lawful
  have hunwrap := hpair.2 _ (sampleIdentity_valid 1 1) _ _ _ _ _ hwrap
  exact ⟨s, hwrap, hunwrap, (hpair.1 _ _ _ hunwrap).mp rfl⟩

/-- The public key in the envelope is replaced, and the pair does not match. -/
theorem replaced_pub : ¬∀ (H : Hpke) (L : WrapRuntime H), L.Lawful → ∀ s passphrase id,
    unwrapPrivateKey L s passphrase = .ok id → id.Consistent := by
  intro hall
  have hconsistent := hall _ _ WrapRuntime.plain_lawful _ _ _ (unwrap_sample 1 2)
  have hne : List.replicate 32 (1 : UInt8) ≠ List.replicate 32 2 := by decide
  exact hne hconsistent

section

variable {H : Hpke} {L : WrapRuntime H}

/-! ## What is thrown -/

/-- The errors that `unwrapPrivateKey` is documented to throw. -/
def WrapError.Documented : WrapError → Prop
  | .crypto (.invalidFormat _) => True
  | .crypto (.decryption _) => True
  | .badPassphrase => True
  | _ => False

theorem decodeField_onlyInvalid (s : String) : (decodeField s).OnlyInvalid := by
  unfold decodeField
  split
  · exact Result.OnlyInvalid.ok _
  · exact Result.OnlyInvalid.error _

theorem readEnvelope_onlyInvalid (env : Json) : (readEnvelope env).OnlyInvalid := by
  unfold readEnvelope
  dsimp only
  split
  · split
    · split
      · refine (decodeField_onlyInvalid _).bind fun salt ↦ ?_
        refine (decodeField_onlyInvalid _).bind fun iv ↦ ?_
        refine (decodeField_onlyInvalid _).bind fun ct ↦ ?_
        refine (decodeField_onlyInvalid _).bind fun pub ↦ ?_
        refine (Result.OnlyInvalid.throwIf _).bind fun _ ↦ ?_
        refine (Result.OnlyInvalid.throwIf _).bind fun _ ↦ ?_
        refine (Result.OnlyInvalid.throwIf _).bind fun _ ↦ ?_
        refine (Result.OnlyInvalid.throwIf _).bind fun _ ↦ ?_
        exact Result.OnlyInvalid.ok _
      · exact Result.OnlyInvalid.error _
    · exact Result.OnlyInvalid.error _
  · exact Result.OnlyInvalid.error _

variable (L) in
/-- The value that the parser puts into an error message has a string form. -/
def Printable (s : String) : Prop :=
  ∀ env, L.jsonParse s = some env → env.isRecord = true →
    (env.field? "v" ≠ some (.number (.int ENVELOPE_VERSION)) →
      (fieldText? L (env.field? "v")).isSome = true) ∧
    (env.field? "v" = some (.number (.int ENVELOPE_VERSION)) →
      env.field? "kdf" ≠ some (.string KDF_ID) →
      (fieldText? L (env.field? "kdf")).isSome = true)

variable (L) in
/-- The parameters of the envelope are for one lane, and Argon2id takes them. -/
def Derivable (s passphrase : String) : Prop :=
  ∀ env e, L.jsonParse s = some env → Holds env e →
    e.p = .int 1 ∧ ∃ key, argon2id L passphrase e.salt e.m_kib e.t = .ok key

/-- A refusal: the documented error where its message can be written, else a `TypeError`. -/
structure Refuses {α : Type} (x : WrapResult α) (printable : Prop) : Prop where
  invalid : printable → ∃ message, x = .error (.crypto (.invalidFormat message))
  typeError : ¬printable → x = .error .typeError

theorem Refuses.of_invalid {α : Type} {x : WrapResult α} {printable : Prop} {message : String}
    (hx : x = .error (.crypto (.invalidFormat message))) (h : printable) : Refuses x printable := by
  constructor
  · intro _
    exact ⟨message, hx⟩
  · intro hn
    exact absurd h hn

theorem refuses_throwUnknown {α : Type} {label : String} {value : Option Json} {printable : Prop}
    (h : printable ↔ (fieldText? L value).isSome = true) (f : Unit → WrapResult α) :
    Refuses (throwUnknown L label value >>= f) printable := by
  unfold throwUnknown
  cases htext : fieldText? L value with
  | none =>
    rw [htext] at h
    constructor
    · intro hp
      cases h.mp hp
    · intro _
      rfl
  | some text =>
    rw [htext] at h
    exact Refuses.of_invalid rfl (h.mpr rfl)

theorem checkVersion_of_ne {env : Json}
    (h : env.field? "v" ≠ some (.number (.int ENVELOPE_VERSION))) :
    checkVersion L env = throwUnknown L "Unknown wrapped key version: " (env.field? "v") :=
  if_pos fun heq ↦ h (bind_asNumber?_eq_some.mp heq)

theorem checkKdf_of_ne {env : Json} (h : env.field? "kdf" ≠ some (.string KDF_ID)) :
    checkKdf L env = throwUnknown L "Unknown KDF: " (env.field? "kdf") :=
  if_pos fun heq ↦ h (bind_asString?_eq_some.mp heq)

theorem printable_iff {s : String} {env : Json} (hparse : L.jsonParse s = some env)
    (hrecord : env.isRecord = true) :
    Printable L s ↔
      (env.field? "v" ≠ some (.number (.int ENVELOPE_VERSION)) →
        (fieldText? L (env.field? "v")).isSome = true) ∧
      (env.field? "v" = some (.number (.int ENVELOPE_VERSION)) →
        env.field? "kdf" ≠ some (.string KDF_ID) →
        (fieldText? L (env.field? "kdf")).isSome = true) := by
  unfold Printable
  rw [hparse]
  constructor
  · intro hall
    exact hall env rfl hrecord
  · rintro hall _ ⟨⟩ _
    exact hall

/-- An object that is no envelope. -/
theorem refuses_record {s : String} {env : Json} (hparse : L.jsonParse s = some env)
    (hrecord : env.isRecord = true) (h : ∀ e, ¬Holds env e) :
    Refuses (do checkVersion L env; checkKdf L env; (readEnvelope env).toWrap)
      (Printable L s) := by
  rw [printable_iff hparse hrecord]
  by_cases hv : env.field? "v" = some (.number (.int ENVELOPE_VERSION))
  · have hversion : checkVersion L env = .ok () := checkVersion_eq_ok.mpr hv
    rw [hversion]
    by_cases hkdf : env.field? "kdf" = some (.string KDF_ID)
    · have hid : checkKdf L env = .ok () := checkKdf_eq_ok.mpr hkdf
      rw [hid]
      show Refuses (readEnvelope env).toWrap _
      cases hread : readEnvelope env with
      | ok e => exact absurd ((readEnvelope_eq_ok hrecord hv hkdf).mp hread) (h e)
      | error e =>
        obtain ⟨message, rfl⟩ := readEnvelope_onlyInvalid env e hread
        exact Refuses.of_invalid rfl ⟨fun hne ↦ absurd hv hne, fun _ hne ↦ absurd hkdf hne⟩
    · rw [checkKdf_of_ne hkdf]
      refine refuses_throwUnknown ⟨fun hall ↦ hall.2 hv hkdf, fun hsome ↦ ?_⟩ _
      exact ⟨fun hne ↦ absurd hv hne, fun _ _ ↦ hsome⟩
  · rw [checkVersion_of_ne hv]
    refine refuses_throwUnknown ⟨fun hall ↦ hall.1 hv, fun hsome ↦ ?_⟩ _
    exact ⟨fun _ ↦ hsome, fun heq ↦ absurd heq hv⟩

/-- A text that is no envelope is refused. -/
theorem refuses_parseEnvelope {s : String}
    (h : ∀ env e, L.jsonParse s = some env → ¬Holds env e) :
    Refuses (parseEnvelope L s) (Printable L s) := by
  have hother (hno : ∀ env, L.jsonParse s = some env → ¬env.isRecord = true) : Printable L s :=
    fun env henv hrecord ↦ absurd hrecord (hno env henv)
  unfold parseEnvelope
  cases hparse : L.jsonParse s with
  | none =>
    refine Refuses.of_invalid rfl (hother fun env henv ↦ ?_)
    rw [hparse] at henv
    cases henv
  | some env =>
    by_cases hrecord : env.isRecord = true
    · dsimp only
      rw [if_pos hrecord]
      exact refuses_record hparse hrecord fun e ↦ h env e hparse
    · dsimp only
      rw [if_neg hrecord]
      refine Refuses.of_invalid rfl (hother fun env' henv' ↦ ?_)
      rw [hparse] at henv'
      obtain rfl := Option.some.inj henv'
      exact hrecord

variable (L) in
/-- What callers may rely on: an error that is thrown is a documented one, and it is an
`InvalidFormatError` where the text is no envelope or Argon2id refuses its parameters. -/
structure KeepsVocabulary (s passphrase : String) : Prop where
  documented : ∀ e, unwrapPrivateKey L s passphrase = .error e → e.Documented
  malformed : (∀ env e, L.jsonParse s = some env → ¬Holds env e) →
    ∃ message, unwrapPrivateKey L s passphrase = .error (.crypto (.invalidFormat message))
  refused : ∀ env e, L.jsonParse s = some env → Holds env e →
    ¬(e.p = .int 1 ∧ ∃ key, argon2id L passphrase e.salt e.m_kib e.t = .ok key) →
    ∃ message, unwrapPrivateKey L s passphrase = .error (.crypto (.invalidFormat message))

/-- Parameters that Argon2id refuses make a plain `Error`. -/
theorem deriveWrapKey_refused {passphrase : String} {salt : List UInt8} {mKib t p : JsNumber}
    (h : ¬(p = .int 1 ∧ ∃ key, argon2id L passphrase salt mKib t = .ok key)) :
    ∃ message, deriveWrapKey L passphrase salt mKib t p = .error (.crypto (.error message)) := by
  by_cases hp : p = .int 1
  · subst hp
    rw [deriveWrapKey_one]
    cases hkey : argon2id L passphrase salt mKib t with
    | ok key => exact absurd ⟨rfl, key, hkey⟩ h
    | error message => exact ⟨message, rfl⟩
  · exact ⟨_, deriveWrapKey_of_ne hp⟩

theorem documented_decryptRaw {key iv ct : List UInt8} {err : WrapError}
    (h : decryptRaw L key iv ct = .error err) : err.Documented := by
  unfold decryptRaw at h
  split at h
  · cases h
    trivial
  · split at h
    · cases h
      trivial
    · cases h

theorem documented_importPair {raw pub : List UInt8} {err : WrapError}
    (h : importPair L raw pub = .error err) : err.Documented := by
  unfold importPair at h
  split at h
  · cases h
  · cases h
    trivial

/-- After the key is derived, what fails is the passphrase or the decryption. -/
theorem documented_of_derived (hL : L.Lawful) {e : ParsedEnvelope} {passphrase s : String}
    {key : List UInt8} (he : parseEnvelope L s = .ok e) (hp : e.p = .int 1)
    (hkey : argon2id L passphrase e.salt e.m_kib e.t = .ok key) {err : WrapError}
    (herr : unwrapPrivateKey L s passphrase = .error err) : err.Documented := by
  have hlen := (parseEnvelope_eq_ok.mp he).choose_spec.2.length_pub
  have hderive := deriveWrapKey_eq_ok.mpr ⟨hp, hkey⟩
  unfold unwrapPrivateKey at herr
  rcases Except.bind_eq_error.mp herr with h | ⟨e', he', herr⟩
  · rw [he] at h
    cases h
  obtain rfl := Except.ok.inj (he.symm.trans he')
  rcases Except.bind_eq_error.mp herr with h | ⟨key', hkey', herr⟩
  · rw [hderive] at h
    cases h
  obtain rfl := Except.ok.inj (hderive.symm.trans hkey')
  rcases Except.bind_eq_error.mp herr with h | ⟨wrapKey, -, herr⟩
  · rw [importWrapKey_eq (hL.argon2id_length hkey)] at h
    cases h
  rcases Except.bind_eq_error.mp herr with h | ⟨raw, -, herr⟩
  · exact documented_decryptRaw h
  rcases Except.bind_eq_error.mp herr with h | ⟨pair, -, herr⟩
  · exact documented_importPair h
  rcases Except.bind_eq_error.mp herr with h | ⟨string, -, herr⟩
  · rw [Result.toWrap, encodePubkey, throwIf_neg _ (not_not.mpr hlen)] at h
    cases h
  · cases herr

/-- The vocabulary is kept iff nothing unprintable gets into an error message and the key
derivation accepts the parameters. -/
theorem keepsVocabulary_iff (hL : L.Lawful) (s passphrase : String) :
    KeepsVocabulary L s passphrase ↔ Printable L s ∧ Derivable L s passphrase := by
  by_cases hholds : ∃ env e, L.jsonParse s = some env ∧ Holds env e
  · obtain ⟨env, e, hparse, he⟩ := hholds
    have hok : parseEnvelope L s = .ok e := parseEnvelope_eq_ok.mpr ⟨env, hparse, he⟩
    have hprint : Printable L s := (printable_iff hparse he.record).mpr
      ⟨fun hne ↦ absurd he.v hne, fun _ hne ↦ absurd he.kdf hne⟩
    have hunique : ∀ env' e', L.jsonParse s = some env' → Holds env' e' → e' = e := by
      intro env' e' hparse' he'
      have hok' : parseEnvelope L s = .ok e' := parseEnvelope_eq_ok.mpr ⟨env', hparse', he'⟩
      exact Except.ok.inj (hok'.symm.trans hok)
    by_cases hderive : e.p = .int 1 ∧ ∃ key, argon2id L passphrase e.salt e.m_kib e.t = .ok key
    · refine iff_of_true ⟨?_, ?_, ?_⟩ ⟨hprint, ?_⟩
      · intro err herr
        exact documented_of_derived hL hok hderive.1 hderive.2.choose_spec herr
      · intro hno
        exact absurd he (hno env e hparse)
      · intro env' e' hparse' he' hrefused
        rw [hunique env' e' hparse' he'] at hrefused
        exact absurd hderive hrefused
      · intro env' e' hparse' he'
        rw [hunique env' e' hparse' he']
        exact hderive
    · refine iff_of_false ?_ fun h ↦ hderive (h.2 env e hparse he)
      intro hkeeps
      obtain ⟨message, hmessage⟩ := deriveWrapKey_refused hderive
      obtain ⟨message', hinvalid⟩ := hkeeps.refused env e hparse he hderive
      unfold unwrapPrivateKey at hinvalid
      rw [hok] at hinvalid
      change (deriveWrapKey L passphrase e.salt e.m_kib e.t e.p >>= _) = _ at hinvalid
      rw [hmessage] at hinvalid
      cases hinvalid
  · have hno : ∀ env e, L.jsonParse s = some env → ¬Holds env e :=
      fun env e hparse he ↦ hholds ⟨env, e, hparse, he⟩
    have hrefuses := refuses_parseEnvelope hno
    have hderive : Derivable L s passphrase := fun env e hparse he ↦ absurd he (hno env e hparse)
    rw [and_iff_left hderive]
    by_cases hprint : Printable L s
    · obtain ⟨message, hmessage⟩ := hrefuses.invalid hprint
      have hunwrap : unwrapPrivateKey L s passphrase =
          .error (.crypto (.invalidFormat message)) := by
        unfold unwrapPrivateKey
        rw [hmessage]
        rfl
      refine iff_of_true ⟨?_, fun _ ↦ ⟨message, hunwrap⟩, ?_⟩ hprint
      · intro err herr
        rw [hunwrap] at herr
        cases herr
        trivial
      · intro env e hparse he
        exact absurd he (hno env e hparse)
    · refine iff_of_false ?_ hprint
      intro hkeeps
      have hunwrap : unwrapPrivateKey L s passphrase = .error .typeError := by
        unfold unwrapPrivateKey
        rw [hrefuses.typeError hprint]
        rfl
      exact hkeeps.documented _ hunwrap

end

theorem keepsVocabulary_plain :
    KeepsVocabulary WrapRuntime.plain (sampleSealed 3 1 1).text "pw" := by
  refine (keepsVocabulary_iff WrapRuntime.plain_lawful _ _).mpr ⟨?_, ?_⟩
  · have hholds := holds_sample 3 1 1
    exact (printable_iff (WrapRuntime.jsonParse_plain _) hholds.record).mpr
      ⟨fun hne ↦ absurd hholds.v hne, fun _ hne ↦ absurd hholds.kdf hne⟩
  · intro env e hparse he
    rw [WrapRuntime.jsonParse_plain] at hparse
    obtain rfl := Option.some.inj hparse
    have hp := Option.some.inj (he.p.symm.trans (holds_sample 3 1 1).p)
    have hm := Option.some.inj (he.m_kib.symm.trans (holds_sample 3 1 1).m_kib)
    have ht := Option.some.inj (he.t.symm.trans (holds_sample 3 1 1).t)
    rw [Json.number.inj hp, Json.number.inj hm, Json.number.inj ht]
    exact ⟨rfl, sampleKey, argon2id_sample _ (by decide) (by decide)⟩

/-- Zero passes, which Argon2id refuses with a plain error. -/
theorem zero_passes : ¬∀ (H : Hpke) (L : WrapRuntime H), L.Lawful → ∀ s passphrase,
    KeepsVocabulary L s passphrase := by
  intro hall
  have hkeeps := hall _ _ WrapRuntime.plain_lawful (sampleSealed 0 1 1).text "pw"
  have hderive := ((keepsVocabulary_iff WrapRuntime.plain_lawful _ _).mp hkeeps).2 _ _
    (WrapRuntime.jsonParse_plain _) (holds_sample 0 1 1)
  obtain ⟨-, key, hkey⟩ := hderive
  cases hkey

end Aesmsg.Crypto
