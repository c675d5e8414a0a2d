import Aesmsg.Crypto.Seal
import Aesmsg.Lib.Json
import Mathlib.Logic.Function.Basic

/-!
# Wrapping a private key

`packages/crypto/src/wrap.ts`, and `deriveArgon2id` of `argon2.ts`.  The envelope is a JSON object
with the salt, the nonce and the sealed private key, and the public key and the Argon2id parameters
in the clear: the cipher is called without associated data.

JSON texts, the two Argon2id libraries, AES-GCM of the Web Crypto API and the raw form of an X25519
private key are outside the repository.  `WrapRuntime` has the operations; `WrapRuntime.Lawful`
states what the code relies on:

* `JSON.parse` reads what `JSON.stringify` writes for an envelope;
* Argon2id takes positive integers and returns as many bytes as it is asked for;
* AES-GCM accepts exactly what was encrypted under the key and the nonce, and adds a tag;
* importing and exporting a raw private key are inverse, and it has 32 bytes.
-/

namespace Aesmsg.Crypto

def ENVELOPE_VERSION : Int := 1

def KDF_ID : String := "argon2id-aes256gcm"

def SALT_LEN : Nat := 16

def IV_LEN : Nat := 12

def RAW_X25519_PRIVKEY_LEN : Nat := 32

def WRAP_TAG_LEN : Nat := 16

def CT_LEN : Nat := RAW_X25519_PRIVKEY_LEN + WRAP_TAG_LEN

def WRAP_KEY_LEN : Nat := 32

structure WrapKdfParams where
  mKib : JsNumber
  t : JsNumber
  p : JsNumber
deriving DecidableEq, Repr

def DEFAULT_WRAP_KDF_PARAMS : WrapKdfParams := ⟨.int 65536, .int 3, .int 1⟩

structure Envelope where
  v : JsNumber
  kdf : String
  m_kib : JsNumber
  t : JsNumber
  p : JsNumber
  salt : String
  iv : String
  ct : String
  pub : String
deriving DecidableEq, Repr

/-- The object literal. -/
def Envelope.toJson (e : Envelope) : Json :=
  .object [("v", .number e.v), ("kdf", .string e.kdf), ("m_kib", .number e.m_kib),
    ("t", .number e.t), ("p", .number e.p), ("salt", .string e.salt), ("iv", .string e.iv),
    ("ct", .string e.ct), ("pub", .string e.pub)]

/-- The envelope that `wrapPrivateKey` fills. -/
def envelopeOf (params : WrapKdfParams) (salt iv ct rawPub : List UInt8) : Envelope where
  v := .int ENVELOPE_VERSION
  kdf := KDF_ID
  m_kib := params.mKib
  t := params.t
  p := params.p
  salt := base64urlEncode salt
  iv := base64urlEncode iv
  ct := base64urlEncode ct
  pub := base64urlEncode rawPub

/-- What `wrap.ts` and `argon2.ts` call outside the repository. -/
structure WrapRuntime (H : Hpke) where
  /-- None where it throws. -/
  jsonParse : String → Option Json
  jsonStringify : Envelope → String
  /-- `String(x)` of a number. -/
  numberText : JsNumber → String
  /-- Whether the runtime has `WebAssembly`. -/
  hasWebAssembly : Bool
  /-- The message where it throws. -/
  wasmArgon2id : (password : String) → (salt : List UInt8) →
    (parallelism iterations memorySize : JsNumber) → (hashLength : Nat) → Except String (List UInt8)
  nobleArgon2id : (password salt : List UInt8) → (t m p : JsNumber) → (dkLen : Nat) →
    Except String (List UInt8)
  aesEncrypt : (key iv plaintext : List UInt8) → List UInt8
  /-- None where it throws. -/
  aesDecrypt : (key iv ct : List UInt8) → Option (List UInt8)
  exportRawPrivateKey : H.PrivateKey → List UInt8
  importRawPrivateKey : List UInt8 → Result H.PrivateKey

/-- What an unwrapping throws. -/
inductive WrapError where
  | crypto (e : CryptoError)
  | badPassphrase
  /-- Of the JavaScript runtime. -/
  | typeError
deriving DecidableEq, Repr

abbrev WrapResult (α : Type) := Except WrapError α

/-- A part that throws the errors of the package. -/
def Result.toWrap {α : Type} (x : Result α) : WrapResult α := x.mapError .crypto

/-- An identity as `identity.ts` keeps it. -/
structure IdentityImpl (H : Hpke) where
  publicKey : H.PublicKey
  privateKey : H.PrivateKey
  publicKeyRaw : List UInt8
  publicKeyString : String

/-- The three forms of the public key are the same key. -/
structure IdentityImpl.Valid {H : Hpke} (id : IdentityImpl H) : Prop where
  length_raw : id.publicKeyRaw.length = RAW_X25519_PUBKEY_LEN
  import_raw : H.importRawPublicKey id.publicKeyRaw = .ok id.publicKey
  string : encodePubkey id.publicKeyRaw = .ok id.publicKeyString

/-- The public key is the X25519 public key of the private key. -/
def IdentityImpl.Consistent {H : Hpke} (id : IdentityImpl H) : Prop :=
  H.publicKeyRaw id.privateKey = id.publicKeyRaw

section

variable {H : Hpke} (L : WrapRuntime H)

/-! ## The wrap key -/

inductive Argon2Backend where
  | wasm
  | noble
deriving DecidableEq, Repr

def selectBackend : Argon2Backend := if L.hasWebAssembly then .wasm else .noble

def deriveArgon2id (passphrase : String) (salt : List UInt8) (mKib t p : JsNumber)
    (hashLength : Nat) : WrapResult (List UInt8) :=
  if p ≠ .int 1 then
    .error (.crypto (.error
      ("deriveArgon2id: parallelism (p) must be 1, got " ++ L.numberText p)))
  else
    let derived := match selectBackend L with
      | .noble => L.nobleArgon2id (TextEncoder.encode passphrase) salt t mKib p hashLength
      | .wasm => L.wasmArgon2id passphrase salt p t mKib hashLength
    derived.mapError fun message ↦ .crypto (.error message)

def deriveWrapKey (passphrase : String) (salt : List UInt8) (mKib t p : JsNumber) :
    WrapResult (List UInt8) := deriveArgon2id L passphrase salt mKib t p WRAP_KEY_LEN

/-- `crypto.subtle.importKey` for AES, which takes keys of 128, 192 and 256 bits. -/
def importWrapKey (raw : List UInt8) : WrapResult (List UInt8) :=
  if raw.length = 16 ∨ raw.length = 24 ∨ raw.length = 32 then .ok raw
  else .error (.crypto (.error "Invalid key length"))

/-! ## Wrapping -/

/-- The salt and the nonce are drawn at random. -/
def wrapPrivateKey (id : IdentityImpl H) (passphrase : String) (params : WrapKdfParams)
    (salt : { bs : List UInt8 // bs.length = SALT_LEN })
    (iv : { bs : List UInt8 // bs.length = IV_LEN }) : WrapResult String := do
  let rawPriv := L.exportRawPrivateKey id.privateKey
  let rawPub := id.publicKeyRaw
  let wrapKeyRaw ← deriveWrapKey L passphrase salt.val params.mKib params.t params.p
  let wrapKey ← importWrapKey wrapKeyRaw
  let ct := L.aesEncrypt wrapKey iv.val rawPriv
  return L.jsonStringify (envelopeOf params salt.val iv.val ct rawPub)

/-! ## Parsing -/

structure ParsedEnvelope where
  salt : List UInt8
  iv : List UInt8
  ct : List UInt8
  pub : List UInt8
  m_kib : JsNumber
  t : JsNumber
  p : JsNumber
deriving DecidableEq, Repr

/-- The text of a field in an error message, `undefined` where there is none. -/
def fieldText? (value : Option Json) : Option String :=
  match value with
  | none => some "undefined"
  | some value => value.text? L.numberText

/-- `throw new InvalidFormatError(label + String(value))`. -/
def throwUnknown (label : String) (value : Option Json) : WrapResult Unit :=
  match fieldText? L value with
  | some text => .error (.crypto (.invalidFormat (label ++ text)))
  | none => .error .typeError

def checkVersion (env : Json) : WrapResult Unit :=
  if (env.field? "v").bind Json.asNumber? ≠ some (.int ENVELOPE_VERSION) then
    throwUnknown L "Unknown wrapped key version: " (env.field? "v")
  else .ok ()

def checkKdf (env : Json) : WrapResult Unit :=
  if (env.field? "kdf").bind Json.asString? ≠ some KDF_ID then
    throwUnknown L "Unknown KDF: " (env.field? "kdf")
  else .ok ()

end

/-- The texts are decoded in one `try`. -/
def decodeField (s : String) : Result (List UInt8) :=
  match base64urlDecode s with
  | .ok bytes => .ok bytes
  | .error _ => .error (.invalidFormat "Envelope field is not valid base64url")

/-- The rest of `parseEnvelope`, which reads the fields after the version and the KDF. -/
def readEnvelope (env : Json) : Result ParsedEnvelope :=
  let number (name : String) : Option JsNumber := (env.field? name).bind Json.asNumber?
  let text (name : String) : Option String := (env.field? name).bind Json.asString?
  match number "m_kib", number "t", number "p" with
  | some m_kib, some t, some p =>
    match text "salt", text "iv", text "ct" with
    | some salt, some iv, some ct =>
      match text "pub" with
      | some pub => do
        let salt ← decodeField salt
        let iv ← decodeField iv
        let ct ← decodeField ct
        let pub ← decodeField pub
        throwIf (salt.length ≠ SALT_LEN)
          (.invalidFormat s!"Salt must be {SALT_LEN} bytes, got {salt.length}")
        throwIf (iv.length ≠ IV_LEN)
          (.invalidFormat s!"IV must be {IV_LEN} bytes, got {iv.length}")
        throwIf (ct.length ≠ CT_LEN)
          (.invalidFormat s!"Ciphertext must be {CT_LEN} bytes, got {ct.length}")
        throwIf (pub.length ≠ RAW_X25519_PUBKEY_LEN)
          (.invalidFormat s!"Public key must be {RAW_X25519_PUBKEY_LEN} bytes, got {pub.length}")
        return ⟨salt, iv, ct, pub, m_kib, t, p⟩
      | none => .error (.invalidFormat "Envelope field 'pub' missing or wrong type")
    | _, _, _ => .error (.invalidFormat
        "Required envelope fields (salt, iv, ct) missing or wrong type")
  | _, _, _ => .error (.invalidFormat "KDF parameters missing or wrong type")

section

variable {H : Hpke} (L : WrapRuntime H)

def parseEnvelope (s : String) : WrapResult ParsedEnvelope :=
  match L.jsonParse s with
  | none => .error (.crypto (.invalidFormat "Wrapped key is not valid JSON"))
  | some env =>
    if env.isRecord then do
      checkVersion L env
      checkKdf L env
      (readEnvelope env).toWrap
    else .error (.crypto (.invalidFormat "Wrapped key envelope must be an object"))

/-! ## Unwrapping -/

/-- The decryption, whose every failure is a wrong passphrase. -/
def decryptRaw (wrapKey iv ct : List UInt8) : WrapResult (List UInt8) :=
  match L.aesDecrypt wrapKey iv ct with
  | none => .error .badPassphrase
  | some rawPriv =>
    if rawPriv.length ≠ RAW_X25519_PRIVKEY_LEN then .error (.crypto decryptionError)
    else .ok rawPriv

/-- The imports, in one `try`. -/
def importPair (rawPriv pub : List UInt8) : WrapResult (H.PrivateKey × H.PublicKey) :=
  match L.importRawPrivateKey rawPriv, H.importRawPublicKey pub with
  | .ok privateKey, .ok publicKey => .ok (privateKey, publicKey)
  | _, _ => .error (.crypto decryptionError)

def unwrapPrivateKey (wrapped passphrase : String) : WrapResult (IdentityImpl H) := do
  let parsed ← parseEnvelope L wrapped
  let wrapKeyRaw ← deriveWrapKey L passphrase parsed.salt parsed.m_kib parsed.t parsed.p
  let wrapKey ← importWrapKey wrapKeyRaw
  let rawPriv ← decryptRaw L wrapKey parsed.iv parsed.ct
  let (privateKey, publicKey) ← importPair L rawPriv parsed.pub
  let publicKeyString ← (encodePubkey parsed.pub).toWrap
  return ⟨publicKey, privateKey, parsed.pub, publicKeyString⟩

end

/-! ## What the code relies on -/

structure WrapRuntime.Lawful {H : Hpke} (L : WrapRuntime H) : Prop where
  parse_stringify (m t : Nat) (salt iv ct pub : List UInt8) :
    L.jsonParse (L.jsonStringify (envelopeOf ⟨.int m, .int t, .int 1⟩ salt iv ct pub)) =
      some (envelopeOf ⟨.int m, .int t, .int 1⟩ salt iv ct pub).toJson
  wasm_length {password : String} {salt key : List UInt8} {p t m : JsNumber} {len : Nat} :
    L.wasmArgon2id password salt p t m len = .ok key → key.length = len
  noble_length {password salt key : List UInt8} {p t m : JsNumber} {len : Nat} :
    L.nobleArgon2id password salt t m p len = .ok key → key.length = len
  wasm_integer {password : String} {salt key : List UInt8} {p t m : JsNumber} {len : Nat} :
    L.wasmArgon2id password salt p t m len = .ok key → ∃ t' m' : Nat, t = .int t' ∧ m = .int m'
  noble_integer {password salt key : List UInt8} {p t m : JsNumber} {len : Nat} :
    L.nobleArgon2id password salt t m p len = .ok key → ∃ t' m' : Nat, t = .int t' ∧ m = .int m'
  decrypt_eq_some {key iv ct plaintext : List UInt8} :
    L.aesDecrypt key iv ct = some plaintext ↔ ct = L.aesEncrypt key iv plaintext
  length_encrypt (key iv plaintext : List UInt8) :
    (L.aesEncrypt key iv plaintext).length = plaintext.length + WRAP_TAG_LEN
  import_export {raw : List UInt8} {sk : H.PrivateKey} :
    L.importRawPrivateKey raw = .ok sk ↔ L.exportRawPrivateKey sk = raw
  length_export (sk : H.PrivateKey) : (L.exportRawPrivateKey sk).length = RAW_X25519_PRIVKEY_LEN

/-! ## A runtime without secrecy

The private keys are their public keys, and what is sealed shows the start of its key.  The texts
are the JSON texts of envelopes. -/

/-- A text in quotes, where nothing has to be escaped. -/
def quoted (s : String) : List Char := '"' :: (s.toList ++ ['"'])

def field (name : String) (value : List Char) : List Char := quoted name ++ ':' :: value

def integerText : JsNumber → List Char
  | .int n => (toString n).toList
  | .nonInteger => ['0', '.', '5']

def Envelope.text (e : Envelope) : List Char :=
  '{' :: (field "v" (integerText e.v) ++ ',' :: (field "kdf" (quoted e.kdf) ++
    ',' :: (field "m_kib" (integerText e.m_kib) ++ ',' :: (field "t" (integerText e.t) ++
    ',' :: (field "p" (integerText e.p) ++ ',' :: (field "salt" (quoted e.salt) ++
    ',' :: (field "iv" (quoted e.iv) ++ ',' :: (field "ct" (quoted e.ct) ++
    ',' :: (field "pub" (quoted e.pub) ++ ['}'])))))))))

/-- What an envelope for one lane says. -/
structure Sealed where
  m : Nat
  t : Nat
  salt : List UInt8
  iv : List UInt8
  ct : List UInt8
  pub : List UInt8

def Sealed.envelope (x : Sealed) : Envelope :=
  envelopeOf ⟨.int x.m, .int x.t, .int 1⟩ x.salt x.iv x.ct x.pub

def Sealed.text (x : Sealed) : String := String.ofList x.envelope.text

/-- A part without the separator ends at the first one. -/
theorem append_cons_inj {c : Char} {x y rest rest' : List Char} (hx : c ∉ x) (hy : c ∉ y) :
    x ++ c :: rest = y ++ c :: rest' ↔ x = y ∧ rest = rest' := by
  constructor
  · intro h
    induction x generalizing y with
    | nil =>
      cases y with
      | nil => exact ⟨rfl, (List.cons.inj h).2⟩
      | cons b y => exact absurd (List.cons.inj h).1 (List.ne_of_not_mem_cons hy)
    | cons a x ih =>
      cases y with
      | nil => exact absurd (List.cons.inj h).1.symm (List.ne_of_not_mem_cons hx)
      | cons b y =>
        obtain ⟨rfl, htail⟩ := List.cons.inj h
        obtain ⟨rfl, hrest⟩ := ih (List.not_mem_of_not_mem_cons hx)
          (List.not_mem_of_not_mem_cons hy) htail
        exact ⟨rfl, hrest⟩
  · rintro ⟨rfl, rfl⟩
    rfl

theorem integerText_inj {m m' : Nat} (h : integerText (.int m) = integerText (.int m')) :
    m = m' := by
  have hdigits (n : Nat) : integerText (.int n) = Nat.toDigits 10 n := Nat.toList_repr
  rw [hdigits, hdigits] at h
  rw [← Nat.ofDigitChars_ten_toDigits (n := m), h, Nat.ofDigitChars_ten_toDigits]

theorem comma_not_mem_integerText (n : Nat) : ',' ∉ integerText (.int n) := by
  intro h
  have hmem : ',' ∈ Nat.toDigits 10 n := by
    rw [← Nat.toList_repr]
    exact h
  exact absurd (Nat.isDigit_of_mem_toDigits (by decide) (by decide) hmem) (by decide)

theorem base64urlEncode_inj {bs bs' : List UInt8}
    (h : (base64urlEncode bs).toList = (base64urlEncode bs').toList) : bs = bs' := by
  have hdecode := base64urlDecode_encode bs
  rw [String.toList_inj.mp h, base64urlDecode_encode] at hdecode
  exact (Except.ok.inj hdecode).symm

theorem quote_not_mem_base64urlEncode (bs : List UInt8) : '"' ∉ (base64urlEncode bs).toList := by
  rw [base64urlEncode, String.toList_ofList, Base64.encodeLoop_eq]
  intro h
  have hmem := BASE64URL_ALPHABET.mem_of_mem_text h
  exact absurd hmem (by decide)

/-- An integer ends at the comma after it. -/
theorem integerText_append_inj {m m' : Nat} {rest rest' : List Char} :
    integerText (.int m) ++ ',' :: rest = integerText (.int m') ++ ',' :: rest' ↔
      m = m' ∧ rest = rest' := by
  rw [append_cons_inj (comma_not_mem_integerText m) (comma_not_mem_integerText m')]
  constructor
  · rintro ⟨h, hrest⟩
    exact ⟨integerText_inj h, hrest⟩
  · rintro ⟨rfl, rfl⟩
    exact ⟨rfl, rfl⟩

/-- A text ends at the quote after it. -/
theorem base64urlEncode_append_inj {bs bs' : List UInt8} {rest rest' : List Char} :
    (base64urlEncode bs).toList ++ '"' :: rest = (base64urlEncode bs').toList ++ '"' :: rest' ↔
      bs = bs' ∧ rest = rest' := by
  rw [append_cons_inj (quote_not_mem_base64urlEncode bs) (quote_not_mem_base64urlEncode bs')]
  constructor
  · rintro ⟨h, hrest⟩
    exact ⟨base64urlEncode_inj h, hrest⟩
  · rintro ⟨rfl, rfl⟩
    exact ⟨rfl, rfl⟩

theorem Sealed.text_injective : Function.Injective Sealed.text := by
  intro x x' h
  have htext := String.ofList_injective h
  simp only [Sealed.envelope, envelopeOf, Envelope.text, field, quoted, List.cons_append,
    List.append_assoc, List.cons.injEq, true_and, List.append_cancel_left_eq, List.nil_append,
    integerText_append_inj, base64urlEncode_append_inj] at htext
  obtain ⟨hm, ht, hsalt, hiv, hct, hpub, -⟩ := htext
  cases x
  cases x'
  cases hm
  cases ht
  cases hsalt
  cases hiv
  cases hct
  cases hpub
  rfl

/-- Keys of 32 bytes; the public key of a private key is the same bytes. -/
def Hpke.fixed : Hpke where
  PublicKey := List UInt8
  PrivateKey := { bs : List UInt8 // bs.length = RAW_X25519_PRIVKEY_LEN }
  Seed := Unit
  importRawPublicKey raw := .ok raw
  exportRawPublicKey pk := pk
  sha256 raw := raw
  publicKeyRaw sk := sk.val
  sealHpke pk plaintext aad _ := .ok (pk, aad ++ plaintext)
  openHpke sk enc aeadOutput aad :=
    if enc = sk.val then afterPrefix aad aeadOutput else none

/-- The first `n` bytes, filled up with zeros. -/
def firstBytes (n : Nat) (bs : List UInt8) : List UInt8 := (bs ++ List.replicate n 0).take n

theorem length_firstBytes (n : Nat) (bs : List UInt8) : (firstBytes n bs).length = n := by
  rw [firstBytes, List.length_take, List.length_append, List.length_replicate]
  omega

/-- Argon2id takes at least one pass over at least 8 KiB. -/
def plainArgon2id (password : List UInt8) (t m : JsNumber) (len : Nat) :
    Except String (List UInt8) :=
  match t, m with
  | .int (.ofNat t), .int (.ofNat m) =>
    if t < 1 then .error "Iterations should be a positive number"
    else if m < 8 then .error "Memory size should be at least 8 * parallelism."
    else .ok (firstBytes len password)
  | _, _ => .error "Memory size should be specified."

noncomputable def WrapRuntime.plain : WrapRuntime Hpke.fixed where
  jsonParse s := (Function.partialInv Sealed.text s).map fun x ↦ x.envelope.toJson
  jsonStringify e := String.ofList e.text
  numberText x := String.ofList (integerText x)
  hasWebAssembly := true
  wasmArgon2id password _ _ iterations memorySize hashLength :=
    plainArgon2id (TextEncoder.encode password) iterations memorySize hashLength
  nobleArgon2id password _ t m _ dkLen := plainArgon2id password t m dkLen
  aesEncrypt key _ plaintext := firstBytes WRAP_TAG_LEN key ++ plaintext
  aesDecrypt key _ ct := afterPrefix (firstBytes WRAP_TAG_LEN key) ct
  exportRawPrivateKey sk := sk.val
  importRawPrivateKey raw :=
    if h : raw.length = RAW_X25519_PRIVKEY_LEN then .ok ⟨raw, h⟩ else .error .rangeError

theorem length_plainArgon2id {password key : List UInt8} {t m : JsNumber} {len : Nat}
    (h : plainArgon2id password t m len = .ok key) :
    key.length = len ∧ ∃ t' m' : Nat, t = .int t' ∧ m = .int m' := by
  unfold plainArgon2id at h
  split at h
  · rename_i t' m'
    split at h
    · cases h
    split at h
    · cases h
    · rw [← Except.ok.inj h]
      exact ⟨length_firstBytes len password, t', m', rfl, rfl⟩
  · cases h

theorem WrapRuntime.jsonParse_plain (x : Sealed) :
    WrapRuntime.plain.jsonParse x.text = some x.envelope.toJson := by
  show (Function.partialInv Sealed.text x.text).map _ = _
  rw [Function.partialInv_left Sealed.text_injective]
  rfl

theorem WrapRuntime.plain_lawful : WrapRuntime.plain.Lawful where
  parse_stringify m t salt iv ct pub := jsonParse_plain ⟨m, t, salt, iv, ct, pub⟩
  wasm_length h := (length_plainArgon2id h).1
  noble_length h := (length_plainArgon2id h).1
  wasm_integer h := (length_plainArgon2id h).2
  noble_integer h := (length_plainArgon2id h).2
  decrypt_eq_some := afterPrefix_eq_some_iff
  length_encrypt key iv plaintext := by
    show (firstBytes WRAP_TAG_LEN key ++ plaintext).length = _
    rw [List.length_append, length_firstBytes, Nat.add_comm]
  import_export {raw} {sk} := by
    obtain ⟨bs, hbs⟩ := sk
    show (if h : raw.length = RAW_X25519_PRIVKEY_LEN then
      (.ok ⟨raw, h⟩ : Result Hpke.fixed.PrivateKey) else .error .rangeError) = _ ↔ bs = raw
    constructor
    · intro h
      split at h
      · exact (congrArg Subtype.val (Except.ok.inj h)).symm
      · cases h
    · rintro rfl
      exact dif_pos hbs
  length_export sk := sk.property

end Aesmsg.Crypto
