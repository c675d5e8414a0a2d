import Aesmsg.Api.Create
import Aesmsg.Client.CreateAndSeal
import Aesmsg.Crypto.Lengths
import Aesmsg.Lib.Trim

/-!
# The composer

What `apps/mobile/src/create/ComposeScreen.tsx` lets through and hands to `createAndSeal`, with the
tiers of `apps/mobile/src/pro/entitlements.ts`, and the request as the create handler measures it.

## Main results

- `submission_fits_iff`: a submission fits the server exactly when its envelope has at most
  `MAX_ENVELOPE_BYTES` bytes, its names are short enough and the provider seals to its key.
- `long_text_rejected`: nothing in the composer keeps a text below that.
-/

namespace Aesmsg.Client

open Crypto Api

/-! ## Entitlements -/

def FREE_ATTACHMENT_BYTES : Nat := 10 * 1024 * 1024

def PRO_ATTACHMENT_BYTES : Nat := 25 * 1024 * 1024

/-- The picker takes no larger attachment. -/
def maxAttachmentBytes (isPro : Bool) : Nat :=
  if isPro then PRO_ATTACHMENT_BYTES else FREE_ATTACHMENT_BYTES

/-! ## The screen -/

inductive MaxOpensChoice where
  | once
  | five
  | ten
  | unlimited

def MaxOpensChoice.value : MaxOpensChoice → Int
  | once => 1
  | five => 5
  | ten => 10
  | unlimited => -1

/-- The state of the screen. -/
structure Compose where
  message : String
  recipientKey : String
  attachment : Option PayloadAttachment
  /-- The custom instant, or what `expiryToDate` makes of the choice. -/
  expiresAt : Calendar.Date
  maxOpens : MaxOpensChoice
  busy : Bool

def trim (s : String) : String := String.ofList (Trim.trim (Trim.isSpace ·.toNat) s.toList)

/-- The effect that validates the key: `fp` and `keyError`. -/
def checkKey (H : Hpke) (recipientKey : String) : Option String × Bool :=
  let trimmed := trim recipientKey
  if trimmed = "" then (none, false)
  else
    let shown := do
      let _ ← importPublicKey H trimmed
      let f ← fingerprint H trimmed
      truncateFingerprint f 8
    match shown with
    | .ok fp => (some fp, false)
    | .error _ => (none, true)

namespace Compose

def canSend (H : Hpke) (c : Compose) : Bool :=
  let (fp, keyError) := checkKey H c.recipientKey
  (trim c.message ≠ "" || c.attachment.isSome) && fp.isSome && !keyError && !c.busy

/-- What `submit` hands over. -/
def input (c : Compose) : CreateAndSealInput where
  recipientPublicKeyString := trim c.recipientKey
  message := c.message
  expiresAt := some c.expiresAt
  maxOpens := .int c.maxOpens.value
  attachment := c.attachment

/-- What the screen lets the user submit. -/
structure Submittable (H : Hpke) (isPro : Bool) (c : Compose) : Prop where
  canSend : c.canSend H = true
  attachment : ∀ att ∈ c.attachment, att.bytes.length ≤ maxAttachmentBytes isPro
  expiresAt : 0 < c.expiresAt.time

theorem imported_of_canSend {H : Hpke} {c : Compose} (h : c.canSend H = true) :
    ∃ recipient f, importPublicKey H (trim c.recipientKey) = .ok recipient ∧
      fingerprint H (trim c.recipientKey) = .ok f := by
  simp only [Compose.canSend, Bool.and_eq_true] at h
  obtain ⟨⟨⟨-, hfp⟩, -⟩, -⟩ := h
  unfold checkKey at hfp
  dsimp only at hfp
  split at hfp
  · cases hfp
  split at hfp
  · rename_i hshown
    simp only [Result.bind_eq_ok] at hshown
    obtain ⟨recipient, hrecipient, f, hf, -⟩ := hshown
    exact ⟨recipient, f, hrecipient, hf⟩
  · cases hfp

end Compose

/-! ## The request on the wire -/

/-- `JSON.stringify` of an integer that is written without an exponent. -/
def numberText : JsNumber → Option (List Char)
  | .int n => if n.natAbs < 10 ^ 21 then some (toString n).toList else none
  | .nonInteger => none

/-- A member of the text of an object. -/
def member (name : String) (value : List Char) : List Char := Json.quote name ++ ':' :: value

/-- The body that `postMessage` sends, all ASCII. -/
def CreateMessageRequest.text (request : CreateMessageRequest) : Option (List Char) := do
  let maxOpens ← numberText request.maxOpens
  return '{' :: (member "id" (Json.quote request.id) ++
    ',' :: (member "ciphertext" (Json.quote request.ciphertext) ++
    ',' :: (member "expiresAt" (Json.quote request.expiresAt) ++
    ',' :: (member "maxOpens" maxOpens ++ ['}']))))

/-- The sizes that the create handler checks. -/
structure CreateMessageRequest.Fits (request : CreateMessageRequest) : Prop where
  body : ∃ text, request.text = some text ∧ text.length ≤ MAX_BODY_BYTES
  blob : ∃ blob, decodeBase64 request.ciphertext = some blob ∧
    MIN_CIPHERTEXT_BYTES ≤ blob.length ∧ blob.length ≤ MAX_CIPHERTEXT_BYTES

/-- Everything around the ciphertext takes less than a kilobyte. -/
theorem length_text_le {request : CreateMessageRequest} {choice : MaxOpensChoice} {bytes : List UInt8}
    (hid : request.id.length = 16) (hciphertext : request.ciphertext = Base64.btoa bytes)
    (hexpires : request.expiresAt.length ≤ 27) (hopens : request.maxOpens = .int choice.value) :
    ∃ text, request.text = some text ∧ text.length ≤ (Base64.btoa bytes).length + 1000 := by
  have hvalue : ∃ digits, numberText (.int choice.value) = some digits ∧ digits.length ≤ 2 := by
    cases choice with
    | once | five | ten | unlimited => exact ⟨_, rfl, by decide⟩
  obtain ⟨digits, hdigits, hshort⟩ := hvalue
  have hchars : ∀ c ∈ Base64.standard.chars, Json.escapeChar c = [c] :=
    Base64.forall_mem_chars (by decide)
  have hquote : (Json.quote request.ciphertext).length = (Base64.btoa bytes).length + 2 := by
    rw [hciphertext]
    refine Json.length_quote fun c hc ↦ ?_
    obtain ⟨k, -, htext, -⟩ := Base64.toList_btoa bytes
    rw [htext, List.mem_append] at hc
    rcases hc with hc | hc
    · exact hchars c (Base64.standard.mem_of_mem_text hc)
    · rw [List.eq_of_mem_replicate hc]
      rfl
  have hidq := Json.length_quote_le request.id
  have hexpq := Json.length_quote_le request.expiresAt
  have hmember : ∀ name value, (member name value).length ≤ 6 * name.length + 3 + value.length := by
    intro name value
    have := Json.length_quote_le name
    rw [member, List.length_append, List.length_cons]
    omega
  have h₁ := hmember "id" (Json.quote request.id)
  have h₂ := hmember "ciphertext" (Json.quote request.ciphertext)
  have h₃ := hmember "expiresAt" (Json.quote request.expiresAt)
  have h₄ := hmember "maxOpens" digits
  rw [show "id".length = 2 from rfl] at h₁
  rw [show "ciphertext".length = 10 from rfl] at h₂
  rw [show "expiresAt".length = 9 from rfl] at h₃
  rw [show "maxOpens".length = 8 from rfl] at h₄
  refine ⟨_, by rw [CreateMessageRequest.text, hopens, hdigits]; rfl, ?_⟩
  simp only [List.length_cons, List.length_append, List.length_nil]
  omega

/-! ## What fits -/

/-- 51 blocks of `2 ^ 19` bytes. -/
def MAX_ENVELOPE_BYTES : Nat := 26738688

/-- The names are short enough for the envelope and the envelope for the server. -/
structure Compose.Fitting (c : Compose) : Prop where
  names : ∀ att ∈ c.attachment, (TextEncoder.encode att.filename).length ≤ U16_MAX ∧
    (TextEncoder.encode att.mimetype).length ≤ U16_MAX
  envelope : envelopeLength c.input.payload ≤ MAX_ENVELOPE_BYTES

/-- The provider seals to the key of the recipient. -/
def Compose.Sealable (H : Hpke) (c : Compose) : Prop :=
  ∃ recipient, importPublicKey H (trim c.recipientKey) = .ok recipient ∧ H.Seals recipient.cryptoKey

namespace Compose

/-- The text and the content of the attachment are in the envelope. -/
theorem le_envelopeLength (c : Compose) :
    (TextEncoder.encode c.message).length + 11 ≤ envelopeLength c.input.payload ∧
      ∀ att ∈ c.attachment, att.bytes.length ≤ envelopeLength c.input.payload := by
  unfold envelopeLength PAD_LEN_FIELD_BYTES
  rw [foldl_size]
  refine ⟨?_, fun att hatt ↦ ?_⟩
  · show _ ≤ 1 + 4 + (TextEncoder.encode c.message).length + 2 + _ + 4
    omega
  · have hmem : toField att ∈ c.input.payload.attachments.map toField :=
      List.mem_map_of_mem (Option.mem_toList.mpr hatt)
    have hle := (List.sublist_flatten_of_mem (List.mem_map_of_mem (f := writeField) hmem)).length_le
    rw [length_writeField] at hle
    have hsize : att.bytes.length ≤ (toField att).size := Nat.le_add_left _ _
    rw [List.flatMap]
    omega

/-- The composer's payload is encoded iff its names fit, where its envelope does. -/
theorem encodable {c : Compose} (h : c.Fitting) : c.input.payload.Encodable := by
  have henvelope := h.envelope
  unfold MAX_ENVELOPE_BYTES at henvelope
  obtain ⟨htext, hcontent⟩ := c.le_envelopeLength
  have htext' : (TextEncoder.encode c.input.payload.text).length + 11 ≤
    envelopeLength c.input.payload := htext
  have hpadded := (targetPaddedLen_le_iff _).mpr henvelope
  refine ⟨?_, ?_, ?_, ?_⟩
  · unfold U32_MAX
    omega
  · show c.attachment.toList.length ≤ U16_MAX
    cases c.attachment with
    | none => exact Nat.zero_le _
    | some att => exact Nat.le_of_ble_eq_true rfl
  · intro att hatt
    have hatt : att ∈ c.attachment := Option.mem_toList.mp hatt
    refine ⟨(h.names att hatt).1, (h.names att hatt).2, ?_⟩
    have := hcontent att hatt
    show att.bytes.length ≤ U32_MAX
    unfold U32_MAX
    omega
  · unfold U32_MAX
    omega

/-- An envelope is encoded only from names that fit. -/
theorem names_of_encoded {c : Compose} {plaintext : List UInt8}
    (h : encodePayload c.input.payload = .ok plaintext) : ∀ att ∈ c.attachment,
      (TextEncoder.encode att.filename).length ≤ U16_MAX ∧
        (TextEncoder.encode att.mimetype).length ≤ U16_MAX := by
  obtain ⟨_, -, -, -, hfits, -⟩ := encodePayload_eq_ok h
  intro att hatt
  have hfield := hfits att (Option.mem_toList.mpr hatt)
  exact ⟨hfield.name, hfield.mime⟩

end Compose

/-- The context of a submission can be sealed under. -/
theorem fresh_context {H : Hpke} {isPro : Bool} {c : Compose} (h : c.Submittable H isPro)
    {random : List UInt8} (hrandom : random.length = 12) :
    (c.input.context (Mobile.generateLinkId random)).Fresh c.expiresAt.time c.maxOpens.value where
  createdAtMs := rfl
  expiresAtMs := rfl
  maxOpens := rfl
  future := by
    have hvalid := c.expiresAt.valid.2
    have hsafe : Calendar.maxTime ≤ JsNumber.MAX_SAFE_INTEGER := by decide
    exact ⟨h.expiresAt, hvalid.trans hsafe⟩
  positive := by
    cases c.maxOpens with
    | once | five | ten => exact .inl (by decide)
    | unlimited => exact .inr rfl
  linkId := by
    obtain ⟨hlen, hascii⟩ := Mobile.generateLinkId_ascii hrandom
    exact (Utf8.length_encode_of_ascii hascii).trans (String.length_toList.trans hlen)

/-- What the create handler measures of a request that was made from a plaintext. -/
theorem fits_iff {H : Hpke} (hH : H.Sized) {c : Compose} {random : List UInt8}
    (hrandom : random.length = 12) {seed : H.Seed} {request : CreateMessageRequest}
    (h : createAndSeal H c.input random seed = .ok request) :
    request.Fits ↔ envelopeLength c.input.payload ≤ MAX_ENVELOPE_BYTES := by
  obtain ⟨recipient, plaintext, ciphertext, expiresAt, hposts⟩ := createAndSeal_posts h
  have hid : request.id = Mobile.generateLinkId random := by
    simp only [createAndSeal, Result.bind_eq_ok] at h
    obtain ⟨_, -, _, -, _, -, _, -, hrequest⟩ := h
    rw [← Except.ok.inj hrequest]
  have hlen := length_seal hH hposts.isSealed
  rw [length_encodePayload hposts.encoded] at hlen
  have hblob : decodeBase64 request.ciphertext = some ciphertext := by
    rw [hposts.ciphertext, decodeBase64_btoa]
  have hoverhead : SEAL_OVERHEAD = 50 := rfl
  have hpadded := targetPaddedLen_le_iff (envelopeLength c.input.payload)
  have hmin := le_targetPaddedLen (envelopeLength c.input.payload)
  constructor
  · rintro ⟨-, blob, hblob', -, hmax⟩
    cases hblob.symm.trans hblob'
    unfold MAX_CIPHERTEXT_BYTES at hmax
    exact hpadded.mp (by omega)
  · intro hle
    have hlt := hpadded.mpr hle
    have hlen16 := (Mobile.generateLinkId_ascii hrandom).1
    obtain ⟨text, htext, hshort⟩ := length_text_le (hid ▸ hlen16) hposts.ciphertext
      (hposts.expiresAt ▸ Calendar.length_toISOString_le _) hposts.maxOpens
    have hbase := Base64.three_mul_length_btoa ciphertext
    refine ⟨⟨text, htext, ?_⟩, ciphertext, hblob, ?_, ?_⟩
    · unfold MAX_BODY_BYTES
      omega
    · unfold MIN_CIPHERTEXT_BYTES
      omega
    · unfold MAX_CIPHERTEXT_BYTES
      omega

/-- What has been sealed was sealed to a key that the provider seals to. -/
theorem sealable_of_posts {H : Hpke} (hkeys : H.SealsByKey) {c : Compose} {seed : H.Seed}
    {recipient : RecipientPublicKey H} {plaintext ciphertext : List UInt8}
    {context : MessageBindingContext}
    (himported : importPublicKey H c.input.recipientPublicKeyString = .ok recipient)
    (hsealed : «seal» H plaintext recipient context seed = .ok ciphertext) : c.Sealable H := by
  simp only [«seal», Result.bind_eq_ok] at hsealed
  obtain ⟨_, -, _, -, aad, -, sealed, hok, -⟩ := hsealed
  exact ⟨recipient, himported, hkeys _ _ _ _ _ hok⟩

/-- A submission is created and fits the server exactly when its names fit the envelope, its envelope
has at most `MAX_ENVELOPE_BYTES` bytes and the provider seals to its key. -/
theorem submission_fits_iff {H : Hpke} (hH : H.Sized) (hkeys : H.SealsByKey) {isPro : Bool}
    {c : Compose} (h : c.Submittable H isPro) {random : List UInt8} (hrandom : random.length = 12)
    (seed : H.Seed) :
    (∃ request, createAndSeal H c.input random seed = .ok request ∧ request.Fits) ↔
      c.Fitting ∧ c.Sealable H := by
  constructor
  · rintro ⟨request, hrequest, hfits⟩
    obtain ⟨recipient, plaintext, ciphertext, expiresAt, hposts⟩ := createAndSeal_posts hrequest
    exact ⟨⟨Compose.names_of_encoded hposts.encoded, (fits_iff hH hrandom hrequest).mp hfits⟩,
      sealable_of_posts hkeys hposts.imported hposts.isSealed⟩
  · rintro ⟨hfitting, recipient, hrecipient, hseals⟩
    obtain ⟨-, f, -, hf⟩ := Compose.imported_of_canSend h.canSend
    obtain ⟨plaintext, hplaintext⟩ := encodePayload_ok (Compose.encodable hfitting)
    obtain ⟨ciphertext, hciphertext⟩ :=
      seal_ok hH (fresh_context h hrandom) hrecipient hseals plaintext seed
    have hrequest : ∃ request, createAndSeal H c.input random seed = .ok request := by
      have hrecipient' : importPublicKey H c.input.recipientPublicKeyString = .ok recipient := hrecipient
      have hf' : fingerprint H c.input.recipientPublicKeyString = .ok f := hf
      unfold createAndSeal
      simp only [hrecipient', hf', hplaintext, hciphertext, Result.ok_bind]
      exact ⟨_, rfl⟩
    obtain ⟨request, hrequest⟩ := hrequest
    exact ⟨request, hrequest, (fits_iff hH hrandom hrequest).mpr hfitting.envelope⟩

def sampleKey : String := "amk1:AQGFIPAJiTCnVHSLfdy0PvdaDb86DSY4GvTrpKmOqptOag"

theorem checkKey_sampleKey : (checkKey plainHpke sampleKey).1.isSome = true ∧
    (checkKey plainHpke sampleKey).2 = false := by decide +kernel

/-- A text without attachments, for one open. -/
def Compose.ofText (message : String) : Compose where
  message := message
  recipientKey := sampleKey
  attachment := none
  expiresAt := ⟨1700000000000, by decide⟩
  maxOpens := .once
  busy := false

theorem Compose.submittable_ofText {message : String} (h : trim message ≠ "") (isPro : Bool) :
    (Compose.ofText message).Submittable plainHpke isPro where
  canSend := by
    simp [Compose.canSend, Compose.ofText, checkKey_sampleKey, h]
  attachment := by rintro att ⟨⟩
  expiresAt := show (0 : Int) < 1700000000000 by decide

theorem importPublicKey_sampleKey : (importPublicKey plainHpke (trim sampleKey)).toOption.map
    (fun recipient ↦ (recipient.cryptoKey : List UInt8).all (· = 0)) = some false := by decide +kernel

theorem Compose.sealable_ofText (message : String) : (Compose.ofText message).Sealable plainHpke := by
  obtain ⟨recipient, himport, hzero⟩ := Option.map_eq_some_iff.mp importPublicKey_sampleKey
  refine ⟨recipient, ?_, plainHpke_seals (Bool.not_eq_true _ ▸ hzero)⟩
  show importPublicKey plainHpke (trim sampleKey) = _
  cases hkey : importPublicKey plainHpke (trim sampleKey) with
  | error e =>
    rw [hkey] at himport
    cases himport
  | ok imported =>
    rw [hkey] at himport
    cases himport
    rfl

theorem submission_fits_iff_hi : (∃ request, createAndSeal plainHpke (Compose.ofText "hi").input
    (List.replicate 12 0) () = .ok request ∧ request.Fits) := by
  refine (submission_fits_iff plainHpke_sized plainHpke_sealsByKey
    (Compose.submittable_ofText (by decide +kernel) false) (by decide) ()).mpr
    ⟨⟨?_, ?_⟩, Compose.sealable_ofText "hi"⟩
  · rintro att ⟨⟩
  · decide +kernel

def letters (n : Nat) : String := String.ofList (List.replicate n 'a')

theorem trim_letters {n : Nat} (h : 0 < n) : trim (letters n) ≠ "" := by
  intro hempty
  have hnil := Trim.trim_eq_nil.mp (String.ofList_eq_empty_iff.mp hempty)
  rw [letters, String.toList_ofList] at hnil
  exact absurd (hnil 'a' (List.mem_replicate.mpr ⟨Nat.ne_of_gt h, rfl⟩)) (by decide)

theorem length_encode_letters (n : Nat) : (TextEncoder.encode (letters n)).length = n := by
  have hascii : ∀ c ∈ (letters n).toList, c.toNat < 128 := by
    intro c hc
    rw [letters, String.toList_ofList] at hc
    rw [List.eq_of_mem_replicate hc]
    decide
  rw [TextEncoder.encode, Utf8.length_encode_of_ascii hascii, letters, String.toList_ofList,
    List.length_replicate]

/-- The composer lets a text through that the server has no room for. -/
theorem long_text_rejected : ¬∀ (H : Hpke), H.Sized → H.SealsByKey → ∀ (isPro : Bool) (c : Compose),
    c.Submittable H isPro → c.Sealable H → ∀ (random : List UInt8), random.length = 12 →
      ∀ seed : H.Seed, ∃ request, createAndSeal H c.input random seed = .ok request ∧ request.Fits := by
  intro hall
  have htrim := trim_letters (n := MAX_ENVELOPE_BYTES) (by unfold MAX_ENVELOPE_BYTES; omega)
  obtain ⟨request, hrequest, hfits⟩ := hall plainHpke plainHpke_sized plainHpke_sealsByKey false _
    (Compose.submittable_ofText htrim false) (Compose.sealable_ofText _) (List.replicate 12 0)
    List.length_replicate ()
  have hle := (fits_iff plainHpke_sized List.length_replicate hrequest).mp hfits
  have htext := (Compose.ofText (letters MAX_ENVELOPE_BYTES)).le_envelopeLength.1
  have hlen : (TextEncoder.encode (Compose.ofText (letters MAX_ENVELOPE_BYTES)).message).length =
    MAX_ENVELOPE_BYTES := length_encode_letters _
  omega

end Aesmsg.Client
