import Aesmsg.Api.Create
import Aesmsg.Client.CreateAndSeal
import Aesmsg.Client.Transport

/-!
# Opening a link

`apps/mobile/src/reader/fetch-and-open.ts` and `apps/webapp/src/reader/open-and-decrypt.ts`, with
`decryptWithKeyFallback` of `apps/webapp/src/identity/decrypt-keys.ts`.
-/

namespace Aesmsg.Reader

open Store Crypto Client

structure FetchAndOpenOutput where
  text : String
  attachments : List PayloadAttachment
  recipientFingerprint : String
  opensCount : JsNumber
  maxOpens : JsNumber
  status : LinkStatus

/-- What an open may throw. -/
abbrev OpenError := Thrown ⊕ CryptoError

/-- `new Date(s).getTime()` -/
def dateTime (otherDate : String → Option Instant) (s : String) : JsNumber :=
  getTime (Api.parseDate otherDate s)

variable (H : Hpke) (otherDate : String → Option Instant)

def Mobile.bindingContext (response : OpenMessageResponse) (id ownPublicKey : String) :
    MessageBindingContext where
  linkId := id
  recipientPublicKey := ownPublicKey
  expiresAtMs := dateTime otherDate response.expiresAt
  maxOpens := response.maxOpens
  createdAtMs := response.createdAt.map (dateTime otherDate)

def Mobile.decryptOpenResponse (response : OpenMessageResponse) (identity : IdentityKeypair H)
    (id : String) : Result FetchAndOpenOutput := do
  let ownPublicKey := exportPublicKey H identity
  let context := Mobile.bindingContext otherDate response id ownPublicKey
  let ciphertext ← Mobile.base64ToBytes response.ciphertext
  let plaintextBytes ← «open» H ciphertext identity context
  let payload := decodePayload plaintextBytes
  let recipientFingerprint ← fingerprint H ownPublicKey
  return {
    text := payload.text
    attachments := payload.attachments
    recipientFingerprint := recipientFingerprint
    opensCount := response.opensCount
    maxOpens := response.maxOpens
    status := response.status }

/-- `fetchAndOpen`, with what `fetch` does. -/
def Mobile.fetchAndOpen (fetch : Fetch) (identity : IdentityKeypair H) (id : String) :
    Except OpenError FetchAndOpenOutput := do
  let response ← (openMessage .mobile fetch).mapError .inl
  (Mobile.decryptOpenResponse H otherDate response identity id).mapError .inr

/-- `err instanceof DecryptionError` -/
def isDecryptionError : CryptoError → Bool
  | .decryption _ => true
  | _ => false

/-- The keys are tried in order, from a last error. -/
def Web.decryptWithKeyFallback {κ α : Type} (attempt : κ → Result α) : List κ → CryptoError → Result α
  | [], lastError => .error lastError
  | key :: keys, _ =>
    match attempt key with
    | .ok value => .ok value
    | .error err =>
      if isDecryptionError err then Web.decryptWithKeyFallback attempt keys err else .error err

def Web.bindingContext (id : String) (expiresAtMs : JsNumber) (createdAtMs : Option JsNumber)
    (maxOpens : JsNumber) (ownPublicKey : String) : MessageBindingContext where
  linkId := id
  recipientPublicKey := ownPublicKey
  expiresAtMs := expiresAtMs
  maxOpens := maxOpens
  createdAtMs := createdAtMs

/-- What one key makes of a ciphertext: the payload and the fingerprint. -/
def Web.attempt (id : String) (ciphertext : List UInt8) (expiresAtMs : JsNumber)
    (createdAtMs : Option JsNumber) (maxOpens : JsNumber) (key : IdentityKeypair H) :
    Result (Payload × String) := do
  let ownPublicKey := exportPublicKey H key
  let context := Web.bindingContext id expiresAtMs createdAtMs maxOpens ownPublicKey
  let plaintextBytes ← «open» H ciphertext key context
  let payload := decodePayload plaintextBytes
  let recipientFingerprint ← fingerprint H ownPublicKey
  return (payload, recipientFingerprint)

/-- What `openAndDecrypt` does after its request. -/
def Web.decrypt (response : OpenMessageResponse) (id : String) (keys : List (IdentityKeypair H)) :
    Result FetchAndOpenOutput := do
  let ciphertext ← Web.base64ToBytes response.ciphertext
  let expiresAtMs := dateTime otherDate response.expiresAt
  let createdAtMs := response.createdAt.map (dateTime otherDate)
  let decrypted ← Web.decryptWithKeyFallback
    (Web.attempt H id ciphertext expiresAtMs createdAtMs response.maxOpens) keys decryptionError
  return {
    text := decrypted.1.text
    attachments := decrypted.1.attachments
    recipientFingerprint := decrypted.2
    opensCount := response.opensCount
    maxOpens := response.maxOpens
    status := response.status }

/-- `openAndDecrypt`, with what `fetch` does. -/
def Web.openAndDecrypt (fetch : Fetch) (id : String) (keys : List (IdentityKeypair H)) :
    Except OpenError FetchAndOpenOutput := do
  let response ← (openMessage .web fetch).mapError .inl
  (Web.decrypt H otherDate response id keys).mapError .inr

/-- What follows a call that did not throw. -/
theorem mapError_ok_bind {ε ε' α β : Type} (value : α) (f : ε → ε') (next : α → Except ε' β) :
    ((Except.ok value).mapError f >>= next) = next value := rfl

section Response

variable {H otherDate} {fetch : Fetch} {response : OpenMessageResponse} {id : String}
  {out : FetchAndOpenOutput}

theorem Mobile.fetchAndOpen_eq_ok {identity : IdentityKeypair H}
    (hopen : openMessage .mobile fetch = .ok response)
    (hout : Mobile.decryptOpenResponse H otherDate response identity id = .ok out) :
    Mobile.fetchAndOpen H otherDate fetch identity id = .ok out := by
  unfold Mobile.fetchAndOpen
  rw [hopen, mapError_ok_bind, hout]
  rfl

theorem Web.openAndDecrypt_eq_ok {keys : List (IdentityKeypair H)}
    (hopen : openMessage .web fetch = .ok response)
    (hout : Web.decrypt H otherDate response id keys = .ok out) :
    Web.openAndDecrypt H otherDate fetch id keys = .ok out := by
  unfold Web.openAndDecrypt
  rw [hopen, mapError_ok_bind, hout]
  rfl

end Response

/-- An attempt that succeeds, or is passed over for the next key, until one succeeds. -/
theorem Web.decryptWithKeyFallback_eq_ok {κ α : Type} {attempt : κ → Result α} {P : α → Prop}
    {keys : List κ} {key : κ} (hkey : key ∈ keys) (hok : ∃ value, attempt key = .ok value)
    (hall : ∀ k ∈ keys, (∃ value, attempt k = .ok value ∧ P value) ∨
      ∃ err, attempt k = .error err ∧ isDecryptionError err = true) (lastError : CryptoError) :
    ∃ value, Web.decryptWithKeyFallback attempt keys lastError = .ok value ∧ P value := by
  induction keys generalizing lastError with
  | nil => cases hkey
  | cons k keys ih =>
    obtain ⟨hk, hrest⟩ := List.forall_mem_cons.mp hall
    unfold Web.decryptWithKeyFallback
    rcases hk with ⟨value, hvalue, hP⟩ | ⟨err, herr, hdecryption⟩
    · rw [hvalue]
      exact ⟨value, rfl, hP⟩
    · rw [herr]
      dsimp only
      rw [if_pos hdecryption]
      rcases List.mem_cons.mp hkey with rfl | hkey
      · obtain ⟨value, hvalue⟩ := hok
        rw [herr] at hvalue
        cases hvalue
      · exact ih hkey hrest err

end Aesmsg.Reader
