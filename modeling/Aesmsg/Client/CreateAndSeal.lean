import Aesmsg.Client.Base64
import Aesmsg.Crypto.Fingerprint
import Aesmsg.Crypto.RoundTrip
import Aesmsg.Crypto.Seal
import Aesmsg.Lib.Calendar
import Aesmsg.Lib.Json

/-!
# Creating a link

`createAndSeal` of `apps/mobile/src/create/create-and-seal.ts`, up to the request that it posts.
-/

namespace Aesmsg.Client

open Crypto

structure CreateAndSealInput where
  recipientPublicKeyString : String
  message : String
  /-- None for an invalid date. -/
  expiresAt : Option Calendar.Date
  maxOpens : JsNumber
  attachment : Option PayloadAttachment

structure CreateMessageRequest where
  id : String
  ciphertext : String
  expiresAt : String
  maxOpens : JsNumber

/-- The value of the body that `postMessage` sends. -/
def CreateMessageRequest.json (request : CreateMessageRequest) : Json :=
  .object [("id", .string request.id), ("ciphertext", .string request.ciphertext),
    ("expiresAt", .string request.expiresAt), ("maxOpens", .number request.maxOpens)]

/-- `date.getTime()` -/
def getTime (date : Option Int) : JsNumber := date.elim .nonInteger .int

/-- The context of a message that is sealed under `id`.  It has no `createdAtMs`. -/
def CreateAndSealInput.context (input : CreateAndSealInput) (id : String) : MessageBindingContext where
  linkId := id
  recipientPublicKey := input.recipientPublicKeyString
  createdAtMs := none
  expiresAtMs := getTime (input.expiresAt.map (·.time))
  maxOpens := input.maxOpens

def CreateAndSealInput.payload (input : CreateAndSealInput) : Payload :=
  ⟨input.message, input.attachment.toList⟩

/-- The request that is posted.  `random` and `seed` are the randomness of the link id and of the
encapsulation. -/
def createAndSeal (H : Hpke) (input : CreateAndSealInput) (random : List UInt8) (seed : H.Seed) :
    Result CreateMessageRequest := do
  let recipient ← importPublicKey H input.recipientPublicKeyString
  let _ ← fingerprint H input.recipientPublicKeyString
  let id := Mobile.generateLinkId random
  let plaintext ← encodePayload input.payload
  let ciphertext ← «seal» H plaintext recipient (input.context id) seed
  match input.expiresAt with
  | none => .error .rangeError
  | some expiresAt =>
    return {
      id := id
      ciphertext := Mobile.bytesToBase64 ciphertext
      expiresAt := Calendar.toISOString expiresAt.time
      maxOpens := input.maxOpens }

/-- What a request was made from. -/
structure Posts (H : Hpke) (input : CreateAndSealInput) (seed : H.Seed)
    (request : CreateMessageRequest) (recipient : RecipientPublicKey H) (plaintext ciphertext : List UInt8)
    (expiresAt : Calendar.Date) : Prop where
  imported : importPublicKey H input.recipientPublicKeyString = .ok recipient
  encoded : encodePayload input.payload = .ok plaintext
  date : input.expiresAt = some expiresAt
  isSealed : «seal» H plaintext recipient (input.context request.id) seed = .ok ciphertext
  ciphertext : request.ciphertext = Base64.btoa ciphertext
  expiresAt : request.expiresAt = Calendar.toISOString expiresAt.time
  maxOpens : request.maxOpens = input.maxOpens

theorem createAndSeal_posts {H : Hpke} {input : CreateAndSealInput} {random : List UInt8}
    {seed : H.Seed} {request : CreateMessageRequest}
    (h : createAndSeal H input random seed = .ok request) :
    ∃ recipient plaintext ciphertext expiresAt,
      Posts H input seed request recipient plaintext ciphertext expiresAt := by
  simp only [createAndSeal, Result.bind_eq_ok] at h
  obtain ⟨recipient, hrecipient, -, -, plaintext, hencoded, ciphertext, hsealed, hrequest⟩ := h
  split at hrequest
  · cases hrequest
  · rename_i expiresAt hdate
    rw [← Except.ok.inj hrequest]
    exact ⟨recipient, plaintext, ciphertext, expiresAt, hrecipient, hencoded, hdate, hsealed,
      Mobile.bytesToBase64_eq ciphertext, rfl, rfl⟩

end Aesmsg.Client
