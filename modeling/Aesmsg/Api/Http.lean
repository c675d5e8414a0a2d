import Aesmsg.Store.Types

/-!
# Requests and responses of the API

What the handlers of `apps/api/src/handlers/messages-handler.ts` check before they turn to the
stores, and what they answer.
-/

namespace Aesmsg.Api

open Store

/-- `LINK_ID_REGEX`, `/^[A-Za-z0-9_-]{16}$/`. -/
def isLinkId (id : String) : Bool :=
  id.length = 16 ∧ id.toList.all fun c ↦ c.isAlphanum || c = '_' || c = '-'

/-- Nothing, or the lone NUL byte that Android sends for an empty body. -/
def isEmptyBody (raw : String) : Bool := raw = "" ∨ raw = "\x00"

def RATE_LIMIT_MAX : Nat := 30

inductive Response where
  /-- 201, with the token that is shown once. -/
  | created (id : LinkId) (url : String) (revocationToken : String)
  /-- 200 of an open, with the ciphertext and the row it was served from. -/
  | delivered (ciphertext : List UInt8) (row : LinkMetadata)
  /-- 200 of a revoke. -/
  | revoked (id : LinkId)
  /-- `jsonError(status, code)`. -/
  | error (status : Nat) (code : String)
deriving DecidableEq, Repr

def Response.status : Response → Nat
  | created .. => 201
  | delivered .. => 200
  | revoked _ => 200
  | error status _ => status

/-- The answer to a revoke, or an error. -/
def Response.isPlain : Response → Bool
  | revoked _ => true
  | error status _ => 400 ≤ status
  | _ => false

theorem Response.status_of_isPlain {response : Response} (h : response.isPlain = true) :
    response.status ≠ 201 := by
  cases response with
  | revoked id => nofun
  | error status code =>
    have hle : 400 ≤ status := of_decide_eq_true h
    intro hs
    change status = 201 at hs
    omega
  | _ => cases h

def badRequest : Response := .error 400 "bad_request"

def rateLimited : Response := .error 429 "rate_limited"

def idConflict : Response := .error 409 "id_conflict"

def internalError : Response := .error 500 "internal_error"

def noLongerAvailable : Response := .error 410 "no_longer_available"

/-- What the create handler has read from a request once every check of its body has passed. -/
structure Draft where
  id : LinkId
  expiresAt : Instant
  maxOpens : Int
  blob : List UInt8
deriving DecidableEq, Repr

/-- The configuration of a server.  `hashRevocationToken` is the SHA-256 of a token, in hex. -/
structure Env where
  hashRevocationToken : String → String
  publicLinkOrigin : String
  /-- `terminalRetentionMs()` -/
  retention : Nat

/-- A server that stores its tokens as they are and prunes at once. -/
def Env.sample : Env := ⟨fun revocationToken ↦ revocationToken, "", 0⟩

/-- The answer to a create that succeeded. -/
def Env.created (env : Env) (id : LinkId) (revocationToken : String) : Response :=
  .created id s!"{env.publicLinkOrigin}/l/{id}" revocationToken

/-- The hash that the revoke handler hands to the store.  An empty header counts as none. -/
def Env.presentedHash (env : Env) (token : Option String) : Option String :=
  (token.filter (· ≠ "")).map env.hashRevocationToken

def Draft.record (draft : Draft) (revocationTokenHash : String) : CreateLinkRecord where
  id := draft.id
  expiresAt := draft.expiresAt
  maxOpens := draft.maxOpens
  revocationTokenHash := some revocationTokenHash

/-- The checks of the open and revoke handlers, with the count of the rate limiter: the answer to a
request that fails one. -/
def rejects (id : LinkId) (body : String) (count : Nat) : Option Response :=
  if !isLinkId id then some badRequest
  else if !isEmptyBody body then some badRequest
  else if RATE_LIMIT_MAX < count then some rateLimited
  else none

/-- The end of the open handler: `row` is what `incrementOpens` resolved with, `blob` what was read
before it. -/
def openResponse (blob : Option (List UInt8)) (row : Option LinkMetadata) : Response :=
  match row, blob with
  | some row, some blob => .delivered blob row
  | _, _ => noLongerAvailable

end Aesmsg.Api
