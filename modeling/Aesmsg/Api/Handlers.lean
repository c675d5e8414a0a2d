import Aesmsg.Api.Http
import Aesmsg.Lib.Base64
import Aesmsg.Lib.Calendar
import Aesmsg.Lib.Json
import Aesmsg.Store.Memory
import Aesmsg.Store.Pg

/-!
# The handlers

The GET, list, open and revoke handlers of `apps/api/src/handlers/messages-handler.ts`, each served
to its end, with the responses as they are sent: status, headers and body.
-/

namespace Aesmsg.Api

open Store

/-! ## Responses -/

/-- A response, with the value that its body is the JSON text of. -/
structure HttpResponse where
  status : Nat
  headers : List (String × String)
  body : Json

def jsonHeaders : List (String × String) := [("content-type", "application/json")]

def jsonResponse (status : Nat) (body : Json) : HttpResponse := ⟨status, jsonHeaders, body⟩

def jsonError (status : Nat) (code : String) : HttpResponse :=
  jsonResponse status (.object [("error", .string code)])

def statusText : LinkStatus → String
  | .active => "active"
  | .revoked => "revoked"
  | .expired => "expired"

def isoDate (t : Instant) : Json := .string (Calendar.toISOString t)

/-- A response of the create, open and revoke handlers as it is sent. -/
def Response.render : Response → HttpResponse
  | .created id url revocationToken =>
    jsonResponse 201 (.object [("id", .string id), ("url", .string url),
      ("revocationToken", .string revocationToken)])
  | .delivered ciphertext row =>
    jsonResponse 200 (.object [("ciphertext", .string (Base64.btoa ciphertext)),
      ("createdAt", row.createdAt.elim .null isoDate), ("expiresAt", isoDate row.expiresAt),
      ("opensCount", .int row.opensCount), ("maxOpens", .int row.maxOpens),
      ("status", .string (statusText row.status))])
  | .revoked id => jsonResponse 200 (.object [("id", .string id), ("status", .string "revoked")])
  | .error status code => jsonError status code

def GET_RATE_LIMIT_MAX : Nat := 60

def LIST_RATE_LIMIT_MAX : Nat := 60

def LIST_MAX_IDS : Nat := 100

def gone (id : LinkId) : Json := .object [("id", .string id), ("status", .string "gone")]

/-- What a preview shows of a live row. -/
def preview (row : LinkMetadata) : List (String × Json) :=
  [("status", .string (statusText row.status)), ("expiresAt", isoDate row.expiresAt),
    ("maxOpens", .int row.maxOpens), ("opensCount", .int row.opensCount)]

/-! ## Requests -/

/-- The methods of the stores that the handlers call.  `τ` is what a method reads from the clock; a
result is none where the store fails. -/
structure Stores (σ τ : Type) where
  get : σ → LinkId → Option LinkMetadata
  getCiphertext : σ → LinkId → Option (List UInt8)
  incrementOpens : σ → τ → LinkId → Option (Option LinkMetadata × σ)
  revoke : σ → τ → LinkId → Option String → σ

inductive Call where
  | getMessage (id : LinkId)
  /-- `body` is what `JSON.parse` makes of the body, none where it throws. -/
  | listMessages (body : Option Json)
  | openMessage (id : LinkId) (body : String)
  | revokeMessage (id : LinkId) (body : String) (token : Option String)

/-- A call with the count of the rate limiter and the clock readings: `deps.now()`, and that of the
store. -/
structure Exchange (τ : Type) where
  call : Call
  count : Nat
  now : Instant
  clock : τ

/-- An id of a list request. -/
def listId? (value : Json) : Option LinkId := value.asString?.filter isLinkId

def parseListBody (body : Option Json) : Option (List LinkId) :=
  match body.bind (·.field? "ids") with
  | some (.array ids) =>
    if ids.length = 0 ∨ LIST_MAX_IDS < ids.length then none else ids.mapM listId?
  | _ => none

variable {σ τ : Type}

def getMessage (S : Stores σ τ) (s : σ) (id : LinkId) (count : Nat) (now : Instant) : HttpResponse :=
  if !isLinkId id then jsonError 400 "bad_request"
  else if GET_RATE_LIMIT_MAX < count then jsonError 429 "rate_limited"
  else
    match S.get s id with
    | none => jsonError 404 "not_found"
    | some row =>
      if row.status ≠ .active then jsonError 404 "not_found"
      else if row.expiresAt ≤ now then jsonError 404 "not_found"
      else jsonResponse 200 (.object (preview row))

/-- The result of a list request for one id. -/
def listResult (now : Instant) (id : LinkId) (row : Option LinkMetadata) : Json :=
  match row with
  | none => gone id
  | some row =>
    if row.status ≠ .active ∨ row.expiresAt ≤ now then gone id
    else .object (("id", .string id) :: preview row)

def listMessages (S : Stores σ τ) (s : σ) (body : Option Json) (count : Nat) (now : Instant) :
    HttpResponse :=
  if LIST_RATE_LIMIT_MAX < count then jsonError 429 "rate_limited"
  else
    match parseListBody body with
    | none => jsonError 400 "bad_request"
    | some ids =>
      jsonResponse 200 (.object
        [("results", .array (ids.map fun id ↦ listResult now id (S.get s id)))])

def openMessage (S : Stores σ τ) (s : σ) (clock : τ) (id : LinkId) (body : String) (count : Nat) :
    Option (HttpResponse × σ) :=
  match rejects id body count with
  | some response => some (response.render, s)
  | none =>
    (S.incrementOpens s clock id).map fun (row, s') ↦
      ((openResponse (S.getCiphertext s id) row).render, s')

def revokeMessage (env : Env) (S : Stores σ τ) (s : σ) (clock : τ) (id : LinkId) (body : String)
    (token : Option String) (count : Nat) : HttpResponse × σ :=
  match rejects id body count with
  | some response => (response.render, s)
  | none => ((Response.revoked id).render, S.revoke s clock id (env.presentedHash token))

/-- The response to a call and the store after it, none where the store fails. -/
def handle (env : Env) (S : Stores σ τ) (s : σ) (x : Exchange τ) : Option (HttpResponse × σ) :=
  match x.call with
  | .getMessage id => some (getMessage S s id x.count x.now, s)
  | .listMessages body => some (listMessages S s body x.count x.now, s)
  | .openMessage id body => openMessage S s x.clock id body x.count
  | .revokeMessage id body token => some (revokeMessage env S s x.clock id body token x.count)

/-- The responses to a sequence of calls, none where the store fails. -/
def serve (env : Env) (S : Stores σ τ) (s : σ) : List (Exchange τ) → Option (List HttpResponse)
  | [] => some []
  | x :: xs =>
    match handle env S s x with
    | none => none
    | some (response, s) => (serve env S s xs).map (response :: ·)

/-! ## The stores -/

def memoryStores : Stores MemoryStore Clock where
  get := MemoryStore.get
  getCiphertext := MemoryStore.getCiphertext
  incrementOpens := fun s clock id ↦ some (s.incrementOpens id clock)
  revoke := fun s clock id providedTokenHash ↦ s.revoke id providedTokenHash clock

def pgStores : Stores Pg.Db Pg.Timestamptz where
  get := Pg.get
  getCiphertext := Pg.getCiphertext
  incrementOpens := fun db now id ↦ (Pg.incrementOpens db id now).toOption
  revoke := fun db now id providedTokenHash ↦ Pg.revoke db id providedTokenHash now

end Aesmsg.Api
