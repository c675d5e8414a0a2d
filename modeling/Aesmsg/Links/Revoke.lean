import Aesmsg.Client.CreateAndSeal
import Aesmsg.Lib.Clients
import Aesmsg.Links.Answers
import Aesmsg.Server.Tokens

/-!
# Creating and revoking a link

How a client keeps the token that revokes a link and presents it later: the end of `createAndSeal`,
`revokeTrackedLinkOutcome` of `apps/mobile/src/links/use-sent-links.ts`, `revokeCreatedLink` of
`apps/mobile/src/create/revoke-created-link.ts`, and `revoke` of
`apps/webapp/src/links/use-sent-links.ts`, as clients of a server.
-/

namespace Aesmsg.Links

open Client Api Store Threads

/-! ## Requests -/

def Mobile.checkToken (body : Json) : Except Thrown (Option String) :=
  match body.field? "revocationToken" with
  | none => .ok none
  | some value =>
    match value.asString? with
    | none => .error (.malformedResponseError "create response.revocationToken was not a string")
    | some revocationToken => .ok (some revocationToken)

/-- The revocation token of the response. -/
def Mobile.validateCreateMessageResponse (body : Json) : Except Thrown (Option String) := do
  checkRecord body "create response was not an object"
  let _ ← checkField body "id" nonEmpty? "create response is missing id"
  checkToken body

/-- The URL and the revocation token of the response. -/
def Web.validateCreateMessageResponse (body : Json) : Except Thrown (String × String) := do
  checkRecord body "create response was not an object"
  let _ ← checkField body "id" nonEmpty? "create response is missing id"
  let url ← checkField body "url" nonEmpty? "create response is missing url"
  let revocationToken ← checkField body "revocationToken" nonEmpty?
    "create response is missing revocationToken"
  return (url, revocationToken)

def Mobile.postMessage (fetch : Fetch) : Except Thrown (Option String) :=
  fetchJson .mobile fetch validateCreateMessageResponse

def Web.postMessage (fetch : Fetch) : Except Thrown (String × String) :=
  fetchJson .web fetch validateCreateMessageResponse

/-- `revokeLink`, with what `fetch` does. -/
def revokeLink (platform : Platform) (fetch : Fetch) : Except Thrown Unit :=
  match requestWithTimeout platform fetch with
  | .error err => .error err
  | .ok (status, _) => if !isOk status then .error (.apiError status) else .ok ()

def NO_BODY : String := ""

/-- The request of `revokeLink`.  A token that is empty is not sent. -/
def revokeRequest (id : String) (revocationToken : Option String) : Server.Request :=
  .revokeMessage id NO_BODY (revocationToken.filter (· ≠ ""))

/-- What `createAndSeal` has when it posts a request, the `length` of whose body is given. -/
structure Upload where
  request : CreateMessageRequest
  length : Nat
  recipientFingerprint : String
  createdAt : String
  label : Option String

def Upload.draft (cfg : CreateConfig) (upload : Upload) : Instant → Option Draft :=
  createDraft cfg ⟨upload.length, some upload.request.json⟩

def Upload.post (cfg : CreateConfig) (upload : Upload) : Server.Request :=
  .postMessages (upload.draft cfg)

inductive RevokeResult where
  | revoked
  | error
deriving DecidableEq, Repr

/-! ## Mobile -/

namespace Mobile

def isAlreadyGone (err : Thrown) : Bool := err = .apiError 404 || err = .apiError 410

def Upload.record (upload : Upload) (revocationToken : Option String) : SentLinkRecord where
  id := upload.request.id
  recipientFingerprint := upload.recipientFingerprint
  createdAt := upload.createdAt
  expiresAt := upload.request.expiresAt
  maxOpens := upload.request.maxOpens
  label := upload.label
  revocationToken := revocationToken
  reminderNotificationId := none
  schemaVersion := 1

inductive Task where
  | createAndSeal (upload : Upload)
  | revokeTrackedLinkOutcome (id : String)
  | revokeCreatedLink (id : String)
  | setSentLinkReminderNotificationId (id reminderNotificationId : String)
  | deleteLocal (id : String)
  | clearSentLinks

/-- What a call of the store is part of. -/
inductive Part where
  /-- The end of `createAndSeal`, which swallows what the store throws. -/
  | created
  /-- The end of `revokeTrackedLink`. -/
  | revoked (id : String)
  /-- The cleanup of a link that was already gone. -/
  | cleaned (id : String)
  | alone

/-- Where a task stands: the next thing it does when it is resumed. -/
inductive Phase where
  | sealed (upload : Upload)
  | posting (upload : Upload)
  /-- A call of the store is about to read the map. -/
  | read (call : Call) (part : Part)
  /-- It is about to write the `map` that it has made of the one it has read. -/
  | write (call : Call) (read map : SentLinkMap) (part : Part)
  | clear
  | getSentLink (id : String)
  | revoking (id : String)
  | returned (id : String) (result : RevokeResult)
  | ended

/-- Where a task stands when its call of the store has resolved. -/
def Part.resolved : Part → Phase
  | revoked id | cleaned id => .returned id .revoked
  | created | alone => .ended

/-- Where it stands when the call has thrown. -/
def Part.threw : Part → Phase
  | revoked id => .returned id .error
  | cleaned id => .returned id .revoked
  | created | alone => .ended

/-- The revoke functions differ in what they do about the reminder only. -/
def Task.start : Task → Phase
  | createAndSeal upload => .sealed upload
  | revokeTrackedLinkOutcome id | revokeCreatedLink id => .getSentLink id
  | setSentLinkReminderNotificationId id reminderNotificationId =>
    .read (.setSentLinkReminderNotificationId id reminderNotificationId) .alone
  | deleteLocal id => .read (.deleteSentLink id) .alone
  | clearSentLinks => .clear

/-- One step.  `fails` tells whether the access to the encrypted store throws. -/
def step (cfg : CreateConfig) (fails : Bool) :
    Phase → SentLinkMap → Option (Next Server.Request Phase SentLinkMap)
  | .sealed upload, _ => some (.send (upload.post cfg) (.posting upload))
  | .read call part, map =>
    if fails then some (.go part.threw map)
    else
      match call.plan map with
      | none => some (.go part.resolved map)
      | some map' => some (.go (.write call map map' part) map)
  | .write _ _ map' part, map =>
    if fails then some (.go part.threw map) else some (.go part.resolved map')
  | .clear, map => some (.go .ended (if fails then map else ∅))
  | .getSentLink id, map =>
    if fails then some (.go (.returned id .error) map)
    else some (.send (revokeRequest id ((map.lookup id).bind (·.revocationToken))) (.revoking id))
  | _, _ => none

def receive : Phase → Response → Phase
  | .posting upload, response =>
    match postMessage (answered response.render) with
    | .ok revocationToken => .read (.recordSentLink (Upload.record upload revocationToken)) .created
    | .error _ => .ended
  | .revoking id, response =>
    match revokeLink .mobile (answered response.render) with
    | .ok () => .read (.deleteSentLink id) (.revoked id)
    | .error err =>
      if isAlreadyGone err then .read (.deleteSentLink id) (.cleaned id) else .returned id .error
  | phase, _ => phase

def client (cfg : CreateConfig) :
    Client Server.Request Task Bool Phase SentLinkMap Response := ⟨Task.start, step cfg, receive⟩

end Mobile

/-! ## Web -/

namespace Web

inductive ApiErrorKind where
  | network
  | not_found
  | gone
  | rate_limited
  | conflict
  | invalid
  | server
  | unknown
deriving DecidableEq, Repr

def classifyApiError : Thrown → ApiErrorKind
  | .networkError | .timeoutError | .malformedResponseError _ => .network
  | .apiError status =>
    if status = 404 then .not_found
    else if status = 410 then .gone
    else if status = 429 then .rate_limited
    else if status = 409 then .conflict
    else if status = 400 then .invalid
    else if 500 ≤ status then .server
    else .unknown
  | _ => .unknown

def Upload.record (upload : Upload) (url revocationToken : String) : SentLinkRecord where
  id := upload.request.id
  recipientFingerprint := upload.recipientFingerprint
  createdAt := upload.createdAt
  expiresAt := upload.request.expiresAt
  maxOpens := upload.request.maxOpens
  label := upload.label
  revocationToken := some revocationToken
  url := some url
  schemaVersion := 1

abbrev SentLinksStore := AList fun _ : String ↦ SentLinkRecord

/-- The object store, and the records of the links that the hook has loaded last. -/
structure Device where
  store : SentLinksStore
  rawLinks : List SentLinkRecord

inductive Task where
  | createAndSeal (upload : Upload)
  | revoke (id : String)
  | refresh
  | clearSentLinks

inductive Phase where
  | sealed (upload : Upload)
  | posting (upload : Upload)
  | recordSentLink (record : SentLinkRecord)
  | clear
  /-- `revoke` is about to look at the loaded links. -/
  | revoke (id : String)
  | getSentLink (id : String)
  | revoking (id : String)
  | returned (id : String) (result : RevokeResult)
  | listSentLinks
  /-- `refresh` has reconciled the links of the records. -/
  | setRawLinks (records : List SentLinkRecord)
  | ended

def Task.start : Task → Phase
  | createAndSeal upload => .sealed upload
  | revoke id => .revoke id
  | refresh => .listSentLinks
  | clearSentLinks => .clear

/-- One step.  `fails` tells whether the transaction on the object store throws. -/
def step (cfg : CreateConfig) (fails : Bool) :
    Phase → Device → Option (Next Server.Request Phase Device)
  | .sealed upload, _ => some (.send (upload.post cfg) (.posting upload))
  | .recordSentLink record, device =>
    some (.go .ended
      (if fails then device else { device with store := device.store.insert record.id record }))
  | .clear, device => some (.go .ended (if fails then device else { device with store := ∅ }))
  | .revoke id, device =>
    match device.rawLinks.find? (·.id = id) with
    | some record => some (.send (revokeRequest id record.revocationToken) (.revoking id))
    | none => some (.go (.getSentLink id) device)
  | .getSentLink id, device =>
    let record := if fails then none else device.store.lookup id
    some (.send (revokeRequest id (record.bind (·.revocationToken))) (.revoking id))
  | .listSentLinks, device =>
    some (.go (if fails then .ended else .setRawLinks (device.store.entries.map Sigma.snd)) device)
  | .setRawLinks records, device => some (.go .ended { device with rawLinks := records })
  | _, _ => none

def receive : Phase → Response → Phase
  | .posting upload, response =>
    match postMessage (answered response.render) with
    | .ok (url, revocationToken) => .recordSentLink (Upload.record upload url revocationToken)
    | .error _ => .ended
  | .revoking id, response =>
    match revokeLink .web (answered response.render) with
    | .ok () => .returned id .revoked
    | .error err =>
      if classifyApiError err = .not_found ∨ classifyApiError err = .gone then .returned id .revoked
      else .returned id .error
  | phase, _ => phase

def client (cfg : CreateConfig) :
    Client Server.Request Task Bool Phase Device Response := ⟨Task.start, step cfg, receive⟩

end Web

end Aesmsg.Links
