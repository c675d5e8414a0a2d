import Aesmsg.Api.Create
import Aesmsg.Api.Handlers
import Aesmsg.Client.Transport
import Aesmsg.Links.SentLinks

/-!
# The status of sent links

How the clients ask for the status of the links that they have created and what they show:
`listMessages` of both `api/client.ts`, `link-reconciliation.ts`, `link-display.ts` and the pipeline of
`use-sent-links.ts` under `apps/mobile/src/links`, `link-status.ts` and `use-sent-links.ts` under
`apps/webapp/src/links`.

A client reads a date with `new Date`; `otherDate` is what that makes of a string that is not in the
form of `toISOString`.
-/

namespace Aesmsg.Links

open Client

/-! ## The list request -/

inductive ListMessageResult where
  | gone (id : String)
  | active (id expiresAt : String) (maxOpens opensCount : JsNumber)
deriving DecidableEq, Repr

def ListMessageResult.id : ListMessageResult → String
  | gone id => id
  | active id _ _ _ => id

def validateResult (result : Json) : Except Thrown ListMessageResult := do
  checkRecord result "list result is missing id"
  let id ← checkField result "id" Json.asString? "list result is missing id"
  match (result.field? "status").bind Json.asString? with
  | some "gone" => return .gone id
  | some "active" =>
    let expiresAt ← checkField result "expiresAt" Json.asString? "active list result is missing fields"
    let maxOpens ← checkField result "maxOpens" Json.asNumber? "active list result is missing fields"
    let opensCount ← checkField result "opensCount" Json.asNumber?
      "active list result is missing fields"
    return .active id expiresAt maxOpens opensCount
  | _ => .error (.malformedResponseError "list result has an unknown status")

def validateListMessagesResponse (body : Json) : Except Thrown (List ListMessageResult) :=
  match body.field? "results" with
  | some (.array results) => results.mapM validateResult
  | _ => .error (.malformedResponseError "list response.results was not an array")

/-- The value of the body that `listMessages` sends. -/
def listBody (ids : List String) : Json := .object [("ids", .array (ids.map .string))]

/-- `listMessages`, with what `fetch` does with a body. -/
def listMessages (platform : Platform) (fetch : Json → Fetch) (ids : List String) :
    Except Thrown (List ListMessageResult) :=
  if ids.length = 0 then .ok [] else fetchJson platform (fetch (listBody ids)) validateListMessagesResponse

/-- The entry of a `Map` that is set from the results in their order. -/
def byId (results : List ListMessageResult) (id : String) : Option ListMessageResult :=
  results.reverse.find? (·.id = id)

/-- `new Date(s).getTime() <= now` -/
def isPast (otherDate : String → Option Int) (s : String) (now : Int) : Bool :=
  (Api.parseDate otherDate s).any (· ≤ now)

/-! ## Mobile -/

inductive ServerStatus where
  | active
  | gone
  | unknown
deriving DecidableEq, Repr

structure ReconciledLink where
  record : SentLinkRecord
  serverStatus : ServerStatus
  opensCount : Option JsNumber
  maxOpens : JsNumber
  expiresAt : String

inductive LinkStatus where
  | available
  | opened
  | expiring
  | revoked
  | expired
  | unknown
deriving DecidableEq, Repr

/-- What the Links tab shows of a link, without its recipient, its times and its URL. -/
structure Link where
  id : String
  «to» : String
  status : LinkStatus
  opensUsed : JsNumber
  opensMax : Option JsNumber

structure LoadResult where
  links : List Link
  serverReachable : Bool

def EXPIRING_MIN_WINDOW_MS : Int := 60000

def EXPIRING_MAX_WINDOW_MS : Int := 24 * 60 * 60000

/-- The fraction 0.2 of the lifetime, in fifths of a millisecond. -/
def expiringWindowFifths (lifetimeMs : Int) : Int :=
  if lifetimeMs ≤ 5 * EXPIRING_MIN_WINDOW_MS then 5 * EXPIRING_MIN_WINDOW_MS
  else if 5 * EXPIRING_MAX_WINDOW_MS < lifetimeMs then 5 * EXPIRING_MAX_WINDOW_MS
  else lifetimeMs

/-- An invalid date of creation leaves the shortest window. -/
def isExpiringSoon (createdAtMs : Option Int) (expiresAtMs nowMs : Int) : Bool :=
  let remaining := expiresAtMs - nowMs
  let lifetime := (createdAtMs.map (expiresAtMs - ·)).getD 0
  0 < remaining && 5 * remaining ≤ expiringWindowFifths lifetime

namespace Mobile

section Reconcile

variable (otherDate : String → Option Int)

/-- A record that the server has nothing more to say about. -/
def local_ (record : SentLinkRecord) (serverStatus : ServerStatus) : ReconciledLink :=
  ⟨record, serverStatus, none, record.maxOpens, record.expiresAt⟩

def reconcileSentLinks (localRecords : List SentLinkRecord)
    (serverResponse : Option (List ListMessageResult)) (now : Int) : List ReconciledLink :=
  localRecords.map fun record ↦
    let locallyExpired := isPast otherDate record.expiresAt now
    match serverResponse with
    | none => local_ record (if locallyExpired then .gone else .unknown)
    | some results =>
      if locallyExpired then local_ record .gone
      else
        match byId results record.id with
        | some (.active _ expiresAt maxOpens opensCount) =>
          ⟨record, .active, some opensCount, maxOpens, expiresAt⟩
        | some (.gone _) => local_ record .gone
        | none => local_ record .unknown

def deriveLinkStatus (link : ReconciledLink) (now : Int) : LinkStatus :=
  match link.serverStatus with
  | .unknown => .unknown
  | .gone => if isPast otherDate link.expiresAt now then .expired else .revoked
  | .active =>
    if 0 < (link.opensCount.map JsNumber.toInt).getD 0 then .opened
    else
      match Api.parseDate otherDate link.expiresAt with
      | none => .available
      | some expiresMs =>
        if isExpiringSoon (Api.parseDate otherDate link.record.createdAt) expiresMs now then .expiring
        else .available

def toDisplayLink (link : ReconciledLink) (now : Int) : Link where
  id := link.record.id
  «to» := if link.record.label.getD "" = "" then "Secure link" else link.record.label.getD ""
  status := deriveLinkStatus otherDate link now
  opensUsed := link.opensCount.getD (.int 0)
  opensMax := if link.maxOpens = .int (-1) then none else some link.maxOpens

/-- `loadAndReconcile` of the records that `listSentLinks` returns. -/
def loadAndReconcile (fetch : Json → Fetch) (records : List SentLinkRecord) (now : Int) : LoadResult :=
  if records.length = 0 then ⟨[], true⟩
  else
    let server := (listMessages .mobile fetch (records.map (·.id))).toOption
    ⟨(reconcileSentLinks otherDate records server now).map (toDisplayLink otherDate · now),
      server.isSome⟩

end Reconcile

end Mobile

/-! ## Web -/

namespace Web

structure SentLinkRecord where
  id : String
  recipientFingerprint : String
  createdAt : String
  expiresAt : String
  maxOpens : JsNumber
  label : Option String
  revocationToken : Option String
  url : Option String
  schemaVersion : Nat

inductive DisplayStatus where
  | active
  | expiring
  | expired
  | revoked
  | opened_out
deriving DecidableEq, Repr

structure DisplayLink where
  record : SentLinkRecord
  status : DisplayStatus
  opensCount : Option JsNumber
  maxOpens : JsNumber
  expiresAt : String

def EXPIRING_SOON_MS : Int := 60 * 60 * 1000

/-- The status of a link that is not gone.  An invalid date is never reached. -/
def liveStatus (msLeft : Option Int) (openedOut : Bool) : DisplayStatus :=
  if msLeft.any (· ≤ 0) then .expired
  else if openedOut then .opened_out
  else if msLeft.any (· ≤ EXPIRING_SOON_MS) then .expiring
  else .active

def reconcileLink (otherDate : String → Option Int) (record : SentLinkRecord)
    (serverResult : Option ListMessageResult) (now : Int) : DisplayLink :=
  let msLeft (expiresAt : String) := (Api.parseDate otherDate expiresAt).map (· - now)
  match serverResult with
  | some (.gone _) =>
    ⟨record, if isPast otherDate record.expiresAt now then .expired else .revoked, none,
      record.maxOpens, record.expiresAt⟩
  | some (.active _ expiresAt maxOpens opensCount) =>
    ⟨record, liveStatus (msLeft expiresAt)
      (maxOpens ≠ .int (-1) && maxOpens.toInt ≤ opensCount.toInt), some opensCount, maxOpens, expiresAt⟩
  | none => ⟨record, liveStatus (msLeft record.expiresAt) false, none, record.maxOpens, record.expiresAt⟩

def LIST_CHUNK : Nat := 100

def chunk {α : Type} (items : List α) (size : Nat) : List (List α) :=
  (List.range ((items.length + size - 1) / size)).map fun k ↦ (items.drop (k * size)).take size

/-- The results of `fetchServerMap`; `fetch` is what happens to the request of each batch. -/
def fetchServerMap (fetch : Nat → Json → Fetch) (ids : List String) : List ListMessageResult :=
  ((chunk ids LIST_CHUNK).mapIdx fun k batch ↦
    ((listMessages .web (fetch k) batch).toOption).getD []).flatten

/-- The links after `refresh`. -/
def refresh (otherDate : String → Option Int) (fetch : Nat → Json → Fetch)
    (records : List SentLinkRecord) (now : Int) : List DisplayLink :=
  let serverMap := fetchServerMap fetch (records.map (·.id))
  records.map fun record ↦ reconcileLink otherDate record (byId serverMap record.id) now

end Web

end Aesmsg.Links
