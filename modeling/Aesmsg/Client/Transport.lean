import Aesmsg.Lib.Json
import Aesmsg.Store.Types

/-!
# The transport of the clients

`apps/mobile/src/api/client.ts` and `apps/webapp/src/api/client.ts`: how a request fails or resolves,
as a function of what `fetch` did, and the checks of the response to an open.
-/

namespace Aesmsg.Client

open Store

inductive Platform where
  | mobile
  | web
deriving DecidableEq, Repr

/-- What a client call may throw. -/
inductive Thrown where
  | apiError (status : Nat)
  | timeoutError
  /-- Only the web client wraps a rejected fetch. -/
  | networkError
  | malformedResponseError (detail : String)
  /-- Any other `Error`, known by its name. -/
  | error (name : String)
  /-- A throwable that is not an `Error`. -/
  | nonError
deriving DecidableEq, Repr

/-- `err.name`, of an `Error`. -/
def Thrown.name? : Thrown → Option String
  | apiError _ => some "ApiError"
  | timeoutError => some "TimeoutError"
  | networkError => some "NetworkError"
  | malformedResponseError _ => some "MalformedResponseError"
  | error name => some name
  | nonError => none

/-- What `fetch` did.  `body` is none where `res.json()` rejects. -/
inductive Fetch where
  | rejected (err : Thrown) (timedOut aborted : Bool)
  | response (status : Nat) (body : Option Json)

/-- `res.ok` -/
def isOk (status : Nat) : Bool := 200 ≤ status ∧ status ≤ 299

def requestWithTimeout (platform : Platform) : Fetch → Except Thrown (Nat × Option Json)
  | .response status body => .ok (status, body)
  | .rejected err timedOut aborted =>
    if timedOut then .error .timeoutError
    else
      match platform with
      | .mobile => .error err
      | .web => if aborted then .error err else .error .networkError

def fetchJson {α : Type} (platform : Platform) (fetch : Fetch) (validate : Json → Except Thrown α) :
    Except Thrown α :=
  match requestWithTimeout platform fetch with
  | .error err => .error err
  | .ok (status, body) =>
    if !isOk status then .error (.apiError status)
    else
      match body with
      | none => .error (.malformedResponseError "body was not valid JSON")
      | some body => validate body

structure OpenMessageResponse where
  ciphertext : String
  createdAt : Option String
  expiresAt : String
  opensCount : JsNumber
  maxOpens : JsNumber
  status : LinkStatus
deriving DecidableEq, Repr

/-- `isKnownStatus` -/
def knownStatus? (value : Json) : Option LinkStatus :=
  match value.asString? with
  | some "active" => some .active
  | some "revoked" => some .revoked
  | some "expired" => some .expired
  | _ => none

/-- The value of a field that passes its check, or the error that names the field. -/
def checkField {α : Type} (body : Json) (name : String) (check : Json → Option α) (detail : String) :
    Except Thrown α :=
  match (body.field? name).bind check with
  | some value => .ok value
  | none => .error (.malformedResponseError detail)

theorem checkField_eq_ok {α : Type} {body field : Json} {name : String} {check : Json → Option α}
    {value : α} (hfield : body.field? name = some field) (hcheck : check field = some value)
    (detail : String) : checkField body name check detail = .ok value := by
  unfold checkField
  rw [hfield, Option.bind_some, hcheck]

def checkRecord (body : Json) (detail : String) : Except Thrown Unit :=
  if body.isRecord then .ok () else .error (.malformedResponseError detail)

/-- A string that is not empty. -/
def nonEmpty? (value : Json) : Option String := value.asString?.filter (· ≠ "")

def Mobile.validateOpenMessageResponse (body : Json) : Except Thrown OpenMessageResponse := do
  checkRecord body "open response was not an object"
  let ciphertext ← checkField body "ciphertext" nonEmpty? "open response is missing ciphertext"
  let expiresAt ← checkField body "expiresAt" Json.asString? "open response.expiresAt was not a string"
  let createdAt ← checkField body "createdAt" Json.asStringOrNull?
    "open response.createdAt was not a string or null"
  let maxOpens ← checkField body "maxOpens" Json.asNumber? "open response.maxOpens was not a number"
  let opensCount ← checkField body "opensCount" Json.asNumber?
    "open response.opensCount was not a number"
  let status ← checkField body "status" knownStatus? "open response.status is missing or unknown"
  return { ciphertext, createdAt, expiresAt, opensCount, maxOpens, status }

def Web.validateOpenMessageResponse (body : Json) : Except Thrown OpenMessageResponse := do
  checkRecord body "open response was not an object"
  let ciphertext ← checkField body "ciphertext" nonEmpty? "open response is missing ciphertext"
  let createdAt ← checkField body "createdAt" Json.asStringOrNull?
    "open response createdAt must be a string or null"
  let expiresAt ← checkField body "expiresAt" Json.asString? "open response is missing expiresAt"
  let opensCount ← checkField body "opensCount" Json.asNumber? "open response is missing opens fields"
  let maxOpens ← checkField body "maxOpens" Json.asNumber? "open response is missing opens fields"
  let status ← checkField body "status" knownStatus? "open response has an unknown status"
  return { ciphertext, createdAt, expiresAt, opensCount, maxOpens, status }

def validateOpenMessageResponse : Platform → Json → Except Thrown OpenMessageResponse
  | .mobile => Mobile.validateOpenMessageResponse
  | .web => Web.validateOpenMessageResponse

/-- `openMessage`, with what `fetch` does. -/
def openMessage (platform : Platform) (fetch : Fetch) : Except Thrown OpenMessageResponse :=
  fetchJson platform fetch (validateOpenMessageResponse platform)

theorem openMessage_response (platform : Platform) (status : Nat) (body : Option Json) :
    openMessage platform (.response status body) =
      if isOk status then
        match body with
        | none => .error (.malformedResponseError "body was not valid JSON")
        | some body => validateOpenMessageResponse platform body
      else .error (.apiError status) := by
  cases hs : isOk status with
  | false => simp [openMessage, fetchJson, requestWithTimeout, hs]
  | true =>
    cases body with
    | none => simp [openMessage, fetchJson, requestWithTimeout, hs]
    | some body => simp [openMessage, fetchJson, requestWithTimeout, hs]

/-! ## A body that fails a check -/

/-- A check throws nothing but a `MalformedResponseError`. -/
def OnlyMalformed {α : Type} (result : Except Thrown α) : Prop :=
  ∀ err, result = .error err → ∃ detail, err = .malformedResponseError detail

section OnlyMalformed

variable {α β : Type}

theorem onlyMalformed_ok (value : α) : OnlyMalformed (.ok value) := nofun

theorem onlyMalformed_error (detail : String) :
    OnlyMalformed (.error (.malformedResponseError detail) : Except Thrown α) := by
  intro err h
  exact ⟨detail, (Except.error.inj h).symm⟩

theorem OnlyMalformed.bind {result : Except Thrown α} {next : α → Except Thrown β}
    (h : OnlyMalformed result) (hnext : ∀ value, OnlyMalformed (next value)) :
    OnlyMalformed (result >>= next) := by
  cases result with
  | error err =>
    obtain ⟨detail, rfl⟩ := h err rfl
    exact onlyMalformed_error detail
  | ok value => exact hnext value

theorem onlyMalformed_checkField (body : Json) (name : String) (check : Json → Option α)
    (detail : String) : OnlyMalformed (checkField body name check detail) := by
  unfold checkField
  split
  · exact onlyMalformed_ok _
  · exact onlyMalformed_error detail

theorem onlyMalformed_checkRecord (body : Json) (detail : String) :
    OnlyMalformed (checkRecord body detail) := by
  unfold checkRecord
  split
  · exact onlyMalformed_ok _
  · exact onlyMalformed_error detail

end OnlyMalformed

theorem onlyMalformed_validate (platform : Platform) (body : Json) :
    OnlyMalformed (validateOpenMessageResponse platform body) := by
  cases platform with
  | mobile =>
    refine (onlyMalformed_checkRecord _ _).bind fun _ ↦ ?_
    refine (onlyMalformed_checkField _ _ _ _).bind fun _ ↦ ?_
    refine (onlyMalformed_checkField _ _ _ _).bind fun _ ↦ ?_
    refine (onlyMalformed_checkField _ _ _ _).bind fun _ ↦ ?_
    refine (onlyMalformed_checkField _ _ _ _).bind fun _ ↦ ?_
    refine (onlyMalformed_checkField _ _ _ _).bind fun _ ↦ ?_
    exact (onlyMalformed_checkField _ _ _ _).bind fun _ ↦ onlyMalformed_ok _
  | web =>
    refine (onlyMalformed_checkRecord _ _).bind fun _ ↦ ?_
    refine (onlyMalformed_checkField _ _ _ _).bind fun _ ↦ ?_
    refine (onlyMalformed_checkField _ _ _ _).bind fun _ ↦ ?_
    refine (onlyMalformed_checkField _ _ _ _).bind fun _ ↦ ?_
    refine (onlyMalformed_checkField _ _ _ _).bind fun _ ↦ ?_
    refine (onlyMalformed_checkField _ _ _ _).bind fun _ ↦ ?_
    exact (onlyMalformed_checkField _ _ _ _).bind fun _ ↦ onlyMalformed_ok _

end Aesmsg.Client
