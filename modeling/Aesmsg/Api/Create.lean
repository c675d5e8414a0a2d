import Aesmsg.Api.Http
import Aesmsg.Lib.Base64
import Aesmsg.Lib.Calendar
import Aesmsg.Lib.Json

/-!
# The checks of the create handler

The validation of a body in `createMessagesHandler` of
`apps/api/src/handlers/messages-handler.ts`, up to its first turn to the store.
-/

namespace Aesmsg.Api

open Store

def MAX_BODY_BYTES : Nat := 37 * 1024 * 1024

def MAX_CIPHERTEXT_BYTES : Nat := 26 * 1024 * 1024

def MIN_CIPHERTEXT_BYTES : Nat := 32

def DEFAULT_MAX_RETENTION_MS : Nat := 365 * 24 * 60 * 60 * 1000

def RETENTION_GRACE_MS : Nat := 60 * 60 * 1000

/-- The text of a request body: its length, and what `JSON.parse` makes of it, none where it
throws. -/
structure RawBody where
  length : Nat
  parsed : Option Json

structure RequestBody where
  id : String
  ciphertext : String
  expiresAt : String
  maxOpens : JsNumber
deriving DecidableEq, Repr

def parseBody (parsed : Option Json) : Option RequestBody := do
  let p ← parsed
  let id ← (p.field? "id").bind Json.asString?
  let ciphertext ← (p.field? "ciphertext").bind Json.asString?
  let expiresAt ← (p.field? "expiresAt").bind Json.asString?
  let maxOpens ← (p.field? "maxOpens").bind Json.asNumber?
  return { id, ciphertext, expiresAt, maxOpens }

/-- `BASE64_REGEX`, `/^[A-Za-z0-9+/]*={0,2}$/`. -/
def isBase64 (s : String) : Bool := (Base64.dropPad s.toList).all Base64.standard.chars.contains

def decodeBase64 (s : String) : Option (List UInt8) := if isBase64 s then Base64.atob s else none

/-- `otherDate` is what `new Date` makes of the strings that are not in the form that `toISOString`
writes, where the engine decides. -/
structure CreateConfig where
  maxRetentionMs : Nat
  otherDate : String → Option Instant

/-- The default ceiling, and an engine that reads no other dates. -/
def CreateConfig.default : CreateConfig := ⟨DEFAULT_MAX_RETENTION_MS, fun _ ↦ none⟩

/-- The time value of `new Date(s)`, none for an invalid date. -/
def parseDate (otherDate : String → Option Instant) (s : String) : Option Instant :=
  (Calendar.parseISO s).or (otherDate s)

/-- What the handler reads from a body at time `now`, none where it answers 400. -/
def createDraft (cfg : CreateConfig) (raw : RawBody) (now : Instant) : Option Draft := do
  guard (raw.length ≤ MAX_BODY_BYTES)
  let body ← parseBody raw.parsed
  guard (isLinkId body.id)
  guard (body.maxOpens.isInteger ∧ (0 < body.maxOpens.toInt ∨ body.maxOpens.toInt = -1))
  let expiresAt ← parseDate cfg.otherDate body.expiresAt
  guard (now < expiresAt)
  guard (expiresAt - now ≤ cfg.maxRetentionMs + RETENTION_GRACE_MS)
  let blob ← decodeBase64 body.ciphertext
  guard (MIN_CIPHERTEXT_BYTES ≤ blob.length ∧ blob.length ≤ MAX_CIPHERTEXT_BYTES)
  return ⟨body.id, expiresAt, body.maxOpens.toInt, blob⟩

/-- A valid date is read as the date it was written from. -/
theorem parseDate_toISOString (otherDate : String → Option Instant) (d : Calendar.Date) :
    parseDate otherDate (Calendar.toISOString d.time) = some d.time := by
  unfold parseDate
  rw [d.parseISO_toISOString]
  rfl

/-- The text is accepted by `BASE64_REGEX`. -/
theorem isBase64_btoa (bytes : List UInt8) : isBase64 (Base64.btoa bytes) = true := by
  obtain ⟨k, hk, htext, -⟩ := Base64.toList_btoa bytes
  unfold isBase64
  rw [htext, Base64.dropPad_text bytes hk, List.all_eq_true]
  intro c hc
  exact List.contains_iff_mem.mpr (Base64.standard.mem_of_mem_text hc)

theorem decodeBase64_btoa (bytes : List UInt8) : decodeBase64 (Base64.btoa bytes) = some bytes := by
  unfold decodeBase64
  rw [if_pos (isBase64_btoa bytes), Base64.atob_btoa]

/-- What a draft takes from the body it was read from. -/
structure Reads (cfg : CreateConfig) (body : RequestBody) (draft : Draft) : Prop where
  id : draft.id = body.id
  expiresAt : parseDate cfg.otherDate body.expiresAt = some draft.expiresAt
  maxOpens : body.maxOpens = .int draft.maxOpens
  blob : decodeBase64 body.ciphertext = some draft.blob
  length : MIN_CIPHERTEXT_BYTES ≤ draft.blob.length

theorem createDraft_reads {cfg : CreateConfig} {raw : RawBody} {now : Instant} {draft : Draft}
    (h : createDraft cfg raw now = some draft) :
    ∃ body, parseBody raw.parsed = some body ∧ Reads cfg body draft := by
  simp only [createDraft, Option.bind_eq_bind, Option.bind_eq_some_iff, Option.guard_eq_some'] at h
  obtain ⟨-, -, body, hbody, -, -, -, ⟨hint, -⟩, expiresAt, hdate, -, -, -, -, blob, hblob, -,
    ⟨hmin, -⟩, hdraft⟩ := h
  cases hdraft
  exact ⟨body, hbody, rfl, hdate, JsNumber.isInteger_iff.mp hint, hblob, hmin⟩

end Aesmsg.Api
