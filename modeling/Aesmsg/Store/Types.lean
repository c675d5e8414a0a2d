import Aesmsg.Lib.OrderedMap

/-!
# Link records

The data of `packages/server-store`: `types.ts`, `interfaces.ts`, `constant-time.ts` and the clock
readings of `retention.ts`.  An instant is the time value of a `Date`, in milliseconds.
-/

namespace Aesmsg.Store

abbrev LinkId := String

abbrev Instant := Int

inductive LinkStatus where
  | active | revoked | expired
deriving DecidableEq, Repr

/-- `createdAt` is null for v2 links.  `maxOpens` is `-1` for a link that is unlimited until it
expires, otherwise a positive integer. -/
structure LinkMetadata where
  id : LinkId
  status : LinkStatus
  createdAt : Option Instant
  expiresAt : Instant
  maxOpens : Int
  opensCount : Nat
deriving DecidableEq, Repr

namespace LinkMetadata

/-- `status === "expired" || status === "revoked"`. -/
def isTerminal (row : LinkMetadata) : Bool := row.status = .expired || row.status = .revoked

theorem isTerminal_iff {row : LinkMetadata} : row.isTerminal = true ↔ row.status ≠ .active := by
  unfold isTerminal
  cases row.status <;> decide

end LinkMetadata

structure CreateLinkRecord where
  id : LinkId
  expiresAt : Instant
  maxOpens : Int
  revocationTokenHash : Option String
deriving DecidableEq, Repr

/-- The row a new link starts from. -/
def CreateLinkRecord.meta (record : CreateLinkRecord) : LinkMetadata where
  id := record.id
  expiresAt := record.expiresAt
  maxOpens := record.maxOpens
  status := .active
  opensCount := 0
  createdAt := none

structure StorageStats where
  activeLinks : Nat
  ciphertextBytes : Nat
deriving DecidableEq, Repr

structure AdminPurgeResult where
  found : Bool
  wasActive : Bool
  ciphertextRemoved : Bool
deriving DecidableEq, Repr

/-! ## Constant-time comparison -/

/-- The value of a hexadecimal digit. -/
def hexDigit (c : Char) : Option Nat :=
  if '0' ≤ c ∧ c ≤ '9' then some (c.toNat - 48)
  else if 'a' ≤ c ∧ c ≤ 'f' then some (c.toNat - 87)
  else if 'A' ≤ c ∧ c ≤ 'F' then some (c.toNat - 55)
  else none

/-- `Buffer.from(s, "hex")`: whole pairs of digits, up to the first that is not one. -/
def bufferFromHex : List Char → List UInt8
  | a :: b :: rest =>
    match hexDigit a, hexDigit b with
    | some x, some y => UInt8.ofNat (16 * x + y) :: bufferFromHex rest
    | _, _ => []
  | _ => []

def timingSafeEqualHex (a b : String) : Bool :=
  let bufA := bufferFromHex a.toList
  let bufB := bufferFromHex b.toList
  if bufA.length = 0 ∨ bufA.length ≠ bufB.length then false else bufA == bufB

/-- Whether `revoke` lets a request through: a row without a hash takes any, a row with one only
the matching token. -/
def revokeAllowed (storedHash providedTokenHash : Option String) : Bool :=
  match storedHash, providedTokenHash with
  | none, _ => true
  | some _, none => false
  | some stored, some provided => timingSafeEqualHex stored provided

/-! ## Clock readings -/

/-- The largest magnitude of a time value. -/
def maxTimeValue : Int := 8640000000000000

/-- `new Date(t)`, none for an invalid date. -/
def newDate (t : Int) : Option Instant :=
  if -maxTimeValue ≤ t ∧ t ≤ maxTimeValue then some t else none

/-- The readings of the clock that one operation makes: on entry, when it stamps a row, and when it
computes the retention cutoff. -/
structure Clock where
  now : Instant
  stamp : LinkId → Instant
  later : Instant

/-- A clock that shows one instant throughout the operation. -/
def Clock.at (t : Instant) : Clock := ⟨t, fun _ ↦ t, t⟩

end Aesmsg.Store
