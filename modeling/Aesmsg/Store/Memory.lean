import Aesmsg.Store.Types

/-!
# The in-memory stores

`MemoryLinkMetadataStore` with the `MemoryCiphertextStore` wired into it, as
`apps/api/src/stores/stores.ts` does.  Each method is split at its awaits into the segments that run
without interruption; the methods at the end of the file run their segments one after the other.

`create` and the segments after a failed guard throw or return without touching the store.
-/

namespace Aesmsg.Store

structure MemoryStore where
  rows : OrderedMap LinkId LinkMetadata
  revocationTokenHashes : OrderedMap LinkId (Option String)
  terminalAt : OrderedMap LinkId Instant
  /-- `MemoryCiphertextStore.rows` -/
  ciphertexts : OrderedMap LinkId (List UInt8)

namespace MemoryStore

def empty : MemoryStore := ⟨.empty, .empty, .empty, .empty⟩

/-! ## The ciphertext store -/

def put (s : MemoryStore) (id : LinkId) (blob : List UInt8) : MemoryStore :=
  { s with ciphertexts := s.ciphertexts.set id blob }

def getCiphertext (s : MemoryStore) (id : LinkId) : Option (List UInt8) := s.ciphertexts.get? id

def deleteCiphertext (s : MemoryStore) (id : LinkId) : MemoryStore :=
  { s with ciphertexts := s.ciphertexts.delete id }

def totalBytes (s : MemoryStore) : Nat :=
  s.ciphertexts.values.foldl (fun total blob ↦ total + blob.length) 0

/-! ## Segments -/

def get (s : MemoryStore) (id : LinkId) : Option LinkMetadata := s.rows.get? id

def create (s : MemoryStore) (record : CreateLinkRecord) :
    Except String (LinkMetadata × MemoryStore) :=
  if s.rows.has record.id then
    .error s!"MemoryLinkMetadataStore: link {record.id} already exists"
  else
    let row := record.meta
    .ok (row, { s with
      rows := s.rows.set record.id row
      revocationTokenHashes := s.revocationTokenHashes.set record.id record.revocationTokenHash })

/-- The `catch` of `createWithCiphertext`. -/
def rollback (s : MemoryStore) (id : LinkId) : MemoryStore :=
  { s with
    rows := s.rows.delete id
    revocationTokenHashes := s.revocationTokenHashes.delete id }

def incrementOpens (s : MemoryStore) (id : LinkId) (clock : Clock) :
    Option LinkMetadata × MemoryStore :=
  match s.rows.get? id with
  | none => (none, s)
  | some row =>
    if row.status ≠ .active then (none, s)
    else if row.expiresAt ≤ clock.now then (none, s)
    else
      let newCount := row.opensCount + 1
      let newStatus : LinkStatus :=
        if row.maxOpens ≠ -1 ∧ row.maxOpens ≤ newCount then .expired else row.status
      let updated := { row with opensCount := newCount, status := newStatus }
      let s := { s with rows := s.rows.set id updated }
      if newStatus = .expired then
        (some updated, { s with
          terminalAt := s.terminalAt.set id (clock.stamp id)
          ciphertexts := s.ciphertexts.delete id })
      else (some updated, s)

def revoke (s : MemoryStore) (id : LinkId) (providedTokenHash : Option String) (clock : Clock) :
    MemoryStore :=
  match s.rows.get? id with
  | none => s
  | some row =>
    if row.status ≠ .active then s
    else
      let storedHash := (s.revocationTokenHashes.get? id).getD none
      if revokeAllowed storedHash providedTokenHash then
        { s with
          rows := s.rows.set id { row with status := .revoked }
          terminalAt := s.terminalAt.set id (clock.stamp id)
          ciphertexts := s.ciphertexts.delete id }
      else s

/-- The body of the first loop of `expirePastDue`. -/
def expireRow (clock : Clock) (s : MemoryStore) (id : LinkId) : MemoryStore :=
  match s.rows.get? id with
  | none => s
  | some row =>
    if row.status = .active ∧ row.expiresAt ≤ clock.now then
      { s with
        rows := s.rows.set id { row with status := .expired }
        terminalAt := s.terminalAt.set id (clock.stamp id) }
    else s

/-- The first loop of `expirePastDue`, which does not await. -/
def expireRows (s : MemoryStore) (clock : Clock) : MemoryStore :=
  s.rows.keys.foldl (expireRow clock) s

/-- Whether `pruneTerminal` deletes the row with this entry.  The cutoff of an invalid `before` is
`NaN`, and no comparison with it holds. -/
def prunes (s : MemoryStore) (before : Option Instant) (id : LinkId) (row : LinkMetadata) : Bool :=
  row.isTerminal &&
    match s.terminalAt.get? id with
    | none => false
    | some at_ => !before.any fun cutoff ↦ cutoff ≤ at_

/-- The deletions `pruneTerminal` makes between two awaits. -/
def deleteRow (s : MemoryStore) (id : LinkId) : MemoryStore where
  rows := s.rows.delete id
  revocationTokenHashes := s.revocationTokenHashes.delete id
  terminalAt := s.terminalAt.delete id
  ciphertexts := s.ciphertexts.delete id

/-- The first segment of `adminPurge`: `found`, `wasActive` and the store after the flip. -/
def adminFlip (s : MemoryStore) (id : LinkId) (clock : Clock) : Bool × Bool × MemoryStore :=
  match s.rows.get? id with
  | none => (false, false, s)
  | some row =>
    if row.status = .active then
      (true, true, { s with
        rows := s.rows.set id { row with status := .revoked }
        terminalAt := s.terminalAt.set id (clock.stamp id) })
    else (true, false, s)

/-! ## Whole methods -/

/-- `putError` is the error of a ciphertext write that fails. -/
def createWithCiphertext (s : MemoryStore) (record : CreateLinkRecord) (ciphertext : List UInt8)
    (putError : Option String) : Except String LinkMetadata × MemoryStore :=
  match s.create record with
  | .error e => (.error e, s)
  | .ok (row, s) =>
    match putError with
    | some e => (.error e, s.rollback record.id)
    | none => (.ok row, s.put record.id ciphertext)

/-- The body of the second loop of `expirePastDue`, with its counter. -/
def purgeRow (acc : MemoryStore × Nat) (id : LinkId) : MemoryStore × Nat :=
  match acc.1.rows.get? id with
  | none => acc
  | some row =>
    if row.isTerminal then
      match acc.1.getCiphertext id with
      | none => acc
      | some _ => (acc.1.deleteCiphertext id, acc.2 + 1)
    else acc

/-- The second loop of `expirePastDue`, with the number of blobs it removed. -/
def purgeRows (s : MemoryStore) : MemoryStore × Nat := s.rows.keys.foldl purgeRow (s, 0)

/-- The body of the loop of `pruneTerminal`, with its counter. -/
def pruneRow (before : Option Instant) (acc : MemoryStore × Nat) (id : LinkId) :
    MemoryStore × Nat :=
  match acc.1.rows.get? id with
  | none => acc
  | some row => if acc.1.prunes before id row then (acc.1.deleteRow id, acc.2 + 1) else acc

def pruneTerminal (s : MemoryStore) (before : Option Instant) : Nat × MemoryStore :=
  let acc := s.rows.keys.foldl (pruneRow before) (s, 0)
  (acc.2, acc.1)

/-- `retention` is the value of `terminalRetentionMs()`. -/
def expirePastDue (s : MemoryStore) (retention : Nat) (clock : Clock) : Nat × MemoryStore :=
  let acc := (s.expireRows clock).purgeRows
  (acc.2, (acc.1.pruneTerminal (newDate (clock.later - retention))).2)

def adminPurge (s : MemoryStore) (id : LinkId) (clock : Clock) : AdminPurgeResult × MemoryStore :=
  let (found, wasActive, s) := s.adminFlip id clock
  match s.getCiphertext id with
  | none => (⟨found, wasActive, false⟩, s)
  | some _ => (⟨found, wasActive, true⟩, s.deleteCiphertext id)

def aggregateStats (s : MemoryStore) : StorageStats where
  activeLinks := (s.rows.values.filter fun row ↦ row.status = .active).length
  ciphertextBytes := s.totalBytes

end MemoryStore

end Aesmsg.Store
