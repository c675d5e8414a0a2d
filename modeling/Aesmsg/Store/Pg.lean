import Aesmsg.Store.Types

/-!
# The Postgres stores

`PgLinkMetadataStore` and `PgCiphertextStore` over the tables of `migrations/`.  A value that a
column cannot hold cannot be built: the integer columns are 32 bits wide, `timestamptz` counts
microseconds in the range of Postgres, and the checks and the foreign key of the tables are fields.
A statement either yields its result with the new tables or fails and changes nothing.
-/

namespace Aesmsg.Store.Pg

/-! ## Column types -/

/-- An `integer`. -/
abbrev Int4 := { n : Int // -2147483648 ≤ n ∧ n ≤ 2147483647 }

/-- A `timestamptz`, in microseconds since 1970: 4714-11-24 BC to 294277-01-01 AD. -/
abbrev Timestamptz := { t : Int // -210866803200000000 ≤ t ∧ t < 9223371331200000000 }

inductive PgError where
  | integerOutOfRange
  | timestampOutOfRange
  | checkViolation
  | duplicateKey
  | foreignKeyViolation
  /-- Any other failure of a statement. -/
  | failed (message : String)
deriving DecidableEq, Repr

def toInt4 (n : Int) : Except PgError Int4 :=
  if h : -2147483648 ≤ n ∧ n ≤ 2147483647 then .ok ⟨n, h⟩ else .error .integerOutOfRange

/-- A `Date` parameter.  An invalid date is no timestamp. -/
def toTimestamptz (t : Option Instant) : Except PgError Timestamptz :=
  match t with
  | none => .error .timestampOutOfRange
  | some ms =>
    if h : -210866803200000000 ≤ 1000 * ms ∧ 1000 * ms < 9223371331200000000 then
      .ok ⟨1000 * ms, h⟩
    else .error .timestampOutOfRange

/-- The `Date` a `timestamptz` is read as: the driver drops the microseconds. -/
def toDate (t : Timestamptz) : Int := t.val / 1000

/-! ## Tables -/

/-- `links`, without its key.  No statement of the store writes `created_at`. -/
structure LinksRow where
  status : LinkStatus
  created_at : Option Timestamptz
  expires_at : Timestamptz
  max_opens : Int4
  opens_count : Int4
  revocation_token_hash : Option String
  terminal_at : Option Timestamptz
  max_opens_check : 0 < max_opens.val ∨ max_opens.val = -1
  opens_count_check : 0 ≤ opens_count.val

/-- `link_ciphertexts`, without its key. -/
structure CiphertextRow where
  blob : List UInt8
  size : Int4
  size_check : 0 ≤ size.val

/-- The two tables.  `link_ciphertexts.link_id` references `links.id`. -/
structure Db where
  links : OrderedMap LinkId LinksRow
  link_ciphertexts : OrderedMap LinkId CiphertextRow
  foreign_key : ∀ id blob, link_ciphertexts.get? id = some blob → ∃ row, links.get? id = some row

namespace Db

def empty : Db := ⟨.empty, .empty, by rintro id blob ⟨⟩⟩

/-- `INSERT INTO links`. -/
def insertLink (db : Db) (id : LinkId) (row : LinksRow) : Except PgError Db :=
  if db.links.has id then .error .duplicateKey
  else .ok { db with
    links := db.links.set id row
    foreign_key := by
      intro j blob hb
      rw [OrderedMap.get?_set]
      split
      · exact ⟨row, rfl⟩
      · exact db.foreign_key j blob hb }

/-- `UPDATE links SET .. `. -/
def updateLinks (db : Db) (f : LinkId → LinksRow → LinksRow) : Db :=
  { db with
    links := db.links.filterMap fun id row ↦ some (f id row)
    foreign_key := by
      intro j blob hb
      obtain ⟨row, hr⟩ := db.foreign_key j blob hb
      exact ⟨f j row, by rw [OrderedMap.get?_filterMap, hr]; rfl⟩ }

/-- `DELETE FROM links WHERE ..`, with the cascade to the ciphertexts. -/
def deleteLinks (db : Db) (p : LinkId → LinksRow → Bool) : Db where
  links := db.links.filterMap fun id row ↦ if p id row then none else some row
  link_ciphertexts := db.link_ciphertexts.filterMap fun id blob ↦
    if (db.links.get? id).any (p id) then none else some blob
  foreign_key := by
    intro j blob hb
    rw [OrderedMap.get?_filterMap, Option.bind_eq_some_iff] at hb
    obtain ⟨b, hb, hp⟩ := hb
    obtain ⟨row, hr⟩ := db.foreign_key j b hb
    refine ⟨row, ?_⟩
    rw [OrderedMap.get?_filterMap, hr]
    rw [hr] at hp
    split at hp
    · cases hp
    · rename_i hn
      exact if_neg hn

/-- `INSERT INTO link_ciphertexts`, replacing the row of the key if there is one. -/
def upsertCiphertext (db : Db) (id : LinkId) (blob : List UInt8) : Except PgError Db := do
  let size ← toInt4 blob.length
  if hsize : 0 ≤ size.val then
    if h : db.links.has id = true then
      return { db with
        link_ciphertexts := db.link_ciphertexts.set id ⟨blob, size, hsize⟩
        foreign_key := by
          intro j b hb
          rw [OrderedMap.get?_set] at hb
          split at hb
          · rename_i hj
            rw [hj]
            exact OrderedMap.has_eq_true.mp h
          · exact db.foreign_key j b hb }
    else throw .foreignKeyViolation
  else throw .checkViolation

/-- `DELETE FROM link_ciphertexts WHERE ..`. -/
def deleteCiphertexts (db : Db) (p : LinkId → Bool) : Db :=
  { db with
    link_ciphertexts := db.link_ciphertexts.filterMap fun id blob ↦ if p id then none else some blob
    foreign_key := by
      intro j blob hb
      rw [OrderedMap.get?_filterMap, Option.bind_eq_some_iff] at hb
      obtain ⟨b, hb, -⟩ := hb
      exact db.foreign_key j b hb }

end Db

/-! ## `PgCiphertextStore` -/

def putCiphertext (db : Db) (id : LinkId) (blob : List UInt8) : Except PgError Db :=
  db.upsertCiphertext id blob

def getCiphertext (db : Db) (id : LinkId) : Option (List UInt8) :=
  (db.link_ciphertexts.get? id).map (·.blob)

def deleteCiphertext (db : Db) (id : LinkId) : Db := db.deleteCiphertexts (· = id)

def totalBytes (db : Db) : Int :=
  db.link_ciphertexts.values.foldl (fun total row ↦ total + row.size.val) 0

/-! ## `PgLinkMetadataStore` -/

def rowToMeta (id : LinkId) (row : LinksRow) : LinkMetadata where
  id := id
  status := row.status
  createdAt := row.created_at.map toDate
  expiresAt := toDate row.expires_at
  maxOpens := row.max_opens.val
  opensCount := row.opens_count.val.toNat

/-- The row that `INSERT INTO links` builds from its parameters. -/
def newRow (record : CreateLinkRecord) : Except PgError LinksRow := do
  let expires ← toTimestamptz (some record.expiresAt)
  let max ← toInt4 record.maxOpens
  if hmax : 0 < max.val ∨ max.val = -1 then
    return {
      status := .active
      created_at := none
      expires_at := expires
      max_opens := max
      opens_count := ⟨0, by decide⟩
      revocation_token_hash := record.revocationTokenHash
      terminal_at := none
      max_opens_check := hmax
      opens_count_check := by decide }
  else throw .checkViolation

def create (db : Db) (record : CreateLinkRecord) : Except PgError (LinkMetadata × Db) := do
  let row ← newRow record
  let db ← db.insertLink record.id row
  return (rowToMeta record.id row, db)

/-- The transaction of `createWithCiphertext`.  `putError` is a failure of the second insert. -/
def createWithCiphertext (db : Db) (record : CreateLinkRecord) (ciphertext : List UInt8)
    (putError : Option String) : Except PgError (LinkMetadata × Db) := do
  let (row, db) ← create db record
  match putError with
  | some e => throw (.failed e)
  | none =>
    let db ← db.upsertCiphertext record.id ciphertext
    return (row, db)

def get (db : Db) (id : LinkId) : Option LinkMetadata := (db.links.get? id).map (rowToMeta id)

/-- The row that the `UPDATE` of `incrementOpens` writes over `row`. -/
def opened (row : LinksRow) (now : Timestamptz) : Except PgError LinksRow := do
  let count ← toInt4 (row.opens_count.val + 1)
  if hcount : 0 ≤ count.val then
    let exhausted : Bool := row.max_opens.val ≠ -1 ∧ row.max_opens.val ≤ count.val
    return { row with
      opens_count := count
      opens_count_check := hcount
      status := if exhausted then .expired else row.status
      terminal_at := if exhausted then some now else row.terminal_at }
  else throw .checkViolation

/-- One statement: the guarded update, and the delete of the ciphertext of a row it expired. -/
def incrementOpens (db : Db) (id : LinkId) (now : Timestamptz) :
    Except PgError (Option LinkMetadata × Db) :=
  match db.links.get? id with
  | none => .ok (none, db)
  | some row =>
    if row.status = .active ∧ now.val < row.expires_at.val then do
      let updated ← opened row now
      let db := db.updateLinks fun k r ↦ if k = id then updated else r
      let db := if updated.status = .expired then db.deleteCiphertexts (· = id) else db
      return (some (rowToMeta id updated), db)
    else .ok (none, db)

/-- `UPDATE links SET status = 'revoked', terminal_at = now() WHERE id = $1`. -/
def updateRevoked (db : Db) (id : LinkId) (now : Timestamptz) : Db :=
  db.updateLinks fun k row ↦
    if k = id then { row with status := .revoked, terminal_at := some now } else row

/-- The transaction of `revoke`. -/
def revoke (db : Db) (id : LinkId) (providedTokenHash : Option String) (now : Timestamptz) : Db :=
  match db.links.get? id with
  | none => db
  | some row =>
    if row.status ≠ .active then db
    else if revokeAllowed row.revocation_token_hash providedTokenHash then
      (updateRevoked db id now).deleteCiphertexts (· = id)
    else db

def isPastDue (row : LinksRow) (now : Timestamptz) : Bool :=
  row.status = .active ∧ row.expires_at.val ≤ now.val

def isTerminal (row : LinksRow) : Bool := row.status = .expired || row.status = .revoked

/-- The first statement of `expirePastDue`. -/
def updateExpired (db : Db) (now : Timestamptz) : Db :=
  db.updateLinks fun _ row ↦
    if isPastDue row now then { row with status := .expired, terminal_at := some now } else row

/-- Whether the second statement of `expirePastDue` deletes the ciphertext of `id`. -/
def inTerminal (db : Db) (id : LinkId) : Bool := (db.links.get? id).any isTerminal

def isPrunable (row : LinksRow) (before : Timestamptz) : Bool :=
  isTerminal row && row.terminal_at.any fun at_ ↦ at_.val < before.val

def pruneTerminal (db : Db) (before : Option Instant) : Except PgError (Nat × Db) := do
  let before ← toTimestamptz before
  let deleted := db.links.keys.countP fun id ↦ (db.links.get? id).any (isPrunable · before)
  return (deleted, db.deleteLinks fun _ row ↦ isPrunable row before)

/-- Three statements.  The tables keep what the first two wrote when the third fails.  `nowMs` is
`Date.now()`, from which the client computes the cutoff. -/
def expirePastDue (db : Db) (retention : Nat) (now : Timestamptz) (nowMs : Instant) :
    Except PgError Nat × Db :=
  let db := updateExpired db now
  let purged := db.link_ciphertexts.keys.countP fun id ↦ inTerminal db id
  let db := db.deleteCiphertexts fun id ↦ inTerminal db id
  match pruneTerminal db (newDate (nowMs - retention)) with
  | .error e => (.error e, db)
  | .ok (_, db) => (.ok purged, db)

def aggregateStats (db : Db) : StorageStats where
  activeLinks := (db.links.values.filter fun row ↦ row.status = .active).length
  ciphertextBytes := (totalBytes db).toNat

/-- The transaction of `adminPurge`. -/
def adminPurge (db : Db) (id : LinkId) (now : Timestamptz) : AdminPurgeResult × Db :=
  let found := db.links.has id
  let wasActive := (db.links.get? id).any (·.status = .active)
  let db := if wasActive then updateRevoked db id now else db
  (⟨found, wasActive, db.link_ciphertexts.has id⟩, db.deleteCiphertexts (· = id))

end Aesmsg.Store.Pg
