import Mathlib.Logic.Function.Basic
import Aesmsg.Server.Trace
import Aesmsg.Store.Pg

/-!
# The server over Postgres

The API handlers and the methods of `PgLinkMetadataStore` as threads on one database.  A step is one
SQL statement under READ COMMITTED: it sees what is committed, and it waits for the rows that an open
transaction of another thread has locked.  What a transaction has written is kept in its thread until
it commits.  A statement over several rows takes effect on some of the rows that match and are free
when it does, since it only knows the rows of its snapshot.  Any statement may fail; one that fails,
a `COMMIT` among them, is taken to have had no effect, and `Server/Opening.lean` has where a thread goes
whose statement has been committed and its reply lost.
-/

namespace Aesmsg.Server.Postgres

open Store Api Threads
open Store.Pg (Db Timestamptz)

/-- The committed tables, and the rows locked by transactions: a row of `links`, or the key of a row
that is inserted but not committed, and a row of `link_ciphertexts`. -/
structure State where
  db : Db
  rowLocks : LinkId → Option Nat
  blobLocks : LinkId → Option Nat

def State.initial : State := ⟨.empty, fun _ ↦ none, fun _ ↦ none⟩

/-- What the scheduler decides for one step: `now()`, `Date.now()`, the count of the rate limiter, a
fresh token, whether the statement fails, and which rows it takes effect on. -/
structure Input where
  now : Timestamptz
  dateNow : Instant
  count : Nat
  token : String
  fails : Bool
  chosen : LinkId → Bool

/-- A statement at time `t` that does not fail and takes effect on every row that is free. -/
def Input.at (t : Timestamptz) : Input := ⟨t, Store.Pg.toDate t, 0, "", false, fun _ ↦ true⟩

/-- Where a thread stands.  A `createWithCiphertext` that the create handler calls carries the
revocation token of its answer, a `revoke` whether it is for a `request`. -/
inductive Pc where
  | start (request : Request)
  /-- The create handler has `existing` from `links.get`. -/
  | checked (draft : Draft) (existing : Option LinkMetadata)
  /-- The transaction of `createWithCiphertext` has inserted the row. -/
  | insertBlob (token : Option String) (record : CreateLinkRecord) (ciphertext : List UInt8)
  /-- It has inserted the ciphertext. -/
  | commitCreate (token : Option String) (record : CreateLinkRecord) (ciphertext : List UInt8)
  | created (token : Option String) (record : CreateLinkRecord) (ciphertext : List UInt8)
  /-- The open handler has read the ciphertext. -/
  | increment (id : LinkId) (blob : Option (List UInt8))
  | opened (id : LinkId) (blob : Option (List UInt8)) (row : Option LinkMetadata)
  | incremented (id : LinkId) (row : Option LinkMetadata)
  /-- `revoke` has locked an active row and the token is right; `now` is that of the transaction. -/
  | deleteRevoked (request : Bool) (id : LinkId) (now : Timestamptz)
  /-- It has updated the row and deleted the ciphertext, if one was `present`. -/
  | commitRevoke (request : Bool) (id : LinkId) (now : Timestamptz) (present : Bool)
  | revoked (request : Bool) (id : LinkId) (effect : Bool)
  /-- `adminPurge` has locked the row, if there is one. -/
  | deletePurged (id : LinkId) (now : Timestamptz) (wasActive : Bool)
  | commitPurge (id : LinkId) (now : Timestamptz) (wasActive present : Bool)
  | purged (id : LinkId)
  /-- A statement of a transaction has failed. -/
  | rollback (request : Bool)
  /-- The sweep has expired the rows past due. -/
  | sweepDelete
  | prune (before : Option Instant)
  | done

/-- Whether no other thread than `i` holds the lock of `id`. -/
def free (locks : LinkId → Option Nat) (i : Nat) (id : LinkId) : Bool :=
  (locks id).all (· = i)

def lock (locks : LinkId → Option Nat) (i : Nat) (id : LinkId) : LinkId → Option Nat :=
  Function.update locks id (some i)

/-- The end of a transaction of thread `i`. -/
def State.release (s : State) (i : Nat) : State where
  db := s.db
  rowLocks := fun id ↦ if s.rowLocks id = some i then none else s.rowLocks id
  blobLocks := fun id ↦ if s.blobLocks id = some i then none else s.blobLocks id

/-- The end of a call that fails: a request is answered 500. -/
def failure (request : Bool) : List Event := finish (if request then some internalError else none)

/-- `BEGIN` and the first `INSERT` of `createWithCiphertext`.  The insert waits for an open
transaction that has inserted the same key. -/
def insertRow (i : Nat) (x : Input) (s : State) (record : CreateLinkRecord)
    (ciphertext : List UInt8) (token : Option String) : Option (Pc × State × List Event) :=
  if x.fails then some (.done, s, failure token.isSome)
  else if !free s.rowLocks i record.id then none
  else
    match Store.Pg.create s.db record with
    | .error _ => some (.done, s, failure token.isSome)
    | .ok _ =>
      some (.insertBlob token record ciphertext,
        { s with rowLocks := lock s.rowLocks i record.id }, [])

/-- The statement of `incrementOpens`. -/
def incrementOpens (i : Nat) (x : Input) (s : State) (id : LinkId)
    (resume : Option LinkMetadata → Pc) (request : Bool) : Option (Pc × State × List Event) :=
  if x.fails then some (.done, s, failure request)
  else if s.db.links.has id && !free s.rowLocks i id then none
  else
    match Store.Pg.incrementOpens s.db id x.now with
    | .error _ => some (.done, s, failure request)
    | .ok (none, _) => some (resume none, s, [])
    | .ok (some row, db) =>
      if row.status = .expired && !free s.blobLocks i id then none
      else
        some (resume (some row), { s with db := db }, openEvents id row (Store.Pg.toDate x.now))

/-- `BEGIN`, the `SELECT .. FOR UPDATE` of `revoke` and, where it does nothing, its `COMMIT`. -/
def lockRevoke (i : Nat) (x : Input) (s : State) (id : LinkId) (providedTokenHash : Option String)
    (request : Bool) : Option (Pc × State × List Event) :=
  if x.fails then some (.done, s, failure request)
  else
    match s.db.links.get? id with
    | none => some (.revoked request id false, s, [])
    | some row =>
      if !free s.rowLocks i id then none
      else if row.status ≠ .active then some (.revoked request id false, s, [])
      else if revokeAllowed row.revocation_token_hash providedTokenHash then
        some (.deleteRevoked request id x.now, { s with rowLocks := lock s.rowLocks i id }, [])
      else some (.revoked request id false, s, [])

/-- `DELETE FROM link_ciphertexts WHERE link_id = $1` in a transaction: it waits for an open
transaction that has deleted the same row. -/
def deleteBlob (i : Nat) (s : State) (id : LinkId) (resume : Bool → Pc) :
    Option (Pc × State × List Event) :=
  if s.db.link_ciphertexts.has id then
    if !free s.blobLocks i id then none
    else some (resume true, { s with blobLocks := lock s.blobLocks i id }, [])
  else some (resume false, s, [.acted id])

/-- The tables after a transaction that revoked the row and deleted the ciphertext, each if so. -/
def purgedDb (db : Db) (id : LinkId) (now : Timestamptz) (wasActive present : Bool) : Db :=
  let db := if wasActive then Store.Pg.updateRevoked db id now else db
  if present then Store.Pg.deleteCiphertext db id else db

/-- Whether the statement of this step takes effect on a row of `links`. -/
def reaches (i : Nat) (x : Input) (s : State) (id : LinkId) : Bool :=
  x.chosen id && free s.rowLocks i id

def prune (i : Nat) (x : Input) (s : State) (before : Option Instant) :
    Option (Pc × State × List Event) :=
  match Store.Pg.toTimestamptz before with
  | .error _ => some (.done, s, [])
  | .ok before =>
    let p := fun id row ↦
      reaches i x s id && free s.blobLocks i id && Store.Pg.isPrunable row before
    some (.done, { s with db := s.db.deleteLinks p },
      (s.db.links.keys.filter fun id ↦ (s.db.links.get? id).any (p id)).map .pruned)

def begin_ (env : Env) (i : Nat) (x : Input) (s : State) :
    Request → Option (Pc × State × List Event)
  | .postMessages validate =>
    if RATE_LIMIT_MAX < x.count then some (.done, s, [.answered rateLimited])
    else
      match validate x.dateNow with
      | none => some (.done, s, [.answered badRequest])
      | some draft =>
        if x.fails then some (.done, s, [.answered internalError])
        else some (.checked draft (Store.Pg.get s.db draft.id), s, [])
  | .openMessage id body =>
    match rejects id body x.count with
    | some response => some (.done, s, [.answered response])
    | none =>
      if x.fails then some (.done, s, [.answered internalError])
      else
        some (.increment id (Store.Pg.getCiphertext s.db id), s,
          [.read id (Store.Pg.getCiphertext s.db id)])
  | .revokeMessage id body token =>
    match rejects id body x.count with
    | some response => some (.done, s, [.answered response])
    | none => lockRevoke i x s id (env.presentedHash token) true
  | .create record =>
    if x.fails then some (.done, s, [])
    else if !free s.rowLocks i record.id then none
    else
      match Store.Pg.create s.db record with
      | .error _ => some (.done, s, [])
      | .ok (_, db) => some (.done, { s with db := db }, [.inserted record])
  | .createWithCiphertext record ciphertext => insertRow i x s record ciphertext none
  | .incrementOpens id => incrementOpens i x s id (.incremented id) false
  | .revoke id providedTokenHash => lockRevoke i x s id providedTokenHash false
  | .expirePastDue =>
    if x.fails then some (.done, s, [])
    else
      some (.sweepDelete, { s with
        db := s.db.updateLinks fun id row ↦
          if reaches i x s id && Store.Pg.isPastDue row x.now then
            { row with status := .expired, terminal_at := some x.now }
          else row }, [])
  | .pruneTerminal before => if x.fails then some (.done, s, []) else prune i x s before
  | .adminPurge id =>
    if x.fails then some (.done, s, [])
    else
      match s.db.links.get? id with
      | none => some (.deletePurged id x.now false, s, [])
      | some row =>
        if !free s.rowLocks i id then none
        else
          some (.deletePurged id x.now (row.status = .active),
            { s with rowLocks := lock s.rowLocks i id }, [])

def step (env : Env) (i : Nat) (x : Input) (pc : Pc) (s : State) :
    Option (Pc × State × List Event) :=
  match pc with
  | .start request => begin_ env i x s request
  | .checked draft existing =>
    match existing with
    | some _ => some (.done, s, [.answered idConflict])
    | none =>
      insertRow i x s (draft.record (env.hashRevocationToken x.token)) draft.blob (some x.token)
  | .insertBlob token record ciphertext =>
    if x.fails then some (.rollback token.isSome, s, [])
    else
      match Store.Pg.createWithCiphertext s.db record ciphertext none with
      | .error _ => some (.rollback token.isSome, s, [])
      | .ok _ => some (.commitCreate token record ciphertext, s, [])
  | .commitCreate token record ciphertext =>
    if x.fails then some (.rollback token.isSome, s, [])
    else
      match Store.Pg.createWithCiphertext s.db record ciphertext none with
      | .error _ => some (.rollback token.isSome, s, [])
      | .ok (_, db) =>
        some (.created token record ciphertext, { s with db := db }.release i,
          [.stored record.id ciphertext, .inserted record])
  | .created token record _ => some (.done, s, finish (token.map (env.created record.id)))
  | .increment id blob => incrementOpens i x s id (.opened id blob) true
  | .opened id blob row =>
    some (.done, s, .answered (openResponse blob row) :: completion id row)
  | .incremented id row => some (.done, s, completion id row)
  | .deleteRevoked request id now =>
    if x.fails then some (.rollback request, s, [])
    else deleteBlob i s id (.commitRevoke request id now)
  | .commitRevoke request id now present =>
    if x.fails then some (.rollback request, s, [])
    else
      some (.revoked request id true, { s with db := purgedDb s.db id now true present }.release i,
        if present then [.acted id] else [])
  | .revoked request id effect =>
    some (.done, s, finish (if request then some (.revoked id) else none) ++
      if effect then [.completed id] else [])
  | .deletePurged id now wasActive =>
    if x.fails then some (.rollback false, s, [])
    else deleteBlob i s id (.commitPurge id now wasActive)
  | .commitPurge id now wasActive present =>
    if x.fails then some (.rollback false, s, [])
    else
      some (.purged id, { s with db := purgedDb s.db id now wasActive present }.release i,
        if present then [.acted id] else [])
  | .purged id => some (.done, s, [.completed id])
  | .rollback request => some (.done, s.release i, failure request)
  | .sweepDelete =>
    if x.fails then some (.done, s, [])
    else
      some (.prune (newDate (x.dateNow - env.retention)), { s with
        db := s.db.deleteCiphertexts fun id ↦
          x.chosen id && free s.blobLocks i id && Store.Pg.inTerminal s.db id }, [])
  | .prune before => if x.fails then some (.done, s, []) else prune i x s before
  | .done => none

def program (env : Env) : Program Request Input Pc State Event := ⟨.start, step env⟩

end Aesmsg.Server.Postgres
