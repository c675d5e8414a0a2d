import Aesmsg.Server.Trace
import Aesmsg.Store.Memory

/-!
# The server over the in-memory stores

The API handlers and the methods of `MemoryLinkMetadataStore` as threads on one store.  A step is
what runs between two awaits that other work can interleave with; the awaits of a handler before it
turns to the store (the rate limiter, the body) touch nothing another thread sees and are one step
with what follows.
-/

namespace Aesmsg.Server.Memory

open Store Api Threads

/-- What the scheduler decides for one step: the readings of the clock, the count of the rate
limiter, a fresh token, and whether the write of the step fails. -/
structure Input where
  clock : Clock
  count : Nat
  token : String
  fails : Bool

/-- A step at time `t` that does not fail. -/
def Input.at (t : Instant) : Input := ⟨.at t, 0, "", false⟩

/-- Where a thread stands: the next thing it does when it is resumed.  A `createWithCiphertext` that
the create handler calls carries the revocation token of its answer. -/
inductive Pc where
  | start (request : Request)
  /-- The create handler has `existing` from `links.get`. -/
  | checked (draft : Draft) (existing : Option LinkMetadata)
  /-- `createWithCiphertext` has inserted the row. -/
  | put (token : Option String) (record : CreateLinkRecord) (ciphertext : List UInt8)
  /-- The ciphertext write has failed. -/
  | rollback (token : Option String) (record : CreateLinkRecord)
  /-- `createWithCiphertext` has succeeded. -/
  | created (token : Option String) (record : CreateLinkRecord) (ciphertext : List UInt8)
  /-- The open handler has read the ciphertext. -/
  | increment (id : LinkId) (blob : Option (List UInt8))
  /-- `incrementOpens` has run. -/
  | opened (id : LinkId) (blob : Option (List UInt8)) (row : Option LinkMetadata)
  | incremented (id : LinkId) (row : Option LinkMetadata)
  /-- `revoke` has run, for a `request` or not; `effect` tells whether it was authorized. -/
  | revoked (request : Bool) (id : LinkId) (effect : Bool)
  /-- `adminPurge` has flipped the row and probed the ciphertext. -/
  | purge (id : LinkId) (present : Bool)
  | purged (id : LinkId)
  /-- The sweep has probed the ciphertext of the row in slot `position`. -/
  | sweepGot (position : Nat) (id : LinkId) (present : Bool)
  /-- The sweep is about to look at slot `position`. -/
  | sweepNext (position : Nat)
  /-- The prune is about to look at slot `position`. -/
  | pruneNext (before : Option Instant) (position : Nat)
  | done

/-- The prune from slot `position` to its next await. -/
def pruneFrom (s : MemoryStore) (before : Option Instant) (position : Nat) :
    Pc × MemoryStore × List Event :=
  match s.rows.next position (fun id row ↦ s.prunes before id row) with
  | none => (.done, s, [])
  | some (j, id, _) => (.pruneNext before (j + 1), s.deleteRow id, [.pruned id])

/-- The second loop of the sweep from slot `position` to its next await. -/
def sweepFrom (env : Env) (clock : Clock) (s : MemoryStore) (position : Nat) :
    Pc × MemoryStore × List Event :=
  match s.rows.next position (fun _ row ↦ row.isTerminal) with
  | none => pruneFrom s (newDate (clock.later - env.retention)) 0
  | some (j, id, _) => (.sweepGot j id (s.getCiphertext id).isSome, s, [])

/-- The row insert of `createWithCiphertext`. -/
def insert (s : MemoryStore) (record : CreateLinkRecord) (ciphertext : List UInt8)
    (token : Option String) : Pc × MemoryStore × List Event :=
  match s.create record with
  | .error _ => (.done, s, finish (token.map fun _ ↦ internalError))
  | .ok (_, s) => (.put token record ciphertext, s, [.inserted record])

def incrementOpens (s : MemoryStore) (id : LinkId) (clock : Clock)
    (resume : Option LinkMetadata → Pc) : Pc × MemoryStore × List Event :=
  let (row, s) := s.incrementOpens id clock
  match row with
  | none => (resume none, s, [])
  | some row =>
    (resume (some row), s, openEvents id row clock.now)

/-- Whether a revoke is let through by the row and the token. -/
def authorizes (s : MemoryStore) (id : LinkId) (providedTokenHash : Option String) : Bool :=
  (s.rows.get? id).any (·.status = .active) &&
    revokeAllowed ((s.revocationTokenHashes.get? id).getD none) providedTokenHash

def revoke (s : MemoryStore) (id : LinkId) (providedTokenHash : Option String) (clock : Clock)
    (request : Bool) : Pc × MemoryStore × List Event :=
  let effect := authorizes s id providedTokenHash
  (.revoked request id effect, s.revoke id providedTokenHash clock,
    if effect then [.acted id] else [])

/-- The first step of a request. -/
def begin_ (env : Env) (input : Input) (s : MemoryStore) :
    Request → Pc × MemoryStore × List Event
  | .postMessages validate =>
    if RATE_LIMIT_MAX < input.count then (.done, s, [.answered rateLimited])
    else
      match validate input.clock.now with
      | none => (.done, s, [.answered badRequest])
      | some draft => (.checked draft (s.get draft.id), s, [])
  | .openMessage id body =>
    match rejects id body input.count with
    | some response => (.done, s, [.answered response])
    | none => (.increment id (s.getCiphertext id), s, [.read id (s.getCiphertext id)])
  | .revokeMessage id body token =>
    match rejects id body input.count with
    | some response => (.done, s, [.answered response])
    | none => revoke s id (env.presentedHash token) input.clock true
  | .create record =>
    match s.create record with
    | .error _ => (.done, s, [])
    | .ok (_, s) => (.done, s, [.inserted record])
  | .createWithCiphertext record ciphertext => insert s record ciphertext none
  | .incrementOpens id => incrementOpens s id input.clock (.incremented id)
  | .revoke id providedTokenHash => revoke s id providedTokenHash input.clock false
  | .expirePastDue => sweepFrom env input.clock (s.expireRows input.clock) 0
  | .pruneTerminal before => pruneFrom s before 0
  | .adminPurge id =>
    let s := (s.adminFlip id input.clock).2.2
    let present := (s.getCiphertext id).isSome
    (.purge id present, s, if present then [] else [.acted id])

def step (env : Env) (_ : Nat) (input : Input) (pc : Pc) (s : MemoryStore) :
    Option (Pc × MemoryStore × List Event) :=
  match pc with
  | .start request => some (begin_ env input s request)
  | .checked draft existing =>
    match existing with
    | some _ => some (.done, s, [.answered idConflict])
    | none =>
      some (insert s (draft.record (env.hashRevocationToken input.token)) draft.blob
        (some input.token))
  | .put token record ciphertext =>
    if input.fails then some (.rollback token record, s, [])
    else
      some (.created token record ciphertext, s.put record.id ciphertext,
        [.stored record.id ciphertext])
  | .rollback token record =>
    some (.done, s.rollback record.id,
      finish (token.map fun _ ↦ internalError) ++ [.rolledBack record.id])
  | .created token record _ => some (.done, s, finish (token.map (env.created record.id)))
  | .increment id blob => some (incrementOpens s id input.clock (.opened id blob))
  | .opened id blob row =>
    some (.done, s, .answered (openResponse blob row) :: completion id row)
  | .incremented id row => some (.done, s, completion id row)
  | .revoked request id effect =>
    some (.done, s, finish (if request then some (.revoked id) else none) ++
      if effect then [.completed id] else [])
  | .purge id present =>
    if present then some (.purged id, s.deleteCiphertext id, [.acted id])
    else some (.done, s, [.completed id])
  | .purged id => some (.done, s, [.completed id])
  | .sweepGot position id present =>
    if present then some (.sweepNext (position + 1), s.deleteCiphertext id, [])
    else some (sweepFrom env input.clock s (position + 1))
  | .sweepNext position => some (sweepFrom env input.clock s position)
  | .pruneNext before position => some (pruneFrom s before position)
  | .done => none

def program (env : Env) : Program Request Input Pc MemoryStore Event := ⟨.start, step env⟩

end Aesmsg.Server.Memory
