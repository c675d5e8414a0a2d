import Aesmsg.Server.Ledger
import Aesmsg.Server.Postgres
import Aesmsg.Store.PgLink

/-!
# The Postgres server refines the protocol

## Main results

- `step_act`: every statement is a step of the protocol on the links of the database.
- `linkServer`: the Postgres server is a link server.
-/

namespace Aesmsg.Server.Postgres

open Store Api Threads
open Store.Pg (Db Timestamptz LinksRow)

def links (s : State) : Links := Store.Pg.link s.db

def stage : Pc → Stage
  | .start _ | .checked .. | .insertBlob .. | .commitCreate .. => .fresh
  | .created token record ciphertext => .kept token record ciphertext
  | .increment id blob => .fetched id blob
  | .opened id blob row => .counted id blob row
  | .incremented id row => .resolved id row
  | .commitRevoke _ id _ present => if present then .busy else .owing id
  | .commitPurge id _ wasActive present =>
    if present then (if wasActive then .busy else .dropping id) else .owing id
  | .revoked _ id effect => if effect then .owing id else .busy
  | .purged id => .owing id
  | .deleteRevoked .. | .deletePurged .. | .rollback _ | .sweepDelete | .prune _ => .busy
  | .done => .done

/-- The thread that stands at a stage: none has inserted a row without its ciphertext. -/
theorem stage_inv (p : Pc) :
    match stage p with
    | .placed .. | .undoing .. => False
    | .fetched id blob => p = .increment id blob
    | .counted id blob row => p = .opened id blob row
    | .dropping id => ∃ now, p = .commitPurge id now false true
    | _ => True := by
  cases p with
  | increment | opened => rfl
  | incremented id row =>
    unfold stage Stage.resolved
    dsimp only
    cases row.any (·.status = .expired) <;> trivial
  | revoked request id effect => cases effect <;> trivial
  | commitRevoke request id now present => cases present <;> trivial
  | commitPurge id now wasActive present =>
    cases present with
    | true =>
      cases wasActive with
      | true => trivial
      | false => exact ⟨now, rfl⟩
    | false => trivial
  | _ => trivial

/-! ## Statements -/

section Statements

variable (db : Db)

/-- An update that leaves most rows as they are and moves the others to a terminal status. -/
theorem closing_updateLinks (p : LinkId → LinksRow → Bool) (status : LinkStatus)
    (closed : status ≠ .active) (now : Timestamptz) (id : LinkId) :
    Closing (Store.Pg.link db id) (Store.Pg.link (db.updateLinks fun k row ↦
      if p k row then { row with status := status, terminal_at := some now } else row) id) := by
  cases hr : db.links.get? id with
  | none =>
    have hn : (db.updateLinks fun k row ↦
        if p k row then { row with status := status, terminal_at := some now } else row).links.get?
          id = none := by
      simp [Db.updateLinks, hr]
    rw [Store.Pg.link_of_absent hr, Store.Pg.link_of_absent hn]
    exact .keep
  | some row =>
    have hl : (Store.Pg.link db id).row = some (Store.Pg.rowToMeta id row) := by
      rw [Store.Pg.row_link, hr]
      rfl
    cases hp : p id row with
    | false =>
      have heq : Store.Pg.link (db.updateLinks fun k row ↦
          if p k row then { row with status := status, terminal_at := some now } else row) id =
            Store.Pg.link db id := by
        simp [Store.Pg.link, Db.updateLinks, hr, hp]
      rw [heq]
      exact .keep
    | true =>
      have heq : Store.Pg.link (db.updateLinks fun k row ↦
          if p k row then { row with status := status, terminal_at := some now } else row) id =
            (Store.Pg.link db id).terminate (Store.Pg.rowToMeta id row) status
              (Store.Pg.toDate now) := by
        simp [Store.Pg.link, Db.updateLinks, hr, hp, Link.terminate, Store.Pg.rowToMeta]
      rw [heq]
      exact .terminate hl closed _

theorem row_isSome_updateLinks (f : LinkId → LinksRow → LinksRow) (id : LinkId) :
    (Store.Pg.link (db.updateLinks f) id).row.isSome = (Store.Pg.link db id).row.isSome := by
  simp only [Store.Pg.row_link, Db.updateLinks, OrderedMap.get?_filterMap]
  cases db.links.get? id <;> rfl

theorem closing_deleteCiphertexts {p : LinkId → Bool}
    (terminal : ∀ id, p id = true → Store.Pg.inTerminal db id = true) (id : LinkId) :
    Closing (Store.Pg.link db id) (Store.Pg.link (db.deleteCiphertexts p) id) := by
  cases hp : p id with
  | false =>
    have heq : Store.Pg.link (db.deleteCiphertexts p) id = Store.Pg.link db id := by
      simp [Store.Pg.link, Db.deleteCiphertexts, hp]
    rw [heq]
    exact .keep
  | true =>
    have heq : Store.Pg.link (db.deleteCiphertexts p) id = (Store.Pg.link db id).withoutBlob := by
      simp [Store.Pg.link, Db.deleteCiphertexts, hp, Link.withoutBlob]
    rw [heq]
    exact .purge (Store.Pg.isTerminal_link ▸ terminal id hp)

theorem closing_deleteLinks (p : LinkId → LinksRow → Bool)
    (terminal : ∀ id row, p id row = true → Store.Pg.isTerminal row = true) (id : LinkId) :
    Closing (Store.Pg.link db id) (Store.Pg.link (db.deleteLinks p) id) ∧
      ((Store.Pg.link db id).row.isSome = true → (Store.Pg.link (db.deleteLinks p) id).row = none →
        (db.links.get? id).any (p id) = true) := by
  cases hr : db.links.get? id with
  | none =>
    have hn : (db.deleteLinks p).links.get? id = none := by simp [Db.deleteLinks, hr]
    rw [Store.Pg.link_of_absent hr, Store.Pg.link_of_absent hn]
    exact ⟨.keep, fun hs ↦ absurd hs Bool.false_ne_true⟩
  | some row =>
    cases hp : p id row with
    | false =>
      have heq : Store.Pg.link (db.deleteLinks p) id = Store.Pg.link db id := by
        simp [Store.Pg.link, Db.deleteLinks, hr, hp]
      rw [heq]
      refine ⟨.keep, fun hs hn ↦ ?_⟩
      rw [hn] at hs
      cases hs
    | true =>
      have hn : (db.deleteLinks p).links.get? id = none := by simp [Db.deleteLinks, hr, hp]
      rw [Store.Pg.link_of_absent hn]
      refine ⟨.prune ?_, fun _ _ ↦ hp⟩
      rw [← Store.Pg.isTerminal_link]
      unfold Store.Pg.inTerminal
      rw [hr]
      exact terminal id row hp

theorem closing_updateRevoked (id : LinkId) (now : Timestamptz) (j : LinkId) :
    Closing (Store.Pg.link db j) (Store.Pg.link (Store.Pg.updateRevoked db id now) j) := by
  have h := closing_updateLinks db (fun k _ ↦ k = id) .revoked (by decide) now j
  simpa [Store.Pg.updateRevoked] using h

/-- A transaction that revoked a row and deleted its ciphertext. -/
theorem closing_purgedDb (id : LinkId) (now : Timestamptz) (j : LinkId) :
    Closing (Store.Pg.link db j) (Store.Pg.link (purgedDb db id now true true) j) := by
  have hl : Store.Pg.link (purgedDb db id now true true) =
      Function.update (Store.Pg.link (Store.Pg.updateRevoked db id now)) id
        (Store.Pg.link (Store.Pg.updateRevoked db id now) id).withoutBlob :=
    Store.Pg.link_deleteCiphertext _ id
  rw [hl]
  by_cases hj : j = id
  · subst hj
    rw [Function.update_self]
    cases hr : db.links.get? j with
    | none =>
      have hn : (Store.Pg.updateRevoked db j now).links.get? j = none := by
        simp [Store.Pg.updateRevoked, Db.updateLinks, hr]
      rw [Store.Pg.link_of_absent hr, Store.Pg.link_of_absent hn]
      exact .keep
    | some row =>
      have hrow : (Store.Pg.link db j).row = some (Store.Pg.rowToMeta j row) := by
        rw [Store.Pg.row_link, hr]
        rfl
      have heq : Store.Pg.link (Store.Pg.updateRevoked db j now) j =
          (Store.Pg.link db j).terminate (Store.Pg.rowToMeta j row) .revoked
            (Store.Pg.toDate now) := by
        simp [Store.Pg.link, Store.Pg.updateRevoked, Db.updateLinks, hr, Link.terminate,
          Store.Pg.rowToMeta]
      rw [heq]
      exact .shut hrow (by decide) _
  · rw [Function.update_of_ne hj]
    exact closing_updateRevoked db id now j

theorem row_isSome_purgedDb (id : LinkId) (now : Timestamptz) (wasActive present : Bool)
    (j : LinkId) :
    (Store.Pg.link (purgedDb db id now wasActive present) j).row.isSome =
      (Store.Pg.link db j).row.isSome := by
  have hrow : ∀ d : Db, (Store.Pg.link (Store.Pg.deleteCiphertext d id) j).row =
      (Store.Pg.link d j).row := fun d ↦ rfl
  have hup := row_isSome_updateLinks db (fun k row ↦
    if k = id then { row with status := .revoked, terminal_at := some now } else row) j
  cases wasActive <;> cases present
  · rfl
  · exact congrArg Option.isSome (hrow db)
  · exact hup
  · exact (congrArg Option.isSome (hrow _)).trans hup

theorem aligned_purgedDb {db : Db} (h : Store.Pg.Aligned db) (id : LinkId) (now : Timestamptz)
    (wasActive present : Bool) : Store.Pg.Aligned (purgedDb db id now wasActive present) := by
  cases wasActive <;> cases present
  · exact h
  · exact h
  · exact Store.Pg.aligned_updateRevoked h id now
  · exact Store.Pg.aligned_updateRevoked h id now

end Statements

/-! ## Steps -/

section Steps

variable {env : Env} {i : Nat} {x : Input} {s s' : State} {p' : Pc} {es : List Event}

/-- What is shown of each statement: it is a step of the protocol, and keeps the times aligned. -/
def Sound (env : Env) (s : State) (a : Stage) (es : List Event) (s' : State) (p' : Pc) : Prop :=
  Act env (links s) (links s') a es (stage p') ∧ Store.Pg.Aligned s'.db

theorem plain_internalError (request : Bool) :
    ∀ r ∈ (if request then some internalError else none), r.isPlain = true := by
  intro r hr
  split at hr
  · cases hr
    rfl
  · cases hr

theorem insertRow_sound {record : CreateLinkRecord} {ciphertext : List UInt8}
    {token : Option String} (ha : Store.Pg.Aligned s.db)
    (h : insertRow i x s record ciphertext token = some (p', s', es)) :
    Sound env s .fresh es s' p' := by
  have failed : Act env (links s) (links s) .fresh (failure token.isSome) .done :=
    .quit _ (plain_internalError _) (.inl rfl) rfl
  unfold insertRow at h
  split at h
  · cases h
    exact ⟨failed, ha⟩
  split at h
  · cases h
  split at h
  · cases h
    exact ⟨failed, ha⟩
  · cases h
    exact ⟨.wait rfl, ha⟩

/-- The commit of `createWithCiphertext`. -/
theorem createWithCiphertext_sound {db : Db} {record : CreateLinkRecord} {ciphertext : List UInt8}
    {row : LinkMetadata} (token : Option String) (ha : Store.Pg.Aligned s.db)
    (h : Store.Pg.createWithCiphertext s.db record ciphertext none = .ok (row, db)) :
    Act env (links s) (Store.Pg.link db) .fresh [.stored record.id ciphertext, .inserted record]
      (.kept token record ciphertext) ∧ Store.Pg.Aligned db := by
  unfold Store.Pg.createWithCiphertext at h
  obtain ⟨⟨row', db'⟩, hc, h⟩ := Store.Pg.bind_ok.mp h
  obtain ⟨db'', hu, h⟩ := Store.Pg.bind_ok.mp h
  cases h
  obtain ⟨-, habs, -, hl, hal⟩ := Store.Pg.create_ok hc
  obtain ⟨hlinks, hl'⟩ := Store.Pg.upsertCiphertext_ok hu
  have hrow : (links s record.id).row = none := by
    unfold links
    rw [Store.Pg.row_link, habs]
    rfl
  refine ⟨.commit token ciphertext hrow ?_, ?_⟩
  · rw [hl', hl, Function.update_self, Function.update_idem]
    rfl
  · intro id r hr
    rw [hlinks] at hr
    exact hal ha id r hr

theorem incrementOpens_cases {id : LinkId} {resume : Option LinkMetadata → Pc} {request : Bool}
    (ha : Store.Pg.Aligned s.db)
    (h : incrementOpens i x s id resume request = some (p', s', es)) :
    (p' = .done ∧ s' = s ∧ es = failure request) ∨ (p' = resume none ∧ s' = s ∧ es = []) ∨
      ∃ row, x.fails = false ∧ (links s id).row = some row ∧ row.status = .active ∧
        Store.Pg.toDate x.now < row.expiresAt ∧ p' = resume (some row.opened) ∧
        links s' = Function.update (links s) id
          ((links s id).increment (Store.Pg.toDate x.now) (Store.Pg.toDate x.now)) ∧
        es = openEvents id row.opened (Store.Pg.toDate x.now) ∧ Store.Pg.Aligned s'.db := by
  unfold incrementOpens at h
  split at h
  · cases h
    exact .inl ⟨rfl, rfl, rfl⟩
  rename_i hfails
  split at h
  · cases h
  split at h
  · cases h
    exact .inl ⟨rfl, rfl, rfl⟩
  · cases h
    exact .inr (.inl ⟨rfl, rfl, rfl⟩)
  · rename_i opened db hi
    split at h
    · cases h
    · cases h
      obtain ⟨ho, hl, hal⟩ := Store.Pg.incrementOpens_ok ha hi
      obtain ⟨row, hr, hact, hlive, rfl⟩ := Link.openedRow_eq_some.mp ho.symm
      exact .inr (.inr ⟨row, Bool.eq_false_iff.mpr hfails, hr, hact, hlive, rfl, hl, rfl, hal⟩)

theorem lockRevoke_sound {id : LinkId} {providedTokenHash : Option String} {request : Bool}
    (ha : Store.Pg.Aligned s.db)
    (h : lockRevoke i x s id providedTokenHash request = some (p', s', es)) :
    Sound env s .fresh es s' p' := by
  unfold lockRevoke at h
  split at h
  · cases h
    exact ⟨.quit _ (plain_internalError _) (.inl rfl) rfl, ha⟩
  split at h
  · cases h
    exact ⟨.pass .work, ha⟩
  split at h
  · cases h
  split at h
  · cases h
    exact ⟨.pass .work, ha⟩
  split at h
  · cases h
    exact ⟨.pass .work, ha⟩
  · cases h
    exact ⟨.pass .work, ha⟩

/-- The delete of a ciphertext in a transaction takes effect when it commits, unless there is none
to delete. -/
theorem deleteBlob_sound {id : LinkId} {resume : Bool → Pc} (ha : Store.Pg.Aligned s.db)
    (hp : Passes .busy (stage (resume true))) (ho : stage (resume false) = .owing id)
    (h : deleteBlob i s id resume = some (p', s', es)) : Sound env s .busy es s' p' := by
  unfold deleteBlob at h
  split at h
  · split at h
    · cases h
    · cases h
      exact ⟨.pass hp, ha⟩
  · rename_i hn
    cases h
    refine ⟨?_, ha⟩
    rw [ho]
    refine .act id (.inr rfl) (fun _ ↦ .keep) (fun _ ↦ fun hs ↦ hs) ?_
    have hget := OrderedMap.has_eq_false.mp (Bool.eq_false_iff.mpr hn)
    unfold links Store.Pg.link
    rw [hget]
    rfl

theorem prune_sound {a : Stage} (ha : a = .fresh ∨ a = .busy) {before : Option Instant}
    (hal : Store.Pg.Aligned s.db) (h : prune i x s before = some (p', s', es)) :
    Sound env s a es s' p' := by
  have passes : Passes a .done := by
    rcases ha with rfl | rfl
    · exact .quit
    · exact .stop
  unfold prune at h
  split at h
  · cases h
    exact ⟨.pass passes, hal⟩
  · rename_i before' _
    cases h
    have hdel := closing_deleteLinks s.db (fun id row ↦ reaches i x s id &&
      free s.blobLocks i id && Store.Pg.isPrunable row before') fun id row hp ↦ by
        rw [Bool.and_eq_true] at hp
        have := hp.2
        unfold Store.Pg.isPrunable at this
        rw [Bool.and_eq_true] at this
        exact this.1
    refine ⟨.close passes (fun id ↦ (hdel id).1) ?_ fun id hs hn ↦ ?_, ?_⟩
    · intro e he
      obtain ⟨id, -, rfl⟩ := List.mem_map.mp he
      exact ⟨id, rfl⟩
    · have hany := (hdel id).2 hs hn
      refine List.mem_map.mpr ⟨id, List.mem_filter.mpr ⟨?_, hany⟩, rfl⟩
      obtain ⟨row, hrow, -⟩ := (Option.any_eq_true _ _).mp hany
      exact OrderedMap.mem_keys.mpr ⟨row, hrow⟩
    · exact Store.Pg.aligned_deleteLinks hal _

theorem begin_sound {request : Request} (ha : Store.Pg.Aligned s.db)
    (h : begin_ env i x s request = some (p', s', es)) : Sound env s .fresh es s' p' := by
  unfold begin_ at h
  cases request with
  | postMessages validate =>
    dsimp only at h
    split at h
    · cases h
      exact ⟨.answer (r := rateLimited) rfl, ha⟩
    split at h
    · cases h
      exact ⟨.answer (r := badRequest) rfl, ha⟩
    split at h
    · cases h
      exact ⟨.answer (r := internalError) rfl, ha⟩
    · cases h
      exact ⟨.wait rfl, ha⟩
  | openMessage id body =>
    dsimp only at h
    split at h
    · rename_i r hr
      cases h
      exact ⟨.answer (isPlain_of_rejects hr), ha⟩
    split at h
    · cases h
      exact ⟨.answer (r := internalError) rfl, ha⟩
    · cases h
      exact ⟨.fetch id rfl, ha⟩
  | revokeMessage id body token =>
    dsimp only at h
    split at h
    · rename_i r hr
      cases h
      exact ⟨.answer (isPlain_of_rejects hr), ha⟩
    · exact lockRevoke_sound ha h
  | create record =>
    dsimp only at h
    split at h
    · cases h
      exact ⟨.pass .quit, ha⟩
    split at h
    · cases h
    split at h
    · cases h
      exact ⟨.pass .quit, ha⟩
    · rename_i row db hc
      cases h
      obtain ⟨-, habs, -, hl, hal⟩ := Store.Pg.create_ok hc
      refine ⟨.create ?_ hl, hal ha⟩
      unfold links
      rw [Store.Pg.row_link, habs]
      rfl
  | createWithCiphertext record ciphertext => exact insertRow_sound ha h
  | incrementOpens id =>
    rcases incrementOpens_cases ha h with ⟨rfl, rfl, rfl⟩ | ⟨rfl, rfl, rfl⟩ |
      ⟨row, -, hr, hact, hlive, rfl, hl, rfl, hal⟩
    · exact ⟨.pass .quit, ha⟩
    · exact ⟨.pass .work, ha⟩
    · exact ⟨.tally hr hact hlive hl, hal⟩
  | revoke id providedTokenHash => exact lockRevoke_sound ha h
  | expirePastDue =>
    dsimp only at h
    split at h
    · cases h
      exact ⟨.pass .quit, ha⟩
    · cases h
      have hclosing := closing_updateLinks s.db
        (fun id row ↦ reaches i x s id && Store.Pg.isPastDue row x.now) .expired (by decide) x.now
      refine ⟨.close .work hclosing (by rintro e ⟨⟩) fun id hs hn ↦ ?_, ?_⟩
      · have := row_isSome_updateLinks s.db (fun id row ↦
          if reaches i x s id && Store.Pg.isPastDue row x.now then
            { row with status := .expired, terminal_at := some x.now } else row) id
        unfold links at hs hn
        rw [hn, hs] at this
        cases this
      · refine Store.Pg.aligned_updateLinks ha fun k row ↦ ?_
        split
        · rfl
        · rfl
  | pruneTerminal before =>
    dsimp only at h
    split at h
    · cases h
      exact ⟨.pass .quit, ha⟩
    · exact prune_sound (.inl rfl) ha h
  | adminPurge id =>
    dsimp only at h
    split at h
    · cases h
      exact ⟨.pass .quit, ha⟩
    split at h
    · cases h
      exact ⟨.pass .work, ha⟩
    split at h
    · cases h
    · cases h
      exact ⟨.pass .work, ha⟩

/-- The commit of a transaction that has revoked the row: it is the last effect where it deletes a
ciphertext, and otherwise that has come before. -/
theorem revoke_commit_act (id : LinkId) (now : Store.Pg.Timestamptz) (present : Bool) :
    Act env (links s) (Store.Pg.link (purgedDb s.db id now true present))
      (if present then .busy else .owing id) (if present then [.acted id] else []) (.owing id) := by
  have hkept := row_isSome_purgedDb s.db id now true present
  cases present with
  | true =>
    refine .act id (.inr rfl) (closing_purgedDb s.db id now)
      (fun j hs ↦ (hkept j).trans hs) ?_
    change (Store.Pg.link (Store.Pg.deleteCiphertext _ id) id).blob = none
    rw [Store.Pg.link_deleteCiphertext, Function.update_self]
    rfl
  | false =>
    refine .close (.owe id) (closing_updateRevoked s.db id now) (by rintro e ⟨⟩)
      fun j hs hn ↦ ?_
    have := (hkept j).trans hs
    rw [hn] at this
    cases this

/-- The insert of a ciphertext changes nothing yet. -/
theorem insertBlob_sound {token : Option String} {record : CreateLinkRecord} {ciphertext : List UInt8}
    (ha : Store.Pg.Aligned s.db)
    (h : step env i x (.insertBlob token record ciphertext) s = some (p', s', es)) :
    Sound env s (stage (.insertBlob token record ciphertext)) es s' p' := by
  simp only [step] at h
  split at h
  · cases h
    exact ⟨.pass .work, ha⟩
  split at h
  · cases h
    exact ⟨.pass .work, ha⟩
  · cases h
    exact ⟨.wait rfl, ha⟩

theorem commitCreate_sound {token : Option String} {record : CreateLinkRecord} {ciphertext : List UInt8}
    (ha : Store.Pg.Aligned s.db)
    (h : step env i x (.commitCreate token record ciphertext) s = some (p', s', es)) :
    Sound env s (stage (.commitCreate token record ciphertext)) es s' p' := by
  simp only [step] at h
  split at h
  · cases h
    exact ⟨.pass .work, ha⟩
  split at h
  · cases h
    exact ⟨.pass .work, ha⟩
  · rename_i row db hc
    cases h
    exact createWithCiphertext_sound token ha hc

theorem increment_sound {id : LinkId} {blob : Option (List UInt8)} (ha : Store.Pg.Aligned s.db)
    (h : step env i x (.increment id blob) s = some (p', s', es)) :
    Sound env s (stage (.increment id blob)) es s' p' := by
  rcases incrementOpens_cases ha h with ⟨rfl, rfl, rfl⟩ | ⟨rfl, rfl, rfl⟩ |
    ⟨row, -, hr, hact, hlive, rfl, hl, rfl, hal⟩
  · exact ⟨.quit _ (plain_internalError true) (.inr (.inr ⟨id, blob, rfl⟩)) rfl, ha⟩
  · exact ⟨.miss rfl, ha⟩
  · exact ⟨.count hr hact hlive hl, hal⟩

theorem deleteRevoked_sound {request : Bool} {id : LinkId} {now : Store.Pg.Timestamptz}
    (ha : Store.Pg.Aligned s.db)
    (h : step env i x (.deleteRevoked request id now) s = some (p', s', es)) :
    Sound env s (stage (.deleteRevoked request id now)) es s' p' := by
  simp only [step] at h
  split at h
  · cases h
    exact ⟨.pass .go, ha⟩
  · refine deleteBlob_sound ha ?_ rfl h
    exact .go

theorem commitRevoke_sound {request present : Bool} {id : LinkId} {now : Store.Pg.Timestamptz}
    (ha : Store.Pg.Aligned s.db)
    (h : step env i x (.commitRevoke request id now present) s = some (p', s', es)) :
    Sound env s (stage (.commitRevoke request id now present)) es s' p' := by
  simp only [step] at h
  split at h
  · cases h
    refine ⟨?_, ha⟩
    cases present with
    | true => exact .pass .go
    | false => exact .pass (.abandon id)
  · cases h
    exact ⟨revoke_commit_act id now present, aligned_purgedDb ha id now true present⟩

theorem deletePurged_sound {wasActive : Bool} {id : LinkId} {now : Store.Pg.Timestamptz}
    (ha : Store.Pg.Aligned s.db)
    (h : step env i x (.deletePurged id now wasActive) s = some (p', s', es)) :
    Sound env s (stage (.deletePurged id now wasActive)) es s' p' := by
  simp only [step] at h
  split at h
  · cases h
    exact ⟨.pass .go, ha⟩
  · refine deleteBlob_sound ha ?_ rfl h
    cases wasActive with
    | true => exact .go
    | false => exact .find id

theorem commitPurge_sound {wasActive present : Bool} {id : LinkId} {now : Store.Pg.Timestamptz}
    (ha : Store.Pg.Aligned s.db)
    (h : step env i x (.commitPurge id now wasActive present) s = some (p', s', es)) :
    Sound env s (stage (.commitPurge id now wasActive present)) es s' p' := by
  simp only [step] at h
  split at h
  · cases h
    refine ⟨?_, ha⟩
    cases present with
    | true =>
      cases wasActive with
      | true => exact .pass .go
      | false => exact .pass (.skip id)
    | false => exact .pass (.abandon id)
  · cases h
    refine ⟨?_, aligned_purgedDb ha id now wasActive present⟩
    cases wasActive with
    | true => exact revoke_commit_act id now present
    | false =>
      cases present with
      | true => exact .dropActed id (Store.Pg.link_deleteCiphertext s.db id)
      | false => exact .pass (.owe id)

theorem sweepDelete_sound (ha : Store.Pg.Aligned s.db)
    (h : step env i x .sweepDelete s = some (p', s', es)) :
    Sound env s (stage .sweepDelete) es s' p' := by
  simp only [step] at h
  split at h
  · cases h
    exact ⟨.pass .stop, ha⟩
  · cases h
    refine ⟨.close .go (closing_deleteCiphertexts s.db fun id hp ↦ ?_) (by rintro e ⟨⟩)
      fun id hs hn ↦ ?_, ha⟩
    · rw [Bool.and_eq_true] at hp
      exact hp.2
    · change (Store.Pg.link s.db id).row = none at hn
      unfold links at hs
      rw [hn] at hs
      cases hs

/-- Every step is a step of the protocol. -/
theorem step_sound {p : Pc} (ha : Store.Pg.Aligned s.db)
    (h : (program env).step i x p s = some (p', s', es)) : Sound env s (stage p) es s' p' := by
  change step env i x p s = some (p', s', es) at h
  cases p with
  | start request => exact begin_sound ha h
  | checked draft existing =>
    cases existing with
    | some row =>
      cases h
      exact ⟨.answer (r := idConflict) rfl, ha⟩
    | none => exact insertRow_sound ha h
  | insertBlob token record ciphertext => exact insertBlob_sound ha h
  | commitCreate token record ciphertext => exact commitCreate_sound ha h
  | created token record ciphertext =>
    cases h
    exact ⟨.reply rfl, ha⟩
  | increment id blob => exact increment_sound ha h
  | opened id blob row =>
    cases h
    exact ⟨.respond rfl, ha⟩
  | incremented id row =>
    cases h
    exact ⟨.resolve id row, ha⟩
  | deleteRevoked request id now => exact deleteRevoked_sound ha h
  | commitRevoke request id now present => exact commitRevoke_sound ha h
  | revoked request id effect =>
    cases h
    exact ⟨.revoked request id effect, ha⟩
  | deletePurged id now wasActive => exact deletePurged_sound ha h
  | commitPurge id now wasActive present => exact commitPurge_sound ha h
  | purged id =>
    cases h
    exact ⟨.complete id none (by rintro r ⟨⟩) rfl, ha⟩
  | rollback request =>
    cases h
    exact ⟨.quit _ (plain_internalError request) (.inr (.inl rfl)) rfl, ha⟩
  | sweepDelete => exact sweepDelete_sound ha h
  | prune before =>
    simp only [step] at h
    split at h
    · cases h
      exact ⟨.pass .stop, ha⟩
    · exact prune_sound (.inr rfl) ha h
  | done => cases h

end Steps

/-- The Postgres server is a link server. -/
theorem linkServer (env : Env) :
    LinkServer env (program env) links stage fun s ↦ Store.Pg.Aligned s.db where
  start := fun _ ↦ rfl
  keep := fun ha h ↦ (step_sound ha h).2
  act := fun ha h ↦ (step_sound ha h).1

end Aesmsg.Server.Postgres
