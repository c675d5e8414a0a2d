import Mathlib.Logic.Function.Basic
import Aesmsg.Server.Trace
import Aesmsg.Store.Link

/-!
# The link protocol

What a server does, step by step, as far as the links and the trace can tell: the abstract server
that the servers over both stores refine.  A create places its row and keeps its ciphertext, in one
step or two; an open fetches the ciphertext and then counts; a revoke, a purge or the open that
exhausts a link acts on it and later completes; everything else closes links.

## Main results

- `Act`: one step of the abstract server.
- `Story`: what a thread has emitted when it has reached a stage, kept by `Act.story`.
-/

namespace Aesmsg.Server

open Store Api Threads

/-- What a store holds for every id. -/
abbrev Links := LinkId → Link

/-- What a thread is about to do. -/
inductive Stage where
  /-- It has emitted nothing yet. -/
  | fresh
  /-- A create has inserted its row and not written its ciphertext.  The token is that of a create
  request, none for a call of the store. -/
  | placed (token : Option String) (record : CreateLinkRecord) (ciphertext : List UInt8)
  /-- A create has failed to write its ciphertext. -/
  | undoing (token : Option String) (record : CreateLinkRecord)
  /-- A create has stored both. -/
  | kept (token : Option String) (record : CreateLinkRecord) (ciphertext : List UInt8)
  /-- An open request has read the ciphertext. -/
  | fetched (id : LinkId) (blob : Option (List UInt8))
  /-- Its `incrementOpens` has resolved. -/
  | counted (id : LinkId) (blob : Option (List UInt8)) (row : Option LinkMetadata)
  /-- It has dealt with the row and the ciphertext of `id`, and has not completed. -/
  | owing (id : LinkId)
  /-- It is about to delete a ciphertext of `id` that it has seen before. -/
  | dropping (id : LinkId)
  | busy
  | done

/-- Where an `incrementOpens` called by itself stands when it has resolved with `row`. -/
def Stage.resolved (id : LinkId) (row : Option LinkMetadata) : Stage :=
  if row.any (·.status = .expired) then .owing id else .busy

/-- What a link may become when it is terminated, purged or pruned. -/
inductive Closing (l : Link) : Link → Prop
  | keep : Closing l l
  | terminate {row : LinkMetadata} {status : LinkStatus} (present : l.row = some row)
    (closed : status ≠ .active) (stamp : Instant) : Closing l (l.terminate row status stamp)
  | shut {row : LinkMetadata} {status : LinkStatus} (present : l.row = some row)
    (closed : status ≠ .active) (stamp : Instant) :
    Closing l (l.terminate row status stamp).withoutBlob
  | purge (terminal : l.isTerminal = true) : Closing l l.withoutBlob
  | prune (terminal : l.isTerminal = true) : Closing l Link.vacant

section Closing

variable (l : Link)

theorem Closing.flip {status : LinkStatus} (closed : status ≠ .active) (stamp : Instant) :
    Closing l (l.flip status stamp) := by
  unfold Link.flip
  split
  · exact .keep
  · rename_i row hr
    split
    · exact .terminate hr closed stamp
    · exact .keep

theorem Closing.expire (now stamp : Instant) : Closing l (l.expire now stamp) := by
  unfold Link.expire
  split
  · exact .flip l (by decide) stamp
  · exact .keep

theorem Closing.revoke (providedTokenHash : Option String) (stamp : Instant) :
    Closing l (l.revoke providedTokenHash stamp) := by
  unfold Link.revoke
  split
  · rename_i hr
    obtain ⟨row, hrow, ha⟩ : ∃ row, l.row = some row ∧ row.status = .active := by
      unfold Link.revocable at hr
      rw [Bool.and_eq_true, Option.any_eq_true] at hr
      obtain ⟨⟨row, hrow, ha⟩, -⟩ := hr
      exact ⟨row, hrow, of_decide_eq_true ha⟩
    rw [Link.flip_of_active hrow ha]
    exact .shut hrow (by decide) stamp
  · exact .keep

end Closing

section Closing

variable {l l' : Link} {links links' : Links} {id : LinkId}

theorem Closing.update (link : links' = Function.update links id l) (h : Closing (links id) l)
    (j : LinkId) : Closing (links j) (links' j) := by
  rw [link]
  by_cases hj : j = id
  · subst hj
    rw [Function.update_self]
    exact h
  · rw [Function.update_of_ne hj]
    exact .keep

theorem row_isSome_flip (status : LinkStatus) (stamp : Instant) :
    (l.flip status stamp).row.isSome = l.row.isSome := by
  unfold Link.flip
  split
  · rfl
  · rename_i row hr
    split
    · rw [hr]
      rfl
    · rfl

end Closing

/-- The stages between which a thread passes when it works on links. -/
inductive Passes : Stage → Stage → Prop
  | work : Passes .fresh .busy
  | go : Passes .busy .busy
  | probe (id : LinkId) : Passes .fresh (.dropping id)
  | find (id : LinkId) : Passes .busy (.dropping id)
  | skip (id : LinkId) : Passes (.dropping id) .busy
  | owe (id : LinkId) : Passes (.owing id) (.owing id)
  | abandon (id : LinkId) : Passes (.owing id) .busy
  | quit : Passes .fresh .done
  | stop : Passes .busy .done

/-- One step of a thread. -/
inductive Act (env : Env) (links links' : Links) : Stage → List Event → Stage → Prop
  | wait (same : links' = links) : Act env links links' .fresh [] .fresh
  /-- Terminal transitions, purges and prunes. -/
  | close {a b : Stage} {es : List Event} (passes : Passes a b)
    (closing : ∀ id, Closing (links id) (links' id)) (tidy : ∀ e ∈ es, ∃ id, e = .pruned id)
    (pruned : ∀ id, (links id).row.isSome = true → (links' id).row = none → .pruned id ∈ es) :
    Act env links links' a es b
  /-- A refusal, a failure or the answer to a revoke without effect. -/
  | quit {a : Stage} (answer : Option Response) (plain : ∀ r ∈ answer, r.isPlain = true)
    (early : a = .fresh ∨ a = .busy ∨ ∃ id blob, a = .fetched id blob) (same : links' = links) :
    Act env links links' a (finish answer) .done
  | create {record : CreateLinkRecord} (absent : (links record.id).row = none)
    (link : links' = Function.update links record.id ((links record.id).insert record)) :
    Act env links links' .fresh [.inserted record] .done
  | place {record : CreateLinkRecord} (token : Option String) (ciphertext : List UInt8)
    (absent : (links record.id).row = none)
    (link : links' = Function.update links record.id ((links record.id).insert record)) :
    Act env links links' .fresh [.inserted record] (.placed token record ciphertext)
  /-- The insert of row and ciphertext in one transaction. -/
  | commit {record : CreateLinkRecord} (token : Option String) (ciphertext : List UInt8)
    (absent : (links record.id).row = none)
    (link : links' = Function.update links record.id
      (((links record.id).insert record).withBlob ciphertext)) :
    Act env links links' .fresh [.stored record.id ciphertext, .inserted record]
      (.kept token record ciphertext)
  | put {token : Option String} {record : CreateLinkRecord} {ciphertext : List UInt8}
    (link : links' = Function.update links record.id ((links record.id).withBlob ciphertext)) :
    Act env links links' (.placed token record ciphertext) [.stored record.id ciphertext]
      (.kept token record ciphertext)
  | fail {token : Option String} {record : CreateLinkRecord} {ciphertext : List UInt8}
    (same : links' = links) :
    Act env links links' (.placed token record ciphertext) [] (.undoing token record)
  | undo {token : Option String} {record : CreateLinkRecord}
    (link : links' = Function.update links record.id (links record.id).rollback) :
    Act env links links' (.undoing token record)
      (finish (token.map fun _ ↦ internalError) ++ [.rolledBack record.id]) .done
  | reply {token : Option String} {record : CreateLinkRecord} {ciphertext : List UInt8}
    (same : links' = links) :
    Act env links links' (.kept token record ciphertext)
      (finish (token.map (env.created record.id))) .done
  | fetch (id : LinkId) (same : links' = links) :
    Act env links links' .fresh [.read id (links id).blob] (.fetched id (links id).blob)
  | miss {id : LinkId} {blob : Option (List UInt8)} (same : links' = links) :
    Act env links links' (.fetched id blob) [] (.counted id blob none)
  | count {id : LinkId} {blob : Option (List UInt8)} {row : LinkMetadata} {now stamp : Instant}
    (present : (links id).row = some row) (active : row.status = .active)
    (live : now < row.expiresAt)
    (link : links' = Function.update links id ((links id).increment now stamp)) :
    Act env links links' (.fetched id blob) (openEvents id row.opened now)
      (.counted id blob (some row.opened))
  | respond {id : LinkId} {blob : Option (List UInt8)} {row : Option LinkMetadata}
    (same : links' = links) :
    Act env links links' (.counted id blob row)
      (.answered (openResponse blob row) :: completion id row) .done
  /-- `incrementOpens` called by itself. -/
  | tally {id : LinkId} {row : LinkMetadata} {now stamp : Instant}
    (present : (links id).row = some row) (active : row.status = .active)
    (live : now < row.expiresAt)
    (link : links' = Function.update links id ((links id).increment now stamp)) :
    Act env links links' .fresh (openEvents id row.opened now) (.resolved id (some row.opened))
  /-- The last effect of a revoke or a purge. -/
  | act {a : Stage} (id : LinkId) (early : a = .fresh ∨ a = .busy)
    (closing : ∀ j, Closing (links j) (links' j))
    (kept : ∀ j, (links j).row.isSome = true → (links' j).row.isSome = true)
    (empty : (links' id).blob = none) : Act env links links' a [.acted id] (.owing id)
  /-- The delete of a ciphertext by a sweep. -/
  | drop (id : LinkId) (link : links' = Function.update links id (links id).withoutBlob) :
    Act env links links' (.dropping id) [] .busy
  /-- The delete of a ciphertext by a purge that has dealt with the row before. -/
  | dropActed (id : LinkId) (link : links' = Function.update links id (links id).withoutBlob) :
    Act env links links' (.dropping id) [.acted id] (.owing id)
  | complete (id : LinkId) (answer : Option Response) (plain : ∀ r ∈ answer, r.isPlain = true)
    (same : links' = links) :
    Act env links links' (.owing id) (finish answer ++ [.completed id]) .done

section Quiet

variable {env : Env} {links : Links}

/-- A thread passes on without a trace. -/
theorem Act.pass {a b : Stage} (h : Passes a b) : Act env links links a [] b := by
  refine .close h (fun _ ↦ .keep) (by rintro e ⟨⟩) fun id hs hn ↦ ?_
  rw [hn] at hs
  cases hs

theorem Act.answer {r : Response} (hr : r.isPlain = true) :
    Act env links links .fresh [.answered r] .done := by
  refine .quit (some r) ?_ (.inl rfl) rfl
  rintro _ ⟨⟩
  exact hr

/-- The end of an `incrementOpens` called by itself. -/
theorem Act.resolve (id : LinkId) (row : Option LinkMetadata) :
    Act env links links (.resolved id row) (completion id row) .done := by
  unfold Stage.resolved completion
  split
  · exact .complete id none (by rintro r ⟨⟩) rfl
  · exact .pass .stop

/-- The end of a `revoke`. -/
theorem Act.revoked (request : Bool) (id : LinkId) (effect : Bool) :
    Act env links links (if effect then .owing id else .busy)
      (finish (if request then some (.revoked id) else none) ++
        if effect then [.completed id] else []) .done := by
  have plain : ∀ r ∈ (if request then some (Response.revoked id) else none), r.isPlain = true := by
    intro r hr
    split at hr
    · cases hr
      rfl
    · cases hr
  cases effect with
  | true => exact .complete id _ plain rfl
  | false =>
    simp only [Bool.false_eq_true, if_false, List.append_nil]
    exact .quit _ plain (.inr (.inl rfl)) rfl

/-- The checks of the open and revoke handlers answer with errors. -/
theorem isPlain_of_rejects {id : LinkId} {body : String} {count : Nat} {r : Response}
    (h : rejects id body count = some r) : r.isPlain = true := by
  unfold rejects at h
  split at h
  · cases h
    rfl
  split at h
  · cases h
    rfl
  split at h
  · cases h
    rfl
  · cases h

end Quiet

/-! ## Histories -/

/-- The events of threads that neither create nor answer opens. -/
def Event.isWork : Event → Bool
  | .acted _ | .pruned _ | .opened .. => true
  | _ => false

/-- What a thread that is done has emitted, the latest first. -/
inductive Ended (env : Env) : List Event → Prop
  | worked {h : List Event} (work : ∀ e ∈ h, e.isWork = true) (answer : Option Response)
    (plain : ∀ r ∈ answer, r.isPlain = true) : Ended env (finish answer ++ h)
  | completed {h : List Event} (work : ∀ e ∈ h, e.isWork = true) {id : LinkId} (acted : .acted id ∈ h)
    (answer : Option Response) (plain : ∀ r ∈ answer, r.isPlain = true) :
    Ended env (finish answer ++ (.completed id :: h))
  | created (record : CreateLinkRecord) : Ended env [.inserted record]
  | undone (token : Option String) (record : CreateLinkRecord) :
    Ended env (finish (token.map fun _ ↦ internalError) ++ [.rolledBack record.id, .inserted record])
  | kept (token : Option String) (record : CreateLinkRecord) (ciphertext : List UInt8) :
    Ended env (finish (token.map (env.created record.id)) ++
      [.stored record.id ciphertext, .inserted record])
  | refused (id : LinkId) (blob : Option (List UInt8)) (answer : Option Response)
    (plain : ∀ r ∈ answer, r.isPlain = true) : Ended env (finish answer ++ [.read id blob])
  | opened (id : LinkId) (blob : Option (List UInt8)) (row : LinkMetadata) (now : Instant) :
    Ended env (.answered (openResponse blob (some row)) ::
      (completion id (some row) ++ (openEvents id row now ++ [.read id blob])))

/-- What a thread has emitted when it has reached a stage, the latest first. -/
def Story (env : Env) : Stage → List Event → Prop
  | .fresh, h => h = []
  | .placed _ record _, h => h = [.inserted record]
  | .undoing _ record, h => h = [.inserted record]
  | .kept _ record ciphertext, h => h = [.stored record.id ciphertext, .inserted record]
  | .fetched id blob, h => h = [.read id blob]
  | .counted id blob none, h => h = [.read id blob]
  | .counted id blob (some row), h => ∃ now, h = openEvents id row now ++ [.read id blob]
  | .owing id, h => (∀ e ∈ h, e.isWork = true) ∧ .acted id ∈ h
  | .dropping _, h | .busy, h => ∀ e ∈ h, e.isWork = true
  | .done, h => Ended env h

theorem isWork_openEvents {id : LinkId} {row : LinkMetadata} {now : Instant} {e : Event}
    (h : e ∈ openEvents id row now) : e.isWork = true := by
  unfold openEvents at h
  rcases List.mem_append.mp h with h | h
  · split at h
    · obtain rfl := List.mem_singleton.mp h
      rfl
    · cases h
  · obtain rfl := List.mem_singleton.mp h
    rfl

section Story

variable {env : Env} {links links' : Links} {a b : Stage} {es h : List Event}

theorem Passes.story (hp : Passes a b) (hs : Story env a h) (hes : ∀ e ∈ es, e.isWork = true) :
    Story env b (es ++ h) := by
  have work : (∀ e ∈ h, e.isWork = true) → ∀ e ∈ es ++ h, e.isWork = true := by
    intro hh e he
    rcases List.mem_append.mp he with he | he
    · exact hes e he
    · exact hh e he
  have empty : h = [] → ∀ e ∈ h, e.isWork = true := by
    rintro rfl e ⟨⟩
  have ended : (∀ e ∈ h, e.isWork = true) → Ended env (es ++ h) := fun hh ↦
    .worked (work hh) none (by rintro r ⟨⟩)
  cases hp with
  | work => exact work (empty hs)
  | probe id => exact work (empty hs)
  | go | find id | skip id => exact work hs
  | owe id => exact ⟨work hs.1, List.mem_append_right _ hs.2⟩
  | abandon id => exact work hs.1
  | quit => exact ended (empty hs)
  | stop => exact ended hs

/-- Every step leads from the story of its stage to that of the next. -/
theorem Act.story (ha : Act env links links' a es b) (hs : Story env a h) :
    Story env b (es ++ h) := by
  cases ha with
  | wait => exact hs
  | close passes closing tidy pruned =>
    refine passes.story hs fun e he ↦ ?_
    obtain ⟨id, rfl⟩ := tidy e he
    rfl
  | quit answer plain early same =>
    rcases early with rfl | rfl | ⟨id, blob, rfl⟩
    · cases hs
      exact .worked (by rintro e ⟨⟩) answer plain
    · exact .worked hs answer plain
    · cases hs
      exact .refused id blob answer plain
  | create absent link =>
    cases hs
    exact .created _
  | place token ciphertext absent link =>
    cases hs
    rfl
  | commit token ciphertext absent link =>
    cases hs
    rfl
  | put link =>
    cases hs
    rfl
  | fail same => exact hs
  | undo link =>
    cases hs
    rw [List.append_assoc]
    exact .undone _ _
  | reply same =>
    cases hs
    exact .kept _ _ _
  | fetch id same =>
    cases hs
    rfl
  | miss same => exact hs
  | count present active live link =>
    cases hs
    exact ⟨_, rfl⟩
  | @respond id blob row same =>
    cases row with
    | none =>
      cases hs
      exact .refused id blob (some (openResponse blob none)) (by rintro r ⟨⟩; rfl)
    | some row =>
      obtain ⟨now, rfl⟩ := hs
      exact .opened id blob row now
  | @tally id row now stamp present active live link =>
    cases hs
    have work : ∀ e ∈ openEvents id row.opened now ++ [], e.isWork = true := fun e he ↦
      isWork_openEvents ((List.append_nil _).subst he)
    unfold Stage.resolved
    split
    · rename_i hx
      refine ⟨work, ?_⟩
      unfold openEvents
      rw [if_pos (of_decide_eq_true hx)]
      exact List.mem_append_left _ List.mem_cons_self
    · exact work
  | act id early closing kept empty =>
    have hwork : ∀ e ∈ h, e.isWork = true := by
      rcases early with rfl | rfl
      · cases hs
        rintro e ⟨⟩
      · exact hs
    exact ⟨List.forall_mem_cons.mpr ⟨rfl, hwork⟩, List.mem_cons_self⟩
  | drop id link => exact hs
  | dropActed id link => exact ⟨List.forall_mem_cons.mpr ⟨rfl, hs⟩, List.mem_cons_self⟩
  | complete id answer plain same =>
    rw [List.append_assoc]
    exact .completed hs.1 hs.2 answer plain

/-! ## What a story tells -/

/-- What a thread may have emitted, by what it does. -/
inductive Kind (env : Env) (h : List Event) : Prop
  | unstored (record : CreateLinkRecord) (inserted : .inserted record ∈ h)
    (all : ∀ e ∈ h, e = .inserted record ∨ e = .rolledBack record.id ∨ e = .answered internalError)
    (undone : ∀ r, .answered r ∈ h → .rolledBack record.id ∈ h)
  | stored (record : CreateLinkRecord) (ciphertext : List UInt8) (inserted : .inserted record ∈ h)
    (stored : .stored record.id ciphertext ∈ h)
    (all : ∀ e ∈ h, e = .inserted record ∨ e = .stored record.id ciphertext ∨
      ∃ token, e = .answered (env.created record.id token))
  | opening (id : LinkId) (blob : Option (List UInt8))
    (all : ∀ e ∈ h, e = .read id blob ∨ ∃ r, e = .answered r ∧ r.isPlain = true)
  | counted (id : LinkId) (blob : Option (List UInt8)) (row : LinkMetadata) (now : Instant)
    (all : ∀ e ∈ h, e = .read id blob ∨ e ∈ openEvents id row now ∨
      (e = .completed id ∧ .acted id ∈ h) ∨ e = .answered (openResponse blob (some row)))
  | other (all : ∀ e ∈ h, e.isWork = true ∨ (∃ r, e = .answered r ∧ r.isPlain = true) ∨
      ∃ id, e = .completed id ∧ .acted id ∈ h)

theorem mem_finish {answer : Option Response} {e : Event} :
    e ∈ finish answer ↔ ∃ r, answer = some r ∧ e = .answered r := by
  cases answer with
  | none => exact ⟨nofun, by rintro ⟨r, ⟨⟩, -⟩⟩
  | some r =>
    refine ⟨fun h ↦ ⟨r, rfl, List.mem_singleton.mp h⟩, ?_⟩
    rintro ⟨_, ⟨⟩, rfl⟩
    exact List.mem_cons_self

theorem mem_completion {id : LinkId} {row : Option LinkMetadata} {e : Event} :
    e ∈ completion id row ↔ e = .completed id ∧ row.any (·.status = .expired) = true := by
  unfold completion
  split
  · rename_i h
    exact ⟨fun he ↦ ⟨List.mem_singleton.mp he, h⟩, fun he ↦ List.mem_singleton.mpr he.1⟩
  · rename_i h
    exact ⟨nofun, fun he ↦ absurd he.2 h⟩

theorem mem_openEvents {id : LinkId} {row : LinkMetadata} {now : Instant} {e : Event} :
    e ∈ openEvents id row now ↔
      (e = .acted id ∧ row.status = .expired) ∨ e = .opened id row now := by
  unfold openEvents
  rw [List.mem_append, List.mem_singleton]
  split
  · rename_i h
    simp [h]
  · rename_i h
    simp [h]

theorem Ended.kind (he : Ended env h) : Kind env h := by
  cases he with
  | @worked h work answer plain =>
    refine .other fun e he ↦ ?_
    rcases List.mem_append.mp he with he | he
    · obtain ⟨r, rfl, rfl⟩ := mem_finish.mp he
      exact .inr (.inl ⟨r, rfl, plain r rfl⟩)
    · exact .inl (work e he)
  | @completed h work id acted answer plain =>
    refine .other fun e he ↦ ?_
    rcases List.mem_append.mp he with he | he
    · obtain ⟨r, rfl, rfl⟩ := mem_finish.mp he
      exact .inr (.inl ⟨r, rfl, plain r rfl⟩)
    · rcases List.mem_cons.mp he with rfl | he
      · exact .inr (.inr ⟨id, rfl, List.mem_append_right _ (List.mem_cons_of_mem _ acted)⟩)
      · exact .inl (work e he)
  | created record =>
    exact .unstored record List.mem_cons_self (fun e he ↦ .inl (List.mem_singleton.mp he))
      (by simp)
  | undone token record =>
    refine .unstored record (by simp) (fun e he ↦ ?_) (by simp)
    rcases List.mem_append.mp he with he | he
    · obtain ⟨r, hr, rfl⟩ := mem_finish.mp he
      obtain ⟨_, -, rfl⟩ := Option.map_eq_some_iff.mp hr
      exact .inr (.inr rfl)
    · rcases List.mem_cons.mp he with rfl | he
      · exact .inr (.inl rfl)
      · exact .inl (List.mem_singleton.mp he)
  | kept token record ciphertext =>
    refine .stored record ciphertext (by simp) (by simp) fun e he ↦ ?_
    rcases List.mem_append.mp he with he | he
    · obtain ⟨r, hr, rfl⟩ := mem_finish.mp he
      obtain ⟨value, -, rfl⟩ := Option.map_eq_some_iff.mp hr
      exact .inr (.inr ⟨value, rfl⟩)
    · rcases List.mem_cons.mp he with rfl | he
      · exact .inr (.inl rfl)
      · exact .inl (List.mem_singleton.mp he)
  | refused id blob answer plain =>
    refine .opening id blob fun e he ↦ ?_
    rcases List.mem_append.mp he with he | he
    · obtain ⟨r, rfl, rfl⟩ := mem_finish.mp he
      exact .inr ⟨r, rfl, plain r rfl⟩
    · exact .inl (List.mem_singleton.mp he)
  | opened id blob row now =>
    refine .counted id blob row now fun e he ↦ ?_
    rcases List.mem_cons.mp he with rfl | he
    · exact .inr (.inr (.inr rfl))
    rcases List.mem_append.mp he with he | he
    · obtain ⟨rfl, hx⟩ := mem_completion.mp he
      refine .inr (.inr (.inl ⟨rfl, List.mem_cons_of_mem _ (List.mem_append_right _
        (List.mem_append_left _ (mem_openEvents.mpr (.inl ⟨rfl, ?_⟩))))⟩))
      simpa using hx
    rcases List.mem_append.mp he with he | he
    · exact .inr (.inl he)
    · exact .inl (List.mem_singleton.mp he)

theorem Story.kind (hs : Story env a h) : Kind env h := by
  cases a with
  | fresh =>
    cases hs
    exact .other (by rintro e ⟨⟩)
  | placed token record ciphertext =>
    cases hs
    exact (Ended.created record).kind
  | undoing token record =>
    cases hs
    exact (Ended.created record).kind
  | kept token record ciphertext =>
    cases hs
    exact (Ended.kept none record ciphertext).kind
  | fetched id blob =>
    cases hs
    exact (Ended.refused id blob none (by rintro r ⟨⟩)).kind
  | counted id blob row =>
    cases row with
    | none =>
      cases hs
      exact (Ended.refused id blob none (by rintro r ⟨⟩)).kind
    | some row =>
      obtain ⟨now, rfl⟩ := hs
      refine .counted id blob row now fun e he ↦ ?_
      rcases List.mem_append.mp he with he | he
      · exact .inr (.inl he)
      · exact .inl (List.mem_singleton.mp he)
  | owing id => exact .other fun e he ↦ .inl (hs.1 e he)
  | dropping id | busy => exact .other fun e he ↦ .inl (hs e he)
  | done => exact Ended.kind hs

/-- A thread inserts at most one row. -/
theorem Kind.inserted_unique (hk : Kind env h) {r r' : CreateLinkRecord}
    (hr : .inserted r ∈ h) (hr' : .inserted r' ∈ h) : r = r' := by
  have unique : ∃ record, ∀ r, .inserted r ∈ h → r = record := by
    cases hk with
    | unstored record _ all _ => exact ⟨record, fun r hr ↦ by simpa using all _ hr⟩
    | stored record _ _ _ all => exact ⟨record, fun r hr ↦ by simpa using all _ hr⟩
    | opening id blob all => exact ⟨r, fun r hr ↦ by simpa using all _ hr⟩
    | counted id blob row now all => exact ⟨r, fun r hr ↦ by simpa [mem_openEvents] using all _ hr⟩
    | other all => exact ⟨r, fun r hr ↦ by simpa [Event.isWork] using all _ hr⟩
  obtain ⟨record, hall⟩ := unique
  exact (hall r hr).trans (hall r' hr').symm

/-- A thread that stored a ciphertext has inserted the row, has stored nothing else and has undone
nothing. -/
theorem Kind.of_stored (hk : Kind env h) {id : LinkId} {b : List UInt8} (hb : .stored id b ∈ h) :
    (∃ record, .inserted record ∈ h ∧ record.id = id) ∧ (∀ id' b', .stored id' b' ∈ h → b' = b) ∧
      ∀ id', .rolledBack id' ∉ h := by
  cases hk with
  | unstored record _ all _ => simpa using all _ hb
  | stored record ciphertext inserted _ all =>
    obtain ⟨rfl, rfl⟩ : id = record.id ∧ b = ciphertext := by simpa using all _ hb
    refine ⟨⟨record, inserted, rfl⟩, fun id' b' hb' ↦ ?_, fun id' hr ↦ ?_⟩
    · have : id' = record.id ∧ b' = b := by simpa using all _ hb'
      exact this.2
    · simpa using all _ hr
  | opening id blob all => simpa using all _ hb
  | counted id blob row now all => simpa [mem_openEvents] using all _ hb
  | other all => simpa [Event.isWork] using all _ hb

/-- A 201 is for what the thread has stored, and a thread that has stored is answered nothing
else. -/
theorem Kind.of_answered (hk : Kind env h) {r : Response} (hr : .answered r ∈ h) :
    (r.status = 201 → ∃ record b token, r = env.created record.id token ∧ .inserted record ∈ h ∧
      .stored record.id b ∈ h) ∧ ((∃ id b, .stored id b ∈ h) → r.status = 201) := by
  cases hk with
  | unstored record _ all _ =>
    obtain rfl : r = internalError := by simpa using all _ hr
    refine ⟨nofun, ?_⟩
    rintro ⟨id, b, hb⟩
    simpa using all _ hb
  | stored record ciphertext inserted stored all =>
    obtain ⟨token, rfl⟩ : ∃ token, r = env.created record.id token := by simpa using all _ hr
    exact ⟨fun _ ↦ ⟨record, ciphertext, token, rfl, inserted, stored⟩, fun _ ↦ rfl⟩
  | opening id blob all =>
    have hplain : r.isPlain = true := by simpa using all _ hr
    refine ⟨fun h201 ↦ absurd h201 (Response.status_of_isPlain hplain), ?_⟩
    rintro ⟨id, b, hb⟩
    simpa using all _ hb
  | counted id blob row now all =>
    obtain rfl : r = openResponse blob (some row) := by simpa [mem_openEvents] using all _ hr
    refine ⟨fun h201 ↦ ?_, ?_⟩
    · cases blob <;> cases h201
    · rintro ⟨id, b, hb⟩
      simpa [mem_openEvents] using all _ hb
  | other all =>
    have hplain : r.isPlain = true := by simpa [Event.isWork] using all _ hr
    refine ⟨fun h201 ↦ absurd h201 (Response.status_of_isPlain hplain), ?_⟩
    rintro ⟨id, b, hb⟩
    simpa [Event.isWork] using all _ hb

/-- A thread that inserted a row and was answered an error has undone the row. -/
theorem Kind.of_failed (hk : Kind env h) {r : Response} (hr : .answered r ∈ h)
    (hfail : r.status ≠ 201) {record : CreateLinkRecord} (hi : .inserted record ∈ h) :
    .rolledBack record.id ∈ h := by
  cases hk with
  | unstored record' inserted all undone =>
    obtain rfl : record = record' := by simpa using all _ hi
    exact undone r hr
  | stored record' ciphertext _ _ all =>
    obtain ⟨token, rfl⟩ : ∃ token, r = env.created record'.id token := by simpa using all _ hr
    exact absurd rfl hfail
  | opening id blob all => simpa using all _ hi
  | counted id blob row now all => simpa [mem_openEvents] using all _ hi
  | other all => simpa [Event.isWork] using all _ hi

/-- What completes has acted. -/
theorem Kind.of_completed (hk : Kind env h) {id : LinkId} (hc : .completed id ∈ h) :
    .acted id ∈ h := by
  cases hk with
  | unstored record _ all _ => simpa using all _ hc
  | stored record ciphertext _ _ all => simpa using all _ hc
  | opening id blob all => simpa using all _ hc
  | counted id' blob row now all =>
    obtain ⟨rfl, hact⟩ : id = id' ∧ .acted id' ∈ h := by simpa [mem_openEvents] using all _ hc
    exact hact
  | other all =>
    obtain ⟨id', hid, hact⟩ : ∃ id', id = id' ∧ .acted id' ∈ h := by
      simpa [Event.isWork] using all _ hc
    exact hid ▸ hact

end Story

/-! ## Servers -/

/-- A server refines the protocol: from the states that satisfy `inv`, each of its steps is one of
the abstract server. -/
structure LinkServer {χ P σ : Type} (env : Env) (M : Program Request χ P σ Event) (links : σ → Links)
    (stage : P → Stage) (inv : σ → Prop) : Prop where
  start : ∀ request, stage (M.init request) = .fresh
  keep : ∀ {i x p s p' s' es}, inv s → M.step i x p s = some (p', s', es) → inv s'
  act : ∀ {i x p s p' s' es}, inv s → M.step i x p s = some (p', s', es) →
    Act env (links s) (links s') (stage p) es (stage p')

end Aesmsg.Server
