import Aesmsg.Server.Ledger
import Aesmsg.Server.Memory
import Aesmsg.Store.MemoryLink

/-!
# The in-memory server refines the protocol

## Main results

- `step_act`: every step of a thread is a step of the protocol on the links of the store.
- `linkServer`: the in-memory server is a link server.
-/

namespace Aesmsg.Server.Memory

open Store Api Threads

def stage : Pc → Stage
  | .start _ | .checked .. => .fresh
  | .put token record ciphertext => .placed token record ciphertext
  | .rollback token record => .undoing token record
  | .created token record ciphertext => .kept token record ciphertext
  | .increment id blob => .fetched id blob
  | .opened id blob row => .counted id blob row
  | .incremented id row => .resolved id row
  | .revoked _ id effect => if effect then .owing id else .busy
  | .purge id present => if present then .dropping id else .owing id
  | .purged id => .owing id
  | .sweepGot _ id present => if present then .dropping id else .busy
  | .sweepNext _ | .pruneNext .. => .busy
  | .done => .done

/-- The thread that stands at a stage. -/
theorem stage_inv (p : Pc) :
    match stage p with
    | .placed token record ciphertext => p = .put token record ciphertext
    | .undoing token record => p = .rollback token record
    | .fetched id blob => p = .increment id blob
    | .counted id blob row => p = .opened id blob row
    | .dropping id => p = .purge id true ∨ ∃ position, p = .sweepGot position id true
    | _ => True := by
  cases p with
  | put | rollback | increment | opened => rfl
  | incremented id row =>
    unfold stage Stage.resolved
    dsimp only
    cases row.any (·.status = .expired) <;> trivial
  | revoked request id effect => cases effect <;> trivial
  | purge id present =>
    cases present with
    | true => exact .inl rfl
    | false => trivial
  | sweepGot position id present =>
    cases present with
    | true => exact .inr ⟨position, rfl⟩
    | false => trivial
  | _ => trivial

/-! ## The loops -/

theorem pruneFrom_cases (s : MemoryStore) (before : Option Instant) (position : Nat) :
    pruneFrom s before position = (.done, s, []) ∨
      ∃ id j, (s.link id).isTerminal = true ∧
        pruneFrom s before position = (.pruneNext before j, s.deleteRow id, [.pruned id]) := by
  unfold pruneFrom
  cases hn : s.rows.next position (fun id row ↦ s.prunes before id row) with
  | none => exact .inl rfl
  | some found =>
    obtain ⟨j, id, row⟩ := found
    obtain ⟨hr, hp⟩ := OrderedMap.next_eq_some hn
    refine .inr ⟨id, j + 1, ?_, rfl⟩
    unfold Link.isTerminal
    rw [MemoryStore.row_link, hr]
    unfold MemoryStore.prunes at hp
    rw [Bool.and_eq_true] at hp
    exact hp.1

/-- A sweep that starts its second loop prunes nothing when it meets no terminal row. -/
theorem sweepFrom_zero (env : Env) (clock : Clock) (s : MemoryStore) :
    (∃ j id, sweepFrom env clock s 0 = (.sweepGot j id (s.getCiphertext id).isSome, s, [])) ∨
      sweepFrom env clock s 0 = (.done, s, []) := by
  unfold sweepFrom
  cases hn : s.rows.next 0 (fun _ row ↦ row.isTerminal) with
  | none =>
    rcases pruneFrom_cases s (newDate (clock.later - env.retention)) 0 with h | ⟨id, j, ht, h⟩
    · exact .inr h
    · unfold pruneFrom at h
      cases hp : s.rows.next 0
          (fun id row ↦ s.prunes (newDate (clock.later - env.retention)) id row) with
      | none =>
        rw [hp] at h
        cases h
      | some found =>
        obtain ⟨j, id, row⟩ := found
        obtain ⟨hr, hp⟩ := OrderedMap.next_eq_some hp
        have ht := OrderedMap.next_zero_eq_none hn hr
        unfold MemoryStore.prunes at hp
        rw [ht] at hp
        cases hp
  | some found => exact .inl ⟨_, _, rfl⟩

section Steps

variable {env : Env} {x : Input} {s : MemoryStore}

/-- What is left of a sweep or a prune deletes rows that are terminal. -/
theorem pruneFrom_act {a : Stage} (ha : a = .fresh ∨ a = .busy) (before : Option Instant)
    (position : Nat) :
    Act env s.link (pruneFrom s before position).2.1.link a (pruneFrom s before position).2.2
      (stage (pruneFrom s before position).1) := by
  rcases pruneFrom_cases s before position with h | ⟨id, j, ht, h⟩
  · rw [h]
    refine .close ?_ (fun _ ↦ .keep) (by rintro e ⟨⟩) fun id hs hn ↦ ?_
    · rcases ha with rfl | rfl
      · exact .quit
      · exact .stop
    · rw [hn] at hs
      cases hs
  · rw [h]
    have hl := MemoryStore.link_deleteRow s id
    refine .close ?_ (Closing.update hl (.prune ht)) ?_ fun k hs hn ↦ ?_
    · rcases ha with rfl | rfl
      · exact .work
      · exact .go
    · intro e he
      exact ⟨id, List.mem_singleton.mp he⟩
    · by_cases hk : k = id
      · rw [hk]
        exact List.mem_cons_self
      · change ((s.deleteRow id).link k).row = none at hn
        rw [hl, Function.update_of_ne hk] at hn
        rw [hn] at hs
        cases hs

theorem passes_sweepGot {a : Stage} (ha : a = .fresh ∨ a = .busy) (position : Nat) (id : LinkId)
    (present : Bool) : Passes a (stage (.sweepGot position id present)) := by
  rcases ha with rfl | rfl
  · cases present with
    | true => exact .probe id
    | false => exact .work
  · cases present with
    | true => exact .find id
    | false => exact .go

theorem sweepFrom_act (clock : Clock) (position : Nat) :
    Act env s.link (sweepFrom env clock s position).2.1.link .busy
      (sweepFrom env clock s position).2.2 (stage (sweepFrom env clock s position).1) := by
  unfold sweepFrom
  cases s.rows.next position (fun _ row ↦ row.isTerminal) with
  | none => exact pruneFrom_act (.inr rfl) _ 0
  | some found =>
    exact .pass (passes_sweepGot (.inr rfl) _ _ _)

theorem insert_act (record : CreateLinkRecord) (ciphertext : List UInt8) (token : Option String) :
    Act env s.link (insert s record ciphertext token).2.1.link .fresh
      (insert s record ciphertext token).2.2 (stage (insert s record ciphertext token).1) := by
  unfold insert
  cases hc : s.create record with
  | error e =>
    refine .quit _ ?_ (.inl rfl) rfl
    intro r hr
    obtain ⟨_, -, rfl⟩ := Option.map_eq_some_iff.mp hr
    rfl
  | ok result =>
    obtain ⟨row, s'⟩ := result
    obtain ⟨habs, -, hl⟩ := MemoryStore.create_eq_ok hc
    exact .place token ciphertext habs hl

theorem incrementOpens_cases (s : MemoryStore) (id : LinkId) (clock : Clock)
    (resume : Option LinkMetadata → Pc) :
    incrementOpens s id clock resume = (resume none, s, []) ∨
    ∃ row s', (s.link id).row = some row ∧ row.status = .active ∧ clock.now < row.expiresAt ∧
      s'.link = Function.update s.link id ((s.link id).increment clock.now (clock.stamp id)) ∧
      incrementOpens s id clock resume = (resume (some row.opened), s',
        openEvents id row.opened clock.now) := by
  have hfst := MemoryStore.incrementOpens_fst s id clock
  have hlink := MemoryStore.link_incrementOpens s id clock
  unfold incrementOpens
  cases ho : (s.link id).openedRow clock.now with
  | none =>
    rw [MemoryStore.incrementOpens_of_none ho]
    exact .inl rfl
  | some opened =>
    obtain ⟨row, hr, ha, hn, rfl⟩ := Link.openedRow_eq_some.mp ho
    generalize hs : s.incrementOpens id clock = result at hfst hlink
    obtain ⟨row?, s'⟩ := result
    rw [ho] at hfst
    obtain rfl : row? = some row.opened := hfst
    exact .inr ⟨row, s', hr, ha, hn, hlink, rfl⟩

theorem revoke_act (id : LinkId) (providedTokenHash : Option String) (request : Bool) :
    Act env s.link (revoke s id providedTokenHash x.clock request).2.1.link .fresh
      (revoke s id providedTokenHash x.clock request).2.2
      (stage (revoke s id providedTokenHash x.clock request).1) := by
  have hl := MemoryStore.link_revoke s id providedTokenHash x.clock
  have hclosing := Closing.update hl (Closing.revoke (s.link id) providedTokenHash _)
  have hkept : ∀ j, (s.link j).row.isSome = true →
      ((s.revoke id providedTokenHash x.clock).link j).row.isSome = true := by
    intro j hs
    rw [hl]
    by_cases hj : j = id
    · subst hj
      rw [Function.update_self]
      unfold Link.revoke
      split
      · change ((s.link j).flip _ _).row.isSome = true
        rw [row_isSome_flip]
        exact hs
      · exact hs
    · rw [Function.update_of_ne hj]
      exact hs
  have hauth : authorizes s id providedTokenHash = (s.link id).revocable providedTokenHash := rfl
  unfold revoke
  rw [hauth]
  cases hr : (s.link id).revocable providedTokenHash with
  | false =>
    refine .close .work hclosing (by rintro e ⟨⟩) fun j hs hn ↦ ?_
    have := hkept j hs
    change ((s.revoke id providedTokenHash x.clock).link j).row = none at hn
    rw [hn] at this
    cases this
  | true =>
    refine .act id (.inl rfl) hclosing hkept ?_
    change ((s.revoke id providedTokenHash x.clock).link id).blob = none
    rw [hl, Function.update_self]
    unfold Link.revoke
    rw [hr]
    rfl

/-- The flip of an admin purge. -/
theorem adminFlip_act (id : LinkId) (clock : Clock) {s' : MemoryStore}
    (hs : (s.adminFlip id clock).2.2 = s') :
    Act env s.link s'.link .fresh (if (s'.getCiphertext id).isSome then [] else [.acted id])
      (stage (.purge id (s'.getCiphertext id).isSome)) := by
  have hl : s'.link = Function.update s.link id ((s.link id).flip .revoked (clock.stamp id)) := by
    rw [← hs]
    exact MemoryStore.link_adminFlip s id clock
  have hclosing := Closing.update hl (@Closing.flip (s.link id) .revoked (by decide) _)
  have hkept : ∀ j, (s.link j).row.isSome = true → (s'.link j).row.isSome = true := by
    intro j hrow
    rw [hl]
    by_cases hj : j = id
    · subst hj
      rw [Function.update_self, row_isSome_flip]
      exact hrow
    · rw [Function.update_of_ne hj]
      exact hrow
  cases hb : s'.getCiphertext id with
  | none => exact .act id (.inl rfl) hclosing hkept hb
  | some blob =>
    refine .close (.probe id) hclosing (by rintro e ⟨⟩) fun j hs hn ↦ ?_
    have := hkept j hs
    rw [hn] at this
    cases this

theorem begin_act (request : Request) :
    Act env s.link (begin_ env x s request).2.1.link .fresh (begin_ env x s request).2.2
      (stage (begin_ env x s request).1) := by
  unfold begin_
  cases request with
  | postMessages validate =>
    dsimp only
    split
    · exact .answer (r := rateLimited) rfl
    · split
      · exact .answer (r := badRequest) rfl
      · exact .wait rfl
  | openMessage id body =>
    dsimp only
    split
    · rename_i r hr
      exact .answer (isPlain_of_rejects hr)
    · exact .fetch id rfl
  | revokeMessage id body token =>
    dsimp only
    split
    · rename_i r hr
      exact .answer (isPlain_of_rejects hr)
    · exact revoke_act id _ true
  | create record =>
    dsimp only
    cases hc : s.create record with
    | error e => exact .pass .quit
    | ok result =>
      obtain ⟨row, s'⟩ := result
      obtain ⟨habs, -, hl⟩ := MemoryStore.create_eq_ok hc
      exact .create habs hl
  | createWithCiphertext record ciphertext => exact insert_act record ciphertext none
  | incrementOpens id =>
    rcases incrementOpens_cases s id x.clock (.incremented id) with h | ⟨row, s', hr, ha, hn, hl, h⟩
    · dsimp only
      rw [h]
      exact .pass .work
    · dsimp only
      rw [h]
      exact .tally hr ha hn hl
  | revoke id providedTokenHash => exact revoke_act id _ false
  | expirePastDue =>
    have hclosing : ∀ id, Closing (s.link id) ((s.expireRows x.clock).link id) := by
      intro id
      rw [MemoryStore.link_expireRows]
      exact .expire (s.link id) _ _
    have hkept : ∀ id, (s.link id).row.isSome = true →
        ((s.expireRows x.clock).link id).row ≠ none := by
      intro id hs hn
      rw [MemoryStore.link_expireRows] at hn
      unfold Link.expire at hn
      split at hn
      · have := row_isSome_flip (l := s.link id) .expired (x.clock.stamp id)
        rw [hn, hs] at this
        cases this
      · rw [hn] at hs
        cases hs
    dsimp only
    rcases sweepFrom_zero env x.clock (s.expireRows x.clock) with ⟨j, id, h⟩ | h
    · rw [h]
      exact .close (passes_sweepGot (.inl rfl) j id _) hclosing (by rintro e ⟨⟩)
        fun id hs hn ↦ absurd hn (hkept id hs)
    · rw [h]
      exact .close .quit hclosing (by rintro e ⟨⟩) fun id hs hn ↦ absurd hn (hkept id hs)
  | pruneTerminal before => exact pruneFrom_act (.inl rfl) before 0
  | adminPurge id => exact adminFlip_act id x.clock rfl

/-- Every step is a step of the protocol. -/
theorem step_act {i : Nat} {p p' : Pc} {s' : MemoryStore} {es : List Event}
    (h : (program env).step i x p s = some (p', s', es)) :
    Act env s.link s'.link (stage p) es (stage p') := by
  change step env i x p s = some (p', s', es) at h
  have of : ∀ {r : Pc × MemoryStore × List Event} {a : Stage},
      Act env s.link r.2.1.link a r.2.2 (stage r.1) → some r = some (p', s', es) →
        Act env s.link s'.link a es (stage p') := by
    rintro _ a hr ⟨⟩
    exact hr
  cases p with
  | start request => exact of (begin_act request) h
  | checked draft existing =>
    cases existing with
    | some row =>
      cases h
      exact .answer (r := idConflict) rfl
    | none => exact of (insert_act _ _ _) h
  | put token record ciphertext =>
    simp only [step] at h
    split at h
    · cases h
      exact .fail rfl
    · cases h
      exact .put (MemoryStore.link_put s record.id ciphertext)
  | rollback token record =>
    cases h
    exact .undo (MemoryStore.link_rollback s record.id)
  | created token record ciphertext =>
    cases h
    exact .reply rfl
  | increment id blob =>
    rcases incrementOpens_cases s id x.clock (.opened id blob) with hc | ⟨row, s₁, hr, ha, hn, hl, hc⟩
    · simp only [step, hc] at h
      cases h
      exact .miss rfl
    · simp only [step, hc] at h
      cases h
      exact .count hr ha hn hl
  | opened id blob row =>
    cases h
    exact .respond rfl
  | incremented id row =>
    cases h
    exact .resolve id row
  | revoked request id effect =>
    cases h
    exact .revoked request id effect
  | purge id present =>
    cases present with
    | true =>
      cases h
      exact .dropActed id (MemoryStore.link_deleteCiphertext s id)
    | false =>
      cases h
      exact .complete id none (by rintro r ⟨⟩) rfl
  | purged id =>
    cases h
    exact .complete id none (by rintro r ⟨⟩) rfl
  | sweepGot position id present =>
    cases present with
    | true =>
      cases h
      exact .drop id (MemoryStore.link_deleteCiphertext s id)
    | false => exact of (sweepFrom_act _ _) h
  | sweepNext position => exact of (sweepFrom_act _ _) h
  | pruneNext before position => exact of (pruneFrom_act (.inr rfl) _ _) h
  | done => cases h

end Steps

/-- The in-memory server is a link server. -/
theorem linkServer (env : Env) :
    LinkServer env (program env) MemoryStore.link stage fun _ ↦ True where
  start := fun _ ↦ rfl
  keep := fun _ _ ↦ trivial
  act := fun _ h ↦ step_act h

end Aesmsg.Server.Memory
