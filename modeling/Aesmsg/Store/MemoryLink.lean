import Mathlib.Logic.Function.Basic
import Aesmsg.Store.Link
import Aesmsg.Store.Memory

/-!
# The in-memory store, link by link

`MemoryStore.link` reads off the four maps what the store holds for one id.  Every segment of the
in-memory store changes the link of its own id, by the operation of the abstract model, and no
other; a loop over the rows does so for every id.
-/

namespace Aesmsg.Store.MemoryStore

def link (s : MemoryStore) (id : LinkId) : Link where
  row := s.rows.get? id
  hash := s.revocationTokenHashes.get? id
  terminalAt := s.terminalAt.get? id
  blob := s.ciphertexts.get? id

@[simp] theorem link_empty : empty.link = fun _ ↦ Link.vacant := rfl

theorem row_link (s : MemoryStore) (id : LinkId) : (s.link id).row = s.rows.get? id := rfl

section Update

variable {s s' : MemoryStore} {id : LinkId}

/-- A segment that writes at one key changes one link. -/
theorem link_eq_update {l : Link} (at_id : s'.link id = l)
    (frame : ∀ j, j ≠ id → s'.link j = s.link j) : s'.link = Function.update s.link id l := by
  funext j
  by_cases hj : j = id
  · rw [hj, Function.update_self, at_id]
  · rw [Function.update_of_ne hj, frame j hj]

theorem link_put (s : MemoryStore) (id : LinkId) (blob : List UInt8) :
    (s.put id blob).link = Function.update s.link id ((s.link id).withBlob blob) :=
  link_eq_update (by simp [link, put, Link.withBlob])
    fun j hj ↦ by simp [link, put, OrderedMap.get?_set, hj]

theorem link_deleteCiphertext (s : MemoryStore) (id : LinkId) :
    (s.deleteCiphertext id).link = Function.update s.link id (s.link id).withoutBlob :=
  link_eq_update (by simp [link, deleteCiphertext, Link.withoutBlob])
    fun j hj ↦ by simp [link, deleteCiphertext, OrderedMap.get?_delete, hj]

theorem link_rollback (s : MemoryStore) (id : LinkId) :
    (s.rollback id).link = Function.update s.link id (s.link id).rollback :=
  link_eq_update (by simp [link, rollback, Link.rollback])
    fun j hj ↦ by simp [link, rollback, OrderedMap.get?_delete, hj]

theorem link_deleteRow (s : MemoryStore) (id : LinkId) :
    (s.deleteRow id).link = Function.update s.link id Link.vacant :=
  link_eq_update (by simp [link, deleteRow, Link.vacant])
    fun j hj ↦ by simp [link, deleteRow, OrderedMap.get?_delete, hj]

end Update

theorem create_eq_ok {s s' : MemoryStore} {record : CreateLinkRecord} {row : LinkMetadata}
    (h : s.create record = .ok (row, s')) :
    (s.link record.id).row = none ∧ row = record.meta ∧
      s'.link = Function.update s.link record.id ((s.link record.id).insert record) := by
  unfold create at h
  split at h
  · cases h
  · rename_i hn
    obtain ⟨rfl, rfl⟩ : record.meta = row ∧ _ = s' := by simpa using h
    refine ⟨OrderedMap.has_eq_false.mp (Bool.eq_false_iff.mpr hn), rfl, link_eq_update ?_ ?_⟩
    · simp [link, Link.insert]
    · intro j hj
      simp [link, OrderedMap.get?_set, hj]

theorem create_eq_error {s : MemoryStore} {record : CreateLinkRecord} :
    (∃ e, s.create record = .error e) ↔ ∃ row, (s.link record.id).row = some row := by
  rw [row_link, ← OrderedMap.has_eq_true]
  unfold create
  split
  · simp_all
  · simp_all

/-! ## Single-link methods -/

theorem incrementOpens_of_none {s : MemoryStore} {id : LinkId} {clock : Clock}
    (h : (s.link id).openedRow clock.now = none) : s.incrementOpens id clock = (none, s) := by
  have hd := Link.openedRow_eq_none.mp h
  rw [row_link] at hd
  unfold incrementOpens
  cases hr : s.rows.get? id with
  | none => rfl
  | some row =>
    by_cases ha : row.status = .active
    · simp [ha, hd row hr ha]
    · simp [ha]

theorem incrementOpens_of_live {s : MemoryStore} {id : LinkId} {clock : Clock} {row : LinkMetadata}
    (hr : s.rows.get? id = some row) (ha : row.status = .active) (hn : clock.now < row.expiresAt) :
    s.incrementOpens id clock = (some row.opened,
      if row.opened.status = .expired then
        { s with
          rows := s.rows.set id row.opened
          terminalAt := s.terminalAt.set id (clock.stamp id)
          ciphertexts := s.ciphertexts.delete id }
      else { s with rows := s.rows.set id row.opened }) := by
  unfold incrementOpens
  rw [hr]
  simp only [ha, Int.not_le.mpr hn, ne_eq, not_true_eq_false, if_false, LinkMetadata.opened]
  split
  · rfl
  · rfl

theorem incrementOpens_fst (s : MemoryStore) (id : LinkId) (clock : Clock) :
    (s.incrementOpens id clock).1 = (s.link id).openedRow clock.now := by
  cases ho : (s.link id).openedRow clock.now with
  | none => rw [incrementOpens_of_none ho]
  | some opened =>
    obtain ⟨row, hr, ha, hn, rfl⟩ := Link.openedRow_eq_some.mp ho
    rw [incrementOpens_of_live hr ha hn]

theorem link_incrementOpens (s : MemoryStore) (id : LinkId) (clock : Clock) :
    (s.incrementOpens id clock).2.link =
      Function.update s.link id ((s.link id).increment clock.now (clock.stamp id)) := by
  unfold Link.increment
  cases ho : (s.link id).openedRow clock.now with
  | none =>
    rw [incrementOpens_of_none ho, Function.update_eq_self]
  | some opened =>
    obtain ⟨row, hr, ha, hn, rfl⟩ := Link.openedRow_eq_some.mp ho
    rw [incrementOpens_of_live hr ha hn]
    dsimp only
    split
    · refine link_eq_update (by simp [link]) fun j hj ↦ ?_
      simp [link, OrderedMap.get?_set, OrderedMap.get?_delete, hj]
    · refine link_eq_update (by simp [link]) fun j hj ↦ ?_
      simp [link, OrderedMap.get?_set, hj]

theorem link_revoke (s : MemoryStore) (id : LinkId) (providedTokenHash : Option String)
    (clock : Clock) :
    (s.revoke id providedTokenHash clock).link =
      Function.update s.link id ((s.link id).revoke providedTokenHash (clock.stamp id)) := by
  have hh : (s.link id).hash = s.revocationTokenHashes.get? id := rfl
  unfold revoke Link.revoke Link.revocable
  rw [row_link, hh]
  cases hr : s.rows.get? id with
  | none => simp
  | some row =>
    by_cases ha : row.status = .active
    · cases hp : revokeAllowed ((s.revocationTokenHashes.get? id).getD none) providedTokenHash with
      | false => simp [ha, hp]
      | true =>
        have hl : (s.link id).row = some row := hr
        simp only [ha, hp, ne_eq, not_true_eq_false, if_false, if_true, Option.any_some,
          decide_true, Bool.and_self]
        rw [Link.flip_of_active hl ha]
        refine link_eq_update ?_ ?_
        · simp [link, Link.terminate, Link.withoutBlob]
        · intro j hj
          simp [link, OrderedMap.get?_set, OrderedMap.get?_delete, hj]
    · simp [ha]

theorem link_adminFlip (s : MemoryStore) (id : LinkId) (clock : Clock) :
    (s.adminFlip id clock).2.2.link =
      Function.update s.link id ((s.link id).flip .revoked (clock.stamp id)) := by
  unfold adminFlip Link.flip
  rw [row_link]
  cases hr : s.rows.get? id with
  | none => simp
  | some row =>
    by_cases ha : row.status = .active
    · simp only [ha, if_true]
      refine link_eq_update ?_ ?_
      · simp [link, Link.terminate]
      · intro j hj
        simp [link, OrderedMap.get?_set, hj]
    · simp [ha]

theorem adminFlip_found (s : MemoryStore) (id : LinkId) (clock : Clock) :
    (s.adminFlip id clock).1 = (s.link id).row.isSome ∧
      (s.adminFlip id clock).2.1 = (s.link id).row.any (·.status = .active) := by
  unfold adminFlip
  rw [row_link]
  cases s.rows.get? id with
  | none => simp
  | some row =>
    by_cases ha : row.status = .active
    · simp [ha]
    · simp [ha]

theorem adminPurge_fst (s : MemoryStore) (id : LinkId) (clock : Clock) :
    (s.adminPurge id clock).1 = ⟨(s.link id).row.isSome,
      (s.link id).row.any (·.status = .active), (s.link id).blob.isSome⟩ := by
  have hf := link_adminFlip s id clock
  obtain ⟨hfound, hactive⟩ := adminFlip_found s id clock
  unfold adminPurge
  generalize hs : s.adminFlip id clock = r at hf hfound hactive
  obtain ⟨found, wasActive, t⟩ := r
  have hblob : t.getCiphertext id = (s.link id).blob := by
    have hb := congrArg Link.blob (congrFun hf id)
    rw [Function.update_self, Link.blob_flip] at hb
    exact hb
  subst hfound hactive
  dsimp only
  rw [hblob]
  cases (s.link id).blob <;> rfl

theorem link_adminPurge (s : MemoryStore) (id : LinkId) (clock : Clock) :
    (s.adminPurge id clock).2.link =
      Function.update s.link id ((s.link id).adminPurge (clock.stamp id)) := by
  have hf := link_adminFlip s id clock
  unfold adminPurge Link.adminPurge
  generalize hs : s.adminFlip id clock = r at hf
  obtain ⟨found, wasActive, t⟩ := r
  change t.link = _ at hf
  dsimp only
  have hid : t.link id = (s.link id).flip .revoked (clock.stamp id) := by
    rw [hf, Function.update_self]
  cases hb : t.getCiphertext id with
  | none =>
    have hnone : (t.link id).blob = none := hb
    have hw : ((s.link id).flip .revoked (clock.stamp id)).withoutBlob = t.link id := by
      rw [← hid]
      simp only [Link.withoutBlob, ← hnone]
    rw [hw]
    dsimp only
    rw [hf, Function.update_self]
  | some blob =>
    dsimp only
    rw [link_deleteCiphertext, hid, hf, Function.update_idem]

/-! ## Loops -/

theorem link_expireRow (clock : Clock) (s : MemoryStore) (id : LinkId) :
    (expireRow clock s id).link =
      Function.update s.link id ((s.link id).expire clock.now (clock.stamp id)) := by
  unfold expireRow Link.expire Link.pastDue Link.flip
  rw [row_link]
  cases hr : s.rows.get? id with
  | none => simp
  | some row =>
    by_cases ha : row.status = .active ∧ row.expiresAt ≤ clock.now
    · simp only [ha, and_self, if_true, Option.any_some, decide_true]
      refine link_eq_update ?_ ?_
      · simp [link, Link.terminate]
      · intro j hj
        simp [link, OrderedMap.get?_set, hj]
    · simp only [ha, if_false, Option.any_some, decide_false, Bool.false_eq_true]
      rw [Function.update_eq_self]

theorem expire_of_row_eq_none {l : Link} (h : l.row = none) (now stamp : Instant) :
    l.expire now stamp = l := by
  simp [Link.expire, Link.pastDue, h]

theorem link_expireRows (s : MemoryStore) (clock : Clock) (id : LinkId) :
    (s.expireRows clock).link id = (s.link id).expire clock.now (clock.stamp id) := by
  have hloop := foldl_view link (expireRow clock) (fun k l ↦ l.expire clock.now (clock.stamp k))
    (fun s k ↦ by rw [link_expireRow, Function.update_self])
    (fun s k j hj ↦ by rw [link_expireRow, Function.update_of_ne hj]) s.rows.nodup_keys s id
  rw [expireRows, hloop]
  split
  · rfl
  · rename_i hk
    exact (expire_of_row_eq_none (OrderedMap.notMem_keys.mp hk) _ _).symm

theorem purgeRow_fst (acc : MemoryStore × Nat) (id : LinkId) :
    (purgeRow acc id).1.link = Function.update acc.1.link id (acc.1.link id).purge := by
  unfold purgeRow Link.purge Link.isTerminal
  rw [row_link]
  cases hr : acc.1.rows.get? id with
  | none => simp
  | some row =>
    cases ht : row.isTerminal with
    | false => simp [ht]
    | true =>
      simp only [ht, if_true, Option.any_some]
      cases hb : acc.1.getCiphertext id with
      | none =>
        have hw : (acc.1.link id).withoutBlob = acc.1.link id := by
          have hn : (acc.1.link id).blob = none := hb
          simp only [Link.withoutBlob, ← hn]
        rw [hw, Function.update_eq_self]
      | some blob => exact link_deleteCiphertext acc.1 id

/-- Whether the purge loop removes a blob from this link. -/
def purges (l : Link) : Bool := l.isTerminal && l.blob.isSome

theorem purgeRow_snd (acc : MemoryStore × Nat) (id : LinkId) :
    (purgeRow acc id).2 = acc.2 + if purges (acc.1.link id) = true then 1 else 0 := by
  unfold purgeRow purges Link.isTerminal
  rw [row_link]
  cases hr : acc.1.rows.get? id with
  | none => simp
  | some row =>
    cases ht : row.isTerminal with
    | false => simp [ht]
    | true =>
      cases hb : acc.1.ciphertexts.get? id with
      | none => simp [ht, getCiphertext, link, hb]
      | some blob => simp [ht, getCiphertext, link, hb]

theorem link_purgeRows (s : MemoryStore) (id : LinkId) :
    s.purgeRows.1.link id = (s.link id).purge := by
  have hloop := foldl_view (fun acc : MemoryStore × Nat ↦ acc.1.link) purgeRow
    (fun _ l ↦ l.purge) (fun acc k ↦ by rw [purgeRow_fst, Function.update_self])
    (fun acc k j hj ↦ by rw [purgeRow_fst, Function.update_of_ne hj]) s.rows.nodup_keys (s, 0) id
  refine hloop.trans ?_
  split
  · rfl
  · rename_i hk
    have hr : s.rows.get? id = none := OrderedMap.notMem_keys.mp hk
    simp [Link.purge, Link.isTerminal, row_link, hr]

theorem purgeRows_snd (s : MemoryStore) :
    s.purgeRows.2 = s.rows.keys.countP fun id ↦ purges (s.link id) := by
  have hcount := foldl_count (fun acc : MemoryStore × Nat ↦ acc.1.link) purgeRow Prod.snd
    (fun _ l ↦ purges l) (fun acc k j hj ↦ by rw [purgeRow_fst, Function.update_of_ne hj])
    (fun acc k ↦ purgeRow_snd acc k) s.rows.nodup_keys (s, 0)
  exact hcount.trans (Nat.zero_add _)

theorem prunes_eq (s : MemoryStore) (before : Option Instant) (id : LinkId) (row : LinkMetadata)
    (h : s.rows.get? id = some row) : s.prunes before id row = (s.link id).prunable before := by
  have ht : (s.link id).terminalAt = s.terminalAt.get? id := rfl
  unfold prunes Link.prunable Link.isTerminal
  rw [row_link, h, ht]
  cases s.terminalAt.get? id <;> rfl

theorem prunable_of_row_eq_none {l : Link} (h : l.row = none) (before : Option Instant) :
    l.prunable before = false := by
  simp [Link.prunable, Link.isTerminal, h]

theorem pruneRow_fst (before : Option Instant) (acc : MemoryStore × Nat) (id : LinkId) :
    (pruneRow before acc id).1.link =
      Function.update acc.1.link id ((acc.1.link id).prune before) := by
  unfold pruneRow Link.prune
  cases hr : acc.1.rows.get? id with
  | none =>
    rw [prunable_of_row_eq_none hr]
    simp
  | some row =>
    dsimp only
    rw [prunes_eq acc.1 before id row hr]
    cases (acc.1.link id).prunable before with
    | false => simp
    | true => exact link_deleteRow acc.1 id

theorem pruneRow_snd (before : Option Instant) (acc : MemoryStore × Nat) (id : LinkId) :
    (pruneRow before acc id).2 =
      acc.2 + if (acc.1.link id).prunable before = true then 1 else 0 := by
  unfold pruneRow
  cases hr : acc.1.rows.get? id with
  | none => simp [prunable_of_row_eq_none (l := acc.1.link id) hr]
  | some row =>
    dsimp only
    rw [prunes_eq acc.1 before id row hr]
    split <;> rfl

theorem link_pruneTerminal (s : MemoryStore) (before : Option Instant) (id : LinkId) :
    (s.pruneTerminal before).2.link id = (s.link id).prune before := by
  have hloop := foldl_view (fun acc : MemoryStore × Nat ↦ acc.1.link) (pruneRow before)
    (fun _ l ↦ l.prune before)
    (fun acc k ↦ by rw [pruneRow_fst, Function.update_self])
    (fun acc k j hj ↦ by rw [pruneRow_fst, Function.update_of_ne hj]) s.rows.nodup_keys (s, 0) id
  refine hloop.trans ?_
  split
  · rfl
  · rename_i hk
    have hp := prunable_of_row_eq_none (l := s.link id) (OrderedMap.notMem_keys.mp hk) before
    simp [Link.prune, hp]

theorem pruneTerminal_fst (s : MemoryStore) (before : Option Instant) :
    (s.pruneTerminal before).1 = s.rows.keys.countP fun id ↦ (s.link id).prunable before := by
  have hcount := foldl_count (fun acc : MemoryStore × Nat ↦ acc.1.link) (pruneRow before) Prod.snd
    (fun _ l ↦ l.prunable before)
    (fun acc k j hj ↦ by rw [pruneRow_fst, Function.update_of_ne hj])
    (fun acc k ↦ pruneRow_snd before acc k) s.rows.nodup_keys (s, 0)
  exact hcount.trans (Nat.zero_add _)

theorem link_expirePastDue (s : MemoryStore) (retention : Nat) (clock : Clock) (id : LinkId) :
    (s.expirePastDue retention clock).2.link id =
      (s.link id).sweep clock.now (clock.stamp id) (newDate (clock.later - retention)) := by
  unfold expirePastDue Link.sweep
  rw [link_pruneTerminal, link_purgeRows, link_expireRows]

end Aesmsg.Store.MemoryStore
