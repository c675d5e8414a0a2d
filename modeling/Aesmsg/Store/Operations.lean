import Aesmsg.Store.MemoryLink

/-!
# Sequences of store operations

The methods of `LinkMetadataStore` and `CiphertextStore` as data, with what they resolve with, and
the in-memory stores as their interpreter.  An error is a rejected promise.
-/

namespace Aesmsg.Store

inductive Operation where
  | create (record : CreateLinkRecord)
  /-- The ciphertext write fails with `putError`, if given. -/
  | createWithCiphertext (record : CreateLinkRecord) (ciphertext : List UInt8)
      (putError : Option String)
  | get (id : LinkId)
  | incrementOpens (id : LinkId)
  | revoke (id : LinkId) (providedTokenHash : Option String)
  | expirePastDue
  | pruneTerminal (before : Option Instant)
  | aggregateStats
  | adminPurge (id : LinkId)
  | putCiphertext (id : LinkId) (blob : List UInt8)
  | getCiphertext (id : LinkId)
  | deleteCiphertext (id : LinkId)
  | totalBytes
deriving DecidableEq, Repr

namespace Operation

/-- The methods of `LinkMetadataStore`. -/
def ofLinkStore : Operation → Bool
  | putCiphertext _ _ | getCiphertext _ | deleteCiphertext _ | totalBytes => false
  | _ => true

/-- The record a create is called with. -/
def record? : Operation → Option CreateLinkRecord
  | create record | createWithCiphertext record _ _ => some record
  | _ => none

end Operation

inductive Reply where
  | row (row : LinkMetadata)
  | row? (row : Option LinkMetadata)
  | void
  | count (n : Nat)
  | stats (stats : StorageStats)
  | purged (result : AdminPurgeResult)
  | blob? (blob : Option (List UInt8))
deriving DecidableEq, Repr

namespace MemoryStore

def exec (retention : Nat) (s : MemoryStore) (clock : Clock) :
    Operation → Except String Reply × MemoryStore
  | .create record =>
    match s.create record with
    | .error e => (.error e, s)
    | .ok (row, s) => (.ok (.row row), s)
  | .createWithCiphertext record ciphertext putError =>
    let (result, s) := s.createWithCiphertext record ciphertext putError
    (result.map .row, s)
  | .get id => (.ok (.row? (s.get id)), s)
  | .incrementOpens id =>
    let (row, s) := s.incrementOpens id clock
    (.ok (.row? row), s)
  | .revoke id providedTokenHash => (.ok .void, s.revoke id providedTokenHash clock)
  | .expirePastDue =>
    let (purged, s) := s.expirePastDue retention clock
    (.ok (.count purged), s)
  | .pruneTerminal before =>
    let (deleted, s) := s.pruneTerminal before
    (.ok (.count deleted), s)
  | .aggregateStats => (.ok (.stats s.aggregateStats), s)
  | .adminPurge id =>
    let (result, s) := s.adminPurge id clock
    (.ok (.purged result), s)
  | .putCiphertext id blob => (.ok .void, s.put id blob)
  | .getCiphertext id => (.ok (.blob? (s.getCiphertext id)), s)
  | .deleteCiphertext id => (.ok .void, s.deleteCiphertext id)
  | .totalBytes => (.ok (.count s.totalBytes), s)

/-- The store after a sequence of operations, each with its clock readings. -/
def run (retention : Nat) (s : MemoryStore) (steps : List (Operation × Clock)) : MemoryStore :=
  steps.foldl (fun s step ↦ (s.exec retention step.2 step.1).2) s

variable {retention : Nat} {s : MemoryStore} {clock : Clock}

theorem run_append (steps later : List (Operation × Clock)) :
    s.run retention (steps ++ later) = (s.run retention steps).run retention later :=
  List.foldl_append ..

theorem run_concat (steps : List (Operation × Clock)) (step : Operation × Clock) :
    s.run retention (steps ++ [step]) =
      ((s.run retention steps).exec retention step.2 step.1).2 := by
  rw [run_append]
  rfl

/-- What `createWithCiphertext` does to the link of its record. -/
theorem link_createWithCiphertext (record : CreateLinkRecord) (ciphertext : List UInt8)
    (putError : Option String) :
    (s.createWithCiphertext record ciphertext putError).2.link =
      Function.update s.link record.id
        (if (s.link record.id).row.isSome then s.link record.id
        else match putError with
          | some _ => ((s.link record.id).insert record).rollback
          | none => ((s.link record.id).insert record).withBlob ciphertext) := by
  unfold createWithCiphertext
  cases hc : s.create record with
  | error e =>
    obtain ⟨row, hr⟩ := create_eq_error.mp ⟨e, hc⟩
    simp [hr]
  | ok result =>
    obtain ⟨row, s'⟩ := result
    obtain ⟨hr, -, hl⟩ := create_eq_ok hc
    have hid : s'.link record.id = (s.link record.id).insert record := by
      rw [hl, Function.update_self]
    rw [hr, if_neg (by decide)]
    cases putError with
    | none =>
      dsimp only
      rw [link_put, hid, hl, Function.update_idem]
    | some e =>
      dsimp only
      rw [link_rollback, hid, hl, Function.update_idem]

/-- What each method of the link store may do to one link, with the clock readings it makes. -/
inductive LinkStep (retention : Nat) (clock : Clock) (id : LinkId) :
    Operation → Link → Link → Prop
  | same (op : Operation) (l : Link) : LinkStep retention clock id op l l
  | create {l : Link} (record : CreateLinkRecord) (h : l.row = none) :
    LinkStep retention clock id (.create record) l (l.insert record)
  | createFailed {l : Link} (record : CreateLinkRecord) (ciphertext : List UInt8) (e : String)
    (h : l.row = none) : LinkStep retention clock id
      (.createWithCiphertext record ciphertext (some e)) l ((l.insert record).rollback)
  | createStored {l : Link} (record : CreateLinkRecord) (ciphertext : List UInt8)
    (h : l.row = none) : LinkStep retention clock id
      (.createWithCiphertext record ciphertext none) l ((l.insert record).withBlob ciphertext)
  | increment (l : Link) : LinkStep retention clock id (.incrementOpens id) l
      (l.increment clock.now (clock.stamp id))
  | revoke (l : Link) (providedTokenHash : Option String) :
    LinkStep retention clock id (.revoke id providedTokenHash) l
      (l.revoke providedTokenHash (clock.stamp id))
  | sweep (l : Link) : LinkStep retention clock id .expirePastDue l
      (l.sweep clock.now (clock.stamp id) (newDate (clock.later - retention)))
  | prune (l : Link) (before : Option Instant) :
    LinkStep retention clock id (.pruneTerminal before) l (l.prune before)
  | adminPurge (l : Link) : LinkStep retention clock id (.adminPurge id) l
      (l.adminPurge (clock.stamp id))

/-- An operation that updates one link steps that link, and leaves the others as they are. -/
theorem LinkStep.of_update {op : Operation} {f : LinkId → Link} {k id : LinkId} {l : Link}
    (h : LinkStep retention clock k op (f k) l) :
    LinkStep retention clock id op (f id) (Function.update f k l id) := by
  by_cases hk : id = k
  · subst hk
    rwa [Function.update_self]
  · rw [Function.update_of_ne hk]
    exact .same op _

theorem exec_linkStep {op : Operation} (h : op.ofLinkStore = true) (id : LinkId) :
    LinkStep retention clock id op (s.link id) ((s.exec retention clock op).2.link id) := by
  cases op with
  | create record =>
    cases hc : s.create record with
    | error e =>
      simp only [exec, hc]
      exact .same _ _
    | ok result =>
      obtain ⟨row, s'⟩ := result
      obtain ⟨hr, -, hl⟩ := create_eq_ok hc
      simp only [exec, hc]
      rw [hl]
      by_cases hid : id = record.id
      · subst hid
        rw [Function.update_self]
        exact .create record hr
      · rw [Function.update_of_ne hid]
        exact .same _ _
  | createWithCiphertext record ciphertext putError =>
    unfold exec
    dsimp only
    rw [link_createWithCiphertext]
    by_cases hid : id = record.id
    · subst hid
      rw [Function.update_self]
      split
      · exact .same _ _
      · rename_i hr
        have hrow : (s.link record.id).row = none := by simpa using hr
        cases putError with
        | none => exact .createStored record ciphertext hrow
        | some e => exact .createFailed record ciphertext e hrow
    · rw [Function.update_of_ne hid]
      exact .same _ _
  | get _ => exact .same _ _
  | incrementOpens k =>
    unfold exec
    dsimp only
    rw [link_incrementOpens]
    exact LinkStep.of_update (.increment _)
  | revoke k providedTokenHash =>
    unfold exec
    dsimp only
    rw [link_revoke]
    exact LinkStep.of_update (.revoke _ _)
  | expirePastDue =>
    unfold exec
    dsimp only
    rw [link_expirePastDue]
    exact .sweep _
  | pruneTerminal before =>
    unfold exec
    dsimp only
    rw [link_pruneTerminal]
    exact .prune _ _
  | aggregateStats => exact .same _ _
  | adminPurge k =>
    unfold exec
    dsimp only
    rw [link_adminPurge]
    exact LinkStep.of_update (.adminPurge _)
  | putCiphertext _ _ => cases h
  | getCiphertext _ => cases h
  | deleteCiphertext _ => cases h
  | totalBytes => cases h

end MemoryStore

end Aesmsg.Store
