import Aesmsg.Api.Create
import Aesmsg.Lib.Threads

/-!
# Revoke, then wipe

`apps/mobile/src/settings/wipe-orchestration.ts`, which `apps/webapp/src/settings/wipe-local.ts` repeats:
`revokeAllThenWipe` between two of its awaits, and the promise of the failures gate.

## Main results

- `Pass.Covers.settle`, `Pass.Covers.retry`: every link that a run was given is still to be revoked, has
  been revoked, or is among the failures.
- `Pass.Covers.accounted`, `Pass.Covers.acknowledged`: what that says of a run that wipes.
-/

namespace Aesmsg.Settings

open Threads

structure WipeLinkRef where
  id : String
  label : Option String
deriving DecidableEq

/-- A link whose revoke rejected, and the `status` of the error. -/
structure RevokeFailure where
  link : WipeLinkRef
  status : Option Nat
deriving DecidableEq

/-- What the wipe reads of the record of a sent link. -/
structure TrackedLink where
  id : String
  label : Option String
  expiresAt : String
deriving DecidableEq

def TrackedLink.ref (record : TrackedLink) : WipeLinkRef := ⟨record.id, record.label⟩

/-- `new Date(r.expiresAt).getTime() > now` -/
def TrackedLink.isLive (otherDate : String → Option Int) (now : Int) (record : TrackedLink) : Bool :=
  (Api.parseDate otherDate record.expiresAt).any (now < ·)

def selectLiveTrackedLinks (otherDate : String → Option Int) (records : List TrackedLink) (now : Int) :
    List WipeLinkRef := (records.filter (·.isLive otherDate now)).map TrackedLink.ref

def isAlreadyGoneRevokeError (status : Option Nat) : Bool := status = some 404 || status = some 410

/-- How a call of `revoke` settles. -/
inductive Settled where
  | resolved
  | rejected (status : Option Nat)

/-- The variables of `revokeAllThenWipe`, with the links that its loop has not come to. -/
structure Pass where
  total : Nat
  todo : List WipeLinkRef
  revokedCount : Nat
  failures : List RevokeFailure

/-- What `revokeAllThenWipe` awaits. -/
inductive Call where
  | revoke (link : WipeLinkRef) (p : Pass)
  | confirmProceedDespiteFailures (p : Pass)
  | wipe (p : Pass)

def Pass.start (links : List WipeLinkRef) : Pass := ⟨links.length, links, 0, []⟩

/-- The top of the loop, or what follows it. -/
def Pass.call (p : Pass) : Call :=
  match p.todo with
  | link :: todo => .revoke link { p with todo := todo }
  | [] =>
    match p.failures with
    | [] => .wipe p
    | _ :: _ => .confirmProceedDespiteFailures p

def Pass.settle (p : Pass) (link : WipeLinkRef) : Settled → Pass
  | .resolved => { p with revokedCount := p.revokedCount + 1 }
  | .rejected status =>
    if isAlreadyGoneRevokeError status then { p with revokedCount := p.revokedCount + 1 }
    else { p with failures := p.failures ++ [⟨link, status⟩] }

/-- The links whose revoke failed. -/
def Pass.failed (p : Pass) : List WipeLinkRef := p.failures.map RevokeFailure.link

inductive Event where
  /-- A list of links has been shown, which was read with these records. -/
  | loaded (records : List TrackedLink) (now : Int)
  /-- The list could not be read. -/
  | unloaded
  | rendered
  | confirmed (links : List WipeLinkRef)
  | attempted (link : WipeLinkRef)
  | revoked (link : WipeLinkRef)
  | failed (link : WipeLinkRef)
  /-- The gate shows these failures. -/
  | asked (failures : List RevokeFailure)
  /-- The user, who is shown these failures, tells a run to proceed. -/
  | acknowledged (run : Nat) (failures : List RevokeFailure)
  | wiped
deriving DecidableEq

/-- What is recorded of a settled call of `revoke`. -/
def Settled.event (link : WipeLinkRef) : Settled → Event
  | resolved => .revoked link
  | rejected status => if isAlreadyGoneRevokeError status then .revoked link else .failed link

/-! ## The failures gate -/

/-- The resolver that the screen has kept is known by the run that awaits its promise. -/
structure Gate where
  resolverRef : Option Nat
  /-- The settled promises. -/
  answers : Nat → Option Bool

def Gate.empty : Gate := ⟨none, fun _ ↦ none⟩

/-- `new Promise(..)`, whose resolver is kept. -/
def Gate.ask (g : Gate) (i : Nat) : Gate := ⟨some i, Function.update g.answers i none⟩

/-- The resolver is taken and called. -/
def Gate.settle (g : Gate) (proceed : Bool) : Gate :=
  match g.resolverRef with
  | none => g
  | some i => ⟨none, Function.update g.answers i (some proceed)⟩

/-- The failures that run `i` has asked about last, by its own events. -/
def lastAsked : List Event → Option (List RevokeFailure)
  | [] => none
  | .asked failures :: _ => some failures
  | _ :: es => lastAsked es

def asked (i : Nat) (t : Trace Event) : Option (List RevokeFailure) := lastAsked (mine i t)

/-- The failures that are shown are those of the run whose resolver is kept. -/
def Gate.Shows (g : Gate) (shown : Option (List RevokeFailure)) (t : Trace Event) : Prop :=
  ∀ failures i, shown = some failures → g.resolverRef = some i → asked i t = some failures

/-- What is recorded when a run makes a call. -/
def Call.event : Call → Event
  | revoke link _ => .attempted link
  | confirmProceedDespiteFailures p => .asked p.failures
  | wipe _ => .wiped

/-- The gate when run `i` has made a call. -/
def Call.gate (i : Nat) (g : Gate) : Call → Gate
  | confirmProceedDespiteFailures _ => g.ask i
  | revoke .. | wipe _ => g

/-! ## A run and its links -/

/-- A revoke of the link has been attempted, and has succeeded unless the user has acknowledged that it
failed. -/
def Accounted (i : Nat) (t : Trace Event) (link : WipeLinkRef) : Prop :=
  (i, Event.attempted link) ∈ t ∧ ((i, Event.revoked link) ∈ t ∨
    ∃ j failures, (j, Event.acknowledged i failures) ∈ t ∧ link ∈ failures.map RevokeFailure.link)

/-- Of the links that run `i` was given, those not in `left` have been attempted; they have been revoked
or are among the failures. -/
def Pass.Covers (p : Pass) (i : Nat) (t : Trace Event) (links left : List WipeLinkRef) : Prop :=
  ∀ link ∈ links, link ∈ left ∨
    ((i, Event.attempted link) ∈ t ∧ ((i, Event.revoked link) ∈ t ∨ link ∈ p.failed))

/-- What holds of a run that awaits a call. -/
def Call.Holds (i : Nat) (g : Gate) (t : Trace Event) (links : List WipeLinkRef) : Call → Prop
  | .revoke link p => p.Covers i t links (link :: p.todo) ∧ (i, Event.attempted link) ∈ t
  | .confirmProceedDespiteFailures p => p.Covers i t links [] ∧ asked i t = some p.failures ∧
      (g.answers i = some true → ∃ j, (j, Event.acknowledged i p.failures) ∈ t)
  | .wipe _ => True

section Run

variable {i j : Nat} {t : Trace Event} {es : List Event} {p : Pass} {links left : List WipeLinkRef}
  {link : WipeLinkRef} {g g' : Gate}

theorem Accounted.append (h : Accounted i t link) (t' : Trace Event) : Accounted i (t' ++ t) link := by
  obtain ⟨hattempted, hrevoked | ⟨j, failures, hack, hmem⟩⟩ := h
  · exact ⟨List.mem_append_right _ hattempted, .inl (List.mem_append_right _ hrevoked)⟩
  · exact ⟨List.mem_append_right _ hattempted, .inr ⟨j, failures, List.mem_append_right _ hack, hmem⟩⟩

theorem Pass.Covers.append (h : p.Covers i t links left) (t' : Trace Event) :
    p.Covers i (t' ++ t) links left := by
  intro link hlink
  rcases h link hlink with hl | ⟨hattempted, hrevoked | hfailed⟩
  · exact .inl hl
  · exact .inr ⟨List.mem_append_right _ hattempted, .inl (List.mem_append_right _ hrevoked)⟩
  · exact .inr ⟨List.mem_append_right _ hattempted, .inr hfailed⟩

theorem Pass.Covers.start (i : Nat) (t : Trace Event) (links : List WipeLinkRef) :
    (Pass.start links).Covers i t links links := fun _ hlink ↦ .inl hlink

theorem settle_gone {status : Option Nat} (h : isAlreadyGoneRevokeError status = true) (p : Pass)
    (link : WipeLinkRef) :
    p.settle link (.rejected status) = { p with revokedCount := p.revokedCount + 1 } := if_pos h

theorem settle_failed {status : Option Nat} (h : ¬isAlreadyGoneRevokeError status = true) (p : Pass)
    (link : WipeLinkRef) :
    p.settle link (.rejected status) = { p with failures := p.failures ++ [⟨link, status⟩] } := if_neg h

theorem event_settle (p : Pass) (link : WipeLinkRef) (settled : Settled) :
    settled.event link = .revoked link ∨ link ∈ (p.settle link settled).failed := by
  cases settled with
  | resolved => exact .inl rfl
  | rejected status =>
    by_cases hgone : isAlreadyGoneRevokeError status = true
    · exact .inl (if_pos hgone)
    · rw [settle_failed hgone]
      exact .inr (by simp [Pass.failed])

theorem event_eq (link : WipeLinkRef) (settled : Settled) :
    settled.event link = .revoked link ∨ settled.event link = .failed link := by
  cases settled with
  | resolved => exact .inl rfl
  | rejected status =>
    by_cases hgone : isAlreadyGoneRevokeError status = true
    · exact .inl (if_pos hgone)
    · exact .inr (if_neg hgone)

theorem failed_settle (settled : Settled) {link' : WipeLinkRef} (h : link' ∈ p.failed) :
    link' ∈ (p.settle link settled).failed := by
  cases settled with
  | resolved => exact h
  | rejected status =>
    by_cases hgone : isAlreadyGoneRevokeError status = true
    · rw [settle_gone hgone]
      exact h
    · rw [settle_failed hgone]
      unfold Pass.failed
      rw [List.map_append]
      exact List.mem_append_left _ h

theorem todo_settle (p : Pass) (link : WipeLinkRef) (settled : Settled) :
    (p.settle link settled).todo = p.todo := by
  cases settled with
  | resolved => rfl
  | rejected status =>
    by_cases hgone : isAlreadyGoneRevokeError status = true
    · rw [settle_gone hgone]
    · rw [settle_failed hgone]

/-- A call of `revoke` settles. -/
theorem Pass.Covers.settle (h : p.Covers i t links (link :: p.todo)) (hattempted : (i, Event.attempted link) ∈ t)
    (settled : Settled) :
    (p.settle link settled).Covers i (tag i [settled.event link] ++ t) links (p.settle link settled).todo := by
  intro link' hlink'
  rw [todo_settle]
  rcases h link' hlink' with hl | ⟨hattempted', hrevoked | hfailed⟩
  · rcases List.mem_cons.mp hl with rfl | hl
    · refine .inr ⟨List.mem_append_right _ hattempted, ?_⟩
      rcases event_settle p link' settled with he | hf
      · exact .inl (List.mem_append_left _ (he ▸ List.mem_cons_self))
      · exact .inr hf
    · exact .inl hl
  · exact .inr ⟨List.mem_append_right _ hattempted', .inl (List.mem_append_right _ hrevoked)⟩
  · exact .inr ⟨List.mem_append_right _ hattempted', .inr (failed_settle settled hfailed)⟩

/-- The links that failed are the links of the next pass. -/
theorem Pass.Covers.retry (h : p.Covers i t links []) :
    (Pass.start p.failed).Covers i t links (Pass.start p.failed).todo := by
  intro link hlink
  rcases h link hlink with hl | ⟨hattempted, hrevoked | hfailed⟩
  · cases hl
  · exact .inr ⟨hattempted, .inl hrevoked⟩
  · exact .inl hfailed

/-- A run that wipes without asking has revoked all its links. -/
theorem Pass.Covers.accounted (h : p.Covers i t links []) (hfailures : p.failures = []) :
    ∀ link ∈ links, Accounted i t link := by
  intro link hlink
  rcases h link hlink with hl | ⟨hattempted, hrevoked | hfailed⟩
  · cases hl
  · exact ⟨hattempted, .inl hrevoked⟩
  · unfold Pass.failed at hfailed
    rw [hfailures] at hfailed
    cases hfailed

theorem Pass.Covers.acknowledged (h : p.Covers i t links []) (hack : (j, Event.acknowledged i p.failures) ∈ t) :
    ∀ link ∈ links, Accounted i t link := by
  intro link hlink
  rcases h link hlink with hl | ⟨hattempted, hrevoked | hfailed⟩
  · cases hl
  · exact ⟨hattempted, .inl hrevoked⟩
  · exact ⟨hattempted, .inr ⟨j, _, hack, hfailed⟩⟩

/-- A run that has dealt with the links before its loop makes its next call. -/
theorem Pass.call_holds (h : p.Covers i t links p.todo) :
    p.call.Holds i (p.call.gate i g) ((i, p.call.event) :: t) links := by
  unfold Pass.call
  split
  · rename_i link todo htodo
    rw [htodo] at h
    exact ⟨h.append [_], List.mem_cons_self⟩
  · rename_i htodo
    rw [htodo] at h
    split
    · exact trivial
    · refine ⟨h.append [_], ?_, fun hanswer ↦ ?_⟩
      · unfold asked
        rw [← List.singleton_append, ← tag_nil i, ← tag_cons, mine_tag_append]
        rfl
      · change Function.update g.answers i none i = some true at hanswer
        rw [Function.update_self] at hanswer
        cases hanswer

theorem Pass.call_wiped (h : p.Covers i t links p.todo) (hwiped : p.call.event = .wiped) :
    ∀ link ∈ links, Accounted i t link := by
  unfold Pass.call at hwiped
  split at hwiped
  · cases hwiped
  · rename_i htodo
    rw [htodo] at h
    split at hwiped
    · rename_i hfailures
      exact h.accounted hfailures
    · cases hwiped

end Run

/-! ## The gate among several runs -/

/-- The answers to other runs are the user's. -/
def Gate.Moves (i : Nat) (es : List Event) (t : Trace Event) (g g' : Gate) : Prop :=
  ∀ j, i ≠ j → g'.answers j = some true → g.answers j = some true ∨
    ∃ failures, asked j t = some failures ∧ .acknowledged j failures ∈ es

section Gate

variable {i j : Nat} {t : Trace Event} {es : List Event} {links : List WipeLinkRef} {call : Call}
  {g g' : Gate} {shown : Option (List RevokeFailure)}

theorem lastAsked_append (h : ∀ failures, .asked failures ∉ es) (es' : List Event) :
    lastAsked (es ++ es') = lastAsked es' := by
  induction es with
  | nil => rfl
  | cons e es ih =>
    have hrest : lastAsked (es ++ es') = lastAsked es' :=
      ih fun failures hmem ↦ h failures (List.mem_cons_of_mem _ hmem)
    cases e with
    | asked failures => exact absurd List.mem_cons_self (h failures)
    | _ => exact hrest

theorem asked_append_of_ne (h : i ≠ j) (es : List Event) (t : Trace Event) :
    asked j (tag i es ++ t) = asked j t := by
  unfold asked
  rw [mine_tag_append_of_ne h]

theorem asked_append (h : ∀ failures, .asked failures ∉ es) (t : Trace Event) :
    asked j (tag i es ++ t) = asked j t := by
  by_cases hij : i = j
  · subst hij
    unfold asked
    rw [mine_tag_append, lastAsked_append h]
  · exact asked_append_of_ne hij es t

theorem Gate.Shows.nothing (g : Gate) (t : Trace Event) : g.Shows none t := by
  rintro failures i ⟨⟩

theorem Gate.Shows.of_resolverRef (h : g.resolverRef = none) (shown : Option (List RevokeFailure))
    (t : Trace Event) : g.Shows shown t := by
  intro failures i _ hi
  cases h.symm.trans hi

theorem Gate.Shows.append (h : g.Shows shown t) (hes : ∀ failures, .asked failures ∉ es) :
    g.Shows shown (tag i es ++ t) := by
  intro failures j hshown hj
  rw [asked_append hes]
  exact h failures j hshown hj

theorem Gate.Shows.ask (g : Gate) (i : Nat) (failures : List RevokeFailure) (t : Trace Event) :
    (g.ask i).Shows (some failures) (tag i [.asked failures] ++ t) := by
  intro failures' j hfailures hj
  cases hfailures
  cases hj
  unfold asked
  rw [mine_tag_append]
  rfl

theorem Gate.resolverRef_settle (g : Gate) (proceed : Bool) : (g.settle proceed).resolverRef = none := by
  unfold Gate.settle
  split
  · assumption
  · rfl

theorem Gate.Moves.of_answers (h : g'.answers = g.answers) : g.Moves i es t g' :=
  fun j _ hanswer ↦ .inl (congrFun h j ▸ hanswer)

theorem Gate.Moves.enter (g : Gate) (call : Call) : g.Moves i es t (call.gate i g) := by
  intro j hij hanswer
  cases call with
  | revoke | wipe => exact .inl hanswer
  | confirmProceedDespiteFailures p =>
    change Function.update g.answers i none j = some true at hanswer
    rw [Function.update_of_ne hij.symm] at hanswer
    exact .inl hanswer

theorem Gate.Moves.decline (g : Gate) : g.Moves i es t (g.settle false) := by
  intro j _ hanswer
  unfold Gate.settle at hanswer
  split at hanswer
  · exact .inl hanswer
  · rename_i run _
    by_cases hj : j = run
    · subst hj
      change Function.update g.answers j (some false) j = some true at hanswer
      rw [Function.update_self] at hanswer
      cases hanswer
    · change Function.update g.answers run (some false) j = some true at hanswer
      rw [Function.update_of_ne hj] at hanswer
      exact .inl hanswer

/-- The user proceeds, and is shown the failures of the run that asks. -/
theorem Gate.Moves.proceed {failures : List RevokeFailure} (h : g.Shows (some failures) t) :
    g.Moves i (match g.resolverRef with
      | some run => [.acknowledged run failures]
      | none => []) t (g.settle true) := by
  intro j _ hanswer
  unfold Gate.settle at hanswer
  split at hanswer
  · exact .inl hanswer
  · rename_i run hrun
    by_cases hj : j = run
    · subst hj
      refine .inr ⟨failures, h failures j rfl hrun, ?_⟩
      rw [hrun]
      exact List.mem_cons_self
    · change Function.update g.answers run (some true) j = some true at hanswer
      rw [Function.update_of_ne hj] at hanswer
      exact .inl hanswer

/-- What is recorded when the user proceeds. -/
theorem eq_acknowledged {failures : List RevokeFailure} {e : Event}
    (he : e ∈ (match g.resolverRef with
      | some run => [Event.acknowledged run failures]
      | none => [])) : ∃ run, e = .acknowledged run failures := by
  split at he
  · exact ⟨_, List.mem_singleton.mp he⟩
  · cases he

/-- What a run knows stays true while others take steps. -/
theorem Call.Holds.frame (h : call.Holds j g t links) (hij : i ≠ j) (hmoves : g.Moves i es t g') :
    call.Holds j g' (tag i es ++ t) links := by
  cases call with
  | revoke link p => exact ⟨h.1.append _, List.mem_append_right _ h.2⟩
  | wipe p => exact trivial
  | confirmProceedDespiteFailures p =>
    obtain ⟨hcovers, hasked, hanswered⟩ := h
    refine ⟨hcovers.append _, (asked_append_of_ne hij es t).trans hasked, fun hanswer ↦ ?_⟩
    rcases hmoves j hij hanswer with hold | ⟨failures, hlast, hack⟩
    · obtain ⟨k, hk⟩ := hanswered hold
      exact ⟨k, List.mem_append_right _ hk⟩
    · cases hlast.symm.trans hasked
      exact ⟨i, List.mem_append_left _ (List.mem_map.mpr ⟨_, hack, rfl⟩)⟩

end Gate

end Aesmsg.Settings
