import Aesmsg.Settings.RevokeThenWipe

/-!
# The screens that wipe

`PrivacySettingsScreen.tsx` with `WipeConfirmModal.tsx` in `apps/mobile/src/settings`, and
`apps/webapp/src/settings/use-local-wipe.ts`: the handlers and the runs of one screen as threads, among
calls of others that change the tracked links, and the clock.

A tap is a thread of one step, taken where the screen shows what is tapped; the word that arms the
confirm button has been typed.  `otherDate` is what `new Date` makes of a string that is not an ISO date.
-/

namespace Aesmsg.Settings

open Threads

structure Input where
  /-- The access to the store, or the purge of the identity, rejects. -/
  fails : Bool
  /-- How the call of `revoke` settles. -/
  settled : Settled

/-- The store without the record of a link. -/
def forget (records : List TrackedLink) (id : String) : List TrackedLink := records.filter (·.id ≠ id)

/-! ## Mobile -/

namespace Mobile

inductive WipePhase where
  | confirm
  | revoking (done total : Nat)
  | failures (failures : List RevokeFailure)
  | wiping

structure Screen where
  /-- The store of the sent links. -/
  records : List TrackedLink
  now : Int
  confirming : Bool
  phase : WipePhase
  /-- The checkbox of the modal. -/
  acknowledged : Bool
  liveLinks : List WipeLinkRef
  /-- The `liveLinks` that the confirm button was rendered with. -/
  rendered : List WipeLinkRef
  /-- `proceedResolverRef` -/
  gate : Gate
  retryRef : Bool

/-- The screen when it is mounted. -/
def Screen.initial (records : List TrackedLink) (now : Int) : Screen :=
  ⟨records, now, false, .confirm, false, [], [], .empty, false⟩

/-- The failures that the modal shows. -/
def WipePhase.failures? : WipePhase → Option (List RevokeFailure)
  | failures fs => some fs
  | confirm | revoking .. | wiping => none

/-- The effect of the modal takes the checkbox back where no failures are shown. -/
def Screen.setPhase (s : Screen) (phase : WipePhase) : Screen :=
  { s with phase := phase, acknowledged := phase.failures?.isSome && s.acknowledged }

def Screen.closeWipe (s : Screen) : Screen :=
  { s with confirming := false, phase := .confirm, acknowledged := false, gate := { s.gate with resolverRef := none }
           retryRef := false }

/-- What the modal shows, none where it is not visible. -/
def Screen.visible? (s : Screen) : Option WipePhase := if s.confirming then some s.phase else none

inductive Task where
  | openWipe
  | render
  | confirm
  | cancel
  | toggleAcknowledged
  | proceedDespiteFailures
  | retry
  | recordSentLink (record : TrackedLink)
  | deleteSentLink (id : String)
  /-- Time passes. -/
  | tick (ms : Nat)

inductive Pc where
  | ready (task : Task)
  | listing
  | listed (records : List TrackedLink)
  /-- A run of `revokeAllThenWipe` awaits a call. -/
  | awaiting (call : Call)
  | ended

/-- The phase that the callbacks have set when a run awaits a call. -/
def callPhase : Call → WipePhase
  | .revoke _ p => .revoking (p.total - p.todo.length - 1) p.total
  | .confirmProceedDespiteFailures p => .failures p.failures
  | .wipe _ => .wiping

/-- Run `i` makes a call; `es` is what has happened in the same step. -/
def enter (i : Nat) (s : Screen) (call : Call) (es : List Event) : Pc × Screen × List Event :=
  (.awaiting call, { s.setPhase (callPhase call) with gate := call.gate i s.gate }, call.event :: es)

/-- `settleFailureGate`, with what `retryRef` is set to. -/
def settleFailureGate (s : Screen) (retry proceed : Bool) : Screen :=
  { s with retryRef := retry, gate := s.gate.settle proceed }

def Task.step (task : Task) (i : Nat) (s : Screen) : Option (Pc × Screen × List Event) :=
  match task with
  | .openWipe => some (.listing, { s.setPhase .confirm with confirming := true }, [])
  | .render => some (.ended, { s with rendered := s.liveLinks }, [.rendered])
  | .confirm =>
    match s.visible? with
    | some .confirm => some (enter i s (Pass.start s.rendered).call [.confirmed s.rendered])
    | _ => none
  | .cancel =>
    match s.visible?, s.gate.resolverRef with
    | some .confirm, none | some (.failures _), none => some (.ended, s.closeWipe, [])
    | some .confirm, some _ | some (.failures _), some _ =>
      some (.ended, settleFailureGate s false false, [])
    -- the modal is not shown, or cannot be dismissed
    | _, _ => none
  | .toggleAcknowledged =>
    match s.visible? with
    | some (.failures _) => some (.ended, { s with acknowledged := !s.acknowledged }, [])
    | _ => none
  | .proceedDespiteFailures =>
    match s.visible?, s.acknowledged with
    | some (.failures failures), true =>
      some (.ended, settleFailureGate s false true,
        match s.gate.resolverRef with
        | some run => [.acknowledged run failures]
        | none => [])
    | _, _ => none
  | .retry =>
    match s.visible? with
    | some (.failures _) => some (.ended, settleFailureGate s true false, [])
    | _ => none
  | .recordSentLink record =>
    some (.ended, { s with records := record :: forget s.records record.id }, [])
  | .deleteSentLink id => some (.ended, { s with records := forget s.records id }, [])
  | .tick ms => some (.ended, { s with now := s.now + ms }, [])

def step (otherDate : String → Option Int) (i : Nat) (x : Input) (pc : Pc) (s : Screen) :
    Option (Pc × Screen × List Event) :=
  match pc with
  | .ready task => task.step i s
  | .listing =>
    -- enumeration failure degrades to none to revoke
    if x.fails then some (.ended, { s with liveLinks := [] }, [.unloaded])
    else some (.listed s.records, s, [])
  | .listed records =>
    some (.ended, { s with liveLinks := selectLiveTrackedLinks otherDate records s.now },
      [.loaded records s.now])
  | .awaiting (.revoke link p) =>
    let records :=
      match x.settled with
      | .resolved => forget s.records link.id
      | .rejected _ => s.records
    some (enter i { s with records := records } (p.settle link x.settled).call [x.settled.event link])
  | .awaiting (.confirmProceedDespiteFailures p) =>
    match s.gate.answers i with
    | none => none
    | some true => some (enter i s (.wipe p) [])
    | some false =>
      if s.retryRef then some (enter i { s with retryRef := false } (Pass.start p.failed).call [])
      else some (.ended, s.closeWipe, [])
  | .awaiting (.wipe _) => some (.ended, if x.fails then s else s.closeWipe, [])
  | .ended => none

def program (otherDate : String → Option Int) : Program Task Input Pc Screen Event :=
  ⟨.ready, step otherDate⟩

end Mobile

/-! ## Web -/

namespace Web

structure Screen where
  records : List TrackedLink
  now : Int
  busy : Bool
  pendingFailures : Option (List RevokeFailure)
  /-- `resolverRef` -/
  gate : Gate

def Screen.initial (records : List TrackedLink) (now : Int) : Screen := ⟨records, now, false, none, .empty⟩

inductive Task where
  | start
  | proceedAnyway
  | cancelFailures
  | recordSentLink (record : TrackedLink)
  | deleteSentLink (id : String)
  /-- Time passes. -/
  | tick (ms : Nat)

inductive Pc where
  | ready (task : Task)
  | listing
  | listed (records : List TrackedLink)
  /-- A run of `revokeAllThenWipe` awaits a call. -/
  | awaiting (call : Call)
  | ended

/-- The failures that the screen shows when a run awaits a call. -/
def callFailures (shown : Option (List RevokeFailure)) : Call → Option (List RevokeFailure)
  | .confirmProceedDespiteFailures p => some p.failures
  | .revoke .. | .wipe _ => shown

/-- Run `i` makes a call; `es` is what has happened in the same step. -/
def enter (i : Nat) (s : Screen) (call : Call) (es : List Event) : Pc × Screen × List Event :=
  (.awaiting call, { s with pendingFailures := callFailures s.pendingFailures call, gate := call.gate i s.gate },
    call.event :: es)

def Task.step (task : Task) (s : Screen) : Option (Pc × Screen × List Event) :=
  match task with
  | .start => some (.listing, { s with busy := true }, [])
  | .proceedAnyway =>
    match s.pendingFailures with
    | none => none
    | some failures =>
      some (.ended, { s with pendingFailures := none, gate := s.gate.settle true },
        match s.gate.resolverRef with
        | some run => [.acknowledged run failures]
        | none => [])
  | .cancelFailures =>
    match s.pendingFailures with
    | none => none
    | some _ => some (.ended, { s with pendingFailures := none, gate := s.gate.settle false }, [])
  | .recordSentLink record =>
    some (.ended, { s with records := record :: forget s.records record.id }, [])
  | .deleteSentLink id => some (.ended, { s with records := forget s.records id }, [])
  | .tick ms => some (.ended, { s with now := s.now + ms }, [])

def step (otherDate : String → Option Int) (i : Nat) (x : Input) (pc : Pc) (s : Screen) :
    Option (Pc × Screen × List Event) :=
  match pc with
  | .ready task => task.step s
  | .listing =>
    if x.fails then some (.ended, { s with busy := false }, []) else some (.listed s.records, s, [])
  | .listed records =>
    let live := selectLiveTrackedLinks otherDate records s.now
    some (enter i s (Pass.start live).call [.confirmed live, .loaded records s.now])
  | .awaiting (.revoke link p) =>
    some (enter i s (p.settle link x.settled).call [x.settled.event link])
  | .awaiting (.confirmProceedDespiteFailures p) =>
    match s.gate.answers i with
    | none => none
    | some true => some (enter i s (.wipe p) [])
    | some false => some (.ended, { s with busy := false }, [])
  | .awaiting (.wipe _) => some (.ended, { s with busy := false }, [])
  | .ended => none

def program (otherDate : String → Option Int) : Program Task Input Pc Screen Event :=
  ⟨.ready, step otherDate⟩

end Web

end Aesmsg.Settings
