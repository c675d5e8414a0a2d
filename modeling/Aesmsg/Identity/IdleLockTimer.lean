import Aesmsg.Lib.Machine

/-!
# The idle lock timer

`apps/mobile/src/identity/idle-lock-timer.ts`, between a clock that does not go back and the host's
timeouts.  A timeout that is scheduled may fire at any time, also before it is due or long after, or
never; a timeout that was cleared does not.  `onExpire` is an event: what it calls comes after it.

## Main results

- `idle_lock`: after every sequence of calls, fires and advances of the clock.
-/

namespace Aesmsg.Identity.IdleLock

/-- The variables of the timer, the clock and the host's timeouts, each with the time it is due. -/
structure State where
  handle : Option Nat
  deadline : Int
  now : Int
  timeouts : List (Nat × Int)
  /-- The handle of the next timeout. -/
  next : Nat

inductive Event where
  | reset (now : Int)
  | stopped
  /-- A call of `onExpire`. -/
  | expired (now : Int)

inductive Action where
  | reset
  | stop
  | fire (handle : Nat)
  | advance (ms : Nat)

/-- `handle = deps.setTimeout(tick, ms)` -/
def setTimeout (s : State) (ms : Int) : State :=
  { s with handle := some s.next, timeouts := (s.next, s.now + ms) :: s.timeouts, next := s.next + 1 }

/-- The host forgets a timeout, which has fired or is cleared. -/
def forget (s : State) (handle : Nat) : State :=
  { s with timeouts := s.timeouts.filter (·.1 ≠ handle) }

def tick (s : State) : State × List Event :=
  let remaining := s.deadline - s.now
  if remaining ≤ 0 then ({ s with handle := none }, [.expired s.now])
  else (setTimeout { s with handle := none } remaining, [])

def reset (timeoutMs : Nat) (s : State) : State :=
  let s := { s with deadline := s.now + timeoutMs }
  match s.handle with
  | none => setTimeout s timeoutMs
  | some _ => s

def stop (s : State) : State :=
  match s.handle with
  | none => s
  | some handle => { forget s handle with handle := none }

def step (timeoutMs : Nat) (s : State) : Action → Option (State × List Event)
  | .reset => some (reset timeoutMs s, [.reset s.now])
  | .stop => some (stop s, [.stopped])
  | .fire handle =>
    if handle ∈ s.timeouts.map Prod.fst then some (tick (forget s handle)) else none
  | .advance ms => some ({ s with now := s.now + ms }, [])

def machine (timeoutMs : Nat) (start : Int) : Machine State Action Event :=
  ⟨⟨none, 0, start, [], 0⟩, step timeoutMs⟩

/-- The time of the last reset, where the timer has neither been stopped nor expired since. -/
def armedSince : List Event → Option Int
  | .reset now :: _ => some now
  | .stopped :: _ | .expired _ :: _ | [] => none

/-- The timer waits for its one timeout, which is due by the deadline, or has none. -/
inductive Inv (timeoutMs : Nat) (t : List Event) : State → Prop
  | idle {deadline now : Int} {next : Nat} (armed : armedSince t = none) :
    Inv timeoutMs t ⟨none, deadline, now, [], next⟩
  | armed {handle next : Nat} {now since due : Int} (armed : armedSince t = some since)
    (since_le : since ≤ now) (due_le : due ≤ since + timeoutMs) :
    Inv timeoutMs t ⟨some handle, since + timeoutMs, now, [(handle, due)], next⟩

section Inv

variable {timeoutMs : Nat} {start : Int} {s s' : State} {t es : List Event}

theorem Inv.reset (h : Inv timeoutMs t s) :
    Inv timeoutMs (.reset s.now :: t) (IdleLock.reset timeoutMs s) := by
  cases h with
  | idle armed => exact .armed rfl (Int.le_refl _) (Int.le_refl _)
  | @armed handle next now since due armed since_le due_le =>
    have hdue : due ≤ now + timeoutMs := by omega
    exact .armed rfl (Int.le_refl _) hdue

theorem forget_singleton (handle next : Nat) (handle' : Option Nat) (deadline now due : Int) :
    forget ⟨handle', deadline, now, [(handle, due)], next⟩ handle =
      ⟨handle', deadline, now, [], next⟩ := by
  unfold forget
  simp

theorem Inv.stop (h : Inv timeoutMs t s) : Inv timeoutMs (.stopped :: t) (IdleLock.stop s) := by
  cases h with
  | idle armed => exact .idle rfl
  | armed armed since_le due_le =>
    unfold IdleLock.stop
    dsimp only
    rw [forget_singleton]
    exact .idle rfl

/-- The one timeout fires: the timer expires if the clock has come to the deadline, and waits for the
deadline otherwise. -/
theorem tick_forget (handle next : Nat) (deadline now due : Int) :
    tick (forget ⟨some handle, deadline, now, [(handle, due)], next⟩ handle) =
      if deadline - now ≤ 0 then (⟨none, deadline, now, [], next⟩, [.expired now])
      else (⟨some next, deadline, now, [(next, deadline)], next + 1⟩, []) := by
  rw [forget_singleton]
  unfold tick setTimeout
  dsimp only
  rw [show now + (deadline - now) = deadline by omega]

theorem fire_eq_some {handle : Nat} (h : step timeoutMs s (.fire handle) = some (s', es)) :
    handle ∈ s.timeouts.map Prod.fst ∧ tick (forget s handle) = (s', es) := by
  change (if handle ∈ s.timeouts.map Prod.fst then some (tick (forget s handle)) else none) = _ at h
  split at h
  · rename_i hmem
    exact ⟨hmem, Option.some.inj h⟩
  · cases h

theorem fire_eq_none {handle : Nat} (h : handle ∉ s.timeouts.map Prod.fst) :
    step timeoutMs s (.fire handle) = none := if_neg h

theorem Inv.fire (h : Inv timeoutMs t s) {handle : Nat} (hmem : handle ∈ s.timeouts.map Prod.fst) :
    Inv timeoutMs ((tick (forget s handle)).2 ++ t) (tick (forget s handle)).1 := by
  cases h with
  | idle armed => cases hmem
  | armed armed since_le due_le =>
    obtain rfl := List.mem_singleton.mp hmem
    rw [tick_forget]
    split
    · exact .idle rfl
    · exact .armed armed since_le (Int.le_refl _)

theorem Inv.advance (h : Inv timeoutMs t s) (ms : Nat) :
    Inv timeoutMs t { s with now := s.now + ms } := by
  cases h with
  | idle armed => exact .idle armed
  | @armed handle next now since due armed since_le due_le =>
    have hsince : since ≤ now + ms := by omega
    exact .armed armed hsince due_le

theorem Inv.step (h : Inv timeoutMs t s) {a : Action} (hstep : step timeoutMs s a = some (s', es)) :
    Inv timeoutMs (es ++ t) s' := by
  cases a with
  | reset =>
    cases hstep
    exact h.reset
  | stop =>
    cases hstep
    exact h.stop
  | fire handle =>
    obtain ⟨hmem, heq⟩ := fire_eq_some hstep
    have hfire := h.fire hmem
    rw [heq] at hfire
    exact hfire
  | advance ms =>
    cases hstep
    exact h.advance ms

theorem inv_run (h : (machine timeoutMs start).Run s t) : Inv timeoutMs t s :=
  h.invariant (P := fun s t ↦ Inv timeoutMs t s) (.idle rfl) fun hinv hstep ↦ hinv.step hstep

/-- Only a timeout that fires makes the timer expire, and only when the clock has come to the
deadline. -/
theorem Inv.expired (h : Inv timeoutMs t s) {a : Action} {now : Int} {es₁ es₂ : List Event}
    (hstep : IdleLock.step timeoutMs s a = some (s', es₂ ++ .expired now :: es₁)) :
    es₁ = [] ∧ ∃ since, armedSince t = some since ∧ since + timeoutMs ≤ now := by
  cases a with
  | reset | stop =>
    rcases List.append_eq_singleton_iff.mp (Prod.mk.inj (Option.some.inj hstep)).2.symm with
      ⟨-, heq⟩ | ⟨-, heq⟩
    · cases heq
    · cases heq
  | advance ms => cases (List.append_eq_nil_iff.mp (Prod.mk.inj (Option.some.inj hstep)).2.symm).2
  | fire handle =>
    obtain ⟨hmem, heq⟩ := fire_eq_some hstep
    cases h with
    | idle armed => cases hmem
    | @armed handle' next now' since due armed since_le due_le =>
      obtain rfl := List.mem_singleton.mp hmem
      rw [tick_forget] at heq
      split at heq
      · rename_i hle
        rcases List.append_eq_singleton_iff.mp (Prod.mk.inj heq).2.symm with ⟨-, hes⟩ | ⟨-, hes⟩
        · obtain ⟨hnow, rfl⟩ := List.cons.inj hes
          obtain rfl := Event.expired.inj hnow
          exact ⟨rfl, since, armed, by omega⟩
        · cases hes
      · cases (List.append_eq_nil_iff.mp (Prod.mk.inj heq).2.symm).2

end Inv

/-- The timer after a run. -/
structure Locks (timeoutMs : Nat) (s : State) (t : List Event) : Prop where
  /-- At most one timeout is scheduled. -/
  single : s.timeouts.length ≤ 1
  /-- The timer expires only when the idle window has passed since the last reset. -/
  expires : ∀ t₂ t₁ now, t = t₂ ++ .expired now :: t₁ →
    ∃ since, armedSince t₁ = some since ∧ since + timeoutMs ≤ now
  /-- While the timer is armed, a timeout is due by the deadline. -/
  pending : ∀ since, armedSince t = some since → s.deadline = since + timeoutMs ∧
    ∃ timeout ∈ s.timeouts, timeout.2 ≤ s.deadline
  /-- When the window has passed, that timeout is due, and the timer expires when it fires. -/
  missed : ∀ since, armedSince t = some since → since + timeoutMs ≤ s.now →
    ∃ timeout ∈ s.timeouts, timeout.2 ≤ s.now ∧
      ∃ s', step timeoutMs s (.fire timeout.1) = some (s', [.expired s.now])
  /-- When it has been stopped or has expired, nothing fires. -/
  silent : armedSince t = none → ∀ handle, step timeoutMs s (.fire handle) = none
  /-- A reset arms it. -/
  rearms : ∀ s' es, step timeoutMs s .reset = some (s', es) →
    armedSince (es ++ t) = some s.now ∧ s'.deadline = s.now + timeoutMs ∧
      ∃ timeout ∈ s'.timeouts, timeout.2 ≤ s'.deadline

theorem Inv.pending {timeoutMs : Nat} {t : List Event} {s : State} (h : Inv timeoutMs t s)
    {since : Int} (hsince : armedSince t = some since) : s.deadline = since + timeoutMs ∧
      ∃ timeout ∈ s.timeouts, timeout.2 ≤ s.deadline := by
  cases h with
  | idle armed => cases armed.symm.trans hsince
  | armed armed since_le due_le =>
    obtain rfl := Option.some.inj (armed.symm.trans hsince)
    exact ⟨rfl, _, List.mem_singleton_self _, due_le⟩

theorem Inv.missed {timeoutMs : Nat} {t : List Event} {s : State} (h : Inv timeoutMs t s)
    {since : Int} (hsince : armedSince t = some since) (hpassed : since + timeoutMs ≤ s.now) :
    ∃ timeout ∈ s.timeouts, timeout.2 ≤ s.now ∧
      ∃ s', IdleLock.step timeoutMs s (.fire timeout.1) = some (s', [.expired s.now]) := by
  cases h with
  | idle armed => cases armed.symm.trans hsince
  | @armed handle next now since' due armed since_le due_le =>
    obtain rfl := Option.some.inj (armed.symm.trans hsince)
    have hnow : since' + timeoutMs ≤ now := hpassed
    refine ⟨_, List.mem_singleton_self _, Int.le_trans due_le hnow,
      ⟨none, since' + timeoutMs, now, [], next⟩, ?_⟩
    show (if handle ∈ [handle] then some (tick (forget _ handle)) else none) = _
    rw [if_pos List.mem_cons_self, tick_forget, if_pos (by omega)]

/-- In every run of the timer, it expires only when the idle window has passed since the last reset;
while it is armed a timeout is due by the deadline, and one that has been missed expires when it fires;
and once it has been stopped or has expired, nothing fires. -/
theorem idle_lock {timeoutMs : Nat} {start : Int} {s : State} {t : List Event}
    (h : (machine timeoutMs start).Run s t) : Locks timeoutMs s t := by
  have hinv := inv_run h
  constructor
  · cases hinv with
    | idle armed => exact Nat.zero_le _
    | armed armed since_le due_le => exact Nat.le_refl _
  · intro t₂ t₁ now ht
    obtain ⟨s₀, t₀, a, s', es₁, es₂, hrun, hstep, rfl⟩ := h.origin ht
    obtain ⟨rfl, hexpired⟩ := (inv_run hrun).expired hstep
    exact hexpired
  · intro since hsince
    exact hinv.pending hsince
  · intro since hsince hpassed
    exact hinv.missed hsince hpassed
  · intro hnone handle
    cases hinv with
    | idle armed =>
      apply fire_eq_none
      exact List.not_mem_nil
    | armed armed since_le due_le => cases armed.symm.trans hnone
  · intro s' es hstep
    cases hstep
    exact ⟨rfl, hinv.reset.pending rfl⟩

/-- A reset moves the deadline while a timeout waits, which then waits for the rest and expires. -/
theorem idle_lock_throttled : ∃ s t,
    (machine 1000 0).exec [.reset, .advance 600, .reset, .advance 400, .fire 0, .advance 600, .fire 1]
      (machine 1000 0).init [] = some (s, t) ∧ Locks 1000 s t ∧
    t = [.expired 1600, .reset 600, .reset 0] := by
  obtain ⟨s, t, hexec, ht⟩ : ∃ s t, (machine 1000 0).exec
      [.reset, .advance 600, .reset, .advance 400, .fire 0, .advance 600, .fire 1]
      (machine 1000 0).init [] = some (s, t) ∧ t = [.expired 1600, .reset 600, .reset 0] :=
    ⟨_, _, rfl, rfl⟩
  exact ⟨s, t, hexec, idle_lock (Machine.run_of_exec hexec), ht⟩

end Aesmsg.Identity.IdleLock
