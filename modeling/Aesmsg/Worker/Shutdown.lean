import Aesmsg.Lib.Machine

/-!
# The shutdown of a process

`apps/worker/src/shutdown.ts` and `apps/api/src/shutdown.ts`, which are the same function, between the
signals, the teardown steps and the force timer of the host.  A step settles at any later time, or never.

## Main results

- `graceful`: after every order of signals, steps that settle and the timer.
-/

namespace Aesmsg.Shutdown

/-- `ShutdownDeps`, with the names of the steps. -/
structure ShutdownDeps where
  steps : List String
  forceExitAfterMs : Nat

inductive Event where
  /-- A call of `requestShutdown`. -/
  | requested (signal : String) (now : Int)
  | logged (message : String)
  /-- `setTimer`, until when. -/
  | armed (deadline : Int)
  | cleared
  /-- A call of `step.run`. -/
  | began (i : Nat)
  /-- The promise of a step has resolved, or rejected. -/
  | settled (i : Nat) (ok : Bool)
  /-- The callback of the timer. -/
  | fired (now : Int)
  | exited (code : Nat)
deriving DecidableEq

/-- The variables of the controller and of `run`. -/
inductive State where
  | serving
  /-- `run` awaits a step. -/
  | draining (i : Nat) (hadError : Bool) (forceTimer : Int)
  /-- The process has exited. -/
  | gone (code : Nat)
deriving DecidableEq

def State.isShuttingDown : State → Bool
  | serving => false
  | draining .. | gone _ => true

/-- The loop of `run` from a step on, up to its next await or to the exit. -/
def drain (deps : ShutdownDeps) (i : Nat) (hadError : Bool) (forceTimer : Int) : State × List Event :=
  if i < deps.steps.length then (.draining i hadError forceTimer, [.began i])
  else if hadError then
    (.gone 1, [.exited 1, .logged "graceful shutdown finished with errors", .cleared])
  else (.gone 0, [.exited 0, .logged "graceful shutdown complete", .cleared])

def run (deps : ShutdownDeps) (signal : String) (now : Int) : State × List Event :=
  let forceTimer := now + deps.forceExitAfterMs
  let (s, es) := drain deps 0 false forceTimer
  (s, es ++ [.armed forceTimer, .logged ("received " ++ signal ++ ": starting graceful shutdown")])

/-- What follows the await of a step. -/
def settle (deps : ShutdownDeps) (i : Nat) (hadError : Bool) (forceTimer : Int) (name : String)
    (ok : Bool) : State × List Event :=
  let (s, es) := drain deps (i + 1) (hadError || !ok) forceTimer
  (s, es ++ [.logged (if ok then "closed " ++ name else "error closing " ++ name), .settled i ok])

inductive Action where
  | requestShutdown (signal : String) (now : Int)
  /-- The promise that `run` awaits settles. -/
  | settle (ok : Bool)
  /-- The force timer fires, at its time or later. -/
  | fire (now : Int)

def step (deps : ShutdownDeps) : State → Action → Option (State × List Event)
  | .serving, .requestShutdown signal now =>
    let (s, es) := run deps signal now
    some (s, es ++ [.requested signal now])
  | .draining i hadError forceTimer, .requestShutdown signal now =>
    some (.draining i hadError forceTimer,
      [.logged ("already shutting down; ignoring " ++ signal), .requested signal now])
  | .draining i hadError forceTimer, .settle ok =>
    deps.steps[i]?.map fun name ↦ settle deps i hadError forceTimer name ok
  | .draining _ _ forceTimer, .fire now =>
    if forceTimer ≤ now then
      some (.gone 1, [.exited 1, .logged ("graceful shutdown exceeded " ++
        toString deps.forceExitAfterMs ++ "ms; forcing exit"), .fired now])
    else none
  | .serving, .settle _ | .serving, .fire _ | .gone _, _ => none

def machine (deps : ShutdownDeps) : Machine State Action Event := ⟨.serving, step deps⟩

/-! ## What the events show -/

/-- The steps that were called. -/
def begun (t : List Event) : List Nat :=
  t.filterMap fun
    | .began i => some i
    | _ => none

/-- The steps that have settled, and how. -/
def outcomes (t : List Event) : List (Nat × Bool) :=
  t.filterMap fun
    | .settled i ok => some (i, ok)
    | _ => none

/-- The steps below a number, the newest first. -/
def below (n : Nat) : List Nat := (List.range n).reverse

/-- The steps ran one after the other, and nothing came after the exit. -/
def Ordered (deps : ShutdownDeps) : List Event → Prop
  | [] => True
  | .began i :: t => i < deps.steps.length ∧ begun t = below i ∧ (outcomes t).map Prod.fst = below i ∧
    Ordered deps t
  | .settled i _ :: t => i < deps.steps.length ∧ begun t = below (i + 1) ∧
    (outcomes t).map Prod.fst = below i ∧ Ordered deps t
  | .exited code :: t =>
    ((outcomes t).map Prod.fst = below deps.steps.length ∧
        code = (if (outcomes t).all Prod.snd then 0 else 1) ∨
      code = 1 ∧ ∃ deadline now, .armed deadline ∈ t ∧ .fired now ∈ t ∧ deadline ≤ now) ∧ Ordered deps t
  | .requested .. :: t | .logged _ :: t | .armed _ :: t | .cleared :: t | .fired _ :: t => Ordered deps t

theorem below_succ (n : Nat) : below (n + 1) = n :: below n := by
  unfold below
  rw [List.range_succ, List.reverse_append]
  rfl

theorem mem_below {i n : Nat} : i ∈ below n ↔ i < n := by
  unfold below
  rw [List.mem_reverse, List.mem_range]

/-- The time of the force timer, counted from the first signal. -/
def Deadline (deps : ShutdownDeps) (forceTimer : Int) (t : List Event) : Prop :=
  (∃ signal now t', t = t' ++ [.requested signal now] ∧ forceTimer = now + deps.forceExitAfterMs) ∧
    .armed forceTimer ∈ t ∧ ∀ deadline, .armed deadline ∈ t → deadline = forceTimer

/-- So many steps were called, and so many of them have settled. -/
structure Drained (deps : ShutdownDeps) (called i : Nat) (hadError : Bool) (forceTimer : Int)
    (t : List Event) : Prop where
  begun : begun t = below called
  outcomes : (outcomes t).map Prod.fst = below i
  hadError : hadError = !(Shutdown.outcomes t).all Prod.snd
  deadline : Deadline deps forceTimer t
  running : ∀ code, .exited code ∉ t
  ordered : Ordered deps t

def Inv (deps : ShutdownDeps) (s : State) (t : List Event) : Prop :=
  match s with
  | .serving => t = []
  | .draining i hadError forceTimer =>
    i < deps.steps.length ∧ Drained deps (i + 1) i hadError forceTimer t
  | .gone code => ∃ forceTimer t₁, t = .exited code :: t₁ ∧ (∀ code', .exited code' ∉ t₁) ∧
    Deadline deps forceTimer t ∧ Ordered deps t

section Steps

variable {deps : ShutdownDeps} {called i : Nat} {hadError : Bool} {forceTimer : Int} {t : List Event}

/-- Later events leave the first signal and the timer as they are. -/
theorem Deadline.cons (h : Deadline deps forceTimer t) {event : Event}
    (hevent : ∀ deadline, .armed deadline ≠ event) : Deadline deps forceTimer (event :: t) := by
  obtain ⟨⟨signal, now, t', ht, htimer⟩, harmed, hunique⟩ := h
  refine ⟨⟨signal, now, event :: t', ?_, htimer⟩, List.mem_cons_of_mem _ harmed, fun deadline hmem ↦ ?_⟩
  · rw [ht]
    rfl
  · exact hunique deadline (List.mem_of_ne_of_mem (hevent deadline) hmem)

theorem Drained.logged (h : Drained deps called i hadError forceTimer t) (message : String) :
    Drained deps called i hadError forceTimer (.logged message :: t) where
  begun := h.begun
  outcomes := h.outcomes
  hadError := h.hadError
  deadline := h.deadline.cons (by simp)
  running := fun code hmem ↦ h.running code (List.mem_of_ne_of_mem (by simp) hmem)
  ordered := h.ordered

theorem Drained.requested (h : Drained deps called i hadError forceTimer t) (signal : String) (now : Int) :
    Drained deps called i hadError forceTimer (.requested signal now :: t) where
  begun := h.begun
  outcomes := h.outcomes
  hadError := h.hadError
  deadline := h.deadline.cons (by simp)
  running := fun code hmem ↦ h.running code (List.mem_of_ne_of_mem (by simp) hmem)
  ordered := h.ordered

theorem Drained.cleared (h : Drained deps called i hadError forceTimer t) :
    Drained deps called i hadError forceTimer (.cleared :: t) where
  begun := h.begun
  outcomes := h.outcomes
  hadError := h.hadError
  deadline := h.deadline.cons (by simp)
  running := fun code hmem ↦ h.running code (List.mem_of_ne_of_mem (by simp) hmem)
  ordered := h.ordered

/-- The next step is called. -/
theorem Drained.began (h : Drained deps i i hadError forceTimer t) (hlt : i < deps.steps.length) :
    Drained deps (i + 1) i hadError forceTimer (.began i :: t) where
  begun := by
    rw [below_succ, ← h.begun]
    rfl
  outcomes := h.outcomes
  hadError := h.hadError
  deadline := h.deadline.cons (by simp)
  running := fun code hmem ↦ h.running code (List.mem_of_ne_of_mem (by simp) hmem)
  ordered := ⟨hlt, h.begun, h.outcomes, h.ordered⟩

/-- The step that is awaited settles. -/
theorem Drained.settled (h : Drained deps (i + 1) i hadError forceTimer t) (hlt : i < deps.steps.length)
    (ok : Bool) : Drained deps (i + 1) (i + 1) (hadError || !ok) forceTimer (.settled i ok :: t) where
  begun := h.begun
  outcomes := by
    rw [below_succ, ← h.outcomes]
    rfl
  hadError := by
    rw [h.hadError]
    change (_ || !ok) = !(ok && (Shutdown.outcomes t).all Prod.snd)
    rw [Bool.not_and, Bool.or_comm]
  deadline := h.deadline.cons (by simp)
  running := fun code hmem ↦ h.running code (List.mem_of_ne_of_mem (by simp) hmem)
  ordered := ⟨hlt, h.begun, h.outcomes, h.ordered⟩

/-- The process exits once every step has settled. -/
theorem Drained.exited (h : Drained deps called deps.steps.length hadError forceTimer t) :
    Inv deps (.gone (if hadError then 1 else 0)) (.exited (if hadError then 1 else 0) :: t) := by
  refine ⟨forceTimer, t, rfl, h.running, h.deadline.cons (by simp), .inl ⟨h.outcomes, ?_⟩, h.ordered⟩
  rw [h.hadError]
  cases (Shutdown.outcomes t).all Prod.snd with
  | true => rfl
  | false => rfl

/-- What the loop keeps from one step to the next. -/
theorem Drained.drain (h : Drained deps i i hadError forceTimer t) (hle : i ≤ deps.steps.length) :
    Inv deps (drain deps i hadError forceTimer).1 ((drain deps i hadError forceTimer).2 ++ t) := by
  unfold Shutdown.drain
  split
  · rename_i hlt
    exact ⟨hlt, h.began hlt⟩
  · rename_i hlt
    obtain rfl : i = deps.steps.length := by omega
    cases hadError with
    | true => exact (h.cleared.logged _).exited
    | false => exact (h.cleared.logged _).exited

theorem Drained.settle (h : Drained deps (i + 1) i hadError forceTimer t) (hlt : i < deps.steps.length)
    (name : String) (ok : Bool) :
    Inv deps (settle deps i hadError forceTimer name ok).1
      ((settle deps i hadError forceTimer name ok).2 ++ t) := by
  have hdrain :=
    ((h.settled hlt ok).logged (if ok then "closed " ++ name else "error closing " ++ name)).drain
    hlt
  unfold Shutdown.settle
  rw [List.append_assoc]
  exact hdrain

theorem inv_run (signal : String) (now : Int) :
    Inv deps (run deps signal now).1 ((run deps signal now).2 ++ [.requested signal now]) := by
  have hdrained : Drained deps 0 0 false (now + deps.forceExitAfterMs)
      [.armed (now + deps.forceExitAfterMs),
        .logged ("received " ++ signal ++ ": starting graceful shutdown"), .requested signal now] :=
    ⟨rfl, rfl, rfl, ⟨⟨signal, now, [.armed _, .logged _], rfl, rfl⟩, by simp⟩, by simp, trivial⟩
  have hdrain := hdrained.drain (Nat.zero_le _)
  unfold run
  rw [List.append_assoc]
  exact hdrain

/-- The process exits when the timer fires. -/
theorem Drained.fire (h : Drained deps called i hadError forceTimer t) {now : Int} (hle : forceTimer ≤ now)
    (message : String) : Inv deps (.gone 1) (.exited 1 :: .logged message :: .fired now :: t) := by
  refine ⟨forceTimer, _, rfl, ?_, ?_, .inr ⟨rfl, forceTimer, now, ?_, ?_, hle⟩, h.ordered⟩
  · intro code hmem
    exact h.running code (List.mem_of_ne_of_mem (by simp) (List.mem_of_ne_of_mem (by simp) hmem))
  · exact ((h.deadline.cons (by simp)).cons (by simp)).cons (by simp)
  · exact List.mem_cons_of_mem _ (List.mem_cons_of_mem _ h.deadline.2.1)
  · exact List.mem_cons_of_mem _ List.mem_cons_self

theorem Inv.step {s s' : State} {es : List Event} {a : Action} (h : Inv deps s t)
    (hstep : step deps s a = some (s', es)) : Inv deps s' (es ++ t) := by
  cases s with
  | serving =>
    obtain rfl : t = [] := h
    cases a with
    | requestShutdown signal now =>
      cases hstep
      rw [List.append_nil]
      exact inv_run signal now
    | settle | fire => cases hstep
  | draining i hadError forceTimer =>
    obtain ⟨hlt, hdrained⟩ := h
    cases a with
    | requestShutdown signal now =>
      cases hstep
      exact ⟨hlt, (hdrained.requested signal now).logged _⟩
    | settle ok =>
      obtain ⟨name, -, heq⟩ := Option.map_eq_some_iff.mp hstep
      cases heq
      exact hdrained.settle hlt name ok
    | fire now =>
      obtain ⟨hle, heq⟩ := Option.ite_none_right_eq_some.mp hstep
      cases heq
      exact hdrained.fire hle _
  | gone => cases hstep

theorem inv_machine {s : State} (h : (machine deps).Run s t) : Inv deps s t := h.invariant rfl Inv.step

theorem Ordered.of_append {t' : List Event} (h : Ordered deps (t' ++ t)) : Ordered deps t := by
  induction t' with
  | nil => exact h
  | cons event t' ih =>
    cases event with
    | began => exact ih h.2.2.2
    | settled => exact ih h.2.2.2
    | exited => exact ih h.2
    | requested | logged | armed | cleared | fired => exact ih h

theorem mem_begun : i ∈ begun t ↔ .began i ∈ t := by
  unfold begun
  rw [List.mem_filterMap]
  constructor
  · rintro ⟨event, hmem, heq⟩
    cases event with
    | began =>
      cases heq
      exact hmem
    | requested | logged | armed | cleared | settled | fired | exited => cases heq
  · exact fun hmem ↦ ⟨_, hmem, rfl⟩

theorem mem_outcomes {ok : Bool} : (i, ok) ∈ outcomes t ↔ .settled i ok ∈ t := by
  unfold outcomes
  rw [List.mem_filterMap]
  constructor
  · rintro ⟨event, hmem, heq⟩
    cases event with
    | settled =>
      cases heq
      exact hmem
    | requested | logged | armed | cleared | began | fired | exited => cases heq
  · exact fun hmem ↦ ⟨_, hmem, rfl⟩

theorem mem_drain {event : Event} (h : event ∈ (drain deps i hadError forceTimer).2) :
    event = .began i ∨ (∃ code, event = .exited code) ∨ (∃ message, event = .logged message) ∨
      event = .cleared := by
  unfold drain at h
  split at h
  · exact .inl (List.mem_singleton.mp h)
  · split at h
    · simp only [List.mem_cons, List.not_mem_nil, or_false] at h
      rcases h with rfl | rfl | rfl
      · exact .inr (.inl ⟨_, rfl⟩)
      · exact .inr (.inr (.inl ⟨_, rfl⟩))
      · exact .inr (.inr (.inr rfl))
    · simp only [List.mem_cons, List.not_mem_nil, or_false] at h
      rcases h with rfl | rfl | rfl
      · exact .inr (.inl ⟨_, rfl⟩)
      · exact .inr (.inr (.inl ⟨_, rfl⟩))
      · exact .inr (.inr (.inr rfl))

theorem step_serving (signal : String) (now : Int) :
    step deps .serving (.requestShutdown signal now) =
      some ((run deps signal now).1, (run deps signal now).2 ++ [.requested signal now]) := rfl

/-- A step is called by the first signal, or when the step before it settles. -/
theorem mem_began {s : State} {a : Action} {next : State × List Event} (h : step deps s a = some next)
    (hmem : .began i ∈ next.2) :
    s = .serving ∧ i = 0 ∨
      ∃ j hadError forceTimer ok, i = j + 1 ∧ s = .draining j hadError forceTimer ∧ a = .settle ok := by
  cases s with
  | serving =>
    cases a with
    | requestShutdown signal now =>
      obtain rfl := Option.some.inj ((step_serving signal now).symm.trans h)
      simp only [run, List.mem_append, List.mem_cons, List.not_mem_nil, or_false, reduceCtorEq] at hmem
      have hdrain := mem_drain hmem
      simp only [Event.began.injEq, reduceCtorEq, exists_false, or_false] at hdrain
      exact .inl ⟨rfl, hdrain⟩
    | settle | fire => cases h
  | draining j hadError forceTimer =>
    cases a with
    | requestShutdown signal now =>
      cases h
      simp at hmem
    | settle ok =>
      obtain ⟨name, -, heq⟩ := Option.map_eq_some_iff.mp h
      cases heq
      simp only [settle, List.mem_append, List.mem_cons, List.not_mem_nil, or_false, reduceCtorEq] at hmem
      have hdrain := mem_drain hmem
      simp only [Event.began.injEq, reduceCtorEq, exists_false, or_false] at hdrain
      exact .inr ⟨j, hadError, forceTimer, ok, hdrain, rfl, rfl⟩
    | fire now =>
      obtain ⟨-, heq⟩ := Option.ite_none_right_eq_some.mp h
      cases heq
      simp at hmem
  | gone => cases h

theorem drain_ne_serving : (drain deps i hadError forceTimer).1 ≠ .serving := by
  unfold drain
  split
  · simp
  · split
    · simp
    · simp

/-- A shutdown that has begun is not taken back. -/
theorem ne_serving {s : State} {a : Action} {next : State × List Event} (h : step deps s a = some next) :
    next.1 ≠ .serving := by
  cases s with
  | serving =>
    cases a with
    | requestShutdown signal now =>
      obtain rfl := Option.some.inj ((step_serving signal now).symm.trans h)
      exact drain_ne_serving
    | settle | fire => cases h
  | draining =>
    cases a with
    | requestShutdown signal now =>
      cases h
      simp
    | settle ok =>
      obtain ⟨name, -, rfl⟩ := Option.map_eq_some_iff.mp h
      exact drain_ne_serving
    | fire now =>
      obtain ⟨-, heq⟩ := Option.ite_none_right_eq_some.mp h
      cases heq
      simp
  | gone => cases h

/-- A step settles only while it is awaited. -/
theorem mem_settled {s : State} {a : Action} {next : State × List Event} {ok : Bool}
    (h : step deps s a = some next) (hmem : .settled i ok ∈ next.2) :
    ∃ hadError forceTimer, s = .draining i hadError forceTimer ∧ a = .settle ok := by
  cases s with
  | serving =>
    cases a with
    | requestShutdown signal now =>
      obtain rfl := Option.some.inj ((step_serving signal now).symm.trans h)
      simp only [run, List.mem_append, List.mem_cons, List.not_mem_nil, or_false, reduceCtorEq] at hmem
      have hdrain := mem_drain hmem
      simp at hdrain
    | settle | fire => cases h
  | draining j hadError forceTimer =>
    cases a with
    | requestShutdown signal now =>
      cases h
      simp at hmem
    | settle ok' =>
      obtain ⟨name, -, heq⟩ := Option.map_eq_some_iff.mp h
      cases heq
      simp only [settle, List.mem_append, List.mem_cons, List.not_mem_nil, or_false, reduceCtorEq,
        false_or, Event.settled.injEq] at hmem
      rcases hmem with hmem | ⟨rfl, rfl⟩
      · have hdrain := mem_drain hmem
        simp at hdrain
      · exact ⟨hadError, forceTimer, rfl, rfl⟩
    | fire now =>
      obtain ⟨-, heq⟩ := Option.ite_none_right_eq_some.mp h
      cases heq
      simp at hmem
  | gone => cases h

/-- The first signal calls the first step. -/
theorem began_of_serving {a : Action} {next : State × List Event} (h : step deps .serving a = some next)
    (hlt : 0 < deps.steps.length) :
    (∃ forceTimer, next.1 = .draining 0 false forceTimer) ∧ .began 0 ∈ next.2 := by
  cases a with
  | requestShutdown signal now =>
    obtain rfl := Option.some.inj ((step_serving signal now).symm.trans h)
    have hdrain : drain deps 0 false (now + deps.forceExitAfterMs) =
        (.draining 0 false (now + deps.forceExitAfterMs), [.began 0]) := if_pos hlt
    unfold run
    dsimp only
    rw [hdrain]
    exact ⟨⟨_, rfl⟩, List.mem_cons_self⟩
  | settle | fire => cases h

/-- Each step below a number has settled. -/
theorem exists_settled {n : Nat} (h : (outcomes t).map Prod.fst = below n) (hlt : i < n) :
    ∃ ok, .settled i ok ∈ t := by
  obtain ⟨⟨_, ok⟩, hmem, rfl⟩ := List.mem_map.mp (h ▸ mem_below.mpr hlt)
  exact ⟨ok, mem_outcomes.mp hmem⟩

end Steps

/-- What holds of the controller, in a state and after some events. -/
structure Graceful (deps : ShutdownDeps) (s : State) (t : List Event) : Prop where
  /-- A step is called once, after each step before it has settled. -/
  order : ∀ {t₁ t₂ i}, t = t₂ ++ .began i :: t₁ →
    i < deps.steps.length ∧ .began i ∉ t₁ ∧ ∀ j, j < i → ∃ ok, .settled j ok ∈ t₁
  /-- After the exit there is nothing. -/
  last : ∀ {t₁ t₂ code}, t = t₂ ++ .exited code :: t₁ →
    t₂ = [] ∧ (∀ code', .exited code' ∉ t₁) ∧ ∀ a, step deps s a = none
  /-- An exit with 0 says that every step resolved. -/
  clean : .exited 0 ∈ t → ∀ i, i < deps.steps.length → .settled i true ∈ t
  /-- Any other one is with 1, after a rejection of one of the steps, or at the deadline. -/
  unclean : ∀ {code}, .exited code ∈ t → code ≠ 0 → code = 1 ∧
    ((∃ i, .settled i false ∈ t) ∧ (∀ i, i < deps.steps.length → ∃ ok, .settled i ok ∈ t) ∨
      ∃ (signal : String) (now : Int) (t' : List Event) (later : Int),
        t = t' ++ [.requested signal now] ∧ .fired later ∈ t ∧ now + deps.forceExitAfterMs ≤ later)
  /-- Another signal changes nothing. -/
  ignored : ∀ signal now {next}, s.isShuttingDown = true →
    step deps s (.requestShutdown signal now) = some next →
      next = (s, [.logged ("already shutting down; ignoring " ++ signal), .requested signal now])
  /-- Until the exit the process can exit at the deadline, which the first signal set. -/
  bounded : s.isShuttingDown = true → (∀ code, .exited code ∉ t) →
    ∃ (signal : String) (now : Int) (t' : List Event), t = t' ++ [.requested signal now] ∧
      ∀ later, now + deps.forceExitAfterMs ≤ later →
        ∃ message, step deps s (.fire later) = some (.gone 1, [.exited 1, .logged message, .fired later])
  /-- Once the steps that are left settle, the process exits. -/
  completes : ∀ {i hadError forceTimer}, s = .draining i hadError forceTimer →
    ∀ oks : List Bool, i + oks.length = deps.steps.length →
      ∃ t', (machine deps).exec (oks.map .settle) s t =
        some (.gone (if hadError || !oks.all id then 1 else 0), t')

section Properties

variable {deps : ShutdownDeps} {s : State} {t : List Event}

theorem Inv.ordered (h : Inv deps s t) : Ordered deps t := by
  cases s with
  | serving =>
    obtain rfl : t = [] := h
    trivial
  | draining => exact h.2.ordered
  | gone =>
    obtain ⟨-, -, -, -, -, hordered⟩ := h
    exact hordered

theorem Inv.order (h : Inv deps s t) {t₁ t₂ : List Event} {i : Nat} (ht : t = t₂ ++ .began i :: t₁) :
    i < deps.steps.length ∧ .began i ∉ t₁ ∧ ∀ j, j < i → ∃ ok, .settled j ok ∈ t₁ := by
  have hordered := h.ordered
  rw [ht] at hordered
  obtain ⟨hlt, hbegun, houtcomes, -⟩ := hordered.of_append
  refine ⟨hlt, fun hmem ↦ ?_, fun j hj ↦ exists_settled houtcomes hj⟩
  have hbelow := mem_begun.mpr hmem
  rw [hbegun] at hbelow
  exact Nat.lt_irrefl _ (mem_below.mp hbelow)

/-- The state after an exit. -/
theorem Inv.gone (h : Inv deps s t) {code : Nat} (hmem : .exited code ∈ t) :
    ∃ forceTimer t₁, s = .gone code ∧ t = .exited code :: t₁ ∧ (∀ code', .exited code' ∉ t₁) ∧
      Deadline deps forceTimer t := by
  cases s with
  | serving =>
    obtain rfl : t = [] := h
    cases hmem
  | draining => exact absurd hmem (h.2.running code)
  | gone code' =>
    obtain ⟨forceTimer, t₁, rfl, hnone, hdeadline, -⟩ := h
    rcases List.mem_cons.mp hmem with heq | hmem
    · cases heq
      exact ⟨forceTimer, t₁, rfl, rfl, hnone, hdeadline⟩
    · exact absurd hmem (hnone code)

theorem Inv.last (h : Inv deps s t) {t₁ t₂ : List Event} {code : Nat}
    (ht : t = t₂ ++ .exited code :: t₁) :
    t₂ = [] ∧ (∀ code', .exited code' ∉ t₁) ∧ ∀ a, Shutdown.step deps s a = none := by
  obtain ⟨forceTimer, t₁', rfl, hgone, hnone, -⟩ := h.gone (ht ▸ List.mem_append_right _ List.mem_cons_self)
  cases t₂ with
  | nil =>
    obtain ⟨-, rfl⟩ := List.cons.inj (ht.symm.trans hgone)
    exact ⟨rfl, hnone, fun a ↦ rfl⟩
  | cons event t₂ =>
    obtain ⟨-, rfl⟩ := List.cons.inj (ht.symm.trans hgone)
    exact absurd (List.mem_append_right _ List.mem_cons_self) (hnone code)

theorem Inv.clean (h : Inv deps s t) (hmem : .exited 0 ∈ t) {i : Nat} (hlt : i < deps.steps.length) :
    .settled i true ∈ t := by
  obtain ⟨forceTimer, t₁, -, rfl, -⟩ := h.gone hmem
  rcases h.ordered.1 with ⟨houtcomes, hcode⟩ | ⟨hcode, -⟩
  · obtain ⟨ok, hsettled⟩ := exists_settled houtcomes hlt
    cases hall : (outcomes t₁).all Prod.snd with
    | true =>
      obtain rfl : ok = true := List.all_eq_true.mp hall _ (mem_outcomes.mpr hsettled)
      exact List.mem_cons_of_mem _ hsettled
    | false =>
      rw [hall] at hcode
      cases hcode
  · cases hcode

theorem Inv.unclean (h : Inv deps s t) {code : Nat} (hmem : .exited code ∈ t) (hne : code ≠ 0) :
    code = 1 ∧ ((∃ i, .settled i false ∈ t) ∧ (∀ i, i < deps.steps.length → ∃ ok, .settled i ok ∈ t) ∨
      ∃ (signal : String) (now : Int) (t' : List Event) (later : Int),
        t = t' ++ [.requested signal now] ∧ .fired later ∈ t ∧ now + deps.forceExitAfterMs ≤ later) := by
  obtain ⟨forceTimer, t₁, -, rfl, -, hdeadline⟩ := h.gone hmem
  rcases h.ordered.1 with ⟨houtcomes, hcode⟩ | ⟨rfl, hfired⟩
  · cases hall : (outcomes t₁).all Prod.snd with
    | true =>
      rw [hall] at hcode
      exact absurd hcode hne
    | false =>
      rw [hall] at hcode
      obtain ⟨⟨i, ok⟩, hmem, hok⟩ := List.all_eq_false.mp hall
      obtain rfl : ok = false := Bool.eq_false_iff.mpr hok
      refine ⟨hcode, .inl ⟨⟨i, List.mem_cons_of_mem _ (mem_outcomes.mp hmem)⟩, fun i hlt ↦ ?_⟩⟩
      obtain ⟨ok, hsettled⟩ := exists_settled houtcomes hlt
      exact ⟨ok, List.mem_cons_of_mem _ hsettled⟩
  · obtain ⟨deadline, now, harmed, hfired, hle⟩ := hfired
    obtain rfl := hdeadline.2.2 deadline (List.mem_cons_of_mem _ harmed)
    obtain ⟨signal, first, t', ht, rfl⟩ := hdeadline.1
    exact ⟨rfl, .inr ⟨signal, first, t', now, ht, List.mem_cons_of_mem _ hfired, hle⟩⟩

theorem ignored (signal : String) (now : Int) {next : State × List Event} (h : s.isShuttingDown = true)
    (hstep : step deps s (.requestShutdown signal now) = some next) :
    next = (s, [.logged ("already shutting down; ignoring " ++ signal), .requested signal now]) := by
  cases s with
  | serving => cases h
  | draining => exact (Option.some.inj hstep).symm
  | gone => cases hstep

theorem Inv.bounded (h : Inv deps s t) (hdown : s.isShuttingDown = true)
    (hrunning : ∀ code, .exited code ∉ t) :
    ∃ (signal : String) (now : Int) (t' : List Event), t = t' ++ [.requested signal now] ∧
      ∀ later, now + deps.forceExitAfterMs ≤ later → ∃ message,
        Shutdown.step deps s (.fire later) =
          some (.gone 1, [.exited 1, .logged message, .fired later]) := by
  cases s with
  | serving => cases hdown
  | draining i hadError forceTimer =>
    obtain ⟨signal, now, t', ht, rfl⟩ := h.2.deadline.1
    exact ⟨signal, now, t', ht, fun later hle ↦ ⟨_, if_pos hle⟩⟩
  | gone code =>
    obtain ⟨forceTimer, t₁, rfl, -⟩ := h
    exact absurd List.mem_cons_self (hrunning code)

/-- The steps that are left settle one after the other. -/
theorem completes {i : Nat} {hadError : Bool} {forceTimer : Int} (hlt : i < deps.steps.length)
    {oks : List Bool} (hlength : i + oks.length = deps.steps.length) (t : List Event) :
    ∃ t', (machine deps).exec (oks.map .settle) (.draining i hadError forceTimer) t =
      some (.gone (if hadError || !oks.all id then 1 else 0), t') := by
  induction oks generalizing i hadError t with
  | nil => exact absurd hlength (Nat.ne_of_lt hlt)
  | cons ok oks ih =>
    have hstep : (machine deps).step (.draining i hadError forceTimer) (.settle ok) =
        some (settle deps i hadError forceTimer deps.steps[i] ok) := by
      change (deps.steps[i]?.map fun name ↦ settle deps i hadError forceTimer name ok) = _
      rw [List.getElem?_eq_getElem hlt]
      rfl
    have herror : (hadError || !(ok :: oks).all id) = ((hadError || !ok) || !oks.all id) := by
      rw [List.all_cons, Bool.not_and, Bool.or_assoc]
      rfl
    rw [herror, List.map_cons, Machine.exec, hstep]
    rw [List.length_cons] at hlength
    by_cases hnext : i + 1 < deps.steps.length
    · have hsettle : (settle deps i hadError forceTimer deps.steps[i] ok).1 =
          .draining (i + 1) (hadError || !ok) forceTimer := by
        unfold settle drain
        rw [if_pos hnext]
      dsimp only
      rw [hsettle]
      exact ih hnext (by omega) _
    · obtain rfl : oks = [] := List.length_eq_zero_iff.mp (by omega)
      have hsettle : (settle deps i hadError forceTimer deps.steps[i] ok).1 =
          .gone (if hadError || !ok then 1 else 0) := by
        unfold settle drain
        rw [if_neg hnext]
        cases hadError || !ok with
        | true => rfl
        | false => rfl
      dsimp only
      rw [hsettle, List.all_nil, Bool.not_true, Bool.or_false]
      exact ⟨_, rfl⟩

/-- The controller keeps what it is for, in every run. -/
theorem graceful (h : (machine deps).Run s t) : Graceful deps s t := by
  have hinv := inv_machine h
  constructor
  · exact hinv.order
  · exact hinv.last
  · exact fun hmem i hlt ↦ hinv.clean hmem hlt
  · exact hinv.unclean
  · exact fun signal now _ hdown hstep ↦ ignored signal now hdown hstep
  · exact hinv.bounded
  · rintro i hadError forceTimer rfl oks hlength
    exact completes hinv.1 hlength t

/-- `apps/api/src/index.ts` -/
def apiDeps : ShutdownDeps := ⟨["http server", "pg pool", "redis"], 15000⟩

/-- The pool fails to close between two signals, and redis still closes. -/
def apiActions : List Action :=
  [.requestShutdown "SIGTERM" 100, .settle true, .requestShutdown "SIGINT" 200, .settle false, .settle true]

theorem graceful_api : ∃ s t, (machine apiDeps).exec apiActions .serving [] = some (s, t) ∧
    Graceful apiDeps s t ∧ s = .gone 1 := by
  obtain ⟨s, t, hexec, hs⟩ : ∃ s t,
      (machine apiDeps).exec apiActions .serving [] = some (s, t) ∧ s = .gone 1 := ⟨_, _, rfl, rfl⟩
  exact ⟨s, t, hexec, graceful (Machine.run_of_exec hexec), hs⟩

end Properties

end Aesmsg.Shutdown
