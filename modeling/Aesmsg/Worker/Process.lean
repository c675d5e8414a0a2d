import Aesmsg.Lib.Simulation
import Aesmsg.Worker.Scheduler
import Aesmsg.Worker.Shutdown

/-!
# The worker process

`apps/worker/src/index.ts`: the scheduler, started once, and the shutdown, whose steps stop the scheduler
and then close the pool that the sweeps use.

## Main results

- `run_scheduler`, `run_shutdown`: what each part shows of a run of the process is a run of the part.
- `drained`: the pool is not closed under a sweep, in any run.
-/

namespace Aesmsg.Worker.Process

/-- The promise of `scheduler.stop()` that the shutdown awaits. -/
inductive Awaited where
  | none
  | stopping (call : Nat)
  /-- It has resolved.  `stop` never rejects. -/
  | stopped (call : Nat)
deriving DecidableEq

structure State where
  booted : Bool
  scheduler : Worker.State
  shutdown : Shutdown.State
  awaited : Awaited

inductive Event where
  | scheduler (event : Worker.Event)
  | shutdown (event : Shutdown.Event)

def deps : Shutdown.ShutdownDeps := ⟨["scheduler", "pg pool"], 15000⟩

/-- The name of the job of `createExpirySweepJob`. -/
def createExpirySweepJob (intervalMs : Rat) (runOnStart : Bool) : Job :=
  ⟨"expiry-sweep", intervalMs, runOnStart⟩

inductive Action where
  /-- `scheduler.start()`, when the module is loaded. -/
  | boot (now : Int)
  | tick (handle : Nat) (now : Int)
  | settle (ref : Nat) (now : Int) (outcome : Outcome)
  | «finally» (ref : Nat)
  | resolve (call : Nat)
  | requestShutdown (signal : String) (now : Int)
  /-- The promise of the step that the shutdown awaits settles. -/
  | stepped (ok : Bool)
  | fire (now : Int)

/-- Whether the step that is awaited can settle so. -/
def State.canSettle (s : State) (ok : Bool) : Bool :=
  match s.shutdown, s.awaited with
  | .draining 0 .., .stopped _ => ok
  | .draining 0 .., .none | .draining 0 .., .stopping _ => false
  | .serving, _ | .draining (_ + 1) .., _ | .gone _, _ => true

/-- The scheduler does something. -/
def schedule (jobs : List Job) (s : State) (a : Worker.Action) : Option (State × List Event) :=
  (Worker.step jobs s.scheduler a).map fun next ↦
    ({ s with scheduler := next.1 }, next.2.map .scheduler)

/-- The shutdown does something, which may call `scheduler.stop()`. -/
def shutDown (s : State) (a : Shutdown.Action) : Option (State × List Event) :=
  (Shutdown.step deps s.shutdown a).map fun next ↦
    if .began 0 ∈ next.2 then
      ({ s with
          shutdown := next.1
          scheduler := stop s.scheduler
          awaited := .stopping s.scheduler.nextStop },
        .scheduler (.stopping s.scheduler.nextStop) :: next.2.map .shutdown)
    else ({ s with shutdown := next.1 }, next.2.map .shutdown)

/-- A step of the process that has booted. -/
def work (jobs : List Job) (s : State) : Action → Option (State × List Event)
  | .boot _ => none
  | .tick handle now => schedule jobs s (.tick handle now)
  | .settle ref now outcome => schedule jobs s (.settle ref now outcome)
  | .finally ref => schedule jobs s (.finally ref)
  | .resolve call =>
    schedule jobs { s with awaited := if s.awaited = .stopping call then .stopped call else s.awaited }
      (.resolve call)
  | .requestShutdown signal now => shutDown s (.requestShutdown signal now)
  | .stepped ok => if s.canSettle ok then shutDown s (.settle ok) else none
  | .fire now => shutDown s (.fire now)

def step (jobs : List Job) (s : State) (a : Action) : Option (State × List Event) :=
  match s.shutdown, s.booted, a with
  | .gone _, _, _ => none
  | _, false, .boot now => schedule jobs { s with booted := true } (.start now)
  | _, false, _ => none
  | _, true, a => work jobs s a

def machine (jobs : List Job) : Machine State Action Event :=
  ⟨⟨false, (Worker.machine jobs).init, .serving, .none⟩, step jobs⟩

/-! ## The parts -/

def scheduler? : Event → Option Worker.Event
  | .scheduler event => some event
  | .shutdown _ => none

def shutdown? : Event → Option Shutdown.Event
  | .scheduler _ => none
  | .shutdown event => some event

theorem filterMap_scheduler (es : List Worker.Event) : (es.map .scheduler).filterMap scheduler? = es := by
  rw [List.filterMap_map]
  exact List.filterMap_some

theorem filterMap_scheduler_shutdown (es : List Shutdown.Event) :
    (es.map .shutdown).filterMap scheduler? = [] := by
  rw [List.filterMap_map]
  exact List.filterMap_eq_nil_iff.mpr fun event _ ↦ rfl

theorem filterMap_shutdown (es : List Shutdown.Event) : (es.map .shutdown).filterMap shutdown? = es := by
  rw [List.filterMap_map]
  exact List.filterMap_some

theorem filterMap_shutdown_scheduler (es : List Worker.Event) :
    (es.map .scheduler).filterMap shutdown? = [] := by
  rw [List.filterMap_map]
  exact List.filterMap_eq_nil_iff.mpr fun event _ ↦ rfl

section Steps

variable {jobs : List Job} {s s' : State} {t es : List Event} {a : Action}

/-- What a step can do: the scheduler starts, it does something else, or the shutdown does something. -/
inductive Steps (jobs : List Job) (s : State) : State → List Event → Prop
  | boot {now next} (booted : s.booted = false)
    (start : Worker.step jobs s.scheduler (.start now) = some next) :
    Steps jobs s { s with booted := true, scheduler := next.1 } (next.2.map .scheduler)
  | schedule {a next} (booted : s.booted = true) (start : ∀ now, a ≠ .start now) (stop : a ≠ .stop)
    (resolve : ∀ call, s.awaited = .stopping call → a ≠ .resolve call)
    (step : Worker.step jobs s.scheduler a = some next) :
    Steps jobs s { s with scheduler := next.1 } (next.2.map .scheduler)
  | resolve {call next} (booted : s.booted = true) (awaited : s.awaited = .stopping call)
    (step : Worker.step jobs s.scheduler (.resolve call) = some next) :
    Steps jobs s { s with scheduler := next.1, awaited := .stopped call } (next.2.map .scheduler)
  | stop {a next} (booted : s.booted = true) (step : Shutdown.step deps s.shutdown a = some next)
    (began : .began 0 ∈ next.2) (canSettle : ∀ ok, a = .settle ok → s.canSettle ok = true) :
    Steps jobs s
      { s with
        shutdown := next.1, scheduler := stop s.scheduler, awaited := .stopping s.scheduler.nextStop }
      (.scheduler (.stopping s.scheduler.nextStop) :: next.2.map .shutdown)
  | shutDown {a next} (booted : s.booted = true) (step : Shutdown.step deps s.shutdown a = some next)
    (began : .began 0 ∉ next.2) (canSettle : ∀ ok, a = .settle ok → s.canSettle ok = true) :
    Steps jobs s { s with shutdown := next.1 } (next.2.map .shutdown)

theorem schedule_eq_some {b : Worker.Action} (h : schedule jobs s b = some (s', es)) :
    ∃ next, Worker.step jobs s.scheduler b = some next ∧ s' = { s with scheduler := next.1 } ∧
      es = next.2.map .scheduler := by
  obtain ⟨next, hstep, heq⟩ := Option.map_eq_some_iff.mp h
  cases heq
  exact ⟨next, hstep, rfl, rfl⟩

theorem steps_of_shutDown {b : Shutdown.Action} (hbooted : s.booted = true)
    (hsettle : ∀ ok, b = .settle ok → s.canSettle ok = true) (h : shutDown s b = some (s', es)) :
    Steps jobs s s' es := by
  obtain ⟨next, hstep, heq⟩ := Option.map_eq_some_iff.mp h
  split at heq
  · rename_i hbegan
    cases heq
    exact .stop hbooted hstep hbegan hsettle
  · rename_i hbegan
    cases heq
    exact .shutDown hbooted hstep hbegan hsettle

theorem steps_of_work (hbooted : s.booted = true) (h : work jobs s a = some (s', es)) :
    Steps jobs s s' es := by
  cases a with
  | boot now => cases h
  | tick handle now =>
    obtain ⟨next, hstep, rfl, rfl⟩ := schedule_eq_some h
    exact .schedule hbooted (by simp) (by simp) (by simp) hstep
  | settle ref now outcome =>
    obtain ⟨next, hstep, rfl, rfl⟩ := schedule_eq_some h
    exact .schedule hbooted (by simp) (by simp) (by simp) hstep
  | «finally» ref =>
    obtain ⟨next, hstep, rfl, rfl⟩ := schedule_eq_some h
    exact .schedule hbooted (by simp) (by simp) (by simp) hstep
  | resolve call =>
    obtain ⟨next, hstep, rfl, rfl⟩ := schedule_eq_some h
    by_cases hawaited : s.awaited = .stopping call
    · rw [if_pos hawaited]
      exact .resolve hbooted hawaited hstep
    · rw [if_neg hawaited]
      refine .schedule hbooted (by simp) (by simp) (fun call' hcall heq ↦ ?_) hstep
      cases heq
      exact hawaited hcall
  | requestShutdown signal now => exact steps_of_shutDown hbooted (fun ok heq ↦ by cases heq) h
  | stepped ok =>
    obtain ⟨hsettle, hstep⟩ := Option.ite_none_right_eq_some.mp h
    refine steps_of_shutDown hbooted (fun ok' heq ↦ ?_) hstep
    cases heq
    exact hsettle
  | fire now => exact steps_of_shutDown hbooted (fun ok heq ↦ by cases heq) h

/-- The process exits at once. -/
theorem step_of_gone {code : Nat} (h : s.shutdown = .gone code) : step jobs s a = none := by
  unfold step
  rw [h]

theorem step_of_booted (hbooted : s.booted = true) (h : ∀ code, s.shutdown ≠ .gone code) :
    step jobs s a = work jobs s a := by
  unfold step
  cases hstate : s.shutdown with
  | serving | draining => rw [hbooted]
  | gone code => exact absurd hstate (h code)

theorem steps_of_step (h : step jobs s a = some (s', es)) :
    Steps jobs s s' es ∧ ∀ code, s.shutdown ≠ .gone code := by
  have hlive (code : Nat) : s.shutdown ≠ .gone code := fun hgone ↦ by
    rw [step_of_gone hgone] at h
    cases h
  refine ⟨?_, hlive⟩
  unfold step at h
  split at h
  · cases h
  · rename_i hbooted _
    obtain ⟨next, hstep, rfl, rfl⟩ := schedule_eq_some h
    exact .boot hbooted hstep
  · cases h
  · rename_i hbooted _
    exact steps_of_work hbooted h

/-- What the scheduler of the process shows is a run of it. -/
theorem run_scheduler (h : (machine jobs).Run s t) :
    (Worker.machine jobs).Run s.scheduler (t.filterMap scheduler?) := by
  refine h.simulate (f := State.scheduler) (g := scheduler?) rfl fun _ hstep ↦ ?_
  cases (steps_of_step hstep).1 with
  | boot _ hnext =>
    rw [filterMap_scheduler]
    exact ⟨[.start _], Machine.exec_singleton (M := Worker.machine jobs) hnext⟩
  | @schedule a _ _ _ _ _ hnext =>
    rw [filterMap_scheduler]
    exact ⟨[a], Machine.exec_singleton (M := Worker.machine jobs) hnext⟩
  | resolve _ _ hnext =>
    rw [filterMap_scheduler]
    exact ⟨[.resolve _], Machine.exec_singleton (M := Worker.machine jobs) hnext⟩
  | @stop _ next =>
    refine ⟨[.stop], Machine.exec_singleton ?_⟩
    change some _ = some (_, _ :: (next.2.map Event.shutdown).filterMap scheduler?)
    rw [filterMap_scheduler_shutdown]
  | @shutDown _ next =>
    rw [filterMap_scheduler_shutdown]
    exact ⟨[], rfl⟩

/-- What the shutdown of the process shows is a run of it. -/
theorem run_shutdown (h : (machine jobs).Run s t) :
    (Shutdown.machine deps).Run s.shutdown (t.filterMap shutdown?) := by
  refine h.simulate (f := State.shutdown) (g := shutdown?) rfl fun _ hstep ↦ ?_
  cases (steps_of_step hstep).1 with
  | boot | schedule | resolve =>
    rw [filterMap_shutdown_scheduler]
    exact ⟨[], rfl⟩
  | @stop a next _ hnext =>
    refine ⟨[a], Machine.exec_singleton (M := Shutdown.machine deps) (hnext.trans ?_)⟩
    change some next = some (_, (next.2.map Event.shutdown).filterMap shutdown?)
    rw [filterMap_shutdown]
  | @shutDown a next _ hnext =>
    rw [filterMap_shutdown]
    exact ⟨[a], Machine.exec_singleton (M := Shutdown.machine deps) hnext⟩

/-- A step of the scheduler other than a start shows no start. -/
theorem start_not_mem {s s' : Worker.State} {b : Worker.Action} {es : List Worker.Event}
    (hstart : ∀ now, b ≠ .start now) (h : Worker.step jobs s b = some (s', es)) : .start ∉ es := by
  cases b with
  | start now => exact absurd rfl (hstart now)
  | stop =>
    cases h
    simp
  | tick handle now =>
    obtain ⟨interval, -, hexecute⟩ := tick_eq_some h
    unfold execute at hexecute
    split at hexecute
    · cases hexecute
      simp
    · cases hexecute
      simp
  | settle ref now outcome =>
    obtain ⟨run, -, heq⟩ := Option.map_eq_some_iff.mp h
    cases heq
    simp
  | «finally» ref =>
    obtain ⟨run, -, heq⟩ := Option.map_eq_some_iff.mp h
    cases heq
    simp
  | resolve call =>
    obtain ⟨-, heq⟩ := Option.ite_none_right_eq_some.mp h
    cases heq
    simp

theorem execute_stops (s : Worker.State) (job : Job) (now : Int) :
    (execute s job now).1.stops = s.stops := by
  unfold execute
  split
  · rfl
  · rfl

/-- A call of `stop` waits until it resolves. -/
theorem stops_of_step {s s' : Worker.State} {b : Worker.Action} {es : List Worker.Event} {call : Nat}
    {refs : List Nat} (hstart : ∀ now, b ≠ .start now) (hresolve : b ≠ .resolve call)
    (h : Worker.step jobs s b = some (s', es)) (hmem : (call, refs) ∈ s.stops) :
    (call, refs) ∈ s'.stops := by
  cases b with
  | start now => exact absurd rfl (hstart now)
  | stop =>
    cases h
    exact List.mem_cons_of_mem _ hmem
  | tick handle now =>
    obtain ⟨interval, -, hexecute⟩ := tick_eq_some h
    have hstops := execute_stops s interval.2 now
    rw [hexecute] at hstops
    exact hstops ▸ hmem
  | settle ref now outcome =>
    obtain ⟨run, -, heq⟩ := Option.map_eq_some_iff.mp h
    cases heq
    exact hmem
  | «finally» ref =>
    obtain ⟨run, -, heq⟩ := Option.map_eq_some_iff.mp h
    cases heq
    exact hmem
  | resolve call' =>
    obtain ⟨-, -, rfl⟩ := resolve_eq_some h
    refine List.mem_filter.mpr ⟨hmem, decide_eq_true fun heq ↦ ?_⟩
    exact hresolve (congrArg _ heq.symm)

/-! ## The sweeps and the pool -/

/-- No sweep was in progress when the pool was closed. -/
def Closes : List Event → Prop
  | [] => True
  | .shutdown (.began i) :: t => (i = 1 → live (t.filterMap scheduler?) = []) ∧ Closes t
  | _ :: t => Closes t

structure Inv (s : State) (t : List Event) : Prop where
  booted : s.booted = false → s.shutdown = .serving ∧ s.awaited = .none ∧ t = []
  awaited : s.awaited = .none → s.shutdown = .serving
  stopping : ∀ call, s.awaited = .stopping call →
    s.shutdown ≠ .serving ∧ Since call (t.filterMap scheduler?) ∧ ∃ refs, (call, refs) ∈ s.scheduler.stops
  stopped : ∀ call, s.awaited = .stopped call →
    Since call (t.filterMap scheduler?) ∧ .stopped call ∈ t.filterMap scheduler?
  settled : ∀ i ok, .settled i ok ∈ t.filterMap shutdown? → ∃ call, s.awaited = .stopped call
  closes : Closes t

theorem closes_scheduler (es : List Worker.Event) : Closes (es.map .scheduler ++ t) ↔ Closes t := by
  induction es with
  | nil => exact Iff.rfl
  | cons event es ih => exact ih

/-- No sweep is in progress once the promise of `stop` has resolved. -/
theorem Inv.live_eq_nil (h : Inv s t) (hsound : Sound jobs s.scheduler (t.filterMap scheduler?)) {call : Nat}
    (hstopped : s.awaited = .stopped call) : live (t.filterMap scheduler?) = [] := by
  obtain ⟨hsince, hmem⟩ := h.stopped call hstopped
  have hpending := (hsound.toInv.stopped call hmem).2 hsince
  rw [hsound.live]
  exact (List.append_eq_nil_iff.mp hpending).1

theorem scheduler_append (es : List Worker.Event) (t : List Event) :
    (es.map Event.scheduler ++ t).filterMap scheduler? = es ++ t.filterMap scheduler? := by
  rw [List.filterMap_append, filterMap_scheduler]

theorem shutdown_append (es : List Shutdown.Event) (t : List Event) :
    (es.map Event.shutdown ++ t).filterMap scheduler? = t.filterMap scheduler? := by
  rw [List.filterMap_append, filterMap_scheduler_shutdown, List.nil_append]

theorem shutdown?_append (es : List Shutdown.Event) (t : List Event) :
    (es.map Event.shutdown ++ t).filterMap shutdown? = es ++ t.filterMap shutdown? := by
  rw [List.filterMap_append, filterMap_shutdown]

theorem shutdown?_append_scheduler (es : List Worker.Event) (t : List Event) :
    (es.map Event.scheduler ++ t).filterMap shutdown? = t.filterMap shutdown? := by
  rw [List.filterMap_append, filterMap_shutdown_scheduler, List.nil_append]

theorem closes_shutdown (es : List Shutdown.Event) :
    Closes (es.map Event.shutdown ++ t) ↔
      (.began 1 ∈ es → live (t.filterMap scheduler?) = []) ∧ Closes t := by
  induction es with
  | nil => simp
  | cons event es ih =>
    cases event with
    | began i =>
      change (i = 1 → live ((es.map Event.shutdown ++ t).filterMap scheduler?) = []) ∧
        Closes (es.map Event.shutdown ++ t) ↔ _
      rw [shutdown_append, ih, List.mem_cons, Shutdown.Event.began.injEq, eq_comm (a := 1)]
      constructor
      · rintro ⟨hhead, htail, hcloses⟩
        exact ⟨fun hmem ↦ hmem.elim hhead htail, hcloses⟩
      · rintro ⟨hmem, hcloses⟩
        exact ⟨fun hi ↦ hmem (.inl hi), fun hes ↦ hmem (.inr hes), hcloses⟩
    | requested | logged | armed | cleared | settled | fired | exited =>
      rw [List.mem_cons, or_iff_right (by simp)]
      exact ih

theorem Inv.boot (h : Inv s []) (hserving : s.shutdown = .serving) (hnone : s.awaited = .none)
    (next : Worker.State) (es : List Worker.Event) :
    Inv { s with booted := true, scheduler := next } (es.map .scheduler ++ []) where
  booted := fun hfalse ↦ by cases hfalse
  awaited := fun _ ↦ hserving
  stopping := fun call hstopping ↦ absurd (hnone.symm.trans hstopping) (by simp)
  stopped := fun call hstopped ↦ absurd (hnone.symm.trans hstopped) (by simp)
  settled := by
    intro i ok hmem
    rw [shutdown?_append_scheduler] at hmem
    cases hmem
  closes := (closes_scheduler es).mpr h.closes

/-- The scheduler does something, and is not started. -/
theorem Inv.schedule (h : Inv s t) (hbooted : s.booted = true) {b : Worker.Action} {next : Worker.State}
    {es : List Worker.Event} (hstart : ∀ now, b ≠ .start now)
    (hresolve : ∀ call, s.awaited = .stopping call → b ≠ .resolve call)
    (hstep : Worker.step jobs s.scheduler b = some (next, es)) :
    Inv { s with scheduler := next } (es.map .scheduler ++ t) where
  booted := fun hfalse ↦ absurd (hbooted.symm.trans hfalse) (by simp)
  awaited := h.awaited
  stopping := by
    intro call hawaited
    rw [scheduler_append]
    obtain ⟨hserving, hsince, refs, hmem⟩ := h.stopping call hawaited
    refine ⟨hserving, hsince.append (start_not_mem hstart hstep), refs, ?_⟩
    exact stops_of_step hstart (hresolve call hawaited) hstep hmem
  stopped := by
    intro call hawaited
    rw [scheduler_append]
    obtain ⟨hsince, hmem⟩ := h.stopped call hawaited
    exact ⟨hsince.append (start_not_mem hstart hstep), List.mem_append_right _ hmem⟩
  settled := by
    intro i ok hmem
    rw [shutdown?_append_scheduler] at hmem
    exact h.settled i ok hmem
  closes := (closes_scheduler es).mpr h.closes

/-- The promise of `stop` resolves. -/
theorem Inv.resolve (h : Inv s t) (hbooted : s.booted = true) {call : Nat}
    (hawaited : s.awaited = .stopping call) (next : Worker.State) :
    Inv { s with scheduler := next, awaited := .stopped call } (.scheduler (.stopped call) :: t) where
  booted := fun hfalse ↦ absurd (hbooted.symm.trans hfalse) (by simp)
  awaited := fun hnone ↦ by cases hnone
  stopping := fun call' hstopping ↦ by cases hstopping
  stopped := by
    intro call' hstopped
    cases hstopped
    exact ⟨(h.stopping call hawaited).2.1, List.mem_cons_self⟩
  settled := fun _ _ _ ↦ ⟨call, rfl⟩
  closes := h.closes

/-- The first signal stops the scheduler. -/
theorem Inv.stop (h : Inv s t) (hshutdown : Shutdown.Inv deps s.shutdown (t.filterMap shutdown?))
    (hbooted : s.booted = true) {b : Shutdown.Action} {next : Shutdown.State × List Shutdown.Event}
    (hstep : Shutdown.step deps s.shutdown b = some next) (hbegan : .began 0 ∈ next.2) :
    Inv { s with
        shutdown := next.1, scheduler := stop s.scheduler, awaited := .stopping s.scheduler.nextStop }
      (.scheduler (.stopping s.scheduler.nextStop) :: (next.2.map .shutdown ++ t)) := by
  obtain ⟨hserving, -⟩ | ⟨j, hadError, forceTimer, ok, hj, -⟩ := Shutdown.mem_began hstep hbegan
  · have hnil : t.filterMap shutdown? = [] := by
      rw [hserving] at hshutdown
      exact hshutdown
    constructor
    · exact fun hfalse ↦ absurd (hbooted.symm.trans hfalse) (by simp)
    · exact fun hnone ↦ by cases hnone
    · intro call hstopping
      cases hstopping
      exact ⟨Shutdown.ne_serving hstep, .inl rfl, _, List.mem_cons_self⟩
    · exact fun call hstopped ↦ by cases hstopped
    · intro i ok hmem
      change .settled i ok ∈ (next.2.map Event.shutdown ++ t).filterMap shutdown? at hmem
      rw [shutdown?_append, hnil, List.append_nil] at hmem
      obtain ⟨hadError, forceTimer, hdraining, -⟩ := Shutdown.mem_settled hstep hmem
      rw [hserving] at hdraining
      cases hdraining
    · refine (closes_shutdown next.2).mpr ⟨fun hmem ↦ ?_, h.closes⟩
      obtain ⟨-, hone⟩ | ⟨j, hadError, forceTimer, ok, -, hdraining, -⟩ := Shutdown.mem_began hstep hmem
      · cases hone
      · rw [hserving] at hdraining
        cases hdraining
  · cases hj

/-- A step settles after the promise of `stop`. -/
theorem Inv.awaited_of_settle (h : Inv s t)
    (hshutdown : Shutdown.Inv deps s.shutdown (t.filterMap shutdown?)) {i : Nat} {hadError : Bool}
    {forceTimer : Int} {ok : Bool} (hdraining : s.shutdown = .draining i hadError forceTimer)
    (hsettle : s.canSettle ok = true) : ∃ call, s.awaited = .stopped call := by
  cases i with
  | zero =>
    unfold State.canSettle at hsettle
    rw [hdraining] at hsettle
    cases hawaited : s.awaited with
    | none =>
      rw [hawaited] at hsettle
      cases hsettle
    | stopping =>
      rw [hawaited] at hsettle
      cases hsettle
    | stopped call => exact ⟨call, rfl⟩
  | succ i =>
    rw [hdraining] at hshutdown
    obtain ⟨ok, hmem⟩ := Shutdown.exists_settled hshutdown.2.outcomes (Nat.succ_pos i)
    exact h.settled 0 ok hmem

/-- The shutdown goes on. -/
theorem Inv.shutDown (h : Inv s t) (hsound : Sound jobs s.scheduler (t.filterMap scheduler?))
    (hshutdown : Shutdown.Inv deps s.shutdown (t.filterMap shutdown?))
    (hbooted : s.booted = true) {b : Shutdown.Action} {next : Shutdown.State × List Shutdown.Event}
    (hstep : Shutdown.step deps s.shutdown b = some next) (hbegan : .began 0 ∉ next.2)
    (hsettle : ∀ ok, b = .settle ok → s.canSettle ok = true) :
    Inv { s with shutdown := next.1 } (next.2.map .shutdown ++ t) := by
  have hnone : s.awaited ≠ .none := by
    intro hnone
    rw [h.awaited hnone] at hstep
    exact hbegan (Shutdown.began_of_serving hstep (by decide)).2
  constructor
  · exact fun hfalse ↦ absurd (hbooted.symm.trans hfalse) (by simp)
  · exact fun hawaited ↦ absurd hawaited hnone
  · intro call hstopping
    rw [shutdown_append]
    exact ⟨Shutdown.ne_serving hstep, (h.stopping call hstopping).2⟩
  · intro call hstopped
    rw [shutdown_append]
    exact h.stopped call hstopped
  · intro i ok hmem
    rw [shutdown?_append] at hmem
    rcases List.mem_append.mp hmem with hmem | hmem
    · obtain ⟨hadError, forceTimer, hdraining, rfl⟩ := Shutdown.mem_settled hstep hmem
      exact h.awaited_of_settle hshutdown hdraining (hsettle ok rfl)
    · exact h.settled i ok hmem
  · refine (closes_shutdown next.2).mpr ⟨fun hmem ↦ ?_, h.closes⟩
    obtain ⟨-, hone⟩ | ⟨j, hadError, forceTimer, ok, -, hdraining, rfl⟩ := Shutdown.mem_began hstep hmem
    · cases hone
    · obtain ⟨call, hstopped⟩ := h.awaited_of_settle hshutdown hdraining (hsettle ok rfl)
      exact h.live_eq_nil hsound hstopped

theorem inv_machine (h : (machine jobs).Run s t) : Inv s t := by
  induction h with
  | init =>
    exact ⟨fun _ ↦ ⟨rfl, rfl, rfl⟩, fun _ ↦ rfl, by simp [machine], by simp [machine], by simp, trivial⟩
  | @step s s' t es a before hstep ih =>
    have hsound := sound_run (run_scheduler before)
    have hshutdown := Shutdown.inv_machine (run_shutdown before)
    cases (steps_of_step hstep).1 with
    | boot hbooted hstart =>
      obtain ⟨hserving, hnone, rfl⟩ := ih.booted hbooted
      exact ih.boot hserving hnone _ _
    | schedule hbooted hstart hstop hresolve hnext =>
      exact ih.schedule hbooted hstart hresolve hnext
    | resolve hbooted hawaited hnext =>
      obtain ⟨-, hes, -⟩ := resolve_eq_some hnext
      rw [hes]
      exact ih.resolve hbooted hawaited _
    | stop hbooted hnext hbegan hsettle => exact ih.stop hshutdown hbooted hnext hbegan
    | shutDown hbooted hnext hbegan hsettle =>
      exact ih.shutDown hsound hshutdown hbooted hnext hbegan hsettle

end Steps

/-- Every sweep that began has ended. -/
def Swept (t : List Event) : Prop :=
  ∀ (t₁ t₂ : List Event) (run : Run), t = t₂ ++ .scheduler (.began run) :: t₁ →
    ∃ outcome, .scheduler (.ended run.ref outcome) ∈ t₂

/-- What holds of the worker process, in a state and after some events. -/
structure Drained (jobs : List Job) (s : State) (t : List Event) : Prop where
  /-- When the pool is closed every sweep has ended, and none begins after it. -/
  closed : ∀ {t₁ t₂}, t = t₂ ++ .shutdown (.began 1) :: t₁ →
    Swept t₁ ∧ ∀ run, .scheduler (.began run) ∉ t₂
  /-- The process exits under a sweep only at the deadline. -/
  exited : ∀ {t₁ t₂ code}, t = t₂ ++ .shutdown (.exited code) :: t₁ →
    t₂ = [] ∧ (∀ a, step jobs s a = none) ∧
      (Swept t₁ ∨ code = 1 ∧ ∃ (signal : String) (now later : Int), .shutdown (.requested signal now) ∈ t ∧
        .shutdown (.fired later) ∈ t ∧ now + 15000 ≤ later)
  /-- The shutdown waits for nothing but the sweeps in progress. -/
  advances : ∀ {call}, s.awaited = .stopping call → s.scheduler.pending = [] →
    (∀ code, .shutdown (.exited code) ∉ t) → ∃ s₁ s₂ es₁ es₂,
      step jobs s (.resolve call) = some (s₁, es₁) ∧ step jobs s₁ (.stepped true) = some (s₂, es₂) ∧
        .shutdown (.began 1) ∈ es₂

section Properties

variable {jobs : List Job} {s : State} {t : List Event}

theorem mem_filterMap_scheduler {event : Worker.Event} :
    event ∈ t.filterMap scheduler? ↔ .scheduler event ∈ t := by
  rw [List.mem_filterMap]
  constructor
  · rintro ⟨other, hmem, heq⟩
    cases other with
    | scheduler =>
      cases heq
      exact hmem
    | shutdown => cases heq
  · exact fun hmem ↦ ⟨_, hmem, rfl⟩

theorem mem_filterMap_shutdown {event : Shutdown.Event} :
    event ∈ t.filterMap shutdown? ↔ .shutdown event ∈ t := by
  rw [List.mem_filterMap]
  constructor
  · rintro ⟨other, hmem, heq⟩
    cases other with
    | scheduler => cases heq
    | shutdown =>
      cases heq
      exact hmem
  · exact fun hmem ↦ ⟨_, hmem, rfl⟩

theorem filterMap_scheduler_cons (t₁ t₂ : List Event) (event : Worker.Event) :
    (t₂ ++ .scheduler event :: t₁).filterMap scheduler? =
      t₂.filterMap scheduler? ++ event :: t₁.filterMap scheduler? := by
  rw [List.filterMap_append]
  rfl

theorem filterMap_shutdown_cons (t₁ t₂ : List Event) (event : Shutdown.Event) :
    (t₂ ++ .shutdown event :: t₁).filterMap shutdown? =
      t₂.filterMap shutdown? ++ event :: t₁.filterMap shutdown? := by
  rw [List.filterMap_append]
  rfl

/-- No sweep is in progress, by the events. -/
theorem swept_of_live (h : live (t.filterMap scheduler?) = []) : Swept t := by
  intro t₁ t₂ run ht
  by_contra hnone
  have hmem : run ∈ live (t₂.filterMap scheduler? ++ .began run :: t₁.filterMap scheduler?) :=
    mem_live fun outcome hmem ↦ hnone ⟨outcome, mem_filterMap_scheduler.mp hmem⟩
  rw [← filterMap_scheduler_cons, ← ht, h] at hmem
  cases hmem

theorem Closes.of_append {t' : List Event} (h : Closes (t' ++ t)) : Closes t := by
  induction t' with
  | nil => exact h
  | cons event t' ih =>
    cases event with
    | scheduler => exact ih h
    | shutdown event =>
      cases event with
      | began => exact ih h.2
      | requested | logged | armed | cleared | settled | fired | exited => exact ih h

/-- A sweep begins in a step of the scheduler. -/
theorem step_of_began {s' : State} {es : List Event} {run : Run} (h : Steps jobs s s' es)
    (hmem : .scheduler (.began run) ∈ es) :
    ∃ b next, Worker.step jobs s.scheduler b = some next ∧ es = next.2.map .scheduler ∧
      (s.booted = true → ∀ now, b ≠ .start now) := by
  cases h with
  | boot hbooted hstep => exact ⟨_, _, hstep, rfl, fun htrue ↦ by simp [hbooted] at htrue⟩
  | schedule _ hstart _ _ hstep => exact ⟨_, _, hstep, rfl, fun _ ↦ hstart⟩
  | resolve _ _ hstep => exact ⟨_, _, hstep, rfl, fun _ now heq ↦ by cases heq⟩
  | stop => simp at hmem
  | shutDown => simp at hmem

/-- The pool is closed after the promise of `stop` has resolved. -/
theorem awaited_of_closed (h : (machine jobs).Run s t) (hmem : .shutdown (.began 1) ∈ t) :
    s.booted = true ∧ ∃ call, s.awaited = .stopped call := by
  have hinv := inv_machine h
  obtain ⟨t₂, t₁, ht⟩ := List.append_of_mem (mem_filterMap_shutdown.mpr hmem)
  obtain ⟨-, -, hbefore⟩ := (Shutdown.inv_machine (run_shutdown h)).order ht
  obtain ⟨ok, hsettled⟩ := hbefore 0 Nat.zero_lt_one
  have hsettled : .settled 0 ok ∈ t.filterMap shutdown? :=
    ht ▸ List.mem_append_right _ (List.mem_cons_of_mem _ hsettled)
  refine ⟨?_, hinv.settled 0 ok hsettled⟩
  cases hbooted : s.booted with
  | true => rfl
  | false =>
    obtain ⟨-, -, rfl⟩ := hinv.booted hbooted
    cases hmem

/-- No sweep begins after the pool was closed. -/
theorem began_not_mem (h : (machine jobs).Run s t) {t₁ t₂ : List Event}
    (ht : t = t₂ ++ .shutdown (.began 1) :: t₁) (run : Run) : .scheduler (.began run) ∉ t₂ := by
  intro hmem
  obtain ⟨later, earlier, rfl⟩ := List.append_of_mem hmem
  rw [List.append_assoc, List.cons_append] at ht
  obtain ⟨s₀, t₀, a, s', es₁, es₂, hrun, hstep, hearlier⟩ := h.origin ht
  obtain ⟨b, next, hnext, hes, hstart⟩ :=
    step_of_began (steps_of_step hstep).1 (List.mem_append_right _ List.mem_cons_self)
  obtain ⟨ws₂, ws, hws, -, hrest⟩ := List.map_eq_append_iff.mp hes.symm
  obtain ⟨began, ws₁, rfl, hbegan, rfl⟩ := List.map_eq_cons_iff.mp hrest
  cases hbegan
  -- the pool was closed before this step, which shows what the scheduler does
  have hclosed : .shutdown (.began 1) ∈ t₀ := by
    have hclosed : .shutdown (.began 1) ∈ ws₁.map Event.scheduler ++ t₀ :=
      hearlier ▸ List.mem_append_right _ List.mem_cons_self
    simpa using hclosed
  obtain ⟨hbooted, call, hstopped⟩ := awaited_of_closed hrun hclosed
  obtain ⟨hsince, hresolved⟩ := (inv_machine hrun).stopped call hstopped
  have hnostart := start_not_mem (hstart hbooted) hnext
  have hrests := ((sound_run (run_scheduler hrun)).step hnext).rests
  rw [hws, List.append_assoc] at hrests
  refine hrests.of_append.1 call (List.mem_append_right _ hresolved) (hsince.append fun hmem ↦ hnostart ?_)
  rw [hws]
  exact List.mem_append_right _ (List.mem_cons_of_mem _ hmem)

theorem closed (h : (machine jobs).Run s t) {t₁ t₂ : List Event}
    (ht : t = t₂ ++ .shutdown (.began 1) :: t₁) : Swept t₁ ∧ ∀ run, .scheduler (.began run) ∉ t₂ := by
  have hcloses := (inv_machine h).closes
  rw [ht] at hcloses
  exact ⟨swept_of_live (hcloses.of_append.1 rfl), began_not_mem h ht⟩

/-- After the exit there is nothing. -/
theorem last (h : (machine jobs).Run s t) {t₁ t₂ : List Event} {code : Nat}
    (ht : t = t₂ ++ .shutdown (.exited code) :: t₁) : t₂ = [] := by
  have hfirst := ((Shutdown.inv_machine (run_shutdown h)).last
    ((congrArg _ ht).trans (filterMap_shutdown_cons t₁ t₂ _))).1
  have hgone : ∃ code', s.shutdown = .gone code' := by
    obtain ⟨-, -, hgone, -⟩ := (Shutdown.inv_machine (run_shutdown h)).gone
      (mem_filterMap_shutdown.mpr (ht ▸ List.mem_append_right _ List.mem_cons_self))
    exact ⟨code, hgone⟩
  cases h with
  | init => exact absurd ht (by simp)
  | @step s₀ _ t₀ es a before hstep =>
    obtain ⟨hsteps, hlive⟩ := steps_of_step hstep
    -- the process had not exited before the last step
    have hnone : .shutdown (.exited code) ∉ t₀ := by
      intro hmem
      obtain ⟨-, -, hgone, -⟩ :=
        (Shutdown.inv_machine (run_shutdown before)).gone (mem_filterMap_shutdown.mpr hmem)
      exact hlive code hgone
    rcases List.append_eq_append_iff.mp ht with ⟨l, -, hl⟩ | ⟨l, hes, hl⟩
    · exact absurd (hl ▸ List.mem_append_right _ List.mem_cons_self) hnone
    · cases l with
      | nil =>
        obtain rfl : .shutdown (.exited code) :: t₁ = t₀ := hl
        exact absurd List.mem_cons_self hnone
      | cons event l =>
        obtain ⟨rfl, -⟩ := List.cons.inj hl
        cases hsteps with
        | boot | schedule | resolve =>
          have hmem := hes ▸ List.mem_append_right t₂ List.mem_cons_self
          simp at hmem
        | stop _ hnext hbegan =>
          obtain ⟨hserving, -⟩ | ⟨j, -, -, -, hj, -⟩ := Shutdown.mem_began hnext hbegan
          · rw [hserving] at hnext
            obtain ⟨⟨forceTimer, hdraining⟩, -⟩ := Shutdown.began_of_serving hnext (by decide)
            obtain ⟨code', hgone⟩ := hgone
            cases hdraining.symm.trans hgone
          · cases hj
        | shutDown _ hnext =>
          obtain ⟨es₂, es₁, -, rfl, -⟩ := List.map_eq_append_iff.mp hes
          rw [filterMap_shutdown] at hfirst
          rw [hfirst]
          rfl

/-- The process exits after every sweep has ended, or at the deadline. -/
theorem exited (h : (machine jobs).Run s t) {t₁ t₂ : List Event} {code : Nat}
    (ht : t = t₂ ++ .shutdown (.exited code) :: t₁) :
    t₂ = [] ∧ (∀ a, step jobs s a = none) ∧
      (Swept t₁ ∨ code = 1 ∧ ∃ (signal : String) (now later : Int), .shutdown (.requested signal now) ∈ t ∧
        .shutdown (.fired later) ∈ t ∧ now + 15000 ≤ later) := by
  have hmem : .exited code ∈ t.filterMap shutdown? :=
    mem_filterMap_shutdown.mpr (ht ▸ List.mem_append_right _ List.mem_cons_self)
  have hshutdown := Shutdown.inv_machine (run_shutdown h)
  obtain rfl := last h ht
  have hswept {ok : Bool} (hsettled : .settled 0 ok ∈ t.filterMap shutdown?) : Swept t₁ := by
    obtain ⟨call, hstopped⟩ := (inv_machine h).settled 0 ok hsettled
    have hlive := (inv_machine h).live_eq_nil (sound_run (run_scheduler h)) hstopped
    rw [ht] at hlive
    exact swept_of_live (t := t₁) hlive
  refine ⟨rfl, fun a ↦ ?_, ?_⟩
  · obtain ⟨-, -, hgone, -⟩ := hshutdown.gone hmem
    exact step_of_gone hgone
  by_cases hcode : code = 0
  · subst hcode
    exact .inl (hswept (hshutdown.clean hmem (by decide)))
  · obtain ⟨rfl, ⟨-, hsettled⟩ | ⟨signal, now, t', later, hfirst, hfired, hle⟩⟩ :=
      hshutdown.unclean hmem hcode
    · obtain ⟨ok, hsettled⟩ := hsettled 0 (by decide)
      exact .inl (hswept hsettled)
    · refine .inr ⟨rfl, signal, now, later, ?_, mem_filterMap_shutdown.mp hfired, hle⟩
      exact mem_filterMap_shutdown.mp (hfirst ▸ List.mem_append_right _ List.mem_cons_self)

/-- The shutdown waits for nothing but the sweeps in progress. -/
theorem advances (h : (machine jobs).Run s t) {call : Nat} (hawaited : s.awaited = .stopping call)
    (hpending : s.scheduler.pending = []) (halive : ∀ code, .shutdown (.exited code) ∉ t) :
    ∃ s₁ s₂ es₁ es₂, step jobs s (.resolve call) = some (s₁, es₁) ∧
      step jobs s₁ (.stepped true) = some (s₂, es₂) ∧ .shutdown (.began 1) ∈ es₂ := by
  have hinv := inv_machine h
  have hshutdown := Shutdown.inv_machine (run_shutdown h)
  obtain ⟨hserving, -, refs, hmem⟩ := hinv.stopping call hawaited
  have hbooted : s.booted = true := by
    cases hbooted : s.booted with
    | true => rfl
    | false => exact absurd (hinv.booted hbooted).1 hserving
  have hdraining : ∃ hadError forceTimer, s.shutdown = .draining 0 hadError forceTimer := by
    cases hstate : s.shutdown with
    | serving => exact absurd hstate hserving
    | draining i hadError forceTimer =>
      cases i with
      | zero => exact ⟨hadError, forceTimer, rfl⟩
      | succ i =>
        rw [hstate] at hshutdown
        obtain ⟨ok, hsettled⟩ := Shutdown.exists_settled hshutdown.2.outcomes (Nat.succ_pos i)
        obtain ⟨call', hstopped⟩ := hinv.settled 0 ok hsettled
        cases hawaited.symm.trans hstopped
    | gone code =>
      rw [hstate] at hshutdown
      obtain ⟨-, t₁, ht, -⟩ := hshutdown
      exact absurd (mem_filterMap_shutdown.mp (ht ▸ List.mem_cons_self)) (halive code)
  obtain ⟨hadError, forceTimer, hdraining⟩ := hdraining
  have hsettled (ref : Nat) : s.scheduler.isSettled ref = true := by
    unfold Worker.State.isSettled
    rw [show s.scheduler.running ++ s.scheduler.settling = [] from hpending]
    rfl
  have hresolve : ∃ next, Worker.step jobs s.scheduler (.resolve call) = some next := by
    refine ⟨_, if_pos (List.any_eq_true.mpr ⟨(call, refs), hmem, decide_eq_true ⟨rfl, ?_⟩⟩)⟩
    exact List.all_eq_true.mpr fun ref _ ↦ hsettled ref
  obtain ⟨next, hnext⟩ := hresolve
  have hgone (code : Nat) : s.shutdown ≠ .gone code := by
    rw [hdraining]
    simp
  refine ⟨{ s with scheduler := next.1, awaited := .stopped call },
    { s with
      scheduler := next.1, shutdown := .draining 1 hadError forceTimer, awaited := .stopped call },
    next.2.map .scheduler, [.shutdown (.began 1), .shutdown (.logged "closed scheduler"),
      .shutdown (.settled 0 true)], ?_, ?_, List.mem_cons_self⟩
  · rw [step_of_booted hbooted hgone]
    unfold work schedule
    dsimp only
    rw [hnext, if_pos hawaited]
    rfl
  · rw [step_of_booted (s := { s with scheduler := next.1, awaited := .stopped call }) hbooted hgone]
    unfold work State.canSettle shutDown
    dsimp only
    rw [hdraining]
    have hsettle : Shutdown.step deps (.draining 0 hadError forceTimer) (.settle true) =
        some (.draining 1 hadError forceTimer,
          [.began 1, .logged "closed scheduler", .settled 0 true]) := by
      change some (Shutdown.State.draining 1 (hadError || false) forceTimer, _) = _
      rw [Bool.or_false]
      rfl
    rw [hsettle]
    rfl

/-- The process keeps what it is for, in every run. -/
theorem drained (h : (machine jobs).Run s t) : Drained jobs s t :=
  ⟨closed h, exited h, advances h⟩

/-- A sweep is in progress when the signal comes, and the pool waits for it. -/
def sweepActions : List Action :=
  [.boot 0, .requestShutdown "SIGTERM" 100, .settle 0 200 (.resolved []), .finally 0, .resolve 0,
   .stepped true, .requestShutdown "SIGINT" 300, .stepped true]

theorem drained_sweep : ∃ s t, (machine [createExpirySweepJob 900000 true]).exec sweepActions
    (machine [createExpirySweepJob 900000 true]).init [] = some (s, t) ∧
    Drained [createExpirySweepJob 900000 true] s t ∧ s.shutdown = .gone 0 := by
  obtain ⟨s, t, hexec, hs⟩ : ∃ s t, (machine [createExpirySweepJob 900000 true]).exec sweepActions
      (machine [createExpirySweepJob 900000 true]).init [] = some (s, t) ∧ s.shutdown = .gone 0 :=
    ⟨_, _, rfl, rfl⟩
  exact ⟨s, t, hexec, drained (Machine.run_of_exec hexec), hs⟩

end Properties

end Aesmsg.Worker.Process
