import Aesmsg.Lib.Json
import Aesmsg.Lib.Machine
import Aesmsg.Lib.OrderedMap

/-!
# The scheduler of the worker

`apps/worker/src/scheduler.ts`, between the host's intervals and the jobs.  A run ends at any later time,
or never; the promise that `execute` keeps of it settles in a microtask after that, and an interval does
not tick before the microtasks are done.  Runs, intervals and calls of `stop` are numbered.

## Main results

- `scheduled`: after every order of calls, ticks and ends of runs.
-/

namespace Aesmsg.Worker

structure Job where
  name : String
  intervalMs : Rat
  runOnStart : Bool
deriving DecidableEq

/-- What a call of `run` settles with.  One that throws is rejected at once. -/
inductive Outcome where
  | resolved (detail : List (String × Json))
  | rejected (error : String)

/-- A run of a job and when it started. -/
structure Run where
  ref : Nat
  job : Job
  startedAt : Int
deriving DecidableEq

inductive Level where
  | info
  | error

/-- A line of the log. -/
structure Line where
  level : Level
  fields : List (String × Json)
  message : String

inductive Event where
  | start
  | armed (handle : Nat) (job : Job)
  | began (run : Run)
  | ended (ref : Nat) (outcome : Outcome)
  /-- A call of `stop`. -/
  | stopping (call : Nat)
  /-- The promise of a call of `stop` has resolved. -/
  | stopped (call : Nat)
  | logged (line : Line)

/-- The variables of `createScheduler`, and what the host and the jobs keep. -/
structure State where
  started : Bool
  handles : List Nat
  /-- The promises, by the number of the run. -/
  inFlight : OrderedMap String Nat
  intervals : List (Nat × Job)
  nextHandle : Nat
  /-- The runs in progress. -/
  running : List Run
  /-- The runs that have ended and whose promise has not settled. -/
  settling : List Run
  nextRun : Nat
  /-- The calls of `stop` that have not resolved, with the promises that they wait for. -/
  stops : List (Nat × List Nat)
  nextStop : Nat

def jobField (job : Job) : String × Json := ("job", .string job.name)

def skipped (job : Job) : Line :=
  ⟨.info, [jobField job], "scheduled run skipped: previous run still in flight"⟩

def disabled (job : Job) : Line :=
  ⟨.info, [jobField job], "scheduled job disabled (intervalMs <= 0)"⟩

def duplicate : Line := ⟨.info, [], "scheduler already started; ignoring duplicate start()"⟩

/-- What is logged when a run ends. -/
def Outcome.line (run : Run) (now : Int) : Outcome → Line
  | resolved detail =>
    ⟨.info, jobField run.job :: detail ++ [("durationMs", .int (now - run.startedAt))],
      "scheduled job completed"⟩
  | rejected error => ⟨.error, [jobField run.job, ("error", .string error)], "scheduled job failed"⟩

def execute (s : State) (job : Job) (now : Int) : State × List Event :=
  if s.inFlight.has job.name then (s, [.logged (skipped job)])
  else
    let run : Run := ⟨s.nextRun, job, now⟩
    ({ s with
        inFlight := s.inFlight.set job.name run.ref
        running := run :: s.running
        nextRun := s.nextRun + 1 }, [.began run])

/-- `handles.push(setTimer(..))` -/
def arm (s : State) (job : Job) : State × List Event :=
  ({ s with
      handles := s.handles ++ [s.nextHandle]
      intervals := s.intervals ++ [(s.nextHandle, job)]
      nextHandle := s.nextHandle + 1 }, [.armed s.nextHandle job])

/-- The body of the loop of `start`. -/
def startJob (s : State) (job : Job) (now : Int) : State × List Event :=
  if job.intervalMs ≤ 0 then (s, [.logged (disabled job)])
  else if job.runOnStart then
    let (s, ran) := execute s job now
    let (s, armed) := arm s job
    (s, armed ++ ran)
  else arm s job

def startJobs (now : Int) : State → List Job → State × List Event
  | s, [] => (s, [])
  | s, job :: jobs =>
    let (s, first) := startJob s job now
    let (s, rest) := startJobs now s jobs
    (s, rest ++ first)

def start (jobs : List Job) (s : State) (now : Int) : State × List Event :=
  if s.started then (s, [.logged duplicate, .start])
  else
    let (s, es) := startJobs now { s with started := true } jobs
    (s, es ++ [.start])

/-- `stop` up to its await. -/
def stop (s : State) : State :=
  { s with
    started := false
    handles := []
    intervals := s.intervals.filter (·.1 ∉ s.handles)
    stops := (s.nextStop, s.inFlight.values) :: s.stops
    nextStop := s.nextStop + 1 }

/-- Whether the promise of a run has settled. -/
def State.isSettled (s : State) (ref : Nat) : Bool :=
  !(s.running ++ s.settling).any (·.ref = ref)

inductive Action where
  | start (now : Int)
  | stop
  | tick (handle : Nat) (now : Int)
  /-- A run ends. -/
  | settle (ref : Nat) (now : Int) (outcome : Outcome)
  /-- The callback of `finally`. -/
  | «finally» (ref : Nat)
  /-- `Promise.allSettled` resolves. -/
  | resolve (call : Nat)

def step (jobs : List Job) (s : State) : Action → Option (State × List Event)
  | .start now => some (start jobs s now)
  | .stop => some (stop s, [.stopping s.nextStop])
  | .tick handle now =>
    if s.settling = [] then
      (s.intervals.find? (·.1 = handle)).map fun interval ↦ execute s interval.2 now
    else none
  | .settle ref now outcome =>
    (s.running.find? (·.ref = ref)).map fun run ↦
      ({ s with running := s.running.filter (·.ref ≠ ref), settling := run :: s.settling },
        [.logged (outcome.line run now), .ended ref outcome])
  | .finally ref =>
    (s.settling.find? (·.ref = ref)).map fun run ↦
      ({ s with
          inFlight := s.inFlight.delete run.job.name
          settling := s.settling.filter (·.ref ≠ ref) }, [])
  | .resolve call =>
    if s.stops.any fun stop ↦ stop.1 = call ∧ stop.2.all s.isSettled then
      some ({ s with stops := s.stops.filter (·.1 ≠ call) }, [.stopped call])
    else none

def machine (jobs : List Job) : Machine State Action Event :=
  ⟨⟨false, [], .empty, [], 0, [], [], 0, [], 0⟩, step jobs⟩

/-! ## What the events show -/

/-- The runs in progress, by the events. -/
def live : List Event → List Run
  | [] => []
  | .began run :: t => run :: live t
  | .ended ref _ :: t => (live t).filter (·.ref ≠ ref)
  | .start :: t | .armed .. :: t | .stopping _ :: t | .stopped _ :: t | .logged _ :: t => live t

/-- No run began while one of its name was in progress. -/
def Apart : List Event → Prop
  | [] => True
  | .began run :: t => (∀ other ∈ live t, other.job.name ≠ run.job.name) ∧ Apart t
  | .ended .. :: t | .start :: t | .armed .. :: t | .stopping _ :: t | .stopped _ :: t
  | .logged _ :: t => Apart t

/-- The call of `stop` was made, and no call of `start` after it. -/
def Since (call : Nat) : List Event → Prop
  | [] => False
  | .stopping call' :: t => call' = call ∨ Since call t
  | .start :: _ => False
  | .began _ :: t | .ended .. :: t | .armed .. :: t | .stopped _ :: t | .logged _ :: t => Since call t

/-- `start` was called, and not `stop` after it. -/
def Active : List Event → Prop
  | [] => False
  | .start :: _ => True
  | .stopping _ :: _ => False
  | .began _ :: t | .ended .. :: t | .armed .. :: t | .stopped _ :: t | .logged _ :: t => Active t

/-- No run began once a call of `stop` had resolved, until the next call of `start`. -/
def Rests : List Event → Prop
  | [] => True
  | .began _ :: t => (∀ call, .stopped call ∈ t → ¬Since call t) ∧ Rests t
  | .ended .. :: t | .start :: t | .armed .. :: t | .stopping _ :: t | .stopped _ :: t
  | .logged _ :: t => Rests t

/-- The runs whose promise has not settled. -/
def State.pending (s : State) : List Run := s.running ++ s.settling

structure Inv (s : State) (t : List Event) : Prop where
  live : live t = s.running
  inFlight : ∀ name ref, s.inFlight.get? name = some ref ↔
    ∃ run ∈ s.pending, run.ref = ref ∧ run.job.name = name
  lt : ∀ run ∈ s.pending, run.ref < s.nextRun
  nodup : (s.pending.map Run.ref).Nodup
  apart : Apart t
  rests : Rests t
  stops : ∀ call refs, (call, refs) ∈ s.stops → call < s.nextStop ∧
    (Since call t → ∀ run ∈ s.pending, run.ref ∈ refs)
  stopped : ∀ call, .stopped call ∈ t → call < s.nextStop ∧ (Since call t → s.pending = [])

/-- The intervals, one for each handle. -/
structure Handles (s : State) : Prop where
  handles : s.handles = s.intervals.map Prod.fst
  handles_lt : ∀ handle ∈ s.handles, handle < s.nextHandle
  handles_nodup : s.handles.Nodup

/-- The jobs that have an interval. -/
def enabled (jobs : List Job) : List Job := jobs.filter fun job ↦ ¬job.intervalMs ≤ 0

structure Armed (jobs : List Job) (s : State) (t : List Event) : Prop extends Handles s where
  jobs : s.intervals.map Prod.snd = if s.started then enabled jobs else []
  started : s.started = true ↔ Active t

theorem Active.not_since {t : List Event} (h : Active t) (call : Nat) : ¬Since call t := by
  induction t with
  | nil => exact False.elim h
  | cons event t ih =>
    cases event with
    | start => exact id
    | stopping => exact False.elim h
    | began | ended | armed | stopped | logged => exact ih h

section Steps

variable {jobs : List Job} {s s' : State} {t : List Event} {job : Job} {now : Int}

/-- A line of the log. -/
theorem Inv.logged (h : Inv s t) (line : Line) : Inv s (.logged line :: t) where
  live := h.live
  inFlight := h.inFlight
  lt := h.lt
  nodup := h.nodup
  apart := h.apart
  rests := h.rests
  stops := h.stops
  stopped := fun call hmem ↦ h.stopped call (List.mem_of_ne_of_mem (by simp) hmem)

/-- A run is not in flight iff none of its name is pending. -/
theorem Inv.has_eq_false (h : Inv s t) :
    s.inFlight.has job.name = false ↔ ∀ run ∈ s.pending, run.job.name ≠ job.name := by
  rw [OrderedMap.has_eq_false, Option.eq_none_iff_forall_ne_some]
  constructor
  · intro hnone run hrun hname
    exact hnone run.ref ((h.inFlight _ _).mpr ⟨run, hrun, rfl, hname⟩)
  · intro hne ref href
    obtain ⟨run, hrun, -, hname⟩ := (h.inFlight _ _).mp href
    exact hne run hrun hname

theorem execute_of_pending (h : s.inFlight.has job.name = true) :
    execute s job now = (s, [.logged (skipped job)]) := if_pos h

theorem execute_of_not_pending (h : s.inFlight.has job.name = false) :
    execute s job now = ({ s with
        inFlight := s.inFlight.set job.name s.nextRun
        running := ⟨s.nextRun, job, now⟩ :: s.running
        nextRun := s.nextRun + 1 }, [.began ⟨s.nextRun, job, now⟩]) := by
  unfold execute
  rw [h]
  rfl

theorem Inv.execute (h : Inv s t) (awake : ∀ call, ¬Since call t) :
    Inv (execute s job now).1 ((execute s job now).2 ++ t) := by
  cases hhas : s.inFlight.has job.name with
  | true =>
    rw [execute_of_pending hhas]
    exact h.logged _
  | false =>
    rw [execute_of_not_pending hhas]
    show Inv _ (.began ⟨s.nextRun, job, now⟩ :: t)
    have hfree := h.has_eq_false.mp hhas
    constructor
    · exact congrArg _ h.live
    · intro name ref
      change (s.inFlight.set job.name s.nextRun).get? name = some ref ↔
        ∃ run ∈ (⟨s.nextRun, job, now⟩ :: s.pending : List Run), run.ref = ref ∧ run.job.name = name
      rw [OrderedMap.get?_set, List.exists_mem_cons_iff]
      split
      · rename_i hname
        subst hname
        constructor
        · intro href
          exact .inl ⟨Option.some.inj href, rfl⟩
        · rintro (⟨href, -⟩ | ⟨run, hrun, -, hname⟩)
          · exact congrArg some href
          · exact absurd hname (hfree run hrun)
      · rename_i hname
        rw [h.inFlight]
        constructor
        · exact .inr
        · rintro (⟨-, heq⟩ | hold)
          · exact absurd heq.symm hname
          · exact hold
    · intro run hrun
      rcases List.mem_cons.mp hrun with rfl | hrun
      · exact Nat.lt_succ_self _
      · exact Nat.lt_succ_of_lt (h.lt run hrun)
    · refine List.nodup_cons.mpr ⟨fun hmem ↦ ?_, h.nodup⟩
      obtain ⟨run, hrun, href⟩ := List.mem_map.mp hmem
      exact Nat.lt_irrefl _ (href ▸ h.lt run hrun)
    · refine ⟨fun run hrun ↦ hfree run ?_, h.apart⟩
      exact List.mem_append_left _ (h.live ▸ hrun)
    · exact ⟨fun call _ ↦ awake call, h.rests⟩
    · intro call refs hmem
      exact ⟨(h.stops call refs hmem).1, fun hsince ↦ absurd hsince (awake call)⟩
    · intro call hmem
      exact ⟨(h.stopped call (List.mem_of_ne_of_mem (by simp) hmem)).1,
        fun hsince ↦ absurd hsince (awake call)⟩

theorem Inv.arm (h : Inv s t) (job : Job) : Inv (arm s job).1 ((arm s job).2 ++ t) where
  live := h.live
  inFlight := h.inFlight
  lt := h.lt
  nodup := h.nodup
  apart := h.apart
  rests := h.rests
  stops := h.stops
  stopped := fun call hmem ↦ h.stopped call (List.mem_of_ne_of_mem (by simp) hmem)

theorem Handles.arm (h : Handles s) (job : Job) : Handles (arm s job).1 where
  handles := by
    change s.handles ++ [s.nextHandle] = (s.intervals ++ [(s.nextHandle, job)]).map Prod.fst
    rw [List.map_append, h.handles]
    rfl
  handles_lt := by
    intro handle hmem
    rcases List.mem_append.mp hmem with hmem | hmem
    · exact Nat.lt_succ_of_lt (h.handles_lt handle hmem)
    · rw [List.mem_singleton.mp hmem]
      exact Nat.lt_succ_self _
  handles_nodup := by
    refine List.nodup_append.mpr ⟨h.handles_nodup, List.nodup_singleton _, ?_⟩
    rintro handle hmem _ hnew rfl
    rw [List.mem_singleton.mp hnew] at hmem
    exact Nat.lt_irrefl _ (h.handles_lt _ hmem)

/-- What the loop of `start` keeps, between the call and its end. -/
structure Starting (s : State) (t : List Event) : Prop extends Inv s t, Handles s where
  active : Active t

theorem Starting.execute (h : Starting s t) (job : Job) (now : Int) :
    Starting (execute s job now).1 ((execute s job now).2 ++ t) := by
  have hinv : Inv (Worker.execute s job now).1 ((Worker.execute s job now).2 ++ t) :=
    h.toInv.execute h.active.not_since
  cases hhas : s.inFlight.has job.name with
  | true =>
    rw [execute_of_pending hhas] at hinv ⊢
    exact ⟨hinv, h.toHandles, h.active⟩
  | false =>
    rw [execute_of_not_pending hhas] at hinv ⊢
    exact ⟨hinv, ⟨h.handles, h.handles_lt, h.handles_nodup⟩, h.active⟩

theorem Starting.arm (h : Starting s t) (job : Job) : Starting (arm s job).1 ((arm s job).2 ++ t) :=
  ⟨h.toInv.arm job, h.toHandles.arm job, h.active⟩

theorem enabled_cons (job : Job) (jobs : List Job) :
    enabled (job :: jobs) = enabled [job] ++ enabled jobs := List.filter_append [job] jobs

theorem intervals_execute (s : State) (job : Job) (now : Int) :
    (execute s job now).1.intervals = s.intervals ∧ (execute s job now).1.started = s.started := by
  unfold execute
  split
  · exact ⟨rfl, rfl⟩
  · exact ⟨rfl, rfl⟩

/-- The jobs with an interval and the flag, after one job of the loop. -/
theorem startJob_eq (s : State) (job : Job) (now : Int) :
    (startJob s job now).1.intervals.map Prod.snd = s.intervals.map Prod.snd ++ enabled [job] ∧
      (startJob s job now).1.started = s.started := by
  unfold startJob
  split
  · rename_i hdisabled
    have hnone : enabled [job] = [] := List.filter_cons_of_neg (by simpa using hdisabled)
    rw [hnone, List.append_nil]
    exact ⟨rfl, rfl⟩
  · rename_i henabled
    have hone : enabled [job] = [job] := List.filter_cons_of_pos (by simpa using henabled)
    rw [hone]
    split
    · obtain ⟨hintervals, hstarted⟩ := intervals_execute s job now
      dsimp only [Worker.arm]
      rw [hintervals, hstarted, List.map_append]
      exact ⟨rfl, rfl⟩
    · dsimp only [Worker.arm]
      rw [List.map_append]
      exact ⟨rfl, rfl⟩

theorem Starting.startJob (h : Starting s t) (job : Job) (now : Int) :
    Starting (startJob s job now).1 ((startJob s job now).2 ++ t) := by
  unfold Worker.startJob
  split
  · exact ⟨h.toInv.logged _, h.toHandles, h.active⟩
  · split
    · dsimp only
      rw [List.append_assoc]
      exact (h.execute job now).arm job
    · exact h.arm job

theorem Starting.startJobs (h : Starting s t) (jobs : List Job) (now : Int) :
    Starting (startJobs now s jobs).1 ((startJobs now s jobs).2 ++ t) ∧
      (startJobs now s jobs).1.intervals.map Prod.snd = s.intervals.map Prod.snd ++ enabled jobs ∧
      (startJobs now s jobs).1.started = s.started := by
  induction jobs generalizing s t with
  | nil => exact ⟨h, (List.append_nil _).symm, rfl⟩
  | cons job jobs ih =>
    obtain ⟨hrest, hjobs, hstarted⟩ := ih (h.startJob job now)
    obtain ⟨hjob, hstarted'⟩ := startJob_eq s job now
    unfold Worker.startJobs
    dsimp only
    rw [List.append_assoc, hjobs, hstarted, hjob, hstarted', List.append_assoc]
    exact ⟨hrest, congrArg _ (enabled_cons job jobs).symm, rfl⟩

/-- The invariant of the machine. -/
structure Sound (jobs : List Job) (s : State) (t : List Event) : Prop extends Inv s t, Armed jobs s t

theorem Inv.start (h : Inv s t) : Inv s (.start :: t) where
  live := h.live
  inFlight := h.inFlight
  lt := h.lt
  nodup := h.nodup
  apart := h.apart
  rests := h.rests
  stops := fun call refs hmem ↦ ⟨(h.stops call refs hmem).1, False.elim⟩
  stopped := fun call hmem ↦ ⟨(h.stopped call (List.mem_of_ne_of_mem (by simp) hmem)).1, False.elim⟩

theorem start_of_started (h : s.started = true) :
    start jobs s now = (s, [.logged duplicate, .start]) := if_pos h

theorem start_of_stopped (h : s.started = false) :
    start jobs s now = ((startJobs now { s with started := true } jobs).1,
      (startJobs now { s with started := true } jobs).2 ++ [.start]) := by
  unfold start
  rw [h]
  rfl

theorem Sound.start (h : Sound jobs s t) (now : Int) :
    Sound jobs (start jobs s now).1 ((start jobs s now).2 ++ t) := by
  cases hstarted : s.started with
  | true =>
    rw [start_of_started hstarted]
    exact ⟨h.toInv.start.logged _, h.toHandles, h.jobs, fun _ ↦ trivial, fun _ ↦ hstarted⟩
  | false =>
    rw [start_of_stopped hstarted, List.append_assoc]
    have hinv : Inv { s with started := true } (.start :: t) :=
      let h := h.toInv.start
      ⟨h.live, h.inFlight, h.lt, h.nodup, h.apart, h.rests, h.stops, h.stopped⟩
    have hstarting : Starting { s with started := true } (.start :: t) :=
      ⟨hinv, ⟨h.handles, h.handles_lt, h.handles_nodup⟩, trivial⟩
    obtain ⟨hloop, hjobs, htrue⟩ := hstarting.startJobs jobs now
    refine ⟨hloop.toInv, hloop.toHandles, ?_, fun _ ↦ hloop.active, fun _ ↦ htrue⟩
    rw [hjobs, htrue]
    change s.intervals.map Prod.snd ++ enabled jobs = enabled jobs
    rw [h.jobs, hstarted]
    rfl

/-! ## Steps -/

/-- The interval that ticks. -/
theorem tick_eq_some {handle : Nat} {es : List Event}
    (h : step jobs s (.tick handle now) = some (s', es)) :
    ∃ interval ∈ s.intervals, execute s interval.2 now = (s', es) := by
  unfold step at h
  dsimp only at h
  split at h
  · obtain ⟨interval, hfind, heq⟩ := Option.map_eq_some_iff.mp h
    exact ⟨interval, List.mem_of_find?_eq_some hfind, heq⟩
  · cases h

/-- There are intervals only between a call of `start` and the next call of `stop`. -/
theorem Sound.active (h : Sound jobs s t) {interval : Nat × Job} (hmem : interval ∈ s.intervals) :
    Active t := by
  have hjobs := h.jobs
  cases hstarted : s.started with
  | true => exact h.started.mp hstarted
  | false =>
    rw [hstarted] at hjobs
    rw [List.map_eq_nil_iff.mp hjobs] at hmem
    cases hmem

theorem Sound.tick (h : Sound jobs s t) {interval : Nat × Job} (hmem : interval ∈ s.intervals) (now : Int) :
    Sound jobs (execute s interval.2 now).1 ((execute s interval.2 now).2 ++ t) := by
  have hstarting : Starting s t := ⟨h.toInv, h.toHandles, h.active hmem⟩
  have hnext := hstarting.execute interval.2 now
  obtain ⟨hintervals, hstarted⟩ := intervals_execute s interval.2 now
  refine ⟨hnext.toInv, hnext.toHandles, ?_, ?_⟩
  · rw [hintervals, hstarted]
    exact h.jobs
  · rw [hstarted]
    exact ⟨fun _ ↦ hnext.active, fun _ ↦ h.started.mpr hstarting.active⟩

/-- A call of `stop` clears every interval. -/
theorem Handles.cleared (h : Handles s) : s.intervals.filter (·.1 ∉ s.handles) = [] := by
  refine List.filter_eq_nil_iff.mpr fun interval hmem ↦ ?_
  rw [decide_eq_true_iff, not_not, h.handles]
  exact List.mem_map_of_mem hmem

theorem Sound.stop (h : Sound jobs s t) : Sound jobs (stop s) (.stopping s.nextStop :: t) where
  live := h.live
  inFlight := h.inFlight
  lt := h.lt
  nodup := h.nodup
  apart := h.apart
  rests := h.rests
  stops := by
    intro call refs hmem
    rcases List.mem_cons.mp hmem with heq | hmem
    · cases heq
      refine ⟨Nat.lt_succ_self _, fun _ run hrun ↦ ?_⟩
      exact OrderedMap.mem_values.mpr ⟨_, (h.inFlight _ _).mpr ⟨run, hrun, rfl, rfl⟩⟩
    · obtain ⟨hlt, hrefs⟩ := h.stops call refs hmem
      refine ⟨Nat.lt_succ_of_lt hlt, fun hsince ↦ hrefs ?_⟩
      exact hsince.resolve_left fun heq ↦ Nat.ne_of_lt hlt heq.symm
  stopped := by
    intro call hmem
    obtain ⟨hlt, hnone⟩ := h.stopped call (List.mem_of_ne_of_mem (by simp) hmem)
    refine ⟨Nat.lt_succ_of_lt hlt, fun hsince ↦ hnone ?_⟩
    exact hsince.resolve_left fun heq ↦ Nat.ne_of_lt hlt heq.symm
  handles := by
    change [] = (s.intervals.filter (·.1 ∉ s.handles)).map Prod.fst
    rw [h.toHandles.cleared]
    rfl
  handles_lt := by
    intro handle hmem
    cases hmem
  handles_nodup := List.nodup_nil
  jobs := by
    change (s.intervals.filter (·.1 ∉ s.handles)).map Prod.snd = []
    rw [h.toHandles.cleared]
    rfl
  started := ⟨fun htrue ↦ Bool.noConfusion htrue, False.elim⟩

/-- The run with a number, and the others. -/
theorem perm_cons_filter {runs : List Run} {run : Run} (hnodup : (runs.map Run.ref).Nodup)
    (hmem : run ∈ runs) : runs.Perm (run :: runs.filter (·.ref ≠ run.ref)) := by
  induction runs with
  | nil => cases hmem
  | cons first rest ih =>
    obtain ⟨hfirst, hrest⟩ := List.nodup_cons.mp hnodup
    rcases List.mem_cons.mp hmem with rfl | hmem
    · have hothers : rest.filter (·.ref ≠ run.ref) = rest := by
        refine List.filter_eq_self.mpr fun other hother ↦ decide_eq_true fun heq ↦ hfirst ?_
        exact heq ▸ List.mem_map_of_mem hother
      rw [List.filter_cons_of_neg (by simp), hothers]
    · have hne : first.ref ≠ run.ref := fun heq ↦ hfirst (heq ▸ List.mem_map_of_mem hmem)
      rw [List.filter_cons_of_pos (by simpa using hne)]
      exact ((ih hrest hmem).cons first).trans (.swap run first _)

theorem Inv.nodup_append (h : Inv s t) : (s.running.map Run.ref ++ s.settling.map Run.ref).Nodup :=
  List.map_append ▸ h.nodup

/-- The pending runs, once a run has ended. -/
theorem Inv.perm_settle (h : Inv s t) {run : Run} (hmem : run ∈ s.running) :
    s.pending.Perm (s.running.filter (·.ref ≠ run.ref) ++ run :: s.settling) :=
  ((perm_cons_filter h.nodup_append.of_append_left hmem).append_right s.settling).trans
    List.perm_middle.symm

/-- The pending runs, once the promise of a run has settled. -/
theorem Inv.perm_finally (h : Inv s t) {run : Run} (hmem : run ∈ s.settling) :
    s.pending.Perm (run :: (s.running ++ s.settling.filter (·.ref ≠ run.ref))) :=
  ((perm_cons_filter h.nodup_append.of_append_right hmem).append_left s.running).trans List.perm_middle

/-- Two pending runs have different names. -/
theorem Inv.ref_eq_of_name_eq (h : Inv s t) {run other : Run} (hrun : run ∈ s.pending)
    (hother : other ∈ s.pending) (hname : other.job.name = run.job.name) : other.ref = run.ref := by
  have href := (h.inFlight run.job.name run.ref).mpr ⟨run, hrun, rfl, rfl⟩
  have href' := (h.inFlight run.job.name other.ref).mpr ⟨other, hother, rfl, hname⟩
  exact Option.some.inj (href'.symm.trans href)

theorem Inv.name_ne (h : Inv s t) {run : Run} {others : List Run} (hperm : s.pending.Perm (run :: others))
    {other : Run} (hmem : other ∈ others) : other.job.name ≠ run.job.name := by
  intro hname
  have hnodup := (hperm.map Run.ref).nodup_iff.mp h.nodup
  have hrun := hperm.mem_iff.mpr List.mem_cons_self
  have href := h.ref_eq_of_name_eq hrun (hperm.mem_iff.mpr (List.mem_cons_of_mem _ hmem)) hname
  exact (List.nodup_cons.mp hnodup).1 (List.mem_map.mpr ⟨other, hmem, href⟩)

/-- A run ends. -/
theorem settle_eq_some {ref : Nat} {outcome : Outcome} {es : List Event}
    (h : step jobs s (.settle ref now outcome) = some (s', es)) :
    ∃ run ∈ s.running, run.ref = ref ∧ es = [.logged (outcome.line run now), .ended ref outcome] ∧
      s' = { s with running := s.running.filter (·.ref ≠ ref), settling := run :: s.settling } := by
  obtain ⟨run, hfind, heq⟩ := Option.map_eq_some_iff.mp h
  have hfound := List.find?_some hfind
  cases heq
  exact ⟨run, List.mem_of_find?_eq_some hfind, of_decide_eq_true hfound, rfl, rfl⟩

theorem Sound.settle (h : Sound jobs s t) {run : Run} (hmem : run ∈ s.running) (outcome : Outcome)
    (line : Line) :
    Sound jobs { s with running := s.running.filter (·.ref ≠ run.ref), settling := run :: s.settling }
      (.logged line :: .ended run.ref outcome :: t) := by
  have hperm := h.perm_settle hmem
  have hold {call : Nat} (hstopped : .stopped call ∈ Event.logged line :: .ended run.ref outcome :: t) :
      .stopped call ∈ t :=
    List.mem_of_ne_of_mem (by simp) (List.mem_of_ne_of_mem (by simp) hstopped)
  refine ⟨⟨?_, ?_, ?_, ?_, h.apart, h.rests, ?_, ?_⟩,
    ⟨h.handles, h.handles_lt, h.handles_nodup⟩, h.jobs, h.started⟩
  · exact congrArg (List.filter (·.ref ≠ run.ref)) h.live
  · intro name ref
    rw [h.inFlight]
    exact exists_congr fun other ↦ and_congr_left' hperm.mem_iff
  · exact fun other hother ↦ h.lt other (hperm.mem_iff.mpr hother)
  · exact (hperm.map Run.ref).nodup_iff.mp h.nodup
  · intro call refs hstop
    obtain ⟨hlt, hrefs⟩ := h.stops call refs hstop
    exact ⟨hlt, fun hsince other hother ↦ hrefs hsince other (hperm.mem_iff.mpr hother)⟩
  · intro call hstopped
    obtain ⟨hlt, hnone⟩ := h.stopped call (hold hstopped)
    refine ⟨hlt, fun hsince ↦ ?_⟩
    have hpending := hnone hsince
    rw [hpending] at hperm
    exact hperm.nil_eq.symm

/-- The callback of `finally` runs. -/
theorem finally_eq_some {ref : Nat} {es : List Event} (h : step jobs s (.finally ref) = some (s', es)) :
    ∃ run ∈ s.settling, run.ref = ref ∧ es = [] ∧ s' = { s with
      inFlight := s.inFlight.delete run.job.name, settling := s.settling.filter (·.ref ≠ ref) } := by
  obtain ⟨run, hfind, heq⟩ := Option.map_eq_some_iff.mp h
  have hfound := List.find?_some hfind
  cases heq
  exact ⟨run, List.mem_of_find?_eq_some hfind, of_decide_eq_true hfound, rfl, rfl⟩

theorem Sound.finally (h : Sound jobs s t) {run : Run} (hmem : run ∈ s.settling) :
    Sound jobs { s with
      inFlight := s.inFlight.delete run.job.name
      settling := s.settling.filter (·.ref ≠ run.ref) } t := by
  have hperm := h.perm_finally hmem
  have hsub {other : Run} (hother : other ∈ s.running ++ s.settling.filter (·.ref ≠ run.ref)) :
      other ∈ s.pending := hperm.mem_iff.mpr (List.mem_cons_of_mem _ hother)
  have hnodup := (hperm.map Run.ref).nodup_iff.mp h.nodup
  have hrun : run ∈ s.pending := List.mem_append_right _ hmem
  refine ⟨⟨h.live, ?_, ?_, hnodup.of_cons, h.apart, h.rests, ?_, ?_⟩,
    ⟨h.handles, h.handles_lt, h.handles_nodup⟩, h.jobs, h.started⟩
  · intro name ref
    change (s.inFlight.delete run.job.name).get? name = some ref ↔
      ∃ other ∈ s.running ++ s.settling.filter (·.ref ≠ run.ref), other.ref = ref ∧ other.job.name = name
    rw [OrderedMap.get?_delete]
    split
    · rename_i hname
      subst hname
      constructor
      · intro href
        cases href
      · rintro ⟨other, hother, -, hname⟩
        exact absurd hname (h.name_ne hperm hother)
    · rename_i hname
      rw [h.inFlight]
      constructor
      · rintro ⟨other, hother, href, hname'⟩
        refine ⟨other, (List.mem_cons.mp (hperm.mem_iff.mp hother)).resolve_left ?_, href, hname'⟩
        rintro rfl
        exact hname hname'.symm
      · rintro ⟨other, hother, href, hname'⟩
        exact ⟨other, hsub hother, href, hname'⟩
  · exact fun other hother ↦ h.lt other (hsub hother)
  · intro call refs hstop
    obtain ⟨hlt, hrefs⟩ := h.stops call refs hstop
    exact ⟨hlt, fun hsince other hother ↦ hrefs hsince other (hsub hother)⟩
  · intro call hstopped
    obtain ⟨hlt, hnone⟩ := h.stopped call hstopped
    refine ⟨hlt, fun hsince ↦ ?_⟩
    rw [hnone hsince] at hrun
    cases hrun

theorem resolve_eq_some {call : Nat} {es : List Event} (h : step jobs s (.resolve call) = some (s', es)) :
    (∃ refs, (call, refs) ∈ s.stops ∧ ∀ ref ∈ refs, s.isSettled ref = true) ∧ es = [.stopped call] ∧
      s' = { s with stops := s.stops.filter (·.1 ≠ call) } := by
  unfold step at h
  dsimp only at h
  split at h
  · rename_i hany
    cases h
    obtain ⟨⟨call', refs⟩, hmem, hsettled⟩ := List.any_eq_true.mp hany
    obtain ⟨rfl, hall⟩ := of_decide_eq_true hsettled
    exact ⟨⟨refs, hmem, List.all_eq_true.mp hall⟩, rfl, rfl⟩
  · cases h

theorem not_isSettled {run : Run} (h : run ∈ s.pending) : s.isSettled run.ref = false := by
  unfold State.isSettled
  rw [Bool.not_eq_false']
  exact List.any_eq_true.mpr ⟨run, h, decide_eq_true rfl⟩

theorem Sound.resolve (h : Sound jobs s t) {call : Nat} {refs : List Nat} (hmem : (call, refs) ∈ s.stops)
    (hsettled : ∀ ref ∈ refs, s.isSettled ref = true) :
    Sound jobs { s with stops := s.stops.filter (·.1 ≠ call) } (.stopped call :: t) := by
  refine ⟨⟨h.live, h.inFlight, h.lt, h.nodup, h.apart, h.rests, ?_, ?_⟩,
    ⟨h.handles, h.handles_lt, h.handles_nodup⟩, h.jobs, h.started⟩
  · exact fun call' refs' hstop ↦ h.stops call' refs' (List.mem_of_mem_filter hstop)
  · intro call' hstopped
    rcases List.mem_cons.mp hstopped with heq | hstopped
    · cases heq
      obtain ⟨hlt, hrefs⟩ := h.stops call refs hmem
      refine ⟨hlt, fun hsince ↦ List.eq_nil_iff_forall_not_mem.mpr fun run hrun ↦ ?_⟩
      have htrue := hsettled run.ref (hrefs hsince run hrun)
      exact Bool.noConfusion (htrue.symm.trans (not_isSettled hrun))
    · exact h.stopped call' hstopped

theorem Sound.step {a : Action} {es : List Event} (h : Sound jobs s t)
    (hstep : step jobs s a = some (s', es)) : Sound jobs s' (es ++ t) := by
  cases a with
  | start now =>
    have hnext := h.start now
    rw [Option.some.inj hstep] at hnext
    exact hnext
  | stop =>
    cases hstep
    exact h.stop
  | tick handle now =>
    obtain ⟨interval, hmem, hexecute⟩ := tick_eq_some hstep
    have hnext := h.tick hmem now
    rw [hexecute] at hnext
    exact hnext
  | settle ref now outcome =>
    obtain ⟨run, hmem, rfl, rfl, rfl⟩ := settle_eq_some hstep
    exact h.settle hmem outcome _
  | «finally» ref =>
    obtain ⟨run, hmem, rfl, rfl, rfl⟩ := finally_eq_some hstep
    exact h.finally hmem
  | resolve call =>
    obtain ⟨⟨refs, hmem, hsettled⟩, rfl, rfl⟩ := resolve_eq_some hstep
    exact h.resolve hmem hsettled

end Steps

theorem sound_run {jobs : List Job} {s : State} {t : List Event} (h : (machine jobs).Run s t) :
    Sound jobs s t := by
  refine h.invariant ?_ Sound.step
  have hempty (name : String) (ref : Nat) : (machine jobs).init.inFlight.get? name ≠ some ref :=
    fun hget ↦ nomatch hget
  constructor
  · constructor
    · rfl
    · intro name ref
      constructor
      · exact fun hget ↦ absurd hget (hempty name ref)
      · rintro ⟨run, hrun, -⟩
        cases hrun
    · intro run hrun
      cases hrun
    · exact List.nodup_nil
    · trivial
    · trivial
    · intro call refs hmem
      cases hmem
    · intro call hmem
      cases hmem
  · refine ⟨⟨rfl, fun handle hmem ↦ ?_, List.nodup_nil⟩, rfl, fun htrue ↦ ?_, False.elim⟩
    · cases hmem
    · cases htrue

/-! ## The properties of the scheduler -/

section Traces

variable {t : List Event} {run : Run} {call : Nat}

/-- A run that began and has not ended is in progress. -/
theorem mem_live {t' : List Event} (h : ∀ outcome, .ended run.ref outcome ∉ t') :
    run ∈ live (t' ++ .began run :: t) := by
  induction t' with
  | nil => exact List.mem_cons_self
  | cons event t' ih =>
    have hmem := ih fun outcome hmem ↦ h outcome (List.mem_cons_of_mem _ hmem)
    cases event with
    | began => exact List.mem_cons_of_mem _ hmem
    | ended ref outcome =>
      refine List.mem_filter.mpr ⟨hmem, decide_eq_true ?_⟩
      rintro rfl
      exact h outcome List.mem_cons_self
    | start | armed | stopping | stopped | logged => exact hmem

theorem Apart.of_append {t' : List Event} (h : Apart (t' ++ t)) : Apart t := by
  induction t' with
  | nil => exact h
  | cons event t' ih =>
    cases event with
    | began => exact ih h.2
    | ended | start | armed | stopping | stopped | logged => exact ih h

theorem Rests.of_append {t' : List Event} (h : Rests (t' ++ t)) : Rests t := by
  induction t' with
  | nil => exact h
  | cons event t' ih =>
    cases event with
    | began => exact ih h.2
    | ended | start | armed | stopping | stopped | logged => exact ih h

theorem Since.append {t' : List Event} (h : Since call t) (hstart : .start ∉ t') : Since call (t' ++ t) := by
  induction t' with
  | nil => exact h
  | cons event t' ih =>
    have hsince := ih fun hmem ↦ hstart (List.mem_cons_of_mem _ hmem)
    cases event with
    | start => exact absurd List.mem_cons_self hstart
    | stopping => exact .inr hsince
    | began | ended | armed | stopped | logged => exact hsince

theorem Active.append {t' : List Event} (h : Active t) (hstop : ∀ call, .stopping call ∉ t') :
    Active (t' ++ t) := by
  induction t' with
  | nil => exact h
  | cons event t' ih =>
    have hactive := ih fun call hmem ↦ hstop call (List.mem_cons_of_mem _ hmem)
    cases event with
    | start => trivial
    | stopping call => exact absurd List.mem_cons_self (hstop call)
    | began | ended | armed | stopped | logged => exact hactive

end Traces

/-- What holds of the scheduler of some jobs, in a state and after some events. -/
structure Scheduled (jobs : List Job) (s : State) (t : List Event) : Prop where
  /-- A run has ended before the next one of its job begins. -/
  disjoint : ∀ {t₁ t₂ t₃ run run'}, t = t₃ ++ .began run' :: (t₂ ++ .began run :: t₁) →
    run'.job.name = run.job.name → ∃ outcome, .ended run.ref outcome ∈ t₂
  /-- No two runs in progress are of the same job. -/
  names : (s.running.map (·.job.name)).Nodup
  /-- A run that fails leaves what a run that succeeds leaves. -/
  failed : ∀ ref now error detail, (step jobs s (.settle ref now (.rejected error))).map Prod.fst =
    (step jobs s (.settle ref now (.resolved detail))).map Prod.fst
  /-- A run can end with any outcome.  Then its promise settles, and no run of its job is left. -/
  recovers : ∀ run ∈ s.running, ∀ now outcome, ∃ s₁ s₂ line,
    step jobs s (.settle run.ref now outcome) = some (s₁, [.logged line, .ended run.ref outcome]) ∧
      step jobs s₁ (.finally run.ref) = some (s₂, []) ∧ s₂.intervals = s.intervals ∧
      s.pending.Perm (run :: s₂.pending) ∧ ∀ other ∈ s₂.pending, other.job.name ≠ run.job.name
  /-- An interval begins a run of its job unless one is in progress. -/
  ticks : ∀ handle job now, (handle, job) ∈ s.intervals → s.settling = [] →
    if ∃ run ∈ s.running, run.job.name = job.name then
      step jobs s (.tick handle now) = some (s, [.logged (skipped job)])
    else ∃ s', step jobs s (.tick handle now) = some (s', [.began ⟨s.nextRun, job, now⟩])
  /-- After a call of `stop` has resolved, and no call of `start` since it was made. -/
  stopped : ∀ {t₁ t₂ t₃ call}, t = t₃ ++ .stopped call :: (t₂ ++ .stopping call :: t₁) →
    .start ∉ t₂ → .start ∉ t₃ → s.running = [] ∧ ∀ run, .began run ∉ t₃
  /-- Between a call of `start` and the next call of `stop` each enabled job has one interval, and
  another call of `start` changes nothing. -/
  armed : ∀ {t₁ t₂}, t = t₂ ++ .start :: t₁ → (∀ call, .stopping call ∉ t₂) →
    s.intervals.map Prod.snd = enabled jobs ∧ (s.intervals.map Prod.fst).Nodup ∧
      ∀ now, step jobs s (.start now) = some (s, [.logged duplicate, .start])

section Properties

variable {jobs : List Job} {s : State} {t : List Event}

theorem Inv.disjoint (h : Inv s t) {t₁ t₂ t₃ : List Event} {run run' : Run}
    (ht : t = t₃ ++ .began run' :: (t₂ ++ .began run :: t₁)) (hname : run'.job.name = run.job.name) :
    ∃ outcome, .ended run.ref outcome ∈ t₂ := by
  by_contra hnone
  have hlive : run ∈ Worker.live (t₂ ++ .began run :: t₁) := mem_live (not_exists.mp hnone)
  have hapart := h.apart
  rw [ht] at hapart
  exact hapart.of_append.1 run hlive hname.symm

theorem Inv.names (h : Inv s t) : (s.running.map (·.job.name)).Nodup := by
  have hmem {run : Run} (hrun : run ∈ s.running) : run ∈ s.pending := List.mem_append_left _ hrun
  refine List.Nodup.map_on (fun run hrun other hother hname ↦ ?_) h.nodup_append.of_append_left.of_map
  have href := h.ref_eq_of_name_eq (hmem hother) (hmem hrun) hname
  exact List.inj_on_of_nodup_map h.nodup (hmem hrun) (hmem hother) href

theorem failed_eq (ref : Nat) (now : Int) (error : String) (detail : List (String × Json)) :
    (step jobs s (.settle ref now (.rejected error))).map Prod.fst =
      (step jobs s (.settle ref now (.resolved detail))).map Prod.fst := by
  unfold step
  dsimp only
  rw [Option.map_map, Option.map_map]
  rfl

/-- What is found by its number. -/
theorem find_eq_some {α : Type} {l : List α} {f : α → Nat} {a : α} (hnodup : (l.map f).Nodup)
    (hmem : a ∈ l) : l.find? (f · = f a) = some a := by
  have hsome : (l.find? (f · = f a)).isSome := List.find?_isSome.mpr ⟨a, hmem, decide_eq_true rfl⟩
  obtain ⟨found, hfind⟩ := Option.isSome_iff_exists.mp hsome
  have heq := List.find?_some hfind
  rw [hfind, List.inj_on_of_nodup_map hnodup (List.mem_of_find?_eq_some hfind) hmem
    (of_decide_eq_true heq)]

theorem Inv.recovers (h : Inv s t) {run : Run} (hmem : run ∈ s.running) (now : Int) (outcome : Outcome) :
    ∃ s₁ s₂ line,
      step jobs s (.settle run.ref now outcome) = some (s₁, [.logged line, .ended run.ref outcome]) ∧
        step jobs s₁ (.finally run.ref) = some (s₂, []) ∧ s₂.intervals = s.intervals ∧
        s.pending.Perm (run :: s₂.pending) ∧ ∀ other ∈ s₂.pending, other.job.name ≠ run.job.name := by
  have hfind := find_eq_some h.nodup_append.of_append_left hmem
  have hfirst : (run :: s.settling).find? (·.ref = run.ref) = some run :=
    List.find?_cons_of_pos (decide_eq_true rfl)
  have hsettling : (run :: s.settling).filter (·.ref ≠ run.ref) = s.settling := by
    rw [List.filter_cons_of_neg (by simp)]
    refine List.filter_eq_self.mpr fun other hother ↦ decide_eq_true fun href ↦ ?_
    exact List.disjoint_of_nodup_append h.nodup_append (List.mem_map_of_mem hmem)
      (List.mem_map.mpr ⟨other, hother, href⟩)
  have hperm := (h.perm_settle hmem).trans List.perm_middle
  refine ⟨{ s with running := s.running.filter (·.ref ≠ run.ref), settling := run :: s.settling },
    { s with
      running := s.running.filter (·.ref ≠ run.ref)
      inFlight := s.inFlight.delete run.job.name }, outcome.line run now, ?_, ?_, rfl, hperm,
    fun other hother ↦ h.name_ne hperm hother⟩
  · unfold step
    dsimp only
    rw [hfind]
    rfl
  · unfold step
    dsimp only
    rw [hfirst, Option.map_some, hsettling]

theorem Sound.ticks (h : Sound jobs s t) {handle : Nat} {job : Job} (now : Int)
    (hmem : (handle, job) ∈ s.intervals) (hsettling : s.settling = []) :
    if ∃ run ∈ s.running, run.job.name = job.name then
      Worker.step jobs s (.tick handle now) = some (s, [.logged (skipped job)])
    else ∃ s', Worker.step jobs s (.tick handle now) = some (s', [.began ⟨s.nextRun, job, now⟩]) := by
  have hfind : s.intervals.find? (·.1 = handle) = some (handle, job) :=
    find_eq_some (f := Prod.fst) (h.handles ▸ h.handles_nodup) hmem
  have htick : Worker.step jobs s (.tick handle now) = some (execute s job now) := by
    unfold Worker.step
    dsimp only
    rw [if_pos hsettling, hfind]
    rfl
  have hpending : s.pending = s.running := by rw [State.pending, hsettling, List.append_nil]
  rw [htick]
  cases hhas : s.inFlight.has job.name with
  | true =>
    rw [execute_of_pending hhas, if_pos]
    by_contra hnone
    have hfree : s.inFlight.has job.name = false := by
      refine h.has_eq_false.mpr fun run hrun hname ↦ hnone ⟨run, hpending ▸ hrun, hname⟩
    exact Bool.noConfusion (hhas.symm.trans hfree)
  | false =>
    have hfree := h.has_eq_false.mp hhas
    rw [execute_of_not_pending hhas, if_neg]
    · exact ⟨_, rfl⟩
    · rintro ⟨run, hrun, hname⟩
      exact hfree run (hpending ▸ hrun) hname

theorem Inv.resting (h : Inv s t) {t₁ t₂ t₃ : List Event} {call : Nat}
    (ht : t = t₃ ++ .stopped call :: (t₂ ++ .stopping call :: t₁)) (hbefore : .start ∉ t₂)
    (hafter : .start ∉ t₃) : s.running = [] ∧ ∀ run, .began run ∉ t₃ := by
  have hcall : Since call (t₂ ++ .stopping call :: t₁) := Since.append (.inl rfl) hbefore
  have hsince : Since call (.stopped call :: (t₂ ++ .stopping call :: t₁)) := hcall
  constructor
  · have hstopped : .stopped call ∈ t := ht ▸ List.mem_append_right _ List.mem_cons_self
    have hnone := (h.stopped call hstopped).2 (ht ▸ hsince.append hafter)
    exact (List.append_eq_nil_iff.mp hnone).1
  · intro run hmem
    obtain ⟨later, earlier, rfl⟩ := List.append_of_mem hmem
    have hrests := h.rests
    rw [ht, List.append_assoc] at hrests
    refine hrests.of_append.1 call (List.mem_append_right _ List.mem_cons_self) (hsince.append fun hstart ↦ ?_)
    exact hafter (List.mem_append_right _ (List.mem_cons_of_mem _ hstart))

theorem Sound.armed (h : Sound jobs s t) {t₁ t₂ : List Event} (ht : t = t₂ ++ .start :: t₁)
    (hstop : ∀ call, .stopping call ∉ t₂) :
    s.intervals.map Prod.snd = enabled jobs ∧ (s.intervals.map Prod.fst).Nodup ∧
      ∀ now, Worker.step jobs s (.start now) = some (s, [.logged duplicate, .start]) := by
  have hactive : Active (t₂ ++ .start :: t₁) := Active.append trivial hstop
  have hstarted := h.started.mpr (ht ▸ hactive)
  have hjobs := h.jobs
  rw [hstarted] at hjobs
  exact ⟨hjobs, h.handles ▸ h.handles_nodup, fun now ↦ congrArg some (start_of_started hstarted)⟩

/-- The scheduler keeps what it is for, in every run. -/
theorem scheduled (h : (machine jobs).Run s t) : Scheduled jobs s t := by
  have hsound := sound_run h
  constructor
  · exact hsound.disjoint
  · exact hsound.names
  · exact failed_eq
  · exact fun run hmem now outcome ↦ hsound.recovers hmem now outcome
  · exact fun handle job now hmem hsettling ↦ hsound.ticks now hmem hsettling
  · exact hsound.resting
  · exact hsound.armed

def sweeps : List Job := [⟨"purge", 1000, true⟩, ⟨"reap", 500, false⟩, ⟨"off", 0, true⟩]

/-- A slow run is met by its next tick and fails, both jobs run again, and a call of `stop` waits for
them. -/
def sweepActions : List Action :=
  [.start 0, .start 0, .tick 0 1000, .settle 0 1200 (.rejected "boom"), .finally 0, .tick 0 2000,
   .tick 1 2000, .stop, .settle 1 2100 (.resolved []), .finally 1, .settle 2 2200 (.rejected "boom"),
   .finally 2, .resolve 0]

theorem scheduled_sweeps : ∃ s t, (machine sweeps).exec sweepActions (machine sweeps).init [] = some (s, t) ∧
    Scheduled sweeps s t ∧ s.running = [] ∧ s.nextRun = 3 := by
  obtain ⟨s, t, hexec, hs⟩ : ∃ s t,
      (machine sweeps).exec sweepActions (machine sweeps).init [] = some (s, t) ∧
        s.running = [] ∧ s.nextRun = 3 := ⟨_, _, rfl, rfl, rfl⟩
  exact ⟨s, t, hexec, scheduled (Machine.run_of_exec hexec), hs⟩

end Properties

end Aesmsg.Worker
