import Aesmsg.Lib.Simulation
import Aesmsg.Reader.Classify
import Aesmsg.Reader.KeyFallback
import Aesmsg.Reader.OpenCoordinator

/-!
# The reader flow

`apps/mobile/src/navigation/ReaderFlow.tsx` with `reader-machine.ts`, `decrypt-gate.ts` and
`open-coordinator.ts`, as `App.tsx` mounts it: a deep link may swap the link of a mount, and the flow is
unmounted at any time.  Every callback and every continuation keeps what was captured by the render that
made it.  The state of a mount and its last render are apart, so that a tap may come in between.

## Main results

- `run_coordinator`: what the flow does to the coordinator, in any run, is a run of the coordinator.
- `opened_by_taps`: a POST is made by a tap on a screen that offers it, and by nothing else.
- `biometric_gate`: where the setting was on, nothing is decrypted before an authentication.
-/

namespace Aesmsg.Reader.Flow

open Store Crypto Client

structure MessageMetadata where
  status : LinkStatus
  expiresAt : String
  maxOpens : JsNumber
  opensCount : JsNumber

inductive ReaderState where
  | loading
  | gone
  | network (metadata : Option MessageMetadata) (myFingerprint : Option String)
  | invalid
  | landing (metadata : MessageMetadata) (myFingerprint : String)
  | opening
  | gated (response : OpenMessageResponse) (unavailable : Bool)
  | decrypted (output : FetchAndOpenOutput)
  | failed

inductive ReaderScreenName where
  | decrypting
  | gone
  | network
  | invalid
  | landing
  | gated
  | failed
  | reader
deriving DecidableEq

def selectScreen : ReaderState → ReaderScreenName
  | .loading | .opening => .decrypting
  | .gone => .gone
  | .network .. => .network
  | .invalid => .invalid
  | .landing .. => .landing
  | .gated .. => .gated
  | .failed => .failed
  | .decrypted _ => .reader

inductive DecryptGateDecision where
  | skip
  | prompt
  | unavailable
deriving DecidableEq

def decideDecryptGate (requireUnlock capable : Bool) : DecryptGateDecision :=
  if !requireUnlock then .skip
  else if capable then .prompt
  else .unavailable

/-- What an attempt throws, by its name. -/
def thrown : OpenError → Thrown
  | .inl err => err
  | .inr (.invalidFormat _) => .error "InvalidFormatError"
  | .inr (.decryption _) => .error "DecryptionError"
  | .inr .recipientMismatch => .error "RecipientMismatchError"
  | .inr (.error _) => .error "Error"
  | .inr .rangeError => .error "RangeError"

/-- Who awaits a response: the handler of the tap, or the effect of a mount or a link. -/
inductive Caller where
  | tryOpen (metadata : MessageMetadata) (myFingerprint : String)
  | resume

/-- The `catch` of `tryOpen`, and that of the effect. -/
def Caller.recover : Caller → Thrown → ReaderState
  | .tryOpen metadata myFingerprint, err =>
    match Mobile.classifyReaderError err with
    | .gone => .gone
    | .network => .network (some metadata) (some myFingerprint)
    | .invalid => .invalid
    | .failed => .failed
  | .resume, err =>
    match Mobile.classifyReaderError err with
    | .gone => .gone
    | .invalid => .invalid
    | .network | .failed => .network none none

/-- The state after `loadMetadata`. -/
def loaded : Except Thrown (MessageMetadata × String) → ReaderState
  | .ok (metadata, myFingerprint) => .landing metadata myFingerprint
  | .error err =>
    match Mobile.classifyReaderError err with
    | .network => .network none none
    | .invalid => .invalid
    | .gone | .failed => .gone

/-- The state after the `try` of `decryptHeld`. -/
def decrypted : Except OpenError FetchAndOpenOutput → ReaderState
  | .ok output => .decrypted output
  | .error err => if Mobile.classifyReaderError (thrown err) = .invalid then .invalid else .failed

/-- The state after `checkBiometricCapability`. -/
def probed (response : OpenMessageResponse) (caller : Caller) : Except Thrown Bool → ReaderState
  | .ok capable => .gated response (decideDecryptGate true capable = .unavailable)
  | .error err => caller.recover err

/-- What a render captures: the link, the setting and `allPrivateKeysForDecrypt(identity)`, which is empty
unless the identity is unlocked. -/
structure Closure (κ : Type) where
  id : LinkId
  requireUnlock : Bool
  keys : List κ

/-- What an asynchronous function of the flow awaits. -/
inductive Await where
  | metadata
  | post (post : Nat) (caller : Caller)
  | probe (response : OpenMessageResponse) (caller : Caller)
  | authenticate (response : OpenMessageResponse)
  | decrypt (response : OpenMessageResponse)

structure Task (κ : Type) where
  mount : Nat
  closure : Closure κ
  await : Await

/-- A mounted flow.  `cancelledRef` is known by the number of the mount. -/
structure Mount (κ : Type) where
  number : Nat
  state : ReaderState
  /-- What the last render shows. -/
  screen : ReaderState
  closure : Closure κ

structure State (κ : Type) where
  coordinator : Open.OpenCoordinator
  requireUnlock : Bool
  keys : List κ
  mounts : Nat
  mount : Option (Mount κ)
  tasks : List (Task κ)
  /-- The POSTs that have settled. -/
  settled : List (Nat × Except Thrown OpenMessageResponse)

inductive Event (κ : Type) where
  | setting (requireUnlock : Bool)
  | rendered (mount : Nat) (closure : Closure κ)
  /-- A tap on what was rendered. -/
  | tapped (mount : Nat) (screen : ReaderState) (closure : Closure κ)
  | coordinator (event : Open.Event)
  | authenticated (mount : Nat) (response : OpenMessageResponse)
  /-- The private keys are used on a response. -/
  | decrypting (mount : Nat) (closure : Closure κ) (response : OpenMessageResponse)

inductive Action (κ : Type) where
  | setting (requireUnlock : Bool)
  | identity (keys : List κ)
  | mount (id : LinkId)
  /-- Another deep link is opened in the same mount. -/
  | link (id : LinkId)
  | render
  | unmount
  | onOpen
  | onRetry
  | onAuthenticate
  | finish
  | settle (post : Nat) (outcome : Except Thrown OpenMessageResponse)
  /-- What the task at a position awaits is there. -/
  | loaded (task : Nat) (outcome : Except Thrown (MessageMetadata × String))
  | posted (task : Nat)
  | probed (task : Nat) (outcome : Except Thrown Bool)
  | authenticated (task : Nat) (success : Bool)
  | decrypted (task : Nat)

section Step

variable {κ : Type}

def State.capture (s : State κ) (id : LinkId) : Closure κ := ⟨id, s.requireUnlock, s.keys⟩

/-- Nothing is written to a mount that is cancelled. -/
def State.setState (s : State κ) (mount : Nat) (state : ReaderState) : State κ :=
  { s with mount := s.mount.map fun m ↦ if m.number = mount then { m with state := state } else m }

def State.cancelled (s : State κ) (mount : Nat) : Bool := s.mount.all (·.number ≠ mount)

/-- An asynchronous function gets to an `await`. -/
def State.await (s : State κ) (mount : Nat) (closure : Closure κ) (await : Await) : State κ :=
  { s with tasks := ⟨mount, closure, await⟩ :: s.tasks }

def decryptHeld (s : State κ) (mount : Nat) (closure : Closure κ) (response : OpenMessageResponse) :
    State κ × List (Event κ) :=
  if closure.keys.isEmpty then (s, [])
  else ((s.setState mount .opening).await mount closure (.decrypt response),
    [.decrypting mount closure response])

def proceedAfterOpen (s : State κ) (mount : Nat) (closure : Closure κ)
    (response : OpenMessageResponse) (caller : Caller) : State κ × List (Event κ) :=
  if s.cancelled mount then (s, [])
  else if !closure.requireUnlock then decryptHeld s mount closure response
  else (s.await mount closure (.probe response caller), [])

def loadMetadata (s : State κ) (mount : Nat) (closure : Closure κ) : State κ :=
  if closure.keys.isEmpty then s
  else (s.setState mount .loading).await mount closure .metadata

/-- What `tryOpen` does with the result of `begin`. -/
def opened (s : State κ) (mount : Nat) (closure : Closure κ) (caller : Caller) :
    Open.BeginResult → State κ × List (Event κ)
  | .held response => proceedAfterOpen s mount closure response caller
  | .started post | .joined post => (s.await mount closure (.post post caller), [])
  -- `fetchOpenResponse` is asynchronous and does not throw in the call.
  | .threw _ => (s, [])

def tryOpen (s : State κ) (mount : Nat) (closure : Closure κ) (metadata : MessageMetadata)
    (myFingerprint : String) : State κ × List (Event κ) :=
  let opening := s.setState mount .opening
  let begun := opening.coordinator.begin closure.id false
  let next := opened { opening with coordinator := begun.1 } mount closure
    (.tryOpen metadata myFingerprint) begun.2
  (next.1, next.2 ++ (Open.began closure.id begun.2).map .coordinator)

/-- What the effect does with the snapshot of the coordinator. -/
def resumed (s : State κ) (mount : Nat) (closure : Closure κ) :
    Option Open.OpenSnapshot → State κ × List (Event κ)
  | some ⟨.held, some response, _⟩ => proceedAfterOpen s mount closure response .resume
  | some ⟨.inFlight, _, some post⟩ =>
    ((s.setState mount .opening).await mount closure (.post post .resume), [])
  | _ => (loadMetadata s mount closure, [])

/-- A render of a mount, which shows no state where the identity is not unlocked. -/
def render (s : State κ) (m : Mount κ) (id : LinkId) : State κ :=
  { s with mount := some { m with
      screen := if s.keys.isEmpty then .loading else m.state
      closure := s.capture id } }

/-- A render with a link that is not decided, and its effect. -/
def enter (s : State κ) (m : Mount κ) (id : LinkId) : State κ × List (Event κ) :=
  let existing := s.coordinator.peek id
  let next := resumed (render s m id) m.number (s.capture id) existing
  (next.1, next.2 ++ [.coordinator (.peeked id existing), .rendered m.number (s.capture id)])

def retryFromNetwork (s : State κ) (mount : Nat) (closure : Closure κ) :
    Option MessageMetadata → Option String → State κ × List (Event κ)
  | some metadata, some myFingerprint =>
    if myFingerprint = "" then (loadMetadata s mount closure, [])
    else tryOpen s mount closure metadata myFingerprint
  | _, _ => (loadMetadata s mount closure, [])

/-- The handler of a tap on what a mount shows. -/
def tap (s : State κ) (handler : Mount κ → Option (State κ × List (Event κ))) :
    Option (State κ × List (Event κ)) := do
  let m ← s.mount
  let next ← handler m
  return (next.1, next.2 ++ [.tapped m.number m.screen m.closure])

def onOpen (s : State κ) (m : Mount κ) : Option (State κ × List (Event κ)) :=
  match m.screen with
  | .landing metadata myFingerprint => some (tryOpen s m.number m.closure metadata myFingerprint)
  | _ => none

def onRetry (s : State κ) (m : Mount κ) : Option (State κ × List (Event κ)) :=
  match m.screen with
  | .network metadata myFingerprint =>
    some (retryFromNetwork s m.number m.closure metadata myFingerprint)
  | _ => none

def onAuthenticate (s : State κ) (m : Mount κ) : Option (State κ × List (Event κ)) :=
  match m.screen with
  | .gated response false => some (s.await m.number m.closure (.authenticate response), [])
  | _ => none

/-- `finish`.  The flow is unmounted after `onDone`, by an action of its own. -/
def finish (s : State κ) (m : Mount κ) : Option (State κ × List (Event κ)) :=
  if selectScreen m.screen = .decrypting then none
  else some ({ s with coordinator := s.coordinator.clear m.closure.id },
    [.coordinator (.cleared m.closure.id)])

/-- What comes after the POST that is awaited. -/
def posted (s : State κ) (mount : Nat) (closure : Closure κ) (caller : Caller) :
    Except Thrown OpenMessageResponse → State κ × List (Event κ)
  | .ok response => proceedAfterOpen s mount closure response caller
  | .error err => (s.setState mount (caller.recover err), [])

/-- `runDecryptGate`, after the prompt. -/
def runDecryptGate (s : State κ) (mount : Nat) (closure : Closure κ) (response : OpenMessageResponse)
    (success : Bool) : State κ × List (Event κ) :=
  if success then
    let next := decryptHeld s mount closure response
    (next.1, next.2 ++ [.authenticated mount response])
  else (s, [])

variable (decrypt : OpenMessageResponse → LinkId → List κ → Except OpenError FetchAndOpenOutput)

/-- A task goes on, by what it awaits and what the action brings. -/
def proceed (s : State κ) (task : Task κ) : Await → Action κ → Option (State κ × List (Event κ))
  | .metadata, .loaded _ outcome => some (s.setState task.mount (loaded outcome), [])
  | .post post caller, .posted _ => do
    let settled ← s.settled.find? (·.1 = post)
    return posted s task.mount task.closure caller settled.2
  | .probe response caller, .probed _ outcome =>
    some (s.setState task.mount (probed response caller outcome), [])
  | .authenticate response, .authenticated _ success =>
    some (runDecryptGate s task.mount task.closure response success)
  | .decrypt response, .decrypted _ =>
    some (s.setState task.mount (decrypted (decrypt response task.closure.id task.closure.keys)), [])
  | _, _ => none

/-- The task at a position goes on. -/
def resume (s : State κ) (i : Nat) (a : Action κ) : Option (State κ × List (Event κ)) := do
  let task ← s.tasks[i]?
  proceed decrypt { s with tasks := s.tasks.eraseIdx i } task task.await a

def step (s : State κ) : Action κ → Option (State κ × List (Event κ))
  | .setting requireUnlock => some ({ s with requireUnlock := requireUnlock }, [.setting requireUnlock])
  | .identity keys => some ({ s with keys := keys }, [])
  | .mount id =>
    -- `App` mounts the flow only while the identity is unlocked.
    if s.mount.isSome || s.keys.isEmpty then none
    else some (enter { s with mounts := s.mounts + 1 } ⟨s.mounts, .loading, .loading, s.capture id⟩ id)
  | .link id => do
    let m ← s.mount
    if m.closure.id = id then none else some (enter s m id)
  | .render => do
    let m ← s.mount
    return (render s m m.closure.id, [.rendered m.number (s.capture m.closure.id)])
  | .unmount => do
    let _ ← s.mount
    return ({ s with mount := none }, [])
  | .onOpen => tap s (onOpen s)
  | .onRetry => tap s (onRetry s)
  | .onAuthenticate => tap s (onAuthenticate s)
  | .finish => tap s (finish s)
  | .settle post outcome => do
    let next ← Open.step s.coordinator (.settle post outcome.toOption)
    return ({ s with coordinator := next.1, settled := (post, outcome) :: s.settled },
      next.2.map .coordinator)
  | .loaded i outcome => resume decrypt s i (.loaded i outcome)
  | .posted i => resume decrypt s i (.posted i)
  | .probed i outcome => resume decrypt s i (.probed i outcome)
  | .authenticated i success => resume decrypt s i (.authenticated i success)
  | .decrypted i => resume decrypt s i (.decrypted i)

/-- The setting is on until it is loaded. -/
def machine : Machine (State κ) (Action κ) (Event κ) :=
  ⟨⟨Open.machine.init, true, [], 0, none, [], []⟩, step decrypt⟩

end Step

/-! ## What a step shows -/

section Shown

variable {κ : Type} {decrypt : OpenMessageResponse → LinkId → List κ → Except OpenError FetchAndOpenOutput}
  {s s' : State κ} {t es : List (Event κ)} {a : Action κ} {m : Mount κ} {mount : Nat}
  {closure : Closure κ} {next : State κ × List (Event κ)}

def coordinator? : Event κ → Option Open.Event
  | .coordinator event => some event
  | _ => none

theorem mem_coordinator {event : Open.Event} :
    event ∈ t.filterMap coordinator? ↔ .coordinator event ∈ t := by
  rw [List.mem_filterMap]
  constructor
  · rintro ⟨e, he, heq⟩
    cases e with
    | coordinator event' =>
      cases heq
      exact he
    | setting b | rendered m c | tapped m screen c | authenticated m r | decrypting m c r => cases heq
  · exact fun he ↦ ⟨_, he, rfl⟩

theorem filterMap_coordinator (events : List Open.Event) :
    (events.map (Event.coordinator (κ := κ))).filterMap coordinator? = events := by
  rw [List.filterMap_map]
  exact List.filterMap_some

/-- Nothing, or a decrypt where the setting was off. -/
def Direct (es : List (Event κ)) : Prop :=
  es = [] ∨ ∃ mount closure response, es = [.decrypting mount closure response] ∧
    closure.requireUnlock = false

theorem Direct.filterMap (h : Direct es) : es.filterMap coordinator? = [] := by
  rcases h with rfl | ⟨mount, closure, response, rfl, -⟩
  · rfl
  · rfl

/-- What a function does that leaves the coordinator and the setting alone. -/
structure Local (s : State κ) (next : State κ × List (Event κ)) : Prop where
  coordinator : next.1.coordinator = s.coordinator
  requireUnlock : next.1.requireUnlock = s.requireUnlock
  events : Direct next.2

theorem local_nil (hcoordinator : s'.coordinator = s.coordinator)
    (hsetting : s'.requireUnlock = s.requireUnlock) : Local s (s', []) :=
  ⟨hcoordinator, hsetting, .inl rfl⟩

theorem local_decryptHeld (h : closure.requireUnlock = false) (response : OpenMessageResponse) :
    Local s (decryptHeld s mount closure response) := by
  unfold decryptHeld
  split
  · exact local_nil rfl rfl
  · exact ⟨rfl, rfl, .inr ⟨mount, closure, response, rfl, h⟩⟩

theorem local_proceedAfterOpen (response : OpenMessageResponse) (caller : Caller) :
    Local s (proceedAfterOpen s mount closure response caller) := by
  unfold proceedAfterOpen
  split
  · exact local_nil rfl rfl
  split
  · rename_i hoff
    have hoff' : closure.requireUnlock = false := by simpa using hoff
    exact local_decryptHeld hoff' response
  · exact local_nil rfl rfl

theorem local_loadMetadata : Local s (loadMetadata s mount closure, []) := by
  unfold loadMetadata
  split
  · exact local_nil rfl rfl
  · exact local_nil rfl rfl

theorem local_opened (caller : Caller) (result : Open.BeginResult) :
    Local s (opened s mount closure caller result) := by
  cases result with
  | held response => exact local_proceedAfterOpen response caller
  | started post | joined post | threw post => exact local_nil rfl rfl

theorem local_posted (caller : Caller) (outcome : Except Thrown OpenMessageResponse) :
    Local s (posted s mount closure caller outcome) := by
  cases outcome with
  | ok response => exact local_proceedAfterOpen response caller
  | error err => exact local_nil rfl rfl

/-- The cases of a snapshot. -/
theorem resumed_cases (s : State κ) (mount : Nat) (closure : Closure κ)
    (existing : Option Open.OpenSnapshot) :
    (∃ snapshot response, existing = some snapshot ∧ snapshot.response = some response ∧
      resumed s mount closure existing = proceedAfterOpen s mount closure response .resume) ∨
    (∃ snapshot post, existing = some snapshot ∧ snapshot.promise = some post ∧
      resumed s mount closure existing =
        ((s.setState mount .opening).await mount closure (.post post .resume), [])) ∨
    resumed s mount closure existing = (loadMetadata s mount closure, []) := by
  unfold resumed
  split
  · exact .inl ⟨_, _, rfl, rfl, rfl⟩
  · exact .inr (.inl ⟨_, _, rfl, rfl, rfl⟩)
  · exact .inr (.inr rfl)

theorem local_resumed (existing : Option Open.OpenSnapshot) :
    Local s (resumed s mount closure existing) := by
  rcases resumed_cases s mount closure existing with ⟨_, response, -, -, heq⟩ | ⟨_, post, -, -, heq⟩ | heq
  · rw [heq]
    exact local_proceedAfterOpen response .resume
  · rw [heq]
    exact local_nil rfl rfl
  · rw [heq]
    exact local_loadMetadata

/-- A screen whose button opens the link. -/
inductive Opens : ReaderState → Prop
  | landing (metadata : MessageMetadata) (myFingerprint : String) : Opens (.landing metadata myFingerprint)
  | retry (metadata : MessageMetadata) (myFingerprint : String) :
    Opens (.network (some metadata) (some myFingerprint))

/-- What a step can do. -/
inductive Steps (s : State κ) : State κ → List (Event κ) → Prop
  | setting (requireUnlock : Bool) :
    Steps s { s with requireUnlock := requireUnlock } [.setting requireUnlock]
  | plain {after : State κ × List (Event κ)} (h : Local s after) : Steps s after.1 after.2
  | rendered (m : Mount κ) (id : LinkId) :
    Steps s (render s m id) [.rendered m.number (s.capture id)]
  | entered {after : State κ × List (Event κ)} (m : Mount κ) (id : LinkId) (h : Local s after) :
    Steps s after.1
      (after.2 ++ [.coordinator (.peeked id (s.coordinator.peek id)), .rendered m.number (s.capture id)])
  | tapped {after : State κ × List (Event κ)} (m : Mount κ) (h : Local s after) :
    Steps s after.1 (after.2 ++ [.tapped m.number m.screen m.closure])
  | opened {after : State κ × List (Event κ)} (m : Mount κ) (opens : Opens m.screen)
    (h : Local { s with coordinator := (s.coordinator.begin m.closure.id false).1 } after) :
    Steps s after.1 (after.2 ++
      [.coordinator (.began m.closure.id (s.coordinator.begin m.closure.id false).2),
        .tapped m.number m.screen m.closure])
  | finished (m : Mount κ) :
    Steps s { s with coordinator := s.coordinator.clear m.closure.id }
      [.coordinator (.cleared m.closure.id), .tapped m.number m.screen m.closure]
  | settled {post : Nat} {outcome : Except Thrown OpenMessageResponse}
    {after : Open.OpenCoordinator × List Open.Event}
    (h : Open.step s.coordinator (.settle post outcome.toOption) = some after) :
    Steps s { s with coordinator := after.1, settled := (post, outcome) :: s.settled }
      (after.2.map .coordinator)
  | authenticated {before : State κ} (mount : Nat) (closure : Closure κ) (response : OpenMessageResponse)
    (coordinator : before.coordinator = s.coordinator)
    (requireUnlock : before.requireUnlock = s.requireUnlock) :
    Steps s (decryptHeld before mount closure response).1
      ((decryptHeld before mount closure response).2 ++ [.authenticated mount response])

/-- A tap is on what a mount shows. -/
theorem tap_eq_some {handler : Mount κ → Option (State κ × List (Event κ))}
    (h : tap s handler = some (s', es)) :
    ∃ m next, s.mount = some m ∧ handler m = some next ∧ s' = next.1 ∧
      es = next.2 ++ [.tapped m.number m.screen m.closure] := by
  unfold tap at h
  obtain ⟨m, hm, hrest⟩ := Option.bind_eq_some_iff.mp h
  obtain ⟨next, hnext, heq⟩ := Option.bind_eq_some_iff.mp hrest
  cases heq
  exact ⟨m, next, hm, hnext, rfl, rfl⟩

theorem resume_eq_some {i : Nat} (h : resume decrypt s i a = some next) :
    ∃ task, task ∈ s.tasks ∧
      proceed decrypt { s with tasks := s.tasks.eraseIdx i } task task.await a = some next := by
  obtain ⟨task, htask, hrest⟩ := Option.bind_eq_some_iff.mp h
  exact ⟨task, List.mem_of_getElem? htask, hrest⟩

theorem steps_nil (hcoordinator : s'.coordinator = s.coordinator)
    (hsetting : s'.requireUnlock = s.requireUnlock) : Steps s s' [] :=
  .plain (local_nil hcoordinator hsetting)

/-- `run` does not throw in the call. -/
theorem began_begin (coordinator : Open.OpenCoordinator) (id : LinkId) :
    Open.began id (coordinator.begin id false).2 = [.began id (coordinator.begin id false).2] := by
  unfold Open.OpenCoordinator.begin
  split
  · rfl
  · split
    · split
      · rfl
      · rfl
      · rfl
    · rfl

theorem steps_tryOpen (hopens : Opens m.screen) (metadata : MessageMetadata) (myFingerprint : String) :
    Steps s (tryOpen s m.number m.closure metadata myFingerprint).1
      ((tryOpen s m.number m.closure metadata myFingerprint).2 ++
        [.tapped m.number m.screen m.closure]) := by
  have hlocal : Local _ (opened
      { s.setState m.number .opening with coordinator := (s.coordinator.begin m.closure.id false).1 }
      m.number m.closure (.tryOpen metadata myFingerprint) (s.coordinator.begin m.closure.id false).2) :=
    local_opened _ _
  have hopened := Steps.opened (s := s) m hopens
    ⟨hlocal.coordinator, hlocal.requireUnlock, hlocal.events⟩
  unfold tryOpen
  dsimp only
  rw [show (s.setState m.number .opening).coordinator = s.coordinator from rfl, began_begin,
    List.append_assoc]
  exact hopened

theorem steps_enter {m : Mount κ} {id : LinkId} {s₀ : State κ}
    (hcoordinator : s₀.coordinator = s.coordinator) (hsetting : s₀.requireUnlock = s.requireUnlock)
    (hkeys : s₀.keys = s.keys) : Steps s (enter s₀ m id).1 (enter s₀ m id).2 := by
  have hlocal : Local _ (resumed (render s₀ m id) m.number (s₀.capture id) (s₀.coordinator.peek id)) :=
    local_resumed _
  have hcapture : s₀.capture id = s.capture id := by
    unfold State.capture
    rw [hsetting, hkeys]
  have hentered := Steps.entered (s := s) m id
    ⟨hlocal.coordinator.trans hcoordinator, hlocal.requireUnlock.trans hsetting, hlocal.events⟩
  rw [← hcapture, ← hcoordinator] at hentered
  exact hentered

theorem steps_of_proceed {task : Task κ} {await : Await} {s₀ : State κ}
    (hcoordinator : s₀.coordinator = s.coordinator) (hsetting : s₀.requireUnlock = s.requireUnlock)
    (h : proceed decrypt s₀ task await a = some (s', es)) : Steps s s' es := by
  unfold proceed at h
  split at h
  · cases h
    exact steps_nil hcoordinator hsetting
  · rename_i post caller i
    obtain ⟨settled, -, heq⟩ := Option.bind_eq_some_iff.mp h
    have hnext := Option.some.inj heq
    have hlocal : Local s₀ (posted s₀ task.mount task.closure caller settled.2) := local_posted _ _
    rw [hnext] at hlocal
    exact .plain ⟨hlocal.coordinator.trans hcoordinator, hlocal.requireUnlock.trans hsetting,
      hlocal.events⟩
  · cases h
    exact steps_nil hcoordinator hsetting
  · rename_i response i success
    unfold runDecryptGate at h
    split at h
    · cases h
      exact .authenticated task.mount task.closure response hcoordinator hsetting
    · cases h
      exact steps_nil hcoordinator hsetting
  · cases h
    exact steps_nil hcoordinator hsetting
  · cases h

theorem steps_of_resume {i : Nat} (h : resume decrypt s i a = some (s', es)) : Steps s s' es := by
  obtain ⟨task, -, hproceed⟩ := resume_eq_some h
  have hrest : ({ s with tasks := s.tasks.eraseIdx i } : State κ).coordinator = s.coordinator := rfl
  exact steps_of_proceed hrest rfl hproceed

theorem steps_of_onRetry (h : onRetry s m = some next) :
    Steps s next.1 (next.2 ++ [.tapped m.number m.screen m.closure]) := by
  unfold onRetry at h
  split at h
  · rename_i metadata myFingerprint hscreen
    cases h
    unfold retryFromNetwork
    split
    · split
      · exact .tapped m local_loadMetadata
      · exact steps_tryOpen (by rw [hscreen]; exact .retry _ _) _ _
    · exact .tapped m local_loadMetadata
  · cases h

theorem steps_of_step (h : step decrypt s a = some (s', es)) : Steps s s' es := by
  cases a with
  | setting requireUnlock =>
    cases h
    exact .setting requireUnlock
  | identity keys =>
    cases h
    exact steps_nil rfl rfl
  | mount id =>
    obtain ⟨-, heq⟩ := Option.ite_none_left_eq_some.mp h
    cases heq
    exact steps_enter rfl rfl rfl
  | link id =>
    obtain ⟨m, -, hrest⟩ := Option.bind_eq_some_iff.mp h
    split at hrest
    · cases hrest
    · cases hrest
      exact steps_enter rfl rfl rfl
  | render =>
    obtain ⟨m, -, heq⟩ := Option.bind_eq_some_iff.mp h
    cases heq
    exact .rendered m m.closure.id
  | unmount =>
    obtain ⟨m, -, heq⟩ := Option.bind_eq_some_iff.mp h
    cases heq
    exact steps_nil rfl rfl
  | onOpen =>
    obtain ⟨m, next, -, hnext, rfl, rfl⟩ := tap_eq_some h
    unfold onOpen at hnext
    split at hnext
    · rename_i metadata myFingerprint hscreen
      cases hnext
      exact steps_tryOpen (by rw [hscreen]; exact .landing _ _) _ _
    · cases hnext
  | onRetry =>
    obtain ⟨m, next, -, hnext, rfl, rfl⟩ := tap_eq_some h
    exact steps_of_onRetry hnext
  | onAuthenticate =>
    obtain ⟨m, next, -, hnext, rfl, rfl⟩ := tap_eq_some h
    unfold onAuthenticate at hnext
    split at hnext
    · cases hnext
      exact .tapped m (local_nil rfl rfl)
    · cases hnext
  | finish =>
    obtain ⟨m, next, -, hnext, rfl, rfl⟩ := tap_eq_some h
    unfold finish at hnext
    split at hnext
    · cases hnext
    · cases hnext
      exact .finished m
  | settle post outcome =>
    obtain ⟨after, hstep, heq⟩ := Option.bind_eq_some_iff.mp h
    cases heq
    exact .settled hstep
  | loaded i outcome => exact steps_of_resume h
  | posted i => exact steps_of_resume h
  | probed i outcome => exact steps_of_resume h
  | authenticated i success => exact steps_of_resume h
  | decrypted i => exact steps_of_resume h

/-- What the flow does to the coordinator is a run of it. -/
theorem run_coordinator (h : (machine decrypt).Run s t) :
    Open.machine.Run s.coordinator (t.filterMap coordinator?) := by
  refine h.simulate (f := State.coordinator) (g := coordinator?) rfl ?_
  intro s s' t es a _ hstep
  cases steps_of_step hstep with
  | setting requireUnlock => exact ⟨[], rfl⟩
  | plain hlocal =>
    refine ⟨[], ?_⟩
    rw [hlocal.coordinator, hlocal.events.filterMap]
    rfl
  | rendered m id => exact ⟨[], rfl⟩
  | entered m id hlocal =>
    refine ⟨[.peek id], ?_⟩
    rw [hlocal.coordinator, List.filterMap_append, hlocal.events.filterMap]
    rfl
  | tapped m hlocal =>
    refine ⟨[], ?_⟩
    rw [hlocal.coordinator, List.filterMap_append, hlocal.events.filterMap]
    rfl
  | opened m opens hlocal =>
    refine ⟨[.begin m.closure.id false], ?_⟩
    have hbegin : Open.step s.coordinator (.begin m.closure.id false) =
        some ((s.coordinator.begin m.closure.id false).1,
          [.began m.closure.id (s.coordinator.begin m.closure.id false).2]) := by
      rw [← began_begin]
      rfl
    rw [hlocal.coordinator, List.filterMap_append, hlocal.events.filterMap]
    exact Machine.exec_singleton (M := Open.machine) hbegin
  | finished m => exact ⟨[.clear m.closure.id], rfl⟩
  | settled hsettle =>
    rename_i post outcome after
    rw [filterMap_coordinator]
    exact ⟨[.settle post outcome.toOption], Machine.exec_singleton (M := Open.machine) hsettle⟩
  | authenticated mount closure response hcoordinator _ =>
    refine ⟨[], ?_⟩
    unfold decryptHeld
    split
    · rw [hcoordinator]
      rfl
    · show some (s.coordinator, _) = some ((State.await _ _ _ _).coordinator, _)
      exact congrArg some (Prod.ext hcoordinator.symm rfl)

/-! ## What an event follows from -/

/-- The setting, by the events. -/
def setting : List (Event κ) → Bool
  | [] => true
  | .setting requireUnlock :: _ => requireUnlock
  | _ :: t => setting t

/-- The last event is a tap on a button that opens the link. -/
def Tapped (id : LinkId) (t : List (Event κ)) : Prop :=
  ∃ mount screen closure t₀, t = .tapped mount screen closure :: t₀ ∧ closure.id = id ∧ Opens screen

def Justified : Event κ → List (Event κ) → Prop
  | .rendered _ closure, t => closure.requireUnlock = setting t
  | .coordinator (.began id _), t => Tapped id t
  | .decrypting mount closure response, t =>
    closure.requireUnlock = true → .authenticated mount response ∈ t
  | _, _ => True

/-- A decrypt where the setting was off needs nothing. -/
theorem Direct.past (h : Direct es) (ht : Machine.Past Justified t) : Machine.Past Justified (es ++ t) := by
  rcases h with rfl | ⟨mount, closure, response, rfl, hoff⟩
  · exact ht
  · refine Machine.past_cons.mpr ⟨fun hon ↦ ?_, ht⟩
    cases hoff.symm.trans hon

theorem Direct.setting (h : Direct es) : setting (es ++ t) = setting t := by
  rcases h with rfl | ⟨mount, closure, response, rfl, -⟩
  · rfl
  · rfl

/-- The setting is what the events say, and every event follows from those before it. -/
def Follows (s : State κ) (t : List (Event κ)) : Prop :=
  s.requireUnlock = setting t ∧ Machine.Past Justified t

theorem Local.follows (hlocal : Local s next) (h : Follows s t) : Follows next.1 (next.2 ++ t) :=
  ⟨(hlocal.requireUnlock.trans h.1).trans hlocal.events.setting.symm, hlocal.events.past h.2⟩

theorem Follows.step (h : Follows s t) (hstep : step decrypt s a = some (s', es)) :
    Follows s' (es ++ t) := by
  obtain ⟨hsetting, hpast⟩ := h
  cases steps_of_step hstep with
  | setting requireUnlock => exact ⟨rfl, Machine.past_cons.mpr ⟨trivial, hpast⟩⟩
  | plain hlocal => exact hlocal.follows ⟨hsetting, hpast⟩
  | rendered m id => exact ⟨hsetting, Machine.past_cons.mpr ⟨hsetting, hpast⟩⟩
  | entered m id hlocal =>
    have hrest : Machine.Past Justified
        (.coordinator (.peeked id (s.coordinator.peek id)) :: .rendered m.number (s.capture id) :: t) :=
      Machine.past_cons.mpr ⟨trivial, Machine.past_cons.mpr ⟨hsetting, hpast⟩⟩
    rw [List.append_assoc]
    exact hlocal.follows ⟨hsetting, hrest⟩
  | tapped m hlocal =>
    have hrest : Machine.Past Justified (.tapped m.number m.screen m.closure :: t) :=
      Machine.past_cons.mpr ⟨trivial, hpast⟩
    rw [List.append_assoc]
    exact hlocal.follows ⟨hsetting, hrest⟩
  | opened m opens hlocal =>
    have hrest : Machine.Past Justified
        (.coordinator (.began m.closure.id (s.coordinator.begin m.closure.id false).2) ::
          .tapped m.number m.screen m.closure :: t) :=
      Machine.past_cons.mpr ⟨⟨_, _, _, t, rfl, rfl, opens⟩, Machine.past_cons.mpr ⟨trivial, hpast⟩⟩
    rw [List.append_assoc]
    exact hlocal.follows ⟨hsetting, hrest⟩
  | finished m =>
    exact ⟨hsetting, Machine.past_cons.mpr ⟨trivial, Machine.past_cons.mpr ⟨trivial, hpast⟩⟩⟩
  | settled hsettle =>
    obtain ⟨-, -, hevents⟩ := Open.settle_eq_some hsettle
    rw [hevents]
    exact ⟨hsetting, Machine.past_cons.mpr ⟨trivial, hpast⟩⟩
  | authenticated mount closure response _ hunlock =>
    have hrest : Machine.Past Justified (.authenticated mount response :: t) :=
      Machine.past_cons.mpr ⟨trivial, hpast⟩
    unfold decryptHeld
    split
    · exact ⟨hunlock.trans hsetting, hrest⟩
    · exact ⟨hunlock.trans hsetting, Machine.past_cons.mpr ⟨fun _ ↦ List.mem_cons_self, hrest⟩⟩

theorem follows (h : (machine decrypt).Run s t) : Follows s t :=
  h.invariant ⟨rfl, Machine.past_nil⟩ fun hfollows hstep ↦ hfollows.step hstep

end Shown

/-! ## What the flow holds -/

section Held

variable {κ : Type} {decrypt : OpenMessageResponse → LinkId → List κ → Except OpenError FetchAndOpenOutput}
  {s s' : State κ} {t es : List (Event κ)} {a : Action κ} {m : Mount κ} {mount : Nat}
  {closure : Closure κ} {response : OpenMessageResponse} {caller : Caller}

/-- The POST was made for the link. -/
def PostOf (t : List (Event κ)) (id : LinkId) (post : Nat) : Prop :=
  ∃ result, .coordinator (.began id result) ∈ t ∧ result.ran = some post

/-- The response is the answer of a POST that was made. -/
def Answered (t : List (Event κ)) (response : OpenMessageResponse) : Prop :=
  ∃ id post, PostOf t id post ∧ .coordinator (.settled post (some response)) ∈ t

def Await.Known (t : List (Event κ)) (mount : Nat) (closure : Closure κ) : Await → Prop
  | .metadata => True
  | .post ref _ => PostOf t closure.id ref
  | .probe response _ | .authenticate response => Answered t response
  | .decrypt response => .decrypting mount closure response ∈ t

variable (decrypt) in
/-- The output is what a decrypt of the mount has made. -/
def Revealed (t : List (Event κ)) (mount : Nat) (output : FetchAndOpenOutput) : Prop :=
  ∃ closure response, .decrypting mount closure response ∈ t ∧
    decrypt response closure.id closure.keys = .ok output

variable (decrypt) in
def ReaderState.Known (t : List (Event κ)) (mount : Nat) : ReaderState → Prop
  | .gated response _ => Answered t response
  | .decrypted output => Revealed decrypt t mount output
  | _ => True

variable (decrypt) in
structure Inv (s : State κ) (t : List (Event κ)) : Prop where
  settled : ∀ settled ∈ s.settled, .coordinator (.settled settled.1 settled.2.toOption) ∈ t
  mount : ∀ m, s.mount = some m → .rendered m.number m.closure ∈ t ∧
    m.state.Known decrypt t m.number ∧ m.screen.Known decrypt t m.number
  tasks : ∀ task ∈ s.tasks, .rendered task.mount task.closure ∈ t ∧
    task.await.Known t task.mount task.closure
  decrypting : ∀ mount closure response, .decrypting mount closure response ∈ t →
    .rendered mount closure ∈ t ∧ Answered t response

theorem PostOf.append {id : LinkId} {post : Nat} (h : PostOf t id post) (es : List (Event κ)) :
    PostOf (es ++ t) id post := by
  obtain ⟨result, hmem, hran⟩ := h
  exact ⟨result, List.mem_append_right es hmem, hran⟩

theorem Answered.append (h : Answered t response) (es : List (Event κ)) :
    Answered (es ++ t) response := by
  obtain ⟨id, post, hpost, hsettled⟩ := h
  exact ⟨id, post, hpost.append es, List.mem_append_right es hsettled⟩

theorem Await.Known.append {await : Await} (h : await.Known t mount closure) (es : List (Event κ)) :
    await.Known (es ++ t) mount closure := by
  cases await with
  | metadata => trivial
  | post post caller => exact PostOf.append h es
  | probe response caller | authenticate response => exact Answered.append h es
  | decrypt response => exact List.mem_append_right es h

theorem ReaderState.Known.append {state : ReaderState} (h : state.Known decrypt t mount)
    (es : List (Event κ)) : state.Known decrypt (es ++ t) mount := by
  cases state with
  | gated response unavailable => exact Answered.append h es
  | decrypted output =>
    obtain ⟨closure, response, hmem, hdecrypt⟩ := h
    exact ⟨closure, response, List.mem_append_right es hmem, hdecrypt⟩
  | loading | gone | network | invalid | landing | opening | failed => trivial

/-- More events, with the decrypts among them known. -/
theorem Inv.append (h : Inv decrypt s t) (hes : ∀ mount closure response,
    .decrypting mount closure response ∈ es → .rendered mount closure ∈ t ∧ Answered t response) :
    Inv decrypt s (es ++ t) := by
  constructor
  · exact fun settled hmem ↦ List.mem_append_right es (h.settled settled hmem)
  · intro m hm
    obtain ⟨hrendered, hstate, hscreen⟩ := h.mount m hm
    exact ⟨List.mem_append_right es hrendered, hstate.append es, hscreen.append es⟩
  · intro task htask
    obtain ⟨hrendered, hknown⟩ := h.tasks task htask
    exact ⟨List.mem_append_right es hrendered, hknown.append es⟩
  · intro mount closure response hmem
    rcases List.mem_append.mp hmem with hnew | hold
    · obtain ⟨hrendered, hanswered⟩ := hes mount closure response hnew
      exact ⟨List.mem_append_right es hrendered, hanswered.append es⟩
    · obtain ⟨hrendered, hanswered⟩ := h.decrypting mount closure response hold
      exact ⟨List.mem_append_right es hrendered, hanswered.append es⟩

/-- Events that are no decrypts. -/
theorem Inv.quiet (h : Inv decrypt s t)
    (hes : ∀ mount closure response, .decrypting mount closure response ∉ es) :
    Inv decrypt s (es ++ t) :=
  h.append fun mount closure response hmem ↦ absurd hmem (hes mount closure response)

theorem Inv.cons (h : Inv decrypt s t) {e : Event κ}
    (he : ∀ mount closure response, e ≠ .decrypting mount closure response) :
    Inv decrypt s (e :: t) :=
  Inv.quiet h fun mount closure response hmem ↦
    he mount closure response (List.mem_singleton.mp hmem).symm

theorem Inv.setState (h : Inv decrypt s t) {state : ReaderState}
    (hstate : state.Known decrypt t mount) : Inv decrypt (s.setState mount state) t := by
  refine ⟨h.settled, ?_, h.tasks, h.decrypting⟩
  intro m' hm'
  obtain ⟨m, hm, heq⟩ := Option.map_eq_some_iff.mp hm'
  obtain ⟨hrendered, hold, hscreen⟩ := h.mount m hm
  subst heq
  split
  · rename_i hnumber
    subst hnumber
    exact ⟨hrendered, hstate, hscreen⟩
  · exact ⟨hrendered, hold, hscreen⟩

theorem Inv.await (h : Inv decrypt s t) {await : Await} (hrendered : .rendered mount closure ∈ t)
    (hknown : await.Known t mount closure) : Inv decrypt (s.await mount closure await) t := by
  refine ⟨h.settled, h.mount, ?_, h.decrypting⟩
  intro task htask
  rcases List.mem_cons.mp htask with rfl | htask
  · exact ⟨hrendered, hknown⟩
  · exact h.tasks task htask

theorem Inv.decryptHeld (h : Inv decrypt s t) (hrendered : .rendered mount closure ∈ t)
    (hanswered : Answered t response) :
    Inv decrypt (decryptHeld s mount closure response).1
      ((decryptHeld s mount closure response).2 ++ t) := by
  unfold Flow.decryptHeld
  split
  · exact h
  · have hopening : Inv decrypt (s.setState mount .opening) t := h.setState trivial
    have hmore : Inv decrypt (s.setState mount .opening) ([.decrypting mount closure response] ++ t) := by
      refine hopening.append fun mount' closure' response' hmem ↦ ?_
      cases List.mem_singleton.mp hmem
      exact ⟨hrendered, hanswered⟩
    exact hmore.await (List.mem_cons_of_mem _ hrendered) List.mem_cons_self

theorem Inv.proceedAfterOpen (h : Inv decrypt s t) (hrendered : .rendered mount closure ∈ t)
    (hanswered : Answered t response) (caller : Caller) :
    Inv decrypt (proceedAfterOpen s mount closure response caller).1
      ((proceedAfterOpen s mount closure response caller).2 ++ t) := by
  unfold Flow.proceedAfterOpen
  split
  · exact h
  split
  · exact h.decryptHeld hrendered hanswered
  · exact h.await hrendered hanswered

theorem Inv.loadMetadata (h : Inv decrypt s t) (hrendered : .rendered mount closure ∈ t) :
    Inv decrypt (loadMetadata s mount closure) t := by
  unfold Flow.loadMetadata
  split
  · exact h
  · have hloading : Inv decrypt (s.setState mount .loading) t := h.setState trivial
    exact hloading.await hrendered trivial

/-- A POST by the coordinator's events is one by the flow's. -/
theorem postOf_of_currentPost {id : LinkId} {post : Nat}
    (h : Open.currentPost id (t.filterMap coordinator?) = some post) : PostOf t id post := by
  obtain ⟨result, hmem, hran⟩ := Open.began_of_currentPost h
  exact ⟨result, mem_coordinator.mp hmem, hran⟩

theorem answered_of_own {id : LinkId} (h : Open.Own id (t.filterMap coordinator?) response) :
    Answered t response := by
  obtain ⟨post, hpost, hsettled⟩ := h
  exact ⟨id, post, postOf_of_currentPost hpost, mem_coordinator.mp hsettled⟩

/-- What `begin` hands out. -/
theorem begin_known (hrun : Open.machine.Run s.coordinator (t.filterMap coordinator?)) (id : LinkId) :
    (∀ post, (s.coordinator.begin id false).2 = .started post ∨
        (s.coordinator.begin id false).2 = .joined post →
      PostOf (.coordinator (.began id (s.coordinator.begin id false).2) :: t) id post) ∧
    ∀ response, (s.coordinator.begin id false).2 = .held response → Answered t response := by
  rcases (Open.inv_run hrun).begin_cases id false with ⟨-, heq⟩ | ⟨session, result, -, -, heq, -, hanswers⟩
  · rw [heq]
    constructor
    · rintro post (hstarted | hjoined)
      · rw [hstarted]
        exact ⟨.started post, List.mem_cons_self, rfl⟩
      · cases hjoined
    · intro response hheld
      cases hheld
  · rw [heq]
    constructor
    · rintro post (hstarted | hjoined)
      · subst hstarted
        exact hanswers.elim
      · subst hjoined
        exact (postOf_of_currentPost hanswers).append [_]
    · rintro response rfl
      exact answered_of_own hanswers

theorem Inv.tryOpen (h : Inv decrypt s t)
    (hrun : Open.machine.Run s.coordinator (t.filterMap coordinator?))
    (hrendered : .rendered mount closure ∈ t) (metadata : MessageMetadata) (myFingerprint : String) :
    Inv decrypt (tryOpen s mount closure metadata myFingerprint).1
      ((tryOpen s mount closure metadata myFingerprint).2 ++ t) := by
  unfold Flow.tryOpen
  dsimp only
  rw [show (s.setState mount .opening).coordinator = s.coordinator from rfl, began_begin,
    List.append_assoc]
  have hopening : Inv decrypt (s.setState mount .opening) t := h.setState trivial
  have hcoordinator : Inv decrypt
      { s.setState mount .opening with coordinator := (s.coordinator.begin closure.id false).1 } t :=
    ⟨hopening.settled, hopening.mount, hopening.tasks, hopening.decrypting⟩
  have hbegun := hcoordinator.cons (e := .coordinator (.began closure.id
    (s.coordinator.begin closure.id false).2)) fun mount closure response heq ↦ by cases heq
  obtain ⟨hposts, hheld⟩ := begin_known hrun closure.id
  have hrendered' := List.mem_cons_of_mem
    (.coordinator (.began closure.id (s.coordinator.begin closure.id false).2)) hrendered
  cases hresult : (s.coordinator.begin closure.id false).2 with
  | held response =>
    rw [hresult] at hbegun hrendered'
    exact hbegun.proceedAfterOpen hrendered' ((hheld response hresult).append [_]) _
  | started post =>
    have hpost := hposts post (.inl hresult)
    rw [hresult] at hbegun hrendered' hpost
    exact hbegun.await hrendered' hpost
  | joined post =>
    have hpost := hposts post (.inr hresult)
    rw [hresult] at hbegun hrendered' hpost
    exact hbegun.await hrendered' hpost
  | threw post =>
    rw [hresult] at hbegun
    exact hbegun

theorem Inv.render (h : Inv decrypt s t) (hm : m.state.Known decrypt t m.number) (id : LinkId) :
    Inv decrypt (render s m id) (.rendered m.number (s.capture id) :: t) := by
  have hmore := h.cons (e := .rendered m.number (s.capture id))
    fun mount closure response heq ↦ by cases heq
  refine ⟨hmore.settled, ?_, hmore.tasks, hmore.decrypting⟩
  intro m' hm'
  cases hm'
  refine ⟨List.mem_cons_self, hm.append [_], ?_⟩
  show (if s.keys.isEmpty then ReaderState.loading else m.state).Known decrypt _ _
  split
  · trivial
  · exact hm.append [_]

theorem Inv.enter (h : Inv decrypt s t)
    (hrun : Open.machine.Run s.coordinator (t.filterMap coordinator?))
    (hm : m.state.Known decrypt t m.number) (id : LinkId) :
    Inv decrypt (enter s m id).1 ((enter s m id).2 ++ t) := by
  unfold Flow.enter
  dsimp only
  rw [List.append_assoc]
  have hrender := (h.render hm id).cons (e := .coordinator (.peeked id (s.coordinator.peek id)))
    fun mount closure response heq ↦ by cases heq
  have hrendered : Event.rendered m.number (s.capture id) ∈
      .coordinator (.peeked id (s.coordinator.peek id)) :: .rendered m.number (s.capture id) :: t :=
    List.mem_cons_of_mem _ List.mem_cons_self
  rcases resumed_cases (Flow.render s m id) m.number (s.capture id) (s.coordinator.peek id) with
    ⟨snapshot, response, hpeek, hresponse, heq⟩ | ⟨snapshot, post, hpeek, hpromise, heq⟩ | heq
  · rw [heq]
    have hown := ((Open.inv_run hrun).peek_eq hpeek).2 response hresponse
    exact hrender.proceedAfterOpen hrendered ((answered_of_own hown).append [_, _]) .resume
  · rw [heq]
    have hpost := ((Open.inv_run hrun).peek_eq hpeek).1 post hpromise
    have hopening : Inv decrypt ((Flow.render s m id).setState m.number .opening) _ :=
      hrender.setState trivial
    exact hopening.await hrendered ((postOf_of_currentPost hpost).append [_, _])
  · rw [heq]
    exact hrender.loadMetadata hrendered

theorem known_loaded (outcome : Except Thrown (MessageMetadata × String)) :
    (loaded outcome).Known decrypt t mount := by
  unfold loaded
  split
  · trivial
  · split
    · trivial
    · trivial
    · trivial
    · trivial

theorem known_recover (caller : Caller) (err : Thrown) : (caller.recover err).Known decrypt t mount := by
  unfold Caller.recover
  split
  · split
    · trivial
    · trivial
    · trivial
    · trivial
  · split
    · trivial
    · trivial
    · trivial
    · trivial

theorem Inv.posted (h : Inv decrypt s t) (hrendered : .rendered mount closure ∈ t) {post : Nat}
    (hpost : PostOf t closure.id post) {outcome : Except Thrown OpenMessageResponse}
    (hsettled : (post, outcome) ∈ s.settled) (caller : Caller) :
    Inv decrypt (posted s mount closure caller outcome).1
      ((posted s mount closure caller outcome).2 ++ t) := by
  cases outcome with
  | ok response => exact h.proceedAfterOpen hrendered ⟨_, post, hpost, h.settled _ hsettled⟩ caller
  | error err => exact h.setState (known_recover caller err)

/-- A task that is known goes on. -/
theorem Inv.proceed (h : Inv decrypt s t) {task : Task κ} {await : Await}
    (hrendered : .rendered task.mount task.closure ∈ t)
    (hknown : await.Known t task.mount task.closure)
    (hproceed : proceed decrypt s task await a = some (s', es)) : Inv decrypt s' (es ++ t) := by
  unfold Flow.proceed at hproceed
  split at hproceed
  · cases hproceed
    exact h.setState (known_loaded _)
  · rename_i post caller i
    obtain ⟨settled, hfind, heq⟩ := Option.bind_eq_some_iff.mp hproceed
    have hnext := Option.some.inj heq
    have hpost := List.find?_some hfind
    obtain rfl : settled.1 = post := of_decide_eq_true hpost
    have hposted := h.posted hrendered hknown (List.mem_of_find?_eq_some hfind) caller
    rw [hnext] at hposted
    exact hposted
  · rename_i response caller i outcome
    cases hproceed
    refine h.setState ?_
    cases outcome with
    | ok capable => exact hknown
    | error err => exact known_recover caller err
  · rename_i response i success
    have hnext := Option.some.inj hproceed
    unfold runDecryptGate at hnext
    split at hnext
    · cases hnext
      rw [List.append_assoc]
      have hmore := h.cons (e := .authenticated task.mount response)
        fun mount closure response heq ↦ by cases heq
      exact hmore.decryptHeld (List.mem_cons_of_mem _ hrendered) (Answered.append hknown [_])
    · cases hnext
      exact h
  · rename_i response i
    cases hproceed
    refine h.setState ?_
    cases hdecrypt : decrypt response task.closure.id task.closure.keys with
    | ok output => exact ⟨_, response, hknown, hdecrypt⟩
    | error err =>
      show (if _ then ReaderState.invalid else .failed).Known decrypt t task.mount
      split
      · trivial
      · trivial
  · cases hproceed

theorem Inv.resume (h : Inv decrypt s t) {i : Nat} (hresume : resume decrypt s i a = some (s', es)) :
    Inv decrypt s' (es ++ t) := by
  obtain ⟨task, htask, hproceed⟩ := resume_eq_some hresume
  obtain ⟨hrendered, hknown⟩ := h.tasks task htask
  have htaken : Inv decrypt { s with tasks := s.tasks.eraseIdx i } t :=
    ⟨h.settled, h.mount, fun task htask ↦ h.tasks task (List.mem_of_mem_eraseIdx htask), h.decrypting⟩
  exact htaken.proceed hrendered hknown hproceed

section Handlers

variable {next : State κ × List (Event κ)} (h : Inv decrypt s t)
  (hrun : Open.machine.Run s.coordinator (t.filterMap coordinator?))
  (hrendered : .rendered m.number m.closure ∈ t)
include h

include hrun hrendered in
theorem Inv.onOpen (hnext : onOpen s m = some next) : Inv decrypt next.1 (next.2 ++ t) := by
  unfold Flow.onOpen at hnext
  split at hnext
  · cases hnext
    exact h.tryOpen hrun hrendered _ _
  · cases hnext

include hrun hrendered in
theorem Inv.onRetry (hnext : onRetry s m = some next) : Inv decrypt next.1 (next.2 ++ t) := by
  unfold Flow.onRetry at hnext
  split at hnext
  · cases hnext
    unfold retryFromNetwork
    split
    · split
      · exact h.loadMetadata hrendered
      · exact h.tryOpen hrun hrendered _ _
    · exact h.loadMetadata hrendered
  · cases hnext

include hrendered in
theorem Inv.onAuthenticate (hscreen : m.screen.Known decrypt t m.number)
    (hnext : onAuthenticate s m = some next) : Inv decrypt next.1 (next.2 ++ t) := by
  unfold Flow.onAuthenticate at hnext
  split at hnext
  · rename_i response heq
    rw [heq] at hscreen
    cases hnext
    exact h.await hrendered hscreen
  · cases hnext

theorem Inv.finish (hnext : finish s m = some next) : Inv decrypt next.1 (next.2 ++ t) := by
  unfold Flow.finish at hnext
  split at hnext
  · cases hnext
  · cases hnext
    have hcleared := h.cons (e := .coordinator (.cleared m.closure.id))
      fun mount closure response heq ↦ by cases heq
    exact ⟨hcleared.settled, hcleared.mount, hcleared.tasks, hcleared.decrypting⟩

/-- A tap, where its handler keeps the invariant. -/
theorem Inv.tap {handler : Mount κ → Option (State κ × List (Event κ))}
    (hstep : tap s handler = some (s', es))
    (hhandler : ∀ m next t', handler m = some next → Inv decrypt s t' →
      t'.filterMap coordinator? = t.filterMap coordinator? → .rendered m.number m.closure ∈ t' →
      m.screen.Known decrypt t' m.number → Inv decrypt next.1 (next.2 ++ t')) :
    Inv decrypt s' (es ++ t) := by
  obtain ⟨m, next, hm, hnext, rfl, rfl⟩ := tap_eq_some hstep
  have htapped : Inv decrypt s (.tapped m.number m.screen m.closure :: t) :=
    h.cons fun mount closure response heq ↦ by cases heq
  obtain ⟨hrendered, -, hscreen⟩ := htapped.mount m hm
  rw [List.append_assoc]
  exact hhandler m next _ hnext htapped rfl hrendered hscreen

end Handlers

theorem Inv.step (h : Inv decrypt s t)
    (hrun : Open.machine.Run s.coordinator (t.filterMap coordinator?))
    (hstep : step decrypt s a = some (s', es)) : Inv decrypt s' (es ++ t) := by
  cases a with
  | setting requireUnlock =>
    cases hstep
    have hmore := h.cons (e := .setting requireUnlock) fun mount closure response heq ↦ by cases heq
    exact ⟨hmore.settled, hmore.mount, hmore.tasks, hmore.decrypting⟩
  | identity keys =>
    cases hstep
    exact ⟨h.settled, h.mount, h.tasks, h.decrypting⟩
  | mount id =>
    obtain ⟨-, heq⟩ := Option.ite_none_left_eq_some.mp hstep
    cases heq
    have hcounted : Inv decrypt { s with mounts := s.mounts + 1 } t :=
      ⟨h.settled, h.mount, h.tasks, h.decrypting⟩
    exact hcounted.enter (m := ⟨s.mounts, .loading, .loading, s.capture id⟩) hrun trivial id
  | link id =>
    obtain ⟨m, hm, hrest⟩ := Option.bind_eq_some_iff.mp hstep
    split at hrest
    · cases hrest
    · cases hrest
      exact h.enter hrun (h.mount m hm).2.1 id
  | render =>
    obtain ⟨m, hm, heq⟩ := Option.bind_eq_some_iff.mp hstep
    cases heq
    exact h.render (h.mount m hm).2.1 m.closure.id
  | unmount =>
    obtain ⟨m, -, heq⟩ := Option.bind_eq_some_iff.mp hstep
    cases heq
    exact ⟨h.settled, fun m hm ↦ (by cases hm), h.tasks, h.decrypting⟩
  | onOpen =>
    refine h.tap hstep fun m next t' hnext hinv ht' hrendered _ ↦ ?_
    rw [← ht'] at hrun
    exact hinv.onOpen hrun hrendered hnext
  | onRetry =>
    refine h.tap hstep fun m next t' hnext hinv ht' hrendered _ ↦ ?_
    rw [← ht'] at hrun
    exact hinv.onRetry hrun hrendered hnext
  | onAuthenticate =>
    exact h.tap hstep fun m next t' hnext hinv _ hrendered hscreen ↦
      hinv.onAuthenticate hrendered hscreen hnext
  | finish => exact h.tap hstep fun m next t' hnext hinv _ _ _ ↦ hinv.finish hnext
  | settle post outcome =>
    obtain ⟨after, hsettle, heq⟩ := Option.bind_eq_some_iff.mp hstep
    cases heq
    obtain ⟨-, -, hevents⟩ := Open.settle_eq_some hsettle
    rw [hevents]
    have hmore := h.cons (e := .coordinator (.settled post outcome.toOption))
      fun mount closure response heq ↦ by cases heq
    refine ⟨?_, hmore.mount, hmore.tasks, hmore.decrypting⟩
    intro settled hsettled
    rcases List.mem_cons.mp hsettled with rfl | hold
    · exact List.mem_cons_self
    · exact hmore.settled settled hold
  | loaded i outcome => exact h.resume hstep
  | posted i => exact h.resume hstep
  | probed i outcome => exact h.resume hstep
  | authenticated i success => exact h.resume hstep
  | decrypted i => exact h.resume hstep

theorem inv_run (h : (machine decrypt).Run s t) : Inv decrypt s t := by
  induction h with
  | init =>
    constructor
    · exact fun settled hmem ↦ absurd hmem List.not_mem_nil
    · rintro m ⟨⟩
    · exact fun task hmem ↦ absurd hmem List.not_mem_nil
    · exact fun mount closure response hmem ↦ absurd hmem List.not_mem_nil
  | step before hstep ih => exact ih.step (run_coordinator before) hstep

end Held

/-! ## The flow of a device -/

variable (H : Hpke) (otherDate : String → Option Instant)

/-- The flow, with the keys of the identity and `decryptWithKeyFallback`. -/
def flow : Machine (State (IdentityKeypair H)) (Action (IdentityKeypair H)) (Event (IdentityKeypair H)) :=
  machine fun response id keys ↦ (Mobile.decryptHeld H otherDate response id keys).result

/-- What the coordinator and the private keys are used for. -/
structure OpenedByTaps (s : State (IdentityKeypair H)) (t : List (Event (IdentityKeypair H))) : Prop where
  /-- Only a tap opens a link, one link for each: no mount, no resume, no gate and no decrypt does. -/
  tapped : ∀ t₂ t₁ id result, t = t₂ ++ .coordinator (.began id result) :: t₁ → Tapped id t₁
  once : Open.ExactlyOnce s.coordinator (t.filterMap coordinator?)
  /-- What is decrypted is the answer of a POST that was made. -/
  answered : ∀ mount closure response, .decrypting mount closure response ∈ t → Answered t response

/-- What guards the private keys, and what is shown. -/
structure BiometricGate (s : State (IdentityKeypair H)) (t : List (Event (IdentityKeypair H))) :
    Prop where
  /-- Where the setting was on at the render, the prompt has been passed, in this mount and for this
  response. -/
  authenticated : ∀ t₂ t₁ mount closure response, t = t₂ ++ .decrypting mount closure response :: t₁ →
    closure.requireUnlock = true → .authenticated mount response ∈ t₁
  rendered : ∀ mount closure response, .decrypting mount closure response ∈ t →
    .rendered mount closure ∈ t
  setting : ∀ t₂ t₁ mount closure, t = t₂ ++ .rendered mount closure :: t₁ →
    closure.requireUnlock = setting t₁
  /-- A plaintext that is in the state or on the screen of a mount was decrypted in that mount. -/
  shown : ∀ m output, s.mount = some m → m.state = .decrypted output ∨ m.screen = .decrypted output →
    ∃ closure response, .decrypting m.number closure response ∈ t ∧
      (Mobile.decryptHeld H otherDate response closure.id closure.keys).result = .ok output

variable {H otherDate} {s : State (IdentityKeypair H)} {t : List (Event (IdentityKeypair H))}

/-- In every run of the mobile reader an open is begun only by a tap, one for each; the coordinator
opens a link exactly once; and what is decrypted is the answer of a POST that was made. -/
theorem opened_by_taps (h : (flow H otherDate).Run s t) : OpenedByTaps H s t where
  tapped := fun _ _ _ _ ht ↦ (follows h).2 _ _ _ ht
  once := Open.exactly_once (run_coordinator h)
  answered := fun mount closure response hmem ↦ ((inv_run h).decrypting mount closure response hmem).2

/-- In every run of the mobile reader, where the setting asks for it, nothing is decrypted before the
prompt has been passed in this mount and for this response; and a plaintext in the state or on the
screen was decrypted in that mount. -/
theorem biometric_gate (h : (flow H otherDate).Run s t) : BiometricGate H otherDate s t := by
  constructor
  · intro t₂ t₁ mount closure response ht
    exact (follows h).2 _ _ _ ht
  · exact fun mount closure response hmem ↦ ((inv_run h).decrypting mount closure response hmem).1
  · intro t₂ t₁ mount closure ht
    exact (follows h).2 _ _ _ ht
  · intro m output hm hshown
    obtain ⟨-, hstate, hscreen⟩ := (inv_run h).mount m hm
    rcases hshown with heq | heq
    · rw [heq] at hstate
      exact hstate
    · rw [heq] at hscreen
      exact hscreen

/-- A link is opened with two taps, locked while its POST runs, resumed, and unlocked at the gate. -/
def gateActions : List (Action (IdentityKeypair Hpke.transparent)) :=
  [.identity [repeatedKey 0], .mount "a", .loaded 0 (.ok (⟨.active, "", .int 1, .int 0⟩, "A1B2")),
   .render, .onOpen, .onOpen, .unmount, .settle 0 (.ok Open.heldResponse), .posted 0, .posted 0, .mount "a",
   .probed 0 (.ok true), .render, .onAuthenticate, .authenticated 0 false, .onAuthenticate,
   .authenticated 0 true, .decrypted 0]

theorem opened_by_taps_resumed : ∃ s t,
    (flow Hpke.transparent fun _ ↦ none).exec gateActions (flow _ fun _ ↦ none).init [] = some (s, t) ∧
      OpenedByTaps _ s t ∧ s.coordinator.posts = 1 := by
  obtain ⟨s, t, hexec, hposts⟩ : ∃ s t, (flow Hpke.transparent fun _ ↦ none).exec gateActions
      (flow _ fun _ ↦ none).init [] = some (s, t) ∧ s.coordinator.posts = 1 := ⟨_, _, rfl, rfl⟩
  exact ⟨s, t, hexec, opened_by_taps (Machine.run_of_exec hexec), hposts⟩

theorem biometric_gate_resumed : ∃ s t,
    (flow Hpke.transparent fun _ ↦ none).exec gateActions (flow _ fun _ ↦ none).init [] = some (s, t) ∧
      BiometricGate _ (fun _ ↦ none) s t ∧
      s.mount.map (·.state) = some (decrypted
        (Mobile.decryptHeld _ (fun _ ↦ none) Open.heldResponse "a" [repeatedKey 0]).result) := by
  obtain ⟨s, t, hexec, hstate⟩ : ∃ s t, (flow Hpke.transparent fun _ ↦ none).exec gateActions
      (flow _ fun _ ↦ none).init [] = some (s, t) ∧ s.mount.map (·.state) = some (decrypted
        (Mobile.decryptHeld _ (fun _ ↦ none) Open.heldResponse "a" [repeatedKey 0]).result) :=
    ⟨_, _, rfl, rfl⟩
  exact ⟨s, t, hexec, biometric_gate (Machine.run_of_exec hexec), hstate⟩

end Aesmsg.Reader.Flow
