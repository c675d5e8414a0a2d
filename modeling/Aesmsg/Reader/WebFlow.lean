import Aesmsg.Lib.Machine
import Aesmsg.Links.Url
import Aesmsg.Reader.Flow
import Aesmsg.Reader.ReadBack

/-!
# The browser reader

`apps/webapp/src/screens/reader/ReaderFlowScreen.tsx` with the identity provider that it uses.  A render
captures the state for the callbacks and for the effects of its own, which run after it and before the
next one; `inFlight`, `firedRef` and the keys are refs, and are read when a callback runs.  Every action
may come between two others.

## Main results

- `single_open`: a POST is made for a link id that is shown, while no other is out, in a render with an
  identity that is unlocked, and no more of them than taps.
- `intent_kept`: a tap on a locked identity opens the link after the unlock, without another tap.
-/

namespace Aesmsg.Reader.WebFlow

open Store Api Crypto Client Links.Url

inductive Phase where
  | resolving
  | entry
  | noIdentity
  | unlock
  | opening
  | decrypted
  | closed
  | gone
  | invalid
  | network
  | failed
deriving DecidableEq

/-- The screen of an error. -/
def Phase.ofOutcome : ReaderOutcome → Phase
  | .gone => .gone
  | .invalid => .invalid
  | .network => .network
  | .failed => .failed

/-- `state` of the provider, with the keys that its refs hold. -/
inductive Identity (κ : Type) where
  | loading
  | noIdentity
  | locked
  | unlocked (active : κ) (retired : List κ)

section Identity

variable {κ : Type}

def Identity.getAllPrivateKeysForDecrypt : Identity κ → List κ
  | .unlocked active retired => active :: retired
  | _ => []

/-- `identity !== null` -/
def Identity.isUnlocked : Identity κ → Bool
  | .unlocked .. => true
  | _ => false

/-- Whether a render sees no difference.  Every keypair that is set is a new object. -/
def Identity.same : Identity κ → Identity κ → Bool
  | .loading, .loading | .noIdentity, .noIdentity | .locked, .locked => true
  | _, _ => false

/-- The retired keys are read in the background, and no render follows. -/
def Identity.retire (keys : List κ) : Identity κ → Identity κ
  | .unlocked active _ => .unlocked active keys
  | identity => identity

end Identity

/-- What a render captures. -/
structure Render (κ : Type) where
  phase : Phase
  linkId : Option String
  output : Option FetchAndOpenOutput
  wantsOpen : Bool
  identity : Identity κ
  /-- Which object `identity` is. -/
  version : Nat
  search : String

/-- A request for a link, with the keys that are tried on its response. -/
structure Post (κ : Type) where
  number : Nat
  id : String
  keys : List κ

structure State (κ : Type) where
  pathname : String
  search : String
  phase : Phase
  linkId : Option String
  output : Option FetchAndOpenOutput
  wantsOpen : Bool
  inFlight : Bool
  /-- `firedRef` of the landing screen. -/
  fired : Bool
  identity : Identity κ
  version : Nat
  rendered : Option (Render κ)
  /-- The effects that are to run. -/
  resolves : Bool
  gates : Bool
  posts : Nat
  pending : List (Post κ)

inductive Event (κ : Type) where
  | identity (identity : Identity κ)
  | rendered (render : Render κ)
  | onOpen
  | onRetry
  | closed
  | posted (post : Post κ)
  | settled (post : Nat) (outcome : Except OpenError FetchAndOpenOutput)

inductive Action (κ : Type) where
  | identity (next : Identity κ)
  | retire (keys : List κ)
  | navigate (pathname search : String)
  | render
  | effects
  | onOpen
  | onRetry
  | onClose
  | onDone
  | settle (post : Nat) (fetch : Fetch)

section Step

variable {κ : Type}

/-- The effect that reads the link id. -/
def resolve (s : State κ) (r : Render κ) : State κ :=
  match readLinkId s.pathname (if r.search = "" then "" else "?" ++ r.search) with
  | some id => { s with
      linkId := some id
      phase := if s.phase = .resolving then .entry else s.phase }
  | none => { s with phase := if s.phase = .resolving then .invalid else s.phase }

def runOpen (s : State κ) (r : Render κ) : State κ × List (Event κ) :=
  match r.linkId with
  | some id =>
    if s.inFlight || !r.identity.isUnlocked then (s, [])
    else
      let post : Post κ := ⟨s.posts, id, s.identity.getAllPrivateKeysForDecrypt⟩
      ({ s with
          inFlight := true
          phase := .opening
          posts := s.posts + 1
          pending := post :: s.pending },
        [.posted post])
  | none => (s, [])

/-- The effect of the identity gate. -/
def gate (s : State κ) (r : Render κ) : State κ × List (Event κ) :=
  if !r.wantsOpen then (s, [])
  else
    match r.identity with
    | .loading => (s, [])
    | .noIdentity => ({ s with wantsOpen := false, phase := .noIdentity }, [])
    | .locked => ({ s with phase := .unlock }, [])
    | .unlocked .. => runOpen { s with wantsOpen := false } r

/-- What the gate depends on. -/
def Render.deps (r : Render κ) : Bool × Nat × Option String := (r.wantsOpen, r.version, r.linkId)

def State.capture (s : State κ) : Render κ :=
  ⟨s.phase, s.linkId, s.output, s.wantsOpen, s.identity, s.version, s.search⟩

/-- An effect runs after the first render and where what it depends on has changed. -/
def render (s : State κ) : State κ :=
  { s with
      rendered := some s.capture
      resolves := s.rendered.all (·.search ≠ s.search)
      gates := s.rendered.all (·.deps ≠ s.capture.deps) }

def effects (s : State κ) (r : Render κ) : State κ × List (Event κ) :=
  let resolved := if s.resolves then resolve s r else s
  let next := if s.gates then gate resolved r else (resolved, [])
  ({ next.1 with resolves := false, gates := false }, next.2)

def close (s : State κ) : State κ := { s with output := none, phase := .closed }

/-- What `runOpen` does after its `await`. -/
def settle (s : State κ) (outcome : Except OpenError FetchAndOpenOutput) : State κ :=
  match outcome with
  | .ok out => { s with output := some out, phase := .decrypted, inFlight := false }
  | .error err => { s with
      phase := .ofOutcome (Web.classifyReaderError (Flow.thrown err))
      inFlight := false }

variable (decrypt : Fetch → String → List κ → Except OpenError FetchAndOpenOutput)

def step (s : State κ) : Action κ → Option (State κ × List (Event κ))
  | .identity next => some
    ({ s with identity := next, version := if s.identity.same next then s.version else s.version + 1 },
      [.identity next])
  | .retire keys =>
    some ({ s with identity := s.identity.retire keys }, [.identity (s.identity.retire keys)])
  | .navigate pathname search => some ({ s with pathname := pathname, search := search }, [])
  | .render => if s.resolves || s.gates then none else some (render s, [.rendered s.capture])
  | .effects => do
    let r ← s.rendered
    return effects s r
  | .onOpen => do
    let r ← s.rendered
    if r.phase ≠ .entry || r.linkId.isNone || s.fired then none
    else some ({ s with fired := true, wantsOpen := true }, [.onOpen])
  | .onRetry => do
    let r ← s.rendered
    if r.phase ≠ .network then none
    else some ((runOpen s r).1, (runOpen s r).2 ++ [.onRetry])
  | .onClose => do
    let r ← s.rendered
    if r.phase ∈ [.gone, .invalid, .network, .failed] then some (close s, [.closed]) else none
  | .onDone => do
    let r ← s.rendered
    if r.phase = .decrypted && r.output.isSome then some (close s, [.closed]) else none
  | .settle number fetch => do
    let post ← s.pending.find? (·.number = number)
    let outcome := decrypt fetch post.id post.keys
    return (settle { s with pending := s.pending.filter (·.number ≠ number) } outcome,
      [.settled number outcome])

/-- A page that has been loaded at a location. -/
def machine (pathname search : String) : Machine (State κ) (Action κ) (Event κ) where
  init := ⟨pathname, search, .resolving, none, none, false, false, false, .loading, 0, none, false, false,
    0, []⟩
  step := step decrypt

end Step

/-! ## Traces -/

section Trace

variable {κ : Type}

/-- What is on the screen. -/
def lastRender : List (Event κ) → Option (Render κ)
  | [] => none
  | .rendered r :: _ => some r
  | _ :: t => lastRender t

def identity : List (Event κ) → Identity κ
  | [] => .loading
  | .identity next :: _ => next
  | _ :: t => identity t

/-- The POST that is out. -/
def request : List (Event κ) → Option (Post κ)
  | [] => none
  | .posted post :: _ => some post
  | .settled .. :: _ => none
  | _ :: t => request t

/-- What the last POST has made, if nothing was closed since. -/
def output : List (Event κ) → Option FetchAndOpenOutput
  | [] => none
  | .settled _ (.ok out) :: _ => some out
  | .closed :: _ => none
  | _ :: t => output t

def Event.isOnOpen : Event κ → Bool
  | .onOpen => true
  | _ => false

def Event.isOnRetry : Event κ → Bool
  | .onRetry => true
  | _ => false

def Event.isPosted : Event κ → Bool
  | .posted _ => true
  | _ => false

variable (decrypt : Fetch → String → List κ → Except OpenError FetchAndOpenOutput)

/-- An event, by those before it. -/
def Justified : Event κ → List (Event κ) → Prop
  | .rendered r, t => r.output = output t
  | .posted post, t => request t = none ∧ isLinkId post.id = true ∧
    post.keys = (identity t).getAllPrivateKeysForDecrypt ∧
    ∃ r, lastRender t = some r ∧ r.linkId = some post.id ∧ r.identity.isUnlocked = true
  | .settled number outcome, t => ∃ post fetch, request t = some post ∧ post.number = number ∧
    outcome = decrypt fetch post.id post.keys
  | .onOpen, t => t.countP Event.isOnOpen = 0 ∧
    ∃ r id, lastRender t = some r ∧ r.phase = .entry ∧ r.linkId = some id
  | .onRetry, t => ∃ r, lastRender t = some r ∧ r.phase = .network
  | .identity _, _ | .closed, _ => True

end Trace

/-! ## What a step can do -/

section Steps

variable {κ : Type} {decrypt : Fetch → String → List κ → Except OpenError FetchAndOpenOutput}
  {s s' : State κ} {t es : List (Event κ)} {a : Action κ} {r : Render κ}

/-- The state with a POST out. -/
def State.sent (s : State κ) (id : String) : State κ :=
  let post : Post κ := ⟨s.posts, id, s.identity.getAllPrivateKeysForDecrypt⟩
  { s with inFlight := true, phase := .opening, posts := s.posts + 1, pending := post :: s.pending }

theorem runOpen_cases (s : State κ) (r : Render κ) : runOpen s r = (s, []) ∨
    ∃ id, r.linkId = some id ∧ r.identity.isUnlocked = true ∧ s.inFlight = false ∧
      runOpen s r =
        (s.sent id, [.posted ⟨s.posts, id, s.identity.getAllPrivateKeysForDecrypt⟩]) := by
  unfold runOpen
  cases r.linkId with
  | none => exact .inl rfl
  | some id =>
    dsimp only
    cases hflight : s.inFlight with
    | true => exact .inl rfl
    | false =>
      cases hunlocked : r.identity.isUnlocked with
      | false => exact .inl rfl
      | true => exact .inr ⟨id, rfl, rfl, rfl, rfl⟩

/-- An effect leads to no error by itself. -/
def Quiet (s : State κ) (phase : Phase) : Prop := phase = .network → s.phase = .network

theorem gate_cases (s : State κ) (r : Render κ) :
    (∃ phase, Quiet s phase ∧ gate s r = ({ s with phase := phase }, [])) ∨
    (∃ phase, Quiet s phase ∧ gate s r = ({ s with wantsOpen := false, phase := phase }, [])) ∨
    r.wantsOpen = true ∧ gate s r = runOpen { s with wantsOpen := false } r := by
  unfold gate
  cases hwants : r.wantsOpen with
  | false => exact .inl ⟨s.phase, id, rfl⟩
  | true =>
    cases hidentity : r.identity with
    | loading => exact .inl ⟨s.phase, id, rfl⟩
    | noIdentity => exact .inr (.inl ⟨.noIdentity, (fun h ↦ by cases h), rfl⟩)
    | locked => exact .inl ⟨.unlock, (fun h ↦ by cases h), rfl⟩
    | unlocked active retired => exact .inr (.inr ⟨rfl, rfl⟩)

theorem quiet_ite (s : State κ) {phase : Phase} (hphase : phase ≠ .network) :
    Quiet s (if s.phase = .resolving then phase else s.phase) := by
  intro h
  split at h
  · exact absurd h hphase
  · exact h

theorem resolve_cases (s : State κ) (r : Render κ) :
    ∃ phase, Quiet s phase ∧ (resolve s r = { s with phase := phase } ∨
      ∃ id, isLinkId id = true ∧ resolve s r = { s with linkId := some id, phase := phase }) := by
  unfold resolve
  split
  · rename_i id hread
    exact ⟨_, quiet_ite s (by decide), .inr ⟨id, (of_readLinkId hread).1, rfl⟩⟩
  · exact ⟨_, quiet_ite s (by decide), .inl rfl⟩

end Steps

/-! ## Runs -/

section Runs

variable {κ : Type} {decrypt : Fetch → String → List κ → Except OpenError FetchAndOpenOutput}
  {s s' : State κ} {t es : List (Event κ)} {a : Action κ} {r : Render κ}

/-- What the refs say of the POSTs. -/
def Requests (s : State κ) (t : List (Event κ)) : Prop :=
  s.inFlight = false ∧ s.pending = [] ∧ request t = none ∨
    ∃ post, s.inFlight = true ∧ s.pending = [post] ∧ request t = some post

variable (decrypt) in
structure Inv (s : State κ) (t : List (Event κ)) : Prop where
  rendered : s.rendered = lastRender t
  identity : s.identity = identity t
  output : s.output = output t
  requests : Requests s t
  linkId : ∀ id, s.linkId = some id → isLinkId id = true
  shown : ∀ r, s.rendered = some r → ∀ id, r.linkId = some id → isLinkId id = true
  fired : t.countP Event.isOnOpen = s.fired.toNat
  taps : t.countP Event.isPosted + s.wantsOpen.toNat ≤
    t.countP Event.isOnOpen + t.countP Event.isOnRetry
  past : Machine.Past (Justified decrypt) t

/-- The intent that a gate reads has not been used. -/
def Intent (s : State κ) : Prop :=
  ∀ r, s.rendered = some r → s.gates = true → r.wantsOpen = true → s.wantsOpen = true

/-- A POST takes a tap that no other has taken. -/
theorem Inv.runOpen (h : Inv decrypt s t) (hr : s.rendered = some r)
    (htap : t.countP Event.isPosted + s.wantsOpen.toNat <
      t.countP Event.isOnOpen + t.countP Event.isOnRetry) :
    Inv decrypt (runOpen s r).1 ((runOpen s r).2 ++ t) := by
  rcases runOpen_cases s r with heq | ⟨id, hid, hunlocked, hidle, heq⟩
  · rw [heq]
    exact h
  · rw [heq]
    obtain ⟨-, hpending, hrequest⟩ | ⟨post, hbusy, -, -⟩ := h.requests
    · have hpost : Justified decrypt (.posted ⟨s.posts, id, s.identity.getAllPrivateKeysForDecrypt⟩) t :=
        ⟨hrequest, h.shown r hr id hid, by rw [h.identity], r, h.rendered.symm.trans hr, hid, hunlocked⟩
      refine { h with
        requests := .inr ⟨_, rfl, ?_, rfl⟩
        taps := ?_
        past := Machine.past_cons.mpr ⟨hpost, h.past⟩ }
      · show _ :: s.pending = _
        rw [hpending]
      · show List.countP _ (_ :: t) + s.wantsOpen.toNat ≤ List.countP _ (_ :: t) + List.countP _ (_ :: t)
        simp [List.countP_cons, Event.isPosted, Event.isOnOpen, Event.isOnRetry]
        omega
    · cases hidle.symm.trans hbusy

theorem Inv.phase (h : Inv decrypt s t) (phase : Phase) : Inv decrypt { s with phase := phase } t :=
  { h with }

/-- The intent is given up, or used. -/
theorem Inv.drop (h : Inv decrypt s t) : Inv decrypt { s with wantsOpen := false } t :=
  { h with taps := Nat.le_trans (Nat.add_le_add_left (Nat.zero_le _) _) h.taps }

theorem Inv.resolve (h : Inv decrypt s t) (r : Render κ) : Inv decrypt (resolve s r) t := by
  obtain ⟨phase, -, heq | ⟨id, hid, heq⟩⟩ := resolve_cases s r
  · rw [heq]
    exact h.phase phase
  · rw [heq]
    exact { h with linkId := fun id' hid' ↦ by cases hid'; exact hid }

theorem Inv.gate (h : Inv decrypt s t) (hr : s.rendered = some r)
    (hintent : r.wantsOpen = true → s.wantsOpen = true) :
    Inv decrypt (gate s r).1 ((gate s r).2 ++ t) := by
  rcases gate_cases s r with ⟨phase, -, heq⟩ | ⟨phase, -, heq⟩ | ⟨hwants, heq⟩
  · rw [heq]
    exact h.phase phase
  · rw [heq]
    exact h.drop.phase phase
  · rw [heq]
    refine h.drop.runOpen hr ?_
    have htaps := h.taps
    rw [hintent hwants] at htaps
    exact htaps

theorem resolve_frame (s : State κ) (r : Render κ) :
    (WebFlow.resolve s r).rendered = s.rendered ∧ (WebFlow.resolve s r).wantsOpen = s.wantsOpen ∧
      (WebFlow.resolve s r).gates = s.gates := by
  obtain ⟨phase, -, heq | ⟨id, -, heq⟩⟩ := resolve_cases s r
  · rw [heq]
    exact ⟨rfl, rfl, rfl⟩
  · rw [heq]
    exact ⟨rfl, rfl, rfl⟩

theorem Inv.effects (h : Inv decrypt s t) (hr : s.rendered = some r) (hintent : Intent s) :
    Inv decrypt (effects s r).1 ((effects s r).2 ++ t) := by
  have hresolved : ∃ s₀, (if s.resolves then WebFlow.resolve s r else s) = s₀ ∧ Inv decrypt s₀ t ∧
      s₀.rendered = some r ∧ s₀.wantsOpen = s.wantsOpen := by
    split
    · obtain ⟨hrendered, hwants, -⟩ := resolve_frame s r
      exact ⟨_, rfl, h.resolve r, hrendered.trans hr, hwants⟩
    · exact ⟨_, rfl, h, hr, rfl⟩
  obtain ⟨s₀, heq, h₀, hr₀, hwants⟩ := hresolved
  unfold WebFlow.effects
  rw [heq]
  dsimp only
  split
  · rename_i hgates
    have hgate := h₀.gate hr₀ fun hr' ↦ hwants.trans (hintent r hr hgates hr')
    exact { hgate with }
  · exact { h₀ with }

/-- Nothing is out after the settling, and the trace says what was made. -/
theorem Inv.settle (h : Inv decrypt s t) {number : Nat} {fetch : Fetch} {post : Post κ}
    (hpost : s.pending.find? (·.number = number) = some post) :
    Inv decrypt (settle { s with pending := s.pending.filter (·.number ≠ number) }
      (decrypt fetch post.id post.keys)) (.settled number (decrypt fetch post.id post.keys) :: t) := by
  rcases h.requests with ⟨-, hpending, -⟩ | ⟨post', -, hpending, hrequest⟩
  · rw [hpending] at hpost
    cases hpost
  rw [hpending] at hpost
  have hmem := List.mem_of_find?_eq_some hpost
  obtain rfl := List.mem_singleton.mp hmem
  have hnumber : post.number = number := by simpa using List.find?_some hpost
  have hempty : s.pending.filter (·.number ≠ number) = [] := by
    rw [hpending]
    simp [hnumber]
  have hsettled : Justified decrypt (.settled number (decrypt fetch post.id post.keys)) t :=
    ⟨post, fetch, hrequest, hnumber, rfl⟩
  rw [hempty]
  cases hout : decrypt fetch post.id post.keys with
  | ok out =>
    rw [hout] at hsettled
    exact { h with
      output := rfl
      requests := .inl ⟨rfl, rfl, rfl⟩
      past := Machine.past_cons.mpr ⟨hsettled, h.past⟩ }
  | error err =>
    rw [hout] at hsettled
    exact { h with
      requests := .inl ⟨rfl, rfl, rfl⟩
      past := Machine.past_cons.mpr ⟨hsettled, h.past⟩ }

theorem Intent.runOpen (h : Intent s) (r : Render κ) : Intent (WebFlow.runOpen s r).1 := by
  rcases runOpen_cases s r with heq | ⟨id, -, -, -, heq⟩
  · rw [heq]
    exact h
  · rw [heq]
    exact h

theorem Inv.close (h : Inv decrypt s t) : Inv decrypt (close s) (.closed :: t) :=
  { h with
    output := rfl
    past := Machine.past_cons.mpr ⟨trivial, h.past⟩ }

theorem Inv.step (h : Inv decrypt s t ∧ Intent s) (hstep : step decrypt s a = some (s', es)) :
    Inv decrypt s' (es ++ t) ∧ Intent s' := by
  obtain ⟨h, hintent⟩ := h
  cases a with
  | identity next =>
    cases hstep
    exact ⟨{ h with identity := rfl, past := Machine.past_cons.mpr ⟨trivial, h.past⟩ }, hintent⟩
  | retire keys =>
    cases hstep
    exact ⟨{ h with identity := rfl, past := Machine.past_cons.mpr ⟨trivial, h.past⟩ }, hintent⟩
  | navigate pathname search =>
    cases hstep
    exact ⟨{ h with }, hintent⟩
  | render =>
    obtain ⟨-, heq⟩ := Option.ite_none_left_eq_some.mp hstep
    cases heq
    constructor
    · exact { h with
        rendered := rfl
        shown := fun r hr id hid ↦ by cases hr; exact h.linkId id hid
        past := Machine.past_cons.mpr ⟨h.output, h.past⟩ }
    · intro r hr _ hwants
      cases hr
      exact hwants
  | effects =>
    obtain ⟨r, hr, heq⟩ := Option.bind_eq_some_iff.mp hstep
    cases heq
    exact ⟨h.effects hr hintent, fun _ _ hgates ↦ by cases hgates⟩
  | onOpen =>
    obtain ⟨r, hr, hrest⟩ := Option.bind_eq_some_iff.mp hstep
    obtain ⟨hguard, heq⟩ := Option.ite_none_left_eq_some.mp hrest
    cases heq
    simp only [Bool.or_eq_true, decide_eq_true_eq, not_or, ne_eq, not_not, Bool.not_eq_true] at hguard
    obtain ⟨⟨hphase, hlink⟩, hfired⟩ := hguard
    have hnone : t.countP Event.isOnOpen = 0 := by rw [h.fired, hfired]; rfl
    obtain ⟨id, hid⟩ := Option.isSome_iff_exists.mp (by simpa using hlink : r.linkId.isSome = true)
    have htap : Justified decrypt .onOpen t :=
      ⟨hnone, r, id, h.rendered.symm.trans hr, hphase, hid⟩
    refine ⟨{ h with fired := ?_, taps := ?_, past := Machine.past_cons.mpr ⟨htap, h.past⟩ },
      fun _ _ _ _ ↦ rfl⟩
    · show List.countP _ (_ :: t) = 1
      rw [List.countP_cons_of_pos rfl, hnone]
    · have htaps := h.taps
      have hwants := Bool.toNat_le s.wantsOpen
      simp [List.countP_cons, Event.isPosted, Event.isOnOpen, Event.isOnRetry]
      omega
  | onRetry =>
    obtain ⟨r, hr, hrest⟩ := Option.bind_eq_some_iff.mp hstep
    obtain ⟨hguard, heq⟩ := Option.ite_none_left_eq_some.mp hrest
    cases heq
    have htap : Justified decrypt .onRetry t := ⟨r, h.rendered.symm.trans hr, not_not.mp hguard⟩
    have hcount : (Event.onRetry :: t).countP Event.isOnRetry = t.countP Event.isOnRetry + 1 :=
      List.countP_cons_of_pos rfl
    have htaps : (Event.onRetry :: t).countP Event.isPosted + s.wantsOpen.toNat <
        (Event.onRetry :: t).countP Event.isOnOpen + (Event.onRetry :: t).countP Event.isOnRetry := by
      rw [hcount]
      exact Nat.lt_succ_of_le h.taps
    have htapped : Inv decrypt s (.onRetry :: t) :=
      { h with
        taps := Nat.le_of_lt htaps
        past := Machine.past_cons.mpr ⟨htap, h.past⟩ }
    rw [List.append_assoc]
    exact ⟨htapped.runOpen hr htaps, hintent.runOpen r⟩
  | onClose =>
    obtain ⟨r, -, hrest⟩ := Option.bind_eq_some_iff.mp hstep
    obtain ⟨-, heq⟩ := Option.ite_none_right_eq_some.mp hrest
    cases heq
    exact ⟨h.close, hintent⟩
  | onDone =>
    obtain ⟨r, -, hrest⟩ := Option.bind_eq_some_iff.mp hstep
    obtain ⟨-, heq⟩ := Option.ite_none_right_eq_some.mp hrest
    cases heq
    exact ⟨h.close, hintent⟩
  | settle number fetch =>
    obtain ⟨post, hpost, heq⟩ := Option.bind_eq_some_iff.mp hstep
    cases heq
    refine ⟨h.settle hpost, ?_⟩
    cases decrypt fetch post.id post.keys with
    | ok out => exact hintent
    | error err => exact hintent

theorem inv {pathname search : String} (h : (machine decrypt pathname search).Run s t) :
    Inv decrypt s t ∧ Intent s := by
  have hinit : Inv decrypt (machine decrypt pathname search).init [] := by
    constructor
    · rfl
    · rfl
    · rfl
    · exact .inl ⟨rfl, rfl, rfl⟩
    · exact fun _ hid ↦ by cases hid
    · exact fun _ hr ↦ by cases hr
    · rfl
    · rfl
    · exact Machine.past_nil
  have hintent : Intent (machine decrypt pathname search).init := fun _ hr ↦ by cases hr
  exact h.invariant (P := fun s t ↦ Inv decrypt s t ∧ Intent s) ⟨hinit, hintent⟩ Inv.step

/-! ## What waits for the identity -/

/-- Until the first POST, and what it needs. -/
structure Waiting (s : State κ) (t : List (Event κ)) : Prop where
  tapped : s.wantsOpen = true → s.fired = true ∧ s.linkId ≠ none ∧ s.rendered ≠ none
  posted : t.countP Event.isPosted ≠ 0 → s.fired = true ∧ s.wantsOpen = false
  pending : s.pending ≠ [] → t.countP Event.isPosted ≠ 0
  network : s.phase = .network → t.countP Event.isPosted ≠ 0
  shown : ∀ r, s.rendered = some r → (r.phase = .network → t.countP Event.isPosted ≠ 0) ∧
    (r.linkId ≠ none → s.linkId ≠ none) ∧ r.version ≤ s.version

theorem countP_posted (post : Post κ) (t : List (Event κ)) :
    (.posted post :: t).countP Event.isPosted ≠ 0 := by
  rw [List.countP_cons_of_pos rfl]
  exact Nat.succ_ne_zero _

theorem Waiting.runOpen (h : Waiting s t) (hfired : s.fired = true ∧ s.wantsOpen = false) (r : Render κ) :
    Waiting (runOpen s r).1 ((runOpen s r).2 ++ t) := by
  rcases runOpen_cases s r with heq | ⟨id, -, -, -, heq⟩
  · rw [heq]
    exact h
  · rw [heq]
    have hposted := countP_posted ⟨s.posts, id, s.identity.getAllPrivateKeysForDecrypt⟩ t
    exact { h with
      posted := fun _ ↦ hfired
      pending := fun _ ↦ hposted
      network := fun _ ↦ hposted
      shown := fun r hr ↦ ⟨fun _ ↦ hposted, (h.shown r hr).2⟩ }

theorem Waiting.phase (h : Waiting s t) {phase : Phase} (hphase : Quiet s phase) :
    Waiting { s with phase := phase } t :=
  { h with network := fun hnetwork ↦ h.network (hphase hnetwork) }

theorem Waiting.drop (h : Waiting s t) : Waiting { s with wantsOpen := false } t :=
  { h with
    tapped := fun hwants ↦ by cases hwants
    posted := fun hposted ↦ ⟨(h.posted hposted).1, rfl⟩ }

theorem Waiting.resolve (h : Waiting s t) (r : Render κ) : Waiting (resolve s r) t := by
  obtain ⟨phase, hphase, heq | ⟨id, -, heq⟩⟩ := resolve_cases s r
  · rw [heq]
    exact h.phase hphase
  · rw [heq]
    have hlinked : some id ≠ none := Option.some_ne_none id
    exact { h.phase hphase with
      tapped := fun hwants ↦ ⟨(h.tapped hwants).1, hlinked, (h.tapped hwants).2.2⟩
      shown := fun r hr ↦ ⟨(h.shown r hr).1, fun _ ↦ hlinked, (h.shown r hr).2.2⟩ }

theorem Waiting.gate (h : Waiting s t) (hintent : r.wantsOpen = true → s.wantsOpen = true) :
    Waiting (gate s r).1 ((gate s r).2 ++ t) := by
  rcases gate_cases s r with ⟨phase, hphase, heq⟩ | ⟨phase, hphase, heq⟩ | ⟨hwants, heq⟩
  · rw [heq]
    exact h.phase hphase
  · rw [heq]
    exact h.drop.phase hphase
  · rw [heq]
    exact h.drop.runOpen ⟨(h.tapped (hintent hwants)).1, rfl⟩ r

theorem Waiting.effects (h : Waiting s t) (hr : s.rendered = some r) (hintent : Intent s) :
    Waiting (effects s r).1 ((effects s r).2 ++ t) := by
  have hresolved : ∃ s₀, (if s.resolves then WebFlow.resolve s r else s) = s₀ ∧ Waiting s₀ t ∧
      s₀.wantsOpen = s.wantsOpen := by
    split
    · exact ⟨_, rfl, h.resolve r, (resolve_frame s r).2.1⟩
    · exact ⟨_, rfl, h, rfl⟩
  obtain ⟨s₀, heq, h₀, hwants⟩ := hresolved
  unfold WebFlow.effects
  rw [heq]
  dsimp only
  split
  · rename_i hgates
    have hgate := h₀.gate fun hr' ↦ hwants.trans (hintent r hr hgates hr')
    exact { hgate with }
  · exact { h₀ with }

/-- An event that is no POST. -/
theorem Waiting.event (h : Waiting s t) {e : Event κ} (he : ¬(e.isPosted = true)) : Waiting s (e :: t) := by
  have hcount : (e :: t).countP Event.isPosted = t.countP Event.isPosted := List.countP_cons_of_neg he
  constructor
  · exact h.tapped
  · rw [hcount]
    exact h.posted
  · rw [hcount]
    exact h.pending
  · rw [hcount]
    exact h.network
  · rw [hcount]
    exact h.shown

theorem Waiting.close (h : Waiting s t) : Waiting (close s) (.closed :: t) :=
  { h.event (e := .closed) Bool.false_ne_true with network := fun hnetwork ↦ by cases hnetwork }

theorem Waiting.settle (h : Waiting s t) {number : Nat} {post : Post κ}
    (hpost : s.pending.find? (·.number = number) = some post)
    (outcome : Except OpenError FetchAndOpenOutput) :
    Waiting (settle { s with pending := s.pending.filter (·.number ≠ number) } outcome)
      (.settled number outcome :: t) := by
  have hpending : s.pending ≠ [] := List.ne_nil_of_mem (List.mem_of_find?_eq_some hpost)
  have hposted := h.pending hpending
  have hevent := h.event (e := .settled number outcome) Bool.false_ne_true
  cases outcome with
  | ok out => exact { hevent with pending := fun _ ↦ hposted, network := fun _ ↦ hposted }
  | error err => exact { hevent with pending := fun _ ↦ hposted, network := fun _ ↦ hposted }

theorem Waiting.step (h : Waiting s t ∧ Intent s) (hstep : step decrypt s a = some (s', es)) :
    Waiting s' (es ++ t) := by
  obtain ⟨h, hintent⟩ := h
  cases a with
  | identity next =>
    cases hstep
    refine { h.event (e := .identity next) Bool.false_ne_true with shown := ?_ }
    intro r hr
    obtain ⟨hnetwork, hlinked, hversion⟩ := h.shown r hr
    refine ⟨hnetwork, hlinked, ?_⟩
    dsimp only
    split
    · exact hversion
    · exact Nat.le_succ_of_le hversion
  | retire keys =>
    cases hstep
    exact { h.event (e := .identity (s.identity.retire keys)) Bool.false_ne_true with }
  | navigate pathname search =>
    cases hstep
    exact { h with }
  | render =>
    obtain ⟨-, heq⟩ := Option.ite_none_left_eq_some.mp hstep
    cases heq
    have hevent := h.event (e := .rendered s.capture) Bool.false_ne_true
    refine { hevent with tapped := ?_, shown := ?_ }
    · intro hwants
      obtain ⟨hfired, hlinked, -⟩ := h.tapped hwants
      exact ⟨hfired, hlinked, Option.some_ne_none _⟩
    · intro r hr
      cases hr
      exact ⟨hevent.network, id, Nat.le_refl _⟩
  | effects =>
    obtain ⟨r, hr, heq⟩ := Option.bind_eq_some_iff.mp hstep
    cases heq
    exact h.effects hr hintent
  | onOpen =>
    obtain ⟨r, hr, hrest⟩ := Option.bind_eq_some_iff.mp hstep
    obtain ⟨hguard, heq⟩ := Option.ite_none_left_eq_some.mp hrest
    cases heq
    simp only [Bool.or_eq_true, decide_eq_true_eq, not_or, ne_eq, not_not, Bool.not_eq_true] at hguard
    obtain ⟨⟨-, hlink⟩, hfired⟩ := hguard
    have hlinked : r.linkId ≠ none := by
      intro hnone
      rw [hnone] at hlink
      cases hlink
    have hnone : ¬(t.countP Event.isPosted ≠ 0) := fun hposted ↦ by
      cases hfired.symm.trans (h.posted hposted).1
    have hevent := h.event (e := .onOpen) Bool.false_ne_true
    exact { hevent with
      tapped := fun _ ↦ ⟨rfl, (h.shown r hr).2.1 hlinked, by rw [hr]; exact Option.some_ne_none r⟩
      posted := fun hposted ↦ absurd hposted hnone }
  | onRetry =>
    obtain ⟨r, hr, hrest⟩ := Option.bind_eq_some_iff.mp hstep
    obtain ⟨hguard, heq⟩ := Option.ite_none_left_eq_some.mp hrest
    cases heq
    rw [List.append_assoc]
    have hposted := h.posted ((h.shown r hr).1 (not_not.mp hguard))
    exact (h.event (e := .onRetry) Bool.false_ne_true).runOpen hposted r
  | onClose =>
    obtain ⟨r, -, hrest⟩ := Option.bind_eq_some_iff.mp hstep
    obtain ⟨-, heq⟩ := Option.ite_none_right_eq_some.mp hrest
    cases heq
    exact h.close
  | onDone =>
    obtain ⟨r, -, hrest⟩ := Option.bind_eq_some_iff.mp hstep
    obtain ⟨-, heq⟩ := Option.ite_none_right_eq_some.mp hrest
    cases heq
    exact h.close
  | settle number fetch =>
    obtain ⟨post, hpost, heq⟩ := Option.bind_eq_some_iff.mp hstep
    cases heq
    exact h.settle hpost _

theorem waiting {pathname search : String} (h : (machine decrypt pathname search).Run s t) :
    Waiting s t := by
  induction h with
  | init =>
    constructor
    · exact fun h ↦ by cases h
    · exact fun h ↦ absurd rfl h
    · exact fun h ↦ absurd rfl h
    · exact fun h ↦ by cases h
    · exact fun _ h ↦ by cases h
  | step before hstep ih => exact Waiting.step ⟨ih, (inv before).2⟩ hstep

/-- A render with an identity that is unlocked opens the link that was tapped. -/
theorem effects_unlocked {id : String} {active : κ} {retired : List κ} (hgates : s.gates = true)
    (hwants : r.wantsOpen = true) (hidentity : r.identity = .unlocked active retired)
    (hlink : r.linkId = some id) (hidle : s.inFlight = false) :
    (effects s r).2 = [.posted ⟨s.posts, id, s.identity.getAllPrivateKeysForDecrypt⟩] ∧
      (effects s r).1.wantsOpen = false := by
  have hresolved : ∃ s₀, (if s.resolves then resolve s r else s) = s₀ ∧ s₀.gates = true ∧
      s₀.inFlight = false ∧ s₀.posts = s.posts ∧ s₀.identity = s.identity := by
    split
    · refine ⟨_, rfl, ?_⟩
      obtain ⟨phase, -, heq | ⟨id, -, heq⟩⟩ := resolve_cases s r
      · rw [heq]
        exact ⟨hgates, hidle, rfl, rfl⟩
      · rw [heq]
        exact ⟨hgates, hidle, rfl, rfl⟩
    · exact ⟨_, rfl, hgates, hidle, rfl, rfl⟩
  obtain ⟨s₀, heq, -, hidle₀, hposts, hkeys⟩ := hresolved
  have hgate : gate s₀ r = (State.sent { s₀ with wantsOpen := false } id,
      [.posted ⟨s₀.posts, id, s₀.identity.getAllPrivateKeysForDecrypt⟩]) := by
    unfold gate runOpen
    rw [hwants, hidentity, hlink]
    dsimp only
    rw [hidle₀]
    rfl
  unfold effects
  rw [heq]
  dsimp only
  rw [if_pos hgates, hgate, hposts, hkeys]
  exact ⟨rfl, rfl⟩

theorem same_unlocked (identity : Identity κ) (active : κ) (retired : List κ) :
    identity.same (.unlocked active retired) = false := by
  cases identity with
  | loading | noIdentity | locked | unlocked active' retired' => rfl

/-- What the last settling and the last closing say of the output. -/
theorem output_eq_some {out : FetchAndOpenOutput} (h : output t = some out) :
    ∃ after number before, t = after ++ .settled number (.ok out) :: before ∧ .closed ∉ after ∧
      ∀ number' outcome, .settled number' outcome ∈ after → ∃ err, outcome = .error err := by
  induction t with
  | nil => cases h
  | cons e t ih =>
    have hlater (hquiet : output (e :: t) = output t) (hclosed : e ≠ .closed)
        (hsettled : ∀ number outcome, e = .settled number outcome → ∃ err, outcome = .error err) :
        ∃ after number before, e :: t = after ++ .settled number (.ok out) :: before ∧
          .closed ∉ after ∧
          ∀ number' outcome, .settled number' outcome ∈ after → ∃ err, outcome = .error err := by
      obtain ⟨after, number, before, ht, hnone, herrors⟩ := ih (hquiet.symm.trans h)
      refine ⟨e :: after, number, before, by rw [ht]; rfl, ?_, ?_⟩
      · exact List.not_mem_cons_of_ne_of_not_mem hclosed.symm hnone
      · intro number' outcome hmem
        rcases List.mem_cons.mp hmem with heq | hmem
        · exact hsettled number' outcome heq.symm
        · exact herrors number' outcome hmem
    cases e with
    | identity next => exact hlater rfl (by simp) (by simp)
    | rendered r => exact hlater rfl (by simp) (by simp)
    | onOpen => exact hlater rfl (by simp) (by simp)
    | onRetry => exact hlater rfl (by simp) (by simp)
    | posted post => exact hlater rfl (by simp) (by simp)
    | closed => cases h
    | settled number outcome =>
      cases outcome with
      | ok out' =>
        cases h
        exact ⟨[], number, t, rfl, List.not_mem_nil, fun _ _ hmem ↦ by cases hmem⟩
      | error err => exact hlater rfl (by simp) fun _ _ heq ↦ by cases heq; exact ⟨err, rfl⟩

end Runs

/-! ## The page -/

section Page

variable {H : Hpke} {otherDate : String → Option Store.Instant} {pathname search : String}
  {s : State (IdentityKeypair H)} {t : List (Event (IdentityKeypair H))}

/-- Every POST is for a link id on the screen, from a render with an identity that is unlocked, and while
no other is out; and there are no more of them than taps, of which one is on the landing screen. -/
theorem single_open (h : (machine (Web.openAndDecrypt H otherDate) pathname search).Run s t) :
    Machine.Past (Justified (Web.openAndDecrypt H otherDate)) t ∧ t.countP Event.isOnOpen ≤ 1 ∧
      t.countP Event.isPosted ≤ t.countP Event.isOnOpen + t.countP Event.isOnRetry := by
  obtain ⟨hinv, -⟩ := inv h
  refine ⟨hinv.past, ?_, Nat.le_trans (Nat.le_add_right _ _) hinv.taps⟩
  rw [hinv.fired]
  exact Bool.toNat_le s.fired

theorem mem_of_request {post : Post (IdentityKeypair H)} (h : request t = some post) :
    .posted post ∈ t := by
  induction t with
  | nil => cases h
  | cons e t ih =>
    cases e with
    | posted post' =>
      cases h
      exact List.mem_cons_self
    | settled number outcome => cases h
    | identity next | rendered r | onOpen | onRetry | closed => exact List.mem_cons_of_mem _ (ih h)

/-- A message on the screen was decrypted from the answer of a POST of this page, and nothing has been
closed or opened since. -/
theorem output_shown (h : (machine (Web.openAndDecrypt H otherDate) pathname search).Run s t)
    {t₁ t₂ : List (Event (IdentityKeypair H))} {r : Render (IdentityKeypair H)} {out : FetchAndOpenOutput}
    (ht : t = t₂ ++ .rendered r :: t₁) (hout : r.output = some out) :
    ∃ post fetch after before, t₁ = after ++ .settled post.number (.ok out) :: before ∧
      Web.openAndDecrypt H otherDate fetch post.id post.keys = .ok out ∧ .posted post ∈ before ∧
      .closed ∉ after ∧
      ∀ number outcome, .settled number outcome ∈ after → ∃ err, outcome = .error err := by
  have hpast := (inv h).1.past
  have hrendered : r.output = output t₁ := hpast t₂ t₁ _ ht
  obtain ⟨after, number, before, ht₁, hclosed, herrors⟩ := output_eq_some (hrendered.symm.trans hout)
  have hsettled : Justified (Web.openAndDecrypt H otherDate) (.settled number (.ok out)) before :=
    hpast (t₂ ++ .rendered r :: after) before _ (by rw [ht, ht₁, List.append_assoc]; rfl)
  obtain ⟨post, fetch, hrequest, rfl, hdecrypt⟩ := hsettled
  exact ⟨post, fetch, after, before, ht₁, hdecrypt.symm, mem_of_request hrequest, hclosed, herrors⟩

/-- A tap waits for the identity: its unlock is followed by the POST. -/
theorem intent_kept (h : (machine (Web.openAndDecrypt H otherDate) pathname search).Run s t)
    (hwants : s.wantsOpen = true) (hresolves : s.resolves = false) (hgates : s.gates = false) :
    ∃ id, s.linkId = some id ∧ isLinkId id = true ∧ ∀ active retired, ∃ s' r,
      (machine (Web.openAndDecrypt H otherDate) pathname search).exec
        [.identity (.unlocked active retired), .render, .effects] s t =
          some (s', .posted ⟨s.posts, id, active :: retired⟩ :: .rendered r ::
            .identity (.unlocked active retired) :: t) ∧ s'.wantsOpen = false := by
  have hwaiting := waiting h
  obtain ⟨hinv, -⟩ := inv h
  obtain ⟨-, hlinked, hrendered⟩ := hwaiting.tapped hwants
  obtain ⟨id, hid⟩ := Option.ne_none_iff_exists'.mp hlinked
  obtain ⟨r₀, hr₀⟩ := Option.ne_none_iff_exists'.mp hrendered
  have hidle : s.inFlight = false := by
    rcases hinv.requests with ⟨hidle, -, -⟩ | ⟨post, -, hpending, -⟩
    · exact hidle
    · have hposted := hwaiting.posted (hwaiting.pending (by rw [hpending]; exact List.cons_ne_nil _ _))
      cases hwants.symm.trans hposted.2
  refine ⟨id, hid, hinv.linkId id hid, fun active retired ↦ ?_⟩
  have hversion : r₀.version ≠ s.version + 1 := by
    have hle := ((hwaiting.shown r₀ hr₀).2).2
    omega
  let s₁ : State (IdentityKeypair H) :=
    { s with identity := .unlocked active retired, version := s.version + 1 }
  have hdeps : (render s₁).gates = true := by
    show s.rendered.all (fun r ↦ decide (r.deps ≠ s₁.capture.deps)) = true
    rw [hr₀]
    exact decide_eq_true fun heq ↦ hversion (Prod.ext_iff.mp (Prod.ext_iff.mp heq).2).1
  have heffects := effects_unlocked (s := render s₁) (r := s₁.capture) hdeps hwants rfl hid hidle
  refine ⟨(effects (render s₁) s₁.capture).1, s₁.capture, ?_, heffects.2⟩
  have hidentity : step (Web.openAndDecrypt H otherDate) s (.identity (.unlocked active retired)) =
      some (s₁, [.identity (.unlocked active retired)]) := by
    show some ({ s with
      identity := .unlocked active retired
      version := if s.identity.same (.unlocked active retired) then s.version else s.version + 1 }, _) = _
    rw [same_unlocked]
    rfl
  have hrender : step (Web.openAndDecrypt H otherDate) s₁ .render =
      some (render s₁, [.rendered s₁.capture]) := by
    show (if s.resolves || s.gates then none else some (render s₁, [Event.rendered s₁.capture])) = _
    rw [hresolves, hgates]
    rfl
  have hgate : step (Web.openAndDecrypt H otherDate) (render s₁) .effects =
      some ((effects (render s₁) s₁.capture).1, [.posted ⟨s.posts, id, active :: retired⟩]) :=
    congrArg some (Prod.ext rfl heffects.1)
  simp only [Machine.exec, machine, hidentity, hrender, hgate]
  rfl

end Page

/-! ## A locked recipient -/

/-- A tap on the landing screen, and the screen of the unlock. -/
def lockedActions : List (Action (IdentityKeypair Hpke.transparent)) :=
  [.render, .effects, .render, .effects, .onOpen, .identity .locked, .render, .effects]

def unlockedActions : List (Action (IdentityKeypair Hpke.transparent)) :=
  lockedActions ++ [.identity (.unlocked (repeatedKey 0) []), .render, .effects]

/-- The page of a link. -/
def samplePage := machine (Web.openAndDecrypt Hpke.transparent fun _ ↦ none) "/l/AAAAAAAAAAAAAAAA" ""

theorem intent_kept_locked : ∃ s t s' t',
    samplePage.exec lockedActions samplePage.init [] = some (s, t) ∧
      samplePage.exec [.identity (.unlocked (repeatedKey 0) []), .render, .effects] s t =
        some (s', .posted ⟨0, "AAAAAAAAAAAAAAAA", [repeatedKey 0]⟩ :: t') := by
  obtain ⟨s, t, hexec, hwants, hresolves, hgates, hlink, hposts⟩ : ∃ s t,
      samplePage.exec lockedActions samplePage.init [] = some (s, t) ∧ s.wantsOpen = true ∧
        s.resolves = false ∧ s.gates = false ∧ s.linkId = some "AAAAAAAAAAAAAAAA" ∧ s.posts = 0 :=
    ⟨_, _, rfl, rfl, rfl, rfl, rfl, rfl⟩
  obtain ⟨id, hid, -, hopened⟩ := intent_kept (Machine.run_of_exec hexec) hwants hresolves hgates
  obtain ⟨s', r, hnext, -⟩ := hopened (repeatedKey 0) []
  cases hid.symm.trans hlink
  rw [hposts] at hnext
  exact ⟨s, t, s', _, hexec, hnext⟩

def sampleInput : CreateAndSealInput where
  recipientPublicKeyString := (repeatedKey 0).publicKeyString
  message := "hi"
  expiresAt := some ⟨1778500800000, by decide⟩
  maxOpens := .int 1
  attachment := none

theorem sample_opens : ∃ fetch out, Web.openAndDecrypt Hpke.transparent (fun _ ↦ none) fetch
    "AAAAAAAAAAAAAAAA" [repeatedKey 0] = .ok out := by
  let recipient : RecipientPublicKey Hpke.transparent :=
    ⟨List.replicate RAW_X25519_PUBKEY_LEN 0, List.replicate RAW_X25519_PUBKEY_LEN 0⟩
  have himported : importPublicKey Hpke.transparent sampleInput.recipientPublicKeyString =
      .ok recipient := by
    unfold importPublicKey sampleInput
    rw [decodePubkey_encodePubkey (repeatedKey_wellFormed 0)]
    rfl
  let sealed := encodePayload sampleInput.payload >>= fun plaintext ↦
    «seal» Hpke.transparent plaintext recipient (sampleInput.context "AAAAAAAAAAAAAAAA") ()
  obtain ⟨blob, hblob⟩ := Result.exists_eq_ok (x := sealed) (by decide +kernel)
  have hblob' : blob ≠ [] := by
    rintro rfl
    have hsome : (sealed.map List.isEmpty).toOption = some false := by decide +kernel
    rw [hblob] at hsome
    cases hsome
  obtain ⟨plaintext, hencoded, hseal⟩ := Result.bind_eq_ok.mp hblob
  let row : LinkMetadata := ⟨"AAAAAAAAAAAAAAAA", .active, none, 1778500800000, 1, 1⟩
  have hrow : RowOf sampleInput row := ⟨rfl, ⟨_, rfl, rfl⟩, rfl⟩
  have hread : ReadBack Hpke.transparent (fun _ ↦ none) sampleInput "AAAAAAAAAAAAAAAA"
      (Api.Response.delivered blob row).render row (repeatedKey 0) :=
    readBack Hpke.transparent_lawful himported hencoded hseal hblob' hrow (repeatedKey_holds 0)
  obtain ⟨out, hout, -⟩ := hread.web [repeatedKey 0] List.mem_cons_self
  exact ⟨_, out, hout⟩

/-- The message on the screen, after an answer that can be decrypted. -/
theorem sample_opened {fetch : Fetch} {out : FetchAndOpenOutput}
    (hout : Web.openAndDecrypt Hpke.transparent (fun _ ↦ none) fetch "AAAAAAAAAAAAAAAA"
      [repeatedKey 0] = .ok out) :
    ∃ s r t, samplePage.Run s (.rendered r :: t) ∧ r.phase = .decrypted ∧ r.output = some out := by
  obtain ⟨s, t, hexec, hstep, hidle⟩ : ∃ s t,
      samplePage.exec unlockedActions samplePage.init [] = some (s, t) ∧
      samplePage.step s (.settle 0 fetch) = some (settle { s with pending := [] }
        (Web.openAndDecrypt Hpke.transparent (fun _ ↦ none) fetch "AAAAAAAAAAAAAAAA" [repeatedKey 0]),
        [.settled 0 (Web.openAndDecrypt Hpke.transparent (fun _ ↦ none) fetch "AAAAAAAAAAAAAAAA"
          [repeatedKey 0])]) ∧ s.resolves = false ∧ s.gates = false := ⟨_, _, rfl, rfl, rfl, rfl⟩
  have hrun := (Machine.run_of_exec hexec).step hstep
  rw [hout] at hrun
  have hrender : samplePage.step (settle { s with pending := [] } (.ok out)) .render =
      some (render (settle { s with pending := [] } (.ok out)),
        [.rendered (settle { s with pending := [] } (.ok out)).capture]) := by
    show (if s.resolves || s.gates then none else some _) = _
    rw [hidle.1, hidle.2]
    rfl
  exact ⟨_, _, _, hrun.step hrender, rfl, rfl⟩

theorem single_open_sample : ∃ s t, samplePage.Run s t ∧ t.countP Event.isPosted = 1 ∧
    t.countP Event.isOnOpen ≤ 1 := by
  obtain ⟨s, t, hexec, hposted⟩ : ∃ s t, samplePage.exec unlockedActions samplePage.init [] = some (s, t) ∧
      t.countP Event.isPosted = 1 := ⟨_, _, rfl, rfl⟩
  have hrun := Machine.run_of_exec hexec
  exact ⟨s, t, hrun, hposted, (single_open hrun).2.1⟩

theorem output_shown_sample : ∃ s r t out, samplePage.Run s (.rendered r :: t) ∧
    r.output = some out ∧ ∃ post fetch, .posted post ∈ t ∧
      Web.openAndDecrypt Hpke.transparent (fun _ ↦ none) fetch post.id post.keys = .ok out := by
  obtain ⟨fetch, out, hout⟩ := sample_opens
  obtain ⟨s, r, t, hrun, -, hr⟩ := sample_opened hout
  have ht : .rendered r :: t = [] ++ .rendered r :: t := rfl
  obtain ⟨post, fetch', after, before, rfl, hdecrypt, hposted, -⟩ := output_shown hrun ht hr
  have hmem := List.mem_append_right after (List.mem_cons_of_mem (.settled post.number (.ok out)) hposted)
  exact ⟨s, r, _, out, hrun, hr, post, fetch', hmem, hdecrypt⟩

end Aesmsg.Reader.WebFlow
