import Aesmsg.Client.Transport
import Aesmsg.Lib.Machine

/-!
# The open coordinator

`apps/mobile/src/reader/open-coordinator.ts`.  A POST settles once, at any later time; the POSTs are
numbered as they are started, and a session and its promise are known by the number of their POST.

## Main results

- `exactly_once`: of every order of calls and settlements, one POST for a link until it is released, and
  no answer but that of the link's own POST.
-/

namespace Aesmsg.Reader.Open

open Store Client

inductive OpenPhase where
  | idle
  | inFlight
  | held
deriving DecidableEq

/-- A session object.  `===` compares its number. -/
structure Session where
  ref : Nat
  id : LinkId
  phase : OpenPhase
  response : Option OpenMessageResponse
  /-- The promise of the POST, none where `run` threw before it returned one. -/
  promise : Option Nat

structure OpenSnapshot where
  phase : OpenPhase
  response : Option OpenMessageResponse
  promise : Option Nat

/-- What a call of `begin` returns, or that `run` threw in it. -/
inductive BeginResult where
  | started (promise : Nat)
  | joined (promise : Nat)
  | held (response : OpenMessageResponse)
  | threw (post : Nat)

/-- The POST that a call has started, by its call of `run`. -/
def BeginResult.ran : BeginResult → Option Nat
  | started post | threw post => some post
  | joined _ | held _ => none

/-- The coordinator, the number of POSTs that were started and those that have not settled. -/
structure OpenCoordinator where
  current : Option Session
  posts : Nat
  pending : List Nat

namespace OpenCoordinator

def peek (s : OpenCoordinator) (id : LinkId) : Option OpenSnapshot :=
  match s.current with
  | none => none
  | some session =>
    if session.id = id then some ⟨session.phase, session.response, session.promise⟩ else none

/-- From idle to in flight: a new session, and its POST, unless `run` throws. -/
def start (s : OpenCoordinator) (id : LinkId) (throws : Bool) : OpenCoordinator × BeginResult :=
  if throws then
    (⟨some ⟨s.posts, id, .inFlight, none, none⟩, s.posts + 1, s.pending⟩, .threw s.posts)
  else
    (⟨some ⟨s.posts, id, .inFlight, none, some s.posts⟩, s.posts + 1, s.posts :: s.pending⟩,
      .started s.posts)

def «begin» (s : OpenCoordinator) (id : LinkId) (throws : Bool) : OpenCoordinator × BeginResult :=
  match s.current with
  | none => s.start id throws
  | some session =>
    if session.id = id then
      match session.phase, session.response, session.promise with
      | .held, some response, _ => (s, .held response)
      | .inFlight, _, some promise => (s, .joined promise)
      | _, _, _ => s.start id throws
    else s.start id throws

def clear (s : OpenCoordinator) (id : LinkId) : OpenCoordinator :=
  { s with current := s.current.filter (·.id ≠ id) }

/-- The callbacks of the POST: what they make of the current session. -/
def settled (post : Nat) (response : Option OpenMessageResponse) (current : Option Session) :
    Option Session :=
  match response with
  | some response => current.map fun session ↦
      if session.ref = post then { session with phase := .held, response := some response }
      else session
  | none => current.filter (·.ref ≠ post)

end OpenCoordinator

inductive Action where
  /-- A call of `begin`, with whether its `run` would throw. -/
  | «begin» (id : LinkId) (throws : Bool)
  | peek (id : LinkId)
  | clear (id : LinkId)
  /-- A POST settles, with no response where it has failed. -/
  | settle (post : Nat) (response : Option OpenMessageResponse)

inductive Event where
  | began (id : LinkId) (result : BeginResult)
  | peeked (id : LinkId) (snapshot : Option OpenSnapshot)
  | cleared (id : LinkId)
  | settled (post : Nat) (response : Option OpenMessageResponse)

/-- What a call of `begin` shows: where `run` threw, the POST has failed as well. -/
def began (id : LinkId) : BeginResult → List Event
  | .threw post => [.settled post none, .began id (.threw post)]
  | result => [.began id result]

def step (s : OpenCoordinator) : Action → Option (OpenCoordinator × List Event)
  | .begin id throws => some ((s.begin id throws).1, began id (s.begin id throws).2)
  | .peek id => some (s, [.peeked id (s.peek id)])
  | .clear id => some (s.clear id, [.cleared id])
  | .settle post response =>
    if post ∈ s.pending then
      some (⟨OpenCoordinator.settled post response s.current, s.posts, s.pending.erase post⟩,
        [.settled post response])
    else none

def machine : Machine OpenCoordinator Action Event := ⟨⟨none, 0, []⟩, step⟩

/-! ## The POST of a link -/

/-- The POST of a link, by the events: the last one that was started for it, until the link is
cleared, the POST fails or another link is begun. -/
def currentPost (id : LinkId) : List Event → Option Nat
  | [] => none
  | .began id' result :: t =>
    if id' = id then
      match result.ran with
      | some post => some post
      | none => currentPost id t
    else none
  | .peeked _ _ :: t => currentPost id t
  | .cleared id' :: t => if id' = id then none else currentPost id t
  | .settled post none :: t => (currentPost id t).filter (· ≠ post)
  | .settled _ (some _) :: t => currentPost id t

/-- Events after which another POST may be started for a link whose POST is `post`. -/
inductive Releases (id : LinkId) (post : Nat) : Event → Prop
  | cleared : Releases id post (.cleared id)
  | failed : Releases id post (.settled post none)
  | other {id' : LinkId} (result : BeginResult) (ne : id' ≠ id) : Releases id post (.began id' result)

/-- What the current session is, after these events. -/
inductive Tracks (pending : List Nat) (t : List Event) : Session → Prop
  | inFlight {ref : Nat} {id : LinkId} (post : currentPost id t = some ref) (mem : ref ∈ pending) :
    Tracks pending t ⟨ref, id, .inFlight, none, some ref⟩
  | held {ref : Nat} {id : LinkId} {response : OpenMessageResponse}
    (post : currentPost id t = some ref) (settled : .settled ref (some response) ∈ t) :
    Tracks pending t ⟨ref, id, .held, some response, some ref⟩
  | threw {ref : Nat} {id : LinkId} (post : currentPost id t = none) (not_mem : ref ∉ pending) :
    Tracks pending t ⟨ref, id, .inFlight, none, none⟩

structure Inv (s : OpenCoordinator) (t : List Event) : Prop where
  lt : ∀ post ∈ s.pending, post < s.posts
  nodup : s.pending.Nodup
  settled : ∀ post response, .settled post response ∈ t → post < s.posts ∧ post ∉ s.pending
  ran : ∀ id result post, .began id result ∈ t → result.ran = some post → post < s.posts
  session : ∀ session, s.current = some session → Tracks s.pending t session ∧ session.ref < s.posts
  /-- No other link has a POST. -/
  others : ∀ id, (∀ session, s.current = some session → session.id ≠ id) → currentPost id t = none

/-- The response is that of the current POST of the link. -/
def Own (id : LinkId) (t : List Event) (response : OpenMessageResponse) : Prop :=
  ∃ post, currentPost id t = some post ∧ .settled post (some response) ∈ t

/-- What a call of `begin` that starts no POST hands out. -/
def Answers (id : LinkId) (t : List Event) : BeginResult → Prop
  | .joined post => currentPost id t = some post
  | .held response => Own id t response
  | .started _ | .threw _ => False

section Inv

variable {s : OpenCoordinator} {t t' : List Event} {session : Session} {pending pending' : List Nat}

theorem Tracks.congr (h : Tracks pending t session)
    (hpost : currentPost session.id t' = currentPost session.id t)
    (hmem : session.ref ∈ pending' ↔ session.ref ∈ pending) (hsub : ∀ e ∈ t, e ∈ t') :
    Tracks pending' t' session := by
  cases h with
  | inFlight post mem => exact .inFlight (hpost.trans post) (hmem.mpr mem)
  | held post settled => exact .held (hpost.trans post) (hsub _ settled)
  | threw post not_mem => exact .threw (hpost.trans post) (mt hmem.mp not_mem)

/-- A session whose POST has not settled is in flight. -/
theorem Tracks.of_mem (h : Tracks pending t session)
    (hsettled : ∀ response, .settled session.ref response ∈ t → session.ref ∉ pending)
    (hmem : session.ref ∈ pending) :
    currentPost session.id t = some session.ref ∧
      session = ⟨session.ref, session.id, .inFlight, none, some session.ref⟩ := by
  cases h with
  | inFlight post _ => exact ⟨post, rfl⟩
  | held _ settled => exact absurd hmem (hsettled _ settled)
  | threw _ not_mem => exact absurd hmem not_mem

theorem inv_init : Inv machine.init [] := by
  constructor
  · intro post hpost
    cases hpost
  · exact List.nodup_nil
  · intro post response h
    cases h
  · intro id result post h
    cases h
  · rintro session ⟨⟩
  · intro id _
    rfl

/-- Where a call of `begin` starts no POST, it hands out what the link's POST makes. -/
theorem Inv.begin_cases (h : Inv s t) (id : LinkId) (throws : Bool) :
    (currentPost id t = none ∧ s.begin id throws = s.start id throws) ∨
    ∃ session result, s.current = some session ∧ session.id = id ∧
      s.begin id throws = (s, result) ∧ result.ran = none ∧ Answers id t result := by
  unfold OpenCoordinator.begin
  cases hcurrent : s.current with
  | none =>
    refine .inl ⟨h.others id ?_, rfl⟩
    rw [hcurrent]
    rintro session ⟨⟩
  | some session =>
    dsimp only
    by_cases hid : session.id = id
    · subst hid
      rw [if_pos rfl]
      cases (h.session session hcurrent).1 with
      | inFlight post _ => exact .inr ⟨_, _, rfl, rfl, rfl, rfl, post⟩
      | held post settled => exact .inr ⟨_, _, rfl, rfl, rfl, rfl, _, post, settled⟩
      | threw post _ => exact .inl ⟨post, rfl⟩
    · rw [if_neg hid]
      refine .inl ⟨h.others id ?_, rfl⟩
      intro session' hsession'
      rw [hcurrent] at hsession'
      rw [← Option.some.inj hsession']
      exact hid

/-- A snapshot shows what the link's POST makes. -/
theorem Inv.peek_eq (h : Inv s t) {id : LinkId} {snapshot : OpenSnapshot}
    (hpeek : s.peek id = some snapshot) :
    (∀ post, snapshot.promise = some post → currentPost id t = some post) ∧
      ∀ response, snapshot.response = some response → Own id t response := by
  unfold OpenCoordinator.peek at hpeek
  cases hcurrent : s.current with
  | none =>
    rw [hcurrent] at hpeek
    cases hpeek
  | some session =>
    rw [hcurrent] at hpeek
    dsimp only at hpeek
    split at hpeek
    · rename_i hid
      subst hid
      cases hpeek
      cases (h.session session hcurrent).1 with
      | inFlight hpost _ =>
        refine ⟨fun post heq ↦ ?_, fun response heq ↦ ?_⟩
        · rw [← heq]
          exact hpost
        · cases heq
      | held hpost settled =>
        refine ⟨fun post heq ↦ ?_, fun response heq ↦ ?_⟩
        · rw [← heq]
          exact hpost
        · cases heq
          exact ⟨_, hpost, settled⟩
      | threw _ _ =>
        refine ⟨fun post heq ↦ ?_, fun response heq ↦ ?_⟩
        · cases heq
        · cases heq
    · cases hpeek

theorem currentPost_began_of_ne {id id' : LinkId} (h : id' ≠ id) (result : BeginResult)
    (t : List Event) : currentPost id (.began id' result :: t) = none := if_neg h

theorem currentPost_began {id : LinkId} {result : BeginResult} (t : List Event) :
    currentPost id (.began id result :: t) = match result.ran with
      | some post => some post
      | none => currentPost id t := if_pos rfl

/-- A call that starts no POST. -/
theorem Inv.answered (h : Inv s t) {id : LinkId} {result : BeginResult} (hran : result.ran = none)
    (hcurrent : s.current = some session) (hid : session.id = id) :
    Inv s (.began id result :: t) := by
  subst hid
  have hpost : currentPost session.id (.began session.id result :: t) = currentPost session.id t := by
    rw [currentPost_began, hran]
  constructor
  · exact h.lt
  · exact h.nodup
  · intro post response hmem
    exact h.settled post response (List.mem_of_ne_of_mem (by rintro ⟨⟩) hmem)
  · intro id result' post hmem hsome
    rcases List.mem_cons.mp hmem with heq | hmem
    · cases heq
      rw [hran] at hsome
      cases hsome
    · exact h.ran id result' post hmem hsome
  · intro session' hsession'
    obtain rfl : session = session' := Option.some.inj (hcurrent.symm.trans hsession')
    obtain ⟨htracks, hlt⟩ := h.session session hcurrent
    exact ⟨htracks.congr hpost Iff.rfl fun e he ↦ List.mem_cons_of_mem _ he, hlt⟩
  · intro id hother
    exact currentPost_began_of_ne (hother session hcurrent) result t

/-- A call that starts a POST. -/
theorem Inv.start (h : Inv s t) (id : LinkId) (throws : Bool) :
    Inv (s.start id throws).1 (began id (s.start id throws).2 ++ t) := by
  cases throws with
  | false =>
    show Inv ⟨some ⟨s.posts, id, .inFlight, none, some s.posts⟩, s.posts + 1, s.posts :: s.pending⟩
      (.began id (.started s.posts) :: t)
    constructor
    · intro post hpost
      rcases List.mem_cons.mp hpost with rfl | hpost
      · exact Nat.lt_succ_self _
      · exact Nat.lt_succ_of_lt (h.lt post hpost)
    · exact List.nodup_cons.mpr ⟨fun hmem ↦ Nat.lt_irrefl _ (h.lt _ hmem), h.nodup⟩
    · intro post response hmem
      obtain ⟨hlt, hnot⟩ := h.settled post response
        (List.mem_of_ne_of_mem (by rintro ⟨⟩) hmem)
      exact ⟨Nat.lt_succ_of_lt hlt, List.not_mem_cons_of_ne_of_not_mem (Nat.ne_of_lt hlt) hnot⟩
    · intro id' result post hmem hran
      rcases List.mem_cons.mp hmem with heq | hmem
      · cases heq
        cases hran
        exact Nat.lt_succ_self _
      · exact Nat.lt_succ_of_lt (h.ran id' result post hmem hran)
    · rintro session ⟨⟩
      exact ⟨.inFlight (currentPost_began t) List.mem_cons_self, Nat.lt_succ_self _⟩
    · intro id' hother
      exact currentPost_began_of_ne (hother _ rfl) _ t
  | true =>
    show Inv ⟨some ⟨s.posts, id, .inFlight, none, none⟩, s.posts + 1, s.pending⟩
      (.settled s.posts none :: .began id (.threw s.posts) :: t)
    have hfresh : s.posts ∉ s.pending := fun hmem ↦ Nat.lt_irrefl _ (h.lt _ hmem)
    constructor
    · intro post hpost
      exact Nat.lt_succ_of_lt (h.lt post hpost)
    · exact h.nodup
    · intro post response hmem
      rcases List.mem_cons.mp hmem with heq | hmem
      · cases heq
        exact ⟨Nat.lt_succ_self _, hfresh⟩
      · obtain ⟨hlt, hnot⟩ := h.settled post response
          (List.mem_of_ne_of_mem (by rintro ⟨⟩) hmem)
        exact ⟨Nat.lt_succ_of_lt hlt, hnot⟩
    · intro id' result post hmem hran
      rcases List.mem_cons.mp (List.mem_of_ne_of_mem (by rintro ⟨⟩) hmem) with heq | hmem
      · cases heq
        cases hran
        exact Nat.lt_succ_self _
      · exact Nat.lt_succ_of_lt (h.ran id' result post hmem hran)
    · rintro session ⟨⟩
      refine ⟨.threw ?_ hfresh, Nat.lt_succ_self _⟩
      show (currentPost id (.began id (.threw s.posts) :: t)).filter (· ≠ s.posts) = none
      rw [currentPost_began]
      simp [BeginResult.ran]
    · intro id' hother
      show (currentPost id' (.began id (.threw s.posts) :: t)).filter (· ≠ s.posts) = none
      rw [currentPost_began_of_ne (hother _ rfl)]
      rfl

/-- Events that concern no link. -/
theorem Inv.peek (h : Inv s t) (id : LinkId) (snapshot : Option OpenSnapshot) :
    Inv s (.peeked id snapshot :: t) := by
  constructor
  · exact h.lt
  · exact h.nodup
  · intro post response hmem
    exact h.settled post response (List.mem_of_ne_of_mem (by rintro ⟨⟩) hmem)
  · intro id' result post hmem
    exact h.ran id' result post (List.mem_of_ne_of_mem (by rintro ⟨⟩) hmem)
  · intro session hsession
    obtain ⟨htracks, hlt⟩ := h.session session hsession
    exact ⟨htracks.congr rfl Iff.rfl fun e he ↦ List.mem_cons_of_mem _ he, hlt⟩
  · exact h.others

theorem Inv.clear (h : Inv s t) (id : LinkId) : Inv (s.clear id) (.cleared id :: t) := by
  constructor
  · exact h.lt
  · exact h.nodup
  · intro post response hmem
    exact h.settled post response (List.mem_of_ne_of_mem (by rintro ⟨⟩) hmem)
  · intro id' result post hmem
    exact h.ran id' result post (List.mem_of_ne_of_mem (by rintro ⟨⟩) hmem)
  · intro session hsession
    obtain ⟨hcurrent, hne⟩ := Option.filter_eq_some_iff.mp hsession
    obtain ⟨htracks, hlt⟩ := h.session session hcurrent
    have hpost : currentPost session.id (.cleared id :: t) = currentPost session.id t :=
      if_neg (Ne.symm (of_decide_eq_true hne))
    exact ⟨htracks.congr hpost Iff.rfl fun e he ↦ List.mem_cons_of_mem _ he, hlt⟩
  · intro id' hother
    show (if id = id' then none else currentPost id' t) = none
    by_cases hid : id = id'
    · exact if_pos hid
    · rw [if_neg hid]
      apply h.others
      intro session hcurrent hsession
      refine hother session (Option.filter_eq_some_iff.mpr ⟨hcurrent, ?_⟩) hsession
      exact decide_eq_true (fun heq ↦ hid (heq.symm.trans hsession))

/-- A POST that settles is not among those that have. -/
theorem Inv.settle_lists (h : Inv s t) {post : Nat} (hmem : post ∈ s.pending)
    (response : Option OpenMessageResponse) :
    (∀ p ∈ s.pending.erase post, p < s.posts) ∧ (s.pending.erase post).Nodup ∧
    (∀ p r, .settled p r ∈ Event.settled post response :: t → p < s.posts ∧ p ∉ s.pending.erase post) := by
  refine ⟨fun p hp ↦ h.lt p (List.mem_of_mem_erase hp), h.nodup.erase post, ?_⟩
  intro p r hsettled
  rcases List.mem_cons.mp hsettled with heq | hsettled
  · rw [(Event.settled.inj heq).1]
    exact ⟨h.lt post hmem, h.nodup.not_mem_erase⟩
  · obtain ⟨hlt, hnot⟩ := h.settled p r hsettled
    exact ⟨hlt, fun hp ↦ hnot (List.mem_of_mem_erase hp)⟩

theorem Inv.succeed (h : Inv s t) {post : Nat} (hmem : post ∈ s.pending)
    (response : OpenMessageResponse) :
    Inv ⟨OpenCoordinator.settled post (some response) s.current, s.posts, s.pending.erase post⟩
      (.settled post (some response) :: t) := by
  obtain ⟨hlt, hnodup, hsettled⟩ := h.settle_lists hmem (some response)
  refine ⟨hlt, hnodup, hsettled, ?_, ?_, ?_⟩
  · intro id result p hran
    exact h.ran id result p (List.mem_of_ne_of_mem (by rintro ⟨⟩) hran)
  · intro session' hsession'
    obtain ⟨session, hcurrent, heq⟩ := Option.map_eq_some_iff.mp hsession'
    obtain ⟨htracks, hltref⟩ := h.session session hcurrent
    by_cases href : session.ref = post
    · rw [if_pos href] at heq
      subst href
      obtain ⟨hpost, hsession⟩ := htracks.of_mem (fun r hr ↦ (h.settled _ r hr).2) hmem
      rw [hsession] at heq
      rw [← heq]
      exact ⟨.held hpost List.mem_cons_self, hltref⟩
    · rw [if_neg href] at heq
      rw [← heq]
      exact ⟨htracks.congr rfl (List.mem_erase_of_ne href) fun e he ↦ List.mem_cons_of_mem _ he, hltref⟩
  · intro id hother
    apply h.others
    intro session hcurrent hid
    have hmap : OpenCoordinator.settled post (some response) s.current = some
        (if session.ref = post then { session with phase := .held, response := some response }
          else session) := by
      rw [hcurrent]
      rfl
    refine hother _ hmap ?_
    split
    · exact hid
    · exact hid

theorem Inv.fail (h : Inv s t) {post : Nat} (hmem : post ∈ s.pending) :
    Inv ⟨OpenCoordinator.settled post none s.current, s.posts, s.pending.erase post⟩
      (.settled post none :: t) := by
  obtain ⟨hlt, hnodup, hsettled⟩ := h.settle_lists hmem none
  refine ⟨hlt, hnodup, hsettled, ?_, ?_, ?_⟩
  · intro id result p hran
    exact h.ran id result p (List.mem_of_ne_of_mem (by rintro ⟨⟩) hran)
  · intro session hsession
    obtain ⟨hcurrent, hne⟩ := Option.filter_eq_some_iff.mp hsession
    have href : session.ref ≠ post := of_decide_eq_true hne
    obtain ⟨htracks, hltref⟩ := h.session session hcurrent
    refine ⟨htracks.congr ?_ (List.mem_erase_of_ne href) fun e he ↦ List.mem_cons_of_mem _ he, hltref⟩
    show (currentPost session.id t).filter (· ≠ post) = currentPost session.id t
    cases htracks with
    | inFlight hpost _ | held hpost _ =>
      rw [hpost]
      exact Option.filter_eq_some_iff.mpr ⟨rfl, decide_eq_true href⟩
    | threw hpost _ =>
      rw [hpost]
      rfl
  · intro id hother
    show (currentPost id t).filter (· ≠ post) = none
    by_cases hid : ∃ session, s.current = some session ∧ session.id = id
    · obtain ⟨session, hcurrent, rfl⟩ := hid
      have href : session.ref = post := by
        by_contra hne
        exact hother session (Option.filter_eq_some_iff.mpr ⟨hcurrent, decide_eq_true hne⟩) rfl
      subst href
      obtain ⟨hpost, -⟩ := (h.session session hcurrent).1.of_mem (fun r hr ↦ (h.settled _ r hr).2) hmem
      rw [hpost]
      simp
    · rw [h.others id fun session hcurrent heq ↦ hid ⟨session, hcurrent, heq⟩]
      rfl

/-- Only a POST that has not settled settles. -/
theorem settle_eq_some {s' : OpenCoordinator} {es : List Event} {post : Nat}
    {response : Option OpenMessageResponse} (h : step s (.settle post response) = some (s', es)) :
    post ∈ s.pending ∧
      s' = ⟨OpenCoordinator.settled post response s.current, s.posts, s.pending.erase post⟩ ∧
      es = [.settled post response] := by
  change (if post ∈ s.pending then _ else _) = _ at h
  split at h
  · rename_i hmem
    cases h
    exact ⟨hmem, rfl, rfl⟩
  · cases h

theorem Inv.step (h : Inv s t) {s' : OpenCoordinator} {es : List Event} {a : Action}
    (hstep : step s a = some (s', es)) : Inv s' (es ++ t) := by
  cases a with
  | «begin» id throws =>
    cases hstep
    rcases h.begin_cases id throws with ⟨-, heq⟩ | ⟨session, result, hcurrent, hid, heq, hran, hanswers⟩
    · rw [heq]
      exact h.start id throws
    · rw [heq]
      cases result with
      | joined post | held response => exact h.answered rfl hcurrent hid
      | started post | threw post => exact hanswers.elim
  | peek id =>
    cases hstep
    exact h.peek id _
  | clear id =>
    cases hstep
    exact h.clear id
  | settle post response =>
    obtain ⟨hmem, rfl, rfl⟩ := settle_eq_some hstep
    cases response with
    | some response => exact h.succeed hmem response
    | none => exact h.fail hmem

theorem inv_run (h : machine.Run s t) : Inv s t := h.invariant inv_init fun hinv hstep ↦ hinv.step hstep

/-- A POST that is not the current one of any link settles without a trace in the current session. -/
theorem Inv.late (h : Inv s t) {post : Nat} (hmem : post ∈ s.pending)
    (hlate : ∀ id, currentPost id t ≠ some post) (response : Option OpenMessageResponse) :
    OpenCoordinator.settled post response s.current = s.current := by
  cases hcurrent : s.current with
  | none =>
    cases response with
    | some response => rfl
    | none => rfl
  | some session =>
    have href : session.ref ≠ post := by
      rintro rfl
      obtain ⟨hpost, -⟩ := (h.session session hcurrent).1.of_mem (fun r hr ↦ (h.settled _ r hr).2) hmem
      exact hlate _ hpost
    cases response with
    | some response => exact congrArg some (if_neg href)
    | none =>
      show (some session).filter (fun x ↦ decide (x.ref ≠ post)) = some session
      exact Option.filter_eq_some_iff.mpr ⟨rfl, decide_eq_true href⟩

/-! ## Every run -/

theorem eq_of_singleton {e e' : Event} {es₁ es₂ : List Event} (h : [e] = es₂ ++ e' :: es₁) :
    e = e' ∧ es₁ = [] := by
  rcases List.append_eq_singleton_iff.mp h.symm with ⟨-, heq⟩ | ⟨-, heq⟩
  · exact ⟨(List.cons.inj heq).1.symm, (List.cons.inj heq).2⟩
  · cases heq

theorem began_eq_append {id id' : LinkId} {result result' : BeginResult} {es₁ es₂ : List Event}
    (h : began id' result' = es₂ ++ .began id result :: es₁) :
    id' = id ∧ result' = result ∧ es₁ = [] := by
  cases result' with
  | started post | joined post | held response =>
    obtain ⟨heq, hes⟩ := eq_of_singleton h
    obtain ⟨hid, hresult⟩ := Event.began.inj heq
    exact ⟨hid, hresult, hes⟩
  | threw post =>
    cases es₂ with
    | nil => cases h
    | cons e es₂ =>
      obtain ⟨heq, hes⟩ := eq_of_singleton (List.cons.inj h).2
      obtain ⟨hid, hresult⟩ := Event.began.inj heq
      exact ⟨hid, hresult, hes⟩

/-- Only a call of `begin` shows that it began. -/
theorem step_began {s' : OpenCoordinator} {a : Action} {id : LinkId} {result : BeginResult}
    {es₁ es₂ : List Event} (h : step s a = some (s', es₂ ++ .began id result :: es₁)) :
    ∃ throws, (s.begin id throws).2 = result ∧ es₁ = [] := by
  cases a with
  | «begin» id' throws =>
    obtain ⟨rfl, hresult, hes⟩ := began_eq_append (Prod.mk.inj (Option.some.inj h)).2
    exact ⟨throws, hresult, hes⟩
  | peek id' | clear id' => cases (eq_of_singleton (Prod.mk.inj (Option.some.inj h)).2).1
  | settle post response => cases (eq_of_singleton (settle_eq_some h).2.2.symm).1

/-- Only a call of `peek` shows a snapshot. -/
theorem step_peeked {s' : OpenCoordinator} {a : Action} {id : LinkId} {snapshot : Option OpenSnapshot}
    {es₁ es₂ : List Event} (h : step s a = some (s', es₂ ++ .peeked id snapshot :: es₁)) :
    s.peek id = snapshot ∧ es₁ = [] := by
  cases a with
  | «begin» id' throws =>
    have hmem : Event.peeked id snapshot ∈ began id' (s.begin id' throws).2 := by
      rw [(Prod.mk.inj (Option.some.inj h)).2]
      exact List.mem_append_right _ List.mem_cons_self
    cases hresult : (s.begin id' throws).2 with
    | started post | joined post | held response | threw post =>
      rw [hresult] at hmem
      simp [began] at hmem
  | peek id' =>
    obtain ⟨heq, hes⟩ := eq_of_singleton (Prod.mk.inj (Option.some.inj h)).2
    obtain ⟨rfl, hsnapshot⟩ := Event.peeked.inj heq
    exact ⟨hsnapshot, hes⟩
  | clear id' => cases (eq_of_singleton (Prod.mk.inj (Option.some.inj h)).2).1
  | settle post response => cases (eq_of_singleton (settle_eq_some h).2.2.symm).1

/-- A call of `begin` starts a POST where its link has none, and hands out the link's own otherwise. -/
theorem began_of_run (h : machine.Run s t) {t₁ t₂ : List Event} {id : LinkId} {result : BeginResult}
    (ht : t = t₂ ++ .began id result :: t₁) :
    (∀ post, result.ran = some post → currentPost id t₁ = none) ∧
      (result.ran = none → Answers id t₁ result) := by
  obtain ⟨s₀, t₀, a, s', es₁, es₂, hrun, hstep, rfl⟩ := h.origin ht
  obtain ⟨throws, hresult, rfl⟩ := step_began hstep
  rcases (inv_run hrun).begin_cases id throws with ⟨hnone, heq⟩ | ⟨-, result', -, -, heq, hran, hanswers⟩
  · refine ⟨fun _ _ ↦ hnone, fun hran ↦ ?_⟩
    rw [← hresult, heq] at hran
    cases throws with
    | false => cases hran
    | true => cases hran
  · rw [heq] at hresult
    subst hresult
    refine ⟨fun post hsome ↦ ?_, fun _ ↦ hanswers⟩
    rw [hran] at hsome
    cases hsome

theorem peeked_of_run (h : machine.Run s t) {t₁ t₂ : List Event} {id : LinkId} {snapshot : OpenSnapshot}
    (ht : t = t₂ ++ .peeked id (some snapshot) :: t₁) :
    (∀ post, snapshot.promise = some post → currentPost id t₁ = some post) ∧
      ∀ response, snapshot.response = some response → Own id t₁ response := by
  obtain ⟨s₀, t₀, a, s', es₁, es₂, hrun, hstep, rfl⟩ := h.origin ht
  obtain ⟨hpeek, rfl⟩ := step_peeked hstep
  exact (inv_run hrun).peek_eq hpeek

/-- Until it is released, the POST of a link stays the current one. -/
theorem currentPost_of_not_released (h : machine.Run s t) {id : LinkId} {result : BeginResult}
    {post : Nat} (hran : result.ran = some post) {t₁ t₂ t₃ : List Event}
    (ht : t = t₃ ++ (t₂ ++ .began id result :: t₁)) (hkept : ∀ e ∈ t₂, ¬Releases id post e) :
    currentPost id (t₂ ++ .began id result :: t₁) = some post := by
  induction t₂ generalizing t₃ with
  | nil =>
    show currentPost id (.began id result :: t₁) = some post
    rw [currentPost_began, hran]
  | cons e t₂ ih =>
    obtain ⟨he, hrest⟩ := List.forall_mem_cons.mp hkept
    have ht' : t = t₃ ++ [e] ++ (t₂ ++ .began id result :: t₁) := by
      rw [ht, List.append_assoc]
      rfl
    have hpost := ih ht' hrest
    cases e with
    | began id' result' =>
      by_cases hid : id' = id
      · subst hid
        rw [List.cons_append, currentPost_began]
        cases hran' : result'.ran with
        | none => exact hpost
        | some post' =>
          cases hpost.symm.trans ((began_of_run h ht).1 post' hran')
      · exact absurd (.other result' hid) he
    | peeked id' snapshot => exact hpost
    | cleared id' =>
      by_cases hid : id' = id
      · subst hid
        exact absurd .cleared he
      · exact (if_neg hid).trans hpost
    | settled post' response =>
      cases response with
      | some response => exact hpost
      | none =>
        show (currentPost id (t₂ ++ .began id result :: t₁)).filter (· ≠ post') = some post
        rw [hpost]
        refine Option.filter_eq_some_iff.mpr ⟨rfl, decide_eq_true ?_⟩
        rintro rfl
        exact he .failed

/-- The current POST of a link was started for it. -/
theorem began_of_currentPost {id : LinkId} {post : Nat} (h : currentPost id t = some post) :
    ∃ result, .began id result ∈ t ∧ result.ran = some post := by
  induction t with
  | nil => cases h
  | cons e t ih =>
    have hrest : currentPost id t = some post →
        ∃ result, Event.began id result ∈ e :: t ∧ result.ran = some post := by
      intro hpost
      obtain ⟨result, hmem, hran⟩ := ih hpost
      exact ⟨result, List.mem_cons_of_mem _ hmem, hran⟩
    cases e with
    | began id' result =>
      by_cases hid : id' = id
      · subst hid
        rw [currentPost_began] at h
        cases hran : result.ran with
        | none =>
          rw [hran] at h
          exact hrest h
        | some post' =>
          rw [hran] at h
          exact ⟨result, List.mem_cons_self, hran.trans h⟩
      · rw [currentPost_began_of_ne hid] at h
        cases h
    | peeked id' snapshot => exact hrest h
    | cleared id' =>
      by_cases hid : id' = id
      · cases (if_pos hid).symm.trans h
      · exact hrest ((if_neg hid).symm.trans h)
    | settled post' response =>
      cases response with
      | some response => exact hrest h
      | none => exact hrest (Option.filter_eq_some_iff.mp h).1

/-- A POST settles once, and is started for one link. -/
structure Once (t : List Event) : Prop where
  settled : ∀ post response response', .settled post response ∈ t → .settled post response' ∈ t →
    response = response'
  ran : ∀ post id id' result result', .began id result ∈ t → .began id' result' ∈ t →
    result.ran = some post → result'.ran = some post → id = id'

theorem mem_began {e : Event} {id : LinkId} {result : BeginResult} (h : e ∈ began id result) :
    e = .began id result ∨ ∃ post, result = .threw post ∧ e = .settled post none := by
  cases result with
  | started post | joined post | held response => exact .inl (List.mem_singleton.mp h)
  | threw post =>
    rcases List.mem_cons.mp h with he | he
    · exact .inr ⟨post, rfl, he⟩
    · exact .inl (List.mem_singleton.mp he)

/-- The POST that a call of `begin` starts is a new one. -/
theorem Inv.begin_ran (h : Inv s t) {id : LinkId} {throws : Bool} {post : Nat}
    (hran : (s.begin id throws).2.ran = some post) : post = s.posts := by
  rcases h.begin_cases id throws with ⟨-, heq⟩ | ⟨-, result, -, -, heq, hnone, -⟩
  · rw [heq] at hran
    cases throws with
    | false => exact (Option.some.inj hran).symm
    | true => exact (Option.some.inj hran).symm
  · rw [heq] at hran
    cases hnone.symm.trans hran

/-- A POST that settles in a step has not settled before. -/
theorem Inv.settled_once (h : Inv s t) {s' : OpenCoordinator} {es : List Event} {a : Action}
    (hstep : Open.step s a = some (s', es)) {post : Nat} {response : Option OpenMessageResponse}
    (hmem : .settled post response ∈ es) :
    (∀ response', .settled post response' ∉ t) ∧
      ∀ response', .settled post response' ∈ es → response' = response := by
  cases a with
  | «begin» id throws =>
    cases hstep
    rcases mem_began hmem with heq | ⟨post', hthrew, heq⟩
    · cases heq
    · cases heq
      have hran : (s.begin id throws).2.ran = some post := by
        rw [hthrew]
        rfl
      have hposts := h.begin_ran hran
      subst hposts
      constructor
      · intro response' hold
        exact Nat.lt_irrefl _ (h.settled _ _ hold).1
      · intro response' hnew
        rcases mem_began hnew with heq | ⟨post', -, heq⟩
        · cases heq
        · cases heq
          rfl
  | peek id' | clear id' =>
    cases hstep
    cases List.mem_singleton.mp hmem
  | settle post' response' =>
    obtain ⟨hpending, -, rfl⟩ := settle_eq_some hstep
    cases List.mem_singleton.mp hmem
    constructor
    · intro response'' hold
      exact (h.settled _ _ hold).2 hpending
    · intro response'' hnew
      cases List.mem_singleton.mp hnew
      rfl

/-- A POST that is started in a step has not been started before. -/
theorem Inv.ran_once (h : Inv s t) {s' : OpenCoordinator} {es : List Event} {a : Action}
    (hstep : Open.step s a = some (s', es)) {id : LinkId} {result : BeginResult} {post : Nat}
    (hmem : .began id result ∈ es) (hran : result.ran = some post) :
    (∀ id' result', .began id' result' ∈ t → result'.ran ≠ some post) ∧
      ∀ id' result', .began id' result' ∈ es → id' = id := by
  cases a with
  | «begin» id₁ throws =>
    cases hstep
    rcases mem_began hmem with heq | ⟨post', -, heq⟩
    · cases heq
      have hposts := h.begin_ran hran
      subst hposts
      constructor
      · intro id' result' hold hran'
        exact Nat.lt_irrefl _ (h.ran id' result' _ hold hran')
      · intro id' result' hnew
        rcases mem_began hnew with heq | ⟨post', -, heq⟩
        · cases heq
          rfl
        · cases heq
    · cases heq
  | peek id' | clear id' =>
    cases hstep
    cases List.mem_singleton.mp hmem
  | settle post' response' =>
    obtain ⟨-, -, rfl⟩ := settle_eq_some hstep
    cases List.mem_singleton.mp hmem

theorem once_of_run (h : machine.Run s t) : Once t := by
  induction h with
  | init =>
    constructor
    · intro post response response' hmem
      cases hmem
    · intro post id id' result result' hmem
      cases hmem
  | step before hstep ih =>
    have hinv := inv_run before
    constructor
    · intro post response response' hmem hmem'
      rcases List.mem_append.mp hmem with hnew | hold
      · obtain ⟨hnone, hone⟩ := hinv.settled_once hstep hnew
        rcases List.mem_append.mp hmem' with hnew' | hold'
        · exact (hone response' hnew').symm
        · exact absurd hold' (hnone response')
      · rcases List.mem_append.mp hmem' with hnew' | hold'
        · exact absurd hold ((hinv.settled_once hstep hnew').1 response)
        · exact ih.settled post response response' hold hold'
    · intro post id id' result result' hmem hmem' hran hran'
      rcases List.mem_append.mp hmem with hnew | hold
      · obtain ⟨hnone, hone⟩ := hinv.ran_once hstep hnew hran
        rcases List.mem_append.mp hmem' with hnew' | hold'
        · exact (hone id' result' hnew').symm
        · exact absurd hran' (hnone id' result' hold')
      · rcases List.mem_append.mp hmem' with hnew' | hold'
        · exact absurd hran ((hinv.ran_once hstep hnew' hran').1 id result hold)
        · exact ih.ran post id id' result result' hold hold' hran hran'

end Inv

/-- What a run shows, and what its next settlement does. -/
structure ExactlyOnce (s : OpenCoordinator) (t : List Event) : Prop where
  /-- Between two calls of `run` for a link, the link is released from the first POST. -/
  runs : ∀ t₃ t₂ t₁ id result result' post post',
    t = t₃ ++ .began id result' :: (t₂ ++ .began id result :: t₁) → result.ran = some post →
      result'.ran = some post' → ∃ e ∈ t₂, Releases id post e
  /-- A promise that is joined is that of the link's own current POST. -/
  joined : ∀ t₂ t₁ id post, t = t₂ ++ .began id (.joined post) :: t₁ → currentPost id t₁ = some post
  /-- A response that is held is what the link's own current POST has settled with. -/
  held : ∀ t₂ t₁ id response, t = t₂ ++ .began id (.held response) :: t₁ → Own id t₁ response
  peeked : ∀ t₂ t₁ id snapshot, t = t₂ ++ .peeked id (some snapshot) :: t₁ →
    (∀ post, snapshot.promise = some post → currentPost id t₁ = some post) ∧
      ∀ response, snapshot.response = some response → Own id t₁ response
  /-- The current POST of a link was started for that link. -/
  own : ∀ id post, currentPost id t = some post → ∃ result, .began id result ∈ t ∧ result.ran = some post
  once : Once t
  /-- The settlement of a session that is not current changes nothing. -/
  late : ∀ post response s' es, step s (.settle post response) = some (s', es) →
    (∀ id, currentPost id t ≠ some post) → s'.current = s.current

/-- In every run of the coordinator a link has at most one POST until it is released from it; who joins
or holds gets the promise or the response of the link's own POST; and a settlement that comes late
changes nothing. -/
theorem exactly_once {s : OpenCoordinator} {t : List Event} (h : machine.Run s t) :
    ExactlyOnce s t := by
  constructor
  · intro t₃ t₂ t₁ id result result' post post' ht hran hran'
    by_contra hkept
    have ht' : t = t₃ ++ [.began id result'] ++ (t₂ ++ .began id result :: t₁) := by
      rw [ht, List.append_assoc]
      rfl
    have hpost := currentPost_of_not_released h hran ht' fun e he hreleases ↦ hkept ⟨e, he, hreleases⟩
    cases hpost.symm.trans ((began_of_run h ht).1 post' hran')
  · intro t₂ t₁ id post ht
    exact (began_of_run h ht).2 rfl
  · intro t₂ t₁ id response ht
    exact (began_of_run h ht).2 rfl
  · intro t₂ t₁ id snapshot ht
    exact peeked_of_run h ht
  · intro id post hpost
    exact began_of_currentPost hpost
  · exact once_of_run h
  · intro post response s' es hstep hlate
    obtain ⟨hmem, rfl, -⟩ := settle_eq_some hstep
    exact (inv_run h).late hmem hlate response

def heldResponse : OpenMessageResponse where
  ciphertext := "QQ=="
  createdAt := none
  expiresAt := "2026-05-11T12:00:00.000Z"
  opensCount := .int 1
  maxOpens := .int 1
  status := .active

/-- A link is begun twice, superseded and begun again, and its first POST settles last. -/
def supersededActions : List Action :=
  [.begin "a" false, .begin "a" false, .begin "b" false, .begin "a" false,
   .settle 2 (some heldResponse), .begin "a" false, .settle 0 none, .peek "a"]

theorem exactly_once_superseded : ∃ s t,
    machine.exec supersededActions machine.init [] = some (s, t) ∧ ExactlyOnce s t ∧
      s.peek "a" = some ⟨.held, some heldResponse, some 2⟩ := by
  obtain ⟨s, t, hexec, hpeek⟩ : ∃ s t, machine.exec supersededActions machine.init [] = some (s, t) ∧
      s.peek "a" = some ⟨.held, some heldResponse, some 2⟩ := ⟨_, _, rfl, rfl⟩
  exact ⟨s, t, hexec, exactly_once (Machine.run_of_exec hexec), hpeek⟩

end Aesmsg.Reader.Open
