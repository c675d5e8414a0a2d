import Aesmsg.Reader.Classify
import Aesmsg.Server.Opening

/-!
# Open attempts of readers against a server

Readers and a server together: a reader starts an attempt, its request reaches the server at some
point or never does, the server serves requests in any order and may lose the reply to a statement
that its database has committed, and the fetch of the attempt is rejected at any point, resolves with
the answer of the server, whose body may arrive damaged, or with an error of a proxy before it.

## Main results

- `network_not_consumed`: no attempt classified as retryable has consumed an open, in the runs whose
  consumed opens are all heard of.
- `timeout_after_open`: a timed out attempt classified as retryable that has consumed the open.
-/

namespace Aesmsg.Reader

open Store Api Threads Server Client

/-- An attempt of a reader to open a link. -/
structure Attempt where
  platform : Platform
  id : LinkId
  /-- The thread of the server that serves its request, once that has been delivered. -/
  thread : Option Nat
  /-- What it has thrown, if anything, once it has settled. -/
  settled : Option (Option Thrown)
deriving DecidableEq

structure System (P σ : Type) where
  server : Config P σ Event
  attempts : List Attempt

inductive Move (χ : Type) where
  /-- A reader calls `openMessage`. -/
  | call (platform : Platform) (id : LinkId)
  /-- The request of attempt `k` reaches the server. -/
  | deliver (k : Nat)
  /-- The server takes a step, or receives another request. -/
  | serve (action : Action Request χ)
  /-- Thread `i` takes a step that is kept, and loses the reply of its database. -/
  | lose (i : Nat) (input : χ)
  /-- The fetch of attempt `k` is over, with the reader's local work on a response. -/
  | settle (k : Nat) (fetch : Fetch) (decrypt : OpenMessageResponse → Option Thrown)

/-- Whether thread `i` has answered with `status`. -/
def answeredWith (i status : Nat) (t : Trace Event) : Bool :=
  (mine i t).any fun
    | .answered response => response.status = status
    | _ => false

/-- Whether `incrementOpens` has consumed an open for thread `i`. -/
def consumed (i : Nat) (t : Trace Event) : Bool := (mine i t).any (·.isOpened)

/-- Whether a fetch resolves with the answer of the handler. -/
def ownAnswer (attempt : Attempt) (t : Trace Event) : Fetch → Bool
  | .rejected .. => false
  | .response status _ => attempt.thread.any fun i ↦ answeredWith i status t

/-- A fetch is rejected at any time, and a proxy may answer with an error at any time; otherwise it
resolves with the answer of the handler. -/
def canEnd (attempt : Attempt) (t : Trace Event) : Fetch → Bool
  | .rejected .. => true
  | .response status body => !isOk status || ownAnswer attempt t (.response status body)

variable {χ P σ : Type}

namespace System

def start (s : σ) : System P σ := ⟨Program.start s, []⟩

/-- `lost` says where a thread goes that loses the reply of a step. -/
def next (M : Program Request χ P σ Event) (lost : P → P → Option (P × List Event))
    (y : System P σ) : Move χ → Option (System P σ)
  | .call platform id => some { y with attempts := y.attempts ++ [⟨platform, id, none, none⟩] }
  | .deliver k =>
    match y.attempts[k]? with
    | none => none
    | some a =>
      if a.thread.isSome then none
      else
        some {
          server := { y.server with
            threads := y.server.threads ++ [M.init (.openMessage a.id "")] }
          attempts := y.attempts.set k { a with thread := some y.server.threads.length } }
  | .serve action => (M.next .always y.server action).map fun server ↦ { y with server }
  | .lose i x =>
    match y.server.threads[i]? with
    | none => none
    | some p =>
      (M.step i x p y.server.shared).bind fun (p', s', es) ↦
        (lost p p').map fun (q, es') ↦
          { y with server := ⟨y.server.threads.set i q, s', tag i (es' ++ es) ++ y.server.trace⟩ }
  | .settle k fetch decrypt =>
    match y.attempts[k]? with
    | none => none
    | some a =>
      if a.settled.isSome || !canEnd a y.server.trace fetch then none
      else
        some { y with
          attempts := y.attempts.set k
            { a with settled := some (attempt a.platform fetch decrypt) } }

/-- The systems reached from a store by moves that meet a condition. -/
inductive Reaches (M : Program Request χ P σ Event) (lost : P → P → Option (P × List Event))
    (ok : System P σ → Move χ → Prop) (s₀ : σ) : System P σ → Prop
  | start : Reaches M lost ok s₀ (start s₀)
  | move {y y' : System P σ} {m : Move χ} (before : Reaches M lost ok s₀ y) (meets : ok y m)
    (step : y.next M lost m = some y') : Reaches M lost ok s₀ y'

def exec (M : Program Request χ P σ Event) (lost : P → P → Option (P × List Event))
    (ok : System P σ → Move χ → Prop) [∀ y m, Decidable (ok y m)] (y : System P σ)
    (moves : List (Move χ)) : Option (System P σ) :=
  moves.foldlM (fun y m ↦ if ok y m then y.next M lost m else none) y

/-- What can be executed is reached. -/
theorem reaches_of_exec {M : Program Request χ P σ Event} {lost : P → P → Option (P × List Event)}
    {ok : System P σ → Move χ → Prop} [∀ y m, Decidable (ok y m)] {s₀ : σ} {y y' : System P σ}
    {moves : List (Move χ)} (hy : Reaches M lost ok s₀ y) (h : y.exec M lost ok moves = some y') :
    Reaches M lost ok s₀ y' := by
  induction moves generalizing y with
  | nil =>
    cases h
    exact hy
  | cons m moves ih =>
    obtain ⟨z, hz, hrest⟩ := Option.bind_eq_some_iff.mp h
    dsimp only at hz
    split at hz
    · rename_i hok
      exact ih (.move hy hok hz) hrest
    · cases hz

end System

/-- Whether the next step of thread `i` consumes an open. -/
def consumes (M : Program Request χ P σ Event) (c : Config P σ Event) (i : Nat) (x : χ) : Bool :=
  (c.threads[i]?.bind fun p ↦ M.step i x p c.shared).any fun r ↦ r.2.2.any (·.isOpened)

/-- Every consumed open is heard of: the client is still waiting when it is consumed, the reply of the
database is not lost, and the client hears the answer of the handler. -/
def Heard (M : Program Request χ P σ Event) (y : System P σ) : Move χ → Prop
  | .serve (.run i x) =>
    consumes M y.server i x = true → ∀ a ∈ y.attempts, a.thread = some i → a.settled = none
  | .lose i x => consumes M y.server i x = true → ∀ a ∈ y.attempts, a.thread ≠ some i
  | .settle k fetch decrypt =>
    ∀ a ∈ y.attempts[k]?, a.thread.any (consumed · y.server.trace) = true →
      ownAnswer a y.server.trace fetch = true ∧ heard a.platform fetch decrypt = true
  | _ => True

instance (M : Program Request χ P σ Event) (y : System P σ) (m : Move χ) : Decidable (Heard M y m) :=
  match m with
  | .call .. | .deliver _ | .serve (.spawn _) => isTrue trivial
  | .serve (.run i x) =>
    inferInstanceAs (Decidable (consumes M y.server i x = true →
      ∀ a ∈ y.attempts, a.thread = some i → a.settled = none))
  | .lose i x =>
    inferInstanceAs (Decidable (consumes M y.server i x = true → ∀ a ∈ y.attempts, a.thread ≠ some i))
  | .settle k fetch decrypt =>
    inferInstanceAs (Decidable (∀ a ∈ y.attempts[k]?,
      a.thread.any (consumed · y.server.trace) = true →
        ownAnswer a y.server.trace fetch = true ∧ heard a.platform fetch decrypt = true))

/-- No attempt that is classified as retryable has consumed an open. -/
def RetrySafe (y : System P σ) : Prop :=
  ∀ a ∈ y.attempts, ∀ err, a.settled = some (some err) →
    classifyReaderError a.platform err = .network → ∀ i, a.thread = some i →
      consumed i y.server.trace = false

/-! ## Attempts and their threads -/

section Served

variable {M : Program Request χ P σ Event} {lost : P → P → Option (P × List Event)}
  {phase : P → Option OpenPhase} {y y' : System P σ}

/-- The thread of every attempt goes the way of an open request. -/
structure Served (phase : P → Option OpenPhase) (y : System P σ) : Prop where
  actors : ∀ e ∈ y.server.trace, e.1 < y.server.threads.length
  serves : ∀ a ∈ y.attempts, ∀ i, a.thread = some i →
    ∃ p ph, y.server.threads[i]? = some p ∧ phase p = some ph ∧ ph.Stands (mine i y.server.trace)
  retry : RetrySafe y

theorem Served.start (s : σ) : Served phase (System.start s : System P σ) :=
  ⟨nofun, nofun, nofun⟩

theorem Served.call (h : Served phase y) (platform : Platform) (id : LinkId) :
    Served phase { y with attempts := y.attempts ++ [⟨platform, id, none, none⟩] } where
  actors := h.actors
  serves := by
    intro a ha i hi
    rcases List.mem_append.mp ha with ha | ha
    · exact h.serves a ha i hi
    · cases List.mem_singleton.mp ha
      cases hi
  retry := by
    intro a ha err hsettled
    rcases List.mem_append.mp ha with ha | ha
    · exact h.retry a ha err hsettled
    · cases List.mem_singleton.mp ha
      cases hsettled

/-- A new thread has no events, and changes nothing for the others. -/
theorem Served.spawn (h : Served phase y) (p : P) :
    Served phase { y with server := { y.server with threads := y.server.threads ++ [p] } } where
  actors := by
    intro e he
    rw [List.length_append]
    exact Nat.lt_add_right _ (h.actors e he)
  serves := by
    intro a ha i hi
    obtain ⟨q, ph, hq, hph, hs⟩ := h.serves a ha i hi
    have hlt := (List.getElem?_eq_some_iff.mp hq).1
    exact ⟨q, ph, (List.getElem?_append_left hlt).trans hq, hph, hs⟩
  retry := h.retry

/-- Nothing has happened in a thread that is not there yet. -/
theorem Served.mine_length (h : Served phase y) : mine y.server.threads.length y.server.trace = [] := by
  rw [List.eq_nil_iff_forall_not_mem]
  intro e he
  exact Nat.lt_irrefl _ (h.actors _ (mem_mine.mp he))

theorem Served.deliver (h : Served phase y) (hM : OpensOnce M phase) (k : Nat) (a : Attempt) :
    Served phase (P := P) (σ := σ) {
      server := { y.server with threads := y.server.threads ++ [M.init (.openMessage a.id "")] }
      attempts := y.attempts.set k { a with thread := some y.server.threads.length } } where
  actors := (h.spawn _).actors
  serves := by
    intro b hb i hi
    rcases List.mem_or_eq_of_mem_set hb with hb | rfl
    · exact (h.spawn _).serves b hb i hi
    · cases hi
      refine ⟨_, .waiting, List.getElem?_concat_length, hM.born a.id "", ?_⟩
      exact h.mine_length
  retry := by
    intro b hb err hsettled hc i hi
    rcases List.mem_or_eq_of_mem_set hb with hb | rfl
    · exact h.retry b hb err hsettled hc i hi
    · cases hi
      change (mine _ _).any _ = false
      rw [h.mine_length]
      rfl

/-- Thread `i` goes to `p'` and emits `es`: it stays on its way, if it serves an attempt, and none that
has settled consumes an open by it. -/
theorem Served.advance (h : Served phase y) {i : Nat} {p p' : P} {s' : σ} {es : List Event}
    (hp : y.server.threads[i]? = some p)
    (stands : ∀ ph, phase p = some ph → ph.Stands (mine i y.server.trace) →
      (∃ a ∈ y.attempts, a.thread = some i) →
      ∃ ph', phase p' = some ph' ∧ ph'.Stands (es ++ mine i y.server.trace))
    (waiting : es.any (·.isOpened) = true → ∀ a ∈ y.attempts, a.thread = some i → a.settled = none) :
    Served phase { y with
      server := ⟨y.server.threads.set i p', s', tag i es ++ y.server.trace⟩ } where
  actors := by
    intro e he
    rw [List.length_set]
    rcases List.mem_append.mp he with he | he
    · rw [fst_of_mem_tag he]
      exact (List.getElem?_eq_some_iff.mp hp).1
    · exact h.actors e he
  serves := by
    intro a ha j hj
    obtain ⟨q, ph, hq, hph, hs⟩ := h.serves a ha j hj
    by_cases hij : i = j
    · subst hij
      cases hp.symm.trans hq
      obtain ⟨ph', hph', hs'⟩ := stands ph hph hs ⟨a, ha, hj⟩
      refine ⟨p', ph', List.getElem?_set_self (List.getElem?_eq_some_iff.mp hp).1, hph', ?_⟩
      rw [mine_tag_append]
      exact hs'
    · refine ⟨q, ph, (List.getElem?_set_ne hij).trans hq, hph, ?_⟩
      rw [mine_tag_append_of_ne hij]
      exact hs
  retry := by
    intro a ha err hsettled hc j hj
    have hold := h.retry a ha err hsettled hc j hj
    unfold consumed at hold ⊢
    by_cases hij : i = j
    · subst hij
      rw [mine_tag_append, List.any_append, hold, Bool.or_false]
      cases ho : es.any (·.isOpened) with
      | false => rfl
      | true =>
        rw [waiting ho a ha hj] at hsettled
        cases hsettled
    · rw [mine_tag_append_of_ne hij]
      exact hold

/-- A thread that fails with a step kept: it emits the events of both, none of which is an open. -/
theorem Served.lose (h : Served phase y) (hlost : Failing lost phase) {i : Nat} {p p' q : P} {s' : σ}
    {es es' : List Event} (hp : y.server.threads[i]? = some p) (hq : lost p p' = some (q, es'))
    (unopened : es.any (·.isOpened) = true → ∀ a ∈ y.attempts, a.thread ≠ some i) :
    Served phase { y with
      server := ⟨y.server.threads.set i q, s', tag i (es' ++ es) ++ y.server.trace⟩ } := by
  apply h.advance hp
  · rintro ph hph hs ⟨a, ha, hi⟩
    have hes : es.any (·.isOpened) = false := (Bool.not_eq_true _).mp fun ho ↦ unopened ho a ha hi
    rw [List.append_assoc]
    exact hlost.stands hph hs hq hes
  · intro ho a ha hi
    rw [List.any_append, hlost.unopened hq, Bool.false_or] at ho
    exact absurd hi (unopened ho a ha)

/-- The answer of the handler is 200 or 410, where the request has consumed an open. -/
theorem Served.status (h : Served phase y) {a : Attempt} (ha : a ∈ y.attempts) {i status : Nat}
    {body : Option Json} (hi : a.thread = some i) (hc : consumed i y.server.trace = true)
    (hown : ownAnswer a y.server.trace (.response status body) = true) :
    status = 200 ∨ status = 410 := by
  obtain ⟨p, ph, -, -, hs⟩ := h.serves a ha i hi
  unfold ownAnswer answeredWith at hown
  rw [hi] at hown
  obtain ⟨e, he, hst⟩ := List.any_eq_true.mp hown
  cases e with
  | answered r =>
    obtain rfl : r.status = status := of_decide_eq_true hst
    exact hs.answeredWell hc r he
  | _ => cases hst

theorem Served.settle (h : Served phase y) {k : Nat} {a : Attempt} {fetch : Fetch}
    {decrypt : OpenMessageResponse → Option Thrown} (hk : y.attempts[k]? = some a)
    (hears : a.thread.any (consumed · y.server.trace) = true →
      ownAnswer a y.server.trace fetch = true ∧ heard a.platform fetch decrypt = true) :
    Served phase { y with
      attempts := y.attempts.set k { a with settled := some (attempt a.platform fetch decrypt) } } where
  actors := h.actors
  serves := by
    intro b hb i hi
    rcases List.mem_or_eq_of_mem_set hb with hb | rfl
    · exact h.serves b hb i hi
    · exact h.serves a (List.mem_of_getElem? hk) i hi
  retry := by
    intro b hb err hsettled hc i hi
    rcases List.mem_or_eq_of_mem_set hb with hb | rfl
    · exact h.retry b hb err hsettled hc i hi
    · rw [← Bool.not_eq_true]
      intro hcons
      have hi' : a.thread = some i := hi
      obtain ⟨hown, hh⟩ := hears (by rw [hi']; exact hcons)
      cases fetch with
      | rejected err timedOut aborted => cases hh
      | response status body =>
        have hst := h.status (List.mem_of_getElem? hk) hi' hcons hown
        exact classify_heard hst hh (Option.some.inj hsettled) hc

theorem consumes_of_step {i : Nat} {x : χ} {p p' : P} {s' : σ} {es : List Event}
    (hp : y.server.threads[i]? = some p)
    (hstep : M.step i x p y.server.shared = some (p', s', es)) (ho : es.any (·.isOpened) = true) :
    consumes M y.server i x = true := by
  unfold consumes
  rw [hp, Option.bind_some, hstep]
  exact ho

theorem Served.step (h : Served phase y) (hM : OpensOnce M phase) (hlost : Failing lost phase)
    {m : Move χ} (meets : Heard M y m) (hstep : y.next M lost m = some y') : Served phase y' := by
  cases m with
  | call platform id =>
    cases hstep
    exact h.call platform id
  | deliver k =>
    simp only [System.next] at hstep
    split at hstep
    · cases hstep
    · rename_i a hk
      split at hstep
      · cases hstep
      · cases hstep
        exact h.deliver hM k a
  | serve action =>
    obtain ⟨server, hserver, rfl⟩ := Option.map_eq_some_iff.mp hstep
    cases action with
    | spawn request =>
      cases hserver
      exact h.spawn _
    | run i x =>
      simp only [Program.next, if_true] at hserver
      split at hserver
      · cases hserver
      · rename_i p hp
        split at hserver
        · cases hserver
        · rename_i p' s' es hs
          cases hserver
          exact h.advance hp (fun _ hph hstands _ ↦ hM.step hph hstands hs) fun ho ↦
            meets (consumes_of_step hp hs ho)
  | lose i x =>
    simp only [System.next] at hstep
    split at hstep
    · cases hstep
    · rename_i p hp
      obtain ⟨⟨p', s', es⟩, hs, hrest⟩ := Option.bind_eq_some_iff.mp hstep
      obtain ⟨⟨q, es'⟩, hq, rfl⟩ := Option.map_eq_some_iff.mp hrest
      exact h.lose hlost hp hq fun ho ↦ meets (consumes_of_step hp hs ho)
  | settle k fetch decrypt =>
    simp only [System.next] at hstep
    split at hstep
    · cases hstep
    · rename_i a hk
      split at hstep
      · cases hstep
      · cases hstep
        exact h.settle hk fun hc ↦ meets a (hk ▸ rfl) hc

theorem served (hM : OpensOnce M phase) (hlost : Failing lost phase) {s₀ : σ}
    (h : System.Reaches M lost (Heard M) s₀ y) : Served phase y := by
  induction h with
  | start => exact .start s₀
  | move _ meets hstep ih => exact ih.step hM hlost meets hstep

end Served

/-- No attempt that is classified as retryable has consumed an open, where every consumed open is
heard of. -/
theorem network_not_consumed (env : Env) :
    (∀ s₀ y, System.Reaches (Memory.program env) Memory.lost (Heard (Memory.program env)) s₀ y →
        RetrySafe y) ∧
      ∀ s₀ y, System.Reaches (Postgres.program env) Postgres.lost (Heard (Postgres.program env)) s₀ y →
        RetrySafe y := by
  constructor
  · exact fun _ _ h ↦ (served (Memory.opensOnce env) Memory.failing h).retry
  · exact fun _ _ h ↦ (served (Postgres.opensOnce env) Postgres.failing h).retry

/-- A link that is opened once, and the attempt of a mobile reader on it, up to the moment when the
server has consumed the open. -/
def consumedOpen : List (Move Memory.Input) :=
  [.serve (.spawn (.createWithCiphertext ⟨"AAAAAAAAAAAAAAAA", 1000, 1, none⟩ [7])),
    .serve (.run 0 (.at 1)), .serve (.run 0 (.at 1)), .call .mobile "AAAAAAAAAAAAAAAA", .deliver 0,
    .serve (.run 1 (.at 2)), .serve (.run 1 (.at 2))]

/-- The answer of the server to that open. -/
def openBody : Json :=
  .object [("ciphertext", .string "Bw=="), ("createdAt", .null),
    ("expiresAt", .string "1970-01-01T00:00:01.000Z"), ("opensCount", .number (.int 1)),
    ("maxOpens", .number (.int 1)), ("status", .string "expired")]

/-- The attempt hears the answer; another one times out before its request is delivered, and a third
is answered by a proxy that cannot reach the server. -/
def heardOpen : List (Move Memory.Input) :=
  consumedOpen ++ [.serve (.run 1 (.at 2)), .call .web "AAAAAAAAAAAAAAAA",
    .settle 1 (.rejected (.error "AbortError") true false) fun _ ↦ none,
    .settle 0 (.response 200 (some openBody)) fun _ ↦ some (.error "DecryptionError"),
    .call .mobile "AAAAAAAAAAAAAAAA", .settle 2 (.response 502 none) fun _ ↦ none]

/-- Over Postgres, an attempt on a link that has gone: the database loses its reply to the thread, and
the attempt hears of the failure. -/
def lostReply : List (Move Postgres.Input) :=
  [.call .mobile "AAAAAAAAAAAAAAAA", .deliver 0, .serve (.run 0 (.at ⟨2, by decide⟩)),
    .lose 0 (.at ⟨2, by decide⟩), .settle 0 (.response 500 none) fun _ ↦ none]

theorem network_not_consumed_sample :
    (∃ y, (System.start MemoryStore.empty).exec (Memory.program .sample) Memory.lost
        (Heard (Memory.program .sample)) heardOpen = some y ∧
      y.attempts.map (fun a ↦ (a.thread, a.settled)) =
        [(some 1, some (some (.error "DecryptionError"))), (none, some (some .timeoutError)),
          (none, some (some (.apiError 502)))] ∧
      consumed 1 y.server.trace = true ∧ RetrySafe y) ∧
    ∃ y, (System.start Postgres.State.initial).exec (Postgres.program .sample) Postgres.lost
        (Heard (Postgres.program .sample)) lostReply = some y ∧
      y.attempts.map (fun a ↦ (a.thread, a.settled)) = [(some 0, some (some (.apiError 500)))] ∧
      consumed 0 y.server.trace = false ∧ RetrySafe y := by
  constructor
  · have hrun : ((System.start MemoryStore.empty).exec (Memory.program .sample) Memory.lost
        (Heard (Memory.program .sample)) heardOpen).map
        (fun y ↦ (y.attempts.map (fun a ↦ (a.thread, a.settled)), consumed 1 y.server.trace)) =
        some ([(some 1, some (some (.error "DecryptionError"))), (none, some (some .timeoutError)),
          (none, some (some (.apiError 502)))], true) := by
      decide
    obtain ⟨y, hy, hv⟩ := Option.map_eq_some_iff.mp hrun
    obtain ⟨hs, hc⟩ := Prod.mk.inj hv
    exact ⟨y, hy, hs, hc, (network_not_consumed .sample).1 _ y (System.reaches_of_exec .start hy)⟩
  · have hrun : ((System.start Postgres.State.initial).exec (Postgres.program .sample) Postgres.lost
        (Heard (Postgres.program .sample)) lostReply).map
        (fun y ↦ (y.attempts.map (fun a ↦ (a.thread, a.settled)), consumed 0 y.server.trace)) =
        some ([(some 0, some (some (.apiError 500)))], false) := by
      decide
    obtain ⟨y, hy, hv⟩ := Option.map_eq_some_iff.mp hrun
    obtain ⟨hs, hc⟩ := Prod.mk.inj hv
    exact ⟨y, hy, hs, hc, (network_not_consumed .sample).2 _ y (System.reaches_of_exec .start hy)⟩

/-- A client that times out while the answer is on its way tells its user to retry an open that has
been consumed. -/
theorem timeout_after_open : ¬∀ env,
    (∀ s₀ y, System.Reaches (Memory.program env) Memory.lost (fun _ _ ↦ True) s₀ y → RetrySafe y) ∧
      ∀ s₀ y, System.Reaches (Postgres.program env) Postgres.lost (fun _ _ ↦ True) s₀ y →
        RetrySafe y := by
  intro h
  have hrun : ((System.start MemoryStore.empty).exec (Memory.program .sample) Memory.lost
      (fun _ _ ↦ True)
      (consumedOpen ++ [.settle 0 (.rejected (.error "AbortError") true false) fun _ ↦ none])).map
      (fun y ↦ (y.attempts, consumed 1 y.server.trace)) =
      some ([⟨.mobile, "AAAAAAAAAAAAAAAA", some 1, some (some .timeoutError)⟩], true) := by
    decide
  obtain ⟨y, hy, hv⟩ := Option.map_eq_some_iff.mp hrun
  obtain ⟨ha, hc⟩ := Prod.mk.inj hv
  have hsafe := (h .sample).1 _ y (System.reaches_of_exec .start hy) _
    (ha ▸ List.mem_singleton_self _) .timeoutError rfl rfl 1 rfl
  rw [hc] at hsafe
  cases hsafe

end Aesmsg.Reader
