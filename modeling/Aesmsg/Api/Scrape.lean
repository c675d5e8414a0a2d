import Aesmsg.Api.Edge
import Aesmsg.Api.Metrics
import Aesmsg.Lib.Machine

/-!
# Scrapes of the metrics

`metrics/http-metrics.ts` and `routes/metrics.ts` of `apps/api`, the hook of `server.ts` that records every
finished response, and the gauge that `stores.ts` sets.  A scrape waits for the statistics of the stores
while other requests go on.

## Main results

- `recordHttp_eq`: a response counts on its series, and is never refused by the registry.
- `scrape_exact`: a text has the numbers of the responses before it and the volumes that were read last, and
  is only shown for the token.
-/

namespace Aesmsg.Api.Metrics

open Crypto Edge Store

/-! ## Responses -/

structure HttpEvent where
  route : String
  method : String
  status : ℕ
deriving DecidableEq

def statusClass (status : ℕ) : String := String.ofList (Nat.toDigits 10 (status / 100)) ++ "xx"

def recordHttp (registry : Registry) (event : HttpEvent) : Except String Registry := do
  let route := event.route
  let status := event.status
  let registry ← increment registry .aesmsg_http_requests_total
    [("route", route), ("status_class", statusClass status)] 1
  let registry ← if status = 429 then
      increment registry .aesmsg_rate_limited_total [("route", route)] 1
    else pure registry
  let registry ← if 500 ≤ status then
      increment registry .aesmsg_dependency_errors_total [("route", route)] 1
    else pure registry
  if event.method = "POST" ∧ route = "/api/messages" ∧ status = 201 then
    increment registry .aesmsg_messages_created_total [] 1
  else if event.method = "POST" ∧ route = "/api/messages/:id/open" ∧ status = 200 then
    increment registry .aesmsg_messages_opened_total [] 1
  else if event.method = "POST" ∧ route = "/api/messages/:id/revoke" ∧ status = 200 then
    increment registry .aesmsg_messages_revoked_total [] 1
  else
    return registry

/-! ## Scrapes -/

/-- The strings have the same bytes. -/
def tokenMatches (configured presented : String) : Bool :=
  TextEncoder.encode configured = TextEncoder.encode presented

def BEARER : List Char := "Bearer ".toList

/-- What `.` does not match. -/
def isLineTerminator (c : Char) : Bool := c = '\n' || c = '\r' || c.toNat = 0x2028 || c.toNat = 0x2029

/-- `/^Bearer (.+)$/` -/
def extractBearer : Option HeaderValue → Option String
  | some (.one header) =>
    let rest := header.toList.drop BEARER.length
    if BEARER.isPrefixOf header.toList ∧ rest ≠ [] ∧ ¬rest.any isLineTerminator then
      some (String.ofList rest)
    else none
  | _ => none

/-- The status where a scrape is refused. -/
def refusal (token : Option String) (authorization : Option HeaderValue) : Option ℕ :=
  match token with
  | none => some 404
  | some token =>
    if token = "" then some 404
    else
      match extractBearer authorization with
      | none => some 401
      | some presented => if tokenMatches token presented then none else some 401

/-- The gauges of the volumes are cleared before the statistics are asked for. -/
def clearVolumes (registry : Registry) : Registry :=
  clearMetric (clearMetric registry .aesmsg_active_links) .aesmsg_ciphertext_bytes

/-- The statistics, none where they cannot be read. -/
def setVolumes (registry : Registry) : Option StorageStats → Except String Registry
  | none => return registry
  | some stats => do
    let registry ← set registry .aesmsg_active_links stats.activeLinks []
    set registry .aesmsg_ciphertext_bytes stats.ciphertextBytes []

structure State where
  registry : Registry
  /-- `getStores()` has chosen the stores. -/
  hasStores : Bool
  /-- The scrapes that wait for the statistics. -/
  scrapes : ℕ

inductive Action where
  | respond (event : HttpEvent)
  | getStores (memory : Bool)
  | scrape (authorization : Option HeaderValue)
  | stats (stats : Option StorageStats)

inductive Event where
  | responded (event : HttpEvent)
  | fallback (memory : Bool)
  | refused (status : ℕ)
  | began (authorization : Option HeaderValue)
  | scraped (stats : Option StorageStats) (text : List Char)

def step (localeCompare : List Char → List Char → Bool) (token : Option String) (s : State) :
    Action → Option (State × List Event)
  | .respond event => (recordHttp s.registry event).toOption.map fun registry ↦
    ({ s with registry := registry }, [.responded event])
  | .getStores memory =>
    if s.hasStores then none
    else (set s.registry .aesmsg_store_memory_fallback (if memory then 1 else 0) []).toOption.map
      fun registry ↦ ({ s with registry := registry, hasStores := true }, [.fallback memory])
  | .scrape authorization =>
    match refusal token authorization with
    | some status => some (s, [.refused status])
    | none => some ({ s with registry := clearVolumes s.registry, scrapes := s.scrapes + 1 },
        [.began authorization])
  | .stats stats =>
    if s.scrapes = 0 then none
    else (setVolumes s.registry stats).toOption.map fun registry ↦
      ({ s with registry := registry, scrapes := s.scrapes - 1 },
        [.scraped stats (render localeCompare registry)])

/-- A registry is as `reset` leaves it. -/
def machine (localeCompare : List Char → List Char → Bool) (token : Option String) :
    Machine State Action Event :=
  ⟨⟨reset.toOption.getD fun _ ↦ .empty, false, 0⟩, step localeCompare token⟩

/-! ## Responses that are counted -/

/-- The series that a response counts on, in the order of the source. -/
def hits (event : HttpEvent) : List (MetricName × Labels) :=
  (.aesmsg_http_requests_total, [("route", event.route), ("status_class", statusClass event.status)]) ::
    ((if event.status = 429 then [(.aesmsg_rate_limited_total, [("route", event.route)])] else []) ++
      ((if 500 ≤ event.status then [(.aesmsg_dependency_errors_total, [("route", event.route)])] else []) ++
        if event.method = "POST" ∧ event.route = "/api/messages" ∧ event.status = 201 then
          [(.aesmsg_messages_created_total, [])]
        else if event.method = "POST" ∧ event.route = "/api/messages/:id/open" ∧ event.status = 200 then
          [(.aesmsg_messages_opened_total, [])]
        else if event.method = "POST" ∧ event.route = "/api/messages/:id/revoke" ∧ event.status = 200 then
          [(.aesmsg_messages_revoked_total, [])]
        else []))

/-- The responses that a series is about. -/
def About (event : HttpEvent) : MetricName → Labels → Bool
  | .aesmsg_http_requests_total, labels =>
    labels = [("route", event.route), ("status_class", statusClass event.status)]
  | .aesmsg_rate_limited_total, labels => labels = [("route", event.route)] ∧ event.status = 429
  | .aesmsg_dependency_errors_total, labels => labels = [("route", event.route)] ∧ 500 ≤ event.status
  | .aesmsg_messages_created_total, labels =>
    labels = [] ∧ event.method = "POST" ∧ event.route = "/api/messages" ∧ event.status = 201
  | .aesmsg_messages_opened_total, labels =>
    labels = [] ∧ event.method = "POST" ∧ event.route = "/api/messages/:id/open" ∧ event.status = 200
  | .aesmsg_messages_revoked_total, labels =>
    labels = [] ∧ event.method = "POST" ∧ event.route = "/api/messages/:id/revoke" ∧ event.status = 200
  | _, _ => false

section Counts

variable {r : Registry} {event : HttpEvent}

theorem hits_fit {hit : MetricName × Labels} (h : hit ∈ hits event) :
    (METRIC_DEFS hit.1).type = .counter ∧ Fits hit.1 hit.2 := by
  unfold hits at h
  simp only [List.mem_cons, List.mem_append, List.mem_ite_nil_right, List.not_mem_nil, or_false] at h
  rcases h with rfl | ⟨-, rfl⟩ | ⟨-, rfl⟩ | h
  · exact ⟨rfl, rfl⟩
  · exact ⟨rfl, rfl⟩
  · exact ⟨rfl, rfl⟩
  · split at h
    · obtain rfl := List.mem_singleton.mp h
      exact ⟨rfl, rfl⟩
    · split at h
      · obtain rfl := List.mem_singleton.mp h
        exact ⟨rfl, rfl⟩
      · obtain ⟨-, h⟩ := List.mem_ite_nil_right.mp h
        obtain rfl := List.mem_singleton.mp h
        exact ⟨rfl, rfl⟩

theorem count_hits (event : HttpEvent) (name : MetricName) (labels : Labels) :
    (hits event).count (name, labels) = if About event name labels then 1 else 0 := by
  unfold hits
  cases name <;> grind [About]

theorem recordHttp_foldlM (r : Registry) (event : HttpEvent) :
    recordHttp r event = (hits event).foldlM (fun r hit ↦ increment r hit.1 hit.2 1) r := by
  unfold recordHttp hits
  rw [List.foldlM_cons, funext fun _ ↦ List.foldlM_append, funext fun _ ↦ List.foldlM_append]
  -- a response that is limited or failed is none that made, opened or revoked a link
  by_cases hlimited : event.status = 429
  · simp [hlimited]
  · by_cases herror : 500 ≤ event.status
    · have hmade : event.status ≠ 201 := by omega
      have hserved : event.status ≠ 200 := by omega
      simp [hlimited, herror, hmade, hserved]
    · simp only [hlimited, herror, if_false, List.foldlM_nil, pure_bind]
      split_ifs <;> simp

/-- No response is refused by the registry. -/
theorem recordHttp_eq (r : Registry) (event : HttpEvent) :
    recordHttp r event = .ok ((hits event).foldl (fun r hit ↦ bump r hit.1 hit.2 1) r) := by
  rw [recordHttp_foldlM]
  have hfits : ∀ hit ∈ hits event, (METRIC_DEFS hit.1).type = .counter ∧ Fits hit.1 hit.2 :=
    fun _ ↦ hits_fit
  generalize hits event = hits at hfits
  induction hits generalizing r with
  | nil => rfl
  | cons hit rest ih =>
    obtain ⟨⟨htype, hfit⟩, hrest⟩ := List.forall_mem_cons.mp hfits
    rw [List.foldlM_cons, increment_eq htype hfit]
    exact ih _ hrest

end Counts

/-! ## What is reported -/

def Event.isAbout (name : MetricName) (labels : Labels) : Event → Bool
  | .responded event => About event name labels
  | _ => false

/-- The responses that a series is about. -/
def tally (t : List Event) (name : MetricName) (labels : Labels) : ℕ :=
  t.countP (Event.isAbout name labels)

/-- The stores are in memory. -/
def inMemory : List Event → Bool
  | [] => false
  | .fallback memory :: _ => memory
  | _ :: t => inMemory t

/-- The statistics that were read since a scrape began. -/
def volumes : List Event → Option StorageStats
  | [] => none
  | .began _ :: _ => none
  | .scraped (some stats) _ :: _ => some stats
  | _ :: t => volumes t

/-- The value of a series after some events. -/
def reported (t : List Event) (name : MetricName) (labels : Labels) : Option ℕ :=
  match name with
  | .aesmsg_http_requests_total | .aesmsg_rate_limited_total | .aesmsg_dependency_errors_total =>
    if tally t name labels = 0 then none else some (tally t name labels)
  | .aesmsg_messages_created_total | .aesmsg_messages_opened_total | .aesmsg_messages_revoked_total =>
    some (tally t name labels)
  | .aesmsg_store_memory_fallback => some (if inMemory t then 1 else 0)
  | .aesmsg_active_links => (volumes t).map StorageStats.activeLinks
  | .aesmsg_ciphertext_bytes => (volumes t).map StorageStats.ciphertextBytes

section Reported

variable {t : List Event} {name : MetricName} {labels : Labels}

theorem tally_responded (event : HttpEvent) : tally (.responded event :: t) name labels =
    tally t name labels + if About event name labels then 1 else 0 := by
  unfold tally
  rw [List.countP_cons]
  rfl

theorem tally_cons {e : Event} (h : e.isAbout name labels = false) :
    tally (e :: t) name labels = tally t name labels := by
  unfold tally
  rw [List.countP_cons_of_neg (by simp [h])]

theorem reported_responded (event : HttpEvent) : reported (.responded event :: t) name labels =
    plus (reported t name labels) ((hits event).count (name, labels)) := by
  rw [count_hits]
  cases habout : About event name labels with
  | false =>
    rw [if_neg Bool.false_ne_true]
    unfold reported
    rw [tally_cons (show Event.isAbout name labels (.responded event) = false from habout)]
    rfl
  | true =>
    have htally : tally (.responded event :: t) name labels = _ := tally_responded event
    rw [habout, if_pos rfl] at htally
    rw [if_pos rfl]
    unfold reported
    rw [htally]
    generalize tally t name labels = n
    cases name with
    | aesmsg_http_requests_total | aesmsg_rate_limited_total | aesmsg_dependency_errors_total =>
      cases n with
      | zero => rfl
      | succ n => rfl
    | aesmsg_messages_created_total | aesmsg_messages_opened_total | aesmsg_messages_revoked_total => rfl
    | aesmsg_store_memory_fallback | aesmsg_active_links | aesmsg_ciphertext_bytes => cases habout

theorem Fits.eq_nil (h : Fits name labels) (hnames : (METRIC_DEFS name).labelNames = []) : labels = [] :=
  List.map_eq_nil_iff.mp (h.trans hnames)

theorem reported_fallback (memory : Bool) (h : Fits name labels) :
    reported (.fallback memory :: t) name labels =
      if name = .aesmsg_store_memory_fallback ∧ labels = [] then some (if memory then 1 else 0)
      else reported t name labels := by
  by_cases hname : name = .aesmsg_store_memory_fallback
  · subst hname
    rw [if_pos ⟨rfl, h.eq_nil rfl⟩]
    rfl
  · rw [if_neg fun heq ↦ hname heq.1]
    unfold reported
    rw [tally_cons rfl]
    cases name with
    | aesmsg_store_memory_fallback => exact absurd rfl hname
    | _ => rfl

theorem reported_refused (status : ℕ) :
    reported (.refused status :: t) name labels = reported t name labels := by
  unfold reported
  rw [tally_cons rfl]
  rfl

theorem reported_began (authorization : Option HeaderValue) :
    reported (.began authorization :: t) name labels =
      if name = .aesmsg_ciphertext_bytes then none
      else if name = .aesmsg_active_links then none
      else reported t name labels := by
  unfold reported
  rw [tally_cons rfl]
  cases name <;> rfl

theorem reported_scraped (stats : StorageStats) (text : List Char) (h : Fits name labels) :
    reported (.scraped (some stats) text :: t) name labels =
      if name = .aesmsg_ciphertext_bytes ∧ labels = [] then some stats.ciphertextBytes
      else if name = .aesmsg_active_links ∧ labels = [] then some stats.activeLinks
      else reported t name labels := by
  unfold reported
  rw [tally_cons rfl]
  cases name with
  | aesmsg_ciphertext_bytes | aesmsg_active_links =>
    obtain rfl := h.eq_nil rfl
    rfl
  | _ => rfl

theorem reported_unread (text : List Char) :
    reported (.scraped none text :: t) name labels = reported t name labels := by
  unfold reported
  rw [tally_cons rfl]
  rfl

end Reported

/-! ## Scrapes are exact -/

section Runs

variable {localeCompare : List Char → List Char → Bool} {token : Option String} {s : State} {t : List Event}

def Event.isBegan : Event → Bool
  | .began _ => true
  | _ => false

def Event.isScraped : Event → Bool
  | .scraped .. => true
  | _ => false

/-- What is true of an event after the events before it. -/
def Exact (token : Option String) : Event → List Event → Prop
  | .scraped stats text, t => Faithful text (reported (.scraped stats text :: t))
  | .began authorization, _ => ∃ configured, token = some configured ∧ configured ≠ "" ∧
    authorization = some (.one ("Bearer " ++ configured))
  | _, _ => True

theorem extractBearer_eq_some {header : Option HeaderValue} {presented : String}
    (h : extractBearer header = some presented) : header = some (.one ("Bearer " ++ presented)) := by
  unfold extractBearer at h
  split at h
  · rename_i text
    obtain ⟨⟨hbearer, -, -⟩, hrest⟩ := Option.ite_none_right_eq_some.mp h
    obtain ⟨rest, hrest'⟩ := List.isPrefixOf_iff_prefix.mp hbearer
    rw [← hrest', List.drop_left] at hrest
    have htext : "Bearer " ++ presented = text := by
      apply String.toList_injective
      rw [String.toList_append, ← Option.some.inj hrest, ← hrest']
      exact congrArg (BEARER ++ ·) String.toList_ofList
    rw [htext]
  · cases h

theorem refusal_eq_none {authorization : Option HeaderValue} (h : refusal token authorization = none) :
    ∃ configured, token = some configured ∧ configured ≠ "" ∧
      authorization = some (.one ("Bearer " ++ configured)) := by
  unfold refusal at h
  cases token with
  | none => cases h
  | some configured =>
    dsimp only at h
    split at h
    · cases h
    · rename_i hset
      split at h
      · cases h
      · rename_i presented hpresented
        split at h
        · rename_i hmatch
          obtain rfl : configured = presented := TextEncoder.encode_injective (of_decide_eq_true hmatch)
          exact ⟨configured, rfl, hset, extractBearer_eq_some hpresented⟩
        · cases h

theorem reset_agrees : ∃ r, reset = .ok r ∧ Agrees r (reported []) := by
  have hempty : Agrees (fun _ ↦ .empty) fun _ _ ↦ none := ⟨fun _ ↦ rfl, fun h ↦ by cases h⟩
  have hcreated := hempty.zero .aesmsg_messages_created_total rfl
  have hopened := hcreated.zero .aesmsg_messages_opened_total rfl
  have hrevoked := hopened.zero .aesmsg_messages_revoked_total rfl
  obtain ⟨r, hreset, hr⟩ := hrevoked.set .aesmsg_store_memory_fallback 0 rfl rfl
  refine ⟨r, hreset, hr.congr fun name labels hfits ↦ ?_⟩
  cases name with
  | aesmsg_http_requests_total | aesmsg_rate_limited_total | aesmsg_dependency_errors_total => rfl
  | aesmsg_active_links | aesmsg_ciphertext_bytes => rfl
  | _ =>
    obtain rfl := hfits.eq_nil rfl
    rfl

theorem setVolumes_agrees {r : Registry} (h : Agrees r (reported t)) (stats : Option StorageStats) :
    ∃ r', setVolumes r stats = .ok r' ∧ ∀ text, Agrees r' (reported (.scraped stats text :: t)) := by
  cases stats with
  | none => exact ⟨r, rfl, fun text ↦ h.congr fun _ _ _ ↦ (reported_unread text).symm⟩
  | some stats =>
    obtain ⟨r₁, hr₁, hlinks⟩ := h.set .aesmsg_active_links stats.activeLinks rfl rfl
    obtain ⟨r₂, hr₂, hbytes⟩ := hlinks.set .aesmsg_ciphertext_bytes stats.ciphertextBytes rfl rfl
    refine ⟨r₂, ?_, fun text ↦ hbytes.congr fun _ _ hfits ↦ (reported_scraped stats text hfits).symm⟩
    unfold setVolumes
    dsimp only
    rw [hr₁]
    exact hr₂

/-- The registry agrees with the events. -/
structure Inv (token : Option String) (s : State) (t : List Event) : Prop where
  agrees : Agrees s.registry (reported t)
  scrapes : t.countP Event.isScraped + s.scrapes = t.countP Event.isBegan
  past : Machine.Past (Exact token) t

variable (localeCompare token) in
theorem step_respond (s : State) (event : HttpEvent) : step localeCompare token s (.respond event) =
    some ({ s with registry := (hits event).foldl (fun r hit ↦ bump r hit.1 hit.2 1) s.registry },
      [.responded event]) := by
  unfold step
  dsimp only
  rw [recordHttp_eq]
  rfl

theorem inv_init : Inv token (machine localeCompare token).init [] where
  agrees := by
    obtain ⟨r, hreset, hr⟩ := reset_agrees
    unfold machine
    rw [hreset]
    exact hr
  scrapes := rfl
  past := Machine.past_nil

theorem Inv.step {s' : State} {es : List Event} {a : Action} (h : Inv token s t)
    (hstep : step localeCompare token s a = some (s', es)) : Inv token s' (es ++ t) := by
  cases a with
  | respond event =>
    rw [step_respond] at hstep
    cases hstep
    refine ⟨?_, h.scrapes, Machine.past_cons.mpr ⟨trivial, h.past⟩⟩
    exact (h.agrees.foldl fun _ hhit ↦ (hits_fit hhit).2).congr fun _ _ _ ↦ (reported_responded event).symm
  | getStores memory =>
    obtain ⟨-, hstep⟩ := Option.ite_none_left_eq_some.mp hstep
    obtain ⟨r, hr, heq⟩ := Option.map_eq_some_iff.mp hstep
    cases heq
    obtain ⟨r', hr', hagrees⟩ := h.agrees.set .aesmsg_store_memory_fallback
      (if memory then 1 else 0) rfl rfl
    rw [hr'] at hr
    cases hr
    refine ⟨?_, h.scrapes, Machine.past_cons.mpr ⟨trivial, h.past⟩⟩
    exact hagrees.congr fun _ _ hfits ↦ (reported_fallback memory hfits).symm
  | scrape authorization =>
    unfold Metrics.step at hstep
    dsimp only at hstep
    split at hstep
    · cases hstep
      refine ⟨?_, h.scrapes, Machine.past_cons.mpr ⟨trivial, h.past⟩⟩
      exact h.agrees.congr fun _ _ _ ↦ (reported_refused _).symm
    · rename_i hallowed
      cases hstep
      refine ⟨?_, ?_, Machine.past_cons.mpr ⟨refusal_eq_none hallowed, h.past⟩⟩
      · exact ((h.agrees.clear _).clear _).congr fun _ _ _ ↦ (reported_began authorization).symm
      · have hbegan : (.began authorization :: t).countP Event.isBegan = t.countP Event.isBegan + 1 :=
          List.countP_cons_of_pos rfl
        have hscraped : (.began authorization :: t).countP Event.isScraped = t.countP Event.isScraped :=
          List.countP_cons_of_neg Bool.false_ne_true
        have hscrapes := h.scrapes
        rw [List.singleton_append, hbegan, hscraped]
        dsimp only
        omega
  | stats stats =>
    obtain ⟨hwaits, hstep⟩ := Option.ite_none_left_eq_some.mp hstep
    obtain ⟨r, hr, heq⟩ := Option.map_eq_some_iff.mp hstep
    cases heq
    obtain ⟨r', hr', hagrees⟩ := setVolumes_agrees h.agrees stats
    rw [hr'] at hr
    cases hr
    refine ⟨hagrees _, ?_, Machine.past_cons.mpr ⟨faithful_render (hagrees _), h.past⟩⟩
    have hbegan : (.scraped stats (render localeCompare r) :: t).countP Event.isBegan =
        t.countP Event.isBegan := List.countP_cons_of_neg Bool.false_ne_true
    have hscraped : (.scraped stats (render localeCompare r) :: t).countP Event.isScraped =
        t.countP Event.isScraped + 1 := List.countP_cons_of_pos rfl
    have hscrapes := h.scrapes
    rw [List.singleton_append, hbegan, hscraped]
    dsimp only
    omega

/-- A text has the series of the events before it, each once, and is only shown for a scrape that began with
the token. -/
theorem scrape_exact (h : (machine localeCompare token).Run s t) :
    Machine.Past (Exact token) t ∧ t.countP Event.isScraped ≤ t.countP Event.isBegan := by
  have hinv : Inv token s t := h.invariant (P := Inv token) inv_init fun h ↦ h.step
  exact ⟨hinv.past, Nat.le.intro hinv.scrapes⟩

/-- A link is opened before a scrape. -/
theorem scrape_exact_opened : ∃ s stats text t,
    (machine (fun _ _ ↦ true) (some "key")).Run s (.scraped stats text :: t) ∧
      ("aesmsg_messages_opened_total".toList, ['1']) ∈ Exposition.read text := by
  have hrespond : ∀ (s : State) (event : HttpEvent), ∃ s', (machine (fun _ _ ↦ true) (some "key")).step s
      (.respond event) = some (s', [.responded event]) :=
    fun s event ↦ ⟨_, step_respond (fun _ _ ↦ true) (some "key") s event⟩
  have hscrape : ∀ s : State, ∃ s', (machine (fun _ _ ↦ true) (some "key")).step s
      (.scrape (some (.one "Bearer key"))) = some (s', [.began (some (.one "Bearer key"))]) ∧
        s'.scrapes = s.scrapes + 1 := by
    have hallowed : refusal (some "key") (some (.one "Bearer key")) = none := by decide +kernel
    intro s
    refine ⟨⟨clearVolumes s.registry, s.hasStores, s.scrapes + 1⟩, ?_, rfl⟩
    unfold machine step
    dsimp only
    rw [hallowed]
  have hstats : ∀ s : State, s.scrapes ≠ 0 → ∃ s' text, (machine (fun _ _ ↦ true) (some "key")).step s
      (.stats none) = some (s', [.scraped none text]) := fun s hwaits ↦ ⟨_, _, if_neg hwaits⟩
  obtain ⟨s₁, hopened⟩ := hrespond _ ⟨"/api/messages/:id/open", "POST", 200⟩
  obtain ⟨s₂, hbegan, hwaits⟩ := hscrape s₁
  obtain ⟨s₃, text, hscraped⟩ := hstats s₂ (by rw [hwaits]; exact Nat.succ_ne_zero _)
  have hrun := ((Machine.Run.init.step hopened).step hbegan).step hscraped
  have hexact := (scrape_exact hrun).1 [] _ _ rfl
  exact ⟨_, _, _, _, hrun, (hexact.value .aesmsg_messages_opened_total [] rfl 1).mpr rfl⟩

end Runs

end Aesmsg.Api.Metrics
