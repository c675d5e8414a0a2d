import Aesmsg.Api.Boot
import Aesmsg.Api.Handlers
import Aesmsg.Crypto.Payload
import Aesmsg.Lib.Headers
import Aesmsg.Store.RateLimit

/-!
# The edge of the API

What `apps/api/src/fastify-adapter.ts` makes of a request, and the start of the handlers of
`messages-handler.ts`: the checks before the rate limiter, the address it counts by and what it lets
through.  Fastify derives `request.ip` with `proxy-addr`, a parameter, and may refuse any request before
it comes to a handler (a body over the limit of the route, a host that no URL can be made of).

## Main results

- `limited`: in every window, whatever the headers of its requests, no client gets more of them past the
  limiter of an endpoint than the limit of that endpoint.
- `own_budget`: every request is answered by the number of requests of the same client to the same
  endpoint in the same window, so that none is stopped by the requests of others.
-/

namespace Aesmsg.Api.Edge

open Crypto FixedWindow Store Store.RateLimit

/-! ## The adapter -/

inductive HeaderValue where
  | one (value : String)
  | many (values : List String)

def HeaderValue.values : HeaderValue → List String
  | .one value => [value]
  | .many values => values

/-- What the adapter reads of a Fastify request. -/
structure FastifyRequest where
  ip : String
  headers : List (String × HeaderValue)
  body : Option String

def CLIENT_IP_HEADER : String := "x-aesmsg-client-ip"

def SKIP : List String :=
  ["host", "content-length", "connection", "transfer-encoding", CLIENT_IP_HEADER]

/-- The headers of a request that the handlers are given. -/
def inbound (headers : List (String × HeaderValue)) : Headers :=
  headers.flatMap fun (key, value) ↦
    if key.toLower ∈ SKIP then [] else value.values.map (key.toLower, ·)

/-- `request.ip || "unknown"` -/
def stamp (ip : String) : String := if ip = "" then "unknown" else ip

/-- The headers that `runHandler` builds. -/
def runHandler (request : FastifyRequest) : Headers :=
  (inbound request.headers).set CLIENT_IP_HEADER (stamp request.ip)

/-- What `text()` resolves to in a handler. -/
def text (body : Option String) : String := dec (TextEncoder.encode (body.getD ""))

def getClientIp (headers : Headers) : String := (headers.get CLIENT_IP_HEADER).getD "unknown"

/-- The address is not read from what a client has sent. -/
theorem getClientIp_runHandler (request : FastifyRequest) :
    getClientIp (runHandler request) = stamp request.ip := by
  unfold getClientIp runHandler
  rw [Headers.get_set, if_pos rfl]
  rfl

/-- What a handler reads besides is what the client has sent. -/
theorem get_runHandler (request : FastifyRequest) {name : String}
    (h : name.toLower ≠ CLIENT_IP_HEADER.toLower) : (runHandler request).get name =
      (inbound request.headers).get name := by
  unfold runHandler
  rw [Headers.get_set, if_neg h]

/-! ## The proxies -/

/-- The addresses of `X-Forwarded-For`, from the client to the last proxy. -/
def forwarded (headers : List (String × HeaderValue)) : List String :=
  match headers.find? (·.1.toLower = "x-forwarded-for") with
  | none => []
  | some (_, value) =>
    ((((", ".intercalate value.values).toList.splitOn ',').map (Trim.trim (· = ' '))).filter (· ≠ [])).map
      String.ofList

/-- `proxy-addr`: the address of the socket, or the first one on the way that is not trusted. -/
structure Documented (proxyAddr : TrustProxy → String → List (String × HeaderValue) → String) : Prop where
  off : ∀ socket headers, proxyAddr .off socket headers = socket
  hops : ∀ n socket headers address, (socket :: (forwarded headers).reverse)[n]? = some address →
    proxyAddr (.hops n) socket headers = address

/-! ## The handlers, to the rate limiter -/

inductive Endpoint where
  | create
  | get
  | list
  | openMessage
  | revoke
deriving DecidableEq

def RATE_LIMIT_WINDOW_SECONDS : Nat := 60

def Endpoint.limit : Endpoint → Nat
  | .create | .openMessage | .revoke => RATE_LIMIT_MAX
  | .get => GET_RATE_LIMIT_MAX
  | .list => LIST_RATE_LIMIT_MAX

def Endpoint.keyPrefix : Endpoint → String
  | .create => "messages:"
  | .get => "messages:get:"
  | .list => "messages:list:"
  | .openMessage => "messages:open:"
  | .revoke => "messages:revoke:"

/-- What a handler checks first. -/
def Endpoint.checks (id text : String) : Endpoint → Bool
  | .create | .list => true
  | .get => isLinkId id
  | .openMessage | .revoke => isLinkId id && isEmptyBody text

structure FastifyError where
  statusCode : Option Nat

/-- The status that the error handler of `buildServer` answers. -/
def FastifyError.status (error : FastifyError) : Nat :=
  match error.statusCode with
  | some status => if 400 ≤ status ∧ status < 500 then status else 500
  | none => 500

structure Arrival where
  endpoint : Endpoint
  socket : String
  headers : List (String × HeaderValue)
  id : String
  body : Option String
  /-- What Fastify or `runHandler` throws before the handler is called. -/
  thrown : Option FastifyError
  /-- `Date.now()` of the limiter. -/
  now : Int

inductive Outcome where
  /-- Answered without the handler. -/
  | refused (status : Nat)
  | badRequest
  /-- 500, of `hashIp`. -/
  | weakSalt
  /-- 500, of the limiter. -/
  | unavailable
  | rateLimited
  | admitted
deriving DecidableEq

def outcomeOf (limit : Nat) : Answer → Outcome
  | .error _ => .unavailable
  | .ok count => if limit < count then .rateLimited else .admitted

/-- The store of `buildStores`. -/
inductive Limiter where
  | memory (windows : Memory)
  | redis (counters : Redis)

def Limiter.incrementAndGet (call : RateLimit.Call) (delivery : Delivery) : Limiter → Limiter × Answer
  | .memory windows =>
    let next := windows.incrementAndGet call
    (.memory next.1, next.2)
  | .redis counters =>
    let next := counters.incrementAndGet call delivery
    (.redis next.1, next.2)

section Serve

variable (hmac : String → String → String)
  (proxyAddr : TrustProxy → String → List (String × HeaderValue) → String) (env : ProcessEnv)

def Arrival.fastify (arrival : Arrival) : FastifyRequest where
  ip := proxyAddr (resolveTrustProxy env.AESMSG_TRUST_PROXY) arrival.socket arrival.headers
  headers := arrival.headers
  body := arrival.body

/-- The call of the limiter that a handler makes. -/
def Arrival.call (arrival : Arrival) : Except Outcome RateLimit.Call :=
  match arrival.thrown with
  | some error => .error (.refused error.status)
  | none =>
    if !arrival.endpoint.checks arrival.id (text arrival.body) then .error .badRequest
    else
      match hashIp hmac env (getClientIp (runHandler (arrival.fastify proxyAddr env))) with
      | .error _ => .error .weakSalt
      | .ok ip => .ok ⟨arrival.endpoint.keyPrefix ++ ip, RATE_LIMIT_WINDOW_SECONDS, arrival.now⟩

def serve (limiter : Limiter) (arrival : Arrival) (delivery : Delivery) : Limiter × Outcome :=
  match arrival.call hmac proxyAddr env with
  | .error outcome => (limiter, outcome)
  | .ok call =>
    let next := limiter.incrementAndGet call delivery
    (next.1, outcomeOf arrival.endpoint.limit next.2)

/-- The requests to a process, with the newest one first. -/
def run : List (Arrival × Delivery) → Limiter × List (Arrival × Outcome)
  | [] => (if shouldUseDbStores env then .redis fun _ ↦ none else .memory .empty, [])
  | (arrival, delivery) :: arrivals =>
    let served := run arrivals
    let next := serve hmac proxyAddr env served.1 arrival delivery
    (next.1, (arrival, next.2) :: served.2)

def attempt (arrival : Arrival × Delivery) : Option (RateLimit.Call × Delivery) :=
  (arrival.1.call hmac proxyAddr env).toOption.map (·, arrival.2)

/-- The calls of the limiter. -/
def attempts (arrivals : List (Arrival × Delivery)) : List (RateLimit.Call × Delivery) :=
  arrivals.filterMap (attempt hmac proxyAddr env)

end Serve

/-! ## What a run of the limiter answers -/

section Run

variable {hmac : String → String → String}
  {proxyAddr : TrustProxy → String → List (String × HeaderValue) → String} {env : ProcessEnv}
  {arrivals : List (Arrival × Delivery)}

/-- The limiter and its answers, after its calls. -/
def answers (env : ProcessEnv) (calls : List (RateLimit.Call × Delivery)) :
    Limiter × List (RateLimit.Call × Answer) :=
  if shouldUseDbStores env then
    (.redis (Redis.run calls).1, (Redis.run calls).2)
  else (.memory (Memory.run (calls.map Prod.fst)).1, (Memory.run (calls.map Prod.fst)).2)

theorem answers_cons (env : ProcessEnv) (call : RateLimit.Call) (delivery : Delivery)
    (calls : List (RateLimit.Call × Delivery)) :
    answers env ((call, delivery) :: calls) =
      (((answers env calls).1.incrementAndGet call delivery).1,
        (call, ((answers env calls).1.incrementAndGet call delivery).2) :: (answers env calls).2) := by
  unfold answers
  split
  · rfl
  · rfl

section Cons

variable {arrival : Arrival} {outcome : Outcome} {call : RateLimit.Call}

theorem run_cons_error (h : arrival.call hmac proxyAddr env = .error outcome) (delivery : Delivery) :
    run hmac proxyAddr env ((arrival, delivery) :: arrivals) =
      ((run hmac proxyAddr env arrivals).1, (arrival, outcome) :: (run hmac proxyAddr env arrivals).2) := by
  conv_lhs => unfold run serve
  rw [h]

theorem run_cons_ok (h : arrival.call hmac proxyAddr env = .ok call) (delivery : Delivery) :
    run hmac proxyAddr env ((arrival, delivery) :: arrivals) =
      (((run hmac proxyAddr env arrivals).1.incrementAndGet call delivery).1,
        (arrival, outcomeOf arrival.endpoint.limit
          ((run hmac proxyAddr env arrivals).1.incrementAndGet call delivery).2) ::
          (run hmac proxyAddr env arrivals).2) := by
  conv_lhs => unfold run serve
  rw [h]

theorem attempts_cons_error (h : arrival.call hmac proxyAddr env = .error outcome) (delivery : Delivery) :
    attempts hmac proxyAddr env ((arrival, delivery) :: arrivals) = attempts hmac proxyAddr env arrivals :=
  List.filterMap_cons_none (by unfold attempt; rw [h]; rfl)

theorem attempts_cons_ok (h : arrival.call hmac proxyAddr env = .ok call) (delivery : Delivery) :
    attempts hmac proxyAddr env ((arrival, delivery) :: arrivals) =
      (call, delivery) :: attempts hmac proxyAddr env arrivals :=
  List.filterMap_cons_some (by unfold attempt; rw [h]; rfl)

end Cons

theorem limiter_run (arrivals : List (Arrival × Delivery)) :
    (run hmac proxyAddr env arrivals).1 = (answers env (attempts hmac proxyAddr env arrivals)).1 := by
  induction arrivals with
  | nil =>
    unfold run answers attempts
    split
    · rfl
    · rfl
  | cons first arrivals ih =>
    obtain ⟨arrival, delivery⟩ := first
    cases hcall : arrival.call hmac proxyAddr env with
    | error outcome => rw [run_cons_error hcall, attempts_cons_error hcall, ih]
    | ok call => rw [run_cons_ok hcall, attempts_cons_ok hcall, answers_cons, ih]

/-- What is admitted is a call that is let through. -/
theorem outcomeOf_eq_admitted {limit : Nat} {answer : Answer} (h : outcomeOf limit answer = .admitted) :
    admits limit answer = true := by
  cases answer with
  | error err => cases h
  | ok count =>
    have hout : (if limit < count then Outcome.rateLimited else .admitted) = .admitted := h
    by_cases hlt : limit < count
    · rw [if_pos hlt] at hout
      cases hout
    · exact decide_eq_true (Nat.not_lt.mp hlt)

theorem outcome_ne_admitted {arrival : Arrival} {outcome : Outcome}
    (h : arrival.call hmac proxyAddr env = .error outcome) : outcome ≠ .admitted := by
  unfold Arrival.call at h
  split at h
  · cases h
    exact Outcome.noConfusion
  split at h
  · cases h
    exact Outcome.noConfusion
  · split at h
    · cases h
      exact Outcome.noConfusion
    · cases h

variable (hmac proxyAddr env) in
/-- Some requests to an endpoint that are admitted, and the calls that are let through. -/
theorem countP_admitted_le (endpoint : Endpoint) {P : Arrival → Prop} {Q : RateLimit.Call → Prop}
    [DecidablePred P] [DecidablePred Q] (hendpoint : ∀ arrival, P arrival → arrival.endpoint = endpoint)
    (hcalls : ∀ arrival call, P arrival → arrival.call hmac proxyAddr env = .ok call → Q call)
    (arrivals : List (Arrival × Delivery)) :
    ((run hmac proxyAddr env arrivals).2.countP fun a ↦ P a.1 ∧ a.2 = .admitted) ≤
      (answers env (attempts hmac proxyAddr env arrivals)).2.countP fun a ↦
        Q a.1 ∧ admits endpoint.limit a.2 := by
  induction arrivals with
  | nil => exact Nat.zero_le _
  | cons first arrivals ih =>
    obtain ⟨arrival, delivery⟩ := first
    cases hcall : arrival.call hmac proxyAddr env with
    | error outcome =>
      rw [run_cons_error hcall, attempts_cons_error hcall]
      have hne := outcome_ne_admitted hcall
      rw [List.countP_cons_of_neg (by simp [hne])]
      exact ih
    | ok call =>
      rw [run_cons_ok hcall, attempts_cons_ok hcall, answers_cons, limiter_run]
      dsimp only
      generalize ((answers env (attempts hmac proxyAddr env arrivals)).1.incrementAndGet call delivery).2 =
        answer
      by_cases hadmitted : P arrival ∧ outcomeOf arrival.endpoint.limit answer = .admitted
      · obtain ⟨hp, hout⟩ := hadmitted
        have hlet := outcomeOf_eq_admitted hout
        rw [hendpoint arrival hp] at hlet
        have hboth : Q call ∧ admits endpoint.limit answer = true := ⟨hcalls arrival call hp hcall, hlet⟩
        rw [List.countP_cons_of_pos (by simpa using ⟨hp, hout⟩),
          List.countP_cons_of_pos (by simpa using hboth)]
        exact Nat.succ_le_succ ih
      · rw [List.countP_cons_of_neg (by simpa using hadmitted)]
        exact ih.trans (List.sublist_cons_self _ _).countP_le

/-- What a call is made of. -/
theorem call_eq_ok {arrival : Arrival} {call : RateLimit.Call}
    (h : arrival.call hmac proxyAddr env = .ok call) :
    arrival.endpoint.checks arrival.id (text arrival.body) = true ∧
      ∃ ip, hashIp hmac env (stamp (arrival.fastify proxyAddr env).ip) = .ok ip ∧
        call = ⟨arrival.endpoint.keyPrefix ++ ip, RATE_LIMIT_WINDOW_SECONDS, arrival.now⟩ := by
  unfold Arrival.call at h
  rw [getClientIp_runHandler] at h
  split at h
  · cases h
  split at h
  · cases h
  · rename_i hchecks
    split at h
    · cases h
    · rename_i ip hip
      exact ⟨by simpa using hchecks, ip, hip, (Except.ok.inj h).symm⟩

/-- The clock does not go back. -/
def InOrder (arrivals : List (Arrival × Delivery)) : Prop :=
  arrivals.Pairwise fun later earlier ↦ earlier.1.now ≤ later.1.now

theorem attempt_eq_some {a : Arrival × Delivery} {b : RateLimit.Call × Delivery}
    (h : attempt hmac proxyAddr env a = some b) : a.1.call hmac proxyAddr env = .ok b.1 := by
  unfold attempt at h
  obtain ⟨call, hcall, rfl⟩ := Option.map_eq_some_iff.mp h
  cases hok : a.1.call hmac proxyAddr env with
  | error outcome =>
    rw [hok] at hcall
    cases hcall
  | ok call' =>
    rw [hok] at hcall
    cases hcall
    rfl

theorem call_of_mem {b : RateLimit.Call × Delivery} (h : b ∈ attempts hmac proxyAddr env arrivals) :
    ∃ a ∈ arrivals, a.1.call hmac proxyAddr env = .ok b.1 := by
  obtain ⟨a, ha, hb⟩ := List.mem_filterMap.mp h
  exact ⟨a, ha, attempt_eq_some hb⟩

theorem windowSeconds_of_mem {b : RateLimit.Call × Delivery}
    (h : b ∈ attempts hmac proxyAddr env arrivals) : b.1.windowSeconds = RATE_LIMIT_WINDOW_SECONDS := by
  obtain ⟨a, -, hcall⟩ := call_of_mem h
  obtain ⟨-, ip, -, hb⟩ := call_eq_ok hcall
  rw [hb]

theorem timed_attempts (h : InOrder arrivals) :
    Timed ((attempts hmac proxyAddr env arrivals).map Prod.fst) := by
  constructor
  · intro call hcall
    obtain ⟨b, hb, rfl⟩ := List.mem_map.mp hcall
    rw [windowSeconds_of_mem hb]
    exact Nat.zero_lt_succ _
  · intro call hcall other hother _
    obtain ⟨b, hb, rfl⟩ := List.mem_map.mp hcall
    obtain ⟨c, hc, rfl⟩ := List.mem_map.mp hother
    rw [windowSeconds_of_mem hb, windowSeconds_of_mem hc]
  · refine List.pairwise_map.mpr (List.Pairwise.filterMap _ ?_ h)
    intro later earlier htimes b hb c hc
    obtain ⟨-, ip, -, hlater⟩ := call_eq_ok (attempt_eq_some hb)
    obtain ⟨-, ip', -, hearlier⟩ := call_eq_ok (attempt_eq_some hc)
    rw [hlater, hearlier]
    exact htimes

theorem map_fst_redis (calls : List (RateLimit.Call × Delivery)) :
    (Redis.run calls).2.map Prod.fst = calls.map Prod.fst := by
  induction calls with
  | nil => rfl
  | cons first calls ih => exact congrArg (first.1 :: ·) ih

theorem map_fst_memory (calls : List RateLimit.Call) : (Memory.run calls).2.map Prod.fst = calls := by
  induction calls with
  | nil => rfl
  | cons first calls ih => exact congrArg (first :: ·) ih

variable (hmac proxyAddr env) in
/-- Both stores keep the limits. -/
theorem limited_answers (h : InOrder arrivals) :
    Limited (answers env (attempts hmac proxyAddr env arrivals)).2 ∧
      ∀ a ∈ (answers env (attempts hmac proxyAddr env arrivals)).2,
        a.1.windowSeconds = RATE_LIMIT_WINDOW_SECONDS := by
  have hcalls : ∀ call ∈ (attempts hmac proxyAddr env arrivals).map Prod.fst,
      call.windowSeconds = RATE_LIMIT_WINDOW_SECONDS := by
    intro call hcall
    obtain ⟨b, hb, rfl⟩ := List.mem_map.mp hcall
    exact windowSeconds_of_mem hb
  unfold answers
  split
  · refine ⟨limited_of_numbered (Redis.numbered (timed_attempts h)), fun a ha ↦ hcalls a.1 ?_⟩
    rw [← map_fst_redis]
    exact List.mem_map_of_mem ha
  · dsimp only
    refine ⟨?_, fun a ha ↦ hcalls a.1 ?_⟩
    · rw [Memory.answers_eq]
      exact limited_of_numbered (numbered_counts _)
    · rw [← map_fst_memory ((attempts hmac proxyAddr env arrivals).map Prod.fst)]
      exact List.mem_map_of_mem ha

end Run

/-! ## Clients -/

/-- The address that a request comes from, where no client can choose it: that of the socket or, behind
as many proxies as are trusted, that of the client of the outermost one. -/
def peer (env : ProcessEnv) (arrival : Arrival) : Option String :=
  match resolveTrustProxy env.AESMSG_TRUST_PROXY with
  | .off => some arrival.socket
  | .hops n => (arrival.socket :: (forwarded arrival.headers).reverse)[n]?
  | .all | .list _ => none

/-- No more requests of a client to an endpoint are admitted than its limit in a window, and twice that
in as much time as a window has. -/
structure PerClient (env : ProcessEnv) (outcomes : List (Arrival × Outcome)) : Prop where
  window : ∀ endpoint client window, (outcomes.countP fun a ↦
    (a.1.endpoint = endpoint ∧ peer env a.1 = some client ∧ a.1.now / 60000 = window) ∧
      a.2 = .admitted) ≤ endpoint.limit
  interval : ∀ endpoint client (start : Int), (outcomes.countP fun a ↦
    (a.1.endpoint = endpoint ∧ peer env a.1 = some client ∧ start ≤ a.1.now ∧ a.1.now < start + 60000) ∧
      a.2 = .admitted) ≤ 2 * endpoint.limit

section Clients

variable {hmac : String → String → String}
  {proxyAddr : TrustProxy → String → List (String × HeaderValue) → String} {env : ProcessEnv}
  {arrivals : List (Arrival × Delivery)}

/-- `request.ip` is the address of the client. -/
theorem ip_of_peer (hproxy : Documented proxyAddr) {arrival : Arrival} {client : String}
    (h : peer env arrival = some client) : (arrival.fastify proxyAddr env).ip = client := by
  unfold peer at h
  unfold Arrival.fastify
  cases htrust : resolveTrustProxy env.AESMSG_TRUST_PROXY with
  | off =>
    rw [htrust] at h
    exact (hproxy.off _ _).trans (Option.some.inj h)
  | hops n =>
    rw [htrust] at h
    exact hproxy.hops n _ _ _ h
  | all =>
    rw [htrust] at h
    cases h
  | list addresses =>
    rw [htrust] at h
    cases h

variable (hmac) in
/-- All requests of a client to an endpoint have one key. -/
theorem key_of_peer (hproxy : Documented proxyAddr) (env : ProcessEnv) (endpoint : Endpoint)
    (client : String) : ∃ key, ∀ arrival call, arrival.endpoint = endpoint →
      peer env arrival = some client → arrival.call hmac proxyAddr env = .ok call →
        call.key = key ∧ call.now = arrival.now ∧ call.windowSeconds = RATE_LIMIT_WINDOW_SECONDS := by
  refine ⟨endpoint.keyPrefix ++ ((hashIp hmac env (stamp client)).toOption.getD ""), ?_⟩
  rintro arrival call rfl hpeer hcall
  obtain ⟨-, ip, hip, rfl⟩ := call_eq_ok hcall
  rw [ip_of_peer hproxy hpeer] at hip
  rw [hip]
  exact ⟨rfl, rfl, rfl⟩

/-- No client gets more requests to an endpoint admitted in a window than the limit of the endpoint, nor
more than twice the limit in any 60 s, whatever headers its requests carry and whatever fails. -/
theorem limited (hproxy : Documented proxyAddr) (h : InOrder arrivals) :
    PerClient env (run hmac proxyAddr env arrivals).2 := by
  obtain ⟨hlimited, hwidth⟩ := limited_answers hmac proxyAddr env h
  constructor
  · intro endpoint client window
    obtain ⟨key, hkey⟩ := key_of_peer hmac hproxy env endpoint client
    have hle := countP_admitted_le hmac proxyAddr env endpoint
      (P := fun a ↦ a.endpoint = endpoint ∧ peer env a = some client ∧ a.now / 60000 = window)
      (Q := fun call ↦ call.key = key ∧ call.windowFloor = window * 60) (fun _ ha ↦ ha.1) ?_ arrivals
    · exact hle.trans (hlimited.window endpoint.limit key (window * 60))
    rintro arrival call ⟨hendpoint, hpeer, hwindow⟩ hcall
    obtain ⟨hk, hnow, hseconds⟩ := hkey arrival call hendpoint hpeer hcall
    refine ⟨hk, ?_⟩
    unfold RateLimit.Call.windowFloor
    rw [hnow, hseconds]
    exact congrArg (· * (60 : Int)) hwindow
  · intro endpoint client start
    obtain ⟨key, hkey⟩ := key_of_peer hmac hproxy env endpoint client
    have hle := countP_admitted_le hmac proxyAddr env endpoint
      (P := fun a ↦ a.endpoint = endpoint ∧ peer env a = some client ∧ start ≤ a.now ∧
        a.now < start + 60000)
      (Q := fun call ↦ call.key = key ∧ start ≤ call.now ∧
        call.now < start + 1000 * RATE_LIMIT_WINDOW_SECONDS) (fun _ ha ↦ ha.1) ?_ arrivals
    · exact hle.trans (hlimited.interval endpoint.limit key start RATE_LIMIT_WINDOW_SECONDS
        fun a ha _ ↦ hwidth a ha)
    rintro arrival call ⟨hendpoint, hpeer, hstart, hend⟩ hcall
    obtain ⟨hk, hnow, -⟩ := hkey arrival call hendpoint hpeer hcall
    rw [hnow]
    exact ⟨hk, hstart, hend⟩

end Clients

/-! ## The budget of a client -/

section Budget

variable (hmac : String → String → String)
  (proxyAddr : TrustProxy → String → List (String × HeaderValue) → String) (env : ProcessEnv)

/-- The request comes to its handler and passes the checks before the limiter. -/
def Arrival.passes (arrival : Arrival) : Bool :=
  arrival.thrown.isNone && arrival.endpoint.checks arrival.id (text arrival.body)

/-- The answer to a request that does not. -/
def Arrival.refusal (arrival : Arrival) : Outcome :=
  match arrival.thrown with
  | some error => .refused error.status
  | none => .badRequest

/-- The endpoint, the address and the window of a request. -/
def Arrival.bucket (arrival : Arrival) : Endpoint × String × Int :=
  (arrival.endpoint, stamp (arrival.fastify proxyAddr env).ip, arrival.now / 60000)

/-- Each request is counted with those before it of its bucket, and with no others. -/
def budget : List Arrival → List (Arrival × Outcome)
  | [] => []
  | arrival :: arrivals =>
    let count := (arrival :: arrivals).countP fun other ↦
      other.passes ∧ other.bucket proxyAddr env = arrival.bucket proxyAddr env
    (arrival, if !arrival.passes then arrival.refusal
      else if arrival.endpoint.limit < count then .rateLimited
      else .admitted) :: budget arrivals

/-- The hash of an address. -/
def Arrival.hash (arrival : Arrival) : String :=
  hmac (env.RATE_LIMIT_IP_SALT.getD "") (stamp (arrival.fastify proxyAddr env).ip)

/-- The addresses have digests, and are told apart by them. -/
structure ToldApart (arrivals : List Arrival) : Prop where
  digest : ∀ a ∈ arrivals, IsDigest (a.hash hmac proxyAddr env)
  inj : ∀ a ∈ arrivals, ∀ b ∈ arrivals, a.hash hmac proxyAddr env = b.hash hmac proxyAddr env →
    stamp (a.fastify proxyAddr env).ip = stamp (b.fastify proxyAddr env).ip

variable {hmac proxyAddr env} {arrivals : List (Arrival × Delivery)} {arrival other : Arrival}
  {call call' : RateLimit.Call}

variable (hmac proxyAddr env) in
/-- The call of a request that passes the checks. -/
def Arrival.counted (arrival : Arrival) : RateLimit.Call :=
  ⟨arrival.endpoint.keyPrefix ++ arrival.hash hmac proxyAddr env, RATE_LIMIT_WINDOW_SECONDS, arrival.now⟩

theorem call_eq_of_booted (hbooted : assertProductionConfig env = none) (arrival : Arrival) :
    arrival.call hmac proxyAddr env =
      if arrival.passes then .ok (arrival.counted hmac proxyAddr env) else .error arrival.refusal := by
  unfold Arrival.call Arrival.passes Arrival.refusal
  rw [getClientIp_runHandler, hashIp_of_booted hbooted]
  cases arrival.thrown with
  | some error => rfl
  | none =>
    cases arrival.endpoint.checks arrival.id (text arrival.body) with
    | true => rfl
    | false => rfl

theorem colon_not_mem_digest {s : String} (h : IsDigest s) : ':' ∉ s.toList := fun hmem ↦
  absurd (h.2 _ hmem) (by decide)

/-- The prefixes end with a colon. -/
def Endpoint.name : Endpoint → String
  | .create => "messages"
  | .get => "messages:get"
  | .list => "messages:list"
  | .openMessage => "messages:open"
  | .revoke => "messages:revoke"

theorem toList_keyPrefix (endpoint : Endpoint) :
    endpoint.keyPrefix.toList = endpoint.name.toList ++ [':'] := by
  cases endpoint with
  | create | get | list | openMessage | revoke => rfl

theorem name_inj {e e' : Endpoint} (h : e.name = e'.name) : e = e' := by
  cases e with
  | create | get | list | openMessage | revoke =>
    cases e' with
    | create | get | list | openMessage | revoke => first | rfl | exact absurd h (by decide)

theorem keyPrefix_inj {e e' : Endpoint} {x y : String} (hx : ':' ∉ x.toList) (hy : ':' ∉ y.toList)
    (h : e.keyPrefix ++ x = e'.keyPrefix ++ y) : e = e' ∧ x = y := by
  have hlists := congrArg String.toList h
  rw [String.toList_append, String.toList_append, toList_keyPrefix, toList_keyPrefix, List.append_assoc,
    List.append_assoc] at hlists
  obtain ⟨hname, hrest⟩ := append_separator_inj hx hy hlists
  exact ⟨name_inj (String.toList_inj.mp hname), String.toList_inj.mp hrest⟩

/-- The calls of two requests are in one bucket where the requests are. -/
theorem bucket_iff (h : ToldApart hmac proxyAddr env [arrival, other]) :
    (arrival.counted hmac proxyAddr env).bucket = (other.counted hmac proxyAddr env).bucket ↔
      arrival.bucket proxyAddr env = other.bucket proxyAddr env := by
  have harrival : arrival ∈ [arrival, other] := List.mem_cons_self
  have hother : other ∈ [arrival, other] := List.mem_cons_of_mem _ List.mem_cons_self
  constructor
  · intro hbucket
    obtain ⟨hkey, hfloor⟩ := Prod.ext_iff.mp hbucket
    obtain ⟨hendpoint, hhash⟩ := keyPrefix_inj (colon_not_mem_digest (h.digest _ harrival))
      (colon_not_mem_digest (h.digest _ hother)) hkey
    have hwindow : arrival.now / 60000 = other.now / 60000 :=
      Int.eq_of_mul_eq_mul_right (by decide : (60 : Int) ≠ 0) hfloor
    exact Prod.ext hendpoint (Prod.ext (h.inj _ harrival _ hother hhash) hwindow)
  · intro hbucket
    obtain ⟨hendpoint, hrest⟩ := Prod.ext_iff.mp hbucket
    obtain ⟨hclient, hwindow⟩ := Prod.ext_iff.mp hrest
    have hhash : arrival.hash hmac proxyAddr env = other.hash hmac proxyAddr env :=
      congrArg (hmac (env.RATE_LIMIT_IP_SALT.getD "")) hclient
    have hkey : arrival.endpoint.keyPrefix ++ arrival.hash hmac proxyAddr env =
        other.endpoint.keyPrefix ++ other.hash hmac proxyAddr env := by
      rw [hhash, show arrival.endpoint = other.endpoint from hendpoint]
    exact Prod.ext hkey (congrArg (· * (60 : Int)) hwindow)

theorem ToldApart.mono {l l' : List Arrival} (h : ToldApart hmac proxyAddr env l) (hsub : l' ⊆ l) :
    ToldApart hmac proxyAddr env l' :=
  ⟨fun a ha ↦ h.digest a (hsub ha), fun a ha b hb ↦ h.inj a (hsub ha) b (hsub hb)⟩

theorem call_of_passes (hbooted : assertProductionConfig env = none) (h : arrival.passes = true) :
    arrival.call hmac proxyAddr env = .ok (arrival.counted hmac proxyAddr env) := by
  rw [call_eq_of_booted hbooted, if_pos h]

theorem call_of_not_passes (hbooted : assertProductionConfig env = none) (h : arrival.passes = false) :
    arrival.call hmac proxyAddr env = .error arrival.refusal := by
  rw [call_eq_of_booted hbooted, h]
  rfl

/-- The calls in the bucket of a request are the requests in it. -/
theorem countP_attempts (hbooted : assertProductionConfig env = none)
    (h : ToldApart hmac proxyAddr env (arrival :: arrivals.map Prod.fst)) :
    ((attempts hmac proxyAddr env arrivals).map Prod.fst).countP
        (·.bucket = (arrival.counted hmac proxyAddr env).bucket) =
      (arrivals.map Prod.fst).countP fun other ↦
        other.passes ∧ other.bucket proxyAddr env = arrival.bucket proxyAddr env := by
  induction arrivals with
  | nil => rfl
  | cons first arrivals ih =>
    obtain ⟨other, delivery⟩ := first
    have hrest := ih (h.mono (List.cons_subset_cons _ (List.subset_cons_self _ _)))
    cases hpasses : other.passes with
    | false =>
      rw [attempts_cons_error (call_of_not_passes hbooted hpasses), List.map_cons, hrest,
        List.countP_cons_of_neg (by simp [hpasses])]
    | true =>
      have hpair : ToldApart hmac proxyAddr env [other, arrival] := by
        refine h.mono ?_
        intro x hx
        rcases List.mem_cons.mp hx with rfl | hx
        · exact List.mem_cons_of_mem _ List.mem_cons_self
        · rw [List.mem_singleton.mp hx]
          exact List.mem_cons_self
      have hiff := bucket_iff hpair
      rw [attempts_cons_ok (call_of_passes hbooted hpasses), List.map_cons, List.map_cons,
        List.countP_cons, List.countP_cons, hrest]
      congr 1
      simp only [hpasses, hiff, true_and]

variable (hmac proxyAddr) in
/-- Both stores count, while the transactions are replied to. -/
theorem answers_eq_counts (h : InOrder arrivals)
    (hreplied : shouldUseDbStores env = true → ∀ a ∈ arrivals, a.2 = .replied) :
    (answers env (attempts hmac proxyAddr env arrivals)).2 =
      counts ((attempts hmac proxyAddr env arrivals).map Prod.fst) := by
  unfold answers
  split
  · rename_i hdb
    refine Redis.answers_eq (timed_attempts h) fun a ha ↦ ?_
    obtain ⟨b, hb, hattempt⟩ := List.mem_filterMap.mp ha
    unfold attempt at hattempt
    obtain ⟨call, -, rfl⟩ := Option.map_eq_some_iff.mp hattempt
    exact hreplied hdb b hb
  · exact Memory.answers_eq _

theorem outcomeOf_ok (limit count : Nat) :
    outcomeOf limit (.ok count) = if limit < count then .rateLimited else .admitted := rfl

/-- A process that has booted answers every request that comes to its handler by the number of requests
of the same client, to the same endpoint and in the same window, that have passed the checks. -/
theorem own_budget (hbooted : assertProductionConfig env = none) (h : InOrder arrivals)
    (hreplied : shouldUseDbStores env = true → ∀ a ∈ arrivals, a.2 = .replied)
    (hapart : ToldApart hmac proxyAddr env (arrivals.map Prod.fst)) :
    (run hmac proxyAddr env arrivals).2 = budget proxyAddr env (arrivals.map Prod.fst) := by
  induction arrivals with
  | nil => rfl
  | cons first arrivals ih =>
    obtain ⟨arrival, delivery⟩ := first
    have hrest := ih h.of_cons (fun hdb a ha ↦ hreplied hdb a (List.mem_cons_of_mem _ ha))
      (hapart.mono (List.subset_cons_self _ _))
    rw [List.map_cons]
    unfold budget
    dsimp only
    cases hpasses : arrival.passes with
    | false =>
      rw [run_cons_error (call_of_not_passes hbooted hpasses), hrest]
      rfl
    | true =>
      have hcounts := answers_eq_counts hmac proxyAddr h hreplied
      rw [attempts_cons_ok (call_of_passes hbooted hpasses), answers_cons, List.map_cons] at hcounts
      unfold counts at hcounts
      have hanswer := (Prod.ext_iff.mp (List.cons.inj hcounts).1).2
      rw [run_cons_ok (call_of_passes hbooted hpasses), limiter_run, hrest, hanswer, outcomeOf_ok,
        List.countP_cons_of_pos (by simp), countP_attempts hbooted hapart,
        List.countP_cons_of_pos (by simp [hpasses])]
      rfl

end Budget

/-! ## Forged headers -/

/-- The address after as many trusted proxies as there are. -/
def hopAddr : TrustProxy → String → List (String × HeaderValue) → String
  | .off, socket, _ | .list _, socket, _ => socket
  | .hops n, socket, headers => ((socket :: (forwarded headers).reverse)[n]?).getD
      ((socket :: (forwarded headers).reverse).getLastD socket)
  | .all, socket, headers => (socket :: (forwarded headers).reverse).getLastD socket

theorem hopAddr_documented : Documented hopAddr := by
  constructor
  · exact fun _ _ ↦ rfl
  · intro n socket headers address h
    show (((socket :: (forwarded headers).reverse)[n]?).getD _) = address
    rw [h]
    rfl

/-- Production behind one proxy. -/
def sampleEnv : ProcessEnv where
  NODE_ENV := some "production"
  DATABASE_URL := some "postgres://db"
  REDIS_URL := some "redis://cache"
  RATE_LIMIT_IP_SALT := some "0123456789abcdef0123456789abcdef"
  AESMSG_TRUST_PROXY := some "1"

/-- The digests of two addresses under the salt. -/
def sampleHmac (_salt ip : String) : String :=
  if ip = "203.0.113.7" then "55a7c9ba39c762e973ffcf294361c78f7c5a830e44341d1686e3c0fcd1f191e3"
  else "984c4da24ac5e92c82be3a5dc315846a758181bd6a1ac63d91d9508fd95feb62"

/-- An open behind the proxy, with an address that the client has made up. -/
def sampleOpen (forged address : String) (thrown : Option FastifyError) : Arrival where
  endpoint := .openMessage
  socket := "127.0.0.1"
  headers := [("x-forwarded-for", .one (forged ++ ", " ++ address)), ("x-aesmsg-client-ip", .one forged)]
  id := "AAAAAAAAAAAAAAAA"
  body := none
  thrown := thrown
  now := 60000

/-- Two clients, each with the address of another; the body of one request is too large. -/
def sampleArrivals : List (Arrival × Delivery) :=
  [(sampleOpen "203.0.113.7" "198.51.100.9" none, .replied),
    (sampleOpen "10.0.0.2" "203.0.113.7" (some ⟨some 413⟩), .replied),
    (sampleOpen "10.0.0.1" "203.0.113.7" none, .replied)]

theorem limited_forged : PerClient sampleEnv (run sampleHmac hopAddr sampleEnv sampleArrivals).2 ∧
    (run sampleHmac hopAddr sampleEnv sampleArrivals).2.map Prod.snd =
      [.admitted, .refused 413, .admitted] :=
  ⟨limited hopAddr_documented (by unfold InOrder; decide), by decide +kernel⟩

theorem sampleHmac_digest (salt ip : String) : IsDigest (sampleHmac salt ip) := by
  unfold sampleHmac
  split
  · decide +kernel
  · decide +kernel

theorem own_budget_forged : (run sampleHmac hopAddr sampleEnv sampleArrivals).2 =
    budget hopAddr sampleEnv (sampleArrivals.map Prod.fst) := by
  have hip : (sampleArrivals.map Prod.fst).map (fun a ↦ stamp (a.fastify hopAddr sampleEnv).ip) =
      ["198.51.100.9", "203.0.113.7", "203.0.113.7"] := by decide +kernel
  have hinj : ∀ x ∈ ["198.51.100.9", "203.0.113.7", "203.0.113.7"],
      ∀ y ∈ ["198.51.100.9", "203.0.113.7", "203.0.113.7"],
      sampleHmac "0123456789abcdef0123456789abcdef" x = sampleHmac "0123456789abcdef0123456789abcdef" y →
        x = y := by decide +kernel
  have hreplied : ∀ a ∈ sampleArrivals, a.2 = .replied := by decide
  refine own_budget (by decide +kernel) (by unfold InOrder; decide) (fun _ ↦ hreplied) ⟨?_, ?_⟩
  · exact fun a _ ↦ sampleHmac_digest _ _
  · intro a ha b hb heq
    refine hinj _ ?_ _ ?_ heq
    · rw [← hip]
      exact List.mem_map_of_mem ha
    · rw [← hip]
      exact List.mem_map_of_mem hb

end Aesmsg.Api.Edge
