import Aesmsg.Lib.FixedWindow
import Aesmsg.Lib.OrderedMap
import Mathlib.Logic.Function.Basic
import Std.Data.String.ToInt

/-!
# The rate limiters

`rate-limit-store.ts` of the Redis and the memory store, for a sequence of calls with the newest one
first.  Times are milliseconds and windows are named by their floor in seconds, as in the keys.  Redis
runs a transaction at the time of its call, and a key is gone once its deadline has come.

## Main results

- `rate_limited`: both stores count the calls in each window, and what a limit lets through.
-/

namespace Aesmsg.Store.RateLimit

open FixedWindow

structure Call where
  key : String
  windowSeconds : Nat
  /-- `Date.now()` -/
  now : Int
deriving DecidableEq

def Call.windowFloor (call : Call) : Int :=
  call.now / (1000 * call.windowSeconds) * call.windowSeconds

/-- `RateLimitUnavailableError` -/
structure UnavailableError where
  cause : String
deriving DecidableEq

abbrev Answer := Except UnavailableError Nat

/-! ## The memory store -/

/-- `windows` -/
abbrev Memory := OrderedMap String Nat

def Call.windowKey (call : Call) : String := call.key ++ ":" ++ call.windowFloor.repr

def Memory.incrementAndGet (windows : Memory) (call : Call) : Memory × Answer :=
  let next := (windows.get? call.windowKey).getD 0 + 1
  (windows.set call.windowKey next, .ok next)

/-- The answers to the calls. -/
def Memory.run : List Call → Memory × List (Call × Answer)
  | [] => (.empty, [])
  | call :: calls =>
    let (windows, answers) := Memory.run calls
    let (windows, answer) := windows.incrementAndGet call
    (windows, (call, answer) :: answers)

/-! ## The Redis store -/

structure Entry where
  value : Nat
  /-- When the key expires, none where it was given no timeout. -/
  deadline : Option Int
deriving DecidableEq

abbrev Redis := String → Option Entry

/-- The keys that are left at a time. -/
def Redis.at (redis : Redis) (now : Int) : Redis :=
  fun key ↦ (redis key).filter fun entry ↦ entry.deadline.all (now < ·)

/-- `INCR key` -/
def Redis.incr (redis : Redis) (key : String) : Redis × Nat :=
  match redis key with
  | none => (Function.update redis key (some ⟨1, none⟩), 1)
  | some entry =>
    (Function.update redis key (some { entry with value := entry.value + 1 }), entry.value + 1)

/-- `EXPIRE key seconds NX`.  A timeout that is not positive deletes the key. -/
def Redis.expireNX (redis : Redis) (now : Int) (key : String) (seconds : Nat) : Redis × Nat :=
  match redis key with
  | none => (redis, 0)
  | some ⟨_, some _⟩ => (redis, 0)
  | some ⟨value, none⟩ =>
    if seconds = 0 then (Function.update redis key none, 1)
    else (Function.update redis key (some ⟨value, some (now + 1000 * seconds)⟩), 1)

def Call.redisKey (call : Call) : String :=
  "ratelimit:" ++ call.key ++ ":" ++ call.windowFloor.repr

/-- The transaction of a call, and its replies. -/
def Redis.multi (redis : Redis) (call : Call) : Redis × List Nat :=
  let (redis, count) := (redis.at call.now).incr call.redisKey
  let (redis, set) := redis.expireNX call.now call.redisKey call.windowSeconds
  (redis, [count, set])

/-- What becomes of a transaction. -/
inductive Delivery where
  | replied
  /-- `exec` resolves with null, and nothing has run. -/
  | aborted
  /-- `exec` rejects.  The server may have run the transaction. -/
  | rejected (ran : Bool) (error : String)
  /-- There is no reply to `INCR`. -/
  | missing (ran : Bool)
  /-- The reply to `INCR` is an error. -/
  | incrFailed (error : String)
deriving DecidableEq

def Delivery.ran : Delivery → Bool
  | replied => true
  | rejected ran _ | missing ran => ran
  | aborted | incrFailed _ => false

/-- What `exec` settles with: the replies, each an error or a number. -/
def Delivery.replies (counts : List Nat) : Delivery → Except String (Option (List (Except String Nat)))
  | replied => .ok (some (counts.map .ok))
  | aborted => .ok none
  | rejected _ error => .error error
  | missing _ => .ok (some [])
  | incrFailed error => .ok (some [.error error])

/-- The rest of `incrementAndGet`. -/
def answerOf : Except String (Option (List (Except String Nat))) → Answer
  | .error err => .error ⟨err⟩
  | .ok none => .error ⟨"RedisRateLimitStore: multi() returned null"⟩
  | .ok (some []) => .error ⟨"RedisRateLimitStore: missing INCR reply"⟩
  | .ok (some (.error incrErr :: _)) => .error ⟨incrErr⟩
  | .ok (some (.ok count :: _)) => .ok count

def Redis.incrementAndGet (redis : Redis) (call : Call) (delivery : Delivery) : Redis × Answer :=
  let (next, counts) := redis.multi call
  (if delivery.ran then next else redis, answerOf (delivery.replies counts))

def Redis.run : List (Call × Delivery) → Redis × List (Call × Answer)
  | [] => (fun _ ↦ none, [])
  | (call, delivery) :: attempts =>
    let (redis, answers) := Redis.run attempts
    let (redis, answer) := redis.incrementAndGet call delivery
    (redis, (call, answer) :: answers)

/-! ## Counting -/

/-- The key and the window of a call. -/
def Call.bucket (call : Call) : String × Int := (call.key, call.windowFloor)

/-- Each call is answered by the number of calls so far with its key in its window. -/
def counts : List Call → List (Call × Answer)
  | [] => []
  | call :: calls => (call, .ok ((call :: calls).countP (·.bucket = call.bucket))) :: counts calls

/-- The calls of a key have one width, and the clock does not go back. -/
structure Timed (calls : List Call) : Prop where
  pos : ∀ call ∈ calls, 0 < call.windowSeconds
  width : ∀ call ∈ calls, ∀ other ∈ calls, other.key = call.key → other.windowSeconds = call.windowSeconds
  times : calls.Pairwise fun later earlier ↦ earlier.now ≤ later.now

/-- No more calls with one key are let through than the limit in a window, and twice that in as much
time as a window has. -/
structure Limited (answers : List (Call × Answer)) : Prop where
  window : ∀ limit key floor,
    (answers.countP fun a ↦ (a.1.key = key ∧ a.1.windowFloor = floor) ∧ admits limit a.2) ≤ limit
  interval : ∀ limit key (start : Int) windowSeconds,
    (∀ a ∈ answers, a.1.key = key → a.1.windowSeconds = windowSeconds) →
      (answers.countP fun a ↦ (a.1.key = key ∧ start ≤ a.1.now ∧ a.1.now < start + 1000 * windowSeconds) ∧
        admits limit a.2) ≤ 2 * limit

/-! ## Windows and keys -/

section Calls

variable {call other : Call} {calls : List Call}

/-- The end of the window of a call. -/
def Call.windowEnd (call : Call) : Int := 1000 * (call.windowFloor + call.windowSeconds)

theorem Call.floor_eq (call : Call) : 1000 * call.windowFloor =
    call.now / (1000 * call.windowSeconds) * (1000 * call.windowSeconds) := by
  unfold windowFloor
  ring

theorem Call.floor_le (h : 0 < call.windowSeconds) : 1000 * call.windowFloor ≤ call.now := by
  rw [call.floor_eq]
  exact Int.ediv_mul_le _ (by omega)

theorem Call.lt_windowEnd (h : 0 < call.windowSeconds) : call.now < call.windowEnd := by
  have hnext := Int.lt_ediv_add_one_mul_self call.now (b := 1000 * call.windowSeconds) (by omega)
  rw [Int.add_mul, ← call.floor_eq] at hnext
  unfold windowEnd
  omega

/-- What is around the last separator. -/
theorem append_separator_inj {α : Type} {c : α} {x y rest rest' : List α} (h : c ∉ rest) (h' : c ∉ rest')
    (heq : x ++ c :: rest = y ++ c :: rest') : x = y ∧ rest = rest' := by
  rcases List.append_eq_append_iff.mp heq with ⟨l, rfl, hl⟩ | ⟨l, rfl, hl⟩
  · cases l with
    | nil => exact ⟨(List.append_nil x).symm, (List.cons.inj hl).2⟩
    | cons b l =>
      rw [(List.cons.inj hl).2] at h
      exact absurd (List.mem_append_right _ List.mem_cons_self) h
  · cases l with
    | nil => exact ⟨List.append_nil y, (List.cons.inj hl).2.symm⟩
    | cons b l =>
      rw [(List.cons.inj hl).2] at h'
      exact absurd (List.mem_append_right _ List.mem_cons_self) h'

theorem colon_not_mem_repr (n : Int) : ':' ∉ n.repr.toList := by
  have hdigits (m : Nat) : ':' ∉ (Nat.repr m).toList := by
    rw [Nat.toList_repr]
    intro hmem
    exact absurd (Nat.isDigit_of_mem_toDigits (by decide) (by decide) hmem) (by decide)
  cases n with
  | ofNat m => exact hdigits m
  | negSucc m =>
    intro hmem
    change ':' ∈ ("-" ++ Nat.repr (m + 1)).toList at hmem
    rw [String.toList_append] at hmem
    rcases List.mem_append.mp hmem with hmem | hmem
    · exact absurd hmem (by decide)
    · exact hdigits _ hmem

/-- A key ends at the last colon, since the text of a floor has none. -/
theorem text_inj {key key' : String} {floor floor' : Int}
    (h : key ++ ":" ++ floor.repr = key' ++ ":" ++ floor'.repr) : key = key' ∧ floor = floor' := by
  have hlists := congrArg String.toList h
  rw [String.toList_append, String.toList_append, String.toList_append, String.toList_append,
    List.append_assoc, List.append_assoc] at hlists
  obtain ⟨hkey, hfloor⟩ := append_separator_inj (colon_not_mem_repr _) (colon_not_mem_repr _) hlists
  exact ⟨String.toList_inj.mp hkey, Int.repr_injective (String.toList_inj.mp hfloor)⟩

theorem windowKey_inj : call.windowKey = other.windowKey ↔ call.bucket = other.bucket := by
  constructor
  · intro h
    obtain ⟨hkey, hfloor⟩ := text_inj h
    exact Prod.ext hkey hfloor
  · intro h
    obtain ⟨hkey, hfloor⟩ := Prod.ext_iff.mp h
    exact congrArg₂ (fun key (floor : Int) ↦ key ++ ":" ++ floor.repr) hkey hfloor

theorem redisKey_inj : call.redisKey = other.redisKey ↔ call.bucket = other.bucket := by
  constructor
  · intro h
    obtain ⟨hkey, hfloor⟩ := text_inj h
    exact Prod.ext ((String.append_right_inj _).mp hkey) hfloor
  · intro h
    obtain ⟨hkey, hfloor⟩ := Prod.ext_iff.mp h
    exact congrArg₂ (fun key (floor : Int) ↦ "ratelimit:" ++ key ++ ":" ++ floor.repr) hkey hfloor

/-! ## The memory store counts -/

theorem Memory.get?_run (calls : List Call) (call : Call) :
    ((Memory.run calls).1.get? call.windowKey).getD 0 = calls.countP (·.bucket = call.bucket) := by
  induction calls with
  | nil => rfl
  | cons first calls ih =>
    change (((Memory.run calls).1.set first.windowKey _).get? call.windowKey).getD 0 = _
    rw [OrderedMap.get?_set]
    by_cases hbucket : first.bucket = call.bucket
    · have hkey := windowKey_inj.mpr hbucket
      rw [if_pos hkey.symm, List.countP_cons_of_pos (by simpa using hbucket), hkey, ← ih]
      rfl
    · have hkey : call.windowKey ≠ first.windowKey := fun heq ↦ hbucket (windowKey_inj.mp heq.symm)
      rw [if_neg hkey, List.countP_cons_of_neg (by simpa using hbucket), ih]

theorem Memory.answers_eq (calls : List Call) : (Memory.run calls).2 = counts calls := by
  induction calls with
  | nil => rfl
  | cons call calls ih =>
    unfold counts
    rw [← ih, List.countP_cons_of_pos (by simp), ← Memory.get?_run]
    rfl

/-! ## The Redis store counts -/

/-- The transactions that have run for the bucket of a call. -/
def ranCount (attempts : List (Call × Delivery)) (call : Call) : Nat :=
  attempts.countP fun a ↦ a.2.ran ∧ a.1.bucket = call.bucket

/-- A key that was never set is not there, and one is kept, with the count, to the end of its window. -/
structure Inv (attempts : List (Call × Delivery)) (redis : Redis) : Prop where
  absent : ∀ call : Call, (∀ a ∈ attempts, a.2.ran = true → a.1.bucket ≠ call.bucket) →
    redis call.redisKey = none
  present : ∀ a ∈ attempts, a.2.ran = true → ∀ now, (∀ b ∈ attempts, b.1.now ≤ now) →
    now < a.1.windowEnd → ∃ deadline, a.1.windowEnd ≤ deadline ∧
      redis a.1.redisKey = some ⟨ranCount attempts a.1, some deadline⟩

theorem Redis.at_eq_none {redis : Redis} {key : String} {now : Int} (h : redis key = none) :
    redis.at now key = none := by
  unfold Redis.at
  rw [h]
  rfl

theorem Redis.at_eq_some {redis : Redis} {key : String} {now deadline : Int} {value : Nat}
    (h : redis key = some ⟨value, some deadline⟩) (hnow : now < deadline) :
    redis.at now key = some ⟨value, some deadline⟩ := by
  unfold Redis.at
  rw [h]
  exact Option.filter_some_pos (decide_eq_true hnow)

theorem ranCount_eq_zero {attempts : List (Call × Delivery)}
    (h : ∀ a ∈ attempts, a.2.ran = true → a.1.bucket ≠ call.bucket) : ranCount attempts call = 0 := by
  refine List.countP_eq_zero.mpr fun a ha hran ↦ ?_
  obtain ⟨hran, hbucket⟩ := of_decide_eq_true hran
  exact h a ha hran hbucket

theorem windowEnd_eq (h : call.bucket = other.bucket) (hwidth : call.windowSeconds = other.windowSeconds) :
    call.windowEnd = other.windowEnd := by
  have hfloor : call.windowFloor = other.windowFloor := (Prod.ext_iff.mp h).2
  unfold Call.windowEnd
  rw [hfloor, hwidth]

theorem ranCount_congr (attempts : List (Call × Delivery)) (h : call.bucket = other.bucket) :
    ranCount attempts call = ranCount attempts other := by
  unfold ranCount
  rw [h]

section Redis

variable {attempts : List (Call × Delivery)} {redis : Redis} {delivery : Delivery}

/-- What a call finds under its key. -/
theorem Inv.found (h : Inv attempts redis) (hcalls : Timed (call :: attempts.map Prod.fst)) :
    ranCount attempts call = 0 ∧ redis.at call.now call.redisKey = none ∨
      ∃ deadline, call.windowEnd ≤ deadline ∧
        redis.at call.now call.redisKey = some ⟨ranCount attempts call, some deadline⟩ := by
  have hpos := hcalls.pos call List.mem_cons_self
  by_cases hran : ∀ a ∈ attempts, a.2.ran = true → a.1.bucket ≠ call.bucket
  · exact .inl ⟨ranCount_eq_zero hran, Redis.at_eq_none (h.absent call hran)⟩
  · obtain ⟨a, ha, hran, hbucket⟩ : ∃ a ∈ attempts, a.2.ran = true ∧ a.1.bucket = call.bucket := by
      simpa using hran
    have hmem : a.1 ∈ call :: attempts.map Prod.fst :=
      List.mem_cons_of_mem _ (List.mem_map_of_mem ha)
    have hend := windowEnd_eq hbucket
      (hcalls.width call List.mem_cons_self a.1 hmem (Prod.ext_iff.mp hbucket).1)
    have hnow : ∀ b ∈ attempts, b.1.now ≤ call.now := fun b hb ↦
      (List.pairwise_cons.mp hcalls.times).1 b.1 (List.mem_map_of_mem hb)
    obtain ⟨deadline, hdeadline, hentry⟩ := h.present a ha hran call.now hnow (hend ▸ Call.lt_windowEnd hpos)
    rw [hend] at hdeadline
    rw [redisKey_inj.mpr hbucket, ranCount_congr attempts hbucket] at hentry
    exact .inr ⟨deadline, hdeadline,
      Redis.at_eq_some hentry (lt_of_lt_of_le (Call.lt_windowEnd hpos) hdeadline)⟩

/-- The transaction of a call: the count is one more, and the deadline is not before the end of the
window. -/
theorem Inv.multi (h : Inv attempts redis) (hcalls : Timed (call :: attempts.map Prod.fst)) :
    ∃ deadline set, call.windowEnd ≤ deadline ∧ redis.multi call =
      (Function.update (redis.at call.now) call.redisKey (some ⟨ranCount attempts call + 1, some deadline⟩),
        [ranCount attempts call + 1, set]) := by
  have hpos := hcalls.pos call List.mem_cons_self
  rcases h.found hcalls with ⟨hzero, hnone⟩ | ⟨deadline, hdeadline, hsome⟩
  · refine ⟨call.now + 1000 * call.windowSeconds, 1, ?_, ?_⟩
    · have hfloor := Call.floor_le hpos
      unfold Call.windowEnd
      omega
    · rw [hzero]
      unfold Redis.multi Redis.incr Redis.expireNX
      rw [hnone]
      dsimp only
      rw [Function.update_self]
      dsimp only
      rw [if_neg hpos.ne', Function.update_idem]
  · refine ⟨deadline, 0, hdeadline, ?_⟩
    unfold Redis.multi Redis.incr Redis.expireNX
    rw [hsome]
    dsimp only
    rw [Function.update_self]

theorem ranCount_cons_of_ran (hran : delivery.ran = true) (hbucket : call.bucket = other.bucket) :
    ranCount ((call, delivery) :: attempts) other = ranCount attempts other + 1 :=
  List.countP_cons_of_pos (decide_eq_true ⟨hran, hbucket⟩)

theorem ranCount_cons_of_ne (hbucket : call.bucket ≠ other.bucket) :
    ranCount ((call, delivery) :: attempts) other = ranCount attempts other := by
  refine List.countP_cons_of_neg fun h ↦ ?_
  exact hbucket (of_decide_eq_true h).2

theorem ranCount_cons_of_lost (hran : delivery.ran = false) :
    ranCount ((call, delivery) :: attempts) other = ranCount attempts other := by
  refine List.countP_cons_of_neg fun h ↦ ?_
  exact Bool.noConfusion (hran.symm.trans (of_decide_eq_true h).1)

/-- A transaction runs. -/
theorem Inv.ran (h : Inv attempts redis) (hcalls : Timed (call :: attempts.map Prod.fst))
    (hran : delivery.ran = true) : Inv ((call, delivery) :: attempts) (redis.multi call).1 := by
  obtain ⟨deadline, set, hdeadline, hmulti⟩ := h.multi hcalls
  rw [hmulti]
  dsimp only
  constructor
  · intro other hother
    have hne : call.bucket ≠ other.bucket := hother (call, delivery) List.mem_cons_self hran
    rw [Function.update_of_ne (fun heq ↦ hne (redisKey_inj.mp heq.symm))]
    exact Redis.at_eq_none (h.absent other fun a ha ↦ hother a (List.mem_cons_of_mem _ ha))
  · intro a ha hran' now hnow hend
    by_cases hbucket : call.bucket = a.1.bucket
    · have hmem : a.1 ∈ call :: attempts.map Prod.fst := List.mem_map_of_mem (f := Prod.fst) ha
      have hwidth := hcalls.width a.1 hmem call List.mem_cons_self (Prod.ext_iff.mp hbucket).1
      refine ⟨deadline, windowEnd_eq hbucket hwidth ▸ hdeadline, ?_⟩
      rw [← redisKey_inj.mpr hbucket, Function.update_self, ranCount_cons_of_ran hran hbucket,
        ranCount_congr attempts hbucket]
    · have hold : a ∈ attempts := List.mem_of_ne_of_mem (fun heq ↦ hbucket (by rw [heq])) ha
      obtain ⟨deadline', hdeadline', hentry⟩ := h.present a hold hran' now
        (fun b hb ↦ hnow b (List.mem_cons_of_mem _ hb)) hend
      refine ⟨deadline', hdeadline', ?_⟩
      rw [Function.update_of_ne (fun heq ↦ hbucket (redisKey_inj.mp heq.symm)), ranCount_cons_of_ne hbucket]
      refine Redis.at_eq_some hentry ?_
      have hle := hnow (call, delivery) List.mem_cons_self
      dsimp only at hle
      omega

/-- A transaction does not run. -/
theorem Inv.lost (h : Inv attempts redis) (call : Call) (hran : delivery.ran = false) :
    Inv ((call, delivery) :: attempts) redis := by
  constructor
  · exact fun other hother ↦ h.absent other fun a ha ↦ hother a (List.mem_cons_of_mem _ ha)
  · intro a ha hran' now hnow hend
    have hold : a ∈ attempts := by
      refine List.mem_of_ne_of_mem ?_ ha
      rintro rfl
      exact Bool.noConfusion (hran.symm.trans hran')
    rw [ranCount_cons_of_lost hran]
    exact h.present a hold hran' now (fun b hb ↦ hnow b (List.mem_cons_of_mem _ hb)) hend

theorem Timed.tail (h : Timed (call :: calls)) : Timed calls where
  pos := fun other hother ↦ h.pos other (List.mem_cons_of_mem _ hother)
  width := fun a ha b hb ↦ h.width a (List.mem_cons_of_mem _ ha) b (List.mem_cons_of_mem _ hb)
  times := h.times.of_cons

theorem inv_run (hcalls : Timed (attempts.map Prod.fst)) : Inv attempts (Redis.run attempts).1 := by
  induction attempts with
  | nil => exact ⟨fun _ _ ↦ rfl, fun a ha ↦ nomatch ha⟩
  | cons first attempts ih =>
    obtain ⟨call, delivery⟩ := first
    have hinv := ih hcalls.tail
    change Inv _ (if delivery.ran then ((Redis.run attempts).1.multi call).1 else (Redis.run attempts).1)
    cases hran : delivery.ran with
    | true => exact hinv.ran hcalls hran
    | false => exact hinv.lost call hran

theorem eq_replied_of_answerOf {count n : Nat} {rest : List Nat}
    (h : answerOf (delivery.replies (n :: rest)) = .ok count) : delivery = .replied ∧ count = n := by
  cases delivery with
  | replied => exact ⟨rfl, (Except.ok.inj h).symm⟩
  | aborted => cases h
  | rejected => cases h
  | missing => cases h
  | incrFailed => cases h

theorem ran_of_isOk {replies : List Nat} (h : (answerOf (delivery.replies replies)).isOk = true) :
    delivery.ran = true := by
  cases delivery with
  | replied => rfl
  | aborted => cases h
  | rejected => cases h
  | missing => cases h
  | incrFailed => cases h

/-- No more calls are answered by a count than transactions have run. -/
theorem countP_isOk_le (attempts : List (Call × Delivery)) (call : Call) :
    ((Redis.run attempts).2.countP fun p ↦ p.1.bucket = call.bucket ∧ p.2.isOk) ≤
      ranCount attempts call := by
  induction attempts with
  | nil => exact Nat.le_refl 0
  | cons first attempts ih =>
    obtain ⟨other, delivery⟩ := first
    obtain ⟨answer, hanswers, hran⟩ : ∃ answer,
        (Redis.run ((other, delivery) :: attempts)).2 = (other, answer) :: (Redis.run attempts).2 ∧
          (answer.isOk = true → delivery.ran = true) := ⟨_, rfl, ran_of_isOk⟩
    rw [hanswers]
    by_cases hok : other.bucket = call.bucket ∧ answer.isOk = true
    · rw [List.countP_cons_of_pos (by simpa using hok), ranCount_cons_of_ran (hran hok.2) hok.1]
      exact Nat.succ_le_succ ih
    · rw [List.countP_cons_of_neg (by simpa using hok)]
      exact ih.trans (List.sublist_cons_self _ _).countP_le

theorem Redis.numbered (hcalls : Timed (attempts.map Prod.fst)) :
    Numbered Call.bucket (Redis.run attempts).2 := by
  induction attempts with
  | nil => trivial
  | cons first attempts ih =>
    obtain ⟨call, delivery⟩ := first
    obtain ⟨deadline, set, -, hmulti⟩ := (inv_run hcalls.tail).multi hcalls
    refine ⟨fun count hcount ↦ ?_, ih hcalls.tail⟩
    change answerOf (delivery.replies ((Redis.run attempts).1.multi call).2) = .ok count at hcount
    rw [hmulti] at hcount
    rw [(eq_replied_of_answerOf hcount).2]
    exact Nat.lt_succ_of_le (countP_isOk_le attempts call)

theorem ranCount_of_replied (h : ∀ a ∈ attempts, a.2 = .replied) (call : Call) :
    ranCount attempts call = (attempts.map Prod.fst).countP (·.bucket = call.bucket) := by
  rw [List.countP_map]
  refine List.countP_congr fun a ha ↦ ?_
  rw [h a ha]
  simp [Delivery.ran]

theorem Redis.answers_eq (hcalls : Timed (attempts.map Prod.fst)) (h : ∀ a ∈ attempts, a.2 = .replied) :
    (Redis.run attempts).2 = counts (attempts.map Prod.fst) := by
  induction attempts with
  | nil => rfl
  | cons first attempts ih =>
    obtain ⟨call, delivery⟩ := first
    have hreplied : ∀ a ∈ attempts, a.2 = .replied := fun a ha ↦ h a (List.mem_cons_of_mem _ ha)
    obtain rfl : delivery = .replied := h _ List.mem_cons_self
    obtain ⟨deadline, set, -, hmulti⟩ := (inv_run hcalls.tail).multi hcalls
    change (call, answerOf (Delivery.replies ((Redis.run attempts).1.multi call).2 .replied)) ::
      (Redis.run attempts).2 = counts (call :: attempts.map Prod.fst)
    unfold counts
    rw [hmulti, ih hcalls.tail hreplied, ranCount_of_replied hreplied, List.countP_cons_of_pos (by simp)]
    rfl

end Redis

/-! ## What a limit lets through -/

theorem countP_counts (calls : List Call) (call : Call) :
    ((counts calls).countP fun p ↦ p.1.bucket = call.bucket ∧ p.2.isOk) =
      calls.countP (·.bucket = call.bucket) := by
  induction calls with
  | nil => rfl
  | cons first calls ih =>
    simp only [counts, List.countP_cons, ih]
    simp [Except.isOk, Except.toBool]

theorem numbered_counts (calls : List Call) : Numbered Call.bucket (counts calls) := by
  induction calls with
  | nil => trivial
  | cons call calls ih =>
    refine ⟨fun count hcount ↦ ?_, ih⟩
    rw [countP_counts, ← Except.ok.inj hcount, List.countP_cons_of_pos (by simp)]
    exact Nat.lt_succ_self _

theorem limited_of_numbered {answers : List (Call × Answer)} (h : Numbered Call.bucket answers) :
    Limited answers := by
  constructor
  · intro limit key floor
    have hle := h.countP_le limit (key, floor)
    simpa only [Call.bucket, Prod.mk.injEq] using hle
  · intro limit key start windowSeconds hwidth
    rcases Nat.eq_zero_or_pos windowSeconds with rfl | hpos
    · refine (List.countP_eq_zero.mpr fun a _ ha ↦ ?_).le.trans (Nat.zero_le _)
      obtain ⟨⟨-, hstart, hend⟩, -⟩ := of_decide_eq_true ha
      omega
    · have hkeys : ∀ a ∈ answers, decide (a.1.key = key ∧ start ≤ a.1.now ∧
          a.1.now < start + 1000 * windowSeconds) = true →
          a.1.bucket ∈ [(key, start / (1000 * windowSeconds) * windowSeconds),
            (key, (start / (1000 * windowSeconds) + 1) * windowSeconds)] := by
        intro a ha hp
        obtain ⟨hkey, hstart, hend⟩ := of_decide_eq_true hp
        have hwindow := ediv_eq_or (by omega) hstart hend
        unfold Call.bucket Call.windowFloor
        rw [hwidth a ha hkey, hkey]
        rcases hwindow with heq | heq
        · rw [heq]
          exact List.mem_cons_self
        · rw [heq]
          exact List.mem_cons_of_mem _ List.mem_cons_self
      have hle := h.countP_le_mul limit (p := fun call ↦ decide (call.key = key ∧ start ≤ call.now ∧
        call.now < start + 1000 * windowSeconds)) hkeys
      refine le_trans (List.countP_mono_left fun a _ ha ↦ ?_) hle
      obtain ⟨hcall, hadmits⟩ := of_decide_eq_true ha
      exact Bool.and_eq_true_iff.mpr ⟨decide_eq_true hcall, hadmits⟩

end Calls

structure RateLimited (attempts : List (Call × Delivery)) : Prop where
  memory : (Memory.run (attempts.map Prod.fst)).2 = counts (attempts.map Prod.fst)
  /-- While every transaction is replied to. -/
  redis : (∀ a ∈ attempts, a.2 = .replied) → (Redis.run attempts).2 = counts (attempts.map Prod.fst)
  /-- A counter is kept to the end of its window. -/
  kept : ∀ a ∈ attempts, a.2.ran = true → ∀ now, (∀ b ∈ attempts, b.1.now ≤ now) →
    now < a.1.windowEnd → ((Redis.run attempts).1.at now a.1.redisKey).map Entry.value =
      some (attempts.countP fun b ↦ b.2.ran ∧ b.1.bucket = a.1.bucket)
  memory_limited : Limited (Memory.run (attempts.map Prod.fst)).2
  /-- Also where transactions fail. -/
  redis_limited : Limited (Redis.run attempts).2

/-- Over timed calls the memory store counts the calls of each window in the order in which they come,
and Redis does while its transactions are replied to; a counter is kept to the end of its window; and
neither store lets more calls through than the limit, also where transactions fail or lose their
reply. -/
theorem rate_limited {attempts : List (Call × Delivery)} (h : Timed (attempts.map Prod.fst)) :
    RateLimited attempts := by
  constructor
  · exact Memory.answers_eq _
  · exact Redis.answers_eq h
  · intro a ha hran now hnow hend
    obtain ⟨deadline, hdeadline, hentry⟩ := (inv_run h).present a ha hran now hnow hend
    rw [Redis.at_eq_some hentry (lt_of_lt_of_le hend hdeadline)]
    rfl
  · rw [Memory.answers_eq]
    exact limited_of_numbered (numbered_counts _)
  · exact limited_of_numbered (Redis.numbered h)

/-- A window whose first call comes late, and the next one. -/
def lateCalls : List (Call × Delivery) :=
  [(⟨"messages:a", 60, 120000⟩, .replied), (⟨"messages:a", 60, 119999⟩, .replied),
   (⟨"messages:b", 60, 119998⟩, .replied), (⟨"messages:a", 60, 119000⟩, .replied)]

theorem rate_limited_late : RateLimited lateCalls ∧
    (Redis.run lateCalls).2.map Prod.snd = [.ok 1, .ok 2, .ok 1, .ok 1] :=
  ⟨rate_limited ⟨by decide, by decide, by decide⟩, by decide +kernel⟩

end Aesmsg.Store.RateLimit
