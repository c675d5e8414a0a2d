/-!
# Computations that log what they access

A computation that may fail, together with the list of the accesses it makes, in order.  A failure
ends the computation, so the log of a sequence is the log of its first part followed by the log of
the second, where there is a second.

`Safe P Q` says that every access satisfies `P` and every failure `Q`.  It is about the accesses
before a failure as well as about those of a run that succeeds.
-/

structure Traced (ω ε α : Type) where
  log : List ω
  result : Except ε α

namespace Traced

variable {ω ε α β : Type}

/-- The accesses of `x`, then, if it succeeds, those of what follows. -/
def bind (x : Traced ω ε α) (f : α → Traced ω ε β) : Traced ω ε β :=
  match x.result with
  | .ok a => ⟨x.log ++ (f a).log, (f a).result⟩
  | .error e => ⟨x.log, .error e⟩

instance : Monad (Traced ω ε) where
  pure a := ⟨[], .ok a⟩
  bind := bind

/-- A computation that accesses nothing. -/
def quiet (x : Except ε α) : Traced ω ε α := ⟨[], x⟩

/-- One access. -/
def access (w : ω) (x : Except ε α) : Traced ω ε α := ⟨[w], x⟩

/-- `try x catch handler`: the accesses of `x` that threw stay in the log. -/
def tryCatch (x : Traced ω ε α) (handler : ε → Traced ω ε α) : Traced ω ε α :=
  match x.result with
  | .ok _ => x
  | .error e => ⟨x.log ++ (handler e).log, (handler e).result⟩

theorem tryCatch_of_ok {x : Traced ω ε α} {a : α} (h : x.result = .ok a)
    (handler : ε → Traced ω ε α) : x.tryCatch handler = x := by
  unfold tryCatch
  rw [h]

theorem tryCatch_of_error {x : Traced ω ε α} {e : ε} (h : x.result = .error e)
    (handler : ε → Traced ω ε α) :
    x.tryCatch handler = ⟨x.log ++ (handler e).log, (handler e).result⟩ := by
  unfold tryCatch
  rw [h]

@[simp] theorem result_pure (a : α) : (pure a : Traced ω ε α).result = .ok a := rfl

@[simp] theorem result_quiet (x : Except ε α) : (quiet x : Traced ω ε α).result = x := rfl

@[simp] theorem result_access (w : ω) (x : Except ε α) : (access w x).result = x := rfl

/-- The results form the computation without its log. -/
@[simp] theorem result_bind (x : Traced ω ε α) (f : α → Traced ω ε β) :
    (x >>= f).result = x.result >>= fun a ↦ (f a).result := by
  show (bind x f).result = _
  unfold bind
  cases x.result with
  | ok a => rfl
  | error e => rfl

/-- Every access satisfies `P`, and a failure satisfies `Q`. -/
structure Safe (P : ω → Prop) (Q : ε → Prop) (x : Traced ω ε α) : Prop where
  log : ∀ w ∈ x.log, P w
  error : ∀ e, x.result = .error e → Q e

variable {P : ω → Prop} {Q : ε → Prop}

theorem safe_pure (a : α) : (pure a : Traced ω ε α).Safe P Q := by
  constructor
  · intro w hw
    cases hw
  · intro e he
    cases he

theorem safe_quiet {x : Except ε α} (h : ∀ e, x = .error e → Q e) :
    (quiet x : Traced ω ε α).Safe P Q := by
  constructor
  · intro w hw
    cases hw
  · exact h

theorem safe_access {w : ω} {x : Except ε α} (hw : P w) (h : ∀ e, x = .error e → Q e) :
    (access w x).Safe P Q := by
  constructor
  · intro w' hw'
    rw [List.mem_singleton.mp hw']
    exact hw
  · exact h

/-- What follows runs only after a success, so its safety may rely on the result. -/
theorem Safe.bind {x : Traced ω ε α} {f : α → Traced ω ε β} (hx : x.Safe P Q)
    (hf : ∀ a, x.result = .ok a → (f a).Safe P Q) : (x >>= f).Safe P Q := by
  show (Traced.bind x f).Safe P Q
  unfold Traced.bind
  cases hr : x.result with
  | error e =>
    constructor
    · exact hx.log
    · intro e' he
      cases he
      exact hx.error e hr
  | ok a =>
    constructor
    · intro w hw
      rcases List.mem_append.mp hw with hw | hw
      · exact hx.log w hw
      · exact (hf a hr).log w hw
    · exact (hf a hr).error

end Traced
