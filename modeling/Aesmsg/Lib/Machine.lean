/-!
# Machines

A machine is driven by actions.  An action that can happen in a state leads to the next state and shows
some events.  A run is a sequence of actions from the initial state, and its trace has the newest event
first.

## Main results

- `Run.invariant`: what holds initially and is kept by every step holds after every run.
- `Run.origin`: an event of a run was shown by a step, after the events before it.
- `Run.of_guard`: a run whose steps meet a condition is a run.
- `Past`: what holds of every event of a trace and of the events before it.
-/

structure Machine (σ α ε : Type) where
  init : σ
  /-- The next state and the events that are shown, none where the action cannot happen. -/
  step : σ → α → Option (σ × List ε)

namespace Machine

variable {σ α ε : Type} (M : Machine σ α ε)

inductive Run : σ → List ε → Prop
  | init : Run M.init []
  | step {s s' : σ} {t es : List ε} {a : α} (before : Run s t) (step : M.step s a = some (s', es)) :
    Run s' (es ++ t)

/-- The state and the trace after a list of actions, from a state and a trace. -/
def exec : List α → σ → List ε → Option (σ × List ε)
  | [], s, t => some (s, t)
  | a :: actions, s, t =>
    match M.step s a with
    | none => none
    | some (s', es) => exec actions s' (es ++ t)

variable {M}

theorem Run.exec {s : σ} {t : List ε} (h : M.Run s t) {actions : List α} {s' : σ} {t' : List ε}
    (hexec : M.exec actions s t = some (s', t')) : M.Run s' t' := by
  induction actions generalizing s t with
  | nil =>
    cases hexec
    exact h
  | cons a actions ih =>
    unfold Machine.exec at hexec
    split at hexec
    · cases hexec
    · rename_i s₁ es hstep
      exact ih (h.step hstep) hexec

/-- A list of actions that can happen one after the other is a run. -/
theorem run_of_exec {actions : List α} {s : σ} {t : List ε}
    (h : M.exec actions M.init [] = some (s, t)) : M.Run s t := Run.init.exec h

/-- An invariant of the machine, of its state and its trace. -/
theorem Run.invariant {P : σ → List ε → Prop} (init : P M.init [])
    (step : ∀ {s s' t es a}, P s t → M.step s a = some (s', es) → P s' (es ++ t)) {s : σ} {t : List ε}
    (h : M.Run s t) : P s t := by
  induction h with
  | init => exact init
  | step _ hstep ih => exact step ih hstep

/-- Every event was shown by a step of the run. -/
theorem Run.origin {s : σ} {t t₁ t₂ : List ε} {e : ε} (h : M.Run s t) (ht : t = t₂ ++ e :: t₁) :
    ∃ s₀ t₀ a s' es₁ es₂, M.Run s₀ t₀ ∧ M.step s₀ a = some (s', es₂ ++ e :: es₁) ∧
      t₁ = es₁ ++ t₀ := by
  induction h generalizing t₂ with
  | init => exact absurd ht.symm (by simp)
  | @step s₀ s' t₀ es a before hstep ih =>
    rcases List.append_eq_append_iff.mp ht with ⟨l, -, hl⟩ | ⟨l, hes, hl⟩
    · exact ih hl
    · cases l with
      | nil => exact ih (show t₀ = [] ++ e :: t₁ from hl.symm)
      | cons e' es₁ =>
        obtain ⟨rfl, rfl⟩ := List.cons.inj hl
        rw [hes] at hstep
        exact ⟨s₀, t₀, a, s', es₁, t₂, before, hstep, rfl⟩

/-- The machine whose steps meet a condition. -/
def guard (M : Machine σ α ε) (ok : σ → α → Bool) : Machine σ α ε :=
  ⟨M.init, fun s a ↦ if ok s a then M.step s a else none⟩

theorem guard_eq_some {ok : σ → α → Bool} {s : σ} {a : α} {next : σ × List ε} :
    (M.guard ok).step s a = some next ↔ ok s a = true ∧ M.step s a = some next :=
  Option.ite_none_right_eq_some

/-- A run whose steps meet a condition is a run. -/
theorem Run.of_guard {ok : σ → α → Bool} {s : σ} {t : List ε} (h : (M.guard ok).Run s t) : M.Run s t := by
  induction h with
  | init => exact .init
  | step _ hstep ih => exact ih.step (guard_eq_some.mp hstep).2

/-! ## Events and what comes before them -/

/-- Every event of a trace meets a condition on it and on the events before it. -/
def Past (P : ε → List ε → Prop) (t : List ε) : Prop := ∀ t₂ t₁ e, t = t₂ ++ e :: t₁ → P e t₁

theorem past_nil {P : ε → List ε → Prop} : Past P [] := by
  intro t₂ t₁ e ht
  cases List.append_eq_nil_iff.mp ht.symm |>.2

@[simp] theorem past_cons {P : ε → List ε → Prop} {e : ε} {t : List ε} :
    Past P (e :: t) ↔ P e t ∧ Past P t := by
  constructor
  · intro h
    refine ⟨h [] t e rfl, fun t₂ t₁ e' ht ↦ h (e :: t₂) t₁ e' ?_⟩
    rw [ht]
    rfl
  · rintro ⟨he, ht⟩ t₂ t₁ e' heq
    cases t₂ with
    | nil =>
      obtain ⟨rfl, rfl⟩ := List.cons.inj heq
      exact he
    | cons e₂ t₂ =>
      obtain ⟨-, rfl⟩ := List.cons.inj heq
      exact ht t₂ t₁ e' rfl

end Machine
