import Aesmsg.Lib.Machine

/-!
# One machine seen in another

A machine that is built of another one shows its runs: the state through one function, the events through
a second one that forgets those of the other parts.

## Main results

- `Run.simulate`: where each step is some steps of the other machine, a run is a run of it.
-/

namespace Machine

variable {σ σ' α α' ε ε' : Type} {M : Machine σ α ε} {N : Machine σ' α' ε'}

/-- What was shown before stays where it is. -/
theorem exec_append {actions : List α} {s s' : σ} {es : List ε} (h : M.exec actions s [] = some (s', es))
    (t : List ε) : M.exec actions s t = some (s', es ++ t) := by
  suffices hmap : ∀ u, M.exec actions s (u ++ t) =
      (M.exec actions s u).map fun next ↦ (next.1, next.2 ++ t) by
    have hnil := hmap []
    rw [h] at hnil
    exact hnil
  clear h
  induction actions generalizing s with
  | nil => exact fun u ↦ rfl
  | cons a actions ih =>
    intro u
    unfold Machine.exec
    cases M.step s a with
    | none => rfl
    | some next => exact (congrArg _ (List.append_assoc next.2 u t).symm).trans (ih (next.2 ++ u))

/-- The steps of one action. -/
theorem exec_singleton {s s' : σ} {a : α} {es : List ε} (h : M.step s a = some (s', es)) :
    M.exec [a] s [] = some (s', es) := by
  unfold Machine.exec
  rw [h]
  exact congrArg (fun es ↦ some (s', es)) (List.append_nil es)

/-- A run seen in another machine, where each step from a reached state is some steps of it. -/
theorem Run.simulate {f : σ → σ'} {g : ε → Option ε'} (init : f M.init = N.init)
    (step : ∀ {s s' t es a}, M.Run s t → M.step s a = some (s', es) →
      ∃ actions, N.exec actions (f s) [] = some (f s', es.filterMap g))
    {s : σ} {t : List ε} (h : M.Run s t) : N.Run (f s) (t.filterMap g) := by
  induction h with
  | init =>
    rw [init]
    exact .init
  | step before hstep ih =>
    obtain ⟨actions, hexec⟩ := step before hstep
    rw [List.filterMap_append]
    exact ih.exec (exec_append hexec _)

end Machine
