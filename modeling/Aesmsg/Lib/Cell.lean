import Aesmsg.Lib.Threads

/-!
# Calls that read a shared value and then write it

A call on a shared value is made, reads the value at a later moment and writes, later still, what it
has made of what it read.  The read and the write may fail, which ends the call.

## Main results

- `Calls.serial`: where every write finds the value that its call has read, the value is what the
  completed calls make of the first one, one after another.
- `Calls.completed_perm`: the completed calls are those of the threads that are done.
-/

namespace Cell

open Threads

/-- `plan` is the write of a call that has read a value, none where the call ends at its read. -/
structure Calls (γ ω σ : Type) where
  plan : γ → σ → Option ω
  perform : ω → σ → σ

inductive Phase (γ ω σ : Type) where
  | ready (call : γ)
  /-- Made when the value was `first`. -/
  | made (call : γ) (first : σ)
  | writing (call : γ) (first read : σ) (write : ω)
  | done (call : γ)
  | failed (call : γ)

inductive Event (γ σ : Type) where
  | made (call : γ) (value : σ)
  /-- The last step of a call, with the value before and after it. -/
  | done (call : γ) (before after : σ)

/-- The call that a thread has completed. -/
def Phase.completed? {γ ω σ : Type} : Phase γ ω σ → Option γ
  | done call => some call
  | _ => none

def Event.completed? {γ σ : Type} : Event γ σ → Option γ
  | done call _ _ => some call
  | _ => none

/-- The completed calls of a trace, the oldest first. -/
def completed {γ σ : Type} (t : Trace (Event γ σ)) : List γ :=
  (t.filterMap fun e ↦ e.2.completed?).reverse

namespace Calls

variable {γ ω σ : Type} (C : Calls γ ω σ)

/-- A call alone. -/
def apply (s : σ) (call : γ) : σ :=
  match C.plan call s with
  | some w => C.perform w s
  | none => s

def step (fails : Bool) : Phase γ ω σ → σ → Option (Phase γ ω σ × σ × List (Event γ σ))
  | .ready call, s => some (.made call s, s, [.made call s])
  | .made call first, s =>
    if fails then some (.failed call, s, [])
    else match C.plan call s with
      | some w => some (.writing call first s w, s, [])
      | none => some (.done call, s, [.done call s s])
  | .writing call _ _ w, s =>
    if fails then some (.failed call, s, [])
    else some (.done call, C.perform w s, [.done call s (C.perform w s)])
  | .done _, _ => none
  | .failed _, _ => none

def program : Program γ Bool (Phase γ ω σ) σ (Event γ σ) := ⟨.ready, fun _ ↦ C.step⟩

/-- A condition on the writes: on the call, the value when it was made, the value that it read, its
write and the value now. -/
def atWrite (ok : γ → σ → σ → ω → σ → Prop) : Program.Guard Bool (Phase γ ω σ) σ (Event γ σ) :=
  fun _ fails p s _ ↦ match p with
    | .writing call first read w => fails = false → ok call first read w s
    | _ => True

/-- Every write finds the value that its call has read. -/
def Untouched : Program.Guard Bool (Phase γ ω σ) σ (Event γ σ) :=
  atWrite fun _ _ read _ s ↦ s = read

instance (ok : γ → σ → σ → ω → σ → Prop) [∀ call first read w s, Decidable (ok call first read w s)]
    (i : Nat) (fails : Bool) (p : Phase γ ω σ) (s : σ) (t : Trace (Event γ σ)) :
    Decidable (atWrite ok i fails p s t) :=
  match p with
  | .writing call first read w => inferInstanceAs (Decidable (fails = false → ok call first read w s))
  | .ready _ | .made _ _ | .done _ | .failed _ => .isTrue trivial

instance [DecidableEq σ] (i : Nat) (fails : Bool) (p : Phase γ ω σ) (s : σ) (t : Trace (Event γ σ)) :
    Decidable (Untouched i fails p s t) :=
  inferInstanceAs (Decidable (atWrite (fun _ _ read _ s ↦ s = read) i fails p s t))

variable {C} {s : σ}

/-- What a step does. -/
inductive Act (C : Calls γ ω σ) (ok : γ → σ → σ → ω → σ → Prop) (s : σ) :
    Phase γ ω σ → Phase γ ω σ → σ → List (Event γ σ) → Prop
  | make (call : γ) : Act C ok s (.ready call) (.made call s) s [.made call s]
  | fail {p : Phase γ ω σ} {call : γ} (open_ : p.completed? = none) : Act C ok s p (.failed call) s []
  | read {call : γ} {first : σ} {w : ω} (plan : C.plan call s = some w) :
    Act C ok s (.made call first) (.writing call first s w) s []
  | «end» {call : γ} {first : σ} (plan : C.plan call s = none) :
    Act C ok s (.made call first) (.done call) s [.done call s s]
  | write {call : γ} {first read : σ} {w : ω} (meets : ok call first read w s) :
    Act C ok s (.writing call first read w) (.done call) (C.perform w s)
      [.done call s (C.perform w s)]

theorem act {ok : γ → σ → σ → ω → σ → Prop} {i : Nat} {fails : Bool} {p p' : Phase γ ω σ} {s' : σ}
    {es : List (Event γ σ)} {t : Trace (Event γ σ)} (hok : atWrite ok i fails p s t)
    (h : C.program.step i fails p s = some (p', s', es)) : Act C ok s p p' s' es := by
  change C.step fails p s = some (p', s', es) at h
  cases p with
  | ready call =>
    cases h
    exact .make call
  | made call first =>
    cases fails with
    | true =>
      cases h
      exact .fail rfl
    | false =>
      simp only [step, Bool.false_eq_true, if_false] at h
      split at h
      · rename_i plan
        cases h
        exact .read plan
      · rename_i plan
        cases h
        exact .end plan
  | writing call first read w =>
    cases fails with
    | true =>
      cases h
      exact .fail rfl
    | false =>
      cases h
      exact .write (hok rfl)
  | done call => cases h
  | failed call => cases h

/-! ## The completed calls -/

theorem completed_tag_append (i : Nat) (es : List (Event γ σ)) (t : Trace (Event γ σ)) :
    completed (tag i es ++ t) = completed t ++ (es.filterMap Event.completed?).reverse := by
  unfold completed tag
  rw [List.filterMap_append, List.reverse_append, List.filterMap_map]
  rfl

/-- A step completes the call that its thread is done with. -/
theorem Act.completed {ok : γ → σ → σ → ω → σ → Prop} {p p' : Phase γ ω σ} {s' : σ}
    {es : List (Event γ σ)} (h : Act C ok s p p' s' es) :
    p.completed? = none ∧ (es.filterMap Event.completed?).reverse = p'.completed?.toList := by
  cases h with
  | fail open_ => exact ⟨open_, rfl⟩
  | make | read | «end» | write => exact ⟨rfl, rfl⟩

theorem filterMap_cons_eq {p : Phase γ ω σ} {ps : List (Phase γ ω σ)} :
    (p :: ps).filterMap Phase.completed? = p.completed?.toList ++ ps.filterMap Phase.completed? := by
  rw [List.filterMap_cons]
  cases p.completed? with
  | none => rfl
  | some call => rfl

/-- The completed calls are those of the threads that are done. -/
theorem completed_perm {ok : γ → σ → σ → ω → σ → Prop} {s₀ : σ}
    {c : Config (Phase γ ω σ) σ (Event γ σ)} (hc : C.program.Reachable (atWrite ok) s₀ c) :
    (completed c.trace).Perm (c.threads.filterMap Phase.completed?) := by
  induction hc with
  | refl => exact .nil
  | @tail c' _ _ hstep ih =>
    cases hstep with
    | spawn request =>
      have hnone : [C.program.init request].filterMap Phase.completed? = [] := rfl
      rw [List.filterMap_append, hnone, List.append_nil]
      exact ih
    | @run i fails p p' s' es thread meets hs =>
      obtain ⟨hnone, hes⟩ := (act meets hs).completed
      obtain ⟨hi, hp⟩ := List.getElem?_eq_some_iff.mp thread
      have hold : c'.threads.filterMap Phase.completed? =
          (c'.threads.take i).filterMap Phase.completed? ++
            (c'.threads.drop (i + 1)).filterMap Phase.completed? := by
        have hsplit : c'.threads.drop i = p :: c'.threads.drop (i + 1) := by
          rw [← hp, List.getElem_cons_drop]
        calc c'.threads.filterMap Phase.completed?
          _ = (c'.threads.take i ++ c'.threads.drop i).filterMap Phase.completed? := by
            rw [List.take_append_drop]
          _ = _ := by
            rw [List.filterMap_append, hsplit, filterMap_cons_eq, hnone]
            rfl
      rw [completed_tag_append, hes, List.set_eq_take_append_cons_drop, if_pos hi,
        List.filterMap_append, filterMap_cons_eq]
      rw [hold] at ih
      refine (ih.append_right _).trans ?_
      rw [List.append_assoc]
      exact List.perm_append_comm.append_left _

/-- Where every write finds the value that its call has read, the value is what the completed calls
make of the first one. -/
theorem serial {s₀ : σ} {c : Config (Phase γ ω σ) σ (Event γ σ)}
    (hc : C.program.Reachable Untouched s₀ c) : c.shared = (completed c.trace).foldl C.apply s₀ := by
  have hkeeps : Program.Keeps C.program Untouched
      (fun s t ↦ s = (completed t).foldl C.apply s₀)
      fun _ p _ _ ↦ ∀ call first read w, p = .writing call first read w → C.plan call read = some w := by
    refine ⟨?_, ?_, ?_⟩
    · rintro i request s t - - call first read w ⟨⟩
    · intro i fails p s t p' s' es hok hI hL hs
      rw [completed_tag_append, List.foldl_append, ← hI]
      cases act hok hs with
      | make call => exact ⟨rfl, by rintro _ _ _ _ ⟨⟩⟩
      | fail => exact ⟨rfl, by rintro _ _ _ _ ⟨⟩⟩
      | read plan =>
        refine ⟨rfl, ?_⟩
        rintro _ _ _ _ ⟨⟩
        exact plan
      | «end» plan =>
        refine ⟨?_, by rintro _ _ _ _ ⟨⟩⟩
        show s = C.apply s _
        rw [apply, plan]
      | @write call first read w meets =>
        refine ⟨?_, by rintro _ _ _ _ ⟨⟩⟩
        subst meets
        show _ = C.apply s call
        rw [apply, hL call first s w rfl]
    · intro i fails p s t p' s' es j q _ _ _ _ _ hq
      exact hq
  exact (Program.invariant hkeeps rfl hc).shared

end Calls

end Cell
