import Mathlib.Logic.Relation

/-!
# Threads over a shared state

Threads that take atomic steps on one shared state, in any order.  A step may read an input that the
scheduler picks (a clock reading, a failure) and emits events, which the trace records with the
number of the thread, the latest first.

## Main results

- `Program.invariant`: a global invariant and an assertion for every thread hold in every reachable
  configuration when each step keeps the invariant, its own assertion and those of the others.
- `Program.Reachable.strengthen`: what has been proved of every reachable configuration may be
  assumed of the steps of later proofs.
-/

namespace Threads

/-- `init` is the state in which a thread serves a request of type `ρ`; `step` takes the number of
the thread and its input `χ`, and is none where the thread is blocked or finished. -/
structure Program (ρ χ P σ ε : Type) where
  init : ρ → P
  step : Nat → χ → P → σ → Option (P × σ × List ε)

abbrev Trace (ε : Type) := List (Nat × ε)

structure Config (P σ ε : Type) where
  threads : List P
  shared : σ
  trace : Trace ε

inductive Action (ρ χ : Type) where
  | spawn (request : ρ)
  | run (i : Nat) (input : χ)

/-- The events of thread `i`. -/
def tag {ε : Type} (i : Nat) (events : List ε) : Trace ε := events.map (i, ·)

@[simp] theorem tag_nil {ε : Type} (i : Nat) : tag i ([] : List ε) = [] := rfl

@[simp] theorem tag_cons {ε : Type} (i : Nat) (e : ε) (es : List ε) :
    tag i (e :: es) = (i, e) :: tag i es := rfl

theorem fst_of_mem_tag {ε : Type} {i : Nat} {es : List ε} {e : Nat × ε} (h : e ∈ tag i es) :
    e.1 = i := by
  obtain ⟨_, -, rfl⟩ := List.mem_map.mp h
  rfl

theorem mem_of_mem_tag {ε : Type} {i j : Nat} {es : List ε} {e : ε} (h : (j, e) ∈ tag i es) : e ∈ es := by
  obtain ⟨_, he, heq⟩ := List.mem_map.mp h
  exact (Prod.mk.inj heq).2 ▸ he

/-- An event after a step is one of the step or an old one. -/
theorem mem_tag_append {ε : Type} {i j : Nat} {e : ε} {es : List ε} {t : Trace ε}
    (h : (j, e) ∈ tag i es ++ t) : (j = i ∧ e ∈ es) ∨ (j, e) ∈ t := by
  rcases List.mem_append.mp h with hm | hm
  · obtain ⟨e', he', heq⟩ := List.mem_map.mp hm
    cases heq
    exact .inl ⟨rfl, he'⟩
  · exact .inr hm

/-- The events of thread `i` in a trace. -/
def mine {ε : Type} (i : Nat) (t : Trace ε) : List ε :=
  t.filterMap fun e ↦ if e.1 = i then some e.2 else none

@[simp] theorem mine_nil {ε : Type} (i : Nat) : mine i ([] : Trace ε) = [] := rfl

theorem mem_mine {ε : Type} {i : Nat} {t : Trace ε} {e : ε} : e ∈ mine i t ↔ (i, e) ∈ t := by
  unfold mine
  rw [List.mem_filterMap]
  constructor
  · rintro ⟨⟨j, e'⟩, hm, h⟩
    split at h
    · rename_i hj
      cases h
      exact hj ▸ hm
    · cases h
  · intro hm
    exact ⟨(i, e), hm, if_pos rfl⟩

theorem mine_eq_nil {ε : Type} {i : Nat} {t : Trace ε} (h : ∀ e ∈ t, e.1 ≠ i) : mine i t = [] := by
  rw [List.eq_nil_iff_forall_not_mem]
  intro e he
  exact h (i, e) (mem_mine.mp he) rfl

theorem mine_append {ε : Type} (i : Nat) (t t' : Trace ε) :
    mine i (t ++ t') = mine i t ++ mine i t' := List.filterMap_append

@[simp] theorem mine_tag_append {ε : Type} (i : Nat) (es : List ε) (t : Trace ε) :
    mine i (tag i es ++ t) = es ++ mine i t := by
  rw [mine_append]
  congr 1
  induction es with
  | nil => rfl
  | cons e es ih => simpa [mine] using ih

theorem mine_tag_append_of_ne {ε : Type} {i j : Nat} (h : i ≠ j) (es : List ε) (t : Trace ε) :
    mine j (tag i es ++ t) = mine j t := by
  rw [mine_append]
  have hnone : mine j (tag i es) = [] := by
    refine mine_eq_nil fun e he hj ↦ h ?_
    obtain ⟨_, -, rfl⟩ := List.mem_map.mp he
    exact hj
  rw [hnone, List.nil_append]

/-- What has happened since the last `e`. -/
def since {ε : Type} [DecidableEq ε] (e : Nat × ε) (t : Trace ε) : Trace ε := t.takeWhile (· ≠ e)

section Since

variable {ε : Type} [DecidableEq ε] {e e' x : Nat × ε} {t : Trace ε}

theorem since_cons_self (e : Nat × ε) (t : Trace ε) : since e (e :: t) = [] := by
  unfold since
  rw [List.takeWhile_cons_of_neg (by simp)]

theorem since_cons_of_ne (h : x ≠ e) : since e (x :: t) = x :: since e t := by
  unfold since
  rw [List.takeWhile_cons_of_pos (by simpa using h)]

theorem since_append_of_not_mem {es : Trace ε} (h : e ∉ es) : since e (es ++ t) = es ++ since e t := by
  induction es with
  | nil => rfl
  | cons x es ih =>
    rw [List.mem_cons, not_or] at h
    obtain ⟨hx, hes⟩ := h
    rw [List.cons_append, since_cons_of_ne (Ne.symm hx), ih hes, List.cons_append]

theorem since_append_of_mem {es : Trace ε} (h : e ∈ es) : since e (es ++ t) = since e es := by
  induction es with
  | nil => cases h
  | cons x es ih =>
    by_cases hx : x = e
    · subst hx
      rw [List.cons_append, since_cons_self, since_cons_self]
    · rw [List.cons_append, since_cons_of_ne hx, since_cons_of_ne hx,
        ih ((List.mem_cons.mp h).resolve_left (Ne.symm hx))]

theorem mem_of_mem_since (h : x ∈ since e t) : x ∈ t := List.takeWhile_subset _ h

/-- If `e'` has not happened since `e`, then `e` and all that followed it happened since `e'`. -/
theorem since_subset_since (he : e ∈ t) (h : e' ∉ since e t) (hne : e ≠ e') :
    e ∈ since e' t ∧ since e t ⊆ since e' t := by
  induction t with
  | nil => cases he
  | cons x t ih =>
    by_cases hx : x = e
    · subst hx
      rw [since_cons_self, since_cons_of_ne hne]
      exact ⟨List.mem_cons_self, List.nil_subset _⟩
    · have ht : e ∈ t := (List.mem_cons.mp he).resolve_left (Ne.symm hx)
      rw [since_cons_of_ne hx] at h ⊢
      rw [List.mem_cons, not_or] at h
      obtain ⟨hxe, hrest⟩ := h
      obtain ⟨hm, hsub⟩ := ih ht hrest
      rw [since_cons_of_ne (Ne.symm hxe)]
      exact ⟨List.mem_cons_of_mem _ hm, List.cons_subset_cons _ hsub⟩

/-- What had happened when `e` happened last. -/
def before (e : Nat × ε) (t : Trace ε) : Trace ε := (t.dropWhile (· ≠ e)).tail

theorem before_cons_self (e : Nat × ε) (t : Trace ε) : before e (e :: t) = t := by
  unfold before
  rw [List.dropWhile_cons_of_neg (by simp)]
  rfl

theorem before_cons_of_ne (h : x ≠ e) : before e (x :: t) = before e t := by
  unfold before
  rw [List.dropWhile_cons_of_pos (by simpa using h)]

theorem before_append_of_not_mem {es : Trace ε} (h : e ∉ es) : before e (es ++ t) = before e t := by
  induction es with
  | nil => rfl
  | cons x es ih =>
    rw [List.mem_cons, not_or] at h
    obtain ⟨hx, hes⟩ := h
    rw [List.cons_append, before_cons_of_ne (Ne.symm hx), ih hes]

theorem mem_of_mem_before (h : x ∈ before e t) : x ∈ t :=
  (List.dropWhile_sublist _).subset (List.mem_of_mem_tail h)

/-- Of two events, one had happened when the other did. -/
theorem mem_before_or (hne : e ≠ e') (he : e ∈ t) (he' : e' ∈ t) :
    e ∈ before e' t ∨ e' ∈ before e t := by
  induction t with
  | nil => cases he
  | cons x t ih =>
    by_cases hx : x = e
    · subst hx
      rw [before_cons_self]
      exact .inr ((List.mem_cons.mp he').resolve_left hne.symm)
    have het : e ∈ t := (List.mem_cons.mp he).resolve_left (Ne.symm hx)
    by_cases hx' : x = e'
    · subst hx'
      rw [before_cons_self]
      exact .inl het
    · rw [before_cons_of_ne hx, before_cons_of_ne hx']
      exact ih het ((List.mem_cons.mp he').resolve_left (Ne.symm hx'))

end Since

/-- What has happened since the last event that satisfies `stop`. -/
def sinceLast {ε : Type} (stop : ε → Bool) (t : Trace ε) : Trace ε := t.takeWhile fun e ↦ !stop e.2

section SinceLast

variable {ε : Type} {stop : ε → Bool} {t : Trace ε} {i : Nat} {es : List ε}

theorem sinceLast_append (h : ∀ e ∈ es, stop e = false) :
    sinceLast stop (tag i es ++ t) = tag i es ++ sinceLast stop t := by
  induction es with
  | nil => rfl
  | cons e es ih =>
    have he : stop e = false := h e List.mem_cons_self
    rw [tag_cons, List.cons_append, List.cons_append, ← ih fun e he ↦ h e (List.mem_cons_of_mem _ he)]
    exact List.takeWhile_cons_of_pos (by simp [he])

theorem sinceLast_cons_stop {e : Nat × ε} (h : stop e.2 = true) : sinceLast stop (e :: t) = [] :=
  List.takeWhile_cons_of_neg (by simp [h])

end SinceLast

variable {ρ χ P σ ε : Type}

namespace Program

variable (M : Program ρ χ P σ ε)

def start (s : σ) : Config P σ ε := ⟨[], s, []⟩

/-- A condition on the steps of a run. -/
abbrev Guard (χ P σ ε : Type) := Nat → χ → P → σ → Trace ε → Prop

/-- No condition. -/
abbrev Guard.always : Guard χ P σ ε := fun _ _ _ _ _ ↦ True

/-- The configuration after one action, none where the step cannot be taken or does not meet the
condition. -/
def next (ok : Guard χ P σ ε) [∀ i x p s t, Decidable (ok i x p s t)] (c : Config P σ ε) :
    Action ρ χ → Option (Config P σ ε)
  | .spawn request => some { c with threads := c.threads ++ [M.init request] }
  | .run i input =>
    match c.threads[i]? with
    | none => none
    | some p =>
      if ok i input p c.shared c.trace then
        match M.step i input p c.shared with
        | none => none
        | some (p', s', es) => some ⟨c.threads.set i p', s', tag i es ++ c.trace⟩
      else none

/-- The configuration after a schedule. -/
def exec (ok : Guard χ P σ ε) [∀ i x p s t, Decidable (ok i x p s t)] (c : Config P σ ε)
    (schedule : List (Action ρ χ)) : Option (Config P σ ε) :=
  schedule.foldlM (M.next ok) c

/-- One step, of a thread that meets the condition. -/
inductive Step (ok : Guard χ P σ ε) : Config P σ ε → Config P σ ε → Prop
  | spawn (c : Config P σ ε) (request : ρ) :
    Step ok c { c with threads := c.threads ++ [M.init request] }
  | run {c : Config P σ ε} {i : Nat} {input : χ} {p p' : P} {s' : σ} {es : List ε}
    (thread : c.threads[i]? = some p) (meets : ok i input p c.shared c.trace)
    (step : M.step i input p c.shared = some (p', s', es)) :
    Step ok c ⟨c.threads.set i p', s', tag i es ++ c.trace⟩

/-- A run of any length whose steps meet the condition. -/
def Runs (ok : Guard χ P σ ε) : Config P σ ε → Config P σ ε → Prop :=
  Relation.ReflTransGen (M.Step ok)

def Reachable (ok : Guard χ P σ ε) (s : σ) (c : Config P σ ε) : Prop := M.Runs ok (start s) c

variable {M} {ok : Guard χ P σ ε}

section Exec

variable [∀ i x p s t, Decidable (ok i x p s t)]

theorem step_of_next {c c' : Config P σ ε} {a : Action ρ χ} (h : M.next ok c a = some c') :
    M.Step ok c c' := by
  cases a with
  | spawn request =>
    cases h
    exact .spawn c request
  | run i input =>
    simp only [next] at h
    split at h
    · cases h
    · rename_i p hp
      split at h
      · rename_i hok
        split at h
        · cases h
        · rename_i p' s' es hs
          cases h
          exact .run hp hok hs
      · cases h

/-- A schedule that can be executed is a run. -/
theorem runs_of_exec {c c' : Config P σ ε} {schedule : List (Action ρ χ)}
    (h : M.exec ok c schedule = some c') : M.Runs ok c c' := by
  induction schedule generalizing c with
  | nil =>
    cases h
    exact .refl
  | cons a schedule ih =>
    obtain ⟨d, hd, hrest⟩ := Option.bind_eq_some_iff.mp h
    exact .head (step_of_next hd) (ih hrest)

end Exec

/-- The trace of a run only grows. -/
theorem Runs.trace {c c' : Config P σ ε} (h : M.Runs ok c c') : ∃ t, c'.trace = t ++ c.trace := by
  induction h with
  | refl => exact ⟨[], rfl⟩
  | tail _ hstep ih =>
    obtain ⟨t, ht⟩ := ih
    cases hstep with
    | spawn => exact ⟨t, ht⟩
    | run => exact ⟨_ ++ t, by rw [ht, List.append_assoc]⟩

/-! ## Invariants -/

section Invariant

variable {I : σ → Trace ε → Prop} {L : Nat → P → σ → Trace ε → Prop} {s₀ : σ}

/-- The invariant and the assertions hold in a configuration, whose trace names only its threads. -/
structure Holds (I : σ → Trace ε → Prop) (L : Nat → P → σ → Trace ε → Prop) (c : Config P σ ε) :
    Prop where
  shared : I c.shared c.trace
  thread : ∀ i p, c.threads[i]? = some p → L i p c.shared c.trace
  actors : ∀ e ∈ c.trace, e.1 < c.threads.length

/-- The obligations of a thread-modular proof. -/
structure Keeps (M : Program ρ χ P σ ε) (ok : Guard χ P σ ε) (I : σ → Trace ε → Prop)
    (L : Nat → P → σ → Trace ε → Prop) : Prop where
  /-- A new thread satisfies its assertion; no event is its own. -/
  born : ∀ i request s t, I s t → (∀ e ∈ t, e.1 ≠ i) → L i (M.init request) s t
  /-- A step keeps the invariant and its thread's assertion. -/
  own : ∀ {i input p s t p' s' es}, ok i input p s t → I s t → L i p s t →
    M.step i input p s = some (p', s', es) → I s' (tag i es ++ t) ∧ L i p' s' (tag i es ++ t)
  /-- A step keeps the assertions of the other threads. -/
  others : ∀ {i input p s t p' s' es j q}, i ≠ j → ok i input p s t → I s t → L i p s t →
    M.step i input p s = some (p', s', es) → L j q s t → L j q s' (tag i es ++ t)

theorem Keeps.step (h : Keeps M ok I L) {c c' : Config P σ ε} (hc : Holds I L c)
    (hstep : M.Step ok c c') : Holds I L c' := by
  cases hstep with
  | spawn request =>
    refine ⟨hc.shared, ?_, ?_⟩
    · intro i p hp
      rcases Nat.lt_or_ge i c.threads.length with hi | hi
      · rw [List.getElem?_append_left hi] at hp
        exact hc.thread i p hp
      · rw [List.getElem?_append_right hi] at hp
        obtain rfl : M.init request = p := by
          rw [List.getElem?_singleton] at hp
          split at hp
          · exact Option.some.inj hp
          · cases hp
        exact h.born i request _ _ hc.shared fun e he ↦ Nat.ne_of_lt
          (Nat.lt_of_lt_of_le (hc.actors e he) hi)
    · intro e he
      rw [List.length_append]
      exact Nat.lt_add_right _ (hc.actors e he)
  | @run i input p p' s' es thread meets step =>
    have hi : i < c.threads.length := (List.getElem?_eq_some_iff.mp thread).1
    have hL := hc.thread i p thread
    obtain ⟨hI', hL'⟩ := h.own meets hc.shared hL step
    refine ⟨hI', ?_, ?_⟩
    · intro j q hq
      by_cases hij : i = j
      · subst hij
        rw [List.getElem?_set_self hi] at hq
        cases hq
        exact hL'
      · rw [List.getElem?_set_ne hij] at hq
        exact h.others hij meets hc.shared hL step (hc.thread j q hq)
    · intro e he
      rw [List.length_set]
      rcases List.mem_append.mp he with he | he
      · rw [fst_of_mem_tag he]
        exact hi
      · exact hc.actors e he

theorem Keeps.runs (h : Keeps M ok I L) {c c' : Config P σ ε} (hc : Holds I L c)
    (hruns : M.Runs ok c c') : Holds I L c' := by
  induction hruns with
  | refl => exact hc
  | tail _ hstep ih => exact h.step ih hstep

/-- Thread-modular invariants hold in every reachable configuration. -/
theorem invariant (h : Keeps M ok I L) {s : σ} (hinit : I s []) {c : Config P σ ε}
    (hc : M.Reachable ok s c) : Holds I L c :=
  h.runs ⟨hinit, by rintro i p ⟨⟩, by rintro e ⟨⟩⟩ hc

/-- An invariant of the shared state and the trace alone. -/
theorem Reachable.shared (init : I s₀ [])
    (step : ∀ {i input p s t p' s' es}, ok i input p s t → I s t →
      M.step i input p s = some (p', s', es) → I s' (tag i es ++ t))
    {c : Config P σ ε} (hc : M.Reachable ok s₀ c) : I c.shared c.trace := by
  have hkeeps : Keeps M ok I fun _ _ _ _ ↦ True :=
    ⟨fun _ _ _ _ _ _ ↦ trivial, fun hok hI _ hstep ↦ ⟨step hok hI hstep, trivial⟩,
      fun _ _ _ _ _ _ ↦ trivial⟩
  exact (invariant hkeeps init hc).shared

/-- The condition `ok`, with what has been proved of reachable configurations. -/
def Guard.with (ok : Guard χ P σ ε) (I : σ → Trace ε → Prop) (L : Nat → P → σ → Trace ε → Prop) :
    Guard χ P σ ε := fun i input p s t ↦ ok i input p s t ∧ I s t ∧ L i p s t

theorem Keeps.step_strengthen {c c' : Config P σ ε} (hc : Holds I L c) (hstep : M.Step ok c c') :
    M.Step (Guard.with ok I L) c c' := by
  cases hstep with
  | spawn request => exact .spawn c request
  | run thread meets step => exact .run thread ⟨meets, hc.shared, hc.thread _ _ thread⟩ step

theorem Keeps.runs_strengthen (h : Keeps M ok I L) {c c' : Config P σ ε} (hc : Holds I L c)
    (hruns : M.Runs ok c c') : M.Runs (Guard.with ok I L) c c' := by
  induction hruns with
  | refl => exact .refl
  | tail hpre hstep ih => exact ih.tail (Keeps.step_strengthen (h.runs hc hpre) hstep)

theorem Reachable.strengthen (h : Keeps M ok I L) {s : σ} (hinit : I s []) {c : Config P σ ε}
    (hc : M.Reachable ok s c) : M.Reachable (Guard.with ok I L) s c :=
  h.runs_strengthen ⟨hinit, by rintro i p ⟨⟩, by rintro e ⟨⟩⟩ hc

end Invariant

/-! ## One thread -/

section Serves

variable {Q : P → List ε → Prop} {s : σ} {i : Nat} {request : ρ}

/-- The events of a run are those of its threads. -/
theorem Reachable.actors {c : Config P σ ε} (hc : M.Reachable ok s c) :
    ∀ e ∈ c.trace, e.1 < c.threads.length := by
  have hkeeps : Keeps M ok (fun _ _ ↦ True) fun _ _ _ _ ↦ True :=
    ⟨fun _ _ _ _ _ _ ↦ trivial, fun _ _ _ _ ↦ ⟨trivial, trivial⟩, fun _ _ _ _ _ _ ↦ trivial⟩
  exact (invariant hkeeps trivial hc).actors

/-- What the steps of a thread keep of its state and its events holds along a run. -/
theorem Runs.carry
    (step : ∀ {x p s p' s' es h}, Q p h → M.step i x p s = some (p', s', es) → Q p' (es ++ h))
    {c c' : Config P σ ε} (hruns : M.Runs ok c c')
    (hc : ∃ p, c.threads[i]? = some p ∧ Q p (mine i c.trace)) :
    ∃ p, c'.threads[i]? = some p ∧ Q p (mine i c'.trace) := by
  induction hruns with
  | refl => exact hc
  | tail _ hstep ih =>
    obtain ⟨p, hp, hQ⟩ := ih
    have hi := (List.getElem?_eq_some_iff.mp hp).1
    cases hstep with
    | spawn request => exact ⟨p, (List.getElem?_append_left hi).trans hp, hQ⟩
    | @run j input q q' s' es thread _ hs =>
      by_cases hij : j = i
      · subst hij
        cases thread.symm.trans hp
        refine ⟨q', List.getElem?_set_self hi, ?_⟩
        rw [mine_tag_append]
        exact step hQ hs
      · refine ⟨p, (List.getElem?_set_ne hij).trans hp, ?_⟩
        rw [mine_tag_append_of_ne hij]
        exact hQ

/-- Thread `i` of a configuration that is reached from `s` serves `request`. -/
def Serves (M : Program ρ χ P σ ε) (ok : Guard χ P σ ε) (s : σ) (i : Nat) (request : ρ)
    (c : Config P σ ε) : Prop :=
  ∃ c₀, M.Reachable ok s c₀ ∧ c₀.threads.length = i ∧
    M.Runs ok { c₀ with threads := c₀.threads ++ [M.init request] } c

theorem Serves.reachable {c : Config P σ ε} (h : M.Serves ok s i request c) :
    M.Reachable ok s c := by
  obtain ⟨c₀, hc₀, -, hruns⟩ := h
  exact (hc₀.tail (.spawn c₀ request)).trans hruns

/-- What holds of a new thread and is kept by its steps holds of a thread that serves. -/
theorem Serves.carry {c : Config P σ ε} (h : M.Serves ok s i request c)
    (init : Q (M.init request) [])
    (step : ∀ {x p s p' s' es h}, Q p h → M.step i x p s = some (p', s', es) → Q p' (es ++ h)) :
    ∃ p, c.threads[i]? = some p ∧ Q p (mine i c.trace) := by
  obtain ⟨c₀, hc₀, rfl, hruns⟩ := h
  refine hruns.carry step ⟨M.init request, List.getElem?_concat_length, ?_⟩
  have hmine : mine c₀.threads.length c₀.trace = [] := by
    rw [List.eq_nil_iff_forall_not_mem]
    intro e he
    exact Nat.lt_irrefl _ (hc₀.actors _ (mem_mine.mp he))
  change Q _ (mine c₀.threads.length c₀.trace)
  rw [hmine]
  exact init

end Serves

end Program

end Threads
