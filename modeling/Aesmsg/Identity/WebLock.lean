import Aesmsg.Identity.WebKeys

/-!
# Lock and wipe on the web, in memory

`unlock`, its background loop and `rotate` keep the epoch in which they were called, and write a key
only when it still is the epoch of their tab; `lock` and `wipe` move the epoch on.  `setupNew` and
`importIdentity` keep no epoch.

## Main results

- `lock_guards`: after a `lock` or a `wipe` the operations that write keys have been called since, or
  create an identity, and what a step writes it reports.
- `setup_undoes_lock`: a `setupNew` from before a `lock` unlocks the tab after it.
-/

namespace Aesmsg.Identity.Web

open Threads

variable {C : IdentityCrypto}

/-- A call that moves the epoch of the tab on. -/
def Event.Suspends (tab : Nat) : Event C → Prop
  | .called ⟨tab', .lock⟩ | .called ⟨tab', .wipe⟩ => tab' = tab
  | _ => False

def Operation.Creates : Operation C → Prop
  | .setupNew _ | .importIdentity .. => True
  | _ => False

/-- Since the call of the operation, thread `i` has been called on the tab. -/
def CalledSince (i tab : Nat) (r : Nat × Event C) (t : Trace (Event C)) : Prop :=
  ∃ operation, (i, .called ⟨tab, operation⟩) ∈ since r t

/-- Thread `i` creates an identity on the tab. -/
def CalledToCreate (i tab : Nat) (t : Trace (Event C)) : Prop :=
  ∃ operation : Operation C, operation.Creates ∧ (i, .called ⟨tab, operation⟩) ∈ t

/-- Who has written keys into a tab since a `lock` or a `wipe` has been called since, or creates an
identity. -/
def LocksLast (t : Trace (Event C)) : Prop :=
  ∀ tab, ∀ r ∈ t, r.2.Suspends tab → ∀ i, (i, .keyed tab) ∈ since r t →
    CalledSince i tab r t ∨ CalledToCreate i tab t

/-- A key is in a ref that was not in it, or the tab has become unlocked. -/
structure Tab.Writes (m m' : Tab C) : Prop where
  keys : (∃ k, m'.identityRef = some k ∧ m.identityRef ≠ some k) ∨
    (∃ k ∈ m'.retiredKeypairsRef, k ∉ m.retiredKeypairsRef) ∨
      m'.stateRef = .unlocked ∧ m.stateRef ≠ .unlocked

/-- The epoch that a thread compares with that of its tab. -/
def Pc.epoch : Pc C → Option Nat
  | .unlockLoaded epoch .. | .unwrapActive epoch .. | .backgroundLoaded epoch ..
  | .background epoch .. | .rotateLoaded epoch .. => some epoch
  | .reverify r | .fingerprintOld r | .generateNew r _ | .wrapNew r .. | .priorLoaded r ..
  | .committed r _ => some r.epoch
  | _ => none

/-- The thread runs `setupNew` or `importIdentity`. -/
def Pc.Creates : Pc C → Prop
  | .generateIdentity _ | .wrapIdentity .. | .saved .. => True
  | _ => False

/-- A thread from before a `lock` or a `wipe` is of an earlier epoch. -/
structure Guarded (i : Nat) (thread : Thread C) (s : State C) (t : Trace (Event C)) : Prop where
  le : ∀ epoch, thread.pc.epoch = some epoch → epoch ≤ (s.tabs thread.tab).epochRef
  stale : ∀ epoch, thread.pc.epoch = some epoch → ∀ r ∈ t, r.2.Suspends thread.tab →
    CalledSince i thread.tab r t ∨ epoch < (s.tabs thread.tab).epochRef
  creates : thread.pc.Creates → CalledToCreate i thread.tab t

variable {x : Input C} {tab : Nat} {pc pc' : Pc C} {s s' : State C} {es : List (Event C)}
  {t : Trace (Event C)} {i : Nat}

theorem CalledSince.append {r : Nat × Event C} (h : CalledSince i tab r t) {es : Trace (Event C)}
    (hr : r ∉ es) : CalledSince i tab r (es ++ t) := by
  obtain ⟨operation, hmem⟩ := h
  refine ⟨operation, ?_⟩
  rw [since_append_of_not_mem hr]
  exact List.mem_append_right _ hmem

theorem CalledToCreate.append (h : CalledToCreate i tab t) (es : Trace (Event C)) :
    CalledToCreate i tab (es ++ t) := by
  obtain ⟨operation, hcreates, hmem⟩ := h
  exact ⟨operation, hcreates, List.mem_append_right _ hmem⟩

/-! ## Epochs -/

theorem Event.Quiet.not_suspends {e : Event C} (h : e.Quiet) (other : Nat) : ¬e.Suspends other := by
  rintro hsuspends
  cases e with
  | called request =>
    obtain ⟨tab, operation⟩ := request
    cases operation with
    | lock => exact h.1 rfl
    | wipe => exact h.2 rfl
    | _ => exact hsuspends
  | _ => exact hsuspends

theorem backgroundFrom_epoch {m : Tab C} {epoch epoch' : Nat} {passphrase : String}
    {entries : List (RetiredKeyEntry C.WrappedKey)}
    (h : (backgroundFrom m epoch passphrase entries).epoch = some epoch') :
    some epoch = some epoch' := by
  rcases backgroundFrom_cases m epoch passphrase entries with ⟨heq, -⟩ | ⟨_, _, -, -, heq⟩ <;>
    rw [heq] at h
  · cases h
  · exact h

theorem backgroundFrom_not_creates (m : Tab C) (epoch : Nat) (passphrase : String)
    (entries : List (RetiredKeyEntry C.WrappedKey)) :
    ¬(backgroundFrom m epoch passphrase entries).Creates := by
  rcases backgroundFrom_cases m epoch passphrase entries with ⟨heq, -⟩ | ⟨_, _, -, -, heq⟩ <;>
    rw [heq] <;> exact id

/-- The epoch of the tab stays, and nothing suspends it, or the thread does and moves it on. -/
theorem epochRef_of_act (hact : Act x tab pc s pc' s' es) :
    ((s'.tabs tab).epochRef = (s.tabs tab).epochRef ∧ ∀ e ∈ es, ∀ other, ¬e.Suspends other) ∨
      ((s'.tabs tab).epochRef = (s.tabs tab).epochRef + 1 ∧ pc'.epoch = none ∧ ¬pc'.Creates ∧
        .keyed tab ∉ es ∧ ∀ e ∈ es, ∀ other, e.Suspends other → other = tab) := by
  cases hact with
  | lock | wipe | wipeRejected =>
    refine .inr ⟨by simp [State.setTab, Tab.leave], rfl, nofun, by simp, ?_⟩
    simp [Event.Suspends]
  | begins begins => cases begins <;> exact .inl ⟨rfl, by simp [Event.Suspends]⟩
  | ends ends => exact .inl ⟨rfl, fun e he ↦ (ends.quiet e he).not_suspends⟩
  | passes | importIdentity | setupNew | rotate | clearRetired =>
    exact .inl ⟨rfl, by simp [Event.Suspends]⟩
  | mounted | saved | absent | wrongPassphrase | unlocked | retired | rotated | wiped =>
    exact .inl ⟨by simp [Tab.enter, Tab.leave], by simp [Event.Suspends]⟩

/-- Epochs only move on, and where a call suspends a tab its epoch does. -/
theorem epochRef_le_of_act (hact : Act x tab pc s pc' s' es) (other : Nat) :
    (s.tabs other).epochRef ≤ (s'.tabs other).epochRef ∧
      ∀ e ∈ es, e.Suspends other → (s.tabs other).epochRef < (s'.tabs other).epochRef := by
  by_cases hother : other = tab
  · subst hother
    rcases epochRef_of_act hact with ⟨hsame, hplain⟩ | ⟨hnext, -⟩
    · exact ⟨Nat.le_of_eq hsame.symm, fun e he h ↦ absurd h (hplain e he other)⟩
    · rw [hnext]
      exact ⟨Nat.le_succ _, fun _ _ _ ↦ Nat.lt_succ_self _⟩
  · rw [hact.tabs hother]
    refine ⟨Nat.le_refl _, fun e he h ↦ ?_⟩
    rcases epochRef_of_act hact with ⟨-, hplain⟩ | ⟨-, -, -, -, htab⟩
    · exact absurd h (hplain e he other)
    · exact absurd (htab e he other h) hother

/-- The epoch that a thread keeps is the one it kept, or that of the tab when it is called. -/
theorem epoch_of_act (hact : Act x tab pc s pc' s' es) {epoch : Nat} (h : pc'.epoch = some epoch) :
    pc.epoch = some epoch ∨ epoch = (s.tabs tab).epochRef ∧ ∃ operation, .called ⟨tab, operation⟩ ∈ es := by
  cases hact with
  | begins begins =>
    cases begins with
    | unlock | rotate => exact .inr ⟨(Option.some.inj h).symm, _, List.mem_cons_self⟩
    | mount | setupNew => cases h
  | passes passes =>
    cases passes with
    | generateIdentity => cases h
    | backgroundLoaded | skip => exact .inl (backgroundFrom_epoch h)
    | unlockLoaded | rotateLoaded | reverify | fingerprintOld | generateNew | wrapNew => exact .inl h
  | retired => exact .inl (backgroundFrom_epoch h)
  | unlocked | rotate => exact .inl h
  | ends | mounted | importIdentity | setupNew | saved | absent | wrongPassphrase | rotated | lock | wipe
  | wipeRejected | clearRetired | wiped => cases h

/-- Who creates had been creating, or is called to. -/
theorem creates_of_act (hact : Act x tab pc s pc' s' es) (h : pc'.Creates) :
    pc.Creates ∨ ∃ operation : Operation C, operation.Creates ∧ .called ⟨tab, operation⟩ ∈ es := by
  cases hact with
  | begins begins =>
    cases begins with
    | setupNew passphrase => exact .inr ⟨.setupNew passphrase, trivial, List.mem_cons_self⟩
    | mount | unlock | rotate => exact h.elim
  | passes passes =>
    cases passes with
    | generateIdentity => exact .inl trivial
    | backgroundLoaded | skip => exact absurd h (backgroundFrom_not_creates _ _ _ _)
    | unlockLoaded | rotateLoaded | reverify | fingerprintOld | generateNew | wrapNew => exact h.elim
  | retired => exact absurd h (backgroundFrom_not_creates _ _ _ _)
  | importIdentity envelope keypair =>
    exact .inr ⟨.importIdentity envelope keypair, trivial, List.mem_cons_of_mem _ List.mem_cons_self⟩
  | setupNew => exact .inl trivial
  | ends | mounted | saved | absent | wrongPassphrase | unlocked | rotate | rotated | lock | wipe
  | wipeRejected | clearRetired | wiped => exact h.elim

/-- A key is written by an operation of the epoch of the tab, or one that creates. -/
theorem keyed_of_act (hact : Act x tab pc s pc' s' es) {other : Nat} (h : .keyed other ∈ es) :
    other = tab ∧ (pc.epoch = some (s.tabs tab).epochRef ∨ pc.Creates) := by
  cases hact with
  | saved => exact ⟨by simpa using h, .inr trivial⟩
  | unlocked _ _ _ _ _ current | retired _ _ _ _ _ _ current | rotated _ _ _ current =>
    exact ⟨by simpa using h, .inl (congrArg some current)⟩
  | ends ends => exact (ends.quiet _ h).elim
  | begins | passes | mounted | importIdentity | setupNew | absent | wrongPassphrase | rotate | lock
  | wipe | wipeRejected | clearRetired | wiped => simp at h

/-- A step that writes a key reports it. -/
theorem keyed_of_writes (hact : Act x tab pc s pc' s' es) {other : Nat}
    (h : (s.tabs other).Writes (s'.tabs other)) : .keyed other ∈ es := by
  by_cases hother : other = tab
  · subst hother
    cases hact with
    | saved | unlocked | retired | rotated => simp
    | begins | passes | ends | importIdentity | setupNew | rotate | clearRetired =>
      exact absurd h.keys (by simp)
    | mounted exists_ =>
      have hkeys := h.keys
      cases exists_ <;> simp at hkeys
    | absent | wrongPassphrase | lock | wipe | wipeRejected | wiped =>
      have hkeys := h.keys
      simp [Tab.leave, State.setTab] at hkeys
  · rw [hact.tabs hother] at h
    exact absurd h.keys (by simp)

/-! ## The guard -/

theorem guarded_of_act {thread' : Thread C} (htab : thread'.tab = tab)
    (hact : Act x tab pc s thread'.pc s' es) (hpc : Guarded i ⟨tab, pc⟩ s t) :
    Guarded i thread' s' (tag i es ++ t) := by
  obtain ⟨tab', pc'⟩ := thread'
  obtain rfl : tab' = tab := htab
  rcases epochRef_of_act hact with ⟨hsame, hplain⟩ | ⟨-, hepoch, hcreates, -⟩
  · have hnew : ∀ r ∈ tag i es, ∀ other, ¬r.2.Suspends other := by
      intro r hr
      obtain ⟨e, he, rfl⟩ := List.mem_map.mp hr
      exact hplain e he
    refine ⟨?_, ?_, ?_⟩
    · intro epoch hepoch
      show epoch ≤ (s'.tabs tab').epochRef
      rw [hsame]
      rcases epoch_of_act hact hepoch with hold | ⟨rfl, -⟩
      · exact hpc.le epoch hold
      · exact Nat.le_refl _
    · intro epoch hepoch r hr hsuspends
      show CalledSince i tab' r _ ∨ epoch < (s'.tabs tab').epochRef
      have hrnew : r ∉ tag i es := fun h ↦ hnew r h _ hsuspends
      have hrold : r ∈ t := (List.mem_append.mp hr).resolve_left hrnew
      rw [hsame]
      rcases epoch_of_act hact hepoch with hold | ⟨-, operation, hcall⟩
      · exact (hpc.stale epoch hold r hrold hsuspends).imp_left (·.append hrnew)
      · refine .inl ⟨operation, ?_⟩
        rw [since_append_of_not_mem hrnew]
        exact List.mem_append_left _ (List.mem_map_of_mem hcall)
    · intro hcreates
      rcases creates_of_act hact hcreates with hold | ⟨operation, hoperation, hcall⟩
      · exact (hpc.creates hold).append _
      · exact ⟨operation, hoperation, List.mem_append_left _ (List.mem_map_of_mem hcall)⟩
  · refine ⟨?_, ?_, fun h ↦ absurd h hcreates⟩
    · intro epoch h
      cases hepoch.symm.trans h
    · intro epoch h
      cases hepoch.symm.trans h

theorem locksLast_of_act (hact : Act x tab pc s pc' s' es) (ht : LocksLast t)
    (hpc : Guarded i ⟨tab, pc⟩ s t) : LocksLast (tag i es ++ t) := by
  intro other r hr hsuspends j hj
  by_cases hnew : r ∈ tag i es
  · -- the step of the call writes no key
    rw [since_append_of_mem hnew] at hj
    obtain ⟨e, he, rfl⟩ := List.mem_map.mp hnew
    rcases epochRef_of_act hact with ⟨-, hplain⟩ | ⟨-, -, -, hkeyed, htab⟩
    · exact absurd hsuspends (hplain e he other)
    · obtain rfl := htab e he other hsuspends
      exact absurd (mem_of_mem_tag (mem_of_mem_since hj)) hkeyed
  · have hold : r ∈ t := (List.mem_append.mp hr).resolve_left hnew
    rw [since_append_of_not_mem hnew] at hj
    rcases List.mem_append.mp hj with hj | hj
    · obtain rfl : j = i := fst_of_mem_tag hj
      obtain ⟨rfl, hepoch | hcreates⟩ := keyed_of_act hact (mem_of_mem_tag hj)
      · rcases hpc.stale _ hepoch r hold hsuspends with hcalled | hlt
        · exact .inl (hcalled.append hnew)
        · exact absurd hlt (Nat.lt_irrefl _)
      · exact .inr ((hpc.creates hcreates).append _)
    · exact (ht other r hold hsuspends j hj).imp (·.append hnew) (·.append _)

theorem keeps_guarded (C : IdentityCrypto) : Program.Keeps (program C) .always
    (fun _ t ↦ LocksLast t) Guarded where
  born i request s t _ _ := ⟨nofun, nofun, nofun⟩
  own := by
    rintro i x ⟨tab, pc⟩ s t thread' s' es - ht hthread hstep
    obtain ⟨htab, hact⟩ := program_act hstep
    exact ⟨locksLast_of_act hact ht hthread, guarded_of_act htab hact hthread⟩
  others := by
    rintro i x ⟨tab, pc⟩ s t thread' s' es j q hij - ht hthread hstep hq
    obtain ⟨-, hact⟩ := program_act hstep
    obtain ⟨hle, hlt⟩ := epochRef_le_of_act hact q.tab
    refine ⟨fun epoch hepoch ↦ Nat.le_trans (hq.le epoch hepoch) hle, ?_, fun h ↦ (hq.creates h).append _⟩
    intro epoch hepoch r hr hsuspends
    by_cases hnew : r ∈ tag i es
    · obtain ⟨e, he, rfl⟩ := List.mem_map.mp hnew
      exact .inr (Nat.lt_of_le_of_lt (hq.le epoch hepoch) (hlt e he hsuspends))
    · have hold : r ∈ t := (List.mem_append.mp hr).resolve_left hnew
      exact (hq.stale epoch hepoch r hold hsuspends).imp (·.append hnew) fun h ↦
        Nat.lt_of_lt_of_le h hle

/-- After a `lock` or a `wipe` the operations that write keys have been called since, or create an
identity; and a step that writes a key reports it. -/
theorem lock_guards (C : IdentityCrypto) (s₀ : State C)
    {c : Config (Thread C) (State C) (Event C)} (hc : (program C).Reachable .always s₀ c) :
    LocksLast c.trace ∧ ∀ c', (program C).Step .always c c' → ∀ tab,
      (c.shared.tabs tab).Writes (c'.shared.tabs tab) →
        ∃ i es, c'.trace = tag i es ++ c.trace ∧ .keyed tab ∈ es := by
  refine ⟨(Program.invariant (keeps_guarded C) (by rintro _ _ ⟨⟩) hc).shared, ?_⟩
  intro c' hstep tab hwrites
  cases hstep with
  | spawn request => exact absurd hwrites.keys (by simp)
  | @run i _ _ _ _ es thread meets step =>
    obtain ⟨-, hact⟩ := program_act step
    exact ⟨i, es, rfl, keyed_of_writes hact hwrites⟩

/-- In one tab a `setupNew`, a `lock` and an `unlock`, which is locked out before its last step; a
second `unlock` after that. -/
def lockDuringUnlock : List (Action (Request (.transparent false)) (Input (.transparent false))) :=
  .spawn ⟨0, .setupNew "p"⟩ :: List.replicate 4 (.run 0 (draw "a" false)) ++
    [.spawn ⟨0, .lock⟩, .run 1 (draw "" false), .spawn ⟨0, .unlock "p"⟩, .run 2 (draw "" false),
      .run 2 (draw "" false), .spawn ⟨0, .lock⟩, .run 3 (draw "" false), .run 2 (draw "" false)] ++
    .spawn ⟨0, .unlock "p"⟩ :: List.replicate 3 (.run 4 (draw "" false))

theorem lock_guards_sample :
    ∃ c, (program (.transparent false)).exec .always (Program.start (.initial .empty))
      lockDuringUnlock = some c ∧ LocksLast c.trace ∧ (3, .called ⟨0, .lock⟩) ∈ c.trace ∧
        (2, .resolved (.unlock "p")) ∈ c.trace ∧ (2, .keyed 0) ∉ c.trace ∧ (4, .keyed 0) ∈ c.trace := by
  have hrun : ((program (.transparent false)).exec .always (Program.start (.initial .empty))
      lockDuringUnlock).map (fun c ↦ decide ((3, .called ⟨0, .lock⟩) ∈ c.trace ∧
        (2, .resolved (.unlock "p")) ∈ c.trace ∧ (2, .keyed 0) ∉ c.trace ∧
          (4, .keyed 0) ∈ c.trace)) = some true := rfl
  obtain ⟨c, hc, hv⟩ := Option.map_eq_some_iff.mp hrun
  exact ⟨c, hc, (lock_guards _ _ (Program.runs_of_exec hc)).1, of_decide_eq_true hv⟩

/-- A `setupNew` that awaits its transaction when the tab is locked unlocks it. -/
theorem setup_undoes_lock : ¬∀ (C : IdentityCrypto) (s₀ : State C)
    (c : Config (Thread C) (State C) (Event C)), (program C).Reachable .always s₀ c →
      ∀ tab, ∀ r ∈ c.trace, r.2.Suspends tab → ∀ i, (i, .keyed tab) ∈ since r c.trace →
        CalledSince i tab r c.trace := by
  intro h
  have hrun : ((program (.transparent false)).exec .always (Program.start (.initial .empty))
      (.spawn ⟨0, .setupNew "p"⟩ :: List.replicate 3 (.run 0 (draw "a" false)) ++
        [.spawn ⟨0, .lock⟩, .run 1 (draw "" false), .run 0 (draw "" false)])).map (fun c ↦
          (decide ((1, .called ⟨0, .lock⟩) ∈ c.trace), since (1, .called ⟨0, .lock⟩) c.trace,
            (c.shared.tabs 0).stateRef, (c.shared.tabs 0).identityRef)) =
      some (true, [(0, .resolved (.setupNew "p")), (0, .keyed 0), (1, .resolved .lock)], .unlocked,
        some "a") := rfl
  obtain ⟨c, hc, hv⟩ := Option.map_eq_some_iff.mp hrun
  obtain ⟨hlock, hv⟩ := Prod.mk.inj hv
  obtain ⟨hsince, -⟩ := Prod.mk.inj hv
  obtain ⟨operation, hcall⟩ := h _ _ c (Program.runs_of_exec hc) 0 (1, .called ⟨0, .lock⟩)
    (of_decide_eq_true hlock) rfl 0 (by rw [hsince]; simp)
  rw [hsince] at hcall
  simp at hcall

end Aesmsg.Identity.Web
