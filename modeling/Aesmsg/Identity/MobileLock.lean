import Aesmsg.Identity.MobileKeys

/-!
# Wipe and lock of the mobile machine

An `unlock` or a `rotate` that is in flight when the machine is wiped or locked does not look at the
machine again before it saves its envelope or sets the machine to unlocked.

## Main results

- `wipe_irreversible`: what a wipe has erased stays erased where every save of `unlock` and `rotate`
  finds a stored identity; `rotate_undoes_wipe` is a run in which one does not.
- `lock_effective`: the machine stays locked where no `unlock` or `rotate` is in flight when `lock` or
  `wipe` returns; `unlock_undoes_lock` is a run in which one is.
-/

namespace Aesmsg.Identity.Mobile

open Threads

variable {C : IdentityCrypto}

/-! ## Wipe -/

namespace Keystore

def Lacks (k : Keystore C) : Item → Prop
  | .wrappedIdentity => k.wrappedIdentity = none
  | .retiredIdentities => k.retiredIdentities = none
  | .deviceSecret => k.deviceSecret = none

variable {k : Keystore C} {item : Item}

theorem lacks_erase_self (k : Keystore C) (item : Item) : (k.erase item).Lacks item := by
  cases item <;> rfl

theorem Lacks.erase (h : k.Lacks item) (other : Item) : (k.erase other).Lacks item := by
  cases item <;> cases other <;> first | exact h | rfl

end Keystore

/-- A fresh machine over the keystore is in state `m` when `init` has run. -/
def InitReports (k : Keystore C) (m : IdentityState C) : Prop :=
  ∀ x : Input C, x.rejects = none →
    ((program C).exec .always (Program.start ⟨k, .loading⟩)
      [.spawn .init, .run 0 x, .run 0 x, .run 0 x]).map (·.shared.machine) = some m

theorem initReports_noIdentity {k : Keystore C} (h : k.wrappedIdentity = none) :
    InitReports k .noIdentity := by
  intro x hx
  simp [Program.exec, Program.next, Program.start, program, step, begin_, awaiting, hx, h,
    initialState]

/-- `setupNew` or `importIdentity` has saved an identity since thread `j` called `wipe`. -/
def CreatedSinceWipe (j : Nat) (t : Trace (Event C)) : Prop :=
  ∃ i identity secret, (i, .savedIdentity .persistAndUnlock identity secret) ∈
    since (j, .called .wipe) t

/-- When a wipe has resolved, and until an identity is created, the keystore holds no identity and no
retired keys. -/
def WipesLast (c : Config (Pc C) (State C) (Event C)) : Prop :=
  ∀ j, (j, .returned .wipe) ∈ c.trace → ¬CreatedSinceWipe j c.trace →
    c.shared.keystore.wrappedIdentity = none ∧ c.shared.keystore.retired = [] ∧
      InitReports c.shared.keystore .noIdentity

/-- `unlock` and `rotate` save only where an identity is stored. -/
def SavesOverIdentity (C : IdentityCrypto) : Program.Guard (Input C) (Pc C) (State C) (Event C) :=
  fun _ _ pc s _ ↦
    match pc with
    | .saveRewrapped .. | .saveRetired .. | .saveActive _ => s.keystore.wrappedIdentity ≠ none
    | _ => True

instance (i : Nat) (x : Input C) (pc : Pc C) (s : State C) (t : Trace (Event C)) :
    Decidable (SavesOverIdentity C i x pc s t) :=
  match pc with
  | .saveRewrapped .. | .saveRetired .. | .saveActive _ =>
    inferInstanceAs (Decidable (¬s.keystore.wrappedIdentity = none))
  | .start _ | .hasStoredIdentity | .initialised _ | .generateIdentity | .createDeviceSecret _
  | .storeDeviceSecret .. | .wrapIdentity .. | .saveIdentity .. | .persisted ..
  | .loadWrappedIdentity | .absent | .unlockDeviceSecret _ | .readDeviceSecret _
  | .unwrapIdentity .. | .loadRetiredKeys .. | .unwrapRetired .. | .rewrap ..
  | .deleteWrappedIdentity | .deleteRetiredKeys | .deleteDeviceSecret | .wipeStorage | .wiped
  | .rotateUnlock _ | .rotateSecret _ | .wrapOld .. | .fingerprintOld .. | .generateNew ..
  | .wrapNew .. | .loadPrior _ | .rotated _ | .done => isTrue trivial

/-- What the wipe of thread `j` has erased. -/
def erasedBy (j : Nat) (pc : Pc C) (t : Trace (Event C)) : List Item :=
  if (j, .returned .wipe) ∈ t then [.wrappedIdentity, .retiredIdentities] else pc.erased

/-- What a wipe has erased is not in the keystore unless an identity has been created since. -/
structure Erasing (j : Nat) (pc : Pc C) (s : State C) (t : Trace (Event C)) : Prop where
  lacks : ¬CreatedSinceWipe j t → ∀ item ∈ erasedBy j pc t, s.keystore.Lacks item
  returned : (j, .returned .wipe) ∈ t → pc = .done

/-- The active envelope is erased first, then the retired keys. -/
theorem erasedBy_cases (j : Nat) (pc : Pc C) (t : Trace (Event C)) :
    erasedBy j pc t = [] ∨ erasedBy j pc t = [.wrappedIdentity] ∨
      erasedBy j pc t = [.wrappedIdentity, .retiredIdentities] := by
  unfold erasedBy
  split
  · exact .inr (.inr rfl)
  · cases pc with
    | deleteRetiredKeys => exact .inr (.inl rfl)
    | deleteDeviceSecret | wipeStorage | wiped => exact .inr (.inr rfl)
    | _ => exact .inl rfl

theorem wrappedIdentity_mem_erasedBy {j : Nat} {pc : Pc C} {t : Trace (Event C)} {item : Item}
    (h : item ∈ erasedBy j pc t) : .wrappedIdentity ∈ erasedBy j pc t := by
  rcases erasedBy_cases j pc t with heq | heq | heq
  · rw [heq] at h
    cases h
  all_goals
    rw [heq]
    exact List.mem_cons_self

theorem ne_deviceSecret_of_mem_erasedBy {j : Nat} {pc : Pc C} {t : Trace (Event C)} {item : Item}
    (h : item ∈ erasedBy j pc t) : item ≠ .deviceSecret := by
  rintro rfl
  rcases erasedBy_cases j pc t with heq | heq | heq <;> simp [heq] at h

variable {s s' : State C} {t : Trace (Event C)} {i j : Nat} {es : List (Event C)}

theorem CreatedSinceWipe.append (h : CreatedSinceWipe j t) (hcall : (j, .called .wipe) ∉ tag i es) :
    CreatedSinceWipe j (tag i es ++ t) := by
  obtain ⟨k, identity, secret, hmem⟩ := h
  refine ⟨k, identity, secret, ?_⟩
  rw [since_append_of_not_mem hcall]
  exact List.mem_append_right _ hmem

/-- A step that meets the condition creates an identity, or leaves out of the keystore what is not in
it, when the active envelope is not. -/
theorem lacks_of_act {x : Input C} {pc pc' : Pc C} (hact : Act pc s pc' s' es)
    (hok : SavesOverIdentity C i x pc s t) (hwrapped : s.keystore.Lacks .wrappedIdentity)
    {item : Item} (hitem : s.keystore.Lacks item) (hne : item ≠ .deviceSecret) :
    s'.keystore.Lacks item ∨ ∃ identity secret,
      es = [.savedIdentity .persistAndUnlock identity secret] := by
  cases hact with
  | saveIdentity identity secret => exact .inr ⟨identity, secret, rfl⟩
  | saveRewrapped | saveRetired | saveActive => exact absurd hwrapped hok
  | deleteWrappedIdentity | deleteRetiredKeys | deleteDeviceSecret => exact .inl (hitem.erase _)
  | storeDeviceSecret =>
    cases item with
    | deviceSecret => exact absurd rfl hne
    | wrappedIdentity | retiredIdentities => exact .inl hitem
  | quiet | lock | initialised | persisted | absent | unlocked | wiped | rotated => exact .inl hitem

theorem keeps_erasing (C : IdentityCrypto) : Program.Keeps (program C) (SavesOverIdentity C)
    (fun _ _ ↦ True) Erasing where
  born i request s t _ hnew := by
    have hret : (i, .returned .wipe) ∉ t := fun h ↦ hnew _ h rfl
    refine ⟨?_, fun h ↦ absurd h hret⟩
    intro _ item hitem
    rw [erasedBy, if_neg hret] at hitem
    cases hitem
  others := by
    intro i x pc s t pc' s' es j q hij hok _ _ hstep hq
    have hcall : ∀ e : Event C, (j, e) ∉ tag i es := fun e he ↦ hij (fst_of_mem_tag he).symm
    have hret : (j, .returned .wipe) ∈ tag i es ++ t ↔ (j, .returned .wipe) ∈ t := by
      rw [List.mem_append]
      exact or_iff_right (hcall _)
    have herased : erasedBy j q (tag i es ++ t) = erasedBy j q t := by
      unfold erasedBy
      simp only [hret]
    refine ⟨?_, fun h ↦ hq.returned (hret.mp h)⟩
    intro hcreated item hitem
    rw [herased] at hitem
    have hold : ¬CreatedSinceWipe j t := fun h ↦ hcreated (h.append (hcall _))
    rcases lacks_of_act (step_act hstep) hok
        (hq.lacks hold _ (wrappedIdentity_mem_erasedBy hitem)) (hq.lacks hold _ hitem)
        (ne_deviceSecret_of_mem_erasedBy hitem) with hlacks | ⟨identity, secret, rfl⟩
    · exact hlacks
    · refine absurd ⟨i, identity, secret, ?_⟩ hcreated
      rw [since_append_of_not_mem (hcall _)]
      exact List.mem_cons_self
  own := by
    intro i x pc s t pc' s' es hok _ hpc hstep
    refine ⟨trivial, ?_⟩
    have hret : (i, .returned .wipe) ∉ t := by
      intro hret
      rw [hpc.returned hret] at hstep
      cases hstep
    have hlacks : ¬CreatedSinceWipe i t → ∀ item ∈ pc.erased, s.keystore.Lacks item := by
      have h := hpc.lacks
      rwa [erasedBy, if_neg hret] at h
    -- a step that does not return from a wipe
    have hon : .returned .wipe ∉ es → (¬CreatedSinceWipe i (tag i es ++ t) →
        ∀ item ∈ pc'.erased, s'.keystore.Lacks item) → Erasing i pc' s' (tag i es ++ t) := by
      intro hes h
      have hret' : (i, .returned .wipe) ∉ tag i es ++ t := by
        rw [List.mem_append]
        rintro (hmem | hmem)
        · obtain ⟨e, he, heq⟩ := List.mem_map.mp hmem
          exact hes ((Prod.mk.inj heq).2 ▸ he)
        · exact hret hmem
      refine ⟨?_, fun h ↦ absurd h hret'⟩
      rwa [erasedBy, if_neg hret']
    cases step_act hstep with
    | quiet passes =>
      refine hon (fun hmem ↦ passes.quiet _ hmem) fun hcreated item hitem ↦ ?_
      have hpcitem := passes.erased item hitem
      refine hlacks (fun h ↦ hcreated (h.append fun hmem ↦ ?_)) item hpcitem
      obtain ⟨e, he, heq⟩ := List.mem_map.mp hmem
      obtain rfl : e = .called .wipe := (Prod.mk.inj heq).2
      rw [(passes.called _).mp he] at hpcitem
      cases hpcitem
    | deleteWrappedIdentity =>
      refine hon (by simp) fun _ item hitem ↦ ?_
      obtain rfl := List.mem_singleton.mp hitem
      exact Keystore.lacks_erase_self s.keystore .wrappedIdentity
    | deleteRetiredKeys =>
      refine hon (by simp) fun hcreated item hitem ↦ ?_
      rcases List.mem_cons.mp hitem with rfl | hitem
      · refine (hlacks (fun h ↦ hcreated (h.append (by simp))) _ List.mem_cons_self).erase _
      · obtain rfl := List.mem_singleton.mp hitem
        exact Keystore.lacks_erase_self s.keystore .retiredIdentities
    | deleteDeviceSecret =>
      refine hon (by simp) fun hcreated item hitem ↦ ?_
      exact (hlacks (fun h ↦ hcreated (h.append (by simp))) item hitem).erase _
    | wiped =>
      refine ⟨?_, fun _ ↦ rfl⟩
      intro hcreated item hitem
      have hreturned : (i, .returned .wipe) ∈ tag i [.returned .wipe] ++ t := List.mem_cons_self
      rw [erasedBy, if_pos hreturned] at hitem
      exact hlacks (fun h ↦ hcreated (h.append (by simp))) item hitem
    | unlocked wrapped secret identity retired _ rest events =>
      refine hon ?_ fun _ item hitem ↦ ?_
      · rcases events with rfl | rfl <;> simp
      · rw [rest.2] at hitem
        cases hitem
    | lock | initialised | storeDeviceSecret | saveIdentity | persisted | absent | saveRewrapped
    | saveRetired | saveActive | rotated => exact hon (by simp) (by rintro _ _ ⟨⟩)

/-- Where `unlock` and `rotate` save only over a stored identity, a wipe is irreversible. -/
theorem wipe_irreversible (C : IdentityCrypto) (s₀ : State C)
    {c : Config (Pc C) (State C) (Event C)}
    (hc : (program C).Reachable (SavesOverIdentity C) s₀ c) : WipesLast c := by
  intro j hret hcreated
  have hI := Program.invariant (keeps_erasing C) trivial hc
  obtain ⟨pc, hpc⟩ : ∃ pc, c.threads[j]? = some pc :=
    ⟨_, List.getElem?_eq_getElem (hI.actors _ hret)⟩
  have hlacks := (hI.thread j pc hpc).lacks hcreated
  rw [erasedBy, if_pos hret] at hlacks
  have hwrapped : c.shared.keystore.wrappedIdentity = none := hlacks .wrappedIdentity (by simp)
  have hretired : c.shared.keystore.retiredIdentities = none := hlacks .retiredIdentities (by simp)
  refine ⟨hwrapped, ?_, initReports_noIdentity hwrapped⟩
  rw [Keystore.retired, hretired]
  rfl

/-- `init`, a `setupNew` and an `unlock` up to its re-wrap; a `wipe`, and after it the `unlock`, which
finds the machine no longer unlocked. -/
def wipeDuringRewrap : List (Action (Request (.transparent true)) (Input (.transparent true))) :=
  .spawn .init :: List.replicate 3 (.run 0 (draw true "" "")) ++
    .spawn .setupNew :: List.replicate 7 (.run 1 (draw true "a" "s")) ++
    .spawn .unlock :: List.replicate 7 (.run 2 (draw true "" "")) ++
    .spawn .wipe :: List.replicate 6 (.run 3 (draw true "" "")) ++ [.run 2 (draw true "" "")]

theorem wipe_irreversible_sample :
    ∃ c, (program (.transparent true)).exec (SavesOverIdentity _)
      (Program.start ⟨Keystore.empty, .loading⟩) wipeDuringRewrap = some c ∧ WipesLast c ∧
        (3, .returned .wipe) ∈ c.trace ∧ (2, .returned .unlock) ∈ c.trace := by
  have hrun : ((program (.transparent true)).exec (SavesOverIdentity _)
      (Program.start ⟨Keystore.empty, .loading⟩) wipeDuringRewrap).map (fun c ↦
        (decide ((3, .returned .wipe) ∈ c.trace), decide ((2, .returned .unlock) ∈ c.trace))) =
      some (true, true) := by
    decide
  obtain ⟨c, hc, hmem⟩ := Option.map_eq_some_iff.mp hrun
  obtain ⟨hwipe, hunlock⟩ := Prod.mk.inj hmem
  exact ⟨c, hc, wipe_irreversible _ _ (Program.runs_of_exec hc), of_decide_eq_true hwipe,
    of_decide_eq_true hunlock⟩

/-- `init`, a `setupNew` and a `rotate` up to its writes; a `wipe`, and after it the writes. -/
def wipeDuringRotate : List (Action (Request (.transparent false)) (Input (.transparent false))) :=
  .spawn .init :: List.replicate 3 (.run 0 (draw false "" "")) ++
    .spawn .setupNew :: List.replicate 7 (.run 1 (draw false "a" "s")) ++
    .spawn .rotate :: List.replicate 8 (.run 2 (draw false "b" "")) ++
    .spawn .wipe :: List.replicate 6 (.run 3 (draw false "" "")) ++
    List.replicate 2 (.run 2 (draw false "" ""))

/-- A `rotate` in flight writes its keys after the wipe has resolved. -/
theorem rotate_undoes_wipe : ¬∀ (C : IdentityCrypto) (s₀ : State C)
    (c : Config (Pc C) (State C) (Event C)),
      (program C).Reachable .always s₀ c → WipesLast c := by
  intro h
  have hrun : ((program (.transparent false)).exec .always
      (Program.start ⟨Keystore.empty, .loading⟩) wipeDuringRotate).map (fun c ↦
        (decide ((3, .returned .wipe) ∈ c.trace), (since (3, .called .wipe) c.trace).map Prod.snd,
          c.shared.keystore.wrappedIdentity)) =
      some (true, [.savedIdentity .rotate "b" "s", .savedRetired "a" "s", .returned .wipe,
        .erased .deviceSecret, .erased .retiredIdentities, .erased .wrappedIdentity],
        some ("b", "s")) := rfl
  obtain ⟨c, hc, hv⟩ := Option.map_eq_some_iff.mp hrun
  obtain ⟨hwipe, hv⟩ := Prod.mk.inj hv
  obtain ⟨hsince, hwrapped⟩ := Prod.mk.inj hv
  obtain ⟨hnone, -⟩ := h _ _ c (Program.runs_of_exec hc) 3 (of_decide_eq_true hwipe) (by
    rintro ⟨i, identity, secret, hmem⟩
    have hmem := List.mem_map_of_mem (f := Prod.snd) hmem
    rw [hsince] at hmem
    rcases List.mem_cons.mp hmem with heq | hmem
    · cases heq
    · simp at hmem)
  rw [hwrapped] at hnone
  cases hnone

/-! ## Lock -/

/-- `lock` or `wipe` returns. -/
def Event.suspends : Event C → Bool
  | .returned .lock | .returned .wipe => true
  | _ => false

/-- An action that may set the machine to unlocked is started from its locked or empty state. -/
def Event.starts : Event C → Bool
  | .called .unlock | .called .setupNew | .called (.importIdentity _) => true
  | _ => false

/-- Thread `i` runs a `setupNew` or an `importIdentity`, or was called after `r`. -/
def NotBefore (r : Nat × Event C) (i : Nat) (t : Trace (Event C)) : Prop :=
  (∃ request, request.Creates ∧ (i, .called request) ∈ t) ∨
    ∃ request, (i, .called request) ∈ since r t

/-- Once `lock` or `wipe` has returned, and until a new `unlock`, `setupNew` or `importIdentity` is
called, no `unlock` or `rotate` called before sets the machine to unlocked, and it is not unlocked
unless something has set it so. -/
def LocksLast (s : State C) (t : Trace (Event C)) : Prop :=
  ∀ r ∈ t, r.2.suspends → (∀ e ∈ since r t, ¬e.2.starts) →
    (∀ i, (i, .unlocked) ∈ since r t → NotBefore r i t) ∧
      (s.machine.isUnlocked → ∃ i, (i, .unlocked) ∈ since r t)

/-- A thread has set the machine to unlocked, or has ended. -/
def Event.settles : Event C → Bool
  | .unlocked | .resolved _ | .returned _ | .rejected _ => true
  | _ => false

/-- Thread `k` was called to `unlock` or to `rotate` and has neither set the machine to unlocked nor
ended. -/
def InFlight (k : Nat) (t : Trace (Event C)) : Prop :=
  ((k, .called .unlock) ∈ t ∨ (k, .called .rotate) ∈ t) ∧ ∀ e ∈ t, e.1 = k → e.2.settles = false

/-- No `unlock` or `rotate` is in flight when `lock` or `wipe` returns. -/
def SuspendsAlone (C : IdentityCrypto) : Program.Guard (Input C) (Pc C) (State C) (Event C) :=
  fun _ _ pc _ t ↦
    match pc with
    | .start .lock | .wiped => ∀ e ∈ t, ¬InFlight e.1 t
    | _ => True

instance (k : Nat) (t : Trace (Event C)) : Decidable (InFlight k t) :=
  inferInstanceAs (Decidable (_ ∧ _))

instance (i : Nat) (x : Input C) (pc : Pc C) (s : State C) (t : Trace (Event C)) :
    Decidable (SuspendsAlone C i x pc s t) :=
  match pc with
  | .start .lock | .wiped => inferInstanceAs (Decidable (∀ e ∈ t, ¬InFlight e.1 t))
  | .start .init | .start .setupNew | .start (.importIdentity _) | .start .unlock | .start .wipe
  | .start .rotate | .hasStoredIdentity | .initialised _ | .generateIdentity | .createDeviceSecret _
  | .storeDeviceSecret .. | .wrapIdentity .. | .saveIdentity .. | .persisted .. | .loadWrappedIdentity
  | .absent | .unlockDeviceSecret _ | .readDeviceSecret _ | .unwrapIdentity .. | .loadRetiredKeys ..
  | .unwrapRetired .. | .rewrap .. | .saveRewrapped .. | .deleteWrappedIdentity | .deleteRetiredKeys
  | .deleteDeviceSecret | .wipeStorage | .rotateUnlock _ | .rotateSecret _ | .wrapOld ..
  | .fingerprintOld .. | .generateNew .. | .wrapNew .. | .loadPrior _ | .saveRetired .. | .saveActive _
  | .rotated _ | .done => isTrue trivial

/-- The `unlock` or the `rotate` that has yet to set the machine to unlocked. -/
def Pc.pending : Pc C → Option (Request C)
  | .start .unlock | .loadWrappedIdentity | .unlockDeviceSecret _ | .readDeviceSecret _ | .unwrapIdentity ..
  | .loadRetiredKeys .. | .unwrapRetired .. => some .unlock
  | .start .rotate | .rotateUnlock _ | .rotateSecret _ | .wrapOld .. | .fingerprintOld .. | .generateNew ..
  | .wrapNew .. | .loadPrior _ | .saveRetired .. | .saveActive _ | .rotated _ => some .rotate
  | _ => none

/-- Nothing has settled a pending `unlock` or `rotate`, and it has not started, or was called after every
return of `lock` and `wipe`. -/
def Fresh (i : Nat) (pc : Pc C) (t : Trace (Event C)) : Prop :=
  ∀ request, pc.pending = some request → (∀ e ∈ t, e.1 = i → e.2.settles = false) ∧
    (pc = .start request ∨ ((i, .called request) ∈ t ∧
      ∀ r ∈ t, r.2.suspends → (i, .called request) ∈ since r t))

/-- A thread that creates an identity was called to. -/
def CalledToCreate (i : Nat) (pc : Pc C) (t : Trace (Event C)) : Prop :=
  pc.Creates → (∃ request, pc = .start request) ∨
    ∃ request, request.Creates ∧ (i, .called request) ∈ t

theorem awaiting_pending {x : Input C} {pc' : Pc C} {k : Pc C × State C × List (Event C)}
    {request : Request C} (h : some (awaiting x s k) = some (pc', s', es))
    (hp : pc'.pending = some request) : k = (pc', s', es) := by
  unfold awaiting at h
  split at h
  · exact Option.some.inj h
  · cases h
    cases hp

theorem readSecret_pending {x : Input C} {pc' : Pc C} {k : String → Pc C} {request : Request C}
    (h : some (readSecret x s k) = some (pc', s', es)) (hp : pc'.pending = some request) :
    ∃ secret, (k secret, s, []) = (pc', s', es) := by
  have hk := awaiting_pending h hp
  split at hk
  · cases hk
    cases hp
  · split at hk
    · cases hk
      cases hp
    · exact ⟨_, hk⟩

theorem begin_pending {pc' : Pc C} {request request' : Request C}
    (h : begin_ s request' = (pc', s', es)) (hp : pc'.pending = some request) :
    request' = request ∧ es = [] ∧ (request = .unlock ∨ request = .rotate) := by
  cases request' with
  | init | wipe =>
    cases h
    cases hp
  | unlock =>
    cases h
    cases hp
    exact ⟨rfl, rfl, .inl rfl⟩
  | setupNew | importIdentity | lock =>
    simp only [begin_] at h
    split at h <;> cases h <;> cases hp
  | rotate =>
    simp only [begin_] at h
    split at h
    · cases h
      cases hp
      exact ⟨rfl, rfl, .inr rfl⟩
    · cases h
      cases hp

/-- A step to a pending `unlock` or `rotate` goes on with it and settles nothing. -/
theorem step_pending {x : Input C} {pc pc' : Pc C} {request : Request C}
    (h : step x pc s = some (pc', s', es)) (hp : pc'.pending = some request) :
    pc.pending = some request ∧ (∀ e ∈ es, e.settles = false) ∧
      (pc = .start request → .called request ∈ es) := by
  cases pc with
  | start request' =>
    obtain ⟨es', hb, rfl⟩ := step_start h
    obtain ⟨rfl, rfl, hrequest⟩ := begin_pending hb hp
    rcases hrequest with rfl | rfl <;> exact ⟨rfl, by simp [Event.settles], by simp⟩
  | unlockDeviceSecret | loadRetiredKeys | rotateUnlock | wrapOld | fingerprintOld | generateNew
  | wrapNew | loadPrior =>
    cases awaiting_pending h hp
    exact ⟨hp, by simp, by simp⟩
  | hasStoredIdentity | generateIdentity | createDeviceSecret | wrapIdentity | wipeStorage =>
    cases awaiting_pending h hp
    cases hp
  | loadWrappedIdentity | unwrapIdentity =>
    have hk := awaiting_pending h hp
    split at hk
    · cases hk
      cases hp
    · cases hk
      exact ⟨hp, by simp, by simp⟩
  | readDeviceSecret | rotateSecret =>
    obtain ⟨secret, hk⟩ := readSecret_pending h hp
    cases hk
    exact ⟨hp, by simp, by simp⟩
  | unwrapRetired wrapped secret identity entries retired =>
    cases entries with
    | cons entry entries =>
      cases h
      exact ⟨hp, by simp, by simp⟩
    | nil =>
      simp only [step] at h
      split at h <;> cases h <;> cases hp
  | rewrap =>
    simp only [step] at h
    split at h <;> cases h <;> cases hp
  | saveRetired | saveActive =>
    cases h
    exact ⟨hp, by simp [Event.settles], by simp⟩
  | initialised | storeDeviceSecret | saveIdentity | persisted | absent | saveRewrapped
  | deleteWrappedIdentity | deleteRetiredKeys | deleteDeviceSecret | wiped | rotated =>
    cases h
    cases hp
  | done => cases h

theorem pending_cases {pc : Pc C} {request : Request C} (h : pc.pending = some request) :
    request = .unlock ∨ request = .rotate := by
  cases pc with
  | start request' =>
    cases request' with
    | unlock => exact .inl (Option.some.inj h).symm
    | rotate => exact .inr (Option.some.inj h).symm
    | _ => cases h
  | loadWrappedIdentity | unlockDeviceSecret | readDeviceSecret | unwrapIdentity | loadRetiredKeys
  | unwrapRetired => exact .inl (Option.some.inj h).symm
  | rotateUnlock | rotateSecret | wrapOld | fingerprintOld | generateNew | wrapNew | loadPrior
  | saveRetired | saveActive | rotated => exact .inr (Option.some.inj h).symm
  | _ => cases h

theorem inFlight_of_pending {pc : Pc C} {request : Request C} (hp : pc.pending = some request)
    (hopen : ∀ e ∈ t, e.1 = i → e.2.settles = false) (hcalled : (i, .called request) ∈ t) :
    InFlight i t := by
  refine ⟨?_, hopen⟩
  rcases pending_cases hp with rfl | rfl
  · exact .inl hcalled
  · exact .inr hcalled

theorem Event.settles_of_suspends {e : Event C} (h : e.suspends) : e.settles := by
  cases e with
  | returned request => rfl
  | _ => cases h

theorem NotBefore.append {r : Nat × Event C} {k : Nat} (h : NotBefore r k t) (hr : r ∉ tag i es) :
    NotBefore r k (tag i es ++ t) := by
  rcases h with ⟨request, hcreates, hmem⟩ | ⟨request, hmem⟩
  · exact .inl ⟨request, hcreates, List.mem_append_right _ hmem⟩
  · refine .inr ⟨request, ?_⟩
    rw [since_append_of_not_mem hr]
    exact List.mem_append_right _ hmem

theorem CalledToCreate.own {pc pc' : Pc C} (hact : Act pc s pc' s' es) (h : CalledToCreate i pc t) :
    CalledToCreate i pc' (tag i es ++ t) := by
  intro hcreates
  have hgo : pc.Creates → (∀ request, pc ≠ .start request) →
      (∃ request, pc' = .start request) ∨
        ∃ request, request.Creates ∧ (i, .called request) ∈ tag i es ++ t := by
    intro hc hstart
    rcases h hc with ⟨request, hs⟩ | ⟨request, hrequest, hmem⟩
    · exact absurd hs (hstart request)
    · exact .inr ⟨request, hrequest, List.mem_append_right _ hmem⟩
  cases hact with
  | quiet passes =>
    by_cases hstart : ∃ request, pc = .start request
    · obtain ⟨request, rfl⟩ := hstart
      exact .inr ⟨request, passes.creates hcreates,
        List.mem_append_left _ (List.mem_map_of_mem ((passes.called request).mpr rfl))⟩
    · exact hgo (passes.creates hcreates) (not_exists.mp hstart)
  | storeDeviceSecret | saveIdentity => exact hgo trivial nofun
  | unlocked _ _ _ _ _ rest _ => exact absurd hcreates rest.1
  | lock | initialised | persisted | absent | saveRewrapped | deleteWrappedIdentity
  | deleteRetiredKeys | deleteDeviceSecret | wiped | saveRetired | saveActive | rotated =>
    cases hcreates

/-- A step sets the machine to unlocked only with an event that says so. -/
theorem unlocked_of_act {pc pc' : Pc C} (hact : Act pc s pc' s' es)
    (h : s'.machine.isUnlocked) : s.machine.isUnlocked ∨ .unlocked ∈ es := by
  cases hact with
  | lock locks =>
    rename_i m
    cases m with
    | unlocked k p r => exact absurd rfl (locks k p r)
    | _ => cases h
  | initialised exists_ => cases exists_ <;> cases h
  | absent | wiped => cases h
  | unlocked _ _ _ _ _ _ events => rcases events with rfl | rfl <;> simp
  | persisted | rotated => simp
  | quiet | storeDeviceSecret | saveIdentity | saveRewrapped | deleteWrappedIdentity
  | deleteRetiredKeys | deleteDeviceSecret | saveRetired | saveActive => exact .inl h

/-- A return of `lock` or `wipe` is the last event of its step, and leaves the machine not unlocked. -/
theorem suspends_of_act {pc pc' : Pc C} (hact : Act pc s pc' s' es) {e : Event C} (he : e ∈ es)
    (hsuspends : e.suspends) :
    (∃ rest, es = e :: rest) ∧ ¬s'.machine.isUnlocked ∧ (pc = .start .lock ∨ pc = .wiped) := by
  cases hact with
  | lock locks =>
    rename_i m
    rcases List.mem_cons.mp he with rfl | he
    · refine ⟨⟨_, rfl⟩, ?_, .inl rfl⟩
      cases m with
      | unlocked k p r => exact absurd rfl (locks k p r)
      | _ => nofun
    · obtain rfl := List.mem_singleton.mp he
      cases hsuspends
  | wiped =>
    obtain rfl := List.mem_singleton.mp he
    exact ⟨⟨_, rfl⟩, nofun, .inr rfl⟩
  | quiet passes =>
    have hquiet := passes.quiet e he
    cases e with
    | returned request => cases request <;> first | exact hquiet.elim | cases hsuspends
    | _ => cases hsuspends
  | unlocked _ _ _ _ _ _ events =>
    rcases events with rfl | rfl <;> simp at he
    · subst he
      cases hsuspends
    · rcases he with rfl | rfl <;> cases hsuspends
  | initialised | saveIdentity | absent | deleteWrappedIdentity | deleteRetiredKeys
  | deleteDeviceSecret | saveRetired | saveActive =>
    obtain rfl := List.mem_singleton.mp he
    cases hsuspends
  | persisted | saveRewrapped | rotated =>
    simp at he
    rcases he with rfl | rfl <;> cases hsuspends
  | storeDeviceSecret => cases he

/-- `lock` or `wipe` returns only where nothing is in flight. -/
theorem alone_of_act {pc pc' : Pc C} {x : Input C} (hact : Act pc s pc' s' es)
    (hok : SuspendsAlone C i x pc s t) {e : Event C} (he : e ∈ es) (hsuspends : e.suspends) :
    ∀ e ∈ t, ¬InFlight e.1 t := by
  obtain ⟨-, -, hpc⟩ := suspends_of_act hact he hsuspends
  rcases hpc with rfl | rfl <;> exact hok

/-- A step that sets the machine to unlocked is that of a creating thread, or of one that was called
after every return of `lock` and `wipe`. -/
theorem setter_of_act {pc pc' : Pc C} (hact : Act pc s pc' s' es) (hfresh : Fresh i pc t)
    (h : .unlocked ∈ es) : (pc.Creates ∧ ∀ request, pc ≠ .start request) ∨
      ∃ request, ∀ r ∈ t, r.2.suspends → (i, .called request) ∈ since r t := by
  cases hact with
  | persisted => exact .inl ⟨trivial, nofun⟩
  | unlocked | rotated =>
    obtain ⟨-, hstart | ⟨-, hlate⟩⟩ := hfresh _ rfl
    · cases hstart
    · exact .inr ⟨_, hlate⟩
  | quiet passes => exact (passes.quiet _ h).elim
  | lock | initialised | storeDeviceSecret | saveIdentity | absent | saveRewrapped
  | deleteWrappedIdentity | deleteRetiredKeys | deleteDeviceSecret | wiped | saveRetired
  | saveActive => simp at h

theorem Fresh.others {x : Input C} {pc pc' q : Pc C} (hij : i ≠ j) (hok : SuspendsAlone C i x pc s t)
    (hact : Act pc s pc' s' es) (h : Fresh j q t) : Fresh j q (tag i es ++ t) := by
  intro request hp
  obtain ⟨hopen, hcase⟩ := h request hp
  constructor
  · intro e he hj
    rcases List.mem_append.mp he with he | he
    · exact absurd ((fst_of_mem_tag he).symm.trans hj) hij
    · exact hopen e he hj
  · rcases hcase with hstart | ⟨hcalled, hlate⟩
    · exact .inl hstart
    · refine .inr ⟨List.mem_append_right _ hcalled, fun r hr hsuspends ↦ ?_⟩
      by_cases hnew : r ∈ tag i es
      · obtain ⟨e, he, rfl⟩ := List.mem_map.mp hnew
        exact absurd (inFlight_of_pending hp hopen hcalled) (alone_of_act hact hok he hsuspends _ hcalled)
      · rw [since_append_of_not_mem hnew]
        exact List.mem_append_right _ (hlate r ((List.mem_append.mp hr).resolve_left hnew) hsuspends)

theorem Fresh.own {x : Input C} {pc pc' : Pc C} (hstep : step x pc s = some (pc', s', es))
    (h : Fresh i pc t) : Fresh i pc' (tag i es ++ t) := by
  intro request hp
  obtain ⟨hpc, hquiet, hfirst⟩ := step_pending hstep hp
  obtain ⟨hopen, hcase⟩ := h request hpc
  have hsettles : ∀ e ∈ tag i es, e.2.settles = false := by
    intro r hr
    obtain ⟨e, he, rfl⟩ := List.mem_map.mp hr
    exact hquiet e he
  constructor
  · intro e he hi
    rcases List.mem_append.mp he with he | he
    · exact hsettles e he
    · exact hopen e he hi
  · refine .inr ?_
    have hold : ∀ r ∈ tag i es ++ t, r.2.suspends → r ∉ tag i es := by
      intro r _ hsuspends hnew
      have hr := Event.settles_of_suspends hsuspends
      rw [hsettles r hnew] at hr
      cases hr
    rcases hcase with rfl | ⟨hcalled, hlate⟩
    · have hnow : (i, .called request) ∈ tag i es := List.mem_map_of_mem (hfirst rfl)
      refine ⟨List.mem_append_left _ hnow, fun r hr hsuspends ↦ ?_⟩
      rw [since_append_of_not_mem (hold r hr hsuspends)]
      exact List.mem_append_left _ hnow
    · refine ⟨List.mem_append_right _ hcalled, fun r hr hsuspends ↦ ?_⟩
      have hnew := hold r hr hsuspends
      rw [since_append_of_not_mem hnew]
      exact List.mem_append_right _ (hlate r ((List.mem_append.mp hr).resolve_left hnew) hsuspends)

theorem keeps_locksLast (C : IdentityCrypto) : Program.Keeps (program C) (SuspendsAlone C) LocksLast
    fun i pc _ t ↦ CalledToCreate i pc t ∧ Fresh i pc t where
  born _ request _ _ _ hnew := by
    refine ⟨fun _ ↦ .inl ⟨request, rfl⟩, fun request' hp ↦ ⟨fun e he hi ↦ absurd hi (hnew e he), ?_⟩⟩
    refine .inl (congrArg Pc.start ?_)
    change (Pc.start request).pending = some request' at hp
    cases request with
    | unlock | rotate => exact Option.some.inj hp
    | _ => cases hp
  others := by
    intro i x pc s t pc' s' es j q hij hok _ _ hstep hq
    refine ⟨?_, hq.2.others hij hok (step_act hstep)⟩
    intro hcreates
    rcases hq.1 hcreates with hstart | ⟨request, hrequest, hmem⟩
    · exact .inl hstart
    · exact .inr ⟨request, hrequest, List.mem_append_right _ hmem⟩
  own := by
    intro i x pc s t pc' s' es hok hI hpc hstep
    have hact := step_act hstep
    refine ⟨?_, hpc.1.own hact, hpc.2.own hstep⟩
    intro r hr hsuspends hstarts
    by_cases hnew : r ∈ tag i es
    · obtain ⟨e, he, rfl⟩ := List.mem_map.mp hnew
      obtain ⟨⟨rest, rfl⟩, hlocked, -⟩ := suspends_of_act hact he hsuspends
      rw [tag_cons, List.cons_append, since_cons_self]
      exact ⟨by rintro _ ⟨⟩, fun h ↦ absurd h hlocked⟩
    · have hold : r ∈ t := (List.mem_append.mp hr).resolve_left hnew
      rw [since_append_of_not_mem hnew] at hstarts ⊢
      obtain ⟨hsetters, hunlocked⟩ := hI r hold hsuspends fun e he ↦
        hstarts e (List.mem_append_right _ he)
      constructor
      · intro k hk
        rcases List.mem_append.mp hk with hk | hk
        · obtain ⟨e, he, heq⟩ := List.mem_map.mp hk
          obtain ⟨rfl, rfl⟩ := Prod.mk.inj heq
          rcases setter_of_act hact hpc.2 he with ⟨hcreates, hstart⟩ | ⟨request, hlate⟩
          · rcases hpc.1 hcreates with ⟨request, hs⟩ | ⟨request, hrequest, hmem⟩
            · exact absurd hs (hstart request)
            · exact .inl ⟨request, hrequest, List.mem_append_right _ hmem⟩
          · exact NotBefore.append (.inr ⟨request, hlate r hold hsuspends⟩) hnew
        · exact (hsetters k hk).append hnew
      · intro h
        rcases unlocked_of_act hact h with h | h
        · obtain ⟨k, hk⟩ := hunlocked h
          exact ⟨k, List.mem_append_right _ hk⟩
        · exact ⟨i, List.mem_append_left _ (List.mem_map_of_mem h)⟩

/-- Where no `unlock` or `rotate` is in flight when `lock` or `wipe` returns, they take effect. -/
theorem lock_effective (C : IdentityCrypto) (s₀ : State C) {c : Config (Pc C) (State C) (Event C)}
    (hc : (program C).Reachable (SuspendsAlone C) s₀ c) : LocksLast c.shared c.trace :=
  (Program.invariant (keeps_locksLast C) (by rintro _ ⟨⟩) hc).shared

/-- `init`, a `setupNew` and a `lock`; an `unlock` during which `lock` is called `again`, or is not. -/
def lockThenUnlock (again : Bool) :
    List (Action (Request (.transparent false)) (Input (.transparent false))) :=
  .spawn .init :: List.replicate 3 (.run 0 (draw false "" "")) ++
    .spawn .setupNew :: List.replicate 7 (.run 1 (draw false "a" "s")) ++
    [.spawn .lock, .run 2 (draw false "" ""), .spawn .unlock] ++
    List.replicate 6 (.run 3 (draw false "" "")) ++
    (if again then [.spawn .lock, .run 4 (draw false "" "")] else []) ++ [.run 3 (draw false "" "")]

theorem lock_effective_sample :
    ∃ c, (program (.transparent false)).exec (SuspendsAlone _)
      (Program.start ⟨Keystore.empty, .loading⟩) (lockThenUnlock false) = some c ∧
        LocksLast c.shared c.trace ∧ (3, .unlocked) ∈ c.trace := by
  have hrun : ((program (.transparent false)).exec (SuspendsAlone _)
      (Program.start ⟨Keystore.empty, .loading⟩) (lockThenUnlock false)).map (fun c ↦
        decide ((3, .unlocked) ∈ c.trace)) = some true := by
    decide
  obtain ⟨c, hc, hmem⟩ := Option.map_eq_some_iff.mp hrun
  exact ⟨c, hc, lock_effective _ _ (Program.runs_of_exec hc), of_decide_eq_true hmem⟩

/-- A `lock` while an `unlock` is in flight returns, and the `unlock` unlocks the machine after it. -/
theorem unlock_undoes_lock : ¬∀ (C : IdentityCrypto) (s₀ : State C)
    (c : Config (Pc C) (State C) (Event C)),
      (program C).Reachable .always s₀ c → LocksLast c.shared c.trace := by
  intro h
  have hrun : ((program (.transparent false)).exec .always
      (Program.start ⟨Keystore.empty, .loading⟩) (lockThenUnlock true)).map (fun c ↦
        (decide ((4, .returned .lock) ∈ c.trace), since (4, .returned .lock) c.trace,
          c.trace.filter fun e ↦ e.1 = 3)) =
      some (true, [(3, .returned .unlock), (3, .unlocked)],
        [(3, .returned .unlock), (3, .unlocked), (3, .called .unlock)]) := rfl
  obtain ⟨c, hc, hv⟩ := Option.map_eq_some_iff.mp hrun
  obtain ⟨hlock, hv⟩ := Prod.mk.inj hv
  obtain ⟨hsince, hmine⟩ := Prod.mk.inj hv
  obtain ⟨hlate, -⟩ := h _ _ c (Program.runs_of_exec hc) (4, .returned .lock)
    (of_decide_eq_true hlock) rfl (by
      rw [hsince]
      decide)
  rcases hlate 3 (by simp [hsince]) with ⟨request, hcreates, hmem⟩ | ⟨request, hmem⟩
  · have hmem : (3, Event.called request) ∈ c.trace.filter fun e ↦ e.1 = 3 :=
      List.mem_filter.mpr ⟨hmem, rfl⟩
    rw [hmine] at hmem
    simp at hmem
    subst hmem
    exact hcreates
  · rw [hsince] at hmem
    simp at hmem

end Aesmsg.Identity.Mobile
