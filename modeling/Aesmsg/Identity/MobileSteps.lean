import Aesmsg.Identity.Mobile

/-!
# What one step of the mobile machine can do

`step_act` is the inversion of a step: it lists the steps that change the keystore or the state of
the machine, and says of all others that they are quiet.

## Main results

- `step_act`: the inversion.
- `step_sound`: the envelopes that a thread holds are those of the keys it holds.
-/

namespace Aesmsg.Identity.Mobile

open Threads

variable {C : IdentityCrypto}

/-- An event that tells of no change to the keystore or the machine. -/
def Event.Quiet : Event C → Prop
  | .called _ | .rejected _ | .returned .init | .returned .unlock => True
  | _ => False

def Request.Creates : Request C → Prop
  | .setupNew | .importIdentity _ => True
  | _ => False

/-- The thread runs `setupNew` or `importIdentity`. -/
def Pc.Creates : Pc C → Prop
  | .start request => request.Creates
  | .generateIdentity | .createDeviceSecret _ | .storeDeviceSecret .. | .wrapIdentity ..
  | .saveIdentity .. | .persisted .. => True
  | _ => False

/-- What a wipe has erased. -/
def Pc.erased : Pc C → List Item
  | .deleteRetiredKeys => [.wrappedIdentity]
  | .deleteDeviceSecret | .wipeStorage | .wiped => [.wrappedIdentity, .retiredIdentities]
  | _ => []

/-- A step that leaves the keystore and the machine as they are. -/
structure Passes (pc pc' : Pc C) (es : List (Event C)) : Prop where
  quiet : ∀ e ∈ es, e.Quiet
  creates : pc'.Creates → pc.Creates
  erased : ∀ item ∈ pc'.erased, item ∈ pc.erased
  called : ∀ request, .called request ∈ es ↔ pc = .start request

/-- What a step can do. -/
inductive Act : Pc C → State C → Pc C → State C → List (Event C) → Prop
  | quiet {pc pc' : Pc C} {s : State C} {es : List (Event C)} (passes : Passes pc pc' es) :
    Act pc s pc' s es
  | lock {s : State C} {m : IdentityState C} (locks : ∀ k p r, m ≠ .unlocked k p r) :
    Act (.start .lock) s .done { s with machine := m } [.returned .lock, .called .lock]
  | initialised (exists_ : Bool) (s : State C) :
    Act (.initialised exists_) s .done { s with machine := initialState exists_ } [.returned .init]
  | storeDeviceSecret (identity : C.IdentityKeypair) (secret : String) (s : State C) :
    Act (.storeDeviceSecret identity secret) s (.wrapIdentity identity secret)
      { s with keystore := s.keystore.saveSecret secret } []
  | saveIdentity (identity : C.IdentityKeypair) (secret : String) (wrapped : C.WrappedKey)
    (s : State C) :
    Act (.saveIdentity identity secret wrapped) s (.persisted identity secret)
      { s with keystore := s.keystore.saveIdentity wrapped }
      [.savedIdentity .persistAndUnlock identity secret]
  | persisted (identity : C.IdentityKeypair) (secret : String) (s : State C) :
    Act (.persisted identity secret) s .done (s.unlock identity []) [.resolved identity, .unlocked]
  | absent (s : State C) :
    Act .absent s .done { s with machine := .noIdentity } [.returned .unlock]
  | unlocked {pc' : Pc C} {es : List (Event C)} (wrapped : C.WrappedKey) (secret : String)
    (identity : C.IdentityKeypair) (retired : List C.IdentityKeypair) (s : State C)
    (rest : ¬pc'.Creates ∧ pc'.erased = [])
    (events : es = [.unlocked] ∨ es = [.returned .unlock, .unlocked]) :
    Act (.unwrapRetired wrapped secret identity [] retired) s pc' (s.unlock identity retired) es
  | saveRewrapped (identity : C.IdentityKeypair) (secret : String) (rewrapped : C.WrappedKey)
    (s : State C) :
    Act (.saveRewrapped identity secret rewrapped) s .done
      { s with keystore := s.keystore.saveIdentity rewrapped }
      [.returned .unlock, .savedIdentity .unlock identity secret]
  | deleteWrappedIdentity (s : State C) :
    Act .deleteWrappedIdentity s .deleteRetiredKeys
      { s with keystore := s.keystore.erase .wrappedIdentity } [.erased .wrappedIdentity]
  | deleteRetiredKeys (s : State C) :
    Act .deleteRetiredKeys s .deleteDeviceSecret
      { s with keystore := s.keystore.erase .retiredIdentities } [.erased .retiredIdentities]
  | deleteDeviceSecret (s : State C) :
    Act .deleteDeviceSecret s .wipeStorage
      { s with keystore := s.keystore.erase .deviceSecret } [.erased .deviceSecret]
  | wiped (s : State C) :
    Act .wiped s .done { s with machine := .noIdentity } [.returned .wipe]
  | saveRetired (r : Rotation C) (newRetired : List (RetiredKeyEntry C.WrappedKey)) (s : State C) :
    Act (.saveRetired r newRetired) s (.saveActive r)
      { s with keystore := s.keystore.saveRetired newRetired }
      [.savedRetired r.oldActive r.deviceSecret]
  | saveActive (r : Rotation C) (s : State C) :
    Act (.saveActive r) s (.rotated r)
      { s with keystore := s.keystore.saveIdentity r.newWrapped }
      [.savedIdentity .rotate r.newIdentity r.deviceSecret]
  | rotated (r : Rotation C) (s : State C) :
    Act (.rotated r) s .done (s.unlock r.newIdentity (r.oldActive :: r.priorRetiredKeypairs))
      [.resolved r.newIdentity, .unlocked]

/-- A step to a point that neither creates nor erases, with no event but a quiet one that is no
call. -/
theorem Passes.of_silent {pc pc' : Pc C} {es : List (Event C)} (quiet : ∀ e ∈ es, e.Quiet)
    (called : ∀ request, .called request ∉ es) (creates : pc'.Creates → pc.Creates)
    (erased : pc'.erased = [] ∨ pc'.erased = pc.erased)
    (start : ∀ request, pc ≠ .start request := by nofun) : Passes pc pc' es where
  quiet := quiet
  creates := creates
  erased := by
    rcases erased with h | h
    · rw [h]
      rintro _ ⟨⟩
    · rw [h]
      exact fun _ ↦ id
  called request := iff_of_false (called request) (start request)

theorem Passes.on {pc pc' : Pc C} (creates : pc'.Creates → pc.Creates)
    (erased : pc'.erased = [] ∨ pc'.erased = pc.erased)
    (start : ∀ request, pc ≠ .start request := by nofun) : Passes pc pc' [] :=
  .of_silent (by rintro _ ⟨⟩) (by rintro _ ⟨⟩) creates erased start

theorem Passes.rejected {pc : Pc C} (error : String)
    (start : ∀ request, pc ≠ .start request := by nofun) : Passes pc .done [.rejected error] :=
  .of_silent (by simp [Event.Quiet]) (by simp) nofun (.inl rfl) start

theorem Passes.returned {pc : Pc C} (start : ∀ request, pc ≠ .start request := by nofun) :
    Passes pc .done [.returned .unlock] :=
  .of_silent (by simp [Event.Quiet]) (by simp) nofun (.inl rfl) start

/-- After an awaited call a thread goes on, or is done. -/
theorem awaiting_act {x : Input C} {pc pc' : Pc C} {s s' : State C} {k : Pc C × State C × List (Event C)}
    {es : List (Event C)} (h : some (awaiting x s k) = some (pc', s', es))
    (hk : Act pc s k.1 k.2.1 k.2.2) (start : ∀ request, pc ≠ .start request := by nofun) :
    Act pc s pc' s' es := by
  unfold awaiting at h
  split at h
  · cases h
    exact hk
  · cases h
    exact .quiet (.rejected _ start)

theorem readSecret_act {x : Input C} {pc pc' : Pc C} {s s' : State C} {k : String → Pc C}
    {es : List (Event C)} (h : some (readSecret x s k) = some (pc', s', es))
    (hk : ∀ secret, ¬(k secret).Creates ∧ (k secret).erased = [])
    (start : ∀ request, pc ≠ .start request := by nofun) : Act pc s pc' s' es := by
  refine awaiting_act h ?_ start
  split
  · exact .quiet (.rejected _ start)
  · split
    · exact .quiet (.rejected _ start)
    · exact .quiet (.on (fun hc ↦ absurd hc (hk _).1) (.inl (hk _).2) start)

theorem begin_act {pc' : Pc C} {s s' : State C} {request : Request C} {es : List (Event C)}
    (h : begin_ s request = (pc', s', es)) :
    Act (.start request) s pc' s' (es ++ [.called request]) := by
  have hon : ∀ {pc' : Pc C} {es : List (Event C)}, (pc'.Creates → request.Creates) →
      pc'.erased = [] → (es = [] ∨ ∃ error, es = [.rejected error]) →
      Act (.start request) s pc' s (es ++ [.called request]) := by
    intro pc' es hcreates herased hes
    refine .quiet ⟨?_, hcreates, ?_, ?_⟩
    · rcases hes with rfl | ⟨error, rfl⟩ <;> simp [Event.Quiet]
    · rw [herased]
      rintro _ ⟨⟩
    · rcases hes with rfl | ⟨error, rfl⟩ <;> simp [eq_comm]
  cases request with
  | init | unlock | wipe =>
    cases h
    exact hon nofun rfl (.inl rfl)
  | setupNew | importIdentity identity =>
    simp only [begin_] at h
    split at h
    · cases h
      exact hon (fun _ ↦ trivial) rfl (.inl rfl)
    · cases h
      exact hon nofun rfl (.inr ⟨_, rfl⟩)
  | lock =>
    simp only [begin_] at h
    split at h
    · cases h
      exact .lock nofun
    · rename_i hm
      cases h
      exact .lock (s := s) (m := s.machine) hm
  | rotate =>
    simp only [begin_] at h
    split at h
    · cases h
      exact hon nofun rfl (.inl rfl)
    · cases h
      exact hon nofun rfl (.inr ⟨_, rfl⟩)

/-- The first step of an operation. -/
theorem step_start {x : Input C} {pc' : Pc C} {s s' : State C} {request : Request C} {es : List (Event C)}
    (h : step x (.start request) s = some (pc', s', es)) :
    ∃ es', begin_ s request = (pc', s', es') ∧ es = es' ++ [.called request] := by
  cases h
  exact ⟨_, rfl, rfl⟩

/-- The inversion of a step. -/
theorem step_act {x : Input C} {pc pc' : Pc C} {s s' : State C} {es : List (Event C)}
    (h : step x pc s = some (pc', s', es)) : Act pc s pc' s' es := by
  cases pc with
  | start request =>
    obtain ⟨es', hb, rfl⟩ := step_start h
    exact begin_act hb
  | hasStoredIdentity => exact awaiting_act h (.quiet (.on nofun (.inl rfl)))
  | generateIdentity => exact awaiting_act h (.quiet (.on (fun _ ↦ trivial) (.inl rfl)))
  | createDeviceSecret => exact awaiting_act h (.quiet (.on (fun _ ↦ trivial) (.inl rfl)))
  | wrapIdentity => exact awaiting_act h (.quiet (.on (fun _ ↦ trivial) (.inl rfl)))
  | loadWrappedIdentity =>
    refine awaiting_act h ?_
    split <;> exact .quiet (.on nofun (.inl rfl))
  | unlockDeviceSecret => exact awaiting_act h (.quiet (.on nofun (.inl rfl)))
  | readDeviceSecret => exact readSecret_act h fun _ ↦ ⟨nofun, rfl⟩
  | unwrapIdentity wrapped secret =>
    refine awaiting_act h ?_
    split
    · exact .quiet (.rejected _)
    · exact .quiet (.on nofun (.inl rfl))
  | loadRetiredKeys => exact awaiting_act h (.quiet (.on nofun (.inl rfl)))
  | unwrapRetired wrapped secret identity entries retired =>
    cases entries with
    | cons entry entries =>
      cases h
      exact .quiet (.on nofun (.inl rfl))
    | nil =>
      simp only [step] at h
      split at h
      · cases h
        exact .unlocked _ _ _ _ _ ⟨nofun, rfl⟩ (.inl rfl)
      · cases h
        exact .unlocked _ _ _ _ _ ⟨nofun, rfl⟩ (.inr rfl)
  | rewrap identity secret =>
    simp only [step] at h
    split at h
    · cases h
      exact .quiet (.on nofun (.inl rfl))
    · cases h
      exact .quiet .returned
  | wipeStorage => exact awaiting_act h (.quiet (.on nofun (.inr rfl)))
  | rotateUnlock => exact awaiting_act h (.quiet (.on nofun (.inl rfl)))
  | rotateSecret => exact readSecret_act h fun _ ↦ ⟨nofun, rfl⟩
  | wrapOld => exact awaiting_act h (.quiet (.on nofun (.inl rfl)))
  | fingerprintOld => exact awaiting_act h (.quiet (.on nofun (.inl rfl)))
  | generateNew => exact awaiting_act h (.quiet (.on nofun (.inl rfl)))
  | wrapNew => exact awaiting_act h (.quiet (.on nofun (.inl rfl)))
  | loadPrior => exact awaiting_act h (.quiet (.on nofun (.inl rfl)))
  | initialised =>
    cases h
    exact .initialised _ _
  | storeDeviceSecret =>
    cases h
    exact .storeDeviceSecret _ _ _
  | saveIdentity =>
    cases h
    exact .saveIdentity _ _ _ _
  | persisted =>
    cases h
    exact .persisted _ _ _
  | absent =>
    cases h
    exact .absent _
  | saveRewrapped =>
    cases h
    exact .saveRewrapped _ _ _ _
  | deleteWrappedIdentity =>
    cases h
    exact .deleteWrappedIdentity _
  | deleteRetiredKeys =>
    cases h
    exact .deleteRetiredKeys _
  | deleteDeviceSecret =>
    cases h
    exact .deleteDeviceSecret _
  | wiped =>
    cases h
    exact .wiped _
  | saveRetired =>
    cases h
    exact .saveRetired _ _ _
  | saveActive =>
    cases h
    exact .saveActive _ _
  | rotated =>
    cases h
    exact .rotated _ _
  | done => cases h

/-! ## What threads hold -/

/-- The public key of the unlocked state is that of its keypair. -/
def IdentityState.Sound : IdentityState C → Prop
  | .unlocked identity publicKeyString _ => publicKeyString = C.exportPublicKey identity
  | _ => True

/-- The captured public key is that of the captured keypair. -/
def Captured.Sound (r : Captured C) : Prop := r.oldActivePk = C.exportPublicKey r.oldActive

/-- The envelopes of a rotation are those of its keypairs. -/
structure Rotation.Sound (r : Rotation C) : Prop where
  publicKey : r.retiredEntry.publicKeyString = C.exportPublicKey r.oldActive
  retired : C.unwrapPrivateKey r.retiredEntry.wrapped r.deviceSecret = some r.oldActive
  active : C.unwrapPrivateKey r.newWrapped r.deviceSecret = some r.newIdentity

/-- The envelopes that a thread holds are those of the keypairs it holds. -/
def Pc.Sound : Pc C → Prop
  | .saveIdentity identity secret wrapped | .saveRewrapped identity secret wrapped =>
    C.unwrapPrivateKey wrapped secret = some identity
  | .rotateUnlock r | .rotateSecret r | .wrapOld r _ => r.Sound
  | .fingerprintOld r secret oldWrapped | .generateNew r secret oldWrapped _
  | .wrapNew r secret oldWrapped _ _ =>
    r.Sound ∧ C.unwrapPrivateKey oldWrapped secret = some r.oldActive
  | .loadPrior r | .saveActive r | .rotated r => r.Sound
  | .saveRetired r newRetired =>
    r.Sound ∧ ∃ existing, newRetired = prependRetired existing r.retiredEntry
  | _ => True

theorem awaiting_sound {x : Input C} {pc' : Pc C} {s s' : State C} {k : Pc C × State C × List (Event C)}
    {es : List (Event C)} (h : some (awaiting x s k) = some (pc', s', es)) (hm : s.machine.Sound)
    (hk : k.1.Sound ∧ k.2.1.machine.Sound) : pc'.Sound ∧ s'.machine.Sound := by
  unfold awaiting at h
  split at h
  · cases h
    exact hk
  · cases h
    exact ⟨trivial, hm⟩

theorem readSecret_sound {x : Input C} {pc' : Pc C} {s s' : State C} {k : String → Pc C}
    {es : List (Event C)} (h : some (readSecret x s k) = some (pc', s', es)) (hm : s.machine.Sound)
    (hk : ∀ secret, (k secret).Sound) : pc'.Sound ∧ s'.machine.Sound := by
  refine awaiting_sound h hm ?_
  split
  · exact ⟨trivial, hm⟩
  · split
    · exact ⟨trivial, hm⟩
    · exact ⟨hk _, hm⟩

theorem begin_sound {pc' : Pc C} {s s' : State C} {request : Request C} {es : List (Event C)}
    (h : begin_ s request = (pc', s', es)) (hm : s.machine.Sound) :
    pc'.Sound ∧ s'.machine.Sound := by
  cases request with
  | init | unlock | wipe =>
    cases h
    exact ⟨trivial, hm⟩
  | setupNew | importIdentity =>
    simp only [begin_] at h
    split at h <;> cases h <;> exact ⟨trivial, hm⟩
  | lock =>
    simp only [begin_] at h
    split at h <;> cases h
    · exact ⟨trivial, trivial⟩
    · exact ⟨trivial, hm⟩
  | rotate =>
    simp only [begin_] at h
    split at h
    · rename_i hunlocked
      cases h
      rw [hunlocked] at hm
      exact ⟨hm, hunlocked ▸ hm⟩
    · cases h
      exact ⟨trivial, hm⟩

theorem step_sound (hC : C.Lawful) {x : Input C} {pc pc' : Pc C} {s s' : State C}
    {es : List (Event C)} (h : step x pc s = some (pc', s', es)) (hpc : pc.Sound)
    (hm : s.machine.Sound) : pc'.Sound ∧ s'.machine.Sound := by
  cases pc with
  | start request =>
    obtain ⟨es', hb, rfl⟩ := step_start h
    exact begin_sound hb hm
  | hasStoredIdentity | generateIdentity | createDeviceSecret | unlockDeviceSecret | loadRetiredKeys
  | wipeStorage => exact awaiting_sound h hm ⟨trivial, hm⟩
  | loadWrappedIdentity | unwrapIdentity =>
    refine awaiting_sound h hm ?_
    split <;> exact ⟨trivial, hm⟩
  | wrapIdentity identity secret => exact awaiting_sound h hm ⟨hC.unwrap_wrap _ _ _, hm⟩
  | readDeviceSecret => exact readSecret_sound h hm fun _ ↦ trivial
  | rotateSecret => exact readSecret_sound h hm fun _ ↦ hpc
  | rotateUnlock => exact awaiting_sound h hm ⟨hpc, hm⟩
  | wrapOld r secret => exact awaiting_sound h hm ⟨⟨hpc, hC.unwrap_wrap _ _ _⟩, hm⟩
  | fingerprintOld => exact awaiting_sound h hm ⟨hpc, hm⟩
  | generateNew => exact awaiting_sound h hm ⟨hpc, hm⟩
  | wrapNew r secret oldWrapped oldFingerprint newIdentity =>
    obtain ⟨hr, hold⟩ := hpc
    exact awaiting_sound h hm ⟨⟨hr, hold, hC.unwrap_wrap _ _ _⟩, hm⟩
  | loadPrior r => exact awaiting_sound h hm ⟨⟨hpc, _, rfl⟩, hm⟩
  | unwrapRetired wrapped secret identity entries retired =>
    cases entries with
    | cons entry entries =>
      cases h
      exact ⟨trivial, hm⟩
    | nil =>
      simp only [step] at h
      split at h <;> cases h <;> exact ⟨trivial, rfl⟩
  | rewrap identity secret =>
    simp only [step] at h
    split at h
    · cases h
      exact ⟨hC.unwrap_wrap _ _ _, hm⟩
    · cases h
      exact ⟨trivial, hm⟩
  | initialised exists_ =>
    cases h
    cases exists_ <;> exact ⟨trivial, trivial⟩
  | saveRetired r newRetired =>
    cases h
    exact ⟨hpc.1, hm⟩
  | saveActive =>
    cases h
    exact ⟨hpc, hm⟩
  | storeDeviceSecret | saveIdentity | saveRewrapped | deleteWrappedIdentity | deleteRetiredKeys
  | deleteDeviceSecret =>
    cases h
    exact ⟨trivial, hm⟩
  | persisted | rotated =>
    cases h
    exact ⟨trivial, rfl⟩
  | absent | wiped =>
    cases h
    exact ⟨trivial, trivial⟩
  | done => cases h

end Aesmsg.Identity.Mobile
