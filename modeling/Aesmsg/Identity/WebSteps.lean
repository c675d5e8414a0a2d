import Aesmsg.Identity.Web

/-!
# What one step of the web provider can do

`step_act` is the inversion of a step: it lists the steps that change the database or the memory of the
tab, and says of all others from where they go on, or how they end.
-/

namespace Aesmsg.Identity.Web

open Threads

variable {C : IdentityCrypto}

/-- Where an operation awaits after its first step, when that has changed nothing. -/
inductive Begins (x : Input C) (m : Tab C) (db : Db C) : Operation C → Pc C → Prop
  | mount : Begins x m db .mount (.mounted (!x.readFails && db.identity.isSome))
  | setupNew (passphrase : String) :
    Begins x m db (.setupNew passphrase) (.generateIdentity passphrase)
  | unlock (passphrase : String) :
    Begins x m db (.unlock passphrase) (.unlockLoaded m.epochRef passphrase db.identity)
  | rotate (passphrase : String) (oldActive : C.IdentityKeypair)
    (active : m.identityRef = some oldActive) :
    Begins x m db (.rotate passphrase) (.rotateLoaded m.epochRef passphrase oldActive db.identity)

/-- The steps that change nothing and after which the thread goes on; the background loop may be at its
end. -/
inductive Passes (x : Input C) (m : Tab C) (db : Db C) : Pc C → Pc C → Prop
  | generateIdentity (passphrase : String) :
    Passes x m db (.generateIdentity passphrase) (.wrapIdentity passphrase x.generated)
  | unlockLoaded (epoch : Nat) (passphrase : String) (record : StoredIdentity C) :
    Passes x m db (.unlockLoaded epoch passphrase (some record))
      (.unwrapActive epoch passphrase record)
  | backgroundLoaded (epoch : Nat) (passphrase activePk : String)
    (entries : List (RetiredKeyEntry C.WrappedKey)) :
    Passes x m db (.backgroundLoaded epoch passphrase activePk entries)
      (backgroundFrom m epoch passphrase (retiredExcludingActive entries activePk))
  | skip (epoch : Nat) (passphrase : String) (entry : RetiredKeyEntry C.WrappedKey)
    (entries : List (RetiredKeyEntry C.WrappedKey))
    (fails : C.unwrapPrivateKey entry.wrapped passphrase = none) :
    Passes x m db (.background epoch passphrase entry entries)
      (backgroundFrom m epoch passphrase entries)
  | rotateLoaded (epoch : Nat) (passphrase : String) (oldActive : C.IdentityKeypair)
    (stored : StoredIdentity C) (current : epoch = m.epochRef) :
    Passes x m db (.rotateLoaded epoch passphrase oldActive (some stored))
      (.reverify ⟨epoch, passphrase, oldActive, stored⟩)
  | reverify (r : Rotation C) (id : C.IdentityKeypair)
    (unwraps : C.unwrapPrivateKey r.stored.wrapped r.passphrase = some id) :
    Passes x m db (.reverify r) (.fingerprintOld r)
  | fingerprintOld (r : Rotation C) :
    Passes x m db (.fingerprintOld r) (.generateNew r ⟨r.stored.wrapped, r.stored.publicKeyString,
      C.fingerprint r.stored.publicKeyString, x.now⟩)
  | generateNew (r : Rotation C) (retiredEntry : RetiredKeyEntry C.WrappedKey) :
    Passes x m db (.generateNew r retiredEntry) (.wrapNew r retiredEntry x.generated)
  | wrapNew (r : Rotation C) (retiredEntry : RetiredKeyEntry C.WrappedKey)
    (newId : C.IdentityKeypair) (current : r.epoch = m.epochRef) :
    Passes x m db (.wrapNew r retiredEntry newId) (.priorLoaded r retiredEntry newId
      (C.wrapPrivateKey newId r.passphrase x.salt) (loadRetiredEntries x db))

/-- The events with which a thread ends at a point when it has changed nothing. -/
def Pc.EndsWith (x : Input C) (tab : Nat) (m : Tab C) (es : List (Event C)) : Pc C → Prop
  | .start operation =>
    (operation ≠ .lock ∧ operation ≠ .wipe) ∧ ∃ error, es = [.rejected error, .called ⟨tab, operation⟩]
  | .unlockLoaded epoch passphrase record =>
    record = none ∧ epoch ≠ m.epochRef ∧ es = [.resolved (.unlock passphrase)]
  | .unwrapActive epoch passphrase _ =>
    epoch ≠ m.epochRef ∧ es = [.resolved (.unlock passphrase)] ∨ ∃ error, es = [.rejected error]
  | .background epoch .. => epoch ≠ m.epochRef ∧ es = []
  | .generateIdentity _ | .rotateLoaded .. | .reverify _ | .fingerprintOld _ | .generateNew ..
  | .wrapNew .. => ∃ error, es = [.rejected error]
  | .wrapIdentity .. | .priorLoaded .. | .deletedIdentity =>
    ∃ error, x.rejects = some error ∧ es = [.rejected error]
  | .committed r _ => r.epoch ≠ m.epochRef ∧ es = [.resolved (.rotate r.passphrase)]
  | .mounted _ | .saved .. | .backgroundLoaded .. | .clearedRetired | .done => False

/-- An event that tells of no change to the database or to the memory of a tab. -/
def Event.Quiet : Event C → Prop
  | .called request => request.operation ≠ .lock ∧ request.operation ≠ .wipe
  | .resolved (.unlock _) | .resolved (.rotate _) | .rejected _ => True
  | _ => False

/-- What a step can do. -/
inductive Act (x : Input C) (tab : Nat) : Pc C → State C → Pc C → State C → List (Event C) → Prop
  | begins {s : State C} {operation : Operation C} {pc' : Pc C}
    (begins : Begins x (s.tabs tab) s.db operation pc') :
    Act x tab (.start operation) s pc' s [.called ⟨tab, operation⟩]
  | passes {s : State C} {pc pc' : Pc C} (passes : Passes x (s.tabs tab) s.db pc pc') :
    Act x tab pc s pc' s []
  | ends {s : State C} {pc : Pc C} {es : List (Event C)}
    (ends : pc.EndsWith x tab (s.tabs tab) es) : Act x tab pc s .done s es
  | mounted (exists_ : Bool) (s : State C) :
    Act x tab (.mounted exists_) s .done
      (s.setTab tab { s.tabs tab with stateRef := if exists_ then .locked else .noIdentity })
      [.resolved .mount]
  | importIdentity (envelope : C.WrappedKey) (keypair : C.IdentityKeypair) (s : State C)
    (state : (s.tabs tab).stateRef = .noIdentity) (succeeds : x.rejects = none) :
    Act x tab (.start (.importIdentity envelope keypair)) s
      (.saved (.importIdentity envelope keypair) keypair)
      { s with db := s.db.putIdentity ⟨C.exportPublicKey keypair, envelope⟩ }
      [.committed .create ⟨C.exportPublicKey keypair, envelope⟩,
        .called ⟨tab, .importIdentity envelope keypair⟩]
  | setupNew (passphrase : String) (id : C.IdentityKeypair) (s : State C)
    (succeeds : x.rejects = none) :
    Act x tab (.wrapIdentity passphrase id) s (.saved (.setupNew passphrase) id)
      { s with
        db := s.db.putIdentity ⟨C.exportPublicKey id, C.wrapPrivateKey id passphrase x.salt⟩ }
      [.committed .create ⟨C.exportPublicKey id, C.wrapPrivateKey id passphrase x.salt⟩]
  | saved (operation : Operation C) (id : C.IdentityKeypair) (s : State C) :
    Act x tab (.saved operation id) s .done (s.setTab tab ((s.tabs tab).enter id []))
      [.resolved operation, .keyed tab]
  | absent (epoch : Nat) (passphrase : String) (s : State C)
    (current : epoch = (s.tabs tab).epochRef) :
    Act x tab (.unlockLoaded epoch passphrase none) s .done
      (s.setTab tab { s.tabs tab with stateRef := .noIdentity }) [.resolved (.unlock passphrase)]
  | wrongPassphrase (epoch : Nat) (passphrase : String) (record : StoredIdentity C) (s : State C)
    (current : epoch = (s.tabs tab).epochRef)
    (fails : C.unwrapPrivateKey record.wrapped passphrase = none) :
    Act x tab (.unwrapActive epoch passphrase record) s .done
      (s.setTab tab { s.tabs tab with wrongPassphrase := true }) [.resolved (.unlock passphrase)]
  | unlocked (epoch : Nat) (passphrase : String) (record : StoredIdentity C)
    (id : C.IdentityKeypair) (s : State C) (current : epoch = (s.tabs tab).epochRef)
    (unwraps : C.unwrapPrivateKey record.wrapped passphrase = some id) :
    Act x tab (.unwrapActive epoch passphrase record) s
      (.backgroundLoaded epoch passphrase (C.exportPublicKey id) (loadRetiredEntries x s.db))
      (s.setTab tab ((s.tabs tab).enter id [])) [.resolved (.unlock passphrase), .keyed tab]
  | retired (epoch : Nat) (passphrase : String) (entry : RetiredKeyEntry C.WrappedKey)
    (entries : List (RetiredKeyEntry C.WrappedKey)) (k : C.IdentityKeypair) (s : State C)
    (current : epoch = (s.tabs tab).epochRef)
    (unwraps : C.unwrapPrivateKey entry.wrapped passphrase = some k) :
    Act x tab (.background epoch passphrase entry entries) s
      (backgroundFrom (s.tabs tab) epoch passphrase entries)
      (s.setTab tab
        { s.tabs tab with retiredKeypairsRef := (s.tabs tab).retiredKeypairsRef ++ [k] })
      [.keyed tab]
  | rotate (r : Rotation C) (retiredEntry : RetiredKeyEntry C.WrappedKey)
    (newId : C.IdentityKeypair) (newWrapped : C.WrappedKey)
    (prior : List (RetiredKeyEntry C.WrappedKey)) (s : State C) (succeeds : x.rejects = none) :
    Act x tab (.priorLoaded r retiredEntry newId newWrapped prior) s (.committed r newId)
      { s with
        db := .putRotation ⟨C.exportPublicKey newId, newWrapped⟩
          (prependRetired prior retiredEntry) }
      [.committed .rotate ⟨C.exportPublicKey newId, newWrapped⟩]
  | rotated (r : Rotation C) (newId : C.IdentityKeypair) (s : State C)
    (current : r.epoch = (s.tabs tab).epochRef) :
    Act x tab (.committed r newId) s .done
      (s.setTab tab
        ((s.tabs tab).enter newId (r.oldActive :: (s.tabs tab).retiredKeypairsRef)))
      [.resolved (.rotate r.passphrase), .keyed tab]
  | lock (s : State C) :
    Act x tab (.start .lock) s .done
      (s.setTab tab
        ({ s.tabs tab with epochRef := (s.tabs tab).epochRef + 1 }.leave .locked))
      [.resolved .lock, .called ⟨tab, .lock⟩]
  | wipe (s : State C) (succeeds : x.rejects = none) :
    Act x tab (.start .wipe) s .deletedIdentity
      { s.setTab tab { s.tabs tab with epochRef := (s.tabs tab).epochRef + 1 } with
        db := s.db.deleteIdentity }
      [.erased .identity, .called ⟨tab, .wipe⟩]
  | wipeRejected (error : String) (s : State C) (rejects : x.rejects = some error) :
    Act x tab (.start .wipe) s .done
      (s.setTab tab { s.tabs tab with epochRef := (s.tabs tab).epochRef + 1 })
      [.rejected error, .called ⟨tab, .wipe⟩]
  | clearRetired (s : State C) (succeeds : x.rejects = none) :
    Act x tab .deletedIdentity s .clearedRetired { s with db := s.db.clearRetired }
      [.erased .retired]
  | wiped (s : State C) :
    Act x tab .clearedRetired s .done (s.setTab tab ((s.tabs tab).leave .noIdentity))
      [.resolved .wipe]

variable {x : Input C} {tab : Nat} {pc pc' : Pc C} {s s' : State C} {es : List (Event C)}

@[simp] theorem State.tabs_setTab_self (s : State C) (tab : Nat) (m : Tab C) :
    (s.setTab tab m).tabs tab = m := Function.update_self ..

theorem State.tabs_setTab_of_ne {tab other : Nat} (h : other ≠ tab) (s : State C) (m : Tab C) :
    (s.setTab tab m).tabs other = s.tabs other := Function.update_of_ne h ..

@[simp] theorem State.db_setTab (s : State C) (tab : Nat) (m : Tab C) : (s.setTab tab m).db = s.db :=
  rfl

theorem Pc.EndsWith.quiet {m : Tab C} (h : pc.EndsWith x tab m es) : ∀ e ∈ es, e.Quiet := by
  cases pc with
  | start =>
    obtain ⟨hoperation, error, rfl⟩ := h
    simpa [Event.Quiet] using hoperation
  | unlockLoaded =>
    obtain ⟨-, -, rfl⟩ := h
    simp [Event.Quiet]
  | unwrapActive =>
    rcases h with ⟨-, rfl⟩ | ⟨error, rfl⟩ <;> simp [Event.Quiet]
  | background =>
    obtain ⟨-, rfl⟩ := h
    rintro _ ⟨⟩
  | generateIdentity | rotateLoaded | reverify | fingerprintOld | generateNew | wrapNew =>
    obtain ⟨error, rfl⟩ := h
    simp [Event.Quiet]
  | wrapIdentity | priorLoaded | deletedIdentity =>
    obtain ⟨error, -, rfl⟩ := h
    simp [Event.Quiet]
  | committed =>
    obtain ⟨-, rfl⟩ := h
    simp [Event.Quiet]
  | mounted | saved | backgroundLoaded | clearedRetired | done => exact h.elim

/-- A step that may fail goes on, or ends with the error. -/
theorem awaiting_act {k : Result C} (h : some (awaiting x s k) = some (pc', s', es))
    (hk : x.rejects = none → Act x tab pc s k.1 k.2.1 k.2.2)
    (hrejects : ∀ error, x.rejects = some error →
      pc.EndsWith x tab (s.tabs tab) [.rejected error]) : Act x tab pc s pc' s' es := by
  unfold awaiting at h
  split at h
  · rename_i hnone
    cases h
    exact hk hnone
  · rename_i error herror
    cases h
    exact .ends (hrejects error herror)

theorem begin_act {operation : Operation C} (h : begin_ x tab s operation = (pc', s', es)) :
    Act x tab (.start operation) s pc' s' (es ++ [.called ⟨tab, operation⟩]) := by
  cases operation with
  | mount =>
    cases h
    exact .begins .mount
  | setupNew passphrase =>
    cases h
    exact .begins (.setupNew passphrase)
  | importIdentity envelope keypair =>
    simp only [begin_, awaiting] at h
    split at h
    · rename_i hstate
      split at h
      · rename_i hrejects
        cases h
        exact .importIdentity _ _ _ hstate hrejects
      · cases h
        exact .ends ⟨⟨nofun, nofun⟩, _, rfl⟩
    · cases h
      exact .ends ⟨⟨nofun, nofun⟩, _, rfl⟩
  | unlock passphrase =>
    simp only [begin_, awaiting] at h
    split at h <;> cases h
    · exact .begins (.unlock passphrase)
    · exact .ends ⟨⟨nofun, nofun⟩, _, rfl⟩
  | rotate passphrase =>
    simp only [begin_, awaiting] at h
    split at h
    · cases h
      exact .ends ⟨⟨nofun, nofun⟩, _, rfl⟩
    · rename_i oldActive hactive
      split at h <;> cases h
      · exact .begins (.rotate passphrase oldActive hactive)
      · exact .ends ⟨⟨nofun, nofun⟩, _, rfl⟩
  | lock =>
    cases h
    exact .lock s
  | wipe =>
    simp only [begin_, awaiting] at h
    split at h
    · rename_i hrejects
      cases h
      exact .wipe s hrejects
    · rename_i error hrejects
      cases h
      exact .wipeRejected error s hrejects

/-- The inversion of a step. -/
theorem step_act (h : step x tab pc s = some (pc', s', es)) : Act x tab pc s pc' s' es := by
  cases pc with
  | start operation =>
    obtain ⟨pc'', s'', es'', hb⟩ : ∃ pc'' s'' es'', begin_ x tab s operation = (pc'', s'', es'') :=
      ⟨_, _, _, rfl⟩
    simp only [step, hb] at h
    cases h
    exact begin_act hb
  | mounted exists_ =>
    cases h
    exact .mounted exists_ s
  | generateIdentity passphrase =>
    exact awaiting_act h (fun _ ↦ .passes (.generateIdentity passphrase)) fun _ _ ↦ ⟨_, rfl⟩
  | wrapIdentity passphrase id =>
    exact awaiting_act h (fun hr ↦ .setupNew passphrase id s hr) fun _ hr ↦ ⟨_, hr, rfl⟩
  | saved operation id =>
    cases h
    exact .saved operation id s
  | unlockLoaded epoch passphrase record =>
    cases record with
    | none =>
      simp only [step] at h
      cases h
      split
      · rename_i hcurrent
        exact .absent epoch passphrase s hcurrent
      · rename_i hstale
        exact .ends ⟨rfl, hstale, rfl⟩
    | some record =>
      cases h
      exact .passes (.unlockLoaded epoch passphrase record)
  | unwrapActive epoch passphrase record =>
    simp only [step] at h
    split at h
    · rename_i hstale
      cases h
      exact .ends (.inl ⟨hstale, rfl⟩)
    · rename_i hcurrent
      rw [not_not] at hcurrent
      split at h
      · rename_i hfails
        split at h <;> cases h
        · exact .wrongPassphrase epoch passphrase record s hcurrent hfails
        · exact .ends (.inr ⟨_, rfl⟩)
      · rename_i id hunwraps
        cases h
        exact .unlocked epoch passphrase record id s hcurrent hunwraps
  | backgroundLoaded epoch passphrase activePk entries =>
    cases h
    exact .passes (.backgroundLoaded epoch passphrase activePk entries)
  | background epoch passphrase entry entries =>
    simp only [step] at h
    split at h
    · rename_i hfails
      cases h
      exact .passes (.skip epoch passphrase entry entries hfails)
    · rename_i k hunwraps
      split at h
      · rename_i hstale
        cases h
        exact .ends ⟨hstale, rfl⟩
      · rename_i hcurrent
        rw [not_not] at hcurrent
        cases h
        exact .retired epoch passphrase entry entries k s hcurrent hunwraps
  | rotateLoaded epoch passphrase oldActive stored =>
    cases stored with
    | none =>
      cases h
      exact .ends ⟨_, rfl⟩
    | some stored =>
      simp only [step] at h
      split at h
      · cases h
        exact .ends ⟨_, rfl⟩
      · rename_i hcurrent
        rw [not_not] at hcurrent
        cases h
        exact .passes (.rotateLoaded epoch passphrase oldActive stored hcurrent)
  | reverify r =>
    refine awaiting_act h (fun _ ↦ ?_) fun _ _ ↦ ⟨_, rfl⟩
    split
    · exact .ends ⟨_, rfl⟩
    · rename_i id hunwraps
      exact .passes (.reverify r id hunwraps)
  | fingerprintOld r =>
    exact awaiting_act h (fun _ ↦ .passes (.fingerprintOld r)) fun _ _ ↦ ⟨_, rfl⟩
  | generateNew r retiredEntry =>
    exact awaiting_act h (fun _ ↦ .passes (.generateNew r retiredEntry)) fun _ _ ↦ ⟨_, rfl⟩
  | wrapNew r retiredEntry newId =>
    refine awaiting_act h (fun _ ↦ ?_) fun _ _ ↦ ⟨_, rfl⟩
    split
    · exact .ends ⟨_, rfl⟩
    · rename_i hcurrent
      rw [not_not] at hcurrent
      exact .passes (.wrapNew r retiredEntry newId hcurrent)
  | priorLoaded r retiredEntry newId newWrapped prior =>
    exact awaiting_act h (fun hr ↦ .rotate r retiredEntry newId newWrapped prior s hr)
      fun _ hr ↦ ⟨_, hr, rfl⟩
  | committed r newId =>
    simp only [step] at h
    split at h
    · rename_i hstale
      cases h
      exact .ends ⟨hstale, rfl⟩
    · rename_i hcurrent
      rw [not_not] at hcurrent
      cases h
      exact .rotated r newId s hcurrent
  | deletedIdentity => exact awaiting_act h (fun hr ↦ .clearRetired s hr) fun _ hr ↦ ⟨_, hr, rfl⟩
  | clearedRetired =>
    cases h
    exact .wiped s
  | done => cases h

/-- A step leaves the memory of the other tabs. -/
theorem Act.tabs (hact : Act x tab pc s pc' s' es) {other : Nat} (h : other ≠ tab) :
    s'.tabs other = s.tabs other := by
  cases hact with
  | begins | passes | ends | importIdentity | setupNew | rotate | clearRetired => rfl
  | mounted | saved | absent | wrongPassphrase | unlocked | retired | rotated | lock | wipe
  | wipeRejected | wiped => exact State.tabs_setTab_of_ne h ..

/-- A thread that is done takes no step. -/
theorem Act.ne_done (hact : Act x tab pc s pc' s' es) : pc ≠ .done := by
  rintro rfl
  cases hact with
  | passes passes => cases passes
  | ends ends => exact ends

/-- The background loop is at its end, or its epoch is that of the tab. -/
theorem backgroundFrom_cases (m : Tab C) (epoch : Nat) (passphrase : String)
    (entries : List (RetiredKeyEntry C.WrappedKey)) :
    backgroundFrom m epoch passphrase entries = .done ∧ (entries = [] ∨ epoch ≠ m.epochRef) ∨
      ∃ entry rest, entries = entry :: rest ∧ epoch = m.epochRef ∧
        backgroundFrom m epoch passphrase entries = .background epoch passphrase entry rest := by
  cases entries with
  | nil => exact .inl ⟨rfl, .inl rfl⟩
  | cons entry rest =>
    by_cases hcurrent : epoch = m.epochRef
    · exact .inr ⟨entry, rest, rfl, hcurrent, if_neg (not_not.mpr hcurrent)⟩
    · exact .inl ⟨if_pos hcurrent, .inr hcurrent⟩

/-- A step of a thread of the program is a step of its tab. -/
theorem program_act {i : Nat} {thread thread' : Thread C}
    (h : (program C).step i x thread s = some (thread', s', es)) :
    thread'.tab = thread.tab ∧ Act x thread.tab thread.pc s thread'.pc s' es := by
  obtain ⟨⟨pc', s'', es'⟩, hstep, heq⟩ := Option.map_eq_some_iff.mp h
  cases heq
  exact ⟨rfl, step_act hstep⟩

end Aesmsg.Identity.Web
