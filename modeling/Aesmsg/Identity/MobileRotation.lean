import Aesmsg.Identity.MobileKeys

/-!
# Rotation is crash-safe on mobile

Operations run one after the other, each to its end or until the app crashes; a crash leaves the
keystore and loses the machine.  `Intact` relates a point of an operation to the keys that have ever
been active, and every step keeps it, so that it holds wherever a crash cuts.

## Main results

- `unlock_after_crashes`: the keys that an unlock finds are those that have ever been active, newest
  first.
- `rotate_as_unlock`: the keys in memory after a rotate are those that an unlock would find.
-/

namespace Aesmsg.Identity.Mobile

open Threads

variable {C : IdentityCrypto}

/-- `allPrivateKeysForDecrypt` of `decrypt-keys.ts`. -/
def allPrivateKeysForDecrypt : IdentityState C → List C.IdentityKeypair
  | .unlocked identity _ retiredKeypairs => identity :: retiredKeypairs
  | _ => []

/-! ## Sequential runs -/

/-- An operation from `pc`, one input a step, until it is done or the inputs end, and its events. -/
def play : List (Input C) → Pc C → State C → Pc C × State C × List (Event C)
  | [], pc, s => (pc, s, [])
  | x :: xs, pc, s =>
    match step x pc s with
    | none => (pc, s, [])
    | some (pc', s', es) =>
      let (pc'', s'', es') := play xs pc' s'
      (pc'', s'', es' ++ es)

/-- The state and the events after operations that run one after the other on a new device; an
operation that is not done has crashed. -/
inductive Sequential (C : IdentityCrypto) : State C → List (Event C) → Prop
  | fresh : Sequential C ⟨Keystore.empty, .loading⟩ []
  | done {s s' : State C} {es es' : List (Event C)} {request : Request C} {xs : List (Input C)}
    (before : Sequential C s es) (kind : request ≠ .wipe)
    (run : play xs (.start request) s = (.done, s', es')) : Sequential C s' (es' ++ es)
  | crash {s s' : State C} {es es' : List (Event C)} {request : Request C} {xs : List (Input C)}
    {pc : Pc C} (before : Sequential C s es) (kind : request ≠ .wipe)
    (run : play xs (.start request) s = (pc, s', es')) :
    Sequential C ⟨s'.keystore, .loading⟩ (es' ++ es)

/-- The state and the events after the operations, from a state and its events. -/
def live : List (Request C × List (Input C)) → State C → List (Event C) → State C × List (Event C)
  | [], s, es => (s, es)
  | (request, xs) :: rest, s, es =>
    match play xs (.start request) s with
    | (.done, s', es') => live rest s' (es' ++ es)
    | (_, s', es') => live rest ⟨s'.keystore, .loading⟩ (es' ++ es)

theorem Sequential.live {s : State C} {es : List (Event C)} (h : Sequential C s es)
    (operations : List (Request C × List (Input C))) (kind : ∀ o ∈ operations, o.1 ≠ .wipe) :
    Sequential C (live operations s es).1 (live operations s es).2 := by
  induction operations generalizing s es with
  | nil => exact h
  | cons o rest ih =>
    obtain ⟨hkind, hrest⟩ := List.forall_mem_cons.mp kind
    simp only [Mobile.live]
    split
    · rename_i s' es' hrun
      exact ih (h.done hkind hrun) hrest
    · rename_i s' es' _ hrun
      exact ih (h.crash hkind hrun) hrest

/-- The key that an event makes the stored active one. -/
def Event.activates : Event C → Option C.IdentityKeypair
  | .savedIdentity .persistAndUnlock identity _ | .savedIdentity .rotate identity _ => some identity
  | _ => none

/-- The keys that have been active, newest first. -/
def actives (es : List (Event C)) : List C.IdentityKeypair := es.filterMap Event.activates

/-- Each of the keys once, at its newest place. -/
def keyList (keys : List C.IdentityKeypair) : List C.IdentityKeypair :=
  Dedupe.dedupeBy C.exportPublicKey keys

theorem keyList_cons (k : C.IdentityKeypair) (keys : List C.IdentityKeypair) :
    keyList (k :: keys) =
      k :: (keyList keys).filter (C.exportPublicKey · ≠ C.exportPublicKey k) := Dedupe.dedupeBy_cons

theorem keyList_of_nodup {keys : List C.IdentityKeypair}
    (h : (keys.map C.exportPublicKey).Nodup) : keyList keys = keys := Dedupe.dedupeBy_of_nodup h

@[simp] theorem actives_append (es es' : List (Event C)) :
    actives (es ++ es') = actives es ++ actives es' := List.filterMap_append

/-! ## Retired entries and their keys -/

/-- The entry holds the keypair under the secret. -/
def Holds (secret : String) (e : RetiredKeyEntry C.WrappedKey) (k : C.IdentityKeypair) : Prop :=
  e.publicKeyString = C.exportPublicKey k ∧ C.unwrapPrivateKey e.wrapped secret = some k

section Holds

variable {secret : String} {entries : List (RetiredKeyEntry C.WrappedKey)}
  {keys : List C.IdentityKeypair}

theorem unwrapAll_eq (h : List.Forall₂ (Holds secret) entries keys) :
    unwrapAll secret entries = keys := by
  induction h with
  | nil => rfl
  | cons hk _ ih =>
    unfold unwrapAll at *
    rw [List.filterMap_cons, hk.2]
    exact congrArg _ ih

/-- Dropping the entries of a public key drops its keys. -/
theorem forall₂_filter (h : List.Forall₂ (Holds secret) entries keys) (publicKey : String) :
    List.Forall₂ (Holds secret) (entries.filter (·.publicKeyString ≠ publicKey))
      (keys.filter (C.exportPublicKey · ≠ publicKey)) := by
  induction h with
  | nil => exact .nil
  | @cons e k _ _ hk _ ih =>
    by_cases heq : e.publicKeyString = publicKey
    · rw [List.filter_cons_of_neg (by simpa using heq),
        List.filter_cons_of_neg (by simpa using hk.1 ▸ heq)]
      exact ih
    · rw [List.filter_cons_of_pos (by simpa using heq),
        List.filter_cons_of_pos (by simpa using hk.1 ▸ heq)]
      exact .cons hk ih

end Holds

namespace Keystore

/-- The retired list is read back as it was loaded. -/
theorem prependRetired_retired (k : Keystore C) (e : RetiredKeyEntry C.WrappedKey) :
    prependRetired k.retired e =
      e :: k.retired.filter (·.publicKeyString ≠ e.publicKeyString) :=
  prependRetired_parseRetiredKeys _ e

/-- The keystore of a device on which `keys` have been active: the newest is in the active envelope, the
others are in the retired list, which may also hold the newest. -/
def Archives (k : Keystore C) : List C.IdentityKeypair → Prop
  | [] => k.wrappedIdentity = none ∧ k.retired = []
  | active :: older => ∃ secret, k.Stores active secret ∧ ∃ retired,
    List.Forall₂ (Holds secret) k.retired retired ∧
      active :: retired.filter (C.exportPublicKey · ≠ C.exportPublicKey active) =
        keyList (active :: older)

end Keystore

/-! ## The invariant -/

/-- The machine knows the keys that have been active. -/
def IdentityState.Knows : IdentityState C → List C.IdentityKeypair → Prop
  | .noIdentity, keys => keys = []
  | .unlocked identity publicKeyString retiredKeypairs, keys =>
    publicKeyString = C.exportPublicKey identity ∧ ∃ older, keys = identity :: older ∧
      ((keys.map C.exportPublicKey).Nodup → retiredKeypairs = older)
  | _, _ => True

/-- `rotate` has captured the newest key and the older ones. -/
structure Captured.Of (r : Captured C) (keys : List C.IdentityKeypair) : Prop where
  sound : r.Sound
  keys : ∃ older, keys = r.oldActive :: older ∧
    ((keys.map C.exportPublicKey).Nodup → r.priorRetiredKeypairs = older)

/-- What a point of an operation knows of the keystore and of the keys that have been active. -/
def Pc.Knows (k : Keystore C) (keys : List C.IdentityKeypair) : Pc C → Prop
  | .start request => request ≠ .wipe
  | .initialised exists_ => exists_ = k.wrappedIdentity.isSome
  | .generateIdentity | .createDeviceSecret _ | .storeDeviceSecret .. | .absent => keys = []
  | .wrapIdentity _ secret => keys = [] ∧ k.deviceSecret = some secret
  | .saveIdentity identity secret wrapped => keys = [] ∧ k.deviceSecret = some secret ∧
    C.unwrapPrivateKey wrapped secret = some identity
  | .persisted identity _ => keys = [identity]
  | .unlockDeviceSecret wrapped | .readDeviceSecret wrapped => k.wrappedIdentity = some wrapped
  | .unwrapIdentity wrapped secret =>
    k.wrappedIdentity = some wrapped ∧ k.deviceSecret = some secret
  | .loadRetiredKeys _ secret identity | .rewrap identity secret => k.Stores identity secret
  | .unwrapRetired _ secret identity entries retiredKeypairs => k.Stores identity secret ∧
    identity :: (retiredKeypairs ++ unwrapAll secret entries) = keyList keys
  | .saveRewrapped identity secret rewrapped => k.Stores identity secret ∧
    C.unwrapPrivateKey rewrapped secret = some identity
  | .rotateUnlock r | .rotateSecret r => r.Of keys
  | .wrapOld r secret => r.Of keys ∧ k.deviceSecret = some secret
  | .fingerprintOld r secret oldWrapped | .generateNew r secret oldWrapped _
  | .wrapNew r secret oldWrapped _ _ => r.Of keys ∧ k.deviceSecret = some secret ∧
    C.unwrapPrivateKey oldWrapped secret = some r.oldActive
  | .loadPrior r => r.Of keys ∧ k.deviceSecret = some r.deviceSecret ∧ r.Sound
  | .saveRetired r newRetired => r.Of keys ∧ k.deviceSecret = some r.deviceSecret ∧ r.Sound ∧
    newRetired = prependRetired k.retired r.retiredEntry
  | .saveActive r => r.Of keys ∧ k.deviceSecret = some r.deviceSecret ∧ r.Sound ∧
    List.Forall₂ (Holds r.deviceSecret) k.retired (keyList keys)
  | .rotated r => ∃ older, keys = r.newIdentity :: older ∧
    ((keys.map C.exportPublicKey).Nodup → r.oldActive :: r.priorRetiredKeypairs = older)
  | .deleteWrappedIdentity | .deleteRetiredKeys | .deleteDeviceSecret | .wipeStorage | .wiped => False
  | .hasStoredIdentity | .loadWrappedIdentity | .done => True

/-- The active envelope has been replaced and the machine not yet set. -/
def Pc.Flipping : Pc C → Prop
  | .persisted .. | .rotated _ => True
  | _ => False

/-- The keystore, the thread and the machine fit the keys that have been active. -/
structure Intact (pc : Pc C) (s : State C) (keys : List C.IdentityKeypair) : Prop where
  archives : s.keystore.Archives keys
  thread : pc.Knows s.keystore keys
  machine : ¬pc.Flipping → s.machine.Knows keys

variable {pc pc' : Pc C} {s s' : State C} {keys : List C.IdentityKeypair} {x : Input C}
  {es : List (Event C)}

theorem Intact.done (h : Intact pc s keys) (hpc : ¬pc.Flipping) : Intact .done s keys :=
  ⟨h.archives, trivial, fun _ ↦ h.machine hpc⟩

/-- A thread goes on, on the same state. -/
theorem Intact.go (h : Intact pc s keys) (hpc : ¬pc.Flipping) (hk : pc'.Knows s.keystore keys) :
    Intact pc' s keys := ⟨h.archives, hk, fun _ ↦ h.machine hpc⟩

theorem awaiting_intact {k : Pc C × State C × List (Event C)}
    (h : some (awaiting x s k) = some (pc', s', es)) (hrejects : Intact .done s keys)
    (hk : Intact k.1 k.2.1 (actives k.2.2 ++ keys)) : Intact pc' s' (actives es ++ keys) := by
  unfold awaiting at h
  split at h
  · cases h
    exact hk
  · cases h
    exact hrejects

theorem readSecret_intact {k : String → Pc C}
    (h : some (readSecret x s k) = some (pc', s', es)) (hs : Intact pc s keys) (hpc : ¬pc.Flipping)
    (hk : ∀ secret, s.keystore.deviceSecret = some secret → (k secret).Knows s.keystore keys) :
    Intact pc' s' (actives es ++ keys) := by
  refine awaiting_intact h (hs.done hpc) ?_
  split
  · exact hs.done hpc
  · rename_i secret hsecret
    split
    · exact hs.done hpc
    · exact hs.go hpc (hk secret hsecret)

theorem begin_intact {request : Request C} (h : begin_ s request = (pc', s', es))
    (hs : Intact (.start request) s keys) : Intact pc' s' (actives es ++ keys) := by
  have hdone : Intact .done s keys := hs.done not_false
  have hm := hs.machine not_false
  cases request with
  | init | unlock =>
    cases h
    exact hs.go not_false trivial
  | wipe => exact absurd rfl hs.thread
  | setupNew | importIdentity =>
    simp only [begin_] at h
    split at h
    · rename_i hempty
      cases h
      rw [hempty] at hm
      exact hs.go not_false hm
    · cases h
      exact hdone
  | lock =>
    simp only [begin_] at h
    split at h
    · cases h
      exact ⟨hs.archives, trivial, fun _ ↦ trivial⟩
    · cases h
      exact hdone
  | rotate =>
    simp only [begin_] at h
    split at h
    · rename_i hunlocked
      cases h
      rw [hunlocked] at hm
      obtain ⟨hpk, holder⟩ := hm
      exact hs.go not_false ⟨hpk, holder⟩
    · cases h
      exact hdone

namespace Keystore

variable {k : Keystore C} {identity active : C.IdentityKeypair} {secret : String}
  {older : List C.IdentityKeypair}

/-- Nothing has been active where no identity is stored. -/
theorem Archives.eq_nil (h : k.Archives keys) (hnone : k.wrappedIdentity = none) : keys = [] := by
  cases keys with
  | nil => rfl
  | cons active older =>
    obtain ⟨secret, hstores, -⟩ := h
    exact absurd hnone hstores.ne_none

/-- What the active envelope unwraps to is the newest key. -/
theorem Archives.newest (h : k.Archives keys) (hstores : k.Stores identity secret) :
    ∃ older retired, keys = identity :: older ∧
      List.Forall₂ (Holds secret) k.retired retired ∧
        identity :: retired.filter (C.exportPublicKey · ≠ C.exportPublicKey identity) =
          keyList keys := by
  cases keys with
  | nil => exact absurd h.1 hstores.ne_none
  | cons active older =>
    obtain ⟨secret', hstores', retired, hretired, heq⟩ := h
    obtain ⟨rfl, rfl⟩ := hstores.unique hstores'
    exact ⟨older, retired, rfl, hretired, heq⟩

/-- What is stored in the envelope is unwrapped under the stored secret. -/
theorem stores_of_unwrap {wrapped : C.WrappedKey}
    (hwrapped : k.wrappedIdentity = some wrapped) (hsecret : k.deviceSecret = some secret)
    (hunwrap : C.unwrapPrivateKey wrapped secret = some identity) : k.Stores identity secret := by
  refine ⟨hsecret, ?_⟩
  rw [hwrapped]
  exact hunwrap

/-- The newest key is stored in the active envelope. -/
theorem Archives.stores (h : k.Archives (active :: older)) (hsecret : k.deviceSecret = some secret) :
    k.Stores active secret := by
  obtain ⟨secret', hstores, -⟩ := h
  obtain rfl := Option.some.inj (hsecret.symm.trans hstores.1)
  exact hstores

/-- A new device secret where nothing has been active. -/
theorem Archives.saveSecret (h : k.Archives []) (secret : String) :
    (k.saveSecret secret).Archives [] := h

/-- The first envelope. -/
theorem Archives.saveIdentity (h : k.Archives []) {wrapped : C.WrappedKey}
    (hsecret : k.deviceSecret = some secret)
    (hunwrap : C.unwrapPrivateKey wrapped secret = some identity) :
    (k.saveIdentity wrapped).Archives [identity] := by
  have hretired : (k.saveIdentity wrapped).retired = [] := h.2
  refine ⟨secret, stores_saveIdentity hsecret hunwrap, [], ?_, rfl⟩
  rw [hretired]
  exact .nil

/-- The envelope of the newest key, wrapped again. -/
theorem Archives.saveRewrapped (h : k.Archives keys) {rewrapped : C.WrappedKey}
    (hstores : k.Stores identity secret)
    (hunwrap : C.unwrapPrivateKey rewrapped secret = some identity) :
    (k.saveIdentity rewrapped).Archives keys := by
  obtain ⟨older, retired, rfl, hretired, heq⟩ := h.newest hstores
  exact ⟨secret, stores_saveIdentity hstores.1 hunwrap, retired, hretired, heq⟩

/-- The retired list with the newest key prepended holds all keys. -/
theorem Archives.prependRetired (h : k.Archives (active :: older))
    (hsecret : k.deviceSecret = some secret) {e : RetiredKeyEntry C.WrappedKey}
    (he : Holds secret e active) :
    List.Forall₂ (Holds secret) (prependRetired k.retired e) (keyList (active :: older)) := by
  obtain ⟨older', retired, hkeys, hretired, heq⟩ := h.newest (h.stores hsecret)
  rw [prependRetired_retired, ← heq, he.1]
  exact .cons he (forall₂_filter hretired _)

/-- A retired list that holds all keys. -/
theorem Archives.saveRetired (h : k.Archives (active :: older))
    (hsecret : k.deviceSecret = some secret) {entries : List (RetiredKeyEntry C.WrappedKey)}
    (hloaded : (k.saveRetired entries).retired = entries)
    (hentries : List.Forall₂ (Holds secret) entries (keyList (active :: older))) :
    (k.saveRetired entries).Archives (active :: older) := by
  refine ⟨secret, h.stores hsecret, keyList (active :: older), ?_, ?_⟩
  · rw [hloaded]
    exact hentries
  · rw [keyList_cons, List.filter_cons_of_neg (by simp), List.filter_filter]
    simp

/-- The envelope of a new key, when the retired list holds all others. -/
theorem Archives.saveActive (hsecret : k.deviceSecret = some secret)
    (hretired : List.Forall₂ (Holds secret) k.retired (keyList keys)) {wrapped : C.WrappedKey}
    (hunwrap : C.unwrapPrivateKey wrapped secret = some identity) :
    (k.saveIdentity wrapped).Archives (identity :: keys) :=
  ⟨secret, stores_saveIdentity hsecret hunwrap, keyList keys, hretired, (keyList_cons _ _).symm⟩

end Keystore

/-- What is unwrapped of the stored identity is the newest key that has been active. -/
theorem unwrapIdentity_intact {wrapped : C.WrappedKey} {secret : String}
    (h : step x (.unwrapIdentity wrapped secret) s = some (pc', s', es))
    (hs : Intact (.unwrapIdentity wrapped secret) s keys) : Intact pc' s' (actives es ++ keys) := by
  obtain ⟨hwrapped, hsecret⟩ := hs.thread
  refine awaiting_intact h (hs.done not_false) ?_
  split
  · exact hs.done not_false
  · rename_i identity hunwrap
    exact hs.go not_false (Keystore.stores_of_unwrap hwrapped hsecret hunwrap)

/-- The stored entries, less that of the active key, unwrap to the other keys. -/
theorem loadRetiredKeys_intact {wrapped : C.WrappedKey} {secret : String}
    {identity : C.IdentityKeypair}
    (h : step x (.loadRetiredKeys wrapped secret identity) s = some (pc', s', es))
    (hs : Intact (.loadRetiredKeys wrapped secret identity) s keys) :
    Intact pc' s' (actives es ++ keys) := by
  refine awaiting_intact h (hs.done not_false) (hs.go not_false ⟨hs.thread, ?_⟩)
  obtain ⟨older, retired, -, hretired, heq⟩ := hs.archives.newest hs.thread
  rw [List.nil_append, ← heq]
  exact congrArg _ (unwrapAll_eq (forall₂_filter hretired _))

/-- An entry is unwrapped, or all are and the machine is unlocked with the keys. -/
theorem unwrapRetired_intact {wrapped : C.WrappedKey} {secret : String}
    {identity : C.IdentityKeypair} {entries : List (RetiredKeyEntry C.WrappedKey)}
    {retiredKeypairs : List C.IdentityKeypair}
    (h : step x (.unwrapRetired wrapped secret identity entries retiredKeypairs) s = some (pc', s', es))
    (hs : Intact (.unwrapRetired wrapped secret identity entries retiredKeypairs) s keys) :
    Intact pc' s' (actives es ++ keys) := by
  have hstored := hs.archives
  obtain ⟨hstores, hkeys⟩ := hs.thread
  cases entries with
  | cons entry entries =>
    cases h
    refine hs.go not_false ⟨hstores, ?_⟩
    rw [← hkeys, unwrapAll, unwrapAll, List.filterMap_cons]
    cases C.unwrapPrivateKey entry.wrapped secret <;> simp
  | nil =>
    obtain ⟨older, -, rfl, -, -⟩ := hstored.newest hstores
    have hmachine : (s.unlock identity retiredKeypairs).machine.Knows (identity :: older) := by
      refine ⟨rfl, older, rfl, fun hnodup ↦ ?_⟩
      rw [keyList_of_nodup hnodup] at hkeys
      simpa [unwrapAll] using hkeys
    simp only [step] at h
    split at h
    · cases h
      exact ⟨hstored, hstores, fun _ ↦ hmachine⟩
    · cases h
      exact ⟨hstored, trivial, fun _ ↦ hmachine⟩

/-- The old key is among the stored entries before the new one is active. -/
theorem saveRetired_intact {r : Rotation C} {newRetired : List (RetiredKeyEntry C.WrappedKey)}
    (h : step x (.saveRetired r newRetired) s = some (pc', s', es))
    (hs : Intact (.saveRetired r newRetired) s keys) : Intact pc' s' (actives es ++ keys) := by
  cases h
  obtain ⟨hof, hsecret, hsound, rfl⟩ := hs.thread
  obtain ⟨older, hkeys, -⟩ := hof.keys
  subst hkeys
  have hloaded := parseRetiredKeys_prependRetired s.keystore.retired r.retiredEntry
  have hall := hs.archives.prependRetired hsecret ⟨hsound.publicKey, hsound.retired⟩
  refine ⟨hs.archives.saveRetired hsecret hloaded hall, ⟨hof, hsecret, hsound, ?_⟩,
    fun _ ↦ hs.machine not_false⟩
  show List.Forall₂ _ (parseRetiredKeys (some _)) _
  rw [hloaded]
  exact hall

/-- The new key becomes the active one. -/
theorem saveActive_intact {r : Rotation C} (h : step x (.saveActive r) s = some (pc', s', es))
    (hs : Intact (.saveActive r) s keys) : Intact pc' s' (actives es ++ keys) := by
  cases h
  obtain ⟨hof, hsecret, hsound, hall⟩ := hs.thread
  refine ⟨Keystore.Archives.saveActive hsecret hall hsound.active, ⟨keys, rfl, ?_⟩,
    fun hflip ↦ absurd trivial hflip⟩
  obtain ⟨older, hkeys, hprior⟩ := hof.keys
  intro hnodup
  rw [hprior (List.nodup_cons.mp hnodup).2, hkeys]

/-- Every step of an operation keeps the invariant, with the keys it activates. -/
theorem step_intact (hC : C.Lawful) (h : step x pc s = some (pc', s', es)) (hs : Intact pc s keys) :
    Intact pc' s' (actives es ++ keys) := by
  have hstored := hs.archives
  have hpc := hs.thread
  cases pc with
  | start request =>
    obtain ⟨es', hb, rfl⟩ := step_start h
    rw [actives_append]
    exact (List.append_nil (actives es')).symm ▸ begin_intact hb hs
  | hasStoredIdentity => exact awaiting_intact h (hs.done not_false) (hs.go not_false rfl)
  | initialised exists_ =>
    cases h
    refine ⟨hstored, trivial, fun _ ↦ ?_⟩
    obtain rfl : exists_ = s.keystore.wrappedIdentity.isSome := hpc
    cases hwrapped : s.keystore.wrappedIdentity with
    | none => exact hstored.eq_nil hwrapped
    | some wrapped => trivial
  | generateIdentity | createDeviceSecret =>
    exact awaiting_intact h (hs.done not_false) (hs.go not_false hpc)
  | storeDeviceSecret identity secret =>
    cases h
    obtain rfl : keys = [] := hpc
    exact ⟨hstored.saveSecret secret, ⟨rfl, rfl⟩, fun _ ↦ hs.machine not_false⟩
  | wrapIdentity identity secret =>
    obtain ⟨hkeys, hsecret⟩ := hpc
    exact awaiting_intact h (hs.done not_false) (hs.go not_false ⟨hkeys, hsecret, hC.unwrap_wrap _ _ _⟩)
  | saveIdentity identity secret wrapped =>
    cases h
    obtain ⟨rfl, hsecret, hunwrap⟩ := hpc
    exact ⟨hstored.saveIdentity hsecret hunwrap, rfl, fun hflip ↦ absurd trivial hflip⟩
  | persisted identity secret =>
    cases h
    obtain rfl : keys = [identity] := hpc
    exact ⟨hstored, trivial, fun _ ↦ ⟨rfl, [], rfl, fun _ ↦ rfl⟩⟩
  | loadWrappedIdentity =>
    refine awaiting_intact h (hs.done not_false) ?_
    split
    · rename_i hnone
      exact hs.go not_false (hstored.eq_nil hnone)
    · rename_i wrapped hwrapped
      exact hs.go not_false hwrapped
  | absent =>
    cases h
    exact ⟨hstored, trivial, fun _ ↦ hpc⟩
  | unlockDeviceSecret wrapped => exact awaiting_intact h (hs.done not_false) (hs.go not_false hpc)
  | readDeviceSecret wrapped =>
    exact readSecret_intact h hs not_false fun secret hsecret ↦ ⟨hpc, hsecret⟩
  | unwrapIdentity wrapped secret => exact unwrapIdentity_intact h hs
  | loadRetiredKeys wrapped secret identity => exact loadRetiredKeys_intact h hs
  | unwrapRetired wrapped secret identity entries retiredKeypairs => exact unwrapRetired_intact h hs
  | rewrap identity secret =>
    simp only [step] at h
    split at h
    · cases h
      exact hs.go not_false ⟨hpc, hC.unwrap_wrap _ _ _⟩
    · cases h
      exact hs.done not_false
  | saveRewrapped identity secret rewrapped =>
    cases h
    obtain ⟨hstores, hunwrap⟩ := hpc
    exact ⟨hstored.saveRewrapped hstores hunwrap, trivial, fun _ ↦ hs.machine not_false⟩
  | rotateUnlock r => exact awaiting_intact h (hs.done not_false) (hs.go not_false hpc)
  | rotateSecret r => exact readSecret_intact h hs not_false fun secret hsecret ↦ ⟨hpc, hsecret⟩
  | wrapOld r secret =>
    obtain ⟨hof, hsecret⟩ := hpc
    exact awaiting_intact h (hs.done not_false) (hs.go not_false ⟨hof, hsecret, hC.unwrap_wrap _ _ _⟩)
  | fingerprintOld r secret oldWrapped => exact awaiting_intact h (hs.done not_false) (hs.go not_false hpc)
  | generateNew => exact awaiting_intact h (hs.done not_false) (hs.go not_false hpc)
  | wrapNew r secret oldWrapped oldFingerprint newIdentity =>
    obtain ⟨hof, hsecret, hunwrap⟩ := hpc
    exact awaiting_intact h (hs.done not_false)
      (hs.go not_false ⟨hof, hsecret, hof.sound, hunwrap, hC.unwrap_wrap _ _ _⟩)
  | loadPrior r =>
    obtain ⟨hof, hsecret, hsound⟩ := hpc
    exact awaiting_intact h (hs.done not_false) (hs.go not_false ⟨hof, hsecret, hsound, rfl⟩)
  | saveRetired r newRetired => exact saveRetired_intact h hs
  | saveActive r => exact saveActive_intact h hs
  | rotated r =>
    cases h
    obtain ⟨older, rfl, hprior⟩ := hpc
    exact ⟨hstored, trivial, fun _ ↦ ⟨rfl, older, rfl, hprior⟩⟩
  | deleteWrappedIdentity | deleteRetiredKeys | deleteDeviceSecret | wipeStorage | wiped =>
    exact hpc.elim
  | done => cases h

/-! ## Runs -/

/-- A step and what is played after it. -/
theorem play_cons {xs : List (Input C)} (h : play (x :: xs) pc s = (pc', s', es)) :
    (step x pc s = none ∧ pc' = pc ∧ s' = s ∧ es = []) ∨
      ∃ pc₁ s₁ es₁ es₂, step x pc s = some (pc₁, s₁, es₁) ∧ play xs pc₁ s₁ = (pc', s', es₂) ∧
        es = es₂ ++ es₁ := by
  simp only [play] at h
  split at h
  · rename_i hnone
    cases h
    exact .inl ⟨hnone, rfl, rfl, rfl⟩
  · rename_i pc₁ s₁ es₁ hstep
    cases h
    exact .inr ⟨_, _, _, _, hstep, rfl, rfl⟩

theorem play_intact (hC : C.Lawful) {xs : List (Input C)} (h : play xs pc s = (pc', s', es))
    (hs : Intact pc s keys) : Intact pc' s' (actives es ++ keys) := by
  induction xs generalizing pc s keys es with
  | nil =>
    cases h
    exact hs
  | cons x xs ih =>
    rcases play_cons h with ⟨-, rfl, rfl, rfl⟩ | ⟨pc₁, s₁, es₁, es₂, hstep, hrest, rfl⟩
    · exact hs
    · rw [actives_append, List.append_assoc]
      exact ih hrest (step_intact hC hstep hs)

/-- Between operations the invariant holds. -/
theorem Sequential.intact (hC : C.Lawful) (h : Sequential C s es) : Intact .done s (actives es) := by
  induction h with
  | fresh => exact ⟨⟨rfl, rfl⟩, trivial, fun _ ↦ trivial⟩
  | done _ kind run ih =>
    rw [actives_append]
    exact play_intact hC run ⟨ih.archives, kind, fun _ ↦ ih.machine nofun⟩
  | crash _ kind run ih =>
    have hcut := play_intact hC run ⟨ih.archives, kind, fun _ ↦ ih.machine nofun⟩
    rw [actives_append]
    exact ⟨hcut.archives, trivial, fun _ ↦ trivial⟩

/-! ### Unlock -/

/-- `unlock` has not set the machine. -/
def Pc.Unlocking : Pc C → Prop
  | .start .unlock | .loadWrappedIdentity | .absent | .unlockDeviceSecret _ | .readDeviceSecret _
  | .unwrapIdentity .. | .loadRetiredKeys .. | .unwrapRetired .. => True
  | _ => False

/-- `unlock` has set the machine. -/
def Pc.Unlocked : Pc C → Prop
  | .rewrap .. | .saveRewrapped .. | .done => True
  | _ => False

/-- Quiet events activate nothing. -/
theorem actives_of_quiet (h : ∀ e ∈ es, e.Quiet) : actives es = [] := by
  refine List.filterMap_eq_nil_iff.mpr fun e he ↦ ?_
  have hquiet := h e he
  cases e with
  | savedIdentity => exact hquiet.elim
  | _ => rfl

theorem awaiting_unlocking {k : Pc C × State C × List (Event C)}
    (h : some (awaiting x s k) = some (pc', s', es))
    (hk : (k.1.Unlocking ∨ k.1 = .done) ∧ ∀ e ∈ k.2.2, e.Quiet) :
    (pc'.Unlocking ∨ pc' = .done) ∧ ∀ e ∈ es, e.Quiet := by
  unfold awaiting at h
  split at h
  · cases h
    exact hk
  · cases h
    exact ⟨.inr rfl, by simp [Event.Quiet]⟩

/-- A step of `unlock` that does not set the machine goes on or is the last one. -/
theorem step_unlocking (h : step x pc s = some (pc', s', es)) (hpc : pc.Unlocking) :
    ((pc'.Unlocking ∨ pc' = .done) ∧ ∀ e ∈ es, e.Quiet) ∨
      ∃ wrapped secret identity retired, pc = .unwrapRetired wrapped secret identity [] retired ∧
        s' = s.unlock identity retired ∧ pc'.Unlocked ∧ actives es = [] := by
  cases pc with
  | start request =>
    cases request with
    | unlock =>
      cases h
      exact .inl ⟨.inl trivial, by simp [Event.Quiet]⟩
    | _ => exact hpc.elim
  | loadWrappedIdentity =>
    refine .inl (awaiting_unlocking h ?_)
    split <;> exact ⟨.inl trivial, by simp [Event.Quiet]⟩
  | absent =>
    cases h
    exact .inl ⟨.inr rfl, by simp [Event.Quiet]⟩
  | unlockDeviceSecret | loadRetiredKeys =>
    exact .inl (awaiting_unlocking h ⟨.inl trivial, by simp [Event.Quiet]⟩)
  | readDeviceSecret wrapped =>
    refine .inl (awaiting_unlocking h ?_)
    split
    · exact ⟨.inr rfl, by simp [Event.Quiet]⟩
    · split
      · exact ⟨.inr rfl, by simp [Event.Quiet]⟩
      · exact ⟨.inl trivial, by simp [Event.Quiet]⟩
  | unwrapIdentity wrapped secret =>
    refine .inl (awaiting_unlocking h ?_)
    split
    · exact ⟨.inr rfl, by simp [Event.Quiet]⟩
    · exact ⟨.inl trivial, by simp [Event.Quiet]⟩
  | unwrapRetired wrapped secret identity entries retired =>
    cases entries with
    | cons entry entries =>
      cases h
      exact .inl ⟨.inl trivial, by simp [Event.Quiet]⟩
    | nil =>
      simp only [step] at h
      split at h <;> cases h <;> exact .inr ⟨_, _, _, _, rfl, rfl, trivial, rfl⟩
  | _ => exact hpc.elim

/-- The re-wrap leaves the machine. -/
theorem play_unlocked {xs : List (Input C)} (h : play xs pc s = (pc', s', es)) (hpc : pc.Unlocked) :
    s'.machine = s.machine := by
  induction xs generalizing pc s es with
  | nil =>
    cases h
    rfl
  | cons x xs ih =>
    rcases play_cons h with ⟨-, -, rfl, -⟩ | ⟨pc₁, s₁, es₁, es₂, hstep, hrest, rfl⟩
    · rfl
    · have hgo : pc₁.Unlocked ∧ s₁.machine = s.machine := by
        cases pc with
        | rewrap identity secret =>
          simp only [step] at hstep
          split at hstep <;> cases hstep <;> exact ⟨trivial, rfl⟩
        | saveRewrapped =>
          cases hstep
          exact ⟨trivial, rfl⟩
        | done => cases hstep
        | _ => exact hpc.elim
      exact (ih hrest hgo.1).trans hgo.2

/-- Nothing is played from the end of an operation. -/
theorem play_done (xs : List (Input C)) (s : State C) : play xs .done s = (.done, s, []) := by
  cases xs <;> rfl

/-- An unlock that sets the machine sets it to the keys that have been active. -/
theorem play_unlocking (hC : C.Lawful) {xs : List (Input C)} (h : play xs pc s = (pc', s', es))
    (hpc : pc.Unlocking) (hs : Intact pc s keys) (hunlocked : .unlocked ∈ es) :
    s'.machine.isUnlocked ∧ allPrivateKeysForDecrypt s'.machine = keyList keys := by
  induction xs generalizing pc s es with
  | nil =>
    cases h
    cases hunlocked
  | cons x xs ih =>
    rcases play_cons h with ⟨-, -, -, rfl⟩ | ⟨pc₁, s₁, es₁, es₂, hstep, hrest, rfl⟩
    · cases hunlocked
    · have hs₁ := step_intact hC hstep hs
      rcases step_unlocking hstep hpc with ⟨hgo, hes₁⟩ |
        ⟨wrapped, secret, identity, retired, rfl, rfl, hpc₁, hes₁⟩
      · have hes₂ := (List.mem_append.mp hunlocked).resolve_right (hes₁ _)
        rcases hgo with hpc₁ | rfl
        · rw [actives_of_quiet hes₁] at hs₁
          exact ih hrest hpc₁ hs₁ hes₂
        · rw [play_done] at hrest
          cases hrest
          cases hes₂
      · rw [play_unlocked hrest hpc₁]
        obtain ⟨-, hkeys⟩ := hs.thread
        refine ⟨rfl, ?_⟩
        rw [← hkeys]
        exact congrArg _ (List.append_nil retired).symm

/-! ### Rotate -/

/-- An operation that resolves with a keypair leaves the machine unlocked. -/
theorem play_resolved {xs : List (Input C)} (h : play xs pc s = (pc', s', es))
    {k : C.IdentityKeypair} (hresolved : .resolved k ∈ es) : s'.machine.isUnlocked := by
  induction xs generalizing pc s es with
  | nil =>
    cases h
    cases hresolved
  | cons x xs ih =>
    rcases play_cons h with ⟨-, -, -, rfl⟩ | ⟨pc₁, s₁, es₁, es₂, hstep, hrest, rfl⟩
    · cases hresolved
    · rcases List.mem_append.mp hresolved with hes₂ | hes₁
      · exact ih hrest hes₂
      · have hlast : pc₁ = .done ∧ s₁.machine.isUnlocked := by
          cases step_act hstep with
          | quiet passes => exact (passes.quiet _ hes₁).elim
          | persisted | rotated => exact ⟨rfl, rfl⟩
          | unlocked _ _ _ _ _ _ events => rcases events with rfl | rfl <;> simp at hes₁
          | _ => simp at hes₁
        obtain ⟨rfl, hunlocked⟩ := hlast
        rw [play_done] at hrest
        cases hrest
        exact hunlocked

theorem play_lock {xs : List (Input C)} (h : play xs (.start .lock) s = (.done, s', es)) :
    actives es = [] := by
  cases xs with
  | nil => cases h
  | cons x xs =>
    rcases play_cons h with ⟨hnone, -, -, -⟩ | ⟨pc₁, s₁, es₁, es₂, hstep, hrest, rfl⟩
    · cases hnone
    · have hlast : pc₁ = .done ∧ actives es₁ = [] := by
        simp only [step, begin_] at hstep
        split at hstep <;> cases hstep <;> exact ⟨rfl, rfl⟩
      obtain ⟨rfl, hactives⟩ := hlast
      rw [play_done] at hrest
      cases hrest
      exact hactives

/-- When no key has been active twice, the unlocked machine holds the keys that have been active. -/
theorem IdentityState.Knows.eq {m : IdentityState C} (h : m.Knows keys)
    (hunlocked : m.isUnlocked) (hnodup : (keys.map C.exportPublicKey).Nodup) :
    allPrivateKeysForDecrypt m = keys := by
  cases m with
  | unlocked identity publicKeyString retired =>
    obtain ⟨-, older, rfl, hretired⟩ := h
    exact congrArg _ (hretired hnodup)
  | _ => cases hunlocked

/-- After any operations and crashes on a new device, an unlock that succeeds finds the stored active
key and then every other key that has been active, newest first and each once; and after a rotate that
completes, the keys in memory are those that a lock and an unlock would find, if no key that was drawn
had been active before. -/
theorem rotation_crash_safe (hC : C.Lawful) (h : Sequential C s es) :
    (∀ xs s₁ es₁, play xs (.start .unlock) s = (.done, s₁, es₁) → .unlocked ∈ es₁ →
      allPrivateKeysForDecrypt s₁.machine = keyList (actives es) ∧
        (∃ active older secret, keyList (actives es) = active :: older ∧
          s₁.keystore.Stores active secret) ∧
        ((keyList (actives es)).map C.exportPublicKey).Nodup) ∧
    ∀ xs s₁ es₁ ys s₂ es₂ zs s₃ es₃ k,
      play xs (.start .rotate) s = (.done, s₁, es₁) → .resolved k ∈ es₁ →
      ((actives (es₁ ++ es)).map C.exportPublicKey).Nodup →
      play ys (.start .lock) s₁ = (.done, s₂, es₂) →
      play zs (.start .unlock) s₂ = (.done, s₃, es₃) → .unlocked ∈ es₃ →
        allPrivateKeysForDecrypt s₃.machine = allPrivateKeysForDecrypt s₁.machine := by
  constructor
  · intro xs s₁ es₁ hrun hunlocked
    have hs := h.intact hC
    have hstart : Intact (.start .unlock) s (actives es) :=
      ⟨hs.archives, nofun, fun _ ↦ hs.machine nofun⟩
    obtain ⟨hopen, hkeys⟩ := play_unlocking hC hrun trivial hstart hunlocked
    have hend := play_intact hC hrun hstart
    refine ⟨hkeys, ?_, Dedupe.nodup_dedupeBy⟩
    have hm := hend.machine nofun
    cases hmachine : s₁.machine with
    | unlocked identity publicKeyString retired =>
      rw [hmachine] at hm hkeys
      obtain ⟨-, older, hactives, -⟩ := hm
      have hstored := hend.archives
      rw [hactives] at hstored
      obtain ⟨secret, hstores, -⟩ := hstored
      exact ⟨identity, retired, secret, hkeys.symm, hstores⟩
    | _ =>
      rw [hmachine] at hopen
      cases hopen
  · intro xs s₁ es₁ ys s₂ es₂ zs s₃ es₃ k hrotate hresolved hnodup hlock hunlock hunlocked
    have h₁ : Sequential C s₁ (es₁ ++ es) := by
      refine h.done ?_ hrotate
      nofun
    have h₂ : Sequential C s₂ (es₂ ++ (es₁ ++ es)) := by
      refine h₁.done ?_ hlock
      nofun
    have hs₂ := h₂.intact hC
    rw [actives_append, play_lock hlock, List.nil_append] at hs₂
    obtain ⟨-, hkeys⟩ := play_unlocking hC hunlock trivial
      ⟨hs₂.archives, nofun, fun _ ↦ hs₂.machine nofun⟩ hunlocked
    rw [hkeys, keyList_of_nodup hnodup]
    exact (((h₁.intact hC).machine nofun).eq (play_resolved hrotate hresolved) hnodup).symm

/-- A `setupNew`, a `rotate` that crashes between its writes, an `unlock` and a `rotate` on the restarted
device, and a crash. -/
def crashes : List (Request (.transparent false) × List (Input (.transparent false))) :=
  [(.init, List.replicate 3 (draw false "" "")), (.setupNew, List.replicate 7 (draw false "a" "s")),
    (.rotate, List.replicate 9 (draw false "b" "")), (.init, List.replicate 3 (draw false "" "")),
    (.unlock, List.replicate 7 (draw false "" "")), (.rotate, List.replicate 11 (draw false "c" "")),
    (.unlock, [])]

/-- A rotate after them, before the last crash. -/
def rotatedAgain : Pc (.transparent false) × State (.transparent false) × List (Event (.transparent false)) :=
  play (List.replicate 12 (draw false "d" "")) (.start .rotate)
    (live crashes.dropLast ⟨.empty, .loading⟩ []).1

def lockedAgain : Pc (.transparent false) × State (.transparent false) × List (Event (.transparent false)) :=
  play [draw false "" ""] (.start .lock) rotatedAgain.2.1

theorem play_of_done {xs : List (Input C)} {pc : Pc C} {s : State C} (h : (play xs pc s).1 = .done) :
    play xs pc s = (.done, (play xs pc s).2.1, (play xs pc s).2.2) := by
  rw [← h]

/-- After them an unlock finds the keys that have been active; and after one more rotate a lock and an
unlock give the keys in memory. -/
theorem rotation_crash_safe_sample :
    (∃ s es, Sequential (.transparent false) s es ∧ actives es = ["c", "a"] ∧
      ∃ xs s₁ es₁, play xs (.start .unlock) s = (.done, s₁, es₁) ∧
        allPrivateKeysForDecrypt s₁.machine = ["c", "a"]) ∧
    ∃ s es, Sequential (.transparent false) s es ∧ actives es = ["c", "a"] ∧
      ∃ xs s₁ es₁ ys s₂ es₂ zs s₃ es₃, play xs (.start .rotate) s = (.done, s₁, es₁) ∧
        play ys (.start .lock) s₁ = (.done, s₂, es₂) ∧
        play zs (.start .unlock) s₂ = (.done, s₃, es₃) ∧
        allPrivateKeysForDecrypt s₁.machine = ["d", "c", "a"] ∧
        allPrivateKeysForDecrypt s₃.machine = allPrivateKeysForDecrypt s₁.machine := by
  constructor
  · have hlife : Sequential (.transparent false) _ _ :=
      Sequential.fresh.live crashes (by decide)
    refine ⟨_, _, hlife, rfl, List.replicate 8 (draw false "" ""), _, _, rfl, ?_⟩
    exact ((rotation_crash_safe (IdentityCrypto.transparent_lawful false) hlife).1
      (List.replicate 8 (draw false "" "")) _ _ rfl (by decide)).1
  · have hlife : Sequential (.transparent false) _ _ :=
      Sequential.fresh.live crashes.dropLast (by decide)
    have hrotate := play_of_done (show rotatedAgain.1 = .done from rfl)
    have hlock := play_of_done (show lockedAgain.1 = .done from rfl)
    have hunlock := play_of_done (show (play (List.replicate 12 (draw false "" "")) (.start .unlock)
      lockedAgain.2.1).1 = .done from rfl)
    refine ⟨_, _, hlife, rfl, _, _, _, _, _, _, _, _, _, hrotate, hlock, hunlock, rfl, ?_⟩
    exact (rotation_crash_safe (IdentityCrypto.transparent_lawful false) hlife).2
      _ _ _ _ _ _ _ _ _ "d" hrotate (by decide) (by decide) hlock hunlock (by decide)

end Aesmsg.Identity.Mobile
