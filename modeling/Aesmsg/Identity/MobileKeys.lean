import Aesmsg.Identity.MobileSteps

/-!
# No private key is lost on mobile

The operations of the machine read the keystore, derive keys and write it back, guarded only by the
state of the machine at their start.  When every write finds the keystore as its operation knew it,
every keypair that `setupNew`, `importIdentity` or `rotate` has resolved with is in the keystore until
a wipe.

## Main results

- `keys_kept`: the keys stay recoverable in every reachable state.
- `overlapping_setups_lose_key`: two overlapping `setupNew` lose the key of the first.
-/

namespace Aesmsg.Identity.Mobile

open Threads

variable {C : IdentityCrypto}

namespace Keystore

/-- The stored active envelope holds `identity` under the stored `secret`. -/
def Stores (k : Keystore C) (identity : C.IdentityKeypair) (secret : String) : Prop :=
  k.deviceSecret = some secret ∧
    k.wrappedIdentity.bind (C.unwrapPrivateKey · secret) = some identity

instance (k : Keystore C) (identity : C.IdentityKeypair) (secret : String) :
    Decidable (k.Stores identity secret) := inferInstanceAs (Decidable (_ ∧ _))

/-- A stored retired entry of its public key holds `identity` under the stored `secret`. -/
def Retains (k : Keystore C) (identity : C.IdentityKeypair) (secret : String) : Prop :=
  k.deviceSecret = some secret ∧ k.wrappedIdentity ≠ none ∧
    ∃ e ∈ k.retired, e.publicKeyString = C.exportPublicKey identity ∧
      C.unwrapPrivateKey e.wrapped secret = some identity

/-- The keypair is in the stored active envelope or in a stored retired entry, and unwraps under the
stored device secret. -/
def Recoverable (k : Keystore C) (identity : C.IdentityKeypair) : Prop :=
  ∃ secret, k.deviceSecret = some secret ∧
    ((∃ w, k.wrappedIdentity = some w ∧ C.unwrapPrivateKey w secret = some identity) ∨
      ∃ e ∈ k.retired, C.unwrapPrivateKey e.wrapped secret = some identity)

variable {k : Keystore C} {identity other : C.IdentityKeypair} {secret other' : String}

theorem recoverable (h : k.Stores identity secret ∨ k.Retains identity secret) :
    k.Recoverable identity := by
  rcases h with ⟨hsecret, hstored⟩ | ⟨hsecret, -, e, he, -, hunwrap⟩
  · obtain ⟨w, hw, hunwrap⟩ := Option.bind_eq_some_iff.mp hstored
    exact ⟨secret, hsecret, .inl ⟨w, hw, hunwrap⟩⟩
  · exact ⟨secret, hsecret, .inr ⟨e, he, hunwrap⟩⟩

theorem Stores.ne_none (h : k.Stores identity secret) : k.wrappedIdentity ≠ none := by
  intro hnone
  have hstored := h.2
  rw [hnone] at hstored
  cases hstored

/-- There is one active key and one secret. -/
theorem Stores.unique (h : k.Stores identity secret) (h' : k.Stores other other') :
    identity = other ∧ secret = other' := by
  obtain ⟨hsecret, hstored⟩ := h
  obtain ⟨hsecret', hstored'⟩ := h'
  obtain rfl := Option.some.inj (hsecret.symm.trans hsecret')
  exact ⟨Option.some.inj (hstored.symm.trans hstored'), rfl⟩

/-- A new active envelope leaves the retired keys. -/
theorem Retains.saveIdentity (h : k.Retains identity secret) (w : C.WrappedKey) :
    (k.saveIdentity w).Retains identity secret := by
  obtain ⟨hsecret, -, hentry⟩ := h
  exact ⟨hsecret, nofun, hentry⟩

theorem stores_saveIdentity {w : C.WrappedKey} (hsecret : k.deviceSecret = some secret)
    (hw : C.unwrapPrivateKey w secret = some identity) : (k.saveIdentity w).Stores identity secret :=
  ⟨hsecret, hw⟩

/-- A new retired list that drops nothing but entries of the key it retires retains all keys. -/
theorem Retains.saveRetired (hC : C.Lawful) {r : Rotation C} (hr : r.Sound)
    {entries : List (RetiredKeyEntry C.WrappedKey)}
    (hentries : ∃ existing, entries = prependRetired existing r.retiredEntry)
    (hstores : k.Stores r.oldActive r.deviceSecret)
    (hdrops : ∀ e ∈ k.retired, e ∈ entries ∨ e.publicKeyString = r.retiredEntry.publicKeyString) :
    (k.saveRetired entries).Retains r.oldActive r.deviceSecret ∧
      ∀ {identity : C.IdentityKeypair} {secret : String}, k.Retains identity secret →
        (k.saveRetired entries).Retains identity secret := by
  obtain ⟨existing, rfl⟩ := hentries
  have hloaded : (k.saveRetired (prependRetired existing r.retiredEntry)).retired =
      prependRetired existing r.retiredEntry := parseRetiredKeys_prependRetired _ _
  have hold : (k.saveRetired (prependRetired existing r.retiredEntry)).Retains r.oldActive
      r.deviceSecret := by
    refine ⟨hstores.1, hstores.ne_none, r.retiredEntry, ?_, hr.publicKey, hr.retired⟩
    rw [hloaded]
    exact mem_prependRetired _ _
  refine ⟨hold, ?_⟩
  rintro identity secret ⟨hsecret, hne, e, he, hpk, hunwrap⟩
  rcases hdrops e he with he | heq
  · exact ⟨hsecret, hne, e, by rwa [hloaded], hpk, hunwrap⟩
  · obtain rfl : identity = r.oldActive :=
      hC.exportPublicKey_injective (hpk.symm.trans (heq.trans hr.publicKey))
    obtain rfl : r.deviceSecret = secret := Option.some.inj (hstores.1.symm.trans hsecret)
    exact hold

end Keystore

def Event.erases : Event C → Bool
  | .erased _ => true
  | _ => false

/-- What has happened since a wipe erased something. -/
abbrev sinceErased (t : Trace (Event C)) : Trace (Event C) := sinceLast Event.erases t

/-- Every write finds the keystore as its operation knew it:

* a new device secret is stored only where no identity is;
* `persistAndUnlock` saves its envelope only where no identity is stored and the device secret is the
  one it created;
* the re-wrap of `unlock` finds its key in the stored envelope, under its device secret;
* `rotate` finds its old key in the stored envelope, under its device secret, at both of its writes,
  and the retired list it writes drops no stored entry but one of its old key.

No wipe has erased anything between the writes of one operation or before it resolves. -/
def WritesInTurn (C : IdentityCrypto) : Program.Guard (Input C) (Pc C) (State C) (Event C) :=
  fun i _ pc s t ↦
    match pc with
    | .storeDeviceSecret _ _ => s.keystore.wrappedIdentity = none
    | .saveIdentity _ secret _ =>
      s.keystore.wrappedIdentity = none ∧ s.keystore.deviceSecret = some secret
    | .persisted identity secret =>
      (i, .savedIdentity .persistAndUnlock identity secret) ∈ sinceErased t
    | .saveRewrapped identity secret _ => s.keystore.Stores identity secret
    | .saveRetired r newRetired => s.keystore.Stores r.oldActive r.deviceSecret ∧
      ∀ e ∈ s.keystore.retired, e ∈ newRetired ∨ e.publicKeyString = r.retiredEntry.publicKeyString
    | .saveActive r => s.keystore.Stores r.oldActive r.deviceSecret ∧
      (i, .savedRetired r.oldActive r.deviceSecret) ∈ sinceErased t
    | .rotated r => (i, .savedIdentity .rotate r.newIdentity r.deviceSecret) ∈ sinceErased t
    | _ => True

instance (i : Nat) (x : Input C) (pc : Pc C) (s : State C) (t : Trace (Event C)) :
    Decidable (WritesInTurn C i x pc s t) := by
  cases pc with
  | storeDeviceSecret => exact inferInstanceAs (Decidable (_ = none))
  | saveIdentity | saveRetired | saveActive => exact inferInstanceAs (Decidable (_ ∧ _))
  | persisted | rotated => exact inferInstanceAs (Decidable (_ ∈ sinceErased t))
  | saveRewrapped identity secret =>
    exact inferInstanceAs (Decidable (s.keystore.Stores identity secret))
  | _ => exact isTrue trivial

/-- Every keypair resolved with since the last wipe is recoverable. -/
def KeysKept (c : Config (Pc C) (State C) (Event C)) : Prop :=
  ∀ i identity, (i, .resolved identity) ∈ sinceErased c.trace →
    c.shared.keystore.Recoverable identity

/-! ## The invariant -/

/-- What has been saved since the last wipe is in the keystore. -/
structure Safe (s : State C) (t : Trace (Event C)) : Prop where
  machine : s.machine.Sound
  saved : ∀ i w identity secret, (i, .savedIdentity w identity secret) ∈ sinceErased t →
    s.keystore.Stores identity secret ∨ s.keystore.Retains identity secret
  retained : ∀ i identity secret, (i, .savedRetired identity secret) ∈ sinceErased t →
    s.keystore.Retains identity secret
  resolved : ∀ i identity, (i, .resolved identity) ∈ sinceErased t →
    ∃ j w secret, (j, .savedIdentity w identity secret) ∈ sinceErased t

variable {s s' : State C} {t : Trace (Event C)}

/-- Where no identity is stored, none has been saved since the last wipe. -/
theorem Safe.none_saved (h : Safe s t) (hnone : s.keystore.wrappedIdentity = none) :
    (∀ i w identity secret, (i, .savedIdentity w identity secret) ∉ sinceErased t) ∧
      ∀ i identity secret, (i, .savedRetired identity secret) ∉ sinceErased t := by
  constructor
  · intro i w identity secret hmem
    rcases h.saved i w identity secret hmem with hs | hr
    · exact hs.ne_none hnone
    · exact hr.2.1 hnone
  · intro i identity secret hmem
    exact (h.retained i identity secret hmem).2.1 hnone

/-- A wipe erases the obligations. -/
theorem Safe.erase (hm : s.machine.Sound) {e : Nat × Event C} (he : e.2.erases = true) :
    Safe s (e :: t) := by
  have hnil : sinceErased (e :: t) = [] := sinceLast_cons_stop he
  refine ⟨hm, ?_, ?_, ?_⟩
  all_goals
    rw [hnil]
    intros
    contradiction

/-- A step that erases nothing keeps the invariant when the keystore holds what it saves and still
holds what has been saved before. -/
theorem Safe.append (h : Safe s t) (hm : s'.machine.Sound) {i : Nat} {es : List (Event C)}
    (hes : ∀ e ∈ es, e.erases = false)
    (hsave : ∀ w k d, .savedIdentity w k d ∈ es → s'.keystore.Stores k d)
    (hretain : ∀ k d, .savedRetired k d ∈ es → s'.keystore.Retains k d)
    (hresolve : ∀ k, .resolved k ∈ es → ∃ j w d, (j, .savedIdentity w k d) ∈ sinceErased t)
    (hsaved : ∀ k d, s.keystore.Stores k d ∨ s.keystore.Retains k d →
      s'.keystore.Stores k d ∨ s'.keystore.Retains k d)
    (hretained : ∀ k d, s.keystore.Retains k d → s'.keystore.Retains k d) :
    Safe s' (tag i es ++ t) := by
  have hmem : ∀ {j : Nat} {e : Event C}, (j, e) ∈ sinceErased (tag i es ++ t) →
      e ∈ es ∨ (j, e) ∈ sinceErased t := by
    intro j e he
    rw [sinceErased, sinceLast_append hes] at he
    rcases List.mem_append.mp he with he | he
    · obtain ⟨e', he', heq⟩ := List.mem_map.mp he
      exact .inl ((Prod.mk.inj heq).2 ▸ he')
    · exact .inr he
  refine ⟨hm, ?_, ?_, ?_⟩
  · intro j w k d he
    rcases hmem he with he | he
    · exact .inl (hsave w k d he)
    · exact hsaved k d (h.saved j w k d he)
  · intro j k d he
    rcases hmem he with he | he
    · exact hretain k d he
    · exact hretained k d (h.retained j k d he)
  · intro j k he
    have hk : ∃ j w d, (j, .savedIdentity w k d) ∈ sinceErased t := by
      rcases hmem he with he | he
      · exact hresolve k he
      · exact h.resolved j k he
    obtain ⟨j', w, d, hk⟩ := hk
    rw [sinceErased, sinceLast_append hes]
    exact ⟨j', w, d, List.mem_append_right _ hk⟩

/-- A step that saves nothing, on the same keystore. -/
theorem Safe.idle (h : Safe s t) (hm : s'.machine.Sound) (hk : s'.keystore = s.keystore) {i : Nat}
    {es : List (Event C)}
    (hes : ∀ e ∈ es, e.Quiet ∨ e = .unlocked ∨ (∃ request, e = .returned request) ∨
      ∃ k, e = .resolved k ∧ ∃ j w d, (j, .savedIdentity w k d) ∈ sinceErased t) :
    Safe s' (tag i es ++ t) := by
  refine h.append hm ?_ ?_ ?_ ?_ ?_ ?_
  · intro e he
    rcases hes e he with hq | rfl | ⟨_, rfl⟩ | ⟨_, rfl, -⟩
    · cases e <;> first | rfl | exact hq.elim
    all_goals rfl
  · intro w k d he
    rcases hes _ he with hq | hu | ⟨_, hr⟩ | ⟨_, hr, -⟩
    · exact hq.elim
    · cases hu
    · cases hr
    · cases hr
  · intro k d he
    rcases hes _ he with hq | hu | ⟨_, hr⟩ | ⟨_, hr, -⟩
    · exact hq.elim
    · cases hu
    · cases hr
    · cases hr
  · intro k he
    rcases hes _ he with hq | hu | ⟨_, hr⟩ | ⟨_, hr, hsaved⟩
    · exact hq.elim
    · cases hu
    · cases hr
    · cases hr
      exact hsaved
  · rw [hk]
    exact fun _ _ ↦ id
  · rw [hk]
    exact fun _ _ ↦ id

theorem keeps (hC : C.Lawful) : Program.Keeps (program C) (WritesInTurn C) Safe
    fun _ pc _ _ ↦ pc.Sound where
  born _ _ _ _ _ _ := trivial
  others _ _ _ _ _ h := h
  own := by
    intro i x pc s t pc' s' es hok hI hpc hstep
    obtain ⟨hpc', hm'⟩ := step_sound hC hstep hpc hI.machine
    refine ⟨?_, hpc'⟩
    cases step_act hstep with
    | quiet passes => exact hI.idle hm' rfl fun e he ↦ .inl (passes.quiet e he)
    | lock => exact hI.idle hm' rfl (by simp [Event.Quiet])
    | initialised => exact hI.idle hm' rfl (by simp)
    | absent => exact hI.idle hm' rfl (by simp)
    | wiped => exact hI.idle hm' rfl (by simp)
    | unlocked wrapped secret identity retired _ rest events =>
      refine hI.idle hm' rfl ?_
      rcases events with rfl | rfl <;> simp
    | persisted identity secret => exact hI.idle hm' rfl (by simpa using .inr ⟨i, _, secret, hok⟩)
    | rotated r => exact hI.idle hm' rfl (by simpa using .inr ⟨i, _, _, hok⟩)
    | deleteWrappedIdentity | deleteRetiredKeys | deleteDeviceSecret => exact Safe.erase hm' rfl
    | storeDeviceSecret identity secret =>
      obtain ⟨hsaved, hretained⟩ := hI.none_saved hok
      exact ⟨hm', fun j w k d hk ↦ absurd hk (hsaved j w k d),
        fun j k d hk ↦ absurd hk (hretained j k d), hI.resolved⟩
    | saveIdentity identity secret wrapped =>
      obtain ⟨hnone, hsecret⟩ := hok
      refine hI.append hm' (by simp [Event.erases]) ?_ (by simp) (by simp) ?_ ?_
      · rintro w k d hmem
        cases List.mem_singleton.mp hmem
        exact Keystore.stores_saveIdentity hsecret hpc
      · rintro k d (hs | hr)
        · exact absurd hnone hs.ne_none
        · exact absurd hnone hr.2.1
      · intro k d hr
        exact absurd hnone hr.2.1
    | saveRewrapped identity secret rewrapped =>
      refine hI.append hm' (by simp [Event.erases]) ?_ (by simp) (by simp) ?_ ?_
      · intro w k d hmem
        simp only [List.mem_cons, reduceCtorEq, List.not_mem_nil, or_false, false_or] at hmem
        cases hmem
        exact Keystore.stores_saveIdentity hok.1 hpc
      · rintro k d (hs | hr)
        · obtain ⟨rfl, rfl⟩ := hs.unique hok
          exact .inl (Keystore.stores_saveIdentity hok.1 hpc)
        · exact .inr (hr.saveIdentity _)
      · exact fun k d hr ↦ hr.saveIdentity _
    | saveRetired r newRetired =>
      obtain ⟨hstores, hdrops⟩ := hok
      obtain ⟨hr, hentries⟩ := hpc
      obtain ⟨hold, hretains⟩ := Keystore.Retains.saveRetired hC hr hentries hstores hdrops
      refine hI.append hm' (by simp [Event.erases]) (by simp) ?_ (by simp) ?_ ?_
      · intro k d hmem
        cases List.mem_singleton.mp hmem
        exact hold
      · rintro k d (hs | hr)
        · exact .inl hs
        · exact .inr (hretains hr)
      · exact fun k d hr ↦ hretains hr
    | saveActive r =>
      obtain ⟨hstores, hretired⟩ := hok
      refine hI.append hm' (by simp [Event.erases]) ?_ (by simp) (by simp) ?_ ?_
      · intro w k d hmem
        cases List.mem_singleton.mp hmem
        exact Keystore.stores_saveIdentity hstores.1 hpc.active
      · rintro k d (hs | hr)
        · obtain ⟨rfl, rfl⟩ := hs.unique hstores
          exact .inr ((hI.retained i _ _ hretired).saveIdentity _)
        · exact .inr (hr.saveIdentity _)
      · exact fun k d hr ↦ hr.saveIdentity _

/-- From any keystore, when every write finds the keystore as its operation knew it, no keypair is
lost before a wipe. -/
theorem keys_kept (hC : C.Lawful) (keystore : Keystore C) {c : Config (Pc C) (State C) (Event C)}
    (hc : (program C).Reachable (WritesInTurn C) ⟨keystore, .loading⟩ c) : KeysKept c := by
  have hinit : Safe (⟨keystore, .loading⟩ : State C) [] :=
    ⟨trivial, by rintro _ _ _ _ ⟨⟩, by rintro _ _ _ ⟨⟩, by rintro _ _ ⟨⟩⟩
  have hI := (Program.invariant (keeps hC) hinit hc).shared
  intro i identity hmem
  obtain ⟨j, w, secret, hsaved⟩ := hI.resolved i identity hmem
  exact Keystore.recoverable (hI.saved j w identity secret hsaved)

/-- Draws for the transparent provider. -/
def draw (heavy : Bool) (generated randomSecret : String) : Input (.transparent heavy) :=
  ⟨0, generated, randomSecret, (), none⟩

/-- `init`, a `setupNew` and a `rotate`, one after the other. -/
def setupThenRotate : List (Action (Request (.transparent false)) (Input (.transparent false))) :=
  .spawn .init :: List.replicate 3 (.run 0 (draw false "" "")) ++
    .spawn .setupNew :: List.replicate 7 (.run 1 (draw false "a" "s")) ++
    .spawn .rotate :: List.replicate 11 (.run 2 (draw false "b" ""))

theorem keys_kept_sample :
    ∃ c, (program (.transparent false)).exec (WritesInTurn _)
      (Program.start ⟨Keystore.empty, .loading⟩) setupThenRotate = some c ∧ KeysKept c ∧
        (1, .resolved "a") ∈ sinceErased c.trace ∧ (2, .resolved "b") ∈ sinceErased c.trace := by
  have hrun : ((program (.transparent false)).exec (WritesInTurn _)
      (Program.start ⟨Keystore.empty, .loading⟩) setupThenRotate).map (fun c ↦
        (decide ((1, .resolved "a") ∈ sinceErased c.trace),
          decide ((2, .resolved "b") ∈ sinceErased c.trace))) = some (true, true) := by
    decide
  obtain ⟨c, hc, hmem⟩ := Option.map_eq_some_iff.mp hrun
  obtain ⟨ha, hb⟩ := Prod.mk.inj hmem
  exact ⟨c, hc, keys_kept (IdentityCrypto.transparent_lawful false) _ (Program.runs_of_exec hc),
    of_decide_eq_true ha, of_decide_eq_true hb⟩

/-- Two `setupNew` that both pass the guard: the first resolves, the second stores its device secret. -/
def overlappingSetups : List (Action (Request (.transparent false)) (Input (.transparent false))) :=
  .spawn .init :: List.replicate 3 (.run 0 (draw false "" "")) ++
    [.spawn .setupNew, .spawn .setupNew, .run 1 (draw false "" ""), .run 2 (draw false "" "")] ++
    List.replicate 6 (.run 1 (draw false "a" "s")) ++ List.replicate 3 (.run 2 (draw false "b" "u"))

/-- The second of two overlapping `setupNew` makes the key of the first unrecoverable. -/
theorem overlapping_setups_lose_key : ¬∀ (C : IdentityCrypto) (keystore : Keystore C)
    (c : Config (Pc C) (State C) (Event C)), C.Lawful →
      (program C).Reachable .always ⟨keystore, .loading⟩ c → KeysKept c := by
  intro h
  have hrun : ((program (.transparent false)).exec .always
      (Program.start ⟨Keystore.empty, .loading⟩) overlappingSetups).map (fun c ↦
        (decide ((1, .resolved "a") ∈ sinceErased c.trace), c.shared.keystore.deviceSecret,
          c.shared.keystore.wrappedIdentity, c.shared.keystore.retiredIdentities)) =
      some (true, some "u", some ("a", "s"), none) := rfl
  obtain ⟨c, hc, hv⟩ := Option.map_eq_some_iff.mp hrun
  obtain ⟨hresolved, hv⟩ := Prod.mk.inj hv
  obtain ⟨hsecret, hv⟩ := Prod.mk.inj hv
  obtain ⟨hwrapped, hretired⟩ := Prod.mk.inj hv
  obtain ⟨secret, hs, hk⟩ := h _ _ c (IdentityCrypto.transparent_lawful false)
    (Program.runs_of_exec hc) 1 "a" (of_decide_eq_true hresolved)
  obtain rfl := Option.some.inj (hsecret.symm.trans hs)
  rcases hk with ⟨w, hw, hunwrap⟩ | ⟨e, he, -⟩
  · obtain rfl := Option.some.inj (hwrapped.symm.trans hw)
    exact absurd hunwrap (by decide)
  · rw [Keystore.retired, hretired] at he
    cases he

end Aesmsg.Identity.Mobile
