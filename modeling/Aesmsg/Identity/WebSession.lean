import Aesmsg.Identity.WebKeys

/-!
# The decrypt keys of a web session

In one tab whose operations run one after the other, with the background loops of `unlock` between
their steps.  What the loop of the session has left to unwrap, appended to the retired keys in memory,
are the stored retired keys but the active one of the memory; a rotation keeps that over its two
writes, to the database and to the memory.

## Main results

- `decrypt_keys_agree`: the decrypt keys are the stored active key and the first of the stored retired
  keys, and all of them when the loops have ended.
- `keys_lag`: between its two writes a rotation leaves the keys in memory behind.
-/

namespace Aesmsg.Identity.Web

open Threads

variable {C : IdentityCrypto}

/-! ## Runs of one tab -/

/-- The thread whose operation has been called last, unless that has ended. -/
def running : Trace (Event C) → Option Nat
  | [] => none
  | (i, .called _) :: _ => some i
  | (_, .resolved _) :: _ | (_, .rejected _) :: _ => none
  | _ :: t => running t

/-- An event after which another session, or none, may be on. -/
def Event.switches : Event C → Bool
  | .resolved (.unlock _) | .resolved (.setupNew _) | .resolved (.importIdentity ..)
  | .called ⟨_, .lock⟩ | .called ⟨_, .wipe⟩ => true
  | _ => false

/-- The last event that switched the session. -/
def session (t : Trace (Event C)) : Option (Nat × Event C) := t.find? (·.2.switches)

/-- What the caller of an operation sees to; `login` is the passphrase under which it has unwrapped the
envelope of an import. -/
def Operation.MayStart (login : C.WrappedKey → String) (m : Tab C) : Operation C → Prop
  | .mount => m.stateRef = .loading
  | .setupNew _ => m.stateRef = .noIdentity
  | .importIdentity envelope keypair =>
    m.stateRef = .noIdentity ∧ C.unwrapPrivateKey envelope (login envelope) = some keypair
  | .unlock _ => m.stateRef = .locked
  | .rotate _ | .lock | .wipe => True

/-- The operations of one tab start when the one before has ended, storage succeeds, and `rotate` draws
a keypair that is not stored. -/
def OneByOne (C : IdentityCrypto) (tab : Nat) (login : C.WrappedKey → String) :
    Program.Guard (Input C) (Thread C) (State C) (Event C) :=
  fun _ x thread s t ↦ (thread.tab = tab ∧ x.readFails = false) ∧
    match thread.pc with
    | .start operation =>
      (x.rejects = none ∧ running t = none) ∧ operation.MayStart login (s.tabs tab)
    | .wrapIdentity .. | .priorLoaded .. | .deletedIdentity => x.rejects = none
    | .generateNew .. => ∀ record ∈ s.db.records, record.publicKeyString ≠ C.exportPublicKey x.generated
    | _ => True

instance (login : C.WrappedKey → String) (m : Tab C) (operation : Operation C) :
    Decidable (operation.MayStart login m) := by
  cases operation with
  | importIdentity => exact inferInstanceAs (Decidable (_ ∧ _))
  | mount | setupNew | unlock => exact inferInstanceAs (Decidable (_ = _))
  | rotate | lock | wipe => exact isTrue trivial

instance (tab : Nat) (login : C.WrappedKey → String) (i : Nat) (x : Input C) (thread : Thread C)
    (s : State C) (t : Trace (Event C)) : Decidable (OneByOne C tab login i x thread s t) := by
  obtain ⟨tab', pc⟩ := thread
  refine @instDecidableAnd _ _ inferInstance ?_
  cases pc with
  | start => exact inferInstanceAs (Decidable ((_ ∧ _) ∧ _))
  | wrapIdentity | priorLoaded | deletedIdentity => exact inferInstanceAs (Decidable (_ = _))
  | generateNew => exact inferInstanceAs (Decidable (∀ _ ∈ _, _))
  | _ => exact isTrue trivial

/-! ## Stored keys -/

/-- The envelope is one of the key that the record names. -/
def StoredIdentity.Named (record : StoredIdentity C) : Prop :=
  ∀ secret k, C.unwrapPrivateKey record.wrapped secret = some k →
    C.exportPublicKey k = record.publicKeyString

/-- A database in which a record names its key, and retired keys are stored only beside an active
one. -/
structure Db.Consistent (db : Db C) : Prop where
  named : ∀ record ∈ db.records, record.Named
  tidy : db.identity = none → db.retiredEntries = []

/-- The stored active key, under the passphrase. -/
def Db.Stores (db : Db C) (passphrase : String) (active : C.IdentityKeypair) : Prop :=
  ∃ record, db.identity = some record ∧ C.unwrapPrivateKey record.wrapped passphrase = some active

/-- The stored retired keys that unwrap under the passphrase, but `active`. -/
def Db.retiredKeys (db : Db C) (passphrase : String) (active : C.IdentityKeypair) :
    List C.IdentityKeypair := (unwrapAll passphrase db.retiredEntries).filter (· ≠ active)

/-- The background loop of a thread, with its epoch and passphrase. -/
def Pc.loop : Pc C → Option (Nat × String)
  | .backgroundLoaded epoch passphrase .. | .background epoch passphrase .. => some (epoch, passphrase)
  | _ => none

/-- The database is ahead of the memory: a rotation has committed, or a wipe has erased. -/
def Pc.Ahead : Pc C → Prop
  | .committed .. | .deletedIdentity | .clearedRetired => True
  | _ => False

def Event.committedKey : Event C → Option String
  | .committed _ record => some record.publicKeyString
  | _ => none

/-- The public keys of the records that have been put, newest first. -/
def committedKeys (t : Trace (Event C)) : List String := t.filterMap (·.2.committedKey)

def Db.publicKeys (db : Db C) : List String := db.records.map StoredIdentity.publicKeyString

/-- The stored keys, the active one and the retired ones, are in the order in which they have been put,
newest first, before those of the first database. -/
def NewestFirst (db₀ db : Db C) (t : Trace (Event C)) : Prop :=
  db.publicKeys.Sublist (committedKeys t ++ db₀.publicKeys)

/-- The decrypt keys are the stored active key followed by stored retired keys in their order, each
once; by all of them when no background loop is left. -/
def Agrees (db₀ : Db C) (tab : Nat) (c : Config (Thread C) (State C) (Event C)) : Prop :=
  NewestFirst db₀ c.shared.db c.trace ∧ ∃ passphrase active keys, c.shared.db.Stores passphrase active ∧
    (c.shared.tabs tab).getAllPrivateKeysForDecrypt = active :: keys ∧
      keys.Sublist (c.shared.db.retiredKeys passphrase active) ∧
        ((∀ thread ∈ c.threads, thread.pc.loop = none) →
          keys = c.shared.db.retiredKeys passphrase active) ∧
            (active :: c.shared.db.retiredKeys passphrase active).Nodup

section Unwrapping

variable {secret : String} {entries : List (RetiredKeyEntry C.WrappedKey)} {active : C.IdentityKeypair}

theorem mem_unwrapAll {k : C.IdentityKeypair} (hnamed : ∀ e ∈ entries, (recordOf e).Named)
    (h : k ∈ unwrapAll secret entries) : ∃ e ∈ entries, e.publicKeyString = C.exportPublicKey k := by
  obtain ⟨e, he, hk⟩ := List.mem_filterMap.mp h
  exact ⟨e, he, (hnamed e he secret k hk).symm⟩

/-- Entries of distinct public keys hold distinct keys. -/
theorem nodup_unwrapAll (hnamed : ∀ e ∈ entries, (recordOf e).Named)
    (hnodup : (entries.map RetiredKeyEntry.publicKeyString).Nodup) :
    (unwrapAll secret entries).Nodup := by
  induction entries with
  | nil => exact .nil
  | cons e entries ih =>
    obtain ⟨hnamed₁, hnamed⟩ := List.forall_mem_cons.mp hnamed
    rw [List.map_cons, List.nodup_cons] at hnodup
    obtain ⟨hnew, hnodup⟩ := hnodup
    cases hk : C.unwrapPrivateKey e.wrapped secret with
    | none =>
      rw [unwrapAll_cons_none hk]
      exact ih hnamed hnodup
    | some k =>
      rw [unwrapAll_cons_some hk]
      refine List.nodup_cons.mpr ⟨fun hmem ↦ hnew ?_, ih hnamed hnodup⟩
      obtain ⟨e', he', hkey⟩ := mem_unwrapAll hnamed hmem
      have hname : C.exportPublicKey k = e.publicKeyString := hnamed₁ secret k hk
      exact List.mem_map.mpr ⟨e', he', hkey.trans hname⟩

/-- Dropping the entries of a public key drops its key. -/
theorem unwrapAll_filter (hC : C.Lawful) (hnamed : ∀ e ∈ entries, (recordOf e).Named) :
    unwrapAll secret (entries.filter (·.publicKeyString ≠ C.exportPublicKey active)) =
      (unwrapAll secret entries).filter (· ≠ active) := by
  induction entries with
  | nil => rfl
  | cons e entries ih =>
    obtain ⟨hnamed₁, hnamed⟩ := List.forall_mem_cons.mp hnamed
    have ih := ih hnamed
    cases hk : C.unwrapPrivateKey e.wrapped secret with
    | none =>
      rw [unwrapAll_cons_none hk, ← ih]
      by_cases hkey : e.publicKeyString = C.exportPublicKey active
      · rw [List.filter_cons_of_neg (by simpa using hkey)]
      · rw [List.filter_cons_of_pos (by simpa using hkey), unwrapAll_cons_none hk]
    | some k =>
      have hname : C.exportPublicKey k = e.publicKeyString := hnamed₁ secret k hk
      rw [unwrapAll_cons_some hk]
      by_cases hkey : k = active
      · subst hkey
        rw [List.filter_cons_of_neg (by simpa using hname.symm), List.filter_cons_of_neg (by simp), ih]
      · have hne : e.publicKeyString ≠ C.exportPublicKey active := fun h ↦
          hkey (hC.exportPublicKey_injective (hname.trans h))
        rw [List.filter_cons_of_pos (by simpa using hne), List.filter_cons_of_pos (by simpa using hkey),
          unwrapAll_cons_some hk, ih]

end Unwrapping

/-! ## The invariant -/

/-- The memory and the database between two operations. -/
structure AtRest (m : Tab C) (db : Db C) : Prop where
  tidy : db.identity = none → db.retiredEntries = []
  closed : m.stateRef ≠ .unlocked → m.identityRef = none
  empty : m.stateRef = .noIdentity → db.identity = none
  opened : m.stateRef = .unlocked →
    ∃ active passphrase, m.identityRef = some active ∧ db.Stores passphrase active

/-- The rotation is of the active key, in memory and in the database. -/
structure Rotation.Of (r : Rotation C) (m : Tab C) (db : Db C) : Prop where
  rest : AtRest m db
  epoch : r.epoch = m.epochRef
  active : m.identityRef = some r.oldActive
  stored : db.identity = some r.stored

/-- What a point of an operation knows of the memory and the database. -/
def Pc.Fits (m : Tab C) (db : Db C) : Pc C → Prop
  | .mounted exists_ => AtRest m db ∧ m.stateRef = .loading ∧ exists_ = db.identity.isSome
  | .generateIdentity _ | .wrapIdentity .. => AtRest m db ∧ m.stateRef = .noIdentity
  | .saved operation id => (Event.resolved operation).switches = true ∧ m.stateRef = .noIdentity ∧
    (∃ passphrase, db.Stores passphrase id) ∧ db.retiredEntries = []
  | .unlockLoaded _ _ record => AtRest m db ∧ m.stateRef = .locked ∧ record = db.identity
  | .unwrapActive _ _ record => AtRest m db ∧ m.stateRef = .locked ∧ db.identity = some record
  | .rotateLoaded epoch _ oldActive stored => AtRest m db ∧ epoch = m.epochRef ∧
    m.identityRef = some oldActive ∧ stored = db.identity
  | .reverify r => r.Of m db
  | .fingerprintOld r => r.Of m db ∧ db.Stores r.passphrase r.oldActive
  | .generateNew r retiredEntry =>
    r.Of m db ∧ db.Stores r.passphrase r.oldActive ∧ recordOf retiredEntry = r.stored
  | .wrapNew r retiredEntry newId =>
    r.Of m db ∧ db.Stores r.passphrase r.oldActive ∧ recordOf retiredEntry = r.stored ∧
      ∀ record ∈ db.records, record.publicKeyString ≠ C.exportPublicKey newId
  | .priorLoaded r retiredEntry newId newWrapped prior =>
    (r.Of m db ∧ db.Stores r.passphrase r.oldActive ∧ recordOf retiredEntry = r.stored ∧
      ∀ record ∈ db.records, record.publicKeyString ≠ C.exportPublicKey newId) ∧
      (∃ salt, newWrapped = C.wrapPrivateKey newId r.passphrase salt) ∧ prior = db.retiredEntries
  | .committed r newId => m.stateRef = .unlocked ∧ r.epoch = m.epochRef ∧
    m.identityRef = some r.oldActive ∧ db.Stores r.passphrase newId ∧
      ∃ older, unwrapAll r.passphrase db.retiredEntries = r.oldActive :: older ∧
        (newId :: r.oldActive :: older).Nodup
  | .deletedIdentity => db.identity = none
  | .clearedRetired => db.identity = none ∧ db.retired = none
  | .start _ | .backgroundLoaded .. | .background .. | .done => True

/-- An operation is under way. -/
def Pc.Active : Pc C → Prop
  | .start _ | .backgroundLoaded .. | .background .. | .done => False
  | _ => True

/-- A wipe is under way. -/
def Pc.Wiping : Pc C → Prop
  | .deletedIdentity | .clearedRetired => True
  | _ => False

/-- The entries that a background loop has left. -/
def Pc.rest : Pc C → List (RetiredKeyEntry C.WrappedKey)
  | .backgroundLoaded _ _ activePk entries => retiredExcludingActive entries activePk
  | .background _ _ entry entries => entry :: entries
  | _ => []

/-- The retired keys in memory, with those of `rest`, are the stored ones but the active key of the
memory. -/
structure Session (m : Tab C) (db : Db C) (passphrase : String)
    (rest : List (RetiredKeyEntry C.WrappedKey)) : Prop where
  opens : ∃ k, db.Stores passphrase k
  keys : ∃ active, m.identityRef = some active ∧
    m.retiredKeypairsRef ++ unwrapAll passphrase rest = db.retiredKeys passphrase active

/-- The memory and the database fit, whatever the threads. -/
structure Settled (m : Tab C) (db : Db C) (t : Trace (Event C)) : Prop where
  named : ∀ record ∈ db.records, record.Named
  rest : running t = none → AtRest m db
  owned : m.stateRef = .unlocked →
    ∃ j e, session t = some (j, e) ∧ ∀ tab, e ≠ .called ⟨tab, .lock⟩

/-- What thread `j` knows of the memory, the database and the session. -/
structure Plays (j : Nat) (pc : Pc C) (m : Tab C) (db : Db C) (t : Trace (Event C)) : Prop where
  runs : pc.Active → running t = some j
  called : running t = some j → pc.Active
  fits : pc.Fits m db
  past : ∀ epoch passphrase, pc.loop = some (epoch, passphrase) → epoch ≤ m.epochRef
  live : ∀ passphrase, pc.loop = some (m.epochRef, passphrase) →
    m.stateRef = .unlocked ∧ session t = some (j, .resolved (.unlock passphrase))
  wipes : pc.Wiping → ∃ tab, session t = some (j, .called ⟨tab, .wipe⟩)
  wiping : ∀ tab, session t = some (j, .called ⟨tab, .wipe⟩) → m.stateRef = .unlocked → pc.Wiping
  owner : ∀ operation, session t = some (j, .resolved operation) → m.stateRef = .unlocked →
    ∃ passphrase, Session m db passphrase pc.rest ∧
      ∀ epoch passphrase', pc.loop = some (epoch, passphrase') →
        epoch = m.epochRef ∧ passphrase' = passphrase

section Plays

variable {i j : Nat} {pc pc' : Pc C} {m m' : Tab C} {db db' : Db C} {t t' : Trace (Event C)}

theorem Pc.Wiping.active (h : pc.Wiping) : pc.Active := by
  cases pc with
  | deletedIdentity | clearedRetired => trivial
  | _ => exact h.elim

theorem fits_of_not_active (h : ¬pc.Active) : pc.Fits m db := by
  cases pc with
  | start | backgroundLoaded | background | done => trivial
  | _ => exact absurd trivial h

theorem rest_of_loop (h : pc.loop = none) : pc.rest = [] := by
  cases pc with
  | backgroundLoaded | background => cases h
  | _ => rfl

/-- An operation goes on, or ends, in the same session. -/
theorem Plays.go (h : Plays j pc m db t) (hloop : pc.loop = none) (hwiping : ¬pc.Wiping)
    (hloop' : pc'.loop = none) (hwiping' : ¬pc'.Wiping) (hsession : session t' = session t)
    (hruns : pc'.Active → running t' = some j) (hcalled : running t' = some j → pc'.Active)
    (hfits : pc'.Fits m' db') (hback : m'.stateRef = .unlocked → m.stateRef = .unlocked)
    (hkeys : ∀ passphrase, m'.stateRef = .unlocked → Session m db passphrase [] →
      Session m' db' passphrase []) : Plays j pc' m' db' t' where
  runs := hruns
  called := hcalled
  fits := hfits
  past _ _ h' := by cases hloop'.symm.trans h'
  live _ h' := by cases hloop'.symm.trans h'
  wipes h' := absurd h' hwiping'
  wiping tab hs hm := absurd (h.wiping tab (hsession ▸ hs) (hback hm)) hwiping
  owner operation hs hm := by
    obtain ⟨passphrase, hsess, -⟩ := h.owner operation (hsession ▸ hs) (hback hm)
    rw [rest_of_loop hloop] at hsess
    refine ⟨passphrase, ?_, fun _ _ h' ↦ by cases hloop'.symm.trans h'⟩
    rw [rest_of_loop hloop']
    exact hkeys passphrase hm hsess

/-- An operation at a point where the tab is not unlocked. -/
theorem Plays.closed (h : m.stateRef ≠ .unlocked) (hloop : pc.loop = none) (hwiping : ¬pc.Wiping)
    (hruns : pc.Active → running t = some j) (hcalled : running t = some j → pc.Active)
    (hfits : pc.Fits m db) : Plays j pc m db t where
  runs := hruns
  called := hcalled
  fits := hfits
  past _ _ h' := by cases hloop.symm.trans h'
  live _ h' := by cases hloop.symm.trans h'
  wipes h' := absurd h' hwiping
  wiping _ _ hm := absurd hm h
  owner _ _ hm := absurd hm h

/-- A thread without an operation, when another one switches the session. -/
theorem Plays.switched (h : Plays j pc m db t) (hidle : ¬pc.Active) {e : Event C} (hij : i ≠ j)
    (hrunning : running t' = some j → running t = some j) (hsession : session t' = some (i, e))
    (hepoch : m'.epochRef = m.epochRef ∧ m.stateRef ≠ .unlocked ∨ m.epochRef < m'.epochRef) :
    Plays j pc m' db' t' := by
  have hother : ∀ e', session t' ≠ some (j, e') := by
    intro e' hs
    exact hij (congrArg Prod.fst (Option.some.inj (hsession.symm.trans hs)))
  refine ⟨fun h ↦ absurd h hidle, fun hr ↦ h.called (hrunning hr), fits_of_not_active hidle, ?_, ?_,
    fun h ↦ absurd h.active hidle,
    fun _ hs ↦ absurd hs (hother _), fun _ hs ↦ absurd hs (hother _)⟩
  · intro epoch passphrase hloop
    have hle := h.past epoch passphrase hloop
    rcases hepoch with ⟨hsame, -⟩ | hlt
    · exact hsame ▸ hle
    · exact Nat.le_trans hle (Nat.le_of_lt hlt)
  · intro passphrase hloop
    rcases hepoch with ⟨hsame, hstate⟩ | hlt
    · rw [hsame] at hloop
      exact absurd (h.live passphrase hloop).1 hstate
    · exact absurd hlt (Nat.not_lt.mpr (h.past _ passphrase hloop))

/-- A thread without an operation, when another one keeps the session. -/
theorem Plays.kept (h : Plays j pc m db t) (hidle : ¬pc.Active)
    (hrunning : running t' = some j → running t = some j) (hsession : session t' = session t)
    (hepoch : m'.epochRef = m.epochRef) (hback : m'.stateRef = .unlocked → m.stateRef = .unlocked)
    (hstays : ∀ operation, session t = some (j, .resolved operation) → m.stateRef = .unlocked →
      m'.stateRef = .unlocked)
    (hkeys : ∀ operation passphrase rest, session t = some (j, .resolved operation) →
      m'.stateRef = .unlocked → Session m db passphrase rest → Session m' db' passphrase rest) :
    Plays j pc m' db' t' where
  runs h := absurd h hidle
  called hr := h.called (hrunning hr)
  fits := fits_of_not_active hidle
  past epoch passphrase hloop := hepoch ▸ h.past epoch passphrase hloop
  live passphrase hloop := by
    rw [hepoch] at hloop
    obtain ⟨hm, hs⟩ := h.live passphrase hloop
    exact ⟨hstays _ hs hm, hsession.trans hs⟩
  wipes h := absurd h.active hidle
  wiping tab hs hm := h.wiping tab (hsession ▸ hs) (hback hm)
  owner operation hs hm := by
    obtain ⟨passphrase, hsess, hloop⟩ := h.owner operation (hsession ▸ hs) (hback hm)
    exact ⟨passphrase, hkeys operation passphrase _ (hsession ▸ hs) hm hsess, hepoch ▸ hloop⟩

theorem AtRest.append (h : AtRest m db) (keys : List C.IdentityKeypair) :
    AtRest { m with retiredKeypairsRef := keys } db := ⟨h.tidy, h.closed, h.empty, h.opened⟩

theorem Rotation.Of.append {r : Rotation C} (h : r.Of m db) (keys : List C.IdentityKeypair) :
    r.Of { m with retiredKeypairsRef := keys } db := ⟨h.rest.append keys, h.epoch, h.active, h.stored⟩

/-- No operation looks at the retired keys in memory before its last step. -/
theorem fits_append (h : pc.Fits m db) (keys : List C.IdentityKeypair) :
    pc.Fits { m with retiredKeypairsRef := keys } db := by
  cases pc with
  | mounted | generateIdentity | wrapIdentity | unlockLoaded | unwrapActive | rotateLoaded =>
    exact ⟨h.1.append keys, h.2⟩
  | reverify => exact Rotation.Of.append h keys
  | fingerprintOld | generateNew | wrapNew => exact ⟨h.1.append keys, h.2⟩
  | priorLoaded => exact ⟨⟨h.1.1.append keys, h.1.2⟩, h.2⟩
  | start | saved | backgroundLoaded | background | committed | deletedIdentity | clearedRetired
  | done => exact h

end Plays

/-! ## The two writes of a rotation -/

/-- The stored identity is opened by one passphrase. -/
theorem Db.Stores.unique (hone : C.OneSecret) {db : Db C} {p q : String} {k l : C.IdentityKeypair}
    (hk : db.Stores p k) (hl : db.Stores q l) : p = q ∧ k = l := by
  obtain ⟨record, hrecord, hk⟩ := hk
  obtain ⟨record', hrecord', hl⟩ := hl
  obtain rfl := Option.some.inj (hrecord.symm.trans hrecord')
  obtain rfl := hone _ _ _ _ _ hk hl
  exact ⟨rfl, Option.some.inj (hk.symm.trans hl)⟩

theorem named_retiredEntries {db : Db C} (h : ∀ record ∈ db.records, record.Named) :
    ∀ e ∈ db.retiredEntries, (recordOf e).Named :=
  fun e he ↦ h _ (Db.mem_records.mpr (.inr ⟨e, he, rfl⟩))

/-- What `rotate` has wrapped is named by its public key. -/
theorem named_wrap (hC : C.Lawful) (hone : C.OneSecret) (k : C.IdentityKeypair) (passphrase : String)
    (salt : C.Salt) :
    StoredIdentity.Named ⟨C.exportPublicKey k, C.wrapPrivateKey k passphrase salt⟩ := by
  intro secret k' hk'
  have hk := hC.unwrap_wrap k passphrase salt
  obtain rfl := hone _ _ _ _ _ hk hk'
  exact congrArg C.exportPublicKey (Option.some.inj (hk'.symm.trans hk))

section Rotation

variable {m : Tab C} {db : Db C} {r : Rotation C} {retiredEntry : RetiredKeyEntry C.WrappedKey}
  {newId : C.IdentityKeypair} {newWrapped : C.WrappedKey}
  {prior : List (RetiredKeyEntry C.WrappedKey)}

/-- The database after the transaction of a rotation. -/
def Db.rotated (newId : C.IdentityKeypair) (newWrapped : C.WrappedKey)
    (retiredEntry : RetiredKeyEntry C.WrappedKey) (prior : List (RetiredKeyEntry C.WrappedKey)) : Db C :=
  .putRotation ⟨C.exportPublicKey newId, newWrapped⟩ (prependRetired prior retiredEntry)

/-- The transaction puts the retired key before the ones that were stored. -/
theorem unwrapAll_rotated (hC : C.Lawful) (hnamed : ∀ record ∈ db.records, record.Named)
    (hfits : Pc.Fits m db (.priorLoaded r retiredEntry newId newWrapped prior)) :
    unwrapAll r.passphrase (Db.rotated newId newWrapped retiredEntry prior).retiredEntries =
      r.oldActive :: db.retiredKeys r.passphrase r.oldActive := by
  obtain ⟨⟨hof, hstores, hentry, -⟩, -, rfl⟩ := hfits
  obtain ⟨record, hrecord, hunwrap⟩ := hstores
  obtain rfl := Option.some.inj (hof.stored.symm.trans hrecord)
  have hkey : C.exportPublicKey r.oldActive = retiredEntry.publicKeyString := by
    rw [hnamed _ (Db.mem_records.mpr (.inl hof.stored)) _ _ hunwrap, ← hentry]
    rfl
  have hwrapped : C.unwrapPrivateKey retiredEntry.wrapped r.passphrase = some r.oldActive := by
    rw [← hunwrap, ← hentry]
    rfl
  rw [Db.rotated, Db.retiredEntries_putRotation, Db.retiredEntries, prependRetired_parseRetiredKeys,
    unwrapAll_cons_some hwrapped, ← hkey]
  exact congrArg _ (unwrapAll_filter hC (named_retiredEntries hnamed))

theorem named_rotated (hC : C.Lawful) (hone : C.OneSecret)
    (hnamed : ∀ record ∈ db.records, record.Named)
    (hfits : Pc.Fits m db (.priorLoaded r retiredEntry newId newWrapped prior)) :
    ∀ record ∈ (Db.rotated newId newWrapped retiredEntry prior).records, record.Named := by
  obtain ⟨⟨hof, -, hentry, -⟩, ⟨salt, rfl⟩, rfl⟩ := hfits
  intro record hrecord
  rcases Db.mem_records.mp hrecord with heq | ⟨e, he, rfl⟩
  · obtain rfl := Option.some.inj heq
    exact named_wrap hC hone newId r.passphrase salt
  · rw [Db.rotated, Db.retiredEntries_putRotation] at he
    rcases List.mem_cons.mp (Dedupe.dedupeBy_sublist.subset he) with rfl | he
    · rw [hentry]
      exact hnamed _ (Db.mem_records.mpr (.inl hof.stored))
    · exact named_retiredEntries hnamed e he

/-- A rotation that has committed knows what it has stored. -/
theorem fits_committed (hC : C.Lawful) (hnamed : ∀ record ∈ db.records, record.Named)
    (hfits : Pc.Fits m db (.priorLoaded r retiredEntry newId newWrapped prior)) :
    Pc.Fits m (Db.rotated newId newWrapped retiredEntry prior) (.committed r newId) := by
  have holder := unwrapAll_rotated hC hnamed hfits
  obtain ⟨⟨hof, hstores, -, hfresh⟩, ⟨salt, rfl⟩, rfl⟩ := hfits
  have hunlocked : m.stateRef = .unlocked := by
    by_contra hstate
    cases (hof.rest.closed hstate).symm.trans hof.active
  refine ⟨hunlocked, hof.epoch, hof.active, ⟨_, rfl, hC.unwrap_wrap _ _ _⟩, _, holder, ?_⟩
  have hnew : ∀ k ∈ unwrapAll r.passphrase db.retiredEntries, newId ≠ k := by
    rintro k hk rfl
    obtain ⟨e, he, hkey⟩ := mem_unwrapAll (named_retiredEntries hnamed) hk
    exact hfresh _ (Db.mem_records.mpr (.inr ⟨e, he, rfl⟩)) hkey
  have hold : newId ≠ r.oldActive := by
    rintro rfl
    obtain ⟨record, hrecord, hunwrap⟩ := hstores
    have hmem := Db.mem_records.mpr (.inl hrecord)
    exact hfresh record hmem (hnamed record hmem _ _ hunwrap).symm
  have hnodup : (unwrapAll r.passphrase db.retiredEntries).Nodup :=
    nodup_unwrapAll (named_retiredEntries hnamed) Dedupe.nodup_dedupeBy
  rw [List.nodup_cons, List.nodup_cons, List.mem_cons, not_or]
  refine ⟨⟨hold, fun hmem ↦ hnew _ (List.mem_of_mem_filter hmem) rfl⟩, ?_, hnodup.filter _⟩
  simp [Db.retiredKeys]

/-- The transaction of a rotation keeps the session. -/
theorem Session.committed (hC : C.Lawful) (hone : C.OneSecret)
    (hnamed : ∀ record ∈ db.records, record.Named)
    (hfits : Pc.Fits m db (.priorLoaded r retiredEntry newId newWrapped prior)) {p : String}
    {rest : List (RetiredKeyEntry C.WrappedKey)} (h : Session m db p rest) :
    Session m (Db.rotated newId newWrapped retiredEntry prior) p rest := by
  obtain ⟨-, -, -, hnew, older, holder, hnodup⟩ := fits_committed hC hnamed hfits
  have holder' := unwrapAll_rotated hC hnamed hfits
  obtain ⟨⟨hof, hstores, -⟩, -⟩ := hfits
  obtain ⟨⟨k, hk⟩, active, hactive, hkeys⟩ := h
  obtain ⟨rfl, rfl⟩ := hk.unique hone hstores
  obtain rfl := Option.some.inj (hof.active.symm.trans hactive)
  refine ⟨⟨newId, hnew⟩, r.oldActive, hactive, ?_⟩
  rw [hkeys]
  symm
  show (unwrapAll r.passphrase _).filter _ = _
  rw [holder', List.filter_cons_of_neg (by simp)]
  exact List.filter_eq_self.mpr fun k hk ↦ (List.mem_filter.mp hk).2

/-- The flip in memory keeps the session. -/
theorem Session.rotated (hone : C.OneSecret) (hfits : Pc.Fits m db (.committed r newId)) {p : String}
    {rest : List (RetiredKeyEntry C.WrappedKey)} (h : Session m db p rest) :
    Session (m.enter newId (r.oldActive :: m.retiredKeypairsRef)) db p rest := by
  obtain ⟨-, -, hactive', hstores, older, holder, hnodup⟩ := hfits
  obtain ⟨⟨k, hk⟩, active, hactive, hkeys⟩ := h
  obtain ⟨rfl, rfl⟩ := hk.unique hone hstores
  obtain rfl := Option.some.inj (hactive'.symm.trans hactive)
  rw [List.nodup_cons, List.nodup_cons] at hnodup
  obtain ⟨hnew, hold, -⟩ := hnodup
  refine ⟨⟨k, hk⟩, k, rfl, ?_⟩
  have hall : (unwrapAll r.passphrase db.retiredEntries).filter (· ≠ r.oldActive) = older := by
    rw [holder, List.filter_cons_of_neg (by simp), List.filter_eq_self]
    intro l hl
    exact decide_eq_true fun heq ↦ hold (heq ▸ hl)
  have hkept : (unwrapAll r.passphrase db.retiredEntries).filter (· ≠ k) = r.oldActive :: older := by
    rw [holder, List.filter_eq_self]
    intro l hl
    exact decide_eq_true fun heq ↦ hnew (heq ▸ hl)
  show r.oldActive :: m.retiredKeypairsRef ++ unwrapAll r.passphrase rest = _
  rw [List.cons_append, hkeys, Db.retiredKeys, Db.retiredKeys, hall, hkept]

end Rotation

/-! ## Steps -/

/-- A step of the guarded program on the one tab. -/
structure OneStep (tab : Nat) (login : C.WrappedKey → String) (i : Nat) (x : Input C) (pc pc' : Pc C)
    (s s' : State C) (es : List (Event C)) (t : Trace (Event C)) : Prop where
  meets : OneByOne C tab login i x ⟨tab, pc⟩ s t
  settled : Settled (s.tabs tab) s.db t
  plays : Plays i pc (s.tabs tab) s.db t
  act : Act x tab pc s pc' s' es

section OneStep

variable {tab : Nat} {login : C.WrappedKey → String} {i j : Nat} {x : Input C} {pc pc' q : Pc C}
  {s s' : State C} {es : List (Event C)} {t : Trace (Event C)}

/-- What thread `i` emits does not make another one the running one. -/
theorem running_append (h : running (tag i es ++ t) = some j) : j = i ∨ running t = some j := by
  induction es with
  | nil => exact .inr h
  | cons e es ih =>
    cases e with
    | called =>
      cases h
      exact .inl rfl
    | resolved | rejected => cases h
    | committed | erased | keyed => exact ih h

theorem switches_of_session {e : Nat × Event C} (h : session t = some e) : e.2.switches = true := by
  have hfound := List.find?_some h
  exact hfound

theorem mem_of_running (h : running t = some j) : ∃ e ∈ t, e.1 = j := by
  induction t with
  | nil => cases h
  | cons e t ih =>
    obtain ⟨i, e⟩ := e
    cases e with
    | called =>
      cases h
      exact ⟨_, List.mem_cons_self, rfl⟩
    | resolved | rejected => cases h
    | committed | erased | keyed =>
      obtain ⟨e', he', hj⟩ := ih h
      exact ⟨e', List.mem_cons_of_mem _ he', hj⟩

/-- While an operation steps, no other one is under way. -/
theorem OneStep.alone (h : OneStep tab login i x pc pc' s s' es t) (hij : i ≠ j)
    (hpc : (∃ operation, pc = .start operation) ∨ pc.Active)
    (hq : Plays j q (s.tabs tab) s.db t) : ¬q.Active := by
  intro hactive
  have hj := hq.runs hactive
  rcases hpc with ⟨operation, rfl⟩ | hpc
  · obtain ⟨-, ⟨-, hnone⟩, -⟩ := h.meets
    cases hnone.symm.trans hj
  · exact hij (Option.some.inj ((h.plays.runs hpc).symm.trans hj))

/-- A thread that ends without an effect keeps the session, or the tab is not unlocked. -/
theorem OneStep.session_of_ends (h : OneStep tab login i x pc pc' s s' es t)
    (hends : pc.EndsWith x tab (s.tabs tab) es) :
    session (tag i es ++ t) = session t ∨
      (∃ e, session (tag i es ++ t) = some (i, e)) ∧ (s.tabs tab).stateRef ≠ .unlocked := by
  have hfits := h.plays.fits
  cases pc with
  | start operation =>
    obtain ⟨⟨hlock, hwipe⟩, error, rfl⟩ := hends
    cases operation with
    | lock => exact absurd rfl hlock
    | wipe => exact absurd rfl hwipe
    | _ => exact .inl rfl
  | unlockLoaded =>
    obtain ⟨-, -, rfl⟩ := hends
    obtain ⟨-, hlocked, -⟩ := hfits
    exact .inr ⟨⟨_, rfl⟩, by rw [hlocked]; nofun⟩
  | unwrapActive =>
    obtain ⟨-, hlocked, -⟩ := hfits
    rcases hends with ⟨-, rfl⟩ | ⟨error, rfl⟩
    · exact .inr ⟨⟨_, rfl⟩, by rw [hlocked]; nofun⟩
    · exact .inl rfl
  | background =>
    obtain ⟨-, rfl⟩ := hends
    exact .inl rfl
  | generateIdentity | rotateLoaded | reverify | fingerprintOld | generateNew | wrapNew =>
    obtain ⟨error, rfl⟩ := hends
    exact .inl rfl
  | wrapIdentity | priorLoaded | deletedIdentity =>
    obtain ⟨error, -, rfl⟩ := hends
    exact .inl rfl
  | committed =>
    obtain ⟨-, rfl⟩ := hends
    exact .inl rfl
  | mounted | saved | backgroundLoaded | clearedRetired | done => exact hends.elim

/-- An operation that ends is no longer running. -/
theorem OneStep.running_of_ends (h : OneStep tab login i x pc pc' s s' es t)
    (hends : pc.EndsWith x tab (s.tabs tab) es) (hloop : pc.loop = none) :
    running (tag i es ++ t) = none := by
  cases pc with
  | start =>
    obtain ⟨-, error, rfl⟩ := hends
    rfl
  | unlockLoaded =>
    obtain ⟨-, -, rfl⟩ := hends
    rfl
  | committed =>
    obtain ⟨-, rfl⟩ := hends
    rfl
  | unwrapActive => rcases hends with ⟨-, rfl⟩ | ⟨error, rfl⟩ <;> rfl
  | generateIdentity | rotateLoaded | reverify | fingerprintOld | generateNew | wrapNew =>
    obtain ⟨error, rfl⟩ := hends
    rfl
  | wrapIdentity | priorLoaded | deletedIdentity =>
    obtain ⟨error, -, rfl⟩ := hends
    rfl
  | backgroundLoaded | background => cases hloop
  | mounted | saved | clearedRetired | done => exact hends.elim

/-- The other threads after a step. -/
theorem plays_others (hC : C.Lawful) (hone : C.OneSecret) (h : OneStep tab login i x pc pc' s s' es t)
    (hij : i ≠ j) (hq : Plays j q (s.tabs tab) s.db t) :
    Plays j q (s'.tabs tab) s'.db (tag i es ++ t) := by
  have hfits := h.plays.fits
  have hrunning : running (tag i es ++ t) = some j → running t = some j := fun hr ↦
    (running_append hr).resolve_left hij.symm
  cases h.act with
  | begins begins =>
    have hidle := h.alone hij (.inl ⟨_, rfl⟩) hq
    refine hq.kept hidle hrunning ?_ rfl id (fun _ _ ↦ id) fun _ _ _ _ _ ↦ id
    cases begins <;> rfl
  | passes => exact hq
  | ends ends =>
    by_cases hbackground : pc.loop = none
    · have hidle : ¬q.Active := by
        cases pc with
        | start operation => exact h.alone hij (.inl ⟨operation, rfl⟩) hq
        | backgroundLoaded | background => cases hbackground
        | done => exact ends.elim
        | _ => exact h.alone hij (.inr trivial) hq
      rcases h.session_of_ends ends with hsession | ⟨⟨e, hsession⟩, hstate⟩
      · exact hq.kept hidle hrunning hsession rfl id (fun _ _ ↦ id) fun _ _ _ _ _ ↦ id
      · exact hq.switched hidle hij hrunning hsession (.inl ⟨rfl, hstate⟩)
    · cases pc with
      | background =>
        obtain ⟨-, rfl⟩ := ends
        exact hq
      | backgroundLoaded => exact ends.elim
      | _ => exact absurd rfl hbackground
  | mounted exists_ =>
    obtain ⟨-, hloading, -⟩ := hfits
    rw [State.tabs_setTab_self]
    refine hq.kept (h.alone hij (.inr trivial) hq) hrunning rfl rfl ?_ ?_ ?_
    · cases exists_ <;> nofun
    · intro _ _ hm
      cases hloading.symm.trans hm
    · cases exists_ <;> nofun
  | importIdentity _ _ _ state =>
    refine hq.kept (h.alone hij (.inl ⟨_, rfl⟩) hq) hrunning rfl rfl id (fun _ _ ↦ id) ?_
    intro _ _ _ _ hm
    cases state.symm.trans hm
  | setupNew =>
    obtain ⟨-, hstate⟩ := hfits
    refine hq.kept (h.alone hij (.inr trivial) hq) hrunning rfl rfl id (fun _ _ ↦ id) ?_
    intro _ _ _ _ hm
    cases hstate.symm.trans hm
  | saved operation =>
    obtain ⟨hswitches, hstate, -⟩ := hfits
    rw [State.tabs_setTab_self]
    refine hq.switched (h.alone hij (.inr trivial) hq) hij (e := .resolved operation) hrunning ?_
      (.inl ⟨rfl, by rw [hstate]; nofun⟩)
    exact List.find?_cons_of_pos hswitches
  | absent | wrongPassphrase | unlocked =>
    obtain ⟨-, hlocked, -⟩ := hfits
    rw [State.tabs_setTab_self]
    exact hq.switched (h.alone hij (.inr trivial) hq) hij hrunning rfl (.inl ⟨rfl, by rw [hlocked]; nofun⟩)
  | retired epoch passphrase entry entries k _ current =>
    have hlive := (h.plays.live passphrase (by rw [← current]; rfl)).2
    have hother : ∀ e, session t ≠ some (j, e) := fun e hs ↦
      hij (congrArg Prod.fst (Option.some.inj (hlive.symm.trans hs)))
    rw [State.tabs_setTab_self]
    exact ⟨hq.runs, hq.called, fits_append hq.fits _, hq.past, hq.live, hq.wipes, hq.wiping,
      fun _ hs ↦ absurd hs (hother _)⟩
  | rotate =>
    exact hq.kept (h.alone hij (.inr trivial) hq) hrunning rfl rfl id (fun _ _ ↦ id) fun _ _ _ _ _ hsess ↦
      hsess.committed hC hone h.settled.named hfits
  | rotated =>
    rw [State.tabs_setTab_self]
    exact hq.kept (h.alone hij (.inr trivial) hq) hrunning rfl rfl (fun _ ↦ hfits.1) (fun _ _ _ ↦ rfl)
      fun _ _ _ _ _ hsess ↦ hsess.rotated hone hfits
  | lock =>
    rw [State.tabs_setTab_self]
    exact hq.switched (h.alone hij (.inl ⟨_, rfl⟩) hq) hij hrunning rfl (.inr (Nat.lt_succ_self _))
  | wipe =>
    show Plays j q ((s.setTab tab _).tabs tab) _ _
    rw [State.tabs_setTab_self]
    exact hq.switched (h.alone hij (.inl ⟨_, rfl⟩) hq) hij hrunning rfl (.inr (Nat.lt_succ_self _))
  | wipeRejected error _ rejects =>
    obtain ⟨-, ⟨hnone, -⟩, -⟩ := h.meets
    cases hnone.symm.trans rejects
  | clearRetired =>
    obtain ⟨tab', hwipes⟩ := h.plays.wipes trivial
    refine hq.kept (h.alone hij (.inr trivial) hq) hrunning rfl rfl id (fun _ _ ↦ id) fun _ _ _ hs _ _ ↦ ?_
    exact absurd (congrArg Prod.fst (Option.some.inj (hwipes.symm.trans hs))) hij
  | wiped =>
    obtain ⟨tab', hwipes⟩ := h.plays.wipes trivial
    rw [State.tabs_setTab_self]
    refine hq.kept (h.alone hij (.inr trivial) hq) hrunning rfl rfl nofun (fun _ hs ↦ ?_) nofun
    exact absurd (congrArg Prod.fst (Option.some.inj (hwipes.symm.trans hs))) hij

/-- A background loop goes on, or is at its end, when `entries` are left. -/
theorem Plays.loops {m m' : Tab C} {db : Db C} {t' : Trace (Event C)} {epoch : Nat}
    {passphrase : String} {entries : List (RetiredKeyEntry C.WrappedKey)}
    (h : Plays i pc m db t) (hloop : pc.loop = some (epoch, passphrase))
    (hrunning : running t' = running t) (hsession : session t' = session t)
    (hstate : m'.stateRef = m.stateRef)
    (hepoch : m'.epochRef = m.epochRef)
    (hkeys : Session m db passphrase pc.rest → Session m' db passphrase entries) :
    Plays i (backgroundFrom m epoch passphrase entries) m' db t' := by
  have hidle : ¬pc.Active := by
    cases pc with
    | backgroundLoaded | background => exact id
    | _ => cases hloop
  have hwiping : ¬pc.Wiping := fun h ↦ hidle h.active
  have hcalled : running t' ≠ some i := fun hr ↦ hidle (h.called (hrunning ▸ hr))
  have howner : ∀ operation, session t' = some (i, .resolved operation) → m'.stateRef = .unlocked →
      epoch = m.epochRef ∧ Session m' db passphrase entries := by
    intro operation hs hm
    obtain ⟨p, hsess, hloops⟩ := h.owner operation (hsession ▸ hs) (hstate ▸ hm)
    obtain ⟨hcurrent, rfl⟩ := hloops epoch passphrase hloop
    exact ⟨hcurrent, hkeys hsess⟩
  rcases backgroundFrom_cases m epoch passphrase entries with ⟨hdone, hends⟩ | ⟨entry, rest, rfl, _, hnext⟩
  · rw [hdone]
    refine ⟨nofun, fun hr ↦ absurd hr hcalled, trivial, nofun, nofun, nofun, ?_, ?_⟩
    · intro tab hs hm
      exact absurd (h.wiping tab (hsession ▸ hs) (hstate ▸ hm)) hwiping
    · intro operation hs hm
      obtain ⟨hcurrent, hsess⟩ := howner operation hs hm
      obtain rfl := hends.resolve_right (not_not.mpr hcurrent)
      exact ⟨passphrase, hsess, nofun⟩
  · rw [hnext]
    refine ⟨nofun, fun hr ↦ absurd hr hcalled, trivial, ?_, ?_, nofun, ?_, ?_⟩
    · intro epoch' passphrase' h'
      cases h'
      exact hepoch ▸ h.past epoch passphrase hloop
    · intro passphrase' h'
      rw [hepoch] at h'
      cases h'
      obtain ⟨hm, hs⟩ := h.live passphrase hloop
      exact ⟨hstate.trans hm, hsession.trans hs⟩
    · intro tab hs hm
      exact absurd (h.wiping tab (hsession ▸ hs) (hstate ▸ hm)) hwiping
    · intro operation hs hm
      obtain ⟨hcurrent, hsess⟩ := howner operation hs hm
      refine ⟨passphrase, hsess, fun _ _ h' ↦ ?_⟩
      cases h'
      exact ⟨hcurrent.trans hepoch.symm, rfl⟩

/-- An operation that has begun. -/
theorem OneStep.plays_begins {operation : Operation C}
    (h : OneStep tab login i x (.start operation) pc' s s [.called ⟨tab, operation⟩] t)
    (begins : Begins x (s.tabs tab) s.db operation pc') :
    Plays i pc' (s.tabs tab) s.db (tag i [.called ⟨tab, operation⟩] ++ t) := by
  obtain ⟨-, ⟨-, hnone⟩, hstart⟩ := h.meets
  have hrest := h.settled.rest hnone
  cases begins with
  | mount =>
    obtain ⟨⟨-, hreads⟩, -⟩ := h.meets
    have hread : x.readFails = false := hreads
    refine h.plays.go rfl nofun rfl nofun rfl (fun _ ↦ rfl) (fun _ ↦ trivial) ⟨hrest, hstart, ?_⟩ id fun _ _ ↦ id
    rw [hread]
    rfl
  | setupNew =>
    exact h.plays.go rfl nofun rfl nofun rfl (fun _ ↦ rfl) (fun _ ↦ trivial) ⟨hrest, hstart⟩ id fun _ _ ↦ id
  | unlock =>
    exact h.plays.go rfl nofun rfl nofun rfl (fun _ ↦ rfl) (fun _ ↦ trivial) ⟨hrest, hstart, rfl⟩ id fun _ _ ↦ id
  | rotate _ _ active =>
    exact h.plays.go rfl nofun rfl nofun rfl (fun _ ↦ rfl) (fun _ ↦ trivial) ⟨hrest, rfl, active, rfl⟩ id fun _ _ ↦ id

/-- An operation that goes on. -/
theorem OneStep.plays_passes (hone : C.OneSecret) (h : OneStep tab login i x pc pc' s s [] t)
    (passes : Passes x (s.tabs tab) s.db pc pc') : Plays i pc' (s.tabs tab) s.db t := by
  have hfits := h.plays.fits
  have hgo : pc.Active → pc.loop = none → ¬pc.Wiping → pc'.Active → pc'.loop = none →
      ¬pc'.Wiping → pc'.Fits (s.tabs tab) s.db → Plays i pc' (s.tabs tab) s.db t :=
    fun hactive hloop hwiping hactive' hloop' hwiping' hfits' ↦ h.plays.go hloop hwiping hloop' hwiping' rfl
      (fun _ ↦ h.plays.runs hactive) (fun _ ↦ hactive') hfits' id fun _ _ ↦ id
  cases passes with
  | generateIdentity => exact hgo trivial rfl nofun trivial rfl nofun hfits
  | unlockLoaded epoch passphrase record =>
    obtain ⟨hrest, hlocked, hrecord⟩ := hfits
    exact hgo trivial rfl nofun trivial rfl nofun ⟨hrest, hlocked, hrecord.symm⟩
  | backgroundLoaded => exact h.plays.loops rfl rfl rfl rfl rfl id
  | skip epoch passphrase entry entries fails =>
    refine h.plays.loops rfl rfl rfl rfl rfl fun hsess ↦ ⟨hsess.opens, ?_⟩
    rw [← unwrapAll_cons_none fails]
    exact hsess.keys
  | rotateLoaded epoch passphrase oldActive stored current =>
    obtain ⟨hrest, -, hactive, hstored⟩ := hfits
    exact hgo trivial rfl nofun trivial rfl nofun ⟨hrest, current, hactive, hstored.symm⟩
  | reverify r id unwraps =>
    have hof : r.Of (s.tabs tab) s.db := hfits
    have hunlocked : (s.tabs tab).stateRef = .unlocked := by
      by_contra hstate
      cases (hof.rest.closed hstate).symm.trans hof.active
    obtain ⟨active, passphrase, hactive, hstores⟩ := hof.rest.opened hunlocked
    obtain rfl := Option.some.inj (hof.active.symm.trans hactive)
    obtain ⟨rfl, rfl⟩ := hstores.unique hone ⟨r.stored, hof.stored, unwraps⟩
    exact hgo trivial rfl nofun trivial rfl nofun ⟨hof, hstores⟩
  | fingerprintOld =>
    obtain ⟨hof, hstores⟩ := hfits
    exact hgo trivial rfl nofun trivial rfl nofun ⟨hof, hstores, rfl⟩
  | generateNew =>
    obtain ⟨hof, hstores, hentry⟩ := hfits
    obtain ⟨-, hfresh⟩ := h.meets
    exact hgo trivial rfl nofun trivial rfl nofun ⟨hof, hstores, hentry, hfresh⟩
  | wrapNew =>
    obtain ⟨⟨-, hreads⟩, -⟩ := h.meets
    have hread : x.readFails = false := hreads
    refine hgo trivial rfl nofun trivial rfl nofun ⟨hfits, ⟨_, rfl⟩, ?_⟩
    unfold loadRetiredEntries
    rw [hread]
    rfl

/-- An operation that ends without an effect. -/
theorem OneStep.plays_ends (h : OneStep tab login i x pc .done s s es t)
    (ends : pc.EndsWith x tab (s.tabs tab) es) :
    Plays i .done (s.tabs tab) s.db (tag i es ++ t) := by
  by_cases hbackground : pc.loop = none
  · have hwiping : ¬pc.Wiping := by
      cases pc with
      | deletedIdentity =>
        obtain ⟨error, herror, -⟩ := ends
        obtain ⟨-, hnone⟩ := h.meets
        cases Eq.symm (hnone : x.rejects = none) |>.trans herror
      | clearedRetired => exact ends.elim
      | _ => exact id
    have hnone := h.running_of_ends ends hbackground
    have hcalled : running (tag i es ++ t) ≠ some i := fun hr ↦ by cases hnone.symm.trans hr
    rcases h.session_of_ends ends with hsession | ⟨-, hstate⟩
    · exact h.plays.go hbackground hwiping rfl nofun hsession nofun (fun hr ↦ absurd hr hcalled) trivial
        id fun _ _ ↦ id
    · exact .closed hstate rfl nofun nofun (fun hr ↦ absurd hr hcalled) trivial
  · cases pc with
    | background epoch passphrase entry entries =>
      obtain ⟨hstale, rfl⟩ := ends
      refine ⟨nofun, h.plays.called, trivial, nofun, nofun, nofun, ?_, ?_⟩
      · exact fun tab' hs hm ↦ (h.plays.wiping tab' hs hm).elim
      · intro operation hs hm
        obtain ⟨_, -, hloops⟩ := h.plays.owner operation hs hm
        exact absurd (hloops epoch passphrase rfl).1 hstale
    | backgroundLoaded => exact ends.elim
    | _ => exact absurd rfl hbackground

/-- An unlock, after which the background loads the retired keys. -/
theorem OneStep.plays_unlocked (hC : C.Lawful) {epoch : Nat} {passphrase : String}
    {record : StoredIdentity C} {id : C.IdentityKeypair}
    (h : OneStep tab login i x (.unwrapActive epoch passphrase record)
      (.backgroundLoaded epoch passphrase (C.exportPublicKey id) (loadRetiredEntries x s.db)) s
      (s.setTab tab ((s.tabs tab).enter id [])) [.resolved (.unlock passphrase), .keyed tab] t)
    (current : epoch = (s.tabs tab).epochRef)
    (unwraps : C.unwrapPrivateKey record.wrapped passphrase = some id) :
    Plays i (.backgroundLoaded epoch passphrase (C.exportPublicKey id) (loadRetiredEntries x s.db))
      ((s.setTab tab ((s.tabs tab).enter id [])).tabs tab) s.db
      (tag i [.resolved (.unlock passphrase), .keyed tab] ++ t) := by
  have hfits := h.plays.fits
  have hnamed := h.settled.named
  obtain ⟨⟨-, hreads⟩, -⟩ := h.meets
  have hread : x.readFails = false := hreads
  have hload : loadRetiredEntries x s.db = s.db.retiredEntries := by
    unfold loadRetiredEntries
    rw [hread]
    rfl
  obtain ⟨-, -, hrecord⟩ := hfits
  rw [State.tabs_setTab_self, hload]
  refine ⟨nofun, nofun, trivial, ?_, ?_, nofun, nofun, ?_⟩
  · rintro _ _ ⟨⟩
    exact Nat.le_of_eq current
  · intro passphrase' h'
    cases h'
    exact ⟨rfl, rfl⟩
  · refine fun _ _ _ ↦ ⟨passphrase, ⟨⟨id, record, hrecord, unwraps⟩, id, rfl, ?_⟩, ?_⟩
    · exact unwrapAll_filter hC (named_retiredEntries hnamed)
    · rintro _ _ ⟨⟩
      exact ⟨current, rfl⟩

/-- The thread of a step after it. -/
theorem plays_own (hC : C.Lawful) (hone : C.OneSecret) (h : OneStep tab login i x pc pc' s s' es t) :
    Plays i pc' (s'.tabs tab) s'.db (tag i es ++ t) := by
  have hfits := h.plays.fits
  have hnamed := h.settled.named
  cases h.act with
  | begins begins => exact h.plays_begins begins
  | passes passes => exact h.plays_passes hone passes
  | ends ends => exact h.plays_ends ends
  | mounted exists_ =>
    rw [State.tabs_setTab_self]
    refine .closed ?_ rfl nofun nofun nofun trivial
    cases exists_ <;> nofun
  | importIdentity envelope keypair _ state =>
    obtain ⟨-, ⟨-, hnone⟩, -, hunwrap⟩ := h.meets
    have hrest := h.settled.rest hnone
    refine .closed (by rw [state]; nofun) rfl nofun (fun _ ↦ rfl) (fun _ ↦ trivial)
      ⟨rfl, state, ?_, ?_⟩
    · exact ⟨_, _, rfl, hunwrap⟩
    · exact hrest.tidy (hrest.empty state)
  | setupNew passphrase id =>
    obtain ⟨hrest, hstate⟩ := hfits
    refine .closed (by rw [hstate]; nofun) rfl nofun (fun _ ↦ h.plays.runs trivial)
      (fun _ ↦ trivial) ⟨rfl, hstate, ?_, ?_⟩
    · exact ⟨_, _, rfl, hC.unwrap_wrap id passphrase x.salt⟩
    · exact hrest.tidy (hrest.empty hstate)
  | saved operation id =>
    obtain ⟨hswitches, -, ⟨passphrase, hstores⟩, hretired⟩ := hfits
    have hsession : session (tag i [.resolved operation, .keyed tab] ++ t) =
        some (i, .resolved operation) := List.find?_cons_of_pos hswitches
    rw [State.tabs_setTab_self]
    refine ⟨nofun, nofun, trivial, nofun, nofun, nofun, ?_, ?_⟩
    · intro tab' hs
      cases hsession.symm.trans hs
    · refine fun _ _ _ ↦ ⟨passphrase, ⟨⟨id, hstores⟩, id, rfl, ?_⟩, nofun⟩
      show [] = Db.retiredKeys s.db passphrase id
      rw [Db.retiredKeys, hretired]
      rfl
  | absent =>
    rw [State.tabs_setTab_self]
    exact .closed nofun rfl nofun nofun nofun trivial
  | wrongPassphrase =>
    obtain ⟨-, hlocked, -⟩ := hfits
    rw [State.tabs_setTab_self]
    exact .closed (fun hm ↦ by cases hlocked.symm.trans hm) rfl nofun nofun nofun trivial
  | unlocked epoch passphrase record id _ current unwraps => exact h.plays_unlocked hC current unwraps
  | retired epoch passphrase entry entries k _ current unwraps =>
    rw [State.tabs_setTab_self]
    refine h.plays.loops rfl rfl rfl rfl rfl fun hsess ↦ ⟨hsess.opens, ?_⟩
    obtain ⟨active, hactive, hkeys⟩ := hsess.keys
    refine ⟨active, hactive, ?_⟩
    rw [← hkeys]
    show (s.tabs tab).retiredKeypairsRef ++ [k] ++ unwrapAll passphrase entries =
      (s.tabs tab).retiredKeypairsRef ++ unwrapAll passphrase (entry :: entries)
    rw [unwrapAll_cons_some unwraps, List.append_assoc]
    rfl
  | rotate =>
    exact h.plays.go rfl nofun rfl nofun rfl (fun _ ↦ h.plays.runs trivial)
      (fun _ ↦ trivial) (fits_committed hC hnamed hfits) id fun _ _ hsess ↦ hsess.committed hC hone hnamed hfits
  | rotated =>
    rw [State.tabs_setTab_self]
    exact h.plays.go rfl nofun rfl nofun rfl nofun nofun trivial (fun _ ↦ hfits.1) fun _ _ hsess ↦
      hsess.rotated hone hfits
  | lock =>
    rw [State.tabs_setTab_self]
    exact .closed nofun rfl nofun nofun nofun trivial
  | wipe =>
    refine ⟨fun _ ↦ rfl, fun _ ↦ trivial, rfl, nofun, nofun, fun _ ↦ ⟨tab, rfl⟩, fun _ _ _ ↦ trivial, ?_⟩
    intro _ hs
    cases hs
  | wipeRejected error _ rejects =>
    obtain ⟨-, ⟨hnone, -⟩, -⟩ := h.meets
    cases hnone.symm.trans rejects
  | clearRetired =>
    obtain ⟨tab', hwipes⟩ := h.plays.wipes trivial
    refine ⟨fun _ ↦ h.plays.runs trivial, fun _ ↦ trivial, ⟨hfits, rfl⟩, nofun, nofun, fun _ ↦ ⟨tab', hwipes⟩,
      fun _ _ _ ↦ trivial, ?_⟩
    intro _ hs
    cases hwipes.symm.trans hs
  | wiped =>
    rw [State.tabs_setTab_self]
    exact .closed nofun rfl nofun nofun nofun trivial

/-- An operation that ends without an effect leaves the memory and the database at rest. -/
theorem OneStep.rest_of_ends (h : OneStep tab login i x pc pc' s s' es t)
    (hends : pc.EndsWith x tab (s.tabs tab) es) (hloop : pc.loop = none) :
    AtRest (s.tabs tab) s.db := by
  have hfits := h.plays.fits
  cases pc with
  | start =>
    obtain ⟨-, ⟨-, hnone⟩, -⟩ := h.meets
    exact h.settled.rest hnone
  | generateIdentity | wrapIdentity | unlockLoaded | unwrapActive | rotateLoaded => exact hfits.1
  | reverify => exact Rotation.Of.rest hfits
  | fingerprintOld | generateNew | wrapNew => exact hfits.1.rest
  | priorLoaded => exact hfits.1.1.rest
  | committed => exact absurd hfits.2.1 hends.1
  | deletedIdentity =>
    obtain ⟨error, herror, -⟩ := hends
    obtain ⟨-, hnone⟩ := h.meets
    cases Eq.symm (hnone : x.rejects = none) |>.trans herror
  | backgroundLoaded | background => cases hloop
  | mounted | saved | clearedRetired | done => exact hends.elim

theorem named_putIdentity {db : Db C} {record : StoredIdentity C}
    (h : ∀ record ∈ db.records, record.Named) (hrecord : record.Named) :
    ∀ other ∈ (db.putIdentity record).records, other.Named := by
  intro other hother
  rcases Db.mem_records.mp hother with heq | hother
  · obtain rfl := Option.some.inj heq
    exact hrecord
  · exact h other (Db.mem_records.mpr (.inr hother))

/-- The memory and the database after a step. -/
theorem settled_step (hC : C.Lawful) (hone : C.OneSecret)
    (h : OneStep tab login i x pc pc' s s' es t) :
    Settled (s'.tabs tab) s'.db (tag i es ++ t) := by
  have hfits := h.plays.fits
  have hnamed := h.settled.named
  have howned := h.settled.owned
  have hactive : pc.Active → running t ≠ none := fun hactive hnone ↦ by
    cases (h.plays.runs hactive).symm.trans hnone
  cases h.act with
  | begins begins =>
    refine ⟨hnamed, nofun, ?_⟩
    cases begins <;> exact howned
  | passes => exact h.settled
  | ends ends =>
    by_cases hloop : pc.loop = none
    · refine ⟨hnamed, fun _ ↦ h.rest_of_ends ends hloop, fun hm ↦ ?_⟩
      rcases h.session_of_ends ends with hsession | ⟨-, hstate⟩
      · rw [hsession]
        exact howned hm
      · exact absurd hm hstate
    · cases pc with
      | background =>
        obtain ⟨-, rfl⟩ := ends
        exact h.settled
      | backgroundLoaded => exact ends.elim
      | _ => exact absurd rfl hloop
  | mounted exists_ =>
    obtain ⟨hrest, hloading, hexists⟩ := hfits
    have hclosed : (s.tabs tab).identityRef = none := hrest.closed (by rw [hloading]; nofun)
    rw [State.tabs_setTab_self]
    refine ⟨hnamed, fun _ ↦ ⟨hrest.tidy, fun _ ↦ hclosed, ?_, ?_⟩, ?_⟩
    · cases exists_ with
      | true => nofun
      | false => exact fun _ ↦ Option.isNone_iff_eq_none.mp (by simpa using hexists)
    · cases exists_ <;> nofun
    · cases exists_ <;> nofun
  | importIdentity envelope keypair _ state =>
    obtain ⟨-, -, -, hunwrap⟩ := h.meets
    refine ⟨named_putIdentity hnamed ?_, nofun, fun hm ↦ ?_⟩
    · intro secret k hk
      obtain rfl := hone _ _ _ _ _ hk hunwrap
      exact congrArg C.exportPublicKey (Option.some.inj (hk.symm.trans hunwrap))
    · cases state.symm.trans hm
  | setupNew passphrase id =>
    obtain ⟨-, hstate⟩ := hfits
    refine ⟨named_putIdentity hnamed (named_wrap hC hone id passphrase x.salt),
      fun hnone ↦ absurd hnone (hactive trivial), fun hm ↦ ?_⟩
    cases hstate.symm.trans hm
  | saved operation id =>
    obtain ⟨hswitches, -, ⟨passphrase, hstores⟩, hretired⟩ := hfits
    rw [State.tabs_setTab_self]
    refine ⟨hnamed, fun _ ↦ ⟨fun _ ↦ hretired, fun h ↦ absurd rfl h, nofun, fun _ ↦ ?_⟩, fun _ ↦ ?_⟩
    · exact ⟨id, passphrase, rfl, hstores⟩
    · exact ⟨i, .resolved operation, List.find?_cons_of_pos hswitches, nofun⟩
  | absent =>
    obtain ⟨hrest, hlocked, hnone⟩ := hfits
    have hclosed : (s.tabs tab).identityRef = none := hrest.closed (by rw [hlocked]; nofun)
    rw [State.tabs_setTab_self]
    exact ⟨hnamed, fun _ ↦ ⟨hrest.tidy, fun _ ↦ hclosed, fun _ ↦ hnone.symm, nofun⟩, nofun⟩
  | wrongPassphrase =>
    obtain ⟨hrest, hlocked, -⟩ := hfits
    rw [State.tabs_setTab_self]
    refine ⟨hnamed, fun _ ↦ ⟨hrest.tidy, hrest.closed, hrest.empty, hrest.opened⟩, fun hm ↦ ?_⟩
    cases hlocked.symm.trans hm
  | unlocked epoch passphrase record id _ current unwraps =>
    obtain ⟨hrest, -, hrecord⟩ := hfits
    rw [State.tabs_setTab_self]
    refine ⟨hnamed, fun _ ↦ ⟨hrest.tidy, fun h ↦ absurd rfl h, nofun, fun _ ↦ ?_⟩, fun _ ↦ ?_⟩
    · exact ⟨id, passphrase, rfl, record, hrecord, unwraps⟩
    · exact ⟨i, .resolved (.unlock passphrase), rfl, nofun⟩
  | retired =>
    rw [State.tabs_setTab_self]
    exact ⟨hnamed, fun hnone ↦ (h.settled.rest hnone).append _, howned⟩
  | rotate =>
    exact ⟨named_rotated hC hone hnamed hfits, fun hnone ↦ absurd hnone (hactive trivial), howned⟩
  | rotated r newId =>
    obtain ⟨hunlocked, -, -, hstores, -⟩ := hfits
    obtain ⟨record, hrecord, hunwrap⟩ := hstores
    rw [State.tabs_setTab_self]
    refine ⟨hnamed, fun _ ↦ ⟨?_, fun h ↦ absurd rfl h, nofun, fun _ ↦ ?_⟩, fun _ ↦ howned hunlocked⟩
    · intro hnone
      cases hrecord.symm.trans hnone
    · exact ⟨newId, r.passphrase, rfl, record, hrecord, hunwrap⟩
  | lock =>
    obtain ⟨-, ⟨-, hnone⟩, -⟩ := h.meets
    have hrest := h.settled.rest hnone
    rw [State.tabs_setTab_self]
    exact ⟨hnamed, fun _ ↦ ⟨hrest.tidy, fun _ ↦ rfl, nofun, nofun⟩, nofun⟩
  | wipe =>
    refine ⟨?_, nofun, fun _ ↦ ⟨i, .called ⟨tab, .wipe⟩, rfl, nofun⟩⟩
    intro record hrecord
    rcases Db.mem_records.mp hrecord with hrecord | hrecord
    · cases hrecord
    · exact hnamed record (Db.mem_records.mpr (.inr hrecord))
  | wipeRejected error _ rejects =>
    obtain ⟨-, ⟨hnone, -⟩, -⟩ := h.meets
    cases hnone.symm.trans rejects
  | clearRetired =>
    refine ⟨?_, fun hnone ↦ absurd hnone (hactive trivial), howned⟩
    intro record hrecord
    rcases Db.mem_records.mp hrecord with hrecord | ⟨e, he, -⟩
    · exact hnamed record (Db.mem_records.mpr (.inl hrecord))
    · cases he
  | wiped =>
    obtain ⟨hidentity, hretired⟩ := hfits
    rw [State.tabs_setTab_self]
    refine ⟨hnamed, fun _ ↦ ⟨fun _ ↦ ?_, fun _ ↦ rfl, fun _ ↦ hidentity, nofun⟩, nofun⟩
    show parseRetiredKeys s.db.retired = []
    rw [hretired]
    rfl

end OneStep

/-! ## Runs -/

theorem keeps_plays (hC : C.Lawful) (hone : C.OneSecret) (tab : Nat) (login : C.WrappedKey → String) :
    Program.Keeps (program C) (OneByOne C tab login) (fun s t ↦ Settled (s.tabs tab) s.db t)
      fun j thread s t ↦ Plays j thread.pc (s.tabs tab) s.db t where
  born j request s t _ hnew := by
    have hnone : ∀ e, session t ≠ some (j, e) := fun e hs ↦ hnew _ (List.mem_of_find?_eq_some hs) rfl
    have hrunning : running t ≠ some j := fun hr ↦ by
      obtain ⟨e, he, hj⟩ := mem_of_running hr
      exact hnew e he hj
    exact ⟨nofun, fun hr ↦ absurd hr hrunning, trivial, nofun, nofun, nofun,
      fun _ hs ↦ absurd hs (hnone _), fun _ hs ↦ absurd hs (hnone _)⟩
  own := by
    rintro i x ⟨tab', pc⟩ s t thread' s' es hok hs hplays hstep
    obtain ⟨-, hact⟩ := program_act hstep
    obtain rfl : tab' = tab := hok.1.1
    have h : OneStep tab' login i x pc thread'.pc s s' es t := ⟨hok, hs, hplays, hact⟩
    exact ⟨settled_step hC hone h, plays_own hC hone h⟩
  others := by
    rintro i x ⟨tab', pc⟩ s t thread' s' es j q hij hok hs hplays hstep hq
    obtain ⟨-, hact⟩ := program_act hstep
    obtain rfl : tab' = tab := hok.1.1
    exact plays_others hC hone ⟨hok, hs, hplays, hact⟩ hij hq

theorem settled_initial {db₀ : Db C} (hdb₀ : db₀.Consistent) (tab : Nat) :
    Settled ((State.initial db₀).tabs tab) (State.initial db₀).db [] :=
  ⟨hdb₀.named, fun _ ↦ ⟨hdb₀.tidy, fun _ ↦ rfl, nofun, nofun⟩, nofun⟩

/-- A step keeps the order of the stored keys. -/
theorem newestFirst_step {tab : Nat} {login : C.WrappedKey → String} {i : Nat} {x : Input C}
    {pc pc' : Pc C} {s s' : State C} {es : List (Event C)} {t : Trace (Event C)} {db₀ : Db C}
    (h : OneStep tab login i x pc pc' s s' es t) (hfirst : NewestFirst db₀ s.db t) :
    NewestFirst db₀ s'.db (tag i es ++ t) := by
  have hfits := h.plays.fits
  -- a step that puts nothing may drop keys
  have hdrops : s'.db.publicKeys.Sublist s.db.publicKeys →
      NewestFirst db₀ s'.db (tag i es ++ t) := by
    intro hsub
    rw [NewestFirst, committedKeys, List.filterMap_append, List.append_assoc]
    exact (hsub.trans hfirst).trans (List.sublist_append_right _ _)
  have hputs : ∀ {es : List (Event C)} {record : StoredIdentity C},
      committedKeys (tag i es ++ t) = record.publicKeyString :: committedKeys t →
        s'.db.publicKeys.Sublist (record.publicKeyString :: s.db.publicKeys) →
          NewestFirst db₀ s'.db (tag i es ++ t) := by
    intro es record hcommitted hsub
    rw [NewestFirst, hcommitted]
    exact hsub.trans (hfirst.cons_cons _)
  cases h.act with
  | importIdentity | setupNew =>
    refine hputs rfl (.cons_cons _ ?_)
    exact (List.sublist_append_right _ _).map _
  | rotate r retiredEntry newId newWrapped prior =>
    obtain ⟨⟨hof, -, hentry, -⟩, -, rfl⟩ := hfits
    refine hputs rfl (.cons_cons _ ?_)
    rw [Db.retiredEntries_putRotation, Db.publicKeys, Db.records, hof.stored, ← hentry]
    have hsub : (prependRetired s.db.retiredEntries retiredEntry).Sublist
        (retiredEntry :: s.db.retiredEntries) := Dedupe.dedupeBy_sublist
    exact (hsub.map recordOf).map StoredIdentity.publicKeyString
  | wipe => exact hdrops ((List.sublist_append_right _ _).map _)
  | clearRetired =>
    refine hdrops (List.Sublist.map _ ?_)
    exact (List.Sublist.refl _).append (List.nil_sublist _)
  | begins | passes | ends | mounted | saved | absent | wrongPassphrase | unlocked | retired | rotated
  | lock | wipeRejected | wiped => exact hdrops (List.Sublist.refl _)

/-- The stored keys are in their order in every run of one tab. -/
theorem newest_first (hC : C.Lawful) (hone : C.OneSecret) {tab : Nat} {login : C.WrappedKey → String}
    {db₀ : Db C} (hdb₀ : db₀.Consistent) {c : Config (Thread C) (State C) (Event C)}
    (hc : (program C).Reachable (OneByOne C tab login) (.initial db₀) c) :
    NewestFirst db₀ c.shared.db c.trace := by
  have hc' := Program.Reachable.strengthen (keeps_plays hC hone tab login) (settled_initial hdb₀ tab) hc
  refine Program.Reachable.shared (I := fun s t ↦ NewestFirst db₀ s.db t) ?_ ?_ hc'
  · exact List.Sublist.refl _
  rintro i x ⟨tab', pc⟩ s t thread' s' es ⟨hok, hs, hplays⟩ hfirst hstep
  obtain ⟨-, hact⟩ := program_act hstep
  obtain rfl : tab' = tab := hok.1.1
  exact newestFirst_step ⟨hok, hs, hplays, hact⟩ hfirst

theorem Pc.Wiping.ahead {pc : Pc C} (h : pc.Wiping) : pc.Ahead := by
  cases pc with
  | deletedIdentity | clearedRetired => trivial
  | _ => exact h.elim

/-- While an operation is under way that has not written, the memory has the stored active key. -/
theorem opened_of_running {tab i : Nat} {c : Config (Thread C) (State C) (Event C)}
    (hI : Program.Holds (fun s t ↦ Settled (s.tabs tab) s.db t)
      (fun j (thread : Thread C) s t ↦ Plays j thread.pc (s.tabs tab) s.db t) c)
    (hahead : ∀ thread ∈ c.threads, ¬thread.pc.Ahead)
    (hunlocked : (c.shared.tabs tab).stateRef = .unlocked) (hrunning : running c.trace = some i) :
    ∃ active passphrase,
      (c.shared.tabs tab).identityRef = some active ∧ c.shared.db.Stores passphrase active := by
  obtain ⟨e, he, rfl⟩ := mem_of_running hrunning
  obtain ⟨thread, hthread⟩ : ∃ thread, c.threads[e.1]? = some thread :=
    ⟨_, List.getElem?_eq_getElem (hI.actors _ he)⟩
  have hplays := hI.thread e.1 thread hthread
  have hactive := hplays.called hrunning
  have hfits := hplays.fits
  have hbehind := hahead thread (List.mem_of_getElem? hthread)
  have hrest : AtRest (c.shared.tabs tab) c.shared.db := by
    generalize thread.pc = pc at hactive hfits hbehind
    cases pc with
    | mounted | generateIdentity | wrapIdentity | unlockLoaded | unwrapActive | rotateLoaded =>
      exact hfits.1
    | reverify => exact Rotation.Of.rest hfits
    | fingerprintOld | generateNew | wrapNew => exact hfits.1.rest
    | priorLoaded => exact hfits.1.1.rest
    | saved => cases hfits.2.1.symm.trans hunlocked
    | committed | deletedIdentity | clearedRetired => exact absurd trivial hbehind
    | start | backgroundLoaded | background | done => exact hactive.elim
  exact hrest.opened hunlocked

/-- Where the operations of the tab run one by one, its decrypt keys agree with the database, but while
that is ahead of the memory. -/
theorem decrypt_keys_agree (hC : C.Lawful) (hone : C.OneSecret) (tab : Nat)
    (login : C.WrappedKey → String) {db₀ : Db C} (hdb₀ : db₀.Consistent)
    {c : Config (Thread C) (State C) (Event C)}
    (hc : (program C).Reachable (OneByOne C tab login) (.initial db₀) c)
    (hahead : ∀ thread ∈ c.threads, ¬thread.pc.Ahead)
    (hunlocked : (c.shared.tabs tab).stateRef = .unlocked) : Agrees db₀ tab c := by
  have hI := Program.invariant (keeps_plays hC hone tab login) (settled_initial hdb₀ tab) hc
  have hnamed := hI.shared.named
  -- the memory and the database have the same active key
  have hopened : ∃ active passphrase,
      (c.shared.tabs tab).identityRef = some active ∧ c.shared.db.Stores passphrase active := by
    cases hrunning : running c.trace with
    | none => exact (hI.shared.rest hrunning).opened hunlocked
    | some i => exact opened_of_running hI hahead hunlocked hrunning
  obtain ⟨active, passphrase, hactive, hstores⟩ := hopened
  obtain ⟨j, e, hsession, hlock⟩ := hI.shared.owned hunlocked
  obtain ⟨thread, hthread⟩ : ∃ thread, c.threads[j]? = some thread :=
    ⟨_, List.getElem?_eq_getElem (hI.actors _ (List.mem_of_find?_eq_some hsession))⟩
  have hmem : thread ∈ c.threads := List.mem_of_getElem? hthread
  have hplays := hI.thread j thread hthread
  obtain ⟨operation, rfl⟩ : ∃ operation, e = .resolved operation := by
    have hswitches := switches_of_session hsession
    cases e with
    | resolved operation => exact ⟨operation, rfl⟩
    | called request =>
      obtain ⟨tab', operation⟩ := request
      cases operation with
      | lock => exact absurd rfl (hlock tab')
      | wipe =>
        have hwiping := hplays.wiping tab' hsession hunlocked
        exact absurd hwiping.ahead (hahead thread hmem)
      | _ => cases hswitches
    | _ => cases hswitches
  obtain ⟨p, ⟨⟨k, hk⟩, active', hactive', hkeys⟩, -⟩ := hplays.owner operation hsession hunlocked
  obtain ⟨rfl, rfl⟩ := hk.unique hone hstores
  obtain rfl := Option.some.inj (hactive.symm.trans hactive')
  refine ⟨newest_first hC hone hdb₀ hc, p, k, (c.shared.tabs tab).retiredKeypairsRef, hstores, ?_, ?_,
    ?_, ?_⟩
  · rw [Tab.getAllPrivateKeysForDecrypt, hactive]
  · rw [← hkeys]
    exact List.sublist_append_left _ _
  · intro hloops
    rw [rest_of_loop (hloops thread hmem)] at hkeys
    rw [← hkeys]
    exact (List.append_nil _).symm
  · have hnodup : (unwrapAll p c.shared.db.retiredEntries).Nodup :=
      nodup_unwrapAll (named_retiredEntries hnamed) Dedupe.nodup_dedupeBy
    rw [List.nodup_cons]
    exact ⟨by simp [Db.retiredKeys], hnodup.filter _⟩

/-- In one tab a `mount`, a `setupNew`, two `rotate`s and a `lock`; an `unlock` whose loop has unwrapped
one retired key when a third `rotate` has committed. -/
def rotateDuringLoop : List (Action (Request (.transparent false)) (Input (.transparent false))) :=
  .spawn ⟨0, .mount⟩ :: List.replicate 2 (.run 0 (draw "" false)) ++
    .spawn ⟨0, .setupNew "p"⟩ :: List.replicate 4 (.run 1 (draw "a" false)) ++
    .spawn ⟨0, .rotate "p"⟩ :: List.replicate 8 (.run 2 (draw "b" false)) ++
    .spawn ⟨0, .rotate "p"⟩ :: List.replicate 8 (.run 3 (draw "c" false)) ++
    [.spawn ⟨0, .lock⟩, .run 4 (draw "" false)] ++
    .spawn ⟨0, .unlock "p"⟩ :: List.replicate 5 (.run 5 (draw "" false)) ++
    .spawn ⟨0, .rotate "p"⟩ :: List.replicate 7 (.run 6 (draw "d" false))

/-- The passphrase that an envelope of the transparent provider shows. -/
def shownLogin : (IdentityCrypto.transparent false).WrappedKey → String := Prod.snd

theorem Db.empty_consistent : (Db.empty : Db C).Consistent where
  named := by rintro _ ⟨⟩
  tidy _ := rfl

theorem decrypt_keys_agree_sample :
    ∃ c, (program (.transparent false)).exec (OneByOne _ 0 shownLogin)
      (Program.start (.initial .empty)) (rotateDuringLoop ++ [.run 6 (draw "" false)]) = some c ∧
        Agrees .empty 0 c ∧ (c.shared.tabs 0).getAllPrivateKeysForDecrypt = (["d", "c", "b"] : List String) := by
  have hrun : ((program (.transparent false)).exec (OneByOne _ 0 shownLogin)
      (Program.start (.initial .empty)) (rotateDuringLoop ++ [.run 6 (draw "" false)])).map (fun c ↦
        (c.threads.map Thread.pc, (c.shared.tabs 0).stateRef,
          (c.shared.tabs 0).getAllPrivateKeysForDecrypt)) =
      some ([.done, .done, .done, .done, .done, .background 1 "p" ⟨("a", "p"), "a", "a", 0⟩ [], .done],
        .unlocked, ["d", "c", "b"]) := rfl
  obtain ⟨c, hc, hv⟩ := Option.map_eq_some_iff.mp hrun
  obtain ⟨hthreads, hv⟩ := Prod.mk.inj hv
  obtain ⟨hunlocked, hkeys⟩ := Prod.mk.inj hv
  refine ⟨c, hc, ?_, hkeys⟩
  refine decrypt_keys_agree (IdentityCrypto.transparent_lawful false)
    (IdentityCrypto.transparent_oneSecret false) 0 shownLogin Db.empty_consistent
    (Program.runs_of_exec hc) ?_ hunlocked
  intro thread hthread
  have hpc : thread.pc ∈ c.threads.map Thread.pc := List.mem_map_of_mem hthread
  rw [hthreads] at hpc
  generalize thread.pc = pc at hpc
  simp at hpc
  rcases hpc with rfl | rfl | rfl <;> exact id

/-- When a rotation has committed, the tab still has the key that it retires. -/
theorem keys_lag : ¬∀ (C : IdentityCrypto), C.Lawful → C.OneSecret → ∀ (tab : Nat)
    (login : C.WrappedKey → String) (db₀ : Db C), db₀.Consistent →
      ∀ c, (program C).Reachable (OneByOne C tab login) (.initial db₀) c →
        (c.shared.tabs tab).stateRef = .unlocked → Agrees db₀ tab c := by
  intro h
  have hrun : ((program (.transparent false)).exec (OneByOne _ 0 shownLogin)
      (Program.start (.initial .empty)) rotateDuringLoop).map (fun c ↦
        (c.shared.db.identity, (c.shared.tabs 0).stateRef,
          (c.shared.tabs 0).getAllPrivateKeysForDecrypt)) =
      some (some ⟨"d", "d", "p"⟩, .unlocked, ["c", "b"]) := rfl
  obtain ⟨c, hc, hv⟩ := Option.map_eq_some_iff.mp hrun
  obtain ⟨hidentity, hv⟩ := Prod.mk.inj hv
  obtain ⟨hunlocked, hkeys⟩ := Prod.mk.inj hv
  obtain ⟨-, passphrase, active, keys, ⟨record, hrecord, hunwrap⟩, hall, -⟩ :=
    h _ (IdentityCrypto.transparent_lawful false) (IdentityCrypto.transparent_oneSecret false) 0
      shownLogin .empty Db.empty_consistent c (Program.runs_of_exec hc) hunlocked
  obtain rfl := Option.some.inj (hidentity.symm.trans hrecord)
  have hactive : active = "d" := by
    by_cases hp : "p" = passphrase
    · exact (Option.some.inj ((if_pos hp).symm.trans hunwrap)).symm
    · cases (if_neg hp).symm.trans hunwrap
  have hhead : active = "c" := (List.cons.inj (hall.symm.trans hkeys)).1
  have hsame : ("d" : String) = "c" := hactive.symm.trans hhead
  exact absurd hsame (by decide)

end Aesmsg.Identity.Web
