import Aesmsg.Identity.WebSteps

/-!
# No private key is lost on the web

The guards of the provider are in the memory of a tab, the record is shared, and `rotate` writes the
retired entries that it could read.  When a write replaces only the record of the key that it puts or
retires, and a rotation has read the retired entries that are stored, every key that was committed
stays in the database until a wipe.

## Main results

- `stored_keys_kept`: the keys stay in every reachable state of a run with such writes.
- `failed_read_loses_key`: a rotation whose read of the retired entries fails loses a key.
-/

namespace Aesmsg.Identity.Web

open Threads

variable {C : IdentityCrypto} {x : Input C} {tab : Nat} {pc pc' : Pc C} {s s' : State C}
  {es : List (Event C)}

/-! ## The keys of a database -/

/-- The record of a retired entry's key. -/
def recordOf (e : RetiredKeyEntry C.WrappedKey) : StoredIdentity C := ⟨e.publicKeyString, e.wrapped⟩

/-- The keys in the database, the active one and the retired ones, with their envelopes. -/
def Db.records (db : Db C) : List (StoredIdentity C) :=
  db.identity.toList ++ db.retiredEntries.map recordOf

theorem Db.mem_records {db : Db C} {record : StoredIdentity C} :
    record ∈ db.records ↔ db.identity = some record ∨ ∃ e ∈ db.retiredEntries, recordOf e = record := by
  rw [records, List.mem_append, List.mem_map, Option.mem_toList]

theorem Db.retiredEntries_putRotation (record : StoredIdentity C)
    (prior : List (RetiredKeyEntry C.WrappedKey)) (e : RetiredKeyEntry C.WrappedKey) :
    (Db.putRotation record (prependRetired prior e)).retiredEntries = prependRetired prior e :=
  parseRetiredKeys_prependRetired prior e

def Event.erases : Event C → Bool
  | .erased _ => true
  | _ => false

/-- What has happened since a wipe erased something. -/
abbrev sinceErased (t : Trace (Event C)) : Trace (Event C) := sinceLast Event.erases t

/-- The record was in the first database or has been committed. -/
def Authentic (db₀ : Db C) (t : Trace (Event C)) (record : StoredIdentity C) : Prop :=
  record ∈ db₀.records ∨ ∃ i w, (i, .committed w record) ∈ t

/-- The key is in the database, with an envelope that has been stored for it. -/
def Kept (db₀ : Db C) (c : Config (Thread C) (State C) (Event C)) (publicKeyString : String) : Prop :=
  ∃ record ∈ c.shared.db.records, record.publicKeyString = publicKeyString ∧
    Authentic db₀ c.trace record

/-- Every key that was committed since the last wipe is kept, and so is every key of the first database
as long as nothing has been wiped. -/
def KeysKept (db₀ : Db C) (c : Config (Thread C) (State C) (Event C)) : Prop :=
  (∀ i w record, (i, .committed w record) ∈ sinceErased c.trace → Kept db₀ c record.publicKeyString) ∧
    ((∀ e ∈ c.trace, e.2.erases = false) →
      ∀ record ∈ db₀.records, Kept db₀ c record.publicKeyString)

/-- What `setupNew` and `importIdentity` replace in the identity store is of the key that they put;
what `rotate` replaces is of the key that it retires, and it has read the other retired keys. -/
def WritesInTurn (C : IdentityCrypto) : Program.Guard (Input C) (Thread C) (State C) (Event C) :=
  fun _ x thread s _ ↦
    match thread.pc with
    | .start (.importIdentity _ id) =>
      (s.tabs thread.tab).stateRef = .noIdentity → x.rejects = none →
        ∀ record ∈ s.db.identity, record.publicKeyString = C.exportPublicKey id
    | .wrapIdentity _ id => x.rejects = none →
        ∀ record ∈ s.db.identity, record.publicKeyString = C.exportPublicKey id
    | .priorLoaded r _ _ _ prior => x.rejects = none →
        (∀ record ∈ s.db.identity, record.publicKeyString = r.stored.publicKeyString) ∧
          ∀ e ∈ s.db.retiredEntries, e.publicKeyString = r.stored.publicKeyString ∨
            ∃ e' ∈ prior, e'.publicKeyString = e.publicKeyString
    | _ => True

instance (i : Nat) (x : Input C) (thread : Thread C) (s : State C) (t : Trace (Event C)) :
    Decidable (WritesInTurn C i x thread s t) :=
  match thread with
  | ⟨tab, .start operation⟩ =>
    match operation with
    | .importIdentity _ id => inferInstanceAs (Decidable
        ((s.tabs tab).stateRef = .noIdentity → x.rejects = none →
          ∀ record ∈ s.db.identity, record.publicKeyString = C.exportPublicKey id))
    | .mount | .setupNew _ | .unlock _ | .rotate _ | .lock | .wipe => isTrue trivial
  | ⟨_, .wrapIdentity _ id⟩ => inferInstanceAs (Decidable (x.rejects = none →
      ∀ record ∈ s.db.identity, record.publicKeyString = C.exportPublicKey id))
  | ⟨_, .priorLoaded r _ _ _ prior⟩ => inferInstanceAs (Decidable (x.rejects = none →
      (∀ record ∈ s.db.identity, record.publicKeyString = r.stored.publicKeyString) ∧
        ∀ e ∈ s.db.retiredEntries, e.publicKeyString = r.stored.publicKeyString ∨
          ∃ e' ∈ prior, e'.publicKeyString = e.publicKeyString))
  | ⟨_, .mounted _⟩ | ⟨_, .generateIdentity _⟩ | ⟨_, .saved ..⟩ | ⟨_, .unlockLoaded ..⟩
  | ⟨_, .unwrapActive ..⟩ | ⟨_, .backgroundLoaded ..⟩ | ⟨_, .background ..⟩ | ⟨_, .rotateLoaded ..⟩
  | ⟨_, .reverify _⟩ | ⟨_, .fingerprintOld _⟩ | ⟨_, .generateNew ..⟩ | ⟨_, .wrapNew ..⟩
  | ⟨_, .committed ..⟩ | ⟨_, .deletedIdentity⟩ | ⟨_, .clearedRetired⟩ | ⟨_, .done⟩ => isTrue trivial

/-! ## The invariant -/

/-- The keys that have been committed are in the database, and nothing else is. -/
structure Safe (db₀ : Db C) (s : State C) (t : Trace (Event C)) : Prop where
  authentic : ∀ record ∈ s.db.records, Authentic db₀ t record
  committed : ∀ i w record, (i, .committed w record) ∈ sinceErased t →
    ∃ kept ∈ s.db.records, kept.publicKeyString = record.publicKeyString
  initial : (∀ e ∈ t, e.2.erases = false) → ∀ record ∈ db₀.records,
    ∃ kept ∈ s.db.records, kept.publicKeyString = record.publicKeyString

/-- The records that a thread holds satisfy `A`. -/
def Pc.Knows (A : StoredIdentity C → Prop) : Pc C → Prop
  | .rotateLoaded _ _ _ stored => ∀ record, stored = some record → A record
  | .reverify r | .fingerprintOld r => A r.stored
  | .generateNew r retiredEntry | .wrapNew r retiredEntry _ =>
    A r.stored ∧ recordOf retiredEntry = r.stored
  | .priorLoaded r retiredEntry _ _ prior =>
    A r.stored ∧ recordOf retiredEntry = r.stored ∧ ∀ e ∈ prior, A (recordOf e)
  | _ => True

theorem Pc.Knows.mono {A B : StoredIdentity C → Prop} (hAB : ∀ record, A record → B record)
    (h : pc.Knows A) : pc.Knows B := by
  cases pc with
  | rotateLoaded => exact fun record hrecord ↦ hAB _ (h record hrecord)
  | reverify | fingerprintOld => exact hAB _ h
  | generateNew | wrapNew => exact ⟨hAB _ h.1, h.2⟩
  | priorLoaded => exact ⟨hAB _ h.1, h.2.1, fun e he ↦ hAB _ (h.2.2 e he)⟩
  | _ => trivial

theorem Authentic.append {db₀ : Db C} {t : Trace (Event C)} {record : StoredIdentity C}
    (h : Authentic db₀ t record) (t' : Trace (Event C)) : Authentic db₀ (t' ++ t) record := by
  rcases h with h | ⟨i, w, h⟩
  · exact .inl h
  · exact .inr ⟨i, w, List.mem_append_right _ h⟩

theorem backgroundFrom_knows (A : StoredIdentity C → Prop) (m : Tab C) (epoch : Nat)
    (passphrase : String) (entries : List (RetiredKeyEntry C.WrappedKey)) :
    (backgroundFrom m epoch passphrase entries).Knows A := by
  rcases backgroundFrom_cases m epoch passphrase entries with ⟨h, -⟩ | ⟨_, _, -, -, h⟩ <;>
    rw [h] <;> trivial

/-- What a step reads of the database satisfies what its records satisfy. -/
theorem knows_of_act {A : StoredIdentity C → Prop} (hact : Act x tab pc s pc' s' es)
    (hdb : ∀ record ∈ s.db.records, A record) (hpc : pc.Knows A) : pc'.Knows A := by
  cases hact with
  | begins begins =>
    cases begins with
    | rotate => exact fun record hrecord ↦ hdb _ (Db.mem_records.mpr (.inl hrecord))
    | mount | setupNew | unlock => trivial
  | passes passes =>
    cases passes with
    | generateIdentity | unlockLoaded => trivial
    | backgroundLoaded | skip => exact backgroundFrom_knows _ _ _ _ _
    | rotateLoaded epoch passphrase oldActive stored => exact hpc stored rfl
    | reverify | generateNew => exact hpc
    | fingerprintOld => exact ⟨hpc, rfl⟩
    | wrapNew =>
      obtain ⟨hstored, hentry⟩ := hpc
      refine ⟨hstored, hentry, fun e he ↦ ?_⟩
      unfold loadRetiredEntries at he
      split at he
      · cases he
      · exact hdb _ (Db.mem_records.mpr (.inr ⟨e, he, rfl⟩))
  | retired => exact backgroundFrom_knows _ _ _ _ _
  | ends | mounted | importIdentity | setupNew | saved | absent | wrongPassphrase | unlocked | rotate
  | rotated | lock | wipe | wipeRejected | clearRetired | wiped => trivial

variable {db₀ : Db C} {t : Trace (Event C)} {i : Nat}

/-- A step that erases nothing keeps the invariant when the keys stay and its records are stored. -/
theorem Safe.step (h : Safe db₀ s t) (herases : ∀ e ∈ es, e.erases = false)
    (hauthentic : ∀ record ∈ s'.db.records, Authentic db₀ (tag i es ++ t) record)
    (hstays : ∀ record ∈ s.db.records, ∃ kept ∈ s'.db.records,
      kept.publicKeyString = record.publicKeyString)
    (hstored : ∀ w record, .committed w record ∈ es → record ∈ s'.db.records) :
    Safe db₀ s' (tag i es ++ t) where
  authentic := hauthentic
  committed j w record hmem := by
    rw [sinceErased, sinceLast_append herases] at hmem
    rcases List.mem_append.mp hmem with hmem | hmem
    · obtain ⟨e, he, heq⟩ := List.mem_map.mp hmem
      obtain ⟨-, rfl⟩ := Prod.mk.inj heq
      exact ⟨record, hstored w record he, rfl⟩
    · obtain ⟨kept, hkept, hkey⟩ := h.committed j w record hmem
      obtain ⟨kept', hkept', hkey'⟩ := hstays kept hkept
      exact ⟨kept', hkept', hkey'.trans hkey⟩
  initial hnone record hrecord := by
    obtain ⟨kept, hkept, hkey⟩ :=
      h.initial (fun e he ↦ hnone e (List.mem_append_right _ he)) record hrecord
    obtain ⟨kept', hkept', hkey'⟩ := hstays kept hkept
    exact ⟨kept', hkept', hkey'.trans hkey⟩

/-- What erases begins anew. -/
theorem Safe.erase (h : Safe db₀ s t) {item : Item} {es : List (Event C)}
    (hsub : ∀ record ∈ s'.db.records, record ∈ s.db.records) :
    Safe db₀ s' (tag i (.erased item :: es) ++ t) where
  authentic record hrecord := (h.authentic record (hsub record hrecord)).append _
  committed j w record hmem := by
    rw [sinceErased, tag_cons, List.cons_append, sinceLast_cons_stop rfl] at hmem
    cases hmem
  initial hnone := by
    have hfalse := hnone (i, .erased item) List.mem_cons_self
    cases hfalse

/-- Putting a record over none, or over one of its key, drops no key. -/
theorem Safe.putIdentity (h : Safe db₀ s t) {record : StoredIdentity C} {es : List (Event C)}
    (hfound : ∀ stored ∈ s.db.identity, stored.publicKeyString = record.publicKeyString)
    (hdb : s'.db = s.db.putIdentity record)
    (hes : ∀ e ∈ es, e.erases = false ∧ ∀ w record, e ≠ .committed w record) :
    Safe db₀ s' (tag i (.committed .create record :: es) ++ t) := by
  have hmem : ∀ kept, kept ∈ s'.db.records ↔
      record = kept ∨ ∃ e ∈ s.db.retiredEntries, recordOf e = kept := by
    intro kept
    rw [hdb, Db.mem_records]
    exact or_congr Option.some_inj Iff.rfl
  refine h.step ?_ ?_ ?_ ?_
  · intro e he
    rcases List.mem_cons.mp he with rfl | he
    · rfl
    · exact (hes e he).1
  · intro kept hkept
    rcases (hmem kept).mp hkept with rfl | hkept
    · exact .inr ⟨i, .create, List.mem_cons_self⟩
    · exact (h.authentic kept (Db.mem_records.mpr (.inr hkept))).append _
  · intro kept hkept
    rcases Db.mem_records.mp hkept with hkept | hkept
    · exact ⟨record, (hmem record).mpr (.inl rfl), (hfound kept hkept).symm⟩
    · exact ⟨kept, (hmem kept).mpr (.inr hkept), rfl⟩
  · intro w kept hkept
    rcases List.mem_cons.mp hkept with heq | hkept
    · cases heq
      exact (hmem _).mpr (.inl rfl)
    · exact absurd rfl ((hes _ hkept).2 w kept)

/-- A rotation that has read what it replaces drops no key. -/
theorem Safe.putRotation (h : Safe db₀ s t) {stored record : StoredIdentity C}
    {retiredEntry : RetiredKeyEntry C.WrappedKey} {prior : List (RetiredKeyEntry C.WrappedKey)}
    (hstored : Authentic db₀ t stored) (hentry : recordOf retiredEntry = stored)
    (hprior : ∀ e ∈ prior, Authentic db₀ t (recordOf e))
    (hfound : ∀ found ∈ s.db.identity, found.publicKeyString = stored.publicKeyString)
    (hread : ∀ e ∈ s.db.retiredEntries, e.publicKeyString = stored.publicKeyString ∨
      ∃ e' ∈ prior, e'.publicKeyString = e.publicKeyString)
    (hdb : s'.db = .putRotation record (prependRetired prior retiredEntry)) :
    Safe db₀ s' (tag i [.committed .rotate record] ++ t) := by
  have hmem : ∀ kept, kept ∈ s'.db.records ↔
      record = kept ∨ ∃ e ∈ prependRetired prior retiredEntry, recordOf e = kept := by
    intro kept
    rw [hdb, Db.mem_records, Db.retiredEntries_putRotation]
    exact or_congr Option.some_inj Iff.rfl
  have hretired : stored ∈ s'.db.records :=
    (hmem stored).mpr (.inr ⟨retiredEntry, mem_prependRetired prior retiredEntry, hentry⟩)
  refine h.step ?_ ?_ ?_ ?_
  · intro e he
    obtain rfl := List.mem_singleton.mp he
    rfl
  · intro kept hkept
    rcases (hmem kept).mp hkept with rfl | ⟨e, he, rfl⟩
    · exact .inr ⟨i, .rotate, List.mem_cons_self⟩
    · rcases List.mem_cons.mp (Dedupe.dedupeBy_sublist.subset he) with rfl | he
      · exact hentry ▸ hstored.append _
      · exact (hprior e he).append _
  · intro kept hkept
    rcases Db.mem_records.mp hkept with hkept | ⟨e, he, rfl⟩
    · exact ⟨stored, hretired, (hfound kept hkept).symm⟩
    · rcases hread e he with hkey | ⟨e', he', hkey⟩
      · exact ⟨stored, hretired, hkey.symm⟩
      · obtain ⟨e'', he'', hkey'⟩ : ∃ e'' ∈ prependRetired prior retiredEntry,
            e''.publicKeyString = e'.publicKeyString :=
          Dedupe.exists_mem_dedupeBy (List.mem_cons_of_mem retiredEntry he')
        exact ⟨recordOf e'', (hmem _).mpr (.inr ⟨e'', he'', rfl⟩), hkey'.trans hkey⟩
  · intro w kept hkept
    cases List.mem_singleton.mp hkept
    exact (hmem record).mpr (.inl rfl)

/-- A step that leaves the database keeps the invariant. -/
theorem Safe.same (h : Safe db₀ s t) (hdb : s'.db = s.db)
    (hes : ∀ e ∈ es, e.erases = false ∧ ∀ w record, e ≠ .committed w record) :
    Safe db₀ s' (tag i es ++ t) := by
  refine h.step (fun e he ↦ (hes e he).1) ?_ ?_ fun w record he ↦ absurd rfl ((hes _ he).2 w record)
  · intro kept hkept
    rw [hdb] at hkept
    exact (h.authentic kept hkept).append _
  · intro kept hkept
    rw [← hdb] at hkept
    exact ⟨kept, hkept, rfl⟩

theorem safe_of_act (hok : WritesInTurn C i x ⟨tab, pc⟩ s t) (hsafe : Safe db₀ s t)
    (hpc : pc.Knows (Authentic db₀ t)) (hact : Act x tab pc s pc' s' es) :
    Safe db₀ s' (tag i es ++ t) := by
  cases hact with
  | importIdentity envelope keypair _ state succeeds =>
    exact hsafe.putIdentity (hok state succeeds) rfl (by simp [Event.erases])
  | setupNew passphrase id _ succeeds =>
    exact hsafe.putIdentity (hok succeeds) rfl (by rintro _ ⟨⟩)
  | rotate r retiredEntry newId newWrapped prior _ succeeds =>
    obtain ⟨hstored, hentry, hprior⟩ := hpc
    obtain ⟨hfound, hread⟩ := hok succeeds
    exact hsafe.putRotation hstored hentry hprior hfound hread rfl
  | wipe =>
    refine hsafe.erase fun kept hkept ↦ ?_
    rcases Db.mem_records.mp hkept with hkept | hkept
    · cases hkept
    · exact Db.mem_records.mpr (.inr hkept)
  | clearRetired =>
    refine hsafe.erase fun kept hkept ↦ ?_
    rcases Db.mem_records.mp hkept with hkept | ⟨e, he, -⟩
    · exact Db.mem_records.mpr (.inl hkept)
    · cases he
  | ends ends =>
    refine hsafe.same rfl fun e he ↦ ?_
    have hquiet := ends.quiet e he
    cases e with
    | committed | erased => exact hquiet.elim
    | called | keyed | resolved | rejected => exact ⟨rfl, nofun⟩
  | begins | passes | mounted | saved | absent | wrongPassphrase | unlocked | retired | rotated | lock
  | wipeRejected | wiped => exact hsafe.same rfl (by simp [Event.erases])

theorem keeps_safe (C : IdentityCrypto) (db₀ : Db C) : Program.Keeps (program C) (WritesInTurn C)
    (Safe db₀) fun _ thread _ t ↦ thread.pc.Knows (Authentic db₀ t) where
  born _ _ _ _ _ _ := trivial
  others _ _ _ _ _ h := h.mono fun _ hrecord ↦ hrecord.append _
  own := by
    rintro i x ⟨tab, pc⟩ s t p' s' es hok hsafe hpc h
    obtain ⟨-, hact⟩ := program_act h
    exact ⟨safe_of_act hok hsafe hpc hact,
      (knows_of_act hact hsafe.authentic hpc).mono fun _ hrecord ↦ hrecord.append _⟩

/-- Providers that are not mounted yet, over a database. -/
def State.initial (db₀ : Db C) : State C := ⟨db₀, fun _ ↦ Tab.fresh⟩

/-- Where every write is in turn, the keys stay in the database. -/
theorem stored_keys_kept (C : IdentityCrypto) (db₀ : Db C)
    {c : Config (Thread C) (State C) (Event C)}
    (hc : (program C).Reachable (WritesInTurn C) (.initial db₀) c) : KeysKept db₀ c := by
  have hinit : Safe db₀ (State.initial db₀) [] := by
    refine ⟨fun record h ↦ .inl h, ?_, fun _ record h ↦ ⟨record, h, rfl⟩⟩
    rintro i w record ⟨⟩
  have hsafe := (Program.invariant (keeps_safe C db₀) hinit hc).shared
  constructor
  · intro i w record hmem
    obtain ⟨kept, hkept, hkey⟩ := hsafe.committed i w record hmem
    exact ⟨kept, hkept, hkey, hsafe.authentic kept hkept⟩
  · intro hnone record hrecord
    obtain ⟨kept, hkept, hkey⟩ := hsafe.initial hnone record hrecord
    exact ⟨kept, hkept, hkey, hsafe.authentic kept hkept⟩

/-- The inputs of a run in which `generated` is drawn and no call rejects. -/
def draw (generated : String) (readFails : Bool) : Input (.transparent false) :=
  ⟨0, generated, (), readFails, none⟩

/-- In one tab a `setupNew` of `a` and a `rotate` to `b`. -/
def setupThenRotate : List (Action (Request (.transparent false)) (Input (.transparent false))) :=
  .spawn ⟨0, .setupNew "p"⟩ :: List.replicate 4 (.run 0 (draw "a" false)) ++
    .spawn ⟨0, .rotate "p"⟩ :: List.replicate 8 (.run 1 (draw "b" false))

theorem stored_keys_kept_sample :
    ∃ c, (program (.transparent false)).exec (WritesInTurn _)
      (Program.start (.initial .empty)) setupThenRotate = some c ∧ KeysKept .empty c ∧
        (0, .committed .create ⟨"a", "a", "p"⟩) ∈ sinceErased c.trace ∧
          (1, .committed .rotate ⟨"b", "b", "p"⟩) ∈ sinceErased c.trace := by
  have hrun : ((program (.transparent false)).exec (WritesInTurn _)
      (Program.start (.initial .empty)) setupThenRotate).map (fun c ↦
        decide ((0, .committed .create ⟨"a", "a", "p"⟩) ∈ sinceErased c.trace ∧
          (1, .committed .rotate ⟨"b", "b", "p"⟩) ∈ sinceErased c.trace)) = some true := rfl
  obtain ⟨c, hc, hv⟩ := Option.map_eq_some_iff.mp hrun
  exact ⟨c, hc, stored_keys_kept _ _ (Program.runs_of_exec hc), of_decide_eq_true hv⟩

/-- A second `rotate` that cannot read the retired entries writes a list without the first key. -/
theorem failed_read_loses_key : ¬∀ (C : IdentityCrypto) (db₀ : Db C)
    (c : Config (Thread C) (State C) (Event C)),
      (program C).Reachable .always (.initial db₀) c → KeysKept db₀ c := by
  intro h
  have hrun : ((program (.transparent false)).exec .always (Program.start (.initial .empty))
      (setupThenRotate ++ .spawn ⟨0, .rotate "p"⟩ :: List.replicate 8 (.run 2 (draw "c" true)))).map
        (fun c ↦ (decide ((0, .committed .create ⟨"a", "a", "p"⟩) ∈ sinceErased c.trace),
          c.shared.db.records)) =
      some (true, [⟨"c", "c", "p"⟩, ⟨"b", "b", "p"⟩]) := rfl
  obtain ⟨c, hc, hv⟩ := Option.map_eq_some_iff.mp hrun
  obtain ⟨hmem, hrecords⟩ := Prod.mk.inj hv
  obtain ⟨record, hrecord, hkey, -⟩ := (h _ _ c (Program.runs_of_exec hc)).1 0 .create _
    (of_decide_eq_true hmem)
  rw [hrecords] at hrecord
  rcases List.mem_cons.mp hrecord with rfl | hrecord
  · exact absurd hkey (by decide)
  · obtain rfl := List.mem_singleton.mp hrecord
    exact absurd hkey (by decide)

end Aesmsg.Identity.Web
