import Aesmsg.Contacts.Directory
import Aesmsg.Lib.Cell

/-!
# Calls that overlap

The calls of the contacts stores, in any order of their reads and writes.  On the web they come from
any number of tabs, and every read and every write is a transaction of its own.

## Main results

- `verified_keys_kept`: where every call finds the contacts that it writes with the keys that they
  had when it was made, a verified contact has the key that was verified, and no call brings an older
  key or a deleted contact back.
- `verified_moves_to_new_key`: otherwise the mark of one key comes to stand on another.
-/

namespace Aesmsg.Contacts

open Crypto Cell

/-- The calls on the directory, whose writes are the whole list or one record. -/
def contacts (H : Hpke) (p : Platform) : Calls Call Write (List ContactRecord) where
  plan call l := match p.plan H l call with
    | .ok plan => plan.write
    | .error _ => none
  perform := Write.perform

/-- The fingerprints of the contact `id`. -/
def keysOf (l : List ContactRecord) (id : String) : Option (List String) :=
  (l.find? (·.id = id)).map ContactRecord.fingerprints

/-- The contacts that a write stores. -/
def Write.contacts : Write → List ContactRecord
  | records all => all
  | put record => [record]
  | remove _ => []

/-- The id that is drawn is not in use, and every other contact that is written has the keys that it
had when the call was made and when it was read. -/
structure Stands (call : Call) (first read : List ContactRecord) (w : Write)
    (l : List ContactRecord) : Prop where
  fresh : call.Fresh read ∧ call.Fresh l
  kept : ∀ d ∈ w.contacts, call.uuid ≠ some d.id →
    keysOf l d.id = keysOf read d.id ∧ keysOf first d.id = keysOf read d.id

/-- A call that verifies the contact when it has the key of `d`. -/
def Attests (d : ContactRecord) : Event Call (List ContactRecord) → Prop
  | .made (.setContactVerified id verified _) first =>
    verified = true ∧ id = d.id ∧ ∃ e ∈ first, e.id = d.id ∧ e.fingerprint = d.fingerprint
  | _ => False

/-- Every verified contact has a key for which a call to verify it was made. -/
def VerifiedKeys (l : List ContactRecord) (t : Threads.Trace (Event Call (List ContactRecord))) : Prop :=
  ∀ d ∈ l, d.verified = true → ∃ e ∈ t, Attests d e.2

/-- Every contact that the call leaves is the one that it adds or was there, with a key that is not
older. -/
def Forward (call : Call) (before after : List ContactRecord) : Prop :=
  ∀ d ∈ after, (call.uuid = some d.id ∧ d.id ∉ ids before) ∨
    ∃ e ∈ before, e.id = d.id ∧ d.fingerprint ∉ e.previousFingerprints

/-! ## One write -/

section Keys

variable {l : List ContactRecord}

theorem keysOf_of_mem (hl : (ids l).Nodup) {c : ContactRecord} (hc : c ∈ l) :
    keysOf l c.id = some c.fingerprints := by
  have hfind : l.find? (·.id = c.id) = some c := by
    induction l with
    | nil => cases hc
    | cons d rest ih =>
      obtain ⟨hnotin, hrest⟩ := List.nodup_cons.mp hl
      rcases List.mem_cons.mp hc with rfl | hc
      · exact List.find?_cons_of_pos (decide_eq_true rfl)
      · have hne : decide (d.id = c.id) = false :=
          decide_eq_false fun hid ↦ hnotin (hid ▸ mem_ids c hc)
        rw [List.find?_cons, hne]
        exact ih hrest hc
  rw [keysOf, hfind]
  rfl

theorem exists_of_keysOf {id : String} {keys : List String} (h : keysOf l id = some keys) :
    ∃ e ∈ l, e.id = id ∧ e.fingerprints = keys := by
  obtain ⟨e, he, rfl⟩ := Option.map_eq_some_iff.mp h
  have hid := List.find?_some he
  exact ⟨e, List.mem_of_find?_eq_some he, of_decide_eq_true hid, rfl⟩

end Keys

section Write

variable {H : Hpke} {l l' : List ContactRecord} {call : Call} {w : Write}

/-- A stored contact is an old one or one that the write stores. -/
theorem mem_perform {d : ContactRecord} (h : d ∈ w.perform l) : d ∈ l ∨ d ∈ w.contacts := by
  cases w with
  | records all => exact .inr h
  | put record =>
    rcases List.mem_cons.mp ((put_perm record l).subset h) with rfl | hold
    · exact .inr List.mem_cons_self
    · exact .inl (mem_without.mp hold).1
  | remove id => exact .inl (mem_without.mp h).1

theorem perform_of_mem_contacts {d : ContactRecord} (h : d ∈ w.contacts) : d ∈ w.perform l := by
  cases w with
  | records all => exact h
  | put record =>
    obtain rfl := List.mem_singleton.mp h
    exact (put_perm d l).symm.subset List.mem_cons_self
  | remove id => cases h

theorem nodup_of_effect (hl : (ids l).Nodup) {returned : Option ContactRecord}
    (h : Effect H l call l' returned) : (ids l').Nodup := by
  cases h with
  | stored made perm => exact ((perm.map ContactRecord.id).nodup_iff).mpr (nodup_stored _ hl)
  | removed => exact hl.sublist (List.filter_sublist.map _)

/-- A contact after a call was there or was made by it. -/
theorem mem_of_effect {returned : Option ContactRecord} (h : Effect H l call l' returned)
    {d : ContactRecord} (hd : d ∈ l') : d ∈ l ∨ Made H l call d := by
  cases h with
  | stored made perm =>
    rcases List.mem_cons.mp (perm.subset hd) with rfl | hold
    · exact .inr made
    · exact .inl (mem_without.mp hold).1
  | removed => exact .inl (mem_without.mp hd).1

/-- A write has the effect of its call on the directory that was read. -/
theorem effect_of_plan {p : Platform} (hl : (ids l).Nodup) (hfresh : call.Fresh l)
    (h : (contacts H p).plan call l = some w) : ∃ returned, Effect H l call (w.perform l) returned := by
  change (match p.plan H l call with | .ok plan => plan.write | .error _ => none) = some w at h
  split at h
  · rename_i plan hplan
    have heffect := p.effect hl hfresh hplan
    rw [Plan.perform, h] at heffect
    exact ⟨_, heffect⟩
  · cases h

end Write

/-! ## Runs -/

/-- What holds of the directory and of every directory that was read. -/
structure Sound (l : List ContactRecord) (t : Threads.Trace (Event Call (List ContactRecord))) :
    Prop where
  ids : (ids l).Nodup
  current : ∀ d ∈ l, d.fingerprint ∉ d.previousFingerprints
  verified : VerifiedKeys l t

theorem Sound.append {l : List ContactRecord} {t : Threads.Trace (Event Call (List ContactRecord))}
    (h : Sound l t) (es : Threads.Trace (Event Call (List ContactRecord))) : Sound l (es ++ t) where
  ids := h.ids
  current := h.current
  verified d hd hv := by
    obtain ⟨e, he, hattests⟩ := h.verified d hd hv
    exact ⟨e, List.mem_append_right _ he, hattests⟩

theorem Made.current {H : Hpke} {l : List ContactRecord} {call : Call} {d : ContactRecord}
    (hl : ∀ c ∈ l, c.fingerprint ∉ c.previousFingerprints) (h : Made H l call d) :
    d.fingerprint ∉ d.previousFingerprints := by
  cases h with
  | added => exact List.not_mem_nil
  | rotated mem hfp unused =>
    exact fun hin ↦ unused ((List.perm_append_singleton _ _).subset hin)
  | @marked existing _ _ mem => exact hl existing mem
  | @renamed existing _ _ _ mem => exact hl existing mem

section Step

variable {H : Hpke} {p : Platform} {call : Call} {first read l : List ContactRecord} {w : Write}
  {i : Nat} {t : Threads.Trace (Event Call (List ContactRecord))}

/-- What a contact that is written was in the directory that the call has read. -/
theorem origin (hread : Sound read t) (hplan : (contacts H p).plan call read = some w)
    (hstands : Stands call first read w l) {d : ContactRecord} (hd : d ∈ w.contacts) :
    d ∈ read ∨ Made H read call d := by
  obtain ⟨returned, heffect⟩ := effect_of_plan hread.ids hstands.fresh.1 hplan
  exact mem_of_effect heffect (perform_of_mem_contacts hd)

/-- A contact of the directory that was read stands in it under the id of a written contact. -/
theorem stands_mem (hread : Sound read t) (hstands : Stands call first read w l) {d e : ContactRecord}
    (hd : d ∈ w.contacts) (he : e ∈ read) (hid : e.id = d.id) (huuid : call.uuid ≠ some d.id) :
    (∃ e' ∈ l, e'.id = d.id ∧ e'.fingerprints = e.fingerprints) ∧
      ∃ e' ∈ first, e'.id = d.id ∧ e'.fingerprints = e.fingerprints := by
  obtain ⟨hnow, hfirst⟩ := hstands.kept d hd huuid
  have hkeys : keysOf read d.id = some e.fingerprints := hid ▸ keysOf_of_mem hread.ids he
  exact ⟨exists_of_keysOf (hnow.trans hkeys), exists_of_keysOf (hfirst.trans hkeys)⟩

theorem uuid_of_mem_read (hstands : Stands call first read w l)
    {e : ContactRecord} (he : e ∈ read) : call.uuid ≠ some e.id :=
  fun huuid ↦ hstands.fresh.1 _ huuid (mem_ids e he)

/-- A write goes forward. -/
theorem forward_write (hl : Sound l t) (hread : Sound read t)
    (hplan : (contacts H p).plan call read = some w) (hstands : Stands call first read w l) :
    Forward call l (w.perform l) := by
  intro d hd
  rcases mem_perform hd with hold | hwritten
  · exact .inr ⟨d, hold, rfl, hl.current d hold⟩
  -- a contact that was read has the same keys now
  have hfrom : ∀ e ∈ read, e.id = d.id → d.fingerprint ∉ e.previousFingerprints →
      ∃ e' ∈ l, e'.id = d.id ∧ d.fingerprint ∉ e'.previousFingerprints := by
    intro e he hid hkey
    have huuid : call.uuid ≠ some d.id := hid ▸ uuid_of_mem_read hstands he
    obtain ⟨⟨e', he', hid', hkeys⟩, -⟩ := stands_mem hread hstands hwritten he hid huuid
    refine ⟨e', he', hid', ?_⟩
    rw [(List.cons.inj hkeys).2]
    exact hkey
  rcases origin hread hplan hstands hwritten with hin | made
  · exact .inr (hfrom d hin rfl (hread.current d hin))
  · cases made with
    | added => exact .inl ⟨rfl, hstands.fresh.2 _ rfl⟩
    | @rotated existing _ _ _ mem hfp unused =>
      exact .inr (hfrom existing mem rfl fun hin ↦ unused (List.mem_cons_of_mem _ hin))
    | @marked existing _ _ mem => exact .inr (hfrom existing mem rfl (hread.current existing mem))
    | @renamed existing _ _ _ mem => exact .inr (hfrom existing mem rfl (hread.current existing mem))

/-- A write keeps the directory sound. -/
theorem sound_write (hl : Sound l t) (hread : Sound read t)
    (hplan : (contacts H p).plan call read = some w) (hstands : Stands call first read w l)
    (hmade : (i, .made call first) ∈ t) : Sound (w.perform l) t := by
  obtain ⟨returned, heffect⟩ := effect_of_plan hread.ids hstands.fresh.1 hplan
  refine ⟨?_, ?_, ?_⟩
  · cases w with
    | records all => exact nodup_of_effect hread.ids heffect
    | put record =>
      exact (((put_perm record l).map ContactRecord.id).nodup_iff).mpr (nodup_stored record hl.ids)
    | remove id => exact hl.ids.sublist (List.filter_sublist.map _)
  · intro d hd
    rcases mem_perform hd with hold | hwritten
    · exact hl.current d hold
    rcases origin hread hplan hstands hwritten with hin | made
    · exact hread.current d hin
    · exact made.current hread.current
  · intro d hd hv
    rcases mem_perform hd with hold | hwritten
    · exact hl.verified d hold hv
    rcases origin hread hplan hstands hwritten with hin | made
    · exact hread.verified d hin hv
    · cases made with
      | added | rotated => cases hv
      | @renamed existing _ _ _ mem => exact hread.verified existing mem hv
      | @marked existing verified now mem =>
        obtain rfl : verified = true := hv
        obtain ⟨-, e, he, hid, hkeys⟩ := stands_mem hread hstands hwritten mem rfl
          (by rintro ⟨⟩)
        exact ⟨_, hmade, rfl, rfl, e, he, hid, (List.cons.inj hkeys).1⟩

end Step

/-- What is known of a thread. -/
def Knows (H : Hpke) (p : Platform) (i : Nat) :
    Phase Call Write (List ContactRecord) → Threads.Trace (Event Call (List ContactRecord)) → Prop
  | .made call first, t => (i, .made call first) ∈ t
  | .writing call first read w, t =>
    (i, .made call first) ∈ t ∧ Sound read t ∧ (contacts H p).plan call read = some w
  | _, _ => True

theorem Knows.append {H : Hpke} {p : Platform} {i : Nat} {q : Phase Call Write (List ContactRecord)}
    {t : Threads.Trace (Event Call (List ContactRecord))} (h : Knows H p i q t)
    (es : Threads.Trace (Event Call (List ContactRecord))) : Knows H p i q (es ++ t) := by
  cases q with
  | made call first => exact List.mem_append_right _ h
  | writing call first read w =>
    obtain ⟨hmade, hread, hplan⟩ := h
    exact ⟨List.mem_append_right _ hmade, hread.append es, hplan⟩
  | ready | done | failed => trivial

/-- Every completed call went forward. -/
def AllForward (t : Threads.Trace (Event Call (List ContactRecord))) : Prop :=
  ∀ i call before after, (i, .done call before after) ∈ t → Forward call before after

theorem AllForward.append {i : Nat} {es : List (Event Call (List ContactRecord))}
    {t : Threads.Trace (Event Call (List ContactRecord))} (h : AllForward t)
    (hes : ∀ call before after, .done call before after ∈ es → Forward call before after) :
    AllForward (Threads.tag i es ++ t) := by
  intro j call before after hmem
  rcases Threads.mem_tag_append hmem with ⟨-, hnew⟩ | hold
  · exact hes call before after hnew
  · exact h j call before after hold

theorem Sound.forward_self {l : List ContactRecord}
    {t : Threads.Trace (Event Call (List ContactRecord))} (h : Sound l t) (call : Call) :
    Forward call l l := fun d hd ↦ .inr ⟨d, hd, rfl, h.current d hd⟩

theorem keeps_sound (H : Hpke) (p : Platform) :
    Threads.Program.Keeps (contacts H p).program (Calls.atWrite Stands)
      (fun l t ↦ Sound l t ∧ AllForward t) fun i q _ t ↦ Knows H p i q t := by
  refine ⟨fun _ _ _ _ _ _ ↦ trivial, ?_, fun _ _ _ _ _ hq ↦ hq.append _⟩
  rintro i fails q l t q' l' es hok ⟨hsound, hforward⟩ hknows hs
  cases Calls.act hok hs with
  | make call =>
    refine ⟨⟨hsound.append _, hforward.append ?_⟩, List.mem_cons_self⟩
    intro _ _ _ hmem
    cases List.mem_singleton.mp hmem
  | fail =>
    exact ⟨⟨hsound, hforward⟩, trivial⟩
  | read plan =>
    exact ⟨⟨hsound, hforward⟩, hknows, hsound, plan⟩
  | «end» =>
    refine ⟨⟨hsound.append _, hforward.append ?_⟩, trivial⟩
    intro _ _ _ hmem
    cases List.mem_singleton.mp hmem
    exact hsound.forward_self _
  | write meets =>
    obtain ⟨hmade, hread, hplan⟩ := hknows
    refine ⟨⟨(sound_write hsound hread hplan meets hmade).append _, hforward.append ?_⟩, trivial⟩
    intro _ _ _ hmem
    cases List.mem_singleton.mp hmem
    exact forward_write hsound hread hplan meets

/-- Where every call finds the contacts that it writes with the keys that they had when it was made, a
verified contact has the key that was verified, and no call brings an older key or a deleted contact
back. -/
theorem verified_keys_kept (H : Hpke) (p : Platform)
    (c : Threads.Config (Phase Call Write (List ContactRecord)) (List ContactRecord)
      (Event Call (List ContactRecord)))
    (hc : (contacts H p).program.Reachable (Calls.atWrite Stands) [] c) :
    VerifiedKeys c.shared c.trace ∧
      ∀ i call before after, (i, .done call before after) ∈ c.trace → Forward call before after := by
  have hinit : Sound [] [] ∧ AllForward [] := by
    refine ⟨⟨List.nodup_nil, ?_, ?_⟩, ?_⟩
    · exact fun d hd ↦ absurd hd List.not_mem_nil
    · exact fun d hd ↦ absurd hd List.not_mem_nil
    · exact fun i call before after h ↦ absurd h List.not_mem_nil
  obtain ⟨hsound, hforward⟩ := (Threads.Program.invariant (keeps_sound H p) hinit hc).shared
  exact ⟨hsound.verified, hforward⟩

/-- Alice is added. -/
def addAlice : List (Threads.Action Call Bool) :=
  [.spawn (.addContact ⟨label "Alice", aliceKey⟩ "a" "2026-01-01T00:00:00.000Z"),
   .run 0 false, .run 0 false, .run 0 false]

instance (call : Call) (l : List ContactRecord) : Decidable (call.Fresh l) :=
  inferInstanceAs (Decidable (∀ id ∈ call.uuid, id ∉ ids l))

instance (call : Call) (first read : List ContactRecord) (w : Write) (l : List ContactRecord) :
    Decidable (Stands call first read w l) :=
  decidable_of_iff ((call.Fresh read ∧ call.Fresh l) ∧
    ∀ d ∈ w.contacts, call.uuid ≠ some d.id →
      keysOf l d.id = keysOf read d.id ∧ keysOf first d.id = keysOf read d.id)
    ⟨fun h ↦ ⟨h.1, h.2⟩, fun h ↦ ⟨h.fresh, h.kept⟩⟩

/-- Alice is verified. -/
def verifyAlice : List (Threads.Action Call Bool) := addAlice ++
  [.spawn (.setContactVerified "a" true "2026-01-01T00:00:01.000Z"),
   .run 1 false, .run 1 false, .run 1 false]

theorem verified_keys_kept_alice : ∃ c, (contacts plainDigest .web).program.exec (Calls.atWrite Stands)
    (Threads.Program.start []) verifyAlice = some c ∧ (VerifiedKeys c.shared c.trace ∧
      ∀ i call before after, (i, .done call before after) ∈ c.trace → Forward call before after) ∧
      c.shared.map ContactRecord.verified = [true] := by
  have hrun : ((contacts plainDigest .web).program.exec (Calls.atWrite Stands)
      (Threads.Program.start []) verifyAlice).map (fun c ↦ c.shared.map ContactRecord.verified) =
        some [true] := by decide +kernel
  obtain ⟨c, hc, hverified⟩ := Option.map_eq_some_iff.mp hrun
  exact ⟨c, hc, verified_keys_kept plainDigest .web c (Threads.Program.runs_of_exec hc), hverified⟩

/-! ## A mark that moves -/

instance (d : ContactRecord) : (e : Event Call (List ContactRecord)) → Decidable (Attests d e)
  | .made (.setContactVerified id verified _) first => inferInstanceAs (Decidable
    (verified = true ∧ id = d.id ∧ ∃ e ∈ first, e.id = d.id ∧ e.fingerprint = d.fingerprint))
  | .made (.addContact _ _ _) _ | .made (.updateContactKey _ _ _) _ | .made (.renameContact _ _ _) _
  | .made (.deleteContact _) _ | .done _ _ _ => .isFalse not_false

/-- Alice is verified while she moves to a new key. -/
def overlappingCalls : List (Threads.Action Call Bool) := addAlice ++ [
   .spawn (.updateContactKey "a" bobKey "2026-01-01T00:00:01.000Z"),
   .spawn (.setContactVerified "a" true "2026-01-01T00:00:01.000Z"),
   .run 1 false, .run 1 false, .run 2 false, .run 1 false, .run 2 false, .run 2 false]

/-- The mark that was made for one key comes to stand on the next. -/
theorem exists_unattested (p : Platform) :
    ∃ c, (contacts plainDigest p).program.Reachable .always [] c ∧ ¬VerifiedKeys c.shared c.trace := by
  have hrun : ((contacts plainDigest p).program.exec .always (Threads.Program.start [])
      overlappingCalls).map (fun c ↦ decide (∃ d ∈ c.shared, d.verified = true ∧
        ∀ e ∈ c.trace, ¬Attests d e.2)) = some true := by
    cases p with
    | mobile => decide +kernel
    | web => decide +kernel
  obtain ⟨c, hc, hv⟩ := Option.map_eq_some_iff.mp hrun
  obtain ⟨d, hd, hverified, hnone⟩ := of_decide_eq_true hv
  refine ⟨c, Threads.Program.runs_of_exec hc, fun hkeys ↦ ?_⟩
  obtain ⟨e, he, hattests⟩ := hkeys d hd hverified
  exact hnone e he hattests

/-- On both platforms a contact is shown as verified whose key nobody has verified: the mark was made
for the key that it had before. -/
theorem verified_moves_to_new_key :
    (¬∀ (H : Hpke) (c : Threads.Config (Phase Call Write (List ContactRecord)) (List ContactRecord)
      (Event Call (List ContactRecord))),
      (contacts H .mobile).program.Reachable .always [] c → VerifiedKeys c.shared c.trace) ∧
    ¬∀ (H : Hpke) (c : Threads.Config (Phase Call Write (List ContactRecord)) (List ContactRecord)
      (Event Call (List ContactRecord))),
      (contacts H .web).program.Reachable .always [] c → VerifiedKeys c.shared c.trace := by
  constructor
  · intro h
    obtain ⟨c, hc, hnot⟩ := exists_unattested .mobile
    exact hnot (h plainDigest c hc)
  · intro h
    obtain ⟨c, hc, hnot⟩ := exists_unattested .web
    exact hnot (h plainDigest c hc)

end Aesmsg.Contacts
