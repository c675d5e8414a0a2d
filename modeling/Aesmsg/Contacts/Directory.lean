import Aesmsg.Contacts.Effect

/-!
# The contacts directory

## Main results

- `directory_wellFormed`: the directory is well formed after every sequence of calls in which no key
  change moves a contact to a key of another.
- `key_moved_to_taken`: `updateContactKey` does not ask that, on either platform.
-/

namespace Aesmsg.Contacts

open Crypto

/-- What the directory should be. -/
structure WellFormed (H : Hpke) (l : List ContactRecord) : Prop where
  fingerprint : ∀ c ∈ l, Crypto.fingerprint H c.publicKey = .ok c.fingerprint
  ids : (ids l).Nodup
  label : ∀ c ∈ l, ValidLabel c.label
  /-- No fingerprint is current or previous for two contacts. -/
  distinct : ∀ c ∈ l, ∀ d ∈ l, c.id ≠ d.id → c.fingerprints.Disjoint d.fingerprints
  /-- No fingerprint occurs twice within one contact. -/
  history : ∀ c ∈ l, c.fingerprints.Nodup

/-- The key that a call would move a stored contact to is not one of another contact. -/
def KeyFree (H : Hpke) (l : List ContactRecord) : Call → Prop
  | .updateContactKey id newPublicKey _ => id ∈ ids l →
    ∀ c ∈ l, c.id ≠ id → ∀ fp ∈ c.fingerprints, fingerprint H newPublicKey ≠ .ok fp
  | _ => True

instance (H : Hpke) (l : List ContactRecord) : (call : Call) → Decidable (KeyFree H l call)
  | .addContact _ _ _ => inferInstanceAs (Decidable True)
  | .updateContactKey id newPublicKey _ => inferInstanceAs (Decidable (id ∈ ids l →
    ∀ c ∈ l, c.id ≠ id → ∀ fp ∈ c.fingerprints, fingerprint H newPublicKey ≠ .ok fp))
  | .setContactVerified _ _ _ => inferInstanceAs (Decidable True)
  | .renameContact _ _ _ => inferInstanceAs (Decidable True)
  | .deleteContact _ => inferInstanceAs (Decidable True)

/-- The call gives a contact its key. -/
def Call.setsKey : Call → Bool
  | addContact _ _ _ => true
  | updateContactKey _ _ _ => true
  | _ => false

/-- A completed call: the directory after it and what it returned or threw. -/
def Platform.call (H : Hpke) (p : Platform) (l : List ContactRecord) (call : Call) :
    List ContactRecord × Outcome (Option ContactRecord) :=
  match p.plan H l call with
  | .error e => (l, .error e)
  | .ok plan => (plan.perform l, .ok plan.returned)

/-- The directory after a sequence of completed calls. -/
def Platform.directory (H : Hpke) (p : Platform) (calls : List Call) : List ContactRecord :=
  calls.foldl (fun l c ↦ (p.call H l c).1) []

section Step

variable {H : Hpke} {l l' : List ContactRecord}

theorem WellFormed.perm (h : WellFormed H l) (hl : l'.Perm l) : WellFormed H l' where
  fingerprint c hc := h.fingerprint c (hl.subset hc)
  ids := ((hl.map ContactRecord.id).nodup_iff).mpr h.ids
  label c hc := h.label c (hl.subset hc)
  distinct c hc d hd := h.distinct c (hl.subset hc) d (hl.subset hd)
  history c hc := h.history c (hl.subset hc)

theorem WellFormed.without (h : WellFormed H l) (id : String) : WellFormed H (without id l) where
  fingerprint c hc := h.fingerprint c (mem_without.mp hc).1
  ids := h.ids.sublist (List.filter_sublist.map _)
  label c hc := h.label c (mem_without.mp hc).1
  distinct c hc d hd := h.distinct c (mem_without.mp hc).1 d (mem_without.mp hd).1
  history c hc := h.history c (mem_without.mp hc).1

/-- A record takes the place of the one with its id. -/
theorem WellFormed.store (h : WellFormed H l) {record : ContactRecord}
    (hfp : Crypto.fingerprint H record.publicKey = .ok record.fingerprint)
    (hlabel : ValidLabel record.label) (hhistory : record.fingerprints.Nodup)
    (hdistinct : ∀ c ∈ l, c.id ≠ record.id → record.fingerprints.Disjoint c.fingerprints) :
    WellFormed H (record :: Contacts.without record.id l) := by
  have hrest := h.without record.id
  refine ⟨?_, ?_, ?_, ?_, ?_⟩
  · exact List.forall_mem_cons.mpr ⟨hfp, hrest.fingerprint⟩
  · exact nodup_stored record h.ids
  · exact List.forall_mem_cons.mpr ⟨hlabel, hrest.label⟩
  · intro c hc d hd hne
    rcases List.mem_cons.mp hc with rfl | hc <;> rcases List.mem_cons.mp hd with rfl | hd
    · exact absurd rfl hne
    · exact hdistinct d (mem_without.mp hd).1 (mem_without.mp hd).2
    · exact List.disjoint_comm.mp (hdistinct c (mem_without.mp hc).1 (mem_without.mp hc).2)
    · exact hrest.distinct c hc d hd hne
  · exact List.forall_mem_cons.mpr ⟨hhistory, hrest.history⟩

/-- The history of a contact after a key change. -/
theorem nodup_rotated {c : ContactRecord} {fp : String} (h : c.fingerprints.Nodup)
    (hunused : fp ∉ c.fingerprints) :
    (fp :: (c.previousFingerprints ++ [c.fingerprint])).Nodup := by
  have hperm : (c.previousFingerprints ++ [c.fingerprint]).Perm c.fingerprints :=
    List.perm_append_singleton _ _
  exact List.nodup_cons.mpr ⟨fun hin ↦ hunused (hperm.subset hin), (hperm.nodup_iff).mpr h⟩

theorem WellFormed.made (h : WellFormed H l) {call : Call} {record : ContactRecord}
    (hfree : KeyFree H l call) (made : Made H l call record) :
    WellFormed H (record :: Contacts.without record.id l) := by
  cases made with
  | added valid hfp unused =>
    refine h.store hfp valid (List.nodup_singleton _) fun c hc _ ↦ ?_
    exact List.singleton_disjoint.mpr (unused c hc)
  | @rotated existing newPublicKey now fp mem hfp unused =>
    refine h.store hfp (h.label existing mem) (nodup_rotated (h.history existing mem) unused) ?_
    intro c hc hne
    have hold := h.distinct existing mem c hc hne.symm
    have hnew : fp ∉ c.fingerprints := fun hin ↦ hfree (mem_ids existing mem) c hc hne fp hin hfp
    refine List.disjoint_cons_left.mpr ⟨hnew, fun f hf hin ↦ hold ?_ hin⟩
    exact (List.perm_append_singleton _ _).subset hf
  | @marked existing _ _ mem =>
    exact h.store (h.fingerprint existing mem) (h.label existing mem) (h.history existing mem)
      fun c hc hne ↦ h.distinct existing mem c hc hne.symm
  | @renamed existing _ _ _ mem valid =>
    exact h.store (h.fingerprint existing mem) valid (h.history existing mem)
      fun c hc hne ↦ h.distinct existing mem c hc hne.symm

theorem WellFormed.effect (h : WellFormed H l) {call : Call} {returned : Option ContactRecord}
    (hfree : KeyFree H l call) (heffect : Effect H l call l' returned) : WellFormed H l' := by
  cases heffect with
  | stored made perm => exact (h.made hfree made).perm perm
  | removed => exact h.without _

/-- The ids after a call are those before it and the one that it drew. -/
theorem ids_subset_of_effect {call : Call} {returned : Option ContactRecord}
    (heffect : Effect H l call l' returned) : ∀ id ∈ ids l', id ∈ ids l ∨ call.uuid = some id := by
  intro id hid
  cases heffect with
  | removed =>
    obtain ⟨c, hc, rfl⟩ := List.mem_map.mp hid
    exact .inl (mem_ids c (mem_without.mp hc).1)
  | @stored record l' made perm =>
    obtain ⟨c, hc, rfl⟩ := List.mem_map.mp hid
    rcases List.mem_cons.mp (perm.subset hc) with rfl | hc
    · cases made with
      | added => exact .inr rfl
      | @rotated existing _ _ _ mem => exact .inl (mem_ids existing mem)
      | @marked existing _ _ mem => exact .inl (mem_ids existing mem)
      | @renamed existing _ _ _ mem => exact .inl (mem_ids existing mem)
    · exact .inl (mem_ids c (mem_without.mp hc).1)

/-- A call that gives a contact its key leaves it unverified. -/
theorem unverified_of_effect {call : Call} {returned : Option ContactRecord}
    (heffect : Effect H l call l' returned) (hsets : call.setsKey = true) :
    ∃ record ∈ l', returned = some record ∧ record.verified = false := by
  cases heffect with
  | stored made perm =>
    refine ⟨_, perm.symm.subset List.mem_cons_self, rfl, ?_⟩
    cases made with
    | added | rotated => rfl
    | marked | renamed => cases hsets
  | removed delete =>
    subst delete
    cases hsets

end Step

section Run

variable {H : Hpke} {p : Platform}

theorem directory_concat (before : List Call) (call : Call) :
    p.directory H (before ++ [call]) = (p.call H (p.directory H before) call).1 := by
  rw [Platform.directory, List.foldl_append]
  rfl

/-- A call changes nothing or has an effect. -/
theorem call_cases {l : List ContactRecord} {call : Call} (hl : (ids l).Nodup)
    (hfresh : call.Fresh l) : ((p.call H l call).1 = l ∧ ∃ e, (p.call H l call).2 = .error e) ∨
    ∃ returned, (p.call H l call).2 = .ok returned ∧ Effect H l call (p.call H l call).1 returned := by
  unfold Platform.call
  split
  · exact .inl ⟨rfl, _, rfl⟩
  · rename_i plan hplan
    exact .inr ⟨_, rfl, p.effect hl hfresh hplan⟩

/-- In a sequence of calls, every key change moves its contact to a key that is free of the others. -/
def KeysFree (H : Hpke) (p : Platform) (calls : List Call) : Prop :=
  ∀ before call after, calls = before ++ call :: after → KeyFree H (p.directory H before) call

/-- The condition is decided call by call. -/
theorem keysFree_of_forall {calls : List Call}
    (h : ∀ i : Fin calls.length, KeyFree H (p.directory H (calls.take i)) calls[i]) :
    KeysFree H p calls := by
  rintro before call after rfl
  have hi : before.length < (before ++ call :: after).length := by
    rw [List.length_append, List.length_cons]
    omega
  have hcall := h ⟨before.length, hi⟩
  rw [List.take_left] at hcall
  simpa using hcall

theorem KeysFree.of_concat {before : List Call} {call : Call} (h : KeysFree H p (before ++ [call])) :
    KeysFree H p before ∧ KeyFree H (p.directory H before) call := by
  refine ⟨fun b c a hb ↦ h b c (a ++ [call]) ?_, h before call [] rfl⟩
  rw [hb, List.append_assoc, List.cons_append]

/-- The last of a sequence of calls draws an id that has not been drawn. -/
theorem fresh_of_concat {before : List Call} {call : Call}
    (huuid : ((before ++ [call]).filterMap Call.uuid).Nodup)
    (hids : ids (p.directory H before) ⊆ before.filterMap Call.uuid) :
    call.Fresh (p.directory H before) := by
  rw [List.filterMap_append, List.nodup_append] at huuid
  intro id hid hin
  refine huuid.2.2 id (hids hin) id ?_ rfl
  rw [List.filterMap_cons, hid]
  exact List.mem_cons_self

/-- What a run of calls keeps. -/
theorem wellFormed_run {calls : List Call} (huuid : (calls.filterMap Call.uuid).Nodup)
    (hfree : KeysFree H p calls) :
    WellFormed H (p.directory H calls) ∧
      ids (p.directory H calls) ⊆ calls.filterMap Call.uuid := by
  induction calls using List.reverseRecOn with
  | nil =>
    refine ⟨⟨?_, List.nodup_nil, ?_, ?_, ?_⟩, List.nil_subset _⟩
    all_goals exact fun c hc ↦ absurd hc List.not_mem_nil
  | append_singleton before call ih =>
    obtain ⟨hbefore, hcall⟩ := hfree.of_concat
    have hnodup : (before.filterMap Call.uuid).Nodup := by
      rw [List.filterMap_append] at huuid
      exact (List.nodup_append.mp huuid).1
    obtain ⟨hwf, hids⟩ := ih hnodup hbefore
    rw [directory_concat, List.filterMap_append]
    rcases call_cases hwf.ids (fresh_of_concat huuid hids) with ⟨hsame, -⟩ | ⟨_, -, heffect⟩
    · rw [hsame]
      exact ⟨hwf, fun id hid ↦ List.mem_append_left _ (hids hid)⟩
    · refine ⟨hwf.effect hcall heffect, fun id hid ↦ ?_⟩
      rcases ids_subset_of_effect heffect id hid with hold | hdrawn
      · exact List.mem_append_left _ (hids hold)
      · refine List.mem_append_right _ ?_
        rw [List.filterMap_cons, hdrawn]
        exact List.mem_cons_self

/-- A contact that has just been given its key is stored, not verified. -/
theorem unverified_concat {before : List Call} {call : Call}
    (huuid : ((before ++ [call]).filterMap Call.uuid).Nodup) (hfree : KeysFree H p (before ++ [call]))
    (hsets : call.setsKey = true) {returned : Option ContactRecord}
    (hreturned : (p.call H (p.directory H before) call).2 = .ok returned) :
    ∃ record ∈ p.directory H (before ++ [call]),
      returned = some record ∧ record.verified = false := by
  have hnodup : (before.filterMap Call.uuid).Nodup := by
    rw [List.filterMap_append] at huuid
    exact (List.nodup_append.mp huuid).1
  obtain ⟨hwf, hids⟩ := wellFormed_run hnodup hfree.of_concat.1
  rw [directory_concat]
  rcases call_cases hwf.ids (fresh_of_concat huuid hids) with ⟨-, e, herror⟩ | ⟨_, hok, heffect⟩
  · rw [hreturned] at herror
    cases herror
  · rw [hreturned] at hok
    cases hok
    exact unverified_of_effect heffect hsets

/-- The directory is well formed after every sequence of calls in which every key change moves its
contact to a key that is free of the others, and a contact that has just been given its key is not
verified. -/
theorem directory_wellFormed (H : Hpke) (p : Platform) (calls : List Call)
    (huuid : (calls.filterMap Call.uuid).Nodup) (hfree : KeysFree H p calls) :
    WellFormed H (p.directory H calls) ∧
      ∀ before call returned, calls = before ++ [call] → call.setsKey = true →
        (p.call H (p.directory H before) call).2 = .ok returned →
        ∃ record ∈ p.directory H calls, returned = some record ∧ record.verified = false := by
  refine ⟨(wellFormed_run huuid hfree).1, ?_⟩
  rintro before call returned rfl hsets hreturned
  exact unverified_concat huuid hfree hsets hreturned

end Run

/-- A provider whose digest shows the key. -/
def plainDigest : Hpke := { Hpke.transparent with sha256 := fun raw ↦ raw }

def aliceKey : String := "amk1:AQEAAAAAAAAAAAAAAAAAAAAAAAAAAAAAAAAAAAAAAAAAAA"

def bobKey : String := "amk1:AQEBAAAAAAAAAAAAAAAAAAAAAAAAAAAAAAAAAAAAAAAAAA"

def carolKey : String := "amk1:AQECAAAAAAAAAAAAAAAAAAAAAAAAAAAAAAAAAAAAAAAAAA"

def label (s : String) : Label := s.toList.map fun c ↦ UInt16.ofNat c.toNat

/-- Two contacts, of which the first is verified and then moved to a new key. -/
def movingCalls : List Call :=
  [.addContact ⟨label " Alice ", aliceKey⟩ "a" "2026-01-01T00:00:00.000Z",
   .addContact ⟨label "Bob", bobKey⟩ "b" "2026-01-01T00:00:01.000Z",
   .setContactVerified "a" true "2026-01-01T00:00:02.000Z",
   .updateContactKey "a" carolKey "2026-01-01T00:00:03.000Z"]

theorem directory_wellFormed_moving :
    WellFormed plainDigest (Platform.mobile.directory plainDigest movingCalls) :=
  (directory_wellFormed plainDigest .mobile movingCalls (by decide)
    (keysFree_of_forall (by decide +kernel))).1

/-! ## A key that is taken -/

/-- Two contacts, of which the second is moved to the key of the first. -/
def takingCalls : List Call :=
  [.addContact ⟨label "Alice", aliceKey⟩ "a" "2026-01-01T00:00:00.000Z",
   .addContact ⟨label "Bob", bobKey⟩ "b" "2026-01-01T00:00:01.000Z",
   .updateContactKey "b" aliceKey "2026-01-01T00:00:02.000Z"]

/-- A platform takes a key that another contact has, when a contact is moved to it. -/
theorem not_wellFormed_takingCalls (p : Platform) :
    ¬WellFormed plainDigest (p.directory plainDigest takingCalls) := by
  intro hwf
  have hshared : ∃ c ∈ p.directory plainDigest takingCalls,
      ∃ d ∈ p.directory plainDigest takingCalls,
        c.id ≠ d.id ∧ c.fingerprint ∈ d.fingerprints := by
    cases p with
    | mobile => decide +kernel
    | web => decide +kernel
  obtain ⟨c, hc, d, hd, hne, hin⟩ := hshared
  exact hwf.distinct c hc d hd hne List.mem_cons_self hin

/-- On both platforms a directory that is not well formed is reached: two contacts share a fingerprint,
after one has been moved to the key of the other. -/
theorem key_moved_to_taken :
    (¬∀ (H : Hpke) (calls : List Call), (calls.filterMap Call.uuid).Nodup →
      WellFormed H (Platform.mobile.directory H calls)) ∧
    ¬∀ (H : Hpke) (calls : List Call), (calls.filterMap Call.uuid).Nodup →
      WellFormed H (Platform.web.directory H calls) := by
  constructor
  · intro hall
    exact not_wellFormed_takingCalls .mobile (hall plainDigest takingCalls (by decide))
  · intro hall
    exact not_wellFormed_takingCalls .web (hall plainDigest takingCalls (by decide))

end Aesmsg.Contacts
