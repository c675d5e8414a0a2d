import Aesmsg.Contacts.Verified

/-!
# Changed keys

`apps/mobile/src/contacts/key-change.ts`, the trust status of `contacts/contacts-display.ts` and the
recipient of a draft in `create/recipient.ts`, with their ports in `apps/webapp/src`: what the screens
decide before a key is stored and before a message is encrypted, beside what the stores do.

## Main results

- `detected`: the detection foretells what the store does with the key.
- `adopted`: a contact is adopted as a recipient exactly if it has the key that was added, or its last
  mark verified the key that it has.
-/

namespace Aesmsg.Contacts

open Crypto

inductive TrustStatus where
  | verified
  | unverified
  | changed
deriving DecidableEq

def deriveTrustStatus (record : ContactRecord) : TrustStatus :=
  if record.verified then .verified
  else if record.previousFingerprints.length > 0 then .changed
  else .unverified

inductive KeyChangeDetection where
  | same
  | rotatedBack
  | changed (previousFingerprint newFingerprint : String)
deriving DecidableEq

def classifyKeyChange (existing : ContactRecord) (candidateFingerprint : String) :
    KeyChangeDetection :=
  if candidateFingerprint = existing.fingerprint then .same
  else if candidateFingerprint ∈ existing.previousFingerprints then .rotatedBack
  else .changed existing.fingerprint candidateFingerprint

def detectKeyChange (H : Hpke) (existing : ContactRecord) (candidatePublicKey : String) :
    Result KeyChangeDetection := do
  let candidateFingerprint ← fingerprint H candidatePublicKey
  return classifyKeyChange existing candidateFingerprint

/-- What the draft reads of a contact. -/
structure Contact where
  id : String
  name : Label
  status : TrustStatus
deriving DecidableEq

def contactRecordToContact (record : ContactRecord) : Contact where
  id := record.id
  name := record.label
  status := deriveTrustStatus record

inductive Recipient where
  | contact (contact : Contact) (publicKeyString : String)
  | pasted (publicKeyString : String)
deriving DecidableEq

def contactRecipient (contact : Contact) (publicKeyString : String) : Recipient :=
  .contact contact publicKeyString

def isChangedContactRecipient : Recipient → Bool
  | .contact contact _ => contact.status = .changed
  | .pasted _ => false

/-- The recipient of the draft, and the one that is held back. -/
structure Seed where
  recipient : Option Recipient
  keyChanged : Option Recipient
deriving DecidableEq

def seedComposeRecipient : Option Recipient → Seed
  | some initial => if isChangedContactRecipient initial then ⟨none, some initial⟩ else ⟨some initial, none⟩
  | none => ⟨none, none⟩

/-- The draft to a saved contact. -/
def sendTo (record : ContactRecord) : Seed :=
  seedComposeRecipient (some (contactRecipient (contactRecordToContact record) record.publicKey))

section Status

variable {record : ContactRecord}

theorem deriveTrustStatus_eq_changed :
    deriveTrustStatus record = .changed ↔ record.verified = false ∧ record.previousFingerprints ≠ [] := by
  unfold deriveTrustStatus
  cases record.verified with
  | true => simp
  | false =>
    rw [if_neg Bool.false_ne_true]
    split
    · rename_i hpos
      exact ⟨fun _ ↦ ⟨rfl, List.length_pos_iff.mp hpos⟩, fun _ ↦ rfl⟩
    · rename_i hzero
      exact ⟨fun h ↦ (nomatch h), fun h ↦ absurd (List.length_pos_iff.mpr h.2) hzero⟩

/-- The draft to a contact whose key has changed has no recipient. -/
theorem sendTo_of_changed (h : deriveTrustStatus record = .changed) :
    sendTo record =
      ⟨none, some (contactRecipient (contactRecordToContact record) record.publicKey)⟩ :=
  if_pos (decide_eq_true h)

theorem sendTo_of_not_changed (h : deriveTrustStatus record ≠ .changed) :
    sendTo record =
      ⟨some (contactRecipient (contactRecordToContact record) record.publicKey), none⟩ :=
  if_neg (fun hchanged ↦ h (of_decide_eq_true hchanged))

end Status

/-! ## Detection and the store -/

section Detection

variable {H : Hpke} {p : Platform} {l : List ContactRecord} {c : ContactRecord} {key now : String}

/-- What the store makes of a key of which the detection says so. -/
def Foretold (H : Hpke) (p : Platform) (l : List ContactRecord) (c : ContactRecord) (key now : String) :
    Result KeyChangeDetection → Prop
  | .error e => p.call H l (.updateContactKey c.id key now) = (l, .error (.crypto e))
  | .ok .same =>
    p.call H l (.updateContactKey c.id key now) = (l, .error (.sameKey "New key equals current key"))
  | .ok .rotatedBack =>
    p.call H l (.updateContactKey c.id key now) =
      (l, .error (.rotatedAway "This key was previously rotated away by this contact"))
  | .ok (.changed previousFingerprint newFingerprint) =>
    ∃ record, (p.call H l (.updateContactKey c.id key now)).2 = .ok (some record) ∧
      record ∈ (p.call H l (.updateContactKey c.id key now)).1 ∧
      record.publicKey = key ∧ record.fingerprint = newFingerprint ∧ previousFingerprint = c.fingerprint ∧
      record.previousFingerprints = c.previousFingerprints ++ [previousFingerprint] ∧
      (sendTo record).recipient = none

/-- The contact of the directory is the one with its id. -/
theorem getContact_of_mem (hids : (ids l).Nodup) (hc : c ∈ l) : getContact c.id l = .ok c := by
  unfold getContact
  cases hfind : l.find? (·.id = c.id) with
  | none => simpa using List.find?_eq_none.mp hfind c hc
  | some d =>
    have hid := List.find?_some hfind
    have hd : d = c :=
      List.inj_on_of_nodup_map hids (List.mem_of_find?_eq_some hfind) hc (of_decide_eq_true hid)
    rw [hd]

/-- How a store writes a record under an id. -/
def Platform.written (l : List ContactRecord) (id : String) (record : ContactRecord) : Platform → Plan
  | mobile => Mobile.store (Mobile.replace l id record) record
  | web => Web.store record

/-- Both stores rotate the record and write it. -/
theorem plan_updateContactKey (hids : (ids l).Nodup) (hc : c ∈ l) :
    p.plan H l (.updateContactKey c.id key now) = (rotate H c key now).map (p.written l c.id) := by
  cases p with
  | mobile =>
    change Mobile.updateContactKey H c.id key now l = _
    unfold Mobile.updateContactKey
    rw [getContact_of_mem hids hc]
    rfl
  | web =>
    change Web.updateContactKey H c.id key now l = _
    unfold Web.updateContactKey
    rw [getContact_of_mem hids hc]
    rfl

/-- The record that both stores write for a key that has not been used. -/
def rotated (c : ContactRecord) (key fp now : String) : ContactRecord :=
  { c with
    publicKey := key
    fingerprint := fp
    verified := false
    previousFingerprints := c.previousFingerprints ++ [c.fingerprint]
    updatedAt := now }

/-- What the store throws or writes, in the cases of the detection. -/
def storeOutcome (c : ContactRecord) (key now : String) :
    Result KeyChangeDetection → Outcome ContactRecord
  | .error e => .error (.crypto e)
  | .ok .same => .error (.sameKey "New key equals current key")
  | .ok .rotatedBack => .error (.rotatedAway "This key was previously rotated away by this contact")
  | .ok (.changed _ fp) => .ok (rotated c key fp now)

/-- The store tells the same cases apart. -/
theorem rotate_eq : rotate H c key now = storeOutcome c key now (detectKeyChange H c key) := by
  unfold rotate computeFingerprint detectKeyChange
  cases fingerprint H key with
  | error e => rfl
  | ok fp =>
    change (do
      throwIf (fp = c.fingerprint) (.sameKey "New key equals current key")
      throwIf (fp ∈ c.previousFingerprints)
        (.rotatedAway "This key was previously rotated away by this contact")
      return rotated c key fp now) = storeOutcome c key now (.ok (classifyKeyChange c fp))
    unfold classifyKeyChange throwIf
    by_cases hcurrent : fp = c.fingerprint
    · rw [if_pos hcurrent, if_pos hcurrent]
      rfl
    · rw [if_neg hcurrent, if_neg hcurrent]
      by_cases hprevious : fp ∈ c.previousFingerprints
      · rw [if_pos hprevious, if_pos hprevious]
        rfl
      · rw [if_neg hprevious, if_neg hprevious]
        rfl

theorem sendTo_rotated (c : ContactRecord) (key fp now : String) :
    (sendTo (rotated c key fp now)).recipient = none := by
  rw [sendTo_of_changed (deriveTrustStatus_eq_changed.mpr ⟨rfl, by simp [rotated]⟩)]

theorem returned_written (id : String) (record : ContactRecord) :
    (p.written l id record).returned = some record := by
  cases p with
  | mobile => rfl
  | web => rfl

/-- The record is in the directory that the write leaves. -/
theorem mem_perform_written (hids : (ids l).Nodup) (hc : c ∈ l) {record : ContactRecord}
    (hid : record.id = c.id) : record ∈ (p.written l c.id record).perform l := by
  cases p with
  | mobile =>
    have hperm := replace_perm hids (hid ▸ mem_ids c hc : record.id ∈ ids l)
    exact hid ▸ hperm.mem_iff.mpr List.mem_cons_self
  | web => exact (put_perm record l).mem_iff.mpr List.mem_cons_self

theorem call_of_ok {call : Call} {plan : Plan} (h : p.plan H l call = .ok plan) :
    p.call H l call = (plan.perform l, .ok plan.returned) := by
  unfold Platform.call
  rw [h]

theorem call_of_error {call : Call} {e : StoreError} (h : p.plan H l call = .error e) :
    p.call H l call = (l, .error e) := by
  unfold Platform.call
  rw [h]

theorem classifyKeyChange_eq_changed {fp previousFingerprint newFingerprint : String}
    (h : classifyKeyChange c fp = .changed previousFingerprint newFingerprint) :
    previousFingerprint = c.fingerprint := by
  unfold classifyKeyChange at h
  split at h
  · cases h
  · split at h
    · cases h
    · cases h
      rfl

/-- The detection foretells what the store does with the key, on both platforms, and the contact whose
key has changed is not adopted as a recipient. -/
theorem detected (H : Hpke) (p : Platform) {l : List ContactRecord} (hids : (ids l).Nodup)
    {c : ContactRecord} (hc : c ∈ l) (key now : String) :
    Foretold H p l c key now (detectKeyChange H c key) := by
  have hplan : p.plan H l (.updateContactKey c.id key now) = (rotate H c key now).map (p.written l c.id) :=
    plan_updateContactKey hids hc
  rw [rotate_eq] at hplan
  cases hdetect : detectKeyChange H c key with
  | error e =>
    rw [hdetect] at hplan
    exact call_of_error hplan
  | ok detection =>
    rw [hdetect] at hplan
    cases detection with
    | same => exact call_of_error hplan
    | rotatedBack => exact call_of_error hplan
    | changed previousFingerprint newFingerprint =>
      have hprevious : previousFingerprint = c.fingerprint := by
        unfold detectKeyChange at hdetect
        simp only [Result.bind_eq_ok] at hdetect
        obtain ⟨fp, -, hclassify⟩ := hdetect
        exact classifyKeyChange_eq_changed (Except.ok.inj hclassify)
      have hcall := call_of_ok hplan
      refine ⟨rotated c key newFingerprint now, ?_, ?_, rfl, rfl, hprevious, ?_, sendTo_rotated ..⟩
      · rw [hcall]
        exact congrArg Except.ok (returned_written _ _)
      · rw [hcall]
        exact mem_perform_written hids hc rfl
      · rw [hprevious]
        rfl

/-- Of two contacts, the first is moved to a new key. -/
theorem detected_moving : ∃ c ∈ Platform.web.directory plainDigest (movingCalls.take 2),
    c.publicKey = aliceKey ∧
      Foretold plainDigest .web (Platform.web.directory plainDigest (movingCalls.take 2)) c carolKey
        "2026-01-01T00:00:03.000Z" (detectKeyChange plainDigest c carolKey) := by
  have hmem : ∃ c ∈ Platform.web.directory plainDigest (movingCalls.take 2), c.publicKey = aliceKey := by
    decide +kernel
  obtain ⟨c, hc, hkey⟩ := hmem
  exact ⟨c, hc, hkey, detected plainDigest .web (by decide +kernel) hc carolKey _⟩

end Detection

/-! ## Recipients -/

/-- The contact has the key that it was added with. -/
def AsAdded (calls : List Call) (c : ContactRecord) : Prop :=
  ∃ input now, .addContact input c.id now ∈ calls ∧ input.publicKey = c.publicKey

/-- The last call to mark the contact verifies it, and was made with the key that it has; no key change
came after that. -/
def VerifiedSince (H : Hpke) (p : Platform) (calls : List Call) (c : ContactRecord) : Prop :=
  ∃ before now after, calls = before ++ .setContactVerified c.id true now :: after ∧
    (∀ now', .setContactVerified c.id false now' ∉ after) ∧
    ∃ e ∈ p.directory H before, e.id = c.id ∧ e.publicKey = c.publicKey ∧ e.fingerprints = c.fingerprints

section Run

variable {H : Hpke} {p : Platform} {calls : List Call} {call : Call} {c d : ContactRecord}

/-- The contact is one that the call has made, or was there and the call does not mark it. -/
def UnmarkedOrMade (H : Hpke) (l : List ContactRecord) (call : Call) (c : ContactRecord) : Prop :=
  (c ∈ l ∧ ∀ verified now, call ≠ .setContactVerified c.id verified now) ∨ Made H l call c

theorem unmarkedOrMade_of_effect {l l' : List ContactRecord} {returned : Option ContactRecord}
    (h : Effect H l call l' returned) (hc : c ∈ l') : UnmarkedOrMade H l call c := by
  cases h with
  | removed delete =>
    subst delete
    exact .inl ⟨(mem_without.mp hc).1, nofun⟩
  | @stored record l' made perm =>
    rcases List.mem_cons.mp (perm.subset hc) with rfl | hold
    · exact .inr made
    · obtain ⟨hold, hne⟩ := mem_without.mp hold
      refine .inl ⟨hold, ?_⟩
      rintro verified now rfl
      generalize hid : c.id = id at made hne
      cases made with
      | marked => exact hne rfl

/-- A call to mark a contact that is there does not fail. -/
theorem plan_setContactVerified {l : List ContactRecord} (hids : (ids l).Nodup) (hc : c ∈ l)
    (verified : Bool) (now : String) :
    p.plan H l (.setContactVerified c.id verified now) =
      .ok (p.written l c.id { c with verified, updatedAt := now }) := by
  cases p with
  | mobile =>
    change Mobile.setContactVerified c.id verified now l = _
    unfold Mobile.setContactVerified
    rw [getContact_of_mem hids hc]
    rfl
  | web =>
    change Web.setContactVerified c.id verified now l = _
    unfold Web.setContactVerified
    rw [getContact_of_mem hids hc]
    rfl

theorem unmarkedOrMade (hids : (ids (p.directory H calls)).Nodup)
    (hfresh : call.Fresh (p.directory H calls)) (hc : c ∈ p.directory H (calls ++ [call])) :
    UnmarkedOrMade H (p.directory H calls) call c := by
  rw [directory_concat] at hc
  rcases call_cases hids hfresh with ⟨hsame, e, herror⟩ | ⟨_, -, heffect⟩
  · rw [hsame] at hc
    refine .inl ⟨hc, ?_⟩
    rintro verified now rfl
    rw [call_of_ok (plan_setContactVerified hids hc verified now)] at herror
    cases herror
  · exact unmarkedOrMade_of_effect heffect hc

theorem mem_uuids {input : AddContactInput} {uuid now : String}
    (h : .addContact input uuid now ∈ calls) : uuid ∈ calls.filterMap Call.uuid :=
  List.mem_filterMap.mpr ⟨_, h, rfl⟩

theorem asAdded_concat : AsAdded (calls ++ [call]) c ↔
    AsAdded calls c ∨ ∃ input now, call = .addContact input c.id now ∧ input.publicKey = c.publicKey := by
  unfold AsAdded
  constructor
  · rintro ⟨input, now, hmem, hkey⟩
    rcases List.mem_append.mp hmem with hold | hnew
    · exact .inl ⟨input, now, hold, hkey⟩
    · exact .inr ⟨input, now, (List.mem_singleton.mp hnew).symm, hkey⟩
  · rintro (⟨input, now, hmem, hkey⟩ | ⟨input, now, rfl, hkey⟩)
    · exact ⟨input, now, List.mem_append_left _ hmem, hkey⟩
    · exact ⟨input, now, by simp, hkey⟩

theorem verifiedSince_concat : VerifiedSince H p (calls ++ [call]) c ↔
    (∃ now, call = .setContactVerified c.id true now ∧ ∃ e ∈ p.directory H calls, e.id = c.id ∧
      e.publicKey = c.publicKey ∧ e.fingerprints = c.fingerprints) ∨
    (VerifiedSince H p calls c ∧ ∀ now, call ≠ .setContactVerified c.id false now) := by
  constructor
  · rintro ⟨before, now, after, heq, hnot, he⟩
    rcases List.eq_nil_or_concat after with rfl | ⟨after', last, rfl⟩
    · obtain ⟨rfl, hcall⟩ := List.append_inj' heq rfl
      exact .inl ⟨now, List.singleton_inj.mp hcall, he⟩
    · have heq : calls ++ [call] =
          (before ++ .setContactVerified c.id true now :: after') ++ [last] := by
        rw [heq]
        simp
      obtain ⟨rfl, hlast⟩ := List.append_inj' heq rfl
      obtain rfl := List.singleton_inj.mp hlast
      refine .inr ⟨⟨before, now, after', rfl, fun now' hmem ↦ hnot now' ?_, he⟩, fun now' h ↦ hnot now' ?_⟩
      · simp [hmem]
      · simp [h]
  · rintro (⟨now, rfl, he⟩ | ⟨⟨before, now, after, rfl, hnot, he⟩, hcall⟩)
    · exact ⟨calls, now, [], rfl, nofun, he⟩
    · refine ⟨before, now, after ++ [call], by simp, fun now' hmem ↦ ?_, he⟩
      rcases List.mem_append.mp hmem with hold | hnew
      · exact hnot now' hold
      · exact hcall now' (List.mem_singleton.mp hnew).symm

/-- Both speak of the contact's id and keys only. -/
theorem verifiedSince_congr (hid : d.id = c.id) (hkey : d.publicKey = c.publicKey)
    (hfp : d.fingerprints = c.fingerprints) : VerifiedSince H p calls d ↔ VerifiedSince H p calls c := by
  unfold VerifiedSince
  rw [hid, hkey, hfp]

/-- What is known of the key of a contact. -/
structure Known (H : Hpke) (p : Platform) (calls : List Call) (c : ContactRecord) : Prop where
  fingerprint : Crypto.fingerprint H c.publicKey = .ok c.fingerprint
  history : c.fingerprints.Nodup
  /-- The oldest key is the one that was added. -/
  first : ∀ input now, .addContact input c.id now ∈ calls →
    ∃ fp, Crypto.fingerprint H input.publicKey = .ok fp ∧
      (c.previousFingerprints ++ [c.fingerprint]).head? = some fp
  /-- No earlier record of the contact has a longer history. -/
  older : ∀ before after, calls = before ++ after → ∀ e ∈ p.directory H before, e.id = c.id →
    e.previousFingerprints.length ≤ c.previousFingerprints.length
  asAdded : c.previousFingerprints = [] → AsAdded calls c
  verifiedSince : c.verified = true ↔ VerifiedSince H p calls c

/-- A contact that has the key that it was added with has had no other. -/
theorem Known.asAdded_iff (h : Known H p calls c) : c.previousFingerprints = [] ↔ AsAdded calls c := by
  refine ⟨h.asAdded, fun ⟨input, now, hmem, hkey⟩ ↦ ?_⟩
  obtain ⟨fp, hfp, hhead⟩ := h.first input now hmem
  rw [hkey, h.fingerprint] at hfp
  obtain rfl := Except.ok.inj hfp
  cases hprevious : c.previousFingerprints with
  | nil => rfl
  | cons f rest =>
    rw [hprevious, List.cons_append, List.head?_cons] at hhead
    have hnodup := h.history
    rw [ContactRecord.fingerprints, hprevious, Option.some.inj hhead] at hnodup
    simp at hnodup

/-- The ids of a run are those that its calls have drawn. -/
theorem ids_run (huuid : (calls.filterMap Call.uuid).Nodup) :
    (ids (p.directory H calls)).Nodup ∧ ids (p.directory H calls) ⊆ calls.filterMap Call.uuid := by
  induction calls using List.reverseRecOn with
  | nil => exact ⟨List.nodup_nil, List.nil_subset _⟩
  | append_singleton before call ih =>
    have hnodup : (before.filterMap Call.uuid).Nodup := by
      rw [List.filterMap_append] at huuid
      exact (List.nodup_append.mp huuid).1
    obtain ⟨hids, hsubset⟩ := ih hnodup
    rw [directory_concat, List.filterMap_append]
    rcases call_cases hids (fresh_of_concat huuid hsubset) with ⟨hsame, -⟩ | ⟨_, -, heffect⟩
    · rw [hsame]
      exact ⟨hids, fun id hid ↦ List.mem_append_left _ (hsubset hid)⟩
    · refine ⟨nodup_of_effect hids heffect, fun id hid ↦ ?_⟩
      rcases ids_subset_of_effect heffect id hid with hold | hdrawn
      · exact List.mem_append_left _ (hsubset hold)
      · refine List.mem_append_right _ ?_
        rw [List.filterMap_cons, hdrawn]
        exact List.mem_cons_self

/-- No earlier directory has an id that the next call draws. -/
theorem not_drawn_before (huuid : ((calls ++ [call]).filterMap Call.uuid).Nodup) {uuid : String}
    (hdrawn : call.uuid = some uuid) :
    uuid ∉ calls.filterMap Call.uuid ∧
      ∀ before after, calls = before ++ after → ∀ e ∈ p.directory H before, e.id ≠ uuid := by
  rw [List.filterMap_append] at huuid
  obtain ⟨hnodup, -, hdisjoint⟩ := List.nodup_append.mp huuid
  have hlast : uuid ∈ [call].filterMap Call.uuid := by
    rw [List.filterMap_cons, hdrawn]
    exact List.mem_cons_self
  refine ⟨fun hin ↦ hdisjoint uuid hin uuid hlast rfl, ?_⟩
  rintro before after rfl e he rfl
  rw [List.filterMap_append] at hnodup hdisjoint
  have hmem := (ids_run (H := H) (p := p) (List.nodup_append.mp hnodup).1).2 (mem_ids e he)
  exact hdisjoint _ (List.mem_append_left _ hmem) _ hlast rfl

section Concat

variable (huuid : ((calls ++ [call]).filterMap Call.uuid).Nodup)
  (hc : c ∈ p.directory H (calls ++ [call]))

include huuid hc in
/-- The history of a record that is at least as long as that of the one before is the longest. -/
theorem older_concat (h : ∀ before after, calls = before ++ after → ∀ e ∈ p.directory H before,
      e.id = c.id → e.previousFingerprints.length ≤ c.previousFingerprints.length)
    (before after : List Call) (heq : calls ++ [call] = before ++ after) (e : ContactRecord)
    (he : e ∈ p.directory H before) (hid : e.id = c.id) :
    e.previousFingerprints.length ≤ c.previousFingerprints.length := by
  rcases List.eq_nil_or_concat after with rfl | ⟨after', last, rfl⟩
  · rw [List.append_nil] at heq
    subst heq
    rw [List.inj_on_of_nodup_map (ids_run huuid).1 he hc hid]
  · rw [List.concat_eq_append, ← List.append_assoc] at heq
    exact h before after' (List.append_inj' heq rfl).1 e he hid

include huuid hc in
/-- What is known of a contact that a call leaves alone. -/
theorem Known.unmarked (h : Known H p calls c) (hold : c ∈ p.directory H calls)
    (hmark : ∀ verified now, call ≠ .setContactVerified c.id verified now) :
    Known H p (calls ++ [call]) c where
  fingerprint := h.fingerprint
  history := h.history
  first := by
    intro input now hmem
    rcases List.mem_append.mp hmem with hmem | hlast
    · exact h.first input now hmem
    · have hdrawn : call.uuid = some c.id := by rw [← List.mem_singleton.mp hlast]; rfl
      exact absurd rfl ((not_drawn_before huuid hdrawn).2 calls [] (List.append_nil _).symm c hold)
  older := older_concat huuid hc h.older
  asAdded := fun hnil ↦ asAdded_concat.mpr (.inl (h.asAdded hnil))
  verifiedSince := by
    rw [h.verifiedSince, verifiedSince_concat]
    refine ⟨fun hsince ↦ .inr ⟨hsince, fun now ↦ hmark false now⟩, ?_⟩
    rintro (⟨now, hcall, -⟩ | ⟨hsince, -⟩)
    · exact absurd hcall (hmark true now)
    · exact hsince

include huuid hc in
/-- What is known of a contact that a call makes. -/
theorem known_of_made (h : ∀ d ∈ p.directory H calls, Known H p calls d)
    (hmade : Made H (p.directory H calls) call c) : Known H p (calls ++ [call]) c := by
  -- what was added is known from before where the call adds nothing
  have hfirst : call.uuid = none → ∀ existing ∈ p.directory H calls, ∀ input now,
      .addContact input existing.id now ∈ calls ++ [call] →
        ∃ fp, Crypto.fingerprint H input.publicKey = .ok fp ∧
          (existing.previousFingerprints ++ [existing.fingerprint]).head? = some fp := by
    intro hnone existing mem input now hmem
    rcases List.mem_append.mp hmem with hmem | hlast
    · exact (h existing mem).first input now hmem
    · rw [← List.mem_singleton.mp hlast] at hnone
      cases hnone
  cases hmade with
  | @added input uuid now label fp valid hfp unused =>
    obtain ⟨hdrawn, hbefore⟩ := not_drawn_before (H := H) (p := p) huuid rfl
    refine ⟨hfp, List.nodup_singleton _, ?_, older_concat huuid hc ?_, ?_, ?_⟩
    · intro input' now' hmem
      rcases List.mem_append.mp hmem with hmem | hlast
      · exact absurd (mem_uuids hmem) hdrawn
      · cases List.mem_singleton.mp hlast
        exact ⟨fp, hfp, rfl⟩
    · exact fun before after heq e he hid ↦ absurd hid (hbefore before after heq e he)
    · exact fun _ ↦ asAdded_concat.mpr (.inr ⟨input, now, rfl, rfl⟩)
    · rw [verifiedSince_concat]
      refine ⟨fun hverified ↦ (by cases hverified), ?_⟩
      rintro (⟨now', hcall, -⟩ | ⟨⟨before, now', after, heq, -, e, he, hid, -⟩, -⟩)
      · cases hcall
      · exact absurd hid (hbefore before _ heq e he)
  | @rotated existing newPublicKey now fp mem hfp unused =>
    have hknown := h existing mem
    refine ⟨hfp, nodup_rotated hknown.history unused, ?_, older_concat huuid hc ?_, ?_, ?_⟩
    · intro input now' hmem
      obtain ⟨fp₀, hfp₀, hhead⟩ := hfirst rfl existing mem input now' hmem
      refine ⟨fp₀, hfp₀, ?_⟩
      rw [List.head?_append, hhead]
      rfl
    · intro before after heq e he hid
      have hle := hknown.older before after heq e he hid
      simp only [List.length_append, List.length_singleton]
      omega
    · exact fun hnil ↦ by simp at hnil
    · rw [verifiedSince_concat]
      refine ⟨fun hverified ↦ (by cases hverified), ?_⟩
      rintro (⟨now', hcall, -⟩ | ⟨⟨before, now', after, heq, -, e, he, hid, -, hsame⟩, -⟩)
      · cases hcall
      · have hle := hknown.older before _ heq e he hid
        have hlength := congrArg List.length hsame
        simp only [ContactRecord.fingerprints, List.length_cons, List.length_append,
          List.length_nil] at hlength
        omega
  | @marked existing verified now mem =>
    have hknown := h existing mem
    refine ⟨hknown.fingerprint, hknown.history, hfirst rfl existing mem, older_concat huuid hc hknown.older,
      fun hnil ↦ asAdded_concat.mpr (.inl (hknown.asAdded hnil)), ?_⟩
    rw [verifiedSince_concat]
    cases verified with
    | true => exact iff_of_true rfl (.inl ⟨now, rfl, existing, mem, rfl, rfl, rfl⟩)
    | false =>
      refine ⟨fun hverified ↦ (by cases hverified), ?_⟩
      rintro (⟨now', hcall, -⟩ | ⟨-, hcall⟩)
      · cases hcall
      · exact absurd rfl (hcall now)
  | @renamed existing raw label now mem valid =>
    have hknown := h existing mem
    refine ⟨hknown.fingerprint, hknown.history, hfirst rfl existing mem, older_concat huuid hc hknown.older,
      fun hnil ↦ asAdded_concat.mpr (.inl (hknown.asAdded hnil)), ?_⟩
    rw [verifiedSince_concat]
    change existing.verified = true ↔ _
    rw [hknown.verifiedSince]
    refine ⟨fun hsince ↦ .inr ⟨(verifiedSince_congr rfl rfl rfl).mp hsince, fun _ hcall ↦ by cases hcall⟩, ?_⟩
    rintro (⟨now', hcall, -⟩ | ⟨hsince, -⟩)
    · cases hcall
    · exact (verifiedSince_congr rfl rfl rfl).mp hsince

end Concat

/-- What a run of calls keeps, whatever keys are moved. -/
theorem known_run (huuid : (calls.filterMap Call.uuid).Nodup) :
    ∀ c ∈ p.directory H calls, Known H p calls c := by
  induction calls using List.reverseRecOn with
  | nil => exact fun c hc ↦ absurd hc List.not_mem_nil
  | append_singleton before call ih =>
    have hnodup : (before.filterMap Call.uuid).Nodup := by
      rw [List.filterMap_append] at huuid
      exact (List.nodup_append.mp huuid).1
    obtain ⟨hids, hsubset⟩ := ids_run (H := H) (p := p) hnodup
    intro c hc
    rcases unmarkedOrMade hids (fresh_of_concat huuid hsubset) hc with ⟨hold, hmark⟩ | hmade
    · exact (ih hnodup c hold).unmarked huuid hc hold hmark
    · exact known_of_made huuid hc (ih hnodup) hmade

/-- After every sequence of calls a contact is adopted as the recipient of a draft, with its key, if the
key is the one that it was added with or if the last call to mark the contact verified that key, and
held back if not. -/
theorem adopted (H : Hpke) (p : Platform) {calls : List Call} (huuid : (calls.filterMap Call.uuid).Nodup)
    {c : ContactRecord} (hc : c ∈ p.directory H calls) :
    (AsAdded calls c ∨ VerifiedSince H p calls c →
      sendTo c = ⟨some (contactRecipient (contactRecordToContact c) c.publicKey), none⟩) ∧
    (¬(AsAdded calls c ∨ VerifiedSince H p calls c) →
      sendTo c = ⟨none, some (contactRecipient (contactRecordToContact c) c.publicKey)⟩) := by
  have hknown := known_run huuid c hc
  rw [← hknown.asAdded_iff, ← hknown.verifiedSince]
  constructor
  · intro hkept
    refine sendTo_of_not_changed fun hchanged ↦ ?_
    obtain ⟨hunverified, hprevious⟩ := deriveTrustStatus_eq_changed.mp hchanged
    rcases hkept with hnil | hverified
    · exact hprevious hnil
    · rw [hunverified] at hverified
      cases hverified
  · intro hnot
    rw [not_or] at hnot
    exact sendTo_of_changed (deriveTrustStatus_eq_changed.mpr ⟨Bool.eq_false_iff.mpr hnot.2, hnot.1⟩)

/-- A contact is added and moved to a new key; the new key is verified, and no longer. -/
def unverifyingCalls : List Call :=
  [.addContact ⟨label "Alice", aliceKey⟩ "a" "2026-01-01T00:00:00.000Z",
   .updateContactKey "a" carolKey "2026-01-01T00:00:01.000Z",
   .setContactVerified "a" true "2026-01-01T00:00:02.000Z",
   .setContactVerified "a" false "2026-01-01T00:00:03.000Z"]

/-- The contact is adopted while the mark stands, and held back when it is taken away. -/
theorem adopted_unverifying :
    (∃ c ∈ Platform.mobile.directory plainDigest (unverifyingCalls.take 3), c.publicKey = carolKey ∧
      sendTo c = ⟨some (contactRecipient (contactRecordToContact c) c.publicKey), none⟩) ∧
    ∃ c ∈ Platform.mobile.directory plainDigest unverifyingCalls, c.publicKey = carolKey ∧
      sendTo c = ⟨none, some (contactRecipient (contactRecordToContact c) c.publicKey)⟩ := by
  have huuid : (unverifyingCalls.filterMap Call.uuid).Nodup := by decide
  constructor
  · have hmem : ∃ c ∈ Platform.mobile.directory plainDigest (unverifyingCalls.take 3),
        c.publicKey = carolKey ∧ ∃ e ∈ Platform.mobile.directory plainDigest (unverifyingCalls.take 2),
          e.id = c.id ∧ e.publicKey = c.publicKey ∧ e.fingerprints = c.fingerprints ∧ c.id = "a" := by
      decide +kernel
    obtain ⟨c, hc, hkey, e, he, hid, hsame, hfps, ha⟩ := hmem
    refine ⟨c, hc, hkey, (adopted plainDigest .mobile (by decide) hc).1 (.inr ?_)⟩
    refine ⟨unverifyingCalls.take 2, "2026-01-01T00:00:02.000Z", [], ?_, nofun, e, he, hid, hsame, hfps⟩
    rw [ha]
    rfl
  · have hmem : ∃ c ∈ Platform.mobile.directory plainDigest unverifyingCalls,
        c.publicKey = carolKey ∧ c.previousFingerprints ≠ [] ∧ c.verified = false := by decide +kernel
    obtain ⟨c, hc, hkey, hprevious, hunverified⟩ := hmem
    refine ⟨c, hc, hkey, (adopted plainDigest .mobile huuid hc).2 ?_⟩
    have hknown := known_run huuid c hc
    rw [← hknown.asAdded_iff, ← hknown.verifiedSince, hunverified]
    exact fun h ↦ h.elim hprevious nofun

end Run

end Aesmsg.Contacts
