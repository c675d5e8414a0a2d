import Aesmsg.Contacts.Store

/-!
# What a call makes of the directory

Both stores do the same with a directory whose ids are distinct: a call that succeeds stores one
record in the place of the record with its id, or removes the record with an id.

## Main results

- `Platform.effect`: every successful call has an `Effect`.
-/

namespace Aesmsg.Contacts

open Crypto

def ids (l : List ContactRecord) : List String := l.map ContactRecord.id

theorem mem_ids {l : List ContactRecord} (c : ContactRecord) (h : c ∈ l) : c.id ∈ ids l :=
  List.mem_map_of_mem h

@[simp] theorem mem_without {id : String} {l : List ContactRecord} {c : ContactRecord} :
    c ∈ without id l ↔ c ∈ l ∧ c.id ≠ id := by
  unfold without
  rw [List.mem_filter, decide_eq_true_iff]

/-- The label is as `validateLabel` returns it. -/
structure ValidLabel (label : Label) : Prop where
  trimmed : trim label = label
  pos : 1 ≤ label.length
  le : label.length ≤ MAX_LABEL_LEN

theorem validLabel_of_validateLabel {raw label : Label} (h : validateLabel raw = .ok label) :
    ValidLabel label := by
  simp only [validateLabel, Outcome.bind_eq_ok, throwIf_eq_ok] at h
  obtain ⟨_, hpos, _, hle, hlabel⟩ := h
  obtain rfl := Except.ok.inj hlabel
  exact ⟨Trim.trim_trim _ _, Nat.pos_of_ne_zero hpos, Nat.le_of_not_lt hle⟩

theorem fingerprint_of_computeFingerprint {H : Hpke} {publicKey fp : String}
    (h : computeFingerprint H publicKey = .ok fp) : fingerprint H publicKey = .ok fp := by
  unfold computeFingerprint at h
  cases hfp : fingerprint H publicKey with
  | error e =>
    rw [hfp] at h
    cases h
  | ok f =>
    rw [hfp] at h
    cases h
    rfl

/-- `addContact` goes on with a key that no contact has or had. -/
theorem checkDuplicates_eq_ok {fp : String} {all : List ContactRecord} {u : Unit} :
    checkDuplicates fp all = .ok u ↔ ∀ c ∈ all, fp ∉ c.fingerprints := by
  induction all with
  | nil => exact ⟨fun _ c hc ↦ absurd hc List.not_mem_nil, fun _ ↦ rfl⟩
  | cons c rest ih =>
    have hc : fp ∉ c.fingerprints ↔ fp ≠ c.fingerprint ∧ fp ∉ c.previousFingerprints := by
      rw [ContactRecord.fingerprints, List.mem_cons, not_or]
    rw [List.forall_mem_cons, hc, checkDuplicates]
    split
    · rename_i hcurrent
      exact ⟨by rintro ⟨⟩, fun h ↦ absurd hcurrent.symm h.1.1⟩
    split
    · rename_i hprevious
      exact ⟨by rintro ⟨⟩, fun h ↦ absurd hprevious h.1.2⟩
    · rename_i hcurrent hprevious
      rw [ih]
      exact ⟨fun h ↦ ⟨⟨fun he ↦ hcurrent he.symm, hprevious⟩, h⟩, And.right⟩

theorem mem_of_getContact {id : String} {all : List ContactRecord} {c : ContactRecord}
    (h : getContact id all = .ok c) : c ∈ all ∧ c.id = id := by
  unfold getContact at h
  split at h
  · rename_i hfind
    cases h
    have hid := List.find?_some hfind
    exact ⟨List.mem_of_find?_eq_some hfind, of_decide_eq_true hid⟩
  · cases h

/-! ## Effects -/

/-- The records that a call stores, having read `l`. -/
inductive Made (H : Hpke) (l : List ContactRecord) : Call → ContactRecord → Prop
  | added {input : AddContactInput} {uuid now : String} {label : Label} {fp : String}
    (valid : ValidLabel label) (hfp : fingerprint H input.publicKey = .ok fp)
    (unused : ∀ c ∈ l, fp ∉ c.fingerprints) :
    Made H l (.addContact input uuid now) (newContact label input.publicKey fp uuid now)
  | rotated {existing : ContactRecord} {newPublicKey now fp : String} (mem : existing ∈ l)
    (hfp : fingerprint H newPublicKey = .ok fp) (unused : fp ∉ existing.fingerprints) :
    Made H l (.updateContactKey existing.id newPublicKey now)
      { existing with
        publicKey := newPublicKey
        fingerprint := fp
        verified := false
        previousFingerprints := existing.previousFingerprints ++ [existing.fingerprint]
        updatedAt := now }
  | marked {existing : ContactRecord} {verified : Bool} {now : String} (mem : existing ∈ l) :
    Made H l (.setContactVerified existing.id verified now)
      { existing with verified, updatedAt := now }
  | renamed {existing : ContactRecord} {raw label : Label} {now : String} (mem : existing ∈ l)
    (valid : ValidLabel label) :
    Made H l (.renameContact existing.id raw now) { existing with label, updatedAt := now }

/-- What a successful call returns and leaves of the directory `l`, up to its order. -/
inductive Effect (H : Hpke) (l : List ContactRecord) (call : Call) :
    List ContactRecord → Option ContactRecord → Prop
  | stored {record : ContactRecord} {l' : List ContactRecord} (made : Made H l call record)
    (perm : l'.Perm (record :: without record.id l)) : Effect H l call l' (some record)
  | removed {id : String} (delete : call = .deleteContact id) :
    Effect H l call (without id l) none

theorem made_of_rotate {H : Hpke} {l : List ContactRecord} {existing record : ContactRecord}
    {newPublicKey now : String} (hmem : existing ∈ l)
    (h : rotate H existing newPublicKey now = .ok record) :
    Made H l (.updateContactKey existing.id newPublicKey now) record ∧ record.id = existing.id := by
  simp only [rotate, Outcome.bind_eq_ok, throwIf_eq_ok] at h
  obtain ⟨fp, hfp, -, hcurrent, -, hprevious, hrecord⟩ := h
  obtain rfl := Except.ok.inj hrecord
  refine ⟨.rotated hmem (fingerprint_of_computeFingerprint hfp) ?_, rfl⟩
  rw [ContactRecord.fingerprints, List.mem_cons, not_or]
  exact ⟨hcurrent, hprevious⟩

/-! ## The directory after a write -/

section Perm

variable {l : List ContactRecord} {c record : ContactRecord} {id : String}

theorem without_eq_self (h : id ∉ ids l) : without id l = l :=
  List.filter_eq_self.mpr fun _ hc ↦ decide_eq_true fun hid ↦ h (hid ▸ mem_ids _ hc)

theorem without_cons_self : without c.id (c :: l) = without c.id l :=
  List.filter_cons_of_neg (by simp)

theorem without_cons_of_ne (h : c.id ≠ id) : without id (c :: l) = c :: without id l :=
  List.filter_cons_of_pos (by simpa using h)

/-- `put` stores the record in the place of the one with its id. -/
theorem put_perm (record : ContactRecord) (l : List ContactRecord) :
    (put record l).Perm (record :: without record.id l) := List.perm_orderedInsert _ _ _

/-- Rewriting the list stores the record in the place of the one with its id. -/
theorem replace_perm (hl : (ids l).Nodup) (hmem : record.id ∈ ids l) :
    (Mobile.replace l record.id record).Perm (record :: without record.id l) := by
  unfold Mobile.replace
  induction l with
  | nil => cases hmem
  | cons c rest ih =>
    obtain ⟨hnotin, hrest⟩ := List.nodup_cons.mp hl
    by_cases hid : c.id = record.id
    · rw [List.findIdx_cons, ← hid, without_cons_self, without_eq_self hnotin]
      simp only [decide_true, cond_true, List.set_cons_zero]
      exact .refl _
    · have hmem : record.id ∈ ids rest := (List.mem_cons.mp hmem).resolve_left (Ne.symm hid)
      rw [List.findIdx_cons, without_cons_of_ne hid]
      simp only [hid, decide_false, cond_false, List.set_cons_succ]
      exact (List.Perm.cons c (ih hrest hmem)).trans (.swap _ _ _)

end Perm

theorem nodup_stored (record : ContactRecord) {l : List ContactRecord} (hl : (ids l).Nodup) :
    (ids (record :: without record.id l)).Nodup := by
  refine List.nodup_cons.mpr ⟨fun hin ↦ ?_, hl.sublist (List.filter_sublist.map _)⟩
  obtain ⟨c, hc, hid⟩ := List.mem_map.mp hin
  exact (mem_without.mp hc).2 hid

theorem replaced {H : Hpke} {l : List ContactRecord} {call : Call} {existing record : ContactRecord}
    (hl : (ids l).Nodup) (hmem : existing ∈ l) (hid : record.id = existing.id)
    (made : Made H l call record) :
    Effect H l call (Mobile.replace l existing.id record) (some record) := by
  have hin : record.id ∈ ids l := hid ▸ mem_ids existing hmem
  exact .stored made (hid ▸ replace_perm hl hin)

theorem effect_put {H : Hpke} {l : List ContactRecord} {call : Call} {record : ContactRecord}
    (made : Made H l call record) : Effect H l call (put record l) (some record) :=
  .stored made (put_perm record l)

/-- The id that `randomUUID` returns is none of those in use. -/
def Call.Fresh (call : Call) (l : List ContactRecord) : Prop := ∀ id ∈ call.uuid, id ∉ ids l

theorem Mobile.effect {H : Hpke} {l : List ContactRecord} {call : Call} {plan : Plan}
    (hl : (ids l).Nodup) (hfresh : call.Fresh l) (h : Mobile.plan H l call = .ok plan) :
    Effect H l call (plan.perform l) plan.returned := by
  cases call with
  | addContact input uuid now =>
    simp only [Mobile.plan, Mobile.addContact, Outcome.bind_eq_ok] at h
    obtain ⟨label, hlabel, fp, hfp, _, hunused, hplan⟩ := h
    obtain rfl := Except.ok.inj hplan
    have hothers : without uuid l = l := without_eq_self (hfresh uuid rfl)
    refine .stored (.added (validLabel_of_validateLabel hlabel)
      (fingerprint_of_computeFingerprint hfp) (checkDuplicates_eq_ok.mp hunused)) ?_
    show (l ++ [_]).Perm (_ :: without uuid l)
    rw [hothers]
    exact List.perm_append_singleton _ _
  | updateContactKey id newPublicKey now =>
    simp only [Mobile.plan, Mobile.updateContactKey, Outcome.bind_eq_ok] at h
    obtain ⟨existing, hexisting, updated, hupdated, hplan⟩ := h
    obtain rfl := Except.ok.inj hplan
    obtain ⟨hmem, rfl⟩ := mem_of_getContact hexisting
    obtain ⟨made, hid⟩ := made_of_rotate hmem hupdated
    exact replaced hl hmem hid made
  | setContactVerified id verified now =>
    simp only [Mobile.plan, Mobile.setContactVerified, Outcome.bind_eq_ok] at h
    obtain ⟨existing, hexisting, hplan⟩ := h
    obtain rfl := Except.ok.inj hplan
    obtain ⟨hmem, rfl⟩ := mem_of_getContact hexisting
    exact replaced hl hmem rfl (.marked hmem)
  | renameContact id label now =>
    simp only [Mobile.plan, Mobile.renameContact, Outcome.bind_eq_ok] at h
    obtain ⟨trimmed, htrimmed, existing, hexisting, hplan⟩ := h
    obtain rfl := Except.ok.inj hplan
    obtain ⟨hmem, rfl⟩ := mem_of_getContact hexisting
    exact replaced hl hmem rfl (.renamed hmem (validLabel_of_validateLabel htrimmed))
  | deleteContact id =>
    simp only [Mobile.plan, Mobile.deleteContact] at h
    split at h
    · rename_i hlength
      obtain rfl := Except.ok.inj h
      have hsame : without id l = l := List.filter_sublist.eq_of_length hlength
      have hremoved : Effect H l (.deleteContact id) (without id l) none := .removed rfl
      rw [hsame] at hremoved
      exact hremoved
    · obtain rfl := Except.ok.inj h
      exact .removed rfl

theorem Web.effect {H : Hpke} {l : List ContactRecord} {call : Call} {plan : Plan}
    (h : Web.plan H l call = .ok plan) : Effect H l call (plan.perform l) plan.returned := by
  cases call with
  | addContact input uuid now =>
    simp only [Web.plan, Web.addContact, Outcome.bind_eq_ok] at h
    obtain ⟨label, hlabel, fp, hfp, _, hunused, hplan⟩ := h
    obtain rfl := Except.ok.inj hplan
    exact effect_put (.added (validLabel_of_validateLabel hlabel)
      (fingerprint_of_computeFingerprint hfp) (checkDuplicates_eq_ok.mp hunused))
  | updateContactKey id newPublicKey now =>
    simp only [Web.plan, Web.updateContactKey, Outcome.bind_eq_ok] at h
    obtain ⟨existing, hexisting, updated, hupdated, hplan⟩ := h
    obtain rfl := Except.ok.inj hplan
    obtain ⟨hmem, rfl⟩ := mem_of_getContact hexisting
    exact effect_put (made_of_rotate hmem hupdated).1
  | setContactVerified id verified now =>
    simp only [Web.plan, Web.setContactVerified, Outcome.bind_eq_ok] at h
    obtain ⟨existing, hexisting, hplan⟩ := h
    obtain rfl := Except.ok.inj hplan
    obtain ⟨hmem, rfl⟩ := mem_of_getContact hexisting
    exact effect_put (.marked hmem)
  | renameContact id label now =>
    simp only [Web.plan, Web.renameContact, Outcome.bind_eq_ok] at h
    obtain ⟨trimmed, htrimmed, existing, hexisting, hplan⟩ := h
    obtain rfl := Except.ok.inj hplan
    obtain ⟨hmem, rfl⟩ := mem_of_getContact hexisting
    exact effect_put (.renamed hmem (validLabel_of_validateLabel htrimmed))
  | deleteContact id =>
    obtain rfl := Except.ok.inj h
    exact .removed rfl

/-- What a call that succeeds makes of a directory, on either platform. -/
theorem Platform.effect {H : Hpke} (p : Platform) {l : List ContactRecord} {call : Call} {plan : Plan}
    (hl : (ids l).Nodup) (hfresh : call.Fresh l) (h : p.plan H l call = .ok plan) :
    Effect H l call (plan.perform l) plan.returned := by
  cases p with
  | mobile => exact Mobile.effect hl hfresh h
  | web => exact Web.effect h

end Aesmsg.Contacts
