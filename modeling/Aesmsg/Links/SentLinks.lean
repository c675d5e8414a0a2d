import Aesmsg.Lib.Cell
import Aesmsg.Lib.JsNumber
import Mathlib.Data.List.AList

/-!
# The sent-links store

`apps/mobile/src/links/sent-links-store.ts`: one encrypted blob with a map from ids to records, which
every call reads, changes and writes back.  The map is a JavaScript object, so that under some ids it has
a property which it inherits.

## Main results

- `sentLinks_serial`: where every write finds the map that its call has read, the stored map is that
  of the completed calls, one after another; no link is lost or comes back under an id that is not the
  name of an inherited property.
- `record_lost`: calls that overlap lose a record.
-/

namespace Aesmsg.Links

open Cell

structure SentLinkRecord where
  id : String
  recipientFingerprint : String
  createdAt : String
  expiresAt : String
  maxOpens : JsNumber
  label : Option String
  /-- The secret that revokes the link. -/
  revocationToken : Option String
  reminderNotificationId : Option String
  schemaVersion : Nat
deriving DecidableEq

/-- What the map holds under an id: a record, or what is made of an inherited property, which has no
fields to spread, when a reminder is attached to it. -/
inductive StoredLink where
  | record (record : SentLinkRecord)
  | bare (reminderNotificationId : String)
deriving DecidableEq

def StoredLink.revocationToken : StoredLink → Option String
  | record r => r.revocationToken
  | bare _ => none

/-- `{ ...existing, reminderNotificationId }`. -/
def StoredLink.withReminder (existing : StoredLink) (reminderNotificationId : String) : StoredLink :=
  match existing with
  | record r => record { r with reminderNotificationId := some reminderNotificationId }
  | bare _ => bare reminderNotificationId

/-- The own properties of the map.  The store never writes one that is named `__proto__`. -/
abbrev SentLinkMap := AList fun _ : String ↦ StoredLink

/-- The names of the properties that the map inherits. -/
def objectPrototype : List String :=
  ["constructor", "__defineGetter__", "__defineSetter__", "hasOwnProperty", "__lookupGetter__",
    "__lookupSetter__", "isPrototypeOf", "propertyIsEnumerable", "toString", "valueOf", "__proto__",
    "toLocaleString"]

/-- `map[id] = link`, which sets the prototype where `id` names it. -/
def SentLinkMap.assign (map : SentLinkMap) (id : String) (link : StoredLink) : SentLinkMap :=
  if id = "__proto__" then map else map.insert id link

inductive Call where
  | recordSentLink (record : SentLinkRecord)
  | setSentLinkReminderNotificationId (id reminderNotificationId : String)
  | deleteSentLink (id : String)
deriving DecidableEq

/-- The map that a call writes, having read `map`. -/
def Call.plan : Call → SentLinkMap → Option SentLinkMap
  | recordSentLink record, map =>
    some (map.assign record.id (.record { record with schemaVersion := 1 }))
  | setSentLinkReminderNotificationId id reminderNotificationId, map =>
    match map.lookup id with
    | some existing => some (map.assign id (existing.withReminder reminderNotificationId))
    | none =>
      if id ∈ objectPrototype then some (map.assign id (.bare reminderNotificationId)) else none
  | deleteSentLink id, map => if id ∈ map ∨ id ∈ objectPrototype then some (map.erase id) else none

def Call.id : Call → String
  | recordSentLink record => record.id
  | setSentLinkReminderNotificationId id _ => id
  | deleteSentLink id => id

/-- Every write replaces the blob. -/
def sentLinks : Calls Call SentLinkMap SentLinkMap where
  plan := Call.plan
  perform map _ := map

/-! ## Calls one after another -/

/-- The entry of `id` after a call. -/
def Call.entry (id : String) (old : Option StoredLink) : Call → Option StoredLink
  | recordSentLink record =>
    if record.id = id ∧ id ≠ "__proto__" then some (.record { record with schemaVersion := 1 }) else old
  | setSentLinkReminderNotificationId id' reminderNotificationId =>
    if id' = id ∧ id ≠ "__proto__" then
      (old.map (·.withReminder reminderNotificationId)).or
        (if id ∈ objectPrototype then some (.bare reminderNotificationId) else none)
    else old
  | deleteSentLink id' => if id' = id then none else old

theorem apply_eq (map : SentLinkMap) (call : Call) :
    sentLinks.apply map call = (call.plan map).getD map := by
  unfold Calls.apply
  cases h : sentLinks.plan call map with
  | none => exact (congrArg (·.getD map) h).symm
  | some w => exact (congrArg (·.getD map) h).symm

theorem lookup_assign (map : SentLinkMap) (id id' : String) (link : StoredLink) :
    (map.assign id' link).lookup id =
      if id' = id ∧ id ≠ "__proto__" then some link else map.lookup id := by
  unfold SentLinkMap.assign
  by_cases hid : id' = id
  · subst hid
    by_cases hproto : id' = "__proto__"
    · rw [if_pos hproto, if_neg fun h ↦ h.2 hproto]
    · rw [if_neg hproto, if_pos ⟨rfl, hproto⟩]
      exact AList.lookup_insert _
  · rw [if_neg (show ¬(id' = id ∧ id ≠ "__proto__") from fun h ↦ hid h.1)]
    split
    · rfl
    · exact AList.lookup_insert_ne (Ne.symm hid)

theorem lookup_erase (map : SentLinkMap) (id id' : String) :
    (map.erase id').lookup id = if id' = id then none else map.lookup id := by
  by_cases hid : id' = id
  · rw [if_pos hid, ← hid]
    exact AList.lookup_erase _ _
  · rw [if_neg hid]
    exact AList.lookup_erase_ne (Ne.symm hid)

theorem lookup_apply (map : SentLinkMap) (call : Call) (id : String) :
    (sentLinks.apply map call).lookup id = call.entry id (map.lookup id) := by
  rw [apply_eq]
  cases call with
  | recordSentLink record => exact lookup_assign _ _ _ _
  | setSentLinkReminderNotificationId id' reminderNotificationId =>
    rw [Call.plan]
    by_cases hid : id' = id
    · subst hid
      cases hold : map.lookup id' with
      | some existing =>
        rw [Option.getD_some, lookup_assign, hold]
        rfl
      | none =>
        dsimp only
        split
        · rename_i hid
          rw [Option.getD_some, lookup_assign, hold, Call.entry]
          simp [hid]
        · rename_i hid
          rw [Option.getD_none, hold, Call.entry]
          simp [hid]
    · have hne : ¬(id' = id ∧ id ≠ "__proto__") := fun h ↦ hid h.1
      rw [Call.entry, if_neg hne]
      have hassign (link : StoredLink) : (map.assign id' link).lookup id = map.lookup id := by
        rw [lookup_assign, if_neg hne]
      split
      · exact hassign _
      · split
        · exact hassign _
        · rfl
  | deleteSentLink id' =>
    rw [Call.plan, Call.entry]
    split
    · exact lookup_erase _ _ _
    · rename_i hmem
      by_cases hid : id' = id
      · subst hid
        rw [if_pos rfl]
        exact AList.lookup_eq_none.mpr fun hin ↦ hmem (.inl hin)
      · rw [if_neg hid]
        rfl

/-- A reminder that is attached to an inherited property leaves an entry, though nothing was recorded. -/
example : ((Call.setSentLinkReminderNotificationId "__defineGetter__" "n").plan ∅).map (·.entries) =
    some [⟨"__defineGetter__", .bare "n"⟩] := rfl

/-- The call records a link under `id`. -/
def Call.Records (id : String) (call : Call) : Prop :=
  ∃ record, call = .recordSentLink record ∧ record.id = id

/-- Only recording a link makes an entry under an id of its own. -/
theorem entry_none {id : String} (hid : id ∉ objectPrototype) {call : Call} (h : ¬call.Records id) :
    call.entry id none = none := by
  cases call with
  | recordSentLink record => exact if_neg fun hrecord ↦ h ⟨record, rfl, hrecord.1⟩
  | setSentLinkReminderNotificationId =>
    rw [Call.entry, if_neg hid]
    exact ite_self _
  | deleteSentLink => exact ite_self _

@[simp] theorem revocationToken_withReminder (existing : StoredLink) (reminderNotificationId : String) :
    (existing.withReminder reminderNotificationId).revocationToken = existing.revocationToken := by
  cases existing <;> rfl

/-- A call that does not delete `id` leaves an entry, with the old token unless it records `id`. -/
theorem entry_some {id : String} (link : StoredLink) {call : Call}
    (h : call ≠ .deleteSentLink id) : ∃ link', call.entry id (some link) = some link' ∧
      (call.Records id ∨ link'.revocationToken = link.revocationToken) := by
  cases call with
  | recordSentLink r =>
    by_cases hid : r.id = id ∧ id ≠ "__proto__"
    · exact ⟨_, if_pos hid, .inl ⟨r, rfl, hid.1⟩⟩
    · exact ⟨link, if_neg hid, .inr rfl⟩
  | setSentLinkReminderNotificationId id' reminderNotificationId =>
    by_cases hid : id' = id ∧ id ≠ "__proto__"
    · exact ⟨_, if_pos hid, .inr (revocationToken_withReminder _ _)⟩
    · exact ⟨link, if_neg hid, .inr rfl⟩
  | deleteSentLink id' =>
    have hid : id' ≠ id := fun hid ↦ h (by rw [hid])
    exact ⟨link, if_neg hid, .inr rfl⟩

/-- A link that no later call records stays deleted. -/
theorem lookup_of_absent {id : String} (hid : id ∉ objectPrototype) {calls : List Call}
    (h : ∀ call ∈ calls, ¬call.Records id) {map : SentLinkMap} (hmap : map.lookup id = none) :
    (calls.foldl sentLinks.apply map).lookup id = none := by
  induction calls generalizing map with
  | nil => exact hmap
  | cons call calls ih =>
    obtain ⟨hcall, hcalls⟩ := List.forall_mem_cons.mp h
    refine ih hcalls ?_
    rw [lookup_apply, hmap, entry_none hid hcall]

/-- A link that no later call deletes stays present, with its token if no later call records it. -/
theorem lookup_of_present {id : String} {calls : List Call} (h : .deleteSentLink id ∉ calls)
    {map : SentLinkMap} {link : StoredLink} (hmap : map.lookup id = some link) :
    ∃ link', (calls.foldl sentLinks.apply map).lookup id = some link' ∧
      ((∀ call ∈ calls, ¬call.Records id) → link'.revocationToken = link.revocationToken) := by
  induction calls generalizing map link with
  | nil => exact ⟨link, hmap, fun _ ↦ rfl⟩
  | cons call calls ih =>
    rw [List.mem_cons, not_or] at h
    obtain ⟨hcall, hcalls⟩ := h
    obtain ⟨link₁, hentry, htoken⟩ := entry_some link (Ne.symm hcall)
    have hnext : (sentLinks.apply map call).lookup id = some link₁ := by
      rw [lookup_apply, hmap, hentry]
    obtain ⟨link', hlookup, hkept⟩ := ih hcalls hnext
    refine ⟨link', hlookup, fun hnone ↦ ?_⟩
    obtain ⟨hnot, hrest⟩ := List.forall_mem_cons.mp hnone
    rw [hkept hrest, htoken.resolve_left hnot]

/-- What a map holds after calls that ran one after another. -/
structure Accounts (order : List Call) (map : SentLinkMap) : Prop where
  /-- A recorded link that was not deleted is present, with its token. -/
  recorded : ∀ before record after, order = before ++ .recordSentLink record :: after →
    .deleteSentLink record.id ∉ after → ∃ link, map.lookup record.id = some link ∧
      ((∀ call ∈ after, ¬call.Records record.id) → link.revocationToken = record.revocationToken)
  /-- A deleted link that was not recorded again is absent. -/
  deleted : ∀ before id after, order = before ++ .deleteSentLink id :: after →
    (∀ call ∈ after, ¬call.Records id) → map.lookup id = none

theorem accounts_foldl (map : SentLinkMap) {order : List Call}
    (hids : ∀ call ∈ order, call.id ∉ objectPrototype) :
    Accounts order (order.foldl sentLinks.apply map) where
  recorded := by
    rintro before record after rfl hdelete
    rw [List.foldl_append, List.foldl_cons]
    have hentry : (sentLinks.apply (before.foldl sentLinks.apply map)
        (.recordSentLink record)).lookup record.id = some (.record { record with schemaVersion := 1 }) := by
      rw [lookup_apply]
      have hid : record.id ∉ objectPrototype := hids (.recordSentLink record) (by simp)
      exact if_pos ⟨rfl, fun hproto ↦ hid (hproto ▸ by simp [objectPrototype])⟩
    exact lookup_of_present hdelete hentry
  deleted := by
    rintro before id after rfl hrecord
    rw [List.foldl_append, List.foldl_cons]
    refine lookup_of_absent (hids (.deleteSentLink id) (by simp)) hrecord ?_
    rw [lookup_apply]
    exact if_pos rfl

/-! ## Calls that overlap -/

/-- Where every write finds the map that its call has read, the stored map is that of the completed
calls in some order.  It accounts for their links if no id is the name of an inherited property. -/
theorem sentLinks_serial (map : SentLinkMap)
    (c : Threads.Config (Phase Call SentLinkMap SentLinkMap) SentLinkMap (Event Call SentLinkMap))
    (hc : sentLinks.program.Reachable Calls.Untouched map c) :
    ∃ order : List Call, order.Perm (c.threads.filterMap Phase.completed?) ∧
      c.shared = order.foldl sentLinks.apply map ∧
        ((∀ call ∈ order, call.id ∉ objectPrototype) → Accounts order c.shared) := by
  have hserial := Calls.serial hc
  refine ⟨completed c.trace, Calls.completed_perm hc, hserial, fun hids ↦ ?_⟩
  rw [hserial]
  exact accounts_foldl map hids

def sampleRecord (id : String) : SentLinkRecord :=
  ⟨id, "AM-0000", "2026-01-01T00:00:00.000Z", "2026-01-08T00:00:00.000Z", .int 1, none,
    some "token", none, 1⟩

/-- A link is recorded, then another, and the first is deleted. -/
def inTurn : List (Threads.Action Call Bool) :=
  [.spawn (.recordSentLink (sampleRecord "a")), .run 0 false, .run 0 false, .run 0 false,
   .spawn (.recordSentLink (sampleRecord "b")), .run 1 false, .run 1 false, .run 1 false,
   .spawn (.deleteSentLink "a"), .run 2 false, .run 2 false, .run 2 false]

instance : DecidableEq SentLinkMap := fun map map' ↦
  decidable_of_iff (map.entries = map'.entries) AList.ext_iff.symm

theorem sentLinks_serial_inTurn : ∃ c, sentLinks.program.exec Calls.Untouched
    (Threads.Program.start ∅) inTurn = some c ∧ (∃ order : List Call,
      order.Perm (c.threads.filterMap Phase.completed?) ∧
        c.shared = order.foldl sentLinks.apply ∅ ∧ Accounts order c.shared) ∧
      c.shared.keys = ["b"] := by
  have hrun : (sentLinks.program.exec Calls.Untouched (Threads.Program.start ∅) inTurn).map
      (fun c ↦ ((c.threads.filterMap Phase.completed?).all (·.id ∉ objectPrototype), c.shared.keys)) =
      some (true, ["b"]) := rfl
  obtain ⟨c, hc, hv⟩ := Option.map_eq_some_iff.mp hrun
  obtain ⟨hids, hkeys⟩ := Prod.mk.inj hv
  obtain ⟨order, hperm, hserial, haccounts⟩ := sentLinks_serial ∅ c (Threads.Program.runs_of_exec hc)
  refine ⟨c, hc, ⟨order, hperm, hserial, haccounts fun call hcall ↦ ?_⟩, hkeys⟩
  exact of_decide_eq_true (List.all_eq_true.mp hids call (hperm.subset hcall))

/-- Two links are recorded at once. -/
def overlapping : List (Threads.Action Call Bool) :=
  [.spawn (.recordSentLink (sampleRecord "a")), .spawn (.recordSentLink (sampleRecord "b")),
   .run 0 false, .run 1 false, .run 0 false, .run 1 false, .run 0 false, .run 1 false]

/-- The second of two overlapping calls loses the record of the first. -/
theorem record_lost : ¬∀ (map : SentLinkMap)
    (c : Threads.Config (Phase Call SentLinkMap SentLinkMap) SentLinkMap (Event Call SentLinkMap)),
    sentLinks.program.Reachable .always map c → (∀ p ∈ c.threads, p.completed?.isSome = true) →
      ∃ order : List Call, order.Perm (c.threads.filterMap Phase.completed?) ∧
        c.shared = order.foldl sentLinks.apply map := by
  intro h
  have hrun : (sentLinks.program.exec .always (Threads.Program.start ∅) overlapping).map
      (fun c ↦ (c.threads.all fun p ↦ p.completed?.isSome,
        c.threads.filterMap Phase.completed?, (c.shared.lookup "a").isSome)) =
      some (true, [.recordSentLink (sampleRecord "a"), .recordSentLink (sampleRecord "b")], false) := rfl
  obtain ⟨c, hc, hv⟩ := Option.map_eq_some_iff.mp hrun
  obtain ⟨hall, hv⟩ := Prod.mk.inj hv
  obtain ⟨hcalls, hlost⟩ := Prod.mk.inj hv
  obtain ⟨order, hperm, hshared⟩ := h ∅ c (Threads.Program.runs_of_exec hc) (List.all_eq_true.mp hall)
  rw [hcalls] at hperm
  obtain ⟨before, after, rfl⟩ := List.append_of_mem (hperm.symm.subset List.mem_cons_self)
  have hdelete : Call.deleteSentLink (sampleRecord "a").id ∉ after := by
    intro hin
    have := hperm.subset (List.mem_append_right _ (List.mem_cons_of_mem _ hin))
    simp at this
  have hids : ∀ call ∈ before ++ .recordSentLink (sampleRecord "a") :: after,
      call.id ∉ objectPrototype := by
    intro call hcall
    have hmem := hperm.subset hcall
    simp only [List.mem_cons, List.not_mem_nil, or_false] at hmem
    rcases hmem with rfl | rfl <;> decide
  obtain ⟨link, hrecord, -⟩ := (accounts_foldl ∅ hids).recorded before _ after rfl hdelete
  rw [← hshared] at hrecord
  rw [show (sampleRecord "a").id = "a" from rfl] at hrecord
  rw [hrecord] at hlost
  cases hlost

end Aesmsg.Links
