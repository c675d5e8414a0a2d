import Aesmsg.Links.Answers
import Aesmsg.Server.Memory

/-!
# Links that are shown as revoked

## Main results

- `revoked_shown_iff`: on both platforms a link that is answered for is shown as revoked only when it
  is, exactly where it is revoked, listed as live, or past its expiry on the clock of the client.
- `opened_out_shown_revoked`: a link whose opens ran out is shown as revoked.
-/

namespace Aesmsg.Links

open Client Api Store

/-- The row of a link is revoked. -/
def Revoked (row : Option LinkMetadata) : Prop := ∃ r ∈ row, r.status = .revoked

/-- The row of a link is active and not past its expiry on the clock of the server. -/
def Listed (now : Instant) (row : Option LinkMetadata) : Prop :=
  ∃ r ∈ row, r.status = .active ∧ now < r.expiresAt

theorem resultOf_of_listed {now : Instant} {row : Option LinkMetadata} (h : Listed now row)
    (id : LinkId) : ∃ r ∈ row, resultOf now id row =
      .active id (Calendar.toISOString r.expiresAt) (.int r.maxOpens) (.int r.opensCount) := by
  obtain ⟨r, rfl, hactive, hlt⟩ := h
  refine ⟨r, rfl, if_neg ?_⟩
  rw [not_or, not_not]
  exact ⟨hactive, Int.not_le.mpr hlt⟩

theorem resultOf_of_not_listed {now : Instant} {row : Option LinkMetadata} (h : ¬Listed now row)
    (id : LinkId) : resultOf now id row = .gone id := by
  cases row with
  | none => rfl
  | some r =>
    refine if_pos ?_
    by_contra hlive
    rw [not_or, not_not] at hlive
    exact h ⟨r, rfl, hlive.1, Int.not_le.mp hlive.2⟩

/-! ## What is shown -/

section Shown

variable (otherDate : String → Option Int) {serverNow : Instant} {row : LinkId → Option LinkMetadata}
  {asked : List LinkId} {now : Int}

/-- The results of a list request. -/
abbrev resultsOf (serverNow : Instant) (row : LinkId → Option LinkMetadata) (asked : List LinkId) :
    List ListMessageResult := asked.map fun id ↦ resultOf serverNow id (row id)

theorem byId_resultsOf (id : LinkId) : byId (resultsOf serverNow row asked) id =
    if id ∈ asked then some (resultOf serverNow id (row id)) else none :=
  byId_map (fun id ↦ id_resultOf serverNow id (row id)) asked id

/-- A link that the server lists is shown as live. -/
theorem deriveLinkStatus_active (link : ReconciledLink) (now : Int)
    (h : link.serverStatus = .active) :
    Mobile.deriveLinkStatus otherDate link now ∈ [.opened, .expiring, .available] := by
  unfold Mobile.deriveLinkStatus
  rw [h]
  dsimp only
  split
  · exact List.mem_cons_self
  split
  · exact List.mem_of_elem_eq_true rfl
  split
  · exact List.mem_of_elem_eq_true rfl
  · exact List.mem_of_elem_eq_true rfl

theorem liveStatus_ne_revoked (msLeft : Option Int) (openedOut : Bool) :
    Web.liveStatus msLeft openedOut ≠ .revoked := by
  unfold Web.liveStatus
  repeat' split
  all_goals exact Web.DisplayStatus.noConfusion

/-- Every record is reconciled. -/
theorem exists_reconciled {records : List SentLinkRecord} {record : SentLinkRecord}
    (h : record ∈ records) (serverResponse : Option (List ListMessageResult)) (now : Int) :
    ∃ link ∈ Mobile.reconcileSentLinks otherDate records serverResponse now, link.record = record := by
  refine ⟨_, List.mem_map_of_mem h, ?_⟩
  dsimp only
  repeat' split
  all_goals rfl

theorem mobile_revoked_iff {records : List SentLinkRecord} {link : ReconciledLink}
    (h : link ∈ Mobile.reconcileSentLinks otherDate records (some (resultsOf serverNow row asked)) now) :
    Mobile.deriveLinkStatus otherDate link now = .revoked ↔ link.record.id ∈ asked ∧
      ¬Listed serverNow (row link.record.id) ∧ isPast otherDate link.record.expiresAt now = false := by
  obtain ⟨record, -, rfl⟩ := List.mem_map.mp h
  dsimp only
  rw [byId_resultsOf]
  cases hpast : isPast otherDate record.expiresAt now with
  | true =>
    have hexpired : Mobile.deriveLinkStatus otherDate (Mobile.local_ record .gone) now = .expired :=
      if_pos hpast
    rw [if_pos rfl, hexpired]
    exact ⟨LinkStatus.noConfusion, fun h ↦ absurd (hpast.symm.trans h.2.2) Bool.noConfusion⟩
  | false =>
    rw [if_neg Bool.noConfusion]
    by_cases hasked : record.id ∈ asked
    · rw [if_pos hasked]
      by_cases hlisted : Listed serverNow (row record.id)
      · obtain ⟨r, -, hresult⟩ := resultOf_of_listed hlisted record.id
        rw [hresult]
        dsimp only
        constructor
        · intro hrevoked
          have hlive := deriveLinkStatus_active otherDate ⟨record, .active, some (.int r.opensCount),
            .int r.maxOpens, Calendar.toISOString r.expiresAt⟩ now rfl
          rw [hrevoked] at hlive
          exact absurd hlive (by decide)
        · exact fun h ↦ absurd hlisted h.2.1
      · rw [resultOf_of_not_listed hlisted]
        have hrevoked : Mobile.deriveLinkStatus otherDate (Mobile.local_ record .gone) now = .revoked :=
          if_neg (hpast ▸ Bool.noConfusion)
        exact ⟨fun _ ↦ ⟨hasked, hlisted, hpast⟩, fun _ ↦ hrevoked⟩
    · rw [if_neg hasked]
      exact ⟨fun h ↦ LinkStatus.noConfusion h, fun h ↦ absurd h.1 hasked⟩

theorem web_revoked_iff (record : Web.SentLinkRecord) :
    (Web.reconcileLink otherDate record (byId (resultsOf serverNow row asked) record.id) now).status =
      .revoked ↔ record.id ∈ asked ∧ ¬Listed serverNow (row record.id) ∧
        isPast otherDate record.expiresAt now = false := by
  rw [byId_resultsOf]
  by_cases hasked : record.id ∈ asked
  · rw [if_pos hasked]
    by_cases hlisted : Listed serverNow (row record.id)
    · obtain ⟨r, -, hresult⟩ := resultOf_of_listed hlisted record.id
      rw [hresult]
      exact ⟨fun h ↦ absurd h (liveStatus_ne_revoked _ _), fun h ↦ absurd hlisted h.2.1⟩
    · rw [resultOf_of_not_listed hlisted]
      show (if isPast otherDate record.expiresAt now then Web.DisplayStatus.expired else .revoked) =
        .revoked ↔ _
      cases hpast : isPast otherDate record.expiresAt now with
      | true =>
        exact ⟨Web.DisplayStatus.noConfusion, fun h ↦ Bool.noConfusion h.2.2⟩
      | false =>
        exact ⟨fun _ ↦ ⟨hasked, hlisted, rfl⟩, fun _ ↦ rfl⟩
  · rw [if_neg hasked]
    exact ⟨fun h ↦ absurd h (liveStatus_ne_revoked _ _), fun h ↦ absurd h.1 hasked⟩

end Shown

/-! ## When it is true -/

/-- What is shown as revoked, when it is shown exactly where `shown` says, is revoked iff one of the
reasons against showing it holds or the row is revoked. -/
theorem shown_iff {shown isAsked isListed isRevoked : Prop} {past : Bool}
    (h : shown ↔ isAsked ∧ ¬isListed ∧ past = false) :
    (shown → isRevoked) ↔ ¬isAsked ∨ isRevoked ∨ isListed ∨ past = true := by
  rw [h]
  cases past with
  | true => simp
  | false =>
    by_cases hasked : isAsked
    · by_cases hlisted : isListed
      · simp [hlisted]
      · simp [hasked, hlisted]
    · simp [hasked]

/-- On both platforms, after any honest answer of a server in any state, what is shown of a link as
revoked is true exactly where the link was not asked for, is revoked, is listed as live, or is past
its recorded expiry on the client's clock. -/
theorem revoked_shown_iff {σ τ : Type} (S : Stores σ τ) (s : σ) (count : Nat) (serverNow : Instant)
    (platform : Platform) (asked : List LinkId) (results : List ListMessageResult)
    (h : listMessages platform (served S s count serverNow) asked = .ok results)
    (otherDate : String → Option Int) (now : Int) :
    (∀ records, ∀ link ∈ Mobile.reconcileSentLinks otherDate records (some results) now,
      (Mobile.deriveLinkStatus otherDate link now = .revoked → Revoked (S.get s link.record.id)) ↔
        link.record.id ∉ asked ∨ Revoked (S.get s link.record.id) ∨
          Listed serverNow (S.get s link.record.id) ∨
            isPast otherDate link.record.expiresAt now = true) ∧
    ∀ record : Web.SentLinkRecord,
      ((Web.reconcileLink otherDate record (byId results record.id) now).status = .revoked →
        Revoked (S.get s record.id)) ↔
          record.id ∉ asked ∨ Revoked (S.get s record.id) ∨ Listed serverNow (S.get s record.id) ∨
            isPast otherDate record.expiresAt now = true := by
  obtain rfl := listMessages_eq_ok h
  constructor
  · intro records link hlink
    exact shown_iff (mobile_revoked_iff otherDate hlink)
  · intro record
    exact shown_iff (web_revoked_iff otherDate record)

/-- A link that is active, one that is revoked and one whose opens ran out. -/
def threeRows : MemoryStore :=
  { MemoryStore.empty with
    rows := ((OrderedMap.empty.set "AAAAAAAAAAAAAAAA" ⟨"AAAAAAAAAAAAAAAA", .active, none, 1000, 2, 1⟩).set
      "BBBBBBBBBBBBBBBB" ⟨"BBBBBBBBBBBBBBBB", .revoked, none, 1000, 2, 1⟩).set
      "CCCCCCCCCCCCCCCC" ⟨"CCCCCCCCCCCCCCCC", .expired, none, 1000, 1, 1⟩ }

def threeIds : List LinkId := ["AAAAAAAAAAAAAAAA", "BBBBBBBBBBBBBBBB", "CCCCCCCCCCCCCCCC"]

/-- A link as the sender has recorded it. -/
def recordOf (id : LinkId) : Web.SentLinkRecord :=
  ⟨id, "AM-0000", "1970-01-01T00:00:00.000Z", "1970-01-01T00:00:01.000Z", .int 1, none, none, none, 1⟩

/-- Whether the web shows a link as revoked that is asked for with the others. -/
def ShownRevoked (id : LinkId) : Prop :=
  (Web.reconcileLink (fun _ ↦ none) (recordOf id)
    (byId (resultsOf 5 (memoryStores.get threeRows) threeIds) id) 10).status = .revoked

/-- What is shown of the first two is true, and of the third it is not. -/
theorem revoked_shown_iff_rows :
    (ShownRevoked "AAAAAAAAAAAAAAAA" → Revoked (memoryStores.get threeRows "AAAAAAAAAAAAAAAA")) ∧
    (ShownRevoked "BBBBBBBBBBBBBBBB" ∧ Revoked (memoryStores.get threeRows "BBBBBBBBBBBBBBBB")) ∧
    ¬(ShownRevoked "CCCCCCCCCCCCCCCC" → Revoked (memoryStores.get threeRows "CCCCCCCCCCCCCCCC")) := by
  have hiff := (revoked_shown_iff memoryStores threeRows 1 5 .web threeIds _
    (listMessages_served .web (by decide) (by decide) (by decide)) (fun _ ↦ none) 10).2
  have hA : memoryStores.get threeRows "AAAAAAAAAAAAAAAA" =
    some ⟨"AAAAAAAAAAAAAAAA", .active, none, 1000, 2, 1⟩ := by decide
  have hB : memoryStores.get threeRows "BBBBBBBBBBBBBBBB" =
    some ⟨"BBBBBBBBBBBBBBBB", .revoked, none, 1000, 2, 1⟩ := by decide
  have hC : memoryStores.get threeRows "CCCCCCCCCCCCCCCC" =
    some ⟨"CCCCCCCCCCCCCCCC", .expired, none, 1000, 1, 1⟩ := by decide
  refine ⟨?_, ⟨?_, _, hB, rfl⟩, ?_⟩
  · exact (hiff (recordOf "AAAAAAAAAAAAAAAA")).mpr (.inr (.inr (.inl ⟨_, hA, rfl, by decide⟩)))
  · unfold ShownRevoked
    decide +kernel
  · refine mt (hiff (recordOf "CCCCCCCCCCCCCCCC")).mp ?_
    rintro (hasked | ⟨r, hr, hrevoked⟩ | ⟨r, hr, hactive, -⟩ | hpast)
    · exact hasked (by decide)
    · cases hC.symm.trans hr
      cases hrevoked
    · cases hC.symm.trans hr
      cases hactive
    · exact absurd hpast (by decide +kernel)

/-! ## Opens that ran out -/

def sampleId : LinkId := "AAAAAAAAAAAAAAAA"

/-- A link for one open is created and opened. -/
def openedOnce : List (Threads.Action Server.Request Server.Memory.Input) :=
  [.spawn (.createWithCiphertext ⟨sampleId, 1000, 1, none⟩ [7]), .run 0 (.at 1), .run 0 (.at 1),
    .spawn (.openMessage sampleId ""), .run 1 (.at 2), .run 1 (.at 2), .run 1 (.at 2)]

/-- The link as the sender has recorded it. -/
def webRecord : Web.SentLinkRecord := recordOf sampleId


/-- A link whose opens ran out is shown as revoked, on mobile and on the web. -/
theorem opened_out_shown_revoked :
    (¬∀ (env : Env) (c : Threads.Config Server.Memory.Pc MemoryStore Server.Event),
      (Server.Memory.program env).Reachable .always MemoryStore.empty c →
        ∀ count serverNow asked results,
          listMessages .mobile (served memoryStores c.shared count serverNow) asked = .ok results →
          ∀ otherDate records now,
            ∀ link ∈ Mobile.reconcileSentLinks otherDate records (some results) now,
              Mobile.deriveLinkStatus otherDate link now = .revoked →
                Revoked (memoryStores.get c.shared link.record.id)) ∧
    ¬∀ (env : Env) (c : Threads.Config Server.Memory.Pc MemoryStore Server.Event),
      (Server.Memory.program env).Reachable .always MemoryStore.empty c →
        ∀ count serverNow asked results,
          listMessages .web (served memoryStores c.shared count serverNow) asked = .ok results →
          ∀ otherDate record now,
            (Web.reconcileLink otherDate record (byId results record.id) now).status = .revoked →
              Revoked (memoryStores.get c.shared record.id) := by
  have hrun : ((Server.Memory.program .sample).exec .always
      (Threads.Program.start MemoryStore.empty) openedOnce).map
        (fun c ↦ memoryStores.get c.shared sampleId) =
      some (some ⟨sampleId, .expired, none, 1000, 1, 1⟩) := by decide
  obtain ⟨c, hc, hrow⟩ := Option.map_eq_some_iff.mp hrun
  have hreached := Threads.Program.runs_of_exec hc
  have hlisted : ¬Listed 5 (memoryStores.get c.shared sampleId) := by
    rintro ⟨r, hr, hactive, -⟩
    cases hrow.symm.trans hr
    cases hactive
  have hrevoked : ¬Revoked (memoryStores.get c.shared sampleId) := by
    rintro ⟨r, hr, hrevoked⟩
    cases hrow.symm.trans hr
    cases hrevoked
  have hserved : ∀ platform, listMessages platform (served memoryStores c.shared 1 5) [sampleId] =
      .ok (resultsOf 5 (memoryStores.get c.shared) [sampleId]) := by
    intro platform
    exact listMessages_served platform (by decide) (by decide) (by decide)
  have hfuture : isPast (fun _ ↦ none) (sampleRecord sampleId).expiresAt 10 = false ∧
      isPast (fun _ ↦ none) webRecord.expiresAt 10 = false := by decide +kernel
  constructor
  · intro h
    obtain ⟨link, hlink, hrecord⟩ := exists_reconciled (fun _ ↦ none)
      (List.mem_singleton_self (sampleRecord sampleId))
      (some (resultsOf 5 (memoryStores.get c.shared) [sampleId])) 10
    have hid : link.record.id = sampleId := congrArg SentLinkRecord.id hrecord
    have hshown := (mobile_revoked_iff (fun _ ↦ none) hlink).mpr
      ⟨hid ▸ List.mem_singleton_self _, hid ▸ hlisted, hrecord ▸ hfuture.1⟩
    have htold := h .sample c hreached 1 5 _ _ (hserved .mobile) _ _ 10 link hlink hshown
    rw [hid] at htold
    exact hrevoked htold
  · intro h
    have hshown := (web_revoked_iff (fun _ ↦ none) webRecord).mpr
      ⟨List.mem_singleton_self sampleId, hlisted, hfuture.2⟩
    exact hrevoked (h .sample c hreached 1 5 _ _ (hserved .web) _ webRecord 10 hshown)

end Aesmsg.Links
