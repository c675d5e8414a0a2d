import Mathlib.Logic.Function.Basic
import Aesmsg.Store.Link
import Aesmsg.Store.Pg

/-!
# The Postgres store, link by link

`Pg.link` reads off the two tables what the database holds for one id.  Where its parameters fit the
columns, every statement changes the link of its own id by the operation of the abstract model, and
no other.
-/

namespace Aesmsg.Store.Pg

def link (db : Db) (id : LinkId) : Link where
  row := (db.links.get? id).map (rowToMeta id)
  hash := (db.links.get? id).map (·.revocation_token_hash)
  terminalAt := (db.links.get? id).bind fun row ↦ row.terminal_at.map toDate
  blob := (db.link_ciphertexts.get? id).map (·.blob)

theorem row_link (db : Db) (id : LinkId) :
    (link db id).row = (db.links.get? id).map (rowToMeta id) := rfl

@[simp] theorem link_empty : link Db.empty = fun _ ↦ Link.vacant := rfl

/-- An id without a row holds nothing: the foreign key keeps ciphertexts from being orphaned. -/
theorem link_of_absent {db : Db} {id : LinkId} (h : db.links.get? id = none) :
    link db id = Link.vacant := by
  have hb : db.link_ciphertexts.get? id = none := by
    rw [Option.eq_none_iff_forall_ne_some]
    intro blob hb
    obtain ⟨row, hr⟩ := db.foreign_key id blob hb
    rw [h] at hr
    cases hr
  simp [link, h, hb, Link.vacant]

section Update

variable {db db' : Db} {id : LinkId} {l : Link}

theorem link_eq_update (at_id : link db' id = l) (frame : ∀ j, j ≠ id → link db' j = link db j) :
    link db' = Function.update (link db) id l := by
  funext j
  by_cases hj : j = id
  · rw [hj, Function.update_self, at_id]
  · rw [Function.update_of_ne hj, frame j hj]

theorem link_deleteCiphertext (db : Db) (id : LinkId) :
    link (deleteCiphertext db id) = Function.update (link db) id (link db id).withoutBlob := by
  refine link_eq_update ?_ fun j hj ↦ ?_
  · simp [link, deleteCiphertext, Db.deleteCiphertexts, Link.withoutBlob]
  · simp [link, deleteCiphertext, Db.deleteCiphertexts, hj]

/-- Overwriting one row of `links`. -/
theorem link_updateRow {db : Db} {id : LinkId} {f : LinksRow → LinksRow} {row : LinksRow}
    (hr : db.links.get? id = some row) :
    link (db.updateLinks fun k r ↦ if k = id then f r else r) =
      Function.update (link db) id { link db id with
        row := some (rowToMeta id (f row))
        hash := some (f row).revocation_token_hash
        terminalAt := (f row).terminal_at.map toDate } := by
  refine link_eq_update ?_ fun j hj ↦ ?_
  · simp [link, Db.updateLinks, hr]
  · simp [link, Db.updateLinks, hj]

end Update

/-! ## Times -/

/-- The expiry of every row is a whole number of milliseconds. -/
def Aligned (db : Db) : Prop :=
  ∀ id row, db.links.get? id = some row → 1000 ∣ row.expires_at.val

theorem toDate_le_iff {row : LinksRow} (h : 1000 ∣ row.expires_at.val) (now : Timestamptz) :
    toDate row.expires_at ≤ toDate now ↔ row.expires_at.val ≤ now.val := by
  unfold toDate
  omega

theorem toDate_lt_iff {row : LinksRow} (h : 1000 ∣ row.expires_at.val) (now : Timestamptz) :
    toDate now < toDate row.expires_at ↔ now.val < row.expires_at.val := by
  unfold toDate
  omega

theorem toTimestamptz_ok {t : Instant} {u : Timestamptz} (h : toTimestamptz (some t) = .ok u) :
    u.val = 1000 * t := by
  unfold toTimestamptz at h
  split at h
  · cases h
  · rename_i heq
    cases heq
    split at h
    · cases h
      rfl
    · cases h

theorem toDate_of_ok {t : Instant} {u : Timestamptz} (h : toTimestamptz (some t) = .ok u) :
    toDate u = t := by
  unfold toDate
  rw [toTimestamptz_ok h]
  omega

/-! ## Creating -/

theorem toInt4_eq_ok {n : Int} {m : Int4} : toInt4 n = .ok m ↔ m.val = n := by
  unfold toInt4
  split
  · rename_i h
    constructor
    · rintro ⟨⟩
      rfl
    · intro hm
      exact congrArg Except.ok (Subtype.ext hm.symm)
  · rename_i h
    constructor
    · rintro ⟨⟩
    · rintro rfl
      exact absurd m.property h

theorem bind_ok {α β : Type} {x : Except PgError α} {f : α → Except PgError β} {b : β} :
    (x >>= f) = .ok b ↔ ∃ a, x = .ok a ∧ f a = .ok b := by
  cases x with
  | error e => exact ⟨nofun, by rintro ⟨a, ⟨⟩, -⟩⟩
  | ok a => exact ⟨fun h ↦ ⟨a, rfl, h⟩, by rintro ⟨_, ⟨⟩, h⟩; exact h⟩

/-- A record whose values fit the columns. -/
structure Fits (record : CreateLinkRecord) : Prop where
  expires : -210866803200000000 ≤ 1000 * record.expiresAt ∧
    1000 * record.expiresAt < 9223371331200000000
  opens : record.Admissible ∧ record.maxOpens ≤ 2147483647

theorem newRow_ok {record : CreateLinkRecord} {row : LinksRow} (h : newRow record = .ok row) :
    Fits record ∧ 1000 ∣ row.expires_at.val ∧ rowToMeta record.id row = record.meta ∧
      row.revocation_token_hash = record.revocationTokenHash ∧ row.terminal_at = none := by
  unfold newRow at h
  obtain ⟨expires, he, h⟩ := bind_ok.mp h
  obtain ⟨max, hm, h⟩ := bind_ok.mp h
  split at h
  · rename_i hmax
    cases h
    have hval := toInt4_eq_ok.mp hm
    have hexp := toTimestamptz_ok he
    have hdate := toDate_of_ok he
    refine ⟨⟨?_, ?_, ?_⟩, ⟨record.expiresAt, hexp⟩, ?_, rfl, rfl⟩
    · rw [← hexp]
      exact expires.property
    · rw [hval] at hmax
      exact hmax.symm
    · rw [← hval]
      exact max.property.2
    · simp [rowToMeta, CreateLinkRecord.meta, hdate, hval]
  · cases h

theorem newRow_of_fits {record : CreateLinkRecord} (h : Fits record) :
    ∃ row, newRow record = .ok row := by
  have he : toTimestamptz (some record.expiresAt) = .ok ⟨1000 * record.expiresAt, h.expires⟩ :=
    dif_pos h.expires
  obtain ⟨hadm, hle⟩ := h.opens
  have hrange : -2147483648 ≤ record.maxOpens ∧ record.maxOpens ≤ 2147483647 := by
    rcases hadm with hm | hm
    · rw [hm]
      decide
    · exact ⟨by omega, hle⟩
  have hm : toInt4 record.maxOpens = .ok ⟨record.maxOpens, hrange⟩ := dif_pos hrange
  have hmax : 0 < record.maxOpens ∨ record.maxOpens = -1 := hadm.symm
  unfold newRow
  rw [he, hm]
  exact ⟨_, dif_pos hmax⟩

theorem insertLink_ok {db db' : Db} {id : LinkId} {row : LinksRow}
    (h : db.insertLink id row = .ok db') :
    db.links.get? id = none ∧ db'.links = db.links.set id row ∧
      db'.link_ciphertexts = db.link_ciphertexts := by
  unfold Db.insertLink at h
  split at h
  · cases h
  · rename_i hn
    cases h
    exact ⟨OrderedMap.has_eq_false.mp (Bool.eq_false_iff.mpr hn), rfl, rfl⟩

theorem create_ok {db db' : Db} {record : CreateLinkRecord} {row : LinkMetadata}
    (h : create db record = .ok (row, db')) :
    Fits record ∧ db.links.get? record.id = none ∧ row = record.meta ∧
      link db' = Function.update (link db) record.id ((link db record.id).insert record) ∧
      (Aligned db → Aligned db') := by
  unfold create at h
  obtain ⟨new, hnew, h⟩ := bind_ok.mp h
  obtain ⟨d, hd, h⟩ := bind_ok.mp h
  cases h
  obtain ⟨hfits, halign, hmeta, hhash, hterm⟩ := newRow_ok hnew
  obtain ⟨habs, hlinks, hcipher⟩ := insertLink_ok hd
  refine ⟨hfits, habs, hmeta, link_eq_update ?_ ?_, ?_⟩
  · rw [link_of_absent habs]
    have hb : db.link_ciphertexts.get? record.id = none := by
      have := congrArg Link.blob (link_of_absent habs)
      simpa [link, Link.vacant] using this
    simp [link, hlinks, hcipher, hmeta, hhash, hterm, hb, Link.insert, Link.vacant]
  · intro j hj
    simp [link, hlinks, hcipher, OrderedMap.get?_set, hj]
  · intro ha j r hr
    rw [hlinks, OrderedMap.get?_set] at hr
    split at hr
    · cases hr
      exact halign
    · exact ha j r hr

theorem create_of_fits {db : Db} {record : CreateLinkRecord} (hf : Fits record)
    (ha : db.links.get? record.id = none) : ∃ db', create db record = .ok (record.meta, db') := by
  obtain ⟨row, hrow⟩ := newRow_of_fits hf
  obtain ⟨-, -, hmeta, -⟩ := newRow_ok hrow
  have hhas : db.links.has record.id = false := OrderedMap.has_eq_false.mpr ha
  unfold create Db.insertLink
  rw [hrow]
  simp only [hhas]
  exact ⟨_, by rw [← hmeta]; rfl⟩

theorem upsertCiphertext_ok {db db' : Db} {id : LinkId} {blob : List UInt8}
    (h : db.upsertCiphertext id blob = .ok db') :
    db'.links = db.links ∧ link db' = Function.update (link db) id ((link db id).withBlob blob) := by
  unfold Db.upsertCiphertext at h
  obtain ⟨size, hsize, h⟩ := bind_ok.mp h
  split at h
  · split at h
    · cases h
      refine ⟨rfl, link_eq_update ?_ fun j hj ↦ ?_⟩
      · simp [link, Link.withBlob]
      · simp [link, OrderedMap.get?_set, hj]
    · cases h
  · cases h

theorem upsertCiphertext_of_present {db : Db} {id : LinkId} {blob : List UInt8} {row : LinksRow}
    (hr : db.links.get? id = some row) (hlen : blob.length ≤ 2147483647) :
    ∃ db', db.upsertCiphertext id blob = .ok db' := by
  have hrange : (-2147483648 : Int) ≤ blob.length ∧ (blob.length : Int) ≤ 2147483647 := by omega
  have hsize : toInt4 blob.length = .ok ⟨blob.length, hrange⟩ := dif_pos hrange
  have hnn : (0 : Int) ≤ (⟨blob.length, hrange⟩ : Int4).val := Int.natCast_nonneg _
  have hhas : db.links.has id = true := OrderedMap.has_eq_true.mpr ⟨row, hr⟩
  unfold Db.upsertCiphertext
  rw [hsize]
  simp only [bind, Except.bind]
  rw [dif_pos hnn, dif_pos hhas]
  exact ⟨_, rfl⟩

theorem upsertCiphertext_of_absent {db : Db} {id : LinkId} (blob : List UInt8)
    (hr : db.links.get? id = none) : ∃ e, db.upsertCiphertext id blob = .error e := by
  cases h : db.upsertCiphertext id blob with
  | error e => exact ⟨e, rfl⟩
  | ok db' =>
    obtain ⟨size, -, h⟩ := bind_ok.mp h
    split at h
    · rename_i hnn
      have hhas : ¬db.links.has id = true := by
        rw [OrderedMap.has_eq_false.mpr hr]
        decide
      rw [dif_neg hhas] at h
      cases h
    · cases h

/-! ## Opening -/

theorem opened_ok {row updated : LinksRow} {now : Timestamptz} (id : LinkId)
    (h : opened row now = .ok updated) :
    rowToMeta id updated = (rowToMeta id row).opened ∧
      updated.revocation_token_hash = row.revocation_token_hash ∧
      updated.expires_at = row.expires_at ∧
      (row.status = .active → updated.terminal_at =
        if updated.status = .expired then some now else row.terminal_at) := by
  unfold opened at h
  obtain ⟨count, hcount, h⟩ := bind_ok.mp h
  have hval := toInt4_eq_ok.mp hcount
  have hnn := row.opens_count_check
  split at h
  · cases h
    have hcast : ((row.opens_count.val.toNat + 1 : Nat) : Int) = count.val := by omega
    have hnat : count.val.toNat = row.opens_count.val.toNat + 1 := by omega
    refine ⟨?_, rfl, rfl, ?_⟩
    · simp only [rowToMeta, LinkMetadata.opened, hcast, hnat, decide_eq_true_eq]
    · intro ha
      dsimp only
      by_cases hx : row.max_opens.val ≠ -1 ∧ row.max_opens.val ≤ count.val
      · simp [hx]
      · simp [ha]
  · cases h

theorem opened_of_lt {row : LinksRow} (now : Timestamptz)
    (h : row.opens_count.val < 2147483647) : ∃ updated, opened row now = .ok updated := by
  have hnn := row.opens_count_check
  have hrange : -2147483648 ≤ row.opens_count.val + 1 ∧ row.opens_count.val + 1 ≤ 2147483647 := by
    omega
  have hcount : toInt4 (row.opens_count.val + 1) = .ok ⟨_, hrange⟩ := dif_pos hrange
  have hpos : 0 ≤ (⟨row.opens_count.val + 1, hrange⟩ : Int4).val := by
    change 0 ≤ row.opens_count.val + 1
    omega
  unfold opened
  rw [hcount]
  exact ⟨_, dif_pos hpos⟩

theorem openedRow_link {db : Db} {id : LinkId} {row : LinksRow} (hr : db.links.get? id = some row)
    (halign : 1000 ∣ row.expires_at.val) (now : Timestamptz) :
    (link db id).openedRow (toDate now) =
      if row.status = .active ∧ now.val < row.expires_at.val then some (rowToMeta id row).opened
      else none := by
  have hlt := toDate_lt_iff halign now
  have hl : (link db id).row = some (rowToMeta id row) := by
    rw [row_link, hr]
    rfl
  split
  · rename_i h
    exact Link.openedRow_eq_some.mpr ⟨_, hl, h.1, hlt.mpr h.2, rfl⟩
  · rename_i h
    refine Link.openedRow_eq_none.mpr fun r hr' ha ↦ ?_
    rw [hl] at hr'
    cases hr'
    exact Int.not_lt.mp fun hn ↦ h ⟨ha, hlt.mp hn⟩

theorem incrementOpens_ok {db db' : Db} {id : LinkId} {now : Timestamptz}
    {opened? : Option LinkMetadata} (ha : Aligned db)
    (h : incrementOpens db id now = .ok (opened?, db')) :
    opened? = (link db id).openedRow (toDate now) ∧
      link db' = Function.update (link db) id
        ((link db id).increment (toDate now) (toDate now)) ∧ Aligned db' := by
  unfold incrementOpens at h
  cases hr : db.links.get? id with
  | none =>
    rw [hr] at h
    cases h
    have ho : (link db id).openedRow (toDate now) = none := by
      rw [link_of_absent hr]
      rfl
    refine ⟨ho.symm, ?_, ha⟩
    unfold Link.increment
    rw [ho, Function.update_eq_self]
  | some row =>
    rw [hr] at h
    have ho := openedRow_link hr (ha id row hr) now
    by_cases hlive : row.status = .active ∧ now.val < row.expires_at.val
    · rw [if_pos hlive] at ho
      simp only [hlive, and_self, if_true] at h
      obtain ⟨updated, hu, h⟩ := bind_ok.mp h
      obtain ⟨hmeta, hhash, hexp, hterm⟩ := opened_ok id hu
      have hst : updated.status = (rowToMeta id row).opened.status :=
        congrArg LinkMetadata.status hmeta
      have hup := link_updateRow (f := fun _ ↦ updated) hr
      have hal : Aligned (db.updateLinks fun k r ↦ if k = id then updated else r) := by
        intro j r hj
        simp only [Db.updateLinks, OrderedMap.get?_filterMap, Option.bind_eq_some_iff] at hj
        obtain ⟨r', hr', hj⟩ := hj
        split at hj
        · cases hj
          rw [hexp]
          exact ha id row hr
        · cases hj
          exact ha j r hr'
      cases h
      refine ⟨by rw [ho, hmeta], ?_, ?_⟩
      · unfold Link.increment
        rw [ho]
        dsimp only
        rw [← hst]
        split
        · rename_i hx
          refine (link_deleteCiphertext _ id).trans ?_
          rw [hup, Function.update_self, Function.update_idem]
          refine congrArg _ ?_
          rw [hterm hlive.1, if_pos hx]
          simp [link, Link.withoutBlob, hmeta, hhash, hr]
        · rename_i hx
          rw [hup, hterm hlive.1, if_neg hx]
          refine congrArg _ ?_
          simp [link, hmeta, hhash, hr]
      · split
        · exact hal
        · exact hal
    · rw [if_neg hlive] at ho
      simp only [hlive, if_false] at h
      cases h
      refine ⟨ho.symm, ?_, ha⟩
      unfold Link.increment
      rw [ho, Function.update_eq_self]

theorem incrementOpens_of_lt {db : Db} {id : LinkId} {now : Timestamptz}
    (h : ∀ row, db.links.get? id = some row → row.status = .active →
      now.val < row.expires_at.val → row.opens_count.val < 2147483647) :
    ∃ result, incrementOpens db id now = .ok result := by
  unfold incrementOpens
  cases hr : db.links.get? id with
  | none => exact ⟨_, rfl⟩
  | some row =>
    dsimp only
    split
    · rename_i hlive
      obtain ⟨updated, hu⟩ := opened_of_lt now (h row hr hlive.1 hlive.2)
      rw [hu]
      exact ⟨_, rfl⟩
    · exact ⟨_, rfl⟩

/-! ## Terminal transitions -/

theorem aligned_updateLinks {db : Db} (h : Aligned db) {f : LinkId → LinksRow → LinksRow}
    (hf : ∀ k row, (f k row).expires_at = row.expires_at) : Aligned (db.updateLinks f) := by
  intro id row hr
  simp only [Db.updateLinks, OrderedMap.get?_filterMap, Option.bind_eq_some_iff] at hr
  obtain ⟨r, hr, hrow⟩ := hr
  cases hrow
  rw [hf]
  exact h id r hr

theorem aligned_deleteLinks {db : Db} (h : Aligned db) (p : LinkId → LinksRow → Bool) :
    Aligned (db.deleteLinks p) := by
  intro id row hr
  simp only [Db.deleteLinks, OrderedMap.get?_filterMap, Option.bind_eq_some_iff] at hr
  obtain ⟨r, hr, hrow⟩ := hr
  split at hrow
  · cases hrow
  · cases hrow
    exact h id row hr

theorem aligned_updateRevoked {db : Db} (h : Aligned db) (id : LinkId) (now : Timestamptz) :
    Aligned (updateRevoked db id now) :=
  aligned_updateLinks h fun k row ↦ by
    split
    · rfl
    · rfl

theorem link_updateRevoked {db : Db} {id : LinkId} {row : LinksRow}
    (hr : db.links.get? id = some row) (ha : row.status = .active) (now : Timestamptz) :
    link (updateRevoked db id now) =
      Function.update (link db) id ((link db id).flip .revoked (toDate now)) := by
  have hl : (link db id).row = some (rowToMeta id row) := by
    rw [row_link, hr]
    rfl
  have hup := link_updateRow
    (f := fun r : LinksRow ↦ { r with status := .revoked, terminal_at := some now }) hr
  rw [Link.flip_of_active hl ha]
  refine hup.trans (congrArg _ ?_)
  simp [link, Link.terminate, rowToMeta, hr]

theorem link_revoke (db : Db) (id : LinkId) (providedTokenHash : Option String)
    (now : Timestamptz) :
    link (revoke db id providedTokenHash now) =
      Function.update (link db) id ((link db id).revoke providedTokenHash (toDate now)) := by
  unfold revoke Link.revoke Link.revocable
  cases hr : db.links.get? id with
  | none => simp [link, hr]
  | some row =>
    have hl : (link db id).row = some (rowToMeta id row) := by
      rw [row_link, hr]
      rfl
    have hh : (link db id).hash = some row.revocation_token_hash := by simp [link, hr]
    have hs : (rowToMeta id row).status = row.status := rfl
    rw [hl, hh]
    by_cases ha : row.status = .active
    · cases hp : revokeAllowed row.revocation_token_hash providedTokenHash with
      | false => simp [ha, hp]
      | true =>
        simp only [ha, hs, hp, ne_eq, not_true_eq_false, if_false, if_true, Option.any_some,
          Option.getD_some, decide_true, Bool.and_self]
        have hup := link_updateRevoked hr ha now
        refine (link_deleteCiphertext _ id).trans ?_
        rw [hup, Function.update_self, Function.update_idem]
    · simp [ha, hs]

theorem adminPurge_fst (db : Db) (id : LinkId) (now : Timestamptz) :
    (adminPurge db id now).1 = ⟨(link db id).row.isSome,
      (link db id).row.any (·.status = .active), (link db id).blob.isSome⟩ := by
  have hb : ∀ d : Db, d.link_ciphertexts.has id = (link d id).blob.isSome := by
    intro d
    simp [link, OrderedMap.has]
  have hkeep : (if (db.links.get? id).any (·.status = .active) = true then updateRevoked db id now
      else db).link_ciphertexts = db.link_ciphertexts := by
    split <;> rfl
  unfold adminPurge
  dsimp only
  rw [hkeep, hb]
  cases hr : db.links.get? id with
  | none => simp [link, OrderedMap.has, hr]
  | some row => simp [link, OrderedMap.has, hr, rowToMeta]

theorem link_adminPurge (db : Db) (id : LinkId) (now : Timestamptz) :
    link (adminPurge db id now).2 =
      Function.update (link db) id ((link db id).adminPurge (toDate now)) := by
  unfold adminPurge Link.adminPurge
  dsimp only
  refine (link_deleteCiphertext _ id).trans ?_
  cases hr : db.links.get? id with
  | none =>
    have hf : (link db id).flip .revoked (toDate now) = link db id :=
      Link.flip_of_not_active (fun r hr' ↦ by rw [row_link, hr] at hr'; cases hr') _ _
    rw [hf]
    rfl
  | some row =>
    have hl : (link db id).row = some (rowToMeta id row) := by
      rw [row_link, hr]
      rfl
    by_cases ha : row.status = .active
    · simp only [ha, Option.any_some, decide_true, if_true]
      rw [link_updateRevoked hr ha, Function.update_self, Function.update_idem]
    · have hf : (link db id).flip .revoked (toDate now) = link db id :=
        Link.flip_of_not_active (fun r hr' ↦ by rw [hl] at hr'; cases hr'; exact ha) _ _
      simp only [ha, Option.any_some, decide_false, Bool.false_eq_true, if_false]
      rw [hf]

theorem aligned_revoke {db : Db} (h : Aligned db) (id : LinkId)
    (providedTokenHash : Option String) (now : Timestamptz) :
    Aligned (revoke db id providedTokenHash now) := by
  unfold revoke
  split
  · exact h
  · split
    · exact h
    · split
      · exact aligned_updateRevoked h id now
      · exact h

theorem aligned_adminPurge {db : Db} (h : Aligned db) (id : LinkId) (now : Timestamptz) :
    Aligned (adminPurge db id now).2 := by
  unfold adminPurge
  dsimp only
  split
  · exact aligned_updateRevoked h id now
  · exact h

/-! ## The sweep -/

theorem isTerminal_link {db : Db} {id : LinkId} : inTerminal db id = (link db id).isTerminal := by
  unfold inTerminal Link.isTerminal
  rw [row_link]
  cases db.links.get? id <;> rfl

theorem pastDue_link {db : Db} {id : LinkId} {row : LinksRow} {now : Timestamptz}
    (h : 1000 ∣ row.expires_at.val) (hr : db.links.get? id = some row) :
    (link db id).pastDue (toDate now) = isPastDue row now := by
  unfold Link.pastDue isPastDue
  rw [row_link, hr]
  exact decide_eq_decide.mpr (and_congr_right fun _ ↦ toDate_le_iff h now)

theorem link_updateExpired {db : Db} (h : Aligned db) (now : Timestamptz) (id : LinkId) :
    link (updateExpired db now) id = (link db id).expire (toDate now) (toDate now) := by
  unfold Link.expire
  cases hr : db.links.get? id with
  | none =>
    have hdue : (link db id).pastDue (toDate now) = false := by
      unfold Link.pastDue
      rw [row_link, hr]
      rfl
    rw [hdue]
    simp [link, updateExpired, Db.updateLinks, hr]
  | some row =>
    have hl : (link db id).row = some (rowToMeta id row) := by
      rw [row_link, hr]
      rfl
    rw [pastDue_link (h id row hr) hr]
    cases hdue : isPastDue row now with
    | true =>
      have hactive : row.status = .active := (of_decide_eq_true hdue).1
      rw [if_pos rfl, Link.flip_of_active hl hactive]
      simp [link, updateExpired, Db.updateLinks, hr, hdue, Link.terminate, rowToMeta]
    | false => simp [link, updateExpired, Db.updateLinks, hr, hdue]

theorem link_purgeTerminal (db : Db) (id : LinkId) :
    link (db.deleteCiphertexts fun k ↦ inTerminal db k) id = (link db id).purge := by
  unfold Link.purge
  rw [← isTerminal_link]
  cases ht : inTerminal db id with
  | false => simp [link, Db.deleteCiphertexts, ht]
  | true => simp [link, Db.deleteCiphertexts, ht, Link.withoutBlob]

theorem isPrunable_link {db : Db} {id : LinkId} {row : LinksRow} {before : Timestamptz}
    {cutoff : Instant} (hr : db.links.get? id = some row) (hb : before.val = 1000 * cutoff) :
    isPrunable row before = (link db id).prunable (some cutoff) := by
  have ht : (link db id).isTerminal = isTerminal row := by
    rw [← isTerminal_link, inTerminal, hr]
    rfl
  have hat : (link db id).terminalAt = row.terminal_at.map toDate := by simp [link, hr]
  unfold isPrunable Link.prunable
  rw [ht, hat]
  cases row.terminal_at with
  | none => rfl
  | some at_ =>
    have hlt : at_.val < before.val ↔ toDate at_ < cutoff := by
      unfold toDate
      omega
    have hnot : decide (toDate at_ < cutoff) = !decide (cutoff ≤ toDate at_) := by
      rw [← decide_not]
      exact decide_eq_decide.mpr Int.not_le.symm
    rw [Option.map_some, Option.any_some, Option.any_some, Option.any_some, ← hnot]
    exact congrArg (isTerminal row && ·) (decide_eq_decide.mpr hlt)

theorem pruneTerminal_ok {db db' : Db} {cutoff : Instant} {deleted : Nat}
    (h : pruneTerminal db (some cutoff) = .ok (deleted, db')) :
    (∀ id, link db' id = (link db id).prune (some cutoff)) ∧ (Aligned db → Aligned db') ∧
      deleted = db.links.keys.countP fun id ↦ (link db id).prunable (some cutoff) := by
  obtain ⟨before, hb, h⟩ := bind_ok.mp h
  have hbv := toTimestamptz_ok hb
  cases h
  refine ⟨?_, fun ha ↦ aligned_deleteLinks ha _, ?_⟩
  · intro id
    unfold Link.prune
    cases hr : db.links.get? id with
    | none =>
      have hn : (db.deleteLinks fun _ row ↦ isPrunable row before).links.get? id = none := by
        simp [Db.deleteLinks, hr]
      rw [link_of_absent hn, link_of_absent hr]
      rfl
    | some row =>
      rw [← isPrunable_link hr hbv]
      cases hp : isPrunable row before with
      | true => simp [link, Db.deleteLinks, hr, hp, Link.vacant]
      | false => simp [link, Db.deleteLinks, hr, hp]
  · refine List.countP_congr fun id hid ↦ ?_
    obtain ⟨row, hr⟩ := OrderedMap.mem_keys.mp hid
    rw [← isPrunable_link hr hbv, hr]
    rfl

end Aesmsg.Store.Pg
