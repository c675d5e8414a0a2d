import Mathlib.Algebra.BigOperators.Ring.Finset
import Aesmsg.Store.Operations
import Aesmsg.Store.PgLink

/-!
# The two stores against each other

The same operations, one after the other, on the in-memory stores and on the Postgres stores, with
one instant per operation.  The simulation relation is that both hold the same link under every id.

## Main results

- `exec_agrees`: one operation whose values fit the columns.
- `stores_agree_iff`: the stores answer alike throughout a run exactly when every operation of it
  fits.
-/

namespace Aesmsg.Store

namespace Pg

def exec (retention : Nat) (db : Db) (now : Timestamptz) :
    Operation → Except PgError Reply × Db
  | .create record =>
    match create db record with
    | .error e => (.error e, db)
    | .ok (row, db) => (.ok (.row row), db)
  | .createWithCiphertext record ciphertext putError =>
    match createWithCiphertext db record ciphertext putError with
    | .error e => (.error e, db)
    | .ok (row, db) => (.ok (.row row), db)
  | .get id => (.ok (.row? (get db id)), db)
  | .incrementOpens id =>
    match incrementOpens db id now with
    | .error e => (.error e, db)
    | .ok (row, db) => (.ok (.row? row), db)
  | .revoke id providedTokenHash => (.ok .void, revoke db id providedTokenHash now)
  | .expirePastDue =>
    let (purged, db) := expirePastDue db retention now (toDate now)
    (purged.map .count, db)
  | .pruneTerminal before =>
    match pruneTerminal db before with
    | .error e => (.error e, db)
    | .ok (deleted, db) => (.ok (.count deleted), db)
  | .aggregateStats => (.ok (.stats (aggregateStats db)), db)
  | .adminPurge id =>
    let (result, db) := adminPurge db id now
    (.ok (.purged result), db)
  | .putCiphertext id blob =>
    match putCiphertext db id blob with
    | .error e => (.error e, db)
    | .ok db => (.ok .void, db)
  | .getCiphertext id => (.ok (.blob? (getCiphertext db id)), db)
  | .deleteCiphertext id => (.ok .void, deleteCiphertext db id)
  | .totalBytes => (.ok (.count (totalBytes db).toNat), db)

/-- The answers of a sequence of operations, none for an error, and the tables after it. -/
def replay (retention : Nat) (db : Db) :
    List (Operation × Timestamptz) → List (Option Reply) × Db
  | [] => ([], db)
  | (op, now) :: steps =>
    let (result, db) := exec retention db now op
    let (replies, db) := replay retention db steps
    (result.toOption :: replies, db)

end Pg

/-- The answers of a sequence of operations, none for an error, and the store after it.
`Date.now()` is the instant in whole milliseconds. -/
def MemoryStore.replay (retention : Nat) (s : MemoryStore) :
    List (Operation × Pg.Timestamptz) → List (Option Reply) × MemoryStore
  | [] => ([], s)
  | (op, now) :: steps =>
    let (result, s) := s.exec retention (.at (Pg.toDate now)) op
    let (replies, s) := MemoryStore.replay retention s steps
    (result.toOption :: replies, s)

/-! ## What fits -/

/-- The values of a record that the create handler admits at `now`. -/
def CreateLinkRecord.AdmittedAt (record : CreateLinkRecord) (now : Instant) : Prop :=
  record.Admissible ∧ now < record.expiresAt ∧ record.expiresAt ≤ maxTimeValue

/-- The bounds of the create handler on the bytes of a ciphertext. -/
def ciphertextBounds (blob : List UInt8) : Prop := 32 ≤ blob.length ∧ blob.length ≤ 27262976

/-- The records and ciphertexts of the operation are ones that the create handler admits. -/
def Operation.AdmittedAt (now : Instant) : Operation → Prop
  | .create record => record.AdmittedAt now
  | .createWithCiphertext record ciphertext _ =>
    record.AdmittedAt now ∧ ciphertextBounds ciphertext
  | .putCiphertext _ blob => ciphertextBounds blob
  | _ => True

/-- A retention cutoff that is a valid date and a timestamp of Postgres. -/
def CutoffFits (before : Option Instant) : Prop :=
  ∃ t, before = some t ∧ -210866803200000000 ≤ 1000 * t ∧ 1000 * t < 9223371331200000000

/-- The values that the operation writes fit the columns of Postgres: a new link allows at most
2147483647 opens, a link that is opened has been opened fewer times than that, a ciphertext is put
under an id that has a row, and a cutoff is a timestamp. -/
def Portable (retention : Nat) (s : MemoryStore) (now : Pg.Timestamptz) : Operation → Prop
  | .create record => s.rows.get? record.id = none → record.maxOpens ≤ 2147483647
  | .createWithCiphertext record _ putError =>
    s.rows.get? record.id = none → putError = none → record.maxOpens ≤ 2147483647
  | .incrementOpens id => ∀ row, s.rows.get? id = some row → row.status = .active →
    Pg.toDate now < row.expiresAt → row.opensCount < 2147483647
  | .expirePastDue => CutoffFits (newDate (Pg.toDate now - retention))
  | .pruneTerminal before => CutoffFits before
  | .putCiphertext id _ => ∃ row, s.rows.get? id = some row
  | _ => True

/-- Every operation of the run fits the columns when it is reached. -/
def RunPortable (retention : Nat) (s : MemoryStore) : List (Operation × Pg.Timestamptz) → Prop
  | [] => True
  | (op, now) :: steps => Portable retention s now op ∧
    RunPortable retention (s.exec retention (.at (Pg.toDate now)) op).2 steps

/-! ## The simulation relation -/

/-- The `size` column is the length of the blob. -/
def Pg.Sized (db : Db) : Prop :=
  ∀ id row, db.link_ciphertexts.get? id = some row → row.size.val = row.blob.length

structure Agrees (s : MemoryStore) (db : Pg.Db) : Prop where
  links : s.link = Pg.link db
  aligned : Pg.Aligned db
  sized : Pg.Sized db

theorem agrees_empty : Agrees .empty Pg.Db.empty where
  links := rfl
  aligned := by
    intro id row hr
    cases hr
  sized := by
    intro id row hr
    cases hr

namespace Agrees

variable {s : MemoryStore} {db : Pg.Db}

theorem row (h : Agrees s db) (id : LinkId) :
    s.rows.get? id = (db.links.get? id).map (Pg.rowToMeta id) :=
  congrArg Link.row (congrFun h.links id)

theorem blob (h : Agrees s db) (id : LinkId) :
    s.ciphertexts.get? id = (db.link_ciphertexts.get? id).map (·.blob) :=
  congrArg Link.blob (congrFun h.links id)

theorem absent_iff (h : Agrees s db) {id : LinkId} :
    s.rows.get? id = none ↔ db.links.get? id = none := by
  rw [h.row, Option.map_eq_none_iff]

theorem mem_keys_iff (h : Agrees s db) {id : LinkId} : id ∈ s.rows.keys ↔ id ∈ db.links.keys := by
  rw [← not_iff_not, OrderedMap.notMem_keys, OrderedMap.notMem_keys, h.absent_iff]

/-- The counter of the purge loop is the row count of the `DELETE`. -/
theorem purged_eq (h : Agrees s db) :
    s.purgeRows.2 = db.link_ciphertexts.keys.countP fun id ↦ Pg.inTerminal db id := by
  rw [MemoryStore.purgeRows_snd]
  refine OrderedMap.countP_keys_congr fun id ↦ ?_
  have hl : s.link id = Pg.link db id := congrFun h.links id
  have hb : (Pg.link db id).blob.isSome = true ↔ id ∈ db.link_ciphertexts.keys := by
    rw [OrderedMap.mem_keys, ← Option.isSome_iff_exists]
    exact Iff.of_eq (congrArg (· = true) Option.isSome_map)
  rw [MemoryStore.purges, hl, ← Pg.isTerminal_link, Bool.and_eq_true, hb]
  constructor
  · rintro ⟨-, ht, hk⟩
    exact ⟨hk, ht⟩
  · rintro ⟨hk, ht⟩
    obtain ⟨c, hc⟩ := OrderedMap.mem_keys.mp hk
    exact ⟨h.mem_keys_iff.mpr (OrderedMap.mem_keys.mpr (db.foreign_key id c hc)), ht, hk⟩

theorem totalBytes_eq (h : Agrees s db) : s.totalBytes = (Pg.totalBytes db).toNat := by
  have hsum : ∀ (blobs : List (List UInt8)) n,
      blobs.foldl (fun total blob ↦ total + blob.length) n = n + (blobs.map List.length).sum := by
    intro blobs
    induction blobs with
    | nil => simp
    | cons b blobs ih =>
      intro n
      rw [List.foldl_cons, ih, List.map_cons, List.sum_cons, Nat.add_assoc]
  have hpg : ∀ (rows : List Pg.CiphertextRow) (n : Int),
      rows.foldl (fun total row ↦ total + row.size.val) n =
        n + (rows.map fun row ↦ row.size.val).sum := by
    intro rows
    induction rows with
    | nil => simp
    | cons b rows ih =>
      intro n
      rw [List.foldl_cons, ih, List.map_cons, List.sum_cons, Int.add_assoc]
  have hperm : (s.ciphertexts.values.map fun b ↦ (b.length : Int)).Perm
      (db.link_ciphertexts.values.map fun row ↦ row.size.val) := by
    refine OrderedMap.map_values_perm fun id ↦ ?_
    rw [h.blob]
    cases hc : db.link_ciphertexts.get? id with
    | none => rfl
    | some row => exact congrArg some (h.sized id row hc).symm
  have hcast : ((s.ciphertexts.values.map List.length).sum : Int) =
      (s.ciphertexts.values.map fun b ↦ (b.length : Int)).sum := by
    rw [Nat.cast_list_sum, List.map_map]
    rfl
  unfold MemoryStore.totalBytes Pg.totalBytes
  rw [hsum, hpg, ← hperm.sum_eq, ← hcast, Nat.zero_add, Int.zero_add, Int.toNat_natCast]

theorem stats_eq (h : Agrees s db) : s.aggregateStats = Pg.aggregateStats db := by
  have hperm : (s.rows.values.map (·.status)).Perm (db.links.values.map (·.status)) := by
    refine OrderedMap.map_values_perm fun id ↦ ?_
    rw [h.row, Option.map_map]
    rfl
  have hm : (s.rows.values.filter fun row ↦ row.status = .active).length =
      (s.rows.values.map (·.status)).countP (· = .active) := by
    rw [List.countP_map, ← List.countP_eq_length_filter]
    rfl
  have hp : (db.links.values.filter fun row ↦ row.status = .active).length =
      (db.links.values.map (·.status)).countP (· = .active) := by
    rw [List.countP_map, ← List.countP_eq_length_filter]
    rfl
  unfold MemoryStore.aggregateStats Pg.aggregateStats
  rw [hm, hp, hperm.countP_eq, h.totalBytes_eq]

end Agrees

/-! ## One operation -/

section Sized

variable {db db' : Pg.Db}

theorem Pg.Sized.of_sub (h : Pg.Sized db)
    (hsub : ∀ id row, db'.link_ciphertexts.get? id = some row →
      db.link_ciphertexts.get? id = some row) : Pg.Sized db' :=
  fun id row hr ↦ h id row (hsub id row hr)

theorem Pg.Sized.deleteCiphertexts (h : Pg.Sized db) (p : LinkId → Bool) :
    Pg.Sized (db.deleteCiphertexts p) := by
  refine h.of_sub fun id row hr ↦ ?_
  simp only [Db.deleteCiphertexts, OrderedMap.get?_filterMap, Option.bind_eq_some_iff] at hr
  obtain ⟨r, hr, hrow⟩ := hr
  split at hrow
  · cases hrow
  · cases hrow
    exact hr

theorem Pg.Sized.deleteLinks (h : Pg.Sized db) (p : LinkId → LinksRow → Bool) :
    Pg.Sized (db.deleteLinks p) := by
  refine h.of_sub fun id row hr ↦ ?_
  simp only [Db.deleteLinks, OrderedMap.get?_filterMap, Option.bind_eq_some_iff] at hr
  obtain ⟨r, hr, hrow⟩ := hr
  split at hrow
  · cases hrow
  · cases hrow
    exact hr

theorem Pg.Sized.prune (h : Pg.Sized db) {before : Option Instant} {deleted : Nat}
    (hp : Pg.pruneTerminal db before = .ok (deleted, db')) : Pg.Sized db' := by
  obtain ⟨t, -, hp⟩ := Pg.bind_ok.mp hp
  cases hp
  exact h.deleteLinks _

theorem Pg.Sized.upsert (h : Pg.Sized db) {id : LinkId} {blob : List UInt8}
    (hu : db.upsertCiphertext id blob = .ok db') : Pg.Sized db' := by
  obtain ⟨size, hsize, hu⟩ := Pg.bind_ok.mp hu
  split at hu
  · split at hu
    · cases hu
      intro j row hr
      rw [OrderedMap.get?_set] at hr
      split at hr
      · cases hr
        exact Pg.toInt4_eq_ok.mp hsize
      · exact h j row hr
    · cases hu
  · cases hu

theorem Pg.Sized.create (h : Pg.Sized db) {record : CreateLinkRecord} {row : LinkMetadata}
    (hc : Pg.create db record = .ok (row, db')) : Pg.Sized db' := by
  obtain ⟨new, -, hc⟩ := Pg.bind_ok.mp hc
  obtain ⟨d, hd, hc⟩ := Pg.bind_ok.mp hc
  cases hc
  refine h.of_sub fun id r hr ↦ ?_
  rwa [← (Pg.insertLink_ok hd).2.2]

theorem Pg.Sized.increment (h : Pg.Sized db) {id : LinkId} {now : Pg.Timestamptz}
    {row : Option LinkMetadata} (hi : Pg.incrementOpens db id now = .ok (row, db')) :
    Pg.Sized db' := by
  unfold Pg.incrementOpens at hi
  split at hi
  · cases hi
    exact h
  · split at hi
    · obtain ⟨updated, -, hi⟩ := Pg.bind_ok.mp hi
      cases hi
      split
      · exact Pg.Sized.deleteCiphertexts (show Pg.Sized (db.updateLinks _) from h) _
      · exact h
    · cases hi
      exact h

end Sized

/-- What one operation must do on both sides: answer alike, and stay in the relation. -/
def StepAgrees (retention : Nat) (s : MemoryStore) (db : Pg.Db) (now : Pg.Timestamptz)
    (op : Operation) : Prop :=
  (s.exec retention (.at (Pg.toDate now)) op).1.toOption =
      (Pg.exec retention db now op).1.toOption ∧
    Agrees (s.exec retention (.at (Pg.toDate now)) op).2 (Pg.exec retention db now op).2

section Steps

variable {retention : Nat} {s : MemoryStore} {db : Pg.Db} {now : Pg.Timestamptz}

-- every step below rests on the equations of the two sides
attribute [local simp] MemoryStore.exec Pg.exec

theorem fits_of_admitted {record : CreateLinkRecord} (hadm : record.AdmittedAt (Pg.toDate now))
    (hle : record.maxOpens ≤ 2147483647) : Pg.Fits record where
  expires := by
    have key : ∀ t e : Int, -210866803200000000 ≤ t → t / 1000 < e → e ≤ 8640000000000000 →
        -210866803200000000 ≤ 1000 * e ∧ 1000 * e < 9223371331200000000 := by
      intro t e ht hlt hmax
      omega
    exact key now.val record.expiresAt now.property.1 hadm.2.1 hadm.2.2
  opens := ⟨hadm.1, hle⟩

theorem create_agrees (h : Agrees s db) {record : CreateLinkRecord}
    (hadm : record.AdmittedAt (Pg.toDate now))
    (hport : s.rows.get? record.id = none → record.maxOpens ≤ 2147483647) :
    StepAgrees retention s db now (.create record) := by
  unfold StepAgrees
  simp only [MemoryStore.exec, Pg.exec]
  cases hm : s.create record with
  | error e =>
    obtain ⟨row, hr⟩ := MemoryStore.create_eq_error.mp ⟨e, hm⟩
    cases hp : Pg.create db record with
    | error e' => exact ⟨rfl, h⟩
    | ok result =>
      obtain ⟨-, habs, -⟩ := Pg.create_ok hp
      have hn := h.absent_iff.mpr habs
      rw [MemoryStore.row_link, hn] at hr
      cases hr
  | ok result =>
    obtain ⟨row, s'⟩ := result
    obtain ⟨hn, rfl, hl⟩ := MemoryStore.create_eq_ok hm
    have habs := h.absent_iff.mp hn
    obtain ⟨db', hp⟩ := Pg.create_of_fits (fits_of_admitted hadm (hport hn)) habs
    obtain ⟨-, -, -, hl', halign⟩ := Pg.create_ok hp
    rw [hp]
    exact ⟨rfl, by rw [hl, hl', h.links], halign h.aligned, h.sized.create hp⟩

theorem createWithCiphertext_agrees (h : Agrees s db) {record : CreateLinkRecord}
    {ciphertext : List UInt8} {putError : Option String}
    (hadm : record.AdmittedAt (Pg.toDate now)) (hlen : ciphertextBounds ciphertext)
    (hport : s.rows.get? record.id = none → putError = none → record.maxOpens ≤ 2147483647) :
    StepAgrees retention s db now (.createWithCiphertext record ciphertext putError) := by
  unfold StepAgrees
  have hlink := MemoryStore.link_createWithCiphertext (s := s) record ciphertext putError
  simp only [MemoryStore.exec, Pg.exec]
  cases hm : s.create record with
  | error e =>
    obtain ⟨row, hr⟩ := MemoryStore.create_eq_error.mp ⟨e, hm⟩
    have hp : ∃ e', Pg.createWithCiphertext db record ciphertext putError = .error e' := by
      cases hp : Pg.createWithCiphertext db record ciphertext putError with
      | error e' => exact ⟨e', rfl⟩
      | ok result =>
        obtain ⟨a, hc, -⟩ := Pg.bind_ok.mp hp
        obtain ⟨-, habs, -⟩ := Pg.create_ok hc
        have hn := h.absent_iff.mpr habs
        rw [MemoryStore.row_link, hn] at hr
        cases hr
    obtain ⟨e', hp⟩ := hp
    have hmem : s.createWithCiphertext record ciphertext putError = (.error e, s) := by
      unfold MemoryStore.createWithCiphertext
      rw [hm]
    rw [hp, hmem]
    exact ⟨rfl, h⟩
  | ok result =>
    obtain ⟨row, s'⟩ := result
    obtain ⟨hn, rfl, hl⟩ := MemoryStore.create_eq_ok hm
    have habs := h.absent_iff.mp hn
    rw [hn] at hlink
    cases putError with
    | some e =>
      have hp : ∃ e', Pg.createWithCiphertext db record ciphertext (some e) = .error e' := by
        unfold Pg.createWithCiphertext
        cases Pg.create db record with
        | error e' => exact ⟨e', rfl⟩
        | ok result => exact ⟨.failed e, rfl⟩
      obtain ⟨e', hp⟩ := hp
      have hmem : (s.createWithCiphertext record ciphertext (some e)).1 = .error e := by
        unfold MemoryStore.createWithCiphertext
        rw [hm]
      have hvac : ((s.link record.id).insert record).rollback = s.link record.id := by
        rw [h.links, Pg.link_of_absent habs]
        rfl
      rw [hp, hmem]
      refine ⟨rfl, ?_, h.aligned, h.sized⟩
      refine Eq.trans ?_ h.links
      rw [hlink]
      exact (congrArg _ hvac).trans (Function.update_eq_self _ _)
    | none =>
      obtain ⟨db₁, hc⟩ := Pg.create_of_fits (fits_of_admitted hadm (hport hn rfl)) habs
      obtain ⟨-, -, -, hl₁, halign⟩ := Pg.create_ok hc
      have hrow : ∃ r, db₁.links.get? record.id = some r := by
        have hr := congrArg Link.row (congrFun hl₁ record.id)
        rw [Function.update_self, Pg.row_link] at hr
        obtain ⟨r, hr, -⟩ := Option.map_eq_some_iff.mp hr
        exact ⟨r, hr⟩
      obtain ⟨r, hr⟩ := hrow
      obtain ⟨db₂, hu⟩ := Pg.upsertCiphertext_of_present hr (Nat.le_trans hlen.2 (by decide : 27262976 ≤ 2147483647))
      obtain ⟨hlinks, hl₂⟩ := Pg.upsertCiphertext_ok hu
      have hp : Pg.createWithCiphertext db record ciphertext none = .ok (record.meta, db₂) := by
        unfold Pg.createWithCiphertext
        rw [hc]
        simp only [bind, Except.bind, hu]
        rfl
      have hmem : (s.createWithCiphertext record ciphertext none).1 = .ok record.meta := by
        unfold MemoryStore.createWithCiphertext
        rw [hm]
      rw [hp, hmem]
      refine ⟨rfl, ?_, ?_, (h.sized.create hc).upsert hu⟩
      · refine hlink.trans ?_
        rw [hl₂, hl₁, Function.update_self, Function.update_idem, h.links]
        rfl
      · intro j row hj
        exact halign h.aligned j row (hlinks ▸ hj)

theorem incrementOpens_agrees (h : Agrees s db) {id : LinkId}
    (hport : ∀ row, s.rows.get? id = some row → row.status = .active →
      Pg.toDate now < row.expiresAt → row.opensCount < 2147483647) :
    StepAgrees retention s db now (.incrementOpens id) := by
  unfold StepAgrees
  simp only [MemoryStore.exec, Pg.exec]
  have hlt : ∀ row, db.links.get? id = some row → row.status = .active →
      now.val < row.expires_at.val → row.opens_count.val < 2147483647 := by
    intro row hr ha hn
    have hm : s.rows.get? id = some (Pg.rowToMeta id row) := by
      rw [h.row, hr]
      rfl
    have hnn := row.opens_count_check
    have := hport _ hm ha ((Pg.toDate_lt_iff (h.aligned id row hr) now).mpr hn)
    have hc : (Pg.rowToMeta id row).opensCount = row.opens_count.val.toNat := rfl
    omega
  obtain ⟨⟨row, db'⟩, hp⟩ := Pg.incrementOpens_of_lt hlt
  obtain ⟨hrow, hl, ha⟩ := Pg.incrementOpens_ok h.aligned hp
  rw [hp, MemoryStore.incrementOpens_fst, hrow, congrFun h.links id]
  refine ⟨rfl, ?_, ha, h.sized.increment hp⟩
  rw [MemoryStore.link_incrementOpens, hl, h.links]
  rfl

theorem pruneTerminal_agrees (h : Agrees s db) {before : Option Instant}
    (hport : CutoffFits before) : ∃ deleted db', Pg.pruneTerminal db before = .ok (deleted, db') ∧
      (s.pruneTerminal before).1 = deleted ∧ Agrees (s.pruneTerminal before).2 db' := by
  obtain ⟨t, rfl, hrange⟩ := hport
  have hb : Pg.toTimestamptz (some t) = .ok ⟨1000 * t, hrange⟩ := dif_pos hrange
  have hp : ∃ result, Pg.pruneTerminal db (some t) = .ok result := by
    unfold Pg.pruneTerminal
    rw [hb]
    exact ⟨_, rfl⟩
  obtain ⟨⟨deleted, db'⟩, hp⟩ := hp
  obtain ⟨hl, halign, hcount⟩ := Pg.pruneTerminal_ok hp
  refine ⟨deleted, db', hp, ?_, ?_, halign h.aligned, ?_⟩
  · rw [MemoryStore.pruneTerminal_fst, hcount]
    refine OrderedMap.countP_keys_congr fun id ↦ ?_
    rw [h.mem_keys_iff, congrFun h.links id]
  · funext id
    rw [MemoryStore.link_pruneTerminal, hl, h.links]
  · exact h.sized.prune hp

/-- The first two statements of the sweep. -/
theorem purgeRows_agrees (h : Agrees s db) (now : Pg.Timestamptz) :
    Agrees (s.expireRows (.at (Pg.toDate now))).purgeRows.1
      ((Pg.updateExpired db now).deleteCiphertexts fun id ↦
        Pg.inTerminal (Pg.updateExpired db now) id) ∧
    (s.expireRows (.at (Pg.toDate now))).purgeRows.2 =
      (Pg.updateExpired db now).link_ciphertexts.keys.countP fun id ↦
        Pg.inTerminal (Pg.updateExpired db now) id := by
  have halign : Pg.Aligned (Pg.updateExpired db now) :=
    Pg.aligned_updateLinks h.aligned fun k row ↦ by
      split
      · rfl
      · rfl
  have hexp : Agrees (s.expireRows (.at (Pg.toDate now))) (Pg.updateExpired db now) := by
    refine ⟨?_, halign, h.sized⟩
    funext id
    rw [MemoryStore.link_expireRows, Pg.link_updateExpired h.aligned, h.links]
    rfl
  refine ⟨⟨?_, halign, hexp.sized.deleteCiphertexts _⟩, hexp.purged_eq⟩
  funext id
  rw [MemoryStore.link_purgeRows, Pg.link_purgeTerminal, hexp.links]

theorem expirePastDue_agrees (h : Agrees s db)
    (hport : CutoffFits (newDate (Pg.toDate now - retention))) :
    StepAgrees retention s db now .expirePastDue := by
  obtain ⟨hpurge, hcount⟩ := purgeRows_agrees h now
  obtain ⟨deleted, db', hp, -, hagree⟩ := pruneTerminal_agrees hpurge hport
  unfold StepAgrees
  simp only [MemoryStore.exec, Pg.exec, MemoryStore.expirePastDue, Pg.expirePastDue]
  rw [hp]
  exact ⟨congrArg (fun n ↦ some (Reply.count n)) hcount, hagree⟩

/-- An operation whose values fit the columns is answered alike and keeps the relation. -/
theorem exec_agrees (h : Agrees s db) {op : Operation} (hadm : op.AdmittedAt (Pg.toDate now))
    (hport : Portable retention s now op) : StepAgrees retention s db now op := by
  cases op with
  | create record => exact create_agrees h hadm hport
  | createWithCiphertext record ciphertext putError =>
    exact createWithCiphertext_agrees h hadm.1 hadm.2 hport
  | get id => exact ⟨congrArg (fun row ↦ some (Reply.row? row)) (h.row id), h⟩
  | incrementOpens id => exact incrementOpens_agrees h hport
  | revoke id providedTokenHash =>
    refine ⟨rfl, ?_, Pg.aligned_revoke h.aligned id providedTokenHash now, ?_⟩
    · simp only [MemoryStore.exec, Pg.exec]
      rw [MemoryStore.link_revoke, Pg.link_revoke, h.links]
      rfl
    · simp only [Pg.exec, Pg.revoke]
      split
      · exact h.sized
      · split
        · exact h.sized
        · split
          · exact Pg.Sized.deleteCiphertexts (show Pg.Sized (Pg.updateRevoked db id now) from h.sized) _
          · exact h.sized
  | expirePastDue => exact expirePastDue_agrees h hport
  | pruneTerminal before =>
    obtain ⟨deleted, db', hp, hcount, hagree⟩ := pruneTerminal_agrees h hport
    unfold StepAgrees
    simp only [MemoryStore.exec, Pg.exec]
    rw [hp]
    exact ⟨congrArg (fun n ↦ some (Reply.count n)) hcount, hagree⟩
  | aggregateStats => exact ⟨congrArg (fun x ↦ some (Reply.stats x)) h.stats_eq, h⟩
  | adminPurge id =>
    refine ⟨?_, ?_, Pg.aligned_adminPurge h.aligned id now, ?_⟩
    · have hm := MemoryStore.adminPurge_fst s id (.at (Pg.toDate now))
      have hp := Pg.adminPurge_fst db id now
      simp only [MemoryStore.exec, Pg.exec]
      rw [hm, hp, h.links]
      rfl
    · simp only [MemoryStore.exec, Pg.exec]
      rw [MemoryStore.link_adminPurge, Pg.link_adminPurge, h.links]
      rfl
    · simp only [Pg.exec, Pg.adminPurge]
      refine Pg.Sized.deleteCiphertexts ?_ _
      split
      · exact h.sized
      · exact h.sized
  | putCiphertext id blob =>
    obtain ⟨row, hr⟩ := hport
    have hrow : ∃ r, db.links.get? id = some r := by
      rw [h.row] at hr
      obtain ⟨r, hr, -⟩ := Option.map_eq_some_iff.mp hr
      exact ⟨r, hr⟩
    obtain ⟨r, hr⟩ := hrow
    obtain ⟨db', hu⟩ := Pg.upsertCiphertext_of_present hr (Nat.le_trans hadm.2 (by decide : 27262976 ≤ 2147483647))
    obtain ⟨hlinks, hl⟩ := Pg.upsertCiphertext_ok hu
    have hp : Pg.exec retention db now (.putCiphertext id blob) = (.ok .void, db') := by
      simp only [Pg.exec, Pg.putCiphertext, hu]
    unfold StepAgrees
    rw [hp]
    refine ⟨rfl, ?_, fun j row' hj ↦ h.aligned j row' (hlinks ▸ hj), h.sized.upsert hu⟩
    simp only [MemoryStore.exec]
    rw [MemoryStore.link_put, hl, h.links]
  | getCiphertext id => exact ⟨congrArg (fun b ↦ some (Reply.blob? b)) (h.blob id), h⟩
  | deleteCiphertext id =>
    refine ⟨rfl, ?_, h.aligned, h.sized.deleteCiphertexts _⟩
    simp only [MemoryStore.exec, Pg.exec]
    rw [MemoryStore.link_deleteCiphertext, Pg.link_deleteCiphertext, h.links]
  | totalBytes => exact ⟨congrArg (fun n ↦ some (Reply.count n)) h.totalBytes_eq, h⟩

/-- An operation that does not fit succeeds in memory and fails in Postgres. -/
theorem exec_disagrees (h : Agrees s db) {op : Operation} (hadm : op.AdmittedAt (Pg.toDate now))
    (hport : ¬Portable retention s now op) :
    (s.exec retention (.at (Pg.toDate now)) op).1.toOption ≠ none ∧
      (Pg.exec retention db now op).1.toOption = none := by
  have cutoff : ∀ before, ¬CutoffFits before → ∀ d, ∃ e, Pg.pruneTerminal d before = .error e := by
    intro before hn d
    cases hp : Pg.pruneTerminal d before with
    | error e => exact ⟨e, rfl⟩
    | ok result =>
      obtain ⟨u, hu, -⟩ := Pg.bind_ok.mp hp
      cases before with
      | none => cases hu
      | some t =>
        have hv := Pg.toTimestamptz_ok hu
        have hrange := u.property
        rw [hv] at hrange
        exact absurd ⟨t, rfl, hrange⟩ hn
  have create : ∀ record : CreateLinkRecord, ¬record.maxOpens ≤ 2147483647 →
      ∃ e, Pg.create db record = .error e := by
    intro record hn
    cases hp : Pg.create db record with
    | error e => exact ⟨e, rfl⟩
    | ok result => exact absurd (Pg.create_ok hp).1.opens.2 hn
  cases op with
  | create record =>
    obtain ⟨habs, hn⟩ := Classical.not_imp.mp hport
    obtain ⟨e, hp⟩ := create record hn
    have hm : s.rows.has record.id = false := OrderedMap.has_eq_false.mpr habs
    refine ⟨?_, ?_⟩
    · simp only [MemoryStore.exec, MemoryStore.create, hm]
      exact Option.some_ne_none _
    · simp only [Pg.exec, hp]
      rfl
  | createWithCiphertext record ciphertext putError =>
    obtain ⟨habs, hrest⟩ := Classical.not_imp.mp hport
    obtain ⟨rfl, hn⟩ := Classical.not_imp.mp hrest
    obtain ⟨e, hp⟩ := create record hn
    have hm : s.rows.has record.id = false := OrderedMap.has_eq_false.mpr habs
    refine ⟨?_, ?_⟩
    · simp only [MemoryStore.exec, MemoryStore.createWithCiphertext, MemoryStore.create, hm]
      exact Option.some_ne_none _
    · simp only [Pg.exec, Pg.createWithCiphertext, hp]
      rfl
  | incrementOpens id =>
    refine ⟨Option.some_ne_none _, ?_⟩
    have hlive : ∃ row, s.rows.get? id = some row ∧ row.status = .active ∧
        Pg.toDate now < row.expiresAt ∧ ¬row.opensCount < 2147483647 := by
      by_contra hno
      exact hport fun row hr ha hlt ↦ by_contra fun hc ↦ hno ⟨row, hr, ha, hlt, hc⟩
    obtain ⟨row, hr, ha, hlt, hc⟩ := hlive
    rw [h.row] at hr
    obtain ⟨r, hrow, rfl⟩ := Option.map_eq_some_iff.mp hr
    have hn := (Pg.toDate_lt_iff (h.aligned id r hrow) now).mp hlt
    have hopen : ∃ e, Pg.opened r now = .error e := by
      cases ho : Pg.opened r now with
      | error e => exact ⟨e, rfl⟩
      | ok updated =>
        obtain ⟨count, hcount, -⟩ := Pg.bind_ok.mp ho
        have hval := Pg.toInt4_eq_ok.mp hcount
        have hle := count.property.2
        have hcount' : (Pg.rowToMeta id r).opensCount = r.opens_count.val.toNat := rfl
        omega
    obtain ⟨e, ho⟩ := hopen
    have hlive : r.status = .active ∧ now.val < r.expires_at.val := ⟨ha, hn⟩
    have hp : Pg.incrementOpens db id now = .error e := by
      unfold Pg.incrementOpens
      simp only [hrow, hlive, and_self, if_true, ho, bind, Except.bind]
    simp only [Pg.exec, hp]
    rfl
  | expirePastDue =>
    refine ⟨Option.some_ne_none _, ?_⟩
    obtain ⟨e, hp⟩ := cutoff _ hport
      ((Pg.updateExpired db now).deleteCiphertexts fun id ↦
        Pg.inTerminal (Pg.updateExpired db now) id)
    simp only [Pg.exec, Pg.expirePastDue]
    rw [hp]
    rfl
  | pruneTerminal before =>
    refine ⟨Option.some_ne_none _, ?_⟩
    obtain ⟨e, hp⟩ := cutoff before hport db
    simp only [Pg.exec, hp]
    rfl
  | putCiphertext id blob =>
    refine ⟨Option.some_ne_none _, ?_⟩
    have habs : s.rows.get? id = none :=
      Option.eq_none_iff_forall_ne_some.mpr fun row hr ↦ hport ⟨row, hr⟩
    obtain ⟨e, hp⟩ := Pg.upsertCiphertext_of_absent blob (h.absent_iff.mp habs)
    simp only [Pg.exec, Pg.putCiphertext, hp]
    rfl
  | get | revoke | aggregateStats | adminPurge | getCiphertext | deleteCiphertext | totalBytes =>
    exact absurd trivial hport

end Steps

/-! ## Runs -/

theorem replay_agrees {retention : Nat} {s : MemoryStore} {db : Pg.Db} (h : Agrees s db)
    {steps : List (Operation × Pg.Timestamptz)}
    (hadm : ∀ step ∈ steps, step.1.AdmittedAt (Pg.toDate step.2)) :
    ((s.replay retention steps).1 = (Pg.replay retention db steps).1 ↔
      RunPortable retention s steps) ∧
    (RunPortable retention s steps →
      Agrees (s.replay retention steps).2 (Pg.replay retention db steps).2) := by
  induction steps generalizing s db with
  | nil => exact ⟨⟨fun _ ↦ trivial, fun _ ↦ rfl⟩, fun _ ↦ h⟩
  | cons step steps ih =>
    obtain ⟨op, now⟩ := step
    obtain ⟨hop, hrest⟩ := List.forall_mem_cons.mp hadm
    by_cases hport : Portable retention s now op
    · obtain ⟨hreply, hagree⟩ := exec_agrees h hop hport
      obtain ⟨hiff, hstate⟩ := ih hagree hrest
      refine ⟨⟨fun heq ↦ ⟨hport, hiff.mp (List.cons.inj heq).2⟩, ?_⟩, fun hrun ↦ hstate hrun.2⟩
      rintro ⟨-, hrun⟩
      exact congrArg₂ List.cons hreply (hiff.mpr hrun)
    · obtain ⟨hsome, hnone⟩ := exec_disagrees h hop hport
      refine ⟨⟨fun heq ↦ ?_, fun hrun ↦ absurd hrun.1 hport⟩, fun hrun ↦ absurd hrun.1 hport⟩
      exact absurd ((List.cons.inj heq).1.trans hnone) hsome

/-- The two stores, started empty, succeed with the same results or fail together at every step and
hold the same links at the end, exactly for the runs whose operations all fit the columns. -/
theorem stores_agree_iff (retention : Nat) (steps : List (Operation × Pg.Timestamptz))
    (hadm : ∀ step ∈ steps, step.1.AdmittedAt (Pg.toDate step.2)) :
    ((MemoryStore.empty.replay retention steps).1 = (Pg.replay retention .empty steps).1 ∧
      (MemoryStore.empty.replay retention steps).2.link =
        Pg.link (Pg.replay retention .empty steps).2) ↔
    RunPortable retention .empty steps := by
  obtain ⟨hiff, hstate⟩ := replay_agrees agrees_empty hadm
  constructor
  · rintro ⟨heq, -⟩
    exact hiff.mp heq
  · intro hrun
    exact ⟨hiff.mpr hrun, (hstate hrun).links⟩

/-- A link for two opens, opened once and swept after its expiry. -/
def portableSteps : List (Operation × Pg.Timestamptz) :=
  [(.createWithCiphertext ⟨"AAAAAAAAAAAAAAAA", 2000, 2, some "00ff"⟩ (List.replicate 32 7) none,
      ⟨1000000, by decide⟩),
    (.incrementOpens "AAAAAAAAAAAAAAAA", ⟨1500999, by decide⟩),
    (.expirePastDue, ⟨2000000, by decide⟩)]

theorem stores_agree_sample :
    (MemoryStore.empty.replay 5 portableSteps).1 = (Pg.replay 5 .empty portableSteps).1 ∧
      (MemoryStore.empty.replay 5 portableSteps).2.link =
        Pg.link (Pg.replay 5 .empty portableSteps).2 := by
  refine (stores_agree_iff 5 portableSteps ?_).mpr ?_
  · intro step hstep
    rcases List.mem_cons.mp hstep with rfl | hstep
    · exact ⟨⟨.inr (by decide), by decide, by decide⟩, by decide, by decide⟩
    · rcases List.mem_cons.mp hstep with rfl | hstep
      · exact trivial
      · obtain rfl := List.mem_singleton.mp hstep
        exact trivial
  · refine ⟨fun _ _ ↦ by decide, ?_, ⟨1995, by decide, by decide, by decide⟩, trivial⟩
    rintro row ⟨⟩ - -
    decide

/-- A link for 2147483648 opens. -/
def overflowSteps : List (Operation × Pg.Timestamptz) :=
  [(.createWithCiphertext ⟨"AAAAAAAAAAAAAAAA", 2000, 2147483648, some "00ff"⟩
      (List.replicate 32 7) none, ⟨1000000, by decide⟩)]

/-- The in-memory store keeps a link whose `maxOpens` is no Postgres integer. -/
theorem overflow_disagrees :
    (∀ step ∈ overflowSteps, step.1.AdmittedAt (Pg.toDate step.2)) ∧
      (MemoryStore.empty.replay 0 overflowSteps).1 =
        [some (.row ⟨"AAAAAAAAAAAAAAAA", .active, none, 2000, 2147483648, 0⟩)] ∧
      (Pg.replay 0 .empty overflowSteps).1 = [none] := by
  refine ⟨?_, by decide, by decide⟩
  intro step hstep
  obtain rfl := List.mem_singleton.mp hstep
  exact ⟨⟨.inr (by decide), by decide, by decide⟩, by decide, by decide⟩

end Aesmsg.Store
