import Aesmsg.Store.Types

/-!
# The life of one link

What a store holds for one id, and what each operation does to it: the abstract model that both
stores refine.  A link is vacant, or has a row that is active until it is revoked, exhausted or
expired; a terminal row stays until it is pruned.

## Main results

- `Link.Valid`: the representation invariant of one link, kept by every operation.
-/

namespace Aesmsg.Store

/-- The row after one more open.  The last allowed open exhausts a bounded link. -/
def LinkMetadata.opened (row : LinkMetadata) : LinkMetadata :=
  let newCount := row.opensCount + 1
  { row with
    opensCount := newCount
    status := if row.maxOpens ≠ -1 ∧ row.maxOpens ≤ newCount then .expired else row.status }

/-- What `create` and `createWithCiphertext` are called with. -/
def CreateLinkRecord.Admissible (record : CreateLinkRecord) : Prop :=
  record.maxOpens = -1 ∨ 0 < record.maxOpens

instance (record : CreateLinkRecord) : Decidable record.Admissible := instDecidableOr

structure Link where
  row : Option LinkMetadata
  hash : Option (Option String)
  terminalAt : Option Instant
  blob : Option (List UInt8)
deriving DecidableEq, Repr

namespace Link

def vacant : Link := ⟨none, none, none, none⟩

/-! ## Operations -/

def insert (l : Link) (record : CreateLinkRecord) : Link :=
  { l with row := some record.meta, hash := some record.revocationTokenHash }

def withBlob (l : Link) (blob : List UInt8) : Link := { l with blob := some blob }

def withoutBlob (l : Link) : Link := { l with blob := none }

def rollback (l : Link) : Link := { l with row := none, hash := none }

/-- Move the row to a terminal status. -/
def terminate (l : Link) (row : LinkMetadata) (status : LinkStatus) (stamp : Instant) : Link :=
  { l with row := some { row with status := status }, terminalAt := some stamp }

/-- The row that `incrementOpens` returns. -/
def openedRow (l : Link) (now : Instant) : Option LinkMetadata :=
  (l.row.filter fun row ↦ row.status = .active ∧ now < row.expiresAt).map LinkMetadata.opened

def increment (l : Link) (now stamp : Instant) : Link :=
  match l.openedRow now with
  | none => l
  | some row =>
    if row.status = .expired then { l with row := some row, terminalAt := some stamp, blob := none }
    else { l with row := some row }

/-- Whether `revoke` takes effect. -/
def revocable (l : Link) (providedTokenHash : Option String) : Bool :=
  l.row.any (·.status = .active) && revokeAllowed (l.hash.getD none) providedTokenHash

def flip (l : Link) (status : LinkStatus) (stamp : Instant) : Link :=
  match l.row with
  | none => l
  | some row => if row.status = .active then l.terminate row status stamp else l

def revoke (l : Link) (providedTokenHash : Option String) (stamp : Instant) : Link :=
  if l.revocable providedTokenHash then (l.flip .revoked stamp).withoutBlob else l

/-- Whether the row is active and past its expiry. -/
def pastDue (l : Link) (now : Instant) : Bool :=
  l.row.any fun row ↦ row.status = .active ∧ row.expiresAt ≤ now

def expire (l : Link) (now stamp : Instant) : Link :=
  if l.pastDue now then l.flip .expired stamp else l

def isTerminal (l : Link) : Bool := l.row.any (·.isTerminal)

/-- Drop the blob of a terminal row. -/
def purge (l : Link) : Link := if l.isTerminal then l.withoutBlob else l

def prunable (l : Link) (before : Option Instant) : Bool :=
  l.isTerminal && l.terminalAt.any fun at_ ↦ !before.any (· ≤ at_)

def prune (l : Link) (before : Option Instant) : Link := if l.prunable before then vacant else l

/-- `expirePastDue` on one link. -/
def sweep (l : Link) (now stamp : Instant) (before : Option Instant) : Link :=
  ((l.expire now stamp).purge).prune before

def adminPurge (l : Link) (stamp : Instant) : Link := (l.flip .revoked stamp).withoutBlob

/-! ## What the operations leave alone -/

section Frame

variable (l : Link)

theorem flip_of_active {l : Link} {row : LinkMetadata} (h : l.row = some row)
    (ha : row.status = .active) (status : LinkStatus) (stamp : Instant) :
    l.flip status stamp = l.terminate row status stamp := by
  unfold flip
  rw [h]
  exact if_pos ha

theorem flip_of_not_active {l : Link} (h : ∀ row, l.row = some row → row.status ≠ .active)
    (status : LinkStatus) (stamp : Instant) : l.flip status stamp = l := by
  unfold flip
  cases hr : l.row with
  | none => rfl
  | some row => exact if_neg (h row hr)

@[simp] theorem hash_flip (status : LinkStatus) (stamp : Instant) :
    (l.flip status stamp).hash = l.hash := by
  unfold flip
  split
  · rfl
  · split <;> rfl

@[simp] theorem blob_flip (status : LinkStatus) (stamp : Instant) :
    (l.flip status stamp).blob = l.blob := by
  unfold flip
  split
  · rfl
  · split <;> rfl

end Frame

theorem openedRow_eq_some {l : Link} {now : Instant} {row : LinkMetadata} :
    l.openedRow now = some row ↔
      ∃ r, l.row = some r ∧ r.status = .active ∧ now < r.expiresAt ∧ r.opened = row := by
  unfold openedRow
  rw [Option.map_eq_some_iff]
  constructor
  · rintro ⟨r, hr, rfl⟩
    rw [Option.filter_eq_some_iff] at hr
    obtain ⟨hr, hp⟩ := hr
    obtain ⟨ha, hn⟩ := of_decide_eq_true hp
    exact ⟨r, hr, ha, hn, rfl⟩
  · rintro ⟨r, hr, ha, hn, rfl⟩
    exact ⟨r, Option.filter_eq_some_iff.mpr ⟨hr, decide_eq_true ⟨ha, hn⟩⟩, rfl⟩

theorem openedRow_eq_none {l : Link} {now : Instant} :
    l.openedRow now = none ↔
      ∀ row, l.row = some row → row.status = .active → row.expiresAt ≤ now := by
  constructor
  · intro ho row hr ha
    refine Int.not_lt.mp fun hn ↦ ?_
    have hs := openedRow_eq_some.mpr ⟨row, hr, ha, hn, rfl⟩
    rw [ho] at hs
    cases hs
  · intro h
    rw [Option.eq_none_iff_forall_ne_some]
    intro row ho
    obtain ⟨r, hr, ha, hn, -⟩ := openedRow_eq_some.mp ho
    exact Int.not_le.mpr hn (h r hr ha)

theorem pastDue_iff {l : Link} {now : Instant} :
    l.pastDue now = true ↔
      ∃ row, l.row = some row ∧ row.status = .active ∧ row.expiresAt ≤ now := by
  simp [pastDue, Option.any_eq_true]

theorem isTerminal_iff {l : Link} :
    l.isTerminal = true ↔ ∃ row, l.row = some row ∧ row.status ≠ .active := by
  simp [isTerminal, Option.any_eq_true, LinkMetadata.isTerminal_iff]

/-- The representation invariant of one link. -/
structure Valid (l : Link) : Prop where
  /-- `maxOpens` is `-1` or positive. -/
  bounds : ∀ row, l.row = some row → row.maxOpens = -1 ∨ 0 < row.maxOpens
  /-- A bounded row has not been opened more often than allowed, and an active one less often. -/
  opens : ∀ row, l.row = some row → row.maxOpens ≠ -1 →
    row.opensCount ≤ row.maxOpens ∧ (row.status = .active → row.opensCount < row.maxOpens)
  /-- The time of the terminal transition is known exactly for the terminal rows. -/
  stamped : l.terminalAt.isSome = true ↔ ∃ row, l.row = some row ∧ row.status ≠ .active
  /-- There is a token hash only for a row. -/
  hashed : l.hash.isSome = true → l.row.isSome = true
  /-- There is a ciphertext only for an active row. -/
  stored : l.blob.isSome = true → ∃ row, l.row = some row ∧ row.status = .active

theorem valid_vacant : vacant.Valid where
  bounds := nofun
  opens := nofun
  stamped := by simp [vacant]
  hashed := by simp [vacant]
  stored := by simp [vacant]

theorem Valid.withoutBlob {l : Link} (h : l.Valid) : l.withoutBlob.Valid where
  bounds := h.bounds
  opens := h.opens
  stamped := h.stamped
  hashed := h.hashed
  stored := nofun

theorem Valid.withBlob {l : Link} (h : l.Valid) {row : LinkMetadata} (hr : l.row = some row)
    (ha : row.status = .active) (blob : List UInt8) : (l.withBlob blob).Valid where
  bounds := h.bounds
  opens := h.opens
  stamped := h.stamped
  hashed := h.hashed
  stored := fun _ ↦ ⟨row, hr, ha⟩

theorem Valid.insert {l : Link} (h : l.Valid) (hv : l.row = none) {record : CreateLinkRecord}
    (hb : record.Admissible) : (l.insert record).Valid where
  bounds := by
    rintro row ⟨⟩
    exact hb
  opens := by
    rintro row ⟨⟩ hm
    have hpos : 0 < record.maxOpens := hb.resolve_left hm
    exact ⟨Int.le_of_lt hpos, fun _ ↦ hpos⟩
  stamped := by
    have hn : ¬l.terminalAt.isSome = true := fun ht ↦ by
      obtain ⟨row, hr, -⟩ := h.stamped.mp ht
      rw [hv] at hr
      cases hr
    refine ⟨fun ht ↦ absurd ht hn, ?_⟩
    rintro ⟨row, ⟨⟩, ha⟩
    exact absurd rfl ha
  hashed := fun _ ↦ rfl
  stored := fun _ ↦ ⟨_, rfl, rfl⟩

theorem Valid.rollback_insert {l : Link} (h : l.Valid) (hv : l.row = none)
    (record : CreateLinkRecord) : ((l.insert record).rollback).Valid where
  bounds := nofun
  opens := nofun
  stamped := by
    have hs := h.stamped
    rw [hv] at hs
    exact hs
  hashed := nofun
  stored := fun hb ↦ by
    obtain ⟨row, hr, -⟩ := h.stored hb
    rw [hv] at hr
    cases hr

theorem Valid.terminate {l : Link} (h : l.Valid) {row : LinkMetadata} (hr : l.row = some row)
    {status : LinkStatus} (hs : status ≠ .active) (stamp : Instant) :
    (l.terminate row status stamp).withoutBlob.Valid where
  bounds := by
    rintro _ ⟨⟩
    exact h.bounds row hr
  opens := by
    rintro _ ⟨⟩ hm
    exact ⟨(h.opens row hr hm).1, fun ha ↦ absurd ha hs⟩
  stamped := ⟨fun _ ↦ ⟨_, rfl, hs⟩, fun _ ↦ rfl⟩
  hashed := fun _ ↦ rfl
  stored := nofun

theorem Valid.flip {l : Link} (h : l.Valid) {status : LinkStatus} (hs : status ≠ .active)
    (stamp : Instant) : (l.flip status stamp).withoutBlob.Valid := by
  unfold Link.flip
  split
  · exact h.withoutBlob
  · rename_i row hr
    split
    · exact h.terminate hr hs stamp
    · exact h.withoutBlob

theorem Valid.revoke {l : Link} (h : l.Valid) (providedTokenHash : Option String)
    (stamp : Instant) : (l.revoke providedTokenHash stamp).Valid := by
  unfold Link.revoke
  split
  · exact h.flip (by decide) stamp
  · exact h

theorem Valid.adminPurge {l : Link} (h : l.Valid) (stamp : Instant) : (l.adminPurge stamp).Valid :=
  h.flip (by decide) stamp

theorem Valid.increment {l : Link} (h : l.Valid) (now stamp : Instant) :
    (l.increment now stamp).Valid := by
  unfold Link.increment
  cases ho : l.openedRow now with
  | none => exact h
  | some row =>
    obtain ⟨r, hr, ha, -, rfl⟩ := openedRow_eq_some.mp ho
    have hb : r.opened.maxOpens = -1 ∨ 0 < r.opened.maxOpens := h.bounds r hr
    have hle : r.maxOpens ≠ -1 → (r.opensCount : Int) + 1 ≤ r.maxOpens := fun hm ↦
      (h.opens r hr hm).2 ha
    -- the open exhausts the link exactly when it reaches the bound
    by_cases hx : r.maxOpens ≠ -1 ∧ r.maxOpens ≤ (r.opensCount + 1 : Nat)
    · have hs : r.opened.status = .expired := if_pos hx
      simp only [hs, if_true]
      refine ⟨?_, ?_, ?_, fun _ ↦ rfl, nofun⟩
      · rintro _ ⟨⟩
        exact hb
      · rintro _ ⟨⟩ hm
        exact ⟨hle hm, fun hact ↦ absurd (hs.symm.trans hact) (by decide)⟩
      · exact ⟨fun _ ↦ ⟨_, rfl, by rw [hs]; decide⟩, fun _ ↦ rfl⟩
    · have hs : r.opened.status = .active := (if_neg hx).trans ha
      have hne : ¬r.opened.status = .expired := by
        rw [hs]
        decide
      simp only [hne, if_false]
      refine ⟨?_, ?_, ?_, fun _ ↦ rfl, fun _ ↦ ⟨_, rfl, hs⟩⟩
      · rintro _ ⟨⟩
        exact hb
      · rintro _ ⟨⟩ hm
        exact ⟨hle hm, fun _ ↦ Int.not_le.mp fun hge ↦ hx ⟨hm, hge⟩⟩
      · constructor
        · intro ht
          obtain ⟨row, hrow, hnot⟩ := h.stamped.mp ht
          rw [hr] at hrow
          cases hrow
          exact absurd ha hnot
        · rintro ⟨_, ⟨⟩, hnot⟩
          exact absurd hs hnot

theorem Valid.expire_purge {l : Link} (h : l.Valid) (now stamp : Instant) :
    ((l.expire now stamp).purge).Valid := by
  unfold Link.expire
  split
  · rename_i hd
    obtain ⟨row, hr, ha, -⟩ := pastDue_iff.mp hd
    have ht : (l.flip .expired stamp).isTerminal = true := by
      rw [flip_of_active hr ha]
      exact isTerminal_iff.mpr ⟨_, rfl, LinkStatus.noConfusion⟩
    unfold Link.purge
    rw [if_pos ht]
    exact h.flip (by decide) stamp
  · unfold Link.purge
    split
    · exact h.withoutBlob
    · exact h

theorem Valid.prune {l : Link} (h : l.Valid) (before : Option Instant) : (l.prune before).Valid := by
  unfold Link.prune
  split
  · exact valid_vacant
  · exact h

theorem Valid.sweep {l : Link} (h : l.Valid) (now stamp : Instant) (before : Option Instant) :
    (l.sweep now stamp before).Valid := (h.expire_purge now stamp).prune before

/-! ## Terminal rows stay terminal -/

/-- The row is terminal or gone. -/
def Closed (l : Link) : Prop := ∀ row, l.row = some row → row.status ≠ .active

theorem Closed.flip {l : Link} (h : l.Closed) (status : LinkStatus) (stamp : Instant) :
    l.flip status stamp = l := flip_of_not_active h status stamp

theorem Closed.increment {l : Link} (h : l.Closed) (now stamp : Instant) :
    l.increment now stamp = l := by
  unfold Link.increment
  cases ho : l.openedRow now with
  | none => rfl
  | some row =>
    obtain ⟨r, hr, ha, -⟩ := openedRow_eq_some.mp ho
    exact absurd ha (h r hr)

theorem Closed.revoke {l : Link} (h : l.Closed) (providedTokenHash : Option String)
    (stamp : Instant) : (l.revoke providedTokenHash stamp).row = l.row := by
  unfold Link.revoke
  split
  · rw [h.flip]
    rfl
  · rfl

theorem Closed.sweep {l : Link} (h : l.Closed) (now stamp : Instant) (before : Option Instant) :
    (l.sweep now stamp before).row = l.row ∨ (l.sweep now stamp before).row = none := by
  have he : l.expire now stamp = l := by
    unfold Link.expire
    split
    · exact h.flip _ _
    · rfl
  have hp : l.purge.row = l.row := by
    unfold Link.purge
    split <;> rfl
  unfold Link.sweep Link.prune
  rw [he]
  split
  · exact .inr rfl
  · exact .inl hp

end Link

end Aesmsg.Store
