import Aesmsg.Store.Agree
import Aesmsg.Store.Digest

/-!
# Token-gated revocation

Who may revoke a link, over every run of either store: a row that was created with a token hash is
revoked by a call that presents the same hash, or by an admin purge, and by nothing else.

## Main results

- `LinkOps.Stepwise.tokenGated`: the laws of revocation, for any store whose operations step each
  link as `RowStep` allows.
- `token_gated`: both stores obey them.
-/

namespace Aesmsg.Store

/-! ## Stores and their runs -/

/-- A store as far as its links go.  `τ` is what an operation reads from the clock. -/
structure LinkOps (σ τ : Type) where
  empty : σ
  link : σ → LinkId → Link
  exec : σ → τ → Operation → σ

namespace LinkOps

variable {σ τ : Type} (S : LinkOps σ τ)

def run (steps : List (τ × Operation)) : σ :=
  steps.foldl (fun s step ↦ S.exec s step.1 step.2) S.empty

/-- What the store holds for an id after a run. -/
def after (steps : List (τ × Operation)) (id : LinkId) : Link := S.link (S.run steps) id

@[simp] theorem run_nil : S.run [] = S.empty := rfl

theorem run_concat (steps : List (τ × Operation)) (t : τ) (op : Operation) :
    S.run (steps ++ [(t, op)]) = S.exec (S.run steps) t op := List.foldl_append ..

/-- The row that `id` has after the run was created from `record` and has been there since. -/
inductive CreatedFrom (id : LinkId) (record : CreateLinkRecord) : List (τ × Operation) → Prop
  | create {steps : List (τ × Operation)} {t : τ} {op : Operation} (made : op.record? = some record)
    (own : record.id = id) (absent : (S.after steps id).row = none)
    (present : (S.after (steps ++ [(t, op)]) id).row.isSome = true) :
    CreatedFrom id record (steps ++ [(t, op)])
  | keep {steps : List (τ × Operation)} {t : τ} {op : Operation}
    (before : CreatedFrom id record steps)
    (present : (S.after (steps ++ [(t, op)]) id).row.isSome = true) :
    CreatedFrom id record (steps ++ [(t, op)])

/-- The link of a revoked row: its ciphertext is gone. -/
def Revoked (row : LinkMetadata) (l l' : Link) : Prop :=
  ∃ stamp, l' = { l with
    row := some { row with status := .revoked }, terminalAt := some stamp, blob := none }

/-- The laws of revocation, where `same stored provided` tells whether a presented hash matches. -/
structure TokenGated (same : String → String → Prop) : Prop where
  /-- A row has the hash that it was created with. -/
  created : ∀ steps id, (S.after steps id).row.isSome = true →
    ∃ record, S.CreatedFrom id record steps ∧
      (S.after steps id).hash = some record.revocationTokenHash
  /-- A row with a hash is revoked by the matching token or by an admin purge only. -/
  only : ∀ steps t op id record stored row row', S.CreatedFrom id record steps →
    record.revocationTokenHash = some stored → (S.after steps id).row = some row →
      row.status = .active → (S.after (steps ++ [(t, op)]) id).row = some row' →
        row'.status = .revoked →
          (∃ provided, op = .revoke id (some provided) ∧ same stored provided) ∨ op = .adminPurge id
  /-- Without a matching token a revoke leaves the whole store as it is. -/
  refused : ∀ steps t id record stored providedTokenHash, S.CreatedFrom id record steps →
    record.revocationTokenHash = some stored →
      (∀ provided, providedTokenHash = some provided → ¬same stored provided) →
        S.run (steps ++ [(t, .revoke id providedTokenHash)]) = S.run steps
  /-- With it an active row is revoked, and no other link is touched. -/
  matched : ∀ steps t id record stored provided row, S.CreatedFrom id record steps →
    record.revocationTokenHash = some stored → same stored provided →
      (S.after steps id).row = some row → row.status = .active →
        Revoked row (S.after steps id) (S.after (steps ++ [(t, .revoke id (some provided))]) id) ∧
          ∀ j, j ≠ id →
            S.after (steps ++ [(t, .revoke id (some provided))]) j = S.after steps j
  /-- A legacy row is revoked by any token and by none. -/
  legacy : ∀ steps t id record providedTokenHash row, S.CreatedFrom id record steps →
    record.revocationTokenHash = none → (S.after steps id).row = some row → row.status = .active →
      Revoked row (S.after steps id) (S.after (steps ++ [(t, .revoke id providedTokenHash)]) id) ∧
        ∀ j, j ≠ id → S.after (steps ++ [(t, .revoke id providedTokenHash)]) j = S.after steps j
  /-- Revoking an id that is terminal or unknown changes nothing, however often. -/
  idle : ∀ steps id (calls : List (τ × Option String)), (S.after steps id).Closed →
    S.run (steps ++ calls.map fun call ↦ (call.1, .revoke id call.2)) = S.run steps

end LinkOps

/-! ## What an operation does to a row -/

/-- What an operation may do to the row and the hash of `id`. -/
inductive RowStep (id : LinkId) : Operation → Link → Link → Prop
  | keep {op : Operation} {l l' : Link} (row : l'.row = l.row) (hash : l'.hash = l.hash) :
    RowStep id op l l'
  | create {op : Operation} {record : CreateLinkRecord} {l l' : Link} (made : op.record? = some record)
    (own : record.id = id) (absent : l.row = none) (hash : l'.hash = some record.revocationTokenHash) :
    RowStep id op l l'
  /-- A prune, or the end of a create that failed. -/
  | drop {op : Operation} {l l' : Link} (gone : l'.row = none) : RowStep id op l l'
  /-- An open, or the expiry. -/
  | turn {op : Operation} {row row' : LinkMetadata} {l l' : Link} (present : l.row = some row)
    (after : l'.row = some row') (status : row'.status ≠ .revoked) (hash : l'.hash = l.hash) :
    RowStep id op l l'
  | revoke {providedTokenHash : Option String} {stamp : Instant} {l : Link} :
    RowStep id (.revoke id providedTokenHash) l (l.revoke providedTokenHash stamp)
  | adminPurge {stamp : Instant} {l : Link} : RowStep id (.adminPurge id) l (l.adminPurge stamp)

namespace Link

variable {l : Link}

theorem hash_revoke (l : Link) (providedTokenHash : Option String) (stamp : Instant) :
    (l.revoke providedTokenHash stamp).hash = l.hash := by
  unfold Link.revoke
  split
  · exact hash_flip l _ _
  · rfl

theorem revoke_of_not_revocable {providedTokenHash : Option String}
    (h : l.revocable providedTokenHash = false) (stamp : Instant) :
    l.revoke providedTokenHash stamp = l := by
  unfold Link.revoke
  rw [h]
  rfl

theorem revocable_of_closed (h : l.Closed) (providedTokenHash : Option String) :
    l.revocable providedTokenHash = false := by
  unfold Link.revocable
  cases hr : l.row with
  | none => rfl
  | some row =>
    have hn := h row hr
    simp [hn]

theorem closed_of_absent (h : l.row = none) : l.Closed := by
  intro row hr
  rw [h] at hr
  cases hr

/-- A revoke that is let through revokes an active row and drops its ciphertext. -/
theorem revoke_of_allowed {providedTokenHash : Option String} {row : LinkMetadata}
    (hr : l.row = some row) (ha : row.status = .active)
    (hp : revokeAllowed (l.hash.getD none) providedTokenHash = true) (stamp : Instant) :
    LinkOps.Revoked row l (l.revoke providedTokenHash stamp) := by
  have hrev : l.revocable providedTokenHash = true := by
    unfold Link.revocable
    rw [hr, hp]
    simp [ha]
  unfold Link.revoke
  rw [if_pos hrev, flip_of_active hr ha]
  exact ⟨stamp, rfl⟩

end Link

section RowStep

variable {id : LinkId} {op : Operation} {l l' : Link}

/-- A row appears by a create of its id, with the hash of the record. -/
theorem RowStep.created (h : RowStep id op l l') (absent : l.row = none)
    (present : l'.row.isSome = true) : ∃ record, op.record? = some record ∧ record.id = id ∧
      l'.hash = some record.revocationTokenHash := by
  cases h with
  | keep row =>
    rw [row, absent] at present
    cases present
  | create made own _ hash => exact ⟨_, made, own, hash⟩
  | drop gone =>
    rw [gone] at present
    cases present
  | turn before =>
    rw [absent] at before
    cases before
  | revoke =>
    rw [Link.revoke_of_not_revocable
      (Link.revocable_of_closed (Link.closed_of_absent absent) _), absent] at present
    cases present
  | adminPurge =>
    unfold Link.adminPurge at present
    rw [(Link.closed_of_absent absent).flip] at present
    change l.row.isSome = true at present
    rw [absent] at present
    cases present

theorem RowStep.hash_of_created (h : RowStep id op l l') (absent : l.row = none)
    (present : l'.row.isSome = true) {record : CreateLinkRecord} (made : op.record? = some record) :
    l'.hash = some record.revocationTokenHash := by
  obtain ⟨record', made', -, hash⟩ := h.created absent present
  cases made.symm.trans made'
  exact hash

/-- The hash of a row stays as it is while the row is there. -/
theorem RowStep.hash_kept (h : RowStep id op l l') (before : l.row.isSome = true)
    (present : l'.row.isSome = true) : l'.hash = l.hash := by
  cases h with
  | keep row hash => exact hash
  | create made own absent =>
    rw [absent] at before
    cases before
  | drop gone =>
    rw [gone] at present
    cases present
  | turn _ _ _ hash => exact hash
  | revoke => exact Link.hash_revoke l _ _
  | adminPurge => exact Link.hash_flip l _ _

/-- An active row is revoked by a revoke that is let through, or by an admin purge. -/
theorem RowStep.of_revoked (h : RowStep id op l l') {row row' : LinkMetadata} (hr : l.row = some row)
    (ha : row.status = .active) (hr' : l'.row = some row') (hrev : row'.status = .revoked) :
    (∃ providedTokenHash, op = .revoke id providedTokenHash ∧
      revokeAllowed (l.hash.getD none) providedTokenHash = true) ∨ op = .adminPurge id := by
  cases h with
  | keep hrow =>
    rw [hrow, hr] at hr'
    cases hr'
    rw [ha] at hrev
    cases hrev
  | create made own absent =>
    rw [hr] at absent
    cases absent
  | drop gone =>
    rw [hr'] at gone
    cases gone
  | turn _ after status =>
    cases after.symm.trans hr'
    exact absurd hrev status
  | @revoke providedTokenHash stamp =>
    cases hv : l.revocable providedTokenHash with
    | false =>
      rw [Link.revoke_of_not_revocable hv, hr] at hr'
      cases hr'
      rw [ha] at hrev
      cases hrev
    | true =>
      unfold Link.revocable at hv
      rw [Bool.and_eq_true] at hv
      exact .inl ⟨_, rfl, hv.2⟩
  | adminPurge => exact .inr rfl

end RowStep

/-! ## The laws of revocation -/

namespace LinkOps

variable {σ τ : Type}

/-- The operations of the store step each link, and a revoke works on its own link alone. -/
structure Stepwise (S : LinkOps σ τ) : Prop where
  empty : ∀ id, (S.link S.empty id).row = none
  step : ∀ s t op id, RowStep id op (S.link s id) (S.link (S.exec s t op) id)
  revoke : ∀ s t id providedTokenHash, ∃ stamp, S.link (S.exec s t (.revoke id providedTokenHash)) =
    Function.update (S.link s) id ((S.link s id).revoke providedTokenHash stamp)
  refuse : ∀ s t id providedTokenHash, (S.link s id).revocable providedTokenHash = false →
    S.exec s t (.revoke id providedTokenHash) = s

namespace Stepwise

variable {S : LinkOps σ τ} {steps : List (τ × Operation)} {id : LinkId} {record : CreateLinkRecord}

theorem row_step (h : S.Stepwise) (steps : List (τ × Operation)) (t : τ) (op : Operation)
    (id : LinkId) : RowStep id op (S.after steps id) (S.after (steps ++ [(t, op)]) id) := by
  unfold after
  rw [run_concat]
  exact h.step _ t op id

theorem present (h : S.CreatedFrom id record steps) : (S.after steps id).row.isSome = true := by
  cases h with
  | create _ _ _ present => exact present
  | keep _ present => exact present

theorem hash_eq (h : S.Stepwise) (hc : S.CreatedFrom id record steps) :
    (S.after steps id).hash = some record.revocationTokenHash := by
  induction hc with
  | @create steps t op made own absent present =>
    exact (h.row_step steps t op id).hash_of_created absent present made
  | @keep steps t op before hpresent ih =>
    exact ((h.row_step steps t op id).hash_kept (present before) hpresent).trans ih

/-- Every row was created. -/
theorem createdFrom (h : S.Stepwise) (steps : List (τ × Operation))
    (hr : (S.after steps id).row.isSome = true) : ∃ record, S.CreatedFrom id record steps := by
  induction steps using List.reverseRecOn with
  | nil =>
    have hnone : (S.after [] id).row = none := h.empty id
    rw [hnone] at hr
    cases hr
  | append_singleton steps step ih =>
    obtain ⟨t, op⟩ := step
    cases hb : (S.after steps id).row with
    | some row =>
      obtain ⟨record, hc⟩ := ih (by rw [hb]; rfl)
      exact ⟨record, .keep hc hr⟩
    | none =>
      obtain ⟨record, made, own, -⟩ := (h.row_step steps t op id).created hb hr
      exact ⟨record, .create made own hb hr⟩

theorem revoked (h : S.Stepwise) (t : τ) {providedTokenHash : Option String} {row : LinkMetadata}
    (hr : (S.after steps id).row = some row) (ha : row.status = .active)
    (hp : revokeAllowed ((S.after steps id).hash.getD none) providedTokenHash = true) :
    Revoked row (S.after steps id) (S.after (steps ++ [(t, .revoke id providedTokenHash)]) id) ∧
      ∀ j, j ≠ id → S.after (steps ++ [(t, .revoke id providedTokenHash)]) j = S.after steps j := by
  obtain ⟨stamp, hlink⟩ := h.revoke (S.run steps) t id providedTokenHash
  unfold after at hr hp ⊢
  rw [run_concat, hlink]
  constructor
  · rw [Function.update_self]
    exact Link.revoke_of_allowed hr ha hp stamp
  · intro j hj
    exact Function.update_of_ne hj ..

theorem tokenGated (h : S.Stepwise) : S.TokenGated SameHex where
  created := by
    intro steps id hr
    obtain ⟨record, hc⟩ := h.createdFrom steps hr
    exact ⟨record, hc, h.hash_eq hc⟩
  only := by
    intro steps t op id record stored row row' hc hstored hr ha hr' hrev
    rcases (h.row_step steps t op id).of_revoked hr ha hr' hrev with ⟨provided, hop, hallow⟩ | hop
    · rw [h.hash_eq hc, Option.getD_some, revokeAllowed_iff] at hallow
      obtain ⟨hash, rfl, hsame⟩ := hallow stored hstored
      exact .inl ⟨hash, hop, hsame⟩
    · exact .inr hop
  refused := by
    intro steps t id record stored providedTokenHash hc hstored hno
    rw [run_concat]
    refine h.refuse _ t id providedTokenHash ?_
    unfold Link.revocable
    rw [Bool.and_eq_false_iff]
    right
    have hhash : (S.link (S.run steps) id).hash = some record.revocationTokenHash := h.hash_eq hc
    rw [hhash, Option.getD_some, ← Bool.not_eq_true, revokeAllowed_iff]
    intro hall
    obtain ⟨provided, hp, hsame⟩ := hall stored hstored
    exact hno provided hp hsame
  matched := by
    intro steps t id record stored provided row hc hstored hsame hr ha
    refine h.revoked t hr ha ?_
    rw [h.hash_eq hc, Option.getD_some, revokeAllowed_iff]
    intro stored' hs
    cases hstored.symm.trans hs
    exact ⟨provided, rfl, hsame⟩
  legacy := by
    intro steps t id record providedTokenHash row hc hnone hr ha
    refine h.revoked t hr ha ?_
    rw [h.hash_eq hc, hnone]
    rfl
  idle := by
    intro steps id calls hclosed
    have hrefuse : ∀ t providedTokenHash,
        S.exec (S.run steps) t (.revoke id providedTokenHash) = S.run steps := fun t provided ↦
      h.refuse _ t id provided (Link.revocable_of_closed hclosed provided)
    unfold run
    rw [List.foldl_append, List.foldl_map]
    change calls.foldl _ (S.run steps) = S.run steps
    induction calls with
    | nil => rfl
    | cons call calls ih =>
      rw [List.foldl_cons, hrefuse]
      exact ih

end Stepwise

end LinkOps

/-! ## The in-memory store -/

/-- The row is dropped, kept, or given a status other than `revoked`. -/
def Turns (l l' : Link) : Prop :=
  l'.row = none ∨ l'.hash = l.hash ∧ ∃ row row', l.row = some row ∧ l'.row = some row' ∧
    (row' = row ∨ row'.status ≠ .revoked)

section Turns

variable {id : LinkId} {op : Operation} {l l' : Link}

theorem Turns.rowStep (h : Turns l l') : RowStep id op l l' := by
  rcases h with hn | ⟨hhash, row, row', hr, hr', rfl | hs⟩
  · exact .drop hn
  · exact .keep (hr'.trans hr.symm) hhash
  · exact .turn hr hr' hs hhash

theorem Turns.refl (l : Link) : Turns l l := by
  cases hr : l.row with
  | none => exact .inl hr
  | some row => exact .inr ⟨rfl, row, row, hr, hr, .inl rfl⟩

theorem Turns.expire (now stamp : Instant) : Turns l (l.expire now stamp) := by
  unfold Link.expire
  split
  · rename_i hd
    obtain ⟨row, hr, ha, -⟩ := Link.pastDue_iff.mp hd
    rw [Link.flip_of_active hr ha]
    exact .inr ⟨rfl, row, _, hr, rfl, .inr nofun⟩
  · exact .refl l

theorem Turns.increment (now stamp : Instant) : Turns l (l.increment now stamp) := by
  unfold Link.increment
  cases ho : l.openedRow now with
  | none => exact .refl l
  | some row =>
    obtain ⟨r, hr, ha, -, rfl⟩ := Link.openedRow_eq_some.mp ho
    have hs : r.opened.status ≠ .revoked := by
      unfold LinkMetadata.opened
      dsimp only
      split
      · nofun
      · rw [ha]
        nofun
    dsimp only
    split
    · exact .inr ⟨rfl, r, _, hr, rfl, .inr hs⟩
    · exact .inr ⟨rfl, r, _, hr, rfl, .inr hs⟩

theorem Turns.purge (h : Turns l l') : Turns l l'.purge := by
  unfold Link.purge
  split
  · exact h
  · exact h

theorem Turns.prune (h : Turns l l') (before : Option Instant) : Turns l (l'.prune before) := by
  unfold Link.prune
  split
  · exact .inl rfl
  · exact h

end Turns

namespace MemoryStore

variable {retention : Nat} {s : MemoryStore} {clock : Clock}

def ops (retention : Nat) : LinkOps MemoryStore Clock where
  empty := .empty
  link := link
  exec := fun s clock op ↦ (s.exec retention clock op).2

theorem LinkStep.rowStep {id : LinkId} {op : Operation} {l l' : Link}
    (h : LinkStep retention clock id op l l') (own : ∀ record ∈ op.record?, record.id = id ∨ l' = l) :
    RowStep id op l l' := by
  cases h with
  | same => exact .keep rfl rfl
  | create record absent =>
    rcases own record rfl with hid | hsame
    · exact .create rfl hid absent rfl
    · rw [hsame]
      exact .keep rfl rfl
  | createFailed => exact .drop rfl
  | createStored record ciphertext absent =>
    rcases own record rfl with hid | hsame
    · exact .create rfl hid absent rfl
    · rw [hsame]
      exact .keep rfl rfl
  | increment => exact (Turns.increment _ _).rowStep
  | revoke => exact .revoke
  | sweep => exact (((Turns.expire _ _).purge).prune _).rowStep
  | prune => exact ((Turns.refl l).prune _).rowStep
  | adminPurge => exact .adminPurge

/-- A create leaves the other links alone. -/
theorem link_of_other {op : Operation} {record : CreateLinkRecord} (made : op.record? = some record)
    {id : LinkId} (hid : record.id ≠ id) : (s.exec retention clock op).2.link id = s.link id := by
  cases op with
  | create record' =>
    cases made
    cases hc : s.create record with
    | error e => simp only [exec, hc]
    | ok result =>
      obtain ⟨-, -, hl⟩ := create_eq_ok hc
      simp only [exec, hc, hl]
      exact Function.update_of_ne hid.symm ..
  | createWithCiphertext record' ciphertext putError =>
    cases made
    unfold exec
    dsimp only
    rw [link_createWithCiphertext]
    exact Function.update_of_ne hid.symm ..
  | _ => cases made

theorem rowStep_exec (op : Operation) (id : LinkId) :
    RowStep id op (s.link id) ((s.exec retention clock op).2.link id) := by
  cases hop : op.ofLinkStore with
  | true =>
    refine (exec_linkStep hop id).rowStep fun record made ↦ ?_
    by_cases hid : record.id = id
    · exact .inl hid
    · exact .inr (link_of_other made hid)
  | false =>
    cases op with
    | putCiphertext | getCiphertext | deleteCiphertext | totalBytes => exact .keep rfl rfl
    | _ => cases hop

theorem revoke_of_not_revocable {id : LinkId} {providedTokenHash : Option String}
    (h : (s.link id).revocable providedTokenHash = false) :
    s.revoke id providedTokenHash clock = s := by
  unfold Link.revocable at h
  unfold revoke
  change ((s.rows.get? id).any (·.status = .active) &&
    revokeAllowed ((s.revocationTokenHashes.get? id).getD none) providedTokenHash) = false at h
  split
  · rfl
  · rename_i row hr
    rw [hr, Option.any_some] at h
    split
    · rfl
    · rename_i ha
      rw [decide_eq_true (not_not.mp ha), Bool.true_and] at h
      dsimp only
      rw [h]
      rfl

theorem stepwise (retention : Nat) : (ops retention).Stepwise where
  empty := fun _ ↦ rfl
  step := fun _ _ op id ↦ rowStep_exec op id
  revoke := fun s clock id provided ↦ ⟨clock.stamp id, link_revoke s id provided clock⟩
  refuse := fun _ _ _ _ h ↦ revoke_of_not_revocable h

end MemoryStore

/-! ## The Postgres store -/

namespace Pg

variable {db db' : Db} {id : LinkId}

/-- An operation when the clock of the database shows `now` and that of the client `nowMs`. -/
def execAt (retention : Nat) (db : Db) (now : Timestamptz) (nowMs : Instant) (op : Operation) :
    Except PgError Reply × Db :=
  match op with
  | .expirePastDue =>
    let (purged, db) := expirePastDue db retention now nowMs
    (purged.map .count, db)
  | op => exec retention db now op

def ops (retention : Nat) : LinkOps Db (Timestamptz × Instant) where
  empty := .empty
  link := link
  exec := fun db t op ↦ (execAt retention db t.1 t.2 op).2

theorem turns_of_row {row : LinksRow} (hr : db.links.get? id = some row)
    (h : db'.links.get? id = none ∨ ∃ row', db'.links.get? id = some row' ∧
      row'.revocation_token_hash = row.revocation_token_hash ∧
        (row' = row ∨ row'.status ≠ .revoked)) : Turns (link db id) (link db' id) := by
  rcases h with hn | ⟨row', hr', hhash, hs⟩
  · exact .inl (by rw [row_link, hn]; rfl)
  · refine .inr ⟨?_, rowToMeta id row, rowToMeta id row', ?_, ?_, ?_⟩
    · simp [link, hr, hr', hhash]
    · rw [row_link, hr]
      rfl
    · rw [row_link, hr']
      rfl
    · rcases hs with rfl | hs
      · exact .inl rfl
      · exact .inr hs

theorem turns_of_absent (h : db'.links.get? id = none) : Turns (link db id) (link db' id) :=
  .inl (by rw [row_link, h]; rfl)

theorem turns_of_same (h : db'.links.get? id = db.links.get? id) :
    Turns (link db id) (link db' id) := by
  cases hr : db.links.get? id with
  | none => exact turns_of_absent (h.trans hr)
  | some row => exact turns_of_row hr (.inr ⟨row, h.trans hr, rfl, .inl rfl⟩)

theorem turns_incrementOpens {k : LinkId} {now : Timestamptz} {row? : Option LinkMetadata}
    (h : incrementOpens db k now = .ok (row?, db')) : Turns (link db id) (link db' id) := by
  unfold incrementOpens at h
  split at h
  · cases h
    exact .refl _
  · rename_i row hr
    split at h
    · rename_i hlive
      obtain ⟨updated, hu, h⟩ := bind_ok.mp h
      obtain ⟨hmeta, hhash, -, -⟩ := opened_ok k hu
      have hs : updated.status ≠ .revoked := by
        have hst : updated.status = (rowToMeta k row).opened.status :=
          congrArg LinkMetadata.status hmeta
        rw [hst]
        unfold LinkMetadata.opened
        dsimp only
        split
        · nofun
        · change row.status ≠ .revoked
          rw [hlive.1]
          nofun
      have hlinks : ∀ j, db'.links.get? j =
          (db.links.get? j).map fun r ↦ if j = k then updated else r := by
        intro j
        cases h
        split
        · simp [Db.updateLinks, Db.deleteCiphertexts, Option.map_eq_bind]
        · simp [Db.updateLinks, Option.map_eq_bind]
      by_cases hid : id = k
      · subst hid
        refine turns_of_row hr (.inr ⟨updated, ?_, hhash, .inr hs⟩)
        rw [hlinks, hr, Option.map_some, if_pos rfl]
      · refine turns_of_same ?_
        rw [hlinks]
        simp [hid]
    · cases h
      exact .refl _

theorem turns_updateExpired (now : Timestamptz) : Turns (link db id) (link (updateExpired db now) id) := by
  cases hr : db.links.get? id with
  | none =>
    refine turns_of_absent ?_
    simp [updateExpired, Db.updateLinks, hr]
  | some row =>
    have hrow : (updateExpired db now).links.get? id = some
        (if isPastDue row now then { row with status := .expired, terminal_at := some now }
          else row) := by
      simp [updateExpired, Db.updateLinks, hr]
    refine turns_of_row hr (.inr ⟨_, hrow, ?_, ?_⟩)
    · split
      · rfl
      · rfl
    · split
      · exact .inr LinkStatus.noConfusion
      · exact .inl rfl

/-- A prune drops rows, and keeps the others as they are. -/
theorem turns_pruneTerminal {l : Link} {before : Option Instant} {deleted : Nat}
    (h : pruneTerminal db before = .ok (deleted, db')) (hl : Turns l (link db id)) :
    Turns l (link db' id) := by
  obtain ⟨cutoff, -, h⟩ := bind_ok.mp h
  cases h
  cases hr : db.links.get? id with
  | none =>
    refine .inl ?_
    rw [row_link]
    simp [Db.deleteLinks, hr]
  | some row =>
    cases hp : isPrunable row cutoff with
    | true =>
      refine .inl ?_
      rw [row_link]
      simp [Db.deleteLinks, hr, hp]
    | false =>
      have hrow : (link (db.deleteLinks fun _ row ↦ isPrunable row cutoff) id).row =
          (link db id).row := by
        rw [row_link, row_link]
        simp [Db.deleteLinks, hr, hp]
      have hhash : (link (db.deleteLinks fun _ row ↦ isPrunable row cutoff) id).hash =
          (link db id).hash := by
        simp [link, Db.deleteLinks, hr, hp]
      unfold Turns at hl ⊢
      rw [hrow, hhash]
      exact hl

theorem rowStep_expirePastDue (retention : Nat) (now : Timestamptz) (nowMs : Instant) :
    RowStep id .expirePastDue (link db id) (link (expirePastDue db retention now nowMs).2 id) := by
  have hturn : Turns (link db id)
      (link ((updateExpired db now).deleteCiphertexts fun k ↦ inTerminal (updateExpired db now) k) id) := by
    rw [link_purgeTerminal]
    exact (turns_updateExpired now).purge
  unfold expirePastDue
  dsimp only
  split
  · exact hturn.rowStep
  · rename_i hprune
    exact (turns_pruneTerminal hprune hturn).rowStep

/-- A database with the row of a new link. -/
theorem rowStep_create {d : Db} {record : CreateLinkRecord} {row : LinkMetadata} {op : Operation}
    (made : op.record? = some record) (hc : create db record = .ok (row, d))
    (hlinks : db'.links = d.links) : RowStep id op (link db id) (link db' id) := by
  obtain ⟨-, habs, -, hl, -⟩ := create_ok hc
  have hrow : (link db' id).row = (link d id).row := by rw [row_link, row_link, hlinks]
  have hhash : (link db' id).hash = (link d id).hash := by simp [link, hlinks]
  rw [hl] at hrow hhash
  by_cases hid : id = record.id
  · subst hid
    rw [Function.update_self] at hhash
    exact .create made rfl (by rw [row_link, habs]; rfl) hhash
  · rw [Function.update_of_ne hid] at hrow hhash
    exact .keep hrow hhash

theorem rowStep_exec (retention : Nat) (now : Timestamptz) (nowMs : Instant) (op : Operation) :
    RowStep id op (link db id) (link (execAt retention db now nowMs op).2 id) := by
  cases op with
  | create record =>
    unfold execAt exec
    dsimp only
    split
    · exact .keep rfl rfl
    · rename_i hc
      exact rowStep_create rfl hc rfl
  | createWithCiphertext record ciphertext putError =>
    unfold execAt exec
    dsimp only
    split
    · exact .keep rfl rfl
    · rename_i hc
      obtain ⟨⟨row, d⟩, hcreate, hc⟩ := bind_ok.mp hc
      cases putError with
      | some e => cases hc
      | none =>
        obtain ⟨d', hput, hc⟩ := bind_ok.mp hc
        cases hc
        exact rowStep_create rfl hcreate (upsertCiphertext_ok hput).1
  | get _ => exact .keep rfl rfl
  | incrementOpens k =>
    unfold execAt exec
    dsimp only
    split
    · exact .keep rfl rfl
    · rename_i hinc
      exact (turns_incrementOpens hinc).rowStep
  | revoke k provided =>
    change RowStep id _ (link db id) (link (revoke db k provided now) id)
    rw [link_revoke]
    by_cases hid : id = k
    · subst hid
      rw [Function.update_self]
      exact .revoke
    · rw [Function.update_of_ne hid]
      exact .keep rfl rfl
  | expirePastDue => exact rowStep_expirePastDue retention now nowMs
  | pruneTerminal before =>
    unfold execAt exec
    dsimp only
    split
    · exact .keep rfl rfl
    · rename_i hprune
      exact (turns_pruneTerminal hprune (.refl _)).rowStep
  | aggregateStats => exact .keep rfl rfl
  | adminPurge k =>
    change RowStep id _ (link db id) (link (adminPurge db k now).2 id)
    rw [link_adminPurge]
    by_cases hid : id = k
    · subst hid
      rw [Function.update_self]
      exact .adminPurge
    · rw [Function.update_of_ne hid]
      exact .keep rfl rfl
  | putCiphertext k blob =>
    unfold execAt exec
    dsimp only
    split
    · exact .keep rfl rfl
    · rename_i hput
      obtain ⟨hlinks, -⟩ := upsertCiphertext_ok hput
      exact (turns_of_same (by rw [hlinks])).rowStep
  | getCiphertext _ => exact .keep rfl rfl
  | deleteCiphertext k => exact .keep rfl rfl
  | totalBytes => exact .keep rfl rfl

theorem revoke_of_not_revocable {providedTokenHash : Option String} {now : Timestamptz}
    (h : (link db id).revocable providedTokenHash = false) :
    revoke db id providedTokenHash now = db := by
  unfold Link.revocable at h
  unfold revoke
  rw [row_link] at h
  split
  · rfl
  · rename_i row hr
    have hhash : (link db id).hash = some row.revocation_token_hash := by simp [link, hr]
    rw [hr, hhash] at h
    split
    · rfl
    · rename_i ha
      change (decide (row.status = .active) && revokeAllowed row.revocation_token_hash _) = false at h
      rw [decide_eq_true (not_not.mp ha), Bool.true_and] at h
      rw [h]
      rfl

theorem stepwise (retention : Nat) : (ops retention).Stepwise where
  empty := fun _ ↦ rfl
  step := fun _ t op _ ↦ rowStep_exec retention t.1 t.2 op
  revoke := fun db t id provided ↦ ⟨toDate t.1, link_revoke db id provided t.1⟩
  refuse := fun _ _ _ _ h ↦ revoke_of_not_revocable h

end Pg

/-- Revocation is gated by the token on both stores.  Hashes match when they are hexadecimal for the
same bytes; digests match when they are equal. -/
theorem token_gated (retention : Nat) :
    (MemoryStore.ops retention).TokenGated SameHex ∧ (Pg.ops retention).TokenGated SameHex ∧
      ∀ a b, IsDigest a → IsDigest b → (SameHex a b ↔ a = b) :=
  ⟨(MemoryStore.stepwise retention).tokenGated, (Pg.stepwise retention).tokenGated,
    fun _ _ ha hb ↦ ha.sameHex_iff hb⟩

/-- A digest, and a string that `Buffer.from(_, "hex")` reads as the same bytes. -/
def sampleDigest : String := "abababababababababababababababababababababababababababababababab"

def malformedDigest : String := "ababababababababababababababababababababababababababababababababzz"

/-- Equality of the hashes as strings is not what gates a revoke: one with trailing garbage passes. -/
theorem malformed_hash_revokes : ¬∀ retention, (MemoryStore.ops retention).TokenGated (· = ·) ∧
    (Pg.ops retention).TokenGated (· = ·) := by
  intro h
  let record : CreateLinkRecord := ⟨"AAAAAAAAAAAAAAAA", 1000, 1, some sampleDigest⟩
  let steps : List (Clock × Operation) := [] ++ [(.at 1, .create record)]
  have hcreated : (MemoryStore.ops 0).CreatedFrom "AAAAAAAAAAAAAAAA" record steps :=
    LinkOps.CreatedFrom.create rfl rfl rfl rfl
  have hrow : ((MemoryStore.ops 0).after (steps ++ [(.at 2, .revoke "AAAAAAAAAAAAAAAA"
      (some malformedDigest))]) "AAAAAAAAAAAAAAAA").row =
        some { record.meta with status := .revoked } := by
    decide
  rcases (h 0).1.only steps _ _ _ record sampleDigest record.meta _ hcreated rfl rfl rfl hrow rfl with
    ⟨provided, hop, rfl⟩ | hop
  · exact absurd hop (by decide)
  · cases hop

end Aesmsg.Store
