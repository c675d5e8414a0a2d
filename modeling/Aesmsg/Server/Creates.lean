import Aesmsg.Server.MemorySteps
import Aesmsg.Server.PostgresSteps

/-!
# Creates are atomic

A create request is answered 201 exactly when its row and its ciphertext were stored, and otherwise
leaves nothing behind and touches nothing of others.  In Postgres both inserts are one transaction.
The in-memory store undoes its row by id, after an await: it is atomic as long as the row that it finds
then is still its own and still active, or no row at all.

## Main results

- `creates_atomic`: atomicity, on both stores.
- `foreign_rollback`: a run of the in-memory store whose rollback removes the row of another create.
-/

namespace Aesmsg.Server

open Store Api Threads

/-! ## Rows that are gone -/

/-- The row that thread `i` inserted is gone: it was pruned since, or undone. -/
def Gone (i : Nat) (record : CreateLinkRecord) (t : Trace Event) : Prop :=
  (∃ k, (k, .pruned record.id) ∈ since (i, .inserted record) t) ∨ (i, .rolledBack record.id) ∈ t

/-- Every insertion found the earlier rows of its id gone. -/
def Spaced : Trace Event → Prop
  | [] => True
  | (_, .inserted record) :: t =>
    (∀ i r, (i, .inserted r) ∈ t → r.id = record.id → Gone i r t) ∧ Spaced t
  | _ :: t => Spaced t

theorem Gone.append {i j : Nat} {record : CreateLinkRecord} {t : Trace Event} {es : List Event}
    (h : Gone i record t) (fresh : (i, .inserted record) ∉ tag j es) :
    Gone i record (tag j es ++ t) := by
  rcases h with ⟨k, hk⟩ | hr
  · refine .inl ⟨k, ?_⟩
    rw [since_append_of_not_mem fresh]
    exact List.mem_append_right _ hk
  · exact .inr (List.mem_append_right _ hr)

theorem spaced_append {i : Nat} {t : Trace Event} {es : List Event}
    (h : ∀ e ∈ es, e.isInserted = false) : Spaced (tag i es ++ t) ↔ Spaced t := by
  induction es with
  | nil => rfl
  | cons e es ih =>
    obtain ⟨he, hes⟩ := List.forall_mem_cons.mp h
    rw [← ih hes]
    cases e with
    | inserted record => cases he
    | _ => rfl

/-- When a row was inserted, the earlier rows of its id were gone. -/
theorem Spaced.gone {t : Trace Event} (h : Spaced t) {i j : Nat} {r r' : CreateLinkRecord}
    (hj : (j, .inserted r') ∈ t) (hi : (i, .inserted r) ∈ before (j, .inserted r') t)
    (hid : r.id = r'.id) : Gone i r (before (j, .inserted r') t) := by
  induction t with
  | nil => cases hj
  | cons x t ih =>
    by_cases hx : x = (j, .inserted r')
    · subst hx
      rw [before_cons_self] at hi ⊢
      exact h.1 i r hi hid
    · rw [before_cons_of_ne hx] at hi ⊢
      have ht : Spaced t := by
        obtain ⟨k, e⟩ := x
        cases e with
        | inserted record => exact h.2
        | _ => exact h
      exact ih ht ((List.mem_cons.mp hj).resolve_left (Ne.symm hx)) hi

/-! ## What belongs to a row -/

/-- A token hash and a terminal timestamp are only held for a row, the latter for a terminal one. -/
structure Tidy (l : Link) : Prop where
  stamped : l.terminalAt.isSome = true → l.isTerminal = true
  hashed : l.hash.isSome = true → l.row.isSome = true

section Tidy

variable {l l' : Link}

theorem Tidy.of_absent (h : Tidy l) (hr : l.row = none) : l.hash = none ∧ l.terminalAt = none := by
  constructor
  · rw [← Option.not_isSome_iff_eq_none]
    intro hh
    have := h.hashed hh
    rw [hr] at this
    cases this
  · rw [← Option.not_isSome_iff_eq_none]
    intro ht
    obtain ⟨row, hrow, -⟩ := Link.isTerminal_iff.mp (h.stamped ht)
    rw [hr] at hrow
    cases hrow

theorem Tidy.terminalAt_of_active (h : Tidy l) {row : LinkMetadata} (hr : l.row = some row)
    (ha : row.status = .active) : l.terminalAt = none := by
  rw [← Option.not_isSome_iff_eq_none]
  intro ht
  obtain ⟨row', hrow, hn⟩ := Link.isTerminal_iff.mp (h.stamped ht)
  rw [hr] at hrow
  cases hrow
  exact hn ha

theorem tidy_vacant : Tidy Link.vacant := ⟨nofun, nofun⟩

theorem Tidy.closing (h : Tidy l) (hc : Closing l l') : Tidy l' := by
  cases hc with
  | keep => exact h
  | terminate present closed stamp =>
    exact ⟨fun _ ↦ Link.isTerminal_iff.mpr ⟨_, rfl, closed⟩, fun _ ↦ rfl⟩
  | shut present closed stamp =>
    exact ⟨fun _ ↦ Link.isTerminal_iff.mpr ⟨_, rfl, closed⟩, fun _ ↦ rfl⟩
  | purge terminal => exact ⟨h.stamped, h.hashed⟩
  | prune terminal => exact tidy_vacant

theorem Tidy.insert (h : Tidy l) (absent : l.row = none) (record : CreateLinkRecord) :
    Tidy (l.insert record) := by
  refine ⟨fun ht ↦ ?_, fun _ ↦ rfl⟩
  change l.terminalAt.isSome = true at ht
  rw [(h.of_absent absent).2] at ht
  cases ht

theorem Tidy.increment (h : Tidy l) {row : LinkMetadata} {now stamp : Instant}
    (present : l.row = some row) (active : row.status = .active) (live : now < row.expiresAt) :
    Tidy (l.increment now stamp) := by
  have ho := Link.openedRow_eq_some.mpr ⟨row, present, active, live, rfl⟩
  have hnone := h.terminalAt_of_active present active
  unfold Link.increment
  rw [ho]
  dsimp only
  split
  · rename_i hx
    refine ⟨fun _ ↦ Link.isTerminal_iff.mpr ⟨_, rfl, ?_⟩, fun _ ↦ rfl⟩
    rw [hx]
    decide
  · refine ⟨fun ht ↦ ?_, fun _ ↦ rfl⟩
    change l.terminalAt.isSome = true at ht
    rw [hnone] at ht
    cases ht

/-- Undoing a row that is still active, or gone. -/
theorem Tidy.rollback (h : Tidy l) (own : ∀ row, l.row = some row → row.status = .active) :
    Tidy l.rollback := by
  refine ⟨fun ht ↦ ?_, nofun⟩
  change l.terminalAt.isSome = true at ht
  cases hr : l.row with
  | none =>
    rw [(h.of_absent hr).2] at ht
    cases ht
  | some row =>
    rw [h.terminalAt_of_active hr (own row hr)] at ht
    cases ht

end Tidy

/-! ## The account of the rows -/

section Act

variable {env : Env} {links links' : Links} {a b : Stage} {es : List Event}

theorem forall_update {P : Link → Prop} {id : LinkId} {l : Link}
    (link : links' = Function.update links id l) (h : ∀ j, P (links j)) (hl : P l) (j : LinkId) :
    P (links' j) := by
  rw [link]
  by_cases hj : j = id
  · subst hj
    rwa [Function.update_self]
  · rw [Function.update_of_ne hj]
    exact h j

theorem Act.tidy (h : Act env links links' a es b) (ht : ∀ id, Tidy (links id))
    (own : ∀ token record, a = .undoing token record → ∀ row, (links record.id).row = some row →
      row.status = .active) (id : LinkId) : Tidy (links' id) := by
  cases h with
  | wait h | quit _ _ _ h | fail h | reply h | fetch _ h | miss h | respond h | complete _ _ _ h =>
    rw [h]
    exact ht id
  | close passes closing tidy pruned => exact (ht id).closing (closing id)
  | act j early closing kept empty => exact (ht id).closing (closing id)
  | create absent link => exact forall_update link ht ((ht _).insert absent _) id
  | place token ciphertext absent link => exact forall_update link ht ((ht _).insert absent _) id
  | @commit record token ciphertext absent link =>
    have hins := (ht record.id).insert absent record
    exact forall_update link ht ⟨hins.stamped, hins.hashed⟩ id
  | put link => exact forall_update link ht ⟨(ht _).stamped, (ht _).hashed⟩ id
  | @undo token record link =>
    exact forall_update link ht ((ht _).rollback (own token record rfl)) id
  | count present active live link =>
    exact forall_update link ht ((ht _).increment present active live) id
  | tally present active live link =>
    exact forall_update link ht ((ht _).increment present active live) id
  | drop j link => exact forall_update link ht ⟨(ht j).stamped, (ht j).hashed⟩ id
  | dropActed j link => exact forall_update link ht ⟨(ht j).stamped, (ht j).hashed⟩ id

/-- A row is only inserted under a free id. -/
theorem Act.absent_of_inserted (h : Act env links links' a es b) {record : CreateLinkRecord}
    (hi : .inserted record ∈ es) : (links record.id).row = none := by
  cases h with
  | close passes closing tidy pruned =>
    obtain ⟨id, hid⟩ := tidy _ hi
    cases hid
  | create absent link | place token ciphertext absent link =>
    cases List.mem_singleton.mp hi
    exact absent
  | commit token ciphertext absent link =>
    obtain rfl : record = _ := by simpa using hi
    exact absent
  | count => simp [mem_openEvents] at hi
  | tally => simp [mem_openEvents] at hi
  | respond => simp [mem_completion] at hi
  | quit | undo | reply | complete => simp [mem_finish] at hi
  | wait | put | fail | fetch | miss | act | drop | dropActed => simp at hi

/-- A row goes away when it is pruned or undone. -/
theorem Act.row_kept (h : Act env links links' a es b) {id : LinkId}
    (hr : (links id).row.isSome = true) :
    (links' id).row.isSome = true ∨ .pruned id ∈ es ∨
      ∃ token record, a = .undoing token record ∧ record.id = id ∧ .rolledBack id ∈ es := by
  have same : links' = links → (links' id).row.isSome = true := by
    rintro rfl
    exact hr
  have update : ∀ {j : LinkId} {l : Link}, links' = Function.update links j l →
      ((links j).row.isSome = true → l.row.isSome = true) → (links' id).row.isSome = true := by
    intro j l link hl
    rw [link]
    by_cases hj : id = j
    · subst hj
      rw [Function.update_self]
      exact hl hr
    · rwa [Function.update_of_ne hj]
  have opened : ∀ {j : LinkId} {row : LinkMetadata} {now stamp : Instant},
      (links j).row = some row → row.status = .active → now < row.expiresAt →
        ((links j).increment now stamp).row.isSome = true := by
    intro j row now stamp present active live
    rw [row_increment _ present active live]
    rfl
  cases h with
  | wait h | quit _ _ _ h | fail h | reply h | fetch _ h | miss h | respond h | complete _ _ _ h =>
    exact .inl (same h)
  | close passes closing tidy pruned =>
    cases hn : (links' id).row with
    | some row => exact .inl rfl
    | none => exact .inr (.inl (pruned id hr hn))
  | act j early closing kept empty => exact .inl (kept id hr)
  | create absent link => exact .inl (update link fun _ ↦ rfl)
  | place token ciphertext absent link => exact .inl (update link fun _ ↦ rfl)
  | commit token ciphertext absent link => exact .inl (update link fun _ ↦ rfl)
  | put link => exact .inl (update link fun h ↦ h)
  | @undo token record link =>
    by_cases hid : id = record.id
    · subst hid
      exact .inr (.inr ⟨token, record, rfl, rfl, by simp⟩)
    · rw [link, Function.update_of_ne hid]
      exact .inl hr
  | count present active live link =>
    exact .inl (update link fun _ ↦ opened present active live)
  | tally present active live link =>
    exact .inl (update link fun _ ↦ opened present active live)
  | drop j link => exact .inl (update link fun h ↦ h)
  | dropActed j link => exact .inl (update link fun h ↦ h)

/-- A row comes from an insertion. -/
theorem Act.inserted_of_row (h : Act env links links' a es b) {id : LinkId}
    (hn : (links id).row = none) (hr : (links' id).row.isSome = true) :
    ∃ record, record.id = id ∧ .inserted record ∈ es := by
  have hm := h.move
  have hn' : rowsOf links id = none := hn
  have hr' : (rowsOf links' id).isSome = true := hr
  generalize rowsOf links = rows at hm hn'
  generalize rowsOf links' = rows' at hm hr'
  cases hm with
  | close quiet closes =>
    rcases closes id with hk | hk | ⟨row, status, hold, -, -⟩
    · rw [hk, hn'] at hr'
      cases hr'
    · rw [hk] at hr'
      cases hr'
    · rw [hn'] at hold
      cases hold
  | @insert es' record quiet absent =>
    by_cases hid : id = record.id
    · exact ⟨record, hid.symm, List.mem_append_right _ List.mem_cons_self⟩
    · rw [Function.update_of_ne hid, hn'] at hr'
      cases hr'
  | @«open» es' j row now quiet present active live =>
    have hj : id ≠ j := by
      rintro rfl
      rw [hn'] at present
      cases present
    rw [Function.update_of_ne hj, hn'] at hr'
    cases hr'

end Act

section Act

variable {env : Env} {links links' : Links} {a b : Stage} {es : List Event}

/-- An insertion leaves a row. -/
theorem Act.row_of_inserted (h : Act env links links' a es b) {record : CreateLinkRecord}
    (hi : .inserted record ∈ es) : (links' record.id).row.isSome = true := by
  have hm := h.move
  change (rowsOf links' record.id).isSome = true
  have loud : ∀ {es : List Event}, (∀ e ∈ es, e.isQuiet = true) → .inserted record ∉ es := by
    intro es quiet hm
    cases quiet _ hm
  generalize rowsOf links = rows at hm
  generalize rowsOf links' = rows' at hm
  cases hm with
  | close quiet closes => exact absurd hi (loud quiet)
  | insert quiet absent =>
    cases List.mem_singleton.mp ((List.mem_append.mp hi).resolve_left (loud quiet))
    rw [Function.update_self]
    rfl
  | «open» quiet present active live =>
    cases List.mem_singleton.mp ((List.mem_append.mp hi).resolve_left (loud quiet))

theorem Act.undoing_of_rolledBack (h : Act env links links' a es b) {id : LinkId}
    (hr : .rolledBack id ∈ es) : ∃ token record, a = .undoing token record ∧ record.id = id ∧
      (links' id).row = none ∧ ∀ record, .inserted record ∉ es := by
  cases h with
  | @undo token record link =>
    obtain rfl : id = record.id := by simpa [mem_finish] using hr
    refine ⟨token, record, rfl, rfl, ?_, by simp [mem_finish]⟩
    rw [link, Function.update_self]
    rfl
  | close passes closing tidy pruned =>
    obtain ⟨j, hj⟩ := tidy _ hr
    cases hj
  | count | tally => simp [mem_openEvents] at hr
  | respond => simp [mem_completion] at hr
  | quit | reply | complete => simp [mem_finish] at hr
  | _ => simp at hr

end Act

/-- The links and the trace agree on which rows are gone, and nothing is left of these. -/
structure Accounted (links : Links) (t : Trace Event) : Prop where
  tidy : ∀ id, Tidy (links id)
  held : ∀ i record, (i, .inserted record) ∈ t →
    ((links record.id).row.isSome = true ∧ owner t record.id = some i) ∨ Gone i record t
  spaced : Spaced t
  undone : ∀ i id, (i, .rolledBack id) ∈ t → ∀ id', owner t id' = some i → (links id').row = none

/-- The row that a rollback removes is its own and still active, if there is one. -/
def OwnRow (links : Links) (i : Nat) (record : CreateLinkRecord) (t : Trace Event) : Prop :=
  ∀ row ∈ (links record.id).row, owner t record.id = some i ∧ row.status = .active

instance (links : Links) (i : Nat) (record : CreateLinkRecord) (t : Trace Event) :
    Decidable (OwnRow links i record t) :=
  inferInstanceAs (Decidable (∀ row ∈ (links record.id).row, _ ∧ _))

section Step

variable {env : Env} {links links' : Links} {a b : Stage} {es : List Event} {i : Nat}
  {t : Trace Event}

theorem Accounted.step (h : Accounted links t) (ha : Act env links links' a es b)
    (hs : Story env a (mine i t))
    (own : ∀ token record, a = .undoing token record → OwnRow links i record t) :
    Accounted links' (tag i es ++ t) := by
  have fresh : ∀ {record : CreateLinkRecord}, .inserted record ∈ es →
      ∀ r, (i, .inserted r) ∉ t := fun hi r ↦ LinkServer.fresh ha hs ⟨_, hi⟩ r
  have tagged : ∀ {j : Nat} {e : Event}, (j, e) ∈ tag i es → j = i ∧ e ∈ es := by
    intro j e hm
    obtain ⟨e', he', heq⟩ := List.mem_map.mp hm
    cases heq
    exact ⟨rfl, he'⟩
  refine ⟨?_, ?_, ?_, ?_⟩
  · exact ha.tidy h.tidy fun token record hu row hr ↦ (own token record hu row hr).2
  · intro j record hmem
    rcases List.mem_append.mp hmem with hm | hold
    · obtain ⟨rfl, hi⟩ := tagged hm
      exact .inl ⟨ha.row_of_inserted hi, owner_of_inserted hi⟩
    · rcases h.held j record hold with ⟨hrow, howner⟩ | hgone
      · have hnot : ∀ r, .inserted r ∈ es → r.id ≠ record.id := by
          intro r hi hid
          rw [← hid, ha.absent_of_inserted hi] at hrow
          cases hrow
        rcases ha.row_kept hrow with hkept | hpruned | ⟨token, r, hu, hid, hback⟩
        · exact .inl ⟨hkept, (owner_append hnot).trans howner⟩
        · refine .inr (.inl ⟨i, ?_⟩)
          rw [since_append_of_not_mem fun hm' ↦ hnot record (tagged hm').2 rfl]
          exact List.mem_append_left _ (List.mem_map.mpr ⟨_, hpruned, rfl⟩)
        · obtain ⟨row, hrow⟩ := Option.isSome_iff_exists.mp hrow
          have hi := (own token r hu row (by rw [hid]; exact hrow)).1
          rw [hid, howner] at hi
          cases hi
          exact .inr (.inr (List.mem_append_left _ (List.mem_map.mpr ⟨_, hback, rfl⟩)))
      · refine .inr (hgone.append fun hm' ↦ ?_)
        obtain ⟨rfl, hi⟩ := tagged hm'
        exact fresh hi record hold
  · have hm := ha.move
    have quiet_inserted : ∀ {es : List Event}, (∀ e ∈ es, e.isQuiet = true) →
        ∀ e ∈ es, e.isInserted = false := fun quiet e he ↦ (Ledger.isQuiet_iff.mp (quiet e he)).1
    generalize rowsOf links = rows at hm
    generalize rowsOf links' = rows' at hm
    cases hm with
    | close quiet closes => exact (spaced_append (quiet_inserted quiet)).mpr h.spaced
    | @insert es' record quiet absent =>
      have hsplit : tag i (es' ++ [.inserted record]) ++ t =
          tag i es' ++ ((i, .inserted record) :: t) := by
        simp [tag]
      rw [hsplit, spaced_append (quiet_inserted quiet)]
      refine ⟨fun j r hr hid ↦ ?_, h.spaced⟩
      have habs := ha.absent_of_inserted (List.mem_append_right es' List.mem_cons_self)
      rcases h.held j r hr with ⟨hrow, -⟩ | hgone
      · rw [hid, habs] at hrow
        cases hrow
      · exact hgone
    | @«open» es' id row now quiet present active live =>
      have hsplit : tag i (es' ++ [.opened id row.opened now]) ++ t =
          tag i es' ++ ((i, .opened id row.opened now) :: t) := by
        simp [tag]
      rw [hsplit, spaced_append (quiet_inserted quiet)]
      exact h.spaced
  · intro j id hm id' howner
    rcases List.mem_append.mp hm with hm | hm
    · obtain ⟨rfl, hback⟩ := tagged hm
      obtain ⟨token, record, rfl, rfl, hnone, hins⟩ := ha.undoing_of_rolledBack hback
      rw [owner_append fun record hi ↦ absurd hi (hins record)] at howner
      obtain ⟨r, hr, rfl⟩ := inserted_of_owner howner
      have hmine : mine j t = [.inserted record] := hs
      have hmem := mem_mine.mpr hr
      rw [hmine] at hmem
      cases List.mem_singleton.mp hmem
      exact hnone
    · have hins : ∀ record, .inserted record ∈ es → record.id ≠ id' := by
        rintro record hi rfl
        rw [owner_of_inserted hi] at howner
        cases howner
        cases ha.fresh_of_inserted ⟨record, hi⟩
        have hmine : mine i t = [] := hs
        have hmem := mem_mine.mpr hm
        rw [hmine] at hmem
        cases hmem
      rw [owner_append hins] at howner
      have hnone := h.undone j id hm id' howner
      cases hr : (links' id').row with
      | none => rfl
      | some row =>
        obtain ⟨record, hid, hi⟩ := ha.inserted_of_row hnone (by rw [hr]; rfl)
        exact absurd hid (hins record hi)

/-- What a step of a create may do to the links. -/
def Touches (links links' : Links) (a : Stage) (es : List Event) : Prop :=
  links' = links ∨
    (∃ record, (links record.id).row = none ∧
      links' = Function.update links record.id ((links record.id).insert record)) ∨
    (∃ id b, .stored id b ∈ es) ∨
    ∃ token record, a = .undoing token record ∧
      links' = Function.update links record.id (links record.id).rollback

/-- A step of a create that does not store its ciphertext leaves the ciphertexts and the links of
others as they are. -/
theorem Touches.frame (h : Touches links links' a es) (hstored : ∀ id b, .stored id b ∉ es)
    (own : ∀ token record, a = .undoing token record → OwnRow links i record t) (id : LinkId) :
    (links' id).blob = (links id).blob ∧ ∀ row, (links id).row = some row →
      owner t id ≠ some i → links' id = links id := by
  rcases h with rfl | ⟨record, absent, rfl⟩ | ⟨j, b, hm⟩ | ⟨token, record, rfl, rfl⟩
  · exact ⟨rfl, fun _ _ _ ↦ rfl⟩
  · by_cases hid : id = record.id
    · subst hid
      rw [Function.update_self]
      refine ⟨rfl, fun row hr ↦ ?_⟩
      rw [absent] at hr
      cases hr
    · rw [Function.update_of_ne hid]
      exact ⟨rfl, fun _ _ _ ↦ rfl⟩
  · exact absurd hm (hstored j b)
  · by_cases hid : id = record.id
    · subst hid
      rw [Function.update_self]
      exact ⟨rfl, fun row hr hne ↦ absurd (own token record rfl row hr).1 hne⟩
    · rw [Function.update_of_ne hid]
      exact ⟨rfl, fun _ _ _ ↦ rfl⟩

end Step

/-! ## Atomicity -/

/-- A prune of `id` lies between the insertions of `i` and, later, of `j`. -/
def PrunedBetween (id : LinkId) (i j : Nat) (t : Trace Event) : Prop :=
  ∃ r r' k, (j, .inserted r') ∈ t ∧ r'.id = id ∧ (i, .inserted r) ∈ before (j, .inserted r') t ∧
    r.id = id ∧ (k, .pruned id) ∈ since (i, .inserted r) (before (j, .inserted r') t)

/-- Creates are atomic in the runs that meet `ok`, where `creating` tells which threads are creates. -/
structure CreatesAtomic {χ P σ : Type} (env : Env) (M : Program Request χ P σ Event)
    (links : σ → Links) (creating : P → Bool) (ok : Program.Guard χ P σ Event) (s₀ : σ) :
    Prop where
  request : ∀ validate, creating (M.init (.postMessages validate)) = true
  call : ∀ record ciphertext, creating (M.init (.createWithCiphertext record ciphertext)) = true
  /-- A request is answered 201 exactly when it stored its row and its ciphertext. -/
  answered : ∀ c, M.Reachable ok s₀ c → ∀ i r, (i, .answered r) ∈ c.trace →
    (r.status = 201 ↔
      ∃ record b, (i, .inserted record) ∈ c.trace ∧ (i, .stored record.id b) ∈ c.trace)
  /-- The 201 names the id of the row. -/
  named : ∀ c, M.Reachable ok s₀ c → ∀ i r, (i, .answered r) ∈ c.trace → r.status = 201 →
    ∃ record token, (i, .inserted record) ∈ c.trace ∧ r = env.created record.id token
  /-- A create that was answered anything else, or failed, has stored no ciphertext and left no row. -/
  undone : ∀ c, M.Reachable ok s₀ c → ∀ i,
    (∃ r, (i, .answered r) ∈ c.trace ∧ r.status ≠ 201) ∨ (∃ id, (i, .rolledBack id) ∈ c.trace) →
      (∀ id b, (i, .stored id b) ∉ c.trace) ∧
      ∀ id, owner c.trace id = some i → (links c.shared id).row = none
  /-- There is no token hash or terminal timestamp without a row. -/
  clean : ∀ c, M.Reachable ok s₀ c → ∀ id, (links c.shared id).row = none →
    (links c.shared id).hash = none ∧ (links c.shared id).terminalAt = none
  /-- A create that has not stored its ciphertext leaves every ciphertext and every row of others, with
  its token hash, as it is. -/
  frame : ∀ c, M.Reachable ok s₀ c → ∀ i x p p' s' es, c.threads[i]? = some p →
    ok i x p c.shared c.trace → M.step i x p c.shared = some (p', s', es) → creating p = true →
      (∀ id b, .stored id b ∉ es) → ∀ id, (links s' id).blob = (links c.shared id).blob ∧
        ∀ row, (links c.shared id).row = some row → owner c.trace id ≠ some i →
          links s' id = links c.shared id
  /-- Of two creates that stored under one id, the row of one was pruned before the other. -/
  exclusive : ∀ c, M.Reachable ok s₀ c → ∀ i j id, i ≠ j →
    (∃ b, (i, .stored id b) ∈ c.trace) → (∃ b, (j, .stored id b) ∈ c.trace) →
      PrunedBetween id i j c.trace ∨ PrunedBetween id j i c.trace

namespace LinkServer

variable {χ P σ : Type} {env : Env} {M : Program Request χ P σ Event} {links : σ → Links}
  {stage : P → Stage} {inv : σ → Prop} {ok : Program.Guard χ P σ Event} {s₀ : σ}
  {creating : P → Bool} {c : Config P σ Event}

theorem accounted (h : LinkServer env M links stage inv) (hempty : links s₀ = fun _ ↦ Link.vacant)
    (hinv : inv s₀)
    (own : ∀ {i x p s t token record}, ok i x p s t → stage p = .undoing token record →
      OwnRow (links s) i record t)
    (hc : M.Reachable ok s₀ c) : Accounted (links c.shared) c.trace := by
  refine Program.Reachable.shared (I := fun s t ↦ Accounted (links s) t) ?_ ?_
    (h.strengthen hempty hinv hc)
  · rw [hempty]
    exact ⟨fun _ ↦ tidy_vacant, by rintro i record ⟨⟩, trivial, by rintro i id ⟨⟩⟩
  · rintro i x p s t p' s' es ⟨hok, hkept, htold⟩ hI hstep
    exact hI.step (h.act hkept.state hstep) htold fun token record hu ↦ own hok hu

/-- Of two insertions of one id, the row of the earlier was pruned before the later, if it was not
undone. -/
theorem prunedBetween (h : Accounted (links c.shared) c.trace) {i j : Nat}
    {r r' : CreateLinkRecord} (hj : (j, .inserted r') ∈ c.trace)
    (hi : (i, .inserted r) ∈ before (j, .inserted r') c.trace) (hid : r.id = r'.id)
    (hkept : ∀ id, (i, .rolledBack id) ∉ c.trace) : PrunedBetween r.id i j c.trace := by
  rcases h.spaced.gone hj hi hid with ⟨k, hk⟩ | hback
  · exact ⟨r, r', k, hj, hid.symm, hi, rfl, hk⟩
  · exact absurd (mem_of_mem_before hback) (hkept r.id)

theorem createsAtomic (h : LinkServer env M links stage inv)
    (hempty : links s₀ = fun _ ↦ Link.vacant) (hinv : inv s₀)
    (request : ∀ validate, creating (M.init (.postMessages validate)) = true)
    (call : ∀ record ciphertext, creating (M.init (.createWithCiphertext record ciphertext)) = true)
    (own : ∀ {i x p s t token record}, ok i x p s t → stage p = .undoing token record →
      OwnRow (links s) i record t)
    (touches : ∀ {i x p s p' s' es}, M.step i x p s = some (p', s', es) → creating p = true →
      inv s → Touches (links s) (links s') (stage p) es) :
    CreatesAtomic env M links creating ok s₀ where
  request := request
  call := call
  answered := by
    intro c hc i r hr
    have hanswered := (h.kind hempty hinv hc i).of_answered (mem_mine.mpr hr)
    constructor
    · intro h201
      obtain ⟨record, b, -, -, hi, hb⟩ := hanswered.1 h201
      exact ⟨record, b, mem_mine.mp hi, mem_mine.mp hb⟩
    · rintro ⟨record, b, -, hb⟩
      exact hanswered.2 ⟨record.id, b, mem_mine.mpr hb⟩
  named := by
    intro c hc i r hr h201
    obtain ⟨record, -, token, heq, hi, -⟩ :=
      ((h.kind hempty hinv hc i).of_answered (mem_mine.mpr hr)).1 h201
    exact ⟨record, token, mem_mine.mp hi, heq⟩
  undone := by
    intro c hc i hfail
    have hkind := h.kind hempty hinv hc i
    have hacc := h.accounted hempty hinv own hc
    rcases hfail with ⟨r, hr, h201⟩ | ⟨id, hback⟩
    · refine ⟨fun id b hb ↦ ?_, fun id howner ↦ ?_⟩
      · exact h201 ((hkind.of_answered (mem_mine.mpr hr)).2 ⟨id, b, mem_mine.mpr hb⟩)
      · obtain ⟨record, hi, -⟩ := inserted_of_owner howner
        have hback := hkind.of_failed (mem_mine.mpr hr) h201 (mem_mine.mpr hi)
        exact hacc.undone i _ (mem_mine.mp hback) id howner
    · refine ⟨fun id' b hb ↦ ?_, hacc.undone i id hback⟩
      exact (hkind.of_stored (mem_mine.mpr hb)).2.2 id (mem_mine.mpr hback)
  clean := fun c hc id hr ↦ ((h.accounted hempty hinv own hc).tidy id).of_absent hr
  frame := by
    intro c hc i x p p' s' es hp hok hstep hcreating hstored id
    have hstate := (h.holds hempty hinv hc).shared.state
    exact (touches hstep hcreating hstate).frame hstored (fun token record hu ↦ own hok hu) id
  exclusive := by
    rintro c hc i j id hij ⟨b, hb⟩ ⟨b', hb'⟩
    have hacc := h.accounted hempty hinv own hc
    obtain ⟨⟨r, hr, rfl⟩, -, hkept⟩ := (h.kind hempty hinv hc i).of_stored (mem_mine.mpr hb)
    obtain ⟨⟨r', hr', hid⟩, -, hkept'⟩ := (h.kind hempty hinv hc j).of_stored (mem_mine.mpr hb')
    have hne : (i, Event.inserted r) ≠ (j, .inserted r') := fun heq ↦ hij (Prod.mk.inj heq).1
    rcases mem_before_or hne (mem_mine.mp hr) (mem_mine.mp hr') with hm | hm
    · exact .inl (prunedBetween hacc (mem_mine.mp hr') hm hid.symm
        fun k hk ↦ hkept k (mem_mine.mpr hk))
    · refine .inr (hid ▸ prunedBetween hacc (mem_mine.mp hr) hm hid
        fun k hk ↦ hkept' k (mem_mine.mpr hk))

end LinkServer

/-! ## The two stores -/

namespace Memory

/-- The thread serves a create. -/
def creating : Pc → Bool
  | .start (.postMessages _) | .start (.createWithCiphertext ..) => true
  | .checked .. | .put .. | .rollback .. | .created .. => true
  | _ => false

theorem insert_touches {s : MemoryStore} {record : CreateLinkRecord}
    {ciphertext : List UInt8} {token : Option String} (a : Stage) :
    Touches s.link (insert s record ciphertext token).2.1.link a
      (insert s record ciphertext token).2.2 := by
  unfold insert
  cases hc : s.create record with
  | error e => exact .inl rfl
  | ok result =>
    obtain ⟨row, s'⟩ := result
    obtain ⟨habs, -, hl⟩ := MemoryStore.create_eq_ok hc
    exact .inr (.inl ⟨record, habs, hl⟩)

theorem creating_touches {env : Env} {i : Nat} {x : Input} {p p' : Pc} {s s' : MemoryStore}
    {es : List Event} (h : (program env).step i x p s = some (p', s', es))
    (hp : creating p = true) : Touches s.link s'.link (stage p) es := by
  change step env i x p s = some (p', s', es) at h
  have of : ∀ {r : Pc × MemoryStore × List Event} {a : Stage}, Touches s.link r.2.1.link a r.2.2 →
      some r = some (p', s', es) → Touches s.link s'.link a es := by
    rintro _ a hr ⟨⟩
    exact hr
  cases p with
  | start request =>
    cases request with
    | postMessages validate =>
      simp only [step, begin_] at h
      split at h
      · cases h
        exact .inl rfl
      split at h
      · cases h
        exact .inl rfl
      · cases h
        exact .inl rfl
    | createWithCiphertext record ciphertext => exact of (insert_touches _) h
    | _ => cases hp
  | checked draft existing =>
    cases existing with
    | some row =>
      cases h
      exact .inl rfl
    | none => exact of (insert_touches _) h
  | put token record ciphertext =>
    simp only [step] at h
    split at h
    · cases h
      exact .inl rfl
    · cases h
      exact .inr (.inr (.inl ⟨record.id, ciphertext, List.mem_cons_self⟩))
  | rollback token record =>
    cases h
    exact .inr (.inr (.inr ⟨token, record, rfl, MemoryStore.link_rollback s record.id⟩))
  | created token record ciphertext =>
    cases h
    exact .inl rfl
  | _ => cases hp

/-- The condition under which creates are atomic in memory: a rollback finds its own row, still
active, or none. -/
def RollsBackOwn : Program.Guard Input Pc MemoryStore Event :=
  fun i _ p s t ↦
    match p with
    | .rollback _ record => OwnRow s.link i record t
    | _ => True

instance (i : Nat) (x : Input) (p : Pc) (s : MemoryStore) (t : Trace Event) :
    Decidable (RollsBackOwn i x p s t) :=
  match p with
  | .rollback _ record => inferInstanceAs (Decidable (OwnRow s.link i record t))
  | .start _ | .checked .. | .put .. | .created .. | .increment .. | .opened .. | .incremented ..
  | .revoked .. | .purge .. | .purged _ | .sweepGot .. | .sweepNext _ | .pruneNext .. | .done =>
    isTrue trivial

end Memory

namespace Postgres

/-- The thread serves a create. -/
def creating : Pc → Bool
  | .start (.postMessages _) | .start (.createWithCiphertext ..) => true
  | .checked .. | .insertBlob .. | .commitCreate .. | .created .. | .rollback _ => true
  | _ => false

theorem insertRow_touches {i : Nat} {x : Input} {s s' : State} {record : CreateLinkRecord}
    {ciphertext : List UInt8} {token : Option String} {p' : Pc} {es : List Event} (a : Stage)
    (h : insertRow i x s record ciphertext token = some (p', s', es)) :
    Touches (links s) (links s') a es := by
  unfold insertRow at h
  split at h
  · cases h
    exact .inl rfl
  split at h
  · cases h
  split at h
  · cases h
    exact .inl rfl
  · cases h
    exact .inl rfl

theorem creating_touches {env : Env} {i : Nat} {x : Input} {p p' : Pc} {s s' : State}
    {es : List Event} (h : (program env).step i x p s = some (p', s', es))
    (hp : creating p = true) : Touches (links s) (links s') (stage p) es := by
  change step env i x p s = some (p', s', es) at h
  cases p with
  | start request =>
    cases request with
    | postMessages validate =>
      simp only [step, begin_] at h
      split at h
      · cases h
        exact .inl rfl
      split at h
      · cases h
        exact .inl rfl
      split at h
      · cases h
        exact .inl rfl
      · cases h
        exact .inl rfl
    | createWithCiphertext record ciphertext => exact insertRow_touches _ h
    | _ => cases hp
  | checked draft existing =>
    cases existing with
    | some row =>
      cases h
      exact .inl rfl
    | none => exact insertRow_touches _ h
  | insertBlob token record ciphertext =>
    simp only [step] at h
    split at h
    · cases h
      exact .inl rfl
    split at h
    · cases h
      exact .inl rfl
    · cases h
      exact .inl rfl
  | commitCreate token record ciphertext =>
    simp only [step] at h
    split at h
    · cases h
      exact .inl rfl
    split at h
    · cases h
      exact .inl rfl
    · cases h
      exact .inr (.inr (.inl ⟨record.id, ciphertext, List.mem_cons_self⟩))
  | created token record ciphertext =>
    cases h
    exact .inl rfl
  | rollback request =>
    cases h
    exact .inl rfl
  | _ => cases hp

end Postgres

/-- Creates are atomic: in memory as long as rollbacks find their own rows, in Postgres always. -/
theorem creates_atomic (env : Env) :
    CreatesAtomic env (Memory.program env) MemoryStore.link Memory.creating Memory.RollsBackOwn
      MemoryStore.empty ∧
    CreatesAtomic env (Postgres.program env) Postgres.links Postgres.creating .always
      Postgres.State.initial := by
  constructor
  · refine (Memory.linkServer env).createsAtomic rfl trivial (fun _ ↦ rfl) (fun _ _ ↦ rfl) ?_
      fun h hp _ ↦ Memory.creating_touches h hp
    intro i x p s t token record hok hstage
    have hp := Memory.stage_inv p
    rw [hstage] at hp
    cases hp
    exact hok
  · refine (Postgres.linkServer env).createsAtomic rfl (by rintro id row ⟨⟩) (fun _ ↦ rfl)
      (fun _ _ ↦ rfl) ?_ fun h hp _ ↦ Postgres.creating_touches h hp
    intro i x p s t token record _ hstage
    have hp := Postgres.stage_inv p
    rw [hstage] at hp
    cases hp

/-- Three creates of one id, whose first fails to write its ciphertext: before its row is pruned, or
after that and the insertion of the second. -/
def failingCreate (late : Bool) : List (Action Request Memory.Input) :=
  let record : CreateLinkRecord := ⟨"AAAAAAAAAAAAAAAA", 1000, 1, none⟩
  [.spawn (.createWithCiphertext record [1]), .spawn (.createWithCiphertext record [2]),
    .spawn (.createWithCiphertext record [3]), .spawn (.adminPurge record.id),
    .spawn (.pruneTerminal (some 10)), .run 0 (.at 1)] ++
  if late then
    [.run 3 (.at 2), .run 4 (.at 11), .run 1 (.at 12), .run 1 (.at 13),
      .run 0 { Memory.Input.at 14 with fails := true }, .run 0 (.at 15), .run 2 (.at 16),
      .run 2 (.at 17)]
  else
    [.run 0 { Memory.Input.at 2 with fails := true }, .run 0 (.at 3), .run 1 (.at 4),
      .run 1 (.at 5), .run 2 (.at 6)]

theorem creates_atomic_sample :
    ∃ c, (Memory.program .sample).exec Memory.RollsBackOwn (Program.start MemoryStore.empty)
      (failingCreate false) = some c ∧ (0, .rolledBack "AAAAAAAAAAAAAAAA") ∈ c.trace ∧
        ∀ id, owner c.trace id = some 0 → (c.shared.link id).row = none := by
  have hrun : ((Memory.program .sample).exec Memory.RollsBackOwn (Program.start MemoryStore.empty)
      (failingCreate false)).map
        (fun c ↦ decide ((0, Event.rolledBack "AAAAAAAAAAAAAAAA") ∈ c.trace)) = some true := by
    decide
  obtain ⟨c, hc, hm⟩ := Option.map_eq_some_iff.mp hrun
  have hm := of_decide_eq_true hm
  exact ⟨c, hc, hm, ((creates_atomic .sample).1.undone c (Program.runs_of_exec hc) 0
    (.inr ⟨_, hm⟩)).2⟩

/-- In memory the rollback of a create whose row has been pruned removes the row of the create after
it, and a third create of the id succeeds. -/
theorem foreign_rollback : ¬∀ env,
    CreatesAtomic env (Memory.program env) MemoryStore.link Memory.creating .always
      MemoryStore.empty ∧
    CreatesAtomic env (Postgres.program env) Postgres.links Postgres.creating .always
      Postgres.State.initial := by
  intro h
  have hrun : ((Memory.program .sample).exec .always (Program.start MemoryStore.empty)
      (failingCreate true)).map (·.trace) =
      some [(2, .stored "AAAAAAAAAAAAAAAA" [3]),
        (2, .inserted ⟨"AAAAAAAAAAAAAAAA", 1000, 1, none⟩), (0, .rolledBack "AAAAAAAAAAAAAAAA"),
        (1, .stored "AAAAAAAAAAAAAAAA" [2]),
        (1, .inserted ⟨"AAAAAAAAAAAAAAAA", 1000, 1, none⟩), (4, .pruned "AAAAAAAAAAAAAAAA"),
        (3, .acted "AAAAAAAAAAAAAAAA"),
        (0, .inserted ⟨"AAAAAAAAAAAAAAAA", 1000, 1, none⟩)] := by
    decide
  obtain ⟨c, hc, ht⟩ := Option.map_eq_some_iff.mp hrun
  have hexclusive := (h .sample).1.exclusive c (Program.runs_of_exec hc) 1 2 "AAAAAAAAAAAAAAAA"
    (by decide) ⟨[2], by rw [ht]; decide⟩ ⟨[3], by rw [ht]; decide⟩
  rw [ht] at hexclusive
  rcases hexclusive with ⟨r, r', k, hj, -, hi, -, hk⟩ | ⟨r, r', k, hj, -, hi, -, -⟩
  · obtain rfl : r' = ⟨"AAAAAAAAAAAAAAAA", 1000, 1, none⟩ := by simpa using hj
    obtain rfl : r = ⟨"AAAAAAAAAAAAAAAA", 1000, 1, none⟩ := by
      simpa using mem_of_mem_before hi
    simp [since, before] at hk
  · obtain rfl : r' = ⟨"AAAAAAAAAAAAAAAA", 1000, 1, none⟩ := by simpa using hj
    simp [before] at hi

end Aesmsg.Server
