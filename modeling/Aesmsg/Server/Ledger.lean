import Aesmsg.Server.Protocol

/-!
# The ledger of opens

What a step of the link protocol may do to the rows: close some of them, insert one, or count an open
on one that is live.  From this alone the opens counted on a row are numbered from one and bounded by
its `maxOpens`.

## Main results

- `Ledger.move`: the ledger invariant is kept by every move.
- `LinkServer.keeps`: with the story of every thread it is an invariant of every server that refines
  the protocol.
- `LinkServer.opens_bounded`, `LinkServer.opens_final`: the bound on the opens and deliveries of one
  row, and the end of its opens once it is closed.
-/

namespace Aesmsg.Server

open Store Api Threads

abbrev Rows := LinkId → Option LinkMetadata

/-- A row is kept, removed, or moved to a terminal status. -/
def Closes (rows rows' : Rows) : Prop :=
  ∀ id, rows' id = rows id ∨ rows' id = none ∨
    ∃ row status, rows id = some row ∧ status ≠ LinkStatus.active ∧
      rows' id = some { row with status := status }

/-- What one step does to the rows, with the events it emits. -/
inductive Move : Rows → List Event → Rows → Prop
  | close {rows rows' : Rows} {es : List Event} (quiet : ∀ e ∈ es, e.isQuiet = true)
    (closes : Closes rows rows') : Move rows es rows'
  | insert {rows : Rows} {es : List Event} {record : CreateLinkRecord}
    (quiet : ∀ e ∈ es, e.isQuiet = true) (absent : rows record.id = none) :
    Move rows (es ++ [.inserted record]) (Function.update rows record.id (some record.meta))
  | «open» {rows : Rows} {es : List Event} {id : LinkId} {row : LinkMetadata} {now : Instant}
    (quiet : ∀ e ∈ es, e.isQuiet = true) (present : rows id = some row)
    (active : row.status = .active) (live : now < row.expiresAt) :
    Move rows (es ++ [.opened id row.opened now]) (Function.update rows id (some row.opened))

theorem Closes.refl (rows : Rows) : Closes rows rows := fun _ ↦ .inl rfl

theorem Move.quiet {rows : Rows} {es : List Event} (h : ∀ e ∈ es, e.isQuiet = true) :
    Move rows es rows := .close h (Closes.refl rows)

/-- The row under `id`, inserted by thread `c` from `record`, agrees with the trace. -/
structure Booked (t : Trace Event) (id : LinkId) (row : LinkMetadata) (c : Nat)
    (record : CreateLinkRecord) : Prop where
  owner : owner t id = some c
  inserted : (c, .inserted record) ∈ t
  id : record.id = id
  fields : row = { record.meta with status := row.status, opensCount := row.opensCount }
  count : row.opensCount = (opensOf c t).length
  below : 0 < record.maxOpens → row.status = .active → (row.opensCount : Int) < record.maxOpens

/-- The rows agree with the trace, and the opens counted on each row are numbered from one. -/
structure Ledger (rows : Rows) (t : Trace Event) : Prop where
  booked : ∀ id row, rows id = some row → ∃ c record, Booked t id row c record
  /-- A thread inserts at most one row. -/
  once : ∀ c record record', (c, .inserted record) ∈ t → (c, .inserted record') ∈ t →
    record = record'
  counts : ∀ c, (opensOf c t).map (·.2.opensCount) =
    (List.range' 1 (opensOf c t).length).reverse
  capped : ∀ c record, (c, .inserted record) ∈ t → 0 < record.maxOpens →
    ((opensOf c t).length : Int) ≤ record.maxOpens
  /-- A counted open read the clock before the expiry of its row, and found the row live. -/
  timely : ∀ i id row now, (i, .opened id row now) ∈ t → now < row.expiresAt

namespace Ledger

variable {rows rows' : Rows} {t : Trace Event} {i : Nat} {es : List Event}

theorem empty : Ledger (fun _ ↦ none) [] where
  booked := by rintro id row ⟨⟩
  once := by rintro c record record' ⟨⟩
  counts := fun _ ↦ rfl
  capped := by rintro c record ⟨⟩
  timely := by rintro i id row now ⟨⟩

theorem isQuiet_iff {e : Event} :
    e.isQuiet = true ↔ e.isInserted = false ∧ e.isOpened = false := by
  unfold Event.isQuiet
  rw [Bool.and_eq_true, Bool.not_eq_true', Bool.not_eq_true']

theorem mem_tag_append {e : Event} {j : Nat} (quiet : ∀ e ∈ es, e.isQuiet = true)
    (hloud : e.isQuiet = false) : (j, e) ∈ tag i es ++ t ↔ (j, e) ∈ t := by
  rw [List.mem_append]
  refine ⟨fun h ↦ h.resolve_left fun hm ↦ ?_, .inr⟩
  obtain ⟨e', he', heq⟩ := List.mem_map.mp hm
  obtain ⟨-, rfl⟩ := Prod.mk.inj heq
  rw [quiet e' he'] at hloud
  cases hloud

/-- Quiet events leave the ledger as it is. -/
theorem quiet (h : Ledger rows t) (quiet : ∀ e ∈ es, e.isQuiet = true) :
    Ledger rows (tag i es ++ t) := by
  have hown : ∀ id, owner (tag i es ++ t) id = owner t id :=
    owner_append_of_quiet fun e he ↦ (isQuiet_iff.mp (quiet e he)).1
  have hopens : ∀ c, opensOf c (tag i es ++ t) = opensOf c t :=
    opensOf_append_of_quiet fun e he ↦ (isQuiet_iff.mp (quiet e he)).2
  have hins : ∀ c record, (c, .inserted record) ∈ tag i es ++ t ↔ (c, .inserted record) ∈ t :=
    fun c record ↦ mem_tag_append quiet rfl
  refine ⟨?_, ?_, ?_, ?_, ?_⟩
  · intro id row hr
    obtain ⟨c, record, hb⟩ := h.booked id row hr
    exact ⟨c, record, (hown id).trans hb.owner, (hins c record).mpr hb.inserted, hb.id, hb.fields,
      by rw [hopens]; exact hb.count, hb.below⟩
  · intro c record record' hm hm'
    exact h.once c record record' ((hins c record).mp hm) ((hins c record').mp hm')
  · intro c
    rw [hopens]
    exact h.counts c
  · intro c record hm hpos
    rw [hopens]
    exact h.capped c record ((hins c record).mp hm) hpos
  · intro j id row now hm
    exact h.timely j id row now ((mem_tag_append quiet rfl).mp hm)

theorem close (h : Ledger rows t) (hc : Closes rows rows') : Ledger rows' t where
  booked := by
    intro id row hr
    rcases hc id with hk | hk | ⟨r, status, hr', hs, hk⟩
    · exact h.booked id row (hk.symm.trans hr)
    · rw [hk] at hr
      cases hr
    · rw [hk] at hr
      cases hr
      obtain ⟨c, record, hb⟩ := h.booked id r hr'
      refine ⟨c, record, hb.owner, hb.inserted, hb.id, ?_, hb.count, fun _ ha ↦ absurd ha hs⟩
      have hf := hb.fields
      rw [hf]
  once := h.once
  counts := h.counts
  capped := h.capped
  timely := h.timely

theorem insert (h : Ledger rows t) (record : CreateLinkRecord)
    (fresh : ∀ record, (i, .inserted record) ∉ t) :
    Ledger (Function.update rows record.id (some record.meta)) ((i, .inserted record) :: t) := by
  have hopens : ∀ c, opensOf c ((i, .inserted record) :: t) = opensOf c t := fun _ ↦ rfl
  have hnone : opensOf i t = [] := by
    rw [List.eq_nil_iff_forall_not_mem]
    intro x hx
    obtain ⟨r, hr⟩ := owner_of_mem_opensOf hx
    exact fresh r hr
  refine ⟨?_, ?_, h.counts, ?_, ?_⟩
  · intro id row hr
    by_cases hid : id = record.id
    · subst hid
      rw [Function.update_self] at hr
      cases hr
      refine ⟨i, record, if_pos rfl, List.mem_cons_self, rfl, rfl, ?_, fun hpos _ ↦ hpos⟩
      rw [hopens, hnone]
      rfl
    · rw [Function.update_of_ne hid] at hr
      obtain ⟨c, r, hb⟩ := h.booked id row hr
      refine ⟨c, r, ?_, List.mem_cons_of_mem _ hb.inserted, hb.id, hb.fields, hb.count, hb.below⟩
      exact (if_neg (Ne.symm hid)).trans hb.owner
  · intro c r r' hm hm'
    rcases List.mem_cons.mp hm with heq | hm <;> rcases List.mem_cons.mp hm' with heq' | hm'
    · cases heq
      cases heq'
      rfl
    · cases heq
      exact absurd hm' (fresh r')
    · cases heq'
      exact absurd hm (fresh r)
    · exact h.once c r r' hm hm'
  · intro c r hm hpos
    rcases List.mem_cons.mp hm with heq | hm
    · cases heq
      rw [hopens, hnone]
      exact Int.le_of_lt hpos
    · exact h.capped c r hm hpos
  · intro j id row now hm
    rcases List.mem_cons.mp hm with heq | hm
    · cases heq
    · exact h.timely j id row now hm

theorem «open» (h : Ledger rows t) {id : LinkId} {row : LinkMetadata} {now : Instant}
    (present : rows id = some row) (active : row.status = .active) (live : now < row.expiresAt) :
    Ledger (Function.update rows id (some row.opened)) ((i, .opened id row.opened now) :: t) := by
  obtain ⟨c, record, hb⟩ := h.booked id row present
  have hself : opensOf c ((i, .opened id row.opened now) :: t) =
      (i, row.opened) :: opensOf c t := if_pos hb.owner
  have hother : ∀ d, d ≠ c → opensOf d ((i, .opened id row.opened now) :: t) = opensOf d t := by
    intro d hd
    refine if_neg fun ho ↦ hd ?_
    rw [hb.owner] at ho
    exact (Option.some.inj ho).symm
  have hcount : row.opened.opensCount = (opensOf c t).length + 1 := congrArg (· + 1) hb.count
  have hmax : row.maxOpens = record.maxOpens := congrArg LinkMetadata.maxOpens hb.fields
  have hle : 0 < record.maxOpens → ((opensOf c t).length : Int) + 1 ≤ record.maxOpens := by
    intro hpos
    have := hb.below hpos active
    rw [hb.count] at this
    exact this
  have hins : ∀ d r, (d, .inserted r) ∈ (i, Event.opened id row.opened now) :: t →
      (d, .inserted r) ∈ t := by
    intro d r hm
    rcases List.mem_cons.mp hm with heq | hm
    · cases heq
    · exact hm
  refine ⟨?_, ?_, ?_, ?_, ?_⟩
  · intro j r hr
    by_cases hj : j = id
    · subst hj
      rw [Function.update_self] at hr
      cases hr
      refine ⟨c, record, hb.owner, List.mem_cons_of_mem _ hb.inserted, hb.id, ?_, ?_, ?_⟩
      · have hf := hb.fields
        rw [LinkMetadata.opened]
        rw [hf]
      · rw [hself]
        exact hcount
      · intro hpos ha
        -- still active after the open: the bound has not been reached
        have hx : ¬(row.maxOpens ≠ -1 ∧ row.maxOpens ≤ (row.opensCount + 1 : Nat)) := by
          intro hx
          have hs : row.opened.status = .expired := if_pos hx
          rw [hs] at ha
          cases ha
        have hne : row.maxOpens ≠ -1 := by
          rw [hmax]
          omega
        have hgt := Int.not_le.mp fun hge ↦ hx ⟨hne, hge⟩
        rw [hmax] at hgt
        exact hgt
    · rw [Function.update_of_ne hj] at hr
      obtain ⟨d, r', hb'⟩ := h.booked j r hr
      have hd : d ≠ c := by
        rintro rfl
        have := h.once d record r' hb.inserted hb'.inserted
        exact hj (by rw [← hb'.id, ← this, hb.id])
      exact ⟨d, r', hb'.owner, List.mem_cons_of_mem _ hb'.inserted, hb'.id, hb'.fields,
        by rw [hother d hd]; exact hb'.count, hb'.below⟩
  · intro d r r' hm hm'
    exact h.once d r r' (hins d r hm) (hins d r' hm')
  · intro d
    by_cases hd : d = c
    · subst hd
      rw [hself, List.map_cons, h.counts, List.length_cons, List.range'_1_concat,
        List.reverse_append]
      simp only [List.reverse_singleton, List.singleton_append, List.cons.injEq, and_true]
      rw [hcount, Nat.add_comm]
    · rw [hother d hd]
      exact h.counts d
  · intro d r hm hpos
    by_cases hd : d = c
    · subst hd
      have hr := h.once d r record (hins d r hm) hb.inserted
      rw [hself, hr]
      rw [hr] at hpos
      exact hle hpos
    · rw [hother d hd]
      exact h.capped d r (hins d r hm) hpos
  · intro j k r n hm
    rcases List.mem_cons.mp hm with heq | hm
    · cases heq
      exact live
    · exact h.timely j k r n hm

/-- The ledger invariant is kept by every move; a thread that inserts a row has not done so
before. -/
theorem move (h : Ledger rows t) (hm : Move rows es rows')
    (fresh : (∃ record, .inserted record ∈ es) → ∀ record, (i, .inserted record) ∉ t) :
    Ledger rows' (tag i es ++ t) := by
  cases hm with
  | close quiet closes => exact (h.close closes).quiet quiet
  | @insert es' record quiet _ =>
    have hf := fresh ⟨record, List.mem_append_right _ List.mem_cons_self⟩
    have hsplit : tag i (es' ++ [.inserted record]) ++ t =
        tag i es' ++ ((i, .inserted record) :: t) := by
      simp [tag]
    rw [hsplit]
    exact (h.insert record hf).quiet quiet
  | @«open» es' id row now quiet present active live =>
    have hsplit : tag i (es' ++ [.opened id row.opened now]) ++ t =
        tag i es' ++ ((i, .opened id row.opened now) :: t) := by
      simp [tag]
    rw [hsplit]
    exact (h.open present active live).quiet quiet

end Ledger

/-- The row that `creator` inserted is terminal, or gone. -/
def ClosedFor (creator : Nat) (rows : Rows) (t : Trace Event) : Prop :=
  ∀ id row, owner t id = some creator → rows id = some row → row.status ≠ .active

/-- A closed row stays closed, and no further open is counted on it. -/
theorem Move.final {rows rows' : Rows} {es : List Event} {t : Trace Event} {i creator : Nat}
    (hm : Move rows es rows') (hne : (∃ record, .inserted record ∈ es) → i ≠ creator)
    (hclosed : ClosedFor creator rows t) :
    ClosedFor creator rows' (tag i es ++ t) ∧ opensOf creator (tag i es ++ t) = opensOf creator t := by
  have owner_quiet : ∀ {es : List Event} {t : Trace Event}, (∀ e ∈ es, e.isQuiet = true) → ∀ id,
      owner (tag i es ++ t) id = owner t id := fun quiet ↦
    owner_append_of_quiet fun e he ↦ (Ledger.isQuiet_iff.mp (quiet e he)).1
  have opens_quiet : ∀ {es : List Event} {t : Trace Event}, (∀ e ∈ es, e.isQuiet = true) →
      opensOf creator (tag i es ++ t) = opensOf creator t := fun quiet ↦
    opensOf_append_of_quiet (fun e he ↦ (Ledger.isQuiet_iff.mp (quiet e he)).2) creator
  cases hm with
  | close quiet closes =>
    refine ⟨fun id row ho hrow ↦ ?_, opens_quiet quiet⟩
    rw [owner_quiet quiet] at ho
    rcases closes id with hk | hk | ⟨old, status, hold, hs, hk⟩
    · exact hclosed id row ho (hk.symm.trans hrow)
    · rw [hk] at hrow
      cases hrow
    · rw [hk] at hrow
      cases hrow
      exact hs
  | @insert es' record quiet absent =>
    have hic : i ≠ creator := hne ⟨record, List.mem_append_right _ List.mem_cons_self⟩
    have hsplit : tag i (es' ++ [.inserted record]) ++ t =
        tag i es' ++ ((i, .inserted record) :: t) := by
      simp [tag]
    rw [hsplit]
    refine ⟨fun id row ho hrow ↦ ?_, opens_quiet quiet⟩
    rw [owner_quiet quiet, owner] at ho
    split at ho
    · exact absurd (Option.some.inj ho) hic
    · rename_i hid
      rw [Function.update_of_ne (Ne.symm hid)] at hrow
      exact hclosed id row ho hrow
  | @«open» es' id row now quiet present active live =>
    have hown : owner t id ≠ some creator := fun ho ↦ hclosed id row ho present active
    have hsplit : tag i (es' ++ [.opened id row.opened now]) ++ t =
        tag i es' ++ ((i, .opened id row.opened now) :: t) := by
      simp [tag]
    rw [hsplit]
    refine ⟨fun j r ho hrow ↦ ?_, (opens_quiet quiet).trans (if_neg hown)⟩
    rw [owner_quiet quiet] at ho
    have hj : j ≠ id := by
      rintro rfl
      exact hown ho
    rw [Function.update_of_ne hj] at hrow
    exact hclosed j r ho hrow

/-! ## Steps of the protocol -/

def rowsOf (links : Links) : Rows := fun id ↦ (links id).row

section Act

variable {env : Env} {links links' : Links} {a b : Stage} {es : List Event}

theorem rowsOf_update {id : LinkId} {l : Link} (h : links' = Function.update links id l) :
    rowsOf links' = Function.update (rowsOf links) id l.row := by
  funext j
  unfold rowsOf
  rw [h]
  by_cases hj : j = id
  · subst hj
    rw [Function.update_self, Function.update_self]
  · rw [Function.update_of_ne hj, Function.update_of_ne hj]

theorem Closing.row {l l' : Link} (h : Closing l l') :
    l'.row = l.row ∨ l'.row = none ∨ ∃ row status, l.row = some row ∧ status ≠ LinkStatus.active ∧
      l'.row = some { row with status := status } := by
  cases h with
  | keep => exact .inl rfl
  | terminate present closed stamp => exact .inr (.inr ⟨_, _, present, closed, rfl⟩)
  | shut present closed stamp => exact .inr (.inr ⟨_, _, present, closed, rfl⟩)
  | purge terminal => exact .inl rfl
  | prune terminal => exact .inr (.inl rfl)

theorem Closing.blob {l l' : Link} (h : Closing l l') : l'.blob = l.blob ∨ l'.blob = none := by
  cases h with
  | keep | terminate => exact .inl rfl
  | shut | purge | prune => exact .inr rfl

theorem blob_increment {l : Link} {row : LinkMetadata} {now : Instant} (stamp : Instant)
    (present : l.row = some row) (active : row.status = .active) (live : now < row.expiresAt) :
    (l.increment now stamp).blob = if row.opened.status = .expired then none else l.blob := by
  have ho := Link.openedRow_eq_some.mpr ⟨row, present, active, live, rfl⟩
  unfold Link.increment
  rw [ho]
  dsimp only
  split
  · rfl
  · rfl

theorem row_increment {l : Link} {row : LinkMetadata} {now : Instant} (stamp : Instant)
    (present : l.row = some row) (active : row.status = .active) (live : now < row.expiresAt) :
    (l.increment now stamp).row = some row.opened := by
  have ho := Link.openedRow_eq_some.mpr ⟨row, present, active, live, rfl⟩
  unfold Link.increment
  rw [ho]
  dsimp only
  split
  · rfl
  · rfl

theorem isQuiet_finish {answer : Option Response} {e : Event} (h : e ∈ finish answer) :
    e.isQuiet = true := by
  obtain ⟨r, -, rfl⟩ := mem_finish.mp h
  rfl

theorem isQuiet_completion {id : LinkId} {row : Option LinkMetadata} {e : Event}
    (h : e ∈ completion id row) : e.isQuiet = true := by
  obtain ⟨rfl, -⟩ := mem_completion.mp h
  rfl

/-- A step of the protocol is a move. -/
theorem Act.move (h : Act env links links' a es b) : Move (rowsOf links) es (rowsOf links') := by
  have none : ∀ e ∈ ([] : List Event), e.isQuiet = true := by rintro e ⟨⟩
  have one : ∀ e : Event, e.isQuiet = true → ∀ e' ∈ [e], e'.isQuiet = true := by
    intro e he e' hm
    obtain rfl := List.mem_singleton.mp hm
    exact he
  have same : ∀ {es : List Event}, links' = links → (∀ e ∈ es, e.isQuiet = true) →
      Move (rowsOf links) es (rowsOf links') := by
    rintro es rfl hes
    exact .quiet hes
  have update : ∀ {id : LinkId} {l : Link} {es : List Event},
      links' = Function.update links id l → (l.row = (links id).row ∨ l.row = Option.none) →
        (∀ e ∈ es, e.isQuiet = true) → Move (rowsOf links) es (rowsOf links') := by
    intro id l es link hl hes
    refine .close hes fun j ↦ ?_
    rw [rowsOf_update link]
    by_cases hj : j = id
    · subst hj
      rw [Function.update_self]
      exact hl.imp_right .inl
    · rw [Function.update_of_ne hj]
      exact .inl rfl
  have count : ∀ {id : LinkId} {row : LinkMetadata} {now stamp : Instant},
      (links id).row = some row → row.status = .active → now < row.expiresAt →
        links' = Function.update links id ((links id).increment now stamp) →
          Move (rowsOf links) (openEvents id row.opened now) (rowsOf links') := by
    intro id row now stamp present active live link
    rw [rowsOf_update link, row_increment _ present active live]
    refine .open ?_ present active live
    intro e he
    split at he
    · exact one _ rfl e he
    · cases he
  cases h with
  | wait h => exact same h none
  | close passes closing tidy pruned =>
    refine .close ?_ fun id ↦ (closing id).row
    intro e he
    obtain ⟨id, rfl⟩ := tidy e he
    rfl
  | quit answer plain early h => exact same h fun e he ↦ isQuiet_finish he
  | create absent link =>
    rw [rowsOf_update link]
    exact @Move.insert _ [] _ none absent
  | place token ciphertext absent link =>
    rw [rowsOf_update link]
    exact @Move.insert _ [] _ none absent
  | @commit record token ciphertext absent link =>
    rw [rowsOf_update link]
    exact @Move.insert _ [.stored record.id ciphertext] _ (one _ rfl) absent
  | put link => exact update link (.inl rfl) (one _ rfl)
  | fail h => exact same h none
  | undo link =>
    refine update link (.inr rfl) fun e he ↦ ?_
    rcases List.mem_append.mp he with he | he
    · exact isQuiet_finish he
    · exact one _ rfl e he
  | reply h => exact same h fun e he ↦ isQuiet_finish he
  | fetch id h => exact same h (one _ rfl)
  | miss h => exact same h none
  | count present active live link => exact count present active live link
  | respond h => exact same h (List.forall_mem_cons.mpr ⟨rfl, fun e he ↦ isQuiet_completion he⟩)
  | tally present active live link => exact count present active live link
  | act id early closing kept empty => exact .close (one _ rfl) fun j ↦ (closing j).row
  | drop id link => exact update link (.inl rfl) none
  | dropActed id link => exact update link (.inl rfl) (one _ rfl)
  | complete id answer plain h =>
    refine same h fun e he ↦ ?_
    rcases List.mem_append.mp he with he | he
    · exact isQuiet_finish he
    · exact one _ rfl e he

/-- Only a fresh thread inserts. -/
theorem Act.fresh_of_inserted (h : Act env links links' a es b)
    (hi : ∃ record, .inserted record ∈ es) : a = .fresh := by
  obtain ⟨record, hi⟩ := hi
  cases h with
  | close passes closing tidy pruned =>
    obtain ⟨id, hid⟩ := tidy _ hi
    cases hid
  | wait | create | place | commit | fetch | tally => rfl
  | count => simp [mem_openEvents] at hi
  | respond => simp [mem_completion] at hi
  | quit | undo | reply | complete => simp [mem_finish] at hi
  | put | fail | miss | act | drop | dropActed => simp at hi

theorem countP_finish (answer : Option Response) :
    (finish answer).countP (·.isAnswered) ≤ 1 := by
  cases answer with
  | none => exact Nat.zero_le _
  | some response => exact Nat.le_refl 1

theorem countP_completion (id : LinkId) (row : Option LinkMetadata) :
    (completion id row).countP (·.isAnswered) = 0 :=
  List.countP_eq_zero.mpr fun e he ↦ by
    obtain ⟨rfl, -⟩ := mem_completion.mp he
    simp [Event.isAnswered]

/-- A step answers at most once. -/
theorem Act.single (h : Act env links links' a es b) : es.countP (·.isAnswered) ≤ 1 := by
  have quiet : ∀ {es : List Event}, (∀ e ∈ es, e.isAnswered = false) →
      es.countP (·.isAnswered) ≤ 1 := by
    intro es hes
    rw [List.countP_eq_zero.mpr fun e he ↦ by simp [hes e he]]
    exact Nat.zero_le 1
  have opens : ∀ id row now, ∀ e ∈ openEvents id row now, e.isAnswered = false := by
    intro id row now e he
    rcases mem_openEvents.mp he with ⟨rfl, -⟩ | rfl <;> rfl
  cases h with
  | close passes closing tidy pruned =>
    refine quiet fun e he ↦ ?_
    obtain ⟨id, rfl⟩ := tidy e he
    rfl
  | quit answer | reply => exact countP_finish _
  | undo =>
    rw [List.countP_append]
    exact countP_finish _
  | complete id answer =>
    rw [List.countP_append]
    exact countP_finish answer
  | @respond id blob row =>
    refine Nat.le_of_eq ?_
    rw [List.countP_cons_of_pos rfl, countP_completion]
  | count | tally => exact quiet (opens _ _ _)
  | wait | create | place | commit | put | fail | fetch | miss | act | drop | dropActed =>
    exact quiet (by simp [Event.isAnswered])

/-- A thread that is done takes no step. -/
theorem Act.ne_done (h : Act env links links' a es b) : a ≠ .done := by
  cases h with
  | close passes => cases passes <;> nofun
  | quit answer plain early => rcases early with rfl | rfl | ⟨id, blob, rfl⟩ <;> nofun
  | act id early => rcases early with rfl | rfl <;> nofun
  | _ => nofun

/-- Only a thread that is done has answered. -/
theorem Story.not_answered {h : List Event} (hs : Story env a h) (ha : a ≠ .done)
    (response : Response) : .answered response ∉ h := by
  intro hr
  cases a with
  | fresh | placed | undoing | kept | fetched =>
    cases hs
    simp at hr
  | counted id blob row =>
    cases row with
    | none =>
      cases hs
      simp at hr
    | some row =>
      obtain ⟨now, rfl⟩ := hs
      simp [mem_openEvents] at hr
  | owing id => cases hs.1 _ hr
  | dropping id | busy => cases hs _ hr
  | done => exact ha rfl

end Act

/-! ## Servers -/

namespace LinkServer

variable {χ P σ : Type} {env : Env} {M : Program Request χ P σ Event} {links : σ → Links}
  {stage : P → Stage} {inv : σ → Prop} {ok : Program.Guard χ P σ Event}

/-- The ledger agrees with the rows, and no request is delivered to twice. -/
structure Kept (links : σ → Links) (inv : σ → Prop) (s : σ) (t : Trace Event) : Prop where
  state : inv s
  ledger : Ledger (rowsOf (links s)) t
  nodup : ∀ c, (deliveries c t).Nodup

/-- What a thread has emitted is the story of its stage. -/
def Told (env : Env) (stage : P → Stage) (i : Nat) (p : P) (_ : σ) (t : Trace Event) : Prop :=
  Story env (stage p) (mine i t)

/-- A thread that inserts has not done so before. -/
theorem fresh {i : Nat} {a b : Stage} {l l' : Links} {es : List Event} {t : Trace Event}
    (ha : Act env l l' a es b) (hs : Story env a (mine i t)) (hi : ∃ record, .inserted record ∈ es)
    (record : CreateLinkRecord) : (i, .inserted record) ∉ t := by
  cases ha.fresh_of_inserted hi
  intro hm
  have hmine : mine i t = [] := hs
  have := mem_mine.mpr hm
  rw [hmine] at this
  cases this

/-- The ledger and the stories are a thread-modular invariant. -/
theorem keeps (h : LinkServer env M links stage inv) :
    M.Keeps ok (Kept links inv) (Told env stage) where
  born := by
    intro i request s t _ hne
    have hmine : mine i t = [] := by
      rw [List.eq_nil_iff_forall_not_mem]
      intro e he
      exact hne _ (mem_mine.mp he) rfl
    unfold Told
    rw [h.start, hmine]
    rfl
  own := by
    intro i x p s t p' s' es _ hI hL hstep
    have hact := h.act hI.state hstep
    have hstory : Told env stage i p' s' (tag i es ++ t) := by
      unfold Told
      rw [mine_tag_append]
      exact hact.story hL
    refine ⟨⟨h.keep hI.state hstep, hI.ledger.move hact.move (fresh hact hL), fun c ↦ ?_⟩, hstory⟩
    rcases deliveries_append (i := i) (t := t) hact.single c with heq | heq
    · rw [heq]
      exact hI.nodup c
    · rw [heq]
      refine List.nodup_cons.mpr ⟨fun hm ↦ ?_, hI.nodup c⟩
      obtain ⟨⟨response, hr⟩, -⟩ := of_mem_deliveries hm
      exact Story.not_answered hL hact.ne_done response (mem_mine.mpr hr)
  others := by
    intro i x p s t p' s' es j q hij _ _ _ _ hq
    unfold Told
    rw [mine_tag_append_of_ne hij]
    exact hq

section Reachable

variable {s₀ : σ} {c c' : Config P σ Event}

theorem holds (h : LinkServer env M links stage inv) (hempty : links s₀ = fun _ ↦ Link.vacant)
    (hinv : inv s₀) (hc : M.Reachable ok s₀ c) :
    Program.Holds (Kept links inv) (Told env stage) c := by
  refine Program.invariant h.keeps ⟨hinv, ?_, fun _ ↦ List.nodup_nil⟩ hc
  rw [hempty]
  exact Ledger.empty

/-- What a thread has emitted is of one kind. -/
theorem kind (h : LinkServer env M links stage inv) (hempty : links s₀ = fun _ ↦ Link.vacant)
    (hinv : inv s₀) (hc : M.Reachable ok s₀ c) (i : Nat) : Kind env (mine i c.trace) := by
  have hholds := h.holds hempty hinv hc
  cases hp : c.threads[i]? with
  | some p => exact (hholds.thread i p hp).kind
  | none =>
    have hmine : mine i c.trace = [] := by
      rw [List.eq_nil_iff_forall_not_mem]
      intro e he
      have hlt : i < c.threads.length := hholds.actors _ (mem_mine.mp he)
      rw [List.getElem?_eq_getElem hlt] at hp
      cases hp
    rw [hmine]
    exact .other (by rintro e ⟨⟩)

/-- The steps of a run may assume the ledger and the stories. -/
theorem strengthen (h : LinkServer env M links stage inv) (hempty : links s₀ = fun _ ↦ Link.vacant)
    (hinv : inv s₀) (hc : M.Reachable ok s₀ c) :
    M.Reachable (Program.Guard.with ok (Kept links inv) (Told env stage)) s₀ c := by
  refine hc.strengthen h.keeps ⟨hinv, ?_, fun _ ↦ List.nodup_nil⟩
  rw [hempty]
  exact Ledger.empty

/-- The opens counted on the row of `creator` are numbered from one without gaps, there are at most
`maxOpens` of them, and no more requests are delivered to. -/
theorem opens_bounded (h : LinkServer env M links stage inv)
    (hempty : links s₀ = fun _ ↦ Link.vacant) (hinv : inv s₀) (hc : M.Reachable ok s₀ c)
    {creator : Nat} {record : CreateLinkRecord} (hi : (creator, .inserted record) ∈ c.trace)
    (hpos : 0 < record.maxOpens) :
    ∃ k : Nat, (k : Int) ≤ record.maxOpens ∧
      ((opensOf creator c.trace).map (·.2.opensCount)).reverse = List.range' 1 k ∧
      (deliveries creator c.trace).length ≤ k := by
  obtain ⟨⟨-, hledger, hnodup⟩, -, -⟩ := h.holds hempty hinv hc
  refine ⟨(opensOf creator c.trace).length, hledger.capped creator record hi hpos, ?_, ?_⟩
  · rw [hledger.counts, List.reverse_reverse]
  · have hsub : deliveries creator c.trace ⊆ (opensOf creator c.trace).map Prod.fst :=
      fun j hj ↦ (of_mem_deliveries hj).2
    have hle := ((hnodup creator).subperm hsub).length_le
    rwa [List.length_map] at hle

/-- The row of `creator` is terminal, or gone. -/
def RowClosed (links : σ → Links) (creator : Nat) (c : Config P σ Event) : Prop :=
  ClosedFor creator (rowsOf (links c.shared)) c.trace

theorem opens_final_step (h : LinkServer env M links stage inv) {creator : Nat}
    (hstep : M.Step (Program.Guard.with ok (Kept links inv) (Told env stage)) c c')
    (hi : ∃ record, (creator, .inserted record) ∈ c.trace) (hclosed : RowClosed links creator c) :
    RowClosed links creator c' ∧ opensOf creator c'.trace = opensOf creator c.trace := by
  cases hstep with
  | spawn request => exact ⟨hclosed, rfl⟩
  | run thread meets step =>
    have hact := h.act meets.2.1.state step
    refine hact.move.final (fun hins ↦ ?_) hclosed
    rintro rfl
    obtain ⟨record, hm⟩ := hi
    exact fresh hact meets.2.2 hins record hm

/-- Once the row of `creator` is terminal or gone, no further open is counted on it. -/
theorem opens_final (h : LinkServer env M links stage inv)
    (hempty : links s₀ = fun _ ↦ Link.vacant) (hinv : inv s₀) (hc : M.Reachable ok s₀ c)
    (hruns : M.Runs ok c c') {creator : Nat}
    (hi : ∃ record, (creator, .inserted record) ∈ c.trace) (hclosed : RowClosed links creator c) :
    opensOf creator c'.trace = opensOf creator c.trace := by
  have hstrong := h.keeps.runs_strengthen (h.holds hempty hinv hc) hruns
  have hall : (∃ record, (creator, .inserted record) ∈ c'.trace) ∧ RowClosed links creator c' ∧
      opensOf creator c'.trace = opensOf creator c.trace := by
    clear hruns
    induction hstrong with
    | refl => exact ⟨hi, hclosed, rfl⟩
    | tail _ hstep ih =>
      obtain ⟨hi', hclosed', heq⟩ := ih
      obtain ⟨hclosed'', heq'⟩ := h.opens_final_step hstep hi' hclosed'
      obtain ⟨record, hm⟩ := hi'
      obtain ⟨t, ht⟩ := Program.Runs.trace (Relation.ReflTransGen.single hstep)
      exact ⟨⟨record, by rw [ht]; exact List.mem_append_right _ hm⟩, hclosed'', heq'.trans heq⟩
  exact hall.2.2

end Reachable

end LinkServer

end Aesmsg.Server
