import Aesmsg.Server.Delivery
import Aesmsg.Server.Retention

/-!
# What a delivery contains

The ciphertext of a delivery was stored by a create, and its row was inserted by one.  What a create
request stores and inserts is the draft that its body was validated to.

## Main results

- `LinkServer.delivered_contents`: where the contents of a delivery come from.
- `LinkServer.delivered_draft`: the contents of a delivery of the one link with its id.
-/

namespace Aesmsg.Server

open Store Api Threads

/-- The row is that of the record, but for its status and its counter. -/
def CopyOf (record : CreateLinkRecord) (row : LinkMetadata) : Prop :=
  row = { record.meta with status := row.status, opensCount := row.opensCount }

theorem CopyOf.opened {record : CreateLinkRecord} {row : LinkMetadata} (h : CopyOf record row) :
    CopyOf record row.opened := by
  unfold CopyOf at h ⊢
  rw [LinkMetadata.opened, h]

/-- What is held, read and counted comes from creates. -/
structure Sourced (links : Links) (t : Trace Event) : Prop where
  held : ∀ id b, (links id).blob = some b → ∃ d, (d, .stored id b) ∈ t
  read : ∀ i id b, (i, .read id (some b)) ∈ t → ∃ d, (d, .stored id b) ∈ t
  opened : ∀ i id row now, (i, .opened id row now) ∈ t →
    ∃ d record, (d, .inserted record) ∈ t ∧ record.id = id ∧ CopyOf record row

/-- An open is counted on a row that is there. -/
theorem Move.of_opened {rows rows' : Rows} {es : List Event} (h : Move rows es rows') {id : LinkId}
    {row : LinkMetadata} {now : Instant} (hm : .opened id row now ∈ es) :
    ∃ old, rows id = some old ∧ row = old.opened := by
  have loud : ∀ {es : List Event}, (∀ e ∈ es, e.isQuiet = true) → .opened id row now ∉ es := by
    intro es quiet hm
    cases quiet _ hm
  cases h with
  | close quiet closes => exact absurd hm (loud quiet)
  | insert quiet absent =>
    rcases List.mem_append.mp hm with hm | hm
    · exact absurd hm (loud quiet)
    · cases List.mem_singleton.mp hm
  | @«open» es' j old now' quiet present active live =>
    rcases List.mem_append.mp hm with hm | hm
    · exact absurd hm (loud quiet)
    · cases List.mem_singleton.mp hm
      exact ⟨old, present, rfl⟩

section Act

variable {env : Env} {links links' : Links} {a b : Stage} {es : List Event} {i : Nat}
  {t : Trace Event}

theorem Sourced.step (h : Sourced links t) (ha : Act env links links' a es b)
    (hledger : Ledger (rowsOf links) t) : Sourced links' (tag i es ++ t) := by
  have old : ∀ {id : LinkId} {b : List UInt8}, (∃ d, (d, Event.stored id b) ∈ t) →
      ∃ d, (d, Event.stored id b) ∈ tag i es ++ t :=
    fun ⟨d, hd⟩ ↦ ⟨d, List.mem_append_right _ hd⟩
  have new : ∀ {e : Event}, e ∈ es → (i, e) ∈ tag i es ++ t := fun he ↦
    List.mem_append_left _ (List.mem_map.mpr ⟨_, he, rfl⟩)
  refine ⟨?_, ?_, ?_⟩
  · intro id b hb
    rcases ha.blob_cases hb with ⟨hb, -⟩ | ⟨token, record, -, -, rfl⟩ | ⟨record, -, rfl⟩
    · exact old (h.held id b hb)
    · exact ⟨i, new List.mem_cons_self⟩
    · exact ⟨i, new List.mem_cons_self⟩
  · intro j id b hm
    rcases mem_tag_append hm with ⟨-, hm⟩ | hm
    · exact old (h.held id b (ha.of_read hm).2.symm)
    · exact old (h.read j id b hm)
  · intro j id row now hm
    rcases mem_tag_append hm with ⟨-, hm⟩ | hm
    · obtain ⟨row', hrow, rfl⟩ := ha.move.of_opened hm
      obtain ⟨d, record, hbooked⟩ := hledger.booked id row' hrow
      have hcopy : CopyOf record row' := hbooked.fields
      exact ⟨d, record, List.mem_append_right _ hbooked.inserted, hbooked.id, hcopy.opened⟩
    · obtain ⟨d, record, hi, hrecord⟩ := h.opened j id row now hm
      exact ⟨d, record, List.mem_append_right _ hi, hrecord⟩

end Act

/-- A thread that has delivered has read the ciphertext and counted the open. -/
theorem Story.of_delivered {env : Env} {a : Stage} {h : List Event} (hs : Story env a h)
    {b : List UInt8} {row : LinkMetadata} (hr : .answered (.delivered b row) ∈ h) :
    ∃ id now, .read id (some b) ∈ h ∧ .opened id row now ∈ h := by
  have finished : ∀ {answer : Option Response}, (∀ r ∈ answer, r.isPlain = true) →
      .answered (.delivered b row) ∉ finish answer := by
    intro answer plain hm
    obtain ⟨r, hr, heq⟩ := mem_finish.mp hm
    cases heq
    cases plain _ hr
  have worked : ∀ {h : List Event}, (∀ e ∈ h, e.isWork = true) →
      .answered (.delivered b row) ∉ h := by
    intro h work hm
    cases work _ hm
  by_cases ha : a = .done
  · subst ha
    cases hs with
    | worked work answer plain =>
      exact absurd hr (List.not_mem_append (finished plain) (worked work))
    | @completed h' work id acted answer plain =>
      refine absurd hr (List.not_mem_append (finished plain) fun hm ↦ ?_)
      rcases List.mem_cons.mp hm with heq | hm
      · cases heq
      · exact worked work hm
    | created record => simp at hr
    | undone token record =>
      simp [mem_finish, internalError] at hr
    | kept token record ciphertext => simp [mem_finish, Env.created] at hr
    | refused id blob answer plain =>
      exact absurd hr (List.not_mem_append (finished plain) (by simp))
    | opened id blob row' now =>
      have hanswer : .delivered b row = openResponse blob (some row') := by
        simpa [mem_completion, mem_openEvents] using hr
      cases blob with
      | none => cases hanswer
      | some blob =>
        cases hanswer
        exact ⟨id, now, by simp, by simp [mem_openEvents]⟩
  · exact absurd hr (hs.not_answered ha _)

namespace LinkServer

variable {χ P σ : Type} {env : Env} {M : Program Request χ P σ Event} {links : σ → Links}
  {stage : P → Stage} {inv : σ → Prop} {ok : Program.Guard χ P σ Event} {s₀ : σ}
  {c : Config P σ Event}

theorem sourced (h : LinkServer env M links stage inv) (hempty : links s₀ = fun _ ↦ Link.vacant)
    (hinv : inv s₀) (hc : M.Reachable ok s₀ c) : Sourced (links c.shared) c.trace := by
  refine Program.Reachable.shared (I := fun s t ↦ Sourced (links s) t) ?_ ?_
    (h.strengthen hempty hinv hc)
  · refine ⟨?_, nofun, nofun⟩
    intro id b hb
    rw [hempty] at hb
    cases hb
  · rintro i x p s t p' s' es ⟨-, hkept, -⟩ hsourced hstep
    exact hsourced.step (h.act hkept.state hstep) hkept.ledger

/-- What a delivery contains was stored and inserted under its id. -/
theorem delivered_contents (h : LinkServer env M links stage inv)
    (hempty : links s₀ = fun _ ↦ Link.vacant) (hinv : inv s₀) (hc : M.Reachable ok s₀ c) {j : Nat}
    {b : List UInt8} {row : LinkMetadata} (hr : (j, .answered (.delivered b row)) ∈ c.trace) :
    ∃ id, (j, .read id (some b)) ∈ c.trace ∧ (∃ d, (d, .stored id b) ∈ c.trace) ∧
      ∃ d record, (d, .inserted record) ∈ c.trace ∧ record.id = id ∧ CopyOf record row := by
  have hholds := h.holds hempty hinv hc
  have hsourced := h.sourced hempty hinv hc
  have hj : j < c.threads.length := hholds.actors _ hr
  have hp : c.threads[j]? = some c.threads[j] := List.getElem?_eq_getElem hj
  obtain ⟨id, now, hread, hopened⟩ := (hholds.thread j _ hp).of_delivered (mem_mine.mpr hr)
  exact ⟨id, mem_mine.mp hread, hsourced.read j id b (mem_mine.mp hread),
    hsourced.opened j id row now (mem_mine.mp hopened)⟩

end LinkServer

/-! ## Requests -/

/-- The record and the ciphertext are those of a draft that the body of a create was validated to. -/
def FromDraft (validate : Instant → Option Draft) (record : CreateLinkRecord) (b : List UInt8) : Prop :=
  ∃ now draft revocationTokenHash, validate now = some draft ∧
    record = draft.record revocationTokenHash ∧ b = draft.blob

/-- What a create request has stored is from its draft. -/
def StoresDraft (validate : Instant → Option Draft) (h : List Event) : Prop :=
  ∀ id b, .stored id b ∈ h → ∃ record, .inserted record ∈ h ∧ FromDraft validate record b

/-- What an open request has read is under its id. -/
def ReadsOwn (id : LinkId) (h : List Event) : Prop := ∀ id' blob, .read id' blob ∈ h → id' = id

/-- The threads of create and open requests do what they were asked for. -/
structure Obeys {χ P σ : Type} (M : Program Request χ P σ Event) (s₀ : σ) : Prop where
  create : ∀ {i validate c}, M.Serves .always s₀ i (.postMessages validate) c →
    StoresDraft validate (mine i c.trace)
  «open» : ∀ {i id body c}, M.Serves .always s₀ i (.openMessage id body) c →
    ReadsOwn id (mine i c.trace)

section Obeys

variable {validate : Instant → Option Draft} {id : LinkId} {es h : List Event}

theorem StoresDraft.append (hs : StoresDraft validate h) (hes : ∀ id b, .stored id b ∉ es) :
    StoresDraft validate (es ++ h) := by
  intro id b hm
  obtain ⟨record, hi, hdraft⟩ := hs id b ((List.mem_append.mp hm).resolve_left (hes id b))
  exact ⟨record, List.mem_append_right _ hi, hdraft⟩

theorem StoresDraft.store {record : CreateLinkRecord} {b : List UInt8} (hs : StoresDraft validate h)
    (hi : .inserted record ∈ es ++ h) (hdraft : FromDraft validate record b)
    (hes : ∀ id' b', .stored id' b' ∈ es → b' = b) : StoresDraft validate (es ++ h) := by
  intro id' b' hm
  rcases List.mem_append.mp hm with hm | hm
  · obtain rfl := hes id' b' hm
    exact ⟨record, hi, hdraft⟩
  · obtain ⟨record', hi', hdraft'⟩ := hs id' b' hm
    exact ⟨record', List.mem_append_right _ hi', hdraft'⟩

theorem ReadsOwn.append (hr : ReadsOwn id h) (hes : ∀ id' blob, .read id' blob ∉ es) :
    ReadsOwn id (es ++ h) :=
  fun id' blob hm ↦ hr id' blob ((List.mem_append.mp hm).resolve_left (hes id' blob))

end Obeys

namespace Memory

/-- Where a create request stands. -/
def Creating (validate : Instant → Option Draft) (p : Pc) (h : List Event) : Prop :=
  StoresDraft validate h ∧
    match p with
    | .start request => request = .postMessages validate
    | .checked draft _ => ∃ now, validate now = some draft
    | .put _ record ciphertext => FromDraft validate record ciphertext ∧ .inserted record ∈ h
    | .rollback .. | .created .. | .done => True
    | _ => False

theorem creating_step {env : Env} {validate : Instant → Option Draft} {i : Nat} {x : Input}
    {p p' : Pc} {s s' : MemoryStore} {es h : List Event} (hp : Creating validate p h)
    (hstep : (program env).step i x p s = some (p', s', es)) : Creating validate p' (es ++ h) := by
  obtain ⟨hs, hp⟩ := hp
  change step env i x p s = some (p', s', es) at hstep
  cases p with
  | start request =>
    cases hp
    simp only [step, begin_] at hstep
    split at hstep
    · cases hstep
      exact ⟨hs.append (by simp), trivial⟩
    split at hstep
    · cases hstep
      exact ⟨hs.append (by simp), trivial⟩
    · rename_i draft hdraft
      cases hstep
      exact ⟨hs, _, hdraft⟩
  | checked draft existing =>
    obtain ⟨now, hdraft⟩ := hp
    simp only [step] at hstep
    split at hstep
    · cases hstep
      exact ⟨hs.append (by simp), trivial⟩
    · simp only [insert] at hstep
      split at hstep
      · cases hstep
        exact ⟨hs.append (by simp [mem_finish]), trivial⟩
      · cases hstep
        exact ⟨hs.append (by simp), ⟨now, draft, _, hdraft, rfl, rfl⟩, List.mem_cons_self⟩
  | put token record ciphertext =>
    obtain ⟨hdraft, hi⟩ := hp
    simp only [step] at hstep
    split at hstep
    · cases hstep
      exact ⟨hs, trivial⟩
    · cases hstep
      exact ⟨hs.store (List.mem_append_right _ hi) hdraft (by simp), trivial⟩
  | rollback token record =>
    cases hstep
    exact ⟨hs.append (by simp [mem_finish]), trivial⟩
  | created token record ciphertext =>
    cases hstep
    exact ⟨hs.append (by simp [mem_finish]), trivial⟩
  | done => cases hstep
  | _ => exact hp.elim

/-- Where an open request stands. -/
def Opening (id : LinkId) (p : Pc) (h : List Event) : Prop :=
  ReadsOwn id h ∧
    match p with
    | .start request => ∃ body, request = .openMessage id body
    | .increment .. | .opened .. | .done => True
    | _ => False

theorem opening_step {env : Env} {id : LinkId} {i : Nat} {x : Input} {p p' : Pc}
    {s s' : MemoryStore} {es h : List Event} (hp : Opening id p h)
    (hstep : (program env).step i x p s = some (p', s', es)) : Opening id p' (es ++ h) := by
  obtain ⟨hr, hp⟩ := hp
  change step env i x p s = some (p', s', es) at hstep
  cases p with
  | start request =>
    obtain ⟨body, rfl⟩ := hp
    simp only [step, begin_] at hstep
    split at hstep
    · cases hstep
      exact ⟨hr.append (by simp), trivial⟩
    · cases hstep
      refine ⟨fun id' blob hm ↦ ?_, trivial⟩
      rcases List.mem_cons.mp hm with heq | hm
      · cases heq
        rfl
      · exact hr id' blob hm
  | increment id' blob =>
    simp only [step, incrementOpens] at hstep
    split at hstep
    · cases hstep
      exact ⟨hr, trivial⟩
    · cases hstep
      exact ⟨hr.append (by simp [mem_openEvents]), trivial⟩
  | opened id' blob row =>
    cases hstep
    exact ⟨hr.append (by simp [mem_completion]), trivial⟩
  | done => cases hstep
  | _ => exact hp.elim

theorem obeys (env : Env) : Obeys (program env) MemoryStore.empty where
  create := by
    intro i validate c hc
    obtain ⟨p, -, hs, -⟩ := hc.carry (Q := Creating validate) ⟨nofun, rfl⟩ creating_step
    exact hs
  «open» := by
    intro i id body c hc
    obtain ⟨p, -, hr, -⟩ := hc.carry (Q := Opening id) ⟨nofun, body, rfl⟩ opening_step
    exact hr

end Memory

namespace Postgres

/-- Where a create request stands. -/
def Creating (validate : Instant → Option Draft) (p : Pc) (h : List Event) : Prop :=
  StoresDraft validate h ∧
    match p with
    | .start request => request = .postMessages validate
    | .checked draft _ => ∃ now, validate now = some draft
    | .insertBlob _ record ciphertext | .commitCreate _ record ciphertext =>
      FromDraft validate record ciphertext
    | .rollback .. | .created .. | .done => True
    | _ => False

theorem creating_step {env : Env} {validate : Instant → Option Draft} {i : Nat} {x : Input}
    {p p' : Pc} {s s' : State} {es h : List Event} (hp : Creating validate p h)
    (hstep : (program env).step i x p s = some (p', s', es)) : Creating validate p' (es ++ h) := by
  obtain ⟨hs, hp⟩ := hp
  have hfail : ∀ request, StoresDraft validate (failure request ++ h) :=
    fun request ↦ hs.append (by simp [failure, mem_finish])
  change step env i x p s = some (p', s', es) at hstep
  cases p with
  | start request =>
    cases hp
    simp only [step, begin_] at hstep
    split at hstep
    · cases hstep
      exact ⟨hs.append (by simp), trivial⟩
    split at hstep
    · cases hstep
      exact ⟨hs.append (by simp), trivial⟩
    · rename_i draft hdraft
      split at hstep
      · cases hstep
        exact ⟨hs.append (by simp), trivial⟩
      · cases hstep
        exact ⟨hs, _, hdraft⟩
  | checked draft existing =>
    obtain ⟨now, hdraft⟩ := hp
    simp only [step] at hstep
    split at hstep
    · cases hstep
      exact ⟨hs.append (by simp), trivial⟩
    · simp only [insertRow] at hstep
      split at hstep
      · cases hstep
        exact ⟨hfail _, trivial⟩
      split at hstep
      · cases hstep
      split at hstep
      · cases hstep
        exact ⟨hfail _, trivial⟩
      · cases hstep
        exact ⟨hs, now, draft, _, hdraft, rfl, rfl⟩
  | insertBlob token record ciphertext =>
    simp only [step] at hstep
    split at hstep
    · cases hstep
      exact ⟨hs, trivial⟩
    split at hstep
    · cases hstep
      exact ⟨hs, trivial⟩
    · cases hstep
      exact ⟨hs, hp⟩
  | commitCreate token record ciphertext =>
    simp only [step] at hstep
    split at hstep
    · cases hstep
      exact ⟨hs, trivial⟩
    split at hstep
    · cases hstep
      exact ⟨hs, trivial⟩
    · cases hstep
      exact ⟨hs.store (List.mem_append_left _ (by simp)) hp (by simp), trivial⟩
  | rollback request =>
    cases hstep
    exact ⟨hfail _, trivial⟩
  | created token record ciphertext =>
    cases hstep
    exact ⟨hs.append (by simp [mem_finish]), trivial⟩
  | done => cases hstep
  | _ => exact hp.elim

/-- Where an open request stands. -/
def Opening (id : LinkId) (p : Pc) (h : List Event) : Prop :=
  ReadsOwn id h ∧
    match p with
    | .start request => ∃ body, request = .openMessage id body
    | .increment .. | .opened .. | .done => True
    | _ => False

theorem opening_step {env : Env} {id : LinkId} {i : Nat} {x : Input} {p p' : Pc} {s s' : State}
    {es h : List Event} (hp : Opening id p h)
    (hstep : (program env).step i x p s = some (p', s', es)) : Opening id p' (es ++ h) := by
  obtain ⟨hr, hp⟩ := hp
  have hfail : ∀ request, ReadsOwn id (failure request ++ h) :=
    fun request ↦ hr.append (by simp [failure, mem_finish])
  change step env i x p s = some (p', s', es) at hstep
  cases p with
  | start request =>
    obtain ⟨body, rfl⟩ := hp
    simp only [step, begin_] at hstep
    split at hstep
    · cases hstep
      exact ⟨hr.append (by simp), trivial⟩
    split at hstep
    · cases hstep
      exact ⟨hr.append (by simp), trivial⟩
    · cases hstep
      refine ⟨fun id' blob hm ↦ ?_, trivial⟩
      rcases List.mem_cons.mp hm with heq | hm
      · cases heq
        rfl
      · exact hr id' blob hm
  | increment id' blob =>
    simp only [step, incrementOpens] at hstep
    split at hstep
    · cases hstep
      exact ⟨hfail _, trivial⟩
    split at hstep
    · cases hstep
    split at hstep
    · cases hstep
      exact ⟨hfail _, trivial⟩
    · cases hstep
      exact ⟨hr, trivial⟩
    · split at hstep
      · cases hstep
      · cases hstep
        exact ⟨hr.append (by simp [mem_openEvents]), trivial⟩
  | opened id' blob row =>
    cases hstep
    exact ⟨hr.append (by simp [mem_completion]), trivial⟩
  | done => cases hstep
  | _ => exact hp.elim

theorem obeys (env : Env) : Obeys (program env) State.initial where
  create := by
    intro i validate c hc
    obtain ⟨p, -, hs, -⟩ := hc.carry (Q := Creating validate) ⟨nofun, rfl⟩ creating_step
    exact hs
  «open» := by
    intro i id body c hc
    obtain ⟨p, -, hr, -⟩ := hc.carry (Q := Opening id) ⟨nofun, body, rfl⟩ opening_step
    exact hr

end Postgres

/-! ## Deliveries of one link -/

/-- An open request that is answered 200, with a ciphertext and the row it was served from. -/
structure Opens {χ P σ : Type} (M : Program Request χ P σ Event) (s₀ : σ) (c : Config P σ Event)
    (j : Nat) (id : LinkId) (b : List UInt8) (row : LinkMetadata) : Prop where
  serves : ∃ body, M.Serves .always s₀ j (.openMessage id body) c
  delivered : (j, .answered (.delivered b row)) ∈ c.trace

/-- No other thread than `i` has inserted a row under `id`. -/
def OnlyCreate (i : Nat) (id : LinkId) (t : Trace Event) : Prop :=
  ∀ d record, (d, .inserted record) ∈ t → record.id = id → d = i

/-- What is delivered of a link that has been created once is its draft. -/
theorem LinkServer.delivered_draft {χ P σ : Type} {env : Env} {M : Program Request χ P σ Event}
    {links : σ → Links} {stage : P → Stage} {inv : σ → Prop} {s₀ : σ} {c : Config P σ Event}
    (h : LinkServer env M links stage inv) (hempty : links s₀ = fun _ ↦ Link.vacant) (hinv : inv s₀)
    (hM : Obeys M s₀) {i j : Nat} {validate : Instant → Option Draft} {id : LinkId} {b : List UInt8}
    {row : LinkMetadata} (hi : M.Serves .always s₀ i (.postMessages validate) c)
    (only : OnlyCreate i id c.trace) (hj : Opens M s₀ c j id b row) :
    ∃ now draft revocationTokenHash, validate now = some draft ∧ draft.id = id ∧ b = draft.blob ∧
      CopyOf (draft.record revocationTokenHash) row := by
  have hc := hi.reachable
  obtain ⟨body, hserves⟩ := hj.serves
  obtain ⟨id', hread, ⟨d, hstored⟩, d', record, hinserted, hid, hcopy⟩ :=
    h.delivered_contents hempty hinv hc hj.delivered
  obtain rfl : id' = id := hM.open hserves id' _ (mem_mine.mpr hread)
  obtain ⟨⟨record', hinserted', hid'⟩, -, -⟩ :=
    (h.kind hempty hinv hc d).of_stored (mem_mine.mpr hstored)
  -- whoever has written under the id is the create
  rw [only d' record hinserted hid] at hinserted
  rw [only d record' (mem_mine.mp hinserted') hid'] at hstored
  obtain ⟨record'', hinserted'', now, draft, hash, hdraft, rfl, rfl⟩ :=
    hM.create hi id' b (mem_mine.mpr hstored)
  have hkind := h.kind hempty hinv hc i
  obtain rfl := hkind.inserted_unique (mem_mine.mpr hinserted) hinserted''
  exact ⟨now, draft, hash, hdraft, hid, rfl, hcopy⟩

end Aesmsg.Server
