import Aesmsg.Server.MemorySteps
import Aesmsg.Server.PostgresSteps

/-!
# A counted open is delivered

An open request reads the ciphertext and counts the open in two steps, so the two need not be about
the same row.  When the ciphertext of the counted row had been stored before the request read it, and
nothing overwrites or deletes the ciphertext of a live link, every counted open is answered 200 with
the ciphertext that belongs to the row.

## Main results

- `delivered_of_ordered`: the delivery, on both stores.
- `early_read_lost`: a run that consumes an open and answers 410.
-/

namespace Aesmsg.Server

open Store Api Threads

/-- Thread `i` has stored a ciphertext under `id`. -/
def HasStored (i : Nat) (id : LinkId) (t : Trace Event) : Prop :=
  ∃ e ∈ t, e.1 = i ∧ e.2.stores id = true

instance (i : Nat) (id : LinkId) (t : Trace Event) : Decidable (HasStored i id t) :=
  inferInstanceAs (Decidable (∃ e ∈ t, e.1 = i ∧ e.2.stores id = true))

/-- The row is active, and the create that inserted it has stored its ciphertext. -/
def Live (links : Links) (id : LinkId) (t : Trace Event) : Prop :=
  ∃ row ∈ (links id).row, row.status = .active ∧ ∃ d ∈ owner t id, HasStored d id t

instance (links : Links) (id : LinkId) (t : Trace Event) : Decidable (Live links id t) :=
  inferInstanceAs (Decidable (∃ row ∈ (links id).row, row.status = .active ∧
    ∃ d ∈ owner t id, HasStored d id t))

/-- The ciphertext of the row under `id` had been stored when thread `i` read it as `blob`. -/
def ReadAfterStore (i : Nat) (id : LinkId) (blob : Option (List UInt8)) (t : Trace Event) : Prop :=
  ∀ d ∈ owner t id, HasStored d id (before (i, .read id blob) t)

instance (i : Nat) (id : LinkId) (blob : Option (List UInt8)) (t : Trace Event) :
    Decidable (ReadAfterStore i id blob t) :=
  inferInstanceAs (Decidable (∀ d ∈ owner t id, HasStored d id (before (i, .read id blob) t)))

theorem hasStored_iff {i : Nat} {id : LinkId} {t : Trace Event} :
    HasStored i id t ↔ ∃ b, (i, .stored id b) ∈ t := by
  constructor
  · rintro ⟨⟨j, e⟩, hm, rfl, hs⟩
    cases e with
    | stored id' b =>
      obtain rfl : id' = id := of_decide_eq_true hs
      exact ⟨b, hm⟩
    | _ => cases hs
  · rintro ⟨b, hm⟩
    exact ⟨_, hm, rfl, decide_eq_true rfl⟩

/-- What the requests that counted an open have been served. -/
def Served (t : Trace Event) : Prop :=
  ∀ i id row now blob, (i, .opened id row now) ∈ t → (i, .read id blob) ∈ t →
    ∃ d b, servedFrom i t = some d ∧ (d, .stored id b) ∈ t ∧ blob = some b

/-- The ciphertext of a live link is the one that its create has stored. -/
def Held (links : Links) (t : Trace Event) : Prop :=
  ∀ id row d b, (links id).row = some row → row.status = .active → owner t id = some d →
    (d, .stored id b) ∈ t → (links id).blob = some b

/-- An open request has read the ciphertext of the row that is there, if it had been stored by then. -/
def Reading (links : Links) (i : Nat) (a : Stage) (t : Trace Event) : Prop :=
  ∀ id blob, a = .fetched id blob → ∀ row d b, (links id).row = some row → row.status = .active →
    owner t id = some d → (d, .stored id b) ∈ before (i, .read id blob) t → blob = some b

section Act

variable {env : Env} {links links' : Links} {a b : Stage} {es : List Event} {i : Nat}
  {t : Trace Event}

/-- A row that is active after a step and was not inserted by it was active before. -/
theorem Act.active_before (h : Act env links links' a es b) {id : LinkId} {row : LinkMetadata}
    (hr : (links' id).row = some row) (ha : row.status = .active)
    (hins : ∀ record, .inserted record ∈ es → record.id ≠ id) :
    ∃ row, (links id).row = some row ∧ row.status = .active := by
  have hm := h.move
  have hr' : rowsOf links' id = some row := hr
  change ∃ row, rowsOf links id = some row ∧ row.status = .active
  generalize rowsOf links = rows at hm
  generalize rowsOf links' = rows' at hm hr'
  cases hm with
  | close quiet closes =>
    rcases closes id with hk | hk | ⟨old, status, hold, hs, hk⟩
    · exact ⟨row, hk.symm.trans hr', ha⟩
    · rw [hk] at hr'
      cases hr'
    · rw [hk] at hr'
      cases hr'
      exact absurd ha hs
  | @insert es' record quiet absent =>
    have hid := hins record (List.mem_append_right _ List.mem_cons_self)
    rw [Function.update_of_ne (Ne.symm hid)] at hr'
    exact ⟨row, hr', ha⟩
  | @«open» es' j old now quiet present active live =>
    by_cases hj : id = j
    · subst hj
      exact ⟨old, present, active⟩
    · rw [Function.update_of_ne hj] at hr'
      exact ⟨row, hr', ha⟩

/-- The ciphertext of a row that stays active is kept, but for late writes and deletes. -/
theorem Act.blob_kept (h : Act env links links' a es b) {id : LinkId} {row : LinkMetadata}
    (hr : (links' id).row = some row) (ha : row.status = .active)
    (hins : ∀ record, .inserted record ∈ es → record.id ≠ id) :
    (links' id).blob = (links id).blob ∨
      (∃ token record blob, a = .placed token record blob ∧ record.id = id ∧
        es = [.stored id blob] ∧ (links' id).blob = some blob) ∨
      (a = .dropping id ∧ links' ≠ links) := by
  have update : ∀ {j : LinkId} {l : Link}, links' = Function.update links j l →
      l.blob = (links j).blob → (links' id).blob = (links id).blob := by
    intro j l link hl
    rw [link]
    by_cases hj : id = j
    · subst hj
      rw [Function.update_self]
      exact hl
    · rw [Function.update_of_ne hj]
  have closing : Closing (links id) (links' id) → (links' id).blob = (links id).blob := by
    intro hc
    generalize links' id = l' at hc hr
    cases hc with
    | keep | terminate => rfl
    | shut present closed stamp =>
      cases hr
      exact absurd ha closed
    | purge terminal =>
      obtain ⟨row', hrow, hn⟩ := Link.isTerminal_iff.mp terminal
      change (links id).row = some row at hr
      rw [hr] at hrow
      cases hrow
      exact absurd ha hn
    | prune terminal => cases hr
  have count : ∀ {j : LinkId} {old : LinkMetadata} {now stamp : Instant},
      (links j).row = some old → old.status = .active → now < old.expiresAt →
        links' = Function.update links j ((links j).increment now stamp) →
          (links' id).blob = (links id).blob := by
    intro j old now stamp present active live link
    by_cases hj : id = j
    · subst hj
      have hrow := row_increment stamp present active live
      have hblob := blob_increment stamp present active live
      rw [link, Function.update_self] at hr ⊢
      rw [hrow] at hr
      cases hr
      rw [hblob, if_neg]
      rw [ha]
      decide
    · rw [link, Function.update_of_ne hj]
  have drop : ∀ {j : LinkId}, links' = Function.update links j (links j).withoutBlob →
      a = .dropping j → (links' id).blob = (links id).blob ∨ (a = .dropping id ∧ links' ≠ links) := by
    rintro j link rfl
    by_cases hj : id = j
    · subst hj
      by_cases hsame : links' = links
      · exact .inl (by rw [hsame])
      · exact .inr ⟨rfl, hsame⟩
    · rw [link, Function.update_of_ne hj]
      exact .inl rfl
  cases h with
  | wait h | quit _ _ _ h | fail h | reply h | fetch _ h | miss h | respond h | complete _ _ _ h =>
    rw [h]
    exact .inl rfl
  | close passes hclosing tidy pruned => exact .inl (closing (hclosing id))
  | act j early hclosing kept empty => exact .inl (closing (hclosing id))
  | create absent link => exact .inl (update link rfl)
  | place token ciphertext absent link => exact .inl (update link rfl)
  | @commit record token ciphertext absent link =>
    have hid := hins record (by simp)
    rw [link, Function.update_of_ne (Ne.symm hid)]
    exact .inl rfl
  | @put token record ciphertext link =>
    by_cases hid : id = record.id
    · subst hid
      refine .inr (.inl ⟨token, record, ciphertext, rfl, rfl, rfl, ?_⟩)
      rw [link, Function.update_self]
      rfl
    · rw [link, Function.update_of_ne hid]
      exact .inl rfl
  | undo link => exact .inl (update link rfl)
  | count present active live link => exact .inl (count present active live link)
  | tally present active live link => exact .inl (count present active live link)
  | drop j link => exact (drop link rfl).imp_right .inr
  | dropActed j link => exact (drop link rfl).imp_right .inr

theorem Act.blob_of_stored (h : Act env links links' a es b) {id : LinkId} {blob : List UInt8}
    (hm : .stored id blob ∈ es) : (links' id).blob = some blob := by
  cases h with
  | @commit record token ciphertext absent link =>
    obtain ⟨rfl, rfl⟩ : id = record.id ∧ blob = ciphertext := by simpa using hm
    rw [link, Function.update_self]
    rfl
  | @put token record ciphertext link =>
    obtain ⟨rfl, rfl⟩ : id = record.id ∧ blob = ciphertext := by simpa using hm
    rw [link, Function.update_self]
    rfl
  | close passes closing tidy pruned =>
    obtain ⟨j, hj⟩ := tidy _ hm
    cases hj
  | count | tally => simp [mem_openEvents] at hm
  | respond => simp [mem_completion] at hm
  | quit | undo | reply | complete => simp [mem_finish] at hm
  | _ => simp at hm

theorem Act.fetch_inv (h : Act env links links' a es b) {id : LinkId}
    {blob : Option (List UInt8)} (hb : b = .fetched id blob) :
    links' = links ∧ es = [.read id blob] ∧ blob = (links id).blob := by
  cases h with
  | fetch j same =>
    cases hb
    exact ⟨same, rfl, rfl⟩
  | close passes => cases passes <;> cases hb
  | tally =>
    unfold Stage.resolved at hb
    split at hb <;> cases hb
  | _ => cases hb

/-- What is read is what the link holds. -/
theorem Act.of_read (h : Act env links links' a es b) {id : LinkId} {blob : Option (List UInt8)}
    (hm : .read id blob ∈ es) : a = .fresh ∧ blob = (links id).blob := by
  cases h with
  | fetch j same =>
    cases List.mem_singleton.mp hm
    exact ⟨rfl, rfl⟩
  | close passes closing tidy pruned =>
    obtain ⟨j, hj⟩ := tidy _ hm
    cases hj
  | count | tally => simp [mem_openEvents] at hm
  | respond => simp [mem_completion] at hm
  | quit | undo | reply | complete => simp [mem_finish] at hm
  | _ => simp at hm

/-- An open is counted for a request that has read the ciphertext, or by itself. -/
theorem Act.opened_inv (h : Act env links links' a es b) {id : LinkId} {row : LinkMetadata}
    {now : Instant} (hm : .opened id row now ∈ es) :
    (∃ blob old, a = .fetched id blob ∧ (links id).row = some old ∧ old.status = .active ∧
      es = openEvents id row now) ∨ a = .fresh := by
  cases h with
  | count present active live link =>
    rcases mem_openEvents.mp hm with ⟨heq, -⟩ | heq
    · cases heq
    · cases heq
      exact .inl ⟨_, _, rfl, present, active, rfl⟩
  | tally | fetch => exact .inr rfl
  | close passes closing tidy pruned =>
    obtain ⟨j, hj⟩ := tidy _ hm
    cases hj
  | respond => simp [mem_completion] at hm
  | quit | undo | reply | complete => simp [mem_finish] at hm
  | _ => simp at hm

/-- A thread that is fresh has no event in the trace. -/
theorem Story.not_mem (hs : Story env a (mine i t)) (ha : a = .fresh) (e : Event) : (i, e) ∉ t := by
  intro hm
  rw [ha] at hs
  have hmine : mine i t = [] := hs
  have := mem_mine.mpr hm
  rw [hmine] at this
  cases this

/-- The ciphertexts of live links are kept when no step overwrites or deletes one late. -/
theorem Held.step (h : Held links t) (ha : Act env links links' a es b)
    (hs : Story env a (mine i t))
    (hput : ∀ token record blob, a = .placed token record blob →
      es = [.stored record.id blob] → ¬Live links record.id t)
    (hdrop : ∀ id, a = .dropping id → links' ≠ links → ¬Live links id t) :
    Held links' (tag i es ++ t) := by
  intro id row d blob hr hact howner hm
  by_cases hins : ∃ record, .inserted record ∈ es ∧ record.id = id
  · obtain ⟨record, hi, rfl⟩ := hins
    rw [owner_of_inserted hi] at howner
    cases howner
    rcases mem_tag_append hm with ⟨-, hst⟩ | hold
    · exact ha.blob_of_stored hst
    · exact absurd hold (hs.not_mem (ha.fresh_of_inserted ⟨record, hi⟩) _)
  · have hnot : ∀ record, .inserted record ∈ es → record.id ≠ id :=
      fun record hi hid ↦ hins ⟨record, hi, hid⟩
    rw [owner_append hnot] at howner
    obtain ⟨old, hold, hactive⟩ := ha.active_before hr hact hnot
    rcases mem_tag_append hm with ⟨-, hst⟩ | hmt
    · exact ha.blob_of_stored hst
    · have hlive : Live links id t :=
        ⟨old, hold, hactive, d, howner, hasStored_iff.mpr ⟨blob, hmt⟩⟩
      have hblob := h id old d blob hold hactive howner hmt
      rcases ha.blob_kept hr hact hnot with heq | ⟨token, record, blob', hstage, rfl, hes, -⟩ |
        ⟨hstage, hne⟩
      · exact heq.trans hblob
      · exact absurd hlive (hput token record blob' hstage hes)
      · exact absurd hlive (hdrop id hstage hne)

/-- A request that has just read holds what the link holds. -/
theorem Reading.own (h : Held links t) (ha : Act env links links' a es b) :
    Reading links' i b (tag i es ++ t) := by
  intro id blob hb row d blob' hr hact howner hm
  obtain ⟨rfl, rfl, rfl⟩ := ha.fetch_inv hb
  have hbefore : before (i, Event.read id (links' id).blob)
      (tag i [.read id (links' id).blob] ++ t) = t := before_cons_self _ t
  rw [hbefore] at hm
  exact h id row d blob' hr hact howner hm

/-- What others do does not make a row live whose ciphertext a request has missed. -/
theorem Reading.other {j : Nat} {q : Stage} (h : Reading links j q t) (hij : i ≠ j)
    (ha : Act env links links' a es b) (hs : Story env a (mine i t)) :
    Reading links' j q (tag i es ++ t) := by
  intro id blob hq row d blob' hr hact howner hm
  have hnot : (j, Event.read id blob) ∉ tag i es := fun hm ↦ hij (fst_of_mem_tag hm).symm
  rw [before_append_of_not_mem hnot] at hm
  by_cases hins : ∃ record, .inserted record ∈ es ∧ record.id = id
  · obtain ⟨record, hi, rfl⟩ := hins
    rw [owner_of_inserted hi] at howner
    cases howner
    exact absurd (mem_of_mem_before hm) (hs.not_mem (ha.fresh_of_inserted ⟨record, hi⟩) _)
  · have hnot : ∀ record, .inserted record ∈ es → record.id ≠ id :=
      fun record hi hid ↦ hins ⟨record, hi, hid⟩
    rw [owner_append hnot] at howner
    obtain ⟨old, hold, hactive⟩ := ha.active_before hr hact hnot
    exact h id blob hq old d blob' hold hactive howner hm

theorem Served.step (h : Served t) (ha : Act env links links' a es b)
    (hs : Story env a (mine i t)) (hledger : Ledger (rowsOf links) t)
    (hreading : Reading links i a t)
    (hopen : ∀ id blob, a = .fetched id blob → (∃ row now, .opened id row now ∈ es) →
      ReadAfterStore i id blob t) : Served (tag i es ++ t) := by
  intro j id row now blob ho hread
  rcases mem_tag_append ho with ⟨rfl, hoes⟩ | hot
  · rcases ha.opened_inv hoes with ⟨blob', old, rfl, hold, hactive, rfl⟩ | hfresh
    · have hmine : mine j t = [.read id blob'] := hs
      have hblob : blob = blob' := by
        rcases mem_tag_append hread with ⟨-, hm⟩ | hm
        · simp [mem_openEvents] at hm
        · have := mem_mine.mpr hm
          rw [hmine] at this
          simpa using this
      subst hblob
      obtain ⟨d, record, hbooked⟩ := hledger.booked id old hold
      have hstored := hopen id blob rfl ⟨row, now, hoes⟩ d hbooked.owner
      obtain ⟨b', hb'⟩ := hasStored_iff.mp hstored
      refine ⟨d, b', (servedFrom_openEvents id row now).trans hbooked.owner,
        List.mem_append_right _ (mem_of_mem_before hb'), ?_⟩
      exact hreading id blob rfl old d b' hold hactive hbooked.owner hb'
    · rcases mem_tag_append hread with ⟨-, hm⟩ | hm
      · cases ha with
        | tally => simp [mem_openEvents] at hm
        | fetch => simp at hoes
        | wait | create | place | commit => simp at hm
        | close passes closing tidy pruned =>
          obtain ⟨k, hk⟩ := tidy _ hm
          cases hk
        | quit | act => simp [mem_finish] at hm
        | _ => cases hfresh
      · exact absurd hm (hs.not_mem hfresh _)
  · have hreadt : (j, Event.read id blob) ∈ t := by
      rcases mem_tag_append hread with ⟨rfl, hm⟩ | hm
      · exact absurd hot (hs.not_mem (ha.of_read hm).1 _)
      · exact hm
    obtain ⟨d, b', hd, hb', hblob⟩ := h j id row now blob hot hreadt
    refine ⟨d, b', ?_, List.mem_append_right _ hb', hblob⟩
    by_cases hij : i = j
    · subst hij
      rw [servedFrom_append_of_quiet]
      · exact hd
      · intro e he
        cases e with
        | opened id' row' now' =>
          rcases ha.opened_inv he with ⟨blob', old, rfl, -⟩ | hfresh
          · have hmine : mine i t = [.read id' blob'] := hs
            have := mem_mine.mpr hot
            rw [hmine] at this
            simp at this
          · exact absurd hot (hs.not_mem hfresh _)
        | _ => rfl
    · rw [servedFrom_append_of_ne hij]
      exact hd

end Act

/-- A request that has counted an open answers with its ciphertext, if it has not answered yet. -/
theorem Story.of_opened {env : Env} {a : Stage} {h : List Event} (hs : Story env a h) {id : LinkId}
    {row : LinkMetadata} {now : Instant} {blob : Option (List UInt8)} (ho : .opened id row now ∈ h)
    (hr : .read id blob ∈ h) :
    a = .counted id blob (some row) ∨ .answered (openResponse blob (some row)) ∈ h := by
  have work : (∀ e ∈ h, e.isWork = true) → False := fun hw ↦ by cases hw _ hr
  cases a with
  | fresh | placed | undoing | kept | fetched =>
    cases hs
    simp at ho
  | counted id' blob' row' =>
    cases row' with
    | none =>
      cases hs
      simp at ho
    | some row' =>
      obtain ⟨now', rfl⟩ := hs
      obtain ⟨rfl, rfl⟩ : id = id' ∧ blob = blob' := by simpa [mem_openEvents] using hr
      obtain ⟨rfl, -⟩ : row = row' ∧ now = now' := by simpa [mem_openEvents] using ho
      exact .inl rfl
  | owing id' => exact (work hs.1).elim
  | dropping id' | busy => exact (work hs).elim
  | done =>
    cases hs with
    | worked hw answer plain =>
      simp only [List.mem_append, mem_finish] at hr
      rcases hr with ⟨r, -, hr⟩ | hr
      · cases hr
      · cases hw _ hr
    | completed hw acted answer plain =>
      simp only [List.mem_append, List.mem_cons, mem_finish] at hr
      rcases hr with ⟨r, -, hr⟩ | hr | hr
      · cases hr
      · cases hr
      · cases hw _ hr
    | created record => simp at ho
    | undone token record => simp [mem_finish] at ho
    | kept token record ciphertext => simp [mem_finish] at ho
    | refused id' blob' answer plain => simp [mem_finish] at ho
    | opened id' blob' row' now' =>
      obtain ⟨rfl, rfl⟩ : id = id' ∧ blob = blob' := by
        simpa [mem_openEvents, mem_completion] using hr
      obtain ⟨rfl, -⟩ : row = row' ∧ now = now' := by
        simpa [mem_openEvents, mem_completion] using ho
      exact .inr List.mem_cons_self

/-! ## Delivery -/

/-- Every request that counted an open on the row of a create is answered 200 with the ciphertext that
this create stored: it has been answered, or its next step answers, whatever the scheduler picks. -/
def Delivered {χ P σ : Type} (M : Program Request χ P σ Event) (c : Config P σ Event) : Prop :=
  ∀ i id blob row now, (i, .read id blob) ∈ c.trace → (i, .opened id row now) ∈ c.trace →
    ∃ d b, servedFrom i c.trace = some d ∧ (d, .stored id b) ∈ c.trace ∧
      (∀ id' b', (d, .stored id' b') ∈ c.trace → b' = b) ∧
      ((i, .answered (.delivered b row)) ∈ c.trace ∨ ∃ p, c.threads[i]? = some p ∧
        ∀ x s, ∃ p' s' es, M.step i x p s = some (p', s', es) ∧ .answered (.delivered b row) ∈ es)

namespace LinkServer

variable {χ P σ : Type} {env : Env} {M : Program Request χ P σ Event} {links : σ → Links}
  {stage : P → Stage} {inv : σ → Prop} {ok : Program.Guard χ P σ Event} {s₀ : σ}
  {c : Config P σ Event}

/-- What a condition must say of the steps of a server for its opens to be delivered. -/
structure Ordered (M : Program Request χ P σ Event) (links : σ → Links) (stage : P → Stage)
    (inv : σ → Prop) (ok : Program.Guard χ P σ Event) : Prop where
  /-- No ciphertext is written over that of a live link. -/
  put : ∀ {i x p s t p' s' es}, ok i x p s t → inv s → M.step i x p s = some (p', s', es) →
    ∀ token record blob, stage p = .placed token record blob → es = [.stored record.id blob] →
      ¬Live (links s) record.id t
  /-- The ciphertext of a live link is not deleted. -/
  drop : ∀ {i x p s t p' s' es}, ok i x p s t → inv s → M.step i x p s = some (p', s', es) →
    ∀ id, stage p = .dropping id → links s' ≠ links s → ¬Live (links s) id t
  /-- Opens are counted on rows whose ciphertext had been stored when it was read. -/
  «open» : ∀ {i x p s t p' s' es}, ok i x p s t → inv s → M.step i x p s = some (p', s', es) →
    ∀ id blob, stage p = .fetched id blob → (∃ row now, .opened id row now ∈ es) →
      ReadAfterStore i id blob t

theorem served (h : LinkServer env M links stage inv) (hempty : links s₀ = fun _ ↦ Link.vacant)
    (hinv : inv s₀) (hord : Ordered M links stage inv ok) (hc : M.Reachable ok s₀ c) :
    Served c.trace := by
  have hkeeps : M.Keeps (Program.Guard.with ok (Kept links inv) (Told env stage))
      (fun s t ↦ Held (links s) t ∧ Served t) (fun i p s t ↦ Reading (links s) i (stage p) t) := by
    refine ⟨?_, ?_, ?_⟩
    · intro i request s t _ _ id blob hb
      rw [h.start] at hb
      cases hb
    · rintro i x p s t p' s' es ⟨hok, hkept, htold⟩ ⟨hheld, hserved⟩ hL hstep
      have hact := h.act hkept.state hstep
      exact ⟨⟨hheld.step hact htold (hord.put hok hkept.state hstep)
          (hord.drop hok hkept.state hstep),
        hserved.step hact htold hkept.ledger hL (hord.open hok hkept.state hstep)⟩, Reading.own hheld hact⟩
    · rintro i x p s t p' s' es j q hij ⟨hok, hkept, htold⟩ _ _ hstep hq
      exact Reading.other hq hij (h.act hkept.state hstep) htold
  refine (Program.invariant hkeeps ⟨?_, ?_⟩ (h.strengthen hempty hinv hc)).shared.2
  · intro id row d b _ _ howner
    cases howner
  · rintro i id row now blob ⟨⟩

theorem delivered (h : LinkServer env M links stage inv) (hempty : links s₀ = fun _ ↦ Link.vacant)
    (hinv : inv s₀) (hord : Ordered M links stage inv ok)
    (respond : ∀ {i p id b row}, stage p = .counted id (some b) (some row) → ∀ x s,
      ∃ p' s' es, M.step i x p s = some (p', s', es) ∧ .answered (.delivered b row) ∈ es)
    (hc : M.Reachable ok s₀ c) : Delivered M c := by
  intro i id blob row now hread hopened
  obtain ⟨d, b, hd, hb, rfl⟩ := h.served hempty hinv hord hc i id row now blob hopened hread
  have hholds := h.holds hempty hinv hc
  have hi : i < c.threads.length := hholds.actors _ hread
  have hp : c.threads[i]? = some c.threads[i] := List.getElem?_eq_getElem hi
  have hstory := hholds.thread i _ hp
  refine ⟨d, b, hd, hb, fun id' b' hb' ↦ ?_, ?_⟩
  · exact ((h.kind hempty hinv hc d).of_stored (mem_mine.mpr hb)).2.1 id' b' (mem_mine.mpr hb')
  · rcases hstory.of_opened (mem_mine.mpr hopened) (mem_mine.mpr hread) with hstage | ha
    · exact .inr ⟨_, hp, respond hstage⟩
    · exact .inl (mem_mine.mp ha)

end LinkServer

/-! ## The two stores -/

namespace Memory

/-- The condition under which counted opens are delivered in memory: an open is counted on a row whose
ciphertext had been stored before the request read it, and a create that writes its ciphertext, or a
purge or sweep that deletes one, does not find a live link under the id. -/
def OpensInOrder : Program.Guard Input Pc MemoryStore Event :=
  fun i x p s t ↦
    match p with
    | .increment id blob => (∀ row ∈ (s.link id).row, row.status = .active →
        x.clock.now < row.expiresAt → ReadAfterStore i id blob t)
    | .put _ record _ => x.fails = false → ¬Live s.link record.id t
    | .purge id present => present = true → ¬Live s.link id t
    | .sweepGot _ id present => present = true → ¬Live s.link id t
    | _ => True

instance (i : Nat) (x : Input) (p : Pc) (s : MemoryStore) (t : Trace Event) :
    Decidable (OpensInOrder i x p s t) :=
  match p with
  | .increment id blob => inferInstanceAs (Decidable (∀ row ∈ (s.link id).row,
      row.status = .active → x.clock.now < row.expiresAt → ReadAfterStore i id blob t))
  | .put _ record _ => inferInstanceAs (Decidable (x.fails = false → ¬Live s.link record.id t))
  | .purge id present => inferInstanceAs (Decidable (present = true → ¬Live s.link id t))
  | .sweepGot _ id present => inferInstanceAs (Decidable (present = true → ¬Live s.link id t))
  | .start _ | .checked .. | .rollback .. | .created .. | .opened .. | .incremented ..
  | .revoked .. | .purged _ | .sweepNext _ | .pruneNext .. | .done => isTrue trivial

theorem ordered (env : Env) :
    LinkServer.Ordered (program env) MemoryStore.link stage (fun _ ↦ True) OpensInOrder where
  put := by
    rintro i x p s t p' s' es hok - hstep token record blob hstage rfl
    have hp := stage_inv p
    rw [hstage] at hp
    cases hp
    refine hok (Bool.eq_false_iff.mpr fun hf ↦ ?_)
    simp [program, step, hf] at hstep
  drop := by
    intro i x p s t p' s' es hok _ hstep id hstage _
    have hp := stage_inv p
    rw [hstage] at hp
    rcases hp with rfl | ⟨position, rfl⟩
    · exact hok rfl
    · exact hok rfl
  «open» := by
    rintro i x p s t p' s' es hok - hstep id blob hstage ⟨row, now, hm⟩
    have hp := stage_inv p
    rw [hstage] at hp
    cases hp
    rcases incrementOpens_cases s id x.clock (.opened id blob) with hc | ⟨old, s₁, hr, ha, hn, -, -⟩
    · change some (incrementOpens s id x.clock (.opened id blob)) = some (p', s', es) at hstep
      rw [hc] at hstep
      cases hstep
      cases hm
    · exact hok old hr ha hn

theorem respond (env : Env) {i : Nat} {p : Pc} {id : LinkId} {b : List UInt8} {row : LinkMetadata}
    (h : stage p = .counted id (some b) (some row)) (x : Input) (s : MemoryStore) :
    ∃ p' s' es, (program env).step i x p s = some (p', s', es) ∧
      .answered (.delivered b row) ∈ es := by
  have hp := stage_inv p
  rw [h] at hp
  cases hp
  exact ⟨_, _, _, rfl, List.mem_cons_self⟩

end Memory

namespace Postgres

/-- The condition under which counted opens are delivered in Postgres: an open is counted on a row
whose ciphertext had been stored before the request read it, and a purge that has found no active row
does not delete the ciphertext of a live link. -/
def OpensInOrder : Program.Guard Input Pc State Event :=
  fun i x p s t ↦
    match p with
    | .increment id blob => x.fails = false → (∀ row ∈ (links s id).row, row.status = .active →
        Store.Pg.toDate x.now < row.expiresAt → ReadAfterStore i id blob t)
    | .commitPurge id _ wasActive present =>
      x.fails = false → wasActive = false → present = true → ¬Live (links s) id t
    | _ => True

theorem ordered (env : Env) :
    LinkServer.Ordered (program env) links stage (fun s ↦ Store.Pg.Aligned s.db) OpensInOrder where
  put := by
    rintro i x p s t p' s' es - - hstep token record blob hstage rfl
    have hp := stage_inv p
    rw [hstage] at hp
    cases hp
  drop := by
    intro i x p s t p' s' es hok _ hstep id hstage hne
    have hp := stage_inv p
    rw [hstage] at hp
    obtain ⟨now, rfl⟩ := hp
    refine hok (Bool.eq_false_iff.mpr fun hf ↦ ?_) rfl rfl
    simp only [program, step, hf, if_true] at hstep
    cases hstep
    exact hne rfl
  «open» := by
    rintro i x p s t p' s' es hok hal hstep id blob hstage ⟨row, now, hm⟩
    have hp := stage_inv p
    rw [hstage] at hp
    cases hp
    rcases incrementOpens_cases hal hstep with ⟨-, -, rfl⟩ | ⟨-, -, rfl⟩ |
      ⟨old, hf, hr, ha, hn, -, -, -, -⟩
    · simp [failure, mem_finish] at hm
    · cases hm
    · exact hok hf old hr ha hn

theorem respond (env : Env) {i : Nat} {p : Pc} {id : LinkId} {b : List UInt8} {row : LinkMetadata}
    (h : stage p = .counted id (some b) (some row)) (x : Input) (s : State) :
    ∃ p' s' es, (program env).step i x p s = some (p', s', es) ∧
      .answered (.delivered b row) ∈ es := by
  have hp := stage_inv p
  rw [h] at hp
  cases hp
  exact ⟨_, _, _, rfl, List.mem_cons_self⟩

end Postgres

/-- Where opens are in order, every counted open is answered 200 with the ciphertext of its row. -/
theorem delivered_of_ordered (env : Env) :
    (∀ c, (Memory.program env).Reachable Memory.OpensInOrder MemoryStore.empty c →
      Delivered (Memory.program env) c) ∧
    ∀ c, (Postgres.program env).Reachable Postgres.OpensInOrder Postgres.State.initial c →
      Delivered (Postgres.program env) c := by
  constructor
  · intro c hc
    exact (Memory.linkServer env).delivered rfl trivial (Memory.ordered env) (Memory.respond env) hc
  · intro c hc
    exact (Postgres.linkServer env).delivered rfl (by rintro id row ⟨⟩) (Postgres.ordered env)
      (Postgres.respond env) hc

/-- A create and an open of its id, which reads the ciphertext before or after it is stored. -/
def openDuring (early : Bool) : List (Action Request Memory.Input) :=
  [.spawn (.createWithCiphertext ⟨"AAAAAAAAAAAAAAAA", 1000, 1, none⟩ [7]),
    .spawn (.openMessage "AAAAAAAAAAAAAAAA" ""), .run 0 (.at 1)] ++
  if early then [.run 1 (.at 2), .run 0 (.at 3), .run 1 (.at 4), .run 1 (.at 5)]
  else [.run 0 (.at 2), .run 1 (.at 3), .run 1 (.at 4), .run 1 (.at 5)]

theorem delivered_of_ordered_sample :
    ∃ c, (Memory.program .sample).exec Memory.OpensInOrder (Program.start MemoryStore.empty)
      (openDuring false) = some c ∧ Delivered (Memory.program .sample) c ∧
        1 ∈ deliveries 0 c.trace := by
  have hrun : ((Memory.program .sample).exec Memory.OpensInOrder (Program.start MemoryStore.empty)
      (openDuring false)).map (fun c ↦ deliveries 0 c.trace) = some [1] := by
    decide
  obtain ⟨c, hc, hd⟩ := Option.map_eq_some_iff.mp hrun
  refine ⟨c, hc, (delivered_of_ordered .sample).1 c (Program.runs_of_exec hc), ?_⟩
  rw [hd]
  exact List.mem_cons_self

/-- An open that reads before the create has stored its ciphertext, and counts after, is consumed and
answered 410. -/
theorem early_read_lost : ¬∀ env,
    (∀ c, (Memory.program env).Reachable .always MemoryStore.empty c →
      Delivered (Memory.program env) c) ∧
    ∀ c, (Postgres.program env).Reachable .always Postgres.State.initial c →
      Delivered (Postgres.program env) c := by
  intro h
  have hrun : ((Memory.program .sample).exec .always (Program.start MemoryStore.empty)
      (openDuring true)).map (fun c ↦ (c.trace, c.threads[1]?.map fun p ↦
        ((Memory.program .sample).step 1 (.at 6) p c.shared).isSome)) =
      some ([(1, .answered noLongerAvailable), (1, .completed "AAAAAAAAAAAAAAAA"),
        (1, .acted "AAAAAAAAAAAAAAAA"),
        (1, .opened "AAAAAAAAAAAAAAAA" ⟨"AAAAAAAAAAAAAAAA", .expired, none, 1000, 1, 1⟩ 4),
        (0, .stored "AAAAAAAAAAAAAAAA" [7]), (1, .read "AAAAAAAAAAAAAAAA" none),
        (0, .inserted ⟨"AAAAAAAAAAAAAAAA", 1000, 1, none⟩)], some false) := by
    decide
  obtain ⟨c, hc, hv⟩ := Option.map_eq_some_iff.mp hrun
  obtain ⟨ht, hdone⟩ := Prod.mk.inj hv
  have hread : (1, Event.read "AAAAAAAAAAAAAAAA" none) ∈ c.trace := by
    rw [ht]
    decide
  have hopened : (1, Event.opened "AAAAAAAAAAAAAAAA"
      ⟨"AAAAAAAAAAAAAAAA", .expired, none, 1000, 1, 1⟩ 4) ∈ c.trace := by
    rw [ht]
    decide
  obtain ⟨d, b, -, -, -, ha | ⟨p, hp, hnext⟩⟩ :=
    (h .sample).1 c (Program.runs_of_exec hc) 1 _ none _ _ hread hopened
  · rw [ht] at ha
    simp [noLongerAvailable] at ha
  · obtain ⟨p', s', es, hstep, -⟩ := hnext (.at 6) c.shared
    rw [hp, Option.map_some, hstep] at hdone
    cases hdone

end Aesmsg.Server
