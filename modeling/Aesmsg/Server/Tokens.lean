import Aesmsg.Server.Ledger
import Aesmsg.Store.Revocation

/-!
# Tokens of a server

Where the revocation token of a 201 comes from, and what the answer to a revoke request tells about
the link, on a server in use by anybody.

## Main results

- `Hashed.step`: every row has the hash of a record that was inserted under its id.
- `TokenServer`: what the servers over both stores do with a create request and a revoke request.
-/

namespace Aesmsg.Server

open Store Api Threads

/-- The records that were inserted under `id`. -/
def insertions (id : LinkId) (t : Trace Event) : List CreateLinkRecord :=
  t.filterMap fun e ↦
    match e.2 with
    | .inserted record => if record.id = id then some record else none
    | _ => none

section Insertions

variable {id : LinkId} {t : Trace Event} {i : Nat} {es : List Event} {record : CreateLinkRecord}

theorem mem_insertions : record ∈ insertions id t ↔ (∃ i, (i, .inserted record) ∈ t) ∧ record.id = id := by
  unfold insertions
  rw [List.mem_filterMap]
  constructor
  · rintro ⟨⟨i, e⟩, hm, he⟩
    cases e with
    | inserted record' =>
      dsimp only at he
      split at he
      · rename_i hid
        cases he
        exact ⟨⟨i, hm⟩, hid⟩
      · cases he
    | _ => cases he
  · rintro ⟨⟨i, hm⟩, hid⟩
    exact ⟨(i, .inserted record), hm, if_pos hid⟩

theorem insertions_append (id : LinkId) (t t' : Trace Event) :
    insertions id (t ++ t') = insertions id t ++ insertions id t' := List.filterMap_append

theorem mem_insertions_append (h : record ∈ insertions id t) :
    record ∈ insertions id (tag i es ++ t) := by
  rw [insertions_append]
  exact List.mem_append_right _ h

theorem mem_insertions_tag (h : .inserted record ∈ es) (hid : record.id = id) :
    record ∈ insertions id (tag i es) :=
  mem_insertions.mpr ⟨⟨i, List.mem_map.mpr ⟨_, h, rfl⟩⟩, hid⟩

/-- Under an id that is inserted once, nothing is inserted by a later step. -/
theorem not_inserted_of_once (hne : insertions id t ≠ [])
    (honce : (insertions id (tag i es ++ t)).length ≤ 1) :
    (∀ record, .inserted record ∈ es → record.id ≠ id) ∧ (insertions id t).length ≤ 1 := by
  rw [insertions_append, List.length_append] at honce
  have hpos := List.length_pos_iff.mpr hne
  refine ⟨fun record hrecord hid ↦ ?_, by omega⟩
  have hnew := List.length_pos_of_mem (mem_insertions_tag (i := i) hrecord hid)
  omega

theorem eq_of_once (honce : (insertions id t).length ≤ 1) {record record' : CreateLinkRecord}
    (h : record ∈ insertions id t) (h' : record' ∈ insertions id t) : record = record' := by
  obtain ⟨r, hr⟩ := List.length_eq_one_iff.mp (Nat.le_antisymm honce (List.length_pos_of_mem h))
  rw [hr, List.mem_singleton] at h h'
  exact h.trans h'.symm

end Insertions

/-! ## Steps -/

section Act

variable {env : Env} {links links' : Links} {a b : Stage} {es : List Event} {id : LinkId}

/-- A closed row stays closed unless another is inserted. -/
theorem Act.closed (h : Act env links links' a es b) (hclosed : (links id).Closed)
    (hnone : ∀ record, .inserted record ∈ es → record.id ≠ id) : (links' id).Closed := by
  intro row hrow
  have hm := h.move
  have hrow' : rowsOf links' id = some row := hrow
  have hold : ∀ row, rowsOf links id = some row → row.status ≠ .active := hclosed
  generalize rowsOf links = rows at hm hold
  generalize rowsOf links' = rows' at hm hrow'
  cases hm with
  | close quiet closes =>
    rcases closes id with hk | hk | ⟨old, status, -, hs, hk⟩
    · exact hold row (hk.symm.trans hrow')
    · cases hk.symm.trans hrow'
    · cases hk.symm.trans hrow'
      exact hs
  | @insert es record quiet absent =>
    have hid := hnone record (List.mem_append_right _ List.mem_cons_self)
    rw [Function.update_of_ne hid.symm] at hrow'
    exact hold row hrow'
  | @«open» es id' old now quiet present active live =>
    by_cases hid : id = id'
    · subst hid
      exact absurd active (hold old present)
    · rw [Function.update_of_ne hid] at hrow'
      exact hold row hrow'

/-- A row that is there keeps its hash, and was there before. -/
def Keeping (l l' : Link) : Prop := l'.row.isSome = true → l'.hash = l.hash ∧ l.row.isSome = true

theorem Keeping.refl (l : Link) : Keeping l l := fun h ↦ ⟨rfl, h⟩

theorem Closing.keeping {l l' : Link} (h : Closing l l') : Keeping l l' := by
  intro hrow
  cases h with
  | keep | purge => exact ⟨rfl, hrow⟩
  | terminate present | shut present => exact ⟨rfl, by rw [present]; rfl⟩
  | prune => cases hrow

theorem Keeping.increment (l : Link) (now stamp : Instant) : Keeping l (l.increment now stamp) := by
  unfold Link.increment
  cases ho : l.openedRow now with
  | none => exact .refl l
  | some row =>
    obtain ⟨r, hr, -, -, -⟩ := Link.openedRow_eq_some.mp ho
    have hsome : l.row.isSome = true := by rw [hr]; rfl
    dsimp only
    split
    · exact fun _ ↦ ⟨rfl, hsome⟩
    · exact fun _ ↦ ⟨rfl, hsome⟩

theorem Keeping.update {k : LinkId} {l : Link} (link : links' = Function.update links k l)
    (h : Keeping (links k) l) (id : LinkId) : Keeping (links id) (links' id) := by
  rw [link]
  by_cases hid : id = k
  · subst hid
    rw [Function.update_self]
    exact h
  · rw [Function.update_of_ne hid]
    exact .refl _

/-- Where the hash of a row comes from. -/
theorem Act.hash (h : Act env links links' a es b) (hrow : (links' id).row.isSome = true) :
    ((links' id).hash = (links id).hash ∧ (links id).row.isSome = true) ∨
      ∃ record, .inserted record ∈ es ∧ record.id = id ∧
        (links' id).hash = some record.revocationTokenHash := by
  have insert : ∀ {record : CreateLinkRecord} {l : Link},
      links' = Function.update links record.id l → l.hash = some record.revocationTokenHash →
        .inserted record ∈ es → ((links' id).hash = (links id).hash ∧ (links id).row.isSome = true) ∨
          ∃ record, .inserted record ∈ es ∧ record.id = id ∧
            (links' id).hash = some record.revocationTokenHash := by
    intro record l link hhash hmem
    rw [link] at hrow ⊢
    by_cases hid : id = record.id
    · subst hid
      rw [Function.update_self]
      exact .inr ⟨record, hmem, rfl, hhash⟩
    · rw [Function.update_of_ne hid] at hrow ⊢
      exact .inl ⟨rfl, hrow⟩
  cases h with
  | create _ link => exact insert link rfl List.mem_cons_self
  | place _ _ _ link => exact insert link rfl List.mem_cons_self
  | commit _ _ _ link => exact insert link rfl (List.mem_cons_of_mem _ List.mem_cons_self)
  | wait same | quit _ _ _ same | fail same | reply same | fetch _ same | miss same | respond same
  | complete _ _ _ same =>
    subst same
    exact .inl ⟨rfl, hrow⟩
  | close _ closing | act _ _ closing => exact .inl ((closing id).keeping hrow)
  | put link => exact .inl (Keeping.update link (fun h ↦ ⟨rfl, h⟩) id hrow)
  | undo link => exact .inl (Keeping.update link (fun h ↦ by cases h) id hrow)
  | count _ _ _ link | tally _ _ _ link => exact .inl (Keeping.update link (.increment _ _ _) id hrow)
  | drop _ link | dropActed _ link => exact .inl (Keeping.update link (fun h ↦ ⟨rfl, h⟩) id hrow)

/-- The record that a create has inserted. -/
def Stage.record? : Stage → Option CreateLinkRecord
  | .placed _ record _ | .kept _ record _ => some record
  | _ => none

theorem Act.record (h : Act env links links' a es b) {record : CreateLinkRecord}
    (hb : b.record? = some record) : a.record? = some record ∨ .inserted record ∈ es := by
  cases h with
  | place | commit =>
    cases hb
    exact .inr (by simp)
  | put =>
    cases hb
    exact .inl rfl
  | close passes => cases passes <;> cases hb
  | @tally id row =>
    unfold Stage.resolved at hb
    split at hb <;> cases hb
  | _ => cases hb

/-- A 201 answers the create that has stored both row and ciphertext. -/
theorem Act.created (h : Act env links links' a es b) {url token : String}
    (hr : .answered (.created id url token) ∈ es) :
    ∃ record ciphertext, a = .kept (some token) record ciphertext ∧ record.id = id := by
  have plain : ∀ {answer : Option Response}, (∀ r ∈ answer, r.isPlain = true) →
      .answered (.created id url token) ∉ finish answer := by
    intro answer hplain hm
    obtain ⟨r, hanswer, hr⟩ := mem_finish.mp hm
    cases hr
    cases hplain _ hanswer
  cases h with
  | @reply token' record ciphertext same =>
    obtain ⟨r, hanswer, hr⟩ := mem_finish.mp hr
    cases hr
    obtain ⟨token'', rfl, hcreated⟩ := Option.map_eq_some_iff.mp hanswer
    cases hcreated
    exact ⟨record, ciphertext, rfl, rfl⟩
  | close passes closing tidy =>
    obtain ⟨_, he⟩ := tidy _ hr
    cases he
  | quit answer hplain => exact absurd hr (plain hplain)
  | complete id' answer hplain =>
    rcases List.mem_append.mp hr with hr | hr
    · exact absurd hr (plain hplain)
    · cases List.mem_singleton.mp hr
  | @undo token' record =>
    rcases List.mem_append.mp hr with hr | hr
    · refine absurd hr (plain ?_)
      intro r hr
      obtain ⟨_, -, rfl⟩ := Option.map_eq_some_iff.mp hr
      rfl
    · cases List.mem_singleton.mp hr
  | @respond id' blob row =>
    rcases List.mem_cons.mp hr with hr | hr
    · cases row <;> cases blob <;> cases hr
    · simp [mem_completion] at hr
  | count | tally => simp [mem_openEvents] at hr
  | _ => simp at hr

end Act

/-! ## The hashes of the rows -/

/-- Every row has the hash of a record that was inserted under its id. -/
def Hashed (links : Links) (t : Trace Event) : Prop :=
  ∀ id, (links id).row.isSome = true → ∃ record ∈ insertions id t,
    (links id).hash = some record.revocationTokenHash

/-- The token is that of a record that was inserted under `id`. -/
def Minted (env : Env) (id : LinkId) (token : String) (t : Trace Event) : Prop :=
  ∃ record ∈ insertions id t, record.revocationTokenHash = some (env.hashRevocationToken token)

/-- An active row lets the token hash through. -/
def Allows (l : Link) (providedTokenHash : Option String) : Prop :=
  ∀ row, l.row = some row → row.status = .active →
    revokeAllowed (l.hash.getD none) providedTokenHash = true

section Step

variable {env : Env} {links links' : Links} {a b : Stage} {es : List Event} {i : Nat}
  {t : Trace Event} {id : LinkId}

theorem Hashed.step (hh : Hashed links t) (h : Act env links links' a es b) :
    Hashed links' (tag i es ++ t) := by
  intro id hrow
  rcases h.hash hrow with ⟨hhash, hold⟩ | ⟨record, hrecord, hid, hhash⟩
  · obtain ⟨record, hrecord, heq⟩ := hh id hold
    exact ⟨record, mem_insertions_append hrecord, hhash.trans heq⟩
  · refine ⟨record, ?_, hhash⟩
    rw [insertions_append]
    exact List.mem_append_left _ (mem_insertions_tag hrecord hid)

theorem Minted.append {token : String} (h : Minted env id token t) :
    Minted env id token (tag i es ++ t) := by
  obtain ⟨record, hrecord, hhash⟩ := h
  exact ⟨record, mem_insertions_append hrecord, hhash⟩

theorem Act.allows (h : Act env links links' a es b) {providedTokenHash : Option String}
    (hallows : Allows (links id) providedTokenHash)
    (hnone : ∀ record, .inserted record ∈ es → record.id ≠ id) :
    Allows (links' id) providedTokenHash := by
  intro row hrow hactive
  by_cases hclosed : (links id).Closed
  · exact absurd hactive (h.closed hclosed hnone row hrow)
  · have hold : ∃ old, (links id).row = some old ∧ old.status = .active := by
      unfold Link.Closed at hclosed
      push Not at hclosed
      exact hclosed
    obtain ⟨old, hold, holdActive⟩ := hold
    rcases h.hash (by rw [hrow]; rfl) with ⟨hhash, -⟩ | ⟨record, hrecord, hid, -⟩
    · rw [hhash]
      exact hallows old hold holdActive
    · exact absurd hid (hnone record hrecord)

/-- The token of the only record lets through. -/
theorem Hashed.allows (hdigest : ∀ token, IsDigest (env.hashRevocationToken token))
    (hh : Hashed links t) (honce : (insertions id t).length ≤ 1) {token : String}
    (hminted : Minted env id token t) :
    Allows (links id) (some (env.hashRevocationToken token)) := by
  intro row hrow hactive
  obtain ⟨record, hrecord, hhash⟩ := hh id (by rw [hrow]; rfl)
  obtain ⟨record', hrecord', htoken⟩ := hminted
  obtain rfl := eq_of_once honce hrecord hrecord'
  rw [hhash, htoken, Option.getD_some, revokeAllowed_iff]
  rintro stored ⟨⟩
  exact ⟨_, rfl, (IsDigest.sameHex_iff (hdigest token) (hdigest token)).mpr rfl⟩

end Step

/-! ## Servers -/

def answer? (es : List Event) : Option Response :=
  es.findSome? fun e ↦
    match e with
    | .answered response => some response
    | _ => none

theorem mem_of_answer {es : List Event} {response : Response} (h : answer? es = some response) :
    .answered response ∈ es := by
  obtain ⟨e, he, heq⟩ := List.exists_of_findSome?_eq_some h
  cases e with
  | answered response' =>
    cases heq
    exact he
  | _ => cases heq

/-- The record of a draft, with the hash of the token. -/
def Drafted (env : Env) (validate : Instant → Option Draft) (token : String) (record : CreateLinkRecord) :
    Prop :=
  ∃ now draft, validate now = some draft ∧ record = draft.record (env.hashRevocationToken token)

/-- The answer to a create request is a 201 or an error. -/
def CreateAnswer (r : Response) : Prop :=
  (∃ id url token, r = .created id url token) ∨ ∃ status code, r = .error status code ∧ 400 ≤ status

/-- What a server does with the tokens, on its way through a create request that is `posting` and
through a revoke request, which is `trying` until it has dealt with the row and `settled` then. -/
structure TokenServer {χ P σ : Type} (env : Env) (M : Program Request χ P σ Event) (links : σ → Links)
    (stage : P → Stage) (posting : (Instant → Option Draft) → P → Prop)
    (trying : LinkId → Option String → P → Prop) (settled : LinkId → P → Prop) : Prop where
  posts : ∀ validate, posting validate (M.init (.postMessages validate))
  posted : ∀ {i x p s p' s' es validate}, posting validate p → M.step i x p s = some (p', s', es) →
    posting validate p' ∧ ∀ r, .answered r ∈ es → CreateAnswer r
  kept : ∀ {validate p token record ciphertext}, posting validate p →
    stage p = .kept (some token) record ciphertext → Drafted env validate token record
  tries : ∀ id body token, trying id (env.presentedHash token) (M.init (.revokeMessage id body token))
  tried : ∀ {i x p s p' s' es id hash}, trying id hash p → M.step i x p s = some (p', s', es) →
    (trying id hash p' ∨ (settled id p' ∧ (Allows (links s id) hash → (links s' id).Closed))) ∧
      ∀ r, .answered r ∈ es → ∃ status code, r = .error status code ∧ 400 ≤ status ∧ status ≠ 404 ∧ status ≠ 410
  replied : ∀ {i x p s p' s' es id}, settled id p → M.step i x p s = some (p', s', es) →
    settled id p' ∧ ∀ r, .answered r ∈ es → r = .revoked id

section Answers

variable {id : LinkId}

theorem createAnswer_error {status : Nat} {code : String} (h : 400 ≤ status) :
    CreateAnswer (.error status code) := .inr ⟨status, code, rfl, h⟩

/-- An answer that the create handler gives at once. -/
theorem createAnswer_of_mem {r answer : Response} (h : .answered r ∈ [Event.answered answer])
    (hanswer : CreateAnswer answer) : CreateAnswer r := by
  cases List.mem_singleton.mp h
  exact hanswer

theorem createAnswer_created (env : Env) (id : LinkId) (token : String) :
    CreateAnswer (env.created id token) := .inl ⟨id, _, token, rfl⟩

theorem status_of_rejects {body : String} {count : Nat} {r : Response}
    (h : rejects id body count = some r) :
    ∃ status code, r = .error status code ∧ 400 ≤ status ∧ status ≠ 404 ∧ status ≠ 410 := by
  unfold rejects at h
  split at h
  · cases h
    exact ⟨_, _, rfl, by decide, by decide, by decide⟩
  split at h
  · cases h
    exact ⟨_, _, rfl, by decide, by decide, by decide⟩
  split at h
  · cases h
    exact ⟨_, _, rfl, by decide, by decide, by decide⟩
  · cases h

/-- A revoke that is settled is answered as revoked. -/
theorem answered_revoked {effect : Bool} {r : Response}
    (h : .answered r ∈ finish (if true then some (.revoked id) else none) ++
      if effect then [.completed id] else []) : r = .revoked id := by
  rcases List.mem_append.mp h with h | h
  · cases List.mem_singleton.mp h
    rfl
  · split at h
    · cases List.mem_singleton.mp h
    · cases h

end Answers

end Aesmsg.Server
