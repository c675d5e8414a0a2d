import Aesmsg.Api.Http
import Aesmsg.Lib.Threads

/-!
# What a run of the server shows

The events that the requests and store operations of a run emit, on either store, and what can be
read off a trace: who inserted the row that an id holds, which opens were counted on it and which
requests were answered from it.
-/

namespace Aesmsg.Server

open Store Api Threads

inductive Event where
  /-- The row of the record was inserted. -/
  | inserted (record : CreateLinkRecord)
  /-- The ciphertext of a create was written. -/
  | stored (id : LinkId) (blob : List UInt8)
  /-- A create undid its row. -/
  | rolledBack (id : LinkId)
  /-- An open request read the ciphertext. -/
  | read (id : LinkId) (blob : Option (List UInt8))
  /-- `incrementOpens` resolved with `row`, having read the clock as `now`. -/
  | opened (id : LinkId) (row : LinkMetadata) (now : Instant)
  /-- An authorized revoke, an admin purge or the open that exhausts a link dealt with the row. -/
  | acted (id : LinkId)
  /-- That operation completed. -/
  | completed (id : LinkId)
  /-- The prune deleted the row. -/
  | pruned (id : LinkId)
  | answered (response : Response)
deriving DecidableEq, Repr

/-- The requests and the store methods that a run may start. -/
inductive Request where
  /-- `POST /messages`.  `validate` is what the checks of the body give at a time. -/
  | postMessages (validate : Instant → Option Draft)
  /-- `POST /messages/:id/open`. -/
  | openMessage (id : LinkId) (body : String)
  /-- `POST /messages/:id/revoke`, with the token of the header. -/
  | revokeMessage (id : LinkId) (body : String) (token : Option String)
  | create (record : CreateLinkRecord)
  | createWithCiphertext (record : CreateLinkRecord) (ciphertext : List UInt8)
  | incrementOpens (id : LinkId)
  | revoke (id : LinkId) (providedTokenHash : Option String)
  | expirePastDue
  | pruneTerminal (before : Option Instant)
  | adminPurge (id : LinkId)

namespace Event

def isInserted : Event → Bool
  | inserted _ => true
  | _ => false

def isOpened : Event → Bool
  | opened .. => true
  | _ => false

def isAnswered : Event → Bool
  | answered _ => true
  | _ => false

/-- A ciphertext write under `id`. -/
def stores (id : LinkId) : Event → Bool
  | stored id' _ => id' = id
  | _ => false

/-- Neither an insertion nor a counted open. -/
def isQuiet (e : Event) : Bool := !e.isInserted && !e.isOpened

end Event

/-- The events of the end of a call: a handler answers, a store method does not. -/
def finish (answer : Option Response) : List Event := (answer.map .answered).toList

/-- The events of a counted open. -/
def openEvents (id : LinkId) (row : LinkMetadata) (now : Instant) : List Event :=
  (if row.status = .expired then [.acted id] else []) ++ [.opened id row now]

/-- The event of an open that exhausted its link, once it has completed. -/
def completion (id : LinkId) (row : Option LinkMetadata) : List Event :=
  if row.any (·.status = .expired) then [.completed id] else []

/-- The thread that inserted the row under `id` last. -/
def owner : Trace Event → LinkId → Option Nat
  | [], _ => none
  | (i, .inserted record) :: t, id => if record.id = id then some i else owner t id
  | _ :: t, id => owner t id

/-- The opens counted on the row that thread `c` inserted, the latest first: who made them, and the
row they resolved with. -/
def opensOf (c : Nat) : Trace Event → List (Nat × LinkMetadata)
  | [] => []
  | (i, .opened id row _) :: t =>
    if owner t id = some c then (i, row) :: opensOf c t else opensOf c t
  | _ :: t => opensOf c t

/-- The creator of the row that the open of thread `i` was counted on. -/
def servedFrom (i : Nat) : Trace Event → Option Nat
  | [] => none
  | (j, .opened id _ _) :: t => if j = i then owner t id else servedFrom i t
  | _ :: t => servedFrom i t

/-- The requests that were answered 200 with a ciphertext from the row that `c` inserted. -/
def deliveries (c : Nat) : Trace Event → List Nat
  | [] => []
  | (i, .answered (.delivered ..)) :: t =>
    if servedFrom i t = some c then i :: deliveries c t else deliveries c t
  | _ :: t => deliveries c t

/-! ## Quiet events -/

variable {t : Trace Event} {i : Nat}

theorem owner_cons_of_not_inserted {e : Event} (h : e.isInserted = false) (id : LinkId) :
    owner ((i, e) :: t) id = owner t id := by
  cases e <;> first | rfl | cases h

theorem opensOf_cons_of_not_opened {e : Event} (h : e.isOpened = false) (c : Nat) :
    opensOf c ((i, e) :: t) = opensOf c t := by
  cases e <;> first | rfl | cases h

theorem servedFrom_cons_of_not_opened {e : Event} (h : e.isOpened = false) (j : Nat) :
    servedFrom j ((i, e) :: t) = servedFrom j t := by
  cases e <;> first | rfl | cases h

theorem deliveries_cons_of_not_answered {e : Event} (h : e.isAnswered = false) (c : Nat) :
    deliveries c ((i, e) :: t) = deliveries c t := by
  cases e <;> first | rfl | cases h

theorem owner_append_of_quiet {es : List Event} (h : ∀ e ∈ es, e.isInserted = false) (id : LinkId) :
    owner (tag i es ++ t) id = owner t id := by
  induction es with
  | nil => rfl
  | cons e es ih =>
    obtain ⟨he, hes⟩ := List.forall_mem_cons.mp h
    exact (owner_cons_of_not_inserted he id).trans (ih hes)

/-- The owner of an id changes only by an insertion. -/
theorem owner_append {es : List Event} {id : LinkId}
    (h : ∀ record, .inserted record ∈ es → record.id ≠ id) :
    owner (tag i es ++ t) id = owner t id := by
  induction es with
  | nil => rfl
  | cons e es ih =>
    have hrest := ih fun record hm ↦ h record (List.mem_cons_of_mem _ hm)
    cases e with
    | inserted record => exact (if_neg (h record List.mem_cons_self)).trans hrest
    | _ => exact hrest

/-- After a step that inserts a row its thread owns the id. -/
theorem owner_of_inserted {es : List Event} {record : CreateLinkRecord} (h : .inserted record ∈ es) :
    owner (tag i es ++ t) record.id = some i := by
  induction es with
  | nil => cases h
  | cons e es ih =>
    rcases List.mem_cons.mp h with rfl | hm
    · exact if_pos rfl
    · have hrest := ih hm
      cases e with
      | inserted record' =>
        change (if record'.id = record.id then some i else owner (tag i es ++ t) record.id) = some i
        split
        · rfl
        · exact hrest
      | _ => exact hrest

theorem servedFrom_append_of_ne {j : Nat} (h : i ≠ j) (es : List Event) :
    servedFrom j (tag i es ++ t) = servedFrom j t := by
  induction es with
  | nil => rfl
  | cons e es ih =>
    cases e with
    | opened id row now => exact (if_neg h).trans ih
    | _ => exact ih

theorem servedFrom_append_of_quiet {es : List Event} (h : ∀ e ∈ es, e.isOpened = false) (j : Nat) :
    servedFrom j (tag i es ++ t) = servedFrom j t := by
  induction es with
  | nil => rfl
  | cons e es ih =>
    obtain ⟨he, hes⟩ := List.forall_mem_cons.mp h
    exact (servedFrom_cons_of_not_opened he j).trans (ih hes)

theorem servedFrom_openEvents (id : LinkId) (row : LinkMetadata) (now : Instant) :
    servedFrom i (tag i (openEvents id row now) ++ t) = owner t id := by
  have hself : servedFrom i ((i, .opened id row now) :: t) = owner t id := if_pos rfl
  unfold openEvents
  split
  · exact hself
  · exact hself

theorem opensOf_append_of_quiet {es : List Event} (h : ∀ e ∈ es, e.isOpened = false) (c : Nat) :
    opensOf c (tag i es ++ t) = opensOf c t := by
  induction es with
  | nil => rfl
  | cons e es ih =>
    obtain ⟨he, hes⟩ := List.forall_mem_cons.mp h
    exact (opensOf_cons_of_not_opened he c).trans (ih hes)

theorem deliveries_append_of_quiet {es : List Event} (h : ∀ e ∈ es, e.isAnswered = false) (c : Nat) :
    deliveries c (tag i es ++ t) = deliveries c t := by
  induction es with
  | nil => rfl
  | cons e es ih =>
    obtain ⟨he, hes⟩ := List.forall_mem_cons.mp h
    exact (deliveries_cons_of_not_answered he c).trans (ih hes)

/-- A step with at most one answer adds at most its own thread to the deliveries. -/
theorem deliveries_append {es : List Event} (h : es.countP (·.isAnswered) ≤ 1) (c : Nat) :
    deliveries c (tag i es ++ t) = deliveries c t ∨
      deliveries c (tag i es ++ t) = i :: deliveries c t := by
  induction es with
  | nil => exact .inl rfl
  | cons e es ih =>
    cases he : e.isAnswered with
    | false =>
      rw [List.countP_cons_of_neg (by simp [he])] at h
      have hskip : deliveries c (tag i (e :: es) ++ t) = deliveries c (tag i es ++ t) :=
        deliveries_cons_of_not_answered he c
      rw [hskip]
      exact ih h
    | true =>
      rw [List.countP_cons_of_pos (by simp [he])] at h
      have hzero : es.countP (·.isAnswered) = 0 := by omega
      have hquiet : ∀ e ∈ es, e.isAnswered = false := fun e hm ↦
        Bool.eq_false_iff.mpr (List.countP_eq_zero.mp hzero e hm)
      have hrest := deliveries_append_of_quiet (t := t) (i := i) hquiet c
      cases e with
      | answered response =>
        cases response with
        | delivered blob row =>
          rw [tag_cons, List.cons_append, deliveries, hrest]
          split
          · exact .inr rfl
          · exact .inl rfl
        | _ => exact .inl hrest
      | _ => cases he

/-- The owner of an id inserted a row for it. -/
theorem inserted_of_owner {id : LinkId} {c : Nat} (h : owner t id = some c) :
    ∃ record, (c, .inserted record) ∈ t ∧ record.id = id := by
  induction t with
  | nil => cases h
  | cons x t ih =>
    obtain ⟨j, e⟩ := x
    cases he : e.isInserted with
    | false =>
      rw [owner_cons_of_not_inserted he] at h
      obtain ⟨record, hm, hid⟩ := ih h
      exact ⟨record, List.mem_cons_of_mem _ hm, hid⟩
    | true =>
      cases e with
      | inserted record =>
        rw [owner] at h
        split at h
        · rename_i hid
          cases h
          exact ⟨record, List.mem_cons_self, hid⟩
        · obtain ⟨record', hm, hid⟩ := ih h
          exact ⟨record', List.mem_cons_of_mem _ hm, hid⟩
      | _ => cases he

/-- A counted open is an event of the trace, made on a row of its owner. -/
theorem owner_of_mem_opensOf {c : Nat} {x : Nat × LinkMetadata} (h : x ∈ opensOf c t) :
    ∃ record, (c, .inserted record) ∈ t := by
  induction t with
  | nil => cases h
  | cons y t ih =>
    obtain ⟨j, e⟩ := y
    have step : (∃ record, (c, .inserted record) ∈ t) →
        ∃ record, (c, .inserted record) ∈ (j, e) :: t :=
      fun ⟨record, hm⟩ ↦ ⟨record, List.mem_cons_of_mem _ hm⟩
    cases he : e.isOpened with
    | false =>
      rw [opensOf_cons_of_not_opened he] at h
      exact step (ih h)
    | true =>
      cases e with
      | opened id row now =>
        rw [opensOf] at h
        split at h
        · rename_i ho
          obtain ⟨record, hm, -⟩ := inserted_of_owner ho
          exact step ⟨record, hm⟩
        · exact step (ih h)
      | _ => cases he

/-- A request served from the row of `c` counted its open there. -/
theorem mem_opensOf_of_servedFrom {c j : Nat} (h : servedFrom j t = some c) :
    j ∈ (opensOf c t).map Prod.fst := by
  induction t with
  | nil => cases h
  | cons y t ih =>
    obtain ⟨k, e⟩ := y
    cases he : e.isOpened with
    | false =>
      rw [servedFrom_cons_of_not_opened he] at h
      rw [opensOf_cons_of_not_opened he]
      exact ih h
    | true =>
      cases e with
      | opened id row now =>
        rw [servedFrom] at h
        rw [opensOf]
        split at h
        · rename_i hk
          rw [if_pos h, hk]
          exact List.mem_cons_self
        · split
          · exact List.mem_cons_of_mem _ (ih h)
          · exact ih h
      | _ => cases he

/-- A delivery is an answer, of a request that counted an open on the row of `c`. -/
theorem of_mem_deliveries {c j : Nat} (h : j ∈ deliveries c t) :
    (∃ response, (j, .answered response) ∈ t) ∧ j ∈ (opensOf c t).map Prod.fst := by
  have grow : ∀ (x : Nat × Event) (t : Trace Event), j ∈ (opensOf c t).map Prod.fst →
      j ∈ (opensOf c (x :: t)).map Prod.fst := by
    rintro ⟨k, e⟩ t hm
    cases he : e.isOpened with
    | false => rwa [opensOf_cons_of_not_opened he]
    | true =>
      cases e with
      | opened id row now =>
        rw [opensOf]
        split
        · exact List.mem_cons_of_mem _ hm
        · exact hm
      | _ => cases he
  induction t with
  | nil => cases h
  | cons y t ih =>
    obtain ⟨k, e⟩ := y
    have rest : j ∈ deliveries c t → (∃ response, (j, .answered response) ∈ (k, e) :: t) ∧
        j ∈ (opensOf c ((k, e) :: t)).map Prod.fst := by
      intro hm
      obtain ⟨⟨response, hr⟩, ho⟩ := ih hm
      exact ⟨⟨response, List.mem_cons_of_mem _ hr⟩, grow _ t ho⟩
    cases he : e.isAnswered with
    | false =>
      rw [deliveries_cons_of_not_answered he] at h
      exact rest h
    | true =>
      cases e with
      | answered response =>
        cases response with
        | delivered blob row =>
          rw [deliveries] at h
          split at h
          · rename_i hs
            rcases List.mem_cons.mp h with rfl | hm
            · exact ⟨⟨_, List.mem_cons_self⟩, grow _ t (mem_opensOf_of_servedFrom hs)⟩
            · exact rest hm
          · exact rest h
        | _ => exact rest h
      | _ => cases he

end Aesmsg.Server
