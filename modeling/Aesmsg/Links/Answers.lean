import Aesmsg.Links.Reconcile

/-!
# The answer to a list request

What a client makes of the answer of the list handler, whatever the state of its stores.

## Main results

- `listMessages_eq_ok`: a list request that resolves has one result for every id, made from its row.
- `listMessages_served`, `listMessages_tooMany`: it resolves for at most `LIST_MAX_IDS` ids.
-/

namespace Aesmsg.Links

open Client Api Store

/-- The response arrives as it was sent. -/
def answered (response : HttpResponse) : Fetch := .response response.status (some response.body)

/-- A server that is reached, with the count of its rate limiter and its clock. -/
def served {σ τ : Type} (S : Stores σ τ) (s : σ) (count : Nat) (now : Instant) (body : Json) : Fetch :=
  answered (Api.listMessages S s (some body) count now)

/-- What a client reads of a row. -/
def resultOf (now : Instant) (id : LinkId) (row : Option LinkMetadata) : ListMessageResult :=
  match row with
  | none => .gone id
  | some row =>
    if row.status ≠ .active ∨ row.expiresAt ≤ now then .gone id
    else .active id (Calendar.toISOString row.expiresAt) (.int row.maxOpens) (.int row.opensCount)

theorem id_resultOf (now : Instant) (id : LinkId) (row : Option LinkMetadata) :
    (resultOf now id row).id = id := by
  unfold resultOf
  split
  · rfl
  · split <;> rfl

theorem validateResult_listResult (now : Instant) (id : LinkId) (row : Option LinkMetadata) :
    validateResult (listResult now id row) = .ok (resultOf now id row) := by
  cases row with
  | none => rfl
  | some row =>
    unfold listResult resultOf
    dsimp only
    by_cases hgone : row.status ≠ .active ∨ row.expiresAt ≤ now
    · rw [if_pos hgone, if_pos hgone]
      rfl
    · rw [if_neg hgone, if_neg hgone]
      have hactive : row.status = .active := by
        by_contra hne
        exact hgone (.inl hne)
      rw [preview, hactive]
      rfl

theorem mapM_validateResult (now : Instant) (row : LinkId → Option LinkMetadata) (ids : List LinkId) :
    (ids.map fun id ↦ listResult now id (row id)).mapM validateResult =
      .ok (ids.map fun id ↦ resultOf now id (row id)) := by
  induction ids with
  | nil => rfl
  | cons id ids ih =>
    rw [List.map_cons, List.mapM_cons, validateResult_listResult, ih]
    rfl

/-- Every id of a request is checked. -/
theorem mapM_listId (ids : List LinkId) :
    (ids.map Json.string).mapM listId? = if ids.all isLinkId then some ids else none := by
  induction ids with
  | nil => rfl
  | cons id ids ih =>
    rw [List.map_cons, List.mapM_cons, ih, List.all_cons]
    cases hid : isLinkId id with
    | false =>
      have : listId? (.string id) = none := by simp [listId?, Json.asString?, hid]
      rw [this]
      rfl
    | true =>
      have : listId? (.string id) = some id := by simp [listId?, Json.asString?, hid]
      rw [this, Bool.true_and]
      split <;> rfl

theorem parseListBody_listBody (ids : List LinkId) : parseListBody (some (listBody ids)) =
    if ids.length = 0 ∨ LIST_MAX_IDS < ids.length then none
    else if ids.all isLinkId then some ids else none := by
  have hids : (some (listBody ids)).bind (·.field? "ids") = some (.array (ids.map .string)) := rfl
  unfold parseListBody
  rw [hids]
  dsimp only
  rw [List.length_map, mapM_listId]

section Served

variable {σ τ : Type} {S : Stores σ τ} {s : σ} {count : Nat} {now : Instant} {ids : List LinkId}

theorem listMessages_ok (platform : Platform) (hcount : count ≤ LIST_RATE_LIMIT_MAX)
    (hparse : parseListBody (some (listBody ids)) = some ids) :
    fetchJson platform (served S s count now (listBody ids)) validateListMessagesResponse =
      .ok (ids.map fun id ↦ resultOf now id (S.get s id)) := by
  have hresponse : Api.listMessages S s (some (listBody ids)) count now =
      jsonResponse 200 (.object [("results", .array (ids.map fun id ↦ listResult now id (S.get s id)))]) := by
    unfold Api.listMessages
    rw [if_neg (Nat.not_lt.mpr hcount), hparse]
  rw [served, hresponse]
  exact mapM_validateResult now (S.get s) ids

/-- A request for ids that the handler takes resolves. -/
theorem listMessages_served (platform : Platform) (hcount : count ≤ LIST_RATE_LIMIT_MAX)
    (hids : ∀ id ∈ ids, isLinkId id = true) (hlength : ids.length ≤ LIST_MAX_IDS) :
    listMessages platform (served S s count now) ids =
      .ok (ids.map fun id ↦ resultOf now id (S.get s id)) := by
  unfold listMessages
  split
  · rename_i hempty
    rw [List.length_eq_zero_iff.mp hempty]
    rfl
  · rename_i hne
    refine listMessages_ok platform hcount ?_
    rw [parseListBody_listBody, if_neg (not_or.mpr ⟨hne, Nat.not_lt.mpr hlength⟩),
      if_pos (List.all_eq_true.mpr hids)]

/-- A request for more ids than the handler takes throws. -/
theorem listMessages_tooMany (platform : Platform) (hcount : count ≤ LIST_RATE_LIMIT_MAX)
    (hlength : LIST_MAX_IDS < ids.length) :
    listMessages platform (served S s count now) ids = .error (.apiError 400) := by
  have hparse : parseListBody (some (listBody ids)) = none := by
    rw [parseListBody_listBody, if_pos (.inr hlength)]
  have hresponse : Api.listMessages S s (some (listBody ids)) count now = jsonError 400 "bad_request" := by
    unfold Api.listMessages
    rw [if_neg (Nat.not_lt.mpr hcount), hparse]
  unfold listMessages
  rw [if_neg (Nat.ne_of_gt (Nat.zero_lt_of_lt hlength)), served, hresponse]
  rfl

/-- A request that resolves has a result for every id. -/
theorem listMessages_eq_ok {platform : Platform} {results : List ListMessageResult}
    (h : listMessages platform (served S s count now) ids = .ok results) :
    results = ids.map fun id ↦ resultOf now id (S.get s id) := by
  unfold listMessages at h
  split at h
  · rename_i hempty
    cases h
    rw [List.length_eq_zero_iff.mp hempty]
    rfl
  by_cases hcount : LIST_RATE_LIMIT_MAX < count
  · rw [served, Api.listMessages, if_pos hcount] at h
    cases h
  cases hparse : parseListBody (some (listBody ids)) with
  | none =>
    rw [served, Api.listMessages, if_neg hcount, hparse] at h
    cases h
  | some ids' =>
    have heq : ids' = ids := by
      rw [parseListBody_listBody] at hparse
      split at hparse
      · cases hparse
      · split at hparse
        · exact (Option.some.inj hparse).symm
        · cases hparse
    rw [heq] at hparse
    rw [listMessages_ok platform (Nat.not_lt.mp hcount) hparse] at h
    exact (Except.ok.inj h).symm

end Served

/-- The entry of an id among the results for a list of ids. -/
theorem byId_map {f : LinkId → ListMessageResult} (hf : ∀ id, (f id).id = id) (ids : List LinkId)
    (id : LinkId) : byId (ids.map f) id = if id ∈ ids then some (f id) else none := by
  have hid : ∀ result ∈ (ids.map f).reverse, ∃ id' ∈ ids, f id' = result ∧ result.id = id' := by
    intro result hresult
    obtain ⟨id', hid', rfl⟩ := List.mem_map.mp (List.mem_reverse.mp hresult)
    exact ⟨id', hid', rfl, hf id'⟩
  unfold byId
  cases hfind : (ids.map f).reverse.find? (·.id = id) with
  | none =>
    rw [if_neg]
    intro hmem
    have hnone := List.find?_eq_none.mp hfind (f id) (List.mem_reverse.mpr (List.mem_map_of_mem hmem))
    exact hnone (decide_eq_true (hf id))
  | some result =>
    obtain ⟨id', hid', rfl, hresult⟩ := hid result (List.mem_of_find?_eq_some hfind)
    have heq := List.find?_some hfind
    obtain rfl : id' = id := hresult.symm.trans (of_decide_eq_true heq)
    rw [if_pos hid']

end Aesmsg.Links
