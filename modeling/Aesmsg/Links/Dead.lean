import Aesmsg.Links.Revoke
import Aesmsg.Server.MemoryTokens
import Aesmsg.Server.PostgresTokens

/-!
# A link that is reported as revoked

## Main results

- `revoked_dead`: where every revoke finds the token of the link, or a row that is not active, the
  link is dead once a revoke function has reported it as revoked or turned to its record; and where no
  write of the map of records undoes another, the record of a link stays until the link is dead.
-/

namespace Aesmsg.Links

open Client Api Store Server Threads

/-! ## Requests that are served -/

instance (l : Store.Link) : Decidable l.Closed :=
  decidable_of_iff (l.row.all (·.status ≠ .active) = true) (by
    rw [Option.all_eq_true]
    exact forall₂_congr fun row _ ↦ decide_eq_true_iff)

/-- A row has been inserted under `id`, and if it is the only one then it is not active. -/
def Dead (links : Links) (id : LinkId) (t : Trace Event) : Prop :=
  insertions id t ≠ [] ∧ ((insertions id t).length ≤ 1 → (links id).Closed)

section Served

variable {χ P σ : Type} {env : Env} {cfg : CreateConfig} {M : Program Server.Request χ P σ Event}
  {links : σ → Links} {stage : P → Stage} {inv : σ → Prop}
  {posting : (Instant → Option Draft) → P → Prop} {trying : LinkId → Option String → P → Prop}
  {settled : LinkId → P → Prop} {i : Nat} {x : χ} {p p' : P} {s s' : σ} {es : List Event}
  {t : Trace Event} {id : LinkId} {upload : Upload}

theorem insertions_ne_nil (h : insertions id t ≠ []) : insertions id (tag i es ++ t) ≠ [] := by
  rw [insertions_append]
  exact List.append_ne_nil_of_right_ne_nil _ h

theorem Dead.step {links links' : Links} {a b : Stage} (hd : Dead links id t)
    (h : Act env links links' a es b) : Dead links' id (tag i es ++ t) := by
  obtain ⟨hne, hclosed⟩ := hd
  refine ⟨insertions_ne_nil hne, fun honce ↦ ?_⟩
  obtain ⟨hnone, honce⟩ := not_inserted_of_once hne honce
  exact h.closed (hclosed honce) hnone

/-- The thread serves a revoke request for a link that its token revokes, and has dealt with it if
it is settled. -/
def Answering (links : σ → Links) (trying : LinkId → Option String → P → Prop)
    (settled : LinkId → P → Prop) (id : LinkId) (p : P) (s : σ) (t : Trace Event) : Prop :=
  insertions id t ≠ [] ∧
    ((∃ hash, trying id hash p ∧ ((insertions id t).length ≤ 1 → Allows (links s id) hash)) ∨
      (settled id p ∧ Dead (links s) id t))

theorem Answering.other (hM : LinkServer env M links stage inv) {q : P} (hinv : inv s)
    (hstep : M.step i x p s = some (p', s', es)) (h : Answering links trying settled id q s t) :
    Answering links trying settled id q s' (tag i es ++ t) := by
  obtain ⟨hne, h⟩ := h
  refine ⟨insertions_ne_nil hne, ?_⟩
  rcases h with ⟨hash, htrying, hallows⟩ | ⟨hsettled, hdead⟩
  · refine .inl ⟨hash, htrying, fun honce ↦ ?_⟩
    obtain ⟨hnone, honce⟩ := not_inserted_of_once hne honce
    exact (hM.act hinv hstep).allows (hallows honce) hnone
  · exact .inr ⟨hsettled, hdead.step (hM.act hinv hstep)⟩

/-- The answer to the request: the link is dead if it is reported as revoked. -/
theorem Answering.step (hM : LinkServer env M links stage inv)
    (hT : TokenServer env M links stage posting trying settled) (hinv : inv s)
    (hstep : M.step i x p s = some (p', s', es)) (h : Answering links trying settled id p s t) :
    Answering links trying settled id p' s' (tag i es ++ t) ∧ ∀ r, .answered r ∈ es →
      (r = .revoked id ∧ Dead (links s') id (tag i es ++ t)) ∨
        ∃ status code, r = .error status code ∧ 400 ≤ status ∧ status ≠ 404 ∧ status ≠ 410 := by
  have hact := hM.act hinv hstep
  obtain ⟨hne, h⟩ := h
  rcases h with ⟨hash, htrying, hallows⟩ | ⟨hsettled, hdead⟩
  · obtain ⟨hnext, herror⟩ := hT.tried htrying hstep
    refine ⟨⟨insertions_ne_nil hne, ?_⟩, fun r hr ↦ .inr (herror r hr)⟩
    rcases hnext with htrying' | ⟨hsettled, hclosed⟩
    · refine .inl ⟨hash, htrying', fun honce ↦ ?_⟩
      obtain ⟨hnone, honce⟩ := not_inserted_of_once hne honce
      exact hact.allows (hallows honce) hnone
    · refine .inr ⟨hsettled, insertions_ne_nil hne, fun honce ↦ ?_⟩
      obtain ⟨-, honce⟩ := not_inserted_of_once hne honce
      exact hclosed (hallows honce)
  · obtain ⟨hsettled', hrevoked⟩ := hT.replied hsettled hstep
    have hdead' := hdead.step (i := i) hact
    exact ⟨⟨insertions_ne_nil hne, .inr ⟨hsettled', hdead'⟩⟩, fun r hr ↦ .inl ⟨hrevoked r hr, hdead'⟩⟩

/-- A revoke is sent for a link that has been inserted: its row is not active, or the token is that
of the record. -/
theorem Answering.start (hT : TokenServer env M links stage posting trying settled)
    (hdigest : ∀ token, IsDigest (env.hashRevocationToken token)) (hhashed : Hashed (links s) t)
    (hne : insertions id t ≠ []) (revocationToken : Option String)
    (h : (links s id).Closed ∨ ∃ token ∈ revocationToken, token ≠ "" ∧ Minted env id token t) :
    Answering links trying settled id (M.init (revokeRequest id revocationToken)) s t := by
  refine ⟨hne, .inl ⟨_, hT.tries id NO_BODY _, fun honce ↦ ?_⟩⟩
  rcases h with hclosed | ⟨token, rfl, htoken, hminted⟩
  · exact fun row hrow hactive ↦ absurd hactive (hclosed row hrow)
  · have hpresented : env.presentedHash ((some token).filter (· ≠ "")) =
        some (env.hashRevocationToken token) := by
      simp [Env.presentedHash, htoken]
    rw [hpresented]
    exact hhashed.allows hdigest honce hminted

/-- The thread serves the create request of an upload. -/
def Uploading (cfg : CreateConfig) (stage : P → Stage) (posting : (Instant → Option Draft) → P → Prop)
    (upload : Upload) (p : P) (t : Trace Event) : Prop :=
  posting (upload.draft cfg) p ∧ ∀ record, (stage p).record? = some record →
    record ∈ insertions record.id t

theorem Uploading.other (h : Uploading cfg stage posting upload p t) :
    Uploading cfg stage posting upload p (tag i es ++ t) :=
  ⟨h.1, fun record hrecord ↦ mem_insertions_append (h.2 record hrecord)⟩

theorem Uploading.start (hM : LinkServer env M links stage inv)
    (hT : TokenServer env M links stage posting trying settled) :
    Uploading cfg stage posting upload (M.init (upload.post cfg)) t := by
  refine ⟨hT.posts _, fun record hrecord ↦ ?_⟩
  rw [hM.start] at hrecord
  cases hrecord

/-- The answer is a 201 or an error, and the token of a 201 is that of a row inserted under the id of the
upload. -/
theorem Uploading.step (hM : LinkServer env M links stage inv)
    (hT : TokenServer env M links stage posting trying settled) (hinv : inv s)
    (hstep : M.step i x p s = some (p', s', es)) (h : Uploading cfg stage posting upload p t) :
    Uploading cfg stage posting upload p' (tag i es ++ t) ∧ (∀ r, .answered r ∈ es → CreateAnswer r) ∧
      ∀ id url token, .answered (.created id url token) ∈ es →
        Minted env upload.request.id token (tag i es ++ t) := by
  have hact := hM.act hinv hstep
  obtain ⟨hposting, hinserted⟩ := h
  obtain ⟨hposting', hcreate⟩ := hT.posted hposting hstep
  refine ⟨⟨hposting', fun record hrecord ↦ ?_⟩, hcreate, fun id url token hanswer ↦ ?_⟩
  · rcases hact.record hrecord with hold | hnew
    · exact mem_insertions_append (hinserted record hold)
    · rw [insertions_append]
      exact List.mem_append_left _ (mem_insertions_tag hnew rfl)
  · obtain ⟨record, ciphertext, hkept, -⟩ := hact.created hanswer
    obtain ⟨now, draft, hdraft, rfl⟩ := hT.kept hposting hkept
    obtain ⟨body, hbody, hreads⟩ := createDraft_reads hdraft
    cases hbody
    have hid : draft.id = upload.request.id := hreads.id
    have hmem := hinserted _ (congrArg Stage.record? hkept)
    change _ ∈ insertions draft.id t at hmem
    rw [hid] at hmem
    exact ⟨_, mem_insertions_append hmem, rfl⟩

end Served

/-! ## Responses -/

section Responses

variable {status : Nat} {code : String}

theorem revokeLink_error (platform : Platform) (h : 400 ≤ status) :
    revokeLink platform (answered (Response.error status code).render) = .error (.apiError status) := by
  have hok : isOk status = false := by
    unfold isOk
    rw [decide_eq_false]
    rintro ⟨-, hle⟩
    exact absurd (Nat.le_trans h hle) (by decide)
  show (if !isOk status then _ else _) = _
  rw [hok]
  rfl

theorem isAlreadyGone_error (hgone : status ≠ 404 ∧ status ≠ 410) :
    Mobile.isAlreadyGone (.apiError status) = false := by
  simp [Mobile.isAlreadyGone, hgone]

theorem classifyApiError_error (hgone : status ≠ 404 ∧ status ≠ 410) :
    ¬(Web.classifyApiError (.apiError status) = .not_found ∨
      Web.classifyApiError (.apiError status) = .gone) := by
  unfold Web.classifyApiError
  dsimp only
  rw [if_neg hgone.1, if_neg hgone.2]
  repeat' split
  all_goals simp

/-- Only a 201 is accepted, and it has a token. -/
theorem Mobile.postMessage_ok {response : Response} (hcreate : CreateAnswer response)
    {revocationToken : Option String}
    (h : Mobile.postMessage (answered response.render) = .ok revocationToken) :
    ∃ id url token, response = .created id url token ∧ revocationToken = some token := by
  rcases hcreate with ⟨id, url, token, rfl⟩ | ⟨status, code, rfl, -⟩
  · obtain ⟨_, -, h⟩ := Except.bind_eq_ok.mp h
    obtain ⟨_, -, h⟩ := Except.bind_eq_ok.mp h
    cases h
    exact ⟨id, url, token, rfl, rfl⟩
  · change (if !isOk status then _ else _) = _ at h
    split at h
    · cases h
    · cases h

theorem Web.postMessage_ok {response : Response} {url token : String}
    (h : Web.postMessage (answered response.render) = .ok (url, token)) :
    token ≠ "" ∧ ∃ id url, response = .created id url token := by
  cases response with
  | created id url' token' =>
    obtain ⟨_, -, h⟩ := Except.bind_eq_ok.mp h
    obtain ⟨_, -, h⟩ := Except.bind_eq_ok.mp h
    obtain ⟨_, -, h⟩ := Except.bind_eq_ok.mp h
    obtain ⟨token'', htoken, h⟩ := Except.bind_eq_ok.mp h
    cases h
    by_cases hempty : token' = ""
    · subst hempty
      cases htoken
    · have hchecked : nonEmpty? (.string token') = some token' := by
        simp [nonEmpty?, Json.asString?, hempty]
      rw [checkField_eq_ok rfl hchecked] at htoken
      cases htoken
      exact ⟨hempty, id, url', rfl⟩
  | delivered ciphertext row => cases h
  | revoked id =>
    obtain ⟨_, -, h⟩ := Except.bind_eq_ok.mp h
    obtain ⟨_, -, h⟩ := Except.bind_eq_ok.mp h
    cases h
  | error status code =>
    change (if !isOk status then _ else _) = _ at h
    split at h
    · cases h
    · cases h

end Responses

/-! ## Mobile -/

namespace Mobile

/-- The link that a call of the store deletes the record of because it is dead. -/
def Part.dead? : Part → Option LinkId
  | revoked id | cleaned id => some id
  | created | alone => none

/-- The link that a revoke function has found dead: it turns to the record, or has returned. -/
def Phase.dead? : Phase → Option LinkId
  | .read _ part | .write _ _ _ part => part.dead?
  | .returned id .revoked => some id
  | _ => none

/-- A revoke function that looks up `id` finds a row that is not active, or the token. -/
def Finds {σ : Type} (links : σ → Links) (id : LinkId) (fails : Bool) (phase : Phase)
    (w : Client.World σ SentLinkMap) (t : Trace Event) : Prop :=
  match phase with
  | .getSentLink id' => id' = id → fails = false → insertions id t ≠ [] ∧
    ((links w.server id).Closed ∨
      ((w.device.lookup id).bind (·.revocationToken)).any (· ≠ "") = true)
  | _ => True

instance {σ : Type} (links : σ → Links) (id : LinkId) (fails : Bool) (phase : Phase)
    (w : Client.World σ SentLinkMap) (t : Trace Event) : Decidable (Finds links id fails phase w t) :=
  match phase with
  | .getSentLink id' => inferInstanceAs (Decidable (id' = id → fails = false → insertions id t ≠ [] ∧
      ((links w.server id).Closed ∨
        ((w.device.lookup id).bind (·.revocationToken)).any (· ≠ "") = true)))
  | .sealed _ | .posting _ | .read .. | .write .. | .clear | .revoking _ | .returned .. | .ended =>
    isTrue trivial

/-- The user deletes the record of `id`. -/
def Phase.forgets (id : LinkId) : Phase → Bool
  | .clear => true
  | .write (.deleteSentLink id') _ _ .alone => id' = id
  | _ => false

/-- The map that a call of the store has read, when it is about to write. -/
def Phase.read? : Phase → Option SentLinkMap
  | .write _ found _ _ => some found
  | _ => none

/-- Moreover every write of the map finds it as its call has read it, and the user does not delete the
record of `id`. -/
def Keeps {σ : Type} (links : σ → Links) (id : LinkId) (fails : Bool) (phase : Phase)
    (w : Client.World σ SentLinkMap) (t : Trace Event) : Prop :=
  Finds links id fails phase w t ∧
    (fails = false → phase.forgets id = false ∧ ∀ found ∈ phase.read?, w.device = found)

instance {σ : Type} (links : σ → Links) (id : LinkId) (fails : Bool) (phase : Phase)
    (w : Client.World σ SentLinkMap) (t : Trace Event) : Decidable (Keeps links id fails phase w t) :=
  inferInstanceAs (Decidable (_ ∧ _))

/-- The tokens of a map are those of rows inserted under the ids. -/
def Sourced (env : Env) (map : SentLinkMap) (t : Trace Event) : Prop :=
  ∀ id link, map.lookup id = some link → ∀ token ∈ link.revocationToken, Minted env id token t

/-- A record has the token of a row, and is deleted by the user or because its link is dead. -/
def CallSourced (env : Env) (part : Part) (t : Trace Event) : Call → Prop
  | .recordSentLink record => ∃ token ∈ record.revocationToken, Minted env record.id token t
  | .setSentLinkReminderNotificationId .. => True
  | .deleteSentLink id => part = .alone ∨ part.dead? = some id

def Phase.Sourced (env : Env) : Phase → Trace Event → Prop
  | .read call part, t => CallSourced env part t call
  | .write call found map part, t =>
    CallSourced env part t call ∧ call.plan found = some map ∧ Mobile.Sourced env map t
  | _, _ => True

/-- The map has a record of `id` with the token of a row. -/
def Recorded (env : Env) (map : SentLinkMap) (id : LinkId) (t : Trace Event) : Prop :=
  ∃ link, map.lookup id = some link ∧ ∃ token ∈ link.revocationToken, Minted env id token t

section Obligations

variable {χ P σ : Type} {env : Env} {cfg : CreateConfig} {M : Program Server.Request χ P σ Event}
  {links : σ → Links} {stage : P → Stage} {inv : σ → Prop}
  {posting : (Instant → Option Draft) → P → Prop} {trying : LinkId → Option String → P → Prop}
  {settled : LinkId → P → Prop} {i : Nat} {es : List Event} {t : Trace Event} {id : LinkId}

theorem Sourced.append {map : SentLinkMap} (h : Sourced env map t) : Sourced env map (tag i es ++ t) :=
  fun id link hlink token htoken ↦ (h id link hlink token htoken).append

theorem CallSourced.append {part : Part} {call : Call} (h : CallSourced env part t call) :
    CallSourced env part (tag i es ++ t) call := by
  cases call with
  | recordSentLink record =>
    obtain ⟨token, htoken, hminted⟩ := h
    exact ⟨token, htoken, hminted.append⟩
  | _ => exact h

theorem Phase.Sourced.append {phase : Phase} (h : phase.Sourced env t) :
    phase.Sourced env (tag i es ++ t) := by
  cases phase with
  | read call part => exact CallSourced.append h
  | write call found map part => exact ⟨CallSourced.append h.1, h.2.1, Mobile.Sourced.append h.2.2⟩
  | _ => trivial

theorem lookup_plan {map map' : SentLinkMap} {call : Call} (hplan : call.plan map = some map')
    (id : LinkId) : map'.lookup id = call.entry id (map.lookup id) := by
  rw [← lookup_apply, apply_eq, hplan]
  rfl

/-- A call of the store writes tokens that it has been given or has read. -/
theorem Sourced.plan {map map' : SentLinkMap} {call : Call} {part : Part} (h : Sourced env map t)
    (hcall : CallSourced env part t call) (hplan : call.plan map = some map') : Sourced env map' t := by
  intro id link hlink token htoken
  rw [lookup_plan hplan] at hlink
  cases call with
  | recordSentLink record =>
    rw [Call.entry] at hlink
    split at hlink
    · rename_i hid
      cases hlink
      obtain ⟨token', htoken', hminted⟩ := hcall
      cases Option.mem_unique htoken htoken'
      exact hid.1 ▸ hminted
    · exact h id link hlink token htoken
  | setSentLinkReminderNotificationId id' reminderNotificationId =>
    rw [Call.entry] at hlink
    split at hlink
    · cases hold : map.lookup id with
      | some old =>
        rw [hold] at hlink
        cases hlink
        rw [revocationToken_withReminder] at htoken
        exact h id old hold token htoken
      | none =>
        rw [hold] at hlink
        obtain ⟨-, hbare⟩ := Option.ite_none_right_eq_some.mp hlink
        cases hbare
        cases htoken
    · exact h id link hlink token htoken
  | deleteSentLink id' =>
    rw [Call.entry] at hlink
    split at hlink
    · cases hlink
    · exact h id link hlink token htoken

theorem Recorded.append {map : SentLinkMap} (h : Recorded env map id t) :
    Recorded env map id (tag i es ++ t) := by
  obtain ⟨link, hlink, token, htoken, hminted⟩ := h
  exact ⟨link, hlink, token, htoken, hminted.append⟩

/-- A call of the store that is not to delete the record keeps one. -/
theorem Recorded.plan {map map' : SentLinkMap} {call : Call} {part : Part} (h : Recorded env map id t)
    (hcall : CallSourced env part t call) (hplan : call.plan map = some map')
    (hdelete : call ≠ .deleteSentLink id) : Recorded env map' id t := by
  obtain ⟨link, hlink, token, htoken, hminted⟩ := h
  obtain ⟨link', hlink', hsame⟩ := entry_some link hdelete
  have hlookup : map'.lookup id = some link' := by rw [lookup_plan hplan, hlink, hlink']
  by_cases hrecords : call.Records id
  · obtain ⟨record, rfl, rfl⟩ := hrecords
    rw [Call.entry] at hlink'
    split at hlink'
    · cases hlink'
      exact ⟨_, hlookup, hcall⟩
    · cases hlink'
      exact ⟨link, hlookup, token, htoken, hminted⟩
  · exact ⟨link', hlookup, token, hsame.resolve_left hrecords ▸ htoken, hminted⟩

theorem dead?_resolved (part : Part) : part.resolved.dead? = part.dead? := by
  cases part <;> rfl

theorem sourced_resolved (part : Part) : part.resolved.Sourced env t := by
  cases part <;> exact trivial

theorem sourced_threw (part : Part) : part.threw.Sourced env t := by
  cases part <;> exact trivial

theorem dead?_threw {part : Part} (h : part.threw.dead? = some id) : part.dead? = some id := by
  cases part with
  | cleaned id' => exact h
  | _ => cases h

/-- What holds of a task while it steps by itself. -/
def Own (env : Env) (links : σ → Links) (id : LinkId) (phase : Phase) (s : σ) (t : Trace Event) : Prop :=
  phase.Sourced env t ∧ (phase.dead? = some id → Dead (links s) id t)

/-- What holds of a task while it waits for an answer. -/
def Waiting (cfg : CreateConfig) (links : σ → Links) (stage : P → Stage)
    (posting : (Instant → Option Draft) → P → Prop) (trying : LinkId → Option String → P → Prop)
    (settled : LinkId → P → Prop) (id : LinkId) (phase : Phase) (p : P) (s : σ) (t : Trace Event) :
    Prop :=
  match phase with
  | .posting upload => Uploading cfg stage posting upload p t
  | .revoking id' => id' = id → Answering links trying settled id p s t
  | _ => False

theorem step_go {fails : Bool} {phase phase' : Phase} {s : σ} {map map' : SentLinkMap}
    (hD : Sourced env map t) (hown : Own env links id phase s t)
    (h : step cfg fails phase map = some (.go phase' map')) :
    Sourced env map' t ∧ Own env links id phase' s t := by
  obtain ⟨hsourced, hdead⟩ := hown
  cases phase with
  | read call part =>
    simp only [step] at h
    split at h
    · cases h
      exact ⟨hD, sourced_threw part, fun hd ↦ hdead (dead?_threw hd)⟩
    split at h
    · cases h
      exact ⟨hD, sourced_resolved part, fun hd ↦ hdead ((dead?_resolved part).symm.trans hd)⟩
    · rename_i map₁ hplan
      cases h
      exact ⟨hD, ⟨hsourced, hplan, hD.plan hsourced hplan⟩, hdead⟩
  | write call found map₁ part =>
    simp only [step] at h
    split at h
    · cases h
      exact ⟨hD, sourced_threw part, fun hd ↦ hdead (dead?_threw hd)⟩
    · cases h
      exact ⟨hsourced.2.2, sourced_resolved part, fun hd ↦ hdead ((dead?_resolved part).symm.trans hd)⟩
  | clear =>
    cases h
    refine ⟨?_, trivial, fun hd ↦ by cases hd⟩
    split
    · exact hD
    · intro id link hlink
      cases hlink
  | getSentLink id' =>
    simp only [step] at h
    split at h
    · cases h
      exact ⟨hD, trivial, fun hd ↦ by cases hd⟩
    · cases h
  | _ => cases h

theorem obligations (hM : LinkServer env M links stage inv)
    (hT : TokenServer env M links stage posting trying settled)
    (hdigest : ∀ token, IsDigest (env.hashRevocationToken token)) (id : LinkId) :
    Client.Obligations (client cfg) M answer? (Finds links id)
      (fun s t ↦ inv s ∧ Hashed (links s) t) (Sourced env) (Own env links id)
      (Waiting cfg links stage posting trying settled id) where
  server := by
    rintro i x p s t p' s' es ⟨hinv, hhashed⟩ hstep
    exact ⟨hM.keep hinv hstep, hhashed.step (hM.act hinv hstep)⟩
  stable := by
    rintro i x p s t p' s' es ⟨hinv, -⟩ hstep
    constructor
    · rintro phase ⟨hsourced, hdead⟩
      exact ⟨hsourced.append, fun hd ↦ (hdead hd).step (hM.act hinv hstep)⟩
    · intro phase q hwaiting
      cases phase with
      | posting upload => exact Uploading.other hwaiting
      | revoking id' => exact fun hid ↦ (hwaiting hid).other hM hinv hstep
      | _ => exact hwaiting.elim
  older := Sourced.append
  init := by
    intro task s t _
    cases task with
    | deleteLocal id => exact ⟨.inl rfl, fun hd ↦ by cases hd⟩
    | _ => exact ⟨trivial, fun hd ↦ by cases hd⟩
  go := fun _ _ hD hown h ↦ step_go hD hown h
  send := by
    rintro fails phase s t map request phase' hfinds ⟨hinv, hhashed⟩ hD - h
    cases phase with
    | sealed upload =>
      cases h
      exact Uploading.start hM hT
    | getSentLink id' =>
      change step cfg fails (.getSentLink id') map = _ at h
      simp only [step] at h
      split at h
      · cases h
      · rename_i hfails
        cases h
        rintro rfl
        obtain ⟨hne, hfound⟩ := hfinds rfl (Bool.eq_false_iff.mpr hfails)
        refine Answering.start hT hdigest hhashed hne _ (hfound.imp_right fun hany ↦ ?_)
        obtain ⟨token, htoken, hnonempty⟩ := (Option.any_eq_true _ _).mp hany
        obtain ⟨link, hlink, htoken'⟩ := Option.bind_eq_some_iff.mp htoken
        exact ⟨token, htoken, of_decide_eq_true hnonempty, hD _ link hlink token htoken'⟩
    | read call part =>
      change step cfg fails (.read call part) map = _ at h
      simp only [step] at h
      repeat' split at h
      all_goals cases h
    | write call found map₁ part =>
      change step cfg fails (.write call found map₁ part) map = _ at h
      simp only [step] at h
      repeat' split at h
      all_goals cases h
    | _ => cases h
  wait := by
    rintro i x phase p s t p' s' es ⟨hinv, -⟩ hwaiting hstep -
    cases phase with
    | posting upload => exact (Uploading.step hM hT hinv hstep hwaiting).1
    | revoking id' => exact fun hid ↦ ((hwaiting hid).step hM hT hinv hstep).1
    | _ => exact hwaiting.elim
  receive := by
    rintro i x phase p s t p' s' es response ⟨hinv, -⟩ hwaiting hstep hanswer
    have hmem := mem_of_answer hanswer
    cases phase with
    | posting upload =>
      obtain ⟨-, hcreate, hminted⟩ := Uploading.step hM hT hinv hstep hwaiting
      change Own env links id (receive (.posting upload) response) s' (tag i es ++ t)
      simp only [receive]
      split
      · rename_i revocationToken hresponse
        refine ⟨?_, fun hd ↦ by cases hd⟩
        obtain ⟨id', url, token, rfl, rfl⟩ := postMessage_ok (hcreate _ hmem) hresponse
        exact ⟨token, rfl, hminted id' url token hmem⟩
      · exact ⟨trivial, fun hd ↦ by cases hd⟩
    | revoking id' =>
      change Own env links id (receive (.revoking id') response) s' (tag i es ++ t)
      by_cases hid : id' = id
      · subst hid
        rcases ((hwaiting rfl).step hM hT hinv hstep).2 response hmem with
          ⟨rfl, hdead⟩ | ⟨status, code, rfl, hstatus, hgone⟩
        · exact ⟨.inr rfl, fun _ ↦ hdead⟩
        · simp only [receive]
          rw [revokeLink_error .mobile hstatus]
          dsimp only
          rw [isAlreadyGone_error hgone]
          exact ⟨trivial, fun hd ↦ by cases hd⟩
      · have hother : ∀ phase, phase.Sourced env (tag i es ++ t) → phase.dead? ≠ some id →
            Own env links id phase s' (tag i es ++ t) :=
          fun phase hsourced hne ↦ ⟨hsourced, fun hd ↦ absurd hd hne⟩
        have hne : some id' ≠ some id := fun heq ↦ hid (Option.some.inj heq)
        simp only [receive]
        split
        · exact hother _ (.inr rfl) hne
        · split
          · exact hother _ (.inr rfl) hne
          · exact hother _ trivial (by rintro ⟨⟩)
    | _ => exact hwaiting.elim

/-- A step that meets the condition leaves a record unless the link is dead. -/
theorem go_recorded {fails : Bool} {phase phase' : Phase} {s : σ} {map map' : SentLinkMap}
    (hkeeps : Keeps links id fails phase ⟨s, map⟩ t) (hown : Own env links id phase s t)
    (hrecorded : Recorded env map id t) (h : step cfg fails phase map = some (.go phase' map')) :
    Recorded env map' id t ∨ Dead (links s) id t := by
  cases phase with
  | read call part =>
    simp only [step] at h
    repeat' split at h
    all_goals
      cases h
      exact .inl hrecorded
  | write call found map₁ part =>
    simp only [step] at h
    split at h
    · cases h
      exact .inl hrecorded
    · rename_i hfails
      cases h
      obtain ⟨hforgets, hfound⟩ := hkeeps.2 (Bool.eq_false_iff.mpr hfails)
      obtain rfl : map = found := hfound found rfl
      obtain ⟨hcall, hplan, -⟩ := hown.1
      by_cases hdelete : call = .deleteSentLink id
      · subst hdelete
        rcases hcall with rfl | hdead
        · simp [Phase.forgets] at hforgets
        · exact .inr (hown.2 hdead)
      · exact .inl (hrecorded.plan hcall hplan hdelete)
  | clear =>
    cases h
    cases fails with
    | true => exact .inl hrecorded
    | false => cases (hkeeps.2 rfl).1
  | getSentLink id' =>
    simp only [step] at h
    split at h
    · cases h
      exact .inl hrecorded
    · cases h
  | _ => cases h

theorem obligations_keeps (hM : LinkServer env M links stage inv)
    (hT : TokenServer env M links stage posting trying settled)
    (hdigest : ∀ token, IsDigest (env.hashRevocationToken token)) (id : LinkId) :
    Client.Obligations (client cfg) M answer? (Keeps links id)
      (fun s t ↦ inv s ∧ Hashed (links s) t) (Sourced env) (Own env links id)
      (Waiting cfg links stage posting trying settled id) :=
  (obligations hM hT hdigest id).strengthen And.left

end Obligations

end Mobile

/-! ## Web -/

namespace Web

/-- The link that `revoke` has found dead. -/
def Phase.dead? : Phase → Option LinkId
  | .returned id .revoked => some id
  | _ => none

/-- A revoke of `id` that turns to the object store finds a row that is not active, or the record. -/
def Finds {σ : Type} (links : σ → Links) (id : LinkId) (fails : Bool) (phase : Phase)
    (w : Client.World σ Device) (t : Trace Event) : Prop :=
  (phase = .revoke id → insertions id t ≠ []) ∧
    (phase = .getSentLink id → insertions id t ≠ [] ∧ ((links w.server id).Closed ∨
      (fails = false ∧ (w.device.store.lookup id).isSome = true)))

/-- Moreover the user does not clear the object store. -/
def Keeps {σ : Type} (links : σ → Links) (id : LinkId) (fails : Bool) (phase : Phase)
    (w : Client.World σ Device) (t : Trace Event) : Prop :=
  Finds links id fails phase w t ∧ (phase = .clear → fails = true)

/-- The token of a record is that of a row inserted under its id. -/
def Tokened (env : Env) (record : SentLinkRecord) (t : Trace Event) : Prop :=
  ∃ token ∈ record.revocationToken, token ≠ "" ∧ Minted env record.id token t

/-- The object store has a record of `id` with the token of a row. -/
def Recorded (env : Env) (device : Device) (id : LinkId) (t : Trace Event) : Prop :=
  ∃ record, device.store.lookup id = some record ∧ Tokened env record t

structure Sourced (env : Env) (device : Device) (t : Trace Event) : Prop where
  store : ∀ id record, device.store.lookup id = some record → record.id = id ∧ Tokened env record t
  rawLinks : ∀ record ∈ device.rawLinks, Tokened env record t

def Phase.Sourced (env : Env) : Phase → Trace Event → Prop
  | .recordSentLink record, t => Tokened env record t
  | .setRawLinks records, t => ∀ record ∈ records, Tokened env record t
  | _, _ => True

section Obligations

variable {χ P σ : Type} {env : Env} {cfg : CreateConfig} {M : Program Server.Request χ P σ Event}
  {links : σ → Links} {stage : P → Stage} {inv : σ → Prop}
  {posting : (Instant → Option Draft) → P → Prop} {trying : LinkId → Option String → P → Prop}
  {settled : LinkId → P → Prop} {i : Nat} {es : List Event} {t : Trace Event} {id : LinkId}

theorem Tokened.append {record : SentLinkRecord} (h : Tokened env record t) :
    Tokened env record (tag i es ++ t) := by
  obtain ⟨token, htoken, hnonempty, hminted⟩ := h
  exact ⟨token, htoken, hnonempty, hminted.append⟩

theorem Recorded.append {device : Device} (h : Recorded env device id t) :
    Recorded env device id (tag i es ++ t) := by
  obtain ⟨record, hrecord, htokened⟩ := h
  exact ⟨record, hrecord, htokened.append⟩

theorem Sourced.append {device : Device} (h : Sourced env device t) :
    Sourced env device (tag i es ++ t) where
  store := fun id record hrecord ↦ (h.store id record hrecord).imp_right Tokened.append
  rawLinks := fun record hrecord ↦ (h.rawLinks record hrecord).append

theorem Phase.Sourced.append {phase : Phase} (h : phase.Sourced env t) :
    phase.Sourced env (tag i es ++ t) := by
  cases phase with
  | recordSentLink record => exact Tokened.append h
  | setRawLinks records => exact fun record hrecord ↦ (h record hrecord).append
  | _ => trivial

/-- What holds of a task while it steps by itself. -/
def Own (env : Env) (links : σ → Links) (id : LinkId) (phase : Phase) (s : σ) (t : Trace Event) : Prop :=
  phase.Sourced env t ∧ (phase.dead? = some id → Dead (links s) id t)

/-- What holds of a task while it waits for an answer. -/
def Waiting (cfg : CreateConfig) (links : σ → Links) (stage : P → Stage)
    (posting : (Instant → Option Draft) → P → Prop) (trying : LinkId → Option String → P → Prop)
    (settled : LinkId → P → Prop) (id : LinkId) (phase : Phase) (p : P) (s : σ) (t : Trace Event) :
    Prop :=
  match phase with
  | .posting upload => Uploading cfg stage posting upload p t
  | .revoking id' => id' = id → Answering links trying settled id p s t
  | _ => False

theorem step_go {fails : Bool} {phase phase' : Phase} {s : σ} {device device' : Device}
    (hD : Sourced env device t) (hown : Own env links id phase s t)
    (h : step cfg fails phase device = some (.go phase' device')) :
    Sourced env device' t ∧ Own env links id phase' s t := by
  have quiet : ∀ {phase : Phase}, phase.Sourced env t → phase.dead? = none →
      Own env links id phase s t :=
    fun hsourced hnone ↦ ⟨hsourced, fun hd ↦ by cases hnone.symm.trans hd⟩
  obtain ⟨hsourced, -⟩ := hown
  cases phase with
  | recordSentLink record =>
    cases h
    refine ⟨?_, quiet trivial rfl⟩
    split
    · exact hD
    · refine ⟨fun id record' hrecord ↦ ?_, hD.rawLinks⟩
      by_cases hid : id = record.id
      · subst hid
        rw [AList.lookup_insert] at hrecord
        cases hrecord
        exact ⟨rfl, hsourced⟩
      · rw [AList.lookup_insert_ne hid] at hrecord
        exact hD.store id record' hrecord
  | clear =>
    cases h
    refine ⟨?_, quiet trivial rfl⟩
    split
    · exact hD
    · exact ⟨fun id record hrecord ↦ (by cases hrecord), hD.rawLinks⟩
  | revoke id' =>
    simp only [step] at h
    split at h
    · cases h
    · cases h
      exact ⟨hD, quiet trivial rfl⟩
  | listSentLinks =>
    cases h
    refine ⟨hD, ?_⟩
    split
    · exact quiet trivial rfl
    · refine quiet (fun record hrecord ↦ ?_) rfl
      obtain ⟨⟨id, record'⟩, hentry, rfl⟩ := List.mem_map.mp hrecord
      exact (hD.store id record' (AList.mem_lookup_iff.mpr hentry)).2
  | setRawLinks records =>
    cases h
    exact ⟨⟨hD.store, hsourced⟩, quiet trivial rfl⟩
  | _ => cases h

theorem obligations (hM : LinkServer env M links stage inv)
    (hT : TokenServer env M links stage posting trying settled)
    (hdigest : ∀ token, IsDigest (env.hashRevocationToken token)) (id : LinkId) :
    Client.Obligations (client cfg) M answer? (Finds links id)
      (fun s t ↦ inv s ∧ Hashed (links s) t) (Sourced env) (Own env links id)
      (Waiting cfg links stage posting trying settled id) where
  server := by
    rintro i x p s t p' s' es ⟨hinv, hhashed⟩ hstep
    exact ⟨hM.keep hinv hstep, hhashed.step (hM.act hinv hstep)⟩
  stable := by
    rintro i x p s t p' s' es ⟨hinv, -⟩ hstep
    constructor
    · rintro phase ⟨hsourced, hdead⟩
      exact ⟨hsourced.append, fun hd ↦ (hdead hd).step (hM.act hinv hstep)⟩
    · intro phase q hwaiting
      cases phase with
      | posting upload => exact Uploading.other hwaiting
      | revoking id' => exact fun hid ↦ (hwaiting hid).other hM hinv hstep
      | _ => exact hwaiting.elim
  older := Sourced.append
  init := by
    intro task s t _
    cases task <;> exact ⟨trivial, fun hd ↦ by cases hd⟩
  go := fun _ _ hD hown h ↦ step_go hD hown h
  send := by
    rintro fails phase s t device request phase' hfinds ⟨hinv, hhashed⟩ hD - h
    cases phase with
    | sealed upload =>
      cases h
      exact Uploading.start hM hT
    | revoke id' =>
      change step cfg fails (.revoke id') device = _ at h
      simp only [step] at h
      split at h
      · rename_i record hrecord
        cases h
        rintro rfl
        obtain ⟨token, htoken, hnonempty, hminted⟩ :=
          hD.rawLinks record (List.mem_of_find?_eq_some hrecord)
        have hfound := List.find?_some hrecord
        have hid : record.id = id' := of_decide_eq_true hfound
        rw [hid] at hminted
        exact Answering.start hT hdigest hhashed (hfinds.1 rfl) _
          (.inr ⟨token, htoken, hnonempty, hminted⟩)
      · cases h
    | getSentLink id' =>
      cases h
      rintro rfl
      obtain ⟨hne, hfound⟩ := hfinds.2 rfl
      refine Answering.start hT hdigest hhashed hne _ (hfound.imp_right ?_)
      rintro ⟨rfl, hsome⟩
      obtain ⟨record, hrecord⟩ := Option.isSome_iff_exists.mp hsome
      obtain ⟨rfl, token, htoken, hnonempty, hminted⟩ := hD.store _ record hrecord
      refine ⟨token, ?_, hnonempty, hminted⟩
      rw [if_neg Bool.noConfusion, show device.store.lookup record.id = some record from hrecord]
      exact htoken
    | _ => cases h
  wait := by
    rintro i x phase p s t p' s' es ⟨hinv, -⟩ hwaiting hstep -
    cases phase with
    | posting upload => exact (Uploading.step hM hT hinv hstep hwaiting).1
    | revoking id' => exact fun hid ↦ ((hwaiting hid).step hM hT hinv hstep).1
    | _ => exact hwaiting.elim
  receive := by
    rintro i x phase p s t p' s' es response ⟨hinv, -⟩ hwaiting hstep hanswer
    have hmem := mem_of_answer hanswer
    cases phase with
    | posting upload =>
      obtain ⟨-, -, hminted⟩ := Uploading.step hM hT hinv hstep hwaiting
      change Own env links id (receive (.posting upload) response) s' (tag i es ++ t)
      simp only [receive]
      split
      · rename_i url token hresponse
        obtain ⟨hnonempty, id', url', rfl⟩ := postMessage_ok hresponse
        exact ⟨⟨token, rfl, hnonempty, hminted id' url' token hmem⟩, fun hd ↦ by cases hd⟩
      · exact ⟨trivial, fun hd ↦ by cases hd⟩
    | revoking id' =>
      change Own env links id (receive (.revoking id') response) s' (tag i es ++ t)
      by_cases hid : id' = id
      · subst hid
        rcases ((hwaiting rfl).step hM hT hinv hstep).2 response hmem with
          ⟨rfl, hdead⟩ | ⟨status, code, rfl, hstatus, hgone⟩
        · exact ⟨trivial, fun _ ↦ hdead⟩
        · simp only [receive]
          rw [revokeLink_error .web hstatus]
          dsimp only
          rw [if_neg (classifyApiError_error hgone)]
          exact ⟨trivial, fun hd ↦ by cases hd⟩
      · have hne : some id' ≠ some id := fun heq ↦ hid (Option.some.inj heq)
        simp only [receive]
        split
        · exact ⟨trivial, fun hd ↦ absurd hd hne⟩
        · split
          · exact ⟨trivial, fun hd ↦ absurd hd hne⟩
          · exact ⟨trivial, fun hd ↦ by cases hd⟩
    | _ => exact hwaiting.elim

/-- A step that does not clear the store leaves the record of every link. -/
theorem go_recorded {fails : Bool} {phase phase' : Phase} {s : σ} {device device' : Device}
    (hkeeps : Keeps links id fails phase ⟨s, device⟩ t) (hown : Own env links id phase s t)
    (hrecorded : Recorded env device id t)
    (h : step cfg fails phase device = some (.go phase' device')) : Recorded env device' id t := by
  cases phase with
  | recordSentLink record =>
    cases h
    split
    · exact hrecorded
    · unfold Recorded
      by_cases hid : id = record.id
      · subst hid
        exact ⟨record, AList.lookup_insert _, hown.1⟩
      · dsimp only
        rw [AList.lookup_insert_ne hid]
        exact hrecorded
  | clear =>
    cases h
    rw [hkeeps.2 rfl]
    exact hrecorded
  | revoke id' =>
    simp only [step] at h
    split at h
    · cases h
    · cases h
      exact hrecorded
  | listSentLinks | setRawLinks records =>
    cases h
    exact hrecorded
  | _ => cases h

theorem obligations_keeps (hM : LinkServer env M links stage inv)
    (hT : TokenServer env M links stage posting trying settled)
    (hdigest : ∀ token, IsDigest (env.hashRevocationToken token)) (id : LinkId) :
    Client.Obligations (client cfg) M answer? (Keeps links id)
      (fun s t ↦ inv s ∧ Hashed (links s) t) (Sourced env) (Own env links id)
      (Waiting cfg links stage posting trying settled id) :=
  (obligations hM hT hdigest id).strengthen And.left

end Obligations

end Web

/-! ## Both servers -/

section Reports

variable {χ P σ : Type}

/-- In every run in which each look-up of a revoke of `id` meets the condition, a link that one row was
inserted for is dead once a revoke function has returned "revoked", and before one deletes its record.  A
record is gone from the device only if its link is dead, where moreover no write of the map undoes
another. -/
structure RevokedDead (env : Env) (cfg : CreateConfig) (M : Program Server.Request χ P σ Event)
    (links : σ → Links) (s₀ : σ) : Prop where
  mobile : ∀ id c, (Client.program (Mobile.client cfg) M answer?).Reachable
    (Client.guard (Mobile.Finds links id)) ⟨s₀, ∅⟩ c → ∀ (i : Nat) phase, c.threads[i]? = some (.own phase) →
      Mobile.Phase.dead? phase = some id → (insertions id c.trace).length ≤ 1 →
        (links c.shared.server id).Closed
  mobileRecord : ∀ id c c', (Client.program (Mobile.client cfg) M answer?).Reachable
    (Client.guard (Mobile.Keeps links id)) ⟨s₀, ∅⟩ c → (Client.program (Mobile.client cfg) M answer?).Runs
      (Client.guard (Mobile.Keeps links id)) c c' →
        ((c.shared.device.lookup id).bind (·.revocationToken)).isSome = true →
          (insertions id c'.trace).length ≤ 1 →
            Mobile.Recorded env c'.shared.device id c'.trace ∨ (links c'.shared.server id).Closed
  web : ∀ id c, (Client.program (Web.client cfg) M answer?).Reachable
    (Client.guard (Web.Finds links id)) ⟨s₀, ⟨∅, []⟩⟩ c → ∀ (i : Nat) phase, c.threads[i]? = some (.own phase) →
      Web.Phase.dead? phase = some id → (insertions id c.trace).length ≤ 1 →
        (links c.shared.server id).Closed
  webRecord : ∀ id c c', (Client.program (Web.client cfg) M answer?).Reachable
    (Client.guard (Web.Keeps links id)) ⟨s₀, ⟨∅, []⟩⟩ c → (Client.program (Web.client cfg) M answer?).Runs
      (Client.guard (Web.Keeps links id)) c c' → (c.shared.device.store.lookup id).isSome = true →
        Web.Recorded env c'.shared.device id c'.trace

theorem revokedDead {env : Env} {cfg : CreateConfig} {M : Program Server.Request χ P σ Event}
    {links : σ → Links} {stage : P → Stage} {inv : σ → Prop}
    {posting : (Instant → Option Draft) → P → Prop} {trying : LinkId → Option String → P → Prop}
    {settled : LinkId → P → Prop} {s₀ : σ} (hM : LinkServer env M links stage inv)
    (hT : TokenServer env M links stage posting trying settled)
    (hdigest : ∀ token, IsDigest (env.hashRevocationToken token))
    (hempty : links s₀ = fun _ ↦ Link.vacant) (hinv : inv s₀) : RevokedDead env cfg M links s₀ := by
  have hhashed : Hashed (links s₀) [] := by
    intro id hrow
    rw [hempty] at hrow
    cases hrow
  have hmobile : (inv s₀ ∧ Hashed (links s₀) []) ∧ Mobile.Sourced env ∅ [] :=
    ⟨⟨hinv, hhashed⟩, fun id link hlink ↦ by cases hlink⟩
  have hweb : (inv s₀ ∧ Hashed (links s₀) []) ∧ Web.Sourced env ⟨∅, []⟩ [] :=
    ⟨⟨hinv, hhashed⟩, fun id record hrecord ↦ (by cases hrecord), fun record hrecord ↦ (by cases hrecord)⟩
  constructor
  · intro id c hc i phase hthread hdead honce
    have hholds := Program.invariant (Client.keeps (Mobile.obligations hM hT hdigest id)) hmobile hc
    exact ((hholds.thread i _ hthread).2 hdead).2 honce
  · intro id c c' hc hruns hrecord honce
    obtain ⟨token, htoken⟩ := Option.isSome_iff_exists.mp hrecord
    obtain ⟨link, hlink, htoken⟩ := Option.bind_eq_some_iff.mp htoken
    have hholds := Program.invariant (Client.keeps (Mobile.obligations_keeps hM hT hdigest id)) hmobile hc
    have hrecorded : Mobile.Recorded env c.shared.device id c.trace :=
      ⟨link, hlink, token, htoken, hholds.shared.2 id link hlink token htoken⟩
    have hkept := Client.runs_keep (Mobile.obligations_keeps hM hT hdigest id)
      (K := fun w t ↦ Mobile.Recorded env w.device id t ∨ Dead (links w.server) id t)
      (fun hI hK hstep ↦ hK.imp Mobile.Recorded.append fun hdead ↦ hdead.step (hM.act hI.1 hstep))
      (fun hok _ hown hK hgo ↦ hK.elim (fun hrecorded ↦ Mobile.go_recorded hok hown hrecorded hgo) .inr)
      hmobile hc hruns (.inl hrecorded)
    exact hkept.imp_right fun hdead ↦ hdead.2 honce
  · intro id c hc i phase hthread hdead honce
    have hholds := Program.invariant (Client.keeps (Web.obligations hM hT hdigest id)) hweb hc
    exact ((hholds.thread i _ hthread).2 hdead).2 honce
  · intro id c c' hc hruns hrecord
    obtain ⟨record, hrecord⟩ := Option.isSome_iff_exists.mp hrecord
    have hholds := Program.invariant (Client.keeps (Web.obligations_keeps hM hT hdigest id)) hweb hc
    exact Client.runs_keep (Web.obligations_keeps hM hT hdigest id) (K := fun w t ↦ Web.Recorded env w.device id t)
      (fun _ hK _ ↦ hK.append) (fun hok _ hown hK hgo ↦ Web.go_recorded hok hown hK hgo)
      hweb hc hruns ⟨record, hrecord, (hholds.shared.2.store id record hrecord).2⟩

end Reports

/-- Where every look-up of a revoke finds the token of a link that is active, "revoked" means that the
link is dead; the record of a link is lost only when the link is dead, where moreover every write of the
map finds it as its call has read it. -/
theorem revoked_dead (env : Env) (hdigest : ∀ token, IsDigest (env.hashRevocationToken token))
    (cfg : CreateConfig) :
    RevokedDead env cfg (Server.Memory.program env) MemoryStore.link MemoryStore.empty ∧
      RevokedDead env cfg (Server.Postgres.program env) Server.Postgres.links
        Server.Postgres.State.initial := by
  constructor
  · exact revokedDead (Server.Memory.linkServer env) (Server.Memory.tokenServer env) hdigest rfl trivial
  · exact revokedDead (Server.Postgres.linkServer env) (Server.Postgres.tokenServer env) hdigest rfl
      (by rintro id row ⟨⟩)

/-! ### A link that is created and revoked -/

/-- A server whose tokens all have the SHA-256 of "token". -/
def sampleEnv : Env :=
  ⟨fun _ ↦ "3c469e9d6c5875d37a43f353d4f88e61fcf812c66eee3457465a40b0da4153e0", "", 0⟩

def sampleUpload : Upload where
  request := ⟨"AAAAAAAAAAAAAAAA", "AAAAAAAAAAAAAAAAAAAAAAAAAAAAAAAAAAAAAAAAAAA=",
    "2026-01-08T00:00:00.000Z", .int 1⟩
  length := 200
  recipientFingerprint := "AM-0000"
  createdAt := "2026-01-01T00:00:00.000Z"
  label := none

/-- A step of the server that mints "token", or one of the client. -/
def sampleInput (fails : Bool) : Server.Memory.Input × Bool :=
  (⟨.at 1767225600000, 0, "token", false⟩, fails)

abbrev SampleAction := Action (Server.Request ⊕ Mobile.Task) (Server.Memory.Input × Bool)

/-- Thread `i` creates a link and writes its record, unless that `fails`. -/
def createLink (i : Nat) (upload : Upload) (fails : Bool) : List SampleAction :=
  .spawn (.inr (.createAndSeal upload)) :: List.replicate 6 (.run i (sampleInput false)) ++
    [.run i (sampleInput fails)]

/-- Thread `i` revokes a link, up to the deletion of its record. -/
def revokeLinkOf (i : Nat) (upload : Upload) : List SampleAction :=
  .spawn (.inr (.revokeTrackedLinkOutcome upload.request.id)) ::
    List.replicate 4 (.run i (sampleInput false))

/-- A link is created, and its record written unless that `fails`; then it is revoked. -/
def createAndRevoke (fails : Bool) : List SampleAction :=
  createLink 0 sampleUpload fails ++ revokeLinkOf 1 sampleUpload

def otherUpload : Upload :=
  { sampleUpload with request := { sampleUpload.request with id := "BBBBBBBBBBBBBBBB" } }

/-- Another link is created and revoked, and its record is deleted. -/
def createAndRevokeOther : List SampleAction :=
  createLink 1 otherUpload false ++ revokeLinkOf 2 otherUpload ++ [.run 2 (sampleInput false)]

/-- What a run shows of the revoke and of the link. -/
def outcome {P : Type} (id : LinkId) (c : Config (Client.Pc P Mobile.Phase)
    (Client.World MemoryStore SentLinkMap) Event) : Option LinkId × Nat × Bool :=
  ((c.threads[1]?.bind Client.Pc.own?).bind Mobile.Phase.dead?, (insertions id c.trace).length,
    decide (c.shared.server.link id).Closed)

theorem exists_of_outcome {P : Type} {id id' : LinkId} {n : Nat} {closed : Bool}
    {c : Config (Client.Pc P Mobile.Phase) (Client.World MemoryStore SentLinkMap) Event}
    (h : outcome id c = (some id', n, closed)) : ∃ phase, c.threads[1]? = some (.own phase) ∧
      Mobile.Phase.dead? phase = some id' ∧ (insertions id c.trace).length = n ∧
        decide (c.shared.server.link id).Closed = closed := by
  obtain ⟨hdead, h⟩ := Prod.mk.inj h
  obtain ⟨phase, hphase, hdead⟩ := Option.bind_eq_some_iff.mp hdead
  obtain ⟨pc, hthread, hown⟩ := Option.bind_eq_some_iff.mp hphase
  cases pc with
  | own f =>
    cases hown
    exact ⟨_, hthread, hdead, Prod.mk.inj h⟩
  | _ => cases hown

/-- A link that is revoked is dead; one that is not has its record, though that of another is deleted. -/
theorem revoked_dead_sample :
    (∃ c, (Client.program (Mobile.client .default) (Server.Memory.program sampleEnv) answer?).exec
      (Client.guard (Mobile.Finds MemoryStore.link sampleUpload.request.id))
      (Program.start ⟨MemoryStore.empty, ∅⟩) (createAndRevoke false ++ [.run 1 (sampleInput false)]) = some c ∧
        (c.shared.server.link sampleUpload.request.id).Closed) ∧
    ∃ c c', (Client.program (Mobile.client .default) (Server.Memory.program sampleEnv) answer?).exec
      (Client.guard (Mobile.Keeps MemoryStore.link sampleUpload.request.id))
      (Program.start ⟨MemoryStore.empty, ∅⟩) (createLink 0 sampleUpload false) = some c ∧
        (Client.program (Mobile.client .default) (Server.Memory.program sampleEnv) answer?).exec
          (Client.guard (Mobile.Keeps MemoryStore.link sampleUpload.request.id)) c createAndRevokeOther =
            some c' ∧
        Mobile.Recorded sampleEnv c'.shared.device sampleUpload.request.id c'.trace ∧
          c'.shared.device.lookup otherUpload.request.id = none := by
  have hdigest : IsDigest (sampleEnv.hashRevocationToken "token") := by decide
  constructor
  · have hrun : ((Client.program (Mobile.client .default) (Server.Memory.program sampleEnv) answer?).exec
        (Client.guard (Mobile.Finds MemoryStore.link sampleUpload.request.id))
        (Program.start ⟨MemoryStore.empty, ∅⟩) (createAndRevoke false ++ [.run 1 (sampleInput false)])).map
          (outcome sampleUpload.request.id) = some (some sampleUpload.request.id, 1, true) := by
      decide +kernel
    obtain ⟨c, hc, hv⟩ := Option.map_eq_some_iff.mp hrun
    obtain ⟨phase, hthread, hdead, honce, -⟩ := exists_of_outcome hv
    exact ⟨c, hc, (revoked_dead sampleEnv (fun _ ↦ hdigest) .default).1.mobile _ c
      (Program.runs_of_exec hc) 1 phase hthread hdead (Nat.le_of_eq honce)⟩
  · have hrun : ((Client.program (Mobile.client .default) (Server.Memory.program sampleEnv) answer?).exec
        (Client.guard (Mobile.Keeps MemoryStore.link sampleUpload.request.id))
        (Program.start ⟨MemoryStore.empty, ∅⟩) (createLink 0 sampleUpload false)).bind (fun c ↦
          ((Client.program (Mobile.client .default) (Server.Memory.program sampleEnv) answer?).exec
            (Client.guard (Mobile.Keeps MemoryStore.link sampleUpload.request.id)) c
              createAndRevokeOther).map fun c' ↦
            (((c.shared.device.lookup sampleUpload.request.id).bind (·.revocationToken)).isSome,
              (insertions sampleUpload.request.id c'.trace).length,
              decide (c'.shared.server.link sampleUpload.request.id).Closed,
              c'.shared.device.lookup otherUpload.request.id)) = some (true, 1, false, none) := by
      decide +kernel
    obtain ⟨c, hc, hv⟩ := Option.bind_eq_some_iff.mp hrun
    obtain ⟨c', hc', hv⟩ := Option.map_eq_some_iff.mp hv
    obtain ⟨hrecord, hv⟩ := Prod.mk.inj hv
    obtain ⟨honce, hv⟩ := Prod.mk.inj hv
    obtain ⟨halive, hother⟩ := Prod.mk.inj hv
    have hkept := (revoked_dead sampleEnv (fun _ ↦ hdigest) .default).1.mobileRecord _ c c'
      (Program.runs_of_exec hc) (Program.runs_of_exec hc') hrecord (Nat.le_of_eq honce)
    exact ⟨c, c', hc, hc', hkept.resolve_right (of_decide_eq_false halive), hother⟩

/-- A link whose record could not be written is reported as revoked while it is active. -/
theorem revoked_alive : ¬∀ id c, (Client.program (Mobile.client .default)
    (Server.Memory.program sampleEnv) answer?).Reachable .always ⟨MemoryStore.empty, ∅⟩ c →
      ∀ (i : Nat) phase, c.threads[i]? = some (.own phase) → Mobile.Phase.dead? phase = some id →
        (insertions id c.trace).length = 1 → (c.shared.server.link id).Closed := by
  intro h
  have hrun : ((Client.program (Mobile.client .default) (Server.Memory.program sampleEnv) answer?).exec
      .always (Program.start ⟨MemoryStore.empty, ∅⟩) (createAndRevoke true)).map
        (outcome sampleUpload.request.id) = some (some sampleUpload.request.id, 1, false) := by
    decide +kernel
  obtain ⟨c, hc, hv⟩ := Option.map_eq_some_iff.mp hrun
  obtain ⟨phase, hthread, hdead, honce, halive⟩ := exists_of_outcome hv
  exact of_decide_eq_false halive (h _ c (Program.runs_of_exec hc) 1 phase hthread hdead honce)

end Aesmsg.Links
