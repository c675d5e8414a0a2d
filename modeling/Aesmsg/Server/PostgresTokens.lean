import Aesmsg.Server.PostgresSteps
import Aesmsg.Server.Tokens

/-!
# Tokens of the Postgres server

## Main results

- `tokenServer`: the Postgres server deals with tokens as `TokenServer` says.
-/

namespace Aesmsg.Server.Postgres

open Store Api Threads
open Store.Pg (Db)

def Posting (env : Env) (validate : Instant → Option Draft) : Pc → Prop
  | .start request => request = .postMessages validate
  | .checked draft _ => ∃ now, validate now = some draft
  | .insertBlob token record _ | .commitCreate token record _ | .created token record _ =>
    ∃ token' ∈ token, Drafted env validate token' record
  | .rollback _ | .done => True
  | _ => False

def Trying (env : Env) (id : LinkId) (hash : Option String) : Pc → Prop
  | .start (.revokeMessage id' _ token) => id' = id ∧ env.presentedHash token = hash
  | .deleteRevoked request id' _ | .commitRevoke request id' _ _ => request = true ∧ id' = id
  | .rollback request => request = true
  | .done => True
  | _ => False

def Settled (id : LinkId) : Pc → Prop
  | .revoked request id' _ => request = true ∧ id' = id
  | .done => True
  | _ => False

section Steps

variable {env : Env} {i : Nat} {x : Input} {s s' : State} {p p' : Pc} {es : List Event}

theorem posting_step {validate : Instant → Option Draft} (hp : Posting env validate p)
    (h : step env i x p s = some (p', s', es)) :
    Posting env validate p' ∧ ∀ r, .answered r ∈ es → CreateAnswer r := by
  have error : ∀ {status : Nat} {code : String}, 400 ≤ status →
      ∀ r, .answered r ∈ [Event.answered (.error status code)] → CreateAnswer r :=
    fun hstatus r hr ↦ createAnswer_of_mem hr (createAnswer_error hstatus)
  cases p with
  | start request =>
    cases hp
    simp only [step, begin_] at h
    split at h
    · cases h
      exact ⟨trivial, error (by decide)⟩
    split at h
    · cases h
      exact ⟨trivial, error (by decide)⟩
    · rename_i draft hdraft
      split at h
      · cases h
        exact ⟨trivial, error (by decide)⟩
      · cases h
        exact ⟨⟨_, hdraft⟩, fun r hr ↦ by cases hr⟩
  | checked draft existing =>
    obtain ⟨now, hdraft⟩ := hp
    simp only [step, insertRow] at h
    split at h
    · cases h
      exact ⟨trivial, error (by decide)⟩
    split at h
    · cases h
      exact ⟨trivial, error (by decide)⟩
    split at h
    · cases h
    split at h
    · cases h
      exact ⟨trivial, error (by decide)⟩
    · cases h
      exact ⟨⟨_, rfl, now, draft, hdraft, rfl⟩, fun r hr ↦ by cases hr⟩
  | insertBlob token record ciphertext | commitCreate token record ciphertext =>
    simp only [step] at h
    split at h
    · cases h
      exact ⟨trivial, fun r hr ↦ by cases hr⟩
    split at h
    · cases h
      exact ⟨trivial, fun r hr ↦ by cases hr⟩
    · cases h
      exact ⟨hp, fun r hr ↦ by simp at hr⟩
  | rollback request =>
    cases h
    refine ⟨trivial, fun r hr ↦ ?_⟩
    cases request with
    | true => exact error (by decide) r hr
    | false => cases hr
  | created =>
    obtain ⟨token, htoken, -⟩ := hp
    cases htoken
    cases h
    exact ⟨trivial, fun r hr ↦ createAnswer_of_mem hr (createAnswer_created _ _ _)⟩
  | done => cases h
  | _ => exact hp.elim

theorem closed_purgedDb (db : Db) (id : LinkId) (now : Store.Pg.Timestamptz) (present : Bool) :
    (Store.Pg.link (purgedDb db id now true present) id).Closed := by
  have hup : (Store.Pg.link (Store.Pg.updateRevoked db id now) id).Closed := by
    intro row hrow
    rw [Store.Pg.row_link] at hrow
    obtain ⟨r, hr, rfl⟩ := Option.map_eq_some_iff.mp hrow
    simp only [Store.Pg.updateRevoked, Db.updateLinks, OrderedMap.get?_filterMap,
      Option.bind_eq_some_iff, Option.some.injEq] at hr
    obtain ⟨old, -, rfl⟩ := hr
    rw [if_pos trivial]
    exact LinkStatus.noConfusion
  cases present with
  | false => exact hup
  | true => exact hup

/-- An active row whose token is right is locked; any other request is settled at once. -/
theorem tried_lockRevoke {id : LinkId} {hash : Option String}
    (h : lockRevoke i x s id hash true = some (p', s', es)) :
    (Trying env id hash p' ∨ (Settled id p' ∧ (Allows (links s id) hash → (links s' id).Closed))) ∧
      ∀ r, .answered r ∈ es → r = internalError := by
  have quiet : ∀ r, .answered r ∈ ([] : List Event) → r = internalError := by
    intro r hr
    cases hr
  unfold lockRevoke at h
  split at h
  · cases h
    exact ⟨.inl trivial, fun r hr ↦ by cases List.mem_singleton.mp hr; rfl⟩
  split at h
  · rename_i hnone
    cases h
    refine ⟨.inr ⟨⟨rfl, rfl⟩, fun _ row hrow ↦ ?_⟩, quiet⟩
    unfold links at hrow
    rw [Store.Pg.row_link, hnone] at hrow
    cases hrow
  rename_i row hrow
  have hlink : (links s id).row = some (Store.Pg.rowToMeta id row) ∧
      (links s id).hash = some row.revocation_token_hash := by
    unfold links Store.Pg.link
    rw [hrow]
    exact ⟨rfl, rfl⟩
  split at h
  · cases h
  split at h
  · rename_i hstatus
    cases h
    refine ⟨.inr ⟨⟨rfl, rfl⟩, fun _ row' hrow' ↦ ?_⟩, quiet⟩
    cases hlink.1.symm.trans hrow'
    exact hstatus
  rename_i hactive
  split at h
  · cases h
    exact ⟨.inl ⟨rfl, rfl⟩, quiet⟩
  · rename_i hrefused
    cases h
    refine ⟨.inr ⟨⟨rfl, rfl⟩, fun hallows ↦ ?_⟩, quiet⟩
    have := hallows _ hlink.1 (not_not.mp hactive)
    rw [hlink.2] at this
    exact absurd this hrefused

end Steps

theorem tokenServer (env : Env) :
    TokenServer env (program env) links stage (Posting env) (Trying env) Settled where
  posts := fun _ ↦ rfl
  posted := posting_step
  kept := by
    intro validate p token record ciphertext hp h
    cases p with
    | created =>
      cases h
      obtain ⟨token', htoken, hdrafted⟩ := hp
      cases htoken
      exact hdrafted
    | start | checked | insertBlob | commitCreate | rollback | done => cases h
    | _ => exact hp.elim
  tries := fun id body token ↦ ⟨rfl, rfl⟩
  tried := by
    intro i x p s p' s' es id hash htrying h
    have failed : ∀ r, .answered r ∈ es → r = internalError →
        ∃ status code, r = .error status code ∧ 400 ≤ status ∧ status ≠ 404 ∧ status ≠ 410 := by
      rintro r - rfl
      exact ⟨_, _, rfl, by decide, by decide, by decide⟩
    cases p with
    | start request =>
      cases request with
      | revokeMessage id' body token =>
        obtain ⟨rfl, rfl⟩ := htrying
        change begin_ env i x s (.revokeMessage id' body token) = some (p', s', es) at h
        unfold begin_ at h
        dsimp only at h
        split at h
        · rename_i r hr
          cases h
          refine ⟨.inl trivial, fun r' hr' ↦ ?_⟩
          cases List.mem_singleton.mp hr'
          exact status_of_rejects hr
        · obtain ⟨htried, hanswer⟩ := tried_lockRevoke h
          exact ⟨htried, fun r hr ↦ failed r hr (hanswer r hr)⟩
      | _ => cases htrying
    | deleteRevoked request id' now =>
      obtain ⟨rfl, rfl⟩ := htrying
      change (if x.fails then some (Pc.rollback true, s, []) else _) = _ at h
      split at h
      · cases h
        exact ⟨.inl rfl, fun r hr ↦ by cases hr⟩
      · unfold deleteBlob at h
        split at h
        · split at h
          · cases h
          · cases h
            exact ⟨.inl ⟨rfl, rfl⟩, fun r hr ↦ by cases hr⟩
        · cases h
          exact ⟨.inl ⟨rfl, rfl⟩, fun r hr ↦ by cases List.mem_singleton.mp hr⟩
    | commitRevoke request id' now present =>
      obtain ⟨rfl, rfl⟩ := htrying
      change (if x.fails then some (Pc.rollback true, s, []) else _) = _ at h
      split at h
      · cases h
        exact ⟨.inl rfl, fun r hr ↦ by cases hr⟩
      · cases h
        refine ⟨.inr ⟨⟨rfl, rfl⟩, fun _ ↦ closed_purgedDb s.db id' now present⟩, fun r hr ↦ ?_⟩
        split at hr
        · cases List.mem_singleton.mp hr
        · cases hr
    | rollback request =>
      cases htrying
      cases h
      exact ⟨.inl trivial, fun r hr ↦ failed r hr (by cases List.mem_singleton.mp hr; rfl)⟩
    | done => cases h
    | _ => cases htrying
  replied := by
    intro i x p s p' s' es id hsettled h
    cases p with
    | revoked request id' effect =>
      obtain ⟨rfl, rfl⟩ := hsettled
      cases h
      exact ⟨trivial, fun r ↦ answered_revoked⟩
    | done => cases h
    | _ => cases hsettled

end Aesmsg.Server.Postgres
