import Aesmsg.Server.MemorySteps
import Aesmsg.Server.Tokens

/-!
# Tokens of the in-memory server

## Main results

- `tokenServer`: the in-memory server deals with tokens as `TokenServer` says.
-/

namespace Aesmsg.Server.Memory

open Store Api Threads

def Posting (env : Env) (validate : Instant → Option Draft) : Pc → Prop
  | .start request => request = .postMessages validate
  | .checked draft _ => ∃ now, validate now = some draft
  | .put token record _ | .rollback token record | .created token record _ =>
    ∃ token' ∈ token, Drafted env validate token' record
  | .done => True
  | _ => False

def Trying (env : Env) (id : LinkId) (hash : Option String) : Pc → Prop
  | .start (.revokeMessage id' _ token) => id' = id ∧ env.presentedHash token = hash
  | .done => True
  | _ => False

def Settled (id : LinkId) : Pc → Prop
  | .revoked request id' _ => request = true ∧ id' = id
  | .done => True
  | _ => False

section Steps

variable {env : Env} {x : Input} {s s' : MemoryStore} {p p' : Pc} {es : List Event}

theorem posting_step {validate : Instant → Option Draft} (i : Nat) (hp : Posting env validate p)
    (h : step env i x p s = some (p', s', es)) :
    Posting env validate p' ∧ ∀ r, .answered r ∈ es → CreateAnswer r := by
  have error : ∀ {status : Nat} {code : String}, 400 ≤ status →
      ∀ r, .answered r ∈ [Event.answered (.error status code)] → CreateAnswer r :=
    fun hstatus r hr ↦ createAnswer_of_mem hr (createAnswer_error hstatus)
  cases p with
  | start request =>
    cases hp
    simp only [step, begin_] at h
    split at h
    · cases h
      exact ⟨trivial, error (by decide)⟩
    split at h
    · cases h
      exact ⟨trivial, error (by decide)⟩
    · rename_i draft hdraft
      cases h
      exact ⟨⟨_, hdraft⟩, fun r hr ↦ by cases hr⟩
  | checked draft existing =>
    obtain ⟨now, hdraft⟩ := hp
    simp only [step, insert] at h
    split at h
    · cases h
      exact ⟨trivial, error (by decide)⟩
    · split at h
      · cases h
        exact ⟨trivial, error (by decide)⟩
      · cases h
        exact ⟨⟨_, rfl, now, draft, hdraft, rfl⟩, fun r hr ↦ by simp at hr⟩
  | put token record ciphertext =>
    simp only [step] at h
    split at h
    · cases h
      exact ⟨hp, fun r hr ↦ by cases hr⟩
    · cases h
      exact ⟨hp, fun r hr ↦ by simp at hr⟩
  | rollback =>
    obtain ⟨token, htoken, -⟩ := hp
    cases htoken
    cases h
    refine ⟨trivial, fun r hr ↦ ?_⟩
    rcases List.mem_append.mp hr with hr | hr
    · exact error (by decide) r hr
    · simp at hr
  | created =>
    obtain ⟨token, htoken, -⟩ := hp
    cases htoken
    cases h
    exact ⟨trivial, fun r hr ↦ createAnswer_of_mem hr (createAnswer_created _ _ _)⟩
  | done => cases h
  | _ => exact hp.elim

theorem closed_revoke {id : LinkId} {hash : Option String} (h : Allows (s.link id) hash) :
    ((s.revoke id hash x.clock).link id).Closed := by
  rw [MemoryStore.link_revoke, Function.update_self]
  by_cases hclosed : (s.link id).Closed
  · rw [Link.revoke_of_not_revocable (Link.revocable_of_closed hclosed hash)]
    exact hclosed
  · unfold Link.Closed at hclosed
    push Not at hclosed
    obtain ⟨row, hrow, hactive⟩ := hclosed
    obtain ⟨stamp, hlink⟩ := Link.revoke_of_allowed hrow hactive (h row hrow hactive) (x.clock.stamp id)
    rw [hlink]
    rintro row' ⟨⟩
    exact LinkStatus.noConfusion

end Steps

theorem tokenServer (env : Env) :
    TokenServer env (program env) MemoryStore.link stage (Posting env) (Trying env) Settled where
  posts := fun _ ↦ rfl
  posted := by
    intro i x p s p' s' es validate hp h
    exact posting_step i hp h
  kept := by
    intro validate p token record ciphertext hp h
    cases p with
    | created =>
      cases h
      obtain ⟨token', htoken, hdrafted⟩ := hp
      cases htoken
      exact hdrafted
    | start | checked | put | rollback | done => cases h
    | _ => exact hp.elim
  tries := fun id body token ↦ ⟨rfl, rfl⟩
  tried := by
    intro i x p s p' s' es id hash htrying h
    cases p with
    | start request =>
      cases request with
      | revokeMessage id' body token =>
        obtain ⟨rfl, rfl⟩ := htrying
        have hbegin := Option.some.inj h
        unfold begin_ at hbegin
        dsimp only at hbegin
        split at hbegin
        · rename_i r hr
          cases hbegin
          refine ⟨.inl trivial, fun r' hr' ↦ ?_⟩
          cases List.mem_singleton.mp hr'
          exact status_of_rejects hr
        · cases hbegin
          refine ⟨.inr ⟨⟨rfl, rfl⟩, closed_revoke⟩, fun r' hr' ↦ ?_⟩
          split at hr'
          · cases List.mem_singleton.mp hr'
          · cases hr'
      | _ => cases htrying
    | done => cases h
    | _ => cases htrying
  replied := by
    intro i x p s p' s' es id hsettled h
    cases p with
    | revoked request id' effect =>
      obtain ⟨rfl, rfl⟩ := hsettled
      cases h
      exact ⟨trivial, fun r ↦ answered_revoked⟩
    | done => cases h
    | _ => cases hsettled

end Aesmsg.Server.Memory
