import Aesmsg.Server.Memory
import Aesmsg.Server.Postgres

/-!
# The way of an open request

What the thread of an open request has emitted at each phase of its way, on either server: once it
has counted an open it answers 200 or 410 and nothing else.  A database may commit a statement and
lose its reply, so that the thread fails with the effect kept.

## Main results

- `OpensOnce`: the way of an open request, which both servers follow.
- `Failing`: a thread whose reply is lost still follows it, where no open has been counted.
-/

namespace Aesmsg.Server

open Store Api Threads

/-- The way of an open request. -/
inductive OpenPhase where
  | waiting
  /-- It has read the ciphertext. -/
  | fetched (id : LinkId) (blob : Option (List UInt8))
  /-- Its `incrementOpens` has resolved. -/
  | counted
  | finished

theorem status_openResponse (blob : Option (List UInt8)) (row : Option LinkMetadata) :
    (openResponse blob row).status = 200 ∨ (openResponse blob row).status = 410 := by
  cases row with
  | none => exact .inr rfl
  | some row =>
    cases blob with
    | none => exact .inr rfl
    | some blob => exact .inl rfl

/-- An open that has been counted is answered 200 or 410. -/
def AnsweredWell (h : List Event) : Prop :=
  h.any (·.isOpened) = true → ∀ r, .answered r ∈ h → r.status = 200 ∨ r.status = 410

/-- Nothing is answered yet. -/
def Unanswered (h : List Event) : Prop := ∀ r, .answered r ∉ h

theorem unanswered_read (id : LinkId) (blob : Option (List UInt8)) : Unanswered [.read id blob] := by
  intro r hr
  cases List.mem_singleton.mp hr

theorem Unanswered.openEvents {h : List Event} (hn : Unanswered h) (id : LinkId) (row : LinkMetadata)
    (now : Instant) : Unanswered (openEvents id row now ++ h) := by
  intro r hr
  rcases List.mem_append.mp hr with hr | hr
  · unfold Server.openEvents at hr
    split at hr
    · simp at hr
    · simp at hr
  · exact hn r hr

/-- The answer of an open request that has come to its end. -/
theorem Unanswered.respond {h : List Event} (hn : Unanswered h) (id : LinkId)
    (blob : Option (List UInt8)) (row : Option LinkMetadata) :
    AnsweredWell ((.answered (openResponse blob row) :: completion id row) ++ h) := by
  intro _ r hr
  rw [List.cons_append, List.mem_cons, List.mem_append] at hr
  rcases hr with hr | hr | hr
  · cases hr
    exact status_openResponse blob row
  · unfold completion at hr
    split at hr
    · cases List.mem_singleton.mp hr
    · cases hr
  · exact absurd hr (hn r)

/-- A refusal counts nothing. -/
theorem answeredWell_of_not_opened {h : List Event} (hn : ∀ e ∈ h, e.isOpened = false) :
    AnsweredWell h := by
  intro ho
  obtain ⟨e, he, hopened⟩ := List.any_eq_true.mp ho
  rw [hn e he] at hopened
  cases hopened

/-- What an open request has emitted in a phase, the latest first. -/
def OpenPhase.Stands : OpenPhase → List Event → Prop
  | .waiting, h => h = []
  | .fetched id blob, h => h = [.read id blob]
  | .counted, h => Unanswered h
  | .finished, h => AnsweredWell h

theorem OpenPhase.Stands.answeredWell {phase : OpenPhase} {h : List Event} (hs : phase.Stands h) :
    AnsweredWell h := by
  cases phase with
  | waiting =>
    cases hs
    exact nofun
  | fetched id blob =>
    cases hs
    exact nofun
  | counted => exact fun _ r hr ↦ absurd hr (hs r)
  | finished => exact hs

/-- The threads of open requests go through the phases. -/
structure OpensOnce {χ P σ : Type} (M : Program Request χ P σ Event) (phase : P → Option OpenPhase) :
    Prop where
  born : ∀ id body, phase (M.init (.openMessage id body)) = some .waiting
  step : ∀ {i x p s p' s' es a h}, phase p = some a → a.Stands h →
    M.step i x p s = some (p', s', es) → ∃ b, phase p' = some b ∧ b.Stands (es ++ h)

/-- A thread that would go from `p` to `p'`, but loses the reply, fails with `lost p p'`: the thread
of an open request stays on its way, if the step has counted no open. -/
structure Failing {P : Type} (lost : P → P → Option (P × List Event)) (phase : P → Option OpenPhase) :
    Prop where
  unopened : ∀ {p p' q es}, lost p p' = some (q, es) → es.any (·.isOpened) = false
  stands : ∀ {p p' q es es' a h}, phase p = some a → a.Stands h → lost p p' = some (q, es') →
    es.any (·.isOpened) = false → ∃ b, phase q = some b ∧ b.Stands (es' ++ (es ++ h))

namespace Memory

def phase : Pc → Option OpenPhase
  | .start (.openMessage ..) => some .waiting
  | .increment id blob => some (.fetched id blob)
  | .opened .. => some .counted
  | .done => some .finished
  | _ => none

theorem opensOnce (env : Env) : OpensOnce (program env) phase where
  born := fun _ _ ↦ rfl
  step := by
    intro i x p s p' s' es a h ha hs hstep
    change step env i x p s = some (p', s', es) at hstep
    cases p with
    | start request =>
      cases request with
      | openMessage id body =>
        cases ha
        cases hs
        simp only [step, begin_] at hstep
        split at hstep
        · cases hstep
          exact ⟨_, rfl, answeredWell_of_not_opened (by simp [Event.isOpened])⟩
        · cases hstep
          exact ⟨_, rfl, rfl⟩
      | _ => cases ha
    | increment id blob =>
      cases ha
      cases hs
      have hn := unanswered_read id blob
      simp only [step, incrementOpens] at hstep
      split at hstep
      · cases hstep
        exact ⟨_, rfl, hn⟩
      · cases hstep
        exact ⟨_, rfl, hn.openEvents id _ _⟩
    | opened id blob row =>
      cases ha
      cases hstep
      exact ⟨_, rfl, Unanswered.respond hs id blob row⟩
    | done => cases hstep
    | _ => cases ha

/-- Its calls do not leave the process: no reply is lost. -/
def lost (_ _ : Pc) : Option (Pc × List Event) := none

theorem failing : Failing lost phase := ⟨nofun, nofun⟩

end Memory

namespace Postgres

def phase : Pc → Option OpenPhase
  | .start (.openMessage ..) => some .waiting
  | .increment id blob => some (.fetched id blob)
  | .opened .. => some .counted
  | .done => some .finished
  | _ => none

theorem opensOnce (env : Env) : OpensOnce (program env) phase where
  born := fun _ _ ↦ rfl
  step := by
    intro i x p s p' s' es a h ha hs hstep
    change step env i x p s = some (p', s', es) at hstep
    cases p with
    | start request =>
      cases request with
      | openMessage id body =>
        cases ha
        cases hs
        simp only [step, begin_] at hstep
        split at hstep
        · cases hstep
          exact ⟨_, rfl, answeredWell_of_not_opened (by simp [Event.isOpened])⟩
        split at hstep
        · cases hstep
          exact ⟨_, rfl, answeredWell_of_not_opened (by simp [Event.isOpened])⟩
        · cases hstep
          exact ⟨_, rfl, rfl⟩
      | _ => cases ha
    | increment id blob =>
      cases ha
      cases hs
      have hn := unanswered_read id blob
      have hfail : AnsweredWell (failure true ++ [.read id blob]) :=
        answeredWell_of_not_opened (by simp [failure, finish, Event.isOpened])
      simp only [step, incrementOpens] at hstep
      split at hstep
      · cases hstep
        exact ⟨_, rfl, hfail⟩
      split at hstep
      · cases hstep
      split at hstep
      · cases hstep
        exact ⟨_, rfl, hfail⟩
      · cases hstep
        exact ⟨_, rfl, hn⟩
      · split at hstep
        · cases hstep
        · cases hstep
          exact ⟨_, rfl, hn.openEvents id _ _⟩
    | opened id blob row =>
      cases ha
      cases hstep
      exact ⟨_, rfl, Unanswered.respond hs id blob row⟩
    | done => cases hstep
    | _ => cases ha

/-- Where a thread goes if the statement that takes it from one place to the other has been committed
and its reply is lost: the catch of a transaction rolls back, and a request is answered 500. -/
def lost : Pc → Pc → Option (Pc × List Event)
  | .commitCreate token .., .created .. => some (.rollback token.isSome, [])
  | .increment .., .opened .. => some (.done, failure true)
  | .start (.incrementOpens _), .incremented .. => some (.done, failure false)
  | .commitRevoke request .., .revoked .. => some (.rollback request, [])
  | .commitPurge .., .purged _ => some (.rollback false, [])
  | .start .expirePastDue, .sweepDelete => some (.done, [])
  | .sweepDelete, .prune _ => some (.done, [])
  | _, _ => none

theorem failing : Failing lost phase where
  unopened := by
    intro p p' q es h
    unfold lost at h
    split at h
    all_goals cases h
    all_goals rfl
  stands := by
    intro p p' q es es' a h ha hs hlost hes
    cases p with
    | start request =>
      cases request with
      | openMessage id body => cases hlost
      | _ => cases ha
    | increment id blob =>
      cases ha
      cases hs
      cases p' with
      | opened id' blob' row =>
        cases hlost
        refine ⟨.finished, rfl, answeredWell_of_not_opened fun e he ↦ ?_⟩
        rcases List.mem_append.mp he with he | he
        · cases List.mem_singleton.mp he
          rfl
        rcases List.mem_append.mp he with he | he
        · rw [List.any_eq_false] at hes
          exact Bool.eq_false_iff.mpr (hes e he)
        · cases List.mem_singleton.mp he
          rfl
      | _ => cases hlost
    | opened id blob row => cases hlost
    | done => cases hlost
    | _ => cases ha

end Postgres

end Aesmsg.Server
