import Aesmsg.Settings.WipeScreens

/-!
# No link is stranded silently

What has happened to the tracked links when a screen wipes the identity, for every order of the steps of
`Settings/WipeScreens.lean`.

## Main results

- `wipe_accounts`: every link that was live in the list that the run was given had a revoke attempted, which
  succeeded unless the user has acknowledged that it failed.
-/

namespace Aesmsg.Settings

open Threads

/-! ## Lists in the trace -/

/-- The list that was set last. -/
def lastLoad : Trace Event → Option (List TrackedLink × Int)
  | [] => none
  | (_, .loaded records now) :: _ => some (records, now)
  | (_, .unloaded) :: _ => none
  | _ :: t => lastLoad t

/-- The list that was rendered last. -/
def shown : Trace Event → Option (List TrackedLink × Int)
  | [] => none
  | (_, .rendered) :: t => lastLoad t
  | _ :: t => shown t

def selected (otherDate : String → Option Int) : Option (List TrackedLink × Int) → List WipeLinkRef
  | none => []
  | some (records, now) => selectLiveTrackedLinks otherDate records now

/-- What does not change a list. -/
def Event.isRun : Event → Bool
  | loaded .. | unloaded | rendered | confirmed _ => false
  | attempted _ | revoked _ | failed _ | asked _ | acknowledged .. | wiped => true

/-- A run that has wiped has accounted for its links. -/
def WipesAccounted (t : Trace Event) : Prop := ∀ i, (i, Event.wiped) ∈ t →
  ∃ links, (i, Event.confirmed links) ∈ t ∧ ∀ link ∈ links, Accounted i t link

section Trace

variable {i : Nat} {t : Trace Event} {es : List Event} {records : List TrackedLink} {now : Int}

theorem lastLoad_append (h : ∀ e ∈ es, e.isRun = true) (t : Trace Event) :
    lastLoad (tag i es ++ t) = lastLoad t := by
  induction es with
  | nil => rfl
  | cons e es ih =>
    have hrest : lastLoad (tag i es ++ t) = lastLoad t := ih fun e he ↦ h e (List.mem_cons_of_mem _ he)
    have he : e.isRun = true := h e List.mem_cons_self
    cases e with
    | loaded | unloaded | rendered | confirmed => cases he
    | _ => exact hrest

theorem shown_append (h : ∀ e ∈ es, e.isRun = true) (t : Trace Event) :
    shown (tag i es ++ t) = shown t := by
  induction es with
  | nil => rfl
  | cons e es ih =>
    have hrest : shown (tag i es ++ t) = shown t := ih fun e he ↦ h e (List.mem_cons_of_mem _ he)
    have he : e.isRun = true := h e List.mem_cons_self
    cases e with
    | loaded | unloaded | rendered | confirmed => cases he
    | _ => exact hrest

theorem Call.isRun_event (call : Call) : call.event.isRun = true := by
  cases call with
  | revoke | confirmProceedDespiteFailures | wipe => rfl

theorem Settled.isRun_event (link : WipeLinkRef) (settled : Settled) : (settled.event link).isRun = true := by
  rcases event_eq link settled with heq | heq
  · rw [heq]
    rfl
  · rw [heq]
    rfl

theorem Settled.event_ne (link : WipeLinkRef) (settled : Settled) :
    settled.event link ≠ .wiped ∧ ∀ failures, settled.event link ≠ .asked failures := by
  rcases event_eq link settled with heq | heq
  · rw [heq]
    exact ⟨by simp, by simp⟩
  · rw [heq]
    exact ⟨by simp, by simp⟩

theorem mem_of_lastLoad (h : lastLoad t = some (records, now)) : ∃ k, (k, Event.loaded records now) ∈ t := by
  induction t with
  | nil => cases h
  | cons e t ih =>
    obtain ⟨k, e⟩ := e
    cases e with
    | loaded records' now' =>
      cases h
      exact ⟨k, List.mem_cons_self⟩
    | unloaded => cases h
    | _ =>
      obtain ⟨k', hk'⟩ := ih h
      exact ⟨k', List.mem_cons_of_mem _ hk'⟩

theorem mem_of_shown (h : shown t = some (records, now)) : ∃ k, (k, Event.loaded records now) ∈ t := by
  induction t with
  | nil => cases h
  | cons e t ih =>
    obtain ⟨k, e⟩ := e
    cases e with
    | rendered =>
      obtain ⟨k', hk'⟩ := mem_of_lastLoad h
      exact ⟨k', List.mem_cons_of_mem _ hk'⟩
    | _ =>
      obtain ⟨k', hk'⟩ := ih h
      exact ⟨k', List.mem_cons_of_mem _ hk'⟩

theorem WipesAccounted.append (h : WipesAccounted t)
    (hwiped : .wiped ∈ es → ∃ links, (i, Event.confirmed links) ∈ t ∧ ∀ link ∈ links, Accounted i t link) :
    WipesAccounted (tag i es ++ t) := by
  intro j hj
  have hold : ∃ links, (j, Event.confirmed links) ∈ t ∧ ∀ link ∈ links, Accounted j t link := by
    rcases mem_tag_append hj with ⟨rfl, he⟩ | hj
    · exact hwiped he
    · exact h j hj
  obtain ⟨links, hconfirmed, haccounted⟩ := hold
  exact ⟨links, List.mem_append_right _ hconfirmed, fun link hlink ↦ (haccounted link hlink).append _⟩

/-- The clock does not go back. -/
theorem clock_append {now' : Int} (h : ∀ k records at_, (k, Event.loaded records at_) ∈ t → at_ ≤ now)
    (hnow : now ≤ now') (hes : ∀ records at_, .loaded records at_ ∈ es → at_ ≤ now') :
    ∀ k records at_, (k, Event.loaded records at_) ∈ tag i es ++ t → at_ ≤ now' := by
  intro k records at_ hk
  rcases mem_tag_append hk with ⟨-, he⟩ | hk
  · exact hes records at_ he
  · exact Int.le_trans (h k records at_ hk) hnow

/-- A link that is live later is live. -/
theorem mem_selected {otherDate : String → Option Int} {record : TrackedLink} {now' : Int} (hnow : now ≤ now')
    (hrecord : record ∈ records) (hlive : record.isLive otherDate now' = true) :
    record.ref ∈ selectLiveTrackedLinks otherDate records now := by
  refine List.mem_map.mpr ⟨record, List.mem_filter.mpr ⟨hrecord, ?_⟩, rfl⟩
  unfold TrackedLink.isLive at hlive ⊢
  obtain ⟨d, hd, hlt⟩ := (Option.any_eq_true _ _).mp hlive
  exact (Option.any_eq_true _ _).mpr ⟨d, hd, decide_eq_true (Int.lt_of_le_of_lt hnow (of_decide_eq_true hlt))⟩

end Trace

/-! ## Mobile -/

namespace Mobile

/-- What holds of the screen in every run. -/
structure Inv (otherDate : String → Option Int) (s : Screen) (t : Trace Event) : Prop where
  liveLinks : s.liveLinks = selected otherDate (lastLoad t)
  rendered : s.rendered = selected otherDate (shown t)
  clock : ∀ k records now, (k, Event.loaded records now) ∈ t → now ≤ s.now
  confirmed : ∀ i links, (i, Event.confirmed links) ∈ t →
    links = selected otherDate (shown (before (i, .confirmed links) t))
  shows : s.gate.Shows s.phase.failures? t
  wiped : WipesAccounted t

/-- What holds of a thread. -/
def Pc.Holds (i : Nat) (s : Screen) (t : Trace Event) : Pc → Prop
  | .ready _ => mine i t = []
  | .awaiting call => ∃ links, (i, Event.confirmed links) ∈ t ∧ call.Holds i s.gate t links
  | .listing | .listed _ | .ended => True

/-- What a step of thread `i` establishes. -/
structure Kept (otherDate : String → Option Int) (i : Nat) (s : Screen) (t : Trace Event) (pc' : Pc) (s' : Screen)
    (es : List Event) : Prop where
  inv : Inv otherDate s' (tag i es ++ t)
  own : pc'.Holds i s' (tag i es ++ t)
  moves : s.gate.Moves i es t s'.gate

section Step

variable {otherDate : String → Option Int} {i : Nat} {x : Input} {s s' : Screen} {t : Trace Event}
  {es : List Event} {pc pc' : Pc} {links : List WipeLinkRef}

theorem confirmed_append (h : ∀ j links, (j, Event.confirmed links) ∈ t →
      links = selected otherDate (shown (before (j, .confirmed links) t)))
    (hes : ∀ links, .confirmed links ∉ es) :
    ∀ j links, (j, Event.confirmed links) ∈ tag i es ++ t →
      links = selected otherDate (shown (before (j, .confirmed links) (tag i es ++ t))) := by
  intro j links hj
  have hnot : (j, Event.confirmed links) ∉ tag i es := fun hmem ↦ hes links (mem_of_mem_tag hmem)
  rw [before_append_of_not_mem hnot]
  exact h j links ((List.mem_append.mp hj).resolve_left hnot)

/-- A step of a run, or of others, that changes no list. -/
theorem Inv.step (h : Inv otherDate s t) (hes : ∀ e ∈ es, e.isRun = true) (hlive : s'.liveLinks = s.liveLinks)
    (hrendered : s'.rendered = s.rendered) (hnow : s.now ≤ s'.now)
    (hshows : s'.gate.Shows s'.phase.failures? (tag i es ++ t))
    (hwiped : .wiped ∈ es → ∃ links, (i, Event.confirmed links) ∈ t ∧ ∀ link ∈ links, Accounted i t link) :
    Inv otherDate s' (tag i es ++ t) := by
  have hloaded : ∀ records now, .loaded records now ∉ es := by
    intro records now hmem
    cases hes _ hmem
  have hconfirmed : ∀ links, .confirmed links ∉ es := by
    intro links hmem
    cases hes _ hmem
  constructor
  · rw [hlive, lastLoad_append hes]
    exact h.liveLinks
  · rw [hrendered, shown_append hes]
    exact h.rendered
  · exact clock_append h.clock hnow fun records now hmem ↦ absurd hmem (hloaded records now)
  · exact confirmed_append h.confirmed hconfirmed
  · exact hshows
  · exact h.wiped.append hwiped

/-- A step without events that changes no list. -/
theorem Inv.quiet (h : Inv otherDate s t) (hlive : s'.liveLinks = s.liveLinks)
    (hrendered : s'.rendered = s.rendered) (hnow : s.now ≤ s'.now)
    (hshows : s'.gate.Shows s'.phase.failures? t) : Inv otherDate s' t := by
  have hstep : Inv otherDate s' (tag 0 [] ++ t) :=
    h.step (by rintro e ⟨⟩) hlive hrendered hnow hshows (by rintro ⟨⟩)
  exact hstep

theorem shows_enter (i : Nat) (g : Gate) (call : Call) (t : Trace Event) :
    (call.gate i g).Shows (callPhase call).failures? (tag i [call.event] ++ t) := by
  cases call with
  | revoke | wipe => exact .nothing _ _
  | confirmProceedDespiteFailures p => exact .ask g i p.failures t

/-- A run that is in `t` makes a call. -/
theorem Inv.enter (h : Inv otherDate s t) (call : Call) (es : List Event) (hconfirmed : (i, Event.confirmed links) ∈ t)
    (hwiped : call.event = .wiped → ∀ link ∈ links, Accounted i t link) :
    Inv otherDate (enter i s call es).2.1 (tag i [call.event] ++ t) := by
  refine h.step ?_ rfl rfl (Int.le_refl _) (shows_enter i s.gate call t) fun hmem ↦ ?_
  · intro e he
    obtain rfl := List.mem_singleton.mp he
    exact call.isRun_event
  · exact ⟨links, hconfirmed, hwiped (List.mem_singleton.mp hmem).symm⟩

theorem kept_confirm (h : Inv otherDate s t) (hidle : mine i t = [])
    (hstep : Task.step .confirm i s = some (pc', s', es)) : Kept otherDate i s t pc' s' es := by
  simp only [Task.step] at hstep
  split at hstep
  · cases hstep
    have hinv : Inv otherDate s (tag i [.confirmed s.rendered] ++ t) := by
      constructor
      · exact h.liveLinks
      · exact h.rendered
      · exact clock_append h.clock (Int.le_refl _) (by simp)
      · intro j links hj
        rcases mem_tag_append hj with ⟨rfl, he⟩ | hold
        · cases List.mem_singleton.mp he
          rw [tag_cons, tag_nil, List.singleton_append, before_cons_self]
          exact h.rendered
        · have hne : j ≠ i := by
            rintro rfl
            have hmem : Event.confirmed links ∈ mine j t := mem_mine.mpr hold
            rw [hidle] at hmem
            cases hmem
          have hnot : (j, Event.confirmed links) ∉ tag i [.confirmed s.rendered] :=
            fun hmem ↦ hne (fst_of_mem_tag hmem)
          rw [before_append_of_not_mem hnot]
          exact h.confirmed j links hold
      · exact h.shows.append (by simp)
      · exact h.wiped.append (by simp)
    have hconfirmed : (i, Event.confirmed s.rendered) ∈ tag i [.confirmed s.rendered] ++ t :=
      List.mem_append_left _ List.mem_cons_self
    have hcovers := Pass.Covers.start i (tag i [.confirmed s.rendered] ++ t) s.rendered
    refine ⟨hinv.enter _ [] hconfirmed (Pass.call_wiped hcovers), ⟨s.rendered, ?_, Pass.call_holds hcovers⟩, ?_⟩
    · exact List.mem_cons_of_mem _ hconfirmed
    · exact .enter _ _
  · cases hstep

/-- A step that is not a run's, in which the user proceeds in no gate. -/
theorem Kept.quiet (h : Inv otherDate s t) (hlive : s'.liveLinks = s.liveLinks)
    (hrendered : s'.rendered = s.rendered) (hnow : s.now ≤ s'.now)
    (hshows : s'.gate.Shows s'.phase.failures? t) (hmoves : s.gate.Moves i [] t s'.gate)
    (hown : pc'.Holds i s' t) : Kept otherDate i s t pc' s' [] :=
  ⟨h.quiet hlive hrendered hnow hshows, hown, hmoves⟩

theorem kept_proceed (h : Inv otherDate s t) (hstep : Task.step .proceedDespiteFailures i s = some (pc', s', es)) :
    Kept otherDate i s t pc' s' es := by
  simp only [Task.step] at hstep
  split at hstep
  · rename_i failures hvisible _
    cases hstep
    have hphase : s.phase.failures? = some failures := by
      unfold Screen.visible? at hvisible
      split at hvisible
      · rw [Option.some.inj hvisible]
        rfl
      · cases hvisible
    have hshows : s.gate.Shows (some failures) t := hphase ▸ h.shows
    refine ⟨h.step ?_ rfl rfl (Int.le_refl _) (.of_resolverRef (Gate.resolverRef_settle _ _) _ _) ?_, trivial,
      .proceed hshows⟩
    · intro e he
      obtain ⟨run, rfl⟩ := eq_acknowledged he
      rfl
    · intro he
      obtain ⟨run, hrun⟩ := eq_acknowledged he
      cases hrun
  · cases hstep

theorem kept_task {task : Task} (h : Inv otherDate s t) (hidle : mine i t = [])
    (hstep : task.step i s = some (pc', s', es)) : Kept otherDate i s t pc' s' es := by
  have hsettled (proceed : Bool) (phase : WipePhase) : (s.gate.settle proceed).Shows phase.failures? t :=
    .of_resolverRef (Gate.resolverRef_settle _ _) _ _
  cases task with
  | openWipe =>
    cases hstep
    exact .quiet h rfl rfl (Int.le_refl _) (.nothing _ _) (.of_answers rfl) trivial
  | render =>
    cases hstep
    refine ⟨⟨h.liveLinks, h.liveLinks, ?_, ?_, h.shows.append (by simp), h.wiped.append (by simp)⟩, trivial,
      .of_answers rfl⟩
    · exact clock_append h.clock (Int.le_refl _) (by simp)
    · exact confirmed_append h.confirmed (by simp)
  | confirm => exact kept_confirm h hidle hstep
  | cancel =>
    simp only [Task.step] at hstep
    split at hstep
    · cases hstep
      exact .quiet h rfl rfl (Int.le_refl _) (.nothing _ _) (.of_answers rfl) trivial
    · cases hstep
      exact .quiet h rfl rfl (Int.le_refl _) (.nothing _ _) (.of_answers rfl) trivial
    · cases hstep
      exact .quiet h rfl rfl (Int.le_refl _) (hsettled _ _) (.decline _) trivial
    · cases hstep
      exact .quiet h rfl rfl (Int.le_refl _) (hsettled _ _) (.decline _) trivial
    · cases hstep
  | toggleAcknowledged =>
    simp only [Task.step] at hstep
    split at hstep
    · cases hstep
      exact .quiet h rfl rfl (Int.le_refl _) h.shows (.of_answers rfl) trivial
    · cases hstep
  | proceedDespiteFailures => exact kept_proceed h hstep
  | retry =>
    simp only [Task.step] at hstep
    split at hstep
    · cases hstep
      exact .quiet h rfl rfl (Int.le_refl _) (hsettled _ _) (.decline _) trivial
    · cases hstep
  | recordSentLink | deleteSentLink =>
    cases hstep
    exact .quiet h rfl rfl (Int.le_refl _) h.shows (.of_answers rfl) trivial
  | tick ms =>
    cases hstep
    exact .quiet h rfl rfl (Int.le_add_of_nonneg_right (Int.natCast_nonneg ms)) h.shows (.of_answers rfl) trivial

theorem kept_revoke {link : WipeLinkRef} {p : Pass} (h : Inv otherDate s t)
    (hconfirmed : (i, Event.confirmed links) ∈ t) (hcall : (Call.revoke link p).Holds i s.gate t links)
    (hstep : step otherDate i x (.awaiting (.revoke link p)) s = some (pc', s', es)) :
    Kept otherDate i s t pc' s' es := by
  cases hstep
  obtain ⟨hcovers, hattempted⟩ := hcall
  have hafter := hcovers.settle hattempted x.settled
  obtain ⟨hwiped, hasked⟩ := x.settled.event_ne link
  have hinv (records : List TrackedLink) :
      Inv otherDate { s with records := records } (tag i [x.settled.event link] ++ t) := by
    refine h.step ?_ rfl rfl (Int.le_refl _) (h.shows.append fun failures hmem ↦ ?_) fun hmem ↦ ?_
    · intro e he
      obtain rfl := List.mem_singleton.mp he
      exact x.settled.isRun_event link
    · exact absurd (List.mem_singleton.mp hmem).symm (hasked failures)
    · exact absurd (List.mem_singleton.mp hmem).symm hwiped
  have hconfirmed' : (i, Event.confirmed links) ∈ tag i [x.settled.event link] ++ t :=
    List.mem_append_right _ hconfirmed
  refine ⟨(hinv _).enter _ [x.settled.event link] hconfirmed' (Pass.call_wiped hafter), ⟨links, ?_, Pass.call_holds hafter⟩, ?_⟩
  · exact List.mem_cons_of_mem _ hconfirmed'
  · exact .enter _ _

theorem kept_confirmed {p : Pass} (h : Inv otherDate s t) (hconfirmed : (i, Event.confirmed links) ∈ t)
    (hcall : (Call.confirmProceedDespiteFailures p).Holds i s.gate t links)
    (hstep : step otherDate i x (.awaiting (.confirmProceedDespiteFailures p)) s = some (pc', s', es)) :
    Kept otherDate i s t pc' s' es := by
  obtain ⟨hcovers, -, hanswered⟩ := hcall
  simp only [step] at hstep
  split at hstep
  · cases hstep
  · rename_i hanswer
    cases hstep
    obtain ⟨j, hack⟩ := hanswered hanswer
    refine ⟨h.enter _ [] hconfirmed fun _ ↦ hcovers.acknowledged hack, ⟨links, ?_, trivial⟩, .enter _ _⟩
    exact List.mem_cons_of_mem _ hconfirmed
  · split at hstep
    · cases hstep
      have hretry := hcovers.retry
      have hinv : Inv otherDate { s with retryRef := false } t := h.quiet rfl rfl (Int.le_refl _) h.shows
      refine ⟨hinv.enter _ [] hconfirmed (Pass.call_wiped hretry), ⟨links, ?_, Pass.call_holds hretry⟩, .enter _ _⟩
      exact List.mem_cons_of_mem _ hconfirmed
    · cases hstep
      exact .quiet h rfl rfl (Int.le_refl _) (.nothing _ _) (.of_answers rfl) trivial

theorem step_kept (h : Inv otherDate s t) (hown : pc.Holds i s t)
    (hstep : step otherDate i x pc s = some (pc', s', es)) : Kept otherDate i s t pc' s' es := by
  cases pc with
  | ready task => exact kept_task h hown hstep
  | listing =>
    simp only [step] at hstep
    split at hstep
    · cases hstep
      refine ⟨⟨rfl, ?_, ?_, ?_, h.shows.append (by simp), h.wiped.append (by simp)⟩, trivial, .of_answers rfl⟩
      · exact h.rendered
      · exact clock_append h.clock (Int.le_refl _) (by simp)
      · exact confirmed_append h.confirmed (by simp)
    · cases hstep
      exact .quiet h rfl rfl (Int.le_refl _) h.shows (.of_answers rfl) trivial
  | listed records =>
    cases hstep
    refine ⟨⟨rfl, ?_, ?_, ?_, h.shows.append (by simp), h.wiped.append (by simp)⟩, trivial, .of_answers rfl⟩
    · exact h.rendered
    · exact clock_append h.clock (Int.le_refl _) (by simp)
    · exact confirmed_append h.confirmed (by simp)
  | awaiting call =>
    obtain ⟨links, hconfirmed, hcall⟩ := hown
    cases call with
    | revoke link p => exact kept_revoke h hconfirmed hcall hstep
    | confirmProceedDespiteFailures p => exact kept_confirmed h hconfirmed hcall hstep
    | wipe p =>
      cases hstep
      by_cases hfails : x.fails = true
      · rw [if_pos hfails]
        exact .quiet h rfl rfl (Int.le_refl _) h.shows (.of_answers rfl) trivial
      · rw [if_neg hfails]
        exact .quiet h rfl rfl (Int.le_refl _) (.nothing _ _) (.of_answers rfl) trivial
  | ended => cases hstep

theorem Kept.thread {j : Nat} {pc₂ : Pc} (h : Kept otherDate i s t pc' s' es) (hij : i ≠ j) (h₂ : pc₂.Holds j s t) :
    pc₂.Holds j s' (tag i es ++ t) := by
  cases pc₂ with
  | ready task => exact (mine_tag_append_of_ne hij es t).trans h₂
  | awaiting call =>
    obtain ⟨links, hconfirmed, hcall⟩ := h₂
    exact ⟨links, List.mem_append_right _ hconfirmed, hcall.frame hij h.moves⟩
  | listing | listed | ended => exact trivial

theorem keeps (otherDate : String → Option Int) : Program.Keeps (program otherDate) .always (Inv otherDate)
    fun i pc s t ↦ pc.Holds i s t where
  born := by
    intro i task s t _ hnone
    exact mine_eq_nil hnone
  own := by
    intro i x pc s t pc' s' es _ hinv hown hstep
    have hkept := step_kept hinv hown hstep
    exact ⟨hkept.inv, hkept.own⟩
  others := by
    intro i x pc s t pc' s' es j pc₂ hij _ hinv hown hstep h₂
    exact (step_kept hinv hown hstep).thread hij h₂

end Step

end Mobile

/-! ## Web -/

namespace Web

/-- A run has been given the live links that it has read. -/
def Given (otherDate : String → Option Int) (i : Nat) (t : Trace Event) (links : List WipeLinkRef) : Prop :=
  ∃ records now, (i, Event.loaded records now) ∈ t ∧ links = selectLiveTrackedLinks otherDate records now

/-- What holds of the screen in every run. -/
structure Inv (otherDate : String → Option Int) (s : Screen) (t : Trace Event) : Prop where
  clock : ∀ k records now, (k, Event.loaded records now) ∈ t → now ≤ s.now
  confirmed : ∀ i links, (i, Event.confirmed links) ∈ t → Given otherDate i t links
  shows : s.gate.Shows s.pendingFailures t
  wiped : WipesAccounted t

/-- What holds of a thread. -/
def Pc.Holds (i : Nat) (s : Screen) (t : Trace Event) : Pc → Prop
  | .awaiting call => ∃ links, (i, Event.confirmed links) ∈ t ∧ call.Holds i s.gate t links
  | .ready _ | .listing | .listed _ | .ended => True

/-- What a step of thread `i` establishes. -/
structure Kept (otherDate : String → Option Int) (i : Nat) (s : Screen) (t : Trace Event) (pc' : Pc) (s' : Screen)
    (es : List Event) : Prop where
  inv : Inv otherDate s' (tag i es ++ t)
  own : pc'.Holds i s' (tag i es ++ t)
  moves : s.gate.Moves i es t s'.gate

section Step

variable {otherDate : String → Option Int} {i : Nat} {x : Input} {s s' : Screen} {t : Trace Event}
  {es : List Event} {pc pc' : Pc} {links : List WipeLinkRef}

theorem Given.append (h : Given otherDate i t links) (t' : Trace Event) : Given otherDate i (t' ++ t) links := by
  obtain ⟨records, now, hloaded, hlinks⟩ := h
  exact ⟨records, now, List.mem_append_right _ hloaded, hlinks⟩

/-- A step of a run, or of others, that lists nothing. -/
theorem Inv.step (h : Inv otherDate s t) (hes : ∀ e ∈ es, e.isRun = true) (hnow : s.now ≤ s'.now)
    (hshows : s'.gate.Shows s'.pendingFailures (tag i es ++ t))
    (hwiped : .wiped ∈ es → ∃ links, (i, Event.confirmed links) ∈ t ∧ ∀ link ∈ links, Accounted i t link) :
    Inv otherDate s' (tag i es ++ t) := by
  constructor
  · refine clock_append h.clock hnow fun records now hmem ↦ ?_
    cases hes _ hmem
  · intro j links hj
    rcases mem_tag_append hj with ⟨-, he⟩ | hold
    · cases hes _ he
    · exact (h.confirmed j links hold).append _
  · exact hshows
  · exact h.wiped.append hwiped

theorem Kept.quiet (h : Inv otherDate s t) (hnow : s.now ≤ s'.now) (hshows : s'.gate.Shows s'.pendingFailures t)
    (hmoves : s.gate.Moves i [] t s'.gate) (hown : pc'.Holds i s' t) : Kept otherDate i s t pc' s' [] := by
  have hinv : Inv otherDate s' (tag i [] ++ t) := h.step (by rintro e ⟨⟩) hnow hshows (by rintro ⟨⟩)
  exact ⟨hinv, hown, hmoves⟩

theorem shows_enter {shown : Option (List RevokeFailure)} {g : Gate} (h : g.Shows shown t) (i : Nat) (call : Call) :
    (call.gate i g).Shows (callFailures shown call) (tag i [call.event] ++ t) := by
  cases call with
  | revoke | wipe => exact h.append (by simp [Call.event])
  | confirmProceedDespiteFailures p => exact .ask g i p.failures t

/-- A run that is in `t` makes a call. -/
theorem Inv.enter (h : Inv otherDate s t) (call : Call) (es : List Event) (hconfirmed : (i, Event.confirmed links) ∈ t)
    (hwiped : call.event = .wiped → ∀ link ∈ links, Accounted i t link) :
    Inv otherDate (enter i s call es).2.1 (tag i [call.event] ++ t) := by
  refine h.step ?_ (Int.le_refl _) (shows_enter h.shows i call) fun hmem ↦ ?_
  · intro e he
    obtain rfl := List.mem_singleton.mp he
    exact call.isRun_event
  · exact ⟨links, hconfirmed, hwiped (List.mem_singleton.mp hmem).symm⟩

theorem kept_task {task : Task} (h : Inv otherDate s t) (hstep : task.step s = some (pc', s', es)) :
    Kept otherDate i s t pc' s' es := by
  cases task with
  | start =>
    cases hstep
    exact .quiet h (Int.le_refl _) h.shows (.of_answers rfl) trivial
  | proceedAnyway =>
    simp only [Task.step] at hstep
    split at hstep
    · cases hstep
    · rename_i failures hpending
      cases hstep
      have hshows : s.gate.Shows (some failures) t := hpending ▸ h.shows
      refine ⟨h.step ?_ (Int.le_refl _) (.nothing _ _) ?_, trivial, .proceed hshows⟩
      · intro e he
        obtain ⟨run, rfl⟩ := eq_acknowledged he
        rfl
      · intro he
        obtain ⟨run, hrun⟩ := eq_acknowledged he
        cases hrun
  | cancelFailures =>
    simp only [Task.step] at hstep
    split at hstep
    · cases hstep
    · cases hstep
      exact .quiet h (Int.le_refl _) (.nothing _ _) (.decline _) trivial
  | recordSentLink | deleteSentLink =>
    cases hstep
    exact .quiet h (Int.le_refl _) h.shows (.of_answers rfl) trivial
  | tick ms =>
    cases hstep
    exact .quiet h (Int.le_add_of_nonneg_right (Int.natCast_nonneg ms)) h.shows (.of_answers rfl) trivial

theorem kept_listed {records : List TrackedLink} (h : Inv otherDate s t)
    (hstep : step otherDate i x (.listed records) s = some (pc', s', es)) : Kept otherDate i s t pc' s' es := by
  cases hstep
  let live := selectLiveTrackedLinks otherDate records s.now
  have hinv : Inv otherDate s (tag i [.confirmed live, .loaded records s.now] ++ t) := by
    constructor
    · exact clock_append h.clock (Int.le_refl _) (by simp)
    · intro j links hj
      rcases mem_tag_append hj with ⟨rfl, he⟩ | hold
      · obtain rfl : links = live := by simpa using he
        exact ⟨records, s.now, List.mem_cons_of_mem _ List.mem_cons_self, rfl⟩
      · exact (h.confirmed j links hold).append _
    · exact h.shows.append (by simp)
    · exact h.wiped.append (by simp)
  have hconfirmed : (i, Event.confirmed live) ∈ tag i [.confirmed live, .loaded records s.now] ++ t :=
    List.mem_append_left _ List.mem_cons_self
  have hcovers := Pass.Covers.start i (tag i [.confirmed live, .loaded records s.now] ++ t) live
  refine ⟨hinv.enter _ [] hconfirmed (Pass.call_wiped hcovers), ⟨live, ?_, Pass.call_holds hcovers⟩, .enter _ _⟩
  exact List.mem_cons_of_mem _ hconfirmed

theorem kept_revoke {link : WipeLinkRef} {p : Pass} (h : Inv otherDate s t)
    (hconfirmed : (i, Event.confirmed links) ∈ t) (hcall : (Call.revoke link p).Holds i s.gate t links)
    (hstep : step otherDate i x (.awaiting (.revoke link p)) s = some (pc', s', es)) :
    Kept otherDate i s t pc' s' es := by
  cases hstep
  obtain ⟨hcovers, hattempted⟩ := hcall
  have hafter := hcovers.settle hattempted x.settled
  obtain ⟨hwiped, hasked⟩ := x.settled.event_ne link
  have hinv : Inv otherDate s (tag i [x.settled.event link] ++ t) := by
    refine h.step ?_ (Int.le_refl _) (h.shows.append fun failures hmem ↦ ?_) fun hmem ↦ ?_
    · intro e he
      obtain rfl := List.mem_singleton.mp he
      exact x.settled.isRun_event link
    · exact absurd (List.mem_singleton.mp hmem).symm (hasked failures)
    · exact absurd (List.mem_singleton.mp hmem).symm hwiped
  have hconfirmed' : (i, Event.confirmed links) ∈ tag i [x.settled.event link] ++ t :=
    List.mem_append_right _ hconfirmed
  refine ⟨hinv.enter _ [x.settled.event link] hconfirmed' (Pass.call_wiped hafter),
    ⟨links, ?_, Pass.call_holds hafter⟩, .enter _ _⟩
  exact List.mem_cons_of_mem _ hconfirmed'

theorem step_kept (h : Inv otherDate s t) (hown : pc.Holds i s t)
    (hstep : step otherDate i x pc s = some (pc', s', es)) : Kept otherDate i s t pc' s' es := by
  cases pc with
  | ready task => exact kept_task h hstep
  | listing =>
    simp only [step] at hstep
    split at hstep
    · cases hstep
      exact .quiet h (Int.le_refl _) h.shows (.of_answers rfl) trivial
    · cases hstep
      exact .quiet h (Int.le_refl _) h.shows (.of_answers rfl) trivial
  | listed records => exact kept_listed h hstep
  | awaiting call =>
    obtain ⟨links, hconfirmed, hcall⟩ := hown
    cases call with
    | revoke link p => exact kept_revoke h hconfirmed hcall hstep
    | confirmProceedDespiteFailures p =>
      obtain ⟨hcovers, -, hanswered⟩ := hcall
      simp only [step] at hstep
      split at hstep
      · cases hstep
      · rename_i hanswer
        cases hstep
        obtain ⟨j, hack⟩ := hanswered hanswer
        refine ⟨h.enter _ [] hconfirmed fun _ ↦ hcovers.acknowledged hack, ⟨links, ?_, trivial⟩, .enter _ _⟩
        exact List.mem_cons_of_mem _ hconfirmed
      · cases hstep
        exact .quiet h (Int.le_refl _) h.shows (.of_answers rfl) trivial
    | wipe p =>
      cases hstep
      exact .quiet h (Int.le_refl _) h.shows (.of_answers rfl) trivial
  | ended => cases hstep

theorem keeps (otherDate : String → Option Int) : Program.Keeps (program otherDate) .always (Inv otherDate)
    fun i pc s t ↦ pc.Holds i s t where
  born := by
    intro i task s t _ _
    exact trivial
  own := by
    intro i x pc s t pc' s' es _ hinv hown hstep
    have hkept := step_kept hinv hown hstep
    exact ⟨hkept.inv, hkept.own⟩
  others := by
    intro i x pc s t pc' s' es j pc₂ hij _ hinv hown hstep h₂
    cases pc₂ with
    | awaiting call =>
      obtain ⟨links, hconfirmed, hcall⟩ := h₂
      exact ⟨links, List.mem_append_right _ hconfirmed, hcall.frame hij (step_kept hinv hown hstep).moves⟩
    | ready | listing | listed | ended => exact trivial

end Step

end Web

/-! ## The result -/

section Result

variable {i : Nat} {t : Trace Event} {link : WipeLinkRef}

/-- What has happened before the wipe. -/
theorem mem_of_mem_wiped {j : Nat} {e : Event} (hne : e ≠ .wiped) (hmem : (j, e) ∈ (i, Event.wiped) :: t) :
    (j, e) ∈ t := by
  refine List.mem_of_ne_of_mem (fun heq ↦ hne ?_) hmem
  exact (Prod.mk.inj heq).2

theorem Accounted.of_cons (h : Accounted i ((i, .wiped) :: t) link) : Accounted i t link := by
  obtain ⟨hattempted, hrevoked | ⟨j, failures, hack, hlink⟩⟩ := h
  · exact ⟨mem_of_mem_wiped (by simp) hattempted, .inl (mem_of_mem_wiped (by simp) hrevoked)⟩
  · exact ⟨mem_of_mem_wiped (by simp) hattempted, .inr ⟨j, failures, mem_of_mem_wiped (by simp) hack, hlink⟩⟩

end Result

/-- When a screen starts to wipe the identity, every link that is live, and was in the list that the run
was given, had a revoke attempted by the run, which succeeded unless the user has acknowledged that it
failed.  On mobile the list is the one that the confirm button was rendered with, if it could be read;
on web it is the one that the run has read itself. -/
theorem wipe_accounts (otherDate : String → Option Int) (records₀ : List TrackedLink) (now₀ : Int) :
    (∀ c, (Mobile.program otherDate).Reachable .always (Mobile.Screen.initial records₀ now₀) c →
      ∀ i t, c.trace = (i, .wiped) :: t → ∃ links, (i, .confirmed links) ∈ t ∧
        ∀ records now, shown (before (i, .confirmed links) t) = some (records, now) →
          ∀ record ∈ records, record.isLive otherDate c.shared.now = true → Accounted i t record.ref) ∧
    (∀ c, (Web.program otherDate).Reachable .always (Web.Screen.initial records₀ now₀) c →
      ∀ i t, c.trace = (i, .wiped) :: t → ∃ records now, (i, .loaded records now) ∈ t ∧
        ∀ record ∈ records, record.isLive otherDate c.shared.now = true → Accounted i t record.ref) := by
  constructor
  · intro c hc i t htrace
    have hinit : Mobile.Inv otherDate (Mobile.Screen.initial records₀ now₀) [] :=
      ⟨rfl, rfl, by rintro k records now ⟨⟩, by rintro i links ⟨⟩, .nothing _ _, by rintro i ⟨⟩⟩
    obtain ⟨-, -, hclock, hconfirmed, -, hwiped⟩ := (Program.invariant (Mobile.keeps otherDate) hinit hc).shared
    rw [htrace] at hclock hconfirmed hwiped
    obtain ⟨links, hlinks, haccounted⟩ := hwiped i List.mem_cons_self
    refine ⟨links, mem_of_mem_wiped (by simp) hlinks, fun records now hshown record hrecord hlive ↦ ?_⟩
    have hselected := hconfirmed i links hlinks
    rw [before_cons_of_ne (by simp), hshown] at hselected
    obtain ⟨k, hk⟩ := mem_of_shown hshown
    have hnow : now ≤ c.shared.now := hclock k records now (List.mem_cons_of_mem _ (mem_of_mem_before hk))
    refine (haccounted _ ?_).of_cons
    rw [hselected]
    exact mem_selected hnow hrecord hlive
  · intro c hc i t htrace
    have hinit : Web.Inv otherDate (Web.Screen.initial records₀ now₀) [] :=
      ⟨by rintro k records now ⟨⟩, by rintro i links ⟨⟩, .nothing _ _, by rintro i ⟨⟩⟩
    obtain ⟨hclock, hconfirmed, -, hwiped⟩ := (Program.invariant (Web.keeps otherDate) hinit hc).shared
    rw [htrace] at hclock hconfirmed hwiped
    obtain ⟨links, hlinks, haccounted⟩ := hwiped i List.mem_cons_self
    obtain ⟨records, now, hloaded, rfl⟩ := hconfirmed i links hlinks
    refine ⟨records, now, mem_of_mem_wiped (by simp) hloaded, fun record hrecord hlive ↦ ?_⟩
    exact (haccounted _ (mem_selected (hclock i records now hloaded) hrecord hlive)).of_cons

/-! ## Runs on mobile -/

def sampleRecords : List TrackedLink :=
  [⟨"a", none, "2030-01-01T00:00:00.000Z"⟩, ⟨"b", none, "2030-01-01T00:00:00.000Z"⟩]

def resolves : Input := ⟨false, .resolved⟩

/-- The access to the store rejects, and so does a revoke, offline. -/
def rejects : Input := ⟨true, .rejected none⟩

/-- One link is revoked, and the user acknowledges that the other is not. -/
def acknowledgedWipe : List (Action Mobile.Task Input) :=
  [.spawn .openWipe, .run 0 resolves, .run 0 resolves, .run 0 resolves, .spawn .render, .run 1 resolves,
    .spawn .confirm, .run 2 resolves, .run 2 resolves, .run 2 rejects, .spawn .toggleAcknowledged, .run 3 resolves,
    .spawn .proceedDespiteFailures, .run 4 resolves, .run 2 resolves]

def acknowledgedTrace : Trace Event :=
  [(4, .acknowledged 2 [⟨⟨"b", none⟩, none⟩]), (2, .asked [⟨⟨"b", none⟩, none⟩]), (2, .failed ⟨"b", none⟩),
    (2, .attempted ⟨"b", none⟩), (2, .revoked ⟨"a", none⟩), (2, .attempted ⟨"a", none⟩),
    (2, .confirmed [⟨"a", none⟩, ⟨"b", none⟩]), (1, .rendered), (0, .loaded sampleRecords 0)]

theorem wipe_accounts_acknowledged : ∃ c, (Mobile.program fun _ ↦ none).exec .always
    (Program.start (Mobile.Screen.initial sampleRecords 0)) acknowledgedWipe = some c ∧
      c.trace = (2, .wiped) :: acknowledgedTrace ∧
      ∀ record ∈ sampleRecords, Accounted 2 acknowledgedTrace record.ref := by
  have hrun : ((Mobile.program fun _ ↦ none).exec .always (Program.start (Mobile.Screen.initial sampleRecords 0))
      acknowledgedWipe).map (fun c ↦ (c.trace, c.shared.now)) =
        some ((2, .wiped) :: acknowledgedTrace, 0) := by decide +kernel
  obtain ⟨c, hc, hv⟩ := Option.map_eq_some_iff.mp hrun
  obtain ⟨htrace, hnow⟩ := Prod.mk.inj hv
  obtain ⟨links, hlinks, haccounted⟩ := (wipe_accounts (fun _ ↦ none) sampleRecords 0).1 c
    (Program.runs_of_exec hc) 2 acknowledgedTrace htrace
  obtain rfl : links = [⟨"a", none⟩, ⟨"b", none⟩] := by simpa [acknowledgedTrace] using hlinks
  have hshown : shown (before (2, .confirmed [⟨"a", none⟩, ⟨"b", none⟩]) acknowledgedTrace) =
      some (sampleRecords, 0) := by decide +kernel
  have hlive : ∀ record ∈ sampleRecords, record.isLive (fun _ ↦ none) 0 = true := by decide +kernel
  refine ⟨c, hc, htrace, fun record hrecord ↦ haccounted sampleRecords 0 hshown record hrecord ?_⟩
  rw [hnow]
  exact hlive record hrecord

/-- The list cannot be read, and the wipe goes on. -/
def unreadWipe : List (Action Mobile.Task Input) :=
  [.spawn .openWipe, .run 0 resolves, .run 0 rejects, .spawn .confirm, .run 1 resolves]

/-- When the list cannot be read, the wipe leaves links that no revoke has been attempted for. -/
theorem unread_strands : ¬∀ c, (Mobile.program fun _ ↦ none).Reachable .always
    (Mobile.Screen.initial sampleRecords 0) c → ∀ i t, c.trace = (i, .wiped) :: t →
      ∀ record ∈ c.shared.records, record.isLive (fun _ ↦ none) c.shared.now = true →
        ∃ j, (j, Event.attempted record.ref) ∈ t := by
  intro h
  have hrun : ((Mobile.program fun _ ↦ none).exec .always (Program.start (Mobile.Screen.initial sampleRecords 0))
      unreadWipe).map (fun c ↦ (c.trace, c.shared.records, c.shared.now)) =
        some ([(1, .wiped), (1, .confirmed []), (0, .unloaded)], sampleRecords, 0) := by decide +kernel
  obtain ⟨c, hc, hv⟩ := Option.map_eq_some_iff.mp hrun
  obtain ⟨htrace, hrest⟩ := Prod.mk.inj hv
  obtain ⟨hrecords, hnow⟩ := Prod.mk.inj hrest
  have hlive : (⟨"a", none, "2030-01-01T00:00:00.000Z"⟩ : TrackedLink).isLive (fun _ ↦ none) 0 = true := by
    decide +kernel
  obtain ⟨j, hj⟩ := h c (Program.runs_of_exec hc) 1 _ htrace _ (hrecords ▸ List.mem_cons_self) (hnow ▸ hlive)
  simp at hj

end Aesmsg.Settings
