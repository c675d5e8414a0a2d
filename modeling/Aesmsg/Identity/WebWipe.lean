import Aesmsg.Identity.WebKeys

/-!
# A wipe on the web, on disk

`rotate` compares epochs before it reads the retired entries, and not again before its transaction;
the epoch is that of its own tab.

## Main results

- `wipe_lasting`: what a wipe has erased stays erased where every transaction of a rotation finds
  a stored identity.
- `rotation_undoes_wipe`: a rotation that does not puts an identity on the wiped disk.
-/

namespace Aesmsg.Identity.Web

open Threads

variable {C : IdentityCrypto}

def Db.Lacks (db : Db C) : Item → Prop
  | .identity => db.identity = none
  | .retired => db.retired = none

/-- `setupNew` or `importIdentity` has put an identity since thread `j` called `wipe` on its tab. -/
def CreatedSinceWipe (j tab : Nat) (t : Trace (Event C)) : Prop :=
  ∃ i record, (i, .committed .create record) ∈ since (j, .called ⟨tab, .wipe⟩) t

/-- When a wipe has resolved, and until an identity is created, both stores are empty. -/
def WipesLast (c : Config (Thread C) (State C) (Event C)) : Prop :=
  ∀ j tab, (j, .called ⟨tab, .wipe⟩) ∈ c.trace → (j, .resolved .wipe) ∈ c.trace →
    ¬CreatedSinceWipe j tab c.trace → c.shared.db.identity = none ∧ c.shared.db.retired = none

/-- `rotate` commits only where an identity is stored. -/
def RotatesOverIdentity (C : IdentityCrypto) :
    Program.Guard (Input C) (Thread C) (State C) (Event C) :=
  fun _ x thread s _ ↦
    match thread.pc with
    | .priorLoaded .. => x.rejects = none → s.db.identity ≠ none
    | _ => True

instance (i : Nat) (x : Input C) (thread : Thread C) (s : State C) (t : Trace (Event C)) :
    Decidable (RotatesOverIdentity C i x thread s t) :=
  match thread with
  | ⟨_, .priorLoaded ..⟩ => inferInstanceAs (Decidable (x.rejects = none → ¬s.db.identity = none))
  | ⟨_, .start _⟩ | ⟨_, .mounted _⟩ | ⟨_, .generateIdentity _⟩ | ⟨_, .wrapIdentity ..⟩
  | ⟨_, .saved ..⟩ | ⟨_, .unlockLoaded ..⟩ | ⟨_, .unwrapActive ..⟩ | ⟨_, .backgroundLoaded ..⟩
  | ⟨_, .background ..⟩ | ⟨_, .rotateLoaded ..⟩ | ⟨_, .reverify _⟩ | ⟨_, .fingerprintOld _⟩
  | ⟨_, .generateNew ..⟩ | ⟨_, .wrapNew ..⟩ | ⟨_, .committed ..⟩ | ⟨_, .deletedIdentity⟩
  | ⟨_, .clearedRetired⟩ | ⟨_, .done⟩ => isTrue trivial

/-- What a wipe has erased when it is at a point. -/
def Pc.erased : Pc C → List Item
  | .deletedIdentity => [.identity]
  | .clearedRetired => [.identity, .retired]
  | _ => []

/-- What the wipe of thread `j` has erased. -/
def erasedBy (j : Nat) (pc : Pc C) (t : Trace (Event C)) : List Item :=
  if (j, .resolved .wipe) ∈ t then [.identity, .retired] else pc.erased

/-- What a wipe has erased is not in the database unless an identity has been created since. -/
structure Erasing (j : Nat) (thread : Thread C) (s : State C) (t : Trace (Event C)) : Prop where
  lacks : ∀ tab, ¬CreatedSinceWipe j tab t → ∀ item ∈ erasedBy j thread.pc t, s.db.Lacks item
  resolved : (j, .resolved .wipe) ∈ t → thread.pc = .done
  saved : ∀ operation id, thread.pc = .saved operation id → operation ≠ .wipe

/-- The identity is erased first, then the retired keys. -/
theorem identity_mem_erasedBy {j : Nat} {pc : Pc C} {t : Trace (Event C)} {item : Item}
    (h : item ∈ erasedBy j pc t) : .identity ∈ erasedBy j pc t := by
  unfold erasedBy at h ⊢
  split
  · exact List.mem_cons_self
  · rename_i hresolved
    rw [if_neg hresolved] at h
    cases pc with
    | deletedIdentity | clearedRetired => exact List.mem_cons_self
    | _ => cases h

variable {x : Input C} {tab : Nat} {pc pc' : Pc C} {s s' : State C} {es : List (Event C)}
  {t : Trace (Event C)} {i j : Nat}

theorem CreatedSinceWipe.append (h : CreatedSinceWipe j tab t)
    (hcall : (j, .called ⟨tab, .wipe⟩) ∉ tag i es) : CreatedSinceWipe j tab (tag i es ++ t) := by
  obtain ⟨k, record, hmem⟩ := h
  refine ⟨k, record, ?_⟩
  rw [since_append_of_not_mem hcall]
  exact List.mem_append_right _ hmem

/-- A step that meets the condition creates an identity, or leaves out of the database what is not in
it, when the identity is not. -/
theorem lacks_of_act (hact : Act x tab pc s pc' s' es) (hok : RotatesOverIdentity C i x ⟨tab, pc⟩ s t)
    (hidentity : s.db.Lacks .identity) {item : Item} (hitem : s.db.Lacks item) :
    s'.db.Lacks item ∨ ∃ record, .committed .create record ∈ es := by
  cases hact with
  | importIdentity | setupNew => exact .inr ⟨_, List.mem_cons_self⟩
  | rotate _ _ _ _ _ _ succeeds => exact absurd hidentity (hok succeeds)
  | wipe =>
    cases item with
    | identity => exact .inl rfl
    | retired => exact .inl hitem
  | clearRetired =>
    cases item with
    | identity => exact .inl hitem
    | retired => exact .inl rfl
  | begins | passes | ends | mounted | saved | absent | wrongPassphrase | unlocked | retired | rotated
  | lock | wipeRejected | wiped => exact .inl hitem

theorem backgroundFrom_erased (m : Tab C) (epoch : Nat) (passphrase : String)
    (entries : List (RetiredKeyEntry C.WrappedKey)) :
    (backgroundFrom m epoch passphrase entries).erased = [] := by
  rcases backgroundFrom_cases m epoch passphrase entries with ⟨h, -⟩ | ⟨_, _, -, -, h⟩ <;>
    rw [h] <;> rfl

theorem backgroundFrom_ne_saved (m : Tab C) (epoch : Nat) (passphrase : String)
    (entries : List (RetiredKeyEntry C.WrappedKey)) (operation : Operation C)
    (id : C.IdentityKeypair) : backgroundFrom m epoch passphrase entries ≠ .saved operation id := by
  rcases backgroundFrom_cases m epoch passphrase entries with ⟨h, -⟩ | ⟨_, _, -, -, h⟩ <;>
    rw [h] <;> nofun

/-- What a wipe counts as erased after a step the database lacks, or the wipe had erased it before. -/
theorem erased_of_act (hact : Act x tab pc s pc' s' es)
    (hsaved : ∀ operation id, pc = .saved operation id → operation ≠ .wipe) {item : Item}
    (hitem : item ∈ pc'.erased ∨ .resolved .wipe ∈ es ∧ item ∈ [.identity, .retired]) :
    s'.db.Lacks item ∨ item ∈ pc.erased ∧ (s.db.Lacks item → s'.db.Lacks item) ∧
      ∀ request, .called request ∉ es := by
  cases hact with
  | begins begins => cases begins <;> simp [Pc.erased] at hitem
  | passes passes =>
    cases passes with
    | backgroundLoaded | skip => simp [backgroundFrom_erased] at hitem
    | generateIdentity | unlockLoaded | rotateLoaded | reverify | fingerprintOld | generateNew
    | wrapNew => simp [Pc.erased] at hitem
  | ends ends =>
    rcases hitem with hitem | ⟨hitem, -⟩
    · cases hitem
    · exact (ends.quiet _ hitem).elim
  | retired => simp [backgroundFrom_erased] at hitem
  | saved operation id =>
    rcases hitem with hitem | ⟨hitem, -⟩
    · cases hitem
    · have hwipe : operation = .wipe := by simpa [eq_comm] using hitem
      exact absurd hwipe (hsaved operation id rfl)
  | wipe =>
    have hidentity : item = .identity := by simpa [Pc.erased] using hitem
    subst hidentity
    exact .inl rfl
  | clearRetired =>
    cases item with
    | identity => exact .inr ⟨List.mem_cons_self, id, by simp⟩
    | retired => exact .inl rfl
  | wiped =>
    have hboth : item ∈ [.identity, .retired] := by simpa [Pc.erased] using hitem
    exact .inr ⟨hboth, id, by simp⟩
  | mounted | importIdentity | setupNew | absent | wrongPassphrase | unlocked | rotate
  | rotated | lock | wipeRejected => simp [Pc.erased] at hitem

/-- Only creating operations are awaited as saved. -/
theorem saved_of_act (hact : Act x tab pc s pc' s' es) (operation : Operation C)
    (id : C.IdentityKeypair) (h : pc' = .saved operation id) : operation ≠ .wipe := by
  cases hact with
  | begins begins => cases begins <;> cases h
  | passes passes =>
    cases passes with
    | backgroundLoaded | skip => exact absurd h (backgroundFrom_ne_saved _ _ _ _ _ _)
    | generateIdentity | unlockLoaded | rotateLoaded | reverify | fingerprintOld | generateNew
    | wrapNew => cases h
  | retired => exact absurd h (backgroundFrom_ne_saved _ _ _ _ _ _)
  | importIdentity | setupNew =>
    cases h
    nofun
  | ends | mounted | saved | absent | wrongPassphrase | unlocked | rotate | rotated | lock | wipe
  | wipeRejected | clearRetired | wiped => cases h

/-- A wipe that has resolved is done. -/
theorem done_of_act (hact : Act x tab pc s pc' s' es)
    (hsaved : ∀ operation id, pc = .saved operation id → operation ≠ .wipe)
    (h : .resolved .wipe ∈ es) : pc' = .done := by
  cases hact with
  | ends ends => exact (ends.quiet _ h).elim
  | saved | wiped => rfl
  | begins | passes | mounted | importIdentity | setupNew | absent | wrongPassphrase | unlocked
  | retired | rotate | rotated | lock | wipe | wipeRejected | clearRetired => simp at h

theorem keeps_erasing (C : IdentityCrypto) : Program.Keeps (program C) (RotatesOverIdentity C)
    (fun _ _ ↦ True) Erasing where
  born i request s t _ hnew := by
    have hresolved : (i, .resolved .wipe) ∉ t := fun h ↦ hnew _ h rfl
    refine ⟨?_, fun h ↦ absurd h hresolved, nofun⟩
    intro _ _ item hitem
    rw [erasedBy, if_neg hresolved] at hitem
    cases hitem
  others := by
    intro i x thread s t thread' s' es j q hij hok _ _ hstep hq
    obtain ⟨-, hact⟩ := program_act hstep
    have hother : ∀ e : Event C, (j, e) ∉ tag i es := fun e he ↦ hij (fst_of_mem_tag he).symm
    have hresolved : (j, .resolved .wipe) ∈ tag i es ++ t ↔ (j, .resolved .wipe) ∈ t := by
      rw [List.mem_append]
      exact or_iff_right (hother _)
    have herased : erasedBy j q.pc (tag i es ++ t) = erasedBy j q.pc t := by
      unfold erasedBy
      simp only [hresolved]
    refine ⟨?_, fun h ↦ hq.resolved (hresolved.mp h), hq.saved⟩
    intro tab hcreated item hitem
    rw [herased] at hitem
    have hold : ¬CreatedSinceWipe j tab t := fun h ↦ hcreated (h.append (hother _))
    rcases lacks_of_act hact hok (hq.lacks tab hold _ (identity_mem_erasedBy hitem))
        (hq.lacks tab hold _ hitem) with hlacks | ⟨record, hrecord⟩
    · exact hlacks
    · refine absurd ⟨i, record, ?_⟩ hcreated
      rw [since_append_of_not_mem (hother _)]
      exact List.mem_append_left _ (List.mem_map_of_mem hrecord)
  own := by
    intro i x thread s t thread' s' es hok _ hthread hstep
    obtain ⟨-, hact⟩ := program_act hstep
    refine ⟨trivial, ?_⟩
    have hresolved : (i, .resolved .wipe) ∉ t := by
      intro hresolved
      exact hact.ne_done (hthread.resolved hresolved)
    have hlacks : ∀ tab, ¬CreatedSinceWipe i tab t → ∀ item ∈ thread.pc.erased, s.db.Lacks item := by
      have h := hthread.lacks
      rwa [erasedBy, if_neg hresolved] at h
    have hnew : (i, .resolved .wipe) ∈ tag i es ++ t → (i, .resolved .wipe) ∈ tag i es := fun h ↦
      (List.mem_append.mp h).resolve_right hresolved
    refine ⟨?_, ?_, saved_of_act hact⟩
    · intro tab hcreated item hitem
      have hcases : item ∈ thread'.pc.erased ∨ .resolved .wipe ∈ es ∧ item ∈ [.identity, .retired] := by
        unfold erasedBy at hitem
        split at hitem
        · rename_i hmem
          exact .inr ⟨mem_of_mem_tag (hnew hmem), hitem⟩
        · exact .inl hitem
      rcases erased_of_act hact hthread.saved hcases with h | ⟨hmem, hkeeps, hcall⟩
      · exact h
      · refine hkeeps (hlacks tab (fun h ↦ hcreated (h.append fun hmem ↦ ?_)) item hmem)
        exact hcall _ (mem_of_mem_tag hmem)
    · intro h
      exact done_of_act hact hthread.saved (mem_of_mem_tag (hnew h))

/-- Where every transaction of a rotation finds a stored identity, a wipe is irreversible. -/
theorem wipe_lasting (C : IdentityCrypto) (s₀ : State C)
    {c : Config (Thread C) (State C) (Event C)}
    (hc : (program C).Reachable (RotatesOverIdentity C) s₀ c) : WipesLast c := by
  intro j tab _ hresolved hcreated
  have hI := Program.invariant (keeps_erasing C) trivial hc
  obtain ⟨thread, hthread⟩ : ∃ thread, c.threads[j]? = some thread :=
    ⟨_, List.getElem?_eq_getElem (hI.actors _ hresolved)⟩
  have hlacks := (hI.thread j thread hthread).lacks tab hcreated
  rw [erasedBy, if_pos hresolved] at hlacks
  exact ⟨hlacks .identity (by simp), hlacks .retired (by simp)⟩

/-- In one tab a `setupNew` and a `rotate` up to its transaction, and a `wipe`; the transaction is
requested before the `wipe`, or after it. -/
def wipeDuringRotate (first : Bool) :
    List (Action (Request (.transparent false)) (Input (.transparent false))) :=
  .spawn ⟨0, .setupNew "p"⟩ :: List.replicate 4 (.run 0 (draw "a" false)) ++
    .spawn ⟨0, .rotate "p"⟩ :: List.replicate 6 (.run 1 (draw "b" false)) ++
    (if first then [.run 1 (draw "b" false)] else []) ++
    .spawn ⟨0, .wipe⟩ :: List.replicate 3 (.run 2 (draw "" false)) ++
    (if first then [] else [.run 1 (draw "b" false)])

theorem wipe_lasting_sample :
    ∃ c, (program (.transparent false)).exec (RotatesOverIdentity _)
      (Program.start (.initial .empty)) (wipeDuringRotate true) = some c ∧ WipesLast c ∧
        (1, .committed .rotate ⟨"b", "b", "p"⟩) ∈ c.trace ∧ (2, .resolved .wipe) ∈ c.trace := by
  have hrun : ((program (.transparent false)).exec (RotatesOverIdentity _)
      (Program.start (.initial .empty)) (wipeDuringRotate true)).map (fun c ↦
        decide ((1, .committed .rotate ⟨"b", "b", "p"⟩) ∈ c.trace ∧
          (2, .resolved .wipe) ∈ c.trace)) = some true := rfl
  obtain ⟨c, hc, hv⟩ := Option.map_eq_some_iff.mp hrun
  exact ⟨c, hc, wipe_lasting _ _ (Program.runs_of_exec hc), of_decide_eq_true hv⟩

/-- A rotation that has read the retired entries when the wipe runs commits after it. -/
theorem rotation_undoes_wipe : ¬∀ (C : IdentityCrypto) (s₀ : State C)
    (c : Config (Thread C) (State C) (Event C)),
      (program C).Reachable .always s₀ c → WipesLast c := by
  intro h
  have hrun : ((program (.transparent false)).exec .always
      (Program.start (.initial .empty)) (wipeDuringRotate false)).map (fun c ↦
        (decide ((2, .called ⟨0, .wipe⟩) ∈ c.trace ∧ (2, .resolved .wipe) ∈ c.trace),
          since (2, .called ⟨0, .wipe⟩) c.trace, c.shared.db.identity)) =
      some (true, [(1, .committed .rotate ⟨"b", "b", "p"⟩), (2, .resolved .wipe), (2, .erased .retired),
        (2, .erased .identity)], some ⟨"b", "b", "p"⟩) := rfl
  obtain ⟨c, hc, hv⟩ := Option.map_eq_some_iff.mp hrun
  obtain ⟨hmem, hv⟩ := Prod.mk.inj hv
  obtain ⟨hsince, hidentity⟩ := Prod.mk.inj hv
  obtain ⟨hcalled, hresolved⟩ := of_decide_eq_true hmem
  obtain ⟨hnone, -⟩ := h _ _ c (Program.runs_of_exec hc) 2 0 hcalled hresolved (by
    rintro ⟨i, record, hrecord⟩
    rw [hsince] at hrecord
    simp at hrecord)
  rw [hidentity] at hnone
  cases hnone

end Aesmsg.Identity.Web
