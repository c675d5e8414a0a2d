import Aesmsg.Lib.Machine

/-!
# A value and its copy in a store

A holder shows a value: a default until it has loaded the copy that a store has, then what it loaded, and
after an update what the update made of it.  Each update saves a copy of the whole value.  A load reads
the store at one moment and is shown at a later one; a save reaches the store at some later moment, ends
half written or fails.  The holder can start anew at any moment, with or without the saves under way.

## Main results

- `Run.snapshot`: what is loaded was shown as a whole before, whatever becomes of the saves.
- `Run.kept`: where the saves reach the store in their order, it has what is shown as soon as a save has
  reached it and none is under way.
- `reconciled`: one update whose save is written brings the store up to date again.
-/

/-- `copy` is what a save made at a time writes, `load` what a load makes of it. -/
structure Persisted (τ ρ β : Type) where
  defaults : ρ
  copy : τ → ρ → β
  load : β → ρ

namespace Persisted

inductive Stored (β : Type) where
  | absent
  | unreadable
  | copy (b : β)

inductive Loading (ρ : Type) where
  | waiting
  | found (value : ρ)
  | finished

structure State (ρ β : Type) where
  stored : Stored β
  shown : ρ
  loading : Loading ρ
  /-- The saves under way, the oldest first. -/
  saves : List β

inductive Action (τ ρ : Type) where
  | start (keepsSaves : Bool)
  | read (fails : Bool)
  | show
  | update (f : ρ → ρ) (now : τ)
  | write (i : Nat)
  | fail (i : Nat)
  /-- A save ends half written. -/
  | tear (i : Nat)
  | clear

inductive Event (τ ρ : Type) where
  | started
  | loaded (value : ρ)
  | updated (value : ρ) (now : τ)
  | written
  /-- A load that cannot read the store, or a save. -/
  | failed
  | cleared

variable {τ ρ β : Type} (P : Persisted τ ρ β)

/-- What a load finds. -/
def read : Stored β → ρ
  | .absent | .unreadable => P.defaults
  | .copy b => P.load b

def step (s : State ρ β) : Action τ ρ → Option (State ρ β × List (Event τ ρ))
  | .start keepsSaves =>
    some (⟨s.stored, P.defaults, .waiting, if keepsSaves then s.saves else []⟩, [.started])
  | .read fails =>
    match s.loading with
    | .waiting =>
      if fails then some ({ s with loading := .found P.defaults }, [.failed])
      else some ({ s with loading := .found (P.read s.stored) }, [])
    | .found _ | .finished => none
  | .show =>
    match s.loading with
    | .found value => some ({ s with shown := value, loading := .finished }, [.loaded value])
    | .waiting | .finished => none
  | .update f now =>
    some ({ s with shown := f s.shown, saves := s.saves ++ [P.copy now (f s.shown)] },
      [.updated (f s.shown) now])
  | .write i => s.saves[i]?.map fun b ↦
    ({ s with stored := .copy b, saves := s.saves.eraseIdx i }, [.written])
  | .fail i => s.saves[i]?.map fun _ ↦ ({ s with saves := s.saves.eraseIdx i }, [.failed])
  | .tear i => s.saves[i]?.map fun _ ↦
    ({ s with stored := .unreadable, saves := s.saves.eraseIdx i }, [.failed])
  | .clear => some ({ s with stored := .absent }, [.cleared])

def machine (first : Stored β) : Machine (State ρ β) (Action τ ρ) (Event τ ρ) :=
  ⟨⟨first, P.defaults, .waiting, []⟩, P.step⟩

/-! ## Snapshots -/

/-- The value is the default, the first copy, or a copy of a value that was shown. -/
def Known (first : Stored β) (t : List (Event τ ρ)) (value : ρ) : Prop :=
  value = P.defaults ∨ (∃ b, first = .copy b ∧ value = P.load b) ∨
    ∃ v now, .updated v now ∈ t ∧ value = P.load (P.copy now v)

structure Copies (first : Stored β) (s : State ρ β) (t : List (Event τ ρ)) : Prop where
  stored : P.Known first t (P.read s.stored)
  saves : ∀ b ∈ s.saves, ∃ v now, .updated v now ∈ t ∧ b = P.copy now v
  found : ∀ value, s.loading = .found value → P.Known first t value
  loaded : Machine.Past (fun e before ↦ ∀ value, e = .loaded value → P.Known first before value) t

section Snapshot

variable {P} {first : Stored β} {s s' : State ρ β} {t es : List (Event τ ρ)} {a : Action τ ρ}
  {value : ρ}

theorem Known.append (h : P.Known first t value) (es : List (Event τ ρ)) :
    P.Known first (es ++ t) value := by
  rcases h with h | h | ⟨v, now, hmem, h⟩
  · exact .inl h
  · exact .inr (.inl h)
  · exact .inr (.inr ⟨v, now, List.mem_append_right _ hmem, h⟩)

theorem known_save (h : P.Copies first s t) {b : β} (hb : b ∈ s.saves) : P.Known first t (P.load b) := by
  obtain ⟨v, now, hmem, rfl⟩ := h.saves b hb
  exact .inr (.inr ⟨v, now, hmem, rfl⟩)

/-- A step that loads nothing, whose store and saves have copies that were known or are made by it. -/
theorem Copies.next (h : P.Copies first s t) (hloads : ∀ value, .loaded value ∉ es)
    (hstored : P.Known first (es ++ t) (P.read s'.stored))
    (hsaves : ∀ b ∈ s'.saves, b ∈ s.saves ∨ ∃ v now, .updated v now ∈ es ∧ b = P.copy now v)
    (hfound : ∀ value, s'.loading = .found value → P.Known first (es ++ t) value) :
    P.Copies first s' (es ++ t) := by
  refine ⟨hstored, fun b hb ↦ ?_, hfound, ?_⟩
  · rcases hsaves b hb with hb | ⟨v, now, hmem, hb⟩
    · obtain ⟨v, now, hmem, hb⟩ := h.saves b hb
      exact ⟨v, now, List.mem_append_right _ hmem, hb⟩
    · exact ⟨v, now, List.mem_append_left _ hmem, hb⟩
  · clear hstored hsaves hfound
    induction es with
    | nil => exact h.loaded
    | cons e es ih =>
      have hrest := ih fun value hmem ↦ hloads value (List.mem_cons_of_mem _ hmem)
      refine Machine.past_cons.mpr ⟨?_, hrest⟩
      rintro value rfl
      exact absurd List.mem_cons_self (hloads value)

theorem Copies.step (h : P.Copies first s t) (hstep : P.step s a = some (s', es)) :
    P.Copies first s' (es ++ t) := by
  cases a with
  | start keepsSaves =>
    obtain ⟨rfl, rfl⟩ := Prod.ext_iff.mp (Option.some.inj hstep)
    refine h.next (by simp) (h.stored.append _) (fun b hb ↦ .inl ?_) (fun _ hfound ↦ by cases hfound)
    cases keepsSaves with
    | true => exact hb
    | false => cases hb
  | read fails =>
    unfold Persisted.step at hstep
    cases hloading : s.loading with
    | waiting =>
      rw [hloading] at hstep
      dsimp only at hstep
      cases fails with
      | true =>
        obtain ⟨rfl, rfl⟩ := Prod.ext_iff.mp (Option.some.inj hstep)
        refine h.next (by simp) (h.stored.append _) (fun b hb ↦ .inl hb) ?_
        rintro _ ⟨⟩
        exact .inl rfl
      | false =>
        obtain ⟨rfl, rfl⟩ := Prod.ext_iff.mp (Option.some.inj hstep)
        refine h.next (by simp) (h.stored.append _) (fun b hb ↦ .inl hb) ?_
        rintro _ ⟨⟩
        exact h.stored.append _
    | found _ | finished =>
      rw [hloading] at hstep
      cases hstep
  | «show» =>
    unfold Persisted.step at hstep
    cases hloading : s.loading with
    | found value =>
      rw [hloading] at hstep
      obtain ⟨rfl, rfl⟩ := Prod.ext_iff.mp (Option.some.inj hstep)
      refine ⟨h.stored.append _, fun b hb ↦ ?_, fun _ hfound ↦ (by cases hfound),
        Machine.past_cons.mpr ⟨?_, h.loaded⟩⟩
      · obtain ⟨v, now, hmem, hb⟩ := h.saves b hb
        exact ⟨v, now, List.mem_append_right _ hmem, hb⟩
      · rintro _ ⟨⟩
        exact h.found value hloading
    | waiting | finished =>
      rw [hloading] at hstep
      cases hstep
  | update f now =>
    obtain ⟨rfl, rfl⟩ := Prod.ext_iff.mp (Option.some.inj hstep)
    refine h.next (by simp) (h.stored.append _) (fun b hb ↦ ?_)
      fun value hfound ↦ (h.found value hfound).append _
    rcases List.mem_append.mp hb with hb | hb
    · exact .inl hb
    · exact .inr ⟨_, now, List.mem_singleton_self _, List.mem_singleton.mp hb⟩
  | write i =>
    obtain ⟨b, hb, hnext⟩ := Option.map_eq_some_iff.mp hstep
    obtain ⟨rfl, rfl⟩ := Prod.ext_iff.mp hnext
    exact h.next (by simp) ((known_save h (List.mem_of_getElem? hb)).append _)
      (fun b hb ↦ .inl (List.mem_of_mem_eraseIdx hb)) fun value hfound ↦ (h.found value hfound).append _
  | fail i =>
    obtain ⟨b, -, hnext⟩ := Option.map_eq_some_iff.mp hstep
    obtain ⟨rfl, rfl⟩ := Prod.ext_iff.mp hnext
    exact h.next (by simp) (h.stored.append _) (fun b hb ↦ .inl (List.mem_of_mem_eraseIdx hb))
      fun value hfound ↦ (h.found value hfound).append _
  | tear i =>
    obtain ⟨b, -, hnext⟩ := Option.map_eq_some_iff.mp hstep
    obtain ⟨rfl, rfl⟩ := Prod.ext_iff.mp hnext
    exact h.next (by simp) (.inl rfl) (fun b hb ↦ .inl (List.mem_of_mem_eraseIdx hb))
      fun value hfound ↦ (h.found value hfound).append _
  | clear =>
    obtain ⟨rfl, rfl⟩ := Prod.ext_iff.mp (Option.some.inj hstep)
    exact h.next (by simp) (.inl rfl) (fun b hb ↦ .inl hb)
      fun value hfound ↦ (h.found value hfound).append _

theorem Run.copies (h : (P.machine first).Run s t) : P.Copies first s t := by
  refine h.invariant (P := P.Copies first) ?_ Copies.step
  refine ⟨?_, fun b hb ↦ (by cases hb), fun _ hfound ↦ (by cases hfound), Machine.past_nil⟩
  cases first with
  | absent | unreadable => exact .inl rfl
  | copy b => exact .inr (.inl ⟨b, rfl, rfl⟩)

/-- What is loaded was shown before, as a whole. -/
theorem Run.snapshot (h : (P.machine first).Run s t) :
    Machine.Past (fun e before ↦ ∀ value, e = .loaded value → P.Known first before value) t :=
  (Run.copies h).loaded

end Snapshot

/-! ## Saves in their order -/

/-- Updates come after the load, saves end in their order, and a start leaves none under way. -/
def inOrder (s : State ρ β) : Action τ ρ → Bool
  | .start keepsSaves => !keepsSaves || s.saves.isEmpty
  | .update _ _ =>
    match s.loading with
    | .finished => true
    | .waiting | .found _ => false
  | .write i | .fail i | .tear i => i = 0
  | .read _ | .show | .clear => true

/-- Nothing has failed or was cleared since the start or the last save that was written. -/
def upToDate : List (Event τ ρ) → Bool
  | [] => true
  | .started :: _ | .written :: _ => true
  | .failed :: _ | .cleared :: _ => false
  | .loaded _ :: t | .updated _ _ :: t => upToDate t

/-- A copy keeps the content of a value, once it has been cleaned; what is loaded is clean. -/
structure Lawful {π : Type} (content : ρ → π) (clean : π → π) : Prop where
  copied (now : τ) (value : ρ) : content (P.load (P.copy now value)) = clean (content value)
  defaults : clean (content P.defaults) = content P.defaults
  loaded (b : β) : clean (content (P.load b)) = content (P.load b)

structure Tracks {π : Type} (content : ρ → π) (clean : π → π) (s : State ρ β) (t : List (Event τ ρ)) :
    Prop where
  idle : s.loading ≠ .finished → s.saves = []
  found : ∀ value, s.loading = .found value → clean (content value) = content value ∧
    (upToDate t = true → content (P.read s.stored) = content value)
  newest : s.loading = .finished → ∀ b, s.saves.getLast? = some b →
    content (P.load b) = clean (content s.shown)
  stored : s.loading = .finished → s.saves = [] → upToDate t = true →
    content (P.read s.stored) = clean (content s.shown)

section InOrder

variable {P} {π : Type} {content : ρ → π} {clean : π → π} {first : Stored β} {s s' : State ρ β}
  {t es : List (Event τ ρ)} {a : Action τ ρ}

theorem Lawful.read (hP : P.Lawful content clean) (stored : Stored β) :
    clean (content (P.read stored)) = content (P.read stored) := by
  cases stored with
  | absent | unreadable => exact hP.defaults
  | copy b => exact hP.loaded b

/-- The oldest save ends after the load, and leaves the newest one under way unless it is that. -/
theorem Tracks.oldest (h : P.Tracks content clean s t) {b : β} (hb : s.saves[0]? = some b) :
    s.loading = .finished ∧
      (∀ b', (s.saves.eraseIdx 0).getLast? = some b' → content (P.load b') = clean (content s.shown)) ∧
      (s.saves.eraseIdx 0 = [] → content (P.load b) = clean (content s.shown)) := by
  obtain ⟨rest, hsaves⟩ : ∃ rest, s.saves = b :: rest := by
    cases hsaves : s.saves with
    | nil =>
      rw [hsaves] at hb
      cases hb
    | cons first rest =>
      rw [hsaves] at hb
      exact ⟨rest, by rw [Option.some.inj hb]⟩
  have hover : s.loading = .finished := Classical.byContradiction fun hne ↦ by
    have hnil := h.idle hne
    rw [hsaves] at hnil
    cases hnil
  have hnewest := h.newest hover
  rw [hsaves] at hnewest ⊢
  refine ⟨hover, fun b' hb' ↦ hnewest b' ?_, fun hrest ↦ hnewest b ?_⟩
  · have hrest : rest.getLast? = some b' := hb'
    rw [List.getLast?_cons, hrest]
    rfl
  · have hnil : rest = [] := hrest
    rw [hnil]
    rfl

theorem Tracks.step (hP : P.Lawful content clean) (h : P.Tracks content clean s t)
    (hok : inOrder s a = true) (hstep : P.step s a = some (s', es)) :
    P.Tracks content clean s' (es ++ t) := by
  cases a with
  | start keepsSaves =>
    obtain ⟨rfl, rfl⟩ := Prod.ext_iff.mp (Option.some.inj hstep)
    refine ⟨fun _ ↦ ?_, fun _ hfound ↦ (by cases hfound), fun hover ↦ (by cases hover),
      fun hover ↦ (by cases hover)⟩
    cases keepsSaves with
    | true => exact List.isEmpty_iff.mp hok
    | false => rfl
  | read fails =>
    unfold Persisted.step at hstep
    cases hloading : s.loading with
    | waiting =>
      have hsaves := h.idle fun hover ↦ by cases hloading.symm.trans hover
      rw [hloading] at hstep
      dsimp only at hstep
      cases fails with
      | true =>
        obtain ⟨rfl, rfl⟩ := Prod.ext_iff.mp (Option.some.inj hstep)
        refine ⟨fun _ ↦ hsaves, ?_, fun hover ↦ (by cases hover), fun hover ↦ (by cases hover)⟩
        rintro _ ⟨⟩
        exact ⟨hP.defaults, fun hfresh ↦ by cases hfresh⟩
      | false =>
        obtain ⟨rfl, rfl⟩ := Prod.ext_iff.mp (Option.some.inj hstep)
        refine ⟨fun _ ↦ hsaves, ?_, fun hover ↦ (by cases hover), fun hover ↦ (by cases hover)⟩
        rintro _ ⟨⟩
        exact ⟨hP.read _, fun _ ↦ rfl⟩
    | found _ | finished =>
      rw [hloading] at hstep
      cases hstep
  | «show» =>
    unfold Persisted.step at hstep
    cases hloading : s.loading with
    | found value =>
      have hsaves := h.idle fun hover ↦ by cases hloading.symm.trans hover
      obtain ⟨hclean, hread⟩ := h.found value hloading
      rw [hloading] at hstep
      obtain ⟨rfl, rfl⟩ := Prod.ext_iff.mp (Option.some.inj hstep)
      refine ⟨fun hne ↦ absurd rfl hne, fun _ hfound ↦ (by cases hfound), fun _ b hb ↦ ?_,
        fun _ _ hfresh ↦ ?_⟩
      · rw [hsaves] at hb
        cases hb
      · exact (hread hfresh).trans hclean.symm
    | waiting | finished =>
      rw [hloading] at hstep
      cases hstep
  | update f now =>
    have hover : s.loading = .finished := by
      unfold inOrder at hok
      cases hloading : s.loading with
      | finished => rfl
      | waiting | found _ =>
        rw [hloading] at hok
        cases hok
    obtain ⟨rfl, rfl⟩ := Prod.ext_iff.mp (Option.some.inj hstep)
    refine ⟨fun hne ↦ absurd hover hne, fun value hfound ↦ ?_, fun _ b hb ↦ ?_, fun _ hsaves ↦ ?_⟩
    · rw [show s.loading = .found value from hfound] at hover
      cases hover
    · rw [List.getLast?_concat] at hb
      obtain rfl := Option.some.inj hb
      exact hP.copied now _
    · exact absurd hsaves (List.append_ne_nil_of_right_ne_nil _ (List.cons_ne_nil _ _))
  | write i =>
    obtain rfl : i = 0 := of_decide_eq_true hok
    obtain ⟨b, hb, hnext⟩ := Option.map_eq_some_iff.mp hstep
    obtain ⟨hover, hnewest, hlast⟩ := h.oldest hb
    obtain ⟨rfl, rfl⟩ := Prod.ext_iff.mp hnext
    refine ⟨fun hne ↦ absurd hover hne, fun value hfound ↦ ?_, fun _ ↦ hnewest,
      fun _ hsaves _ ↦ hlast hsaves⟩
    rw [show s.loading = .found value from hfound] at hover
    cases hover
  | fail i | tear i =>
    obtain rfl : i = 0 := of_decide_eq_true hok
    obtain ⟨b, hb, hnext⟩ := Option.map_eq_some_iff.mp hstep
    obtain ⟨hover, hnewest, -⟩ := h.oldest hb
    obtain ⟨rfl, rfl⟩ := Prod.ext_iff.mp hnext
    refine ⟨fun hne ↦ absurd hover hne, fun value hfound ↦ ?_, fun _ ↦ hnewest,
      fun _ _ hfresh ↦ (by cases hfresh)⟩
    rw [show s.loading = .found value from hfound] at hover
    cases hover
  | clear =>
    obtain ⟨rfl, rfl⟩ := Prod.ext_iff.mp (Option.some.inj hstep)
    exact ⟨h.idle, fun value hfound ↦ ⟨(h.found value hfound).1, fun hfresh ↦ by cases hfresh⟩, h.newest,
      fun _ _ hfresh ↦ by cases hfresh⟩

theorem Run.tracks (hP : P.Lawful content clean) (h : ((P.machine first).guard inOrder).Run s t) :
    P.Tracks content clean s t := by
  refine h.invariant (P := P.Tracks content clean) ?_ fun hs hstep ↦ ?_
  · exact ⟨fun _ ↦ rfl, fun _ hfound ↦ (by cases hfound), fun hover ↦ (by cases hover),
      fun hover ↦ (by cases hover)⟩
  · obtain ⟨hok, hstep⟩ := Machine.guard_eq_some.mp hstep
    exact hs.step hP hok hstep

/-- Once a save has been written and none is under way, the store has what is shown. -/
theorem Run.kept (hP : P.Lawful content clean) (h : ((P.machine first).guard inOrder).Run s t)
    (hover : s.loading = .finished) (hsaves : s.saves = []) (hfresh : upToDate t = true) :
    content (P.read s.stored) = clean (content s.shown) :=
  (Run.tracks hP h).stored hover hsaves hfresh

/-- The saves under way are written one after the other. -/
theorem exec_write (saves : List β) (b : β) (h : s.saves = saves ++ [b]) :
    (P.machine first).exec (List.replicate (saves.length + 1) (.write 0)) s t =
      some ({ s with stored := .copy b, saves := [] },
        List.replicate (saves.length + 1) .written ++ t) := by
  induction saves generalizing s t with
  | nil =>
    have hstep : (P.machine first).step s (.write 0) =
        some ({ s with stored := .copy b, saves := [] }, [.written]) := by
      show P.step s (.write 0) = _
      unfold Persisted.step
      rw [h]
      rfl
    show (P.machine first).exec [.write 0] s t = _
    unfold Machine.exec
    rw [hstep]
    rfl
  | cons oldest saves ih =>
    have hstep : (P.machine first).step s (.write 0) =
        some ({ s with stored := .copy oldest, saves := saves ++ [b] }, [.written]) := by
      show P.step s (.write 0) = _
      unfold Persisted.step
      rw [h]
      rfl
    rw [List.length_cons, List.replicate_succ, Machine.exec, hstep]
    dsimp only
    rw [ih rfl, List.replicate_succ' (n := saves.length + 1), List.append_assoc]

/-- The next save that is written, after those before it, brings the store up to date. -/
theorem reconciled (hP : P.Lawful content clean) (f : ρ → ρ) (now : τ) :
    ∃ s' t', (P.machine first).exec (.update f now :: List.replicate (s.saves.length + 1) (.write 0)) s t =
      some (s', t') ∧ s'.shown = f s.shown ∧ content (P.read s'.stored) = clean (content (f s.shown)) := by
  have hsaves : { s with
      shown := f s.shown, saves := s.saves ++ [P.copy now (f s.shown)] }.saves =
        s.saves ++ [P.copy now (f s.shown)] := rfl
  exact ⟨_, _, exec_write s.saves _ hsaves, rfl, hP.copied now (f s.shown)⟩

end InOrder

end Persisted
