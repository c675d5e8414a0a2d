import Aesmsg.Server.MemorySteps
import Aesmsg.Server.PostgresSteps

/-!
# No ciphertext after a terminal transition

Once a revoke, an admin purge or the open that exhausts a link has dealt with an id, its ciphertext is
gone for good, unless a create inserts the id again.  The Postgres store writes the ciphertext in the
transaction of the row.  The in-memory store writes it later, and keeps the promise only as long as
nothing has dealt with the id in between.

## Main results

- `retained_of_prompt`: the promise, on both stores.
- `late_put_retained`: a run of the in-memory store that breaks it.
-/

namespace Aesmsg.Server

open Store Api Threads

/-- Whatever holds for `id` after it has been dealt with belongs to a create that inserted its row, and
wrote its ciphertext, since then. -/
def Retained {P σ : Type} (links : σ → Links) (c : Config P σ Event) : Prop :=
  ∀ r id, (r, .completed id) ∈ c.trace → (r, .acted id) ∈ c.trace ∧
    ∀ b, (links c.shared id).blob = some b → ∃ d record, record.id = id ∧
      (d, .inserted record) ∈ since (r, .acted id) c.trace ∧
      (d, .stored id b) ∈ since (r, .acted id) c.trace

/-- Nothing has dealt with the id since thread `i` inserted its row. -/
def Prompt (i : Nat) (record : CreateLinkRecord) (t : Trace Event) : Prop :=
  ∀ e ∈ since (i, .inserted record) t, e.2 ≠ .acted record.id

instance (i : Nat) (record : CreateLinkRecord) (t : Trace Event) : Decidable (Prompt i record t) :=
  inferInstanceAs (Decidable (∀ e ∈ since (i, .inserted record) t, e.2 ≠ .acted record.id))

/-- The ciphertext `b` was written by a create, and nothing has dealt with the id since it inserted its
row. -/
def Renewed (t : Trace Event) (id : LinkId) (b : List UInt8) : Prop :=
  ∃ d record, record.id = id ∧ (d, .inserted record) ∈ t ∧
    (d, .stored id b) ∈ since (d, .inserted record) t ∧ Prompt d record t

theorem Renewed.append {t : Trace Event} {id : LinkId} {b : List UInt8} {i : Nat} {es : List Event}
    (h : Renewed t id b) (acted : .acted id ∉ es)
    (fresh : ∀ record, .inserted record ∈ es → ∀ record, (i, .inserted record) ∉ t) :
    Renewed (tag i es ++ t) id b := by
  obtain ⟨d, record, rfl, hi, hs, hp⟩ := h
  have hne : (d, Event.inserted record) ∉ tag i es := by
    intro hm
    obtain ⟨e, he, heq⟩ := List.mem_map.mp hm
    obtain ⟨rfl, rfl⟩ := Prod.mk.inj heq
    exact fresh record he record hi
  have hsince := since_append_of_not_mem (t := t) hne
  refine ⟨d, record, rfl, List.mem_append_right _ hi, ?_, fun e he ↦ ?_⟩
  · rw [hsince]
    exact List.mem_append_right _ hs
  · rw [hsince] at he
    rcases List.mem_append.mp he with he | he
    · obtain ⟨e', he', rfl⟩ := List.mem_map.mp he
      intro heq
      exact acted (heq ▸ he')
    · exact hp e he

theorem Renewed.since {t : Trace Event} {id : LinkId} {b : List UInt8} (h : Renewed t id b) (r : Nat) :
    ∃ d record, record.id = id ∧ (d, .inserted record) ∈ Threads.since (r, .acted id) t ∧
      (d, .stored id b) ∈ Threads.since (r, .acted id) t := by
  obtain ⟨d, record, rfl, hi, hs, hp⟩ := h
  have hnot : (r, Event.acted record.id) ∉ Threads.since (d, .inserted record) t :=
    fun hm ↦ hp _ hm rfl
  obtain ⟨hm, hsub⟩ := since_subset_since hi hnot (by simp)
  exact ⟨d, record, rfl, hm, hsub hs⟩

/-- A ciphertext is stored after the row. -/
theorem since_stored (i : Nat) (record : CreateLinkRecord) (b : List UInt8) (t : Trace Event) :
    since (i, .inserted record) ((i, .stored record.id b) :: t) =
      (i, .stored record.id b) :: since (i, .inserted record) t :=
  since_cons_of_ne (by simp)

section Act

variable {env : Env} {links links' : Links} {a b : Stage} {es : List Event}

/-- Where a ciphertext comes from that a link holds after a step. -/
theorem Act.blob_cases (h : Act env links links' a es b) {id : LinkId} {blob : List UInt8}
    (hb : (links' id).blob = some blob) :
    ((links id).blob = some blob ∧ .acted id ∉ es) ∨
      (∃ token record, a = .placed token record blob ∧ record.id = id ∧ es = [.stored id blob]) ∨
      ∃ record, record.id = id ∧ es = [.stored id blob, .inserted record] := by
  have same : links' = links → .acted id ∉ es → (links id).blob = some blob ∧ .acted id ∉ es := by
    rintro rfl hes
    exact ⟨hb, hes⟩
  have update : ∀ {j : LinkId} {l : Link}, links' = Function.update links j l →
      (l.blob = (links j).blob ∨ l.blob = none) → (links id).blob = some blob := by
    intro j l link hl
    rw [link] at hb
    by_cases hj : id = j
    · subst hj
      rw [Function.update_self] at hb
      rcases hl with hl | hl
      · exact hl.symm.trans hb
      · rw [hl] at hb
        cases hb
    · rwa [Function.update_of_ne hj] at hb
  have count : ∀ {j : LinkId} {row : LinkMetadata} {now stamp : Instant},
      (links j).row = some row → row.status = .active → now < row.expiresAt →
        links' = Function.update links j ((links j).increment now stamp) →
          (links id).blob = some blob ∧ .acted id ∉ openEvents j row.opened now := by
    intro j row now stamp present active live link
    have hblob := blob_increment stamp present active live
    refine ⟨update link ?_, fun hm ↦ ?_⟩
    · rw [hblob]
      split
      · exact .inr rfl
      · exact .inl rfl
    · rcases mem_openEvents.mp hm with ⟨heq, hx⟩ | heq
      · cases heq
        rw [link, Function.update_self, hblob, if_pos hx] at hb
        cases hb
      · cases heq
  have closing : (∀ j, Closing (links j) (links' j)) → (links id).blob = some blob := by
    intro hc
    rcases (hc id).blob with hl | hl
    · exact hl.symm.trans hb
    · rw [hl] at hb
      cases hb
  cases h with
  | wait h | fail h | fetch _ h | miss h => exact .inl (same h (by simp))
  | close passes hclosing tidy pruned =>
    refine .inl ⟨closing hclosing, fun hm ↦ ?_⟩
    obtain ⟨j, hj⟩ := tidy _ hm
    cases hj
  | quit answer plain early h => exact .inl (same h (by simp [mem_finish]))
  | create absent link => exact .inl ⟨update link (.inl rfl), by simp⟩
  | place token ciphertext absent link => exact .inl ⟨update link (.inl rfl), by simp⟩
  | @commit record token ciphertext absent link =>
    by_cases hid : id = record.id
    · subst hid
      rw [link, Function.update_self] at hb
      cases hb
      exact .inr (.inr ⟨record, rfl, rfl⟩)
    · refine .inl ⟨?_, by simp⟩
      rwa [link, Function.update_of_ne hid] at hb
  | @put token record ciphertext link =>
    by_cases hid : id = record.id
    · subst hid
      rw [link, Function.update_self] at hb
      cases hb
      exact .inr (.inl ⟨token, record, rfl, rfl, rfl⟩)
    · refine .inl ⟨?_, by simp⟩
      rwa [link, Function.update_of_ne hid] at hb
  | undo link => exact .inl ⟨update link (.inl rfl), by simp [mem_finish]⟩
  | reply h => exact .inl (same h (by simp [mem_finish]))
  | count present active live link => exact .inl (count present active live link)
  | respond h => exact .inl (same h (by simp [mem_completion]))
  | tally present active live link => exact .inl (count present active live link)
  | act j early hclosing kept empty =>
    refine .inl ⟨closing hclosing, fun hm ↦ ?_⟩
    cases List.mem_singleton.mp hm
    rw [empty] at hb
    cases hb
  | drop j link => exact .inl ⟨update link (.inr rfl), by simp⟩
  | dropActed j link =>
    refine .inl ⟨update link (.inr rfl), fun hm ↦ ?_⟩
    cases List.mem_singleton.mp hm
    rw [link, Function.update_self] at hb
    cases hb
  | complete j answer plain h => exact .inl (same h (by simp [mem_finish]))

end Act

namespace LinkServer

variable {χ P σ : Type} {env : Env} {M : Program Request χ P σ Event} {links : σ → Links}
  {stage : P → Stage} {inv : σ → Prop} {ok : Program.Guard χ P σ Event} {s₀ : σ}

/-- Every ciphertext is renewed where creates write theirs promptly. -/
theorem renewed (h : LinkServer env M links stage inv) (hempty : links s₀ = fun _ ↦ Link.vacant)
    (hinv : inv s₀)
    (prompt : ∀ {i x p s t p' s' token record b}, ok i x p s t →
      M.step i x p s = some (p', s', [.stored record.id b]) → stage p = .placed token record b →
        Prompt i record t)
    {c : Config P σ Event} (hc : M.Reachable ok s₀ c) :
    ∀ id b, (links c.shared id).blob = some b → Renewed c.trace id b := by
  refine Program.Reachable.shared (I := fun s t ↦ ∀ id b, (links s id).blob = some b →
    Renewed t id b) ?_ ?_ (h.strengthen hempty hinv hc)
  · intro id b hb
    rw [hempty] at hb
    cases hb
  · rintro i x p s t p' s' es ⟨hok, hkept, htold⟩ hI hstep id b hb
    have hact := h.act hkept.state hstep
    rcases hact.blob_cases hb with ⟨hold, hes⟩ | ⟨token, record, hstage, rfl, rfl⟩ |
      ⟨record, rfl, rfl⟩
    · exact (hI id b hold).append hes fun record hm ↦ fresh hact htold ⟨record, hm⟩
    · have hmine : mine i t = [.inserted record] := by
        have hs : Story env (stage p) (mine i t) := htold
        rw [hstage] at hs
        exact hs
      have hi : (i, Event.inserted record) ∈ t := by
        rw [← mem_mine, hmine]
        exact List.mem_cons_self
      refine ⟨i, record, rfl, List.mem_cons_of_mem _ hi, ?_, fun e he ↦ ?_⟩
      · change _ ∈ since _ ((i, Event.stored record.id b) :: t)
        rw [since_stored]
        exact List.mem_cons_self
      · change _ ∈ since _ ((i, Event.stored record.id b) :: t) at he
        rw [since_stored] at he
        rcases List.mem_cons.mp he with rfl | he
        · nofun
        · exact prompt hok hstep hstage e he
    · have hsince : since (i, Event.inserted record)
          (tag i [.stored record.id b, .inserted record] ++ t) = [(i, .stored record.id b)] := by
        change since _ ((i, Event.stored record.id b) :: (i, Event.inserted record) :: t) = _
        rw [since_stored, since_cons_self]
      refine ⟨i, record, rfl, ?_, ?_, fun e he ↦ ?_⟩
      · exact List.mem_append_left _ (by simp)
      · rw [hsince]
        exact List.mem_cons_self
      · rw [hsince] at he
        obtain rfl := List.mem_singleton.mp he
        nofun

theorem retained (h : LinkServer env M links stage inv) (hempty : links s₀ = fun _ ↦ Link.vacant)
    (hinv : inv s₀)
    (prompt : ∀ {i x p s t p' s' token record b}, ok i x p s t →
      M.step i x p s = some (p', s', [.stored record.id b]) → stage p = .placed token record b →
        Prompt i record t)
    {c : Config P σ Event} (hc : M.Reachable ok s₀ c) : Retained links c := by
  intro r id hm
  refine ⟨?_, fun b hb ↦ (h.renewed hempty hinv prompt hc id b hb).since r⟩
  exact mem_mine.mp ((h.kind hempty hinv hc r).of_completed (mem_mine.mpr hm))

end LinkServer

/-- The condition under which the in-memory store keeps the promise: when a create writes its
ciphertext, no revoke, admin purge or exhausting open has dealt with the id since it inserted its
row. -/
def Memory.WritesPromptly : Program.Guard Memory.Input Memory.Pc MemoryStore Event :=
  fun i x p _ t ↦
    match p with
    | .put _ record _ => x.fails = false → Prompt i record t
    | _ => True

instance (i : Nat) (x : Memory.Input) (p : Memory.Pc) (s : MemoryStore) (t : Trace Event) :
    Decidable (Memory.WritesPromptly i x p s t) :=
  match p with
  | .put _ record _ => inferInstanceAs (Decidable (x.fails = false → Prompt i record t))
  | .start _ | .checked .. | .rollback .. | .created .. | .increment .. | .opened ..
  | .incremented .. | .revoked .. | .purge .. | .purged _ | .sweepGot .. | .sweepNext _
  | .pruneNext .. | .done => isTrue trivial

/-- Terminal rows hold no ciphertext: in memory as long as ciphertexts are written promptly, in
Postgres always. -/
theorem retained_of_prompt (env : Env) :
    (∀ c, (Memory.program env).Reachable Memory.WritesPromptly MemoryStore.empty c →
      Retained MemoryStore.link c) ∧
    ∀ c, (Postgres.program env).Reachable .always Postgres.State.initial c →
      Retained Postgres.links c := by
  constructor
  · intro c hc
    refine (Memory.linkServer env).retained rfl trivial ?_ hc
    intro i x p s t p' s' token record b hok hstep hstage
    have hp := Memory.stage_inv p
    rw [hstage] at hp
    cases hp
    refine hok (Bool.eq_false_iff.mpr fun hf ↦ ?_)
    simp [Memory.program, Memory.step, hf] at hstep
  · intro c hc
    refine (Postgres.linkServer env).retained rfl (by rintro id row ⟨⟩) ?_ hc
    intro i x p s t p' s' token record b hok hstep hstage
    have hp := Postgres.stage_inv p
    rw [hstage] at hp
    cases hp

/-- A create, and an admin purge of its id before or after the ciphertext is written. -/
def purgeDuring (late : Bool) : List (Action Request Memory.Input) :=
  [.spawn (.createWithCiphertext ⟨"AAAAAAAAAAAAAAAA", 1000, 1, none⟩ [7]),
    .spawn (.adminPurge "AAAAAAAAAAAAAAAA"), .run 0 (.at 1)] ++
  if late then [.run 1 (.at 2), .run 1 (.at 3), .run 0 (.at 4)]
  else [.run 0 (.at 2), .run 1 (.at 3), .run 1 (.at 4), .run 1 (.at 5)]

theorem retained_of_prompt_sample :
    ∃ c, (Memory.program .sample).exec Memory.WritesPromptly (Program.start MemoryStore.empty)
      (purgeDuring false) = some c ∧ (1, .completed "AAAAAAAAAAAAAAAA") ∈ c.trace ∧
        Retained MemoryStore.link c := by
  have hrun : ((Memory.program .sample).exec Memory.WritesPromptly
      (Program.start MemoryStore.empty) (purgeDuring false)).map
        (fun c ↦ decide ((1, Event.completed "AAAAAAAAAAAAAAAA") ∈ c.trace)) = some true := by
    decide
  obtain ⟨c, hc, hm⟩ := Option.map_eq_some_iff.mp hrun
  exact ⟨c, hc, of_decide_eq_true hm, (retained_of_prompt .sample).1 c (Program.runs_of_exec hc)⟩

/-- The in-memory store writes the ciphertext of a row that has been purged. -/
theorem late_put_retained : ¬∀ env,
    (∀ c, (Memory.program env).Reachable .always MemoryStore.empty c → Retained MemoryStore.link c) ∧
      ∀ c, (Postgres.program env).Reachable .always Postgres.State.initial c →
        Retained Postgres.links c := by
  intro h
  have hrun : ((Memory.program .sample).exec .always (Program.start MemoryStore.empty)
      (purgeDuring true)).map (fun c ↦ (decide ((1, Event.completed "AAAAAAAAAAAAAAAA") ∈ c.trace),
        since (1, .acted "AAAAAAAAAAAAAAAA") c.trace, (c.shared.link "AAAAAAAAAAAAAAAA").blob)) =
      some (true, [(0, .stored "AAAAAAAAAAAAAAAA" [7]), (1, .completed "AAAAAAAAAAAAAAAA")],
        some [7]) := by
    decide
  obtain ⟨c, hc, hv⟩ := Option.map_eq_some_iff.mp hrun
  obtain ⟨hm, hv⟩ := Prod.mk.inj hv
  obtain ⟨hsince, hblob⟩ := Prod.mk.inj hv
  obtain ⟨-, hall⟩ := (h .sample).1 c (Program.runs_of_exec hc) 1 _ (of_decide_eq_true hm)
  obtain ⟨d, record, -, hi, -⟩ := hall _ hblob
  rw [hsince] at hi
  simp at hi

end Aesmsg.Server
