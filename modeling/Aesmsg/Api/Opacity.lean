import Aesmsg.Api.Handlers
import Aesmsg.Server.Ledger
import Aesmsg.Server.Memory
import Aesmsg.Server.PostgresSteps
import Aesmsg.Store.MemoryLink

/-!
# Dead links are opaque

Two runs of the handlers on the same calls, from stores that agree on every link but one, which is
dead in both: revoked, expired, exhausted, past due or unknown.  The responses are the same.

## Main results

- `Twins.serve`: two runs from twin stores answer alike, for any stores that work link by link.
- `dead_links_alike`: so do both stores.
-/

namespace Aesmsg.Api

open Store

/-- A link that nobody can open at `t` or later. -/
inductive Dead (t : Instant) (l : Link) : Prop
  | revoked (row : LinkMetadata) (present : l.row = some row) (status : row.status = .revoked)
  /-- Expired by the sweep, or exhausted by its last open. -/
  | expired (row : LinkMetadata) (present : l.row = some row) (status : row.status = .expired)
  /-- Past its expiry, and not swept yet. -/
  | pastDue (row : LinkMetadata) (present : l.row = some row) (status : row.status = .active)
    (due : row.expiresAt ≤ t)
  | unknown (absent : l.row = none)

/-- The states agree on every link but `id`, which is dead in both. -/
structure Twins {σ : Type} (link : σ → LinkId → Link) (id : LinkId) (t : Instant) (s₁ s₂ : σ) :
    Prop where
  others : ∀ j, j ≠ id → link s₁ j = link s₂ j
  left : Dead t (link s₁ id)
  right : Dead t (link s₂ id)

/-! ## Dead links -/

namespace Dead

variable {t now : Instant} {l : Link}

/-- No row of a dead link is live. -/
theorem not_live (h : Dead t l) (hnow : t ≤ now) {row : LinkMetadata} (hr : l.row = some row) :
    row.status ≠ .active ∨ row.expiresAt ≤ now := by
  cases h with
  | revoked row' present status =>
    cases present.symm.trans hr
    rw [status]
    exact .inl nofun
  | expired row' present status =>
    cases present.symm.trans hr
    rw [status]
    exact .inl nofun
  | pastDue row' present status due =>
    cases present.symm.trans hr
    exact .inr (Int.le_trans due hnow)
  | unknown absent =>
    rw [absent] at hr
    cases hr

theorem openedRow (h : Dead t l) (hnow : t ≤ now) : l.openedRow now = none :=
  Link.openedRow_eq_none.mpr fun _ hr ha ↦ (h.not_live hnow hr).resolve_left (not_not_intro ha)

theorem increment (h : Dead t l) (hnow : t ≤ now) (stamp : Instant) : l.increment now stamp = l := by
  unfold Link.increment
  rw [h.openedRow hnow]

/-- Revoking a dead link leaves it dead: one that is past due is revoked. -/
theorem revoke (h : Dead t l) (providedTokenHash : Option String) (stamp : Instant) :
    Dead t (l.revoke providedTokenHash stamp) := by
  unfold Link.revoke
  split
  · unfold Link.flip
    split
    · rename_i hr
      exact .unknown hr
    · rename_i row hr
      split
      · exact .revoked { row with status := .revoked } rfl rfl
      · cases h with
        | revoked row' present status => exact .revoked row' present status
        | expired row' present status => exact .expired row' present status
        | pastDue row' present status due => exact .pastDue row' present status due
        | unknown absent => exact .unknown absent
  · exact h

theorem listResult (h : Dead t l) (hnow : t ≤ now) (id : LinkId) :
    listResult now id l.row = gone id := by
  unfold Api.listResult
  split
  · rfl
  · rename_i row hr
    exact if_pos (h.not_live hnow hr)

end Dead

/-! ## Two runs -/

/-- The stores work link by link: a method reads and writes the link of its own id. -/
structure ByLink {σ τ : Type} (S : Stores σ τ) (link : σ → LinkId → Link) (reading : τ → Instant)
    (stamp : τ → LinkId → Instant) (inv : σ → Prop) : Prop where
  get : ∀ s id, S.get s id = (link s id).row
  getCiphertext : ∀ s id, S.getCiphertext s id = (link s id).blob
  incrementOpens : ∀ {s clock id row s'}, inv s → S.incrementOpens s clock id = some (row, s') →
    inv s' ∧ row = (link s id).openedRow (reading clock) ∧
      link s' = Function.update (link s) id
        ((link s id).increment (reading clock) (stamp clock id))
  revoke : ∀ {s} clock id providedTokenHash, inv s →
    inv (S.revoke s clock id providedTokenHash) ∧
      link (S.revoke s clock id providedTokenHash) = Function.update (link s) id
        ((link s id).revoke providedTokenHash (stamp clock id))

section Twins

variable {σ τ : Type} {S : Stores σ τ} {link : σ → LinkId → Link} {reading : τ → Instant}
  {stamp : τ → LinkId → Instant} {inv : σ → Prop} {id : LinkId} {t now : Instant}
  {s₁ s₂ s₁' s₂' : σ} {env : Env}

/-- Twins stay twins when the same link is changed alike in both, or the dead link stays dead. -/
theorem Twins.update (h : Twins link id t s₁ s₂) {k : LinkId} {f : Link → Link}
    (hf : ∀ l, Dead t l → Dead t (f l))
    (h₁ : link s₁' = Function.update (link s₁) k (f (link s₁ k)))
    (h₂ : link s₂' = Function.update (link s₂) k (f (link s₂ k))) : Twins link id t s₁' s₂' := by
  have dead : ∀ {s s' : σ}, link s' = Function.update (link s) k (f (link s k)) →
      Dead t (link s id) → Dead t (link s' id) := by
    intro s s' hs hd
    rw [hs]
    by_cases hk : id = k
    · subst hk
      rw [Function.update_self]
      exact hf _ hd
    · rw [Function.update_of_ne hk]
      exact hd
  refine ⟨fun j hj ↦ ?_, dead h₁ h.left, dead h₂ h.right⟩
  rw [h₁, h₂]
  by_cases hk : j = k
  · subst hk
    rw [Function.update_self, Function.update_self, h.others j hj]
  · rw [Function.update_of_ne hk, Function.update_of_ne hk]
    exact h.others j hj

/-- A list request shows the same of an id. -/
theorem Twins.listResult (h : Twins link id t s₁ s₂) (hS : ByLink S link reading stamp inv)
    (hnow : t ≤ now) (k : LinkId) :
    listResult now k (S.get s₁ k) = listResult now k (S.get s₂ k) := by
  rw [hS.get, hS.get]
  by_cases hk : k = id
  · subst hk
    rw [h.left.listResult hnow, h.right.listResult hnow]
  · rw [h.others k hk]

theorem Twins.listMessages (h : Twins link id t s₁ s₂) (hS : ByLink S link reading stamp inv)
    (hnow : t ≤ now) (body : Option Json) (count : Nat) :
    listMessages S s₁ body count now = listMessages S s₂ body count now := by
  unfold Api.listMessages
  have hresults : (fun k ↦ Api.listResult now k (S.get s₁ k)) =
      fun k ↦ Api.listResult now k (S.get s₂ k) := by
    funext k
    exact h.listResult hS hnow k
  simp only [hresults]

/-- A dead link is not found. -/
theorem getMessage_of_dead (hS : ByLink S link reading stamp inv) {s : σ} (hd : Dead t (link s id))
    (hnow : t ≤ now) (count : Nat) :
    getMessage S s id count now =
      if !isLinkId id then jsonError 400 "bad_request"
      else if GET_RATE_LIMIT_MAX < count then jsonError 429 "rate_limited"
      else jsonError 404 "not_found" := by
  unfold getMessage
  rw [hS.get]
  cases hr : (link s id).row with
  | none => rfl
  | some row =>
    dsimp only
    rcases hd.not_live hnow hr with hs | hdue
    · rw [if_pos hs]
    · rw [if_pos hdue, ite_self]

theorem Twins.getMessage (h : Twins link id t s₁ s₂) (hS : ByLink S link reading stamp inv)
    (hnow : t ≤ now) (k : LinkId) (count : Nat) :
    getMessage S s₁ k count now = getMessage S s₂ k count now := by
  by_cases hk : k = id
  · subst hk
    rw [getMessage_of_dead hS h.left hnow, getMessage_of_dead hS h.right hnow]
  · unfold Api.getMessage
    rw [hS.get, hS.get, h.others k hk]

/-- An open answers from the link, and a dead one is no longer available. -/
theorem Twins.openResponse (h : Twins link id t s₁ s₂) (hS : ByLink S link reading stamp inv)
    (hnow : t ≤ now) (k : LinkId) :
    openResponse (S.getCiphertext s₁ k) ((link s₁ k).openedRow now) =
      openResponse (S.getCiphertext s₂ k) ((link s₂ k).openedRow now) := by
  rw [hS.getCiphertext, hS.getCiphertext]
  by_cases hk : k = id
  · subst hk
    rw [h.left.openedRow hnow, h.right.openedRow hnow]
    rfl
  · rw [h.others k hk]

/-- What one request leaves of twins, and what it answers. -/
structure Alike (link : σ → LinkId → Link) (inv : σ → Prop) (id : LinkId) (t : Instant)
    (r₁ r₂ : HttpResponse × σ) : Prop where
  response : r₁.1 = r₂.1
  twins : Twins link id t r₁.2 r₂.2
  left : inv r₁.2
  right : inv r₂.2

theorem Twins.openMessage (h : Twins link id t s₁ s₂) (hS : ByLink S link reading stamp inv)
    (h₁ : inv s₁) (h₂ : inv s₂) {clock : τ} (hnow : t ≤ reading clock) {k : LinkId} {body : String}
    {count : Nat} {r₁ r₂ : HttpResponse × σ} (hr₁ : openMessage S s₁ clock k body count = some r₁)
    (hr₂ : openMessage S s₂ clock k body count = some r₂) : Alike link inv id t r₁ r₂ := by
  unfold Api.openMessage at hr₁ hr₂
  cases hrejects : rejects k body count with
  | some response =>
    rw [hrejects] at hr₁ hr₂
    cases hr₁
    cases hr₂
    exact ⟨rfl, h, h₁, h₂⟩
  | none =>
    rw [hrejects] at hr₁ hr₂
    obtain ⟨⟨row₁, s₁'⟩, hi₁, rfl⟩ := Option.map_eq_some_iff.mp hr₁
    obtain ⟨⟨row₂, s₂'⟩, hi₂, rfl⟩ := Option.map_eq_some_iff.mp hr₂
    obtain ⟨hinv₁, rfl, hlink₁⟩ := hS.incrementOpens h₁ hi₁
    obtain ⟨hinv₂, rfl, hlink₂⟩ := hS.incrementOpens h₂ hi₂
    refine ⟨congrArg Response.render (h.openResponse hS hnow k), ?_, hinv₁, hinv₂⟩
    refine h.update (f := fun l ↦ l.increment (reading clock) (stamp clock k)) ?_ hlink₁ hlink₂
    intro l hd
    rw [hd.increment hnow]
    exact hd

theorem Twins.revokeMessage (h : Twins link id t s₁ s₂) (hS : ByLink S link reading stamp inv)
    (h₁ : inv s₁) (h₂ : inv s₂) (env : Env) (clock : τ) (k : LinkId) (body : String)
    (token : Option String) (count : Nat) :
    Alike link inv id t (revokeMessage env S s₁ clock k body token count)
      (revokeMessage env S s₂ clock k body token count) := by
  unfold Api.revokeMessage
  split
  · exact ⟨rfl, h, h₁, h₂⟩
  · obtain ⟨hinv₁, hlink₁⟩ := hS.revoke clock k (env.presentedHash token) h₁
    obtain ⟨hinv₂, hlink₂⟩ := hS.revoke clock k (env.presentedHash token) h₂
    refine ⟨rfl, ?_, hinv₁, hinv₂⟩
    exact h.update (f := fun l ↦ l.revoke (env.presentedHash token) (stamp clock k))
      (fun _ hd ↦ hd.revoke _ _) hlink₁ hlink₂

/-- One request is answered alike, and leaves twins. -/
theorem Twins.handle (h : Twins link id t s₁ s₂) (hS : ByLink S link reading stamp inv)
    (h₁ : inv s₁) (h₂ : inv s₂) {x : Exchange τ} (hnow : t ≤ x.now) (hclock : t ≤ reading x.clock)
    {r₁ r₂ : HttpResponse × σ} (hr₁ : handle env S s₁ x = some r₁)
    (hr₂ : handle env S s₂ x = some r₂) : Alike link inv id t r₁ r₂ := by
  obtain ⟨call, count, now, clock⟩ := x
  cases call with
  | getMessage k =>
    cases hr₁
    cases hr₂
    exact ⟨h.getMessage hS hnow k count, h, h₁, h₂⟩
  | listMessages body =>
    cases hr₁
    cases hr₂
    exact ⟨h.listMessages hS hnow body count, h, h₁, h₂⟩
  | openMessage k body => exact h.openMessage hS h₁ h₂ hclock hr₁ hr₂
  | revokeMessage k body token =>
    cases hr₁
    cases hr₂
    exact h.revokeMessage hS h₁ h₂ env clock k body token count

/-- Twins answer every sequence of requests alike. -/
theorem Twins.serve (h : Twins link id t s₁ s₂) (hS : ByLink S link reading stamp inv)
    (h₁ : inv s₁) (h₂ : inv s₂) {xs : List (Exchange τ)}
    (hxs : ∀ x ∈ xs, t ≤ x.now ∧ t ≤ reading x.clock) {rs₁ rs₂ : List HttpResponse}
    (hr₁ : serve env S s₁ xs = some rs₁) (hr₂ : serve env S s₂ xs = some rs₂) : rs₁ = rs₂ := by
  induction xs generalizing s₁ s₂ rs₁ rs₂ with
  | nil =>
    cases hr₁
    cases hr₂
    rfl
  | cons x xs ih =>
    obtain ⟨⟨hnow, hclock⟩, hrest⟩ := List.forall_mem_cons.mp hxs
    unfold Api.serve at hr₁ hr₂
    split at hr₁
    · cases hr₁
    split at hr₂
    · cases hr₂
    rename_i _ response₁ s₁' hx₁ _ response₂ s₂' hx₂
    obtain ⟨rest₁, hs₁, rfl⟩ := Option.map_eq_some_iff.mp hr₁
    obtain ⟨rest₂, hs₂, rfl⟩ := Option.map_eq_some_iff.mp hr₂
    have hstep := h.handle hS h₁ h₂ hnow hclock hx₁ hx₂
    have hresponse : response₁ = response₂ := hstep.response
    rw [hresponse, ih hstep.twins hstep.left hstep.right hrest hs₁ hs₂]

end Twins

/-! ## Both stores -/

theorem byLink_memory : ByLink memoryStores MemoryStore.link Clock.now Clock.stamp fun _ ↦ True where
  get := fun _ _ ↦ rfl
  getCiphertext := fun _ _ ↦ rfl
  incrementOpens := by
    intro s clock id row s' _ h
    have hres : s.incrementOpens id clock = (row, s') := Option.some.inj h
    have hrow := MemoryStore.incrementOpens_fst s id clock
    have hlink := MemoryStore.link_incrementOpens s id clock
    rw [hres] at hrow hlink
    exact ⟨trivial, hrow, hlink⟩
  revoke := fun {s} clock id providedTokenHash _ ↦
    ⟨trivial, MemoryStore.link_revoke s id providedTokenHash clock⟩

theorem byLink_pg : ByLink pgStores Pg.link Pg.toDate (fun now _ ↦ Pg.toDate now) Pg.Aligned where
  get := fun _ _ ↦ rfl
  getCiphertext := fun _ _ ↦ rfl
  incrementOpens := by
    intro db now id row db' ha h
    change (Pg.incrementOpens db id now).toOption = some (row, db') at h
    cases hc : Pg.incrementOpens db id now with
    | error e =>
      rw [hc] at h
      cases h
    | ok result =>
      rw [hc] at h
      cases h
      obtain ⟨hrow, hlink, halign⟩ := Pg.incrementOpens_ok ha hc
      exact ⟨halign, hrow, hlink⟩
  revoke := fun {db} now id providedTokenHash ha ↦
    ⟨Pg.aligned_revoke ha id providedTokenHash now, Pg.link_revoke db id providedTokenHash now⟩

/-- Stores whose states differ in one dead link answer every sequence of calls alike, from the
time on at which the link is dead in both. -/
def Opaque {σ τ : Type} (env : Env) (S : Stores σ τ) (link : σ → LinkId → Link)
    (reading : τ → Instant) (reachable : σ → Prop) : Prop :=
  ∀ id t s₁ s₂ (xs : List (Exchange τ)) rs₁ rs₂, reachable s₁ → reachable s₂ →
    Twins link id t s₁ s₂ → (∀ x ∈ xs, t ≤ x.now ∧ t ≤ reading x.clock) →
      serve env S s₁ xs = some rs₁ → serve env S s₂ xs = some rs₂ → rs₁ = rs₂

theorem ByLink.answers_alike {σ τ : Type} {S : Stores σ τ} {link : σ → LinkId → Link}
    {reading : τ → Instant} {stamp : τ → LinkId → Instant} {inv reachable : σ → Prop} {env : Env}
    (hS : ByLink S link reading stamp inv) (hinv : ∀ s, reachable s → inv s) :
    Opaque env S link reading reachable := by
  intro id t s₁ s₂ xs rs₁ rs₂ h₁ h₂ htwins hxs hr₁ hr₂
  exact htwins.serve hS (hinv s₁ h₁) (hinv s₂ h₂) hxs hr₁ hr₂

/-- The dead links of both stores are opaque, in all states that their servers reach. -/
theorem dead_links_alike (env : Env) :
    Opaque env memoryStores MemoryStore.link Clock.now (fun s ↦ ∃ c,
      (Server.Memory.program env).Reachable .always MemoryStore.empty c ∧ c.shared = s) ∧
    Opaque env pgStores Pg.link Pg.toDate fun db ↦ ∃ c,
      (Server.Postgres.program env).Reachable .always Server.Postgres.State.initial c ∧
        c.shared.db = db := by
  constructor
  · exact byLink_memory.answers_alike fun _ _ ↦ trivial
  · refine byLink_pg.answers_alike ?_
    rintro db ⟨c, hc, rfl⟩
    exact ((Server.Postgres.linkServer env).holds rfl (by rintro id row ⟨⟩) hc).shared.1

/-- A link is created and revoked. -/
def revokedRun : List (Threads.Action Server.Request Server.Memory.Input) :=
  [.spawn (.createWithCiphertext ⟨"AAAAAAAAAAAAAAAA", 1000, 2, none⟩ [7]), .run 0 (.at 1),
    .run 0 (.at 1), .spawn (.revoke "AAAAAAAAAAAAAAAA" none), .run 1 (.at 2)]

def revokedStore : MemoryStore where
  rows := ⟨[some ("AAAAAAAAAAAAAAAA", ⟨"AAAAAAAAAAAAAAAA", .revoked, none, 1000, 2, 0⟩)],
    List.nodup_singleton _⟩
  revocationTokenHashes := ⟨[some ("AAAAAAAAAAAAAAAA", none)], List.nodup_singleton _⟩
  terminalAt := ⟨[some ("AAAAAAAAAAAAAAAA", 2)], List.nodup_singleton _⟩
  ciphertexts := ⟨[none], List.nodup_nil⟩

/-- Every handler looks for the link. -/
def probes : List (Exchange Clock) :=
  [⟨.getMessage "AAAAAAAAAAAAAAAA", 1, 3, .at 3⟩,
    ⟨.listMessages (some (.object [("ids", .array [.string "AAAAAAAAAAAAAAAA"])])), 1, 4, .at 4⟩,
    ⟨.openMessage "AAAAAAAAAAAAAAAA" "", 1, 5, .at 5⟩,
    ⟨.revokeMessage "AAAAAAAAAAAAAAAA" "" none, 1, 6, .at 6⟩]

/-- A revoked link and one that never existed answer alike. -/
theorem dead_links_alike_sample :
    ∃ rs, serve .sample memoryStores revokedStore probes = some rs ∧
      serve .sample memoryStores MemoryStore.empty probes = some rs := by
  have htwins : Twins MemoryStore.link "AAAAAAAAAAAAAAAA" 2 revokedStore MemoryStore.empty := by
    refine ⟨?_, .revoked _ rfl rfl, .unknown rfl⟩
    intro j hj
    rw [MemoryStore.link_empty]
    simp [MemoryStore.link, revokedStore, OrderedMap.get?, Slots.lookup, hj.symm, Link.vacant]
  have hrevoked : ∃ c, (Server.Memory.program .sample).Reachable .always MemoryStore.empty c ∧
      c.shared = revokedStore := by
    have hrun : ∃ c, (Server.Memory.program .sample).exec .always
        (Threads.Program.start MemoryStore.empty) revokedRun = some c ∧ c.shared = revokedStore :=
      ⟨_, rfl, rfl⟩
    obtain ⟨c, hc, hshared⟩ := hrun
    exact ⟨c, Threads.Program.runs_of_exec hc, hshared⟩
  obtain ⟨rs₁, h₁⟩ : ∃ rs, serve .sample memoryStores revokedStore probes = some rs := ⟨_, rfl⟩
  obtain ⟨rs₂, h₂⟩ : ∃ rs, serve .sample memoryStores MemoryStore.empty probes = some rs :=
    ⟨_, rfl⟩
  have halike := (dead_links_alike .sample).1 _ _ _ _ probes _ _ hrevoked ⟨_, .refl, rfl⟩ htwins
    (by decide) h₁ h₂
  exact ⟨rs₁, h₁, halike ▸ h₂⟩

end Aesmsg.Api
