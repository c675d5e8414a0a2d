import Aesmsg.Server.MemorySteps
import Aesmsg.Server.PostgresSteps

/-!
# At most `maxOpens` deliveries

The bound on the opens of one row, for every interleaving of requests and store operations on either
store.

## Main results

- `opens_capped`: both servers count at most `maxOpens` opens on a row and deliver no more often.
-/

namespace Aesmsg.Server

open Store Api Threads

/-- The opens of every row that a run inserts, where `creator` is the thread that inserted it. -/
structure OpensCapped {χ P σ : Type} (M : Program Request χ P σ Event) (links : σ → Links) (s₀ : σ) :
    Prop where
  /-- The successful opens of a bounded row return the counts `1..k` for some `k` up to `maxOpens`,
  and no more requests are answered 200 with its ciphertext. -/
  bounded : ∀ c, M.Reachable .always s₀ c → ∀ creator record,
    (creator, .inserted record) ∈ c.trace → 0 < record.maxOpens →
      ∃ k : Nat, (k : Int) ≤ record.maxOpens ∧
        ((opensOf creator c.trace).map (·.2.opensCount)).reverse = List.range' 1 k ∧
        (deliveries creator c.trace).length ≤ k
  /-- An open that succeeds has read the clock before the expiry of its row. -/
  timely : ∀ c, M.Reachable .always s₀ c → ∀ i id row now,
    (i, .opened id row now) ∈ c.trace → now < row.expiresAt
  /-- No open succeeds on a row that is terminal or gone. -/
  final : ∀ c c', M.Reachable .always s₀ c → M.Runs .always c c' → ∀ creator,
    (∃ record, (creator, .inserted record) ∈ c.trace) → LinkServer.RowClosed links creator c →
      opensOf creator c'.trace = opensOf creator c.trace

theorem LinkServer.opensCapped {χ P σ : Type} {env : Env} {M : Program Request χ P σ Event}
    {links : σ → Links} {stage : P → Stage} {inv : σ → Prop} {s₀ : σ}
    (h : LinkServer env M links stage inv) (hempty : links s₀ = fun _ ↦ Link.vacant)
    (hinv : inv s₀) : OpensCapped M links s₀ where
  bounded := fun _ hc _ _ hi hpos ↦ h.opens_bounded hempty hinv hc hi hpos
  timely := fun _ hc ↦ (h.holds hempty hinv hc).shared.ledger.timely
  final := fun _ _ hc hruns _ hi hclosed ↦ h.opens_final hempty hinv hc hruns hi hclosed

/-- At most `maxOpens` opens of a row succeed, and at most that many are delivered. -/
theorem opens_capped (env : Env) :
    OpensCapped (Memory.program env) MemoryStore.link MemoryStore.empty ∧
      OpensCapped (Postgres.program env) Postgres.links Postgres.State.initial := by
  constructor
  · exact (Memory.linkServer env).opensCapped rfl trivial
  · refine (Postgres.linkServer env).opensCapped rfl ?_
    rintro id row ⟨⟩

/-- Three requests open a link for two: each reads the ciphertext before any of them counts. -/
def threeOpens : List (Action Request Memory.Input) :=
  [.spawn (.createWithCiphertext ⟨"AAAAAAAAAAAAAAAA", 1000, 2, none⟩ [7]),
    .spawn (.openMessage "AAAAAAAAAAAAAAAA" ""), .spawn (.openMessage "AAAAAAAAAAAAAAAA" ""),
    .spawn (.openMessage "AAAAAAAAAAAAAAAA" ""),
    .run 0 (.at 1), .run 0 (.at 1), .run 1 (.at 2), .run 2 (.at 2), .run 3 (.at 2), .run 3 (.at 3),
    .run 1 (.at 4), .run 2 (.at 5), .run 1 (.at 5), .run 2 (.at 6), .run 3 (.at 6)]

theorem opens_capped_sample :
    ∃ c, (Memory.program .sample).exec .always (Program.start MemoryStore.empty) threeOpens = some c ∧
      deliveries 0 c.trace = [3, 1] ∧
      ∃ k : Nat, (k : Int) ≤ 2 ∧
        ((opensOf 0 c.trace).map (·.2.opensCount)).reverse = List.range' 1 k ∧
        (deliveries 0 c.trace).length ≤ k := by
  have hrun : ((Memory.program .sample).exec .always (Program.start MemoryStore.empty) threeOpens).map
      (fun c ↦ (deliveries 0 c.trace,
        decide ((0, Event.inserted ⟨"AAAAAAAAAAAAAAAA", 1000, 2, none⟩) ∈ c.trace))) =
      some ([3, 1], true) := by
    decide
  obtain ⟨c, hc, hv⟩ := Option.map_eq_some_iff.mp hrun
  obtain ⟨hd, hi⟩ := Prod.mk.inj hv
  exact ⟨c, hc, hd, (opens_capped .sample).1.bounded c (Program.runs_of_exec hc) 0 _ 
    (of_decide_eq_true hi) (by decide)⟩

end Aesmsg.Server
