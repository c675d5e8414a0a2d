import Aesmsg.Lib.Threads

/-!
# Clients of a server

Threads of a client on a state of its own, next to the threads of a server.  A client sends requests;
while it waits for the answer, its thread serves the request on the server.

## Main results

- `Client.keeps`: the obligations of a thread-modular proof, for the server and for the client apart.
- `Client.runs_keep`: what the steps of server and client keep of a world holds along a run.
-/

namespace Threads

/-- What a client does next. -/
inductive Next (ρ F L : Type) where
  | go (f : F) (device : L)
  /-- It sends a request and waits for the answer. -/
  | send (request : ρ) (f : F)

/-- `κ` are the calls of a client, `F` tells where a call stands, `L` is the state of its device and
`α` what the server answers.  A step reads an input `χ`. -/
structure Client (ρ κ χ F L α : Type) where
  init : κ → F
  step : χ → F → L → Option (Next ρ F L)
  receive : F → α → F

namespace Client

inductive Pc (P F : Type) where
  /-- A request of anybody else. -/
  | serving (p : P)
  | own (f : F)
  /-- A call that waits for the answer to its request. -/
  | waiting (f : F) (p : P)

def Pc.own? {P F : Type} : Pc P F → Option F
  | own f => some f
  | _ => none

structure World (σ L : Type) where
  server : σ
  device : L

variable {ρ κ χ χ' P σ ε F L α : Type}

section Program

variable (A : Client ρ κ χ' F L α) (M : Program ρ χ P σ ε) (answer? : List ε → Option α)

/-- Where a call stands after its client's step. -/
def took (M : Program ρ χ P σ ε) (w : World σ L) : Next ρ F L → Pc P F × World σ L × List ε
  | .go f device => (.own f, { w with device := device }, [])
  | .send request f => (.waiting f (M.init request), w, [])

/-- Where a call stands after a step of the thread that serves it. -/
def heard (f : F) (p : P) (es : List ε) : Pc P F :=
  match answer? es with
  | some answer => .own (A.receive f answer)
  | none => .waiting f p

def advance (i : Nat) (x : χ × χ') : Pc P F → World σ L → Option (Pc P F × World σ L × List ε)
  | .serving p, w =>
    (M.step i x.1 p w.server).map fun (p', s', es) ↦ (.serving p', { w with server := s' }, es)
  | .own f, w => (A.step x.2 f w.device).map (took M w)
  | .waiting f p, w =>
    (M.step i x.1 p w.server).map fun (p', s', es) ↦
      (heard A answer? f p' es, { w with server := s' }, es)

/-- The server and the client, as threads on one world. -/
def program : Program (ρ ⊕ κ) (χ × χ') (Pc P F) (World σ L) ε where
  init
    | .inl request => .serving (M.init request)
    | .inr call => .own (A.init call)
  step := advance A M answer?

end Program

/-! ## Invariants -/

/-- A condition on the steps of the client. -/
def guard (ok : χ' → F → World σ L → Trace ε → Prop) :
    Program.Guard (χ × χ') (Pc P F) (World σ L) ε := fun _ x pc w t ↦
  match pc with
  | .own f => ok x.2 f w t
  | _ => True

instance (ok : χ' → F → World σ L → Trace ε → Prop) [h : ∀ x f w t, Decidable (ok x f w t)] (i : Nat)
    (x : χ × χ') (pc : Pc P F) (w : World σ L) (t : Trace ε) : Decidable (guard ok i x pc w t) :=
  match pc with
  | .own f => h x.2 f w t
  | .serving _ | .waiting .. => isTrue trivial

/-- The assertions of the threads: `Lo` of a call of the client, `Lw` of one that waits for the thread
that serves its request. -/
def assertion (Lo : F → σ → Trace ε → Prop) (Lw : F → P → σ → Trace ε → Prop) :
    Nat → Pc P F → World σ L → Trace ε → Prop := fun _ pc w t ↦
  match pc with
  | .serving _ => True
  | .own f => Lo f w.server t
  | .waiting f p => Lw f p w.server t

/-- The obligations of a proof about a client of a server, with invariants `I` of the server and `D` of
the device. -/
structure Obligations (A : Client ρ κ χ' F L α) (M : Program ρ χ P σ ε) (answer? : List ε → Option α)
    (ok : χ' → F → World σ L → Trace ε → Prop) (I : σ → Trace ε → Prop) (D : L → Trace ε → Prop)
    (Lo : F → σ → Trace ε → Prop) (Lw : F → P → σ → Trace ε → Prop) : Prop where
  server : ∀ {i x p s t p' s' es}, I s t → M.step i x p s = some (p', s', es) →
    I s' (tag i es ++ t)
  /-- A step of the server leaves the assertions of the others. -/
  stable : ∀ {i x p s t p' s' es}, I s t → M.step i x p s = some (p', s', es) →
    (∀ f, Lo f s t → Lo f s' (tag i es ++ t)) ∧ ∀ f q, Lw f q s t → Lw f q s' (tag i es ++ t)
  older : ∀ {i es t device}, D device t → D device (tag i es ++ t)
  init : ∀ call s t, I s t → Lo (A.init call) s t
  go : ∀ {x f s t device f' device'}, ok x f ⟨s, device⟩ t → I s t → D device t → Lo f s t →
    A.step x f device = some (.go f' device') → D device' t ∧ Lo f' s t
  send : ∀ {x f s t device request f'}, ok x f ⟨s, device⟩ t → I s t → D device t → Lo f s t →
    A.step x f device = some (.send request f') → Lw f' (M.init request) s t
  wait : ∀ {i x f p s t p' s' es}, I s t → Lw f p s t → M.step i x p s = some (p', s', es) →
    answer? es = none → Lw f p' s' (tag i es ++ t)
  receive : ∀ {i x f p s t p' s' es answer}, I s t → Lw f p s t →
    M.step i x p s = some (p', s', es) → answer? es = some answer →
      Lo (A.receive f answer) s' (tag i es ++ t)

section Keeps

variable {A : Client ρ κ χ' F L α} {M : Program ρ χ P σ ε} {answer? : List ε → Option α}
  {ok : χ' → F → World σ L → Trace ε → Prop} {I : σ → Trace ε → Prop} {D : L → Trace ε → Prop}
  {Lo : F → σ → Trace ε → Prop} {Lw : F → P → σ → Trace ε → Prop}

/-- What a step is: of the server, for the client or anybody else, or of the client. -/
theorem step_cases {i : Nat} {x : χ × χ'} {pc pc' : Pc P F} {w w' : World σ L} {es : List ε}
    (h : (program A M answer?).step i x pc w = some (pc', w', es)) :
    (∃ p p' s', M.step i x.1 p w.server = some (p', s', es) ∧ w' = { w with server := s' } ∧
      ((pc = .serving p ∧ pc' = .serving p') ∨
        ∃ f, pc = .waiting f p ∧ pc' = heard A answer? f p' es)) ∨
    ∃ f next, pc = .own f ∧ A.step x.2 f w.device = some next ∧ took M w next = (pc', w', es) := by
  cases pc with
  | serving p =>
    obtain ⟨⟨p', s', es'⟩, hstep, heq⟩ := Option.map_eq_some_iff.mp h
    cases heq
    exact .inl ⟨p, p', s', hstep, rfl, .inl ⟨rfl, rfl⟩⟩
  | own f =>
    obtain ⟨next, hstep, heq⟩ := Option.map_eq_some_iff.mp h
    exact .inr ⟨f, next, rfl, hstep, heq⟩
  | waiting f p =>
    obtain ⟨⟨p', s', es'⟩, hstep, heq⟩ := Option.map_eq_some_iff.mp h
    cases heq
    exact .inl ⟨p, p', s', hstep, rfl, .inr ⟨f, rfl, rfl⟩⟩

/-- The proof of the whole from the proofs of the server and of the client. -/
theorem keeps (h : Obligations A M answer? ok I D Lo Lw) :
    Program.Keeps (program A M answer?) (guard ok) (fun w t ↦ I w.server t ∧ D w.device t)
      (assertion Lo Lw) where
  born := by
    intro i request w t hI _
    cases request with
    | inl request => trivial
    | inr call => exact h.init call w.server t hI.1
  own := by
    rintro i x pc ⟨s, device⟩ t pc' ⟨s', device'⟩ es hok ⟨hI, hD⟩ hL hstep
    rcases step_cases hstep with ⟨p, p', s₁, hserver, heq, hpc⟩ | ⟨f, next, rfl, hclient, htook⟩
    · cases heq
      refine ⟨⟨h.server hI hserver, h.older hD⟩, ?_⟩
      rcases hpc with ⟨rfl, rfl⟩ | ⟨f, rfl, rfl⟩
      · trivial
      · unfold heard
        split
        · rename_i answer hanswer
          exact h.receive hI hL hserver hanswer
        · rename_i hnone
          exact h.wait hI hL hserver hnone
    · cases next with
      | go f' device₁ =>
        cases htook
        obtain ⟨hD', hL'⟩ := h.go hok hI hD hL hclient
        exact ⟨⟨hI, hD'⟩, hL'⟩
      | send request f' =>
        cases htook
        exact ⟨⟨hI, hD⟩, h.send hok hI hD hL hclient⟩
  others := by
    rintro i x pc ⟨s, device⟩ t pc' ⟨s', device'⟩ es j q _ _ ⟨hI, -⟩ _ hstep hq
    rcases step_cases hstep with ⟨p, p', s₁, hserver, heq, -⟩ | ⟨f, next, rfl, -, htook⟩
    · cases heq
      obtain ⟨hown, hwaiting⟩ := h.stable hI hserver
      cases q with
      | serving q => trivial
      | own f => exact hown f hq
      | waiting f q => exact hwaiting f q hq
    · cases next with
      | go f' device₁ =>
        cases htook
        exact hq
      | send request f' =>
        cases htook
        exact hq

/-- A stronger condition on the steps leaves the obligations. -/
theorem Obligations.strengthen (h : Obligations A M answer? ok I D Lo Lw)
    {ok' : χ' → F → World σ L → Trace ε → Prop} (hok : ∀ {x f w t}, ok' x f w t → ok x f w t) :
    Obligations A M answer? ok' I D Lo Lw :=
  { h with
    go := fun hmeets ↦ h.go (hok hmeets)
    send := fun hmeets ↦ h.send (hok hmeets) }

/-- What the steps of the server and of the client keep of a world holds along a run. -/
theorem runs_keep (h : Obligations A M answer? ok I D Lo Lw) {K : World σ L → Trace ε → Prop}
    (server : ∀ {i x p s t p' s' es device}, I s t → K ⟨s, device⟩ t →
      M.step i x p s = some (p', s', es) → K ⟨s', device⟩ (tag i es ++ t))
    (go : ∀ {x f s t device f' device'}, ok x f ⟨s, device⟩ t → D device t → Lo f s t →
      K ⟨s, device⟩ t → A.step x f device = some (.go f' device') → K ⟨s, device'⟩ t)
    {w₀ : World σ L} (hinit : I w₀.server [] ∧ D w₀.device []) {c c' : Config (Pc P F) (World σ L) ε}
    (hc : (program A M answer?).Reachable (guard ok) w₀ c)
    (hruns : (program A M answer?).Runs (guard ok) c c') (hK : K c.shared c.trace) :
    K c'.shared c'.trace := by
  have hstrong := (keeps h).runs_strengthen (Program.invariant (keeps h) hinit hc) hruns
  clear hruns
  induction hstrong with
  | refl => exact hK
  | tail _ hstep ih =>
    cases hstep with
    | spawn => exact ih
    | @run i x pc pc' w' es thread meets hs =>
      obtain ⟨hok, ⟨hI, hD⟩, hL⟩ := meets
      rcases step_cases hs with ⟨p, p', s', hserver, hw, -⟩ | ⟨f, next, rfl, hclient, htook⟩
      · subst hw
        exact server hI ih hserver
      · cases next with
        | go f' device' =>
          cases htook
          exact go hok hD hL ih hclient
        | send request f' =>
          cases htook
          exact ih

end Keeps

end Client

end Threads
