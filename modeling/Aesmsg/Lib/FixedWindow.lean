import Mathlib.Algebra.Order.Group.Unbundled.Int
import Mathlib.Data.List.Nodup
import Mathlib.Tactic.Ring

/-!
# Counts in fixed windows

A call is answered by a count, or by an error, and let through if the count is at most a limit.  The
newest call comes first.

## Main results

- `Numbered.countP_le_mul`: no more calls are let through than the limit for each key.
- `ediv_eq_or`: an interval as long as the windows meets two of them.
-/

namespace FixedWindow

variable {α κ ε : Type} [DecidableEq κ] {f : α → κ} {l : List (α × Except ε Nat)}

/-- A count is let through by a limit, an error is not. -/
def admits (limit : Nat) : Except ε Nat → Bool
  | .ok count => count ≤ limit
  | .error _ => false

variable (f) in
/-- Each count exceeds the number of counts before it with the same key. -/
def Numbered : List (α × Except ε Nat) → Prop
  | [] => True
  | (a, answer) :: l =>
    (∀ count, answer = .ok count → (l.countP fun p ↦ f p.1 = f a ∧ p.2.isOk) < count) ∧ Numbered l

theorem isOk_of_admits {limit : Nat} {answer : Except ε Nat} (h : admits limit answer = true) :
    answer.isOk = true := by
  cases answer with
  | ok => rfl
  | error => cases h

/-- The calls with one key that are let through. -/
theorem Numbered.countP_le (h : Numbered f l) (limit : Nat) (k : κ) :
    (l.countP fun p ↦ f p.1 = k ∧ admits limit p.2) ≤ limit := by
  induction l with
  | nil => exact Nat.zero_le _
  | cons first l ih =>
    obtain ⟨a, answer⟩ := first
    by_cases hfirst : f a = k ∧ admits limit answer
    · obtain ⟨rfl, hadmits⟩ := hfirst
      rw [List.countP_cons_of_pos (by simpa using hadmits)]
      cases answer with
      | error => cases hadmits
      | ok count =>
        have hle : (l.countP fun p ↦ f p.1 = f a ∧ admits limit p.2) ≤
            l.countP fun p ↦ f p.1 = f a ∧ p.2.isOk := by
          refine List.countP_mono_left fun p _ hp ↦ ?_
          obtain ⟨hkey, hadmits'⟩ := of_decide_eq_true hp
          exact decide_eq_true ⟨hkey, isOk_of_admits hadmits'⟩
        have hlt := h.1 count rfl
        have hcount : count ≤ limit := of_decide_eq_true hadmits
        omega
    · rw [List.countP_cons_of_neg (by simpa using hfirst)]
      exact ih h.2

/-- The calls with some keys that are let through. -/
theorem Numbered.countP_le_mul (h : Numbered f l) (limit : Nat) {keys : List κ} {p : α → Bool}
    (hkeys : ∀ a ∈ l, p a.1 = true → f a.1 ∈ keys) :
    (l.countP fun a ↦ p a.1 && admits limit a.2) ≤ keys.length * limit := by
  induction keys generalizing p with
  | nil =>
    rw [List.length_nil, Nat.zero_mul]
    refine (List.countP_eq_zero.mpr fun a ha hadmits ↦ ?_).le
    exact List.not_mem_nil (hkeys a ha (Bool.and_elim_left hadmits))
  | cons k keys ih =>
    have hrest := ih (p := fun a ↦ p a && f a ≠ k) fun a ha hp ↦ by
      rw [Bool.and_eq_true, decide_eq_true_iff] at hp
      exact List.mem_of_ne_of_mem hp.2 (hkeys a ha hp.1)
    have hsplit : (l.countP fun a ↦ p a.1 && admits limit a.2) ≤
        (l.countP fun a ↦ f a.1 = k ∧ admits limit a.2) +
          l.countP fun a ↦ (p a.1 && f a.1 ≠ k) && admits limit a.2 := by
      rw [List.countP_eq_countP_filter_add _ _ (fun a ↦ f a.1 = k), List.countP_filter, List.countP_filter]
      refine Nat.add_le_add (List.countP_mono_left fun a _ ha ↦ ?_) (List.countP_mono_left fun a _ ha ↦ ?_)
      · rw [Bool.and_eq_true, Bool.and_eq_true, decide_eq_true_iff] at ha
        exact decide_eq_true ⟨ha.2, ha.1.2⟩
      · rw [Bool.and_eq_true, Bool.and_eq_true, Bool.not_eq_true', decide_eq_false_iff_not] at ha
        rw [Bool.and_eq_true, Bool.and_eq_true, decide_eq_true_iff]
        exact ⟨⟨ha.1.1, ha.2⟩, ha.1.2⟩
    have hfirst := h.countP_le limit k
    rw [List.length_cons, Nat.succ_mul]
    omega

/-- The windows that an interval of their width meets. -/
theorem ediv_eq_or {width start t : Int} (hwidth : 0 < width) (hstart : start ≤ t)
    (ht : t < start + width) : t / width = start / width ∨ t / width = start / width + 1 := by
  have hlow : start / width ≤ t / width := Int.ediv_le_ediv hwidth hstart
  have hhigh : t / width < start / width + 2 := by
    refine Int.ediv_lt_of_lt_mul hwidth ?_
    have hnext := Int.lt_ediv_add_one_mul_self start hwidth
    rw [Int.add_mul] at hnext ⊢
    omega
  omega

end FixedWindow
