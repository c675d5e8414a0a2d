import Mathlib.Data.List.Nodup

/-!
# First occurrences

`dedupeBy key` keeps, of the elements of a list with one key, the first.

## Main results

- `nodup_dedupeBy`: the keys of what is kept are distinct.
- `exists_mem_dedupeBy`: no key is dropped.
- `find?_dedupeBy`: the first element with a key stays the first.
- `dedupeBy_cons`: the recursion without the list of seen keys.
- `dedupeBy_of_nodup`: nothing is dropped where the keys are distinct, so `dedupeBy` is idempotent.
-/

namespace Dedupe

variable {α κ : Type} [DecidableEq κ]

/-- The elements whose keys have not been seen, each key once. -/
def loop (key : α → κ) : List κ → List α → List α
  | _, [] => []
  | seen, x :: xs => if key x ∈ seen then loop key seen xs else x :: loop key (key x :: seen) xs

def dedupeBy (key : α → κ) (xs : List α) : List α := loop key [] xs

variable {key : α → κ} {seen : List κ} {x : α} {xs : List α}

theorem loop_cons_of_mem (h : key x ∈ seen) : loop key seen (x :: xs) = loop key seen xs := if_pos h

theorem loop_cons_of_not_mem (h : key x ∉ seen) :
    loop key seen (x :: xs) = x :: loop key (key x :: seen) xs := if_neg h

theorem loop_sublist : (loop key seen xs).Sublist xs := by
  induction xs generalizing seen with
  | nil => exact .slnil
  | cons y ys ih =>
    by_cases hy : key y ∈ seen
    · rw [loop_cons_of_mem hy]
      exact .cons _ ih
    · rw [loop_cons_of_not_mem hy]
      exact .cons_cons _ ih

/-- What is kept has a key that had not been seen. -/
theorem key_not_mem_seen (h : x ∈ loop key seen xs) : key x ∉ seen := by
  induction xs generalizing seen with
  | nil => cases h
  | cons y ys ih =>
    by_cases hy : key y ∈ seen
    · rw [loop_cons_of_mem hy] at h
      exact ih h
    · rw [loop_cons_of_not_mem hy, List.mem_cons] at h
      rcases h with rfl | h
      · exact hy
      · exact fun hx ↦ ih h (List.mem_cons_of_mem _ hx)

theorem nodup_loop : ((loop key seen xs).map key).Nodup := by
  induction xs generalizing seen with
  | nil => exact .nil
  | cons y ys ih =>
    by_cases hy : key y ∈ seen
    · rw [loop_cons_of_mem hy]
      exact ih
    · rw [loop_cons_of_not_mem hy, List.map_cons, List.nodup_cons]
      refine ⟨?_, ih⟩
      intro hmem
      obtain ⟨z, hz, hkey⟩ := List.mem_map.mp hmem
      exact key_not_mem_seen hz (hkey ▸ List.mem_cons_self)

theorem loop_of_nodup (hnodup : (xs.map key).Nodup) (hseen : ∀ x ∈ xs, key x ∉ seen) :
    loop key seen xs = xs := by
  induction xs generalizing seen with
  | nil => rfl
  | cons y ys ih =>
    rw [List.map_cons, List.nodup_cons] at hnodup
    obtain ⟨hy, hys⟩ := hnodup
    rw [loop_cons_of_not_mem (hseen y List.mem_cons_self), ih hys]
    intro z hz hmem
    rcases List.mem_cons.mp hmem with hkey | hmem
    · exact hy (hkey ▸ List.mem_map_of_mem hz)
    · exact hseen z (List.mem_cons_of_mem _ hz) hmem

theorem loop_congr {seen' : List κ} (h : ∀ k, k ∈ seen ↔ k ∈ seen') :
    loop key seen xs = loop key seen' xs := by
  induction xs generalizing seen seen' with
  | nil => rfl
  | cons y ys ih =>
    by_cases hy : key y ∈ seen
    · rw [loop_cons_of_mem hy, loop_cons_of_mem ((h _).mp hy), ih h]
    · rw [loop_cons_of_not_mem hy, loop_cons_of_not_mem (mt (h _).mpr hy)]
      congr 1
      exact ih fun k ↦ by rw [List.mem_cons, List.mem_cons, h k]

/-- One more key that has been seen drops the elements with that key. -/
theorem loop_cons_seen (a : κ) :
    loop key (a :: seen) xs = (loop key seen xs).filter (key · ≠ a) := by
  induction xs generalizing seen with
  | nil => rfl
  | cons y ys ih =>
    by_cases hy : key y ∈ seen
    · rw [loop_cons_of_mem hy, loop_cons_of_mem (List.mem_cons_of_mem _ hy), ih]
    · by_cases ha : key y = a
      · subst ha
        rw [loop_cons_of_mem List.mem_cons_self, loop_cons_of_not_mem hy,
          List.filter_cons_of_neg (by simp), List.filter_eq_self.mpr]
        intro z hz
        have hseen := key_not_mem_seen hz
        rw [List.mem_cons, not_or] at hseen
        exact decide_eq_true hseen.1
      · have hay : key y ∉ a :: seen := by
          rw [List.mem_cons, not_or]
          exact ⟨ha, hy⟩
        rw [loop_cons_of_not_mem hay, loop_cons_of_not_mem hy,
          List.filter_cons_of_pos (by simpa using ha), ← ih]
        congr 1
        exact loop_congr fun k ↦ by
          rw [List.mem_cons, List.mem_cons, List.mem_cons, List.mem_cons]
          exact or_left_comm

theorem dedupeBy_sublist : (dedupeBy key xs).Sublist xs := loop_sublist

theorem nodup_dedupeBy : ((dedupeBy key xs).map key).Nodup := nodup_loop

theorem dedupeBy_of_nodup (h : (xs.map key).Nodup) : dedupeBy key xs = xs :=
  loop_of_nodup h fun _ _ ↦ List.not_mem_nil

theorem dedupeBy_dedupeBy : dedupeBy key (dedupeBy key xs) = dedupeBy key xs :=
  dedupeBy_of_nodup nodup_dedupeBy

/-- The first element is kept, and the later ones of its key are dropped. -/
theorem dedupeBy_cons : dedupeBy key (x :: xs) = x :: (dedupeBy key xs).filter (key · ≠ key x) := by
  unfold dedupeBy
  rw [loop_cons_of_not_mem List.not_mem_nil, loop_cons_seen]

/-- No key is dropped. -/
theorem exists_mem_dedupeBy {y : α} (h : y ∈ xs) : ∃ z ∈ dedupeBy key xs, key z = key y := by
  induction xs with
  | nil => cases h
  | cons x xs ih =>
    rw [dedupeBy_cons]
    by_cases hxy : key y = key x
    · exact ⟨x, List.mem_cons_self, hxy.symm⟩
    · have hy : y ∈ xs := (List.mem_cons.mp h).resolve_left fun heq ↦ hxy (congrArg key heq)
      obtain ⟨z, hz, hkey⟩ := ih hy
      have hzx : key z ≠ key x := fun heq ↦ hxy (hkey.symm.trans heq)
      exact ⟨z, List.mem_cons_of_mem _ (List.mem_filter.mpr ⟨hz, by simpa using hzx⟩), hkey⟩

/-- The first element is kept. -/
theorem head_mem_dedupeBy : x ∈ dedupeBy key (x :: xs) := by
  rw [dedupeBy_cons]
  exact List.mem_cons_self

theorem mem_keys_dedupeBy {k : κ} : k ∈ (dedupeBy key xs).map key ↔ k ∈ xs.map key := by
  constructor
  · exact fun h ↦ (dedupeBy_sublist.map key).subset h
  · intro h
    obtain ⟨y, hy, rfl⟩ := List.mem_map.mp h
    exact List.mem_map.mpr (exists_mem_dedupeBy hy)

/-- The first element with a key stays the first. -/
theorem find?_dedupeBy (k : κ) : (dedupeBy key xs).find? (key · = k) = xs.find? (key · = k) := by
  induction xs with
  | nil => rfl
  | cons x xs ih =>
    rw [dedupeBy_cons]
    by_cases hx : key x = k
    · exact (List.find?_cons_of_pos (by simpa using hx)).trans
        (List.find?_cons_of_pos (by simpa using hx)).symm
    · have hfilter : ((dedupeBy key xs).filter (key · ≠ key x)).find? (key · = k) =
          (dedupeBy key xs).find? (key · = k) := by
        rw [List.find?_filter]
        congr 1
        funext y
        refine decide_eq_decide.mpr ⟨fun h ↦ of_decide_eq_true h.2, fun hy ↦ ?_⟩
        have hyx : key y ≠ key x := fun heq ↦ hx (heq.symm.trans hy)
        exact ⟨decide_eq_true hyx, decide_eq_true hy⟩
      rw [List.find?_cons_of_neg (by simpa using hx), List.find?_cons_of_neg (by simpa using hx),
        hfilter, ih]

/-- A map that keeps keys apart can be made before or after. -/
theorem dedupeBy_map {β μ : Type} [DecidableEq μ] {key' : β → μ} {f : β → α}
    (h : ∀ a b, key (f a) = key (f b) ↔ key' a = key' b) (ys : List β) :
    dedupeBy key (ys.map f) = (dedupeBy key' ys).map f := by
  induction ys with
  | nil => rfl
  | cons y ys ih =>
    have hfilter : (fun z ↦ decide (key z ≠ key (f y))) ∘ f = fun z ↦ decide (key' z ≠ key' y) := by
      funext z
      exact decide_eq_decide.mpr (not_congr (h z y))
    rw [List.map_cons, dedupeBy_cons, dedupeBy_cons, ih, List.filter_map, hfilter, List.map_cons]

end Dedupe
