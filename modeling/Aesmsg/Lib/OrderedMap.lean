import Mathlib.Data.List.Nodup
import Mathlib.Data.List.Perm.Subperm

/-!
# Insertion-ordered maps

A JavaScript `Map` is a list of slots: `set` overwrites the slot of a present key and appends one
for a new key, and `delete` empties a slot without moving the others.  A `for .. of` loop is a
position in that list, so a loop that is suspended meets what is inserted behind it and skips what
is deleted before it gets there.

## Main results

- `OrderedMap.get?_set`, `OrderedMap.get?_delete`: lookups after an update.
- `OrderedMap.next_eq_some`: what a live iteration may return.
- `foldl_view`, `foldl_count`: a loop whose body only touches the part of the state that belongs to
  its own key.
-/

namespace Slots

variable {κ α : Type} [DecidableEq κ]

def keys (l : List (Option (κ × α))) : List κ := l.filterMap (Option.map Prod.fst)

def lookup : List (Option (κ × α)) → κ → Option α
  | [], _ => none
  | none :: l, k => lookup l k
  | some (j, v) :: l, k => if j = k then some v else lookup l k

/-- Overwrite the slot of `k`, emptying it when there is no new entry. -/
def overwrite (l : List (Option (κ × α))) (k : κ) (e : Option (κ × α)) : List (Option (κ × α)) :=
  l.map fun slot ↦ if slot.map Prod.fst = some k then e else slot

omit [DecidableEq κ] in
@[simp] theorem keys_nil : keys ([] : List (Option (κ × α))) = [] := rfl

omit [DecidableEq κ] in
@[simp] theorem keys_none (l : List (Option (κ × α))) : keys (none :: l) = keys l := rfl

omit [DecidableEq κ] in
@[simp] theorem keys_some (j : κ) (v : α) (l : List (Option (κ × α))) :
    keys (some (j, v) :: l) = j :: keys l := rfl

@[simp] theorem overwrite_nil (k : κ) (e : Option (κ × α)) : overwrite [] k e = [] := rfl

@[simp] theorem overwrite_none (l : List (Option (κ × α))) (k : κ) (e : Option (κ × α)) :
    overwrite (none :: l) k e = none :: overwrite l k e := rfl

@[simp] theorem overwrite_some (j : κ) (v : α) (l : List (Option (κ × α))) (k : κ)
    (e : Option (κ × α)) :
    overwrite (some (j, v) :: l) k e = (if j = k then e else some (j, v)) :: overwrite l k e := by
  simp [overwrite]

theorem mem_keys_iff {l : List (Option (κ × α))} {k : κ} : k ∈ keys l ↔ ∃ v, lookup l k = some v := by
  induction l with
  | nil => simp [lookup]
  | cons slot l ih =>
    rcases slot with _ | ⟨j, v⟩
    · simpa [lookup] using ih
    · by_cases hj : j = k
      · simp [lookup, hj]
      · simpa [lookup, hj, Ne.symm hj] using ih

theorem lookup_eq_none_iff {l : List (Option (κ × α))} {k : κ} :
    lookup l k = none ↔ k ∉ keys l := by
  rw [mem_keys_iff, Option.eq_none_iff_forall_ne_some, not_exists]

theorem keys_erase (l : List (Option (κ × α))) (k : κ) :
    keys (overwrite l k none) = (keys l).filter (· ≠ k) := by
  induction l with
  | nil => rfl
  | cons slot l ih =>
    rcases slot with _ | ⟨j, v⟩
    · simpa using ih
    · by_cases hj : j = k
      · simpa [hj] using ih
      · simpa [hj] using ih

theorem keys_replace (l : List (Option (κ × α))) (k : κ) (v : α) :
    keys (overwrite l k (some (k, v))) = keys l := by
  induction l with
  | nil => rfl
  | cons slot l ih =>
    rcases slot with _ | ⟨j, w⟩
    · simpa using ih
    · by_cases hj : j = k
      · simpa [hj] using ih
      · simpa [hj] using ih

theorem lookup_overwrite_ne {l : List (Option (κ × α))} {k j : κ} {e : Option (κ × α)}
    (he : ∀ k' v, e = some (k', v) → k' = k) (h : j ≠ k) :
    lookup (overwrite l k e) j = lookup l j := by
  induction l with
  | nil => rfl
  | cons slot l ih =>
    rcases slot with _ | ⟨i, w⟩
    · simpa [lookup] using ih
    · by_cases hi : i = k
      · have hij : i ≠ j := fun hij ↦ h (hij.symm.trans hi)
        rcases e with _ | ⟨k', v⟩
        · simpa [lookup, hi, Ne.symm h] using ih
        · obtain rfl := he k' v rfl
          simpa [lookup, hi, Ne.symm h] using ih
      · by_cases hij : i = j
        · subst hij
          simp [lookup, hi]
        · simpa [lookup, hi, hij] using ih

theorem lookup_erase (l : List (Option (κ × α))) (k : κ) : lookup (overwrite l k none) k = none := by
  rw [lookup_eq_none_iff, keys_erase]
  simp

theorem lookup_replace {l : List (Option (κ × α))} {k : κ} (v : α) (h : k ∈ keys l) :
    lookup (overwrite l k (some (k, v))) k = some v := by
  induction l with
  | nil => cases h
  | cons slot l ih =>
    rcases slot with _ | ⟨j, w⟩
    · exact ih h
    · by_cases hj : j = k
      · simp [lookup, hj]
      · have hl : k ∈ keys l := (List.mem_cons.mp h).resolve_left (Ne.symm hj)
        simpa [lookup, hj] using ih hl

theorem lookup_append (l m : List (Option (κ × α))) (k : κ) :
    lookup (l ++ m) k = (lookup l k).or (lookup m k) := by
  induction l with
  | nil => simp [lookup]
  | cons slot l ih =>
    rcases slot with _ | ⟨j, w⟩
    · simpa [lookup] using ih
    · by_cases hj : j = k
      · simp [lookup, hj]
      · simpa [lookup, hj] using ih

theorem lookup_of_mem {l : List (Option (κ × α))} {k : κ} {v : α} (hn : (keys l).Nodup)
    (h : some (k, v) ∈ l) : lookup l k = some v := by
  induction l with
  | nil => cases h
  | cons slot l ih =>
    rcases slot with _ | ⟨j, w⟩
    · exact ih hn (by simpa using h)
    · rw [keys_some, List.nodup_cons] at hn
      rcases List.mem_cons.mp h with h | h
      · obtain ⟨rfl, rfl⟩ : k = j ∧ v = w := by simpa using h
        simp [lookup]
      · have hk : k ∈ keys l := List.mem_filterMap.mpr ⟨_, h, rfl⟩
        have hj : j ≠ k := fun e ↦ hn.1 (e ▸ hk)
        simpa [lookup, hj] using ih hn.2 h

omit [DecidableEq κ] in
theorem keys_rewrite_sublist (l : List (Option (κ × α))) (f : κ → α → Option α) :
    (keys (l.map fun slot ↦ slot.bind fun e ↦ (f e.1 e.2).map (e.1, ·))).Sublist (keys l) := by
  induction l with
  | nil => exact .slnil
  | cons slot l ih =>
    rcases slot with _ | ⟨j, w⟩
    · exact ih
    · cases hf : f j w with
      | none => simpa [hf] using ih.cons j
      | some v => simpa [hf] using ih.cons_cons j

theorem lookup_rewrite {l : List (Option (κ × α))} (hn : (keys l).Nodup) (f : κ → α → Option α)
    (k : κ) : lookup (l.map fun slot ↦ slot.bind fun e ↦ (f e.1 e.2).map (e.1, ·)) k =
      (lookup l k).bind (f k) := by
  induction l with
  | nil => rfl
  | cons slot l ih =>
    rcases slot with _ | ⟨j, w⟩
    · exact ih hn
    · obtain ⟨hj, hl⟩ := List.nodup_cons.mp hn
      by_cases hk : j = k
      · subst hk
        cases hf : f j w with
        | none =>
          have hnone : lookup l j = none := lookup_eq_none_iff.mpr hj
          have := ih hl
          rw [hnone] at this
          simpa [lookup, hf] using this
        | some v => simp [lookup, hf]
      · have := ih hl
        cases hf : f j w with
        | none => simpa [lookup, hf, hk] using this
        | some v => simpa [lookup, hf, hk] using this

theorem filterMap_snd_eq {l : List (Option (κ × α))} (hn : (keys l).Nodup) :
    l.filterMap (Option.map Prod.snd) = (keys l).filterMap (lookup l) := by
  induction l with
  | nil => rfl
  | cons slot l ih =>
    rcases slot with _ | ⟨j, w⟩
    · exact ih hn
    · obtain ⟨hj, hl⟩ := List.nodup_cons.mp hn
      have hrest : (keys l).filterMap (lookup (some (j, w) :: l)) = (keys l).filterMap (lookup l) := by
        refine List.filterMap_congr fun k hk ↦ ?_
        have hjk : j ≠ k := fun e ↦ hj (e ▸ hk)
        simp [lookup, hjk]
      have hhead : lookup (some (j, w) :: l) j = some w := if_pos rfl
      rw [keys_some, List.filterMap_cons_some hhead, hrest]
      exact congrArg (w :: ·) (ih hl)

/-- The first slot at or after position `i` whose entry satisfies `p`; `i` is the position of the
head of the list. -/
def next (p : κ → α → Bool) : Nat → List (Option (κ × α)) → Option (Nat × κ × α)
  | _, [] => none
  | i, none :: l => next p (i + 1) l
  | i, some (k, v) :: l => if p k v then some (i, k, v) else next p (i + 1) l

omit [DecidableEq κ] in
theorem next_eq_some {p : κ → α → Bool} {i j : Nat} {l : List (Option (κ × α))} {k : κ} {v : α}
    (h : next p i l = some (j, k, v)) : some (k, v) ∈ l ∧ p k v = true := by
  induction l generalizing i with
  | nil => cases h
  | cons slot l ih =>
    rcases slot with _ | ⟨k', v'⟩
    · obtain ⟨hm, hp⟩ := ih h
      exact ⟨List.mem_cons_of_mem _ hm, hp⟩
    · rw [next] at h
      split at h
      · rename_i hp
        obtain ⟨-, rfl, rfl⟩ : i = j ∧ k' = k ∧ v' = v := by simpa using h
        exact ⟨List.mem_cons_self, hp⟩
      · obtain ⟨hm, hp⟩ := ih h
        exact ⟨List.mem_cons_of_mem _ hm, hp⟩

theorem next_eq_none {p : κ → α → Bool} {i : Nat} {l : List (Option (κ × α))}
    (h : next p i l = none) {k : κ} {v : α} (hl : lookup l k = some v) : p k v = false := by
  induction l generalizing i with
  | nil => cases hl
  | cons slot l ih =>
    rcases slot with _ | ⟨j, w⟩
    · exact ih h hl
    · rw [next] at h
      split at h
      · cases h
      · rename_i hp
        rw [lookup] at hl
        split at hl
        · rename_i hj
          cases hl
          rw [← hj]
          exact Bool.eq_false_iff.mpr hp
        · exact ih h hl

end Slots

/-- An insertion-ordered map.  No key has two slots. -/
structure OrderedMap (κ α : Type) [DecidableEq κ] where
  slots : List (Option (κ × α))
  nodup : (Slots.keys slots).Nodup

namespace OrderedMap

variable {κ α : Type} [DecidableEq κ]

def empty : OrderedMap κ α := ⟨[], List.nodup_nil⟩

def get? (m : OrderedMap κ α) (k : κ) : Option α := Slots.lookup m.slots k

def has (m : OrderedMap κ α) (k : κ) : Bool := (m.get? k).isSome

def keys (m : OrderedMap κ α) : List κ := Slots.keys m.slots

def values (m : OrderedMap κ α) : List α := m.slots.filterMap (Option.map Prod.snd)

def set (m : OrderedMap κ α) (k : κ) (v : α) : OrderedMap κ α :=
  if h : k ∈ m.keys then
    ⟨Slots.overwrite m.slots k (some (k, v)), by rw [Slots.keys_replace]; exact m.nodup⟩
  else
    ⟨m.slots ++ [some (k, v)], by
      have hk : Slots.keys (m.slots ++ [some (k, v)]) = m.keys ++ [k] := by
        simp [Slots.keys, OrderedMap.keys]
      rw [hk]
      exact List.nodup_append.mpr ⟨m.nodup, by simp, fun a ha b hb ↦ by
        rintro rfl
        exact h (by simpa using List.mem_singleton.mp hb ▸ ha)⟩⟩

def delete (m : OrderedMap κ α) (k : κ) : OrderedMap κ α :=
  ⟨Slots.overwrite m.slots k none, by rw [Slots.keys_erase]; exact m.nodup.filter _⟩

/-- Rewrite every entry, dropping those for which `f` gives nothing. -/
def filterMap (m : OrderedMap κ α) (f : κ → α → Option α) : OrderedMap κ α :=
  ⟨m.slots.map fun slot ↦ slot.bind fun e ↦ (f e.1 e.2).map (e.1, ·),
    m.nodup.sublist (Slots.keys_rewrite_sublist m.slots f)⟩

/-- The step of a live `for .. of` loop that stands at slot `i` and skips the entries that do not
satisfy `p`: the slot it stops at, with its entry. -/
def next (m : OrderedMap κ α) (i : Nat) (p : κ → α → Bool) : Option (Nat × κ × α) :=
  Slots.next p i (m.slots.drop i)

@[simp] theorem get?_empty (k : κ) : (empty : OrderedMap κ α).get? k = none := rfl

@[simp] theorem keys_empty : (empty : OrderedMap κ α).keys = [] := rfl

theorem nodup_keys (m : OrderedMap κ α) : m.keys.Nodup := m.nodup

theorem mem_keys {m : OrderedMap κ α} {k : κ} : k ∈ m.keys ↔ ∃ v, m.get? k = some v :=
  Slots.mem_keys_iff

theorem notMem_keys {m : OrderedMap κ α} {k : κ} : k ∉ m.keys ↔ m.get? k = none :=
  Slots.lookup_eq_none_iff.symm

@[simp] theorem has_eq_true {m : OrderedMap κ α} {k : κ} :
    m.has k = true ↔ ∃ v, m.get? k = some v := Option.isSome_iff_exists

theorem has_eq_false {m : OrderedMap κ α} {k : κ} : m.has k = false ↔ m.get? k = none := by
  simp [has]

theorem mem_values {m : OrderedMap κ α} {v : α} : v ∈ m.values ↔ ∃ k, m.get? k = some v := by
  unfold values
  rw [Slots.filterMap_snd_eq m.nodup, List.mem_filterMap]
  constructor
  · rintro ⟨k, -, hk⟩
    exact ⟨k, hk⟩
  · rintro ⟨k, hk⟩
    exact ⟨k, mem_keys.mpr ⟨v, hk⟩, hk⟩

theorem get?_set (m : OrderedMap κ α) (k : κ) (v : α) (j : κ) :
    (m.set k v).get? j = if j = k then some v else m.get? j := by
  unfold set get?
  split
  · rename_i hk
    by_cases hj : j = k
    · subst hj
      rw [if_pos rfl]
      exact Slots.lookup_replace v hk
    · rw [if_neg hj]
      exact Slots.lookup_overwrite_ne (fun k' v' h ↦ by cases h; rfl) hj
  · rename_i hk
    rw [Slots.lookup_append]
    by_cases hj : j = k
    · subst hj
      rw [Slots.lookup_eq_none_iff.mpr hk]
      simp [Slots.lookup]
    · simp [Slots.lookup, hj, Ne.symm hj]

theorem get?_delete (m : OrderedMap κ α) (k j : κ) :
    (m.delete k).get? j = if j = k then none else m.get? j := by
  unfold delete get?
  by_cases hj : j = k
  · subst hj
    rw [if_pos rfl]
    exact Slots.lookup_erase m.slots j
  · rw [if_neg hj]
    exact Slots.lookup_overwrite_ne (fun _ _ h ↦ by cases h) hj

@[simp] theorem get?_set_self (m : OrderedMap κ α) (k : κ) (v : α) :
    (m.set k v).get? k = some v := by rw [get?_set, if_pos rfl]

@[simp] theorem get?_delete_self (m : OrderedMap κ α) (k : κ) : (m.delete k).get? k = none := by
  rw [get?_delete, if_pos rfl]

@[simp] theorem get?_filterMap (m : OrderedMap κ α) (f : κ → α → Option α) (k : κ) :
    (m.filterMap f).get? k = (m.get? k).bind (f k) := Slots.lookup_rewrite m.nodup f k

/-- A live loop only stops at an entry that is in the map now. -/
theorem next_eq_some {m : OrderedMap κ α} {i j : Nat} {p : κ → α → Bool} {k : κ} {v : α}
    (h : m.next i p = some (j, k, v)) : m.get? k = some v ∧ p k v = true := by
  obtain ⟨hm, hp⟩ := Slots.next_eq_some h
  exact ⟨Slots.lookup_of_mem m.nodup (List.mem_of_mem_drop hm), hp⟩

/-- A live loop that starts at the first slot and stops nowhere has seen every entry. -/
theorem next_zero_eq_none {m : OrderedMap κ α} {p : κ → α → Bool} (h : m.next 0 p = none) {k : κ}
    {v : α} (hk : m.get? k = some v) : p k v = false := Slots.next_eq_none h hk

/-- Two maps in which the same keys satisfy two predicates count the same number of them. -/
theorem countP_keys_congr {β : Type} {m : OrderedMap κ α} {n : OrderedMap κ β}
    {p q : κ → Bool} (h : ∀ k, (k ∈ m.keys ∧ p k = true) ↔ (k ∈ n.keys ∧ q k = true)) :
    m.keys.countP p = n.keys.countP q := by
  rw [List.countP_eq_length_filter, List.countP_eq_length_filter]
  refine List.Perm.length_eq ?_
  rw [List.perm_ext_iff_of_nodup (m.nodup_keys.filter _) (n.nodup_keys.filter _)]
  intro k
  rw [List.mem_filter, List.mem_filter]
  exact h k

/-- Two maps with the same values, up to `f` and `g`, under every key have the same values. -/
theorem map_values_perm {β γ : Type} {m : OrderedMap κ α} {n : OrderedMap κ β} {f : α → γ}
    {g : β → γ} (h : ∀ k, (m.get? k).map f = (n.get? k).map g) :
    (m.values.map f).Perm (n.values.map g) := by
  have hkeys : m.keys.Perm n.keys := by
    rw [List.perm_ext_iff_of_nodup m.nodup_keys n.nodup_keys]
    intro k
    rw [mem_keys, mem_keys, ← Option.isSome_iff_exists, ← Option.isSome_iff_exists,
      ← Option.isSome_map (f := f), h, Option.isSome_map]
  have hm : m.values.map f = m.keys.filterMap fun k ↦ (m.get? k).map f := by
    rw [← List.map_filterMap]
    exact congrArg _ (Slots.filterMap_snd_eq m.nodup)
  have hn : n.values.map g = n.keys.filterMap fun k ↦ (m.get? k).map f := by
    simp only [h]
    rw [← List.map_filterMap]
    exact congrArg _ (Slots.filterMap_snd_eq n.nodup)
  rw [hm, hn]
  exact hkeys.filterMap _

end OrderedMap

/-! ## Loops over the keys of a map -/

section Loops

variable {σ κ γ : Type} [DecidableEq κ] (view : σ → κ → γ) (body : σ → κ → σ)

/-- A loop whose body changes the part of the state that belongs to its key, by `f`, and no other
part changes exactly the parts of its keys. -/
theorem foldl_view (f : κ → γ → γ) (own : ∀ s k, view (body s k) k = f k (view s k))
    (frame : ∀ s k j, j ≠ k → view (body s k) j = view s j) {ks : List κ} (hn : ks.Nodup) (s : σ)
    (j : κ) : view (ks.foldl body s) j = if j ∈ ks then f j (view s j) else view s j := by
  induction ks generalizing s with
  | nil => simp
  | cons k ks ih =>
    obtain ⟨hk, hks⟩ := List.nodup_cons.mp hn
    rw [List.foldl_cons, ih hks]
    by_cases hj : j = k
    · subst hj
      rw [if_neg hk, if_pos List.mem_cons_self, own]
    · rw [frame s k j hj]
      by_cases hm : j ∈ ks
      · rw [if_pos hm, if_pos (List.mem_cons_of_mem _ hm)]
      · rw [if_neg hm, if_neg fun h ↦ hm ((List.mem_cons.mp h).resolve_left hj)]

omit [DecidableEq κ] in
/-- A counter such a loop advances when its key satisfies `p` counts the keys that satisfied it
before the loop. -/
theorem foldl_count (count : σ → Nat) (p : κ → γ → Bool)
    (frame : ∀ s k j, j ≠ k → view (body s k) j = view s j)
    (tick : ∀ s k, count (body s k) = count s + if p k (view s k) = true then 1 else 0)
    {ks : List κ} (hn : ks.Nodup) (s : σ) :
    count (ks.foldl body s) = count s + ks.countP fun k ↦ p k (view s k) := by
  induction ks generalizing s with
  | nil => simp
  | cons k ks ih =>
    obtain ⟨hk, hks⟩ := List.nodup_cons.mp hn
    have rest : (ks.countP fun j ↦ p j (view (body s k) j)) = ks.countP fun j ↦ p j (view s j) := by
      refine List.countP_congr fun j hj ↦ ?_
      rw [frame s k j fun e ↦ hk (e ▸ hj)]
    rw [List.foldl_cons, ih hks, rest, tick, List.countP_cons]
    omega

end Loops
