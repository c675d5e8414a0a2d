import Mathlib.Data.List.DropRight

/-!
# Trimming

`String.prototype.trim`, on code points or code units: none of the code points that it removes lies
beyond the Basic Multilingual Plane.
-/

namespace Trim

/-- `WhiteSpace` and `LineTerminator`. -/
def isSpace (c : Nat) : Bool :=
  (0x09 ≤ c && c ≤ 0x0D) || c = 0x20 || c = 0xA0 || c = 0x1680 || (0x2000 ≤ c && c ≤ 0x200A) ||
    c = 0x2028 || c = 0x2029 || c = 0x202F || c = 0x205F || c = 0x3000 || c = 0xFEFF

variable {α : Type} (p : α → Bool)

/-- What is left of a text without the characters that satisfy `p` at its ends. -/
def trim (s : List α) : List α := (s.dropWhile p).rdropWhile p

variable {p}

theorem trim_eq_nil {s : List α} : trim p s = [] ↔ ∀ c ∈ s, p c = true := by
  unfold trim
  rw [List.rdropWhile_eq_nil_iff]
  constructor
  · intro h
    by_contra hno
    have hne : s.dropWhile p ≠ [] := fun hnil ↦ hno (List.dropWhile_eq_nil_iff.mp hnil)
    have hhead := h _ (List.head_mem hne)
    rw [List.head_dropWhile_not p hne] at hhead
    cases hhead
  · intro h c hc
    exact h c ((List.dropWhile_sublist p).subset hc)

/-- A trimmed text neither starts nor ends with a character that is dropped. -/
theorem trim_trim (p : α → Bool) (s : List α) : trim p (trim p s) = trim p s := by
  have hfront : (trim p s).dropWhile p = trim p s := by
    refine List.dropWhile_eq_self_iff.mpr fun hpos hp ↦ ?_
    have hne : s.dropWhile p ≠ [] := by
      intro hnil
      unfold trim at hpos
      rw [hnil] at hpos
      cases hpos
    obtain ⟨rest, hrest⟩ : trim p s <+: s.dropWhile p := List.rdropWhile_prefix p _
    have hhead : (trim p s)[0] = (s.dropWhile p).head hne := by
      rw [← List.getElem_zero_eq_head (List.length_pos_iff.mpr hne)]
      simp [← hrest, List.getElem_append_left hpos]
    rw [hhead, List.head_dropWhile_not p hne] at hp
    cases hp
  show ((trim p s).dropWhile p).rdropWhile p = trim p s
  rw [hfront]
  exact List.rdropWhile_idempotent p _

/-- A text without such characters at its ends, between texts of them. -/
theorem trim_append {before s after : List α} (hbefore : ∀ c ∈ before, p c = true)
    (hafter : ∀ c ∈ after, p c = true) (hs : ∀ c ∈ s, p c = false) :
    trim p (before ++ s ++ after) = s := by
  cases s with
  | nil =>
    rw [List.append_nil]
    refine trim_eq_nil.mpr fun c hc ↦ ?_
    exact (List.mem_append.mp hc).elim (hbefore c) (hafter c)
  | cons head rest =>
    have hhead : ¬p head = true := Bool.eq_false_iff.mp (hs head List.mem_cons_self)
    unfold trim
    rw [List.append_assoc, List.dropWhile_append_of_pos hbefore, List.cons_append,
      List.dropWhile_cons_of_neg hhead, ← List.cons_append]
    unfold List.rdropWhile
    rw [List.reverse_append, List.dropWhile_append_of_pos fun c hc ↦ hafter c (List.mem_reverse.mp hc)]
    have hreverse : (head :: rest).reverse.dropWhile p = (head :: rest).reverse :=
      List.dropWhile_eq_self_iff.mpr fun hpos ↦
        Bool.eq_false_iff.mp (hs _ (List.mem_reverse.mp (List.getElem_mem hpos)))
    rw [hreverse, List.reverse_reverse]

/-- The first character of a trimmed text. -/
theorem head_trim {s rest : List α} {c : α} (h : trim p s = c :: rest) : p c = false := by
  cases hc : p c with
  | false => rfl
  | true =>
    have htrim := trim_trim p s
    rw [h, trim, List.dropWhile_cons_of_pos hc] at htrim
    have hlength := congrArg List.length htrim
    have hshort := ( List.rdropWhile_prefix p (rest.dropWhile p)).length_le
    have hsuffix := (List.dropWhile_sublist (l := rest) p).length_le
    rw [List.length_cons] at hlength
    omega

end Trim
