import Mathlib.Data.List.Basic
import Aesmsg.Store.Types

/-!
# Token hashes

When `timingSafeEqualHex` takes two hashes for equal: when they decode to the same bytes, and to at
least one.  For digests as `createHash("sha256").digest("hex")` writes them this is equality.

## Main results

- `timingSafeEqualHex_iff`: the comparison decides `SameHex`.
- `IsDigest.sameHex_iff`: on digests, `SameHex` is equality.
-/

namespace Aesmsg.Store

/-- The strings are hexadecimal for the same bytes, as far as `Buffer.from(_, "hex")` reads them. -/
def SameHex (a b : String) : Prop :=
  bufferFromHex a.toList ≠ [] ∧ bufferFromHex a.toList = bufferFromHex b.toList

theorem timingSafeEqualHex_iff (a b : String) : timingSafeEqualHex a b = true ↔ SameHex a b := by
  unfold timingSafeEqualHex SameHex
  dsimp only
  constructor
  · intro h
    split at h
    · cases h
    · rename_i hlen
      rw [not_or] at hlen
      exact ⟨fun hnil ↦ hlen.1 (by rw [hnil]; rfl), eq_of_beq h⟩
  · rintro ⟨hne, heq⟩
    have hlen : ¬((bufferFromHex a.toList).length = 0 ∨
        (bufferFromHex a.toList).length ≠ (bufferFromHex b.toList).length) := by
      rw [not_or, heq]
      rw [heq] at hne
      exact ⟨fun hlen ↦ hne (List.length_eq_zero_iff.mp hlen), not_not_intro rfl⟩
    rw [if_neg hlen, heq, beq_self_eq_true]

instance (a b : String) : Decidable (SameHex a b) := instDecidableAnd

/-- A row without a hash lets any revoke through, one with a hash only the matching ones. -/
theorem revokeAllowed_iff (storedHash providedTokenHash : Option String) :
    revokeAllowed storedHash providedTokenHash = true ↔
      ∀ stored, storedHash = some stored → ∃ provided, providedTokenHash = some provided ∧
        SameHex stored provided := by
  cases storedHash with
  | none => exact ⟨fun _ ↦ nofun, fun _ ↦ rfl⟩
  | some stored =>
    cases providedTokenHash with
    | none =>
      refine ⟨nofun, fun h ↦ ?_⟩
      obtain ⟨_, ⟨⟩, -⟩ := h stored rfl
    | some provided =>
      refine (timingSafeEqualHex_iff stored provided).trans ⟨fun h ↦ ?_, fun h ↦ ?_⟩
      · rintro _ ⟨⟩
        exact ⟨provided, rfl, h⟩
      · obtain ⟨_, ⟨⟩, hsame⟩ := h stored rfl
        exact hsame

/-! ## Digests -/

def lowerHex : List Char :=
  ['0', '1', '2', '3', '4', '5', '6', '7', '8', '9', 'a', 'b', 'c', 'd', 'e', 'f']

/-- 32 bytes in lower-case hexadecimal. -/
def IsDigest (s : String) : Prop := s.toList.length = 64 ∧ ∀ c ∈ s.toList, c ∈ lowerHex

instance (s : String) : Decidable (IsDigest s) :=
  @instDecidableAnd _ _ _ (List.decidableBAll (· ∈ lowerHex) s.toList)

theorem hexDigit_lowerHex :
    ∀ c ∈ lowerHex, ∃ x, hexDigit c = some x ∧ x < 16 ∧ lowerHex[x]? = some c := by
  simp [lowerHex, hexDigit]

/-- Lower-case digits in pairs are told apart by the bytes they are read as. -/
theorem bufferFromHex_inj : ∀ {xs ys : List Char}, (∀ c ∈ xs, c ∈ lowerHex) →
    (∀ c ∈ ys, c ∈ lowerHex) → xs.length = ys.length → 2 ∣ xs.length →
      bufferFromHex xs = bufferFromHex ys → xs = ys
  | [], ys, _, _, hlen, _, _ => (List.length_eq_zero_iff.mp hlen.symm).symm
  | [_], _, _, _, _, heven, _ => absurd (Nat.dvd_one.mp heven) (by decide)
  | _ :: _ :: _, [], _, _, hlen, _, _ => nomatch hlen
  | _ :: _ :: _, [_], _, _, hlen, _, _ => nomatch hlen
  | a :: b :: xs, c :: d :: ys, hx, hy, hlen, heven, h => by
    simp only [List.forall_mem_cons] at hx hy
    obtain ⟨ha, hb, hx⟩ := hx
    obtain ⟨hc, hd, hy⟩ := hy
    obtain ⟨x, hax, hx16, hxa⟩ := hexDigit_lowerHex a ha
    obtain ⟨y, hby, hy16, hyb⟩ := hexDigit_lowerHex b hb
    obtain ⟨z, hcz, hz16, hzc⟩ := hexDigit_lowerHex c hc
    obtain ⟨w, hdw, hw16, hwd⟩ := hexDigit_lowerHex d hd
    simp only [bufferFromHex, hax, hby, hcz, hdw, List.cons.injEq] at h
    obtain ⟨hbyte, hrest⟩ := h
    have hnat : 16 * x + y = 16 * z + w := by
      have hx : 16 * x + y < UInt8.size := by
        unfold UInt8.size
        omega
      have hz : 16 * z + w < UInt8.size := by
        unfold UInt8.size
        omega
      rw [← UInt8.toNat_ofNat_of_lt' hx, ← UInt8.toNat_ofNat_of_lt' hz, hbyte]
    obtain rfl : x = z := by omega
    obtain rfl : y = w := by omega
    obtain rfl : a = c := Option.some.inj (hxa.symm.trans hzc)
    obtain rfl : b = d := Option.some.inj (hyb.symm.trans hwd)
    have hlen' : xs.length = ys.length := by simpa using hlen
    have heven' : 2 ∣ xs.length := by
      rw [List.length_cons, List.length_cons] at heven
      omega
    rw [bufferFromHex_inj hx hy hlen' heven' hrest]

theorem bufferFromHex_ne_nil {s : String} (h : IsDigest s) : bufferFromHex s.toList ≠ [] := by
  obtain ⟨hlen, hall⟩ := h
  match hs : s.toList with
  | [] | [_] =>
    rw [hs] at hlen
    cases hlen
  | a :: b :: rest =>
    rw [hs] at hall
    simp only [List.forall_mem_cons] at hall
    obtain ⟨x, hax, -⟩ := hexDigit_lowerHex a hall.1
    obtain ⟨y, hby, -⟩ := hexDigit_lowerHex b hall.2.1
    simp only [bufferFromHex, hax, hby]
    exact List.cons_ne_nil _ _

theorem IsDigest.sameHex_iff {a b : String} (ha : IsDigest a) (hb : IsDigest b) :
    SameHex a b ↔ a = b := by
  constructor
  · rintro ⟨-, h⟩
    have heven : 2 ∣ a.toList.length := by
      rw [ha.1]
      decide
    exact String.toList_inj.mp (bufferFromHex_inj ha.2 hb.2 (ha.1.trans hb.1.symm) heven h)
  · rintro rfl
    exact ⟨bufferFromHex_ne_nil ha, rfl⟩

end Aesmsg.Store
