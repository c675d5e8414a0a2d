import Mathlib.Data.Int.Log
import Mathlib.Data.Rat.Floor
import Mathlib.Tactic.Ring

/-!
# Finite doubles

The finite numbers of the binary64 format by their values, so that the two zeros are one, and the
rounding of a rational to the nearest of them.

## Main results

- `Binary64.round_value`: a double is rounded to itself.
-/

/-- A finite double. -/
@[ext] structure Binary64 where
  value : ℚ
  representable : ∃ m e : ℤ, |m| < 2 ^ 53 ∧ -1074 ≤ e ∧ e ≤ 971 ∧ value = m * 2 ^ e
deriving DecidableEq

namespace Binary64

/-- The nearest integer, and of two the even one. -/
def roundEven (q : ℚ) : ℤ :=
  if q - ⌊q⌋ < 1 / 2 then ⌊q⌋
  else if 1 / 2 < q - ⌊q⌋ then ⌊q⌋ + 1
  else if ⌊q⌋ % 2 = 0 then ⌊q⌋
  else ⌊q⌋ + 1

/-- The exponent of the last digit of the significand. -/
def place (q : ℚ) : ℤ := max (-1074) (Int.log 2 |q| - 52)

def nearest (q : ℚ) : ℚ := roundEven (q / 2 ^ place q) * 2 ^ place q

section Rounding

variable {q : ℚ} {n : ℤ}

theorem roundEven_intCast (n : ℤ) : roundEven n = n := by
  unfold roundEven
  rw [Int.floor_intCast, sub_self, if_pos (by norm_num)]

theorem le_roundEven (h : (n : ℚ) ≤ q) : n ≤ roundEven q := by
  have hfloor : n ≤ ⌊q⌋ := Int.le_floor.mpr h
  unfold roundEven
  split_ifs <;> omega

theorem roundEven_le (h : q ≤ n) : roundEven q ≤ n := by
  have hfloor : ⌊q⌋ ≤ n := Int.floor_le_iff.mpr (lt_of_le_of_lt h (lt_add_one _))
  rcases eq_or_lt_of_le hfloor with heq | hlt
  · have hq : q = n := le_antisymm h (heq ▸ Int.floor_le q)
    rw [hq, roundEven_intCast]
  · unfold roundEven
    split_ifs <;> omega

theorem abs_roundEven_le (h : |q| ≤ n) : |roundEven q| ≤ n := by
  obtain ⟨hlow, hhigh⟩ := abs_le.mp h
  have hneg : ((-n : ℤ) : ℚ) ≤ q := by
    push_cast
    exact hlow
  exact abs_le.mpr ⟨le_roundEven hneg, roundEven_le hhigh⟩

theorem le_abs_roundEven (h : n ≤ |q|) : n ≤ |roundEven q| := by
  rcases le_abs.mp h with hpos | hneg
  · exact le_abs.mpr (.inl (le_roundEven hpos))
  · have hle : q ≤ ((-n : ℤ) : ℚ) := by
      push_cast
      linarith
    exact le_abs.mpr (.inr (by have := roundEven_le hle; omega))

theorem two_zpow_pos (e : ℤ) : (0 : ℚ) < 2 ^ e := zpow_pos (by norm_num) e

theorem two_zpow_add (e : ℤ) (n : ℕ) : (2 : ℚ) ^ (e + n) = 2 ^ n * 2 ^ e := by
  rw [zpow_add₀ (by norm_num), zpow_natCast, mul_comm]

/-- A power of two below the overflow. -/
theorem pow_mul_zpow {n : ℕ} {e : ℤ} (h : e + n = (1024 : ℕ)) :
    ((2 ^ n : ℤ) : ℚ) * 2 ^ e = 2 ^ 1024 := by
  rw [Int.cast_pow, Int.cast_ofNat, ← two_zpow_add, h, zpow_natCast]

theorem abs_div_zpow (q : ℚ) (e : ℤ) : |q / 2 ^ e| = |q| / 2 ^ e := by
  rw [abs_div, abs_of_pos (two_zpow_pos e)]

/-- The significand has 53 bits, or is one more. -/
theorem abs_significand_le (q : ℚ) : |roundEven (q / 2 ^ place q)| ≤ 2 ^ 53 := by
  have hlog := Int.lt_zpow_succ_log_self (b := 2) (by decide) |q|
  have hexponent : Int.log 2 |q| + 1 ≤ place q + (53 : ℕ) := by
    unfold place
    omega
  have hlt := lt_of_lt_of_le hlog (zpow_le_zpow_right₀ (by norm_num) hexponent)
  refine abs_roundEven_le ?_
  rw [abs_div_zpow, div_le_iff₀ (two_zpow_pos _), Int.cast_pow, Int.cast_ofNat, ← two_zpow_add]
  exact hlt.le

/-- A large significand has all its bits. -/
theorem le_abs_significand (h : -1074 < place q) (hq : q ≠ 0) :
    2 ^ 52 ≤ |roundEven (q / 2 ^ place q)| := by
  have hplace : place q + (52 : ℕ) = Int.log 2 |q| := by
    unfold place at h ⊢
    omega
  refine le_abs_roundEven ?_
  rw [abs_div_zpow, le_div_iff₀ (two_zpow_pos _), Int.cast_pow, Int.cast_ofNat, ← two_zpow_add, hplace]
  exact Int.zpow_log_le_self (by decide) (abs_pos.mpr hq)

theorem abs_nearest (q : ℚ) : |nearest q| = |roundEven (q / 2 ^ place q)| * 2 ^ place q := by
  unfold nearest
  rw [abs_mul, abs_of_pos (two_zpow_pos _), Int.cast_abs]

theorem representable_nearest (h : |nearest q| < 2 ^ 1024) :
    ∃ m e : ℤ, |m| < 2 ^ 53 ∧ -1074 ≤ e ∧ e ≤ 971 ∧ nearest q = m * 2 ^ e := by
  have hplace : -1074 ≤ place q := le_max_left _ _
  rw [abs_nearest] at h
  rcases lt_or_eq_of_le (abs_significand_le q) with hlt | heq
  · refine ⟨_, place q, hlt, hplace, ?_, rfl⟩
    by_contra hlarge
    have hq : q ≠ 0 := by
      rintro rfl
      exact hlarge (by decide +kernel)
    have hbits : ((2 ^ 52 : ℤ) : ℚ) ≤ |roundEven (q / 2 ^ place q)| :=
      Int.cast_le.mpr (le_abs_significand (by omega) hq)
    have hexponent : (2 : ℚ) ^ (972 : ℤ) ≤ 2 ^ place q :=
      zpow_le_zpow_right₀ (by norm_num) (by omega)
    have hmul := mul_le_mul hbits hexponent (two_zpow_pos _).le (by positivity)
    rw [pow_mul_zpow rfl] at hmul
    exact absurd h (not_lt.mpr hmul)
  · have hexponent : place q < 971 := by
      rw [heq] at h
      have hlt : (2 : ℚ) ^ place q < 2 ^ (971 : ℤ) := by
        rw [← pow_mul_zpow (n := 53) (e := 971) rfl] at h
        exact lt_of_mul_lt_mul_left h (by positivity)
      exact (zpow_lt_zpow_iff_right₀ (by norm_num)).mp hlt
    rcases (abs_eq (by norm_num)).mp heq with hpos | hneg
    · refine ⟨2 ^ 52, place q + 1, by norm_num, by omega, by omega, ?_⟩
      unfold nearest
      rw [hpos, zpow_add_one₀ (by norm_num)]
      push_cast
      ring
    · refine ⟨-2 ^ 52, place q + 1, by norm_num, by omega, by omega, ?_⟩
      unfold nearest
      rw [hneg, zpow_add_one₀ (by norm_num)]
      push_cast
      ring

/-- A multiple of the last place is its own nearest double. -/
theorem nearest_eq {m e : ℤ} (he : place (m * 2 ^ e) ≤ e) : nearest (m * 2 ^ e) = m * 2 ^ e := by
  obtain ⟨k, hk⟩ := Int.eq_ofNat_of_zero_le (sub_nonneg.mpr he)
  have hexponent : e = place (m * 2 ^ e) + k := by omega
  have hdiv : (m * 2 ^ e : ℚ) / 2 ^ place (m * 2 ^ e) = ((m * 2 ^ k : ℤ) : ℚ) := by
    rw [div_eq_iff (two_zpow_pos _).ne']
    conv_lhs => rw [hexponent, two_zpow_add]
    push_cast
    ring
  unfold nearest
  rw [hdiv, roundEven_intCast, ← hdiv, div_mul_cancel₀ _ (two_zpow_pos _).ne']

theorem nearest_value (x : Binary64) : nearest x.value = x.value := by
  obtain ⟨m, e, hm, he, -, hx⟩ := x.representable
  rw [hx]
  by_cases hzero : m = 0
  · rw [hzero, Int.cast_zero, zero_mul]
    decide +kernel
  · refine nearest_eq (max_le he ?_)
    have hlog : Int.log 2 |(m * 2 ^ e : ℚ)| < e + (53 : ℕ) := by
      have hpos : 0 < |(m * 2 ^ e : ℚ)| :=
        abs_pos.mpr (mul_ne_zero (Int.cast_ne_zero.mpr hzero) (two_zpow_pos e).ne')
      refine (Int.lt_zpow_iff_log_lt (by decide) hpos).mp ?_
      rw [Nat.cast_ofNat, two_zpow_add, abs_mul, abs_of_pos (two_zpow_pos e), ← Int.cast_abs]
      refine mul_lt_mul_of_pos_right ?_ (two_zpow_pos e)
      exact_mod_cast hm
    omega

theorem abs_value_lt (x : Binary64) : |x.value| < 2 ^ 1024 := by
  obtain ⟨m, e, hm, -, he, hx⟩ := x.representable
  rw [hx]
  have hexponent : (2 : ℚ) ^ e ≤ 2 ^ (971 : ℤ) := zpow_le_zpow_right₀ (by norm_num) he
  have hbits : ((|m| : ℤ) : ℚ) < ((2 ^ 53 : ℤ) : ℚ) := Int.cast_lt.mpr hm
  rw [abs_mul, abs_of_pos (two_zpow_pos e), ← Int.cast_abs]
  calc ((|m| : ℤ) : ℚ) * 2 ^ e < ((2 ^ 53 : ℤ) : ℚ) * 2 ^ e := mul_lt_mul_of_pos_right hbits (two_zpow_pos e)
    _ ≤ ((2 ^ 53 : ℤ) : ℚ) * 2 ^ (971 : ℤ) := mul_le_mul_of_nonneg_left hexponent (by positivity)
    _ = 2 ^ 1024 := pow_mul_zpow rfl

end Rounding

/-- The nearest double, none where it would be infinite. -/
def round (q : ℚ) : Option Binary64 :=
  if h : |nearest q| < 2 ^ 1024 then some ⟨nearest q, representable_nearest h⟩ else none

theorem round_value (x : Binary64) : round x.value = some x := by
  have hlt : |nearest x.value| < 2 ^ 1024 := by
    rw [nearest_value]
    exact abs_value_lt x
  unfold round
  rw [dif_pos hlt]
  exact congrArg some (Binary64.ext (nearest_value x))

def neg (x : Binary64) : Binary64 where
  value := -x.value
  representable := by
    obtain ⟨m, e, hm, hlow, hhigh, hx⟩ := x.representable
    refine ⟨-m, e, (abs_neg m).symm ▸ hm, hlow, hhigh, ?_⟩
    rw [hx, Int.cast_neg, neg_mul]

theorem neg_neg (x : Binary64) : x.neg.neg = x := Binary64.ext (InvolutiveNeg.neg_neg x.value)

theorem representable_intCast {n : ℤ} (h : |n| < 2 ^ 53) :
    ∃ m e : ℤ, |m| < 2 ^ 53 ∧ -1074 ≤ e ∧ e ≤ 971 ∧ (n : ℚ) = m * 2 ^ e :=
  ⟨n, 0, h, by decide, by decide, by rw [zpow_zero, mul_one]⟩

/-- An integer with at most 53 digits. -/
def ofInt (n : ℤ) (h : |n| < 2 ^ 53) : Binary64 := ⟨n, representable_intCast h⟩

end Binary64
