import Mathlib.Algebra.Group.Nat.Defs
import Mathlib.Data.Nat.Log

/-!
# Length-hiding padding

`packages/crypto/src/pad.ts`: three fixed buckets, then Padmé.  `Math.floor(Math.log2(n))` is the
exact integer logarithm, and the divisions by powers of two are exact.
-/

namespace Aesmsg.Crypto

def PAD_BUCKETS : List Nat := [256, 1024, 4096]

def LARGEST_FIXED_BUCKET : Nat := 4096

/-- Round `len` up to a multiple of `2 ^ lastBits`, where the granularity grows with `len`. -/
def padme (len : Nat) : Nat :=
  let exponent := Nat.log2 len
  let mantissaBits := Nat.log2 exponent + 1
  if exponent ≤ mantissaBits then len
  else
    let blockSize := 2 ^ (exponent - mantissaBits)
    (len + blockSize - 1) / blockSize * blockSize

/-- The first fixed bucket that fits, else Padmé.  The source throws on a length that is not a
non-negative integer; lengths are naturals here. -/
def targetPaddedLen (rawLen : Nat) : Nat :=
  match PAD_BUCKETS.find? (rawLen ≤ ·) with
  | some bucket => bucket
  | none => padme rawLen

/-- Rounding up to a multiple of a positive block size does not decrease. -/
theorem le_ceil_mul (n : Nat) {b : Nat} (hb : 0 < b) : n ≤ (n + b - 1) / b * b := by
  have hdiv := Nat.div_add_mod (n + b - 1) b
  have hmod := Nat.mod_lt (n + b - 1) hb
  rw [Nat.mul_comm] at hdiv
  omega

theorem le_padme (len : Nat) : len ≤ padme len := by
  unfold padme
  dsimp only
  split
  · exact le_rfl
  · exact le_ceil_mul len (Nat.two_pow_pos _)

/-- Padding never truncates. -/
theorem le_targetPaddedLen (rawLen : Nat) : rawLen ≤ targetPaddedLen rawLen := by
  unfold targetPaddedLen
  split
  · rename_i bucket h
    simpa using List.find?_some h
  · exact le_padme rawLen

end Aesmsg.Crypto
