import Mathlib.Algebra.Group.Nat.Defs
import Mathlib.Data.List.Basic

/-!
# JavaScript numbers, as far as integer checks see them

A validator that starts with `Number.isInteger` only tells integers apart; every other number (a
fraction, an infinity, NaN) is refused alike.
-/

/-- A JavaScript number: an integer, or one that is not. -/
inductive JsNumber where
  | int (n : Int)
  | nonInteger
deriving DecidableEq, Repr

namespace JsNumber

/-- `Number.MAX_SAFE_INTEGER`. -/
def MAX_SAFE_INTEGER : Nat := 2 ^ 53 - 1

/-- `Number.isInteger(x)`. -/
def isInteger : JsNumber → Bool
  | int _ => true
  | nonInteger => false

/-- `Number.isSafeInteger(x)`. -/
def isSafeInteger : JsNumber → Bool
  | int n => n.natAbs ≤ MAX_SAFE_INTEGER
  | nonInteger => false

/-- The value of an integer.  Only read after `isInteger` or `isSafeInteger`. -/
def toInt : JsNumber → Int
  | int n => n
  | nonInteger => 0

@[simp] theorem toInt_int (n : Int) : (int n).toInt = n := rfl

theorem isInteger_iff {x : JsNumber} : x.isInteger = true ↔ x = int x.toInt := by
  cases x <;> simp [isInteger, toInt]

theorem isSafeInteger_iff {x : JsNumber} :
    x.isSafeInteger = true ↔ x = int x.toInt ∧ x.toInt.natAbs ≤ MAX_SAFE_INTEGER := by
  cases x <;> simp [isSafeInteger, toInt]

/-- Two integers are the same number iff they have the same value. -/
theorem eq_iff_toInt_eq {x y : JsNumber} (hx : x.isInteger = true) (hy : y.isInteger = true) :
    x = y ↔ x.toInt = y.toInt := by
  constructor
  · rintro rfl
    rfl
  · intro h
    rw [isInteger_iff.mp hx, isInteger_iff.mp hy, h]

theorem isInteger_of_isSafeInteger {x : JsNumber} (h : x.isSafeInteger = true) :
    x.isInteger = true :=
  isInteger_iff.mpr (isSafeInteger_iff.mp h).1

end JsNumber
