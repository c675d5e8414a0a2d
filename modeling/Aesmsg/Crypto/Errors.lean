import Aesmsg.Lib.Bytes
import Aesmsg.Lib.Except
import Aesmsg.Lib.Utf8

/-!
# Errors of the crypto package

The error classes of `packages/crypto/src/errors.ts`, with their messages, and the plain errors of
the JavaScript runtime that the package can raise: `new Error(..)` and the `RangeError` of a
`DataView` read outside its buffer.
-/

namespace Aesmsg.Crypto

inductive CryptoError where
  | invalidFormat (message : String)
  | decryption (message : String)
  | recipientMismatch
  | error (message : String)
  | rangeError
deriving DecidableEq, Repr

/-- `new DecryptionError()`. -/
def decryptionError : CryptoError := .decryption "Decryption failed"

/-- The result of a function that may throw. -/
abbrev Result (α : Type) := Except CryptoError α

/-- A statement after one that did not throw. -/
@[simp] theorem Result.ok_bind {α β : Type} (a : α) (f : α → Result β) :
    ((Except.ok a : Result α) >>= f) = f a := rfl

/-- Nothing runs after a throw. -/
@[simp] theorem Result.error_bind {α β : Type} (e : CryptoError) (f : α → Result β) :
    ((Except.error e : Result α) >>= f) = .error e := rfl

/-- A sequence of two statements returns iff the first does and the second does after it. -/
theorem Result.bind_eq_ok {α β : Type} {x : Result α} {f : α → Result β} {b : β} :
    (x >>= f) = .ok b ↔ ∃ a, x = .ok a ∧ f a = .ok b := Except.bind_eq_ok

theorem Result.exists_eq_ok {α : Type} {x : Result α} (h : x.isOk = true) : ∃ a, x = .ok a := by
  cases x with
  | error e => cases h
  | ok a => exact ⟨a, rfl⟩

/-- `if (c) throw e`. -/
def throwIf (c : Prop) [Decidable c] (e : CryptoError) : Result Unit :=
  if c then .error e else .ok ()

theorem throwIf_eq_ok {c : Prop} [Decidable c] {e : CryptoError} {u : Unit} :
    throwIf c e = .ok u ↔ ¬c := by
  unfold throwIf
  split <;> simp_all

theorem throwIf_neg {c : Prop} [Decidable c] (e : CryptoError) (h : ¬c) :
    throwIf c e = .ok () := if_neg h

theorem throwIf_pos {c : Prop} [Decidable c] (e : CryptoError) (h : c) :
    throwIf c e = .error e := if_pos h

/-- What is thrown is an `InvalidFormatError`. -/
def Result.OnlyInvalid {α : Type} (x : Result α) : Prop :=
  ∀ e, x = .error e → ∃ message, e = .invalidFormat message

namespace Result.OnlyInvalid

variable {α β : Type}

theorem ok (a : α) : OnlyInvalid (.ok a : Result α) := by
  intro e he
  cases he

theorem error (message : String) : OnlyInvalid (.error (.invalidFormat message) : Result α) := by
  intro e he
  exact ⟨message, (Except.error.inj he).symm⟩

theorem throwIf {c : Prop} [Decidable c] (message : String) :
    OnlyInvalid (throwIf c (.invalidFormat message)) := by
  unfold Crypto.throwIf
  split
  · exact error message
  · exact ok ()

theorem bind {x : Result α} {f : α → Result β} (hx : x.OnlyInvalid) (hf : ∀ a, (f a).OnlyInvalid) :
    OnlyInvalid (x >>= f) := by
  intro e he
  rcases Except.bind_eq_error.mp he with h | ⟨a, -, h⟩
  · exact hx e h
  · exact hf a e h

end Result.OnlyInvalid

end Aesmsg.Crypto
