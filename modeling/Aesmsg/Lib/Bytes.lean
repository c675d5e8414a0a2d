import Mathlib.Tactic.Ring
import Mathlib.Data.List.Basic

/-!
# Big-endian integers in byte strings

Fixed-width unsigned integers, most significant byte first, as byte strings: the writer `toBE`,
the reader `ofBE`, and the two facts a binary format rests on.  Writing reduces modulo the width
(`ofBE_toBE`), so writing is injective exactly up to that modulus (`toBE_inj_iff`); reading and
writing again gives the bytes back (`toBE_ofBE`).

A decoder that walks a buffer with an offset is handled by `drop_add_of_append`: once the buffer
is known to continue with `xs` at an offset, reading `xs` moves the offset past it.
-/

namespace Bytes

/-- The `w` low-order bytes of `n`, most significant first. -/
def toBE : Nat → Nat → List UInt8
  | 0, _ => []
  | w + 1, n => UInt8.ofNat (n / 256 ^ w) :: toBE w n

/-- The integer a byte string spells, most significant byte first. -/
def ofBE (bs : List UInt8) : Nat := bs.foldl (fun acc b ↦ acc * 256 + b.toNat) 0

@[simp] theorem length_toBE (w n : Nat) : (toBE w n).length = w := by
  induction w with
  | zero => rfl
  | succ w ih => simp [toBE, ih]

/-- Folding the digits of `n` onto an accumulator shifts the accumulator by the width. -/
theorem foldl_toBE (w n acc : Nat) :
    (toBE w n).foldl (fun acc b ↦ acc * 256 + b.toNat) acc = acc * 256 ^ w + n % 256 ^ w := by
  induction w generalizing acc with
  | zero => simp [toBE, Nat.mod_one]
  | succ w ih =>
      have hdigit : (UInt8.ofNat (n / 256 ^ w)).toNat = n / 256 ^ w % 256 := by simp
      rw [toBE, List.foldl_cons, ih, hdigit, Nat.pow_succ, Nat.mod_mul, add_mul]
      ring

@[simp] theorem ofBE_toBE (w n : Nat) : ofBE (toBE w n) = n % 256 ^ w := by
  simpa [ofBE] using foldl_toBE w n 0

/-- Writing only depends on the value modulo the width. -/
theorem toBE_congr {w n m : Nat} (h : n % 256 ^ w = m % 256 ^ w) : toBE w n = toBE w m := by
  induction w with
  | zero => rfl
  | succ w ih =>
      have hlow : n % 256 ^ w = m % 256 ^ w := by
        have hd : 256 ^ w ∣ 256 ^ (w + 1) := Nat.pow_dvd_pow 256 w.le_succ
        rw [← Nat.mod_mod_of_dvd n hd, h, Nat.mod_mod_of_dvd m hd]
      have htop : n / 256 ^ w % 256 = m / 256 ^ w % 256 := by
        rw [← Nat.mod_mul_right_div_self, ← Nat.mod_mul_right_div_self, ← Nat.pow_succ, h]
      have hdigit : UInt8.ofNat (n / 256 ^ w) = UInt8.ofNat (m / 256 ^ w) :=
        UInt8.toNat_inj.mp (by simpa using htop)
      rw [toBE, toBE, hdigit, ih hlow]

/-- Two values are written alike iff they agree modulo the width. -/
theorem toBE_inj_iff {w n m : Nat} : toBE w n = toBE w m ↔ n % 256 ^ w = m % 256 ^ w :=
  ⟨fun h ↦ by rw [← ofBE_toBE, ← ofBE_toBE, h], toBE_congr⟩

/-- Folding `bs` onto an accumulator stays below the next accumulator, shifted. -/
theorem foldl_lt (bs : List UInt8) (acc : Nat) :
    bs.foldl (fun acc b ↦ acc * 256 + b.toNat) acc < (acc + 1) * 256 ^ bs.length := by
  induction bs generalizing acc with
  | nil => simp
  | cons b bs ih =>
    have hb : b.toNat < 256 := b.toNat_lt
    calc (b :: bs).foldl (fun acc b ↦ acc * 256 + b.toNat) acc
        < (acc * 256 + b.toNat + 1) * 256 ^ bs.length := ih _
      _ ≤ ((acc + 1) * 256) * 256 ^ bs.length := Nat.mul_le_mul_right _ (by omega)
      _ = (acc + 1) * 256 ^ (b :: bs).length := by
        rw [List.length_cons, Nat.pow_succ, Nat.mul_assoc, Nat.mul_comm 256]

theorem ofBE_lt (bs : List UInt8) : ofBE bs < 256 ^ bs.length := by
  simpa [ofBE] using foldl_lt bs 0

/-- A byte string is the fixed-width spelling of the integer it spells. -/
theorem toBE_ofBE (bs : List UInt8) : toBE bs.length (ofBE bs) = bs := by
  induction bs with
  | nil => rfl
  | cons b bs ih =>
    have hsplit : ofBE (b :: bs) = b.toNat * 256 ^ bs.length + ofBE bs := by
      have hfold := foldl_toBE bs.length (ofBE bs) b.toNat
      rw [ih, Nat.mod_eq_of_lt (ofBE_lt bs)] at hfold
      rw [ofBE, List.foldl_cons, Nat.zero_mul, Nat.zero_add, hfold]
    have htop : ofBE (b :: bs) / 256 ^ bs.length = b.toNat := by
      rw [hsplit, Nat.add_comm, Nat.add_mul_div_right _ _ (Nat.pow_pos (by decide)),
        Nat.div_eq_of_lt (ofBE_lt bs), Nat.zero_add]
    have hlow : ofBE (b :: bs) % 256 ^ bs.length = ofBE bs % 256 ^ bs.length := by
      rw [hsplit, Nat.mul_add_mod_self_right]
    rw [List.length_cons, toBE, htop, toBE_congr hlow, ih, UInt8.ofNat_toNat]

/-- A buffer with `w` more bytes continues with the spelling of the integer that is read there. -/
theorem drop_eq_toBE_append {bytes : List UInt8} {off w : Nat} (h : off + w ≤ bytes.length) :
    bytes.drop off = toBE w (ofBE ((bytes.drop off).take w)) ++ bytes.drop (off + w) ∧
      ofBE ((bytes.drop off).take w) < 256 ^ w := by
  have hlen : ((bytes.drop off).take w).length = w := by
    rw [List.length_take, List.length_drop]
    omega
  have hlt := ofBE_lt ((bytes.drop off).take w)
  have hspell := toBE_ofBE ((bytes.drop off).take w)
  rw [hlen] at hlt hspell
  refine ⟨?_, hlt⟩
  rw [hspell, ← List.drop_drop, List.take_append_drop]

/-- A length prefix tells where a byte string ends. -/
theorem toBE_length_append_inj {w : Nat} {xs ys rest rest' : List UInt8}
    (hx : xs.length < 256 ^ w) (hy : ys.length < 256 ^ w)
    (h : toBE w xs.length ++ (xs ++ rest) = toBE w ys.length ++ (ys ++ rest')) :
    xs = ys ∧ rest = rest' := by
  obtain ⟨hlen, htail⟩ := List.append_inj h (by rw [length_toBE, length_toBE])
  rw [toBE_inj_iff, Nat.mod_eq_of_lt hx, Nat.mod_eq_of_lt hy] at hlen
  exact List.append_inj htail hlen

/-! ## Walking a buffer -/

/-- If a buffer continues with `xs` at an offset, it continues with what follows `xs` at the
offset moved past `xs`. -/
theorem drop_add_of_append {α : Type*} {buf xs rest : List α} {off : Nat}
    (h : buf.drop off = xs ++ rest) : buf.drop (off + xs.length) = rest := by
  rw [← List.drop_drop, h, List.drop_left]

/-- If a buffer continues with `xs` at an offset within it, reading that many bytes there stays in
bounds. -/
theorem add_length_le_of_append {α : Type*} {buf xs rest : List α} {off : Nat}
    (hoff : off ≤ buf.length) (h : buf.drop off = xs ++ rest) : off + xs.length ≤ buf.length := by
  have hlen := congrArg List.length h
  simp only [List.length_drop, List.length_append] at hlen
  omega

/-- If a buffer continues with `xs` at an offset, the slice there of that length is `xs`. -/
theorem take_drop_of_append {α : Type*} {buf xs rest : List α} {off : Nat}
    (h : buf.drop off = xs ++ rest) : (buf.drop off).take xs.length = xs := by
  rw [h, List.take_left]

end Bytes
