import Mathlib.Algebra.Group.Nat.Defs
import Mathlib.Data.List.Basic
import Mathlib.Data.List.GetD
import Mathlib.Data.List.Nodup

/-!
# Base 64

RFC 4648 regrouping of bytes into six-bit digits, three bytes to four digits (`sextets`), and back
(`octets`), over any alphabet; the padded and the unpadded text forms.

Programs often do not group by three but run a bit accumulator: shift in eight bits, take out six
while there are six, on a 32-bit register whose old high bits wrap away.  `encodeLoop` and
`decodeLoop` are these loops on a `BitVec 32`; `encodeLoop_eq` and `decodeLoop_eq` say that they
compute the regrouping whatever the register held, for input of any length.
-/

namespace Base64

/-! ## The register -/

/-- `(value << w) | d` on a 32-bit register. -/
def push (w : Nat) (value : BitVec 32) (d : Nat) : BitVec 32 := value <<< w ||| BitVec.ofNat 32 d

/-- `(value >> k) & (2 ^ w - 1)` on a 32-bit register, with a sign-propagating shift. -/
def peek (w : Nat) (value : BitVec 32) (k : Nat) : Nat :=
  (value.sshiftRight k &&& BitVec.ofNat 32 (2 ^ w - 1)).toNat

theorem toNat_push {w d : Nat} (hw : w ≤ 32) (hd : d < 2 ^ w) (value : BitVec 32) :
    (push w value d).toNat = value.toNat * 2 ^ w % 2 ^ 32 + d := by
  have hd32 : d < 2 ^ 32 := Nat.lt_of_lt_of_le hd (Nat.pow_le_pow_right (by omega) hw)
  have hsplit : value.toNat * 2 ^ w % 2 ^ 32 = 2 ^ w * (value.toNat % 2 ^ (32 - w)) := by
    have hpow : 2 ^ 32 = 2 ^ w * 2 ^ (32 - w) := by rw [← Nat.pow_add]; congr 1; omega
    rw [hpow, Nat.mul_comm, Nat.mul_mod_mul_left]
  rw [push, BitVec.toNat_or, BitVec.toNat_shiftLeft, BitVec.toNat_ofNat, Nat.mod_eq_of_lt hd32,
    Nat.shiftLeft_eq, hsplit, ← Nat.two_pow_add_eq_or_of_lt hd]

theorem peek_eq {w k : Nat} (h : k + w ≤ 32) (value : BitVec 32) :
    peek w value k = value.toNat / 2 ^ k % 2 ^ w := by
  have hmask : 2 ^ w - 1 < 2 ^ 32 := by
    have hle := Nat.pow_le_pow_right (n := 2) (by omega) (show w ≤ 32 by omega)
    have hpos := Nat.two_pow_pos w
    omega
  refine Nat.eq_of_testBit_eq fun i ↦ ?_
  rw [peek, BitVec.toNat_and, BitVec.toNat_ofNat, Nat.mod_eq_of_lt hmask,
    Nat.and_two_pow_sub_one_eq_mod, Nat.testBit_mod_two_pow, Nat.testBit_mod_two_pow,
    Nat.testBit_div_two_pow]
  by_cases hi : i < w
  · have hbit : (value.sshiftRight k).toNat.testBit i = value.toNat.testBit (k + i) := by
      rw [BitVec.testBit_toNat, BitVec.testBit_toNat, BitVec.getLsbD_sshiftRight]
      simp [show i < 32 by omega, show k + i < 32 by omega]
    rw [hbit, Nat.add_comm]
  · simp [hi]

/-! ## Regrouping -/

/-- Bytes to six-bit digits, three bytes at a time; a short last group is padded with zero bits. -/
def sextets : List UInt8 → List Nat
  | a :: b :: c :: rest =>
      a.toNat / 4 :: (a.toNat % 4 * 16 + b.toNat / 16) ::
        (b.toNat % 16 * 4 + c.toNat / 64) :: c.toNat % 64 :: sextets rest
  | [a, b] => [a.toNat / 4, a.toNat % 4 * 16 + b.toNat / 16, b.toNat % 16 * 4]
  | [a] => [a.toNat / 4, a.toNat % 4 * 16]
  | [] => []

/-- Six-bit digits to bytes, four digits at a time; the bits that do not fill a byte are
dropped. -/
def octets : List Nat → List UInt8
  | a :: b :: c :: d :: rest =>
      UInt8.ofNat (a * 4 + b / 16) :: UInt8.ofNat (b % 16 * 16 + c / 4) ::
        UInt8.ofNat (c % 4 * 64 + d) :: octets rest
  | [a, b, c] => [UInt8.ofNat (a * 4 + b / 16), UInt8.ofNat (b % 16 * 16 + c / 4)]
  | [a, b] => [UInt8.ofNat (a * 4 + b / 16)]
  | [_] => []
  | [] => []

/-- Every digit is below 64. -/
theorem lt_of_mem_sextets : ∀ {bs : List UInt8} {d : Nat}, d ∈ sextets bs → d < 64
  | a :: b :: c :: rest, d, h => by
      have ha := a.toNat_lt
      have hb := b.toNat_lt
      have hc := c.toNat_lt
      simp only [sextets, List.mem_cons] at h
      rcases h with rfl | rfl | rfl | rfl | h
      · omega
      · omega
      · omega
      · omega
      · exact lt_of_mem_sextets h
  | [a, b], d, h => by
      have ha := a.toNat_lt
      have hb := b.toNat_lt
      simp only [sextets, List.mem_cons, List.not_mem_nil, or_false] at h
      omega
  | [a], d, h => by
      have ha := a.toNat_lt
      simp only [sextets, List.mem_cons, List.not_mem_nil, or_false] at h
      omega
  | [], _, h => by simp [sextets] at h

theorem ofNat_eq {b : UInt8} {n : Nat} (h : n = b.toNat) : UInt8.ofNat n = b := by
  rw [h, UInt8.ofNat_toNat]

/-- Regrouping back and forth is the identity, on byte strings of any length. -/
@[simp] theorem octets_sextets : ∀ bs : List UInt8, octets (sextets bs) = bs
  | a :: b :: c :: rest => by
      have ha := a.toNat_lt
      have hb := b.toNat_lt
      have hc := c.toNat_lt
      rw [sextets, octets, octets_sextets rest, ofNat_eq (b := a) (by omega),
        ofNat_eq (b := b) (by omega), ofNat_eq (b := c) (by omega)]
  | [a, b] => by
      have ha := a.toNat_lt
      have hb := b.toNat_lt
      rw [sextets, octets, ofNat_eq (b := a) (by omega), ofNat_eq (b := b) (by omega)]
  | [a] => by
      have ha := a.toNat_lt
      rw [sextets, octets, ofNat_eq (b := a) (by omega)]
  | [] => rfl

theorem length_octets : ∀ ds : List Nat, (octets ds).length = 6 * ds.length / 8
  | _ :: _ :: _ :: _ :: rest => by
      rw [octets, List.length_cons, List.length_cons, List.length_cons, length_octets rest]
      simp only [List.length_cons]
      omega
  | [_, _, _] => by simp [octets]
  | [_, _] => by simp [octets]
  | [_] => by simp [octets]
  | [] => rfl

/-- The digits of some byte string: no digit stands alone in the last group, and the bits that do
not fill a byte are zero. -/
def Canonical : List Nat → Prop
  | _ :: _ :: _ :: _ :: rest => Canonical rest
  | [_, _, c] => c % 4 = 0
  | [_, b] => b % 16 = 0
  | [_] => False
  | [] => True

theorem canonical_sextets : ∀ bs : List UInt8, Canonical (sextets bs)
  | _ :: _ :: _ :: rest => canonical_sextets rest
  | [_, b] => by
      show b.toNat % 16 * 4 % 4 = 0
      omega
  | [a] => by
      show a.toNat % 4 * 16 % 16 = 0
      omega
  | [] => trivial

theorem toNat_ofNat_of_lt {n : Nat} (h : n < 256) : (UInt8.ofNat n).toNat = n := by
  rw [UInt8.toNat_ofNat']
  exact Nat.mod_eq_of_lt h

/-- Canonical digits are those of the bytes they spell. -/
theorem sextets_octets : ∀ ds : List Nat, (∀ d ∈ ds, d < 64) → Canonical ds →
    sextets (octets ds) = ds
  | a :: b :: c :: d :: rest, h, hcan => by
      simp only [List.forall_mem_cons] at h
      obtain ⟨ha, hb, hc, hd, hrest⟩ := h
      rw [octets, sextets, sextets_octets rest hrest hcan, toNat_ofNat_of_lt (by omega),
        toNat_ofNat_of_lt (by omega), toNat_ofNat_of_lt (by omega)]
      congr 1
      · omega
      congr 1
      · omega
      congr 1
      · omega
      congr 1
      omega
  | [a, b, c], h, hcan => by
      simp only [List.forall_mem_cons] at h
      obtain ⟨ha, hb, hc, -⟩ := h
      have hzero : c % 4 = 0 := hcan
      rw [octets, sextets, toNat_ofNat_of_lt (by omega), toNat_ofNat_of_lt (by omega)]
      congr 1
      · omega
      congr 1
      · omega
      congr 1
      omega
  | [a, b], h, hcan => by
      simp only [List.forall_mem_cons] at h
      obtain ⟨ha, hb, -⟩ := h
      have hzero : b % 16 = 0 := hcan
      rw [octets, sextets, toNat_ofNat_of_lt (by omega)]
      congr 1
      · omega
      congr 1
      omega
  | [_], _, hcan => absurd hcan id
  | [], _, _ => rfl

/-- The texts of byte strings are the canonical ones. -/
theorem sextets_octets_iff {ds : List Nat} (h : ∀ d ∈ ds, d < 64) :
    sextets (octets ds) = ds ↔ Canonical ds := by
  constructor
  · intro heq
    rw [← heq]
    exact canonical_sextets _
  · exact sextets_octets ds h

/-- Of a last group of two digits, four bits are left over. -/
theorem canonical_append_singleton (last : Nat) : ∀ init : List Nat, init.length % 4 = 1 →
    (Canonical (init ++ [last]) ↔ last % 16 = 0)
  | _ :: _ :: _ :: _ :: rest, h => by
      simp only [List.length_cons] at h
      exact canonical_append_singleton last rest (by omega)
  | [_, _, _], h => absurd h (by simp)
  | [_, _], h => absurd h (by simp)
  | [_], _ => Iff.rfl
  | [], h => absurd h (by simp)

/-! ## The accumulator loops -/

/-- `while (bits >= 6) { bits -= 6; emit (value >> bits) & 0x3f }`: the digits emitted and the bits
left. -/
def drain (value : BitVec 32) : Nat → List Nat × Nat
  | bits + 6 => (peek 6 value bits :: (drain value bits).1, (drain value bits).2)
  | bits => ([], bits)

/-- The encoder's loop over the bytes, and the flush of the last short digit. -/
def encodeLoop : Nat → BitVec 32 → List UInt8 → List Nat
  | bits, value, [] => if bits > 0 then [peek 6 (value <<< (6 - bits)) 0] else []
  | bits, value, b :: bs =>
      (drain (push 8 value b.toNat) (bits + 8)).1 ++
        encodeLoop (drain (push 8 value b.toNat) (bits + 8)).2 (push 8 value b.toNat) bs

/-- The decoder's loop over the digits. -/
def decodeLoop : Nat → BitVec 32 → List Nat → List UInt8
  | _, _, [] => []
  | bits, value, d :: ds =>
      if bits + 6 ≥ 8 then
        UInt8.ofNat (peek 8 (push 6 value d) (bits + 6 - 8)) ::
          decodeLoop (bits + 6 - 8) (push 6 value d) ds
      else decodeLoop (bits + 6) (push 6 value d) ds

theorem toNat_push_byte (value : BitVec 32) (b : UInt8) :
    (push 8 value b.toNat).toNat = value.toNat * 256 % 4294967296 + b.toNat :=
  toNat_push (by omega) b.toNat_lt value

theorem toNat_push_digit (value : BitVec 32) {d : Nat} (hd : d < 64) :
    (push 6 value d).toNat = value.toNat * 64 % 4294967296 + d :=
  toNat_push (by omega) hd value

/-- The encoder loop computes the regrouping, whatever the register holds at the start. -/
theorem encodeLoop_eq : ∀ (bs : List UInt8) (value : BitVec 32),
    encodeLoop 0 value bs = sextets bs
  | a :: b :: c :: rest, value => by
      have ha := a.toNat_lt
      have hb := b.toNat_lt
      have hc := c.toNat_lt
      simp only [encodeLoop, drain, encodeLoop_eq rest, sextets, List.nil_append,
        List.cons_append, peek_eq (show 2 + 6 ≤ 32 by omega), peek_eq (show 4 + 6 ≤ 32 by omega),
        peek_eq (show 6 + 6 ≤ 32 by omega), peek_eq (show 0 + 6 ≤ 32 by omega), toNat_push_byte]
      congr 1
      · omega
      congr 1
      · omega
      congr 1
      · omega
      congr 1
      omega
  | [a, b], value => by
      have ha := a.toNat_lt
      have hb := b.toNat_lt
      simp only [encodeLoop, drain, sextets, List.nil_append, List.cons_append,
        peek_eq (show 2 + 6 ≤ 32 by omega), peek_eq (show 4 + 6 ≤ 32 by omega),
        peek_eq (show 0 + 6 ≤ 32 by omega), BitVec.toNat_shiftLeft, Nat.shiftLeft_eq,
        toNat_push_byte, Nat.succ_eq_add_one, Nat.reduceAdd, Nat.reduceSub, Nat.reducePow]
      rw [if_pos (by omega)]
      congr 1
      · omega
      congr 1
      · omega
      congr 1
      omega
  | [a], value => by
      have ha := a.toNat_lt
      simp only [encodeLoop, drain, sextets, List.nil_append, List.cons_append,
        peek_eq (show 2 + 6 ≤ 32 by omega), peek_eq (show 0 + 6 ≤ 32 by omega),
        BitVec.toNat_shiftLeft, Nat.shiftLeft_eq, toNat_push_byte, Nat.succ_eq_add_one,
        Nat.reduceAdd, Nat.reduceSub, Nat.reducePow]
      rw [if_pos (by omega)]
      congr 1
      · omega
      congr 1
      omega
  | [], value => rfl

theorem ofNat_congr {m n : Nat} (h : m % 256 = n % 256) : UInt8.ofNat m = UInt8.ofNat n :=
  UInt8.toNat_inj.mp (by simpa using h)

/-- The decoder loop computes the regrouping, whatever the register holds at the start. -/
theorem decodeLoop_eq : ∀ (ds : List Nat) (value : BitVec 32), (∀ d ∈ ds, d < 64) →
    decodeLoop 0 value ds = octets ds
  | a :: b :: c :: d :: rest, value, h => by
      simp only [List.forall_mem_cons] at h
      obtain ⟨ha, hb, hc, hd, hrest⟩ := h
      simp only [decodeLoop, Nat.reduceAdd, Nat.reduceSub, ge_iff_le, Nat.reduceLeDiff, if_false,
        if_true, decodeLoop_eq rest _ hrest, octets, peek_eq (show 4 + 8 ≤ 32 by omega),
        peek_eq (show 2 + 8 ≤ 32 by omega), peek_eq (show 0 + 8 ≤ 32 by omega),
        toNat_push_digit _ ha, toNat_push_digit _ hb, toNat_push_digit _ hc,
        toNat_push_digit _ hd]
      congr 1
      · exact ofNat_congr (by omega)
      congr 1
      · exact ofNat_congr (by omega)
      congr 1
      exact ofNat_congr (by omega)
  | [a, b, c], value, h => by
      simp only [List.forall_mem_cons] at h
      obtain ⟨ha, hb, hc, -⟩ := h
      simp only [decodeLoop, Nat.reduceAdd, Nat.reduceSub, ge_iff_le, Nat.reduceLeDiff, if_false,
        if_true, octets, peek_eq (show 4 + 8 ≤ 32 by omega), peek_eq (show 2 + 8 ≤ 32 by omega),
        toNat_push_digit _ ha, toNat_push_digit _ hb, toNat_push_digit _ hc]
      congr 1
      · exact ofNat_congr (by omega)
      congr 1
      exact ofNat_congr (by omega)
  | [a, b], value, h => by
      simp only [List.forall_mem_cons] at h
      obtain ⟨ha, hb, -⟩ := h
      simp only [decodeLoop, Nat.reduceAdd, Nat.reduceSub, ge_iff_le, Nat.reduceLeDiff, if_false,
        if_true, octets, peek_eq (show 4 + 8 ≤ 32 by omega), toNat_push_digit _ ha,
        toNat_push_digit _ hb]
      congr 1
      exact ofNat_congr (by omega)
  | [a], value, _ => by simp [decodeLoop, octets]
  | [], value, _ => rfl

/-- Encoding and decoding with the accumulator loops is the identity on byte strings of any
length. -/
theorem decodeLoop_encodeLoop (bs : List UInt8) (v w : BitVec 32) :
    decodeLoop 0 w (encodeLoop 0 v bs) = bs := by
  rw [encodeLoop_eq, decodeLoop_eq _ _ fun _ h ↦ lt_of_mem_sextets h, octets_sextets]

/-! ## Text -/

/-- An alphabet of 64 distinct characters. -/
structure Alphabet where
  chars : List Char
  length_eq : chars.length = 64
  nodup : chars.Nodup

namespace Alphabet

variable (α : Alphabet)

/-- The character of a digit. -/
def char (d : Nat) : Char := α.chars.getD d 'A'

/-- The digit of a character. -/
def digit (c : Char) : Option Nat := α.chars.findIdx? (· == c)

/-- The digits of a string, if all its characters are in the alphabet. -/
def digits (s : List Char) : Option (List Nat) := s.mapM α.digit

/-- The unpadded text of a byte string. -/
def text (bs : List UInt8) : List Char := (sextets bs).map α.char

theorem digit_char {d : Nat} (h : d < 64) : α.digit (α.char d) = some d := by
  have hd : d < α.chars.length := by rw [α.length_eq]; exact h
  rw [char, List.getD_eq_getElem _ _ hd, digit, List.findIdx?_eq_some_iff_getElem]
  refine ⟨hd, by simp, fun j hj ↦ ?_⟩
  have hne : j ≠ d := by omega
  simpa using mt α.nodup.getElem_inj_iff.mp hne

theorem lt_of_digit_eq_some {c : Char} {d : Nat} (h : α.digit c = some d) : d < 64 := by
  rw [digit, List.findIdx?_eq_some_iff_getElem] at h
  obtain ⟨hd, -⟩ := h
  rwa [α.length_eq] at hd

theorem char_of_digit_eq_some {c : Char} {d : Nat} (h : α.digit c = some d) : α.char d = c := by
  rw [digit, List.findIdx?_eq_some_iff_getElem] at h
  obtain ⟨hd, hc, -⟩ := h
  rw [char, List.getD_eq_getElem _ _ hd]
  simpa using hc

theorem digits_map_char {ds : List Nat} (h : ∀ d ∈ ds, d < 64) :
    α.digits (ds.map α.char) = some ds := by
  induction ds with
  | nil => rfl
  | cons d ds ih =>
      rw [List.forall_mem_cons] at h
      have hds : (ds.map α.char).mapM α.digit = some ds := ih h.2
      simp [digits, α.digit_char h.1, hds]

/-- The digits of a string are all it says. -/
theorem digits_eq_some {s : List Char} {ds : List Nat} (h : α.digits s = some ds) :
    (∀ d ∈ ds, d < 64) ∧ ds.map α.char = s := by
  induction s generalizing ds with
  | nil =>
      obtain rfl := Option.some.inj h
      exact ⟨by simp, rfl⟩
  | cons c s ih =>
      rw [digits, List.mapM_cons] at h
      simp only [Option.bind_eq_bind, Option.bind_eq_some_iff] at h
      obtain ⟨d, hd, ds', hds', heq⟩ := h
      obtain rfl := Option.some.inj heq
      obtain ⟨hlt, hmap⟩ := ih hds'
      rw [List.map_cons, α.char_of_digit_eq_some hd, hmap]
      exact ⟨List.forall_mem_cons.mpr ⟨α.lt_of_digit_eq_some hd, hlt⟩, rfl⟩

/-- The digits of a text are those it was written with. -/
@[simp] theorem digits_text (bs : List UInt8) : α.digits (α.text bs) = some (sextets bs) :=
  α.digits_map_char fun _ h ↦ lt_of_mem_sextets h

/-- Every character of a text is in the alphabet. -/
theorem mem_of_mem_text {bs : List UInt8} {c : Char} (h : c ∈ α.text bs) : c ∈ α.chars := by
  obtain ⟨d, hd, rfl⟩ := List.mem_map.mp h
  have hlt : d < α.chars.length := by rw [α.length_eq]; exact lt_of_mem_sextets hd
  rw [char, List.getD_eq_getElem _ _ hlt]
  exact List.getElem_mem hlt

/-- Every character of a text is that of a digit. -/
theorem forall_mem_text {p : Char → Prop} (h : ∀ d < 64, p (α.char d)) (bs : List UInt8) :
    ∀ c ∈ α.text bs, p c := by
  intro c hc
  obtain ⟨d, hd, rfl⟩ := List.mem_map.mp hc
  exact h d (lt_of_mem_sextets hd)

end Alphabet

/-- The alphabet of RFC 4648, section 4. -/
def standard : Alphabet where
  chars :=
    ['A', 'B', 'C', 'D', 'E', 'F', 'G', 'H', 'I', 'J', 'K', 'L', 'M', 'N', 'O', 'P', 'Q', 'R',
     'S', 'T', 'U', 'V', 'W', 'X', 'Y', 'Z', 'a', 'b', 'c', 'd', 'e', 'f', 'g', 'h', 'i', 'j',
     'k', 'l', 'm', 'n', 'o', 'p', 'q', 'r', 's', 't', 'u', 'v', 'w', 'x', 'y', 'z', '0', '1',
     '2', '3', '4', '5', '6', '7', '8', '9', '+', '/']
  length_eq := rfl
  nodup := by decide +kernel

/-- What can be checked of every character of the alphabet. -/
theorem forall_mem_chars {p : Char → Prop} [DecidablePred p]
    (h : standard.chars.all (fun c ↦ p c) = true) : ∀ c ∈ standard.chars, p c :=
  fun c hc ↦ of_decide_eq_true (List.all_eq_true.mp h c hc)

/-- `btoa`, of the string whose characters are the bytes: the padded text. -/
def btoa (bytes : List UInt8) : String :=
  let text := standard.text bytes
  String.ofList (text ++ List.replicate ((4 - text.length % 4) % 4) '=')

/-- Take away up to two padding characters. -/
def dropPad (s : List Char) : List Char :=
  match s.reverse with
  | '=' :: '=' :: rest => rest.reverse
  | '=' :: rest => rest.reverse
  | _ => s

def isAsciiWhitespace (c : Char) : Bool :=
  c = ' ' || c = '\t' || c = '\n' || c = '\x0c' || c = '\r'

/-- `atob`, the forgiving decoder, as the bytes that are the characters of the result; none where it
throws. -/
def atob (s : String) : Option (List UInt8) :=
  let data := s.toList.filter fun c ↦ !isAsciiWhitespace c
  let data := if data.length % 4 = 0 then dropPad data else data
  if data.length % 4 = 1 then none else (standard.digits data).map octets

/-! ## Padded texts -/

/-- A last group has no single digit. -/
theorem length_sextets : ∀ bs : List UInt8, (sextets bs).length % 4 ≠ 1
  | _ :: _ :: _ :: rest => by
      have ih := length_sextets rest
      rw [sextets]
      simp only [List.length_cons]
      omega
  | [_, _] => by simp [sextets]
  | [_] => by simp [sextets]
  | [] => by simp [sextets]

theorem length_text (bs : List UInt8) : (standard.text bs).length % 4 ≠ 1 := by
  rw [Alphabet.text, List.length_map]
  exact length_sextets bs

theorem not_mem_text {c : Char} (h : c ∉ standard.chars) (bs : List UInt8) :
    c ∉ standard.text bs := fun hm ↦ h (standard.mem_of_mem_text hm)

/-- A text is the reverse of a list that does not start with a padding character. -/
theorem reverse_text (bs : List UInt8) (rest : List Char) :
    (standard.text bs).reverse ≠ '=' :: rest := by
  intro h
  refine not_mem_text (by decide) bs (c := '=') ?_
  rw [← List.mem_reverse, h]
  exact List.mem_cons_self

theorem dropPad_text (bs : List UInt8) {k : Nat} (h : k ≤ 2) :
    dropPad (standard.text bs ++ List.replicate k '=') = standard.text bs := by
  have hrev := reverse_text bs
  unfold dropPad
  rw [List.reverse_append, List.reverse_replicate]
  match k, h with
  | 0, _ =>
    simp only [List.replicate_zero, List.nil_append, List.append_nil]
    split
    · rename_i heq
      exact absurd heq (hrev _)
    · rename_i heq
      exact absurd heq (hrev _)
    · rfl
  | 1, _ =>
    simp only [List.replicate_one, List.singleton_append]
    exact List.reverse_reverse _
  | 2, _ => simp [List.replicate_succ]

/-- The characters of `btoa`, with the padding counted. -/
theorem toList_btoa (bs : List UInt8) : ∃ k ≤ 2, (btoa bs).toList =
    standard.text bs ++ List.replicate k '=' ∧ ((standard.text bs).length + k) % 4 = 0 := by
  have hlen := length_text bs
  refine ⟨(4 - (standard.text bs).length % 4) % 4, ?_, ?_, ?_⟩
  · omega
  · exact String.toList_ofList
  · omega

/-- Three bytes make four digits. -/
theorem three_mul_length_sextets : ∀ bs : List UInt8,
    4 * bs.length ≤ 3 * (sextets bs).length ∧ 3 * (sextets bs).length ≤ 4 * bs.length + 2
  | _ :: _ :: _ :: rest => by
      have ih := three_mul_length_sextets rest
      simp only [sextets, List.length_cons]
      omega
  | [_, _] => by simp [sextets]
  | [_] => by simp [sextets]
  | [] => by simp [sextets]

theorem three_mul_length_btoa (bs : List UInt8) : 3 * (btoa bs).length ≤ 4 * bs.length + 8 := by
  obtain ⟨k, hk, htext, -⟩ := toList_btoa bs
  have hlen := (three_mul_length_sextets bs).2
  rw [← String.length_toList, htext, List.length_append, List.length_replicate, Alphabet.text,
    List.length_map]
  omega

/-- No character of a padded text is whitespace. -/
theorem not_isAsciiWhitespace_of_mem_btoa {bs : List UInt8} {c : Char} (h : c ∈ (btoa bs).toList) :
    isAsciiWhitespace c = false := by
  have hchars : ∀ c ∈ standard.chars, isAsciiWhitespace c = false :=
    forall_mem_chars (by decide)
  obtain ⟨k, -, htext, -⟩ := toList_btoa bs
  rw [htext, List.mem_append] at h
  rcases h with h | h
  · exact hchars c (standard.mem_of_mem_text h)
  · rw [List.eq_of_mem_replicate h]
    rfl

/-- `atob` reads what `btoa` writes. -/
theorem atob_btoa (bs : List UInt8) : atob (btoa bs) = some bs := by
  have hfilter : (btoa bs).toList.filter (fun c ↦ !isAsciiWhitespace c) = (btoa bs).toList :=
    List.filter_eq_self.mpr fun c hc ↦ by rw [not_isAsciiWhitespace_of_mem_btoa hc]; rfl
  obtain ⟨k, hk, htext, hlen⟩ := toList_btoa bs
  have hpad : ((btoa bs).toList.length) % 4 = 0 := by
    rw [htext, List.length_append, List.length_replicate]
    exact hlen
  unfold atob
  dsimp only
  rw [hfilter, if_pos hpad, htext, dropPad_text bs hk, if_neg (length_text bs),
    standard.digits_text, Option.map_some, octets_sextets]

end Base64
