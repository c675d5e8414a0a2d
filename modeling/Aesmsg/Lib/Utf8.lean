import Mathlib.Data.List.Basic

/-!
# UTF-8 as the Encoding Standard decodes it

The encoder is Lean's own `String.utf8EncodeChar`, byte for byte.  The decoder is the state machine
of the Encoding Standard: it never fails, it answers a malformed sequence with U+FFFD, and it
re-examines the byte that broke the sequence.  On well-formed input the two are inverse
(`decode_encode`).

`TextDecoder` is the decoder together with its treatment of a leading byte order mark.  Unless it
is constructed with `ignoreBOM`, it *drops* a first code point U+FEFF, so decoding an encoded
string returns the string iff it does not start with that code point
(`TextDecoder.decode_encode_eq_iff`).
-/

namespace Utf8

/-- U+FFFD, which stands for every malformed sequence. -/
def replacement : Char := '\uFFFD'

/-- U+FEFF, the byte order mark. -/
def bom : Char := '\uFEFF'

/-- The registers of the UTF-8 decoder. -/
structure Decoder where
  codePoint : Nat := 0
  bytesSeen : Nat := 0
  bytesNeeded : Nat := 0
  lowerBoundary : Nat := 0x80
  upperBoundary : Nat := 0xBF
deriving DecidableEq, Repr

namespace Decoder

/-- What the decoder does with a byte when no sequence is pending. -/
def lead (b : Nat) : Decoder × List Char :=
  if b ≤ 0x7F then ({}, [Char.ofNat b])
  else if 0xC2 ≤ b ∧ b ≤ 0xDF then ({ codePoint := b % 0x20, bytesNeeded := 1 }, [])
  else if 0xE0 ≤ b ∧ b ≤ 0xEF then
    ({ codePoint := b % 0x10, bytesNeeded := 2,
       lowerBoundary := if b = 0xE0 then 0xA0 else 0x80,
       upperBoundary := if b = 0xED then 0x9F else 0xBF }, [])
  else if 0xF0 ≤ b ∧ b ≤ 0xF4 then
    ({ codePoint := b % 0x08, bytesNeeded := 3,
       lowerBoundary := if b = 0xF0 then 0x90 else 0x80,
       upperBoundary := if b = 0xF4 then 0x8F else 0xBF }, [])
  else ({}, [replacement])

/-- One byte of input. -/
def step (d : Decoder) (b : Nat) : Decoder × List Char :=
  if d.bytesNeeded = 0 then lead b
  else if b < d.lowerBoundary ∨ d.upperBoundary < b then
    -- the pending sequence is malformed; the byte that broke it is read again as a lead byte
    ((lead b).1, replacement :: (lead b).2)
  else if d.bytesSeen + 1 = d.bytesNeeded then
    ({}, [Char.ofNat (d.codePoint * 64 + b % 64)])
  else
    ({ codePoint := d.codePoint * 64 + b % 64, bytesSeen := d.bytesSeen + 1,
       bytesNeeded := d.bytesNeeded }, [])

/-- The rest of the input, then end-of-queue. -/
def run : Decoder → List UInt8 → List Char
  | d, [] => if d.bytesNeeded = 0 then [] else [replacement]
  | d, b :: bs => (d.step b.toNat).2 ++ run (d.step b.toNat).1 bs

@[simp] theorem run_nil : run {} [] = [] := rfl

theorem run_cons (d : Decoder) (b : UInt8) (bs : List UInt8) :
    run d (b :: bs) = (d.step b.toNat).2 ++ run (d.step b.toNat).1 bs := rfl

theorem run_ofNat_cons (d : Decoder) {n : Nat} (h : n < 256) (bs : List UInt8) :
    run d (UInt8.ofNat n :: bs) = (d.step n).2 ++ run (d.step n).1 bs := by
  rw [run_cons, UInt8.toNat_ofNat_of_lt' h]

/-- A lead byte opens a sequence from the initial state. -/
theorem step_initial (b : Nat) : step {} b = lead b := rfl

theorem lead_one {b : Nat} (h : b ≤ 0x7F) : lead b = ({}, [Char.ofNat b]) := if_pos h

theorem lead_two {b : Nat} (h : 0xC2 ≤ b) (h' : b ≤ 0xDF) :
    lead b = ({ codePoint := b % 0x20, bytesNeeded := 1 }, []) := by
  rw [lead, if_neg (by omega), if_pos ⟨h, h'⟩]

theorem lead_three {b : Nat} (h : 0xE0 ≤ b) (h' : b ≤ 0xEF) :
    lead b = ({ codePoint := b % 0x10, bytesNeeded := 2,
                lowerBoundary := if b = 0xE0 then 0xA0 else 0x80,
                upperBoundary := if b = 0xED then 0x9F else 0xBF }, []) := by
  rw [lead, if_neg (by omega), if_neg (by omega), if_pos ⟨h, h'⟩]

theorem lead_four {b : Nat} (h : 0xF0 ≤ b) (h' : b ≤ 0xF4) :
    lead b = ({ codePoint := b % 0x08, bytesNeeded := 3,
                lowerBoundary := if b = 0xF0 then 0x90 else 0x80,
                upperBoundary := if b = 0xF4 then 0x8F else 0xBF }, []) := by
  rw [lead, if_neg (by omega), if_neg (by omega), if_neg (by omega), if_pos ⟨h, h'⟩]

/-- A continuation byte within the boundaries that does not complete its sequence. -/
theorem step_continue {d : Decoder} {b : Nat} (hlow : d.lowerBoundary ≤ b)
    (hup : b ≤ d.upperBoundary) (hmore : d.bytesSeen + 1 < d.bytesNeeded) :
    d.step b = ({ codePoint := d.codePoint * 64 + b % 64, bytesSeen := d.bytesSeen + 1,
                  bytesNeeded := d.bytesNeeded }, []) := by
  have hpending : d.bytesNeeded ≠ 0 := by omega
  have hin : ¬(b < d.lowerBoundary ∨ d.upperBoundary < b) := by omega
  have hne : d.bytesSeen + 1 ≠ d.bytesNeeded := by omega
  simp only [step, if_neg hpending, if_neg hin, if_neg hne]

/-- A continuation byte within the boundaries that completes its sequence. -/
theorem step_last {d : Decoder} {b : Nat} (hlow : d.lowerBoundary ≤ b)
    (hup : b ≤ d.upperBoundary) (hlast : d.bytesSeen + 1 = d.bytesNeeded) :
    d.step b = ({}, [Char.ofNat (d.codePoint * 64 + b % 64)]) := by
  have hpending : d.bytesNeeded ≠ 0 := by omega
  have hin : ¬(b < d.lowerBoundary ∨ d.upperBoundary < b) := by omega
  simp only [step, if_neg hpending, if_neg hin, if_pos hlast]

end Decoder

/-- UTF-8 decode, with replacement and without treatment of a byte order mark. -/
def decode (bs : List UInt8) : List Char := Decoder.run {} bs

/-- UTF-8 encode. -/
def encode (cs : List Char) : List UInt8 := cs.flatMap String.utf8EncodeChar

@[simp] theorem encode_nil : encode [] = [] := rfl

@[simp] theorem encode_cons (c : Char) (cs : List Char) :
    encode (c :: cs) = String.utf8EncodeChar c ++ encode cs := rfl

/-! ## Encoding one code point

The four shapes of `String.utf8EncodeChar`, as natural-number bytes. -/

section Char

variable (c : Char)

theorem toNat_val_lt : c.val.toNat < 0x110000 := by
  have h : c.val.toNat < 0xD800 ∨ 0xDFFF < c.val.toNat ∧ c.val.toNat < 0x110000 := c.valid
  omega

theorem toNat_val_not_surrogate : c.val.toNat < 0xD800 ∨ 0xDFFF < c.val.toNat := by
  have h : c.val.toNat < 0xD800 ∨ 0xDFFF < c.val.toNat ∧ c.val.toNat < 0x110000 := c.valid
  omega

theorem ofNat_val : Char.ofNat c.val.toNat = c := Char.ofNat_toNat c

end Char

/-! ### The lead byte decides the boundaries

For each length of sequence, the bytes a code point of that length is written with drive the
decoder from its initial state back to it. -/

section Run

open Decoder

variable {v : Nat} (bs : List UInt8)

theorem run_one (h : v ≤ 0x7F) :
    run {} (UInt8.ofNat v :: bs) = Char.ofNat v :: run {} bs := by
  rw [run_ofNat_cons _ (by omega), step_initial, lead_one h]
  rfl

theorem run_two (h : 0x80 ≤ v) (h' : v ≤ 0x7FF) :
    run {} (UInt8.ofNat (v / 64 % 0x20 + 0xC0) :: UInt8.ofNat (v % 0x40 + 0x80) :: bs)
      = Char.ofNat v :: run {} bs := by
  rw [run_ofNat_cons _ (by omega), step_initial, lead_two (by omega) (by omega),
    run_ofNat_cons _ (by omega), step_last (by dsimp only; omega) (by dsimp only; omega) rfl]
  have hcp : (v / 64 % 0x20 + 0xC0) % 0x20 * 64 + (v % 0x40 + 0x80) % 64 = v := by omega
  simp only [hcp, List.nil_append, List.singleton_append]

theorem run_three (h : 0x800 ≤ v) (h' : v ≤ 0xFFFF) (hsur : v < 0xD800 ∨ 0xDFFF < v) :
    run {} (UInt8.ofNat (v / 4096 % 0x10 + 0xE0) :: UInt8.ofNat (v / 64 % 0x40 + 0x80) ::
        UInt8.ofNat (v % 0x40 + 0x80) :: bs) = Char.ofNat v :: run {} bs := by
  rw [run_ofNat_cons _ (by omega), step_initial, lead_three (by omega) (by omega),
    run_ofNat_cons _ (by omega),
    step_continue (by dsimp only; split <;> omega) (by dsimp only; split <;> omega)
      (by dsimp only; omega),
    run_ofNat_cons _ (by omega), step_last (by dsimp only; omega) (by dsimp only; omega) rfl]
  have hcp : ((v / 4096 % 0x10 + 0xE0) % 0x10 * 64 + (v / 64 % 0x40 + 0x80) % 64) * 64
      + (v % 0x40 + 0x80) % 64 = v := by omega
  simp only [hcp, List.nil_append, List.singleton_append]

theorem run_four (h : 0x10000 ≤ v) (h' : v < 0x110000) :
    run {} (UInt8.ofNat (v / 262144 % 0x08 + 0xF0) :: UInt8.ofNat (v / 4096 % 0x40 + 0x80) ::
        UInt8.ofNat (v / 64 % 0x40 + 0x80) :: UInt8.ofNat (v % 0x40 + 0x80) :: bs)
      = Char.ofNat v :: run {} bs := by
  rw [run_ofNat_cons _ (by omega), step_initial, lead_four (by omega) (by omega),
    run_ofNat_cons _ (by omega),
    step_continue (by dsimp only; split <;> omega) (by dsimp only; split <;> omega)
      (by dsimp only; omega),
    run_ofNat_cons _ (by omega),
    step_continue (by dsimp only; omega) (by dsimp only; omega) (by dsimp only; omega),
    run_ofNat_cons _ (by omega), step_last (by dsimp only; omega) (by dsimp only; omega) rfl]
  have hcp : (((v / 262144 % 0x08 + 0xF0) % 0x08 * 64 + (v / 4096 % 0x40 + 0x80) % 64) * 64
      + (v / 64 % 0x40 + 0x80) % 64) * 64 + (v % 0x40 + 0x80) % 64 = v := by omega
  simp only [hcp, List.nil_append, List.singleton_append]

end Run

/-- Decoding the bytes of a code point from the initial state yields it and returns to the
initial state. -/
theorem run_utf8EncodeChar (c : Char) (bs : List UInt8) :
    Decoder.run {} (String.utf8EncodeChar c ++ bs) = c :: Decoder.run {} bs := by
  have hlt := toNat_val_lt c
  have hsur := toNat_val_not_surrogate c
  have hc := ofNat_val c
  unfold String.utf8EncodeChar
  generalize c.val.toNat = v at hlt hsur hc ⊢
  subst hc
  dsimp only
  split
  · exact run_one bs (by assumption)
  split
  · exact run_two bs (by omega) (by assumption)
  split
  · exact run_three bs (by omega) (by assumption) hsur
  · exact run_four bs (by omega) hlt

/-- Decoding inverts encoding. -/
@[simp] theorem decode_encode (cs : List Char) : decode (encode cs) = cs := by
  induction cs with
  | nil => rfl
  | cons c cs ih => exact (run_utf8EncodeChar c (encode cs)).trans (congrArg (c :: ·) ih)

/-- ASCII takes a byte a character. -/
theorem length_encode_of_ascii {cs : List Char} (h : ∀ c ∈ cs, c.toNat < 128) :
    (encode cs).length = cs.length := by
  induction cs with
  | nil => rfl
  | cons c cs ih =>
    have hc : c.utf8Size = 1 := by
      rw [Char.utf8Size_eq_one_iff]
      exact Nat.lt_succ_iff.mp (h c List.mem_cons_self)
    rw [encode_cons, List.length_append, String.length_utf8EncodeChar, hc,
      ih fun c hc ↦ h c (List.mem_cons_of_mem _ hc), List.length_cons, Nat.add_comm]

theorem encode_injective : Function.Injective encode :=
  Function.LeftInverse.injective decode_encode

end Utf8

/-! ## The string-level interfaces -/

/-- `new TextEncoder().encode(s)` on a well-formed string. -/
def TextEncoder.encode (s : String) : List UInt8 := Utf8.encode s.toList

namespace TextDecoder

open Utf8

/-- Drop a leading byte order mark, as a decoder without `ignoreBOM` does. -/
def dropBOM : List Char → List Char
  | [] => []
  | c :: cs => if c = bom then cs else c :: cs

/-- `new TextDecoder(options).decode(bytes)` for the encoding UTF-8 and non-fatal errors. -/
def decode (ignoreBOM : Bool) (bs : List UInt8) : String :=
  String.ofList (if ignoreBOM then Utf8.decode bs else dropBOM (Utf8.decode bs))

theorem dropBOM_eq_self_iff (cs : List Char) : dropBOM cs = cs ↔ cs.head? ≠ some bom := by
  cases cs with
  | nil => simp [dropBOM]
  | cons c cs =>
      by_cases h : c = bom
      · simp [dropBOM, h]
      · simp [dropBOM, h]

/-- Decoding an encoded string gives it back iff it does not start with a byte order mark. -/
theorem decode_encode_eq_iff (s : String) :
    decode false (TextEncoder.encode s) = s ↔ s.toList.head? ≠ some bom := by
  rw [decode, TextEncoder.encode, Utf8.decode_encode, ← dropBOM_eq_self_iff]
  constructor
  · intro h
    simpa using congrArg String.toList h
  · intro h
    simp [h]

end TextDecoder

theorem TextEncoder.encode_injective : Function.Injective TextEncoder.encode :=
  fun _ _ h ↦ String.toList_injective (Utf8.encode_injective h)
