import Aesmsg.Crypto.Lengths
import Mathlib.Order.Closure
import Mathlib.Data.Set.Card
import Mathlib.Order.Interval.Finset.Nat

/-!
# The padding law

The lengths that `targetPaddedLen` returns are the fixed buckets and, above them, the lengths that
are a multiple of their own Padmé block (`IsSize`).  `targetPaddedLen` rounds up to the least of
these: it is a closure operator, which makes it extensive, monotone and idempotent.

The block of a length is a power of two that never shrinks as the length grows (`lastBits_mono`);
that carries the rounding over the powers of two, where the block size jumps.  Between two powers
of two there are as many sizes as there are blocks, and a block is less than a sixteenth of the
length.
-/

namespace Aesmsg.Crypto

/-! ## Blocks -/

/-- `lastBits` of `padme` at a length with this exponent, cut off at zero. -/
def lastBits (exponent : Nat) : Nat := exponent - (Nat.log2 exponent + 1)

def blockSize (len : Nat) : Nat := 2 ^ lastBits (Nat.log2 len)

theorem blockSize_pos (len : Nat) : 0 < blockSize len := Nat.two_pow_pos _

theorem log2_mono {m n : Nat} (h : m ≤ n) : Nat.log2 m ≤ Nat.log2 n := by
  rw [Nat.log2_eq_log_two, Nat.log2_eq_log_two]
  exact Nat.log_mono_right h

theorem lastBits_le_succ (e : Nat) : lastBits e ≤ lastBits (e + 1) := by
  have hlog : Nat.log2 (e + 1) ≤ Nat.log2 e + 1 := by
    rcases Nat.eq_zero_or_pos e with rfl | he
    · decide
    · calc Nat.log2 (e + 1) ≤ Nat.log2 (2 * e) := log2_mono (by omega)
        _ = Nat.log2 e + 1 := Nat.log2_two_mul (Nat.ne_of_gt he)
  unfold lastBits
  omega

theorem lastBits_mono : Monotone lastBits := monotone_nat_of_le_succ lastBits_le_succ

/-- The block of a longer length is a multiple of the block of a shorter one. -/
theorem blockSize_dvd {m n : Nat} (h : m ≤ n) : blockSize m ∣ blockSize n :=
  Nat.pow_dvd_pow 2 (lastBits_mono (log2_mono h))

/-- Padmé rounds up to a multiple of the block. -/
theorem padme_eq_ceil (n : Nat) :
    padme n = (n + blockSize n - 1) / blockSize n * blockSize n := by
  unfold padme
  dsimp only
  split
  · rename_i hle
    have hbits : lastBits (Nat.log2 n) = 0 := Nat.sub_eq_zero_of_le hle
    rw [blockSize, hbits, Nat.pow_zero, Nat.div_one, Nat.mul_one, Nat.add_sub_cancel]
  · rfl

theorem blockSize_dvd_padme (n : Nat) : blockSize n ∣ padme n := by
  rw [padme_eq_ceil]
  exact Nat.dvd_mul_left _ _

/-- No multiple of the block lies between a length and its padded length. -/
theorem padme_le {n s : Nat} (h : n ≤ s) (hs : blockSize n ∣ s) : padme n ≤ s := by
  obtain ⟨q, rfl⟩ := hs
  have hq : (n + blockSize n - 1) / blockSize n ≤ q := by
    rw [← Nat.lt_succ_iff, Nat.div_lt_iff_lt_mul (blockSize_pos n), Nat.succ_mul, Nat.mul_comm q]
    have hpos := blockSize_pos n
    omega
  rw [padme_eq_ceil, Nat.mul_comm]
  exact Nat.mul_le_mul_left _ hq

/-- A padded length is a multiple of its own block, also where it has reached the next power of
two and the block has grown. -/
theorem blockSize_padme_dvd {n : Nat} (hn : 0 < n) : blockSize (padme n) ∣ padme n := by
  have hlow : 2 ^ Nat.log2 n ≤ n := Nat.log2_self_le (Nat.ne_of_gt hn)
  have hhigh : n < 2 ^ (Nat.log2 n + 1) := Nat.lt_log2_self
  have hbits : lastBits (Nat.log2 n) ≤ Nat.log2 n + 1 := (Nat.sub_le _ _).trans (Nat.le_succ _)
  have hle : padme n ≤ 2 ^ (Nat.log2 n + 1) :=
    padme_le (Nat.le_of_lt hhigh) (Nat.pow_dvd_pow 2 hbits)
  rcases Nat.lt_or_eq_of_le hle with hlt | heq
  · have hpos : padme n ≠ 0 := Nat.ne_of_gt (hn.trans_le (le_padme n))
    have hlog : Nat.log2 (padme n) = Nat.log2 n :=
      (Nat.log2_eq_iff hpos).mpr ⟨hlow.trans (le_padme n), hlt⟩
    have hsame : blockSize (padme n) = blockSize n := by
      rw [blockSize, blockSize, hlog]
    rw [hsame]
    exact blockSize_dvd_padme n
  · rw [heq, blockSize, Nat.log2_two_pow]
    exact Nat.pow_dvd_pow 2 (Nat.sub_le _ _)

/-- From `2 ^ 12` on, a block is at most a sixteenth of the length. -/
theorem blockSize_le {n : Nat} (h : 4096 ≤ n) : blockSize n * 16 ≤ n := by
  have hexp : 12 ≤ Nat.log2 n := by
    have hlog := log2_mono h
    rwa [show Nat.log2 4096 = 12 by decide] at hlog
  have hlog : 3 ≤ Nat.log2 (Nat.log2 n) := by
    have hlog := log2_mono hexp
    rwa [show Nat.log2 12 = 3 by decide] at hlog
  have hbits : lastBits (Nat.log2 n) + 4 ≤ Nat.log2 n := by
    unfold lastBits
    omega
  calc blockSize n * 16 = 2 ^ (lastBits (Nat.log2 n) + 4) := by rw [blockSize, Nat.pow_add]
    _ ≤ 2 ^ Nat.log2 n := Nat.pow_le_pow_right (by decide) hbits
    _ ≤ n := Nat.log2_self_le (by omega)

/-! ## Sizes -/

/-- A length that is its own padded length. -/
def IsSize (s : Nat) : Prop :=
  s ∈ PAD_BUCKETS ∨ LARGEST_FIXED_BUCKET < s ∧ blockSize s ∣ s

theorem targetPaddedLen_eq (n : Nat) :
    targetPaddedLen n =
      if n ≤ 256 then 256 else if n ≤ 1024 then 1024 else if n ≤ 4096 then 4096 else padme n := by
  unfold targetPaddedLen PAD_BUCKETS
  by_cases h₁ : n ≤ 256
  · simp [h₁]
  by_cases h₂ : n ≤ 1024
  · simp [h₁, h₂]
  by_cases h₃ : n ≤ 4096
  · simp [h₁, h₂, h₃]
  · simp [h₁, h₂, h₃]

theorem targetPaddedLen_of_lt {n : Nat} (h : 4096 < n) : targetPaddedLen n = padme n := by
  rw [targetPaddedLen_eq, if_neg (by omega), if_neg (by omega), if_neg (by omega)]

theorem isSize_targetPaddedLen (n : Nat) : IsSize (targetPaddedLen n) := by
  rcases Nat.lt_or_ge 4096 n with hn | hn
  · rw [targetPaddedLen_of_lt hn]
    exact Or.inr ⟨hn.trans_le (le_padme n), blockSize_padme_dvd (by omega)⟩
  · left
    rw [targetPaddedLen_eq]
    split
    · decide
    split
    · decide
    · decide

/-- The padded length is the least size that is long enough. -/
theorem targetPaddedLen_le {n s : Nat} (h : n ≤ s) (hs : IsSize s) : targetPaddedLen n ≤ s := by
  rcases Nat.lt_or_ge 4096 n with hn | hn
  · rw [targetPaddedLen_of_lt hn]
    rcases hs with hs | ⟨-, hs⟩
    · have hall : ∀ b ∈ PAD_BUCKETS, b ≤ 4096 := by decide
      have hle := hall s hs
      omega
    · exact padme_le h ((blockSize_dvd h).trans hs)
  · rw [targetPaddedLen_eq]
    simp only [IsSize, PAD_BUCKETS, LARGEST_FIXED_BUCKET, List.mem_cons, List.not_mem_nil,
      or_false] at hs
    split
    · omega
    split
    · omega
    · omega

/-- Padding as a closure operator on lengths. -/
def padding : ClosureOperator Nat :=
  .ofPred targetPaddedLen IsSize le_targetPaddedLen isSize_targetPaddedLen
    fun _ _ ↦ targetPaddedLen_le

theorem targetPaddedLen_mono : Monotone targetPaddedLen := padding.monotone

theorem targetPaddedLen_idempotent (n : Nat) :
    targetPaddedLen (targetPaddedLen n) = targetPaddedLen n :=
  padding.idempotent n

/-- The overhead above the fixed buckets is below a sixteenth, hence below twelve percent. -/
theorem overhead_lt {n : Nat} (h : 4096 < n) : (targetPaddedLen n - n) * 100 < 12 * n := by
  have hblock := blockSize_le (Nat.le_of_lt h)
  have hpos := blockSize_pos n
  have hle : padme n ≤ n + blockSize n - 1 := by
    rw [padme_eq_ceil]
    exact Nat.div_mul_le_self _ _
  rw [targetPaddedLen_of_lt h]
  omega

/-! ## How many sizes there are -/

/-- The sizes from one power of two to the next are multiples of one block. -/
theorem IsSize.blockSize_dvd {s E : Nat} (hE : 12 ≤ E) (hs : IsSize s) (hlow : 2 ^ E ≤ s)
    (hhigh : s < 2 ^ (E + 1)) : 2 ^ lastBits E ∣ s := by
  have hpos : s ≠ 0 := Nat.ne_of_gt ((Nat.two_pow_pos E).trans_le hlow)
  have hlog : Nat.log2 s = E := (Nat.log2_eq_iff hpos).mpr ⟨hlow, hhigh⟩
  have hge : 2 ^ 12 ≤ s := (Nat.pow_le_pow_right (by decide) hE).trans hlow
  have hdvd : blockSize s ∣ s := by
    rcases hs with hs | ⟨-, hs⟩
    · simp only [PAD_BUCKETS, List.mem_cons, List.not_mem_nil, or_false] at hs
      obtain rfl : s = 4096 := by omega
      decide
    · exact hs
  rwa [blockSize, hlog] at hdvd

theorem two_pow_log2_add_one_le {E : Nat} (hE : 0 < E) : 2 ^ (Nat.log2 E + 1) ≤ 2 * E := by
  rw [Nat.pow_succ, Nat.mul_comm]
  exact Nat.mul_le_mul_left 2 (Nat.log2_self_le (Nat.ne_of_gt hE))

theorem encard_sizes_le {E : Nat} (hE : 12 ≤ E) :
    (Set.range targetPaddedLen ∩ Set.Ico (2 ^ E) (2 ^ (E + 1))).encard ≤ 2 * E := by
  have hbits : lastBits E + (Nat.log2 E + 1) = E := by
    have hlt : Nat.log2 E < E := (Nat.log2_lt (by omega)).mpr Nat.lt_two_pow_self
    unfold lastBits
    omega
  set m := Nat.log2 E + 1 with hm
  set B := 2 ^ lastBits E with hB
  have hBpos : 0 < B := Nat.two_pow_pos _
  have hlow : B * 2 ^ m = 2 ^ E := by rw [hB, ← Nat.pow_add, hbits]
  have hhigh : B * 2 ^ (m + 1) = 2 ^ (E + 1) := by
    rw [Nat.pow_succ, ← Nat.mul_assoc, hlow, Nat.pow_succ]
  -- every output is the block times a quotient between two powers of two
  have hsub : Set.range targetPaddedLen ∩ Set.Ico (2 ^ E) (2 ^ (E + 1)) ⊆
      (B * ·) '' (Finset.Ico (2 ^ m) (2 ^ (m + 1)) : Finset Nat) := by
    rintro s ⟨⟨n, rfl⟩, hge, hlt⟩
    obtain ⟨q, hq⟩ := (isSize_targetPaddedLen n).blockSize_dvd hE hge hlt
    refine ⟨q, ?_, hq.symm⟩
    rw [hq, ← hlow] at hge
    rw [hq, ← hhigh] at hlt
    rw [Finset.mem_coe, Finset.mem_Ico]
    exact ⟨Nat.le_of_mul_le_mul_left hge hBpos, Nat.lt_of_mul_lt_mul_left hlt⟩
  have hcard : (Finset.Ico (2 ^ m) (2 ^ (m + 1))).card = 2 ^ m := by
    rw [Nat.card_Ico, Nat.pow_succ]
    omega
  calc (Set.range targetPaddedLen ∩ Set.Ico (2 ^ E) (2 ^ (E + 1))).encard
      ≤ ((B * ·) '' (Finset.Ico (2 ^ m) (2 ^ (m + 1)) : Finset Nat)).encard :=
        Set.encard_le_encard hsub
    _ ≤ ((Finset.Ico (2 ^ m) (2 ^ (m + 1)) : Finset Nat) : Set Nat).encard :=
        Set.encard_image_le _ _
    _ = (2 ^ m : Nat) := by rw [Set.encard_coe_eq_coe_finsetCard, hcard]
    _ ≤ (2 * E : Nat) := Nat.cast_le.mpr (two_pow_log2_add_one_le (by omega))
    _ = 2 * E := by push_cast; rfl

/-! ## The encoder -/

theorem size_le_length_flatMap {f : EncodedField} {fields : List EncodedField} (hf : f ∈ fields) :
    f.size ≤ (fields.flatMap writeField).length := by
  induction fields with
  | nil => cases hf
  | cons g fields ih =>
    rw [List.flatMap_cons, List.length_append, length_writeField]
    rcases List.mem_cons.mp hf with rfl | hf
    · exact Nat.le_add_right _ _
    · exact (ih hf).trans (Nat.le_add_left _ _)

/-- The text and the contents are parts of the envelope. -/
theorem length_le_envelopeLength (p : Payload) :
    (TextEncoder.encode p.text).length ≤ envelopeLength p ∧
      ∀ att ∈ p.attachments, att.bytes.length ≤ envelopeLength p := by
  unfold envelopeLength
  rw [foldl_size]
  constructor
  · omega
  · intro att hatt
    have hsize := size_le_length_flatMap (List.mem_map_of_mem (f := toField) hatt)
    have hcontent : att.bytes.length ≤ (toField att).size := Nat.le_add_left _ _
    omega

/-- The lengths that the encoder writes in two bytes. -/
structure Payload.NamesFit (p : Payload) : Prop where
  count : p.attachments.length ≤ U16_MAX
  name : ∀ att ∈ p.attachments, (TextEncoder.encode att.filename).length ≤ U16_MAX
  mime : ∀ att ∈ p.attachments, (TextEncoder.encode att.mimetype).length ≤ U16_MAX

variable {p : Payload}

/-- The padding of a frame below `2 ^ 32` is counted in four bytes. -/
theorem padLen_le {n : Nat} (h : n < 2 ^ 32) : targetPaddedLen n - n ≤ U32_MAX := by
  rcases Nat.lt_or_ge 4096 n with hn | hn
  · have hlt := overhead_lt hn
    unfold U32_MAX
    omega
  · have hle : targetPaddedLen n ≤ 4096 := targetPaddedLen_le hn (Or.inl (by decide))
    unfold U32_MAX
    omega

theorem Payload.NamesFit.encodable (hnames : p.NamesFit) (h : envelopeLength p < 2 ^ 32) :
    p.Encodable := by
  obtain ⟨htext, hcontent⟩ := length_le_envelopeLength p
  constructor
  · exact htext.trans (Nat.le_of_lt_succ h)
  · exact hnames.count
  · intro att hatt
    exact ⟨hnames.name att hatt, hnames.mime att hatt,
      (hcontent att hatt).trans (Nat.le_of_lt_succ h)⟩
  · exact padLen_le h

/-- A check that fails throws its error, whatever follows it. -/
theorem throwIf_bind_pos {α : Type} {c : Prop} [Decidable c] (h : c) (e : CryptoError)
    (f : Unit → Result α) : (throwIf c e >>= f) = .error e := by
  rw [throwIf_pos e h, Result.error_bind]

theorem throwIf_bind_neg {α : Type} {c : Prop} [Decidable c] (h : ¬c) (e : CryptoError)
    (f : Unit → Result α) : (throwIf c e >>= f) = f () := by
  rw [throwIf_neg e h, Result.ok_bind]

theorem encodeField_of_not_fits {att : PayloadAttachment} (h : ¬(toField att).Fits) :
    ∃ message, encodeField att = .error (.invalidFormat message) := by
  unfold encodeField
  dsimp only
  by_cases hname : (TextEncoder.encode att.filename).length > U16_MAX
  · exact ⟨_, throwIf_bind_pos hname _ _⟩
  rw [throwIf_bind_neg hname]
  by_cases hmime : (TextEncoder.encode att.mimetype).length > U16_MAX
  · exact ⟨_, throwIf_bind_pos hmime _ _⟩
  rw [throwIf_bind_neg hmime]
  by_cases hcontent : att.bytes.length > U32_MAX
  · exact ⟨_, throwIf_bind_pos hcontent _ _⟩
  · exact absurd ⟨not_lt.mp hname, not_lt.mp hmime, not_lt.mp hcontent⟩ h

theorem mapM_encodeField_of_not_fits {atts : List PayloadAttachment}
    (h : ¬∀ att ∈ atts, (toField att).Fits) :
    ∃ message, atts.mapM encodeField = .error (.invalidFormat message) := by
  induction atts with
  | nil => exact absurd (by simp) h
  | cons att atts ih =>
    rw [List.mapM_cons]
    by_cases hfit : (toField att).Fits
    · have hrest : ¬∀ att ∈ atts, (toField att).Fits := fun hall ↦
        h (List.forall_mem_cons.mpr ⟨hfit, hall⟩)
      obtain ⟨message, hmessage⟩ := ih hrest
      rw [encodeField_eq_ok.mpr ⟨hfit, rfl⟩, Result.ok_bind, hmessage, Result.error_bind]
      exact ⟨message, rfl⟩
    · obtain ⟨message, hmessage⟩ := encodeField_of_not_fits hfit
      rw [hmessage, Result.error_bind]
      exact ⟨message, rfl⟩

/-- The encoder refuses names that do not fit before it pads. -/
theorem encodePayload_of_not_namesFit (h : ¬p.NamesFit) :
    ∃ message, encodePayload p = .error (.invalidFormat message) := by
  unfold encodePayload
  dsimp only
  by_cases htext : (TextEncoder.encode p.text).length > U32_MAX
  · exact ⟨_, throwIf_bind_pos htext _ _⟩
  rw [throwIf_bind_neg htext]
  by_cases hcount : p.attachments.length > U16_MAX
  · exact ⟨_, throwIf_bind_pos hcount _ _⟩
  rw [throwIf_bind_neg hcount]
  have hfits : ¬∀ att ∈ p.attachments, (toField att).Fits := fun hall ↦
    h ⟨not_lt.mp hcount, fun att hatt ↦ (hall att hatt).name, fun att hatt ↦ (hall att hatt).mime⟩
  obtain ⟨message, hmessage⟩ := mapM_encodeField_of_not_fits hfits
  rw [hmessage]
  exact ⟨message, rfl⟩

/-- Below `2 ^ 32` the encoder fails on names alone: its two internal errors are never thrown. -/
theorem encodePayload_ne_error (h : envelopeLength p < 2 ^ 32) (message : String) :
    encodePayload p ≠ .error (.error message) := by
  intro he
  by_cases hnames : p.NamesFit
  · obtain ⟨out, hout⟩ := encodePayload_ok (hnames.encodable h)
    rw [hout] at he
    cases he
  · obtain ⟨message', hmessage⟩ := encodePayload_of_not_namesFit hnames
    rw [hmessage] at he
    cases he

/-! ## The law -/

/-- Padding rounds up, monotonely and once for all, at a cost below twelve percent, into few
lengths; the encoder always finds room for the padding and fills it exactly; and so equal buckets
make equal blobs. -/
theorem padding_law :
    (∀ n, n ≤ targetPaddedLen n) ∧
    (∀ n m, n ≤ m → targetPaddedLen n ≤ targetPaddedLen m) ∧
    (∀ n, targetPaddedLen (targetPaddedLen n) = targetPaddedLen n) ∧
    (∀ n, 4096 < n → (targetPaddedLen n - n) * 100 < 12 * n) ∧
    (∀ E : Nat, 12 ≤ E →
      (Set.range targetPaddedLen ∩ Set.Ico (2 ^ E) (2 ^ (E + 1))).encard ≤ 2 * E) ∧
    (∀ p : Payload, envelopeLength p < 2 ^ 32 →
      (p.NamesFit → ∃ out, encodePayload p = .ok out) ∧
      (∀ message, encodePayload p ≠ .error (.error message)) ∧
      ∀ out, encodePayload p = .ok out → out.length = targetPaddedLen (envelopeLength p)) ∧
    ∀ H : Hpke, H.Sized → ∀ (p p' : Payload) (out out' : List UInt8),
      encodePayload p = .ok out → encodePayload p' = .ok out' →
      targetPaddedLen (envelopeLength p) = targetPaddedLen (envelopeLength p') →
      ∀ (recipient recipient' : RecipientPublicKey H) (context context' : MessageBindingContext)
        (seed seed' : H.Seed) (blob blob' : List UInt8),
        «seal» H out recipient context seed = .ok blob →
        «seal» H out' recipient' context' seed' = .ok blob' → blob.length = blob'.length := by
  refine ⟨le_targetPaddedLen, fun n m h ↦ targetPaddedLen_mono h, targetPaddedLen_idempotent,
    fun n ↦ overhead_lt, fun E ↦ encard_sizes_le, ?_, ?_⟩
  · intro p h
    refine ⟨fun hnames ↦ encodePayload_ok (hnames.encodable h), encodePayload_ne_error h, ?_⟩
    intro out hout
    exact length_encodePayload hout
  · intro H hH p p' out out' hout hout' hbucket recipient recipient' context context' seed seed'
      blob blob' hblob hblob'
    rw [length_seal hH hblob, length_seal hH hblob', length_encodePayload hout,
      length_encodePayload hout', hbucket]

end Aesmsg.Crypto
