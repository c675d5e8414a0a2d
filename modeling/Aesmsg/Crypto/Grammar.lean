import Aesmsg.Crypto.Payload
import Aesmsg.Lib.Traced

/-!
# The envelope grammar

The layout that `packages/crypto/src/payload.ts` documents, and the proof that `decodeStrict`
accepts exactly the byte strings of that layout.

`At bytes off rest` says that the buffer continues with `rest` at offset `off`.  Each reader of
`decodeStrict` has one lemma that consumes the bytes the matching writer puts there, and one that
finds those bytes in front of it where it succeeds; the attachment loop is an induction over the
fields in one direction and over the count in the other.

The reads themselves are followed in a second decoder, `readStrict`, which is `decodeStrict` with a
log of the ranges it reads.
-/

namespace Aesmsg.Crypto

open Bytes

/-- The buffer continues with `rest` at offset `off`. -/
structure At (bytes : List UInt8) (off : Nat) (rest : List UInt8) : Prop where
  inBounds : off ≤ bytes.length
  drop_eq : bytes.drop off = rest

namespace At

variable {bytes xs rest : List UInt8} {off n : Nat}

theorem advance (h : At bytes off (xs ++ rest)) : At bytes (off + xs.length) rest :=
  ⟨add_length_le_of_append h.inBounds h.drop_eq, drop_add_of_append h.drop_eq⟩

theorem need_eq (h : At bytes off (xs ++ rest)) (hn : xs.length = n) :
    need bytes off n = .ok () := by
  have hle := add_length_le_of_append h.inBounds h.drop_eq
  exact throwIf_neg _ (by omega)

theorem subarray_eq (h : At bytes off (xs ++ rest)) (hn : xs.length = n) :
    subarray bytes off (off + n) = xs := by
  rw [subarray, Nat.add_sub_cancel_left, ← hn]
  exact take_drop_of_append h.drop_eq

theorem readBE_eq {w : Nat} (h : At bytes off (toBE w n ++ rest)) (hn : n < 256 ^ w) :
    off + w ≤ bytes.length ∧ ofBE ((bytes.drop off).take w) = n := by
  have hle := add_length_le_of_append h.inBounds h.drop_eq
  have htake := take_drop_of_append h.drop_eq
  rw [length_toBE] at hle htake
  refine ⟨hle, ?_⟩
  rw [htake, ofBE_toBE, Nat.mod_eq_of_lt hn]

theorem getUint16_eq (h : At bytes off (writeU16BE n ++ rest)) (hn : n ≤ U16_MAX) :
    getUint16 bytes off = .ok n := by
  obtain ⟨hle, hread⟩ := h.readBE_eq (Nat.lt_succ_of_le hn)
  rw [getUint16, if_pos hle, hread]

theorem getUint32_eq (h : At bytes off (writeU32BE n ++ rest)) (hn : n ≤ U32_MAX) :
    getUint32 bytes off = .ok n := by
  obtain ⟨hle, hread⟩ := h.readBE_eq (Nat.lt_succ_of_le hn)
  rw [getUint32, if_pos hle, hread]

end At

/-! ## Attachments -/

/-- A field whose lengths fit the integers they are written with. -/
structure EncodedField.Fits (f : EncodedField) : Prop where
  name : f.nameBytes.length ≤ U16_MAX
  mime : f.mimeBytes.length ≤ U16_MAX
  content : f.content.length ≤ U32_MAX

/-- The attachment a field is decoded to. -/
def ofField (f : EncodedField) : PayloadAttachment :=
  ⟨dec f.nameBytes, dec f.mimeBytes, f.content⟩

theorem length_writeField (f : EncodedField) : (writeField f).length = f.size := by
  simp only [writeField, EncodedField.size, List.length_append, length_writeU16BE,
    length_writeU32BE]

/-- The decoder's loop body consumes exactly what the encoder's loop body wrote. -/
theorem decodeAttachment_eq {bytes rest : List UInt8} {off : Nat} {f : EncodedField}
    (hfits : f.Fits) (h : At bytes off (writeField f ++ rest)) :
    decodeAttachment bytes off = .ok (ofField f, off + f.size) := by
  simp only [writeField, List.append_assoc] at h
  have h₁ := h.advance
  have h₂ := h₁.advance
  have h₃ := h₂.advance
  have h₄ := h₃.advance
  have h₅ := h₄.advance
  simp only [length_writeU16BE, length_writeU32BE] at h₁ h₂ h₃ h₄ h₅
  simp only [decodeAttachment, h.need_eq (length_writeU16BE _), h.getUint16_eq hfits.name,
    h₁.need_eq rfl, h₁.subarray_eq rfl, h₂.need_eq (length_writeU16BE _),
    h₂.getUint16_eq hfits.mime, h₃.need_eq rfl, h₃.subarray_eq rfl,
    h₄.need_eq (length_writeU32BE _), h₄.getUint32_eq hfits.content, h₅.need_eq rfl,
    h₅.subarray_eq rfl, Result.ok_bind, EncodedField.size]
  simp only [Nat.add_assoc]
  rfl

/-- The whole loop, by induction over the fields that were written. -/
theorem decodeAttachments_eq {bytes rest : List UInt8} {off : Nat} {fields : List EncodedField}
    (hfits : ∀ f ∈ fields, f.Fits) (h : At bytes off (fields.flatMap writeField ++ rest)) :
    ∃ off', decodeAttachments bytes fields.length off = .ok (fields.map ofField, off') ∧
      At bytes off' rest := by
  induction fields generalizing off with
  | nil => exact ⟨off, rfl, by simpa using h⟩
  | cons f fields ih =>
      rw [List.forall_mem_cons] at hfits
      rw [List.flatMap_cons, List.append_assoc] at h
      have hnext := h.advance
      rw [length_writeField] at hnext
      obtain ⟨off', hrest, hat⟩ := ih hfits.2 hnext
      refine ⟨off', ?_, hat⟩
      rw [List.length_cons, decodeAttachments, decodeAttachment_eq hfits.1 h]
      simp only [Result.ok_bind, hrest]
      rfl

/-! ## The layout -/

/-- A byte string of the documented layout, taken apart.  Version 2 has a pad trailer, of any
bytes, and version 1 has none. -/
structure Layout where
  text : List UInt8
  fields : List EncodedField
  pad : Option (List UInt8)
  text_le : text.length ≤ U32_MAX
  count_le : fields.length ≤ U16_MAX
  fits : ∀ f ∈ fields, f.Fits
  pad_le : ∀ p ∈ pad, p.length ≤ U32_MAX

namespace Layout

def version (pad : Option (List UInt8)) : UInt8 :=
  if pad.isSome then PAYLOAD_VERSION else PAYLOAD_VERSION_V1

def trailer : Option (List UInt8) → List UInt8
  | none => []
  | some pad => writeU32BE pad.length ++ pad

/-- What follows the version byte. -/
def tail (l : Layout) : List UInt8 :=
  writeU32BE l.text.length ++ (l.text ++ (writeU16BE l.fields.length ++
    (l.fields.flatMap writeField ++ trailer l.pad)))

def bytes (l : Layout) : List UInt8 := version l.pad :: l.tail

/-- What the layout says. -/
def payload (l : Layout) : Payload := ⟨dec l.text, l.fields.map ofField⟩

end Layout

/-- The reader of the trailer consumes the trailer. -/
theorem skipPadTrailer_eq {bytes rest : List UInt8} {off : Nat} {pad : Option (List UInt8)}
    (hpad : ∀ p ∈ pad, p.length ≤ U32_MAX) (h : At bytes off (Layout.trailer pad ++ rest)) :
    skipPadTrailer bytes pad.isSome off = .ok (off + (Layout.trailer pad).length) := by
  cases pad with
  | none => rfl
  | some pad =>
    simp only [Layout.trailer, List.append_assoc] at h
    have h₁ := h.advance
    simp only [length_writeU32BE] at h₁
    simp only [skipPadTrailer, Option.isSome_some, if_true, h.need_eq (length_writeU32BE _),
      h.getUint32_eq (hpad pad rfl), h₁.need_eq rfl, Result.ok_bind, Layout.trailer,
      List.length_append, length_writeU32BE, ← Nat.add_assoc]
    rfl

theorem version_eq (pad : Option (List UInt8)) :
    (some (Layout.version pad) == some PAYLOAD_VERSION) = pad.isSome ∧
      ¬(some (Layout.version pad) ≠ some PAYLOAD_VERSION ∧
        some (Layout.version pad) ≠ some PAYLOAD_VERSION_V1) := by
  cases pad with
  | none => exact ⟨by decide, fun h ↦ h.2 rfl⟩
  | some pad => exact ⟨beq_self_eq_true _, fun h ↦ h.1 rfl⟩

/-- The strict decoder on a byte string of the layout. -/
theorem decodeStrict_bytes (l : Layout) : decodeStrict l.bytes = .ok l.payload := by
  have h₀ : At l.bytes 1 (l.tail ++ []) := by
    constructor
    · simp [Layout.bytes]
    · simp [Layout.bytes]
  simp only [Layout.tail, List.append_assoc] at h₀
  have h₁ := h₀.advance
  have h₂ := h₁.advance
  have h₃ := h₂.advance
  simp only [length_writeU16BE, length_writeU32BE] at h₁ h₂ h₃
  obtain ⟨off', hatts, h₄⟩ := decodeAttachments_eq l.fits h₃
  have h₅ := h₄.advance
  have hend : off' + (Layout.trailer l.pad).length = l.bytes.length := by
    have hle := h₅.inBounds
    have hdrop := congrArg List.length h₅.drop_eq
    simp only [List.length_drop, List.length_nil] at hdrop
    omega
  obtain ⟨htrail, hv⟩ := version_eq l.pad
  have hhead : l.bytes.head? = some (Layout.version l.pad) := rfl
  simp only [decodeStrict, hhead, throwIf_neg _ hv, htrail, h₀.need_eq (length_writeU32BE _),
    h₀.getUint32_eq l.text_le, h₁.need_eq rfl, h₁.subarray_eq rfl,
    h₂.need_eq (length_writeU16BE _), h₂.getUint16_eq l.count_le, hatts,
    skipPadTrailer_eq l.pad_le h₄, Result.ok_bind, throwIf_neg _ (not_not.mpr hend)]
  rfl

/-! ## What an accepting run has read -/

theorem need_eq_ok {bytes : List UInt8} {off n : Nat} {u : Unit} :
    need bytes off n = .ok u ↔ off + n ≤ bytes.length :=
  throwIf_eq_ok.trans not_lt

/-- After `need`, the next `n` bytes are there. -/
theorem exists_of_need {bytes : List UInt8} {off n : Nat} {u : Unit}
    (h : need bytes off n = .ok u) :
    ∃ xs : List UInt8, xs.length = n ∧ subarray bytes off (off + n) = xs ∧
      bytes.drop off = xs ++ bytes.drop (off + n) := by
  rw [need_eq_ok] at h
  refine ⟨(bytes.drop off).take n, ?_, ?_, ?_⟩
  · rw [List.length_take, List.length_drop]
    omega
  · rw [subarray, Nat.add_sub_cancel_left]
  · rw [← List.drop_drop, List.take_append_drop]

theorem getUint16_eq_ok {bytes : List UInt8} {off n : Nat} (h : getUint16 bytes off = .ok n) :
    bytes.drop off = writeU16BE n ++ bytes.drop (off + 2) ∧ n ≤ U16_MAX := by
  unfold getUint16 at h
  split at h
  · rename_i hle
    obtain ⟨hdrop, hlt⟩ := drop_eq_toBE_append hle
    obtain rfl := Except.ok.inj h
    exact ⟨hdrop, Nat.le_of_lt_succ hlt⟩
  · cases h

theorem getUint32_eq_ok {bytes : List UInt8} {off n : Nat} (h : getUint32 bytes off = .ok n) :
    bytes.drop off = writeU32BE n ++ bytes.drop (off + 4) ∧ n ≤ U32_MAX := by
  unfold getUint32 at h
  split at h
  · rename_i hle
    obtain ⟨hdrop, hlt⟩ := drop_eq_toBE_append hle
    obtain rfl := Except.ok.inj h
    exact ⟨hdrop, Nat.le_of_lt_succ hlt⟩
  · cases h

/-- A turn of the loop that returns has one field in front of it. -/
theorem decodeAttachment_eq_ok {bytes : List UInt8} {off off' : Nat} {att : PayloadAttachment}
    (h : decodeAttachment bytes off = .ok (att, off')) :
    ∃ f : EncodedField, f.Fits ∧ att = ofField f ∧ off' ≤ bytes.length ∧
      bytes.drop off = writeField f ++ bytes.drop off' := by
  simp only [decodeAttachment, Result.bind_eq_ok] at h
  obtain ⟨_, -, nameLen, hname, _, hname', _, -, mimeLen, hmime, _, hmime', _, -, contentLen,
    hcontent, _, hcontent', hret⟩ := h
  obtain ⟨hatt, rfl⟩ := Prod.mk.inj (Except.ok.inj hret)
  have hend := need_eq_ok.mp hcontent'
  obtain ⟨name, rfl, hnameEq, hname'⟩ := exists_of_need hname'
  obtain ⟨mime, rfl, hmimeEq, hmime'⟩ := exists_of_need hmime'
  obtain ⟨content, rfl, hcontentEq, hcontent'⟩ := exists_of_need hcontent'
  obtain ⟨hname, hnameLe⟩ := getUint16_eq_ok hname
  obtain ⟨hmime, hmimeLe⟩ := getUint16_eq_ok hmime
  obtain ⟨hcontent, hcontentLe⟩ := getUint32_eq_ok hcontent
  rw [hnameEq, hmimeEq, hcontentEq] at hatt
  refine ⟨⟨name, mime, content⟩, ⟨hnameLe, hmimeLe, hcontentLe⟩, hatt.symm, hend, ?_⟩
  simp only [writeField, List.append_assoc]
  rw [hname, hname', hmime, hmime', hcontent, hcontent']

/-- So has the whole loop as many fields as it counts. -/
theorem decodeAttachments_eq_ok {bytes : List UInt8} {attCount off off' : Nat}
    {atts : List PayloadAttachment} (hoff : off ≤ bytes.length)
    (h : decodeAttachments bytes attCount off = .ok (atts, off')) :
    ∃ fields : List EncodedField, fields.length = attCount ∧ (∀ f ∈ fields, f.Fits) ∧
      atts = fields.map ofField ∧ off' ≤ bytes.length ∧
      bytes.drop off = fields.flatMap writeField ++ bytes.drop off' := by
  induction attCount generalizing off atts with
  | zero =>
    obtain ⟨rfl, rfl⟩ := Prod.mk.inj (Except.ok.inj h)
    exact ⟨[], rfl, by simp, rfl, hoff, rfl⟩
  | succ attCount ih =>
    simp only [decodeAttachments, Result.bind_eq_ok] at h
    obtain ⟨⟨att, mid⟩, hatt, ⟨atts, _⟩, hatts, hret⟩ := h
    obtain ⟨rfl, rfl⟩ := Prod.mk.inj (Except.ok.inj hret)
    obtain ⟨f, hfit, rfl, hmid, hdrop⟩ := decodeAttachment_eq_ok hatt
    obtain ⟨fields, hcount, hfits, rfl, hend, hdrop'⟩ := ih hmid hatts
    refine ⟨f :: fields, by rw [List.length_cons, hcount],
      List.forall_mem_cons.mpr ⟨hfit, hfits⟩, rfl, hend, ?_⟩
    rw [List.flatMap_cons, List.append_assoc, hdrop, hdrop']

theorem skipPadTrailer_eq_ok {bytes : List UInt8} {hasPadTrailer : Bool} {off off' : Nat}
    (hoff : off ≤ bytes.length) (h : skipPadTrailer bytes hasPadTrailer off = .ok off') :
    ∃ pad : Option (List UInt8), pad.isSome = hasPadTrailer ∧
      (∀ p ∈ pad, p.length ≤ U32_MAX) ∧ off' ≤ bytes.length ∧
      bytes.drop off = Layout.trailer pad ++ bytes.drop off' := by
  cases hasPadTrailer with
  | false =>
    obtain rfl := Except.ok.inj h
    exact ⟨none, rfl, by simp, hoff, rfl⟩
  | true =>
    simp only [skipPadTrailer, if_true, Result.bind_eq_ok] at h
    obtain ⟨_, -, padLen, hlen, _, hpad, hret⟩ := h
    obtain rfl := Except.ok.inj hret
    have hend := need_eq_ok.mp hpad
    obtain ⟨pad, rfl, -, hpad⟩ := exists_of_need hpad
    obtain ⟨hlen, hle⟩ := getUint32_eq_ok hlen
    refine ⟨some pad, rfl, ?_, hend, ?_⟩
    · rintro _ ⟨⟩
      exact hle
    · rw [Layout.trailer, List.append_assoc, hlen, hpad]

theorem eq_version_of_accepted {version : Option UInt8} {pad : Option (List UInt8)}
    (h : ¬(version ≠ some PAYLOAD_VERSION ∧ version ≠ some PAYLOAD_VERSION_V1))
    (hpad : pad.isSome = (version == some PAYLOAD_VERSION)) :
    version = some (Layout.version pad) := by
  by_cases hv : version = some PAYLOAD_VERSION
  · rw [hv, beq_self_eq_true] at hpad
    rw [Layout.version, if_pos hpad, hv]
  · rw [beq_eq_false_iff_ne.mpr hv] at hpad
    rw [Layout.version, hpad]
    exact not_not.mp fun hv' ↦ h ⟨hv, hv'⟩

theorem exists_layout {bytes : List UInt8} {p : Payload} (h : decodeStrict bytes = .ok p) :
    ∃ l : Layout, l.bytes = bytes ∧ l.payload = p := by
  simp only [decodeStrict, Result.bind_eq_ok, throwIf_eq_ok] at h
  obtain ⟨_, hversion, _, -, textLen, htextLen, _, htext, _, hneed, attCount, hcount, ⟨atts, off⟩,
    hatts, off', htrailer, _, hend, hret⟩ := h
  have hret := Except.ok.inj hret
  have hin := need_eq_ok.mp hneed
  obtain ⟨text, rfl, htextEq, htext⟩ := exists_of_need htext
  obtain ⟨htextLen, htextLe⟩ := getUint32_eq_ok htextLen
  obtain ⟨hcount, hcountLe⟩ := getUint16_eq_ok hcount
  obtain ⟨fields, rfl, hfits, rfl, hoff, hatts⟩ := decodeAttachments_eq_ok hin hatts
  obtain ⟨pad, hsome, hpadLe, hoff', hpad⟩ := skipPadTrailer_eq_ok hoff htrailer
  have hhead := eq_version_of_accepted hversion hsome
  obtain ⟨rest, rfl⟩ := List.head?_eq_some_iff.mp hhead
  rw [not_not.mp hend, List.drop_length, List.append_nil] at hpad
  refine ⟨⟨text, fields, pad, htextLe, hcountLe, hfits, hpadLe⟩, ?_, ?_⟩
  · have hrest : rest = (Layout.version pad :: rest).drop 1 := rfl
    rw [Layout.bytes, Layout.tail]
    conv_rhs => rw [hrest, htextLen, htext, hcount, hatts, hpad]
  · rw [← hret, htextEq]
    rfl

/-! ## The parse is unique -/

/-- A field tells where it ends. -/
theorem writeField_append_inj {f g : EncodedField} (hf : f.Fits) (hg : g.Fits)
    {rest rest' : List UInt8} (h : writeField f ++ rest = writeField g ++ rest') :
    f = g ∧ rest = rest' := by
  simp only [writeField, List.append_assoc] at h
  obtain ⟨hname, h⟩ := toBE_length_append_inj (Nat.lt_succ_of_le hf.name)
    (Nat.lt_succ_of_le hg.name) h
  obtain ⟨hmime, h⟩ := toBE_length_append_inj (Nat.lt_succ_of_le hf.mime)
    (Nat.lt_succ_of_le hg.mime) h
  obtain ⟨hcontent, h⟩ := toBE_length_append_inj (Nat.lt_succ_of_le hf.content)
    (Nat.lt_succ_of_le hg.content) h
  constructor
  · cases f
    cases g
    cases hname
    cases hmime
    cases hcontent
    rfl
  · exact h

theorem flatMap_writeField_append_inj {fields fields' : List EncodedField}
    (hf : ∀ f ∈ fields, f.Fits) (hf' : ∀ f ∈ fields', f.Fits)
    (hlen : fields.length = fields'.length) {rest rest' : List UInt8}
    (h : fields.flatMap writeField ++ rest = fields'.flatMap writeField ++ rest') :
    fields = fields' ∧ rest = rest' := by
  induction fields generalizing fields' with
  | nil =>
    obtain rfl := List.length_eq_zero_iff.mp hlen.symm
    exact ⟨rfl, h⟩
  | cons f fields ih =>
    cases fields' with
    | nil => cases hlen
    | cons g fields' =>
      rw [List.forall_mem_cons] at hf hf'
      rw [List.flatMap_cons, List.flatMap_cons, List.append_assoc, List.append_assoc] at h
      obtain ⟨rfl, htail⟩ := writeField_append_inj hf.1 hf'.1 h
      obtain ⟨rfl, hrest⟩ := ih hf.2 hf'.2 (Nat.succ.inj hlen) htail
      exact ⟨rfl, hrest⟩

theorem trailer_inj {pad pad' : Option (List UInt8)}
    (hversion : Layout.version pad = Layout.version pad') (hp : ∀ p ∈ pad, p.length ≤ U32_MAX)
    (hp' : ∀ p ∈ pad', p.length ≤ U32_MAX) (h : Layout.trailer pad = Layout.trailer pad') :
    pad = pad' := by
  cases pad with
  | none =>
    cases pad' with
    | none => rfl
    | some pad' => cases hversion
  | some pad =>
    cases pad' with
    | none => cases hversion
    | some pad' =>
      have h' : toBE 4 pad.length ++ (pad ++ []) = toBE 4 pad'.length ++ (pad' ++ []) := by
        rw [List.append_nil, List.append_nil]
        exact h
      rw [(toBE_length_append_inj (Nat.lt_succ_of_le (hp pad rfl))
        (Nat.lt_succ_of_le (hp' pad' rfl)) h').1]

/-- No byte string has two parses. -/
theorem Layout.bytes_injective : Function.Injective Layout.bytes := by
  intro l l' h
  obtain ⟨hversion, h⟩ := List.cons.inj h
  obtain ⟨htext, h⟩ := toBE_length_append_inj (Nat.lt_succ_of_le l.text_le)
    (Nat.lt_succ_of_le l'.text_le) h
  obtain ⟨hlen, h⟩ := List.append_inj h (by rw [length_writeU16BE, length_writeU16BE])
  have hcount : l.fields.length = l'.fields.length := by
    have hl := l.count_le
    have hl' := l'.count_le
    rw [writeU16BE, writeU16BE, toBE_inj_iff] at hlen
    simp only [U16_MAX] at hl hl'
    omega
  obtain ⟨hfields, h⟩ := flatMap_writeField_append_inj l.fits l'.fits hcount h
  have hpad := trailer_inj hversion l.pad_le l'.pad_le h
  cases l
  cases l'
  cases htext
  cases hfields
  cases hpad
  rfl

/-! ## The reads -/

/-- The bytes from `off` up to, not including, `off + len`. -/
structure Range where
  off : Nat
  len : Nat
deriving DecidableEq, Repr

/-- Statements with the ranges of the buffer they read. -/
abbrev Reading (α : Type) := Traced Range CryptoError α

/-- `bytes.length >= 1 ? bytes[0] : undefined`. -/
def readVersion (bytes : List UInt8) : Reading (Option UInt8) :=
  if bytes.length ≥ 1 then .access ⟨0, 1⟩ (.ok bytes.head?) else .quiet (.ok none)

def readUint16 (bytes : List UInt8) (off : Nat) : Reading Nat :=
  .access ⟨off, 2⟩ (getUint16 bytes off)

def readUint32 (bytes : List UInt8) (off : Nat) : Reading Nat :=
  .access ⟨off, 4⟩ (getUint32 bytes off)

def readBytes (bytes : List UInt8) (start stop : Nat) : Reading (List UInt8) :=
  .access ⟨start, stop - start⟩ (.ok (subarray bytes start stop))

/-- `decodeAttachment`, with its reads. -/
def readAttachment (bytes : List UInt8) (off : Nat) : Reading (PayloadAttachment × Nat) := do
  .quiet (need bytes off 2)
  let nameLen ← readUint16 bytes off
  let off := off + 2
  .quiet (need bytes off nameLen)
  let name ← readBytes bytes off (off + nameLen)
  let filename := dec name
  let off := off + nameLen
  .quiet (need bytes off 2)
  let mimeLen ← readUint16 bytes off
  let off := off + 2
  .quiet (need bytes off mimeLen)
  let mime ← readBytes bytes off (off + mimeLen)
  let mimetype := dec mime
  let off := off + mimeLen
  .quiet (need bytes off 4)
  let contentLen ← readUint32 bytes off
  let off := off + 4
  .quiet (need bytes off contentLen)
  let content ← readBytes bytes off (off + contentLen)
  return (⟨filename, mimetype, content⟩, off + contentLen)

def readAttachments (bytes : List UInt8) :
    Nat → Nat → Reading (List PayloadAttachment × Nat)
  | 0, off => return ([], off)
  | attCount + 1, off => do
      let (att, off) ← readAttachment bytes off
      let (atts, off) ← readAttachments bytes attCount off
      return (att :: atts, off)

/-- `skipPadTrailer`, with its reads: the pad bytes are not read. -/
def readPadTrailer (bytes : List UInt8) (hasPadTrailer : Bool) (off : Nat) : Reading Nat :=
  if hasPadTrailer then do
    .quiet (need bytes off 4)
    let padLen ← readUint32 bytes off
    let off := off + 4
    .quiet (need bytes off padLen)
    return off + padLen
  else return off

/-- `decodeStrict`, with its reads. -/
def readStrict (bytes : List UInt8) : Reading Payload := do
  let version ← readVersion bytes
  .quiet (throwIf (version ≠ some PAYLOAD_VERSION ∧ version ≠ some PAYLOAD_VERSION_V1)
    (.invalidFormat "decodePayload: unknown payload version"))
  let hasPadTrailer := version == some PAYLOAD_VERSION
  let off := 1
  .quiet (need bytes off 4)
  let textLen ← readUint32 bytes off
  let off := off + 4
  .quiet (need bytes off textLen)
  let textBytes ← readBytes bytes off (off + textLen)
  let text := dec textBytes
  let off := off + textLen
  .quiet (need bytes off 2)
  let attCount ← readUint16 bytes off
  let off := off + 2
  let (attachments, off) ← readAttachments bytes attCount off
  let off ← readPadTrailer bytes hasPadTrailer off
  .quiet (throwIf (off ≠ bytes.length)
    (.invalidFormat "decodePayload: trailing bytes after payload"))
  return ⟨text, attachments⟩

theorem result_readAttachment (bytes : List UInt8) (off : Nat) :
    (readAttachment bytes off).result = decodeAttachment bytes off := by
  simp only [readAttachment, Traced.result_bind, Traced.result_quiet, readUint16, readUint32,
    readBytes, Traced.result_access, Result.ok_bind]
  rfl

theorem result_readAttachments (bytes : List UInt8) (attCount off : Nat) :
    (readAttachments bytes attCount off).result = decodeAttachments bytes attCount off := by
  induction attCount generalizing off with
  | zero => rfl
  | succ attCount ih =>
    simp only [readAttachments, decodeAttachments, Traced.result_bind, result_readAttachment, ih]
    rfl

theorem result_readPadTrailer (bytes : List UInt8) (hasPadTrailer : Bool) (off : Nat) :
    (readPadTrailer bytes hasPadTrailer off).result = skipPadTrailer bytes hasPadTrailer off := by
  cases hasPadTrailer with
  | false => rfl
  | true =>
    simp only [readPadTrailer, skipPadTrailer, if_true, Traced.result_bind, Traced.result_quiet,
      readUint32, Traced.result_access]
    rfl

/-- Without its log, the reading decoder is the decoder. -/
theorem result_readStrict (bytes : List UInt8) :
    (readStrict bytes).result = decodeStrict bytes := by
  have hversion : (readVersion bytes).result = .ok bytes.head? := by
    cases bytes with
    | nil => rfl
    | cons b bytes => rfl
  simp only [readStrict, decodeStrict, Traced.result_bind, hversion, Traced.result_quiet,
    readUint16, readUint32, readBytes, Traced.result_access, Result.ok_bind,
    result_readAttachments, result_readPadTrailer]
  rfl

/-- Every read is within the buffer, and only an `InvalidFormatError` is thrown. -/
abbrev InBounds (bytes : List UInt8) {α : Type} (x : Reading α) : Prop :=
  x.Safe (fun r ↦ r.off + r.len ≤ bytes.length) (fun e ↦ ∃ message, e = .invalidFormat message)

namespace InBounds

variable {bytes : List UInt8} {α : Type} {off n : Nat}

theorem bind_throwIf {c : Prop} [Decidable c] {message : String} {f : Unit → Reading α}
    (h : ¬c → InBounds bytes (f ())) :
    InBounds bytes (Traced.quiet (throwIf c (.invalidFormat message)) >>= f) := by
  refine (Traced.safe_quiet fun e he ↦ ?_).bind fun _ hu ↦ h (throwIf_eq_ok.mp hu)
  by_cases hc : c
  · rw [throwIf_pos _ hc] at he
    exact ⟨message, (Except.error.inj he).symm⟩
  · rw [throwIf_neg _ hc] at he
    cases he

/-- What follows `need` may read as many bytes. -/
theorem bind_need {f : Unit → Reading α} (h : off + n ≤ bytes.length → InBounds bytes (f ())) :
    InBounds bytes (Traced.quiet (need bytes off n) >>= f) :=
  bind_throwIf fun hn ↦ h (not_lt.mp hn)

/-- A read that is within the buffer and returns. -/
theorem bind_access {β : Type} {r : Range} {a : β} {f : β → Reading α}
    (hr : r.off + r.len ≤ bytes.length) (h : InBounds bytes (f a)) :
    InBounds bytes (Traced.access r (.ok a) >>= f) := by
  have hx : InBounds bytes (Traced.access r (.ok a)) := by
    apply Traced.safe_access
    · exact hr
    · intro e he
      cases he
  refine hx.bind fun b hb ↦ ?_
  obtain rfl := Except.ok.inj hb
  exact h

theorem bind_readUint16 {f : Nat → Reading α} (hle : off + 2 ≤ bytes.length)
    (h : ∀ n, InBounds bytes (f n)) : InBounds bytes (readUint16 bytes off >>= f) := by
  rw [readUint16, getUint16, if_pos hle]
  exact bind_access hle (h _)

theorem bind_readUint32 {f : Nat → Reading α} (hle : off + 4 ≤ bytes.length)
    (h : ∀ n, InBounds bytes (f n)) : InBounds bytes (readUint32 bytes off >>= f) := by
  rw [readUint32, getUint32, if_pos hle]
  exact bind_access hle (h _)

theorem bind_readBytes {f : List UInt8 → Reading α} (hle : off + n ≤ bytes.length)
    (h : ∀ xs, InBounds bytes (f xs)) :
    InBounds bytes (readBytes bytes off (off + n) >>= f) := by
  rw [readBytes, Nat.add_sub_cancel_left]
  exact bind_access hle (h _)

theorem bind_readVersion {f : Option UInt8 → Reading α} (h : ∀ v, InBounds bytes (f v)) :
    InBounds bytes (readVersion bytes >>= f) := by
  unfold readVersion
  split
  · rename_i hle
    exact bind_access hle (h _)
  · exact h none

end InBounds

open InBounds

variable {bytes : List UInt8} {off : Nat}

theorem inBounds_readAttachment : InBounds bytes (readAttachment bytes off) := by
  refine bind_need fun hle ↦ bind_readUint16 hle fun nameLen ↦ ?_
  refine bind_need fun hle ↦ bind_readBytes hle fun name ↦ ?_
  refine bind_need fun hle ↦ bind_readUint16 hle fun mimeLen ↦ ?_
  refine bind_need fun hle ↦ bind_readBytes hle fun mime ↦ ?_
  refine bind_need fun hle ↦ bind_readUint32 hle fun contentLen ↦ ?_
  refine bind_need fun hle ↦ bind_readBytes hle fun content ↦ ?_
  exact Traced.safe_pure _

theorem inBounds_readAttachments {attCount : Nat} :
    InBounds bytes (readAttachments bytes attCount off) := by
  induction attCount generalizing off with
  | zero => exact Traced.safe_pure _
  | succ attCount ih =>
    refine inBounds_readAttachment.bind fun a _ ↦ ?_
    exact ih.bind fun a _ ↦ Traced.safe_pure _

theorem inBounds_readPadTrailer {hasPadTrailer : Bool} :
    InBounds bytes (readPadTrailer bytes hasPadTrailer off) := by
  cases hasPadTrailer with
  | false => exact Traced.safe_pure _
  | true =>
    refine bind_need fun hle ↦ bind_readUint32 hle fun padLen ↦ ?_
    exact bind_need fun _ ↦ Traced.safe_pure _

/-- The decoder reads within its buffer, whatever the buffer holds. -/
theorem inBounds_readStrict : InBounds bytes (readStrict bytes) := by
  refine bind_readVersion fun version ↦ bind_throwIf fun _ ↦ ?_
  refine bind_need fun hle ↦ bind_readUint32 hle fun textLen ↦ ?_
  refine bind_need fun hle ↦ bind_readBytes hle fun text ↦ ?_
  refine bind_need fun hle ↦ bind_readUint16 hle fun attCount ↦ ?_
  refine inBounds_readAttachments.bind fun a _ ↦ ?_
  refine inBounds_readPadTrailer.bind fun off _ ↦ ?_
  exact bind_throwIf fun _ ↦ Traced.safe_pure _

/-! ## What the decoder accepts -/

/-- The strict decoder returns exactly the parses of the layout. -/
theorem decodeStrict_eq_ok {bytes : List UInt8} {p : Payload} :
    decodeStrict bytes = .ok p ↔ ∃ l : Layout, l.bytes = bytes ∧ l.payload = p := by
  constructor
  · exact exists_layout
  · rintro ⟨l, rfl, rfl⟩
    exact decodeStrict_bytes l

/-- `decodeStrict` accepts exactly the layout, of which every byte string has at most one parse; it
reads within the buffer and throws nothing but an `InvalidFormatError`; and `decodePayload` returns
the parse, or the whole buffer as text where there is none. -/
theorem decodeStrict_accepts (bytes : List UInt8) :
    ((∃ p, decodeStrict bytes = .ok p) ↔ ∃ l : Layout, l.bytes = bytes) ∧
    (∀ p, decodeStrict bytes = .ok p ↔ ∃ l : Layout, l.bytes = bytes ∧ l.payload = p) ∧
    (∀ l l' : Layout, l.bytes = bytes → l'.bytes = bytes → l = l') ∧
    (readStrict bytes).result = decodeStrict bytes ∧
    (∀ r ∈ (readStrict bytes).log, r.off + r.len ≤ bytes.length) ∧
    (∀ e, decodeStrict bytes = .error e → (∃ message, e = .invalidFormat message) ∧
      decodePayload bytes = ⟨TextDecoder.decode false bytes, []⟩) ∧
    (∀ p, decodeStrict bytes = .ok p → decodePayload bytes = p) := by
  have hsafe : InBounds bytes (readStrict bytes) := inBounds_readStrict
  refine ⟨?_, fun p ↦ decodeStrict_eq_ok, ?_, result_readStrict bytes, hsafe.log, ?_, ?_⟩
  · constructor
    · rintro ⟨p, h⟩
      obtain ⟨l, hl, -⟩ := exists_layout h
      exact ⟨l, hl⟩
    · rintro ⟨l, rfl⟩
      exact ⟨_, decodeStrict_bytes l⟩
  · intro l l' hl hl'
    exact Layout.bytes_injective (hl.trans hl'.symm)
  · intro e he
    constructor
    · exact hsafe.error e ((result_readStrict bytes).trans he)
    · rw [decodePayload, he]
  · intro p hp
    rw [decodePayload, hp]

end Aesmsg.Crypto
