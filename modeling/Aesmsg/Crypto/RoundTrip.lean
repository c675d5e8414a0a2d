import Aesmsg.Crypto.Grammar

/-!
# Decoding an encoded payload

The encoder writes a version 2 envelope of the layout in `Crypto.Grammar`, and the decoder reads
that back field by field.

The outcome is `decodePayload_encodePayload`: decoding gives back the payload with every string
passed through encode and decode once.  The decoders are constructed without `ignoreBOM`, so that
pass is the identity exactly on the strings that do not start with U+FEFF.
-/

namespace Aesmsg.Crypto

open Bytes

/-! ## Attachments -/

/-- The field an attachment is encoded to. -/
def toField (att : PayloadAttachment) : EncodedField :=
  ⟨TextEncoder.encode att.filename, TextEncoder.encode att.mimetype, att.bytes⟩

theorem encodeField_eq_ok {att : PayloadAttachment} {f : EncodedField} :
    encodeField att = .ok f ↔ (toField att).Fits ∧ f = toField att := by
  simp only [encodeField, Result.bind_eq_ok, throwIf_eq_ok]
  constructor
  · rintro ⟨_, hname, _, hmime, _, hcontent, hf⟩
    exact ⟨⟨not_lt.mp hname, not_lt.mp hmime, not_lt.mp hcontent⟩, (Except.ok.inj hf).symm⟩
  · rintro ⟨hfits, rfl⟩
    exact ⟨(), not_lt.mpr hfits.name, (), not_lt.mpr hfits.mime, (),
      not_lt.mpr hfits.content, rfl⟩

/-- The attachments are encoded iff each of them fits. -/
theorem mapM_encodeField_eq_ok {atts : List PayloadAttachment} {fields : List EncodedField} :
    atts.mapM encodeField = .ok fields ↔
      (∀ att ∈ atts, (toField att).Fits) ∧ fields = atts.map toField := by
  induction atts generalizing fields with
  | nil => simp [List.mapM_nil, pure, Except.pure, eq_comm]
  | cons att atts ih =>
      simp only [List.mapM_cons, Result.bind_eq_ok, encodeField_eq_ok, ih, List.forall_mem_cons,
        List.map_cons]
      constructor
      · rintro ⟨_, ⟨hfits, rfl⟩, _, ⟨hall, rfl⟩, hcons⟩
        exact ⟨⟨hfits, hall⟩, (Except.ok.inj hcons).symm⟩
      · rintro ⟨⟨hfits, hall⟩, rfl⟩
        exact ⟨_, ⟨hfits, rfl⟩, _, ⟨hall, rfl⟩, rfl⟩

/-! ## The envelope -/

/-- A version 2 envelope: a body, a pad length and that many bytes. -/
def envelope (textBytes : List UInt8) (fields : List EncodedField) (pad : List UInt8) :
    List UInt8 :=
  writeBody textBytes fields ++ writeU32BE pad.length ++ pad

/-- The strict decoder on a version 2 envelope, whatever the pad bytes are. -/
theorem decodeStrict_envelope {textBytes pad : List UInt8} {fields : List EncodedField}
    (htext : textBytes.length ≤ U32_MAX) (hcount : fields.length ≤ U16_MAX)
    (hfits : ∀ f ∈ fields, f.Fits) (hpad : pad.length ≤ U32_MAX) :
    decodeStrict (envelope textBytes fields pad) =
      .ok ⟨dec textBytes, fields.map ofField⟩ := by
  have hpad' : ∀ p ∈ some pad, p.length ≤ U32_MAX := by
    rintro _ ⟨⟩
    exact hpad
  have hbytes : envelope textBytes fields pad =
      (Layout.mk textBytes fields (some pad) htext hcount hfits hpad').bytes := by
    simp only [envelope, writeBody, Layout.bytes, Layout.tail, Layout.version, Layout.trailer,
      List.cons_append, List.append_assoc]
    rfl
  rw [hbytes]
  exact decodeStrict_bytes _

/-! ## Encoding, then decoding -/

/-- What an accepted payload is encoded to. -/
theorem encodePayload_eq_ok {p : Payload} {out : List UInt8} (h : encodePayload p = .ok out) :
    ∃ padLen ≤ U32_MAX,
      (TextEncoder.encode p.text).length ≤ U32_MAX ∧ p.attachments.length ≤ U16_MAX ∧
      (∀ att ∈ p.attachments, (toField att).Fits) ∧
      out = envelope (TextEncoder.encode p.text) (p.attachments.map toField)
        (List.replicate padLen 0) := by
  simp only [encodePayload, Result.bind_eq_ok, throwIf_eq_ok, mapM_encodeField_eq_ok] at h
  obtain ⟨_, htext, _, hcount, fields, ⟨hfits, rfl⟩, _, hpad, _, _, hout⟩ := h
  refine ⟨_, not_lt.mp (not_or.mp hpad).2, not_lt.mp htext, not_lt.mp hcount, hfits, ?_⟩
  rw [envelope, List.length_replicate]
  exact (Except.ok.inj hout).symm

/-- A payload with every string encoded and decoded once. -/
def transcode (p : Payload) : Payload :=
  ⟨dec (TextEncoder.encode p.text), p.attachments.map fun att ↦ ofField (toField att)⟩

/-- Decoding an encoded payload gives the payload with its strings transcoded. -/
theorem decodePayload_encode {p : Payload} {out : List UInt8} (h : encodePayload p = .ok out) :
    decodePayload out = transcode p := by
  obtain ⟨padLen, hpad, htext, hcount, hfits, rfl⟩ := encodePayload_eq_ok h
  have hdec : decodeStrict (envelope (TextEncoder.encode p.text) (p.attachments.map toField)
      (List.replicate padLen 0)) = .ok (transcode p) := by
    rw [decodeStrict_envelope htext (by simpa using hcount) (by simpa using hfits)
      (by simpa using hpad), List.map_map]
    rfl
  rw [decodePayload, hdec]

/-- A string the decoder reads back unchanged: it does not start with U+FEFF. -/
def NoLeadingBOM (s : String) : Prop := s.toList.head? ≠ some Utf8.bom

instance (s : String) : Decidable (NoLeadingBOM s) := inferInstanceAs (Decidable (_ ≠ _))

/-- No string of the payload starts with U+FEFF. -/
structure Payload.NoLeadingBOMs (p : Payload) : Prop where
  text : NoLeadingBOM p.text
  attachments : ∀ att ∈ p.attachments, NoLeadingBOM att.filename ∧ NoLeadingBOM att.mimetype

theorem dec_encode_eq_iff (s : String) : dec (TextEncoder.encode s) = s ↔ NoLeadingBOM s :=
  TextDecoder.decode_encode_eq_iff s

theorem ofField_toField_eq_iff (att : PayloadAttachment) :
    ofField (toField att) = att ↔ NoLeadingBOM att.filename ∧ NoLeadingBOM att.mimetype := by
  rw [← dec_encode_eq_iff, ← dec_encode_eq_iff]
  cases att
  simp [ofField, toField]

theorem transcode_eq_iff (p : Payload) : transcode p = p ↔ p.NoLeadingBOMs := by
  have hmap : (p.attachments.map fun att ↦ ofField (toField att)) = p.attachments ↔
      ∀ att ∈ p.attachments, NoLeadingBOM att.filename ∧ NoLeadingBOM att.mimetype := by
    simp only [← ofField_toField_eq_iff]
    conv_lhs => rhs; rw [← List.map_id p.attachments]
    exact List.map_inj_left
  have hsplit : transcode p = p ↔ dec (TextEncoder.encode p.text) = p.text ∧
      (p.attachments.map fun att ↦ ofField (toField att)) = p.attachments := by
    cases p
    simp [transcode]
  rw [hsplit, dec_encode_eq_iff, hmap]
  exact ⟨fun h ↦ ⟨h.1, h.2⟩, fun h ↦ ⟨h.text, h.attachments⟩⟩

/-- For every payload the encoder accepts, decoding the envelope gives the payload back iff none
of its strings starts with a byte order mark. -/
theorem decodePayload_encodePayload_iff {p : Payload} {out : List UInt8}
    (h : encodePayload p = .ok out) : decodePayload out = p ↔ p.NoLeadingBOMs := by
  rw [decodePayload_encode h, transcode_eq_iff]

/-- The message "hi" with an attachment is accepted and read back. -/
theorem decodePayload_encodePayload_iff_hi :
    ∃ out, encodePayload ⟨"hi", [⟨"a.txt", "text/plain", [0, 255]⟩]⟩ = .ok out ∧
      decodePayload out = ⟨"hi", [⟨"a.txt", "text/plain", [0, 255]⟩]⟩ := by
  obtain ⟨out, h⟩ := Result.exists_eq_ok
    (x := encodePayload ⟨"hi", [⟨"a.txt", "text/plain", [0, 255]⟩]⟩) (by decide +kernel)
  refine ⟨out, h, (decodePayload_encodePayload_iff h).mpr ⟨?_, ?_⟩⟩
  · decide +kernel
  · decide +kernel

/-- The one-character message U+FEFF is accepted and does not come back. -/
theorem decodePayload_encodePayload_bom :
    ¬∀ p out, encodePayload p = .ok out → decodePayload out = p := by
  intro hall
  obtain ⟨out, h⟩ := Result.exists_eq_ok (x := encodePayload ⟨"\uFEFF", []⟩) (by decide +kernel)
  have hne : transcode ⟨"\uFEFF", []⟩ ≠ ⟨"\uFEFF", []⟩ := by decide +kernel
  exact hne ((decodePayload_encode h).symm.trans (hall _ _ h))

end Aesmsg.Crypto
