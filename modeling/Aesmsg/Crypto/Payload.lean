import Aesmsg.Crypto.Errors
import Aesmsg.Crypto.Pad

/-!
# The payload envelope

`packages/crypto/src/payload.ts`.  A payload is a text and a list of attachments; the envelope is

```
u8 version | u32 textLen, text | u16 attachmentCount
  | attachmentCount × (u16 nameLen, name | u16 mimeLen, mime | u32 contentLen, content)
  | u32 padLen, padLen zero bytes                                   (version 2 only)
```

with big-endian integers.  The encoder writes it front to back, so the output buffer is the
concatenation of what has been written; the decoder walks the buffer with an offset, and every
read goes through `need`.

A JavaScript string is a `String` here, so it is well-formed: a sequence of Unicode scalar values.
-/

namespace Aesmsg.Crypto

open Bytes

def PAYLOAD_VERSION : UInt8 := 0x02

def PAYLOAD_VERSION_V1 : UInt8 := 0x01

def U16_MAX : Nat := 0xffff

def U32_MAX : Nat := 0xffffffff

def PAD_LEN_FIELD_BYTES : Nat := 4

structure PayloadAttachment where
  filename : String
  mimetype : String
  bytes : List UInt8
deriving DecidableEq, Repr

structure Payload where
  text : String
  attachments : List PayloadAttachment
deriving DecidableEq, Repr

/-! ## Encoding -/

def writeU16BE (value : Nat) : List UInt8 := toBE 2 value

def writeU32BE (value : Nat) : List UInt8 := toBE 4 value

@[simp] theorem length_writeU16BE (n : Nat) : (writeU16BE n).length = 2 := length_toBE 2 n

@[simp] theorem length_writeU32BE (n : Nat) : (writeU32BE n).length = 4 := length_toBE 4 n

structure EncodedField where
  nameBytes : List UInt8
  mimeBytes : List UInt8
  content : List UInt8

/-- The callback of the `map` over the attachments. -/
def encodeField (att : PayloadAttachment) : Result EncodedField := do
  let nameBytes := TextEncoder.encode att.filename
  let mimeBytes := TextEncoder.encode att.mimetype
  throwIf (nameBytes.length > U16_MAX)
    (.invalidFormat "encodePayload: filename exceeds u16 length")
  throwIf (mimeBytes.length > U16_MAX)
    (.invalidFormat "encodePayload: mimetype exceeds u16 length")
  throwIf (att.bytes.length > U32_MAX)
    (.invalidFormat "encodePayload: attachment exceeds u32 length")
  return ⟨nameBytes, mimeBytes, att.bytes⟩

/-- The bytes one attachment takes up in the envelope. -/
def EncodedField.size (f : EncodedField) : Nat :=
  2 + f.nameBytes.length + 2 + f.mimeBytes.length + 4 + f.content.length

def writeField (f : EncodedField) : List UInt8 :=
  writeU16BE f.nameBytes.length ++ f.nameBytes ++
  writeU16BE f.mimeBytes.length ++ f.mimeBytes ++
  writeU32BE f.content.length ++ f.content

/-- Everything before the pad trailer. -/
def writeBody (textBytes : List UInt8) (fields : List EncodedField) : List UInt8 :=
  PAYLOAD_VERSION :: writeU32BE textBytes.length ++ textBytes ++
  writeU16BE fields.length ++ fields.flatMap writeField

def encodePayload (payload : Payload) : Result (List UInt8) := do
  let textBytes := TextEncoder.encode payload.text
  throwIf (textBytes.length > U32_MAX) (.invalidFormat "encodePayload: text exceeds u32 length")
  throwIf (payload.attachments.length > U16_MAX)
    (.invalidFormat "encodePayload: too many attachments")
  let fields ← payload.attachments.mapM encodeField
  let bodyLen := fields.foldl (fun n f ↦ n + f.size) (1 + 4 + textBytes.length + 2)
  let minLen := bodyLen + PAD_LEN_FIELD_BYTES
  let total := targetPaddedLen minLen
  -- `padLen` is `total - minLen`; the subtraction is only formed where it is not negative
  throwIf (total < minLen ∨ total - minLen > U32_MAX)
    (.error "encodePayload: internal pad length out of range")
  let padLen := total - minLen
  let out := writeBody textBytes fields ++ writeU32BE padLen ++ List.replicate padLen 0
  throwIf (out.length ≠ total) (.error "encodePayload: internal offset mismatch")
  return out

/-! ## Decoding -/

/-- The bounds check before every read. -/
def need (bytes : List UInt8) (off n : Nat) : Result Unit :=
  throwIf (off + n > bytes.length) (.invalidFormat "decodePayload: truncated payload")

/-- `DataView.getUint16(off, false)`. -/
def getUint16 (bytes : List UInt8) (off : Nat) : Result Nat :=
  if off + 2 ≤ bytes.length then .ok (ofBE ((bytes.drop off).take 2)) else .error .rangeError

/-- `DataView.getUint32(off, false)`. -/
def getUint32 (bytes : List UInt8) (off : Nat) : Result Nat :=
  if off + 4 ≤ bytes.length then .ok (ofBE ((bytes.drop off).take 4)) else .error .rangeError

/-- `Uint8Array.subarray(start, stop)`, and `slice`, whose result has the same bytes. -/
def subarray (bytes : List UInt8) (start stop : Nat) : List UInt8 :=
  (bytes.drop start).take (stop - start)

/-- `dec.decode(..)` for the decoder `new TextDecoder()` of `decodeStrict`. -/
def dec (bytes : List UInt8) : String := TextDecoder.decode false bytes

/-- One turn of the attachment loop: the attachment and the offset after it. -/
def decodeAttachment (bytes : List UInt8) (off : Nat) : Result (PayloadAttachment × Nat) := do
  need bytes off 2
  let nameLen ← getUint16 bytes off
  let off := off + 2
  need bytes off nameLen
  let filename := dec (subarray bytes off (off + nameLen))
  let off := off + nameLen
  need bytes off 2
  let mimeLen ← getUint16 bytes off
  let off := off + 2
  need bytes off mimeLen
  let mimetype := dec (subarray bytes off (off + mimeLen))
  let off := off + mimeLen
  need bytes off 4
  let contentLen ← getUint32 bytes off
  let off := off + 4
  need bytes off contentLen
  let content := subarray bytes off (off + contentLen)
  return (⟨filename, mimetype, content⟩, off + contentLen)

/-- `attCount` turns of the attachment loop. -/
def decodeAttachments (bytes : List UInt8) :
    Nat → Nat → Result (List PayloadAttachment × Nat)
  | 0, off => return ([], off)
  | attCount + 1, off => do
      let (att, off) ← decodeAttachment bytes off
      let (atts, off) ← decodeAttachments bytes attCount off
      return (att :: atts, off)

/-- The pad trailer, present in version 2 only: the offset after it. -/
def skipPadTrailer (bytes : List UInt8) (hasPadTrailer : Bool) (off : Nat) : Result Nat :=
  if hasPadTrailer then do
    need bytes off 4
    let padLen ← getUint32 bytes off
    let off := off + 4
    need bytes off padLen
    return off + padLen
  else return off

def decodeStrict (bytes : List UInt8) : Result Payload := do
  let version := bytes.head?
  throwIf (version ≠ some PAYLOAD_VERSION ∧ version ≠ some PAYLOAD_VERSION_V1)
    (.invalidFormat "decodePayload: unknown payload version")
  let hasPadTrailer := version == some PAYLOAD_VERSION
  let off := 1
  need bytes off 4
  let textLen ← getUint32 bytes off
  let off := off + 4
  need bytes off textLen
  let text := dec (subarray bytes off (off + textLen))
  let off := off + textLen
  need bytes off 2
  let attCount ← getUint16 bytes off
  let off := off + 2
  let (attachments, off) ← decodeAttachments bytes attCount off
  let off ← skipPadTrailer bytes hasPadTrailer off
  throwIf (off ≠ bytes.length)
    (.invalidFormat "decodePayload: trailing bytes after payload")
  return ⟨text, attachments⟩

/-- `decodeStrict`, and the whole buffer as text where it throws. -/
def decodePayload (bytes : List UInt8) : Payload :=
  match decodeStrict bytes with
  | .ok payload => payload
  | .error _ => ⟨TextDecoder.decode false bytes, []⟩

end Aesmsg.Crypto
