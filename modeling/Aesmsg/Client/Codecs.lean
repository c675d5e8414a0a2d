import Aesmsg.Api.Create
import Aesmsg.Client.Base64

/-!
# The base64 codecs

The codecs, `base64urlEncode` and `base64urlDecode` of the crypto package,
`bytesToBase64` and `base64ToBytes` of the mobile client and `decodeBase64` of the server, and the link
ids that are made with them.

## Main results

- `codecs_agree`: each decoder reads what the other side writes.
-/

namespace Aesmsg.Client

open Crypto Api

theorem isLinkId_generateLinkId (random : List UInt8) :
    isLinkId (Mobile.generateLinkId random) = true ↔ random.length = 12 := by
  have hchars : ∀ c ∈ (base64urlEncode random).toList, (c.isAlphanum || c = '_' || c = '-') = true := by
    have hall : ∀ d < 64, ((BASE64URL_ALPHABET.char d).isAlphanum || BASE64URL_ALPHABET.char d = '_' ||
        BASE64URL_ALPHABET.char d = '-') = true := by decide
    rw [toList_base64urlEncode]
    exact BASE64URL_ALPHABET.forall_mem_text hall random
  unfold isLinkId Mobile.generateLinkId
  rw [Mobile.bytesToBase64Url_eq, decide_eq_true_eq, length_base64urlEncode, List.all_eq_true]
  exact and_iff_left hchars

theorem generateLinkId_injective : Function.Injective Mobile.generateLinkId := by
  intro random random' h
  unfold Mobile.generateLinkId at h
  rw [Mobile.bytesToBase64Url_eq, Mobile.bytesToBase64Url_eq] at h
  have hread := base64urlDecode_encode random
  rw [h, base64urlDecode_encode random'] at hread
  exact (Except.ok.inj hread).symm

/-- Each decoder reads what the other side writes, of any length; a link id is well formed iff it is
made of twelve bytes, and it tells them. -/
theorem codecs_agree (bytes : List UInt8) :
    base64urlDecode (base64urlEncode bytes) = .ok bytes ∧
    Mobile.base64ToBytes (Mobile.bytesToBase64 bytes) = .ok bytes ∧
    Mobile.bytesToBase64 bytes = Base64.btoa bytes ∧
    isBase64 (Mobile.bytesToBase64 bytes) = true ∧
    decodeBase64 (Mobile.bytesToBase64 bytes) = some bytes ∧
    Mobile.base64ToBytes (Base64.btoa bytes) = .ok bytes ∧
    (isLinkId (Mobile.generateLinkId bytes) = true ↔ bytes.length = 12) ∧
    ∀ bytes', Mobile.generateLinkId bytes = Mobile.generateLinkId bytes' → bytes = bytes' := by
  rw [Mobile.bytesToBase64_eq]
  refine ⟨base64urlDecode_encode bytes, ?_, rfl, ?_, ?_, ?_, isLinkId_generateLinkId bytes, ?_⟩
  · exact Mobile.base64ToBytes_btoa bytes
  · exact isBase64_btoa bytes
  · exact decodeBase64_btoa bytes
  · exact Mobile.base64ToBytes_btoa bytes
  · intro bytes' h
    exact generateLinkId_injective h

end Aesmsg.Client
