import Mathlib.Data.List.DropRight
import Aesmsg.Crypto.Wire

/-!
# Base64 in the clients

`apps/mobile/src/lib/base64.ts`, which has its own loops, and the decoder of
`apps/webapp/src/lib/base64.ts`, which has `atob`.  Both read what the mobile client and the server
write.
-/

namespace Aesmsg.Client

open Crypto

/-- The loop over the bytes, then `=` up to a multiple of four characters. -/
def Mobile.bytesToBase64 (bytes : List UInt8) : String :=
  let result := (Base64.encodeLoop 0 0 bytes).map Base64.standard.char
  String.ofList (result ++ List.replicate ((4 - result.length % 4) % 4) '=')

/-- `s.replace(/=+$/, "")` -/
def stripPadding (s : List Char) : List Char := s.rdropWhile (· = '=')

def Mobile.bytesToBase64Url (bytes : List UInt8) : String :=
  String.ofList (stripPadding ((Mobile.bytesToBase64 bytes).toList.map fun c ↦
    if c = '+' then '-' else if c = '/' then '_' else c))

/-- `random` is what `getRandomValues` fills the 12 bytes with. -/
def Mobile.generateLinkId (random : List UInt8) : String := Mobile.bytesToBase64Url random

def Mobile.base64ToBytes (s : String) : Result (List UInt8) :=
  match Base64.standard.digits (stripPadding s.toList) with
  | none => .error (.error "Invalid base64 character")
  | some digits => .ok (Base64.decodeLoop 0 0 digits)

/-- The standard character for a url-safe one. -/
def normalizeChar (c : Char) : Char := if c = '-' then '+' else if c = '_' then '/' else c

def Web.base64ToBytes (s : String) : Result (List UInt8) :=
  match Base64.atob (String.ofList (s.toList.map normalizeChar)) with
  | none => .error (.error "InvalidCharacterError")
  | some bytes => .ok bytes

theorem Mobile.bytesToBase64_eq (bytes : List UInt8) :
    Mobile.bytesToBase64 bytes = Base64.btoa bytes := by
  unfold Mobile.bytesToBase64
  rw [Base64.encodeLoop_eq]
  rfl

theorem stripPadding_append (s : List Char) (k : Nat) :
    stripPadding (s ++ List.replicate k '=') = stripPadding s := by
  induction k with
  | zero => rw [List.replicate_zero, List.append_nil]
  | succ k ih =>
    rw [List.replicate_succ', ← List.append_assoc]
    exact (List.rdropWhile_concat_pos _ _ _ (by decide)).trans ih

theorem stripPadding_of_not_mem {s : List Char} (h : '=' ∉ s) : stripPadding s = s := by
  refine List.rdropWhile_eq_self_iff.mpr fun hne heq ↦ h ?_
  rw [← of_decide_eq_true heq]
  exact List.getLast_mem hne

/-- The url-safe characters are the standard ones, but for two. -/
theorem urlChar_char {d : Nat} (h : d < 64) :
    (if Base64.standard.char d = '+' then '-' else if Base64.standard.char d = '/' then '_' else
      Base64.standard.char d) = BASE64URL_ALPHABET.char d := by
  have hall : ∀ d < 64, (if Base64.standard.char d = '+' then '-' else
      if Base64.standard.char d = '/' then '_' else Base64.standard.char d) =
        BASE64URL_ALPHABET.char d := by decide
  exact hall d h

/-- No character of the url-safe alphabet is taken for padding. -/
theorem padding_not_mem_text (bytes : List UInt8) : '=' ∉ BASE64URL_ALPHABET.text bytes := by
  have hall : ∀ d < 64, BASE64URL_ALPHABET.char d ≠ '=' := by decide
  have hne : ∀ c ∈ BASE64URL_ALPHABET.text bytes, c ≠ '=' :=
    BASE64URL_ALPHABET.forall_mem_text hall bytes
  intro hmem
  exact hne _ hmem rfl

theorem Mobile.bytesToBase64Url_eq (bytes : List UInt8) :
    Mobile.bytesToBase64Url bytes = base64urlEncode bytes := by
  obtain ⟨k, -, htext, -⟩ := Base64.toList_btoa bytes
  have hmap : (Base64.standard.text bytes).map (fun c ↦
      if c = '+' then '-' else if c = '/' then '_' else c) = BASE64URL_ALPHABET.text bytes := by
    unfold Base64.Alphabet.text
    rw [List.map_map]
    apply List.map_congr_left
    intro d hd
    exact urlChar_char (Base64.lt_of_mem_sextets hd)
  unfold Mobile.bytesToBase64Url base64urlEncode
  rw [Mobile.bytesToBase64_eq, htext, List.map_append, hmap, List.map_replicate, Base64.encodeLoop_eq]
  show String.ofList (stripPadding (_ ++ List.replicate k '=')) = _
  rw [stripPadding_append, stripPadding_of_not_mem (padding_not_mem_text bytes)]
  rfl

/-- Twelve bytes, and no other number of them, make sixteen characters. -/
theorem length_base64urlEncode (bytes : List UInt8) :
    (base64urlEncode bytes).length = 16 ↔ bytes.length = 12 := by
  have hlen := Base64.three_mul_length_sextets bytes
  rw [← String.length_toList, toList_base64urlEncode, Base64.Alphabet.text, List.length_map]
  omega

/-- A link id of twelve bytes has sixteen ASCII characters. -/
theorem Mobile.generateLinkId_ascii {random : List UInt8} (h : random.length = 12) :
    (Mobile.generateLinkId random).length = 16 ∧
      ∀ c ∈ (Mobile.generateLinkId random).toList, c.toNat < 128 := by
  have hchars : ∀ d < 64, (BASE64URL_ALPHABET.char d).toNat < 128 := by decide
  unfold Mobile.generateLinkId
  rw [Mobile.bytesToBase64Url_eq]
  refine ⟨(length_base64urlEncode random).mpr h, ?_⟩
  rw [toList_base64urlEncode]
  exact BASE64URL_ALPHABET.forall_mem_text hchars random

/-- The mobile client reads what the server writes. -/
theorem Mobile.base64ToBytes_btoa (bytes : List UInt8) :
    Mobile.base64ToBytes (Base64.btoa bytes) = .ok bytes := by
  obtain ⟨k, -, htext, -⟩ := Base64.toList_btoa bytes
  have hstrip : stripPadding (Base64.btoa bytes).toList = Base64.standard.text bytes := by
    rw [htext, stripPadding_append]
    exact stripPadding_of_not_mem (Base64.not_mem_text (by decide) bytes)
  unfold Mobile.base64ToBytes
  rw [hstrip, Base64.standard.digits_text]
  dsimp only
  rw [← Base64.encodeLoop_eq bytes 0, Base64.decodeLoop_encodeLoop]

/-- Standard text needs no other characters. -/
theorem map_normalizeChar_btoa (bytes : List UInt8) :
    (Base64.btoa bytes).toList.map normalizeChar = (Base64.btoa bytes).toList := by
  have hchars : ∀ c ∈ Base64.standard.chars, normalizeChar c = c :=
    Base64.forall_mem_chars (by decide)
  obtain ⟨k, -, htext, -⟩ := Base64.toList_btoa bytes
  refine (List.map_congr_left fun c hc ↦ ?_).trans (List.map_id _)
  rw [htext, List.mem_append] at hc
  rcases hc with hc | hc
  · exact hchars c (Base64.standard.mem_of_mem_text hc)
  · rw [List.eq_of_mem_replicate hc]
    rfl

/-- So does the web client. -/
theorem Web.base64ToBytes_btoa (bytes : List UInt8) :
    Web.base64ToBytes (Base64.btoa bytes) = .ok bytes := by
  unfold Web.base64ToBytes
  rw [map_normalizeChar_btoa, String.ofList_toList, Base64.atob_btoa]

end Aesmsg.Client
