import Aesmsg.Crypto.Wire

/-!
# Public key strings

`decodePubkey` reads 46 base64url characters as 34 bytes and drops the four bits that are left over,
so each key has sixteen strings.  One of them, with zero bits, is what `encodePubkey` writes; on
these the two functions are inverse, and the strings that are read although bits are left over
(`StrayBits`) are all the others.
-/

namespace Aesmsg.Crypto

open Base64

/-- The public key string of these digits. -/
def Spells (s : String) (ds : List Nat) : Prop :=
  ∃ body, s.toList = PUBKEY_PREFIX.toList ++ body ∧ BASE64URL_ALPHABET.digits body = some ds

theorem Spells.lt {s : String} {ds : List Nat} (h : Spells s ds) : ∀ d ∈ ds, d < 64 := by
  obtain ⟨body, -, hds⟩ := h
  exact (BASE64URL_ALPHABET.digits_eq_some hds).1

/-- A string spells at most one list of digits, and a list is spelled by at most one string. -/
theorem Spells.unique {s : String} {ds ds' : List Nat} (h : Spells s ds) (h' : Spells s ds') :
    ds = ds' := by
  obtain ⟨body, hbody, hds⟩ := h
  obtain ⟨body', hbody', hds'⟩ := h'
  rw [hbody, List.append_cancel_left_eq] at hbody'
  rw [hbody', hds'] at hds
  exact (Option.some.inj hds).symm

theorem Spells.inj {s s' : String} {ds : List Nat} (h : Spells s ds) (h' : Spells s' ds) :
    s = s' := by
  obtain ⟨body, hbody, hds⟩ := h
  obtain ⟨body', hbody', hds'⟩ := h'
  apply String.toList_inj.mp
  rw [hbody, hbody', ← (BASE64URL_ALPHABET.digits_eq_some hds).2,
    (BASE64URL_ALPHABET.digits_eq_some hds').2]

/-- What is read: digits that spell the version, the suite and a key. -/
theorem decodePubkey_eq_ok {s : String} {rawKey canonical : List UInt8} :
    decodePubkey s = .ok ⟨rawKey, canonical⟩ ↔
      canonical = WIRE_VERSION :: SUITE_X25519_AES256GCM :: rawKey ∧
      rawKey.length = RAW_X25519_PUBKEY_LEN ∧ ∃ ds, Spells s ds ∧ octets ds = canonical := by
  unfold decodePubkey
  constructor
  · intro h
    split at h
    · cases h
    rename_i body hbody
    simp only [Result.bind_eq_ok, throwIf_eq_ok, not_not, base64urlDecode_eq_ok,
      String.toList_ofList] at h
    obtain ⟨bytes, ⟨ds, hds, hoctets⟩, _, hlen, _, hversion, _, hsuite, hd⟩ := h
    obtain ⟨hraw, hcanonical⟩ := DecodedPubkey.mk.inj (Except.ok.inj hd)
    subst hcanonical
    have hcons : bytes = WIRE_VERSION :: SUITE_X25519_AES256GCM :: rawKey := by
      cases bytes with
      | nil => exact absurd (show 0 = 34 from hlen) (by decide)
      | cons v bytes =>
        cases bytes with
        | nil => exact absurd (show 1 = 34 from hlen) (by decide)
        | cons suite rest =>
          rw [← show v = WIRE_VERSION from hversion,
            ← show suite = SUITE_X25519_AES256GCM from hsuite, ← hraw]
          rfl
    refine ⟨hcons, ?_, ds, ⟨body, afterPrefix_eq_some_iff.mp hbody, hds⟩, hoctets⟩
    rw [hcons, List.length_cons, List.length_cons, CANONICAL_PUBKEY_LEN] at hlen
    omega
  · rintro ⟨rfl, hlen, ds, ⟨body, hbody, hds⟩, hoctets⟩
    rw [hbody, afterPrefix_append]
    have hdecode : base64urlDecode (String.ofList body) =
        .ok (WIRE_VERSION :: SUITE_X25519_AES256GCM :: rawKey) := by
      rw [base64urlDecode_eq_ok, String.toList_ofList]
      exact ⟨ds, hds, hoctets⟩
    have hlen' : (WIRE_VERSION :: SUITE_X25519_AES256GCM :: rawKey).length =
        CANONICAL_PUBKEY_LEN := by
      rw [List.length_cons, List.length_cons, hlen]
      rfl
    simp only [hdecode, Result.ok_bind, throwIf_neg _ (not_not.mpr hlen'), List.getD_cons_zero,
      List.getD_cons_succ, throwIf_neg _ (not_not.mpr rfl)]
    rfl

/-- What is written: the digits of the version, the suite and a key. -/
theorem encodePubkey_eq_ok {s : String} {rawKey : List UInt8} :
    encodePubkey rawKey = .ok s ↔ rawKey.length = RAW_X25519_PUBKEY_LEN ∧
      Spells s (sextets (WIRE_VERSION :: SUITE_X25519_AES256GCM :: rawKey)) := by
  have hspells : Spells
      (PUBKEY_PREFIX ++ base64urlEncode (WIRE_VERSION :: SUITE_X25519_AES256GCM :: rawKey))
      (sextets (WIRE_VERSION :: SUITE_X25519_AES256GCM :: rawKey)) := by
    refine ⟨_, String.toList_append, ?_⟩
    rw [toList_base64urlEncode]
    exact BASE64URL_ALPHABET.digits_text _
  constructor
  · intro h
    by_cases hlen : rawKey.length = RAW_X25519_PUBKEY_LEN
    · rw [encodePubkey_eq hlen] at h
      rw [← Except.ok.inj h]
      exact ⟨hlen, hspells⟩
    · rw [encodePubkey, throwIf_pos _ hlen] at h
      cases h
  · rintro ⟨hlen, hs⟩
    rw [encodePubkey_eq hlen, hspells.inj hs]

/-- The string is read as a key, and bits are left over that are not zero: after the prefix stand 46
base64url characters that spell the version and the suite, and the last of them is none of the four
characters `A`, `Q`, `g` and `w`. -/
def StrayBits (s : String) : Prop :=
  ∃ init last, Spells s (init ++ [last]) ∧ init.length = 45 ∧
    (octets (init ++ [last])).take 2 = [WIRE_VERSION, SUITE_X25519_AES256GCM] ∧ last % 16 ≠ 0

/-- The digits of an accepted string: 46 of them, four bits more than the bytes need. -/
theorem exists_append_of_octets {ds : List Nat} {rawKey : List UInt8}
    (hlen : rawKey.length = RAW_X25519_PUBKEY_LEN)
    (h : octets ds = WIRE_VERSION :: SUITE_X25519_AES256GCM :: rawKey) :
    ∃ init last, ds = init ++ [last] ∧ init.length = 45 := by
  have hoctets := length_octets ds
  rw [h, List.length_cons, List.length_cons, hlen, RAW_X25519_PUBKEY_LEN] at hoctets
  have hne : ds ≠ [] := by
    rintro rfl
    cases h
  refine ⟨ds.dropLast, ds.getLast hne, (List.dropLast_append_getLast hne).symm, ?_⟩
  rw [List.length_dropLast]
  omega

/-- The string is the text of the key iff no bit is left over. -/
theorem encodePubkey_iff_of_decoded {s : String} {rawKey canonical : List UInt8}
    (h : decodePubkey s = .ok ⟨rawKey, canonical⟩) :
    encodePubkey rawKey = .ok s ↔ ¬StrayBits s := by
  obtain ⟨hcanonical, hlen, ds, hs, hoctets⟩ := decodePubkey_eq_ok.mp h
  rw [hcanonical] at hoctets
  obtain ⟨init, last, rfl, hinit⟩ := exists_append_of_octets hlen hoctets
  have hcan := canonical_append_singleton last init (by rw [hinit])
  rw [← sextets_octets_iff hs.lt, hoctets] at hcan
  have hencode : encodePubkey rawKey = .ok s ↔ last % 16 = 0 := by
    rw [encodePubkey_eq_ok, and_iff_right hlen, ← hcan]
    constructor
    · intro hs'
      exact hs'.unique hs
    · intro heq
      rw [heq]
      exact hs
  rw [hencode]
  constructor
  · rintro hzero ⟨init', last', hs', -, -, hne⟩
    obtain ⟨-, hlast⟩ := List.append_inj' (hs.unique hs') rfl
    rw [← (List.cons.inj hlast).1] at hne
    exact hne hzero
  · intro hstray
    by_contra hne
    refine hstray ⟨init, last, hs, hinit, ?_, hne⟩
    rw [hoctets]
    rfl

/-- A string with stray bits is read. -/
theorem decodePubkey_of_strayBits {s : String} (h : StrayBits s) :
    ∃ rawKey canonical, decodePubkey s = .ok ⟨rawKey, canonical⟩ := by
  obtain ⟨init, last, hs, hinit, htake, -⟩ := h
  have hlen := length_octets (init ++ [last])
  rw [List.length_append, hinit, List.length_singleton] at hlen
  refine ⟨(octets (init ++ [last])).drop 2, octets (init ++ [last]), ?_⟩
  refine decodePubkey_eq_ok.mpr ⟨?_, ?_, _, hs, rfl⟩
  · conv_lhs => rw [← List.take_append_drop 2 (octets (init ++ [last])), htake]
    rfl
  · rw [List.length_drop, hlen]
    rfl

/-- A string is accepted exactly as the text of its key iff it has no stray bits; no other such string
is accepted as its key; and a string that was written for a key is read as that key. -/
theorem pubkey_canonical (s : String) :
    ((∀ rawKey, (∃ canonical, decodePubkey s = .ok ⟨rawKey, canonical⟩) ↔
      encodePubkey rawKey = .ok s) ↔ ¬StrayBits s) ∧
    (¬StrayBits s → ∀ s' d d', ¬StrayBits s' → decodePubkey s = .ok d → decodePubkey s' = .ok d' →
      d.rawKey = d'.rawKey → s = s') ∧
    ∀ rawKey, encodePubkey rawKey = .ok s →
      decodePubkey s = .ok ⟨rawKey, WIRE_VERSION :: SUITE_X25519_AES256GCM :: rawKey⟩ := by
  refine ⟨⟨?_, ?_⟩, ?_, ?_⟩
  · intro hall hstray
    obtain ⟨rawKey, canonical, hdecode⟩ := decodePubkey_of_strayBits hstray
    exact (encodePubkey_iff_of_decoded hdecode).mp ((hall rawKey).mp ⟨canonical, hdecode⟩) hstray
  · intro hstray rawKey
    constructor
    · rintro ⟨canonical, hdecode⟩
      exact (encodePubkey_iff_of_decoded hdecode).mpr hstray
    · intro hencode
      exact ⟨_, decodePubkey_encodePubkey hencode⟩
  · rintro hstray s' ⟨rawKey, canonical⟩ ⟨rawKey', canonical'⟩ hstray' h h' heq
    obtain rfl : rawKey = rawKey' := heq
    have hencode := (encodePubkey_iff_of_decoded h).mpr hstray
    have hencode' := (encodePubkey_iff_of_decoded h').mpr hstray'
    exact Except.ok.inj (hencode.symm.trans hencode')
  · intro rawKey hencode
    exact decodePubkey_encodePubkey hencode

/-- The digits of the key of 32 zero bytes, with `last` at the end. -/
def zeroDigits (last : Nat) : List Nat := 0 :: 16 :: 4 :: (List.replicate 42 0 ++ [last])

def zeroText (last : Nat) : String :=
  PUBKEY_PREFIX ++ String.ofList ((zeroDigits last).map BASE64URL_ALPHABET.char)

theorem spells_zeroText {last : Nat} (h : last < 64) : Spells (zeroText last) (zeroDigits last) := by
  refine ⟨_, String.toList_append, ?_⟩
  rw [String.toList_ofList]
  apply BASE64URL_ALPHABET.digits_map_char
  intro d hd
  simp only [zeroDigits, List.mem_cons, List.mem_append, List.mem_replicate, List.not_mem_nil,
    or_false] at hd
  omega

theorem decodePubkey_zeroText {last : Nat} (h : last < 16) : decodePubkey (zeroText last) =
    .ok ⟨List.replicate 32 0, WIRE_VERSION :: SUITE_X25519_AES256GCM :: List.replicate 32 0⟩ := by
  refine decodePubkey_eq_ok.mpr ⟨rfl, List.length_replicate, _, spells_zeroText (by omega), ?_⟩
  have hall : ∀ last < 16, octets (zeroDigits last) =
      WIRE_VERSION :: SUITE_X25519_AES256GCM :: List.replicate 32 0 := by decide
  exact hall last h

/-- One key under two strings, which differ in the last character. -/
theorem two_strings : ¬∀ s s' d d', decodePubkey s = .ok d → decodePubkey s' = .ok d' →
    d.rawKey = d'.rawKey → s = s' := by
  intro hall
  have heq : zeroText 0 = zeroText 1 := hall _ _ _ _ (decodePubkey_zeroText (by decide))
    (decodePubkey_zeroText (by decide)) rfl
  have hspells : Spells (zeroText 0) (zeroDigits 0) := spells_zeroText (by decide)
  have hspells' : Spells (zeroText 1) (zeroDigits 1) := spells_zeroText (by decide)
  rw [← heq] at hspells'
  exact absurd (hspells.unique hspells') (by decide)

end Aesmsg.Crypto
