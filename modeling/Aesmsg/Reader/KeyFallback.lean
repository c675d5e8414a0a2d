import Aesmsg.Lib.Traced
import Aesmsg.Reader.ReadBack

/-!
# Trying the keys

`decryptWithKeyFallback` of `apps/mobile/src/identity/decrypt-keys.ts` over `decryptOpenResponse`, as
`decryptHeld` of `apps/mobile/src/navigation/ReaderFlow.tsx` calls it: the active key and the retired
ones, in order.

## Main results

- `key_fallback`: the first key that matches what was sealed opens it, and no later one is tried.
- `fallback_propagates`: an error other than a `DecryptionError` ends the loop.
-/

namespace Aesmsg.Reader

open Store Crypto Client Traced

/-- What a reader does: the POST that consumes an open, and an attempt with a key. -/
inductive ReaderCall (κ : Type) where
  | fetchOpenResponse (id : LinkId)
  | attempt (key : κ)

/-- `err instanceof DecryptionError` -/
def OpenError.isDecryption : OpenError → Bool
  | .inl _ => false
  | .inr e => isDecryptionError e

section Fallback

variable {ω κ α : Type}

/-- The keys are tried in order, from a last error. -/
def Mobile.decryptWithKeyFallback (attempt : κ → Traced ω OpenError α) :
    List κ → OpenError → Traced ω OpenError α
  | [], lastError => quiet (.error lastError)
  | key :: keys, _ =>
    (attempt key).tryCatch fun err ↦
      if OpenError.isDecryption err then Mobile.decryptWithKeyFallback attempt keys err
      else quiet (.error err)

/-- An attempt throws a `DecryptionError`. -/
def Passed (x : Traced ω OpenError α) : Prop :=
  ∃ err, x.result = .error err ∧ OpenError.isDecryption err = true

variable {attempt : κ → Traced ω OpenError α}

theorem decryptWithKeyFallback_cons (attempt : κ → Traced ω OpenError α) (key : κ) (keys : List κ)
    (lastError : OpenError) : Mobile.decryptWithKeyFallback attempt (key :: keys) lastError =
      (attempt key).tryCatch fun err ↦
        if OpenError.isDecryption err then Mobile.decryptWithKeyFallback attempt keys err
        else quiet (.error err) := rfl

theorem fallback_cons {key : κ} (h : Passed (attempt key)) (keys : List κ) (lastError : OpenError) :
    ∃ err, OpenError.isDecryption err = true ∧
      Mobile.decryptWithKeyFallback attempt (key :: keys) lastError =
        ⟨(attempt key).log ++ (Mobile.decryptWithKeyFallback attempt keys err).log,
          (Mobile.decryptWithKeyFallback attempt keys err).result⟩ := by
  obtain ⟨err, herr, hdecryption⟩ := h
  refine ⟨err, hdecryption, ?_⟩
  rw [decryptWithKeyFallback_cons, tryCatch_of_error herr, if_pos hdecryption]

/-- A key whose attempt does not throw a `DecryptionError` is the last one that is tried. -/
theorem fallback_stop {key : κ} (h : ¬Passed (attempt key)) (keys : List κ) (lastError : OpenError) :
    Mobile.decryptWithKeyFallback attempt (key :: keys) lastError = attempt key := by
  rw [decryptWithKeyFallback_cons]
  cases hr : (attempt key).result with
  | ok value => exact tryCatch_of_ok hr _
  | error err =>
    have hnot : ¬OpenError.isDecryption err = true := fun hdecryption ↦ h ⟨err, hr, hdecryption⟩
    rw [tryCatch_of_error hr, if_neg hnot]
    show Traced.mk ((attempt key).log ++ []) (.error err) = attempt key
    rw [List.append_nil, ← hr]

/-- The keys before it are tried first. -/
theorem fallback_append {pre : List κ} (h : ∀ k ∈ pre, Passed (attempt k)) {key : κ}
    (hkey : ¬Passed (attempt key)) (post : List κ) (lastError : OpenError) :
    Mobile.decryptWithKeyFallback attempt (pre ++ key :: post) lastError =
      ⟨pre.flatMap (fun k ↦ (attempt k).log) ++ (attempt key).log, (attempt key).result⟩ := by
  induction pre generalizing lastError with
  | nil => exact fallback_stop hkey post lastError
  | cons k pre ih =>
    obtain ⟨hk, hrest⟩ := List.forall_mem_cons.mp h
    obtain ⟨err, -, heq⟩ := fallback_cons hk (pre ++ key :: post) lastError
    rw [List.cons_append, heq, ih hrest, List.flatMap_cons, List.append_assoc]

/-- Nothing happens but what the attempts do. -/
theorem mem_log_fallback {keys : List κ} {lastError : OpenError} {w : ω}
    (h : w ∈ (Mobile.decryptWithKeyFallback attempt keys lastError).log) :
    ∃ k ∈ keys, w ∈ (attempt k).log := by
  induction keys generalizing lastError with
  | nil => cases h
  | cons k keys ih =>
    by_cases hk : Passed (attempt k)
    · obtain ⟨err, -, heq⟩ := fallback_cons hk keys lastError
      rw [heq] at h
      rcases List.mem_append.mp h with h | h
      · exact ⟨k, List.mem_cons_self, h⟩
      · obtain ⟨k', hk', hw⟩ := ih h
        exact ⟨k', List.mem_cons_of_mem _ hk', hw⟩
    · rw [fallback_stop hk] at h
      exact ⟨k, List.mem_cons_self, h⟩

/-- An error of another kind is thrown at once. -/
theorem fallback_propagates {pre : List κ} (h : ∀ k ∈ pre, Passed (attempt k)) {key : κ}
    {err : OpenError} (herr : (attempt key).result = .error err)
    (hother : OpenError.isDecryption err = false) (post : List κ) (lastError : OpenError) :
    (Mobile.decryptWithKeyFallback attempt (pre ++ key :: post) lastError).result = .error err := by
  have hkey : ¬Passed (attempt key) := by
    rintro ⟨err', herr', hdecryption⟩
    obtain rfl : err = err' := Except.error.inj (herr.symm.trans herr')
    rw [hother] at hdecryption
    cases hdecryption
  rw [fallback_append h hkey]
  exact herr

/-- Where every attempt throws a `DecryptionError`, so does the last one. -/
theorem fallback_none {keys : List κ} (h : ∀ k ∈ keys, Passed (attempt k)) {lastError : OpenError}
    (hlast : OpenError.isDecryption lastError = true) :
    (Mobile.decryptWithKeyFallback attempt keys lastError).log =
        keys.flatMap (fun k ↦ (attempt k).log) ∧
      Passed (Mobile.decryptWithKeyFallback attempt keys lastError) := by
  induction keys generalizing lastError with
  | nil => exact ⟨rfl, lastError, rfl, hlast⟩
  | cons k keys ih =>
    obtain ⟨hk, hrest⟩ := List.forall_mem_cons.mp h
    obtain ⟨err, herr, heq⟩ := fallback_cons hk keys lastError
    obtain ⟨hlog, hpassed⟩ := ih hrest herr
    rw [heq]
    refine ⟨?_, hpassed⟩
    rw [hlog, List.flatMap_cons]

end Fallback

variable (H : Hpke) (otherDate : String → Option Instant)

/-- What `decryptHeld` tries with a key. -/
def Mobile.attempt (response : OpenMessageResponse) (id : LinkId) (key : IdentityKeypair H) :
    Traced (ReaderCall (IdentityKeypair H)) OpenError FetchAndOpenOutput :=
  access (.attempt key) ((Mobile.decryptOpenResponse H otherDate response key id).mapError .inr)

/-- The call of `decryptHeld`. -/
def Mobile.decryptHeld (response : OpenMessageResponse) (id : LinkId)
    (keys : List (IdentityKeypair H)) :
    Traced (ReaderCall (IdentityKeypair H)) OpenError FetchAndOpenOutput :=
  Mobile.decryptWithKeyFallback (Mobile.attempt H otherDate response id) keys (.inr decryptionError)

/-- A fresh open: the POST, and what follows it. -/
def Mobile.openAndDecrypt (fetch : Fetch) (id : LinkId) (keys : List (IdentityKeypair H)) :
    Traced (ReaderCall (IdentityKeypair H)) OpenError FetchAndOpenOutput := do
  let response ← access (.fetchOpenResponse id) ((openMessage .mobile fetch).mapError .inl)
  Mobile.decryptHeld H otherDate response id keys

/-! ## Keys that match -/

/-- The response carries what was sealed for a recipient under a context. -/
def Sealed (plaintext : List UInt8) (recipient : RecipientPublicKey H)
    (context : MessageBindingContext) (response : OpenMessageResponse) : Prop :=
  ∃ seed blob, «seal» H plaintext recipient context seed = .ok blob ∧
    response.ciphertext = Base64.btoa blob

/-- The key and the associated data that is rebuilt with it are those of the seal. -/
structure Matches (recipient : RecipientPublicKey H) (context : MessageBindingContext)
    (response : OpenMessageResponse) (id : LinkId) (key : IdentityKeypair H) : Prop where
  privateKey : H.publicKeyRaw key.privateKey = H.exportRawPublicKey recipient.cryptoKey
  aad : encodeAad H (Mobile.bindingContext otherDate response id (exportPublicKey H key)) =
    encodeAad H context

/-- The output is what the key makes of the plaintext and of the response. -/
structure Reveals (plaintext : List UInt8) (response : OpenMessageResponse)
    (key : IdentityKeypair H) (out : FetchAndOpenOutput) : Prop where
  text : out.text = (decodePayload plaintext).text
  attachments : out.attachments = (decodePayload plaintext).attachments
  fingerprint : fingerprint H (exportPublicKey H key) = .ok out.recipientFingerprint
  opensCount : out.opensCount = response.opensCount
  maxOpens : out.maxOpens = response.maxOpens
  status : out.status = response.status

section Sealed

variable {H otherDate} {plaintext : List UInt8} {recipient : RecipientPublicKey H}
  {context : MessageBindingContext} {response : OpenMessageResponse} {id : LinkId}
  {key : IdentityKeypair H}

/-- A matching key decrypts the response. -/
theorem Matches.decrypts (hH : H.Lawful) (hsealed : Sealed H plaintext recipient context response)
    (h : Matches H otherDate recipient context response id key) :
    ∃ out, Mobile.decryptOpenResponse H otherDate response key id = .ok out ∧
      Reveals H plaintext response key out := by
  obtain ⟨seed, blob, hseal, hciphertext⟩ := hsealed
  have hopen := open_seal hH hseal h.privateKey h.aad
  obtain ⟨aad, haad⟩ := aad_of_open hopen
  obtain ⟨recipHash, haccepted, -⟩ := encodeAad_eq_ok haad
  obtain ⟨d, -, hd, -, -⟩ := (hashRecipientPubkey_eq_ok hH).mp haccepted.hash
  obtain ⟨fp, hfp⟩ := fingerprint_eq_ok H hd
  have hfp' : Crypto.fingerprint H (exportPublicKey H key) = .ok fp := hfp
  unfold Mobile.decryptOpenResponse
  rw [hciphertext, Mobile.base64ToBytes_btoa, Result.ok_bind]
  dsimp only
  rw [hopen, Result.ok_bind, hfp', Result.ok_bind]
  exact ⟨_, rfl, rfl, rfl, hfp', rfl, rfl, rfl⟩

/-- Any other key fails with a `DecryptionError`. -/
theorem decryptOpenResponse_of_not_matches (hH : H.Lawful)
    (hsealed : Sealed H plaintext recipient context response)
    (h : ¬Matches H otherDate recipient context response id key) :
    Mobile.decryptOpenResponse H otherDate response key id = .error decryptionError := by
  obtain ⟨seed, blob, hseal, hciphertext⟩ := hsealed
  unfold Mobile.decryptOpenResponse
  rw [hciphertext, Mobile.base64ToBytes_btoa, Result.ok_bind]
  dsimp only
  rcases open_eq_error_or_ok blob key
    (Mobile.bindingContext otherDate response id (exportPublicKey H key)) with hfail | ⟨opened, hopen⟩
  · rw [hfail]
    rfl
  · exact absurd ⟨key_of_open_seal hH hseal hopen, (encodeAad_eq_of_open_seal hH hseal hopen).symm⟩ h

theorem Matches.attempt (hH : H.Lawful) (hsealed : Sealed H plaintext recipient context response)
    (h : Matches H otherDate recipient context response id key) :
    ∃ out, Mobile.attempt H otherDate response id key = ⟨[.attempt key], .ok out⟩ ∧
      Reveals H plaintext response key out := by
  obtain ⟨out, hout, hreveals⟩ := h.decrypts hH hsealed
  refine ⟨out, ?_, hreveals⟩
  unfold Mobile.attempt
  rw [hout]
  rfl

theorem passed_of_not_matches (hH : H.Lawful)
    (hsealed : Sealed H plaintext recipient context response)
    (h : ¬Matches H otherDate recipient context response id key) :
    Passed (Mobile.attempt H otherDate response id key) := by
  unfold Mobile.attempt
  rw [decryptOpenResponse_of_not_matches hH hsealed h]
  exact ⟨_, rfl, rfl⟩

/-- The recipient's key matches what was sealed under the metadata of the response. -/
theorem Holds.matches {pk : String} (h : Holds H key pk) (hH : H.Lawful)
    (himported : importPublicKey H pk = .ok recipient) :
    Matches H otherDate recipient (Mobile.bindingContext otherDate response id pk) response id key := by
  constructor
  · exact h.exported hH himported
  · exact encodeAad_congr (c := Mobile.bindingContext otherDate response id pk) h.hash

end Sealed

/-! ## The reader -/

/-- The log of an attempt is the attempt. -/
theorem flatMap_attempt (response : OpenMessageResponse) (id : LinkId)
    (keys : List (IdentityKeypair H)) :
    keys.flatMap (fun k ↦ (Mobile.attempt H otherDate response id k).log) =
      keys.map ReaderCall.attempt := by
  show keys.flatMap (fun k ↦ [ReaderCall.attempt k]) = _
  exact List.flatMap_pure_eq_map ReaderCall.attempt keys

theorem mem_log_decryptHeld {response : OpenMessageResponse} {id : LinkId}
    {keys : List (IdentityKeypair H)} {call : ReaderCall (IdentityKeypair H)}
    (h : call ∈ (Mobile.decryptHeld H otherDate response id keys).log) :
    ∃ key ∈ keys, call = .attempt key := by
  obtain ⟨key, hkey, hcall⟩ := mem_log_fallback h
  exact ⟨key, hkey, List.mem_singleton.mp hcall⟩

/-- What `decryptHeld` makes of a response that carries a sealed message, with these keys. -/
structure FallsBack (plaintext : List UInt8) (recipient : RecipientPublicKey H)
    (context : MessageBindingContext) (response : OpenMessageResponse) (id : LinkId)
    (keys : List (IdentityKeypair H)) : Prop where
  /-- The first key that matches is the last that is tried, and reveals the message. -/
  first : ∀ pre key post, keys = pre ++ key :: post →
    (∀ k ∈ pre, ¬Matches H otherDate recipient context response id k) →
    Matches H otherDate recipient context response id key →
      ∃ out, Mobile.decryptHeld H otherDate response id keys =
        ⟨(pre ++ [key]).map .attempt, .ok out⟩ ∧ Reveals H plaintext response key out
  /-- Where no key matches, all are tried and a `DecryptionError` is thrown. -/
  none : (∀ key ∈ keys, ¬Matches H otherDate recipient context response id key) →
    (Mobile.decryptHeld H otherDate response id keys).log = keys.map .attempt ∧
      Passed (Mobile.decryptHeld H otherDate response id keys)
  /-- Wherever the recipient's key is among the keys, the message is revealed. -/
  recipient : ∀ pk, importPublicKey H pk = .ok recipient →
    context = Mobile.bindingContext otherDate response id pk → ∀ key ∈ keys, Holds H key pk →
      ∃ key' ∈ keys, ∃ out, (Mobile.decryptHeld H otherDate response id keys).result = .ok out ∧
        Reveals H plaintext response key' out

/-- The keys split at the first one that matches. -/
theorem exists_first {κ : Type} {P : κ → Prop} {keys : List κ} {key : κ} (hmem : key ∈ keys)
    (hkey : P key) : ∃ pre key' post, keys = pre ++ key' :: post ∧ (∀ k ∈ pre, ¬P k) ∧ P key' := by
  induction keys with
  | nil => cases hmem
  | cons k keys ih =>
    by_cases hk : P k
    · exact ⟨[], k, keys, rfl, fun _ h ↦ absurd h List.not_mem_nil, hk⟩
    · rcases List.mem_cons.mp hmem with rfl | hmem
      · exact absurd hkey hk
      · obtain ⟨pre, key', post, rfl, hpre, hkey'⟩ := ih hmem
        exact ⟨k :: pre, key', post, rfl, List.forall_mem_cons.mpr ⟨hk, hpre⟩, hkey'⟩

variable {H otherDate}

theorem decryptHeld_first (hH : H.Lawful) {plaintext : List UInt8} {recipient : RecipientPublicKey H}
    {context : MessageBindingContext} {response : OpenMessageResponse} {id : LinkId}
    (hsealed : Sealed H plaintext recipient context response) {pre : List (IdentityKeypair H)}
    {key : IdentityKeypair H}
    (hpre : ∀ k ∈ pre, ¬Matches H otherDate recipient context response id k)
    (hkey : Matches H otherDate recipient context response id key) (post : List (IdentityKeypair H)) :
    ∃ out, Mobile.decryptHeld H otherDate response id (pre ++ key :: post) =
      ⟨(pre ++ [key]).map .attempt, .ok out⟩ ∧ Reveals H plaintext response key out := by
  obtain ⟨out, hout, hreveals⟩ := hkey.attempt hH hsealed
  refine ⟨out, ?_, hreveals⟩
  have hstop : ¬Passed (Mobile.attempt H otherDate response id key) := by
    rintro ⟨err, herr, -⟩
    rw [hout] at herr
    cases herr
  unfold Mobile.decryptHeld
  rw [fallback_append (fun k hk ↦ passed_of_not_matches hH hsealed (hpre k hk)) hstop,
    flatMap_attempt, hout, List.map_append]
  rfl

/-- For every list of keys: the first key that matches what was sealed reveals it, whatever its
position, and no later one is tried; without one a `DecryptionError` is thrown; any other error of an
attempt is thrown as it is; and an open makes one request, before the first attempt. -/
theorem key_fallback (hH : H.Lawful) {plaintext : List UInt8} {recipient : RecipientPublicKey H}
    {context : MessageBindingContext} {response : OpenMessageResponse}
    (hsealed : Sealed H plaintext recipient context response) (id : LinkId)
    (keys : List (IdentityKeypair H)) :
    FallsBack H otherDate plaintext recipient context response id keys ∧
    (∀ call ∈ (Mobile.decryptHeld H otherDate response id keys).log, ∃ key ∈ keys,
      call = .attempt key) ∧
    (∀ (κ α ω : Type) (attempt : κ → Traced ω OpenError α) pre key post lastError err,
      (∀ k ∈ pre, Passed (attempt k)) → (attempt key).result = .error err →
      OpenError.isDecryption err = false →
        (Mobile.decryptWithKeyFallback attempt (pre ++ key :: post) lastError).result = .error err) ∧
    ∀ fetch, ∃ attempts, (Mobile.openAndDecrypt H otherDate fetch id keys).log =
      .fetchOpenResponse id :: attempts ∧ ∀ call ∈ attempts, ∃ key ∈ keys, call = .attempt key := by
  refine ⟨⟨?_, ?_, ?_⟩, ?_, ?_, ?_⟩
  · rintro pre key post rfl hpre hkey
    exact decryptHeld_first hH hsealed hpre hkey post
  · intro hnone
    rw [← flatMap_attempt H otherDate response id]
    exact fallback_none (fun k hk ↦ passed_of_not_matches hH hsealed (hnone k hk)) rfl
  · rintro pk himported rfl key hmem hkey
    obtain ⟨pre, key', post, rfl, hpre, hkey'⟩ := exists_first hmem (hkey.matches hH himported)
    obtain ⟨out, hout, hreveals⟩ := decryptHeld_first hH hsealed hpre hkey' post
    refine ⟨key', List.mem_append_right _ List.mem_cons_self, out, ?_, hreveals⟩
    rw [hout]
  · intro call hcall
    exact mem_log_decryptHeld H otherDate hcall
  · intro κ α ω attempt pre key post lastError err hpre herr hother
    exact fallback_propagates hpre herr hother post lastError
  · intro fetch
    show ∃ attempts, (Traced.bind _ _).log = _ ∧ _
    unfold Traced.bind
    split
    · rename_i response' _
      exact ⟨_, rfl, fun call hcall ↦ mem_log_decryptHeld H otherDate hcall⟩
    · exact ⟨[], rfl, fun call hcall ↦ absurd hcall List.not_mem_nil⟩

/-! ## A retired key -/

/-- A link that may be opened once. -/
def onceResponse (blob : List UInt8) : OpenMessageResponse where
  ciphertext := Base64.btoa blob
  createdAt := none
  expiresAt := "2026-05-11T12:00:00.000Z"
  opensCount := .int 1
  maxOpens := .int 1
  status := .active

/-- The active key is passed over, and the retired one reveals the message. -/
theorem key_fallback_retired : ∃ blob out,
    Mobile.decryptHeld Hpke.transparent (fun _ ↦ none) (onceResponse blob) "AAAAAAAAAAAAAAAA"
      [repeatedKey 1, repeatedKey 0] = ⟨[.attempt (repeatedKey 1), .attempt (repeatedKey 0)], .ok out⟩ ∧
    Reveals Hpke.transparent [104, 105] (onceResponse blob) (repeatedKey 0) out := by
  let recipient : RecipientPublicKey Hpke.transparent :=
    ⟨List.replicate RAW_X25519_PUBKEY_LEN 0, List.replicate RAW_X25519_PUBKEY_LEN 0⟩
  let context := Mobile.bindingContext (fun _ ↦ none) (onceResponse []) "AAAAAAAAAAAAAAAA"
    (repeatedKey 0).publicKeyString
  obtain ⟨blob, hblob⟩ := Result.exists_eq_ok
    (x := «seal» Hpke.transparent [104, 105] recipient context ()) (by decide +kernel)
  have himported : importPublicKey Hpke.transparent (repeatedKey 0).publicKeyString =
      .ok recipient := by
    unfold importPublicKey
    rw [decodePubkey_encodePubkey (repeatedKey_wellFormed 0)]
    rfl
  have hfalls : FallsBack Hpke.transparent (fun _ ↦ none) [104, 105] recipient context
      (onceResponse blob) "AAAAAAAAAAAAAAAA" [repeatedKey 1, repeatedKey 0] :=
    (key_fallback Hpke.transparent_lawful ⟨(), blob, hblob, rfl⟩ _ _).1
  have hmatches : Matches Hpke.transparent (fun _ ↦ none) recipient context (onceResponse blob)
      "AAAAAAAAAAAAAAAA" (repeatedKey 0) := by
    show Matches _ _ _ (Mobile.bindingContext _ (onceResponse blob) _ _) _ _ _
    exact (repeatedKey_holds 0).matches Hpke.transparent_lawful himported
  have hother : ¬Matches Hpke.transparent (fun _ ↦ none) recipient context (onceResponse blob)
      "AAAAAAAAAAAAAAAA" (repeatedKey 1) := by
    intro h
    have hkey : List.replicate 32 (1 : UInt8) = List.replicate 32 0 := h.privateKey
    exact absurd hkey (by decide)
  refine ⟨blob, ?_⟩
  apply hfalls.first [repeatedKey 1] (repeatedKey 0) [] rfl
  · intro k hk
    rw [List.mem_singleton.mp hk]
    exact hother
  · exact hmatches

end Aesmsg.Reader
