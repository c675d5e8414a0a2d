import Aesmsg.Api.Handlers
import Aesmsg.Crypto.Binding
import Aesmsg.Reader.Decrypt
import Aesmsg.Server.Contents

/-!
# What is sealed is read back

A message goes from `createAndSeal` through the server to a reader.  The context that the reader
rebuilds from the answer to its open is the one that was sealed under.

## Main results

- `read_back`: both readers read back what was sealed, over both stores.
-/

namespace Aesmsg.Reader

open Store Crypto Client Threads Server

/-! ## The answer to an open -/

/-- What both clients make of the answer to an open. -/
def responseOf (b : List UInt8) (row : LinkMetadata) : OpenMessageResponse where
  ciphertext := Base64.btoa b
  createdAt := row.createdAt.map Calendar.toISOString
  expiresAt := Calendar.toISOString row.expiresAt
  opensCount := .int row.opensCount
  maxOpens := .int row.maxOpens
  status := row.status

theorem btoa_ne_empty {b : List UInt8} (h : b ≠ []) : Base64.btoa b ≠ "" := by
  intro heq
  have hread := Base64.atob_btoa b
  rw [heq] at hread
  cases hread
  exact h rfl

section Validate

variable {b : List UInt8} {row : LinkMetadata}

theorem nonEmpty?_btoa (h : b ≠ []) :
    nonEmpty? (.string (Base64.btoa b)) = some (Base64.btoa b) :=
  Option.filter_eq_some_iff.mpr ⟨rfl, decide_eq_true (btoa_ne_empty h)⟩

theorem asStringOrNull?_isoDate (date : Option Instant) :
    Json.asStringOrNull? (date.elim .null Api.isoDate) = some (date.map Calendar.toISOString) := by
  cases date with
  | none => rfl
  | some t => rfl

theorem knownStatus?_statusText (status : LinkStatus) :
    knownStatus? (.string (Api.statusText status)) = some status := by
  cases status with
  | active => rfl
  | revoked => rfl
  | expired => rfl

/-- Both clients accept the answer. -/
theorem openMessage_delivered (h : b ≠ []) (platform : Platform) :
    openMessage platform (.response (Api.Response.delivered b row).render.status
      (some (Api.Response.delivered b row).render.body)) = .ok (responseOf b row) := by
  have hciphertext : ∀ detail, checkField (Api.Response.delivered b row).render.body "ciphertext"
      nonEmpty? detail = .ok (Base64.btoa b) := checkField_eq_ok rfl (nonEmpty?_btoa h)
  have hcreated : ∀ detail, checkField (Api.Response.delivered b row).render.body "createdAt"
      Json.asStringOrNull? detail = .ok (row.createdAt.map Calendar.toISOString) :=
    checkField_eq_ok rfl (asStringOrNull?_isoDate row.createdAt)
  have hstatus : ∀ detail, checkField (Api.Response.delivered b row).render.body "status"
      knownStatus? detail = .ok row.status := checkField_eq_ok rfl (knownStatus?_statusText row.status)
  rw [openMessage_response]
  cases platform with
  | mobile =>
    change Mobile.validateOpenMessageResponse (Api.Response.delivered b row).render.body = _
    unfold Mobile.validateOpenMessageResponse
    rw [hciphertext, hcreated, hstatus]
    rfl
  | web =>
    change Web.validateOpenMessageResponse (Api.Response.delivered b row).render.body = _
    unfold Web.validateOpenMessageResponse
    rw [hciphertext, hcreated, hstatus]
    rfl

end Validate

/-! ## Contexts -/

variable {H : Hpke}

/-- The identity holds the private key of a public key string. -/
structure Holds (H : Hpke) (identity : IdentityKeypair H) (pk : String) : Prop where
  wellFormed : identity.WellFormed
  key : ∃ d, decodePubkey pk = .ok d ∧ d.rawKey = H.publicKeyRaw identity.privateKey

theorem Holds.hash {identity : IdentityKeypair H} {pk : String} (h : Holds H identity pk) :
    hashRecipientPubkey H (exportPublicKey H identity) = hashRecipientPubkey H pk := by
  obtain ⟨d, hd, hkey⟩ := h.key
  have hown : decodePubkey (exportPublicKey H identity) = _ := decodePubkey_encodePubkey h.wellFormed
  unfold hashRecipientPubkey
  rw [hown, hd, Result.ok_bind, Result.ok_bind, hkey]

/-- Its private key is that of the imported public key. -/
theorem Holds.exported {identity : IdentityKeypair H} {pk : String} (h : Holds H identity pk)
    (hH : H.Lawful) {recipient : RecipientPublicKey H}
    (himported : importPublicKey H pk = .ok recipient) :
    H.publicKeyRaw identity.privateKey = H.exportRawPublicKey recipient.cryptoKey := by
  obtain ⟨d, hd, hraw⟩ := h.key
  simp only [importPublicKey, hd, Result.ok_bind, Result.bind_eq_ok] at himported
  obtain ⟨cryptoKey, hcrypto, heq⟩ := himported
  rw [← Except.ok.inj heq, hH.export_import hcrypto, hraw]

/-- The associated data depends on the recipient's hash alone. -/
theorem encodeAad_congr {c : MessageBindingContext} {pk : String}
    (h : hashRecipientPubkey H pk = hashRecipientPubkey H c.recipientPublicKey) :
    encodeAad H { c with recipientPublicKey := pk } = encodeAad H c := by
  unfold encodeAad
  rw [h]

/-- The row is the one that was made of the request. -/
structure RowOf (input : CreateAndSealInput) (row : LinkMetadata) : Prop where
  createdAt : row.createdAt = none
  expiresAt : ∃ date, input.expiresAt = some date ∧ row.expiresAt = date.time
  maxOpens : input.maxOpens = .int row.maxOpens

section Contexts

variable {otherDate : String → Option Instant} {input : CreateAndSealInput} {row : LinkMetadata}
  {b : List UInt8}

theorem RowOf.dateTime (h : RowOf input row) :
    dateTime otherDate (responseOf b row).expiresAt = getTime (input.expiresAt.map (·.time)) := by
  obtain ⟨date, hdate, hrow⟩ := h.expiresAt
  have hparse := Api.parseDate_toISOString otherDate date
  unfold Reader.dateTime responseOf
  rw [hrow, hparse, hdate]
  rfl

/-- The mobile reader rebuilds the context of the sender, but for the text of the key. -/
theorem RowOf.mobile (h : RowOf input row) (id ownPublicKey : String) :
    Mobile.bindingContext otherDate (responseOf b row) id ownPublicKey =
      { input.context id with recipientPublicKey := ownPublicKey } := by
  unfold Mobile.bindingContext
  rw [h.dateTime]
  unfold CreateAndSealInput.context responseOf
  rw [h.createdAt, h.maxOpens]
  rfl

/-- So does the web reader. -/
theorem RowOf.web (h : RowOf input row) (id ownPublicKey : String) :
    Web.bindingContext id (Reader.dateTime otherDate (responseOf b row).expiresAt)
        ((responseOf b row).createdAt.map (Reader.dateTime otherDate)) (responseOf b row).maxOpens
        ownPublicKey =
      { input.context id with recipientPublicKey := ownPublicKey } :=
  h.mobile id ownPublicKey

end Contexts

/-! ## Reading -/

/-- The output shows what was sealed. -/
structure Shows (input : CreateAndSealInput) (row : LinkMetadata) (out : FetchAndOpenOutput) :
    Prop where
  text : out.text = (transcode input.payload).text
  attachments : out.attachments = (transcode input.payload).attachments
  opensCount : out.opensCount = .int row.opensCount
  maxOpens : out.maxOpens = .int row.maxOpens
  status : out.status = row.status

/-- What readers with the recipient's key make of an answer: they rebuild the associated data that
was sealed, and show the message. -/
structure ReadBack (H : Hpke) (otherDate : String → Option Instant) (input : CreateAndSealInput)
    (id : LinkId) (answer : Api.HttpResponse) (row : LinkMetadata) (identity : IdentityKeypair H) :
    Prop where
  rebuilt : ∃ response aad,
    (∀ platform, openMessage platform (.response answer.status (some answer.body)) = .ok response) ∧
    encodeAad H (input.context id) = .ok aad ∧
    encodeAad H (Mobile.bindingContext otherDate response id (exportPublicKey H identity)) = .ok aad ∧
    encodeAad H (Web.bindingContext id (dateTime otherDate response.expiresAt)
      (response.createdAt.map (dateTime otherDate)) response.maxOpens
      (exportPublicKey H identity)) = .ok aad
  mobile : ∃ out, Mobile.fetchAndOpen H otherDate (.response answer.status (some answer.body))
    identity id = .ok out ∧ Shows input row out
  /-- Whatever other keys the web reader has, and wherever the key is among them. -/
  web : ∀ keys, identity ∈ keys → ∃ out, Web.openAndDecrypt H otherDate
    (.response answer.status (some answer.body)) id keys = .ok out ∧ Shows input row out

section Reading

variable {otherDate : String → Option Instant} {input : CreateAndSealInput} {row : LinkMetadata}
  {b plaintext : List UInt8} {recipient : RecipientPublicKey H} {seed : H.Seed} {id : LinkId}
  {identity : IdentityKeypair H}

/-- The recipient's key opens what was sealed under the rebuilt context. -/
theorem open_rebuilt (hH : H.Lawful)
    (himported : importPublicKey H input.recipientPublicKeyString = .ok recipient)
    (hseal : «seal» H plaintext recipient (input.context id) seed = .ok b)
    (hkey : Holds H identity input.recipientPublicKeyString) :
    «open» H b identity { input.context id with
      recipientPublicKey := exportPublicKey H identity } = .ok plaintext :=
  open_seal hH hseal (hkey.exported hH himported) (encodeAad_congr hkey.hash)

/-- A key of the web reader reads the message, or is passed over. -/
theorem attempt_cases (hH : H.Lawful) (hencoded : encodePayload input.payload = .ok plaintext)
    (hseal : «seal» H plaintext recipient (input.context id) seed = .ok b) (expiresAtMs : JsNumber)
    (createdAtMs : Option JsNumber) (maxOpens : JsNumber) (key : IdentityKeypair H) :
    (∃ value, Web.attempt H id b expiresAtMs createdAtMs maxOpens key = .ok value ∧
      value.1 = transcode input.payload) ∨
    ∃ err, Web.attempt H id b expiresAtMs createdAtMs maxOpens key = .error err ∧
      isDecryptionError err = true := by
  unfold Web.attempt
  dsimp only
  rcases open_eq_error_or_ok b key
    (Web.bindingContext id expiresAtMs createdAtMs maxOpens (exportPublicKey H key)) with
    hfail | ⟨opened, hopen⟩
  · rw [hfail]
    exact .inr ⟨_, rfl, rfl⟩
  · obtain rfl := eq_of_open_seal hH hseal hopen
    obtain ⟨aad, haad⟩ := aad_of_open hopen
    obtain ⟨recipHash, haccepted, -⟩ := encodeAad_eq_ok haad
    obtain ⟨d, -, hd, -, -⟩ := (hashRecipientPubkey_eq_ok hH).mp haccepted.hash
    obtain ⟨fp, hfp⟩ := fingerprint_eq_ok H hd
    have hfp' : fingerprint H (exportPublicKey H key) = .ok fp := hfp
    rw [hopen, Result.ok_bind, hfp', Result.ok_bind]
    exact .inl ⟨_, rfl, decodePayload_encode hencoded⟩

theorem readBack (hH : H.Lawful)
    (himported : importPublicKey H input.recipientPublicKeyString = .ok recipient)
    (hencoded : encodePayload input.payload = .ok plaintext)
    (hseal : «seal» H plaintext recipient (input.context id) seed = .ok b) (hb : b ≠ [])
    (hrow : RowOf input row) (hkey : Holds H identity input.recipientPublicKeyString) :
    ReadBack H otherDate input id (Api.Response.delivered b row).render row identity := by
  have hopen := open_rebuilt hH himported hseal hkey
  have hown : decodePubkey (exportPublicKey H identity) = _ :=
    decodePubkey_encodePubkey hkey.wellFormed
  obtain ⟨fp, hfp⟩ := fingerprint_eq_ok H hown
  have hpayload := decodePayload_encode hencoded
  obtain ⟨aad, haad⟩ : ∃ aad, encodeAad H (input.context id) = .ok aad := by
    simp only [«seal», Result.bind_eq_ok] at hseal
    obtain ⟨_, -, _, -, aad, haad, -⟩ := hseal
    exact ⟨aad, haad⟩
  have hrebuilt : encodeAad H { input.context id with
      recipientPublicKey := exportPublicKey H identity } = .ok aad :=
    (encodeAad_congr (c := input.context id) hkey.hash).trans haad
  refine ⟨⟨responseOf b row, aad, openMessage_delivered hb, haad, ?_, ?_⟩, ?_, ?_⟩
  · rw [hrow.mobile]
    exact hrebuilt
  · rw [hrow.web]
    exact hrebuilt
  · have hciphertext : Mobile.base64ToBytes (responseOf b row).ciphertext = .ok b :=
      Mobile.base64ToBytes_btoa b
    have hdecrypt : ∃ out, Mobile.decryptOpenResponse H otherDate (responseOf b row) identity id =
        .ok out ∧ Shows input row out := by
      unfold Mobile.decryptOpenResponse
      dsimp only
      rw [hrow.mobile, hciphertext, Result.ok_bind, hopen, Result.ok_bind, hfp, Result.ok_bind,
        hpayload]
      exact ⟨_, rfl, rfl, rfl, rfl, rfl, rfl⟩
    obtain ⟨out, hout, hshows⟩ := hdecrypt
    exact ⟨out, Mobile.fetchAndOpen_eq_ok (openMessage_delivered hb .mobile) hout, hshows⟩
  · intro keys hmem
    have hattempt : ∃ value, Web.attempt H id b (dateTime otherDate (responseOf b row).expiresAt)
        ((responseOf b row).createdAt.map (dateTime otherDate)) (responseOf b row).maxOpens identity =
          .ok value := by
      unfold Web.attempt
      dsimp only
      rw [hrow.web, hopen, Result.ok_bind, hfp]
      exact ⟨_, rfl⟩
    obtain ⟨value, hvalue, hshown⟩ := Web.decryptWithKeyFallback_eq_ok
      (P := fun value ↦ value.1 = transcode input.payload) hmem hattempt
      (fun k _ ↦ attempt_cases hH hencoded hseal _ _ _ k) decryptionError
    have hciphertext : Web.base64ToBytes (responseOf b row).ciphertext = .ok b :=
      Web.base64ToBytes_btoa b
    have hdecrypt : ∃ out, Web.decrypt H otherDate (responseOf b row) id keys = .ok out ∧
        Shows input row out := by
      unfold Web.decrypt
      rw [hciphertext, Result.ok_bind]
      dsimp only
      rw [hvalue, Result.ok_bind]
      exact ⟨_, rfl, congrArg Payload.text hshown, congrArg Payload.attachments hshown, rfl, rfl, rfl⟩
    obtain ⟨out, hout, hshows⟩ := hdecrypt
    exact ⟨out, Web.openAndDecrypt_eq_ok (openMessage_delivered hb .web) hout, hshows⟩

end Reading

/-! ## Through the server -/

/-- What is delivered of a created link is the row and the ciphertext of its request. -/
theorem rowOf_delivered {cfg : Api.CreateConfig} {input : CreateAndSealInput}
    {seed : H.Seed} {request : CreateMessageRequest} {recipient : RecipientPublicKey H}
    {plaintext ciphertext : List UInt8} {expiresAt : Calendar.Date} {length : Nat} {now : Instant}
    {draft : Api.Draft} {revocationTokenHash : String} {row : LinkMetadata}
    (hposts : Posts H input seed request recipient plaintext ciphertext expiresAt)
    (hdraft : Api.createDraft cfg ⟨length, some request.json⟩ now = some draft)
    (hcopy : CopyOf (draft.record revocationTokenHash) row) :
    draft.blob = ciphertext ∧ ciphertext ≠ [] ∧ RowOf input row := by
  obtain ⟨body, hbody, hreads⟩ := Api.createDraft_reads hdraft
  obtain rfl : (⟨request.id, request.ciphertext, request.expiresAt, request.maxOpens⟩ :
    Api.RequestBody) = body := Option.some.inj hbody
  have hblob : Api.decodeBase64 request.ciphertext = some draft.blob := hreads.blob
  rw [hposts.ciphertext, Api.decodeBase64_btoa] at hblob
  have hdate : Api.parseDate cfg.otherDate request.expiresAt = some draft.expiresAt :=
    hreads.expiresAt
  rw [hposts.expiresAt, Api.parseDate_toISOString] at hdate
  have hmax : request.maxOpens = .int draft.maxOpens := hreads.maxOpens
  rw [hposts.maxOpens] at hmax
  have hlength := hreads.length
  rw [← Option.some.inj hblob] at hlength ⊢
  refine ⟨rfl, ?_, ?_⟩
  · rintro rfl
    cases hlength
  · unfold CopyOf at hcopy
    rw [hcopy]
    exact ⟨rfl, ⟨expiresAt, hposts.date, (Option.some.inj hdate).symm⟩, hmax⟩

/-- Whatever is opened of a link that `createAndSeal` has posted is read back by the recipient. -/
def ReadsBack {χ P σ : Type} (M : Program Request χ P σ Event) (s₀ : σ) : Prop :=
  ∀ H : Hpke, H.Lawful → ∀ cfg otherDate input random seed request length c i j b row identity,
    createAndSeal H input random seed = .ok request →
    M.Serves .always s₀ i (.postMessages (Api.createDraft cfg ⟨length, some request.json⟩)) c →
    OnlyCreate i request.id c.trace → Opens M s₀ c j request.id b row →
    Holds H identity input.recipientPublicKeyString →
      ReadBack H otherDate input request.id (Api.Response.delivered b row).render row identity

theorem readsBack {χ P σ : Type} {env : Api.Env} {M : Program Request χ P σ Event}
    {links : σ → Links} {stage : P → Stage} {inv : σ → Prop} {s₀ : σ}
    (h : LinkServer env M links stage inv) (hempty : links s₀ = fun _ ↦ Link.vacant) (hinv : inv s₀)
    (hM : Obeys M s₀) : ReadsBack M s₀ := by
  intro H hH cfg otherDate input random seed request length c i j b row identity hrequest hi honly hj
    hkey
  obtain ⟨recipient, plaintext, ciphertext, expiresAt, hposts⟩ := createAndSeal_posts hrequest
  obtain ⟨now, draft, hash, hdraft, -, rfl, hcopy⟩ := h.delivered_draft hempty hinv hM hi honly hj
  obtain ⟨rfl, hne, hrow⟩ := rowOf_delivered hposts hdraft hcopy
  exact readBack hH hposts.imported hposts.encoded hposts.isSealed hne hrow hkey

/-- The recipient reads back what was sealed, over both stores. -/
theorem read_back (env : Api.Env) :
    ReadsBack (Server.Memory.program env) MemoryStore.empty ∧
      ReadsBack (Server.Postgres.program env) Server.Postgres.State.initial := by
  constructor
  · exact readsBack (Server.Memory.linkServer env) rfl trivial (Server.Memory.obeys env)
  · exact readsBack (Server.Postgres.linkServer env) rfl (by rintro id row ⟨⟩)
      (Server.Postgres.obeys env)

/-! ## A message -/

/-- The key pair of the private key that repeats a byte. -/
def repeatedKey (b : UInt8) : IdentityKeypair Hpke.transparent where
  privateKey := List.replicate RAW_X25519_PUBKEY_LEN b
  publicKeyString := PUBKEY_PREFIX ++ base64urlEncode
    (WIRE_VERSION :: SUITE_X25519_AES256GCM :: List.replicate RAW_X25519_PUBKEY_LEN b)

theorem repeatedKey_wellFormed (b : UInt8) : (repeatedKey b).WellFormed :=
  encodePubkey_eq List.length_replicate

theorem repeatedKey_holds (b : UInt8) :
    Holds Hpke.transparent (repeatedKey b) (repeatedKey b).publicKeyString :=
  ⟨repeatedKey_wellFormed b, _, decodePubkey_encodePubkey (repeatedKey_wellFormed b), rfl⟩

/-- A text for one open. -/
def sampleInput : CreateAndSealInput where
  recipientPublicKeyString := (repeatedKey 7).publicKeyString
  message := "hi"
  expiresAt := some ⟨1000000, by decide⟩
  maxOpens := .int 1
  attachment := none

theorem id_createAndSeal {H : Hpke} {input : CreateAndSealInput} {random : List UInt8} {seed : H.Seed}
    {request : CreateMessageRequest} (h : createAndSeal H input random seed = .ok request) :
    request.id = Mobile.generateLinkId random := by
  simp only [createAndSeal, Result.bind_eq_ok] at h
  obtain ⟨_, -, _, -, _, -, _, -, hrequest⟩ := h
  split at hrequest
  · cases hrequest
  · rw [← Except.ok.inj hrequest]

/-- What is sealed of the text. -/
def sealedSample : Result (List UInt8) := do
  let recipient ← importPublicKey .transparent sampleInput.recipientPublicKeyString
  let plaintext ← encodePayload sampleInput.payload
  «seal» .transparent plaintext recipient (sampleInput.context "AAAAAAAAAAAAAAAA") ()

theorem length_sealedSample : sealedSample.toOption.any (fun ciphertext ↦
    Api.MIN_CIPHERTEXT_BYTES ≤ ciphertext.length ∧ ciphertext.length ≤ Api.MAX_CIPHERTEXT_BYTES) =
      true := by decide +kernel

/-- The draft that the create handler makes of the text. -/
def sampleDraft : Api.Draft := ⟨"AAAAAAAAAAAAAAAA", 1000000, 1, sealedSample.toOption.getD []⟩

/-- The text is posted, and passes the checks of the create handler. -/
theorem exists_posted : ∃ request,
    createAndSeal .transparent sampleInput (List.replicate 12 0) () = .ok request ∧
      request.id = "AAAAAAAAAAAAAAAA" ∧
      Api.createDraft .default ⟨0, some request.json⟩ 1 = some sampleDraft := by
  obtain ⟨request, hrequest⟩ := Result.exists_eq_ok
    (x := createAndSeal .transparent sampleInput (List.replicate 12 0) ()) (by decide +kernel)
  obtain ⟨recipient, plaintext, blob, expiresAt, hposts⟩ := createAndSeal_posts hrequest
  have hid : request.id = "AAAAAAAAAAAAAAAA" :=
    (id_createAndSeal hrequest).trans (by decide +kernel)
  have hlength := length_sealedSample
  have hsealed := hposts.isSealed
  rw [hid] at hsealed
  have hsample : sealedSample = .ok blob := by
    rw [sealedSample, hposts.imported, Result.ok_bind, hposts.encoded, Result.ok_bind, hsealed]
  rw [hsample] at hlength
  have hfits := of_decide_eq_true hlength
  obtain rfl : expiresAt = ⟨1000000, by decide⟩ := (Option.some.inj hposts.date).symm
  have hbody : Api.parseBody (some request.json) =
    some ⟨request.id, request.ciphertext, request.expiresAt, request.maxOpens⟩ := rfl
  have hblob : Api.decodeBase64 request.ciphertext = some blob := by
    rw [hposts.ciphertext, Api.decodeBase64_btoa]
  have hdate : Api.parseDate (fun _ ↦ none) request.expiresAt = some 1000000 := by
    rw [hposts.expiresAt]
    exact Api.parseDate_toISOString _ ⟨1000000, by decide⟩
  have hopens : request.maxOpens = .int 1 := hposts.maxOpens
  have hlink : Api.isLinkId "AAAAAAAAAAAAAAAA" = true := by decide
  refine ⟨request, hrequest, hid, ?_⟩
  unfold sampleDraft Api.createDraft Api.CreateConfig.default
  rw [hsample]
  simp only [hbody, hid, hblob, hdate, hopens, hlink, Option.bind_eq_bind, Option.bind_some]
  have hguard : ∀ {p : Prop} [Decidable p], p → (guard p : Option Unit) = some () := fun h ↦ if_pos h
  rw [hguard (Nat.zero_le _), hguard trivial, hguard ⟨rfl, .inl (by decide)⟩, hguard (by decide),
    hguard (by decide), hguard hfits]
  rfl

/-- Thread 1 is answered a delivery, and only thread 0 inserts a row. -/
def deliversAlone (t : Trace Event) : Bool :=
  (t.any fun
    | (1, .answered (.delivered ..)) => true
    | _ => false) &&
  t.all fun
    | (d, .inserted _) => d = 0
    | _ => true

/-- What is delivered in a run of the create and an open is read back. -/
theorem readBack_of_exec {χ P σ : Type} {M : Program Request χ P σ Event} {s₀ : σ} (h : ReadsBack M s₀)
    {request : CreateMessageRequest}
    (hrequest : createAndSeal .transparent sampleInput (List.replicate 12 0) () = .ok request) {x : χ}
    {p : P} (hbegin : M.step 0 x
      (M.init (.postMessages (Api.createDraft .default ⟨0, some request.json⟩))) s₀ = some (p, s₀, []))
    (actions : List (Action Request χ))
    (hrun : (M.exec .always ⟨[p, M.init (.openMessage request.id "")], s₀, []⟩ actions).any
      (deliversAlone ·.trace) = true) :
    ∃ c b row, M.Reachable .always s₀ c ∧ (1, .answered (.delivered b row)) ∈ c.trace ∧
      ReadBack .transparent (fun _ ↦ none) sampleInput request.id
        (Api.Response.delivered b row).render row (repeatedKey 7) := by
  obtain ⟨c, hc, hdelivers⟩ := (Option.any_eq_true _ _).mp hrun
  obtain ⟨hany, hall⟩ := Bool.and_eq_true_iff.mp hdelivers
  let create := M.init (.postMessages (Api.createDraft .default ⟨0, some request.json⟩))
  have hfirst : M.Reachable .always s₀ ⟨[create], s₀, []⟩ := .single (.spawn (Program.start s₀) _)
  have hruns : M.Runs .always ⟨[create, M.init (.openMessage request.id "")], s₀, []⟩ c :=
    .head (.run (c := ⟨[create, M.init (.openMessage request.id "")], s₀, []⟩) rfl trivial hbegin)
      (Program.runs_of_exec hc)
  have hboth : M.Runs .always ⟨[create], s₀, []⟩ c := .head (.spawn ⟨[create], s₀, []⟩ _) hruns
  obtain ⟨e, he, hmatch⟩ := List.any_eq_true.mp hany
  split at hmatch
  · rename_i b row
    refine ⟨c, b, row, hfirst.trans hboth, he, ?_⟩
    refine h _ Hpke.transparent_lawful .default (fun _ ↦ none) sampleInput _ _ _ 0 c 0 1 b row
      (repeatedKey 7) hrequest ?_ ?_ ⟨⟨"", ?_⟩, he⟩ (repeatedKey_holds 7)
    · exact ⟨Program.start s₀, .refl, rfl, hboth⟩
    · intro d record hinserted _
      exact of_decide_eq_true (List.all_eq_true.mp hall _ hinserted)
    · exact ⟨_, hfirst, rfl, hruns⟩
  · cases hmatch

/-- The text is posted, stored and opened, over both stores. -/
theorem read_back_hi : ∃ request,
    createAndSeal .transparent sampleInput (List.replicate 12 0) () = .ok request ∧
    (∃ c b row, (Server.Memory.program .sample).Reachable .always MemoryStore.empty c ∧
      (1, .answered (.delivered b row)) ∈ c.trace ∧
      ReadBack .transparent (fun _ ↦ none) sampleInput request.id
        (Api.Response.delivered b row).render row (repeatedKey 7)) ∧
    ∃ c b row, (Server.Postgres.program .sample).Reachable .always Server.Postgres.State.initial c ∧
      (1, .answered (.delivered b row)) ∈ c.trace ∧
      ReadBack .transparent (fun _ ↦ none) sampleInput request.id
        (Api.Response.delivered b row).render row (repeatedKey 7) := by
  obtain ⟨request, hrequest, hid, hdraft⟩ := exists_posted
  refine ⟨request, hrequest, ?_, ?_⟩
  · refine readBack_of_exec (read_back .sample).1 hrequest (x := .at 1)
      (p := .checked sampleDraft none) ?_
      (List.replicate 3 (.run 0 (.at 1)) ++ List.replicate 3 (.run 1 (.at 2))) ?_
    · show some (Server.Memory.begin_ .sample (.at 1) MemoryStore.empty (.postMessages _)) = _
      simp only [Server.Memory.begin_, Server.Memory.Input.at, Clock.at, hdraft]
      rfl
    · rw [hid]
      decide +kernel
  · refine readBack_of_exec (read_back .sample).2 hrequest (x := .at ⟨1000, by decide⟩)
      (p := .checked sampleDraft none) ?_
      (List.replicate 4 (.run 0 (.at ⟨1000, by decide⟩)) ++
        List.replicate 3 (.run 1 (.at ⟨2000, by decide⟩))) ?_
    · show Server.Postgres.begin_ .sample 0 (.at ⟨1000, by decide⟩) Server.Postgres.State.initial
        (.postMessages _) = _
      have hnow : (Server.Postgres.Input.at ⟨1000, by decide⟩).dateNow = 1 := rfl
      simp only [Server.Postgres.begin_, hnow, hdraft]
      rfl
    · rw [hid]
      decide +kernel

end Aesmsg.Reader
