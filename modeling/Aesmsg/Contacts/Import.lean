import Aesmsg.Contacts.KeyChange
import Aesmsg.Crypto.Seal
import Aesmsg.Identity.RetiredKeys

/-!
# Imported keys

How a public key comes into the directory of the mobile app: scanned (`contacts/scanned-key.ts`), pasted
(`contacts/PasteKeyScreen.tsx`, `create/recipient.ts`), or in a contact card (`contacts/contact-card.ts`,
`contacts/label.ts`).  What the user and the files hold are lists of UTF-16 code units.

## Main results

- `key_reaches_store`: a key that can be imported is added as it is, whichever way it comes.
- `import_safe`: whatever file is picked, the import settles, and its card can be added or is refused by
  name.
-/

namespace Aesmsg.Contacts

open Crypto JsonText Identity.RetiredKeys

/-! ## Keys as text -/

/-- The public key string with these units.  A unit beyond ASCII is of no key. -/
def keyText (text : Label) : String := String.ofList (text.map char)

/-- `[A-Za-z0-9+/=\-_\s:.]` -/
def isKeyUnit (u : UInt16) : Bool :=
  (unit 'A' ≤ u ∧ u ≤ unit 'Z') ∨ (unit 'a' ≤ u ∧ u ≤ unit 'z') ∨ (unit '0' ≤ u ∧ u ≤ unit '9') ∨
    u ∈ units ['+', '/', '=', '-', '_', ':', '.'] ∨ Trim.isSpace u.toNat

def looksLikePublicKey (value : Label) : Bool :=
  let trimmed := trim value
  if trimmed.length < 16 then false else trimmed.all isKeyUnit

def normalizeScannedPayload (raw : Label) : Label := trim raw

def isAcceptableScan (raw : Label) : Bool :=
  let normalized := normalizeScannedPayload raw
  (name PUBKEY_PREFIX).isPrefixOf normalized && looksLikePublicKey normalized

/-- What `QRScanScreen` hands over of a barcode, none where it stays. -/
def handleScan (data : Label) : Option Label :=
  let key := normalizeScannedPayload data
  if isAcceptableScan key then some key else none

def canAddContact (key name : Label) : Bool := 0 < (trim name).length && looksLikePublicKey key

/-- `submit` of `PasteKeyScreen`, none where the button is not enabled. -/
def submit (H : Hpke) (l : List ContactRecord) (key name : Label) (uuid now : String) :
    Option (Result (List ContactRecord × Outcome (Option ContactRecord))) :=
  if canAddContact key name then
    let trimmed := keyText (trim key)
    some do
      let _ ← importPublicKey H trimmed
      return Platform.mobile.call H l (.addContact ⟨name, trimmed⟩ uuid now)
  else none

/-! ## Contact cards -/

def CONTACT_CARD_TYPE : String := "aesmsg.contact-card"

theorem cardVersion_representable :
    ∃ m e : ℤ, |m| < 2 ^ 53 ∧ -1074 ≤ e ∧ e ≤ 971 ∧ (1 : ℚ) = m * 2 ^ e :=
  ⟨1, 0, by norm_num, by norm_num, by norm_num, by norm_num⟩

def CONTACT_CARD_VERSION : Binary64 := ⟨1, cardVersion_representable⟩

def CONTACT_CARD_FILENAME : String := "aesmsg-contact-card.aesmsg"

def isValidLabel (raw : Label) : Bool :=
  let trimmed := trim raw
  1 ≤ trimmed.length ∧ trimmed.length ≤ MAX_LABEL_LEN

def normalizeLabel (raw : Label) : Label := (trim raw).take MAX_LABEL_LEN

/-- `InvalidContactCardError` -/
structure InvalidContactCardError where
  message : String

structure ContactCardFile where
  filename : String
  contents : Label

def cardValue (label : Label) (publicKey : String) : Value :=
  .object [(name "type", .string (name CONTACT_CARD_TYPE)),
    (name "version", .number (some CONTACT_CARD_VERSION)), (name "label", .string (trim label)),
    (name "publicKey", .string (name publicKey))]

def buildContactCard (label : Label) (publicKey : String) :
    Except InvalidContactCardError ContactCardFile :=
  if !isValidLabel label then .error ⟨"Contact card name must be 1–80 characters"⟩
  else .ok ⟨CONTACT_CARD_FILENAME, stringify (cardValue label publicKey)⟩

structure ParsedContactCard where
  label : Label
  publicKey : String
deriving DecidableEq

inductive CardError where
  | invalidFile
  | wrongFileType
deriving DecidableEq

/-- The end of `parseContactCard`, from the fields `publicKey` and `label`. -/
def readCard (H : Hpke) (rawKey : Label) (label : Option Label) : Except CardError ParsedContactCard :=
  match importPublicKey H (keyText rawKey) with
  | .error _ => .error .invalidFile
  | .ok _ => .ok ⟨(label.map normalizeLabel).getD [], keyText rawKey⟩

def parseContactCard (H : Hpke) (text : Label) :
    Except Thrown (Except CardError ParsedContactCard) := do
  match jsonParse text with
  | .error _ => return .error .invalidFile
  | .ok record =>
    if !isRecord record then
      return .error .invalidFile
    if (← stringField record "type") ≠ some (name CONTACT_CARD_TYPE) then
      return .error .wrongFileType
    let some rawKey ← stringField record "publicKey" | return .error .invalidFile
    return readCard H rawKey (← stringField record "label")

inductive ImportCardOutcome where
  | picked (card : ParsedContactCard)
  | canceled
  | error (reason : CardError)

/-- What the document picker and the file system do: each can throw, and nothing can be picked. -/
inductive Pick where
  | throws
  | canceled
  | unreadable
  | file (text : Label)

def importContactCard (H : Hpke) : Pick → Except Thrown ImportCardOutcome
  | .throws => return .error .invalidFile
  | .canceled => return .canceled
  | .unreadable => return .error .invalidFile
  | .file text => do
    match ← parseContactCard H text with
    | .ok card => return .picked card
    | .error reason => return .error reason

/-! ## The characters of a key -/

/-- A character of a key, ASCII and no space. -/
def isKeyChar (c : Char) : Bool := c.toNat < 128 ∧ isKeyUnit (unit c) ∧ ¬Trim.isSpace (unit c).toNat

/-- White space. -/
def Blank (text : Label) : Prop := ∀ u ∈ text, Trim.isSpace u.toNat = true

/-- A text that a key can be. -/
structure KeyLike (s : String) : Prop where
  chars : ∀ c ∈ s.toList, isKeyChar c = true
  pre : PUBKEY_PREFIX.toList <+: s.toList
  length : 16 ≤ s.toList.length

section Keys

variable {H : Hpke} {s : String}

theorem isKeyChar_prefix : ∀ c ∈ PUBKEY_PREFIX.toList, isKeyChar c = true := List.all_eq_true.mp rfl

theorem isKeyChar_alphabet : ∀ d < 64, isKeyChar (BASE64URL_ALPHABET.char d) = true := by decide

theorem keyLike_of_import {recipient : RecipientPublicKey H}
    (h : importPublicKey H s = .ok recipient) : KeyLike s := by
  simp only [importPublicKey, Result.bind_eq_ok] at h
  obtain ⟨decoded, hdecode, -⟩ := h
  unfold decodePubkey at hdecode
  split at hdecode
  · cases hdecode
  · rename_i body hbody
    have hs : s.toList = PUBKEY_PREFIX.toList ++ body := afterPrefix_eq_some_iff.mp hbody
    simp only [Result.bind_eq_ok, Crypto.throwIf_eq_ok, not_not] at hdecode
    obtain ⟨canonical, hcanonical, _, hlength, -⟩ := hdecode
    obtain ⟨ds, hdigits, rfl⟩ := base64urlDecode_eq_ok.mp hcanonical
    rw [String.toList_ofList] at hdigits
    obtain ⟨hlt, rfl⟩ := BASE64URL_ALPHABET.digits_eq_some hdigits
    refine ⟨fun c hc ↦ ?_, ⟨_, hs.symm⟩, ?_⟩
    · rw [hs] at hc
      rcases List.mem_append.mp hc with hc | hc
      · exact isKeyChar_prefix c hc
      · obtain ⟨d, hd, rfl⟩ := List.mem_map.mp hc
        exact isKeyChar_alphabet d (hlt d hd)
    · rw [Base64.length_octets] at hlength
      rw [hs, List.length_append, List.length_map]
      have hcanonical : CANONICAL_PUBKEY_LEN = 34 := rfl
      omega

theorem KeyLike.keyText_name (h : KeyLike s) : keyText (name s) = s := by
  unfold keyText name
  rw [map_char_units, String.ofList_toList]
  intro c hc
  have hchar := of_decide_eq_true (h.chars c hc)
  exact Nat.lt_trans hchar.1 (by norm_num)

theorem KeyLike.isKeyUnit (h : KeyLike s) : ∀ u ∈ name s, isKeyUnit u = true := by
  intro u hu
  obtain ⟨c, hc, rfl⟩ := List.mem_map.mp hu
  exact (of_decide_eq_true (h.chars c hc)).2.1

theorem KeyLike.not_isSpace (h : KeyLike s) : ∀ u ∈ name s, Trim.isSpace u.toNat = false := by
  intro u hu
  obtain ⟨c, hc, rfl⟩ := List.mem_map.mp hu
  exact Bool.eq_false_iff.mpr (of_decide_eq_true (h.chars c hc)).2.2

theorem KeyLike.length_name (h : KeyLike s) : 16 ≤ (name s).length := by
  unfold name units
  rw [List.length_map]
  exact h.length

theorem KeyLike.isPrefixOf (h : KeyLike s) : (name PUBKEY_PREFIX).isPrefixOf (name s) = true := by
  obtain ⟨body, hbody⟩ := h.pre
  refine List.isPrefixOf_iff_prefix.mpr ⟨units body, ?_⟩
  unfold name units
  rw [← hbody, List.map_append]

/-- White space around a key is dropped. -/
theorem KeyLike.trim (h : KeyLike s) {before after : Label} (hbefore : Blank before)
    (hafter : Blank after) : trim (before ++ name s ++ after) = name s :=
  Trim.trim_append hbefore hafter h.not_isSpace

theorem KeyLike.trim_name (h : KeyLike s) : Contacts.trim (name s) = name s := by
  have htrim : Contacts.trim ([] ++ name s ++ []) = name s := h.trim (by simp [Blank]) (by simp [Blank])
  rwa [List.nil_append, List.append_nil] at htrim

theorem KeyLike.looksLikePublicKey (h : KeyLike s) {raw : Label} (hraw : Contacts.trim raw = name s) :
    looksLikePublicKey raw = true := by
  unfold Contacts.looksLikePublicKey
  rw [hraw, if_neg (Nat.not_lt.mpr h.length_name)]
  exact List.all_eq_true.mpr h.isKeyUnit

theorem KeyLike.handleScan (h : KeyLike s) {data : Label} (hdata : Contacts.trim data = name s) :
    handleScan data = some (name s) := by
  have hagain := h.trim_name
  have hscan : isAcceptableScan (name s) = true := by
    unfold isAcceptableScan normalizeScannedPayload
    rw [hagain]
    dsimp only
    rw [h.isPrefixOf, h.looksLikePublicKey hagain]
    rfl
  unfold Contacts.handleScan normalizeScannedPayload
  rw [hdata]
  exact if_pos hscan

theorem KeyLike.submit (h : KeyLike s) {recipient : RecipientPublicKey H}
    (himport : importPublicKey H s = .ok recipient) {key label : Label} (hkey : Contacts.trim key = name s)
    (hlabel : 0 < (Contacts.trim label).length) (l : List ContactRecord) (uuid now : String) :
    submit H l key label uuid now =
      some (.ok (Platform.mobile.call H l (.addContact ⟨label, s⟩ uuid now))) := by
  have hcan : canAddContact key label = true := by
    unfold canAddContact
    rw [h.looksLikePublicKey hkey, Bool.and_true]
    exact decide_eq_true hlabel
  unfold Contacts.submit
  rw [if_pos hcan, hkey, h.keyText_name]
  dsimp only
  rw [himport]
  rfl

/-- The fingerprint of a key that can be imported. -/
theorem exists_fingerprint {recipient : RecipientPublicKey H} (h : importPublicKey H s = .ok recipient) :
    ∃ fp, fingerprint H s = .ok fp := by
  simp only [importPublicKey, Result.bind_eq_ok] at h
  obtain ⟨decoded, hdecode, -⟩ := h
  unfold fingerprint
  rw [hdecode]
  exact ⟨_, rfl⟩

end Keys

/-! ## The card -/

section Card

variable {H : Hpke} {s : String} {label : Label}

theorem jsonParse_cardValue (label : Label) (s : String) :
    jsonParse (stringify (cardValue label s)) = .ok (cardValue label s) := by
  unfold jsonParse
  rw [parse_stringify]
  rfl

theorem stringField_cardValue (label : Label) (s : String) :
    stringField (cardValue label s) "type" = .ok (some (name CONTACT_CARD_TYPE)) ∧
      stringField (cardValue label s) "publicKey" = .ok (some (name s)) ∧
      stringField (cardValue label s) "label" = .ok (some (trim label)) := ⟨rfl, rfl, rfl⟩

/-- A valid label is kept. -/
theorem normalizeLabel_trim (h : isValidLabel label = true) : normalizeLabel (trim label) = trim label := by
  unfold normalizeLabel
  rw [show trim (trim label) = trim label from Trim.trim_trim _ _]
  exact List.take_of_length_le (of_decide_eq_true h).2

/-- The card with a valid label is parsed to the label and the key. -/
theorem parseContactCard_build {recipient : RecipientPublicKey H}
    (himport : importPublicKey H s = .ok recipient) (hlabel : isValidLabel label = true) :
    parseContactCard H (stringify (cardValue label s)) = .ok (.ok ⟨trim label, s⟩) := by
  obtain ⟨htype, hkey, hname⟩ := stringField_cardValue label s
  unfold parseContactCard
  rw [jsonParse_cardValue]
  dsimp only
  rw [htype, hkey, hname]
  change Except.ok (readCard H (name s) (some (trim label))) = _
  unfold readCard
  rw [(keyLike_of_import himport).keyText_name, himport]
  dsimp only
  rw [Option.map_some, normalizeLabel_trim hlabel]
  rfl

/-- The card of a valid label and a key. -/
theorem buildContactCard_eq (hlabel : isValidLabel label = true) (s : String) :
    buildContactCard label s = .ok ⟨CONTACT_CARD_FILENAME, stringify (cardValue label s)⟩ := by
  unfold buildContactCard
  rw [hlabel]
  rfl

theorem importContactCard_build {recipient : RecipientPublicKey H}
    (himport : importPublicKey H s = .ok recipient) (hlabel : isValidLabel label = true) :
    importContactCard H (.file (stringify (cardValue label s))) = .ok (.picked ⟨trim label, s⟩) := by
  unfold importContactCard
  dsimp only
  rw [parseContactCard_build himport hlabel]
  rfl

/-! ## What is imported -/

/-- A card that is accepted has a key that can be imported, and a label that is trimmed in front and not
too long. -/
structure Importable (H : Hpke) (card : ParsedContactCard) : Prop where
  key : ∃ recipient, importPublicKey H card.publicKey = .ok recipient
  length : card.label.length ≤ MAX_LABEL_LEN
  label : card.label ≠ [] → trim card.label ≠ []

theorem trim_normalizeLabel (raw : Label) (h : normalizeLabel raw ≠ []) :
    trim (normalizeLabel raw) ≠ [] := by
  unfold normalizeLabel at h ⊢
  cases htrim : trim raw with
  | nil =>
    rw [htrim] at h
    exact absurd rfl h
  | cons u rest =>
    have hu : Trim.isSpace u.toNat = false :=
      Trim.head_trim (p := fun u : UInt16 ↦ Trim.isSpace u.toNat) htrim
    intro hnil
    have hspace := Trim.trim_eq_nil.mp hnil u List.mem_cons_self
    rw [hu] at hspace
    cases hspace

theorem importable_readCard {rawKey : Label} {label : Option Label} {card : ParsedContactCard}
    (h : readCard H rawKey label = .ok card) : Importable H card := by
  unfold readCard at h
  split at h
  · cases h
  · rename_i recipient himport
    obtain rfl := Except.ok.inj h
    refine ⟨⟨recipient, himport⟩, ?_, ?_⟩
    · cases label with
      | none => exact Nat.zero_le _
      | some raw => exact List.length_take_le _ _
    · cases label with
      | none => exact fun hne ↦ absurd rfl hne
      | some raw => exact trim_normalizeLabel raw

/-- No text makes the parser throw. -/
theorem parseContactCard_ok (H : Hpke) (text : Label) :
    ∃ result, parseContactCard H text = .ok result ∧ ∀ card, result = .ok card → Importable H card := by
  unfold parseContactCard
  cases jsonParse text with
  | error => exact ⟨_, rfl, fun card h ↦ by cases h⟩
  | ok record =>
    dsimp only
    cases hrecord : isRecord record with
    | false => exact ⟨_, rfl, fun card h ↦ by cases h⟩
    | true =>
      obtain ⟨type, htype⟩ := stringField_ok hrecord "type"
      obtain ⟨rawKey, hkey⟩ := stringField_ok hrecord "publicKey"
      obtain ⟨label, hlabel⟩ := stringField_ok hrecord "label"
      rw [htype, hkey, hlabel]
      by_cases hcard : type = some (name CONTACT_CARD_TYPE)
      · subst hcard
        cases rawKey with
        | none => exact ⟨_, rfl, fun card h ↦ by cases h⟩
        | some rawKey => exact ⟨readCard H rawKey label, rfl, fun card h ↦ importable_readCard h⟩
      · exact ⟨.error .wrongFileType, if_pos hcard, fun card h ↦ by cases h⟩

/-- What `addContact` makes of a card. -/
inductive Added (H : Hpke) (l : List ContactRecord) (card : ParsedContactCard) (uuid now : String) :
    List ContactRecord × Outcome (Option ContactRecord) → Prop
  /-- The fingerprint is that of the key. -/
  | stored {fp : String} {l' : List ContactRecord} (hfp : fingerprint H card.publicKey = .ok fp)
    (unused : ∀ c ∈ l, fp ∉ c.fingerprints)
    (mem : newContact (trim card.label) card.publicKey fp uuid now ∈ l') :
    Added H l card uuid now (l', .ok (some (newContact (trim card.label) card.publicKey fp uuid now)))
  | unnamed (h : card.label = []) : Added H l card uuid now (l, .error (.invalidLabel "Label is required"))
  | known {fp message existingId : String} {existingLabel : Label} {reason : Reason}
    (hfp : fingerprint H card.publicKey = .ok fp) (used : ∃ c ∈ l, fp ∈ c.fingerprints) :
    Added H l card uuid now (l, .error (.duplicateFingerprint message existingId existingLabel reason))

theorem validateLabel_eq {raw : Label} (hne : trim raw ≠ []) (hle : (trim raw).length ≤ MAX_LABEL_LEN) :
    validateLabel raw = .ok (trim raw) := by
  unfold validateLabel throwIf
  dsimp only
  rw [if_neg (fun hzero ↦ hne (List.length_eq_zero_iff.mp hzero)), if_neg (Nat.not_lt.mpr hle)]
  rfl

theorem length_trim_le (raw : Label) : (trim raw).length ≤ raw.length :=
  (( List.rdropWhile_prefix _ _).length_le).trans (List.dropWhile_sublist _).length_le

/-- A duplicate is refused by name. -/
theorem checkDuplicates_cases (fp : String) (l : List ContactRecord) :
    checkDuplicates fp l = .ok () ∧ (∀ c ∈ l, fp ∉ c.fingerprints) ∨
      (∃ message existingId existingLabel reason, checkDuplicates fp l =
        .error (.duplicateFingerprint message existingId existingLabel reason)) ∧
      ∃ c ∈ l, fp ∈ c.fingerprints := by
  induction l with
  | nil => exact .inl ⟨rfl, by simp⟩
  | cons c rest ih =>
    unfold checkDuplicates
    split
    · rename_i hcurrent
      exact .inr ⟨⟨_, _, _, _, rfl⟩, c, List.mem_cons_self, by simp [ContactRecord.fingerprints, hcurrent]⟩
    split
    · rename_i hprevious
      exact .inr ⟨⟨_, _, _, _, rfl⟩, c, List.mem_cons_self, List.mem_cons_of_mem _ hprevious⟩
    · rename_i hcurrent hprevious
      rcases ih with ⟨hok, hunused⟩ | ⟨hduplicate, d, hd, hused⟩
      · refine .inl ⟨hok, List.forall_mem_cons.mpr ⟨fun hmem ↦ ?_, hunused⟩⟩
        exact (List.mem_cons.mp hmem).elim (fun heq ↦ hcurrent heq.symm) hprevious
      · exact .inr ⟨hduplicate, d, List.mem_cons_of_mem _ hd, hused⟩

/-- How a store writes a new record. -/
def Platform.appended (l : List ContactRecord) (record : ContactRecord) : Platform → Plan
  | mobile => Mobile.store (l ++ [record]) record
  | web => Web.store record

theorem mem_perform_appended (p : Platform) (l : List ContactRecord) (record : ContactRecord) :
    record ∈ (p.appended l record).perform l := by
  cases p with
  | mobile => exact List.mem_append_right _ List.mem_cons_self
  | web => exact (put_perm record l).mem_iff.mpr List.mem_cons_self

theorem returned_appended (p : Platform) (l : List ContactRecord) (record : ContactRecord) :
    (p.appended l record).returned = some record := by
  cases p with
  | mobile => rfl
  | web => rfl

/-- Both stores check the label, the key and the duplicates, and write. -/
theorem plan_addContact (p : Platform) (l : List ContactRecord) (input : AddContactInput)
    (uuid now : String) :
    p.plan H l (.addContact input uuid now) = (do
      let label ← validateLabel input.label
      let fp ← computeFingerprint H input.publicKey
      checkDuplicates fp l
      return p.appended l (newContact label input.publicKey fp uuid now)) := by
  cases p with
  | mobile => rfl
  | web => rfl

theorem added_addContact {card : ParsedContactCard} (h : Importable H card) (p : Platform)
    (l : List ContactRecord) (uuid now : String) :
    Added H l card uuid now (p.call H l (.addContact ⟨card.label, card.publicKey⟩ uuid now)) := by
  have hplan := plan_addContact (H := H) p l ⟨card.label, card.publicKey⟩ uuid now
  obtain ⟨recipient, himport⟩ := h.key
  obtain ⟨fp, hfp⟩ := exists_fingerprint himport
  have hcompute : computeFingerprint H card.publicKey = .ok fp := by
    unfold computeFingerprint
    rw [hfp]
    rfl
  by_cases hlabel : card.label = []
  · have hempty : validateLabel card.label = .error (.invalidLabel "Label is required") := by
      rw [hlabel]
      rfl
    dsimp only at hplan
    rw [hempty] at hplan
    rw [call_of_error hplan]
    exact .unnamed hlabel
  · have hvalid := validateLabel_eq (h.label hlabel) ((length_trim_le _).trans h.length)
    dsimp only at hplan
    rw [hvalid, hcompute] at hplan
    rcases checkDuplicates_cases fp l with
      ⟨hok, hunused⟩ | ⟨⟨message, existingId, existingLabel, reason, herror⟩, hused⟩
    · change _ = (do
        checkDuplicates fp l
        return p.appended l (newContact (trim card.label) card.publicKey fp uuid now)) at hplan
      rw [hok] at hplan
      rw [call_of_ok hplan, returned_appended]
      exact .stored hfp hunused (mem_perform_appended p l _)
    · change _ = (do
        checkDuplicates fp l
        return p.appended l (newContact (trim card.label) card.publicKey fp uuid now)) at hplan
      rw [herror] at hplan
      rw [call_of_error hplan]
      exact .known hfp hused

/-- Whatever is picked, the import settles; an unreadable file and a text that is no card are refused;
and the card of a text that is one is added with the fingerprint of its key, unless it has no name or its
key is known. -/
theorem import_safe (H : Hpke) (p : Platform) (pick : Pick) : ∃ outcome,
    importContactCard H pick = .ok outcome ∧ ∀ card, outcome = .picked card →
      Importable H card ∧ ∀ l uuid now,
        Added H l card uuid now (p.call H l (.addContact ⟨card.label, card.publicKey⟩ uuid now)) := by
  cases pick with
  | throws | canceled | unreadable => exact ⟨_, rfl, fun card h ↦ by cases h⟩
  | file text =>
    obtain ⟨result, hparse, himportable⟩ := parseContactCard_ok H text
    unfold importContactCard
    dsimp only
    rw [hparse]
    cases result with
    | error reason => exact ⟨_, rfl, fun card h ↦ by cases h⟩
    | ok card =>
      refine ⟨_, rfl, fun card' h ↦ ?_⟩
      cases h
      exact ⟨himportable card rfl, added_addContact (himportable card rfl) p⟩

/-- A key that can be imported is taken over as it is, with white space around it or not, by the scanner,
by the form and by the card that is built for it. -/
theorem key_reaches_store {recipient : RecipientPublicKey H} (h : importPublicKey H s = .ok recipient) :
    (∀ before after, Blank before → Blank after →
      handleScan (before ++ name s ++ after) = some (name s) ∧
        ∀ label l uuid now, 0 < (trim label).length →
          submit H l (before ++ name s ++ after) label uuid now =
            some (.ok (Platform.mobile.call H l (.addContact ⟨label, s⟩ uuid now)))) ∧
    ∀ label, isValidLabel label = true → ∃ file, buildContactCard label s = .ok file ∧
      importContactCard H (.file file.contents) = .ok (.picked ⟨trim label, s⟩) ∧
        ∀ l uuid now fp, fingerprint H s = .ok fp → (∀ c ∈ l, fp ∉ c.fingerprints) →
          submit H l (name s) (trim label) uuid now = some (.ok
            (l ++ [newContact (trim label) s fp uuid now],
              .ok (some (newContact (trim label) s fp uuid now)))) := by
  have hlike := keyLike_of_import h
  refine ⟨fun before after hbefore hafter ↦ ?_, fun label hlabel ↦ ?_⟩
  · have htrim := hlike.trim hbefore hafter
    exact ⟨hlike.handleScan htrim, fun label l uuid now hpos ↦ hlike.submit h htrim hpos l uuid now⟩
  · refine ⟨_, buildContactCard_eq hlabel s, importContactCard_build h hlabel, ?_⟩
    intro l uuid now fp hfp hunused
    obtain ⟨hpos, hle⟩ := of_decide_eq_true hlabel
    have hagain : trim (trim label) = trim label := Trim.trim_trim _ _
    have hvalid : validateLabel (trim label) = .ok (trim label) := by
      have hne : trim (trim label) ≠ [] := by
        rw [hagain]
        exact List.ne_nil_of_length_pos hpos
      have hvalid := validateLabel_eq hne (hagain.symm ▸ hle)
      rwa [hagain] at hvalid
    have hcompute : computeFingerprint H s = .ok fp := by
      unfold computeFingerprint
      rw [hfp]
      rfl
    have hplan := plan_addContact (H := H) .mobile l ⟨trim label, s⟩ uuid now
    dsimp only at hplan
    rw [hvalid, hcompute] at hplan
    change _ = (do
      checkDuplicates fp l
      return Platform.mobile.appended l (newContact (trim label) s fp uuid now)) at hplan
    rw [(checkDuplicates_eq_ok (u := ())).mpr hunused] at hplan
    rw [hlike.submit h hlike.trim_name (hagain.symm ▸ hpos), call_of_ok hplan]
    rfl

end Card

/-- A key that is scanned with white space around it, and its card. -/
theorem key_reaches_store_alice :
    handleScan ([0x20] ++ name aliceKey ++ [0x0A]) = some (name aliceKey) ∧
      ∃ file, buildContactCard (label " Alice ") aliceKey = .ok file ∧
        importContactCard plainDigest (.file file.contents) =
          .ok (.picked ⟨trim (label " Alice "), aliceKey⟩) := by
  obtain ⟨recipient, himport⟩ := Result.exists_eq_ok
    (x := importPublicKey plainDigest aliceKey) (by decide +kernel)
  obtain ⟨hscan, hcard⟩ := key_reaches_store himport
  obtain ⟨file, hfile, hpicked, -⟩ := hcard (label " Alice ") (by decide)
  have hspace : Blank [0x20] := by simp [Blank, Trim.isSpace]
  have hnewline : Blank [0x0A] := by simp [Blank, Trim.isSpace]
  exact ⟨(hscan [0x20] [0x0A] hspace hnewline).1, file, hfile, hpicked⟩

end Aesmsg.Contacts
