import Aesmsg.Client.Transport

/-!
# The classification of reader errors

`classifyReaderError` of both clients, and what one open attempt of a reader ends with.
-/

namespace Aesmsg.Reader

open Client

inductive ReaderOutcome where
  | gone
  | invalid
  | network
  | failed
deriving DecidableEq, Repr

def isDecryptionFailure (err : Thrown) : Bool :=
  err.name? = some "DecryptionError" ∨ err.name? = some "BadPassphraseError"

def isInvalidFormat (err : Thrown) : Bool := err.name? = some "InvalidFormatError"

def Mobile.classifyReaderError (err : Thrown) : ReaderOutcome :=
  if isDecryptionFailure err then .failed
  else
    match err with
    | .apiError status =>
      if status = 410 ∨ status = 404 then .gone
      else if status = 400 then .invalid
      else .network
    | _ => .network

def Web.classifyReaderError (err : Thrown) : ReaderOutcome :=
  if isDecryptionFailure err then .failed
  else if isInvalidFormat err then .invalid
  else
    match err with
    | .malformedResponseError _ => .invalid
    | .apiError status =>
      if status = 410 ∨ status = 404 then .gone
      else if status = 400 then .invalid
      else .network
    | _ => .network

def classifyReaderError : Platform → Thrown → ReaderOutcome
  | .mobile => Mobile.classifyReaderError
  | .web => Web.classifyReaderError

/-- What an open attempt throws: the error of `openMessage`, or that of the local work on its
response. -/
def attempt (platform : Platform) (fetch : Fetch) (decrypt : OpenMessageResponse → Option Thrown) :
    Option Thrown :=
  match openMessage platform fetch with
  | .error err => some err
  | .ok response => decrypt response

/-- The errors that a reader foresees after an open: the wrong key and, on the web, a malformed
envelope. -/
def foreseen (platform : Platform) (err : Thrown) : Bool :=
  isDecryptionFailure err || (platform = .web && isInvalidFormat err)

/-- The answer reaches the client and, if it is a success, is of use: its body is well formed (on the
web it need not be) and the local work throws nothing unforeseen. -/
def heard (platform : Platform) (fetch : Fetch) (decrypt : OpenMessageResponse → Option Thrown) :
    Bool :=
  match fetch with
  | .rejected .. => false
  | .response status body =>
    if isOk status then
      match body.map (validateOpenMessageResponse platform) with
      | some (.ok response) => (decrypt response).all (foreseen platform)
      | _ => platform = .web
    else true

theorem classify_of_foreseen {platform : Platform} {err : Thrown} (h : foreseen platform err = true) :
    classifyReaderError platform err ≠ .network := by
  unfold foreseen at h
  rcases Bool.or_eq_true_iff.mp h with hd | hw
  · cases platform with
    | mobile => simp [classifyReaderError, Mobile.classifyReaderError, hd]
    | web => simp [classifyReaderError, Web.classifyReaderError, hd]
  · rw [Bool.and_eq_true] at hw
    obtain ⟨hp, hf⟩ := hw
    obtain rfl : platform = .web := of_decide_eq_true hp
    cases hd : isDecryptionFailure err with
    | true => simp [classifyReaderError, Web.classifyReaderError, hd]
    | false => simp [classifyReaderError, Web.classifyReaderError, hd, hf]

theorem classify_malformed (detail : String) :
    classifyReaderError .web (.malformedResponseError detail) = .invalid := by
  simp [classifyReaderError, Web.classifyReaderError, isDecryptionFailure, isInvalidFormat,
    Thrown.name?]

theorem classify_gone (platform : Platform) : classifyReaderError platform (.apiError 410) = .gone := by
  cases platform with
  | mobile => rfl
  | web => rfl

/-- An answer 200 or 410 that is heard is not taken for a failure of the network. -/
theorem classify_heard {platform : Platform} {status : Nat} {body : Option Json}
    {decrypt : OpenMessageResponse → Option Thrown} {err : Thrown}
    (hs : status = 200 ∨ status = 410) (hh : heard platform (.response status body) decrypt = true)
    (ht : attempt platform (.response status body) decrypt = some err) :
    classifyReaderError platform err ≠ .network := by
  unfold attempt at ht
  rw [openMessage_response] at ht
  rcases hs with rfl | rfl
  · have hok : isOk 200 = true := rfl
    simp only [heard, hok, if_true] at hh ht
    cases body with
    | none =>
      obtain rfl : platform = .web := of_decide_eq_true hh
      cases ht
      rw [classify_malformed]
      nofun
    | some body =>
      dsimp only [Option.map_some] at hh ht
      cases hv : validateOpenMessageResponse platform body with
      | error thrown =>
        obtain ⟨detail, rfl⟩ := onlyMalformed_validate platform body thrown hv
        rw [hv] at hh ht
        obtain rfl : platform = .web := of_decide_eq_true hh
        cases ht
        rw [classify_malformed]
        nofun
      | ok response =>
        rw [hv] at hh ht
        dsimp only at hh ht
        rw [ht] at hh
        exact classify_of_foreseen hh
  · have hok : isOk 410 = false := rfl
    simp only [hok] at ht
    cases ht
    rw [classify_gone]
    nofun

end Aesmsg.Reader
