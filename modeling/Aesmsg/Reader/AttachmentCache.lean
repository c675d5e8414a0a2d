import Aesmsg.Client.Base64
import Aesmsg.Crypto.Payload
import Aesmsg.Lib.Machine
import Mathlib.Logic.Function.Basic

/-!
# The cached attachments of the reader

`attachment-cache.ts` and its uses in `ReaderScreen.tsx`.  A download writes a file, records it and then
offers it to the share sheet; the unmount of the screen deletes what is recorded by then.  The file
system ends a write at any later time and the rest of the download runs at any time after that.

## Main results

- `cache_wiped`: no file is left where the unmount finds every write recorded.
- `file_stays`: a file that is recorded after the unmount is never deleted.
-/

namespace Aesmsg.Reader.AttachmentCache

open Crypto

def CACHE_FILE_PREFIX : String := "aesmsg-"

/-- `[\w.-]` -/
def isSafeChar (c : Char) : Bool := c.isAlphanum || c = '_' || c = '.' || c = '-'

/-- The characters of `filename.replace(/[^\w.-]+/g, "_")`, after one that is replaced or not. -/
def replaceUnsafe : Bool → List Char → List Char
  | _, [] => []
  | inRun, c :: cs =>
    if isSafeChar c then c :: replaceUnsafe false cs
    else if inRun then replaceUnsafe true cs
    else '_' :: replaceUnsafe true cs

def safeName (filename : String) : String := String.ofList (replaceUnsafe false filename.toList)

/-- The URI of a cache file; a directory that is null is printed as such. -/
def cacheUri (cacheDirectory : Option String) (now : Int) (filename : String) : String :=
  cacheDirectory.getD "null" ++ CACHE_FILE_PREFIX ++ now.repr ++ "-" ++ safeName filename

/-- Where a call of `writeAttachmentToCache` stands. -/
inductive Phase where
  /-- `writeAsStringAsync` -/
  | writing
  /-- The file is written, and the call has not gone on. -/
  | written
  /-- `isAvailableAsync` -/
  | asking
  /-- `shareAsync` -/
  | sharing
  | done
deriving DecidableEq

structure Download where
  uri : String
  contents : String
  mimetype : String
  phase : Phase
deriving DecidableEq

/-- The file of a download is not recorded. -/
def Download.isUntracked (download : Download) : Bool :=
  download.phase = .writing || download.phase = .written

structure State where
  mounted : Bool
  /-- `autoWipeRef.current` -/
  autoWipe : Bool
  /-- `tempFiles.current` -/
  tempFiles : List String
  downloads : List Download
  /-- The calls of `deleteAsync` that have not ended. -/
  deleting : List String
  /-- The files of the cache directory, with the base64 that was written. -/
  cache : String → Option String

inductive Event where
  | wrote (uri : String)
  | shared (uri mimetype : String)
  | unmounted
  | deleted (uri : String)
deriving DecidableEq

inductive Action where
  /-- A render reads the setting. -/
  | render (autoWipe : Bool)
  /-- `onDownload` -/
  | download (attachment : PayloadAttachment) (now : Int)
  | write (i : Nat) (succeeds : Bool)
  /-- `track` and the call of `isAvailableAsync`. -/
  | track (i : Nat)
  /-- `isAvailableAsync` settles, with none if it rejects. -/
  | available (i : Nat) (answer : Option Bool)
  /-- `shareAsync` settles. -/
  | share (i : Nat)
  | unmount
  | delete (uri : String) (succeeds : Bool)

def State.setPhase (s : State) (i : Nat) (download : Download) (phase : Phase) : State :=
  { s with downloads := s.downloads.set i { download with phase } }

def step (cacheDirectory : Option String) (s : State) : Action → Option (State × List Event)
  | .render autoWipe => if s.mounted then some ({ s with autoWipe }, []) else none
  | .download attachment now =>
    if s.mounted then
      let uri := cacheUri cacheDirectory now attachment.filename
      let contents := Client.Mobile.bytesToBase64 attachment.bytes
      some ({ s with downloads := s.downloads ++ [⟨uri, contents, attachment.mimetype, .writing⟩] }, [])
    else none
  | .write i succeeds =>
    match s.downloads[i]? with
    | none => none
    | some download =>
      if download.phase = .writing then
        if succeeds then
          some ({ s.setPhase i download .written with
            cache := Function.update s.cache download.uri (some download.contents) },
            [.wrote download.uri])
        else some (s.setPhase i download .done, [])
      else none
  | .track i =>
    match s.downloads[i]? with
    | none => none
    | some download =>
      if download.phase = .written then
        some ({ s.setPhase i download .asking with tempFiles := s.tempFiles ++ [download.uri] }, [])
      else none
  | .available i answer =>
    match s.downloads[i]? with
    | none => none
    | some download =>
      if download.phase = .asking then
        if answer = some true then
          some (s.setPhase i download .sharing, [.shared download.uri download.mimetype])
        else some (s.setPhase i download .done, [])
      else none
  | .share i =>
    match s.downloads[i]? with
    | none => none
    | some download =>
      if download.phase = .sharing then some (s.setPhase i download .done, []) else none
  | .unmount =>
    if s.mounted then
      some ({ s with
        mounted := false
        tempFiles := []
        deleting := if s.autoWipe then s.deleting ++ s.tempFiles else s.deleting }, [.unmounted])
    else none
  | .delete uri succeeds =>
    if uri ∈ s.deleting then
      if succeeds then
        some ({ s with
          deleting := s.deleting.erase uri
          cache := Function.update s.cache uri none }, [.deleted uri])
      else some ({ s with deleting := s.deleting.erase uri }, [])
    else none

def machine (cacheDirectory : Option String) (autoWipe : Bool) (cache : String → Option String) :
    Machine State Action Event :=
  ⟨⟨true, autoWipe, [], [], [], cache⟩, step cacheDirectory⟩

/-- Auto-wipe is on at the unmount, and the writes and deletes succeed. -/
def assumed (s : State) : Action → Bool
  | .unmount => s.autoWipe
  | .write _ succeeds | .delete _ succeeds => succeeds
  | _ => true

/-- The unmount finds every file recorded. -/
def recorded (s : State) : Action → Bool
  | .unmount => s.downloads.all fun download ↦ !download.isUntracked
  | _ => true

/-- No file that the reader wrote is left once the screen is unmounted and nothing is pending, and none
is deleted while it is mounted. -/
structure Wiped (s : State) (t : List Event) : Prop where
  left : s.mounted = false → (∀ download ∈ s.downloads, download.phase ≠ .writing) → s.deleting = [] →
    ∀ uri, .wrote uri ∈ t → s.cache uri = none
  kept : s.mounted = true → ∀ uri, .deleted uri ∉ t ∧ (.wrote uri ∈ t → s.cache uri ≠ none)

/-! ## Steps -/

section Steps

variable {cacheDirectory : Option String} {autoWipe : Bool} {cache : String → Option String}
  {s s' : State} {t es : List Event} {a : Action} {i : Nat} {download : Download}

/-- A step that neither touches the files nor the mount. -/
structure Quiet (s s' : State) (es : List Event) : Prop where
  mounted : s'.mounted = s.mounted
  deleting : s'.deleting = s.deleting
  cache : s'.cache = s.cache
  silent : ∀ uri, .wrote uri ∉ es ∧ .deleted uri ∉ es
  tempFiles : s.tempFiles ⊆ s'.tempFiles
  tracked : ∀ download ∈ s.downloads, download.phase = .written →
    download ∈ s'.downloads ∨ download.uri ∈ s'.tempFiles
  rest : s.mounted = false → (∀ download ∈ s.downloads, download.isUntracked = false) →
    s'.tempFiles = s.tempFiles ∧ ∀ download ∈ s'.downloads, download.isUntracked = false

theorem mem_set_or {α : Type} {l : List α} {i : Nat} {a b c : α} (hi : l[i]? = some a) (h : c ∈ l) :
    c = a ∨ c ∈ l.set i b := by
  obtain ⟨j, hj⟩ := List.mem_iff_getElem?.mp h
  by_cases hij : i = j
  · subst hij
    exact .inl (Option.some.inj (hj.symm.trans hi))
  · exact .inr (List.mem_iff_getElem?.mpr ⟨j, (List.getElem?_set_ne hij).trans hj⟩)

theorem isUntracked_eq_false {phase : Phase} (hwriting : phase ≠ .writing) (hwritten : phase ≠ .written) :
    ({ download with phase } : Download).isUntracked = false := by
  simp [Download.isUntracked, hwriting, hwritten]

/-- A call that is neither before nor at its recording goes on. -/
theorem Quiet.setPhase {phase : Phase} (hdownload : s.downloads[i]? = some download)
    (hbefore : download.phase ≠ .written) (hwriting : phase ≠ .writing) (hwritten : phase ≠ .written)
    (silent : ∀ uri, .wrote uri ∉ es ∧ .deleted uri ∉ es) : Quiet s (s.setPhase i download phase) es where
  mounted := rfl
  deleting := rfl
  cache := rfl
  silent := silent
  tempFiles := List.Subset.refl _
  tracked := by
    intro other hother hphase
    refine .inl ((mem_set_or hdownload hother).resolve_left ?_)
    rintro rfl
    exact hbefore hphase
  rest := by
    intro _ hnone
    refine ⟨rfl, fun other hother ↦ ?_⟩
    rcases List.mem_or_eq_of_mem_set hother with hother | rfl
    · exact hnone other hother
    · exact isUntracked_eq_false hwriting hwritten

theorem Quiet.track (hdownload : s.downloads[i]? = some download) (hphase : download.phase = .written) :
    Quiet s { s.setPhase i download .asking with tempFiles := s.tempFiles ++ [download.uri] } [] where
  mounted := rfl
  deleting := rfl
  cache := rfl
  silent := fun _ ↦ ⟨List.not_mem_nil, List.not_mem_nil⟩
  tempFiles := List.subset_append_left _ _
  tracked := by
    intro other hother _
    rcases mem_set_or hdownload hother with rfl | hmem
    · exact .inr (List.mem_append_right _ List.mem_cons_self)
    · exact .inl hmem
  rest := by
    intro _ hnone
    have htracked := hnone download (List.mem_of_getElem? hdownload)
    rw [Download.isUntracked, hphase] at htracked
    cases htracked

/-- What a step does. -/
theorem step_cases (h : step cacheDirectory s a = some (s', es)) :
    Quiet s s' es ∨
    (∃ i download, s.downloads[i]? = some download ∧ download.phase = .writing ∧
      s' = { s.setPhase i download .written with
        cache := Function.update s.cache download.uri (some download.contents) } ∧
      es = [.wrote download.uri]) ∨
    (a = .unmount ∧ s.mounted = true ∧ es = [.unmounted] ∧ s' = { s with
      mounted := false
      tempFiles := []
      deleting := if s.autoWipe then s.deleting ++ s.tempFiles else s.deleting }) ∨
    (∃ uri, a = .delete uri true ∧ uri ∈ s.deleting ∧ es = [.deleted uri] ∧ s' = { s with
      deleting := s.deleting.erase uri
      cache := Function.update s.cache uri none }) ∨
    (∃ uri, a = .delete uri false ∧ uri ∈ s.deleting ∧ es = [] ∧
      s' = { s with deleting := s.deleting.erase uri }) := by
  have hnone (uri : String) : Event.wrote uri ∉ ([] : List Event) ∧ Event.deleted uri ∉ ([] : List Event) :=
    ⟨List.not_mem_nil, List.not_mem_nil⟩
  cases a with
  | render autoWipe =>
    obtain ⟨hmounted, heq⟩ := Option.ite_none_right_eq_some.mp h
    cases heq
    exact .inl ⟨rfl, rfl, rfl, hnone, List.Subset.refl _, fun _ hmem _ ↦ .inl hmem, fun _ hrest ↦ ⟨rfl, hrest⟩⟩
  | download attachment now =>
    obtain ⟨hmounted, heq⟩ := Option.ite_none_right_eq_some.mp h
    cases heq
    refine .inl ⟨rfl, rfl, rfl, hnone, List.Subset.refl _, fun _ hmem _ ↦ ?_, fun hunmounted ↦ ?_⟩
    · exact .inl (List.mem_append_left _ hmem)
    · exact Bool.noConfusion (hmounted.symm.trans hunmounted)
  | write i succeeds =>
    simp only [step] at h
    split at h
    · cases h
    · rename_i download hdownload
      obtain ⟨hphase, heq⟩ := Option.ite_none_right_eq_some.mp h
      split at heq
      · cases heq
        exact .inr (.inl ⟨i, download, hdownload, hphase, rfl, rfl⟩)
      · cases heq
        refine .inl (.setPhase hdownload ?_ (by decide) (by decide) hnone)
        rw [hphase]
        decide
  | track i =>
    simp only [step] at h
    split at h
    · cases h
    · rename_i download hdownload
      obtain ⟨hphase, heq⟩ := Option.ite_none_right_eq_some.mp h
      cases heq
      exact .inl (.track hdownload hphase)
  | available i answer =>
    simp only [step] at h
    split at h
    · cases h
    · rename_i download hdownload
      obtain ⟨hphase, heq⟩ := Option.ite_none_right_eq_some.mp h
      have hbefore : download.phase ≠ .written := by
        rw [hphase]
        decide
      split at heq
      · cases heq
        exact .inl (.setPhase hdownload hbefore (by decide) (by decide) fun uri ↦ by simp)
      · cases heq
        exact .inl (.setPhase hdownload hbefore (by decide) (by decide) hnone)
  | share i =>
    simp only [step] at h
    split at h
    · cases h
    · rename_i download hdownload
      obtain ⟨hphase, heq⟩ := Option.ite_none_right_eq_some.mp h
      cases heq
      refine .inl (.setPhase hdownload ?_ (by decide) (by decide) hnone)
      rw [hphase]
      decide
  | unmount =>
    obtain ⟨hmounted, heq⟩ := Option.ite_none_right_eq_some.mp h
    cases heq
    exact .inr (.inr (.inl ⟨rfl, hmounted, rfl, rfl⟩))
  | delete uri succeeds =>
    obtain ⟨hmem, heq⟩ := Option.ite_none_right_eq_some.mp h
    cases succeeds with
    | true =>
      cases heq
      exact .inr (.inr (.inr (.inl ⟨uri, rfl, hmem, rfl, rfl⟩)))
    | false =>
      cases heq
      exact .inr (.inr (.inr (.inr ⟨uri, rfl, hmem, rfl, rfl⟩)))

/-! ## While the screen is mounted -/

/-- Nothing is deleted while the screen is mounted. -/
structure Kept (s : State) (t : List Event) : Prop where
  deleting : s.mounted = true → s.deleting = []
  deleted : s.mounted = true → ∀ uri, .deleted uri ∉ t
  wrote : s.mounted = true → ∀ uri, .wrote uri ∈ t → s.cache uri ≠ none

theorem Kept.step (h : Kept s t) (hstep : step cacheDirectory s a = some (s', es)) : Kept s' (es ++ t) := by
  rcases step_cases hstep with hquiet | ⟨i, download, -, -, rfl, rfl⟩ | ⟨-, -, rfl, rfl⟩ |
    ⟨uri, -, hmem, rfl, rfl⟩ | ⟨uri, -, hmem, rfl, rfl⟩
  · refine ⟨fun hmounted ↦ ?_, fun hmounted uri hdeleted ↦ ?_, fun hmounted uri hwrote ↦ ?_⟩
    · rw [hquiet.mounted] at hmounted
      exact hquiet.deleting.trans (h.deleting hmounted)
    · rw [hquiet.mounted] at hmounted
      exact (List.mem_append.mp hdeleted).elim (hquiet.silent uri).2 (h.deleted hmounted uri)
    · rw [hquiet.mounted] at hmounted
      rw [hquiet.cache]
      exact (List.mem_append.mp hwrote).elim (absurd · (hquiet.silent uri).1) (h.wrote hmounted uri)
  · refine ⟨h.deleting, fun hmounted uri hdeleted ↦ ?_, fun hmounted uri hwrote ↦ ?_⟩
    · exact h.deleted hmounted uri (List.mem_of_ne_of_mem (by simp) hdeleted)
    · change Function.update s.cache download.uri (some download.contents) uri ≠ none
      by_cases huri : uri = download.uri
      · rw [huri, Function.update_self]
        exact Option.some_ne_none _
      · rw [Function.update_of_ne huri]
        exact h.wrote hmounted uri (List.mem_of_ne_of_mem (by simpa using huri) hwrote)
  · exact ⟨fun hmounted ↦ Bool.noConfusion hmounted, fun hmounted ↦ Bool.noConfusion hmounted,
      fun hmounted ↦ Bool.noConfusion hmounted⟩
  · refine ⟨fun hmounted ↦ ?_, fun hmounted ↦ ?_, fun hmounted ↦ ?_⟩ <;>
    · rw [h.deleting hmounted] at hmem
      cases hmem
  · refine ⟨fun hmounted ↦ ?_, fun hmounted ↦ ?_, fun hmounted ↦ ?_⟩ <;>
    · rw [h.deleting hmounted] at hmem
      cases hmem

theorem kept_run (h : (machine cacheDirectory autoWipe cache).Run s t) : Kept s t := by
  refine h.invariant ⟨fun _ ↦ rfl, fun _ uri hmem ↦ ?_, fun _ uri hmem ↦ ?_⟩ Kept.step
  · cases hmem
  · cases hmem

/-! ## After the unmount -/

/-- Where a file that was written is: it waits to be recorded, is recorded, is about to be deleted, or
is gone. -/
structure Accounted (s : State) (t : List Event) : Prop where
  wrote : ∀ uri, .wrote uri ∈ t →
    (∃ download ∈ s.downloads, download.uri = uri ∧ download.phase = .written) ∨ uri ∈ s.tempFiles ∨
      uri ∈ s.deleting ∨ s.cache uri = none
  tempFiles : s.mounted = false → s.tempFiles = []
  tracked : s.mounted = false → ∀ download ∈ s.downloads, download.isUntracked = false

theorem Accounted.step (h : Accounted s t) (hstep : step cacheDirectory s a = some (s', es))
    (hassumed : assumed s a = true) (hrecorded : recorded s a = true) : Accounted s' (es ++ t) := by
  rcases step_cases hstep with hquiet | ⟨i, download, hdownload, hphase, rfl, rfl⟩ | ⟨rfl, -, rfl, rfl⟩ |
    ⟨uri, -, hmem, rfl, rfl⟩ | ⟨uri, rfl, -⟩
  · refine ⟨fun uri hwrote ↦ ?_, fun hunmounted ↦ ?_, fun hunmounted ↦ ?_⟩
    · have hold := (List.mem_append.mp hwrote).resolve_left (hquiet.silent uri).1
      rw [hquiet.deleting, hquiet.cache]
      rcases h.wrote uri hold with ⟨download, hdownload, rfl, hphase⟩ | htemp | hrest
      · rcases hquiet.tracked download hdownload hphase with hmem | htemp
        · exact .inl ⟨download, hmem, rfl, hphase⟩
        · exact .inr (.inl htemp)
      · exact .inr (.inl (hquiet.tempFiles htemp))
      · exact .inr (.inr hrest)
    · rw [hquiet.mounted] at hunmounted
      rw [(hquiet.rest hunmounted (h.tracked hunmounted)).1, h.tempFiles hunmounted]
    · rw [hquiet.mounted] at hunmounted
      exact (hquiet.rest hunmounted (h.tracked hunmounted)).2
  · have hmounted : s.mounted ≠ false := by
      intro hunmounted
      have htracked := h.tracked hunmounted download (List.mem_of_getElem? hdownload)
      rw [Download.isUntracked, hphase] at htracked
      cases htracked
    refine ⟨fun uri hwrote ↦ ?_, fun hunmounted ↦ absurd hunmounted hmounted,
      fun hunmounted ↦ absurd hunmounted hmounted⟩
    by_cases huri : uri = download.uri
    · obtain ⟨hlt, -⟩ := List.getElem?_eq_some_iff.mp hdownload
      exact .inl ⟨{ download with phase := .written }, List.mem_set hlt _, huri.symm, rfl⟩
    · rcases h.wrote uri (List.mem_of_ne_of_mem (by simpa using huri) hwrote) with
        ⟨other, hother, hname, hwritten⟩ | htemp | hdeleting | hnone
      · refine .inl ⟨other, (mem_set_or hdownload hother).resolve_left ?_, hname, hwritten⟩
        rintro rfl
        cases hphase.symm.trans hwritten
      · exact .inr (.inl htemp)
      · exact .inr (.inr (.inl hdeleting))
      · exact .inr (.inr (.inr ((Function.update_of_ne huri _ _).trans hnone)))
  · have hwipe : s.autoWipe = true := hassumed
    have htracked : ∀ download ∈ s.downloads, download.isUntracked = false := fun download hmem ↦
      (Bool.not_eq_true' _).mp (List.all_eq_true.mp hrecorded download hmem)
    refine ⟨fun uri hwrote ↦ ?_, fun _ ↦ rfl, fun _ ↦ htracked⟩
    rw [hwipe, if_pos rfl]
    rcases h.wrote uri (List.mem_of_ne_of_mem (by simp) hwrote) with
      ⟨download, hdownload, -, hphase⟩ | htemp | hdeleting | hnone
    · have huntracked := htracked download hdownload
      rw [Download.isUntracked, hphase] at huntracked
      cases huntracked
    · exact .inr (.inr (.inl (List.mem_append_right _ htemp)))
    · exact .inr (.inr (.inl (List.mem_append_left _ hdeleting)))
    · exact .inr (.inr (.inr hnone))
  · refine ⟨fun uri' hwrote ↦ ?_, h.tempFiles, h.tracked⟩
    by_cases huri : uri' = uri
    · rw [huri]
      exact .inr (.inr (.inr (Function.update_self _ _ _)))
    · rcases h.wrote uri' (List.mem_of_ne_of_mem (by simp) hwrote) with hwritten | htemp | hdeleting | hnone
      · exact .inl hwritten
      · exact .inr (.inl htemp)
      · exact .inr (.inr (.inl ((List.mem_erase_of_ne huri).mpr hdeleting)))
      · exact .inr (.inr (.inr ((Function.update_of_ne huri _ _).trans hnone)))
  · cases hassumed

theorem accounted_run (h : ((machine cacheDirectory autoWipe cache).guard fun s a ↦
    assumed s a && recorded s a).Run s t) : Accounted s t := by
  refine h.invariant ?_ fun hacc hstep ↦ ?_
  · refine ⟨fun uri hmem ↦ ?_, fun hunmounted ↦ ?_, fun hunmounted ↦ ?_⟩
    · cases hmem
    · cases hunmounted
    · cases hunmounted
  · obtain ⟨hok, hstep⟩ := Machine.guard_eq_some.mp hstep
    obtain ⟨hassumed, hrecorded⟩ := Bool.and_eq_true_iff.mp hok
    exact hacc.step hstep hassumed hrecorded

/-- No file is left, in any run whose unmounts find every file recorded. -/
theorem cache_wiped (h : ((machine cacheDirectory autoWipe cache).guard fun s a ↦
    assumed s a && recorded s a).Run s t) : Wiped s t := by
  have hacc := accounted_run h
  have hkept := kept_run h.of_guard
  constructor
  · intro hunmounted _ hdeleting uri hwrote
    rcases hacc.wrote uri hwrote with ⟨download, hdownload, -, hphase⟩ | htemp | hmem | hnone
    · have huntracked := hacc.tracked hunmounted download hdownload
      rw [Download.isUntracked, hphase] at huntracked
      cases huntracked
    · rw [hacc.tempFiles hunmounted] at htemp
      cases htemp
    · rw [hdeleting] at hmem
      cases hmem
    · exact hnone
  · exact fun hmounted uri ↦ ⟨hkept.deleted hmounted uri, hkept.wrote hmounted uri⟩

/-! ## A file that is recorded too late -/

/-- After the unmount no deletion begins. -/
theorem stays_step {uri : String} (hstep : step cacheDirectory s a = some (s', es))
    (hunmounted : s.mounted = false) (huri : uri ∉ s.deleting) :
    s'.mounted = false ∧ uri ∉ s'.deleting ∧ .deleted uri ∉ es ∧
      (s.cache uri ≠ none ∨ .wrote uri ∈ es → s'.cache uri ≠ none) := by
  rcases step_cases hstep with hquiet | ⟨i, download, -, -, rfl, rfl⟩ | ⟨-, hmounted, -⟩ |
    ⟨other, -, hmem, rfl, rfl⟩ | ⟨other, -, -, rfl, rfl⟩
  · refine ⟨hquiet.mounted.trans hunmounted, hquiet.deleting ▸ huri, (hquiet.silent uri).2, ?_⟩
    rw [hquiet.cache]
    exact fun hor ↦ hor.resolve_right (hquiet.silent uri).1
  · refine ⟨hunmounted, huri, by simp, fun hor ↦ ?_⟩
    change Function.update s.cache download.uri (some download.contents) uri ≠ none
    by_cases hsame : uri = download.uri
    · rw [hsame, Function.update_self]
      exact Option.some_ne_none _
    · rw [Function.update_of_ne hsame]
      exact hor.resolve_right (by simpa using hsame)
  · exact Bool.noConfusion (hmounted.symm.trans hunmounted)
  · have hne : uri ≠ other := fun heq ↦ huri (heq ▸ hmem)
    refine ⟨hunmounted, fun hmem' ↦ huri (List.mem_of_mem_erase hmem'), by simpa using hne, fun hor ↦ ?_⟩
    change Function.update s.cache other none uri ≠ none
    rw [Function.update_of_ne hne]
    exact hor.resolve_right (by simp)
  · refine ⟨hunmounted, fun hmem' ↦ huri (List.mem_of_mem_erase hmem'), List.not_mem_nil, fun hor ↦ ?_⟩
    exact hor.resolve_right List.not_mem_nil

/-- What is not being deleted after the unmount is never deleted: a file whose write ends then stays. -/
theorem file_stays {actions : List Action} {t' : List Event} {uri : String}
    (hexec : (machine cacheDirectory autoWipe cache).exec actions s t = some (s', t'))
    (hunmounted : s.mounted = false) (huri : uri ∉ s.deleting) :
    ∃ later, t' = later ++ t ∧ .deleted uri ∉ later ∧
      (s.cache uri ≠ none ∨ .wrote uri ∈ later → s'.cache uri ≠ none) := by
  induction actions generalizing s t with
  | nil =>
    cases hexec
    exact ⟨[], rfl, List.not_mem_nil, fun hor ↦ hor.resolve_right List.not_mem_nil⟩
  | cons a actions ih =>
    unfold Machine.exec at hexec
    split at hexec
    · cases hexec
    · rename_i s₁ es hstep
      obtain ⟨hunmounted₁, huri₁, hdeleted, hcache⟩ := stays_step hstep hunmounted huri
      obtain ⟨later, rfl, hlater, hstays⟩ := ih hexec hunmounted₁ huri₁
      refine ⟨later ++ es, (List.append_assoc _ _ _).symm, ?_, fun hor ↦ hstays ?_⟩
      · exact fun hmem ↦ (List.mem_append.mp hmem).elim hlater hdeleted
      · rcases hor with hsome | hwrote
        · exact .inl (hcache (.inl hsome))
        · exact (List.mem_append.mp hwrote).elim .inr fun hes ↦ .inl (hcache (.inr hes))

end Steps

def samplePdf : PayloadAttachment := ⟨"tax return.pdf", "application/pdf", [1, 2, 3]⟩

/-- Two downloads, of which one is never shared and one is rejected by the share sheet. -/
def wipedActions : List Action :=
  [.download samplePdf 1, .write 0 true, .track 0, .available 0 (some true), .download samplePdf 2,
   .write 1 true, .track 1, .available 1 none, .unmount,
   .delete "file:///cache/aesmsg-2-tax_return.pdf" true, .delete "file:///cache/aesmsg-1-tax_return.pdf" true]

theorem cache_wiped_two : ∃ s t,
    ((machine (some "file:///cache/") true fun _ ↦ none).guard fun s a ↦ assumed s a && recorded s a).Run s t ∧
      Wiped s t ∧ s.mounted = false ∧ s.deleting = [] ∧
      Event.wrote "file:///cache/aesmsg-1-tax_return.pdf" ∈ t := by
  obtain ⟨s, t, hexec, hs⟩ : ∃ s t, ((machine (some "file:///cache/") true fun _ ↦ none).guard
      fun s a ↦ assumed s a && recorded s a).exec wipedActions
        ((machine (some "file:///cache/") true fun _ ↦ none).guard
          fun s a ↦ assumed s a && recorded s a).init [] = some (s, t) ∧ s.mounted = false ∧ s.deleting = [] ∧
      Event.wrote "file:///cache/aesmsg-1-tax_return.pdf" ∈ t := ⟨_, _, rfl, rfl, by decide, by decide⟩
  exact ⟨s, t, Machine.run_of_exec hexec, cache_wiped (Machine.run_of_exec hexec), hs⟩

/-- The screen is left while a write is pending. -/
def leftActions : List Action :=
  [.download samplePdf 1, .unmount, .write 0 true, .track 0, .available 0 (some false)]

theorem cache_left : ∃ s t,
    ((machine (some "file:///cache/") true fun _ ↦ none).guard assumed).Run s t ∧ s.mounted = false ∧
      (∀ download ∈ s.downloads, download.phase = .done) ∧ s.deleting = [] ∧
      s.cache "file:///cache/aesmsg-1-tax_return.pdf" = some "AQID" ∧ ¬Wiped s t := by
  obtain ⟨s, t, hexec, hunmounted, hdone, hdeleting, hwrote, hcache⟩ : ∃ s t,
      ((machine (some "file:///cache/") true fun _ ↦ none).guard assumed).exec leftActions
        ((machine (some "file:///cache/") true fun _ ↦ none).guard assumed).init [] = some (s, t) ∧
      s.mounted = false ∧ (∀ download ∈ s.downloads, download.phase = .done) ∧ s.deleting = [] ∧
      Event.wrote "file:///cache/aesmsg-1-tax_return.pdf" ∈ t ∧
      s.cache "file:///cache/aesmsg-1-tax_return.pdf" = some "AQID" :=
    ⟨_, _, rfl, rfl, by decide, by decide, by decide, by decide⟩
  refine ⟨s, t, Machine.run_of_exec hexec, hunmounted, hdone, hdeleting, hcache, fun hwiped ↦ ?_⟩
  have hnone := hwiped.left hunmounted
    (fun download hmem ↦ by rw [hdone download hmem]; decide) hdeleting _ hwrote
  cases hcache.symm.trans hnone

end Aesmsg.Reader.AttachmentCache
