import Aesmsg.Storage.Wipe

/-!
# Wipes among other calls

What is on the disk after a wipe, for every order of the steps of `Storage/Wipe.lean`.

## Main results

- `storage_survives`: where the steps are `Safe`, every file is read back under the key of the next
  `getEncryptedStore` once a wipe has completed; and in every run, what is there has been written
  since each completed wipe was called.
-/

namespace Aesmsg.Storage

open Threads

variable {T : Type} {G : Gcm} {J : Codec T} {i j : Nat} {x : Input} {pc pc' : Pc T} {d d' : Device}
  {es : List Event} {t : Trace Event} {store : Store}

/-! ## Under the condition -/

/-- The store that `getEncryptedStore` returns has the key of the keychain. -/
structure Device.Current (d : Device) (store : Store) : Prop where
  instance_ : d.instance_ = some store.id
  stores : d.stores store.id = some (.ok store.dek)
  keychain : d.keychain = some (Client.Mobile.bytesToBase64 store.dek)

theorem Device.Current.unique {store' : Store} (h : d.Current store) (h' : d.Current store') :
    store.dek = store'.dek := by
  have hid : store.id = store'.id := Option.some.inj (h.instance_.symm.trans h'.instance_)
  have hdek := h.stores.symm.trans (hid ▸ h'.stores)
  exact Except.ok.inj (Option.some.inj hdek)

/-- `getJson` reads this blob under a key. -/
def Reads (G : Gcm) (J : Codec T) (dek : List UInt8) (framed : String) : Prop :=
  ∃ value, ∀ key, openFrame G J dek key framed = .ok value

/-- Once a wipe has completed, the files are those of the current store. -/
structure Sound (G : Gcm) (J : Codec T) (d : Device) (t : Trace Event) : Prop where
  settled : ∀ id r, d.stores id = some r → (id, Event.settled) ∈ t
  readable : wiped t = true → d.blobs ≠ [] →
    ∃ store, d.Current store ∧ ∀ e ∈ d.blobs, Reads G J store.dek e.2

/-- What holds of a call. -/
def Pc.Holds (G : Gcm) (J : Codec T) (i : Nat) (d : Device) (t : Trace Event) : Pc T → Prop
  | .getEncryptedStore _ => mine i t = []
  | .getItem _ | .setItem .. | .settle .. => d.stores i = none
  | .getInfo _ store | .read _ store | .encrypt _ _ store => d.stores store.id = some (.ok store.dek)
  | .ensureDir _ store framed | .makeDirectory _ store framed | .write _ store framed =>
    d.stores store.id = some (.ok store.dek) ∧ Reads G J store.dek framed
  | .clear keys => left i t = some keys ∧ ∀ key ∈ d.blobs.keys, key ∈ keys
  | .reset => left i t = some [] ∧ d.blobs = []
  | .await .. | .delete _ | .keysInfo | .readDirectory | .done _ => True

theorem wiped_append (h : .reset ∉ es) : wiped (tag i es ++ t) = wiped t := by
  have hnone : (tag i es).any (·.2 = .reset) = false := by
    rw [List.any_eq_false]
    intro e he hreset
    exact h (of_decide_eq_true hreset ▸ mem_of_mem_tag (i := i) (j := e.1) he)
  unfold wiped
  rw [List.any_append, hnone, Bool.false_or]

@[simp] theorem left_tag_append (i : Nat) (es : List Event) (t : Trace Event) :
    left i (tag i es ++ t) = leftOf (es ++ mine i t) := by
  unfold left
  rw [mine_tag_append]

theorem left_tag_append_of_ne (h : i ≠ j) (es : List Event) (t : Trace Event) :
    left j (tag i es ++ t) = left j t := by
  unfold left
  rw [mine_tag_append_of_ne h]

/-- A wipe that has listed the directory is in the trace. -/
theorem exists_of_left {keys : List String} (h : left i t = some keys) : ∃ e ∈ t, e.1 = i := by
  cases hmine : mine i t with
  | nil =>
    unfold left at h
    rw [hmine] at h
    cases h
  | cons e rest =>
    have he : e ∈ mine i t := hmine ▸ List.mem_cons_self
    exact ⟨(i, e), mem_mine.mp he, rfl⟩

theorem blobs_eq_nil (h : ∀ key ∈ d.blobs.keys, key ∈ ([] : List String)) : d.blobs = [] := by
  rw [List.eq_nil_iff_forall_not_mem]
  rintro ⟨key, contents⟩ he
  cases h key (Files.mem_keys.mpr ⟨contents, he⟩)

theorem Sound.mono (h : Sound G J d t) (hinstance : d'.instance_ = d.instance_)
    (hkeychain : d'.keychain = d.keychain) (hstores : d'.stores = d.stores)
    (hblobs : ∀ e ∈ d'.blobs, e ∈ d.blobs) (hes : .reset ∉ es) : Sound G J d' (tag i es ++ t) := by
  constructor
  · intro id r hr
    rw [hstores] at hr
    exact List.mem_append_right _ (h.settled id r hr)
  · intro hwiped hne
    rw [wiped_append hes] at hwiped
    obtain ⟨e, he⟩ := List.exists_mem_of_ne_nil _ hne
    obtain ⟨store, ⟨hi, hs, hk⟩, hreads⟩ :=
      h.readable hwiped (List.ne_nil_of_mem (hblobs e he))
    refine ⟨store, ⟨hinstance.trans hi, ?_, hkeychain.trans hk⟩, fun e he ↦ hreads e (hblobs e he)⟩
    rw [hstores]
    exact hs

theorem Sound.append (h : Sound G J d t) (hes : .reset ∉ es) : Sound G J d (tag i es ++ t) :=
  h.mono rfl rfl rfl (fun _ he ↦ he) hes

/-- Without files there is nothing to read. -/
theorem Sound.of_empty (h : Sound G J d t) (hstores : d'.stores = d.stores) (hempty : d'.blobs = []) :
    Sound G J d' (tag i es ++ t) := by
  constructor
  · intro id r hr
    rw [hstores] at hr
    exact List.mem_append_right _ (h.settled id r hr)
  · intro _ hne
    exact absurd hempty hne

/-- What a step of call `i` establishes. -/
structure Kept (G : Gcm) (J : Codec T) (i : Nat) (d : Device) (t : Trace Event) (pc' : Pc T) (d' : Device)
    (es : List Event) : Prop where
  others : ∀ id, id ≠ i → d'.stores id = d.stores id
  settled : ∀ r, d.stores i = some r → d'.stores i = some r
  sound : Sound G J d' (tag i es ++ t)
  own : pc'.Holds G J i d' (tag i es ++ t)

theorem Kept.of_stores (hstores : d'.stores = d.stores) (hsound : Sound G J d' (tag i es ++ t))
    (hown : pc'.Holds G J i d' (tag i es ++ t)) : Kept G J i d t pc' d' es :=
  ⟨fun id _ ↦ congrFun hstores id, fun _ hr ↦ (congrFun hstores i).trans hr, hsound, hown⟩

theorem Kept.stay (hsound : Sound G J d t) (h : pc'.Holds G J i d t) : Kept G J i d t pc' d [] :=
  .of_stores rfl hsound h

/-- A native call of a domain store that leaves the device alone. -/
theorem Kept.call {resolved : Pc T} (hsound : Sound G J d t) (h : call x d (resolved, d, []) = some (pc', d', es))
    (hholds : resolved.Holds G J i d t) : Kept G J i d t pc' d' es := by
  rcases call_eq h with ⟨rfl, rfl, rfl⟩ | ⟨-, heq⟩
  · exact .stay hsound trivial
  · cases heq
    exact .stay hsound hholds

theorem Sound.none_of_idle (h : Sound G J d t) (hidle : mine i t = []) : d.stores i = none := by
  cases hs : d.stores i with
  | none => rfl
  | some r =>
    have hmem : Event.settled ∈ mine i t := mem_mine.mpr (h.settled i r hs)
    rw [hidle] at hmem
    cases hmem

theorem kept_getEncryptedStore {op : Op T} (hsound : Sound G J d t) (hidle : mine i t = [])
    (h : step G J i x (.getEncryptedStore op) d = some (pc', d', es)) : Kept G J i d t pc' d' es := by
  simp only [step] at h
  split at h
  · rename_i hnone
    cases h
    refine .of_stores rfl ⟨fun id r hr ↦ List.mem_append_right _ (hsound.settled id r hr), ?_⟩
      (hsound.none_of_idle hidle)
    intro hwiped hne
    obtain ⟨store, hcurrent, -⟩ := hsound.readable hwiped hne
    cases hnone.symm.trans hcurrent.instance_
  · cases h
    exact .of_stores rfl (hsound.append (by decide)) trivial

theorem kept_settle {op : Op T} {result : Except StorageError (List UInt8)} (hsound : Sound G J d t)
    (hnone : d.stores i = none) (h : step G J i x (.settle op result) d = some (pc', d', es)) :
    Kept G J i d t pc' d' es := by
  cases h
  have hother (id : Nat) (hid : id ≠ i) : Function.update d.stores i (some result) id = d.stores id :=
    Function.update_of_ne hid _ _
  refine ⟨hother, fun _ hr ↦ ?_, ⟨fun id r hr ↦ ?_, fun hwiped hne ↦ ?_⟩, trivial⟩
  · cases hnone.symm.trans hr
  · by_cases hid : id = i
    · exact List.mem_append_left _ (hid ▸ List.mem_cons_self)
    · exact List.mem_append_right _ (hsound.settled id r ((hother id hid).symm.trans hr))
  · rw [wiped_append (by decide)] at hwiped
    obtain ⟨store, ⟨hi, hs, hk⟩, hreads⟩ := hsound.readable hwiped hne
    have hid : store.id ≠ i := by
      intro hid
      rw [hid, hnone] at hs
      cases hs
    exact ⟨store, ⟨hi, (hother store.id hid).trans hs, hk⟩, hreads⟩

theorem kept_setItem {op : Op T} {dek : List UInt8} (hsafe : Safe i x (.setItem op dek) d t)
    (hsound : Sound G J d t) (hnone : d.stores i = none)
    (h : step G J i x (.setItem op dek) d = some (pc', d', es)) : Kept G J i d t pc' d' es := by
  rcases native_eq h with ⟨-, heq⟩ | ⟨hfails, heq⟩
  · cases heq
    exact .stay hsound hnone
  · cases heq
    exact .of_stores rfl ⟨hsound.settled, fun hwiped hne ↦ absurd (hsafe hfails hwiped) hne⟩ hnone

theorem kept_write {key framed : String} (hsafe : Safe i x (Pc.write key store framed : Pc T) d t)
    (hsound : Sound G J d t) (hstore : d.stores store.id = some (.ok store.dek))
    (hreads : Reads G J store.dek framed) (h : step G J i x (.write key store framed) d = some (pc', d', es)) :
    Kept G J i d t pc' d' es := by
  simp only [step] at h
  split at h
  · cases h
    exact .stay hsound trivial
  · rename_i files hdir
    rcases call_eq h with ⟨rfl, rfl, rfl⟩ | ⟨hfails, heq⟩
    · exact .stay hsound trivial
    · cases heq
      obtain ⟨-, hcurrent⟩ := hsafe hfails
      refine .of_stores rfl ⟨fun id r hr ↦ List.mem_append_right _ (hsound.settled id r hr), ?_⟩ trivial
      intro hwiped _
      rw [wiped_append (by simp)] at hwiped
      obtain ⟨hinstance, hkeychain⟩ := hcurrent hwiped
      have hnow : d.Current store := ⟨hinstance, hstore, hkeychain⟩
      refine ⟨store, ⟨hinstance, hstore, hkeychain⟩, fun e he ↦ ?_⟩
      rcases List.mem_cons.mp he with rfl | he
      · exact hreads
      · have hold : e ∈ d.blobs := by
          unfold Device.blobs
          rw [hdir]
          exact (Files.mem_remove.mp he).1
        obtain ⟨store', hcurrent', hreads'⟩ := hsound.readable hwiped (List.ne_nil_of_mem hold)
        exact hcurrent'.unique hnow ▸ hreads' e hold

theorem kept_clear {keys : List String} (hsound : Sound G J d t) (hleft : left i t = some keys)
    (hkeys : ∀ key ∈ d.blobs.keys, key ∈ keys) (h : step G J i x (.clear keys) d = some (pc', d', es)) :
    Kept G J i d t pc' d' es := by
  have hrejected : Sound G J d (tag i [.rejected] ++ t) := hsound.append (by decide)
  cases keys with
  | nil =>
    rcases native_eq h with ⟨-, heq⟩ | ⟨-, heq⟩
    · cases heq
      exact .of_stores rfl hrejected trivial
    · cases heq
      have hempty : d.blobs = [] := blobs_eq_nil hkeys
      exact .of_stores rfl (hsound.of_empty rfl hempty) ⟨hleft, hempty⟩
  | cons key keys =>
    rcases native_eq h with ⟨-, heq⟩ | ⟨-, heq⟩
    · cases heq
      exact .of_stores rfl hrejected trivial
    · cases heq
      refine .of_stores rfl (hsound.mono rfl rfl rfl (fun e he ↦ (mem_remove he).1) (by simp)) ⟨?_, ?_⟩
      · rw [left_tag_append]
        change (left i t).map List.tail = some keys
        rw [hleft]
        rfl
      · intro key' hkey'
        obtain ⟨contents, he⟩ := Files.mem_keys.mp hkey'
        obtain ⟨hold, hne⟩ := mem_remove he
        exact (List.mem_cons.mp (hkeys key' (Files.mem_keys.mpr ⟨contents, hold⟩))).resolve_left hne

/-- A step that meets the condition keeps the invariant and the assertion of its call. -/
theorem step_kept (hG : G.Lawful) (hJ : J.Lawful) (hsafe : Safe i x pc d t) (hsound : Sound G J d t)
    (hown : pc.Holds G J i d t) (h : step G J i x pc d = some (pc', d', es)) : Kept G J i d t pc' d' es := by
  cases pc with
  | getEncryptedStore op => exact kept_getEncryptedStore hsound hown h
  | getItem op =>
    rcases native_eq h with ⟨-, heq⟩ | ⟨-, heq⟩
    · cases heq
      exact .stay hsound hown
    · split at heq
      · cases heq
        exact .stay hsound hown
      · cases heq
        exact .stay hsound hown
  | setItem op dek => exact kept_setItem hsafe hsound hown h
  | settle op result => exact kept_settle hsound hown h
  | await op id =>
    simp only [step] at h
    split at h
    · cases h
    · cases h
      exact .stay hsound trivial
    · rename_i dek hdek
      cases h
      refine .stay hsound ?_
      cases op with
      | get | set => exact hdek
      | remove | wipe => exact trivial
  | getInfo key store =>
    refine .call hsound h ?_
    split
    · exact hown
    · exact trivial
  | read key store =>
    refine .call hsound h ?_
    split
    · exact trivial
    · exact trivial
  | encrypt key value store =>
    simp only [step] at h
    split at h
    · cases h
      exact .stay hsound trivial
    · rename_i framed hframed
      cases h
      exact .stay hsound ⟨hown, value, openFrame_sealFrame hG hJ hframed⟩
  | ensureDir key store framed =>
    refine .call hsound h ?_
    split
    · exact hown
    · exact hown
  | makeDirectory key store framed =>
    rcases call_eq h with ⟨rfl, rfl, rfl⟩ | ⟨-, heq⟩
    · exact .stay hsound trivial
    · cases heq
      exact .of_stores rfl (hsound.mono rfl rfl rfl (fun _ he ↦ he) (by decide)) hown
  | write key store framed => exact kept_write hsafe hsound hown.1 hown.2 h
  | delete key =>
    rcases call_eq h with ⟨rfl, rfl, rfl⟩ | ⟨-, heq⟩
    · exact .stay hsound trivial
    · cases heq
      exact .of_stores rfl (hsound.mono rfl rfl rfl (fun e he ↦ (mem_remove he).1) (by decide)) trivial
  | keysInfo =>
    rcases call_eq h with ⟨rfl, rfl, rfl⟩ | ⟨-, heq⟩
    · exact .stay hsound trivial
    · split at heq
      · cases heq
        exact .stay hsound trivial
      · rename_i hdir
        cases heq
        refine .of_stores rfl (hsound.append (by decide)) ⟨left_tag_append .., ?_⟩
        rw [Option.not_isSome_iff_eq_none] at hdir
        unfold Device.blobs
        rw [hdir]
        rintro key ⟨⟩
  | readDirectory =>
    rcases call_eq h with ⟨rfl, rfl, rfl⟩ | ⟨-, heq⟩
    · exact .stay hsound trivial
    · cases heq
      exact .of_stores rfl (hsound.append (by simp)) ⟨left_tag_append .., fun key hkey ↦ hkey⟩
  | clear keys => exact kept_clear hsound hown.1 hown.2 h
  | reset =>
    cases h
    exact .of_stores rfl (hsound.of_empty rfl hown.2) trivial
  | done result => cases h

/-- What another call knows stays true. -/
theorem Kept.thread {pc₂ : Pc T} (h : Kept G J i d t pc' d' es) (hsafe : Safe i x pc d t)
    (htouches : Touches x pc d d' es) (hj : i ≠ j) (h₂ : pc₂.Holds G J j d t) :
    pc₂.Holds G J j d' (tag i es ++ t) := by
  have hstores {id : Nat} {r : Except StorageError (List UInt8)} (hr : d.stores id = some r) :
      d'.stores id = some r := by
    by_cases hid : id = i
    · exact hid ▸ h.settled r (hid ▸ hr)
    · exact (h.others id hid).trans hr
  have hkeys {keys : List String} (hleft : left j t = some keys) (hbefore : ∀ key ∈ d.blobs.keys, key ∈ keys) :
      ∀ key ∈ d'.blobs.keys, key ∈ keys := by
    intro key hkey
    rcases htouches.keys hkey with hold | ⟨store, framed, rfl, hfails, -⟩
    · exact hbefore key hold
    · obtain ⟨e, he, rfl⟩ := exists_of_left hleft
      exact (hsafe hfails).1 e he keys hleft
  cases pc₂ with
  | getEncryptedStore => exact (mine_tag_append_of_ne hj es t).trans h₂
  | getItem | setItem | settle => exact (h.others j hj.symm).trans h₂
  | getInfo | read | encrypt => exact hstores h₂
  | ensureDir | makeDirectory | write => exact ⟨hstores h₂.1, h₂.2⟩
  | clear keys => exact ⟨(left_tag_append_of_ne hj es t).trans h₂.1, hkeys h₂.1 h₂.2⟩
  | reset =>
    obtain ⟨hleft, hempty⟩ := h₂
    refine ⟨(left_tag_append_of_ne hj es t).trans hleft, blobs_eq_nil (hkeys hleft ?_)⟩
    rw [hempty]
    rintro key ⟨⟩
  | await | delete | keysInfo | readDirectory | done => exact trivial

theorem keeps_safe (hG : G.Lawful) (hJ : J.Lawful) :
    Program.Keeps (program G J) Safe (Sound G J) fun i pc d t ↦ pc.Holds G J i d t where
  born := by
    intro i op d t _ hnone
    exact mine_eq_nil hnone
  own := by
    intro i x pc d t pc' d' es hsafe hsound hown hstep
    have hkept := step_kept hG hJ hsafe hsound hown hstep
    exact ⟨hkept.sound, hkept.own⟩
  others := by
    intro i x pc d t pc' d' es j pc₂ hij hsafe hsound hown hstep h₂
    exact (step_kept hG hJ hsafe hsound hown hstep).thread hsafe (step_touches hstep) hij h₂

theorem Device.Started.sound (h : d.Started) : Sound G J d [] := by
  constructor
  · intro id r hr
    cases (h.2 id).symm.trans hr
  · rintro ⟨⟩

/-! ## In every run -/

/-- Every file is one of `keys`, or has been written since wipe `i` was called. -/
def Fresh (i : Nat) (d : Device) (t : Trace Event) (keys : List String) : Prop :=
  ∀ key ∈ d.blobs.keys, key ∈ keys ∨ ∃ j, (j, Event.wrote key) ∈ since (i, .started) t

/-- What holds of a wipe. -/
def Pc.Clears (i : Nat) (d : Device) (t : Trace Event) : Pc T → Prop
  | .getEncryptedStore _ => mine i t = []
  | .clear keys => Fresh i d t keys
  | .reset => Fresh i d t []
  | _ => True

def AllFresh (d : Device) (t : Trace Event) : Prop := ∀ i, (i, Event.reset) ∈ t → Fresh i d t []

theorem Fresh.step {keys : List String} (h : Fresh j d t keys) (htouches : Touches x pc d d' es)
    (hstarted : (j, Event.started) ∉ tag i es) : Fresh j d' (tag i es ++ t) keys := by
  intro key hkey
  rw [since_append_of_not_mem hstarted]
  rcases htouches.keys hkey with hold | ⟨store, framed, -, -, rfl⟩
  · rcases h key hold with hk | ⟨k, hk⟩
    · exact .inl hk
    · exact .inr ⟨k, List.mem_append_right _ hk⟩
  · exact .inr ⟨i, List.mem_append_left _ List.mem_cons_self⟩

theorem Fresh.step_own {keys : List String} (h : Fresh i d t keys) (htouches : Touches x pc d d' es)
    (hes : .started ∉ es) : Fresh i d' (tag i es ++ t) keys :=
  h.step htouches fun hmem ↦ hes (mem_of_mem_tag hmem)

theorem step_clears (h : step G J i x pc d = some (pc', d', es)) (hown : pc.Clears i d t) :
    pc'.Clears i d' (tag i es ++ t) := by
  have htouches := step_touches h
  cases pc with
  | keysInfo =>
    rcases call_eq h with ⟨rfl, rfl, rfl⟩ | ⟨-, heq⟩
    · exact trivial
    · split at heq
      · cases heq
        exact trivial
      · rename_i hdir
        cases heq
        rw [Option.not_isSome_iff_eq_none] at hdir
        intro key hkey
        unfold Device.blobs at hkey
        rw [hdir] at hkey
        cases hkey
  | readDirectory =>
    rcases call_eq h with ⟨rfl, rfl, rfl⟩ | ⟨-, heq⟩
    · exact trivial
    · cases heq
      exact fun key hkey ↦ .inl hkey
  | clear keys =>
    cases keys with
    | nil =>
      rcases native_eq h with ⟨-, heq⟩ | ⟨-, heq⟩
      · cases heq
        exact trivial
      · cases heq
        exact Fresh.step_own hown htouches (by simp)
    | cons key keys =>
      rcases native_eq h with ⟨-, heq⟩ | ⟨-, heq⟩
      · cases heq
        exact trivial
      · cases heq
        intro key' hkey'
        obtain ⟨contents, he⟩ := Files.mem_keys.mp hkey'
        rcases Fresh.step_own hown htouches (by simp) key' hkey' with hk | hk
        · exact .inl ((List.mem_cons.mp hk).resolve_left (mem_remove he).2)
        · exact .inr hk
  | await op id =>
    simp only [step] at h
    split at h
    · cases h
    · cases h
      exact trivial
    · cases h
      cases op with
      | get | set | remove | wipe => exact trivial
  | _ => grind [step, native, call, Pc.Clears]

/-- The steps that call a wipe or complete it. -/
theorem step_events (h : step G J i x pc d = some (pc', d', es)) :
    (.started ∈ es → ∃ op, pc = .getEncryptedStore op) ∧ (.reset ∈ es → pc = .reset) := by
  cases pc with
  | clear keys =>
    cases keys with
    | nil =>
      rcases native_eq h with ⟨-, heq⟩ | ⟨-, heq⟩
      · cases heq
        simp
      · cases heq
        simp
    | cons key keys =>
      rcases native_eq h with ⟨-, heq⟩ | ⟨-, heq⟩
      · cases heq
        simp
      · cases heq
        simp
  | _ => grind [step, native, call]

theorem keeps_clears : Program.Keeps (program G J) .always AllFresh fun i pc d t ↦ pc.Clears i d t where
  born := by
    intro i op d t _ hnone
    exact mine_eq_nil hnone
  own := by
    intro i x pc d t pc' d' es _ hall hown hstep
    have htouches := step_touches hstep
    obtain ⟨hstarted, hreset⟩ := step_events hstep
    refine ⟨fun j hj ↦ ?_, step_clears hstep hown⟩
    rcases mem_tag_append hj with ⟨rfl, hes⟩ | hold
    · obtain rfl := hreset hes
      refine Fresh.step_own hown htouches fun hes ↦ ?_
      obtain ⟨op, hop⟩ := hstarted hes
      cases hop
    · refine (hall j hold).step htouches fun hes ↦ ?_
      obtain ⟨op, rfl⟩ := hstarted (mem_of_mem_tag hes)
      obtain rfl : j = i := fst_of_mem_tag hes
      have hmine : Event.reset ∈ mine j t := mem_mine.mpr hold
      rw [show mine j t = [] from hown] at hmine
      cases hmine
  others := by
    intro i x pc d t pc' d' es j pc₂ hij _ _ _ hstep h₂
    have hstarted : (j, Event.started) ∉ tag i es := fun hes ↦ hij (fst_of_mem_tag hes).symm
    cases pc₂ with
    | getEncryptedStore => exact (mine_tag_append_of_ne hij es t).trans h₂
    | clear | reset => exact Fresh.step h₂ (step_touches hstep) hstarted
    | _ => exact trivial

/-! ## The result -/

/-- Once a wipe has completed, in a run whose steps meet the condition every file is read back under the
key of the next `getEncryptedStore`; and in any run, every file has been written since each completed
wipe was called. -/
theorem storage_survives (hG : G.Lawful) (hJ : J.Lawful) (hd : d.Started) :
    (∀ c, (program G J).Reachable Safe d c → wiped c.trace = true → ∀ key framed,
      (key, framed) ∈ c.shared.blobs → ∃ dek, (∀ dek', c.shared.Uses dek' ↔ dek' = dek) ∧
        ∃ value, openFrame G J dek key framed = .ok value) ∧
    (∀ c, (program G J).Reachable .always d c → ∀ wipe, (wipe, Event.reset) ∈ c.trace → ∀ key framed,
      (key, framed) ∈ c.shared.blobs → ∃ i, (i, Event.wrote key) ∈ since (wipe, .started) c.trace) := by
  constructor
  · intro c hc hwiped key framed hmem
    have hsound := (Program.invariant (keeps_safe hG hJ) hd.sound hc).shared
    obtain ⟨store, ⟨hinstance, hstores, -⟩, hreads⟩ := hsound.readable hwiped (List.ne_nil_of_mem hmem)
    obtain ⟨value, hvalue⟩ := hreads _ hmem
    refine ⟨store.dek, fun dek' ↦ ?_, value, hvalue key⟩
    unfold Device.Uses
    rw [hinstance]
    dsimp only
    rw [hstores]
    constructor
    · intro h
      exact (Except.ok.inj (Option.some.inj h)).symm
    · rintro rfl
      rfl
  · intro c hc wipe hreset key framed hmem
    have hall := (Program.invariant keeps_clears (by rintro i ⟨⟩) hc).shared
    rcases hall wipe hreset key (Files.mem_keys.mpr ⟨framed, hmem⟩) with hk | hk
    · cases hk
    · exact hk

/-! ## A write among the steps of a wipe -/

def sampleInput : Input := ⟨false, ⟨List.replicate 32 1, by decide⟩, ⟨List.replicate 12 0, by decide⟩⟩

/-- Another key. -/
def freshInput : Input := { sampleInput with dek := ⟨List.replicate 32 2, by decide⟩ }

/-- A device without a key. -/
def Device.initial : Device := ⟨none, none, none, fun _ ↦ none⟩

theorem Device.initial_started : Device.initial.Started := ⟨rfl, fun _ ↦ rfl⟩

def steps (i n : Nat) (x : Input) : List (Action (Op String) Input) := List.replicate n (.run i x)

/-- A write, a wipe, and another write. -/
def inTurn : List (Action (Op String) Input) :=
  .spawn (.set "contacts" "[]") :: steps 0 9 sampleInput ++ .spawn .wipe :: steps 1 7 sampleInput ++
    .spawn (.set "contacts" "[]") :: steps 2 8 freshInput

/-- A write is about to reach the disk when a wipe runs; then the file is read. -/
def raced : List (Action (Op String) Input) :=
  .spawn (.set "contacts" "[]") :: steps 0 8 sampleInput ++ .spawn .wipe :: steps 1 6 sampleInput ++
    steps 0 1 sampleInput ++ .spawn (.get "contacts") :: steps 2 7 freshInput

def Pc.isDone : Pc T → Bool
  | .done _ => true
  | _ => false

/-- All calls have ended, a wipe among them, and the first file is read back, or is not. -/
def outcome (c : Config (Pc String) Device Event) : Option Bool :=
  match c.shared.blobs, c.shared.instance_.bind c.shared.stores with
  | (key, framed) :: _, some (.ok dek) =>
    if c.threads.all Pc.isDone && wiped c.trace then
      some (openFrame .transparent .text dek key framed).isOk
    else none
  | _, _ => none

theorem of_outcome {c : Config (Pc String) Device Event} {readable : Bool} (h : outcome c = some readable) :
    (∀ pc ∈ c.threads, pc.isDone = true) ∧ wiped c.trace = true ∧
      ∃ key framed dek, (key, framed) ∈ c.shared.blobs ∧ (∀ dek', c.shared.Uses dek' ↔ dek' = dek) ∧
        (openFrame .transparent .text dek key framed).isOk = readable := by
  unfold outcome at h
  split at h
  · rename_i key framed rest dek hblobs hstore
    split at h
    · rename_i hdone
      rw [Bool.and_eq_true, List.all_eq_true] at hdone
      obtain ⟨id, hinstance, hid⟩ := Option.bind_eq_some_iff.mp hstore
      refine ⟨hdone.1, hdone.2, key, framed, dek, hblobs ▸ List.mem_cons_self, fun dek' ↦ ?_,
        Option.some.inj h⟩
      unfold Device.Uses
      rw [hinstance]
      dsimp only
      rw [hid]
      constructor
      · intro heq
        exact (Except.ok.inj (Option.some.inj heq)).symm
      · rintro rfl
        rfl
    · cases h
  · cases h

theorem storage_survives_inTurn : ∃ c, (program .transparent .text).exec Safe (Program.start .initial) inTurn
    = some c ∧ ∃ key framed, (key, framed) ∈ c.shared.blobs ∧ ∃ dek, (∀ dek', c.shared.Uses dek' ↔ dek' = dek) ∧
      ∃ value, openFrame .transparent .text dek key framed = .ok value := by
  have hrun : ((program .transparent .text).exec Safe (Program.start .initial) inTurn).bind outcome = some true := by
    decide +kernel
  obtain ⟨c, hc, hv⟩ := Option.bind_eq_some_iff.mp hrun
  obtain ⟨-, hwiped, key, framed, -, hmem, -⟩ := of_outcome hv
  have hsurvives := storage_survives Gcm.transparent_lawful Codec.text_lawful Device.initial_started
  exact ⟨c, hc, key, framed, hmem, hsurvives.1 c (Program.runs_of_exec hc) hwiped key framed hmem⟩

/-- The write that was under way leaves a file that no store reads. -/
theorem raced_unreadable : ¬∀ c, (program .transparent .text).Reachable .always .initial c →
    wiped c.trace = true → (∀ pc ∈ c.threads, pc.isDone = true) → ∀ key framed,
      (key, framed) ∈ c.shared.blobs → ∀ dek, c.shared.Uses dek →
        ∃ value, openFrame .transparent .text dek key framed = .ok value := by
  intro h
  have hrun : ((program .transparent .text).exec .always (Program.start .initial) raced).bind outcome
      = some false := by
    decide +kernel
  obtain ⟨c, hc, hv⟩ := Option.bind_eq_some_iff.mp hrun
  obtain ⟨hdone, hwiped, key, framed, dek, hmem, huses, hopen⟩ := of_outcome hv
  obtain ⟨value, hvalue⟩ := h c (Program.runs_of_exec hc) hwiped hdone key framed hmem dek ((huses dek).mpr rfl)
  rw [hvalue] at hopen
  cases hopen

end Aesmsg.Storage
