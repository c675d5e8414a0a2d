import Aesmsg.Lib.Persisted
import Aesmsg.Settings.Format

/-!
# The settings provider

`SettingsProvider` of `settings-context.tsx`, on both platforms: it shows the defaults until it has loaded
what is stored, and applies an update at once while it is saved.  The store may be cleared by a wipe, a save
may fail, end half written or be overtaken by a later one, and the app may be closed at any moment.

## Main results

- `settings_survive`: what is loaded is always one valid record that was shown as a whole, and it is the
  last one that was shown where the saves reach the store in their order.
-/

namespace Aesmsg.Settings

open Persisted

def Mobile.provider : Persisted Binary64 Mobile.SettingsRecord (List UInt16) :=
  ⟨Mobile.SETTINGS_DEFAULTS, Mobile.saveSettings, Mobile.loadSettings⟩

def Web.provider : Persisted Binary64 Web.SettingsRecord JsonText.Value :=
  ⟨Web.SETTINGS_DEFAULTS, Web.saveSettings, Web.loadSettings⟩

theorem Mobile.provider_lawful :
    Mobile.provider.Lawful Mobile.SettingsRecord.preferences Mobile.SettingsRecord.clean where
  copied := Mobile.load_save
  defaults := Mobile.clean_of_valid validSeconds_default
  loaded text := Mobile.clean_of_valid (Mobile.validSeconds_load text)

theorem Web.provider_lawful :
    Web.provider.Lawful Web.SettingsRecord.preferences Web.SettingsRecord.clean where
  copied := Web.load_save
  defaults := Web.clean_of_valid validSeconds_default
  loaded record := Web.clean_of_valid (Web.validSeconds_migrate record)

section Survives

variable {ρ β : Type}

/-- What becomes of the settings of a provider, from a first content of the store. -/
structure Survives (P : Persisted Binary64 ρ β) (preferences clean : ρ → ρ) (Valid : ρ → Prop)
    (first : Stored β) : Prop where
  /-- In every run. -/
  snapshot : ∀ {s t}, (P.machine first).Run s t → Machine.Past (fun e before ↦ ∀ value,
    e = .loaded value → Valid value ∧ (value = P.defaults ∨ (∃ b, first = .copy b ∧ value = P.load b) ∨
      ∃ shown now, .updated shown now ∈ before ∧ preferences value = clean (preferences shown))) t
  /-- In runs whose saves end in their order, closing the app at any moment. -/
  restarted : ∀ {s t}, ((P.machine first).guard inOrder).Run s t → s.loading = .finished → s.saves = [] →
    upToDate t = true → ∃ s' t', (P.machine first).exec [.start false, .read false, .show] s t =
      some (s', t') ∧ preferences s'.shown = clean (preferences s.shown)
  /-- After whatever has failed. -/
  reconciled : ∀ (s : State ρ β) (t : List (Event Binary64 ρ)) (f : ρ → ρ) (now : Binary64), ∃ s' t',
    (P.machine first).exec (.update f now :: List.replicate (s.saves.length + 1) (.write 0)) s t =
      some (s', t') ∧ s'.shown = f s.shown ∧
      preferences (P.read s'.stored) = clean (preferences (f s.shown))
  unchanged : ∀ value, Valid value → clean (preferences value) = preferences value

theorem survives {P : Persisted Binary64 ρ β} {preferences clean : ρ → ρ} {Valid : ρ → Prop}
    (hP : P.Lawful preferences clean) (hdefaults : Valid P.defaults) (hload : ∀ b, Valid (P.load b))
    (hclean : ∀ value, Valid value → clean (preferences value) = preferences value) (first : Stored β) :
    Survives P preferences clean Valid first where
  snapshot := by
    rintro s t h t₂ t₁ e ht value rfl
    rcases Run.snapshot h t₂ t₁ _ ht value rfl with rfl | ⟨b, hfirst, rfl⟩ | ⟨shown, now, hmem, rfl⟩
    · exact ⟨hdefaults, .inl rfl⟩
    · exact ⟨hload b, .inr (.inl ⟨b, hfirst, rfl⟩)⟩
    · exact ⟨hload _, .inr (.inr ⟨shown, now, hmem, hP.copied now shown⟩)⟩
  restarted := by
    intro s t h hover hsaves hfresh
    exact ⟨_, _, rfl, Run.kept hP h hover hsaves hfresh⟩
  reconciled s t f now := Persisted.reconciled hP f now
  unchanged := hclean

end Survives

/-- On both platforms, whatever the store holds at first: what a screen loads is valid and is the
defaults, the first copy or a setting that was made, cleaned; after a restart the last settings are
shown, if the saves end in their order; and one further update makes up for the saves that failed. -/
theorem settings_survive :
    (∀ first, Survives Mobile.provider Mobile.SettingsRecord.preferences Mobile.SettingsRecord.clean
      (fun r ↦ ValidSeconds r.clipboardClearSeconds) first) ∧
    ∀ first, Survives Web.provider Web.SettingsRecord.preferences Web.SettingsRecord.clean
      (fun r ↦ ValidSeconds r.clipboardClearSeconds) first := by
  constructor
  · exact survives Mobile.provider_lawful validSeconds_default Mobile.validSeconds_load
      fun r hr ↦ Mobile.clean_of_valid (r := r.preferences) hr
  · exact survives Web.provider_lawful validSeconds_default Web.validSeconds_migrate
      fun r hr ↦ Web.clean_of_valid (r := r.preferences) hr

end Aesmsg.Settings
