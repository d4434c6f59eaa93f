import VectorSearch.Proofs.InPlace
import VectorSearch.Proofs.Settings.Document
import VectorSearch.Settings.File
/-!
Settings in a file. Saved settings are loaded again, a save that is refused leaves the file as it
is, and settings with a fault never come out of a text.
-/

namespace VectorSearch

open Toml

namespace Settings

theorem map_check_eq_ok {settings read : Settings}
    (handed : (settings.check.map fun _ => settings) = .ok read) : read.check = .ok () := by
  cases checked : settings.check with
  | error failure =>
      rw [checked] at handed
      cases handed
  | ok =>
      rw [checked] at handed
      cases handed
      exact checked

theorem check_of_parse [Library] {text : String} {settings : Settings}
    (parsed : parse text = .ok settings) : settings.check = .ok () := by
  rw [parse] at parsed
  cases found : read text with
  | error reason =>
      rw [found] at parsed
      cases parsed
  | ok settings =>
      rw [found] at parsed
      exact map_check_eq_ok parsed

theorem exists_write [Library] [LawfulLibrary] {settings : Settings}
    (fits : ∀ count ∈ settings.counts, count ≤ 2 ^ 63 - 1) :
    ∃ text, settings.write = .ok text ∧ read text = .ok settings := by
  obtain ⟨text, written, found⟩ := exists_text settings fits (fun _ => true) fun _ => true
  rw [partsOf_all] at written
  exact ⟨text, by rw [write, written]; rfl, found⟩

theorem write_eq_error [Library] [LawfulLibrary] {settings : Settings}
    (large : ∃ count ∈ settings.counts, 2 ^ 63 - 1 < count) :
    ∃ message, settings.write = .error (.configuration message) := by
  have plain := plain_groups settings
  rw [write]
  cases written : Library.write settings.groups with
  | error reason => exact ⟨_, rfl⟩
  | ok text =>
      obtain ⟨count, member, above⟩ := large
      have fits := (LawfulLibrary.exists_write_iff plain).mp ⟨text, written⟩
      exact absurd ((fits_iff settings).mp fits count member) (Nat.not_le_of_lt above)

end Settings

namespace SettingsFile

/-! Calls made in place. -/

theorem run_writeInPlace (file : SettingsFile) (action path text : String) :
    (writeInPlace action path text).run file =
      performed file (file.write action path text) := by
  cases file <;> rfl

theorem run_writeDefaultInPlace (file : SettingsFile) (path : String) :
    (writeDefaultInPlace path).run file = performed file (file.writeDefault path) := by
  simp only [writeDefaultInPlace, writeDefault, EStateM.run_bind, EStateM.run_get]
  cases file.bytes? with
  | some bytes => rfl
  | none => exact run_writeInPlace file "write default" path Settings.defaultText

theorem run_saveInPlace [Library] (file : SettingsFile) (path : String) (settings : Settings) :
    (saveInPlace path settings).run file = performed file (file.save path settings) := by
  rw [saveInPlace, save]
  cases settings.write with
  | error failure => rfl
  | ok text => exact run_writeInPlace file "write" path text

/-! Files with a text. -/

theorem run_saveInPlace_of_text [Library] {file : SettingsFile} (folder : file ≠ .folderMissing)
    {settings : Settings} {text : String} (written : settings.write = .ok text) (path : String) :
    (saveInPlace path settings).run file = .ok () (.holds text.toUTF8) := by
  rw [run_saveInPlace, save, written]
  cases file with
  | folderMissing => exact absurd rfl folder
  | missing | holds bytes => rfl

theorem run_saveInPlace_of_no_text [Library] (file : SettingsFile) {settings : Settings}
    {failure : Failure} (refused : settings.write = .error failure) (path : String) :
    (saveInPlace path settings).run file = .error (.refused failure) file := by
  rw [run_saveInPlace, save, refused]
  rfl

theorem run_writeDefaultInPlace_holds (path : String) (bytes : ByteArray) :
    (writeDefaultInPlace path).run (.holds bytes) = .ok () (.holds bytes) := by
  rw [run_writeDefaultInPlace, writeDefault]
  rfl

theorem fromUTF8?_toUTF8 (text : String) : String.fromUTF8? text.toUTF8 = some text := by
  rw [String.toUTF8_eq_toByteArray, String.fromUTF8?, dif_pos text.isValidUTF8]
  rfl

theorem load_of_read [Library] {path text : String} {settings : Settings}
    (found : Settings.read text = .ok settings) :
    load path (.holds text.toUTF8) = settings.check.map fun _ => settings := by
  rw [load, bytes?]
  simp only [fromUTF8?_toUTF8, found]

theorem check_of_load [Library] {path : String} {file : SettingsFile} {settings : Settings}
    (loaded : load path file = .ok settings) : settings.check = .ok () := by
  unfold load at loaded
  split at loaded
  · cases loaded
  · split at loaded
    · cases loaded
    · split at loaded
      · cases loaded
      · exact Settings.map_check_eq_ok loaded

/-- Saved settings are loaded and parsed as they are, or with their first fault. A count above the
greatest signed word keeps them from being saved, which leaves the file as it is. A file that exists
does not give way to the defaults, and nothing that is loaded or parsed has a fault. -/
theorem save_load [Library] [LawfulLibrary] (path : String) (file : SettingsFile) :
    (∀ settings : Settings, (∀ count ∈ settings.counts, count ≤ 2 ^ 63 - 1) →
      file ≠ .folderMissing → ∃ text,
        (saveInPlace path settings).run file = .ok () (.holds text.toUTF8) ∧
          (load path (.holds text.toUTF8) = settings.check.map fun _ => settings) ∧
          Settings.parse text = settings.check.map fun _ => settings) ∧
    (∀ settings : Settings, (∃ count ∈ settings.counts, 2 ^ 63 - 1 < count) → ∃ message,
      (saveInPlace path settings).run file = .error (.refused (.configuration message)) file) ∧
    (∀ bytes, file = .holds bytes → (writeDefaultInPlace path).run file = .ok () file) ∧
    (∀ settings, load path file = .ok settings → settings.check = .ok ()) ∧
    ∀ text settings, Settings.parse text = .ok settings → settings.check = .ok () := by
  refine ⟨fun settings fits folder => ?_, fun settings large => ?_, fun bytes holds => ?_,
    fun settings => check_of_load, fun text settings => Settings.check_of_parse⟩
  · obtain ⟨text, written, found⟩ := Settings.exists_write fits
    exact ⟨text, run_saveInPlace_of_text folder written path, load_of_read found,
      Settings.parse_of_read found⟩
  · obtain ⟨message, refused⟩ := Settings.write_eq_error large
    exact ⟨message, run_saveInPlace_of_no_text file refused path⟩
  · rw [holds]
    exact run_writeDefaultInPlace_holds path bytes

theorem save_load_standard :
    (∃ text, (saveInPlace "search.toml" {}).run (.holds ⟨#[255]⟩) = .ok () (.holds text.toUTF8) ∧
      load "search.toml" (.holds text.toUTF8) = .ok {} ∧ Settings.parse text = .ok {}) ∧
    (∃ text : String,
      (saveInPlace "search.toml" { planner := { smoothing := 0 / 0 } }).run .missing =
        .ok () (.holds text.toUTF8) ∧
      load "search.toml" (.holds text.toUTF8) =
        .error (.configuration "optimizer.ema_alpha must be in (0, 1], got NaN")) ∧
    ∃ message, (saveInPlace "search.toml" { migration := ⟨2 ^ 63⟩ }).run (.holds ⟨#[255]⟩) =
      .error (.refused (.configuration message)) (.holds ⟨#[255]⟩) := by
  obtain ⟨saved, refused, _⟩ := save_load "search.toml" (.holds ⟨#[255]⟩)
  refine ⟨?_, ?_, refused { migration := ⟨2 ^ 63⟩ } (by decide)⟩
  · have sound : ({} : Settings).check = .ok () := by decide +kernel
    obtain ⟨text, save, load, parse⟩ := saved {} (by decide) nofun
    rw [sound] at load parse
    exact ⟨text, save, load, parse⟩
  · have undefined : ({ planner := { smoothing := 0 / 0 } } : Settings).check =
        .error (.configuration "optimizer.ema_alpha must be in (0, 1], got NaN") := by
      decide +kernel
    obtain ⟨text, save, load, _⟩ := (save_load "search.toml" .missing).1
      { planner := { smoothing := 0 / 0 } } (by decide) nofun
    rw [undefined] at load
    exact ⟨text, save, load⟩

end SettingsFile

end VectorSearch
