import Stepwise.Proofs.Encoding
import Stepwise.Proofs.JsonReading
import Stepwise.Settings.Basic

/-!
# Which settings files can be loaded

A settings file is read in three stages: its bytes as text, the text as JSON, and the fields of the
record at the top as settings. A text that is no JSON, or has no record at the top, sets nothing.
But two faults get through: bytes that no text is written as, and a numeral that is too long, with
which reading stops before it is known whether the text is JSON.

Results: `settings_contract`, for every content of the file; `settings_of_no_longRun`, a text without
a long run of digits is loaded whatever it says; and `settings_undecodable`, a file that stops the
loading.
-/

namespace Stepwise

open Text (utf8)
open Json (HasLongRun)

variable {bytes : List UInt8} {t : Text} {n : Nat}

namespace SettingsFile

/-- What a text sets: the field with the name of the setting, if the text is JSON with a record at
the top. -/
def fieldIn? (t : Text) (s : Setting) : Option Value :=
  match Json.readUnmarked t with
  | .ok (.record fields) => Settings.field? fields s.name
  | _ => none

/-- The settings that a text sets, and the defaults of all others. -/
def settingsIn (t : Text) : Settings := fun s => (fieldIn? t s).getD s.default

theorem settings_content (bytes : List UInt8) :
    (content bytes).settings = (do
      let t ← Text.decodeUtf8 bytes
      match Json.readUnmarked t with
      | .ok (.record fields) => return fields
      | .ok _ => return []
      | .error (.malformed _) => return []
      | .error (.numeralTooLong n) => throw (.numeralTooLong n)) >>=
        fun fields => pure (Settings.default.overlay fields) := rfl

theorem settings_content_of_readable (h : ∀ n, Json.readUnmarked t ≠ .error (.numeralTooLong n)) :
    (content (utf8 t)).settings = .ok (settingsIn t) := by
  unfold settingsIn fieldIn?
  rw [settings_content, Text.decodeUtf8_utf8, ok_bind]
  cases read : Json.readUnmarked t with
  | ok v => cases v <;> rfl
  | error flaw =>
    cases flaw with
    | malformed position => rfl
    | numeralTooLong n => exact absurd read (h n)

theorem settings_content_of_numeralTooLong
    (h : Json.readUnmarked t = .error (.numeralTooLong n)) :
    (content (utf8 t)).settings = .error (.numeralTooLong n) := by
  rw [settings_content, Text.decodeUtf8_utf8, ok_bind, h]
  rfl

theorem settings_content_of_undecodable (h : ∀ t, bytes ≠ utf8 t) :
    ∃ fault, (content bytes).settings = .error fault ∧ fault.kind = .undecodable := by
  obtain ⟨fault, hd, hk⟩ := Text.decodeUtf8_eq_error h
  refine ⟨fault, ?_, hk⟩
  rw [settings_content, hd]
  rfl

/-- **A text without a long run of digits is loaded**, whether it is JSON or not. -/
theorem settings_of_no_longRun (h : ∀ n, ¬HasLongRun t n) :
    (content (utf8 t)).settings = .ok (settingsIn t) :=
  settings_content_of_readable fun n hn => h n (Json.hasLongRun_of_readUnmarked hn)

/-- **Which files can be loaded.** Without a file all settings have their defaults. Of a file whose
bytes a text is written as, every setting has the value of its field, if the text is JSON with a
record at the top that has this field, and else its default; but there are no settings if reading
stops at a numeral that is too long. There are none either if no text is written as the bytes. -/
theorem settings_contract (file : SettingsFile) :
    match file with
    | missing => file.settings = .ok .default
    | directory => file.settings = .ok .default
    | content bytes =>
      (∀ t, bytes = utf8 t →
        ((∀ n, Json.readUnmarked t ≠ .error (.numeralTooLong n)) →
          file.settings = .ok (settingsIn t)) ∧
        ∀ n, Json.readUnmarked t = .error (.numeralTooLong n) →
          HasLongRun t n ∧ file.settings = .error (.numeralTooLong n)) ∧
      ((∀ t, bytes ≠ utf8 t) →
        ∃ fault, file.settings = .error fault ∧ fault.kind = .undecodable) := by
  cases file with
  | missing => rfl
  | directory => rfl
  | content bytes =>
    refine ⟨?_, settings_content_of_undecodable⟩
    rintro t rfl
    refine ⟨settings_content_of_readable, fun n hn => ⟨Json.hasLongRun_of_readUnmarked hn, ?_⟩⟩
    exact settings_content_of_numeralTooLong hn

/-- A record with one setting and a field that is none. -/
def stale : Text := "\x7b\"precision\": 5, \"stale\": [1]\x7d".toList

/-- A file sets what it names and nothing else. -/
theorem settings_contract_stale :
    ∃ settings, (content (utf8 stale)).settings = .ok settings ∧
      settings .precision = .int 5 ∧ settings .displayLimit = .int 100 := by
  obtain ⟨v, read, -⟩ := exists_ok_of_check (x := Json.readUnmarked stale) (p := fun _ => true)
    (by decide +kernel)
  have loaded := ((settings_contract (content (utf8 stale))).1 stale rfl).1 fun n hn =>
    absurd (read.symm.trans hn) (by simp)
  exact ⟨_, loaded, Value.eq_int_of_check (by decide +kernel),
    Value.eq_int_of_check (by decide +kernel)⟩

/-- An empty record that is written in 16 bits for each character, with a byte order mark. -/
theorem settings_undecodable :
    (content [0xFF, 0xFE, 0x7B, 0x00, 0x7D, 0x00]).settings =
      .error (.badBytes .invalidStart 0xFF 0 0) := rfl

end SettingsFile

end Stepwise
