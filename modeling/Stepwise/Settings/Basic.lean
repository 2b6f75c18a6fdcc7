import Stepwise.Json.Read
import Stepwise.Text.Utf8

/-!
# Settings

Eight settings govern a run. Each has a default; a settings file in JSON replaces those that it
names and cannot add others. A file that is missing, is no JSON or holds no record at the top
changes nothing. Only two contents stop the loading: bytes that are no UTF-8, and a numeral too
long to be read.

Result: `overlay_absent`, a setting that is not named keeps its value.
-/

namespace Stepwise

/-- The settings. -/
inductive Setting where
  | precision
  | defaultVariable
  | realSolutions
  | integrationConstant
  | caseInsensitiveFunctions
  | maxImageBytes
  | displayLimit
  | logLevel
  deriving DecidableEq, Repr

namespace Setting

/-- All settings. -/
def all : List Setting :=
  [precision, defaultVariable, realSolutions, integrationConstant, caseInsensitiveFunctions,
   maxImageBytes, displayLimit, logLevel]

/-- The name of a setting in a file. -/
def name : Setting → Text
  | precision => "precision".toList
  | defaultVariable => "default_variable".toList
  | realSolutions => "real_solutions".toList
  | integrationConstant => "integration_constant".toList
  | caseInsensitiveFunctions => "case_insensitive_functions".toList
  | maxImageBytes => "max_image_bytes".toList
  | displayLimit => "display_limit".toList
  | logLevel => "log_level".toList

/-- The value of a setting that no file names. -/
def default : Setting → Value
  | precision => .int 3
  | defaultVariable => .text ['x']
  | realSolutions => .bool true
  | integrationConstant => .text ['C']
  | caseInsensitiveFunctions => .bool true
  | maxImageBytes => .int (5 * 1024 * 1024)
  | displayLimit => .int 100
  | logLevel => .text "INFO".toList

theorem mem_all (s : Setting) : s ∈ all := by cases s <;> decide

end Setting

/-- A value for each setting. -/
abbrev Settings := Setting → Value

namespace Settings

/-- The settings without any file. -/
def default : Settings := Setting.default

/-- The value of the field with the given name. -/
def field? (fields : List (Text × Value)) (name : Text) : Option Value :=
  (fields.find? fun f => f.1 == name).map (·.2)

/-- The settings with the named ones replaced. -/
def overlay (settings : Settings) (fields : List (Text × Value)) : Settings :=
  fun s => (field? fields s.name).getD (settings s)

theorem overlay_absent (settings : Settings) (fields : List (Text × Value)) (s : Setting)
    (h : field? fields s.name = none) : overlay settings fields s = settings s := by
  simp [overlay, h]

end Settings

/-- What is found at the place of the settings file. -/
inductive SettingsFile where
  | missing
  | directory
  | content (bytes : List UInt8)

namespace SettingsFile

/-- The fields that a settings file sets. -/
def fields : SettingsFile → Except Fault (List (Text × Value))
  | missing => .ok []
  | directory => .ok []
  | content bytes => do
    let t ← Text.decodeUtf8 bytes
    match Json.readUnmarked t with
    | .ok (.record fields) => return fields
    | .ok _ => return []
    | .error (.malformed _) => return []
    | .error (.numeralTooLong n) => throw (.numeralTooLong n)

/-- The settings under a file. -/
def settings (file : SettingsFile) : Except Fault Settings := do
  return Settings.default.overlay (← file.fields)

end SettingsFile

end Stepwise
