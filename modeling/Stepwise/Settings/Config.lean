import Stepwise.Settings.Basic
import Stepwise.Tree.Read

/-!
# Configurations

A configuration is what the solver works with: the settings converted to the types that it needs.
Numbers and truth values become integers, doubles towards zero, and texts if they are written in
decimal, with a sign, blanks around and single underscores between digits; everything has a text,
and everything is true or false. The first setting that cannot be converted is the fault.

Result: `ofSettings_default`, the configuration without a settings file.
-/

namespace Stepwise

/-- What governs a run of the solver. -/
structure Config where
  /-- Decimal places kept in numeric results. -/
  precision : Int
  /-- The unknown of problems that name none. -/
  defaultVariable : Text
  /-- Are equations solved over the reals? -/
  realSolutions : Bool
  /-- The constant added to antiderivatives. -/
  integrationConstant : Text
  maxImageBytes : Int
  /-- How much of a problem is shown, in characters. -/
  displayLimit : Int
  /-- Other spellings of function names, with the function meant. -/
  aliases : List (Text × Text)
  deriving DecidableEq, Repr

namespace Value

open Text

/-- The digits of a written integer: digits with single underscores between them. -/
def digitsOf? : Text → Option Text
  | [] => none
  | [c] => if isDigit c then some [c] else none
  | c :: '_' :: cs => if isDigit c then (digitsOf? cs).map (c :: ·) else none
  | c :: cs => if isDigit c then (digitsOf? cs).map (c :: ·) else none

/-- The integer that a text writes in decimal. -/
def integerOfText (t : Text) : Except Fault Int :=
  let u := trim t
  let (negative, v) :=
    match u with
    | '-' :: v => (true, v)
    | '+' :: v => (false, v)
    | v => (false, v)
  match digitsOf? v with
  | none => .error (.notAnInteger t)
  | some ds =>
    if Fault.digitLimit < ds.length then .error (.numeralTooLong ds.length)
    else .ok (if negative then -(valueOf ds : Int) else valueOf ds)

/-- A value as an integer. -/
def toInt : Value → Except Fault Int
  | .bool b => .ok (if b then 1 else 0)
  | .int n => .ok n
  | .float .nan => .error .integerOfNan
  | .float (.infinite _) => .error .integerOfInfinity
  | .float x => .ok (x.truncate?.getD 0)
  | .text t => integerOfText t
  | v => .error (.notANumber v.typeName)

end Value

namespace Config

/-- The functions whose names may be written with a capital or in capitals. -/
def aliasedFunctions : List Text :=
  ["sin".toList, "cos".toList, "tan".toList, "sec".toList, "csc".toList, "cot".toList]

/-- A name with its first letter in capitals. -/
def capitalized : Text → Text
  | [] => []
  | c :: cs => c.toUpper :: cs

/-- The other spellings of function names, if they are wanted. -/
def aliasTable (enabled : Bool) : List (Text × Text) :=
  if enabled then
    aliasedFunctions.flatMap fun name => [(capitalized name, name), (name.map Char.toUpper, name)]
  else []

/-- The configuration that the settings describe. -/
def ofSettings (settings : Settings) : Except Fault Config := do
  let precision ← (settings .precision).toInt
  let defaultVariable ← (settings .defaultVariable).display
  let integrationConstant ← (settings .integrationConstant).display
  let maxImageBytes ← (settings .maxImageBytes).toInt
  let displayLimit ← (settings .displayLimit).toInt
  return {
    precision, defaultVariable, integrationConstant, maxImageBytes, displayLimit
    realSolutions := (settings .realSolutions).isTrue
    aliases := aliasTable (settings .caseInsensitiveFunctions).isTrue }

/-- The configuration without a settings file. -/
def default : Config where
  precision := 3
  defaultVariable := ['x']
  realSolutions := true
  integrationConstant := ['C']
  maxImageBytes := 5242880
  displayLimit := 100
  aliases := aliasTable true

/-- The names that head calls. -/
def functions (config : Config) : List Text := Tree.defaultFunctions ++ config.aliases.map (·.1)

theorem ofSettings_default : ofSettings Settings.default = .ok default := by rfl

end Config

namespace SettingsFile

/-- The configuration under a settings file. -/
def config (file : SettingsFile) : Except Fault Config := do Config.ofSettings (← file.settings)

end SettingsFile

end Stepwise
