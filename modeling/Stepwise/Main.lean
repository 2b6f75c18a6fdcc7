import Stepwise.Algebra.Engine
import Stepwise.Console

/-!
# The command line

The problems on the command line are solved and reported. The settings are read from
`data/mathsteps.json`, or from the file that the environment variable `MATHSTEPS_CONFIG` names.
-/

open Stepwise

/-- What the settings file holds. A file that cannot be read counts as missing. -/
def readSettings : IO SettingsFile := do
  let path := (← IO.getEnv "MATHSTEPS_CONFIG").getD "data/mathsteps.json"
  try
    let bytes ← IO.FS.readBinFile path
    return .content bytes.toList
  catch _ => return .missing

/-- Solves the problems that are given as arguments. -/
def main (arguments : List String) : IO UInt32 := do
  let file ← readSettings
  match Console.run .absent Algebra.engine file (arguments.map String.toList) with
  | .ok (code, report) =>
    IO.print (String.ofList report)
    return UInt32.ofNat code
  | .error fault =>
    IO.eprintln (String.ofList fault.message)
    return 1
