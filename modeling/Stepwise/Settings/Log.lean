import Stepwise.Settings.Basic

/-!
# The log

Where a program starts, it sets up its log with the level that the settings give, which has to be
the name of a level or an integer. A log that is in place is left alone, whatever the level.

Result: `start_default`, the level that the settings have without a file is one.
-/

namespace Stepwise

/-- Is there a log where a program starts? -/
inductive Log where
  | absent
  | present
  deriving DecidableEq, Repr

namespace Log

/-- The names of the levels. -/
def levels : List Text :=
  ["CRITICAL".toList, "FATAL".toList, "ERROR".toList, "WARN".toList, "WARNING".toList,
   "INFO".toList, "DEBUG".toList, "NOTSET".toList]

/-- Checks a level. No level at all is fine, and truth values count as integers. -/
def check : Value → Except Fault Unit
  | .null | .bool _ | .int _ => .ok ()
  | .text t => if levels.contains t then .ok () else .error (.unknownLevel t)
  | v => do throw (.notALevel (← v.quoted))

/-- Sets up the log under the settings. -/
def start (log : Log) (settings : Settings) : Except Fault Unit :=
  match log with
  | absent => check (settings .logLevel)
  | present => .ok ()

theorem start_default (log : Log) : log.start Settings.default = .ok () := by
  cases log <;> rfl

end Log

end Stepwise
