import Stepwise.Settings.Log
import Stepwise.Solve.Solver
import Stepwise.Web.Framework

/-!
# The web service

The service says that it runs, and it solves posted problems. `display` cuts a problem to the length
in which it is shown. An unsolved problem is answered with the steps that were taken. What stops the
settings from loading makes a handler fail, and so does it at the start, where also the log is set up.
-/

namespace Stepwise.Web

/-- The problem as it is shown within a limit, and the whole problem if it was cut. A negative limit
counts from the end. -/
def display (problem : Text) (limit : Int) : Text × Option Text :=
  let n : Int := problem.length
  if limit < n then
    let kept := if limit < 0 then (n + limit).toNat else limit.toNat
    (problem.take kept ++ "...".toList, some problem)
  else (problem, none)

/-- What is told of a solved problem, which is shown as given. -/
def solvedFields (shown : Text × Option Text) (s : Solution) : List (Text × Value) :=
  [("type".toList, .text s.kind.name), ("problem".toList, .text shown.1),
   ("solution".toList, s.answer), ("steps".toList, .list (s.steps.map Step.toValue)),
   ("full_problem".toList, (shown.2.map Value.text).getD .null)]

/-- What is told of an unsolved problem. -/
def unsolvedFields (shown : Text × Option Text) (s : Solution) : List (Text × Value) :=
  [("error".toList, .text "Unsolvable expression".toList),
   ("suggestion".toList, .text "Try a different format or a simpler expression".toList),
   ("problem".toList, .text shown.1), ("type".toList, .text s.kind.name),
   ("steps".toList, .list (s.steps.map Step.toValue))]

namespace Framework

variable (framework : Framework)

/-- The answer that tells a solution. -/
def ofSolution (config : Config) (problem : Text) (s : Solution) : Answer :=
  let shown := display problem config.displayLimit
  if s.isSolved then framework.respondChecked (solvedFields shown s)
  else framework.respond 400 (.record (unsolvedFields shown s))

/-- The answer to a posted problem. `solve` is given the configuration and the problem. -/
def answerProblem (solve : Config → Value → Except Fault Solution) (file : SettingsFile)
    (problem : Text) : Answer :=
  match file.config with
  | .error fault => framework.fail fault
  | .ok config =>
    if Text.allBlank problem then framework.refuse 400 "Problem cannot be empty.".toList
    else
      match solve config (.text problem) with
      | .ok s => framework.ofSolution config problem s
      | .error fault =>
        if fault.kind = .invalidProblem then framework.refuse 400 fault.message
        else framework.refuse 500 ("Solver error: ".toList ++ fault.message)

/-- The answer of the service once it has started. -/
def answer (solve : Config → Value → Except Fault Solution) (file : SettingsFile) (call : Call) :
    Answer :=
  match framework.handler call with
  | .error a => a
  | .ok .health =>
    framework.respond 200
      (texts [("status".toList, "ok".toList), ("service".toList, "MathSteps API".toList)])
  | .ok (.solve problem) => framework.answerProblem solve file problem

/-- The service from its start on. -/
def serve (log : Log) (solve : Config → Value → Except Fault Solution) (file : SettingsFile) :
    Except Fault (Call → Answer) := do
  log.start (← file.settings)
  return framework.answer solve file

end Framework

/-- The answer of a service in the framework `strict`. -/
def answer (solve : Config → Value → Except Fault Solution) (file : SettingsFile) (call : Call) :
    Answer :=
  Framework.strict.answer solve file call

end Stepwise.Web
