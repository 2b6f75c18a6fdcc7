import Stepwise.Settings.Log
import Stepwise.Solve.Solver

/-!
# Console reports

Problems are solved one after the other, each under a heading, with the action and the mathematics
of every step and the answer at the end. The exit code is 0 if all were solved, 1 if one was not,
and 2 if there was none to solve. A settings file that cannot be read stops the report before it
begins, and so does a level that the log cannot be set up with; any other setting that cannot be used
stops it at the first problem that is one.
-/

namespace Stepwise.Console

/-- A line of a report. -/
def line (t : Text) : Text := t ++ ['\n']

/-- The rule above and below a heading. -/
def rule : Text := List.replicate 50 '='

/-- The heading of a problem. -/
def heading (problem : Text) : Text :=
  line [] ++ line rule ++ line ("Solving: ".toList ++ problem) ++ line rule

/-- How the program is to be called. -/
def usage : Text := line "Usage: python main.py \"<problem>\" [\"<problem>\" ...]".toList

/-- The lines of a solution. -/
def solutionLines (s : Solution) : Except Fault Text := do
  let steps := s.steps.flatMap fun step =>
    line ("  ".toList ++ step.action) ++ line ("    ".toList ++ step.math)
  let answer ←
    if s.isSolved then s.answer.display else .ok "Unsolvable expression".toList
  return line ("  Type: ".toList ++ s.kind.name) ++ steps ++ line [] ++
    line ("  => ".toList ++ answer)

/-- The report on one problem, and whether it was solved. -/
def reportOne (engine : Config → Engine) (file : SettingsFile) (problem : Text) :
    Except Fault (Bool × Text) := do
  if Text.allBlank problem then
    return (false,
      heading problem ++ line ("  Invalid input: ".toList ++ Fault.message .invalidProblem))
  let config ← file.config
  let solution ← Solver.solveProblem (engine config) config (.text problem)
  return (solution.isSolved, heading problem ++ (← solutionLines solution))

/-- The reports on several problems, and whether all were solved. -/
def reportAll (engine : Config → Engine) (file : SettingsFile) :
    List Text → Except Fault (Bool × Text)
  | [] => .ok (true, [])
  | problem :: problems => do
    let (solved, t) ← reportOne engine file problem
    let (others, ts) ← reportAll engine file problems
    return (solved && others, t ++ ts)

/-- The exit code and the report on the given problems, from the start of the program on. -/
def run (log : Log) (engine : Config → Engine) (file : SettingsFile) (problems : List Text) :
    Except Fault (Nat × Text) := do
  log.start (← file.settings)
  if problems.isEmpty then return (2, usage)
  let (solved, t) ← reportAll engine file problems
  return (if solved then 0 else 1, t)

/-- The exit code and the report where a log is in place. -/
def report (engine : Config → Engine) (file : SettingsFile) (problems : List Text) :
    Except Fault (Nat × Text) := run .present engine file problems

end Stepwise.Console
