import Stepwise.Solve.Strategy

/-!
# Solving problems

`solveAs` solves a problem as one of a given kind. It never fails: a fault of the strategy becomes
a last step that shows the problem and the fault's wording, and the solution then has no answer.
`solveProblem`, `solveExtracted` and `solveImage` take what users hand over, and fail only if that
is no problem.

Result: `solveAs_kind`.
-/

namespace Stepwise

namespace Action

/-- The problem could not be solved. -/
def processingError : Text := "Processing Error".toList

end Action

namespace Solver

/-- The step that tells why a problem could not be solved. -/
def failure (problem : Text) (fault : Fault) : Step where
  action := Action.processingError
  math := problem
  explanation := "Could not process this problem: ".toList ++ fault.message

/-- The outcome of a strategy, with the session in which it ended. -/
def outcome (engine : Engine) (config : Config) (kind : ProblemKind) (problem : Text) :
    Except Fault Value × Session :=
  Strategy.solve engine config kind problem (Phrase.canonical problem) Session.start

/-- The solution of a problem as one of the given kind, and what was exchanged with the engine. -/
def converse (engine : Engine) (config : Config) (kind : ProblemKind) (problem : Text) :
    Solution × List Exchange :=
  match outcome engine config kind problem with
  | (.ok answer, s) => (⟨kind, answer, s.steps⟩, s.exchanges)
  | (.error fault, s) => (⟨kind, .null, s.steps ++ [failure problem fault]⟩, s.exchanges)

/-- The solution of a problem as one of the given kind. -/
def solveAs (engine : Engine) (config : Config) (kind : ProblemKind) (problem : Text) : Solution :=
  (converse engine config kind problem).1

/-- The solution of whatever a user states as a problem. -/
def solveProblem (engine : Engine) (config : Config) : Value → Except Fault Solution
  | .text t =>
    if Text.allBlank t then .error .invalidProblem
    else .ok (solveAs engine config (ProblemKind.classify t) t)
  | _ => .error .invalidProblem

/-- The solution of a problem that was read from an image. -/
def solveExtracted (engine : Engine) (config : Config) (v : Value) : Except Fault Solution :=
  match Phrase.tidyOf v with
  | [] => .error .noTextInImage
  | t => solveProblem engine config (.text t)

/-- The limit on images in megabytes. -/
def limitInMegabytes (limit : Int) : Except Fault Binary64 :=
  match Binary64.ofFraction limit (1024 * 1024) with
  | .infinite _ => .error .quotientTooLarge
  | x => .ok x

/-- The solution of the problem in an image of the given size. `detect` finds the text, wherever it
runs. -/
def solveImage {m : Type → Type} [Monad m] [MonadExceptOf Fault m] (engine : Engine)
    (config : Config) (size : Nat) (detect : m Value) : m Solution := do
  if size = 0 then throw .emptyImage
  if config.maxImageBytes < size then
    throw (.imageTooLarge (← liftExcept (limitInMegabytes config.maxImageBytes)))
  let found ← detect
  liftExcept (solveExtracted engine config (if found.isTrue then found else .text []))

theorem solveAs_kind (engine : Engine) (config : Config) (kind : ProblemKind) (problem : Text) :
    (solveAs engine config kind problem).kind = kind := by
  unfold solveAs converse
  split <;> rfl

end Solver

end Stepwise
