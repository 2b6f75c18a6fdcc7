import Stepwise.Bracket
import Stepwise.Phrase.Rule
import Stepwise.Solve.Engine
import Stepwise.Settings.Config

/-!
# Questions

From the canonical form of a problem one reads off what an engine is to be asked: a function and
its variable, an integrand and its variable, an equation and its unknown, or an expression, its
variable and the target of a limit. Calls are read first. Without a call, the operator of a
derivative or the integral sign is looked for.

Result: `variableOf_none`.
-/

namespace Stepwise

open Text Pattern

namespace Question

/-- The variable with the given name. An absent or empty name stands for the default variable, and
every other name must be one letter. -/
def variableOf (config : Config) : Option Text → Except Fault Text
  | none => .ok config.defaultVariable
  | some [] => .ok config.defaultVariable
  | some [c] => if isLetter c then .ok [c] else .error (.invalidVariable [c])
  | some name => .error (.invalidVariable name)

/-- A function or integrand with its variable, from the arguments of a call. -/
def ofArguments (config : Config) (invalid : Fault) : List Text → Except Fault (Text × Text)
  | [[]] => .error invalid
  | [[], _] => .error invalid
  | [body] => do return (body, ← variableOf config none)
  | [body, x] => do return (body, ← variableOf config (some x))
  | _ => .error invalid

/-- The operator of a derivative, without blanks. -/
def operator : Pattern Char := do
  word ['d']
  literal ['/']
  word ['d']
  one isAnyCaseLetter

/-- The function to differentiate and its variable. -/
def derivative (config : Config) (t : Text) : Except Fault (Text × Text) :=
  match Bracket.callArguments [Phrase.derivativeName] t with
  | some args => ofArguments config .invalidDifferentiation args
  | none => do
    let found := find? (fun _ => operator) t
    let x ← variableOf config (found.map fun f => lower f.reading)
    let rest := match found with
      | some f => f.before ++ f.rest
      | none => t
    match Bracket.unwrapped rest with
    | [] => throw .invalidDifferentiation
    | function => return (function, x)

/-- The integral sign with a differential at the end of the text. -/
def signed : Pattern (Text × Char) := do
  literal ['∫']
  let body ← few1 inLine
  literal ['d']
  let x ← one isLetter
  atEnd
  return (body, x)

/-- The integrand and its variable. -/
def integral (config : Config) (t : Text) : Except Fault (Text × Text) :=
  match Bracket.callArguments [Phrase.integralName] t with
  | some args => ofArguments config .invalidIntegration args
  | none =>
    match find? (fun _ => signed) t with
    | some f => do return (f.reading.1, ← variableOf config (some [f.reading.2]))
    | none => .error .invalidIntegration

/-- "for V" and a colon or comma. -/
def leadingFor : Pattern Char := do
  word "for".toList
  let x ← one isAnyCaseLetter
  before fun c => c == ':' || c == ','
  return x

/-- "solve", perhaps "for V", at the front of a text. -/
def solveWord : Pattern (Option Char) := do
  word "solve".toList
  let x ← optional leadingFor
  let _ ← optional (one fun c => c == ':' || c == ',')
  return x

/-- "for V" at the end of a text. -/
def trailingFor : Pattern Char := do
  word "for".toList
  let x ← one isAnyCaseLetter
  atEnd
  return x

/-- The equation in a text, and the unknown that the text names, if any. A trailing "for V" counts
only behind an equals sign. -/
def equationParts (t : Text) : Text × Option Char :=
  let (leading, rest) :=
    match solveWord.best? t with
    | some (x, rest) => (x, rest)
    | none => (none, t)
  match find? (fun _ => trailingFor) rest with
  | some f => if f.before.contains '=' then (f.before, leading <|> some f.reading)
    else (rest, leading)
  | none => (rest, leading)

/-- Does the variable occur among the unknowns that an engine has found? -/
def isAmong (x : Text) : Value → Except Fault Bool
  | .list items => .ok (items.any fun v => Value.same v (.text x))
  | .text t => .ok (holds x t)
  | .record fields => .ok (fields.any fun f => f.1 == x)
  | v => .error (.notIterable v.typeName)

/-- The only unknown, if there is exactly one. -/
def onlyUnknown : Value → Except Fault (Option Value)
  | .list [v] => .ok (some v)
  | .text [c] => .ok (some (.text [c]))
  | .record [_] => .error (.noSuchEntry ['0'])
  | _ => .ok none

/-- The equation and its unknown. Where the text names none, it is the default variable, unless
the engine finds that there is one other unknown only. -/
def equation (engine : Engine) (config : Config) (t : Text) : Run (Text × Value) := do
  let (equation, named) := equationParts t
  if equation.isEmpty then throw .noEquation
  match named with
  | some c =>
    let x ← Run.ofExcept (variableOf config (some [c]))
    return (equation, .text x)
  | none =>
    let unknowns ← Run.ask engine (.freeVariables equation)
    let usual := config.defaultVariable
    if ← Run.ofExcept (isAmong usual unknowns) then return (equation, .text usual)
    let only ← Run.ofExcept (onlyUnknown unknowns)
    return (equation, only.getD (.text usual))

/-- A target with the sign of its side taken off: `+` from the right, `-` from the left. -/
def approachOf (target : Text) : Text × Approach :=
  if target.length ≤ 1 then (target, .bothSides)
  else
    match target.getLast? with
    | some '+' => (target.dropLast, .fromRight)
    | some '-' => (target.dropLast, .fromLeft)
    | _ => (target, .bothSides)

/-- What a limit is about. -/
structure Limit where
  expression : Text
  variableName : Text
  target : Text
  approach : Approach
  deriving DecidableEq

/-- The names of calls that ask for a limit. -/
def limitNames : List Text := [Phrase.limitName, "lim".toList]

/-- The limit that a text asks for. -/
def limit (config : Config) (t : Text) : Except Fault Limit :=
  match Bracket.callArguments limitNames t with
  | none => .error .invalidLimit
  | some args =>
    if args.any List.isEmpty then .error .invalidLimit
    else
      match args with
      | [expression, target] =>
        let (target, approach) := approachOf target
        .ok ⟨expression, config.defaultVariable, target, approach⟩
      | [expression, x, target] => do
        let x ← variableOf config (some x)
        let (target, approach) := approachOf target
        return ⟨expression, x, target, approach⟩
      | _ => .error .invalidLimit

theorem variableOf_none (config : Config) : variableOf config none = .ok config.defaultVariable :=
  rfl

end Question

end Stepwise
