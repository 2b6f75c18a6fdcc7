import Stepwise.Solve.Engine
import Stepwise.Settings.Config
import Stepwise.Tree.Read
import Stepwise.Value.Operand
import Stepwise.Value.Rounding

/-!
# Step-by-step evaluation

The tree of an expression is reduced from its leaves up. Every operation and every call asks the
engine for its value, with the operands already reduced, and becomes one step; a name or a
negation is evaluated in one go and becomes none; numbers and parentheses are free. Every value is
rounded before it is used again. A closing step tells the overall result.

Result: `trace_unreadable`, an expression that cannot be read gives one step, and the engine is not
asked.
-/

namespace Stepwise

namespace Action

/-- An operation was carried out. -/
def subExpression : Text := "Evaluate Sub-expression".toList

/-- A call was carried out. -/
def function : Text := "Evaluate Function".toList

/-- The whole expression was evaluated. -/
def finalEvaluation : Text := "Final Evaluation".toList

/-- The expression could not be read. -/
def parseError : Text := "Parse Error".toList

end Action

namespace Trace

/-- An equation that tells the value of an expression. -/
def equation (expression value : Text) : Text := expression ++ " = ".toList ++ value

/-- The engine's value of an expression, rounded. -/
def evaluate (engine : Engine) (precision : Int) (expression : Text) : Run Value := do
  let v ← Run.ask engine (.evaluate expression)
  Run.ofExcept (v.round precision)

/-- The value of an expression, and the step that tells about it. -/
def narrate (engine : Engine) (precision : Int) (action expression : Text) :
    Run (Value × Step) := do
  let v ← evaluate engine precision expression
  let shown ← Run.display v
  return (v, {
    action
    math := equation expression shown
    explanation := "Computed ".toList ++ expression ++ " to yield ".toList ++ shown ++ ['.']
    result := v })

mutual

/-- The value of a tree, and the steps that lead to it. -/
def reduce (engine : Engine) (precision : Int) : Tree → Run (Value × List Step)
  | .constant value _ => return (value.value, [])
  | .parenthesis content => reduce engine precision content
  | .operation op left right => do
    let (l, before) ← reduce engine precision left
    let (r, between) ← reduce engine precision right
    let lhs ← Run.ofExcept l.operand
    let rhs ← Run.ofExcept r.operand
    let (v, step) ←
      narrate engine precision Action.subExpression (lhs ++ [' ', op.sign, ' '] ++ rhs)
    return (v, before ++ between ++ [step])
  | .call function arguments => do
    let (values, before) ← reduceAll engine precision arguments
    let shown ← values.mapM Run.display
    let (v, step) ← narrate engine precision Action.function
      (function ++ '(' :: Text.joinWith ", ".toList shown ++ [')'])
    return (v, before ++ [step])
  | .name spelling => do
    let v ← evaluate engine precision (Tree.name spelling).text
    return (v, [])
  | .negation operand => do
    let v ← evaluate engine precision (Tree.negation operand).text
    return (v, [])

/-- The values of several trees, and the steps that lead to them. -/
def reduceAll (engine : Engine) (precision : Int) : List Tree → Run (List Value × List Step)
  | [] => return ([], [])
  | t :: ts => do
    let (v, before) ← reduce engine precision t
    let (vs, after) ← reduceAll engine precision ts
    return (v :: vs, before ++ after)

end

/-- The step that tells that an expression could not be read. -/
def unreadable (expression : Text) : Step where
  action := Action.parseError
  math := expression
  explanation := "Could not parse the expression.".toList

/-- The steps of an evaluation of a tree, of which the last one is the overall result. -/
def ofTree (engine : Engine) (precision : Int) (expression : Text) (tree : Tree) :
    Run (List Step) := do
  let (v, steps) ← reduce engine precision tree
  let v ← Run.ofExcept (v.round precision)
  let shown ← Run.display v
  return steps ++ [{
    action := Action.finalEvaluation
    math := equation expression shown
    explanation := "The final computed result is ".toList ++ shown ++ ['.']
    result := v }]

/-- The steps of an evaluation of an expression. -/
def trace (engine : Engine) (config : Config) (expression : Text) : Run (List Step) :=
  match engine.read config.functions expression with
  | .ok tree => ofTree engine config.precision expression tree
  | .error fault =>
    if fault.kind = .unreadable then return [unreadable expression] else throw fault

theorem trace_unreadable (engine : Engine) (config : Config) {expression : Text} {fault : Fault}
    (h : engine.read config.functions expression = .error fault) (unread : fault.kind = .unreadable)
    (s : Session) :
    trace engine config expression s = (.ok [unreadable expression], s) := by
  simp only [trace, h, unread, if_true]
  rfl

end Trace

end Stepwise
