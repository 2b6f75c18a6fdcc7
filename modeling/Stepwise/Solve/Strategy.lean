import Stepwise.Solve.Question
import Stepwise.Solve.Trace

/-!
# Strategies

There is one strategy for each kind of problem. It is given the problem as it was stated and its
canonical form, tells its steps, and ends with the answer or with a fault. The first step of every
strategy shows the problem itself.
-/

namespace Stepwise

namespace Action

/-- The function of a differentiation was recognised. -/
def functionIdentified : Text := "Original Function Identified".toList

/-- The derivative was formed. -/
def differentiationApplied : Text := "Apply Differentiation Rules".toList

/-- The integral was recognised. -/
def integralIdentified : Text := "Integral Identified".toList

/-- The antiderivative was formed. -/
def integrationApplied : Text := "Apply Integration Rules".toList

/-- The result was multiplied out. -/
def resultSimplified : Text := "Simplify Result".toList

/-- The equation was recognised. -/
def equationIdentified : Text := "Equation Identified".toList

/-- Both sides of the equation are the same. -/
def identityRecognized : Text := "Identity Recognized".toList

/-- The equation was solved. -/
def equationSolved : Text := "Equation Solved".toList

/-- The limit was recognised. -/
def limitIdentified : Text := "Limit Identified".toList

/-- The limit was found. -/
def limitEvaluated : Text := "Limit Evaluated".toList

/-- An arithmetic expression was recognised. -/
def expressionParsed : Text := "Expression Parsed".toList

end Action

namespace Strategy

/-- The derivative of a function. -/
def differentiation (engine : Engine) (config : Config) (problem canonical : Text) : Run Value := do
  Run.tell {
    action := Action.functionIdentified
    math := problem
    explanation := "Recognized as a differentiation problem.".toList }
  let (function, x) ← Run.ofExcept (Question.derivative config canonical)
  let derivative ← Run.ask engine (.differentiate function x)
  Run.tell {
    action := Action.differentiationApplied
    math := "d/d".toList ++ x ++ '(' :: function ++ [')']
    explanation := "Using standard differentiation rules.".toList
    result := derivative }
  let simplified ← Run.ask engine (.expand derivative)
  let shown ← Run.display simplified
  Run.tell {
    action := Action.resultSimplified
    math := "f'(".toList ++ x ++ ") = ".toList ++ shown
    explanation := "Simplified the derivative expression.".toList }
  return simplified

/-- An antiderivative with its constant. -/
def integration (engine : Engine) (config : Config) (problem canonical : Text) : Run Value := do
  Run.tell {
    action := Action.integralIdentified
    math := problem
    explanation := "Recognized as an integration problem.".toList }
  let (integrand, x) ← Run.ofExcept (Question.integral config canonical)
  let antiderivative ← Run.ask engine (.integrate integrand x)
  Run.tell {
    action := Action.integrationApplied
    math := "Finding antiderivative of ".toList ++ integrand
    explanation := "Using standard integration techniques.".toList
    result := antiderivative }
  let simplified ← Run.ask engine (.expand antiderivative)
  let shown ← Run.display simplified
  let answer := shown ++ " + ".toList ++ config.integrationConstant
  Run.tell {
    action := Action.resultSimplified
    math := '∫' :: integrand ++ " d".toList ++ x ++ " = ".toList ++ answer
    explanation := "Simplified the integral expression.".toList }
  return .text answer

/-- The texts of a list of solutions, or what else can be taken apart into texts. -/
def solutionTexts : Value → Except Fault (List Text)
  | .list items => go 0 items
  | .text t => .ok (t.map fun c => [c])
  | .record fields => .ok (fields.map (·.1))
  | _ => .error .notJoinable
where
  /-- The texts of the items from number `n` on. -/
  go : Nat → List Value → Except Fault (List Text)
    | _, [] => .ok []
    | n, .text t :: vs => do return t :: (← go (n + 1) vs)
    | n, v :: _ => .error (.itemNotText n v.typeName)

/-- The answer to an equation that always holds. -/
def allNumbers : Text := "All real numbers".toList

/-- The solutions of an equation. -/
def algebra (engine : Engine) (config : Config) (problem canonical : Text) : Run Value := do
  Run.tell {
    action := Action.equationIdentified
    math := problem
    explanation := "Recognized as an algebraic equation.".toList }
  let (equation, x) ← Question.equation engine config canonical
  let identity ← Run.ask engine (.isIdentity equation)
  if identity.isTrue then
    let name ← Run.display x
    Run.tell {
      action := Action.identityRecognized
      math := equation
      explanation := "Both sides are equal for every value of ".toList ++ name ++
        ", so every real number is a solution.".toList }
    return .text allNumbers
  let solutions ← Run.ask engine (.solve equation x)
  if !solutions.isTrue then throw .noSolutions
  let texts ← Run.ofExcept (solutionTexts solutions)
  let answer := Text.joinWith ", ".toList texts
  let name ← Run.display x
  Run.tell {
    action := Action.equationSolved
    math := name ++ " = ".toList ++ answer
    explanation := "Applied algebraic manipulation to isolate the variable.".toList
    result := solutions }
  return .text answer

/-- A limit. -/
def limit (engine : Engine) (config : Config) (problem canonical : Text) : Run Value := do
  Run.tell {
    action := Action.limitIdentified
    math := problem
    explanation := "Recognized as a limit problem.".toList }
  let q ← Run.ofExcept (Question.limit config canonical)
  let v ← Run.ask engine (.limit q.expression q.variableName q.target q.approach)
  let shown ← Run.display v
  let side := if q.approach = .bothSides then [] else q.approach.text
  Run.tell {
    action := Action.limitEvaluated
    math := "lim(".toList ++ q.variableName ++ '→' :: q.target ++ side ++ ") ".toList ++
      q.expression ++ " = ".toList ++ shown
    explanation := "Applied limit laws and substitution.".toList
    result := v }
  return v

/-- As a computation, but the engine's own faults count as an invalid expression. -/
def orInvalid (run : Run Value) : Run Value := fun s =>
  match run s with
  | (.error fault, s) =>
    (.error (if fault.isEngine then .invalidArithmetic else fault), s)
  | done => done

/-- The value of an arithmetic expression. -/
def arithmetic (engine : Engine) (config : Config) (problem canonical : Text) : Run Value := do
  Run.tell {
    action := Action.expressionParsed
    math := problem
    explanation := "Evaluating the arithmetic expression step by step.".toList }
  let steps ← Trace.trace engine config canonical
  Run.tellAll steps
  let v ← orInvalid (Run.ask engine (.evaluate canonical))
  Run.ofExcept (v.round config.precision)

/-- The strategy of a kind of problem. -/
def solve (engine : Engine) (config : Config) (kind : ProblemKind) (problem canonical : Text) :
    Run Value :=
  match kind with
  | .arithmetic => arithmetic engine config problem canonical
  | .differentiation => differentiation engine config problem canonical
  | .integration => integration engine config problem canonical
  | .algebra => algebra engine config problem canonical
  | .limit => limit engine config problem canonical

end Strategy

end Stepwise
