import Stepwise.Problem.Kind

/-!
# Solutions

A solution tells how a problem was solved: its steps, each with what was done, the mathematics, an
explanation and perhaps a result, and the answer. A problem that could not be solved has a solution
too: its answer is nothing, and the last step says why.

Result: `isSolved_iff`.
-/

namespace Stepwise

/-- One step of a solution. -/
structure Step where
  /-- What was done. -/
  action : Text
  math : Text
  explanation : Text
  /-- What came out, or nothing. -/
  result : Value := .null

/-- How a problem was solved. -/
structure Solution where
  kind : ProblemKind
  answer : Value
  steps : List Step

namespace Step

/-- A step as a record; a result is only there if there is one. -/
def toValue (s : Step) : Value :=
  .record <|
    [("action".toList, .text s.action), ("math".toList, .text s.math),
     ("explanation".toList, .text s.explanation)] ++
    if s.result.isNull then [] else [("result".toList, s.result)]

end Step

namespace Solution

/-- Is there an answer? -/
def isSolved (s : Solution) : Bool := !s.answer.isNull

/-- A solution as a record. -/
def toValue (s : Solution) : Value :=
  .record
    [("type".toList, .text s.kind.name), ("solution".toList, s.answer),
     ("steps".toList, .list (s.steps.map Step.toValue))]

theorem isSolved_iff (s : Solution) : s.isSolved = true ↔ s.answer ≠ .null := by
  cases h : s.answer <;> simp [isSolved, h, Value.isNull]

end Solution

end Stepwise
