import Stepwise.Bracket
import Stepwise.Phrase.Worded

/-!
# Phrasings of derivatives

Four ways to ask for a derivative become a call `diff(E,V)`: the operator `d/dV` before brackets,
the operator before the rest of the text, "derivative of E" and "differentiate E", the last two
perhaps "with respect to V". They are looked for one after the other in the whole text.

The body in brackets is found by matching brackets, and not looked into again; if an operator's
bracket is never closed, the text from there on is left alone.

Result: `wrappedFrom_of_unclosed`, the operator whose bracket is never closed.
-/

namespace Stepwise.Phrase

open Text Pattern

/-- The name of calls that ask for a derivative. -/
def derivativeName : Text := "diff".toList

/-- The operator `d/dV`, with its variable. -/
def derivativeOperator : Pattern Char := do
  word ['d']
  let _ ← blanks
  literal ['/']
  let _ ← blanks
  word ['d']
  let _ ← blanks
  one isAnyCaseLetter

/-- The operator with an opening bracket after it. -/
def wrappedHead : Pattern (Char × Char) := do
  let x ← derivativeOperator
  let _ ← blanks
  let opener ← one fun c => (Bracket.closer? c).isSome
  return (x, opener)

/-- What stands before the bracket that closes `opener`, and what after it. -/
def cutAtClosing (opener : Char) (t : Text) : Option (Text × Text) := do
  let closer ← Bracket.closer? opener
  let j ← Bracket.closingFrom opener closer 1 t
  return (t.take j, t.drop (j + 1))

/-- The rest of a text after the operators with brackets have become calls. The next `skip`
characters have been read already. -/
def wrappedFrom : (skip : Nat) → Text → Text
  | _, [] => []
  | skip + 1, _ :: cs => wrappedFrom skip cs
  | 0, c :: cs =>
    match wrappedHead.best? (c :: cs) with
    | none => c :: wrappedFrom 0 cs
    | some ((x, opener), rest) =>
      match cutAtClosing opener rest with
      | none => c :: cs
      | some (body, rest) =>
        callText derivativeName [trim body, lower x] ++ wrappedFrom (cs.length - rest.length) cs

/-- Operators with brackets become calls. -/
def wrappedDerivatives (t : Text) : Text := wrappedFrom 0 t

/-- The operator with the rest of the text. -/
def openDerivative : Pattern Text := do
  let x ← derivativeOperator
  let _ ← blanks1
  let body ← many1 inLine
  atEnd
  return callText derivativeName [trim body, lower x]

/-- The end of a worded phrase: its body, and the variable if it is named. -/
def wordedBody : Pattern (Text × Option Char) := do
  let body ← few1 inLine
  let x ← respectTo
  let _ ← blanks
  atEnd
  return (body, x)

/-- "derivative of E". -/
def derivativeOf : Pattern Text := do
  optionalArticle
  words ["derivative".toList, "of".toList]
  let _ ← blanks1
  let (body, x) ← wordedBody
  return calculusCall derivativeName body x

/-- "differentiate E", unless a bracket follows. -/
def differentiate : Pattern Text := do
  word "differentiate".toList
  let _ ← blanks1
  notBefore (· == '(')
  let (body, x) ← wordedBody
  return calculusCall derivativeName body x

/-- All phrasings of derivatives become calls. -/
def derivatives (t : Text) : Text :=
  replaceAll (fun _ => differentiate) <| replaceAll (fun _ => derivativeOf) <|
    replaceAll (fun _ => openDerivative) <| wrappedDerivatives t

theorem wrappedFrom_of_unclosed {c opener x : Char} {cs rest : Text}
    (h : wrappedHead.best? (c :: cs) = some ((x, opener), rest))
    (open_ : cutAtClosing opener rest = none) : wrappedFrom 0 (c :: cs) = c :: cs := by
  simp [wrappedFrom, h, open_]

end Stepwise.Phrase
