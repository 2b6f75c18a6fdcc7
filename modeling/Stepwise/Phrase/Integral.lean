import Stepwise.Phrase.Derivative
import Stepwise.Text.Word

/-!
# Phrasings of integrals

Five ways to ask for an antiderivative become a call `integrate(E,V)`: the integral sign with a
differential, the sign before the rest of the text, "integral of E" with a differential or "with
respect to V" or neither, "integrate E", and the short call `int(E,V)`. They are looked for one
after the other in the whole text.
-/

namespace Stepwise.Phrase

open Text Pattern

/-- The name of calls that ask for an antiderivative. -/
def integralName : Text := "integrate".toList

/-- The integral sign with a differential. -/
def signWithDifferential : Pattern Text := do
  literal ['∫']
  let _ ← blanks
  let body ← few1 inLine
  let _ ← blanks
  literal ['d']
  let x ← one isLetter
  notBefore isLetter
  return calculusCall integralName body (some x)

/-- The integral sign before the rest of the text. -/
def openIntegral : Pattern Text := do
  literal ['∫']
  let _ ← blanks
  let body ← many1 inLine
  atEnd
  return calculusCall integralName body none

/-- A differential in words or letters after the body of an integral. -/
def wordedDifferential : Pattern (Option Char) := optional do
  let _ ← blanks1
  word ['d']
  let x ← one isAnyCaseLetter
  notBefore isAnyCaseLetter
  return x

/-- "integral of E". -/
def integralOf : Pattern Text := do
  optionalArticle
  words ["integral".toList, "of".toList]
  let _ ← blanks1
  let body ← few1 inLine
  let x ← wordedDifferential
  let y ← respectTo
  let _ ← blanks
  atEnd
  return calculusCall integralName body (x <|> y)

/-- "integrate E", unless a bracket follows. -/
def integrate : Pattern Text := do
  word integralName
  let _ ← blanks1
  notBefore (· == '(')
  let (body, x) ← wordedBody
  return calculusCall integralName body x

/-- The name `int` of a call, at a word boundary. -/
def shortIntegral (last : Option Char) : Pattern Text := do
  guard (atBoundary last)
  literal "int".toList
  let _ ← blanks
  literal ['(']
  return integralName ++ ['(']

/-- All phrasings of integrals become calls. -/
def integrals (t : Text) : Text :=
  replaceAll shortIntegral <| replaceAll (fun _ => integrate) <|
    replaceAll (fun _ => integralOf) <| replaceAll (fun _ => openIntegral) <|
      replaceAll (fun _ => signWithDifferential) t

end Stepwise.Phrase
