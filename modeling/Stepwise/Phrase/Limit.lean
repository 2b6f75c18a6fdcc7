import Stepwise.Phrase.Worded
import Stepwise.Text.Word

/-!
# Phrasings of limits

Two ways to ask for a limit become a call `limit(E,V,A)`: "lim" with an arrow, braces and an
underscore being optional, and "limit as V approaches A of E".
-/

namespace Stepwise.Phrase

open Text Pattern

/-- The name of calls that ask for a limit. -/
def limitName : Text := "limit".toList

/-- A limit call. -/
def limitCall (body : Text) (x : Char) (target : Text) : Text :=
  callText limitName [trim body, [x], target]

/-- An arrow. -/
def arrow : Pattern Unit := either (literal ['→']) (literal "->".toList)

/-- "lim" with an arrow, at a word boundary. -/
def arrowLimit (last : Option Char) : Pattern Text := do
  guard (atBoundary last)
  word "lim".toList
  let _ ← blanks
  let _ ← optional (literal ['_'])
  let _ ← blanks
  let _ ← optional (literal ['\x7b'])
  let _ ← blanks
  let x ← one isAnyCaseLetter
  let _ ← blanks
  arrow
  let _ ← blanks
  let target ← many1 fun c => !isBlank c && c != '\x7d'
  let _ ← blanks
  let _ ← optional (literal ['\x7d'])
  let _ ← blanks1
  let body ← many1 inLine
  atEnd
  return limitCall body x target

/-- "approaches", "goes to" or "tends to". -/
def approaches : Pattern Unit :=
  either (word "approaches".toList) <|
    either (words ["goes".toList, "to".toList]) (words ["tends".toList, "to".toList])

/-- "limit as V approaches A of E", at a word boundary. -/
def wordedLimit (last : Option Char) : Pattern Text := do
  guard (atBoundary last)
  words ["limit".toList, "as".toList]
  let _ ← blanks1
  let x ← one isAnyCaseLetter
  let _ ← blanks1
  approaches
  let _ ← blanks1
  let target ← many1 fun c => !isBlank c
  let _ ← blanks1
  word "of".toList
  let _ ← blanks1
  let body ← many1 inLine
  atEnd
  return limitCall body x target

/-- All phrasings of limits become calls. -/
def limits (t : Text) : Text := replaceAll wordedLimit (replaceAll arrowLimit t)

end Stepwise.Phrase
