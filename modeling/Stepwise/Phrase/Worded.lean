import Stepwise.Phrase.Pattern

/-!
# Parts of worded problems

What the phrasings of derivatives and integrals share: the words "with respect to" in front of a
variable, the optional "the", and the call that a phrasing is turned into.

Result: `callText_pair`, the shape of a call of an expression and a variable.
-/

namespace Stepwise.Phrase

open Text Pattern

/-- A call in canonical form. -/
def callText (name : Text) (arguments : List Text) : Text :=
  name ++ '(' :: joinWith [','] arguments ++ [')']

/-- The variable of problems that name none. -/
def usualVariable : Char := 'x'

/-- The words one after the other, with blanks between. -/
def words : List Text → Pattern Unit
  | [] => pure ()
  | [w] => word w
  | w :: ws => do
    word w
    let _ ← blanks1
    words ws

/-- "the" and blanks, or nothing. -/
def optionalArticle : Pattern Unit := do
  let _ ← optional do
    word "the".toList
    blanks1

/-- "with respect to" a variable, or nothing. -/
def respectTo : Pattern (Option Char) := optional do
  let _ ← blanks1
  words ["with".toList, "respect".toList, "to".toList]
  let _ ← blanks1
  one isAnyCaseLetter

/-- A call of an expression, trimmed, and a variable. -/
def calculusCall (name body : Text) (x : Option Char) : Text :=
  callText name [trim body, [x.getD usualVariable]]

theorem callText_pair (name body x : Text) :
    callText name [body, x] = name ++ '(' :: body ++ ',' :: x ++ [')'] := by
  simp [callText, joinWith]

end Stepwise.Phrase
