import Stepwise.Value
import Stepwise.Tree.Token

/-!
# Expression trees

A tree keeps an expression as it was written: numbers with their spelling, parentheses and all.
`Tree.text` writes it again with a space on either side of every operator, an implied product as
`*`, and no parenthesis that was not there.

Result: `text_call`.
-/

namespace Stepwise

/-- The binary operators. -/
inductive Operator where
  | plus
  | minus
  | times
  | dividedBy
  | power
  deriving DecidableEq, Repr

/-- The sign of an operator. -/
def Operator.sign : Operator → Char
  | plus => '+'
  | minus => '-'
  | times => '*'
  | dividedBy => '/'
  | power => '^'

/-- The value of a numeral: exact without point and exponent, else the nearest double. -/
inductive Numeral where
  | whole (n : Nat)
  | decimal (x : Binary64)
  deriving DecidableEq

/-- The number that a numeral stands for. -/
def Numeral.value : Numeral → Value
  | whole n => .int n
  | decimal x => .float x

/-- An expression as it was written. -/
inductive Tree where
  | constant (value : Numeral) (spelling : Text)
  | name (spelling : Text)
  /-- A leading minus sign. -/
  | negation (operand : Tree)
  | operation (op : Operator) (left right : Tree)
  | parenthesis (content : Tree)
  | call (function : Text) (arguments : List Tree)

namespace Tree

mutual

/-- An expression in writing. -/
def text : Tree → Text
  | constant _ spelling => spelling
  | name spelling => spelling
  | negation operand => '-' :: operand.text
  | operation op left right => left.text ++ [' ', op.sign, ' '] ++ right.text
  | parenthesis content => '(' :: content.text ++ [')']
  | call function arguments =>
    function ++ '(' :: Text.joinWith ", ".toList (texts arguments) ++ [')']

/-- The arguments of a call in writing. -/
def texts : List Tree → List Text
  | [] => []
  | t :: ts => t.text :: texts ts

end

theorem texts_eq_map (ts : List Tree) : texts ts = ts.map text := by
  induction ts with
  | nil => rfl
  | cons t ts ih => simp [texts, ih]

theorem text_call (f : Text) (ts : List Tree) :
    (call f ts).text = f ++ '(' :: Text.joinWith ", ".toList (ts.map text) ++ [')'] := by
  simp [text, texts_eq_map]

end Tree

end Stepwise
