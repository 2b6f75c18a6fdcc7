import Stepwise.Value

/-!
# Operands

A reduced value is written back into an expression as an operand of the next operation. It goes
into parentheses when it would bind loosely: a negative number, so that `(-3) ^ 2` does not become
`-3 ^ 2`, and a text with a space or an operator sign in it, so that `x + 1` stays together.

Result: `operand_nonneg`, an integer from zero on stands bare.
-/

namespace Stepwise.Value

/-- Is this a number? Truth values are none. -/
def isNumeric : Value → Bool
  | .int _ | .float _ => true
  | _ => false

/-- Is this a number below zero? -/
def isBelowZero : Value → Bool
  | .int n => n < 0
  | .float x => x.isBelowZero
  | _ => false

/-- The characters that let a text fall apart next to an operator. -/
def looseCharacters : Text := " +-*/^".toList

/-- A text in parentheses. -/
def parenthesized (t : Text) : Text := '(' :: t ++ [')']

/-- Does the value need parentheses next to an operator, given its text? -/
def bindsLoosely (v : Value) (t : Text) : Bool :=
  if v.isNumeric then v.isBelowZero else t.any looseCharacters.contains

/-- The text of a value as an operand. -/
def operand (v : Value) : Except Fault Text := do
  let t ← v.display
  return if v.bindsLoosely t then parenthesized t else t

theorem operand_nonneg {n : Nat} (h : n < 10 ^ Fault.digitLimit) :
    operand (.int n) = .ok (Text.ofNat n) := by
  have e : display (.int n) = .ok (Text.ofNat n) := display_int (by simpa using h)
  have b : bindsLoosely (.int n) (Text.ofNat n) = false := by
    simp [bindsLoosely, isNumeric, isBelowZero]
  simp only [operand, e, bind, Except.bind, b]
  rfl

end Stepwise.Value
