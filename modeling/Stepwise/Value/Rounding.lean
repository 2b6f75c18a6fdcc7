import Stepwise.Value

/-!
# Rounding results

A numeric result is rounded half-up to a number of decimal places. `Value.round` leaves everything
alone that is no finite double: texts, exact integers, infinities. A double that is too large to
have decimals left at the wanted precision stays as it is, and a rounded result that is whole
becomes an integer.

The scale `10 ^ precision` is an exact integer for `0 ≤ precision` and the nearest double below
that. Either can leave the range of doubles, which is a fault.

Results: `round_int` and `round_of_not_finite`, values that pass untouched.
-/

namespace Stepwise

namespace Binary64

/-- The double nearest to `10 ^ -k`. -/
def tenthPower (k : Nat) : Binary64 :=
  if 400 < k then zero false else ofRatio false 1 (10 ^ k)

/-- The product of a double with the scale `10 ^ precision`. -/
def scaleUp (x : Binary64) (precision : Int) : Except Fault Binary64 :=
  match precision with
  | .ofNat p =>
    if 400 < p then .error .integerTooLarge
    else
      match ofInt? (10 ^ p) with
      | some factor => .ok (x.mul factor)
      | none => .error .integerTooLarge
  | .negSucc p =>
    match ofInt? (.negSucc p) with
    | some _ => .ok (x.mul (tenthPower (p + 1)))
    | none => .error .integerTooLarge

/-- The quotient of an integer by the scale `10 ^ precision`. -/
def scaleDown (n : Int) (precision : Int) : Except Fault Binary64 :=
  match precision with
  | .ofNat p => .ok (ofFraction n (10 ^ p))
  | .negSucc p =>
    match ofInt? n with
    | none => .error .integerTooLarge
    | some x =>
      match x.div? (tenthPower (p + 1)) with
      | some y => .ok y
      | none => .error .divisionByZero

end Binary64

namespace Value

/-- A half. -/
def half : Binary64 := .ofFraction 1 2

/-- A finite double rounded half-up to `precision` decimal places. -/
def roundFinite (x : Binary64) (precision : Int) : Except Fault Value := do
  let scaled ← x.scaleUp precision
  if !scaled.isFinite || scaled.atLeastPow2 53 then return .float x
  let rounded ← Binary64.scaleDown (((scaled.add half).floor?).getD 0) precision
  return match rounded.toInt? with
    | some n => .int n
    | none => .float rounded

/-- A value rounded half-up to `precision` decimal places, if it is a finite double. -/
def round (precision : Int) : Value → Except Fault Value
  | .float x => if x.isFinite then roundFinite x precision else .ok (.float x)
  | v => .ok v

theorem round_int (precision n : Int) : round precision (.int n) = .ok (.int n) := rfl

theorem round_of_not_finite (precision : Int) {x : Binary64} (h : x.isFinite = false) :
    round precision (.float x) = .ok (.float x) := by
  simp [round, h]

end Value

end Stepwise
