import Stepwise.Number.Binary64
import Stepwise.Text.Numeral

/-!
# Decimal numbers

A decimal is `digits · 10 ^ exponent`. `read` takes apart the text of a decimal number: digits with
at most one point among them, then perhaps an exponent. `toBinary64` is the nearest double, and
`toFraction` the exact value.
-/

namespace Stepwise

/-- The number `digits · 10 ^ exponent`. -/
structure Decimal where
  digits : Nat
  exponent : Int
  deriving DecidableEq, Repr

namespace Decimal

open Text

/-- Reads an exponent: `e` or `E`, perhaps a sign, then digits only. Nothing at all is zero. -/
def readExponent : Text → Option Int
  | [] => some 0
  | e :: cs =>
    if e = 'e' ∨ e = 'E' then
      let (negative, ds) :=
        match cs with
        | '-' :: ds => (true, ds)
        | '+' :: ds => (false, ds)
        | ds => (false, ds)
      if !ds.isEmpty && ds.all isDigit then
        some (if negative then -(valueOf ds : Int) else valueOf ds)
      else none
    else none

/-- Reads an unsigned decimal number: digits, a point among them or not, an exponent or not. -/
def read (t : Text) : Option Decimal :=
  let whole := t.takeWhile isDigit
  let rest := t.dropWhile isDigit
  let (fraction, rest) :=
    match rest with
    | '.' :: cs => (cs.takeWhile isDigit, cs.dropWhile isDigit)
    | cs => ([], cs)
  if whole.isEmpty && fraction.isEmpty then none
  else (readExponent rest).map fun e => ⟨valueOf (whole ++ fraction), e - fraction.length⟩

/-- The exact value, as a fraction. -/
def toFraction (d : Decimal) : Nat × Nat :=
  if 0 ≤ d.exponent then (d.digits * 10 ^ d.exponent.toNat, 1)
  else (d.digits, 10 ^ (-d.exponent).toNat)

/-- The nearest double. Beyond `10 ^ 400` and below `10 ^ -400` the exact value is not formed: all
such numbers are infinite or zero. -/
def toBinary64 (d : Decimal) : Binary64 :=
  let size : Int := (Text.ofNat d.digits).length + d.exponent
  if d.digits = 0 ∨ size < -400 then .zero false
  else if 400 < size then .infinite false
  else
    let (n, m) := d.toFraction
    .ofRatio false n m

end Decimal

end Stepwise
