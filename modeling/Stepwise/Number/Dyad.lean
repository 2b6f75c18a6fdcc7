import Stepwise.Number.Binary64
import Stepwise.Number.Root

/-!
# Approximate real numbers

A dyad is `mantissa · 2 ^ exponent`. Sums and products are trimmed to `precision` bits; the
elementary functions sum their series in whole multiples of `2 ^ (-bits)`, by Horner's rule, with
more bits than are kept. A sum whose terms cancel down to their last bits is taken to be zero.
That is far more than the 53 bits to which results are rounded in the end.
-/

namespace Stepwise

/-- The number `mantissa · 2 ^ exponent`. -/
structure Dyad where
  mantissa : Int
  exponent : Int
  deriving DecidableEq, Repr

namespace Dyad

/-- How many bits of a mantissa are kept. -/
def precision : Nat := 320

/-- How far the terms of a sum may cancel before the sum counts as zero, in bits. -/
def cancellation : Nat := 280

/-- `n · 2 ^ k`, rounded down. -/
def shift (n k : Int) : Int :=
  if 0 ≤ k then n * ((2 ^ k.toNat : Nat) : Int) else n / ((2 ^ (-k).toNat : Nat) : Int)

/-- The same number with at most `precision` bits, and one form of zero. -/
def trim (x : Dyad) : Dyad :=
  let size := x.mantissa.natAbs.log2
  if x.mantissa = 0 then ⟨0, 0⟩
  else if size ≤ precision then x
  else ⟨shift x.mantissa (-((size - precision : Nat) : Int)), x.exponent + (size - precision : Nat)⟩

def zero : Dyad := ⟨0, 0⟩

def one : Dyad := ⟨1, 0⟩

def ofInt (n : Int) : Dyad := trim ⟨n, 0⟩

/-- The position of the leading bit: a number other than zero lies between `2 ^ k` and
`2 ^ (k + 1)` in magnitude. -/
def magnitude (x : Dyad) : Int := x.mantissa.natAbs.log2 + x.exponent

def isZero (x : Dyad) : Bool := x.mantissa = 0

def isNegative (x : Dyad) : Bool := x.mantissa < 0

def isPositive (x : Dyad) : Bool := 0 < x.mantissa

def neg (x : Dyad) : Dyad := ⟨-x.mantissa, x.exponent⟩

def abs (x : Dyad) : Dyad := ⟨(x.mantissa.natAbs : Int), x.exponent⟩

/-- The product, trimmed. -/
def mul (x y : Dyad) : Dyad := trim ⟨x.mantissa * y.mantissa, x.exponent + y.exponent⟩

/-- The sum, trimmed; zero if the terms cancel down to their last bits. -/
def add (x y : Dyad) : Dyad :=
  if x.mantissa = 0 then y
  else if y.mantissa = 0 then x
  else if x.magnitude + 2 * precision < y.magnitude then y
  else if y.magnitude + 2 * precision < x.magnitude then x
  else
    let e := min x.exponent y.exponent
    let s := trim ⟨shift x.mantissa (x.exponent - e) + shift y.mantissa (y.exponent - e), e⟩
    if s.magnitude + cancellation < max x.magnitude y.magnitude then zero else s

def sub (x y : Dyad) : Dyad := add x y.neg

/-- The quotient; zero if the divisor is zero. -/
def div (x y : Dyad) : Dyad :=
  if y.mantissa = 0 then zero
  else
    let k : Int := 2 * precision
    trim ⟨(shift x.mantissa k).tdiv y.mantissa, x.exponent - y.exponent - k⟩

def half (x : Dyad) : Dyad := ⟨x.mantissa, x.exponent - 1⟩

def ofRat (q : Rat) : Dyad := div (ofInt q.num) (ofInt q.den)

/-- Is `x` less than `y`? -/
def lt (x y : Dyad) : Bool := (sub x y).isNegative

/-- The square root of a number that is not negative. -/
def sqrt (x : Dyad) : Dyad :=
  if x.mantissa ≤ 0 then zero
  else
    let k : Int := 2 * precision + (x.exponent % 2)
    trim ⟨(rootFloor 2 (shift x.mantissa k).toNat : Nat), (x.exponent - k) / 2⟩

/-! ### Fixed point -/

/-- How many bits are used beyond the point when nothing is known of a number's size. -/
def workingBits : Nat := precision + 80

/-- The number in multiples of `2 ^ (-bits)`. -/
def toFixed (bits : Nat) (x : Dyad) : Int := shift x.mantissa (x.exponent + bits)

/-- The number that is `n` multiples of `2 ^ (-bits)`. -/
def ofFixed (bits : Nat) (n : Int) : Dyad := trim ⟨n, -(bits : Int)⟩

/-- The product of two numbers in fixed point. -/
def mulFixed (bits : Nat) (m n : Int) : Int := shift (m * n) (-(bits : Int))

/-- The sum of `sign ^ k / ((2 k + 1) n ^ (2 k + 1))` over the first `steps` values of `k`, beginning
with `k`; `power` is `1 / n ^ (2 k + 1)`. -/
def inverseSeries (n : Int) (alternate : Bool) : (steps k : Nat) → (power : Int) → Int
  | 0, _, _ => 0
  | steps + 1, k, power =>
    let term := power / (2 * k + 1 : Int)
    (if alternate && k % 2 = 1 then -term else term) +
      inverseSeries n alternate steps (k + 1) (power / (n * n))

/-- The arc tangent of `1 / n`, or the hyperbolic one, in fixed point. -/
def inverseTangent (bits : Nat) (n : Int) (alternate : Bool) : Int :=
  let guarded := bits + 16
  shift (inverseSeries n alternate guarded 0 (shift 1 guarded / n)) (-16)

/-- π in fixed point, by Machin's formula. -/
def piFixed (bits : Nat) : Int :=
  16 * inverseTangent bits 5 true - 4 * inverseTangent bits 239 true

/-- The logarithm of 2 in fixed point. -/
def logTwoFixed (bits : Nat) : Int := 2 * inverseTangent bits 3 false

/-- How many bits of the constants are kept at hand. -/
def wideBits : Nat := workingBits + 1200

/-- π with many bits. -/
def widePi : Int := piFixed wideBits

/-- The logarithm of 2 with many bits. -/
def wideLogTwo : Int := logTwoFixed wideBits

/-- π in fixed point, from the bits at hand where they are enough. -/
def piWith (bits : Nat) : Int :=
  if bits ≤ wideBits then shift widePi (-((wideBits - bits : Nat) : Int)) else piFixed bits

/-- The logarithm of 2 in fixed point, from the bits at hand where they are enough. -/
def logTwoWith (bits : Nat) : Int :=
  if bits ≤ wideBits then shift wideLogTwo (-((wideBits - bits : Nat) : Int)) else logTwoFixed bits

/-- π. -/
def pi : Dyad := ofFixed workingBits (piWith workingBits)

/-- The logarithm of 2. -/
def logTwo : Dyad := ofFixed workingBits (logTwoWith workingBits)

/-! ### Elementary functions -/

/-- `1 + r (1 + r / 2 (1 + r / 3 (…)))` from the term `n` on, up to the term `n + steps`. -/
def expSeries (bits : Nat) (r : Int) : (steps n : Nat) → Int
  | 0, _ => shift 1 bits
  | steps + 1, n => shift 1 bits + mulFixed bits r (expSeries bits r steps (n + 1)) / (n : Int)

/-- The square of the square of … a number in fixed point. -/
def squareFixed (bits : Nat) : (times : Nat) → Int → Int
  | 0, n => n
  | times + 1, n => squareFixed bits times (mulFixed bits n n)

/-- The exponential function: of what is left after a multiple of the logarithm of 2, the 256th part
goes into the series. -/
def exp (x : Dyad) : Dyad :=
  if x.mantissa = 0 then one
  else
    let bits := workingBits + x.magnitude.toNat
    let logTwo := logTwoWith bits
    let fixed := x.toFixed bits
    let k := fixed / logTwo
    let r := fixed - k * logTwo
    let small := ofFixed bits (squareFixed bits 8 (expSeries bits (shift r (-8)) 36 1))
    ⟨small.mantissa, small.exponent + k⟩

/-- `1 / k + z (1 / (k + 2) + z (…))`, `steps` terms. -/
def oddSeries (bits : Nat) (z : Int) : (steps k : Nat) → Int
  | 0, _ => 0
  | steps + 1, k => shift 1 bits / (k : Int) + mulFixed bits z (oddSeries bits z steps (k + 2))

/-- The natural logarithm of a positive number. Unless what is left after powers of 2 is close to 1,
its 16th root goes into the series. -/
def log (x : Dyad) : Dyad :=
  if x.mantissa ≤ 0 then zero
  else
    let bits := workingBits
    let k := x.magnitude
    let scaled : Dyad := ⟨x.mantissa, x.exponent - k⟩
    let (m, k) := if lt scaled (ofRat (4 / 3)) then (scaled, k) else (scaled.half, k + 1)
    let isClose : Bool := m == one || (sub m one).magnitude < -8
    let r := if isClose then m else m.sqrt.sqrt.sqrt.sqrt
    let z := div (sub r one) (add r one)
    let square := (mul z z).toFixed bits
    let series := mul z (ofFixed bits (2 * oddSeries bits square 42 1))
    let series := if isClose then series else ⟨series.mantissa, series.exponent + 4⟩
    add series (mul (ofInt k) logTwo)

/-- `1 - y / (n (n + 1)) (1 - y / ((n + 2) (n + 3)) (…))`, `steps` factors. -/
def circularSeries (bits : Nat) (y : Int) : (steps n : Nat) → Int
  | 0, _ => shift 1 bits
  | steps + 1, n =>
    shift 1 bits - mulFixed bits y (circularSeries bits y steps (n + 2)) / ((n * (n + 1) : Nat) : Int)

/-- The sine and the cosine. -/
def sinCos (x : Dyad) : Dyad × Dyad :=
  if x.mantissa = 0 then (zero, one)
  else
    let bits := workingBits + x.magnitude.toNat
    let quarter := piWith bits / 2
    let fixed := x.toFixed bits
    let k := (2 * fixed + quarter) / (2 * quarter)
    let r := if k = 0 then trim x else ofFixed bits (fixed - k * quarter)
    let square := (mul r r).toFixed workingBits
    let s := mul r (ofFixed workingBits (circularSeries workingBits square 46 2))
    let c := ofFixed workingBits (circularSeries workingBits square 46 1)
    match k % 4 with
    | 0 => (s, c)
    | 1 => (c, s.neg)
    | 2 => (s.neg, c.neg)
    | _ => (c.neg, s)

/-- `x / (1 + √(1 + x²))`, whose arc tangent is half that of `x`. -/
def halveTangent (x : Dyad) : Dyad := div x (add one (sqrt (add one (mul x x))))

/-- The arc tangent: a 64th part of it comes from the series. -/
def atan (x : Dyad) : Dyad :=
  let quarter (x : Dyad) : Dyad := halveTangent (halveTangent x)
  let y := quarter (quarter (quarter x))
  let square := (mul y y).toFixed workingBits
  let series := mul y (ofFixed workingBits (oddSeries workingBits (-square) 42 1))
  ⟨series.mantissa, series.exponent + 6⟩

/-- The angle of the point `(x, y)`, between -π and π. -/
def angle (x y : Dyad) : Dyad :=
  if y.mantissa = 0 then if x.mantissa < 0 then pi else zero
  else if x.mantissa = 0 then if y.mantissa < 0 then pi.half.neg else pi.half
  else
    let a := atan (div y x)
    if 0 < x.mantissa then a else if y.mantissa < 0 then sub a pi else add a pi

/-- The greatest integer that is not above the number. -/
def floor (x : Dyad) : Int := shift x.mantissa x.exponent

/-- The nearest double. -/
def toBinary64 (x : Dyad) : Binary64 :=
  if x.mantissa = 0 then .zero false
  else if 1100 < x.magnitude then .infinite x.isNegative
  else if x.magnitude < -1200 then .zero x.isNegative
  else if 0 ≤ x.exponent then .ofRatio x.isNegative (x.mantissa.natAbs * 2 ^ x.exponent.toNat) 1
  else .ofRatio x.isNegative x.mantissa.natAbs (2 ^ (-x.exponent).toNat)

/-- A quotient in units of `2 ^ k`, rounded down. -/
def units (n d : Nat) (k : Int) : Nat :=
  if 0 ≤ k then n / (d * 2 ^ k.toNat) else n * 2 ^ (-k).toNat / d

/-- The 57 leading bits of a rational number, rounded to 53. That is not always the nearest double:
`17/25` becomes the one below it. -/
def short (q : Rat) : Dyad :=
  let n := q.num.natAbs
  let k := Binary64.floorLog2 n q.den - 56
  let bits := roundDiv (units n q.den k) 16
  if n = 0 then zero else ⟨if q.num < 0 then -(bits : Int) else bits, k + 4⟩

example : (short (17 / 25)).toBinary64 ≠ .ofFraction 17 25 := by decide +kernel

end Dyad

end Stepwise
