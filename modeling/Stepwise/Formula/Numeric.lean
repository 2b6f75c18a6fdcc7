import Stepwise.Number.Root

/-!
# Functions of rational numbers

Formulas may call functions that are defined for rational or whole numbers only: divisors and
multiples, remainders, counting functions, sequences and roundings. `NumberFunction.value?` has
their values; where it has none the function is not defined, or its arguments are no numbers of the
right kind.
-/

namespace Stepwise.Formula

/-- A function of rational numbers. -/
inductive NumberFunction where
  | greatestDivisor
  | leastMultiple
  | remainder
  | quotient
  | binomial
  | rising
  | falling
  | fibonacci
  | lucas
  | catalan
  | harmonic
  | bernoulli
  /-- The nearest whole number, an even one in the middle between two. -/
  | nearest
  | fractional
  deriving DecidableEq

namespace NumberFunction

/-- What a division with a whole quotient leaves over. -/
def leftOver (p q : Rat) : Rat := p - q * ((p / q).floor : Int)

/-- The product of `k` numbers from `q` on, each greater than the one before it by `step`. -/
def stepProduct (step q : Rat) : (k : Nat) → Rat
  | 0 => 1
  | k + 1 => q * stepProduct step (q + step) k

/-- The product of the first positive numbers. -/
def factorial : (n : Nat) → Nat
  | 0 => 1
  | n + 1 => (n + 1) * factorial n

/-- The number of ways to choose `k` of `q` things. -/
def choices (q : Rat) (k : Nat) : Rat := stepProduct (-1) q k / (factorial k : Nat)

/-- A number of the sequence that starts with `a` and `b` and in which each number is the sum of the
two before it. -/
def sumSequence (a b : Nat) : (n : Nat) → Nat
  | 0 => a
  | n + 1 => sumSequence b (a + b) n

/-- The sum of the reciprocals of the first positive numbers. -/
def harmonicSum : (n : Nat) → Rat
  | 0 => 0
  | n + 1 => harmonicSum n + mkRat 1 (n + 1)

/-- The Bernoulli numbers of index below `n`, where that of index 1 is a half. -/
def bernoulliNumbers : (n : Nat) → List Rat
  | 0 => []
  | n + 1 =>
    let known := bernoulliNumbers n
    let sum := (known.zipIdx.map fun (b, (k : Nat)) => choices (mkRat (n + 1) 1) k * b).foldl
      (· + ·) 0
    known ++ [1 - sum / mkRat (n + 1) 1]

/-- The Bernoulli number of index `n`. -/
def bernoulliNumber (n : Nat) : Rat := ((bernoulliNumbers (n + 1)).getLast?).getD 0

/-- The nearest whole number, an even one in the middle between two. -/
def nearestTo (q : Rat) : Int :=
  let n := q.floor
  let d : Rat := q - n
  if d < 1 / 2 then n
  else if 1 / 2 < d then n + 1
  else if n % 2 = 0 then n
  else n + 1

/-- Beyond this argument sequences are not evaluated. -/
def longest : Nat := 1000

/-- The value of a function of small natural numbers. -/
def small? (f : Nat → Rat) (q : Rat) : Option Rat :=
  if q.den = 1 ∧ 0 ≤ q ∧ q ≤ mkRat longest 1 then some (f q.num.toNat) else none

/-- The value of a function, if it is defined for the arguments. -/
def value? (f : NumberFunction) (arguments : List Rat) : Option Rat :=
  let whole := arguments.all fun q => q.den = 1
  match f, arguments with
  | greatestDivisor, [p, q] =>
    if whole then some (mkRat (Nat.gcd p.num.natAbs q.num.natAbs) 1) else none
  | leastMultiple, [p, q] =>
    if whole then some (mkRat (Nat.lcm p.num.natAbs q.num.natAbs) 1) else none
  | remainder, [p, q] => if q = 0 then none else some (leftOver p q)
  | quotient, [p, q] => if q = 0 then none else some ((p / q).floor : Int)
  | binomial, [p, q] =>
    if q.den ≠ 1 then none
    else if q < 0 then some 0
    else small? (fun k => choices p k) q
  | rising, [p, q] => small? (fun k => stepProduct 1 p k) q
  | falling, [p, q] => small? (fun k => stepProduct (-1) p k) q
  | fibonacci, [q] => small? (fun n => mkRat (sumSequence 0 1 n) 1) q
  | lucas, [q] => small? (fun n => mkRat (sumSequence 2 1 n) 1) q
  | catalan, [q] => small? (fun n => choices (mkRat (2 * n) 1) n / mkRat (n + 1) 1) q
  | harmonic, [q] => small? harmonicSum q
  | bernoulli, [q] => if 100 < q then none else small? bernoulliNumber q
  | nearest, [q] => some (nearestTo q)
  | fractional, [q] => some (q - (q.floor : Int))
  | _, _ => none

end NumberFunction

end Stepwise.Formula
