import Stepwise.Number.Power

/-!
# Roots and factors of natural numbers

`rootFloor k n` is the greatest number whose `k`-th power does not exceed `n`, found by Newton's
method, and bit by bit should that fail. From it come exact roots and the decomposition of perfect powers. `smallFactors` divides by every
number below a limit and keeps what is left as one factor.
-/

namespace Stepwise

/-- Improves a lower bound of the `k`-th root of `n` by the binary digits below position `i`. -/
def rootFrom (k n : Nat) : (i bound : Nat) → Nat
  | 0, r => r
  | i + 1, r =>
    let s := r + 2 ^ i
    rootFrom k n i (if s ^ k ≤ n then s else r)

/-- Newton's method for the `k`-th root of `n` from an upper bound `r`, as long as it goes down. -/
def rootBelow (k n : Nat) : (steps r : Nat) → Nat
  | 0, r => r
  | steps + 1, r =>
    let s := ((k - 1) * r + n / r ^ (k - 1)) / k
    if s < r then rootBelow k n steps s else r

/-- The greatest number whose `k`-th power does not exceed `n`. -/
def rootFloor (k n : Nat) : Nat :=
  if n = 0 then 0
  else if n.log2 < k then 1
  else
    let r := rootBelow k n n.log2 (2 ^ (n.log2 / k + 1))
    if r ^ k ≤ n then r else rootFrom k n (n.log2 / k + 1) 0

/-- The `k`-th root of `n`, if it is a natural number. -/
def exactRoot? (k n : Nat) : Option Nat :=
  let r := rootFloor k n
  if r ^ k = n then some r else none

/-- `n` as a power with the greatest exponent at most `k` that is at least 2. -/
def powerUpTo (n : Nat) : (k : Nat) → Option (Nat × Nat)
  | 0 => none
  | 1 => none
  | k + 2 =>
    match exactRoot? (k + 2) n with
    | some r => some (r, k + 2)
    | none => powerUpTo n (k + 1)

/-- A number above 1 as a power with the greatest exponent, if that is at least 2. -/
def perfectPower? (n : Nat) : Option (Nat × Nat) := powerUpTo n n.log2

/-- How often `d` divides `n`, counting up to `most`, and the remaining quotient. -/
def splitPower (d : Nat) : (most n : Nat) → Nat × Nat
  | 0, n => (0, n)
  | most + 1, n =>
    if n % d = 0 then
      let (e, rest) := splitPower d most (n / d)
      (e + 1, rest)
    else (0, n)

/-- The factors of `n` from `d` on, with their exponents, after at most `steps` divisors; the last
one is whatever is left. -/
def factorsFrom : (steps d n : Nat) → List (Nat × Nat)
  | 0, _, n => if n ≤ 1 then [] else [(perfectPower? n).getD (n, 1)]
  | steps + 1, d, n =>
    if n < d * d then if n ≤ 1 then [] else [(n, 1)]
    else if n % d = 0 then
      let (e, rest) := splitPower d n.log2 n
      (d, e) :: factorsFrom steps (d + 1) rest
    else factorsFrom steps (d + 1) n

/-- Factors from this number on are not searched for. -/
def factorLimit : Nat := 2 ^ (15 : Nat)

/-- The factors of a positive number with their exponents. What has only factors above the limit is
one factor. -/
def smallFactors (n : Nat) : List (Nat × Nat) := factorsFrom factorLimit 2 n

end Stepwise
