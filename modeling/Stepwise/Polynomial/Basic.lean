import Stepwise.Number.Root

/-!
# Polynomials

A polynomial in one variable over the rational numbers is the list of its coefficients, the
constant one first; the last coefficient is not zero. Division with remainder, greatest common
divisors and the parts of equal multiplicity are computed exactly.

Results: `eval_add`, `eval_scale`, `eval_mul`, and `eval_divMod`, division loses nothing.
-/

namespace Stepwise

/-- A polynomial by its coefficients, the constant one first. -/
abbrev Poly := List Rat

namespace Poly

/-- The coefficients without zeros at the end. -/
def trim : List Rat → Poly
  | [] => []
  | c :: cs =>
    match trim cs with
    | [] => if c = 0 then [] else [c]
    | d :: ds => c :: d :: ds

/-- The value at a point. -/
def eval (x : Rat) : Poly → Rat
  | [] => 0
  | c :: cs => c + x * eval x cs

/-- A constant. -/
def const (c : Rat) : Poly := trim [c]

/-- The degree; 0 for constants. -/
def degree (p : Poly) : Nat := p.length - 1

/-- The coefficient of the greatest power. -/
def lead (p : Poly) : Rat := p.getLast?.getD 0

/-- The sums of coefficients. -/
def zipAdd : List Rat → List Rat → List Rat
  | [], q => q
  | p, [] => p
  | c :: cs, d :: ds => (c + d) :: zipAdd cs ds

def add (p q : Poly) : Poly := trim (zipAdd p q)

/-- The product with a number. -/
def scale (c : Rat) (p : Poly) : Poly := trim (p.map (c * ·))

def neg (p : Poly) : Poly := scale (-1) p

def sub (p q : Poly) : Poly := add p q.neg

def mul : Poly → Poly → Poly
  | [], _ => []
  | c :: cs, q => add (scale c q) (trim (0 :: mul cs q))

def pow (p : Poly) : Nat → Poly
  | 0 => [1]
  | n + 1 => mul p (pow p n)

/-- `c` times the `k`-th power of the variable. -/
def monomial (c : Rat) (k : Nat) : Poly := trim (List.replicate k 0 ++ [c])

/-- Quotient and remainder, after at most `steps` subtractions. -/
def divModIn : (steps : Nat) → Poly → Poly → Poly × Poly
  | 0, p, _ => ([], p)
  | steps + 1, p, q =>
    if p.length < q.length || q.isEmpty || p.isEmpty then ([], p)
    else
      let m := monomial (p.lead / q.lead) (p.length - q.length)
      let (d, r) := divModIn steps (sub p (mul m q)) q
      (add m d, r)

/-- Quotient and remainder; division by zero leaves everything over. -/
def divMod (p q : Poly) : Poly × Poly := divModIn p.length p q

def div (p q : Poly) : Poly := (divMod p q).1

def mod (p q : Poly) : Poly := (divMod p q).2

/-- The multiple with the greatest coefficient 1. -/
def monic (p : Poly) : Poly := if p.lead = 0 then p else scale p.lead⁻¹ p

/-- Divides in turn until nothing is left over. -/
def gcdIn : (steps : Nat) → Poly → Poly → Poly
  | 0, p, _ => p.monic
  | steps + 1, p, q => if q.isEmpty then p.monic else gcdIn steps q (mod p q)

/-- The greatest common divisor, with the greatest coefficient 1. -/
def gcd (p q : Poly) : Poly := gcdIn (p.length + q.length + 1) p q

/-- The coefficients of the derivative, where the first one belongs to the `k`-th power. -/
def derivativeFrom (k : Nat) : List Rat → List Rat
  | [] => []
  | c :: cs => (k : Rat) * c :: derivativeFrom (k + 1) cs

def derivative (p : Poly) : Poly := trim (derivativeFrom 1 p.tail)

/-- The coefficients of an antiderivative, where the first one belongs to the power `k - 1`. -/
def antiderivativeFrom (k : Nat) : List Rat → List Rat
  | [] => []
  | c :: cs => c / (k : Rat) :: antiderivativeFrom (k + 1) cs

/-- The antiderivative without a constant. -/
def antiderivative (p : Poly) : Poly := trim (0 :: antiderivativeFrom 1 p)

/-- The least common multiple of the denominators. -/
def denominator (p : Poly) : Nat := p.foldl (fun d c => Nat.lcm d c.den) 1

/-- The greatest common divisor of the coefficients, with the sign of the last one. -/
def content (p : Poly) : Rat :=
  let d := denominator p
  let g := p.foldl (fun g c => Nat.gcd g (c.num.natAbs * (d / c.den))) 0
  let c := mkRat g d
  if p.lead < 0 then -c else c

/-- The multiple with integer coefficients without a common factor, the last one positive. -/
def primitive (p : Poly) : Poly :=
  let c := content p
  if c = 0 then p else scale c⁻¹ p

/-- The polynomial `p (x + a)`. -/
def shift (a : Rat) : Poly → Poly
  | [] => []
  | c :: cs => add (const c) (mul [a, 1] (shift a cs))

/-- The factors whose roots have equal multiplicity, from multiplicity `k` on, with it. -/
def multiplicities : (steps k : Nat) → (p g : Poly) → List (Poly × Nat)
  | 0, k, p, _ => [(p, k)]
  | steps + 1, k, p, g =>
    if p.degree = 0 then []
    else
      let common := gcd p g
      let here := div p common
      let rest := multiplicities steps (k + 1) common (div g common)
      if here.degree = 0 then rest else (here.monic, k) :: rest

/-- The factors whose roots have equal multiplicity, with it. -/
def byMultiplicity (p : Poly) : List (Poly × Nat) :=
  let g := gcd p p.derivative
  multiplicities p.length 1 (div p g) g

theorem eval_trim (x : Rat) (cs : List Rat) : eval x (trim cs) = eval x cs := by
  induction cs with
  | nil => rfl
  | cons c cs ih =>
    unfold trim
    split
    · next h =>
      rw [h] at ih
      by_cases hc : c = 0
      · rw [if_pos hc]; simp only [eval, ← ih]; grind
      · rw [if_neg hc]; simp only [eval, ← ih]
    · next h => rw [h] at ih; simp only [eval, ← ih]

theorem eval_zipAdd (x : Rat) (p q : List Rat) : eval x (zipAdd p q) = eval x p + eval x q := by
  fun_induction zipAdd p q with
  | case1 => simp only [eval]; grind
  | case2 => simp only [eval]; grind
  | case3 c cs d ds ih => simp only [eval, ih]; grind

theorem eval_add (x : Rat) (p q : Poly) : eval x (add p q) = eval x p + eval x q := by
  rw [add, eval_trim, eval_zipAdd]

theorem eval_scale (x c : Rat) (p : Poly) : eval x (scale c p) = c * eval x p := by
  rw [scale, eval_trim]
  induction p with
  | nil => simp [eval]
  | cons d ds ih => simp only [List.map, eval, ih]; grind

theorem eval_sub (x : Rat) (p q : Poly) : eval x (sub p q) = eval x p - eval x q := by
  rw [sub, neg, eval_add, eval_scale]; grind

theorem eval_mul (x : Rat) (p q : Poly) : eval x (mul p q) = eval x p * eval x q := by
  induction p with
  | nil => simp [mul, eval]
  | cons c cs ih => simp only [mul, eval_add, eval_scale, eval_trim, eval, ih]; grind

theorem eval_divModIn (x : Rat) (steps : Nat) (p q : Poly) :
    eval x p = eval x (divModIn steps p q).1 * eval x q + eval x (divModIn steps p q).2 := by
  induction steps generalizing p with
  | zero => simp only [divModIn, eval]; grind
  | succ steps ih =>
    unfold divModIn
    split
    · simp only [eval]; grind
    · have := ih (sub p (mul (monomial (p.lead / q.lead) (p.length - q.length)) q))
      rw [eval_sub, eval_mul] at this
      simp only [eval_add]
      grind

theorem eval_divMod (x : Rat) (p q : Poly) :
    eval x p = eval x (div p q) * eval x q + eval x (mod p q) :=
  eval_divModIn x _ p q

end Poly

end Stepwise
