import Stepwise.Polynomial.Factor

/-!
# Polynomials in several variables

A polynomial in several variables is the list of its terms, each the exponents of the variables and
a coefficient. The terms are ordered by their exponents, the greatest first, and no coefficient is
zero. Greatest common divisors are computed by recursion on the variables: a polynomial is one in
its first variable whose coefficients are polynomials in the others.
-/

namespace Stepwise

/-- A term: the exponents of the variables, and a coefficient. -/
abbrev MonomialTerm := List Nat × Rat

/-- A polynomial in several variables by its terms. -/
abbrev MPoly := List MonomialTerm

namespace MPoly

/-- Compares exponents: the first difference decides. -/
def compareExponents : List Nat → List Nat → Ordering
  | [], [] => .eq
  | [], _ :: _ => .lt
  | _ :: _, [] => .gt
  | m :: ms, n :: ns => (Ord.compare m n).then (compareExponents ms ns)

/-- Adds a term to a polynomial. -/
def addTerm (t : MonomialTerm) : MPoly → MPoly
  | [] => if t.2 = 0 then [] else [t]
  | u :: us =>
    if t.1 = u.1 then if t.2 + u.2 = 0 then us else (u.1, t.2 + u.2) :: us
    else if compareExponents t.1 u.1 = .gt then if t.2 = 0 then u :: us else t :: u :: us
    else u :: addTerm t us

def add (p q : MPoly) : MPoly := p.foldr addTerm q

/-- The product with a number. -/
def scale (c : Rat) (p : MPoly) : MPoly := if c = 0 then [] else p.map fun t => (t.1, c * t.2)

def neg (p : MPoly) : MPoly := scale (-1) p

def sub (p q : MPoly) : MPoly := add p q.neg

/-- The sums of exponents. -/
def addExponents : List Nat → List Nat → List Nat
  | [], ns => ns
  | ms, [] => ms
  | m :: ms, n :: ns => (m + n) :: addExponents ms ns

/-- The product with a term. -/
def mulTerm (t : MonomialTerm) (p : MPoly) : MPoly :=
  if t.2 = 0 then [] else p.map fun u => (addExponents t.1 u.1, t.2 * u.2)

def mul (p q : MPoly) : MPoly := p.foldr (fun t r => add (mulTerm t q) r) []

/-- A constant, where `n` is the number of variables. -/
def const (n : Nat) (c : Rat) : MPoly := if c = 0 then [] else [(List.replicate n 0, c)]

/-- Is the polynomial a number? -/
def isConstant (p : MPoly) : Bool := p.all fun t => t.1.all (· = 0)

/-- The coefficient of the greatest term. -/
def lead (p : MPoly) : Rat :=
  match p with
  | [] => 0
  | t :: _ => t.2

/-- The differences of exponents, if none is negative. -/
def subExponents? : List Nat → List Nat → Option (List Nat)
  | [], [] => some []
  | m :: ms, n :: ns => if n ≤ m then (subExponents? ms ns).map ((m - n) :: ·) else none
  | _, _ => none

/-- The quotient, if `q` divides `p`, after at most `steps` subtractions. -/
def divIn? : (steps : Nat) → (p q : MPoly) → Option MPoly
  | _, [], _ => some []
  | 0, _ :: _, _ => none
  | steps + 1, t :: p, q =>
    match q with
    | [] => none
    | u :: _ =>
      (subExponents? t.1 u.1).bind fun e =>
        let m : MonomialTerm := (e, t.2 / u.2)
        (divIn? steps (sub (t :: p) (mulTerm m q)) q).map (add [m])

/-- The exponents of the variables, all together at most. -/
def totalDegree (p : MPoly) : Nat := p.foldl (fun d t => max d (t.1.foldl (· + ·) 0)) 0

/-- The number of possible terms up to the degree of a polynomial, a bound for the steps of
divisions. -/
def stepBound (p : MPoly) : Nat :=
  let n := (p.head?.map fun t => t.1.length).getD 0
  min ((totalDegree p + 1) ^ n + p.length) 4000

/-- The quotient, if `q` divides `p`. -/
def div? (p q : MPoly) : Option MPoly := divIn? (stepBound p) p q

/-- The greatest common divisor of the coefficients, with the sign of the greatest term. -/
def content (p : MPoly) : Rat := Poly.content (p.map Prod.snd).reverse

/-- The multiple with integer coefficients without a common factor, the greatest one positive. -/
def primitive (p : MPoly) : MPoly :=
  let c := content p
  if c = 0 then p else scale c⁻¹ p

/-! ### As polynomials in the first variable -/

/-- The coefficients as a polynomial in the first variable, the constant one first. -/
def coefficients (p : MPoly) : List MPoly :=
  let degree := p.foldl (fun d t => max d (t.1.headD 0)) 0
  if p.isEmpty then []
  else
    (List.range (degree + 1)).map fun k =>
      (p.filter fun t => t.1.headD 0 = k).map fun t => (t.1.tail, t.2)

/-- The polynomial with these coefficients. -/
def ofCoefficients (cs : List MPoly) : MPoly :=
  (cs.zipIdx.map fun (c, k) => c.map fun t => (k :: t.1, t.2)).reverse.flatten

/-- Coefficients without zeros at the end. -/
def trim : List MPoly → List MPoly
  | [] => []
  | c :: cs =>
    match trim cs with
    | [] => if c.isEmpty then [] else [c]
    | d :: ds => c :: d :: ds

/-- The remainder of a multiple of `p` in the division by `q`. -/
def pseudoMod : (steps : Nat) → (p q : List MPoly) → List MPoly
  | 0, p, _ => p
  | steps + 1, p, q =>
    if p.length < q.length || q.isEmpty then p
    else
      let a := p.getLast?.getD []
      let b := q.getLast?.getD []
      let shifted := List.replicate (p.length - q.length) [] ++ q
      pseudoMod steps (trim (List.zipWith (fun c d => sub (mul b c) (mul a d)) p shifted)) q

/-- Divides in turn, taking out common factors of the coefficients, until nothing is left over. -/
def remainders (primitivePart : List MPoly → List MPoly) :
    (steps : Nat) → (p q : List MPoly) → List MPoly
  | 0, p, _ => p
  | steps + 1, p, q =>
    if q.isEmpty then p
    else remainders primitivePart steps q (primitivePart (pseudoMod (p.length + 1) p q))

/-- The greatest common divisor in `n` variables, with integer coefficients. -/
def gcdIn : (n : Nat) → MPoly → MPoly → MPoly
  | 0, p, q => if p.isEmpty && q.isEmpty then [] else [([], 1)]
  | n + 1, p, q =>
    if p.isEmpty then primitive q
    else if q.isEmpty then primitive p
    else
      let contentOf (cs : List MPoly) : MPoly := cs.foldl (gcdIn n) []
      let primitivePart (cs : List MPoly) : List MPoly :=
        let c := contentOf cs
        coefficients (primitive (ofCoefficients (cs.map fun d => (div? d c).getD d)))
      let ps := coefficients p
      let qs := coefficients q
      let common := gcdIn n (contentOf ps) (contentOf qs)
      let (ps, qs) := if ps.length < qs.length then (qs, ps) else (ps, qs)
      let g := remainders primitivePart (ps.length + qs.length) (primitivePart ps)
        (primitivePart qs)
      let g := if g.length ≤ 1 then [const n 1] else g
      primitive (ofCoefficients (g.map (mul common)))

/-- The number of variables. -/
def arity (p : MPoly) : Nat := (p.head?.map fun t => t.1.length).getD 0

/-- The greatest common divisor, with integer coefficients without a common factor. -/
def gcd (p q : MPoly) : MPoly := gcdIn (max p.arity q.arity) p q

end MPoly

end Stepwise
