import Stepwise.Number.Linear
import Stepwise.Term.Coefficients

/-!
# Antiderivatives of fractions

A fraction of polynomials is the derivative of another fraction plus a fraction whose denominator
has simple roots. Both are found together by a system of linear equations. The second one gives
logarithms, weighted by the residues at the roots: roots with the same rational residue share one
logarithm, irrational real roots have one each, and a pair of complex roots gives a logarithm and
an arc tangent.
-/

namespace Stepwise.Calculus

open Term

/-- Numbers by which the columns, multiplied and added up, give the target. -/
def combination? (columns : List Poly) (target : Poly) : Option (List Rat) :=
  let height := (columns.map List.length).foldl max target.length
  let rows := (List.range height).map fun k =>
    columns.map (fun c => c.getD k 0) ++ [-(target.getD k 0)]
  Linear.solveLinear columns.length rows

/-- A fraction as a derivative and a rest: `p / q = (a / u)' + b / v`, where `v` has simple
roots. -/
structure Reduction where
  a : Poly
  u : Poly
  b : Poly
  v : Poly

/-- The reduction of the fraction `p / q`, where `p` has the smaller degree. -/
def reduction? (p q : Poly) : Option Reduction :=
  let u := Poly.gcd q q.derivative
  let v := Poly.div q u
  let w := Poly.div (Poly.mul u.derivative v) u
  let power (k : Nat) : Poly := Poly.monomial 1 k
  let derived := (List.range u.degree).map fun k =>
    Poly.sub (Poly.mul (power k).derivative v) (Poly.mul (power k) w)
  let plain := (List.range v.degree).map fun k => Poly.mul (power k) u
  (combination? (derived ++ plain) p).map fun cs =>
    ⟨Poly.trim (cs.take u.degree), u, Poly.trim (cs.drop u.degree), v⟩

/-- The fraction `p / q` with integer coefficients and without common factors: the numerator and the
denominator. -/
def lowestTerms (p q : Poly) : Poly × Poly :=
  let g := Poly.gcd p q
  let p := Poly.div p g
  let q := Poly.div q g
  let c : Rat := Poly.content p / Poly.content q
  (Poly.scale c.num p.primitive, Poly.scale c.den q.primitive)

/-- The fraction `p / q` as a term. -/
def fractionTerm (x : Symbol) (p q : Poly) : Term :=
  let (p, q) := lowestTerms p q
  div (ofPoly (symbol x) p) (ofPoly (symbol x) q)

/-- A factor of a denominator with simple roots, and the residues at its roots: `α + β ρ` at the
root `ρ`. -/
structure Residue where
  factor : Poly
  α : Rat
  β : Rat

/-- The residues of `r / q` at the roots of the factor `f` of `q`. -/
def residue? (r q f : Poly) : Option Residue :=
  let slope := q.derivative.mod f
  let columns := if f.degree = 1 then [slope] else [slope, (Poly.mul [0, 1] slope).mod f]
  match combination? columns (r.mod f) with
  | some [α] => some ⟨f, α, 0⟩
  | some [α, β] => some ⟨f, α, β⟩
  | _ => none

/-- The logarithm for all roots with the same rational residue. -/
def commonLogarithm (x : Symbol) (q : Poly) (rs : List Residue) (α : Rat) : Term :=
  let f := (rs.filter fun r => r.α = α).foldl (fun f r => Poly.mul f r.factor) [1]
  let f := if f.degree = q.degree then q.primitive else f.monic
  scale α (log (ofPoly (symbol x) f))

/-- The logarithms, or the logarithm and the arc tangent, for a quadratic factor with irrational
residues. -/
def pairOfRoots (x : Symbol) (r : Residue) : Term :=
  match r.factor.monic with
  | [c, b, _] =>
    let middle : Rat := -b / 2
    let square : Rat := middle * middle - c
    if 0 < square then
      let s := sqrt (number square)
      let one (root : Term) : Term :=
        let weight := Term.expand (add (number r.α) (scale r.β root))
        mul weight (log (sub (symbol x) root))
      add (one (add (number middle) s)) (one (sub (number middle) s))
    else
      let height := sqrt (number (-square))
      let size : Rat := if r.β < 0 then -r.β else r.β
      let slope := inv (if r.β < 0 then height else height.neg)
      let angle := Term.expand (mul (sub (symbol x) (number middle)) slope)
      add (scale (r.α + r.β * middle) (log (ofPoly (symbol x) [c, b, 1])))
        (mul (scale (2 * size) height) (call .atan angle))
  | _ => zero

/-- The antiderivative of `k / (x⁴ + c)`, or of `k x² / (x⁴ + c)` if `squared` is true, where `c` is
positive. -/
def quarticIntegral (x : Symbol) (k c : Rat) (squared : Bool) : Term :=
  let s := pow (number c) (number (1 / 4))
  let root := sqrt (ofInt 2)
  let quadratic (sign : Rat) : Term :=
    log (addAll [pow (symbol x) (ofInt 2), mulAll [number sign, root, s, symbol x],
      pow s (ofInt 2)])
  let angle (sign : Rat) : Term :=
    call .atan (add (mulAll [root, symbol x, inv s]) (number sign))
  let weight (q : Rat) : Term :=
    mulAll [number (q * k), root, pow s (ofInt (if squared then -1 else -3))]
  let sign : Rat := if squared then -1 else 1
  addAll [mul (weight (-sign / 8)) (quadratic (-1)), mul (weight (sign / 8)) (quadratic 1),
    mul (weight (1 / 4)) (angle (-1)), mul (weight (1 / 4)) (angle 1)]

/-- The antiderivative of a constant or a multiple of the square of the variable over a multiple of
`x⁴ + c`, where `c` is positive. -/
def quarticLogarithms? (x : Symbol) (r q : Poly) : Option Term :=
  match q with
  | [c, 0, 0, 0, a] =>
    if c / a < 0 then none
    else
      match r with
      | [k] => some (quarticIntegral x (k / a) (c / a) false)
      | [0, 0, k] => some (quarticIntegral x (k / a) (c / a) true)
      | _ => none
  | _ => none

/-- The antiderivative of `r / q`, where `q` has simple roots. -/
def logarithms? (x : Symbol) (r q : Poly) : Option Term :=
  let factors := Poly.simpleFactors q
  if factors.any fun f => 2 < f.degree then quarticLogarithms? x r q
  else
    (allSome (residue? r q) factors).map fun rs =>
      let (shared, single) := rs.partition fun r => r.β = 0
      let residues := (shared.map Residue.α).eraseDups.filter (· ≠ 0)
      addAll (residues.map (commonLogarithm x q shared) ++ single.map (pairOfRoots x))

/-- A symbol for the square of the variable. -/
def squareSymbol : Symbol := ⟨['_', 's'], .complex⟩

/-- Every second coefficient, from the first one on. -/
def everySecond : List Rat → List Rat
  | [] => []
  | [c] => [c]
  | c :: _ :: cs => c :: everySecond cs

/-- The polynomials `a` and `b` with `p = x a(x²)` and `q = b(x²)`, if there are any. -/
def inSquares? (p q : Poly) : Option (Poly × Poly) :=
  if (everySecond p).all (· = 0) && (everySecond (List.tail q)).all (· = 0) && 1 < q.degree then
    some (Poly.trim (everySecond (List.tail p)), everySecond q)
  else none

/-- The antiderivative of the fraction `p / q`. -/
def fractionIntegral? (x : Symbol) (p q : Poly) : Option Term :=
  match inSquares? p q with
  | some (a, b) =>
    (plain? squareSymbol a (Poly.scale 2 b)).map
      (substitute squareSymbol (pow (symbol x) (ofInt 2)))
  | none => plain? x p q
where
  /-- By the reduction to simple roots. -/
  plain? (x : Symbol) (p q : Poly) : Option Term :=
    let (whole, p) := Poly.divMod p q
    let polynomial := ofPoly (symbol x) whole.antiderivative
    if p.isEmpty then some polynomial
    else
      match reduction? p q with
      | none => none
      | some r =>
        let derived := if r.a.isEmpty then zero else fractionTerm x r.a r.u
        if r.b.isEmpty then some (add polynomial derived)
        else
          let (b, v) := lowestTerms r.b r.v
          (logarithms? x b v).map fun l => addAll [polynomial, derived, l]

/-- The antiderivative of the fraction `p / q` in lowest terms. Constant numerators over powers of
the variable or linear denominators are read off. -/
def rationalIntegral? (x : Symbol) (p q : Poly) : Option Term :=
  let (p, q) := lowestTerms p q
  match p with
  | [c] =>
    if q.dropLast.all (· = 0) then
      if q.degree = 1 then some (scale (c / q.lead) (log (symbol x)))
      else
        let n : Rat := 1 - mkRat q.degree 1
        some (scale (c / (q.lead * n)) (pow (symbol x) (number n)))
    else
      match q with
      | [_, a] => some (scale (c / a) (log (ofPoly (symbol x) q)))
      | q => (fractionIntegral? x [1] q).map (scale c)
  | p => fractionIntegral? x p q

end Stepwise.Calculus
