import Stepwise.Algebra.Generators
import Stepwise.Algebra.Logarithms

/-!
# Simpler forms

`simplify` brings a term over one fraction bar, reduces it, takes common factors out of sums, joins
logarithms or takes them apart, removes roots from denominators and prefers one sign of each sum. At
every step the form with the fewest operations is kept. Squares of sines and cosines are joined
where that is shorter.
-/

namespace Stepwise.Algebra

open Term

/-! ### Common factors -/

/-- The rational exponents of the bases in a term. -/
def exponentsOf (t : Term) : List (Term × Rat) :=
  (t.coefficient.2.factors.filter (· ≠ one)).map fun f =>
    match f with
    | power b (number q) => (b, q)
    | f => (f, 1)

/-- The exponent of a base, 0 if it does not occur. -/
def exponentIn (es : List (Term × Rat)) (b : Term) : Rat :=
  ((es.find? fun e => e.1 = b).map Prod.snd).getD 0

/-- The smaller of two rational numbers. -/
def smaller (p q : Rat) : Rat := if p ≤ q then p else q

/-- The larger of two rational numbers. -/
def larger (p q : Rat) : Rat := if p ≤ q then q else p

/-- The lowest exponents of the bases in several terms, if they are not 0. -/
def commonExponents (ts : List Term) : List (Term × Rat) :=
  let all := ts.map exponentsOf
  let bases := (all.flatMap fun es => es.map Prod.fst).eraseDups
  (bases.map fun b =>
    let qs := all.map fun es => exponentIn es b
    (b, qs.foldl smaller (qs.headD 0))).filter fun e => e.2 ≠ 0

/-- The greatest common divisor of rational numbers. -/
def commonDivisor (qs : List Rat) : Rat :=
  let l := qs.foldl (fun (l : Nat) q => Nat.lcm l q.den) 1
  let g := qs.foldl (fun (g : Nat) q => Nat.gcd g (q.num.natAbs * (l / q.den))) 0
  mkRat g l

/-- What remains of a sum when the number `c` and powers are taken out of every term. -/
def divideTerms (ts : List Term) (c : Rat) (common : List (Term × Rat)) : Term :=
  let divisors := common.map fun (b, q) => pow b (number (-q))
  addAll (ts.map fun t => scale c⁻¹ (mulAll (t :: divisors)))

/-- A number in front of other factors; over a sum it is not distributed. -/
def hollow (c : Rat) (t : Term) : Term := keepCoefficient c t

/-- Powers and a number in front of what remains of a sum. -/
def withCommon (ts : List Term) (c : Rat) (common : List (Term × Rat)) : Term :=
  let inside := divideTerms ts c common
  if common.isEmpty then hollow c inside
  else scale c (mulAll (inside :: common.map fun (b, q) => pow b (number q)))

/-- A sum over one fraction bar with its common factors in front. -/
def togetherSum (t : Term) : Term :=
  match t with
  | sum ts => withCommon ts (commonDivisor (ts.map fun t => t.coefficient.1)) (commonExponents ts)
  | t => t

/-- Every sum over one fraction bar, with its common factors in front. -/
def together (t : Term) : Term := rewrite togetherSum t

/-- The powers that all terms have above the bar, or all below it. -/
def sharedExponents (ts : List Term) : List (Term × Rat) :=
  (commonExponents ts).filterMap fun (b, q) =>
    if 0 < q then some (b, q)
    else
      let qs := ts.map fun t => exponentIn (exponentsOf t) b
      if qs.all (· < 0) then some (b, qs.foldl larger q) else none

/-- A sum with its common factors in front; what only some terms have below the bar stays there,
and so do numbers if some term has no number below the bar. -/
def factorSum (t : Term) : Term :=
  match t with
  | sum ts =>
    let qs := ts.map fun t => t.coefficient.1
    let c := commonDivisor qs
    let whole := mkRat c.num 1
    withCommon ts (if qs.any fun q => (q / whole).den = 1 then whole else c) (sharedExponents ts)
  | t => t

/-- Common factors taken out of all sums. -/
def factorTerms (t : Term) : Term := rewrite factorSum t

/-! ### Denominators without roots -/

/-- A sum of a rational number and a rational multiple of a square root: both numbers and what is
under the root. -/
def binomialRoot? (t : Term) : Option (Rat × Rat × Rat) :=
  let rootOf? : Term → Option (Rat × Rat) := fun t =>
    match t.coefficient with
    | (c, power (number q) (number r)) => if r = 1 / 2 then some (c, q) else none
    | _ => none
  match t with
  | sum [s, u] =>
    match s, rootOf? u with
    | number a, some (b, q) => some (a, b, q)
    | _, _ =>
      match u, rootOf? s with
      | number a, some (b, q) => some (a, b, q)
      | _, _ => none
  | _ => none

/-- A term whose denominator has no square root of a number beside a rational number. -/
def rationalizeDenominator (t : Term) : Term :=
  let (n, d) := fraction t
  match binomialRoot? d with
  | some (a, b, q) =>
    let conjugate := sub (number a) (scale b (sqrt (number q)))
    let norm := a * a - b * b * q
    if norm = 0 then t else scale norm⁻¹ (expand (mul n conjugate))
  | none =>
    match d with
    | sum _ =>
      let (d', changed) := preferredSign d
      if changed then div (expand n.neg) d' else t
    | _ => t

/-! ### Circular functions -/

/-- Squares of sines as squares of cosines. -/
def withoutSines (t : Term) : Term :=
  expand <| rewrite (fun
    | power (apply .sin a) (number q) =>
      if q = 2 then sub one (pow (apply .cos a) (number 2)) else power (apply .sin a) (number q)
    | t => t) t

/-- Squares of cosines as squares of sines. -/
def withoutCosines (t : Term) : Term :=
  expand <| rewrite (fun
    | power (apply .cos a) (number q) =>
      if q = 2 then sub one (pow (apply .sin a) (number 2)) else power (apply .cos a) (number q)
    | t => t) t

/-- Does a circular function occur? -/
def hasCircular (t : Term) : Bool := t.any fun
  | apply .sin _ => true
  | apply .cos _ => true
  | _ => false

/-! ### All together -/

/-- A term over one fraction bar; a number below the bar is not distributed over a sum above. -/
def overBar (t : Term) : Term :=
  let (n, d) := fraction t
  match d with
  | number q => hollow q⁻¹ n
  | d => div n d

/-- Distributes numbers over sums where nothing else is multiplied. -/
def distributeNumbers (t : Term) : Term :=
  rewrite (fun
    | product [number q, sum ts] => scale q (sum ts)
    | t => t) t

/-- A simpler form of the same value. -/
def simplify (t : Term) : Term :=
  if t.isImproper || t.operations = 0 then t
  else
    let t := canonicalSigns t
    let a := factorTerms (overBar t)
    let b := cancel a
    let b := shortest b [cancel (expand b)]
    let a := shortest (shortest (together a) [together b]) [b, a]
    let a := if hasCircular a then shortest a [expand a, withoutSines a, withoutCosines a] else a
    let a := if 0 < countLogs a then shortest (expandLogs a) [combineLogs false a] else a
    let a := shortest a [cancel a]
    let a := shortest a [factorTerms a, rewrite expandProduct a]
    let a := rationalizeDenominator (distributeNumbers a)
    if 17 * t.operations < 10 * a.operations then t else a

end Stepwise.Algebra
