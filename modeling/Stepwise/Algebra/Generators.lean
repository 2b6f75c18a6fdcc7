import Stepwise.Polynomial.Split
import Stepwise.Term.Coefficients
import Stepwise.Term.Text

/-!
# Terms as polynomials in their generators

A term that is multiplied out is a polynomial in its generators: symbols, roots, functions, powers
with symbols in the exponent, and constants, each taken for a variable of its own. Generators that
are powers of one another with rational multiples of one exponent are joined where a natural power
of one of them is the other.

Fractions of such polynomials are reduced by their greatest common divisor (`cancel`) and taken
apart into irreducible factors (`factor`).
-/

namespace Stepwise.Algebra

open Term

/-- A factor as a natural power of a generator. -/
def decompose (t : Term) : Term × Nat :=
  match t with
  | power b (number q) =>
    let g := if q.den = 1 then b else pow b (number (mkRat 1 q.den))
    (if q < 0 then inv g else g, q.num.natAbs)
  | power b x =>
    let (c, r) := x.coefficient
    let g := pow b (scaled (mkRat 1 c.den) r)
    (if c < 0 then inv g else g, c.num.natAbs)
  | t => (t, 1)

/-- The generators of a term that is multiplied out, in order of occurrence. -/
def rawGenerators (t : Term) : List Term :=
  (t.terms.flatMap fun t => (t.factors.filter fun f => f.number?.isNone).map
    fun f => (decompose f).1).eraseDups

/-- The place of a one-letter name in the order of generators. -/
def letterPlace (c : Char) : Option Nat :=
  if 'x' ≤ c ∧ c ≤ 'z' then some (c.toNat - 'x'.toNat)
  else if 'p' ≤ c ∧ c ≤ 'w' then some (100 + (c.toNat - 'p'.toNat))
  else if 'a' ≤ c ∧ c ≤ 'o' then some (200 + (c.toNat - 'a'.toNat))
  else none

/-- What generators are ordered by: letters first, from `x` on, then all others by their texts. -/
def generatorKey (t : Term) : Nat × Text :=
  let name := t.text
  match name with
  | [c] => ((letterPlace c).getD 1000, name)
  | _ => (1000, name)

/-- Compares generators. -/
def compareGenerators (s t : Term) : Ordering :=
  let (m, a) := generatorKey s
  let (n, b) := generatorKey t
  (Ord.compare m n).then (Text.compare a b)

/-- The generators of terms that are multiplied out, in order. -/
def generators (ts : List Term) : List Term :=
  sortBy compareGenerators (ts.flatMap rawGenerators).eraseDups

/-- Raises the exponent of one of the generators. -/
def raise (gs : List Term) (g : Term) (n : Nat) (es : List Nat) : List Nat :=
  let k := gs.idxOf g
  es.set k (es.getD k 0 + n)

/-- A term of a sum as a term of a polynomial in the generators `gs`. -/
def monomialIn (gs : List Term) (t : Term) : MonomialTerm :=
  t.factors.foldl (fun (es, c) f =>
    match f.number? with
    | some q => (es, c * q)
    | none =>
      let (g, n) := decompose f
      (raise gs g n es, c)) (gs.map fun _ => 0, 1)

/-- A term that is multiplied out as a polynomial in its generators, which are all among `gs`. -/
def polynomialIn (gs : List Term) (t : Term) : MPoly :=
  t.terms.foldr (fun u p => MPoly.addTerm (monomialIn gs u) p) []

/-- The term that a polynomial stands for. -/
def ofPolynomial (gs : List Term) (p : MPoly) : Term :=
  addAll (p.map fun (es, c) =>
    mulAll (number c :: (gs.zip es).map fun (g, n) => pow g (ofInt n)))

/-- The numerator and the denominator multiplied out. -/
def expandedFraction (t : Term) : Term × Term :=
  let (n, d) := fraction t
  (expand n, expand d)

/-- A term over one fraction bar, without common factors. -/
def cancel (t : Term) : Term :=
  let (n, d) := expandedFraction t
  let gs := generators [n, d]
  let p := polynomialIn gs n
  let q := polynomialIn gs d
  if gs.isEmpty || q.isEmpty then t
  else
    let g := MPoly.gcd p q
    let p := (MPoly.div? p g).getD p
    let q := (MPoly.div? q g).getD q
    -- The denominator gets integer coefficients without a common factor with the numerator.
    let c := MPoly.content q
    let ratio := MPoly.content p / c
    let p := MPoly.scale (mkRat ratio.num 1) (MPoly.scale (MPoly.content p)⁻¹ p)
    let q := MPoly.scale (mkRat ratio.den 1) (MPoly.scale c⁻¹ q)
    if p.isEmpty then zero else div (ofPolynomial gs p) (ofPolynomial gs q)

/-- A polynomial as the product of a number and its irreducible factors. -/
def factoredPolynomial (gs : List Term) (p : MPoly) : Rat × List Term :=
  let fs := MPoly.factors p
  let plain := fs.foldl (fun r (f, k) => (List.range k).foldl (fun r _ => MPoly.mul r f) r)
    (MPoly.const p.arity 1)
  ((MPoly.div? p plain).elim 1 MPoly.lead,
    fs.map fun (f, k) => pow (ofPolynomial gs f) (ofInt k))

/-- The product of a number and factors; the number is not distributed over a sum. -/
def keepCoefficient (c : Rat) (t : Term) : Term :=
  match t with
  | sum ts => if c = 1 then sum ts else if c = -1 then neg (sum ts) else product [number c, sum ts]
  | t => scale c t

/-- A term as a product of powers of irreducible factors, above and below one fraction bar. -/
def factor (t : Term) : Term :=
  let (n, d) := expandedFraction t
  let gs := generators [n, d]
  if gs.isEmpty then t
  else
    let (a, ns) := factoredPolynomial gs (polynomialIn gs n)
    let (b, ds) := factoredPolynomial gs (polynomialIn gs d)
    keepCoefficient (a / b) (mulAll (ns ++ ds.map inv))

end Stepwise.Algebra
