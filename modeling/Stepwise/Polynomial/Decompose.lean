import Stepwise.Polynomial.Factor

/-!
# Polynomials of polynomials, cyclotomic polynomials and real roots

A polynomial may be the value of an outer polynomial at an inner one; `decompose` finds the layers.
`cyclotomicIndex?` tells of which order the roots of a polynomial are roots of unity, `basis?` is
the integer by which all roots can be divided, and `realRootCount` counts the real roots by the
changes of sign in the chain of remainders that starts with the polynomial and its derivative.

Result: `eval_compose`.
-/

namespace Stepwise

namespace Poly

/-- The value of the polynomial at another one. -/
def compose : Poly → Poly → Poly
  | [], _ => []
  | c :: cs, q => add (const c) (mul q (compose cs q))

/-- The coefficient of a power. -/
def coefficientAt (p : Poly) (k : Nat) : Rat := p.getD k 0

/-- The coefficients of the inner polynomial of degree `s`, from the greatest one down, as far as
the places `1` to `count` below it. -/
def innerCoefficients (p : Poly) (s : Nat) : (count : Nat) → List Rat
  | 0 => [1]
  | count + 1 =>
    let known := innerCoefficients p s count
    let i := count + 1
    let n := p.degree
    let r := n / s
    let c : Rat := ((List.range i).map fun (j : Nat) =>
      (mkRat i 1 - mkRat r 1 * mkRat j 1) * coefficientAt p (n + j - i) * known.getD j 0).foldl
        (· + ·) 0
    known ++ [c / (mkRat i 1 * mkRat r 1 * p.lead)]

/-- The only inner polynomial of degree `s` with greatest coefficient 1 and constant coefficient 0
that `p` can be decomposed with. -/
def inner (p : Poly) (s : Nat) : Poly := trim (0 :: (innerCoefficients p s (s - 1)).reverse)

/-- The coefficients of the outer polynomial: `p` in powers of `q`. -/
def outerIn? : (steps : Nat) → (p q : Poly) → Option Poly
  | 0, p, _ => if p.isEmpty then some [] else none
  | steps + 1, p, q =>
    if p.isEmpty then some []
    else
      let (d, r) := divMod p q
      if 1 < r.length then none else (outerIn? steps d q).map (r.headD 0 :: ·)

/-- The outer and the inner polynomial, the inner one of the least degree above 1. -/
def splitLayer? (p : Poly) : Option (Poly × Poly) :=
  let n := p.degree
  ((List.range n).drop 2).findSome? fun s =>
    if n % s = 0 then
      let h := inner p s
      (outerIn? (n + 1) p h).map fun g => (trim g, h)
    else none

/-- The layers of a polynomial, the outermost one first. -/
def layers : (steps : Nat) → Poly → List Poly
  | 0, p => [p]
  | steps + 1, p =>
    match splitLayer? p with
    | some (g, h) => layers steps g ++ [h]
    | none => [p]

/-- The layers of a polynomial, the outermost one first. -/
def decompose (p : Poly) : List Poly := layers p.length p

/-- The order of the roots of unity that an irreducible polynomial has as its roots. -/
def cyclotomicIndex? (p : Poly) : Option Nat :=
  if p.length < 2 then none
  else
    ((List.range (6 * p.length + 12)).drop 1).find? fun n =>
      (mod (sub (monomial 1 n) [1]) p).isEmpty

/-- The greatest number by whose powers the coefficients can be divided, each by one power more
than the coefficient above it. -/
def basis? (p : Poly) : Option Nat :=
  let magnitudes := p.map fun c => c.num.natAbs
  if p.any (fun c => c.den ≠ 1) || magnitudes.headD 0 ≤ magnitudes.getLastD 0 then none
  else
    let n := p.degree
    let lower := ((magnitudes.zipIdx.filter fun m => m.1 ≠ 0 && m.2 < n).map fun m => (m.1, n - m.2))
    match lower with
    | [(m, k)] => exactRoot? k m
    | _ =>
      let g := lower.foldl (fun g m => Nat.gcd g m.1) 0
      (((List.range (g + 1)).drop 2).reverse.filter fun d => g % d = 0).find? fun d =>
        lower.all fun (m, k) => m % Nat.pow d k = 0

/-- The polynomial whose roots are those of `p` divided by `d`. -/
def shrink (d : Nat) (p : Poly) : Poly :=
  let n := p.degree
  p.zipIdx.map fun (c, k) => c / mkRat (Nat.pow d (n - k)) 1

/-- The chain of remainders with changed signs. -/
def signChain : (steps : Nat) → (p q : Poly) → List Poly
  | 0, p, _ => [p]
  | steps + 1, p, q => if q.isEmpty then [p] else p :: signChain steps q (neg (mod p q))

/-- How often the sign changes in a list of numbers; zeros do not count. -/
def signChanges (cs : List Rat) : Nat :=
  let cs := cs.filter (· ≠ 0)
  ((cs.zip cs.tail).filter fun (c, d) => (c < 0) ≠ (d < 0)).length

/-- The number of different real roots. -/
def realRootCount (p : Poly) : Nat :=
  let chain := signChain (p.length + 1) p p.derivative
  let above := chain.map lead
  let below := chain.map fun q => if q.degree % 2 = 0 then q.lead else -q.lead
  signChanges below - signChanges above

theorem eval_compose (x : Rat) (p q : Poly) : eval x (compose p q) = eval (eval x q) p := by
  induction p with
  | nil => rfl
  | cons c cs ih => simp only [compose, eval_add, eval_mul, ih, const, eval_trim, eval]; grind

end Poly

end Stepwise
