import Stepwise.Algebra.Simplify
import Stepwise.Polynomial.Decompose

/-!
# Roots of polynomials, as terms

The coefficients of a polynomial are terms, the constant one first. Polynomials of degree 1 to 4 and
those of two terms have their roots by formulas. What stands in powers of some part is solved for
this part first (`Poly.decompose`), and what has factors is solved factor by factor. A factor that
all coefficients have in a power growing with the degree is divided out of the unknown beforehand.

If the formulas do not give all roots of a polynomial with rational coefficients, the roots of each
irreducible factor above degree 2 are numbered: the real ones first, in ascending order.
-/

namespace Stepwise.Algebra

open Term

/-! ### Formulas -/

/-- The root of `a x + b`. -/
def linearRoot (a b : Term) : Term := mul b.neg (inv a)

/-- The square root, where even powers come out of the root without a sign. -/
def evenRoot (t : Term) : Term :=
  let halved? : Term → Option Term := fun
    | power b (number q) =>
      if q.den = 1 ∧ q.num % 2 = 0 then some (pow b (number (q / 2))) else none
    | _ => none
  let inside := t.factors.filter fun f => (halved? f).isNone
  mulAll (sqrt (mulAll inside) :: t.factors.filterMap halved?)

/-- Are all the terms rational numbers? -/
def areNumbers (ts : List Term) : Bool := ts.all fun t => t.number?.isSome

/-- Multiplies out, with nothing else taken apart. -/
def spread (t : Term) : Term := rewrite expandProduct t

/-- The roots of `a x² + b x + c`. -/
def quadraticRoots (a b c : Term) : List Term :=
  let tidy (t : Term) : Term := if areNumbers [a, b, c] then t else factor t
  if c = zero then [zero, tidy (linearRoot a b)]
  else if b = zero then
    let r := evenRoot (tidy (linearRoot a c))
    [r.neg, r]
  else
    let d := tidy (sub (mul b b) (mulAll [ofInt 4, a, c]))
    let middle := tidy (linearRoot (scale 2 a) b)
    let distance := factorTerms (div (evenRoot d) (scale 2 a))
    [spread (sub middle distance), spread (add middle distance)]

/-- `cos (2 π q) + i sin (2 π q)`. -/
def direction (q : Rat) : Term := add (cosOfTurns (2 * q)) (mul i (sinOfTurns (2 * q)))

/-- The principal `n`-th root, with real and imaginary parts. -/
def principalRoot (t : Term) (n : Nat) : Term :=
  let x := number (mkRat 1 n)
  if t.isClosed && t.signs.isNegative then
    expand (mul (pow t.neg x) (direction (1 / (2 * mkRat n 1))))
  else pow t x

/-- All numbers whose `n`-th power is `t`: the principal root, turned. -/
def allRoots (t : Term) (n : Nat) : List Term :=
  if t = zero then [zero]
  else
    let r := principalRoot t n
    (List.range n).map fun (k : Nat) => expand (mul r (direction (mkRat k n)))

/-- Two square roots of unity of order 3, divided by nothing else. -/
def cubicTurns : List Term :=
  let imaginary := mulAll [half, sqrt (ofInt 3), i]
  [add (number (-1 / 2)) imaginary, sub (number (-1 / 2)) imaginary]

/-- The roots of `x³ + a x² + b x + c`. -/
def cubicRoots (a b c : Term) : List Term :=
  let tidy (t : Term) : Term := if areNumbers [a, b, c] then t else expand t
  let p := tidy (sub b (scale (1 / 3) (mul a a)))
  let q := tidy (addAll [c, scale (-1 / 3) (mul a b), scale (2 / 27) (pow a (ofInt 3))])
  let shift := scale (1 / 3) a
  let third (t : Term) : Term := pow t (number (1 / 3))
  let byFirst (u : Term) : List Term :=
    let us := u :: cubicTurns.map (mul u)
    if p = zero then us.map fun u => sub u shift
    else us.map fun u => addAll [neg u, div (scale (1 / 3) p) u, neg shift]
  if p = zero && q = zero then [shift.neg, shift.neg, shift.neg]
  else if p = zero then byFirst (if q.signs.isPositive then neg (third q) else third q.neg)
  else if q = zero then
    (zero :: quadraticRoots one zero p).map fun y => sub y shift
  else if q.signs.isNegative then
    let root := sqrt (add (scale (1 / 4) (mul q q)) (scale (1 / 27) (pow p (ofInt 3))))
    byFirst (neg (third (add (scale (-1 / 2) q) root)))
  else
    let d := tidy (sub (mul a a) (scale 3 b))
    let e := tidy (addAll [scale 2 (pow a (ofInt 3)), scale (-9) (mul a b), scale 27 c])
    let root := sqrt (sub (mul e e) (scale 4 (pow d (ofInt 3))))
    let w := third (scale (1 / 2) (add e root))
    (one :: cubicTurns).map fun u => scale (-1 / 3) (addAll [a, mul u w, mulAll [d, inv w, inv u]])

/-- The roots of `x⁴ + p x² + q x + r` if its resolvent has a rational root, by Euler's method. -/
def eulerRoots? (p q r : Term) : Option (List Term) :=
  match p.number?, q.number?, r.number? with
  | some p, some q, some r =>
    let resolvent : Poly := [-(q * q), 4 * p * p - 16 * r, 32 * p, 64]
    match ((Poly.rationalRoots (Poly.trim resolvent)).filter (· ≠ 0)) with
    | [] => none
    | s :: ss =>
      let largest : Rat := ss.foldl larger s
      let c := sqrt (number largest)
      let b := scale (-q / (4 * largest)) c
      let a := number (-largest - p / 2)
      let d := sqrt (add a b)
      let e := sqrt (sub a b)
      some [sub c d, sub c.neg e, add c.neg e, add c d]
  | _, _, _ => none

/-- The roots of `x⁴ + p x² + q x + r` by Ferrari's method. -/
def ferrariRoots (p q r : Term) : List Term :=
  let a := expand (sub (scale (-1 / 12) (mul p p)) r)
  let b := addAll [scale (-1 / 108) (pow p (ofInt 3)), scale (1 / 3) (mul p r),
    scale (-1 / 8) (mul q q)]
  let third (t : Term) : Term := pow t (number (1 / 3))
  let y :=
    if a = zero then sub (scale (-5 / 6) p) (third b)
    else
      let root := sqrt (add (scale (1 / 4) (mul b b)) (scale (1 / 27) (pow a (ofInt 3))))
      let u := third (add (scale (-1 / 2) b) root)
      addAll [scale (-5 / 6) p, u, scale (-1 / 3) (div a u)]
  let w := sqrt (add p (scale 2 y))
  let first := add (scale 3 p) (scale 2 y)
  let second := div (scale 2 q) w
  [(-1 : Rat), 1].flatMap fun s =>
    let root := sqrt (neg (add first (scale s second)))
    [(-1 : Rat), 1].map fun t => scale (1 / 2) (sub (scale s w) (scale t root))

/-- The roots of `x⁴ + a x³ + b x² + c x + d`. -/
def quarticRoots (a b c d : Term) : List Term :=
  if a ≠ zero && expand (pow (div c a) (ofInt 2)) = d then
    let m := div c a
    (quadraticRoots one a (sub b (scale 2 m))).flatMap fun z => quadraticRoots one z.neg m
  else
    let square := mul a a
    let shift := scale (1 / 4) a
    let p := sub b (scale (3 / 8) square)
    let q := expand (add c (mul a (sub (scale (1 / 8) square) (scale (1 / 2) b))))
    let r := expand (sub d (mul shift (add (mul a (sub (scale (3 / 64) square)
      (scale (1 / 4) b))) c)))
    let centred :=
      if q = zero then
        let ys := (quadraticRoots one p r).map sqrt
        ys.map neg ++ ys
      else if r = zero then zero :: cubicRoots zero p q
      else (eulerRoots? p q r).getD (ferrariRoots p q r)
    centred.map fun y => sub y shift

/-! ### Factors and layers -/

/-- The positions of coefficients other than zero. -/
def exponents (cs : List Term) : List Nat :=
  (cs.zipIdx.filter fun c => c.1 ≠ zero).map Prod.snd

/-- Every `k`-th coefficient. -/
def everyNth (k : Nat) (cs : List Term) : List Term :=
  (cs.zipIdx.filter fun c => c.2 % k = 0).map Prod.fst

/-- The roots of a polynomial with rational coefficients that are roots of unity of one order. -/
def cyclotomicRoots? (cs : List Term) : Option (List Term) :=
  match allSome number? cs with
  | none => none
  | some p =>
    (Poly.cyclotomicIndex? p).bind fun n =>
      let ks := (List.range n).filter fun k => Nat.gcd k n = 1
      if ks.length = Poly.degree p then some (ks.map fun (k : Nat) => direction (mkRat k n))
      else none

/-- The roots of a polynomial by formulas; of degree above 4 there may be none. -/
def formulaRoots (cs : List Term) : List Term :=
  match cs with
  | [] => []
  | [_] => []
  | [b, a] => [cancel (linearRoot a b)]
  | c :: cs =>
    let n := cs.length
    let a := cs.getLastD one
    let middle := cs.dropLast
    if middle.all (· = zero) then
      if c = zero then List.replicate n zero else allRoots (neg (cancel (div c a))) n
    else
      match cyclotomicRoots? (c :: cs) with
      | some rs => rs
      | none =>
        match middle with
        | [b] => (quadraticRoots a b c).map cancel
        | [b₁, b₂] => cubicRoots (div b₂ a) (div b₁ a) (div c a)
        | [b₁, b₂, b₃] => quarticRoots (div b₃ a) (div b₂ a) (div b₁ a) (div c a)
        | _ => []

/-- The roots of a polynomial by its layers, the outermost first: the roots of the outer layer are
values of the inner one. -/
def layerRoots : List (List Term) → List Term
  | [] => []
  | outer :: inners =>
    inners.foldl (fun rs cs => rs.flatMap fun r =>
      match cs with
      | [] => []
      | c :: cs => formulaRoots (sub c r :: cs)) (formulaRoots outer)

/-- The roots of a polynomial with rational coefficients, each as often as its multiplicity, as far
as there are formulas. The constant coefficient is not zero. -/
def rationalPolynomialRoots (p : Poly) : List Term :=
  let terms (q : Poly) : List Term := q.map number
  match terms p with
  | [b, a] => [linearRoot a b]
  | cs =>
    if cs.tail.dropLast.all (· = zero) then
      match cs with
      | [c, _, a] => quadraticRoots a zero c
      | cs => formulaRoots cs
    else
      match Poly.factors p, cs with
      | [_], [c, b, a] => quadraticRoots a b c
      | [(q, 1)], _ => layerRoots ((Poly.decompose q).map terms)
      | fs, _ => fs.flatMap fun (q, k) =>
        (List.replicate k (formulaRoots (terms q))).flatten

/-- The layers of a polynomial in a power of the unknown. -/
def powerLayers : (steps : Nat) → List Term → List (List Term)
  | 0, cs => [cs]
  | steps + 1, cs =>
    let k := (exponents cs).foldl Nat.gcd 0
    match (smallFactors k).head? with
    | some (q, _) =>
      if q = 1 then [cs]
      else powerLayers steps (everyNth q cs) ++ [List.replicate q zero ++ [one]]
    | none => [cs]

/-- The variable of polynomials in several variables. -/
def unknown : Symbol := ⟨['_', 'x'], .complex⟩

/-- The roots of a polynomial whose coefficients are no rational numbers. -/
def symbolicPolynomialRoots (cs : List Term) : List Term :=
  match cs with
  | [b, a] => [factor (linearRoot a b)]
  | cs =>
    if cs.tail.dropLast.all (· = zero) then
      match cs with
      | [c, _, a] => quadraticRoots a zero c
      | cs => formulaRoots cs
    else
      let t := ofCoefficients (symbol unknown) cs
      let gs := generators [expand t]
      let fs := (MPoly.factors (polynomialIn gs (expand t))).map fun (f, k) =>
        ((coefficients? unknown (ofPolynomial gs f)).getD [], k)
      match fs.filter fun f => 1 < f.1.length, cs with
      | [_], [c, b, a] => quadraticRoots a b c
      | [(_, 1)], _ => layerRoots (powerLayers cs.length cs)
      | fs, _ => fs.flatMap fun (q, k) => (List.replicate k (formulaRoots q)).flatten

/-! ### Common factors of the unknown -/

/-- If the exponents grow in proportion to the degrees, the ratio. -/
def proportion? : List (Nat × Nat) → Option Nat
  | [] => none
  | ps =>
    let ratios := (ps.filter fun p => p.1 ≠ 0 || p.2 ≠ 0).map fun (a, b) =>
      if a = 0 || b = 0 || b % a ≠ 0 then 0 else b / a
    match ratios with
    | [] => none
    | r :: rs => if r ≠ 0 && rs.all (· = r) then some r else none

/-- The power of the generator number `k` that can be divided out of the unknown: `ms` are the
degrees, from the greatest one down, with the exponents of the generators. -/
def strippedPower? (ms : List (Nat × List Nat)) (k : Nat) : Option Int :=
  let strip := ms.map fun m => m.2.getD k 0
  let degrees := ms.map Prod.fst
  if strip.headD 0 < strip.getLastD 0 then
    (proportion? (degrees.zip strip.reverse)).map fun r => (r : Int)
  else (proportion? (degrees.zip strip)).map fun r => -(r : Int)

/-- What the unknown is divided by, and the coefficients that remain. -/
def stripped (gs : List Term) (ps : List MPoly) : Term × List Term :=
  let ms := (ps.zipIdx.filterMap fun (p, k) =>
    match p with
    | [(es, _)] => some (k, es)
    | _ => none).reverse
  if ps.all fun p => p.length ≤ 1 then
    let powers := (List.range gs.length).filterMap fun k =>
      (strippedPower? ms k).map fun r => (k, r)
    let unit := mulAll (powers.map fun (k, r) => pow (gs.getD k one) (ofInt r))
    let rest := ps.map fun p => p.map fun (es, c) =>
      (es.zipIdx.map fun (e, k) => if powers.any fun p => p.1 = k then 0 else e, c)
    (unit, rest.map (ofPolynomial gs))
  else (one, ps.map (ofPolynomial gs))

/-- The coefficients without denominators and common factors. -/
def cleared (cs : List Term) : List Term × List MPoly :=
  let fs := cs.map expandedFraction
  let gs := generators (fs.flatMap fun f => [f.1, f.2])
  let ns := fs.map fun f => polynomialIn gs f.1
  let ds := fs.map fun f => polynomialIn gs f.2
  let common := ds.foldl (fun l d =>
    MPoly.mul l ((MPoly.div? d (MPoly.gcd l d)).getD d)) (MPoly.const gs.length 1)
  let ps := (ns.zip ds).map fun (n, d) => MPoly.mul n ((MPoly.div? common d).getD common)
  let g := ps.foldl (fun g p => if p.isEmpty then g else MPoly.gcd g p) []
  let content := ps.foldl (fun c p => commonDivisor [c, MPoly.content p]) 0
  let ps := ps.map fun p => (MPoly.div? p g).getD p
  let scaled := ps.foldl (fun c p => commonDivisor [c, MPoly.content p]) 0
  (gs, if content = 0 || scaled = 0 then ps else ps.map (MPoly.scale scaled⁻¹))

/-- The roots of a polynomial with rational coefficients, after the greatest possible number is
divided out of the unknown. -/
def scaledRoots (roots : Poly → List Term) (p : Poly) : List Term :=
  let p := Poly.primitive p
  match Poly.basis? p with
  | some d => (roots (Poly.shrink d p)).map fun r => mul (ofInt d) r
  | none => roots p

/-- The roots of a polynomial other than zero, each as often as its multiplicity, as far as there
are formulas. -/
def rootsByFormula (cs : List Term) : List Term :=
  match allSome number? cs with
  | some p => scaledRoots rationalPolynomialRoots (Poly.trim p)
  | none =>
    let (gs, ps) := cleared cs
    let (unit, cs) := stripped gs ps
    let roots := match allSome number? cs with
      | some p => scaledRoots rationalPolynomialRoots (Poly.trim p)
      | none => symbolicPolynomialRoots cs
    if unit = one then roots else roots.map (mul unit)

/-! ### Numbered roots -/

/-- The variable that numbered roots are written with. -/
def rootVariable : Symbol := ⟨['x'], .complex⟩

/-- The roots of an irreducible polynomial: by numbers, if it has more than two terms and a degree
above 2. -/
def numberedRoots (p : Poly) : List Term :=
  match p.map number with
  | [b, a] => [linearRoot a b]
  | [c, b, a] => quadraticRoots a b c
  | cs =>
    if cs.tail.dropLast.all (· = zero) then formulaRoots cs
    else (List.range p.degree).map fun (k : Nat) =>
      form .rootOf [ofPoly (symbol rootVariable) p, ofInt k]

/-- The roots of a polynomial by its coefficients. Of rational coefficients all of them are given;
others may be missing. -/
def roots (cs : List Term) : List Term :=
  let cs := (cs.reverse.dropWhile (· = zero)).reverse
  let low := cs.takeWhile (· = zero)
  let rest := cs.drop low.length
  let found := rootsByFormula rest
  let found := match allSome number? rest with
    | some p =>
      if found.length < Poly.degree p then
        scaledRoots (fun q => (Poly.factors q).flatMap fun f => numberedRoots f.1) p
      else found
    | none => found
  (if low.isEmpty then found else zero :: found).eraseDups

end Stepwise.Algebra
