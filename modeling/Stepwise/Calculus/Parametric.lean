import Stepwise.Term.Coefficients
import Stepwise.Term.Text

/-!
# Antiderivatives with parameters

An antiderivative may divide by a parameter, as `e ^ (a x) / a` does, and then it holds only where
the parameter is not zero. Such an antiderivative is written by cases: `exceptAtZero` has one value
for the exceptional parameter and one for all others. The rules here are for polynomials times an
exponential or a circular function of a linear term, and for the reciprocal of a quadratic term.
-/

namespace Stepwise.Calculus

open Term

/-- The condition that a term is not zero, with its rational number on the other side. -/
def nonzeroCondition (t : Term) : Term :=
  let (numbers, others) := t.terms.partition fun u => u.number?.isSome
  let (c, r) := (addAll others).coefficient
  let c := if r.extractsSign then -c else c
  let r := if r.extractsSign then r.neg else r
  form .unequal [r, scale (-c⁻¹) (addAll numbers)]

/-- A value by cases: `special` where the term `t` is zero, and `general` elsewhere. If it is a
number the case is known. -/
def exceptAtZero (t general special : Term) : Term :=
  if t.isClosed then
    match t.approx? with
    | some z => if z.isZero then special else general
    | none => general
  else
    form .piecewise [form .branch [general, nonzeroCondition t],
      form .branch [special, form .always []]]

/-- A term as `a x + b` with any terms `a` and `b`: `a` and `b`. -/
def affine? (x : Symbol) (t : Term) : Option (Term × Term) :=
  match coefficients? x t with
  | some [b, a] => some (a, b)
  | _ => none

/-- The integral of a polynomial with any coefficients. -/
def ofPowers (x : Symbol) (cs : List Term) : Term :=
  addAll (cs.zipIdx.map fun (c, (k : Nat)) =>
    mul (scale (mkRat 1 (k + 1)) c) (pow (symbol x) (ofInt (k + 1 : Nat))))

/-! ### Exponentials -/

/-- Is this a power with the variable in the exponent only? -/
def isGrowing (x : Symbol) : Term → Bool
  | power b y => !b.mentions x && y.mentions x
  | _ => false

/-- The coefficients of the polynomial `q` with `q' + a q = p`, from the coefficients of `p`. -/
def descendBy (a : Term) : (k : Nat) → List Term → List Term
  | _, [] => []
  | k, p :: ps =>
    let rest := descendBy a (k + 1) ps
    let next := match rest with
      | [] => zero
      | q :: _ => scale (mkRat (k + 1) 1) q
    expand (div (sub p next) a) :: rest

/-- The antiderivative of a polynomial times a power whose exponent is a linear term with a
parameter as its slope. -/
def growingIntegral? (x : Symbol) (t : Term) : Option Term :=
  match t.factors.filter (isGrowing x) with
  | [power b y] =>
    match affine? x y, coefficients? x (mulAll (t.factors.filter fun f => !isGrowing x f)) with
    | some (c, offset), some ps =>
      let a := if b = e then c else mul c (log b)
      if a.isClosed then none
      else
        let q := ofCoefficients (symbol x) (descendBy a 0 ps)
        some (exceptAtZero (pow a (ofInt ps.length)) (expand (mul q (power b y)))
          (ofPowers x (ps.map fun p => mul p (pow b offset))))
    | _, _ => none
  | _ => none

/-! ### Circular and hyperbolic functions -/

/-- The integral of one of the functions that are derivatives of each other. -/
def integralOf? : Func → Option (Rat × Func)
  | .sin => some (-1, .cos)
  | .cos => some (1, .sin)
  | .sinh => some (1, .cosh)
  | .cosh => some (1, .sinh)
  | _ => none

/-- The antiderivative of a polynomial with the coefficients `cs` times `k f (a x + b) / a ^ n`, by
parts. -/
def waveParts? (x : Symbol) (a angle : Term) :
    (steps n : Nat) → Rat → Func → List Term → Option (List Term)
  | 0, _, _, _, _ => none
  | steps + 1, n, k, f, cs =>
    (integralOf? f).bind fun (sign, g) =>
      let slopes := cs.zipIdx.tail.map fun (c, (j : Nat)) => scale (mkRat j 1) c
      let part := mulAll [number (k * sign), ofCoefficients (symbol x) cs, call g angle,
        pow a (ofInt (-(n + 1 : Nat)))]
      if slopes.isEmpty then some [part]
      else (waveParts? x a angle steps (n + 1) (-(k * sign)) g slopes).map (part :: ·)

/-- The antiderivative of a polynomial times a circular or hyperbolic function of a linear term with
a parameter as its slope. -/
def waveIntegral? (x : Symbol) (t : Term) : Option Term :=
  let isWave : Term → Bool := fun
    | apply f a => (integralOf? f).isSome && a.mentions x
    | _ => false
  match t.factors.filter isWave with
  | [apply f angle] =>
    match affine? x angle, coefficients? x (mulAll (t.factors.filter fun u => !isWave u)) with
    | some (a, offset), some cs =>
      let (_, r) := a.coefficient
      match r with
      | symbol s =>
        (waveParts? x a angle (cs.length + 1) 0 1 f cs).map fun parts =>
          exceptAtZero (symbol s) (expand (addAll parts))
            (ofPowers x (cs.map fun c => mul c (call f offset)))
      | _ => none
    | _, _ => none
  | _ => none

/-! ### Fractions -/

/-- The quotient and the remainder of a polynomial by `a x + b`. The coefficients are given and
found from the highest one on, and `carry` is what is left of the one before. -/
def divideByAffine (a b carry : Term) : List Term → List Term × Term
  | [] => ([], carry)
  | c :: cs =>
    let q := div carry a
    let (qs, r) := divideByAffine a b (expand (sub c (mul q b))) cs
    (q :: qs, r)

/-- The antiderivative of a polynomial divided by a linear term with a parameter. -/
def affineIntegral? (x : Symbol) (t : Term) : Option Term :=
  let isDivisor : Term → Bool := fun
    | power b (number q) => q = -1 && (affine? x b).isSome
    | _ => false
  match t.factors.filter isDivisor with
  | [power b _] =>
    match affine? x b, coefficients? x (mulAll (t.factors.filter fun f => !isDivisor f)) with
    | some (a, c), some cs =>
      match cs.reverse with
      | lead :: next :: rest =>
        let (qs, r) := divideByAffine a c lead (next :: rest)
        some (expand (add (ofPowers x qs.reverse) (mul (div r a) (log b))))
      | _ => none
    | _, _ => none
  | _ => none

/-- The square root of a term, with even powers taken out whatever their signs are. -/
def plainRoot (t : Term) : Term :=
  let half? : Term → Option Term := fun
    | power b (number q) =>
      if q.den = 1 && q.num % 2 = 0 then some (pow b (number (q / 2))) else none
    | _ => none
  let even := t.factors.filterMap half?
  let other := t.factors.filter fun f => (half? f).isNone
  mul (mulAll even) (sqrt (mulAll other))

/-- The antiderivative of `1 / (a x² + c)` where `a` or `c` is no number: the sum of
`s log (x + 2 c s)` over the numbers `s` with `4 a c s² = -1`. -/
def quadraticIntegral? (x : Symbol) (t : Term) : Option Term :=
  match t with
  | power b (number q) =>
    match coefficients? x b with
    | some [c, m, a] =>
      if q ≠ -1 || m ≠ zero || (a.isClosed && c.isClosed) then none
      else
        let s := plainRoot (scale (-1 / 4) (inv (mul a c)))
        let part (s : Term) : Term := mul s (log (add (symbol x) (mul (scale 2 c) s)))
        some (add (part s.neg) (part s))
    | _ => none
  | _ => none

end Stepwise.Calculus
