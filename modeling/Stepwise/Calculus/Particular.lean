import Stepwise.Calculus.Parametric
import Stepwise.Calculus.Rational

/-!
# Particular antiderivatives

Rules for single kinds of terms: the bell curve and the polynomials times it, quotients whose
antiderivatives are functions of their own, products of sines and cosines of different angles,
reciprocals of `1 ± sin θ` and `1 ± cos θ`, squares of hyperbolic functions, circular functions of
the logarithm, polynomials over the root of a quadratic term, and fractions of a root of the
variable. `particularIntegrals` has them in the order in which they are tried.
-/

namespace Stepwise.Calculus

open Term

/-- A term as `a x + b` with a rational `a` other than zero: `a` and `b`. -/
def linear? (x : Symbol) (t : Term) : Option (Rat × Term) :=
  match coefficients? x t with
  | some [b, number a] => if a = 0 then none else some (a, b)
  | _ => none

/-- Is the term a rational multiple of the variable? -/
def isMultiple (x : Symbol) (t : Term) : Bool := (linear? x t).any (·.2 = zero)

/-! ### The bell curve -/

/-- The antiderivative of `e` to a rational multiple of the square of the variable. -/
def bell (x : Symbol) (a : Rat) : Term :=
  let s := sqrt (number (if a < 0 then -a else a))
  mulAll [half, sqrt pi, inv s, call (if a < 0 then .erf else .erfi) (mul s (symbol x))]

/-- The antiderivative of `e` to a multiple of the square of the variable. -/
def bellIntegral? (x : Symbol) (t : Term) : Option Term :=
  match t with
  | power (constant .e) y =>
    match poly? x y with
    | some [0, 0, a] => some (bell x a)
    | _ =>
      match coefficients? x y with
      | some [b, c, a] =>
        let s := sqrt a.neg
        if b ≠ zero || c ≠ zero || a.isClosed then none
        else
          some (exceptAtZero a (mulAll [half, sqrt pi, inv s, call .erf (mul s (symbol x))])
            (symbol x))
      | _ => none
  | _ => none

/-- The antiderivative of a polynomial times a bell curve: a polynomial times it, and a multiple of
its antiderivative. -/
def bellMultiple? (x : Symbol) (t : Term) : Option Term :=
  let isBell : Term → Bool := fun
    | power (constant .e) y => y.mentions x
    | _ => false
  match t.factors.filter isBell, poly? x (mulAll (t.factors.filter fun f => !isBell f)) with
  | [power (constant .e) y], some p =>
    match poly? x y with
    | some [0, 0, a] =>
      let power (k : Nat) : Poly := Poly.monomial 1 k
      let columns := (List.range p.degree).map fun k =>
        Poly.add (power k).derivative (Poly.scale (2 * a) (power (k + 1)))
      (combination? ([1] :: columns) p).map fun cs =>
        add (mul (ofPoly (symbol x) (Poly.trim cs.tail)) (Term.exp y))
          (scale (cs.headD 0) (bell x a))
    | _ => none
  | _, _ => none

/-! ### Functions defined by integrals -/

/-- The antiderivative of a function of a multiple of the variable, divided by the variable. -/
def quotientIntegral? (x : Symbol) (t : Term) : Option Term :=
  match t.factors with
  | [f, g] =>
    let other := if f = power (symbol x) negOne then some g
      else if g = power (symbol x) negOne then some f else none
    match other with
    | some (apply .sin u) => if isMultiple x u then some (call .sineIntegral u) else none
    | some (apply .cos u) => if isMultiple x u then some (call .cosineIntegral u) else none
    | some (power (constant .e) u) => if isMultiple x u then some (call .expIntegral u) else none
    | _ => none
  | _ => none

/-- The antiderivative of the reciprocal of a logarithm. -/
def reciprocalLogIntegral? (x : Symbol) (t : Term) : Option Term :=
  match t with
  | power (apply .log u) (number q) =>
    if q = -1 then (linear? x u).map fun (a, _) => scale (1 / a) (call .logIntegral u) else none
  | _ => none

/-- The antiderivative of the sine or cosine of the square of the variable. -/
def fresnelIntegral? (x : Symbol) (t : Term) : Option Term :=
  let argument := mulAll [sqrt (ofInt 2), symbol x, inv (sqrt pi)]
  let whole (c : Rat) (f : Func) (above below : Rat) : Term :=
    mulAll [number c, sqrt (ofInt 2), sqrt pi, call f argument, call .gamma (number above),
      inv (call .gamma (number below))]
  match t with
  | apply f u =>
    if u ≠ pow (symbol x) (ofInt 2) then none
    else
      match f with
      | .sin => some (whole (3 / 8) .fresnelSine (3 / 4) (7 / 4))
      | .cos => some (whole (1 / 8) .fresnelCosine (1 / 4) (5 / 4))
      | _ => none
  | _ => none

/-! ### Circular and hyperbolic functions -/

/-- The antiderivative of a product of two sines and cosines of multiples of the variable. -/
def productOfWaves? (x : Symbol) (t : Term) : Option Term :=
  match t.factors with
  | [apply f u, apply g v] =>
    match linear? x u, linear? x v with
    | some (m, _), some (n, _) =>
      let d : Rat := n * n - m * m
      let (s, c) := (call .sin u, call .cos u)
      let (s', c') := (call .sin v, call .cos v)
      let sum (p : Rat) (a b : Term) (q : Rat) (a' b' : Term) : Option Term :=
        some (add (mulAll [number (p / d), a, b]) (mulAll [number (q / d), a', b']))
      if d = 0 then none
      else
        match f, g with
        | .sin, .cos => sum n s s' m c c'
        | .cos, .sin => sum (-n) c c' (-m) s s'
        | .sin, .sin => sum (-n) s c' m c s'
        | .cos, .cos => sum (-m) s c' n c s'
        | _, _ => none
    | _, _ => none
  | _ => none

/-- The antiderivative of a multiple of the reciprocal of `1 ± sin θ` or `1 ± cos θ`. -/
def shiftedReciprocal? (x : Symbol) (t : Term) : Option Term :=
  match t with
  | power (sum ts) (number q) =>
    match ts.filterMap number?, ts.filter fun u => u.number?.isNone with
    | [p], [u] =>
      match u.coefficient with
      | (c, apply f angle) =>
        match linear? x angle with
        | some (a, _) =>
          let h := call .tan (scale (1 / 2) angle)
          let k : Rat := 1 / (p * a)
          if q ≠ -1 then none
          else if f = .cos && c = p then some (scale k h)
          else if f = .cos && c = -p then some (scale (-k) (inv h))
          else if f = .sin && c = p then some (scale (-2 * k) (inv (add h one)))
          else if f = .sin && c = -p then some (scale (-2 * k) (inv (sub h one)))
          else none
        | none => none
      | _ => none
    | _, _ => none
  | _ => none

/-- The antiderivative of the square of a hyperbolic sine or cosine. -/
def hyperbolicSquare? (x : Symbol) (t : Term) : Option Term :=
  match t with
  | power (apply f u) (number q) =>
    let (s, c) := (call .sinh u, call .cosh u)
    let linear (sign : Rat) : Option Term :=
      (linear? x u).map fun (a, _) =>
        addAll [mulAll [number (sign / 2), symbol x, pow s (ofInt 2)],
          mulAll [number (-sign / 2), symbol x, pow c (ofInt 2)],
          mulAll [number (1 / (2 * a)), s, c]]
    if q ≠ 2 then none
    else
      match f with
      | .sinh => linear 1
      | .cosh => linear (-1)
      | _ => none
  | _ => none

/-- The antiderivative of the sine or cosine of the logarithm of the variable. -/
def waveOfLog? (x : Symbol) (t : Term) : Option Term :=
  match t with
  | apply f (apply .log u) =>
    let l := log u
    let whole (sign : Rat) : Option Term :=
      some (add (mulAll [half, symbol x, call .sin l])
        (mulAll [number (sign / 2), symbol x, call .cos l]))
    if !isMultiple x u then none
    else
      match f with
      | .sin => whole (-1)
      | .cos => whole 1
      | _ => none
  | _ => none

/-! ### Roots -/

/-- The antiderivative of the reciprocal root of a quadratic term, if it is an arc. -/
def arc? (x : Symbol) (b : Poly) : Option Term :=
  match b with
  | [c, m, a] =>
    let shift : Rat := m / (2 * a)
    let rest : Rat := c - m * m / (4 * a)
    let s := sqrt (number (if a < 0 then -a else a))
    let u := div (mul s (add (symbol x) (number shift))) (sqrt (number rest))
    if 0 < rest then some (div (call (if a < 0 then .asin else .asinh) u) s) else none
  | _ => none

/-- The antiderivative of a polynomial times a root of a quadratic term, or over it: a polynomial
times the root, and a multiple of an arc. -/
def arcIntegral? (x : Symbol) (t : Term) : Option Term :=
  let isRoot : Term → Bool := fun
    | power b (number q) => (q = 1 / 2 || q = -1 / 2) && (poly? x b).any fun p => p.degree = 2
    | _ => false
  match t.factors.filter isRoot, poly? x (mulAll (t.factors.filter fun f => !isRoot f)) with
  | [power b (number q)], some p =>
    match poly? x b with
    | some quadratic =>
      let p := if q = 1 / 2 then Poly.mul p quadratic else p
      let power (k : Nat) : Poly := Poly.monomial 1 k
      let columns := (List.range p.degree).map fun k =>
        Poly.add (Poly.mul (power k).derivative quadratic)
          (Poly.scale (1 / 2) (Poly.mul (power k) quadratic.derivative))
      match arc? x quadratic, combination? ([1] :: columns) p with
      | some arc, some cs =>
        some (expand (add (mul (ofPoly (symbol x) (Poly.trim cs.tail)) (sqrt b))
          (scale (cs.headD 0) arc)))
      | _, _ => none
    | none => none
  | _, _ => none

/-- A symbol for a root of the variable. -/
def rootSymbol : Symbol := ⟨['_', 'r'], .positive⟩

/-- The least order of a root of which all powers of the variable in sums, products and powers are
whole powers. -/
def rootOrder (x : Symbol) (t : Term) : Nat :=
  let inner (f : Term) : List Term := match f with
    | power (sum ts) _ => ts.flatMap factors
    | f => [f]
  let denominator (f : Term) : Nat := match f with
    | power b (number q) => if b = symbol x then q.den else 1
    | _ => 1
  ((t.factors.flatMap inner).map denominator).foldl Nat.lcm 1

/-- The antiderivative of a fraction of a root of the variable. -/
def rootSubstitution? (x : Symbol) (t : Term) : Option Term :=
  let n := rootOrder x t
  if n < 2 then none
  else
    let w := symbol rootSymbol
    let u := mulAll [substitute x (pow w (ofInt n)) t, ofInt n, pow w (ofInt (n - 1))]
    match rational? rootSymbol u with
    | some (p, q) =>
      (rationalIntegral? rootSymbol p q).map
        (substitute rootSymbol (pow (symbol x) (number (mkRat 1 n))))
    | none => none

/-! ### All together -/

/-- The rules for particular terms, in the order in which they are tried. -/
def particularIntegrals : List (Symbol → Term → Option Term) :=
  [bellIntegral?, quotientIntegral?, reciprocalLogIntegral?, fresnelIntegral?, productOfWaves?,
    shiftedReciprocal?, hyperbolicSquare?, waveOfLog?, arcIntegral?, bellMultiple?,
    rootSubstitution?]

end Stepwise.Calculus
