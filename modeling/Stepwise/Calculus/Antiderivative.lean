import Stepwise.Calculus.Circular
import Stepwise.Calculus.Derivative
import Stepwise.Calculus.Particular
import Stepwise.Term.Text

/-!
# Antiderivatives

Polynomials, fractions and sums of exponentials are integrated as a whole. Any other sum is
integrated term by term, without the constant factors, by rules that are tried in order: powers of
linear terms, products of circular functions, polynomials times exponential and circular functions
(by undetermined coefficients), single functions of linear terms, particular terms, the substitution
of a part whose derivative is a factor, and integration by parts. Where no rule applies there is no
antiderivative.

Rules that lead to another integral are given `below`, the antiderivatives as far as they are found
at some depth.
-/

namespace Stepwise.Calculus

open Term

/-- The integrals that are found at some depth. -/
abbrev Integrals := Symbol → Term → Option Term

/-- The factors of a term that do not mention the variable, and the product of the others. -/
def splitConstant (x : Symbol) (t : Term) : Term × Term :=
  (mulAll (t.factors.filter fun f => !f.mentions x), mulAll (t.factors.filter (·.mentions x)))

/-- The products of a sum with its factors, multiplied out; nothing else is taken apart. -/
def spread (t : Term) : Term := rewrite expandProduct t

/-- The terms that mention the variable. -/
def withoutConstant (x : Symbol) (t : Term) : Term := addAll (t.terms.filter (·.mentions x))

/-! ### Polynomials and exponentials -/

/-- The antiderivative of a polynomial with any coefficients. -/
def polynomialIntegral? (x : Symbol) (t : Term) : Option Term :=
  (coefficients? x t).map fun cs =>
    addAll (cs.zipIdx.map fun (c, (k : Nat)) =>
      mul (scale (mkRat 1 (k + 1)) c) (pow (symbol x) (ofInt (k + 1 : Nat))))

/-- A polynomial times `e` to a linear term. -/
structure Exponential where
  poly : Poly
  exponent : Term

/-- The rational factor of the symbol in the exponent, if that is linear. -/
def Exponential.slope? (e : Exponential) (x : Symbol) : Option Rat :=
  if e.exponent.mentions x then (linear? x e.exponent).map Prod.fst else some 0

/-- A term of a sum as a polynomial times an exponential. -/
def exponential? (x : Symbol) (t : Term) : Option Exponential :=
  let isExp : Term → Bool := fun
    | power (constant .e) y => y.mentions x
    | _ => false
  let exponent := addAll ((t.factors.filter isExp).map fun f => f.baseExponent.2)
  (poly? x (mulAll (t.factors.filter fun f => !isExp f))).map fun p => ⟨p, exponent⟩

/-- Adds an exponential to those with other exponents. -/
def addExponential (e : Exponential) : List Exponential → List Exponential
  | [] => [e]
  | f :: fs =>
    if f.exponent = e.exponent then ⟨Poly.add f.poly e.poly, f.exponent⟩ :: fs
    else f :: addExponential e fs

/-- The polynomial `q` with `q' + a q = p`. -/
def descend (a : Rat) : Poly → Poly
  | [] => []
  | p => (go 0 p).2
where
  /-- The coefficients of `q` from the power `k` on, with the first of them times `k`. -/
  go (k : Nat) : List Rat → Rat × List Rat
    | [] => (0, [])
    | c :: cs =>
      let (next, rest) := go (k + 1) cs
      let d := (c - next) / a
      (d * k, d :: rest)

/-- The antiderivative of a polynomial times an exponential, over the denominator of its
coefficients. -/
def exponentialTerm? (x : Symbol) (e : Exponential) : Option Term :=
  if !e.exponent.mentions x then
    some (mul (Term.exp e.exponent) (ofPoly (symbol x) e.poly.antiderivative))
  else
    (linear? x e.exponent).map fun (a, _) =>
      let q := descend a e.poly
      let d := Poly.denominator q
      scale (mkRat 1 d)
        (mul (ofPoly (symbol x) (Poly.scale (mkRat d 1) q)) (Term.exp e.exponent))

/-- The antiderivative of a sum of polynomials times exponentials. -/
def exponentialIntegral? (x : Symbol) (t : Term) : Option Term :=
  match allSome (exponential? x) (Term.expand t).terms with
  | none => none
  | some es =>
    let es := es.foldl (fun es e => addExponential e es) []
    (allSome (exponentialTerm? x) es).map addAll

/-- The antiderivative of a power of a number, such as `2 ^ x`, times a polynomial. -/
def numberPowerIntegral? (x : Symbol) (t : Term) : Option Term :=
  let isPower : Term → Bool := fun
    | power b y => !b.mentions x && y.mentions x
    | _ => false
  match t.factors.filter isPower, poly? x (mulAll (t.factors.filter fun f => !isPower f)) with
  | [power b y], some p =>
    (linear? x y).map fun (a, _) =>
      let l := scale a (log b)
      let n := p.degree
      let slopes := (List.range n).foldl
        (fun ps _ => ps ++ [((ps.getLast?).getD []).derivative]) [p]
      let terms := slopes.zipIdx.map fun (q, (j : Nat)) =>
        mulAll [number (if j % 2 = 0 then 1 else -1), ofPoly (symbol x) q,
          pow l (ofInt (n - j : Nat))]
      mulAll [addAll terms, power b y, pow l (ofInt (-(n + 1 : Nat)))]
  | _, _ => none

/-! ### Powers of linear terms -/

/-- The antiderivative of a power of a linear term with any coefficients. -/
def powerIntegral? (x : Symbol) (t : Term) : Option Term :=
  let (b, n) := t.baseExponent
  match coefficients? x b with
  | some [_, a] =>
    if n.mentions x then none
    else if n = negOne then some (div (log b) a)
    else
      let m := add n one
      some (mulAll [exceptAtZero m (div (pow b m) m) (log b), inv a])
  | _ => none

/-- The antiderivative of a rational power of a power of the variable. -/
def nestedIntegral? (x : Symbol) (t : Term) : Option Term :=
  match t with
  | power b (number r) =>
    match monomial? x b with
    | some (_, k) =>
      let n : Rat := 1 + r * mkRat k 1
      if k = 0 ∨ n = 0 then none else some (mulAll [number n⁻¹, symbol x, t])
    | none => none
  | _ => none

/-- The antiderivative of a polynomial times a rational power of a linear term. -/
def rootIntegral? (x : Symbol) (t : Term) : Option Term :=
  let isRoot : Term → Bool := fun
    | power b (number q) => q.den ≠ 1 && (linear? x b).isSome
    | _ => false
  match t.factors.filter isRoot, rational? x (mulAll (t.factors.filter fun f => !isRoot f)) with
  | [power b (number r)], some (p, q) =>
    match linear? x b, q with
    | some (a, number c), [_] =>
      -- The polynomial in terms of the base.
      let shifted := Poly.shift (-c) p
      let inBase := shifted.zipIdx.map fun (k, (i : Nat)) => k / a ^ i
      some (addAll (inBase.zipIdx.map fun (k, (i : Nat)) =>
        let n : Rat := r + mkRat i 1 + 1
        scale (k / (n * a * q.lead)) (pow b (number n))))
    | some (a, number c), q =>
      -- A pure power of the variable below a root of it.
      if c = 0 ∧ q.dropLast.all (· = 0) then
        some (addAll (p.zipIdx.map fun (k, (i : Nat)) =>
          let n : Rat := r + mkRat i 1 - mkRat q.degree 1 + 1
          mulAll [number (k / (n * q.lead)), pow (number a) (number r), pow (symbol x) (number n)]))
      else none
    | _, _ => none
  | _, _ => none

/-! ### Polynomials times exponential and circular functions -/

/-- A pair of functions of which each is the derivative of the other, up to a sign. -/
structure Oscillation where
  first : Func
  second : Func
  /-- The sign in the derivative of the second one. -/
  sign : Rat

def Oscillation.circular : Oscillation := ⟨.sin, .cos, -1⟩

def Oscillation.hyperbolic : Oscillation := ⟨.sinh, .cosh, 1⟩

/-- The antiderivative of a polynomial times an exponential times one function of a pair, as
`(A f + B g) e ^ l` with polynomials `A` and `B`. -/
def oscillationIntegral? (o : Oscillation) (x : Symbol) (t : Term) : Option Term :=
  let isMember : Term → Bool := fun
    | apply f _ => f = o.first || f = o.second
    | _ => false
  let others := t.factors.filter fun f => !isMember f
  match t.factors.filter isMember, exponential? x (mulAll others) with
  | [apply f angle], some e =>
    match linear? x angle, e.slope? x with
    | some (c, _), some a =>
      let n := e.poly.length
      let power (k : Nat) : Poly := Poly.monomial 1 k
      let pair (p q : Poly) : Poly := Poly.add p (Poly.mul (power (n + 1)) q)
      let derived (k : Nat) : Poly := Poly.add (power k).derivative (Poly.scale a (power k))
      let columns :=
        (List.range n).map (fun k => pair (derived k) (Poly.scale c (power k))) ++
          (List.range n).map fun k => pair (Poly.scale (o.sign * c) (power k)) (derived k)
      let target := if f = o.first then pair e.poly [] else pair [] e.poly
      (combination? columns target).map fun cs =>
        let first := ofPoly (symbol x) (Poly.trim (cs.take n))
        let second := ofPoly (symbol x) (Poly.trim (cs.drop n))
        Term.expand (mul (Term.exp e.exponent)
          (add (mul first (call o.first angle)) (mul second (call o.second angle))))
    | _, _ => none
  | _, _ => none

/-- A positive power of one function of a pair: its angle, and the exponents of both. -/
def Oscillation.power? (o : Oscillation) : Term → Option (Term × Nat × Nat)
  | apply f a =>
    if f = o.first then some (a, 1, 0) else if f = o.second then some (a, 0, 1) else none
  | power (apply f a) (number q) =>
    if q.den ≠ 1 ∨ q < 0 then none
    else if f = o.first then some (a, q.num.toNat, 0)
    else if f = o.second then some (a, 0, q.num.toNat)
    else none
  | _ => none

/-- The antiderivative of a polynomial times an exponential times powers of the functions of a pair,
as a sum of polynomials times powers of the same total exponent. -/
def oscillationPower? (o : Oscillation) (x : Symbol) (t : Term) : Option Term :=
  let others := t.factors.filter fun f => (o.power? f).isNone
  match t.factors.filterMap o.power?, exponential? x (mulAll others) with
  | (angle, i, j) :: rest, some e =>
    match linear? x angle, e.slope? x with
    | some (c, _), some a =>
      if rest.any fun r => r.1 ≠ angle then none
      else
        let n := (rest.map fun r => r.2.1).foldl (· + ·) i
        let d := (rest.map fun r => r.2.2).foldl (· + ·) j + n
        let width := e.poly.length + 1
        -- A polynomial times the power `i` of the first function, below the total exponent.
        let place (p : Poly) (i : Nat) : Poly := Poly.mul (Poly.monomial 1 ((width + 1) * i)) p
        let column (i k : Nat) : Poly :=
          let p := Poly.monomial 1 k
          let raised := Poly.scale (o.sign * c * mkRat (d - i : Nat) 1) p
          Poly.add (place (Poly.add p.derivative (Poly.scale a p)) i)
            (Poly.add (if i = 0 then [] else place (Poly.scale (c * mkRat i 1) p) (i - 1))
              (if i = d then [] else place raised (i + 1)))
        let columns := (List.range (d + 1)).flatMap fun i => (List.range width).map (column i)
        (combination? columns (place e.poly n)).map fun cs =>
          let parts := (List.range (d + 1)).map fun (i : Nat) =>
            mulAll [ofPoly (symbol x) (Poly.trim ((cs.drop (width * i)).take width)),
              pow (call o.first angle) (ofInt i), pow (call o.second angle) (ofInt (d - i : Nat))]
          Term.expand (mul (Term.exp e.exponent) (addAll parts))
    | _, _ => none
  | _, _ => none

/-! ### Functions of linear terms -/

/-- The antiderivative of a function, at the term `u`. -/
def functionIntegral? (f : Func) (u : Term) : Option Term :=
  let square := pow u (ofInt 2)
  match f with
  | .sin => some (neg (call .cos u))
  | .cos => some (call .sin u)
  | .tan => some (neg (log (call .cos u)))
  | .sinh => some (call .cosh u)
  | .cosh => some (call .sinh u)
  | .tanh => some (sub u (log (add (call .tanh u) one)))
  | .asin => some (add (mul u (call .asin u)) (sqrt (sub one square)))
  | .acos => some (sub (mul u (call .acos u)) (sqrt (sub one square)))
  | .atan => some (sub (mul u (call .atan u)) (scale (1 / 2) (log (add square one))))
  | .acot => some (add (mul u (call .acot u)) (scale (1 / 2) (log (add square one))))
  | .asinh => some (sub (mul u (call .asinh u)) (sqrt (add square one)))
  | .atanh => some (addAll [mul u (call .atanh u), log (add u one), neg (call .atanh u)])
  | .log => some (sub (mul u (log u)) u)
  | .erf => some (add (mul u (call .erf u)) (div (Term.exp square.neg) (sqrt pi)))
  | _ => none

/-- The antiderivative of a function of a linear term. -/
def callIntegral? (x : Symbol) (t : Term) : Option Term :=
  match t with
  | apply f u =>
    match linear? x u with
    | some (a, _) =>
      (functionIntegral? f u).map fun v => withoutConstant x (spread (scale (1 / a) v))
    | none =>
      match f, affine? x u with
      | .log, some (a, _) => some (withoutConstant x (expand (div (sub (mul u (log u)) u) a)))
      | _, _ => none
  | _ => none

/-! ### Parts and substitutions -/

/-- Is this a function that integration by parts differentiates? -/
def isDifferentiated : Term → Bool
  | apply .log _ => true
  | apply .atan _ => true
  | apply .acot _ => true
  | apply .asin _ => true
  | apply .acos _ => true
  | apply .asinh _ => true
  | apply .atanh _ => true
  | apply .erf _ => true
  | power (apply .log _) (number q) => q.den = 1 && 0 < q
  | _ => false

/-- Integration by parts: logarithms and inverse functions are differentiated, the rest is
integrated. -/
def partsIntegral? (below : Integrals) (x : Symbol) (t : Term) : Option Term :=
  match t.factors.filter isDifferentiated with
  | [f] =>
    let rest := mulAll (t.factors.filter fun g => !isDifferentiated g)
    match if rest = one then some (symbol x) else below x rest with
    | none => none
    | some u =>
      if (u.any fun v => isDifferentiated v) then none
      else
        let product := mul u (Term.derivative x f)
        (below x (Term.expand product)).or (below x product) |>.map fun v =>
          sub (spread (mul u f)) v
  | _ => none

/-- The symbol for what is substituted. -/
def substituted : Symbol := ⟨['_', 'w'], .complex⟩

/-- The parts of a factor that may be substituted. -/
def candidatesOf : Term → List Term
  | power b (number q) => if q.den = 1 then b :: innerOf b else power b (number q) :: b :: innerOf b
  | power b y => [power b y, y]
  | apply f a => [apply f a, a]
  | _ => []
where
  /-- The functions in a base. -/
  innerOf (b : Term) : List Term := b.terms.flatMap fun t => t.factors.flatMap fun f =>
    match f with
    | apply _ _ => [f]
    | power (apply g a) _ => [f, apply g a]
    | power (constant .e) _ => [f]
    | _ => []

/-- Puts the substituted symbol in the place of a part and its powers. -/
def abstractPart (u t : Term) : Term :=
  rewrite (fun t =>
    if t = u then symbol substituted
    else
      match u, t with
      | power b y, power b' y' =>
        let (c, r) := y.coefficient
        let (c', r') := y'.coefficient
        if b = b' ∧ r = r' ∧ (c' / c).den = 1 then pow (symbol substituted) (number (c' / c)) else t
      | _, t => t) t

/-- The logarithm of a power of `e` as its exponent. -/
def withoutLogOfExp (t : Term) : Term :=
  rewrite (fun
    | apply .log (power (constant .e) y) => y
    | t => t) t

/-- The substitution of a part whose derivative is a factor. -/
def substitutionIntegral? (below : Integrals) (x : Symbol) (t : Term) : Option Term :=
  let candidates := (t.factors.flatMap candidatesOf).filter fun u => u.mentions x && u ≠ symbol x
  candidates.eraseDups.findSome? fun u =>
    let slope := Term.derivative x u
    if slope = zero then none
    else
      let q := abstractPart u (div t slope)
      if q.mentions x then none
      else (below substituted q).map fun v => withoutLogOfExp (substitute substituted u v)

/-! ### All together -/

/-- The antiderivative of a polynomial, a fraction or a sum of exponentials. -/
def wholeIntegral? (x : Symbol) (t : Term) : Option Term :=
  (polynomialIntegral? x t).or <|
    match rational? x t with
    | some (p, q) => rationalIntegral? x p q
    | none => (exponentialIntegral? x t).or (growingIntegral? x t)

/-- The rules for a product of factors that all mention the variable, in the order in which they are
tried. -/
def rules (below : Integrals) : List (Symbol → Term → Option Term) :=
  [wholeIntegral?, powerIntegral?, nestedIntegral?, circularIntegral?, waveIntegral?,
    affineIntegral?, quadraticIntegral?, numberPowerIntegral?, rootIntegral?,
    oscillationIntegral? .circular, oscillationIntegral? .hyperbolic, callIntegral?] ++
    particularIntegrals ++ [oscillationPower? .circular, oscillationPower? .hyperbolic,
    substitutionIntegral? below, partsIntegral? below]

/-- The antiderivative of a product of factors that all mention the variable. -/
def productIntegral? (below : Integrals) (x : Symbol) (t : Term) : Option Term :=
  (rules below).findSome? fun rule => rule x t

/-- The antiderivative of a term, with other integrals from `below`. -/
def integral? (below : Integrals) (x : Symbol) (t : Term) : Option Term :=
  if !t.mentions x then some (mul t (symbol x))
  else
    (wholeIntegral? x t).or <|
      (allSome (fun u =>
        let (c, v) := splitConstant x u
        if v.mentions x then
          (growingIntegral? x u).or ((productIntegral? below x v).map (mul c))
        else some (mul u (symbol x)))
        t.terms |>.map addAll).or <|
      let u := Term.expand t
      if u = t then none else below x u

/-- The antiderivatives that are found with at most so many steps from one to another. -/
def integralsOfDepth : (depth : Nat) → Integrals
  | 0 => fun _ _ => none
  | depth + 1 => integral? (integralsOfDepth depth)

/-- The antiderivative of a term without a constant, if one is found. -/
def antiderivative? (x : Symbol) (t : Term) : Option Term :=
  if !t.mentions x then some (mul t (symbol x))
  else if t.isImproper then none
  else integralsOfDepth 6 x t

end Stepwise.Calculus
