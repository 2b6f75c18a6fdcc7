import Stepwise.Term.Build

/-!
# Values of functions

`call f t` is the simplified value of a function: exact values at zero, at infinity and at rational
multiples of π, the parity of the circular and the hyperbolic functions, shifts by multiples of a
quarter turn, functions of their own inverses, and logarithms of numbers and powers of `e`. Where no
rule applies the function is kept.

Some rules end in another function's value. `Evaluation` stands for the values of functions as far
as they are available at some depth of nesting, as `Joining` does for products and powers.
-/

namespace Stepwise.Term

/-- The values of functions up to a certain depth. -/
abbrev Evaluation := Func → Term → Term

/-- The rational number of which the term is the multiple of π, if it is one. -/
def turns? : Term → Option Rat
  | number q => if q = 0 then some 0 else none
  | constant .pi => some 1
  | product [number q, constant .pi] => some q
  | _ => none

/-- `q π`. -/
def ofTurns (q : Rat) : Term := scaled q pi

/-- What the imaginary unit is multiplied by, if it is a factor of the term. -/
def imaginaryFactor? : Term → Option Term
  | constant .i => some one
  | product ts =>
    if ts.contains i then some (ofFactors (ts.filter (· ≠ i))) else none
  | _ => none

/-- The multiple of π in a sum, cut off at a multiple of `π / 2`, and the rest of the sum. -/
def quarterTurns (ts : List Term) : Int × Term :=
  let q : Rat := (ts.filterMap turns?).foldl (· + ·) 0
  let quarters : Int := (2 * q).floor
  (quarters, addAll (ofTurns (q - quarters / 2) :: ts.filter fun t => (turns? t).isNone))

/-- `(1 - x²)` under a root. -/
def coSquare (x : Term) : Term := sqrt (sub one (pow x (ofInt 2)))

/-- `√(1 + x²)`. -/
def hypotenuse (x : Term) : Term := sqrt (add one (pow x (ofInt 2)))

/-- The cosine of `q π` for `q` between 0 and 1/2, where it is written with roots. -/
def cosTurns? : (fuel : Nat) → (q : Rat) → Option Term
  | 0, _ => none
  | fuel + 1, q =>
    if q = 0 then some one
    else if q = 1 / 2 then some zero
    else if q = 1 / 3 then some half
    else if q = 1 / 5 then some (add (number (1 / 4)) (scale (1 / 4) (sqrt (ofInt 5))))
    else if q = 2 / 5 then some (add (number (-1 / 4)) (scale (1 / 4) (sqrt (ofInt 5))))
    else if q.den = 12 then
      -- The difference of a third and a quarter of the numerator.
      let a := q * 4
      let b := q * 3
      match cosReduced? fuel a, cosReduced? fuel b, cosReduced? fuel (1 / 2 - a),
          cosReduced? fuel (1 / 2 - b) with
      | some c, some d, some s, some t => some (add (mul c d) (mul s t))
      | _, _, _, _ => none
    else if q.den % 2 = 0 ∧ q.den ≤ 10 then
      (cosReduced? fuel (2 * q)).map fun c => sqrt (scale (1 / 2) (add one c))
    else none
where
  /-- The cosine of any `q π`. -/
  cosReduced? (fuel : Nat) (q : Rat) : Option Term :=
    let q : Rat := if q < 0 then -q else q
    let p : Rat := q - 2 * (q / 2).floor
    let p : Rat := if 1 < p then 2 - p else p
    if 1 < 2 * p then (cosTurns? fuel (1 - p)).map neg else cosTurns? fuel p

/-- The sign of an integer power of −1. -/
def paritySign (n : Int) : Term := if n % 2 = 0 then one else negOne

/-- The cosine of `q π`, which is kept if it is not written with roots. -/
def cosOfTurns (q : Rat) : Term :=
  let p : Rat := q - 2 * (q / 2).floor
  let p' : Rat := if 1 < p then 2 - p else p
  if q.den = 1 then paritySign q.num
  else if q.den = 2 then zero
  else if 1 < 2 * p' then
    match cosTurns? 8 (1 - p') with
    | some c => neg c
    | none => neg (apply .cos (ofTurns (1 - p')))
  else
    match cosTurns? 8 p' with
    | some c => c
    | none => apply .cos (ofTurns (if p = p' then q else p'))

/-- The sine of `q π`. -/
def sinOfTurns (q : Rat) : Term :=
  let p : Rat := q - 2 * (q / 2).floor
  let lower : Bool := 1 < p
  let p : Rat := if 1 < p then p - 1 else p
  let p : Rat := if 1 < 2 * p then 1 - p else p
  let value := if q.den = 1 then zero else
    match cosTurns? 8 (1 / 2 - p) with
    | some c => c
    | none => apply .sin (ofTurns p)
  if lower then neg value else value

/-- Is this the value of a circular function that was kept? -/
def isKept : Term → Bool
  | apply _ _ => true
  | product [number _, apply _ _] => true
  | _ => false

/-- The tangent of `n π / 10`, for an `n` from 1 to 4. -/
def tanOfTenths (n : Nat) : Term :=
  let root := sqrt (ofInt 5)
  match n with
  | 1 => sqrt (add one (scale (-2 / 5) root))
  | 2 => sqrt (add (ofInt 5) (scale (-2) root))
  | 3 => sqrt (add one (scale (2 / 5) root))
  | _ => sqrt (add (ofInt 5) (scale 2 root))

/-- The tangent of `q π`. -/
def tanOfTurns (q : Rat) : Term :=
  let p : Rat := q - q.floor
  if q.den = 1 then zero
  else if q.den = 2 then complexInfinity
  else if q.den = 5 || q.den = 10 then
    let n := (10 * p).num.natAbs
    if 5 < n then neg (tanOfTenths (10 - n)) else tanOfTenths n
  else
    let p' : Rat := if 1 < 2 * p then p - 1 else p
    if q.den % 2 = 0 then
      let c := cosOfTurns (2 * p')
      let s := sinOfTurns (2 * p')
      if isKept c || isKept s then apply .tan (ofTurns p') else sub (inv s) (div c s)
    else
      let c := cosOfTurns p'
      let s := sinOfTurns p'
      if isKept c || isKept s then apply .tan (ofTurns p') else div s c

/-- The cotangent of `q π`. -/
def cotOfTurns (q : Rat) : Term :=
  if q.den = 1 then complexInfinity
  else
    let t := tanOfTurns q
    if t = complexInfinity then zero
    else if q.den = 5 || q.den = 10 then tanOfTurns (1 / 2 - q)
    else if isKept t then apply .cot (ofTurns q)
    else
      let c := cosOfTurns (2 * q)
      let s := sinOfTurns (2 * q)
      if isKept c || isKept s || s = zero then inv t else add (inv s) (div c s)

namespace Evaluation

variable (below : Evaluation)

/-- The sine of a term that is no multiple of π and has no sign to take out. -/
def sine (t : Term) : Term :=
  match t with
  | sum ts =>
    let (n, rest) := quarterTurns ts
    if n = 0 then apply .sin t
    else
      match n % 4 with
      | 0 => below .sin rest
      | 1 => below .cos rest
      | 2 => neg (below .sin rest)
      | _ => neg (below .cos rest)
  | apply .asin x => x
  | apply .acos x => coSquare x
  | apply .atan x => div x (hypotenuse x)
  | t => apply .sin t

def cosine (t : Term) : Term :=
  match t with
  | sum ts =>
    let (n, rest) := quarterTurns ts
    if n = 0 then apply .cos t
    else
      match n % 4 with
      | 0 => below .cos rest
      | 1 => neg (below .sin rest)
      | 2 => neg (below .cos rest)
      | _ => below .sin rest
  | apply .acos x => x
  | apply .asin x => coSquare x
  | apply .atan x => inv (hypotenuse x)
  | t => apply .cos t

def tangent (t : Term) : Term :=
  match t with
  | sum ts =>
    let (n, rest) := quarterTurns ts
    if n = 0 then apply .tan t
    else if n % 2 = 0 then below .tan rest
    else neg (below .cot rest)
  | apply .atan x => x
  | apply .asin x => div x (coSquare x)
  | apply .acos x => div (coSquare x) x
  | apply .acot x => inv x
  | t => apply .tan t

def cotangent (t : Term) : Term :=
  match t with
  | sum ts =>
    let (n, rest) := quarterTurns ts
    if n = 0 then apply .cot t
    else if n % 2 = 0 then below .cot rest
    else neg (below .tan rest)
  | apply .acot x => x
  | apply .atan x => inv x
  | t => apply .cot t

/-- A circular function: the rules that all of them share. -/
def circular (f : Func) (isEven : Bool) (ofTurns : Rat → Term) (ofImaginary ofOther : Term → Term)
    (t : Term) : Term :=
  match t with
  | infinity _ => undefined
  | complexInfinity => undefined
  | undefined => undefined
  | t =>
    if t.extractsSign then
      let v := below f t.neg
      if isEven then v else neg v
    else
      match imaginaryFactor? t with
      | some x => ofImaginary x
      | none =>
        match turns? t with
        | some q => ofTurns q
        | none => ofOther t

/-- A secant or cosecant, by the function `g` that it is the reciprocal of. -/
def reciprocal (f g : Func) (t : Term) : Term :=
  match below g t with
  | apply h a => if h = g then apply f a else inv (apply h a)
  | product [number q, apply h a] =>
    if h = g then scaled q⁻¹ (apply f a) else inv (product [number q, apply h a])
  | v => inv v

/-- A hyperbolic function: the rules that all of them share. -/
def hyperbolic (f : Func) (isEven : Bool) (atZero atInfinity : Term)
    (ofImaginary ofOther : Term → Term) (t : Term) : Term :=
  match t with
  | infinity negative => if negative && !isEven then neg atInfinity else atInfinity
  | complexInfinity => undefined
  | undefined => undefined
  | t =>
    if t = zero then atZero
    else if t.extractsSign then
      let v := below f t.neg
      if isEven then v else neg v
    else
      match imaginaryFactor? t with
      | some x => ofImaginary x
      | none => ofOther t

/-- The sines that the arc sine knows, with their arcs in multiples of π. -/
def knownSines : List (Rat × Term) :=
  [1 / 6, 1 / 4, 1 / 3, 1 / 2, 1 / 10, -1 / 10, 3 / 10, 1 / 12, -1 / 12, 5 / 12, 1 / 5, 2 / 5, 1 / 8,
    3 / 8].map fun q => (q, sinOfTurns q)

/-- The tangents that the arc tangent knows. -/
def knownTangents : List (Rat × Term) :=
  [1 / 6, 1 / 4, 1 / 3, 1 / 8, -1 / 8, 3 / 8, 1 / 5, 2 / 5, 1 / 10, 3 / 10, 1 / 12, -1 / 12,
    5 / 12].map fun q => (q, tanOfTurns q)

/-- Finds the arc of a known value. -/
def arc? (known : List (Rat × Term)) (t : Term) : Option Rat :=
  (known.find? fun p => p.2 = t).map Prod.fst

/-- A real angle without the whole multiples of a period. -/
def reduced? (period a : Term) : Option Term :=
  if a.isClosed && a.signs.isReal then
    (mulAll [a, inv period]).approx?.map fun z => sub a (scale (mkRat z.re.floor 1) period)
  else none

/-- Is one real number greater than another one? -/
def exceeds (a b : Term) : Bool := (sub a b).signs.isPositive

/-- The angle between -π/2 and π/2 with the same sine. -/
def foldSine? (a : Term) : Option Term :=
  (reduced? (ofTurns 2) a).map fun b =>
    let b := if exceeds b pi then sub pi b else b
    if exceeds b (ofTurns (1 / 2)) then sub pi b
    else if exceeds (ofTurns (-1 / 2)) b then sub pi.neg b
    else b

/-- The angle between 0 and π with the same cosine. -/
def foldCosine? (a : Term) : Option Term :=
  (reduced? (ofTurns 2) a).map fun b => if exceeds b pi then sub (ofTurns 2) b else b

/-- The angle between -π/2 and π/2 with the same tangent. -/
def foldTangent? (a : Term) : Option Term :=
  (reduced? pi a).map fun b => if exceeds b (ofTurns (1 / 2)) then sub b pi else b

/-- The arc of the cosine or sine of a known angle, if there is one; `other` is the other arc. -/
def unwound (f : Func) (fold : Term → Option Term) (same : Func) (other : Func × Func) (t : Term) :
    Term :=
  match t with
  | apply g a =>
    if g = same then (fold a).getD (apply f t)
    else if g = other.1 ∧ a.isClosed ∧ a.signs.isReal then
      sub (ofTurns (1 / 2)) (below other.2 t)
    else apply f t
  | t => apply f t

def arcSine (t : Term) : Term :=
  match t with
  | infinity negative => product [infinity (!negative), i]
  | complexInfinity => complexInfinity
  | undefined => undefined
  | t =>
    if t = zero then zero
    else if t.extractsSign then neg (below .asin t.neg)
    else
      match arc? knownSines t with
      | some q => ofTurns q
      | none =>
        match imaginaryFactor? t with
        | some x => mul i (below .asinh x)
        | none => unwound below .asin foldSine? .sin (.cos, .acos) t

def arcCosine (t : Term) : Term :=
  match t with
  | infinity negative => product [infinity negative, i]
  | complexInfinity => complexInfinity
  | undefined => undefined
  | t =>
    if t = zero then ofTurns (1 / 2)
    else if t = one then zero
    else
      match arc? knownSines t, arc? knownSines t.neg with
      | some q, _ => ofTurns (1 / 2 - q)
      | _, some q => ofTurns (1 / 2 + q)
      | _, _ => unwound below .acos foldCosine? .cos (.sin, .asin) t

def arcTangent (t : Term) : Term :=
  match t with
  | infinity negative => ofTurns (if negative then -1 / 2 else 1 / 2)
  | complexInfinity => undefined
  | undefined => undefined
  | t =>
    if t = zero then zero
    else if t.extractsSign then neg (below .atan t.neg)
    else
      match arc? knownTangents t with
      | some q => ofTurns q
      | none =>
        match imaginaryFactor? t with
        | some x => mul i (below .atanh x)
        | none => unwound below .atan foldTangent? .tan (.cot, .acot) t

/-- Is this a real number written with roots only? -/
def isRealRoot (t : Term) : Bool :=
  t.signs.isReal && !t.any fun
    | constant _ => true
    | symbol _ => true
    | apply _ _ => true
    | form _ _ => true
    | power _ (number _) => false
    | power _ _ => true
    | _ => false

/-- The real and the imaginary part of a number other than zero, both written with roots only. -/
def planeParts? (t : Term) : Option (Term × Term) :=
  let im := addAll (t.terms.filterMap imaginaryFactor?)
  let re := addAll (t.terms.filter fun u => (imaginaryFactor? u).isNone)
  if re ≠ zero && im ≠ zero && isRealRoot re && isRealRoot im then some (re, im) else none

/-- The square of a sum, multiplied out. -/
def squared (t : Term) : Term := addAll (t.terms.flatMap fun a => t.terms.map fun b => mul a b)

/-- The natural logarithm. -/
def logarithm (t : Term) : Term :=
  match t with
  | infinity _ => infinity false
  | complexInfinity => complexInfinity
  | undefined => undefined
  | constant .e => one
  | constant .i => mulAll [half, i, pi]
  | power (constant .e) x =>
    if x.signs.isReal then x
    else
      match turns? ((imaginaryFactor? x).getD undefined) with
      | some q => mulAll [number q, i, pi]
      | none => apply .log t
  | number q =>
    if q = 0 then complexInfinity
    else if q = 1 then zero
    else if q < 0 then add (mul i pi) (below .log (number (-q)))
    else if q.num = 1 then neg (apply .log (ofInt q.den))
    else apply .log t
  | product [number q, constant .i] =>
    add (mulAll [number (if q < 0 then -1 / 2 else 1 / 2), i, pi])
      (below .log (number (if q < 0 then -q else q)))
  | t =>
    if t.isClosed && t.signs.isNegative then add (mul i pi) (below .log t.neg)
    else
      match planeParts? t with
      | some (re, im) =>
        let slope := div im re
        let modulus := sqrt (add (squared re) (squared im))
        let left := re.signs.isNegative
        match arc? knownTangents slope, arc? knownTangents slope.neg with
        | some q, _ =>
          add (below .log modulus) (mulAll [i, ofTurns (if left then q - 1 else q)])
        | _, some q =>
          add (below .log modulus) (mulAll [i, ofTurns (if left then 1 - q else -q)])
        | none, none => apply .log t
      | none => apply .log t

/-- The product of the first natural numbers. -/
def factorialOf : Nat → Nat
  | 0 => 1
  | n + 1 => (n + 1) * factorialOf n

def factorial (t : Term) : Term :=
  match t.integer? with
  | some n => if n < 0 then complexInfinity else ofInt (factorialOf n.toNat)
  | none =>
    match t with
    | infinity false => infinity false
    | t => apply .factorial t

/-- The product of every second one of the first natural numbers. -/
def doubleFactorialOf : Nat → Nat
  | 0 => 1
  | 1 => 1
  | n + 2 => (n + 2) * doubleFactorialOf n

/-- The double factorial, which continues to the odd negative integers. -/
def doubleFactorial (t : Term) : Term :=
  match t.integer? with
  | some n =>
    if 0 ≤ n then ofInt (doubleFactorialOf n.toNat)
    else if n % 2 = 0 then apply .doubleFactorial t
    else
      let sign : Int := if (1 - n) / 2 % 2 = 0 then 1 else -1
      number (mkRat (n * sign) (doubleFactorialOf (-n).toNat))
  | none => apply .doubleFactorial t

/-- The gamma function, which is shifted from the factorial by one. -/
def gammaFunction (t : Term) : Term :=
  match t with
  | number q =>
    if q.den = 1 then factorial (number (q - 1))
    else if q = 1 / 2 then sqrt pi
    else apply .gamma t
  | t => apply .gamma t

/-- The direction of a number from zero. -/
def direction (t : Term) : Term :=
  let s := t.signs
  if t = zero then zero
  else if s.isPositive then one
  else if s.isNegative then negOne
  else
    match t with
    | infinity negative => if negative then negOne else one
    | product (number q :: ts) =>
      scale (if q < 0 then -1 else 1) (below .sign (ofFactors ts))
    | constant .i => i
    | t => apply .sign t

/-- The greatest integer that is not above the term. -/
def floorOf (t : Term) : Term :=
  match t with
  | number q => ofInt q.floor
  | infinity negative => infinity negative
  | t =>
    match t.approx? with
    | some z => if z.isReal then ofInt z.re.floor else apply .floor t
    | none => apply .floor t

/-- The real part of a term. What is not known to be real stays. -/
def realPartOf (t : Term) : Term :=
  if t.signs.isReal then t
  else
    match t with
    | sum ts => addAll (ts.map (below .realPart))
    | product (number q :: ts) => scale q (below .realPart (ofFactors ts))
    | t =>
      match imaginaryFactor? t with
      | some u => neg (below .imaginaryPart u)
      | none => apply .realPart t

def imaginaryPartOf (t : Term) : Term :=
  if t.signs.isReal then zero
  else
    match t with
    | sum ts => addAll (ts.map (below .imaginaryPart))
    | product (number q :: ts) => scale q (below .imaginaryPart (ofFactors ts))
    | t =>
      match imaginaryFactor? t with
      | some u => below .realPart u
      | none => apply .imaginaryPart t

/-- The solution of `x eˣ = t`. -/
def productLogarithm (t : Term) : Term :=
  if t = zero then zero
  else if t = e then one
  else if t = neg (inv e) then negOne
  else if t = scale (-1 / 2) (below .log (ofInt 2)) then neg (below .log (ofInt 2))
  else if t = scale 2 (below .log (ofInt 2)) then below .log (ofInt 2)
  else if t = ofTurns (-1 / 2) then mulAll [half, i, pi]
  else
    match t with
    | infinity false => infinity false
    | t => apply .lambert t

/-- The value of a function, by the values of functions below. -/
def step (f : Func) (t : Term) : Term :=
  match f with
  | .sin => circular below .sin false sinOfTurns (fun x => mul i (below .sinh x)) (sine below) t
  | .cos => circular below .cos true cosOfTurns (below .cosh) (cosine below) t
  | .tan =>
    circular below .tan false tanOfTurns (fun x => mul i (below .tanh x)) (tangent below) t
  | .cot =>
    circular below .cot false cotOfTurns (fun x => neg (mul i (below .coth x)))
      (cotangent below) t
  | .sec =>
    match t with
    | apply .asec x => x
    | t => reciprocal below .sec .cos t
  | .csc =>
    match t with
    | apply .acsc x => x
    | t => reciprocal below .csc .sin t
  | .sinh =>
    hyperbolic below .sinh false zero (infinity false) (fun x => mul i (below .sin x))
      (fun | apply .asinh x => x | t => apply .sinh t) t
  | .cosh =>
    hyperbolic below .cosh true one (infinity false) (below .cos)
      (fun | apply .acosh x => x | apply .asinh x => hypotenuse x | t => apply .cosh t) t
  | .tanh =>
    hyperbolic below .tanh false zero one (fun x => mul i (below .tan x))
      (fun | apply .atanh x => x | t => apply .tanh t) t
  | .coth =>
    hyperbolic below .coth false complexInfinity one (fun x => neg (mul i (below .cot x)))
      (fun | apply .acoth x => x | t => apply .coth t) t
  | .sech => hyperbolic below .sech true one zero (below .sec) (apply .sech) t
  | .csch =>
    hyperbolic below .csch false complexInfinity zero (fun x => neg (mul i (below .csc x)))
      (apply .csch) t
  | .asin => arcSine below t
  | .acos => arcCosine below t
  | .atan => arcTangent below t
  | .acot =>
    if t = zero then ofTurns (1 / 2)
    else
      match t with
      | infinity _ => zero
      | t =>
        if t.extractsSign then neg (below .acot t.neg)
        else
          match arc? knownTangents t with
          | some q => ofTurns (1 / 2 - q)
          | none => apply .acot t
  | .asec => if t = zero then complexInfinity else if t = one then zero else
      if t = negOne then pi else apply .asec t
  | .acsc => if t = zero then complexInfinity else if t = one then ofTurns (1 / 2) else
      if t.extractsSign then neg (below .acsc t.neg) else apply .acsc t
  | .asinh => hyperbolic below .asinh false zero (infinity false) (fun x => mul i (below .asin x))
      (fun t =>
        match t with
        | apply .sinh x => if x.isClosed && x.signs.isReal then x else apply .asinh t
        | t => if t = one then below .log (add one (sqrt (ofInt 2))) else apply .asinh t) t
  | .acosh => if t = one then zero else if t = zero then mulAll [half, i, pi] else apply .acosh t
  | .atanh =>
    if t = one then infinity false
    else hyperbolic below .atanh false zero (mulAll [number (-1 / 2), i, pi])
      (fun x => mul i (below .atan x))
      (fun t =>
        match t with
        | apply .tanh x => if x.isClosed && x.signs.isReal then x else apply .atanh t
        | t => apply .atanh t) t
  | .acoth => apply .acoth t
  | .log => logarithm below t
  | .abs => abs t
  | .sign => direction below t
  | .floor => floorOf t
  | .ceiling => neg (floorOf t.neg)
  | .factorial => factorial t
  | .doubleFactorial => doubleFactorial t
  | .gamma => gammaFunction t
  | .erf | .erfi => hyperbolic below f false zero one (fun x =>
      apply f (mul i x)) (apply f) t
  | .sineIntegral => hyperbolic below f false zero (ofTurns (1 / 2)) (fun x =>
      apply f (mul i x)) (apply f) t
  | .cosineIntegral | .expIntegral => apply f t
  | .logIntegral =>
    if t = zero then zero else if t = one then infinity true
    else if t = infinity false then t else apply f t
  | .fresnelSine | .fresnelCosine => hyperbolic below f false zero half (fun x =>
      apply f (mul i x)) (apply f) t
  | .lambert => productLogarithm below t
  | .realPart => realPartOf below t
  | .imaginaryPart => imaginaryPartOf below t

/-- The values of functions with at most so many steps from one to another. -/
def ofDepth : (depth : Nat) → Evaluation
  | 0 => apply
  | depth + 1 => step (ofDepth depth)

end Evaluation

/-- The value of a function. -/
def call (f : Func) (t : Term) : Term := Evaluation.ofDepth 16 f t

def log (t : Term) : Term := call .log t

/-- How often the number `b` above 1 divides `q`; a division of the denominator counts negative. -/
def multiplicity (b : Nat) (q : Rat) : Int :=
  ((splitPower b q.num.natAbs.log2 q.num.natAbs).1 : Int) -
    (splitPower b q.den.log2 q.den).1

/-- The logarithm of `t` to the base `b`. Whole powers of an integer base are taken out first. -/
def logBase (t b : Term) : Term :=
  if b = one then if t = one then undefined else complexInfinity
  else
    match t, b with
    | number q, number p =>
      if p.den = 1 ∧ 1 < p ∧ q ≠ 0 then
        let n := multiplicity p.num.natAbs q
        add (ofInt n) (div (log (number (q / Surd.ratPow p n))) (log b))
      else div (log t) (log b)
    | t, constant .e => log t
    | t, b => div (log t) (log b)

end Stepwise.Term
