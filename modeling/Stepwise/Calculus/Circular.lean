import Stepwise.Calculus.Parametric
import Stepwise.Calculus.Rational

/-!
# Antiderivatives of powers of sines and cosines

A product of powers of the circular functions of one multiple `θ = a x` of the variable is a product
`sin θ ^ n cos θ ^ m` with integers `n` and `m`. If one of them is odd, the other function is
substituted and a fraction is integrated. If both are even, the exponents are lowered in steps of
two.
-/

namespace Stepwise.Calculus

open Term

/-- The product `sin θ ^ sine · cos θ ^ cosine`. -/
structure Circular where
  angle : Term
  sine : Int
  cosine : Int

namespace Circular

/-- A power of a circular function as a product of powers of sine and cosine. -/
def ofPower? (f : Func) (angle : Term) (n : Int) : Option Circular :=
  match f with
  | .sin => some ⟨angle, n, 0⟩
  | .cos => some ⟨angle, 0, n⟩
  | .tan => some ⟨angle, n, -n⟩
  | .cot => some ⟨angle, -n, n⟩
  | .sec => some ⟨angle, 0, -n⟩
  | .csc => some ⟨angle, -n, 0⟩
  | _ => none

/-- A factor as a product of powers of sine and cosine. -/
def ofFactor? : Term → Option Circular
  | apply f a => ofPower? f a 1
  | power (apply f a) (number q) => if q.den = 1 then ofPower? f a q.num else none
  | _ => none

/-- The product, if both have the same angle. -/
def mul? (c d : Circular) : Option Circular :=
  if c.angle = d.angle then some ⟨c.angle, c.sine + d.sine, c.cosine + d.cosine⟩ else none

/-- Several factors as one product of powers of sine and cosine. -/
def ofFactors? : List Term → Option Circular
  | [] => none
  | [t] => ofFactor? t
  | t :: ts =>
    match ofFactor? t, ofFactors? ts with
    | some c, some d => mul? c d
    | _, _ => none

/-- The factor of the variable in a multiple of it. -/
def multiple? (x : Symbol) (angle : Term) : Option Term :=
  let (c, t) := angle.coefficient
  if t = symbol x then some (number c)
  else
    match t.factors.filter (·.mentions x) with
    | [u] => if u = symbol x then some (mulAll (number c :: t.factors.filter (· ≠ u))) else none
    | _ => none

/-- The integral of an even power of the sine, `sin θ ^ (2 k)`. -/
def evenSine (θ : Term) : (k : Nat) → Term
  | 0 => θ
  | k + 1 =>
    let n : Int := 2 * k + 2
    add (mulAll [number (mkRat (-1) n.toNat), call .cos θ, pow (call .sin θ) (ofInt (n - 1))])
      (scale (mkRat (n - 1) n.toNat) (evenSine θ k))

/-- The integral of an even power of the cosine, `cos θ ^ (2 k)`. -/
def evenCosine (θ : Term) : (k : Nat) → Term
  | 0 => θ
  | k + 1 =>
    let n : Int := 2 * k + 2
    add (mulAll [number (mkRat 1 n.toNat), call .sin θ, pow (call .cos θ) (ofInt (n - 1))])
      (scale (mkRat (n - 1) n.toNat) (evenCosine θ k))

/-- The integral of `1 / sin θ ^ (2 k)`. -/
def evenCosecant (θ : Term) : (k : Nat) → Term
  | 0 => θ
  | k + 1 =>
    let n : Int := -(2 * k + 2)
    let d : Rat := 1 / (n + 1 : Int)
    add (mulAll [number d, call .cos θ, pow (call .sin θ) (ofInt (n + 1))])
      (scale (d * (n + 2 : Int)) (evenCosecant θ k))

/-- The integral of `1 / cos θ ^ (2 k)`. -/
def evenSecant (θ : Term) : (k : Nat) → Term
  | 0 => θ
  | k + 1 =>
    let n : Int := -(2 * k + 2)
    let d : Rat := 1 / (n + 1 : Int)
    add (mulAll [number (-d), call .sin θ, pow (call .cos θ) (ofInt (n + 1))])
      (scale (d * (n + 2 : Int)) (evenSecant θ k))

/-- The integral of an even power of the sine, which may be in the denominator. -/
def sinePower (θ : Term) (n : Int) : Term :=
  if 0 ≤ n then evenSine θ (n / 2).toNat else evenCosecant θ (-n / 2).toNat

/-- The integral of an even power of the cosine, which may be in the denominator. -/
def cosinePower (θ : Term) (n : Int) : Term :=
  if 0 ≤ n then evenCosine θ (n / 2).toNat else evenSecant θ (-n / 2).toNat

/-- The binomial coefficients of `n`, with alternating signs. -/
def alternating (n : Nat) : List Rat :=
  let row := (List.range n).foldl (fun row _ => List.zipWith (· - ·) (row ++ [0]) (0 :: row)) [1]
  row

/-- The integral of `sin θ ^ n cos θ ^ m` for even exponents, after at most `steps` exchanges of
powers. -/
def even (θ : Term) : (steps : Nat) → (n m : Int) → Option Term
  | 0, _, _ => none
  | steps + 1, n, m =>
    let c := call .cos θ
    let s := call .sin θ
    if n = 0 then some (cosinePower θ m)
    else if m = 0 then some (sinePower θ n)
    else if n = m then
      -- The square of the product is a quarter of the squared sine of the double angle.
      some (scale (1 / Surd.ratPow 2 (m + 1)) (sinePower (scale 2 θ) m))
    else if m.natAbs < n.natAbs ∧ 0 < m then
      some (addAll ((alternating (m / 2).toNat).zipIdx.map fun (k, (i : Nat)) =>
        scale k (sinePower θ (n + 2 * i))))
    else if n.natAbs < m.natAbs ∧ 0 < n then
      some (addAll ((alternating (n / 2).toNat).zipIdx.map fun (k, (i : Nat)) =>
        scale k (cosinePower θ (m + 2 * i))))
    else if m.natAbs < n.natAbs ∨ (n = -m ∧ 0 < n) then
      let d : Rat := 1 / (m + 1 : Int)
      (even θ steps (n - 2) (m + 2)).map fun rest =>
        add (mulAll [number (-d), pow c (ofInt (m + 1)), pow s (ofInt (n - 1))])
          (scale (d * (n - 1 : Int)) rest)
    else
      let d : Rat := 1 / (n + 1 : Int)
      (even θ steps (n + 2) (m - 2)).map fun rest =>
        add (mulAll [number d, pow c (ofInt (m - 1)), pow s (ofInt (n + 1))])
          (scale (d * (m - 1 : Int)) rest)

/-- A symbol for the function that is substituted. -/
def inner : Symbol := ⟨['_', 'u'], .complex⟩

/-- The antiderivative of `c (1 - u²) ^ k u ^ m` at the term `v`. -/
def substituted? (c : Rat) (k m : Int) (v : Term) : Option Term :=
  let square : Poly := [1, 0, -1]
  let above := Poly.mul (Poly.pow square k.toNat) (Poly.monomial c m.toNat)
  let below := Poly.mul (Poly.pow square (-k).toNat) (Poly.monomial 1 (-m).toNat)
  (rationalIntegral? inner above below).map (substitute inner v)

/-- Is the cosine substituted where both exponents may be odd? -/
def prefersCosine (n m : Int) : Bool :=
  if n % 2 = 0 then false
  else if m % 2 = 0 then true
  else if n < 0 ∧ 0 < m then false
  else if m < 0 ∧ 0 < n then true
  else if n < 0 then m < n
  else n < m

/-- The antiderivative by the angle. -/
def integral? (c : Circular) : Option Term :=
  let n := c.sine
  let m := c.cosine
  if n % 2 = 0 ∧ m % 2 = 0 then even c.angle (n.natAbs + m.natAbs + 1) n m
  else if prefersCosine n m then substituted? (-1) ((n - 1) / 2) m (call .cos c.angle)
  else substituted? 1 ((m - 1) / 2) n (call .sin c.angle)

end Circular

/-- The antiderivative of a product of powers of circular functions of one multiple of the
variable. -/
def circularIntegral? (x : Symbol) (t : Term) : Option Term :=
  match Circular.ofFactors? t.factors with
  | none => none
  | some c =>
    match Circular.multiple? x c.angle with
    | none => none
    | some a =>
      if a.mentions x then none
      else c.integral?.map fun v =>
        exceptAtZero a (div v a) (if c.sine = 0 then symbol x else zero)

end Stepwise.Calculus
