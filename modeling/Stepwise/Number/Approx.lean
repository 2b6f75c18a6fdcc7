import Stepwise.Number.Dyad

/-!
# Approximate complex numbers

The complex plane over dyads. A number whose imaginary part is zero is treated as a real number
wherever the function stays real, so that it stays exactly on the real line; everything else goes
through the complex exponential function and the principal logarithm.
-/

namespace Stepwise

/-- The point `re + im · i`. -/
structure Approx where
  re : Dyad
  im : Dyad
  deriving DecidableEq, Repr

namespace Approx

def ofReal (x : Dyad) : Approx := ⟨x, Dyad.zero⟩

def ofRat (q : Rat) : Approx := ofReal (Dyad.ofRat q)

def zero : Approx := ofReal Dyad.zero

def one : Approx := ofReal Dyad.one

/-- The imaginary unit. -/
def i : Approx := ⟨Dyad.zero, Dyad.one⟩

def isReal (z : Approx) : Bool := z.im.isZero

def isZero (z : Approx) : Bool := z.re.isZero && z.im.isZero

def neg (z : Approx) : Approx := ⟨z.re.neg, z.im.neg⟩

def add (z w : Approx) : Approx := ⟨z.re.add w.re, z.im.add w.im⟩

def sub (z w : Approx) : Approx := add z w.neg

def mul (z w : Approx) : Approx :=
  ⟨(z.re.mul w.re).sub (z.im.mul w.im), (z.re.mul w.im).add (z.im.mul w.re)⟩

/-- The square of the distance from zero. -/
def square (z : Approx) : Dyad := (z.re.mul z.re).add (z.im.mul z.im)

/-- The distance from zero. -/
def modulus (z : Approx) : Dyad := if z.im.isZero then z.re.abs else z.square.sqrt

/-- The quotient; zero if the divisor is zero. -/
def div (z w : Approx) : Approx :=
  if w.im.isZero then ⟨z.re.div w.re, z.im.div w.re⟩
  else
    let p := mul z ⟨w.re, w.im.neg⟩
    ⟨p.re.div w.square, p.im.div w.square⟩

def half (z : Approx) : Approx := ⟨z.re.half, z.im.half⟩

/-- The product with the imaginary unit. -/
def turn (z : Approx) : Approx := ⟨z.im.neg, z.re⟩

/-- The angle of the number, between -π and π. -/
def angle (z : Approx) : Dyad := Dyad.angle z.re z.im

def exp (z : Approx) : Approx :=
  let (s, c) := z.im.sinCos
  let r := z.re.exp
  ⟨r.mul c, r.mul s⟩

/-- The principal logarithm of a number other than zero. -/
def log (z : Approx) : Approx := ⟨z.modulus.log, z.angle⟩

/-- A power with a natural exponent, by repeated squaring over the exponent's binary digits. -/
def powNat (z : Approx) : (digits n : Nat) → Approx
  | 0, _ => one
  | digits + 1, n =>
    let h := powNat z digits (n / 2)
    let s := mul h h
    if n % 2 = 1 then mul s z else s

/-- The principal square root. The part of it that does not cancel is found first. -/
def sqrt (z : Approx) : Approx :=
  if z.isReal then if z.re.isNegative then ⟨Dyad.zero, z.re.abs.sqrt⟩ else ofReal z.re.sqrt
  else
    let p := (z.modulus.add z.re.abs).half.sqrt
    let q := z.im.half.div p
    if !z.re.isNegative then ⟨p, q⟩ else if z.im.isNegative then ⟨q.abs, p.neg⟩ else ⟨q.abs, p⟩

/-- A power with an integer exponent, which is not large. -/
def powInt (z : Approx) (n : Int) : Approx :=
  let p := powNat z (n.natAbs.log2 + 1) n.natAbs
  if n < 0 then div one p else p

/-- The principal value of a power; zero if the base is zero. -/
def pow (z w : Approx) : Approx :=
  if z.isZero then zero
  else
    let whole := w.re.floor
    let isWhole := w.isReal && (Dyad.ofInt whole).sub w.re == Dyad.zero
    let double := w.re.add w.re
    let halves := double.floor
    let isHalf := w.isReal && (Dyad.ofInt halves).sub double == Dyad.zero
    if isWhole && whole.natAbs < 2 ^ (32 : Nat) then powInt z whole
    else if isHalf && halves.natAbs < 64 then powInt (sqrt z) halves
    else if z.isReal && z.re.isNegative && isWhole then
      let m := exp (mul w (log z.neg))
      if whole % 2 = 0 then m else m.neg
    else exp (mul w (log z))

def sinh (z : Approx) : Approx := half (sub (exp z) (exp z.neg))

def cosh (z : Approx) : Approx := half (add (exp z) (exp z.neg))

def sin (z : Approx) : Approx :=
  if z.isReal then ofReal z.re.sinCos.1 else (sinh z.turn).turn.neg

def cos (z : Approx) : Approx :=
  if z.isReal then ofReal z.re.sinCos.2 else cosh z.turn

def tan (z : Approx) : Approx := div (sin z) (cos z)

def tanh (z : Approx) : Approx := div (sinh z) (cosh z)

def atan (z : Approx) : Approx :=
  if z.isReal then ofReal z.re.atan
  else half (sub (log (sub one z.turn)) (log (add one z.turn))).turn

def asin (z : Approx) : Approx :=
  let root := sqrt (sub one (mul z z))
  if z.isReal && root.isReal then ofReal (Dyad.angle root.re z.re)
  else (log (add z.turn root)).turn.neg

def acos (z : Approx) : Approx := sub (ofReal Dyad.pi.half) (asin z)

def asinh (z : Approx) : Approx :=
  if z.isReal then
    let m := log (add (ofReal z.re.abs) (sqrt (add one (mul z z))))
    if z.re.isNegative then m.neg else m
  else log (add z (sqrt (add one (mul z z))))

def acosh (z : Approx) : Approx := log (add z (mul (sqrt (sub z one)) (sqrt (add z one))))

def atanh (z : Approx) : Approx := half (sub (log (add one z)) (log (sub one z)))

/-- Newton's method for `w eʷ = z`. -/
def productLogFrom (z : Approx) : (steps : Nat) → (w : Approx) → Approx
  | 0, w => w
  | steps + 1, w =>
    let p := exp w
    let slope := mul p (add w one)
    if slope.isZero then w
    else productLogFrom z steps (sub w (div (sub (mul w p) z) slope))

/-- Where `w eʷ = z` near the branch point -1, on the side of `sign`. -/
def nearBranchPoint (sign : Rat) (z : Approx) : Approx :=
  let p := sqrt (mul (ofRat 2) (add one (mul z (exp one))))
  add (ofRat (-1)) (mul p (sub (ofRat sign) (mul p (ofRat (1 / 3)))))

/-- The principal solution `w` of `w eʷ = z`. -/
def productLog (z : Approx) : Approx :=
  if z.isZero then zero
  else
    let start :=
      if (Dyad.ofInt 3).lt z.modulus then sub (log z) (log (log z))
      else if z.re.isNegative then nearBranchPoint 1 z
      else log (add one z)
    productLogFrom z 20 start

/-- The lower real solution `w` of `w eʷ = z`, for a number between `-1/e` and 0. -/
def lowerProductLog (z : Approx) : Approx :=
  let start :=
    if z.re.lt (Dyad.ofRat (-1 / 5)) then nearBranchPoint (-1) z
    else
      let l := log z.neg
      sub l (log l.neg)
  productLogFrom z 20 start

end Approx

end Stepwise
