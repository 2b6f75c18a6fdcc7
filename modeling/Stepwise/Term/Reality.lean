import Stepwise.Polynomial.Decompose
import Stepwise.Term.Coefficients

/-!
# Real and imaginary terms

What the form of a term tells about its being real or purely imaginary: that it is, that it is not,
or nothing. A sum of real terms and one that is not real is not real; of two terms that are not
real the sum may be. Solutions are kept unless they are certainly not real.
-/

namespace Stepwise

/-- What is known about a term. -/
structure Reality where
  real : Option Bool
  /-- A real number other than zero times the imaginary unit. -/
  imaginary : Option Bool
  deriving DecidableEq, Repr

namespace Reality

def unknown : Reality := ⟨none, none⟩

def isReal : Reality := ⟨some true, some false⟩

def isImaginary : Reality := ⟨some false, some true⟩

/-- Infinite or undefined. -/
def improper : Reality := ⟨some false, some false⟩

/-- Neither real nor imaginary. -/
def neither : Reality := ⟨some false, some false⟩

/-- A sum of terms. -/
def ofSum (rs : List Reality) : Reality :=
  let others := rs.filter fun r => r.real ≠ some true
  if others.isEmpty then isReal
  else if others.any fun r => r.real.isNone then unknown
  else if rs.all fun r => r.imaginary = some true then isImaginary
  else
    match others with
    | [r] => ⟨some false, if r.imaginary = some true then some false else none⟩
    | _ => unknown

/-- Whether a product is real, where `even` tells if an even number of imaginary factors came before,
`zero` if a factor may be zero, and `mixed` if a factor was neither real nor imaginary. -/
def productIs (even : Bool) (zero : Option Bool) (mixed : Option Reality) :
    List (Reality × Signs) → Option Bool
  | [] =>
    match mixed with
    | some r =>
      if even && r.real = some false then zero
      else if !even && r.imaginary = some false then zero
      else none
    | none => if zero = some false then some even else if even then some true else none
  | (r, s) :: rest =>
    if r.imaginary = some true then productIs (!even) zero mixed rest
    else if r.real = some true then
      productIs even (if zero = some false then (if s.isNonzero then some false else none)
        else zero) mixed rest
    else if r.real = some false || r.imaginary = some false then
      if mixed.isSome then none else productIs even zero (some r) rest
    else none

/-- A product of factors, with the signs that they can have. -/
def ofProduct (rs : List (Reality × Signs)) : Reality :=
  ⟨productIs true (some false) none rs, productIs false (some false) none rs⟩

/-- A power with a rational exponent. -/
def ofPower (b : Reality) (s : Signs) (q : Rat) (angle : Option Rat) : Reality :=
  let isWhole : Bool := q.den = 1
  if b.real = some true then
    if isWhole || s.isPositive || (s.isNotNegative && 0 ≤ q) then isReal
    else if s.isNegative then ⟨some false, some (q.den = 2)⟩
    else ⟨none, none⟩
  else if b.imaginary = some true && isWhole then if q.num % 2 = 0 then isReal else isImaginary
  else if b.real = some false then
    if q.num.natAbs = 1 then ⟨some false, none⟩
    else
      match angle with
      | some a => ⟨some ((a * q).den = 1), none⟩
      | none => unknown
  else unknown

end Reality

namespace Term

/-- The angle of a complex number in multiples of π, if it is known exactly. -/
def angle? (t : Term) : Option Rat :=
  match Evaluation.planeParts? t with
  | none => none
  | some (re, im) =>
    let slope := div im re
    let left := re.signs.isNegative
    let known := Evaluation.arc? Evaluation.knownTangents
    match known slope, known slope.neg with
    | some q, _ => some (if left then q - 1 else q)
    | _, some q => some (if left then 1 - q else -q)
    | none, none => none

/-- The value of a function. -/
def realityOfCall (f : Func) (a : Term) (r : Reality) : Reality :=
  let s := a.signs
  match f with
  | .abs => .isReal
  | .log =>
    if s.isPositive then .isReal
    else if !s.positive then ⟨some false, none⟩
    else .unknown
  | .asin | .acos =>
    if r.real = some false then ⟨some false, none⟩
    else
      match (Term.sub one (pow a (ofInt 2))).approx? with
      | some z => if z.isReal then ⟨some (!z.re.isNegative), none⟩ else .unknown
      | none => .unknown
  | .lambert =>
    match (Term.add a (Term.exp negOne)).approx? with
    | some z =>
      if z.isReal then if z.re.isPositive then .isReal else ⟨some false, none⟩ else .unknown
    | none => .unknown
  | .sin | .cos | .tan | .cot | .sinh | .cosh | .tanh | .atan | .asinh | .erf | .sign | .floor
  | .ceiling => if r.real = some true then .isReal else .unknown
  | _ => .unknown

/-- Is this a sum of numbers, some of them imaginary, whose real part is certainly not zero? -/
def isShiftedImaginary (rs : List (Term × Reality)) : Bool :=
  let others := rs.filter fun r => r.2.real ≠ some true
  let reals := rs.filter fun r => r.2.real = some true
  !others.isEmpty && others.all (fun r => r.2.imaginary = some true && r.1.isClosed) &&
    match approxSum? (reals.map Prod.fst) with
    | some z => !z.isZero
    | none => false

/-- Numbered roots are real up to the number of real roots. -/
def realityOfForm (f : Form) (parts : List Term) : Reality :=
  match f, parts with
  | .lambert, [a, k] =>
    match a.approx?, (Term.add a (Term.exp negOne)).approx? with
    | some z, some w =>
      if z.isReal && k = negOne then
        if z.re.isNegative && w.re.isPositive then .isReal else ⟨some false, none⟩
      else .unknown
    | _, _ => .unknown
  | .rootOf, [t, k] =>
    match (t.symbols.head?).bind fun x => poly? x t, k.integer? with
    | some p, some n => if n < Poly.realRootCount p then .isReal else ⟨some false, none⟩
    | _, _ => .unknown
  | _, _ => .unknown

mutual

/-- What the form of a term tells about it. -/
def reality : Term → Reality
  | number _ => .isReal
  | constant .i => .isImaginary
  | constant _ => .isReal
  | symbol s => if s.domain = .complex then .unknown else .isReal
  | sum ts => if isShiftedImaginary (ts.zip (realities ts)) then .neither else .ofSum (realities ts)
  | product ts => .ofProduct ((realities ts).zip (ts.map signs))
  | power b x =>
    match x with
    | number q => .ofPower (reality b) b.signs q (angle? b)
    | x =>
      let r := reality x
      if b.signs.isPositive && r.real = some true then .isReal else .unknown
  | apply f a => realityOfCall f a (reality a)
  | form f ts => realityOfForm f ts
  | _ => .improper

/-- What the forms of several terms tell. -/
def realities : List Term → List Reality
  | [] => []
  | t :: ts => reality t :: realities ts

end

end Term

end Stepwise
