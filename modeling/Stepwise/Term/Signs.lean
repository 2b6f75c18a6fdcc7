import Stepwise.Term.Approximate

/-!
# The signs that terms can have

For every term an upper bound of the signs of its values is computed: negative, zero, positive, or
no real number at all. Terms without symbols have the sign of their approximate value; the others
are bounded part by part, where a real symbol may have any sign and any other symbol may be
anything.
-/

namespace Stepwise

/-- The signs that are possible. -/
structure Signs where
  negative : Bool
  zero : Bool
  positive : Bool
  /-- Perhaps no real number. -/
  nonreal : Bool
  deriving DecidableEq, Repr

namespace Signs

def any : Signs := ⟨true, true, true, true⟩

def anyReal : Signs := ⟨true, true, true, false⟩

def onlyNegative : Signs := ⟨true, false, false, false⟩

def onlyZero : Signs := ⟨false, true, false, false⟩

def onlyPositive : Signs := ⟨false, false, true, false⟩

def onlyNonreal : Signs := ⟨false, false, false, true⟩

def notNegative : Signs := ⟨false, true, true, false⟩

/-- The signs of the numbers that a symbol stands for. -/
def ofDomain : Domain → Signs
  | .complex => any
  | .real => anyReal
  | .nonnegative => notNegative
  | .positive => onlyPositive

def ofRat (q : Rat) : Signs :=
  if q < 0 then onlyNegative else if q = 0 then onlyZero else onlyPositive

def ofApprox (z : Approx) : Signs :=
  if !z.isReal then onlyNonreal
  else if z.re.isNegative then onlyNegative
  else if z.re.isZero then onlyZero
  else onlyPositive

/-- Certainly a real number? -/
def isReal (s : Signs) : Bool := !s.nonreal

def isPositive (s : Signs) : Bool := !s.negative && !s.zero && !s.nonreal

def isNegative (s : Signs) : Bool := !s.positive && !s.zero && !s.nonreal

def isNotNegative (s : Signs) : Bool := !s.negative && !s.nonreal

/-- Certainly not zero? -/
def isNonzero (s : Signs) : Bool := !s.zero

/-- The signs of sums. -/
def add (s t : Signs) : Signs :=
  if s.nonreal || t.nonreal then
    if s = onlyZero then t else if t = onlyZero then s else any
  else
    ⟨s.negative || t.negative,
      (s.zero && t.zero) || (s.positive && t.negative) || (s.negative && t.positive),
      s.positive || t.positive, false⟩

/-- The signs of products. -/
def mul (s t : Signs) : Signs :=
  if s.nonreal || t.nonreal then any
  else
    ⟨(s.negative && t.positive) || (s.positive && t.negative), s.zero || t.zero,
      (s.positive && t.positive) || (s.negative && t.negative), false⟩

/-- The signs of powers with the rational exponent `q`. -/
def powRat (s : Signs) (q : Rat) : Signs :=
  if q = 0 then onlyPositive
  else if s.nonreal then any
  else if q < 0 && s.zero then any
  else if q.den = 1 then
    if q.num % 2 = 0 then ⟨false, s.zero, s.positive || s.negative, false⟩ else s
  else ⟨false, s.zero, s.positive, s.negative⟩

/-- The signs of powers with exponents of the signs `t`. -/
def pow (s t : Signs) : Signs :=
  if s.isPositive && t.isReal then onlyPositive else any

/-- The signs of the values of a function. -/
def apply (f : Func) (s : Signs) : Signs :=
  match f with
  | .abs => ⟨false, s.zero, s.positive || s.negative || s.nonreal, false⟩
  | .cosh => if s.isReal then onlyPositive else any
  | .sin | .cos | .floor | .ceiling => if s.isReal then anyReal else any
  | .sign | .sinh | .tanh | .atan | .asinh | .erf => if s.isReal then s else any
  | .log => if s.isPositive then anyReal else any
  | _ => any

end Signs

namespace Term

mutual

/-- An upper bound of the signs of a term's values. -/
def signs : Term → Signs
  | number q => .ofRat q
  | constant .i => .onlyNonreal
  | constant _ => .onlyPositive
  | symbol s => .ofDomain s.domain
  | sum ts =>
    match approxSum? ts with
    | some z => .ofApprox z
    | none => signsOfSum ts
  | product ts =>
    match approxProduct? ts with
    | some z => .ofApprox z
    | none => signsOfProduct ts
  | power b x =>
    match approx? (power b x) with
    | some z => .ofApprox z
    | none =>
      match x with
      | number q => (signs b).powRat q
      | x => (signs b).pow (signs x)
  | apply f a =>
    match approx? (apply f a) with
    | some z => .ofApprox z
    | none => (signs a).apply f
  | _ => .any

/-- The signs of a sum of terms. -/
def signsOfSum : List Term → Signs
  | [] => .onlyZero
  | t :: ts => (signs t).add (signsOfSum ts)

/-- The signs of a product of factors. -/
def signsOfProduct : List Term → Signs
  | [] => .onlyPositive
  | t :: ts => (signs t).mul (signsOfProduct ts)

end

end Term

end Stepwise
