import Stepwise.Text.Basic

/-!
# Terms

A term is a symbolic expression in simplified form: rational numbers, infinities, constants and
symbols, joined by sums, products, powers and functions of one argument, and a few forms of several
parts such as a choice between branches. Differences, quotients and roots are sums, products and
powers with negative or fractional numbers, and the exponential function is a power of the constant
`e`. A sum has its terms, and a product its factors, in the order in which they are written, which
for a product means that a number comes first.

Results: `same_iff`, by which equality of terms is decided, and `coefficient_number`.
-/

namespace Stepwise

/-- The named numbers. -/
inductive Constant where
  | e
  /-- The imaginary unit. -/
  | i
  | pi
  /-- The limit of the harmonic numbers less the logarithm. -/
  | eulerGamma
  /-- The alternating sum of the reciprocals of the odd squares. -/
  | catalan
  /-- The positive number whose square is larger by one. -/
  | goldenRatio
  /-- The real number whose cube is the sum of its square, itself and one. -/
  | tribonacci
  deriving DecidableEq, Repr

/-- How a constant is written. -/
def Constant.name : Constant → Text
  | e => ['E']
  | i => ['I']
  | pi => "pi".toList
  | eulerGamma => "EulerGamma".toList
  | catalan => "Catalan".toList
  | goldenRatio => "GoldenRatio".toList
  | tribonacci => "TribonacciConstant".toList

/-- The functions that terms can hold. -/
inductive Func where
  | sin | cos | tan | cot | sec | csc
  | asin | acos | atan | acot | asec | acsc
  | sinh | cosh | tanh | coth | sech | csch
  | asinh | acosh | atanh | acoth
  | log | abs | sign | floor | ceiling | factorial | doubleFactorial | gamma
  | erf | erfi | sineIntegral | cosineIntegral | expIntegral | logIntegral
  /-- The integral of the sine of `π x² / 2`. -/
  | fresnelSine
  | fresnelCosine
  /-- The inverse of `x eˣ`. -/
  | lambert
  | realPart
  | imaginaryPart
  deriving DecidableEq, Repr

/-- How a function is written. -/
def Func.name : Func → Text
  | sin => "sin".toList
  | cos => "cos".toList
  | tan => "tan".toList
  | cot => "cot".toList
  | sec => "sec".toList
  | csc => "csc".toList
  | asin => "asin".toList
  | acos => "acos".toList
  | atan => "atan".toList
  | acot => "acot".toList
  | asec => "asec".toList
  | acsc => "acsc".toList
  | sinh => "sinh".toList
  | cosh => "cosh".toList
  | tanh => "tanh".toList
  | coth => "coth".toList
  | sech => "sech".toList
  | csch => "csch".toList
  | asinh => "asinh".toList
  | acosh => "acosh".toList
  | atanh => "atanh".toList
  | acoth => "acoth".toList
  | log => "log".toList
  | abs => "Abs".toList
  | sign => "sign".toList
  | floor => "floor".toList
  | ceiling => "ceiling".toList
  | factorial => "factorial".toList
  | doubleFactorial => "factorial2".toList
  | gamma => "gamma".toList
  | erf => "erf".toList
  | erfi => "erfi".toList
  | sineIntegral => "Si".toList
  | cosineIntegral => "Ci".toList
  | expIntegral => "Ei".toList
  | logIntegral => "li".toList
  | fresnelSine => "fresnels".toList
  | fresnelCosine => "fresnelc".toList
  | lambert => "LambertW".toList
  | realPart => "re".toList
  | imaginaryPart => "im".toList

/-- The numbers that a variable stands for. -/
inductive Domain where
  | complex
  | real
  | nonnegative
  | positive
  deriving DecidableEq, Repr

/-- A variable: its name, and what it stands for. -/
structure Symbol where
  name : Text
  domain : Domain
  deriving DecidableEq, Repr

/-- What terms hold besides operations and functions of one argument. -/
inductive Form where
  /-- A derivative that stays: a term and a symbol. -/
  | derivative
  /-- A term, a symbol in it, and what is put in its place. -/
  | substituted
  /-- A choice between branches, of which the first one with a true condition counts. -/
  | piecewise
  /-- A value and its condition. -/
  | branch
  /-- The condition that two terms differ. -/
  | unequal
  /-- The condition that two terms are equal. -/
  | equal
  /-- The condition that the first term is not below the second one. -/
  | atLeast
  /-- The condition that the first term is above the second one. -/
  | above
  /-- The true condition. -/
  | always
  /-- The derivatives of the logarithm of the gamma function, with their order. -/
  | polygamma
  /-- The incomplete gamma function of large numbers. -/
  | upperGamma
  | lowerGamma
  /-- A branch of the inverse of `x eˣ`. -/
  | lambert
  /-- The root of a polynomial with a given number. -/
  | rootOf
  deriving DecidableEq, Repr

/-- How a form is written. -/
def Form.name : Form → Text
  | derivative => "Derivative".toList
  | substituted => "Subs".toList
  | piecewise => "Piecewise".toList
  | branch => []
  | unequal => "Ne".toList
  | equal => "Eq".toList
  | atLeast => ">=".toList
  | above => ">".toList
  | always => "True".toList
  | polygamma => "polygamma".toList
  | upperGamma => "uppergamma".toList
  | lowerGamma => "lowergamma".toList
  | lambert => "LambertW".toList
  | rootOf => "CRootOf".toList

/-- A symbolic expression. -/
inductive Term where
  | number (q : Rat)
  | infinity (negative : Bool)
  /-- The infinity without a direction, such as `1 / 0`. -/
  | complexInfinity
  /-- No value at all, such as `0 / 0`. -/
  | undefined
  | constant (c : Constant)
  | symbol (s : Symbol)
  | sum (terms : List Term)
  | product (factors : List Term)
  | power (base exponent : Term)
  | apply (f : Func) (argument : Term)
  | form (head : Form) (parts : List Term)

namespace Term

mutual

/-- Are two terms equal? -/
def same : Term → Term → Bool
  | number p, number q => p = q
  | infinity m, infinity n => m = n
  | complexInfinity, complexInfinity => true
  | undefined, undefined => true
  | constant c, constant d => c = d
  | symbol s, symbol t => s = t
  | sum ss, sum ts => sameAll ss ts
  | product ss, product ts => sameAll ss ts
  | power a b, power c d => same a c && same b d
  | apply f a, apply g b => f = g && same a b
  | form f ss, form g ts => f = g && sameAll ss ts
  | _, _ => false

/-- Are two lists of terms equal, one by one? -/
def sameAll : List Term → List Term → Bool
  | [], [] => true
  | s :: ss, t :: ts => same s t && sameAll ss ts
  | _, _ => false

end

mutual

theorem same_iff (s t : Term) : same s t = true ↔ s = t := by
  cases s <;> cases t <;> simp [same, sameAll_iff, same_iff]

theorem sameAll_iff (ss ts : List Term) : sameAll ss ts = true ↔ ss = ts := by
  cases ss <;> cases ts <;> simp [sameAll, sameAll_iff, same_iff]

end

instance : DecidableEq Term := fun s t => decidable_of_iff _ (same_iff s t)

def zero : Term := number 0

def one : Term := number 1

def negOne : Term := number (-1)

def half : Term := number (1 / 2)

def ofInt (n : Int) : Term := number n

def e : Term := constant .e

def i : Term := constant .i

def pi : Term := constant .pi

/-- The rational number that the term is, if it is one. -/
def number? : Term → Option Rat
  | number q => some q
  | _ => none

/-- The integer that the term is, if it is one. -/
def integer? : Term → Option Int
  | number q => if q.den = 1 then some q.num else none
  | _ => none

/-- The terms of a sum; any other term is its own single term. -/
def terms : Term → List Term
  | sum ts => ts
  | t => [t]

/-- The factors of a product; any other term is its own single factor. -/
def factors : Term → List Term
  | product ts => ts
  | t => [t]

/-- The sum of terms that are in order already. -/
def ofTerms : List Term → Term
  | [] => zero
  | [t] => t
  | ts => sum ts

/-- The product of factors that are in order already. -/
def ofFactors : List Term → Term
  | [] => one
  | [t] => t
  | ts => product ts

/-- The rational factor in front of a term, and what it multiplies. -/
def coefficient : Term → Rat × Term
  | number q => (q, one)
  | product (number q :: ts) => (q, ofFactors ts)
  | t => (1, t)

/-- `c` times a term without a rational factor in front. -/
def scaled (c : Rat) (t : Term) : Term :=
  if c = 0 then zero
  else if c = 1 then t
  else
    match t with
    | number q => number (c * q)
    | product ts => product (number c :: ts)
    | t => product [number c, t]

/-- The base and the exponent of a term. A rational base below 1 is turned upside down. -/
def baseExponent : Term → Term × Term
  | power (number q) x =>
    if 0 < q ∧ q < 1 then
      match coefficient x with
      | (c, r) => (number q⁻¹, scaled (-c) r)
    else (number q, x)
  | power b x => (b, x)
  | t => (t, one)

mutual

/-- Does the test hold for some part of the term? -/
def any (p : Term → Bool) (t : Term) : Bool :=
  p t || match t with
    | sum ts => anyOf p ts
    | product ts => anyOf p ts
    | power b x => any p b || any p x
    | apply _ a => any p a
    | form _ ts => anyOf p ts
    | _ => false

/-- Does the test hold for some part of one of the terms? -/
def anyOf (p : Term → Bool) : List Term → Bool
  | [] => false
  | t :: ts => any p t || anyOf p ts

end

mutual

/-- The symbols in a term, in order of occurrence. -/
def symbols : Term → List Symbol
  | symbol s => [s]
  | sum ts => symbolsOf ts
  | product ts => symbolsOf ts
  | power b x => symbols b ++ symbols x
  | apply _ a => symbols a
  | form _ ts => symbolsOf ts
  | _ => []

/-- The symbols in several terms. -/
def symbolsOf : List Term → List Symbol
  | [] => []
  | t :: ts => symbols t ++ symbolsOf ts

end

/-- Does the symbol occur in the term? -/
def mentions (s : Symbol) (t : Term) : Bool := t.any (· = symbol s)

/-- Is the term free of symbols? -/
def isClosed (t : Term) : Bool := !t.any fun
  | symbol _ => true
  | _ => false

/-- Does an infinity or something undefined occur in the term? -/
def isImproper (t : Term) : Bool := t.any fun
  | infinity _ => true
  | complexInfinity => true
  | undefined => true
  | _ => false

mutual

/-- The number of parts of a term, a measure of its size. -/
def size : Term → Nat
  | sum ts => sizeOf ts + 1
  | product ts => sizeOf ts + 1
  | power b x => size b + size x + 1
  | apply _ a => size a + 1
  | form _ ts => sizeOf ts + 1
  | _ => 1

/-- The number of parts of several terms. -/
def sizeOf : List Term → Nat
  | [] => 0
  | t :: ts => size t + sizeOf ts

end

theorem coefficient_number (q : Rat) : (number q).coefficient = (q, one) := rfl

end Term

end Stepwise
