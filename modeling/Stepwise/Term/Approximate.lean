import Stepwise.Number.Approx
import Stepwise.Term.Basic

/-!
# The numbers that terms stand for

`approx?` is the approximate value of a term without symbols: a complex number, or nothing if the
term is infinite, undefined or beyond the functions whose values are known here. From it come the
sign and the reality of closed terms.
-/

namespace Stepwise

/-- The value of a function, where it is known how to approximate it. -/
def Func.approx? (f : Func) (z : Approx) : Option Approx :=
  let inverse (w : Approx) : Option Approx := if w.isZero then none else some (Approx.div .one w)
  match f with
  | .sin => some z.sin
  | .cos => some z.cos
  | .tan => some z.tan
  | .cot => inverse z.tan
  | .sec => inverse z.cos
  | .csc => inverse z.sin
  | .asin => some z.asin
  | .acos => some z.acos
  | .atan => some z.atan
  | .acot => (inverse z).map Approx.atan
  | .asec => (inverse z).map Approx.acos
  | .acsc => (inverse z).map Approx.asin
  | .sinh => some z.sinh
  | .cosh => some z.cosh
  | .tanh => some z.tanh
  | .coth => inverse z.tanh
  | .sech => inverse z.cosh
  | .csch => inverse z.sinh
  | .asinh => some z.asinh
  | .acosh => some z.acosh
  | .atanh => some z.atanh
  | .acoth => (inverse z).map Approx.atanh
  | .log => if z.isZero then none else some z.log
  | .abs => some (.ofReal z.modulus)
  | .sign => if z.isZero then some .zero else some (z.div (.ofReal z.modulus))
  | .floor => if z.isReal then some (.ofReal (.ofInt z.re.floor)) else none
  | .ceiling => if z.isReal then some (.ofReal (.ofInt (-z.re.neg.floor))) else none
  | .lambert => some z.productLog
  | .realPart => some (.ofReal z.re)
  | .imaginaryPart => some (.ofReal z.im)
  | _ => none

/-- The value of a written form, where it is known how to approximate it. -/
def Form.approx? (f : Form) (zs : List (Option Approx)) : Option Approx :=
  match f, zs with
  | .lambert, [some z, some k] =>
    let belowBranch : Bool := (z.add (Approx.exp (.ofRat (-1)))).re.isNegative
    if k = .ofRat (-1) && z.isReal && z.re.isNegative && !belowBranch then some z.lowerProductLog
    else none
  | _, _ => none

/-- The first hundred decimal places. -/
def Constant.eulerGammaDigits : Int :=
  5772156649015328606065120900824024310421593359399235988057672348848677267776646709369470632917467495

/-- The first hundred decimal places. -/
def Constant.catalanDigits : Int :=
  9159655941772190150546035149323841107741493742816721342664981196217630197762547693565129261151062485

/-- The first hundred decimal digits. -/
def Constant.tribonacciDigits : Int :=
  1839286755214161132551852564653286600424178746097592246778758639404203222081966425738435419428307014

open Approx in
/-- The value of a constant. -/
def Constant.approx : Constant → Approx
  | .e => .ofReal (Dyad.exp .one)
  | .i => .i
  | .pi => .ofReal Dyad.pi
  | .goldenRatio => half (add .one (sqrt (.ofRat 5)))
  | .eulerGamma => .ofRat (mkRat eulerGammaDigits (10 ^ (100 : Nat)))
  | .catalan => .ofRat (mkRat catalanDigits (10 ^ (100 : Nat)))
  | .tribonacci => .ofRat (mkRat tribonacciDigits (10 ^ (99 : Nat)))

namespace Term

mutual

/-- The approximate value of a term whose symbols have the values `place`. -/
def valueAt? (place : Symbol → Option Approx) : Term → Option Approx
  | number q => some (.ofRat q)
  | constant c => some c.approx
  | symbol s => place s
  | sum ts => sumAt? place ts
  | product ts => productAt? place ts
  | power (constant .e) x => (valueAt? place x).map Approx.exp
  | power b x =>
    match valueAt? place b, valueAt? place x with
    | some z, some w => if z.isZero && !w.re.isPositive then none else some (z.pow w)
    | _, _ => none
  | apply f a =>
    match valueAt? place a with
    | some z => f.approx? z
    | none => none
  | form f ts => f.approx? (valuesAt? place ts)
  | _ => none

/-- The approximate values of several terms. -/
def valuesAt? (place : Symbol → Option Approx) : List Term → List (Option Approx)
  | [] => []
  | t :: ts => valueAt? place t :: valuesAt? place ts

/-- The approximate sum of terms. -/
def sumAt? (place : Symbol → Option Approx) : List Term → Option Approx
  | [] => some .zero
  | t :: ts =>
    match valueAt? place t, sumAt? place ts with
    | some z, some w => some (z.add w)
    | _, _ => none

/-- The approximate product of factors. -/
def productAt? (place : Symbol → Option Approx) : List Term → Option Approx
  | [] => some .one
  | t :: ts =>
    match valueAt? place t, productAt? place ts with
    | some z, some w => some (z.mul w)
    | _, _ => none

end

/-- The approximate value of a term without symbols. -/
def approx? (t : Term) : Option Approx := valueAt? (fun _ => none) t

/-- The approximate sum of terms without symbols. -/
def approxSum? (ts : List Term) : Option Approx := sumAt? (fun _ => none) ts

/-- The approximate product of factors without symbols. -/
def approxProduct? (ts : List Term) : Option Approx := productAt? (fun _ => none) ts

end Term

end Stepwise
