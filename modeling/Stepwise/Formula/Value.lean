import Stepwise.Algebra.Compact
import Stepwise.Calculus.Antiderivative
import Stepwise.Calculus.Limit
import Stepwise.Formula.Read
import Stepwise.Term.Expand

/-!
# The terms that formulas stand for

A formula is evaluated from its parts: the operations join terms, and callables are called. What is
no term, a bare callable or a list, can only be a whole formula or an argument: joining it fails.
-/

namespace Stepwise.Formula

/-- The value of a function of numbers. -/
def numericValue? (f : NumberFunction) (ts : List Term) : Option Term :=
  match Term.allSome Term.number? ts with
  | some qs => (f.value? qs).map Term.number
  | none => none

/-- Two terms joined by an operation, if it is defined for them. -/
def Operation.join? : Operation → Term → Term → Option Term
  | .plus, s, t => some (Term.add s t)
  | .minus, s, t => some (Term.sub s t)
  | .times, s, t => some (Term.mul s t)
  | .dividedBy, s, t => some (if s = Term.one then Term.inv t else Term.div s t)
  | .remainder, s, t => numericValue? .remainder [s, t]
  | .quotient, s, t => if t = Term.zero then none else some (Term.call .floor (Term.div s t))
  | .power, s, t => some (Term.pow s t)

/-- The symbol by which a formula without a stated variable is differentiated or integrated: its
only one. -/
def onlySymbol? (t : Term) : Option Symbol :=
  match t.symbols.eraseDups with
  | [s] => some s
  | _ => none

/-- The greatest or the least of real numbers. -/
def extreme? (greatest : Bool) : List Term → Option Term
  | [] => none
  | [t] => some t
  | t :: ts =>
    match extreme? greatest ts with
    | none => none
    | some u =>
      let d := (Term.sub t u).signs
      if !(Term.sub t u).isClosed || !d.isReal then none
      else some (if d.isPositive = greatest then t else u)

/-- The double factorial, which is not defined for fractions, even negative integers and
infinities. -/
def doubleFactorial? (t : Term) : Option Term :=
  match t with
  | .infinity _ => none
  | .undefined => none
  | .number q =>
    if q.den = 1 ∧ (0 ≤ q ∨ q.num % 2 ≠ 0) then some (.call .doubleFactorial t) else none
  | t => some (.call .doubleFactorial t)

/-- The angle of the point with the given second and first coordinate, if both are real numbers. -/
def angle? (y x : Term) : Option Term :=
  let arc := Term.call .atan (Term.div y x)
  if !(x.isClosed && y.isClosed && x.signs.isReal && y.signs.isReal) then none
  else if x.signs.isPositive then some arc
  else if x.signs.isNegative then
    some (if y.signs.isNegative then Term.sub arc Term.pi else Term.add arc Term.pi)
  else if x ≠ Term.zero then none
  else if y.signs.isPositive then some (Term.scale (1 / 2) Term.pi)
  else if y.signs.isNegative then some (Term.scale (-1 / 2) Term.pi)
  else some .undefined

/-- The complex conjugate, if the real and the imaginary part are known. -/
def conjugate? (t : Term) : Option Term :=
  if t.signs.isReal then some t
  else if t.isClosed then
    some (Term.sub (Term.call .realPart t) (Term.mul Term.i (Term.call .imaginaryPart t)))
  else none

/-- The zeta function at whole numbers where its value is known: even ones, 0 and negative ones. -/
def zeta? (t : Term) : Option Term :=
  match t.integer? with
  | some (.ofNat n) =>
    if n = 0 then some (.number (-1 / 2))
    else if n = 1 then some .complexInfinity
    else if n % 2 = 0 ∧ n ≤ 100 then
      let b := NumberFunction.bernoulliNumber n
      let factor : Rat := mkRat (2 ^ n) (2 * NumberFunction.factorial n)
      some (Term.scale ((if n % 4 = 0 then -1 else 1) * b * factor) (Term.pow Term.pi t))
    else none
  | some (.negSucc n) =>
    if n ≤ 100 then some (.number (-NumberFunction.bernoulliNumber (n + 2) / mkRat (n + 2) 1))
    else none
  | none => none

/-- The logarithmic derivative of the gamma function. -/
def digammaOf (t : Term) : Term :=
  if t = Term.one then Term.neg (.constant .eulerGamma) else .form .polygamma [Term.zero, t]

/-- The derivative by several variables, each of which may be followed by a number of times. -/
def derivatives? (t : Term) : List Term → Option Term
  | [] => some t
  | .symbol x :: .number q :: rest =>
    if q.den = 1 ∧ 0 ≤ q ∧ q ≤ 100 then
      derivatives? ((List.range q.num.toNat).foldl (fun t _ => Term.derivative x t) t) rest
    else none
  | .symbol x :: rest => derivatives? (Term.derivative x t) rest
  | _ :: _ => none

/-- A callable applied to terms, unless it cannot be. -/
def Callable.call? (c : Callable) (arguments : List Term) : Option Term :=
  match c, arguments with
  | .func .doubleFactorial, [t] => doubleFactorial? t
  | .func f, [t] => some (Term.call f t)
  | .sqrt, [t] => some (Term.sqrt t)
  | .cbrt, [t] => some (Term.pow t (.number (1 / 3)))
  | .root, [t, n] => some (Term.pow t (Term.inv n))
  | .exp, [t] => some (Term.exp t)
  | .log, [t] => some (Term.log t)
  | .log, [t, b] => some (Term.logBase t b)
  | .numeric f, ts => numericValue? f ts
  | .add, ts => some (Term.addAll ts)
  | .mul, ts => some (Term.mulAll ts)
  | .pow, [b, x] => some (Term.pow b x)
  | .ratio, [t] => some t
  | .ratio, [.number p, .number q] => some (Term.div (.number p) (.number q))
  | .derivative, [t] => (onlySymbol? t).map fun x => Term.derivative x t
  | .derivative, t :: ts => derivatives? t ts
  | .antiderivative, [t] => (onlySymbol? t).bind fun x => Calculus.antiderivative? x t
  | .antiderivative, [t, .symbol x] => Calculus.antiderivative? x t
  | .limit, [t, .symbol x, a] => Calculus.limit? x t a .above
  | .simplify, [t] => some (Algebra.compact t)
  | .factor, [t] => some (Algebra.factor t)
  | .cancel, [t] => some (Algebra.cancel t)
  | .together, [t] => some (Algebra.together (Algebra.overBar t))
  | .conjugate, [t] => conjugate? t
  | .angle, [y, x] => angle? y x
  | .realRoot, [t, .number n] =>
    some (if t.signs.isNegative && n.den = 1 && n.num % 2 = 1 then
        Term.neg (Term.pow (Term.neg t) (.number n⁻¹))
      else Term.pow t (.number n⁻¹))
  | .degrees, [t] => some (Term.mulAll [t, Term.ofInt 180, Term.inv Term.pi])
  | .radians, [t] => some (Term.mulAll [t, .number (1 / 180), Term.pi])
  | .expand, [t] => some (Term.expand t)
  | .value, [t] => some t
  | .func .lambert, [t, n] => some (if n = .zero then .call .lambert t else .form .lambert [t, n])
  | .form .derivative, [t, .symbol x] => some (.form .derivative [t, .symbol x])
  | .form .substituted, [t, .symbol x, v] => some (.form .substituted [t, .symbol x, v])
  | .form .polygamma, [n, t] =>
    some (if n = Term.zero then digammaOf t else .form .polygamma [n, t])
  | .zeta, [t] => zeta? t
  | .digamma, [t] => some (digammaOf t)
  | .form .upperGamma, [n, t] => some (.form .upperGamma [n, t])
  | .form .lowerGamma, [n, t] => some (.form .lowerGamma [n, t])
  | .greatest, ts => extreme? true ts
  | .least, ts => extreme? false ts
  | _, _ => none

mutual

/-- The term that a formula stands for, if it stands for one. -/
def value? : Formula → Option Term
  | .term t => some t
  | .callable _ => none
  | .list _ => none
  | .plus f => value? f
  | .minus f => (value? f).map Term.neg
  | .factorial f => (value? f).map (Term.call .factorial)
  | .doubleFactorial f => (value? f).bind doubleFactorial?
  | .operation op f g =>
    match value? f, value? g with
    | some s, some t => op.join? s t
    | _, _ => none
  | .call (.form .piecewise) fs => (branches? fs).map (Term.form .piecewise)
  | .call c fs => (values? fs).bind c.call?

/-- The terms that several formulas stand for. -/
def values? : List Formula → Option (List Term)
  | [] => some []
  | f :: fs =>
    match value? f, values? fs with
    | some t, some ts => some (t :: ts)
    | _, _ => none

/-- The condition that a formula stands for. -/
def condition? : Formula → Option Term
  | .callable (.form .always) => some (.form .always [])
  | .call (.form f) fs => (values? fs).map (Term.form f)
  | _ => none

/-- Branches: values with conditions. -/
def branches? : List Formula → Option (List Term)
  | [] => some []
  | .list [f, c] :: fs =>
    match value? f, condition? c, branches? fs with
    | some v, some c, some bs => some (.form .branch [v, c] :: bs)
    | _, _, _ => none
  | _ :: _ => none

end

/-- Does a formula stand for something other than a term, such as a function? -/
def isNoTerm : Formula → Bool
  | .callable _ => true
  | .list _ => true
  | _ => false

/-- The term that a text stands for. -/
def evaluate (names : Names) (t : Text) : Except Fault Term :=
  match read? names t with
  | none => .error (.unreadableFormula t)
  | some f =>
    if f.isNoTerm then .error (.notAnExpression t)
    else
      match f.value? with
      | none => .error (.unreadableFormula t)
      | some v => .ok v

end Stepwise.Formula
