import Stepwise.Calculus.Derivative
import Stepwise.Calculus.Scale
import Stepwise.Term.Coefficients
import Stepwise.Term.Text

/-!
# Limits

Where a variable approaches a point from one side, it is the point plus or minus a small positive
`t`, or for the infinities plus or minus `1 / t`. A term is expanded into a series of scales of `t`,
part by part, and its limit is read off the dominating scale. Whatever cancels is expanded again
with more terms.

A sine or cosine without a limit stands for an interval of values; it is carried along as a bounded
unknown.
-/

namespace Stepwise.Calculus

open Term

/-- How a variable tends to a point. -/
inductive Side where
  | above
  | below
  deriving DecidableEq, Repr

namespace Expansion

/-- The bounded unknowns that stand for oscillating functions. -/
def oscillating (f : Func) : Symbol := ⟨'_' :: f.name, .real⟩

/-- Is this a bounded unknown? -/
def isOscillating (s : Symbol) : Bool := s = oscillating .sin || s = oscillating .cos

/-- The coefficients of `(1 + ε) ^ r` from the `k`-th on, of which the first is `c`. -/
def binomials (r : Term) : (count k : Nat) → (c : Term) → List Term
  | 0, _, _ => []
  | count + 1, k, c =>
    c :: binomials r count (k + 1)
      (Term.expand (mulAll [c, sub r (ofInt k), number (mkRat 1 (k + 1))]))

/-- The coefficients of the exponential series. -/
def exponentials (count : Nat) : List Term :=
  (List.range count).map fun k => number (mkRat 1 (Evaluation.factorialOf k))

/-- The coefficients of `log (1 + ε)`. -/
def logarithms (count : Nat) : List Term :=
  (List.range count).map fun k =>
    if k = 0 then zero else number (mkRat (if k % 2 = 0 then -1 else 1) k)

/-- A symbol for the place of a derivative. -/
def place : Symbol := ⟨['_', 'y'], .complex⟩

/-- The terms of a function's Taylor series at `c`, from its `k`-th derivative `d` on. -/
def taylorFrom (c : Term) : (count k : Nat) → (d : Term) → List Term
  | 0, _, _ => []
  | count + 1, k, d =>
    scale (mkRat 1 (Evaluation.factorialOf k)) (substitute place c d) ::
      taylorFrom c count (k + 1) (Term.derivative place d)

/-- The coefficients of the Taylor series of a function at `c`. -/
def taylor (f : Func) (c : Term) (count : Nat) : List Term :=
  taylorFrom c count 0 (apply f (symbol place))

variable (order : Nat)

/-- A power of a series with an exponent that does not depend on `t`. -/
def power? (r : Term) (a : Series) : Option Series :=
  match a.lead? with
  | none =>
    match a.rest, r with
    | none, number q => if 0 < q then some ⟨[], none⟩ else none
    | some s, number q => if 0 < q then (s.pow? q).map fun u => ⟨[], some u⟩ else none
    | _, _ => none
  | some (c, s, ε) =>
    let scale : Option Scale := match r with
      | number q => s.pow? q
      | _ => if s.growth = .eq then some .one else none
    if ε.isResolved then
      scale.map fun u =>
        (Series.compose order ε (binomials r (order + 1) 0 one)).shift (Term.expand (pow c r)) u
    else none

def inverse? (a : Series) : Option Series := power? order negOne a

/-- The exponential of a series. -/
def exp? (a : Series) : Option Series :=
  if !a.isResolved then none
  else
    let (huge, c, ε) := a.split
    let isPlain (p : Term × Scale) : Bool :=
      p.2.exponent.isEmpty && p.1.isClosed && p.1.signs.isReal && !isZeroCoefficient p.1
    if !huge.all isPlain then none
    else
      let scale := huge.foldr (fun (c, s) (u : Scale) =>
        match c with
        | number q =>
          if s.power = 0 ∧ s.logs = 1 ∧ s.logLogs = 0 then { u with power := u.power - q }
          else if s.power = 0 ∧ s.logs = 0 ∧ s.logLogs = 1 ∧ q.den = 1 then
            { u with logs := u.logs + q.num }
          else { u with exponent := Scale.insertExponent ⟨c, s.power, s.logs, s.logLogs⟩ u.exponent }
        | c =>
          { u with exponent := Scale.insertExponent ⟨c, s.power, s.logs, s.logLogs⟩ u.exponent }) .one
      some ((Series.compose order ε (exponentials (order + 1))).shift (Term.exp c) scale)

/-- The logarithm of a series. -/
def log? (a : Series) : Option Series :=
  match a.lead? with
  | none => none
  | some (c, s, ε) =>
    if s.logLogs ≠ 0 || !ε.isResolved then none
    else
      let ofScale :=
        s.exponent.map (fun e => (e.coefficient, Scale.mk [] e.power e.logs e.logLogs)) ++
        (if s.power = 0 then [] else [(number (-s.power), Scale.logarithmic)]) ++
        if s.logs = 0 then [] else [(ofInt s.logs, Scale.doublyLogarithmic)]
      some (Series.add order (Series.ofTerms order ofScale none)
        (Series.add order (Series.ofConstant (Term.log c))
          (Series.compose order ε (logarithms (order + 1)))))

/-- The sign of a series that is real near the point. -/
def sign? (a : Series) : Option Rat :=
  match a.terms with
  | (c, _) :: _ =>
    if c.signs.isPositive then some 1 else if c.signs.isNegative then some (-1) else none
  | [] => none

/-- A function of a series with a finite limit, by the function's derivatives there. -/
def analytic? (f : Func) (a : Series) : Option Series :=
  if !a.isResolved then none
  else
    match a.split with
    | ([], c, ε) =>
      let cs := taylor f c (order + 1)
      if cs.any isImproper then
        let value := call f c
        if value.isImproper then none
        else
          -- The value alone, up to something small.
          some ⟨(Series.ofConstant value).terms, ε.bound.bind fun s => s.pow? (1 / 2)⟩
      else some (Series.compose order ε cs)
    | _ => none

/-- A sine or cosine. -/
def wave? (f : Func) (a : Series) : Option Series :=
  if !a.isResolved then none
  else
    match a.split with
    | ([], _, _) => analytic? order f a
    | (huge, _, _) =>
      if huge.all fun p => p.1.signs.isReal then
        some (Series.ofConstant (symbol (oscillating f)))
      else none

/-- The quotient of two series. -/
def quotient? (a b : Option Series) : Option Series :=
  match a, b.bind (inverse? order) with
  | some a, some b => some (Series.mul order a b)
  | _, _ => none

/-- Half the sum of `e ^ a` and `sign · e ^ (-a)`. -/
def hyperbolic? (sign : Rat) (a : Series) : Option Series :=
  match exp? order a, exp? order a.neg with
  | some p, some q =>
    some (Series.add order (p.shift half .one) (q.shift (number (sign / 2)) .one))
  | _, _ => none

/-- A function that tends to `±limit` where its argument grows, and otherwise has derivatives. -/
def bounded? (f : Func) (limit : Term) (remainder : Series → Option Series) (a : Series) :
    Option Series :=
  if !a.isResolved then none
  else
    match a.split with
    | ([], _, _) => analytic? order f a
    | _ =>
      match sign? a, remainder a with
      | some s, some r => some (Series.add order (Series.ofConstant (scale s limit)) r)
      | _, _ => none

/-- A function that takes whole values only. -/
def whole? (f : Func) (a : Series) : Option Series :=
  if !a.isResolved then none
  else
    match a.split with
    | ([], c, ε) =>
      match c.integer? with
      | none =>
        match call f c with
        | number q => some (Series.ofConstant (number q))
        | _ => none
      | some n =>
        if ε.terms.isEmpty then some (Series.ofConstant c)
        else
          (sign? ε).map fun s =>
            Series.ofConstant (ofInt (if f = .floor then if s < 0 then n - 1 else n
              else if 0 < s then n + 1 else n))
    | _ => none

/-- The factorial of something that grows beyond all bounds, by Stirling's series. -/
def stirling? (a : Series) : Option Series :=
  match log? order a, inverse? order a, power? order (ofInt (-3)) a with
  | some l, some b, some c =>
    let main := Series.add order (Series.mul order a l) a.neg
    let root := Series.add order (l.shift half .one)
      (.ofConstant (scale (1 / 2) (Term.log (scale 2 Term.pi))))
    let correction := Series.add order (b.shift (number (1 / 12)) .one)
      (c.shift (number (-1 / 360)) .one)
    let known : Series := Series.add order main (Series.add order root correction)
    -- What is left out is of the fifth order.
    let rest := (b.bound.bind fun s => s.pow? 5)
    exp? order (Series.add order known ⟨[], rest⟩)
  | _, _, _ => none

/-- The factorial of a series with a finite limit; near its poles, by the factorials of larger
numbers. The derivatives are long, so few terms are taken. -/
def factorialNear? : (steps : Nat) → Series → Option Series
  | 0, _ => none
  | steps + 1, a =>
    let next := Series.add order a (.ofConstant Term.one)
    match a.split.2.1.integer? with
    | some n =>
      if n < 0 then
        match factorialNear? steps next, inverse? order next with
        | some b, some c => some (Series.mul order b c)
        | _, _ => none
      else analytic? 3 .factorial a
    | none => analytic? 3 .factorial a

/-- A factorial. -/
def factorial? (a : Series) : Option Series :=
  if !a.isResolved then none
  else
    match a.split, sign? a with
    | ([], _, _), _ => factorialNear? order 20 a
    | _, some 1 => stirling? order a
    | _, _ => none

/-- A function of a series. -/
def call? (f : Func) (a : Series) : Option Series :=
  match f with
  | .log => log? order a
  | .sin => wave? order .sin a
  | .cos => wave? order .cos a
  | .tan => quotient? order (wave? order .sin a) (wave? order .cos a)
  | .cot => quotient? order (wave? order .cos a) (wave? order .sin a)
  | .sec => (wave? order .cos a).bind (inverse? order)
  | .csc => (wave? order .sin a).bind (inverse? order)
  | .sinh => hyperbolic? order (-1) a
  | .cosh => hyperbolic? order 1 a
  | .tanh => quotient? order (hyperbolic? order (-1) a) (hyperbolic? order 1 a)
  | .coth => quotient? order (hyperbolic? order 1 a) (hyperbolic? order (-1) a)
  | .sech => (hyperbolic? order 1 a).bind (inverse? order)
  | .csch => (hyperbolic? order (-1) a).bind (inverse? order)
  | .atan =>
    bounded? order .atan (scale (1 / 2) Term.pi)
      (fun a => (inverse? order a).bind fun b => (analytic? order .atan b).map Series.neg) a
  | .acot =>
    bounded? order .acot zero (fun a => (inverse? order a).bind (analytic? order .atan)) a
  | .erf => bounded? order .erf Term.one (fun _ => some ⟨[], none⟩) a
  | .asinh =>
    match analytic? order .asinh a with
    | some b => some b
    | none =>
      (power? order half (Series.add order (Series.mul order a a) (.ofConstant Term.one))).bind
        fun r => log? order (Series.add order a r)
  | .abs => (sign? a).map fun s => a.shift (number s) .one
  | .sign => (sign? a).map fun s => Series.ofConstant (number s)
  | .factorial => factorial? order a
  | .gamma => factorial? order (Series.add order a (.ofConstant negOne))
  | .floor => whole? .floor a
  | .ceiling => whole? .ceiling a
  | f => analytic? order f a

/-- A power where base and exponent may both depend on `t`. -/
def generalPower? (a b : Series) : Option Series :=
  (log? order a).bind fun l => exp? order (Series.mul order b l)

mutual

/-- The series of a term where the variable is the series `v`. -/
def series? (x : Symbol) (v : Series) : Term → Option Series
  | number q => some (.ofConstant (number q))
  | constant c => some (.ofConstant (constant c))
  | symbol s => if s = x then some v else some (.ofConstant (symbol s))
  | sum ts => sum? x v ts
  | product ts => product? x v ts
  | power (constant .e) y => (series? x v y).bind (exp? order)
  | power b y =>
    if y.mentions x then
      match series? x v b, series? x v y with
      | some a, some c => generalPower? order a c
      | _, _ => none
    else (series? x v b).bind (power? order y)
  | apply f a => (series? x v a).bind (call? order f)
  | _ => none

/-- The series of a sum. -/
def sum? (x : Symbol) (v : Series) : List Term → Option Series
  | [] => some ⟨[], none⟩
  | t :: ts =>
    match series? x v t, sum? x v ts with
    | some a, some b => some (Series.add order a b)
    | _, _ => none

/-- The series of a product. -/
def product? (x : Symbol) (v : Series) : List Term → Option Series
  | [] => some (.ofConstant Term.one)
  | t :: ts =>
    match series? x v t, product? x v ts with
    | some a, some b => some (Series.mul order a b)
    | _, _ => none

end

end Expansion

/-- The variable where it approaches a point from one side. -/
def approaching (target : Term) (side : Side) : Series :=
  let direction := if side = .above then Term.one else negOne
  match target with
  | infinity negative => ⟨[(if negative then negOne else Term.one, .reciprocal)], none⟩
  | a => Series.add 2 (.ofConstant a) ⟨[(direction, Scale.reciprocal.inv)], none⟩

/-- A symbol that is written as an interval of values. -/
def interval (low high : Term) : Term :=
  symbol ⟨"AccumBounds(".toList ++ low.text ++ ", ".toList ++ high.text ++ ")".toList, .real⟩

/-- The limit of something finite: a constant, or an interval if it oscillates. -/
def finiteLimit? (c : Term) : Option Term :=
  let unknowns := c.symbols.eraseDups.filter Expansion.isOscillating
  if unknowns.isEmpty then some c
  else
    let middle := unknowns.foldl (fun c s => substitute s zero c) c
    (allSome (fun s =>
      match coefficients? s c with
      | some [_, k] => if k.isClosed then some (abs k) else none
      | _ => none) unknowns).map fun widths =>
        let width := addAll widths
        interval (sub middle width) (add middle width)

/-- The limit of something that grows beyond all bounds. -/
def infiniteLimit (c : Term) : Term :=
  if c.symbols.any Expansion.isOscillating then interval (infinity true) (infinity false)
  else if c.signs.isReal || c.isClosed then Term.mul c (infinity false)
  else Term.mul (call .sign c) (infinity false)

/-- The limit of a series, if it is known with enough terms. -/
def Series.limit? (a : Series) : Option Term :=
  match a.terms with
  | (c, s) :: _ =>
    match s.growth with
    | .lt => some zero
    | .eq => finiteLimit? c
    | .gt => some (infiniteLimit c)
  | [] => if a.isResolved then some zero else none

/-- How many terms are tried, one after the other. -/
def orders : List Nat := [6, 12, 24]

/-- The limit of a term where the variable approaches a point from one side, if it is found. -/
def limit? (x : Symbol) (t target : Term) (side : Side) : Option Term :=
  if t = symbol x then some target
  else if !t.mentions x then some t
  else if t.isImproper then none
  else
    orders.findSome? fun order =>
      (Expansion.series? order x (approaching target side) t).bind Series.limit?

end Stepwise.Calculus
