import Stepwise.Term.Function

/-!
# Derivatives

`derivative x t` is the derivative of a term by a symbol: sums term by term, products by the product
rule, powers by `(bᵉ)′ = bᵉ (e′ log b + b′ e / b)` and functions by the chain rule. The factors of
each term of the product rule are multiplied from left to right.
-/

namespace Stepwise

/-- The derivative of a function at a term, if there is a formula for it. -/
def Func.derivative? (f : Func) (t : Term) : Option Term :=
  let square (u : Term) : Term := Term.pow u (Term.ofInt 2)
  let reciprocalRoot (u : Term) : Term := Term.pow u (.number (-1 / 2))
  match f with
  | .sin => some (Term.call .cos t)
  | .cos => some (Term.neg (Term.call .sin t))
  | .tan => some (Term.add (square (Term.call .tan t)) Term.one)
  | .cot => some (Term.sub (Term.neg (square (Term.call .cot t))) Term.one)
  | .sec => some (Term.mul (Term.call .tan t) (Term.call .sec t))
  | .csc => some (Term.neg (Term.mul (Term.call .cot t) (Term.call .csc t)))
  | .asin => some (reciprocalRoot (Term.sub Term.one (square t)))
  | .acos => some (Term.neg (reciprocalRoot (Term.sub Term.one (square t))))
  | .atan => some (Term.inv (Term.add Term.one (square t)))
  | .acot => some (Term.neg (Term.inv (Term.add Term.one (square t))))
  | .asec =>
    some (Term.inv (Term.mul (square t) (Term.sqrt (Term.sub Term.one (Term.inv (square t))))))
  | .acsc =>
    some (Term.neg
      (Term.inv (Term.mul (square t) (Term.sqrt (Term.sub Term.one (Term.inv (square t)))))))
  | .sinh => some (Term.call .cosh t)
  | .cosh => some (Term.call .sinh t)
  | .tanh => some (Term.sub Term.one (square (Term.call .tanh t)))
  | .coth => some (Term.neg (Term.inv (square (Term.call .sinh t))))
  | .sech => some (Term.neg (Term.mul (Term.call .tanh t) (Term.call .sech t)))
  | .csch => some (Term.neg (Term.mul (Term.call .coth t) (Term.call .csch t)))
  | .asinh => some (reciprocalRoot (Term.add (square t) Term.one))
  | .acosh =>
    some (Term.mul (reciprocalRoot (Term.sub t Term.one)) (reciprocalRoot (Term.add t Term.one)))
  | .atanh | .acoth => some (Term.inv (Term.sub Term.one (square t)))
  | .log => some (Term.inv t)
  | .erf =>
    some (Term.mulAll [Term.ofInt 2, Term.exp (Term.neg (square t)), Term.inv (Term.sqrt .pi)])
  | .erfi => some (Term.mulAll [Term.ofInt 2, Term.exp (square t), Term.inv (Term.sqrt .pi)])
  | .sineIntegral => some (Term.div (Term.call .sin t) t)
  | .cosineIntegral => some (Term.div (Term.call .cos t) t)
  | .expIntegral => some (Term.div (Term.exp t) t)
  | .logIntegral => some (Term.inv (Term.log t))
  | .fresnelSine => some (Term.call .sin (Term.mulAll [Term.half, .pi, square t]))
  | .fresnelCosine => some (Term.call .cos (Term.mulAll [Term.half, .pi, square t]))
  | .lambert =>
    let w := Term.call .lambert t
    some (Term.div w (Term.mul t (Term.add w Term.one)))
  | .gamma => some (Term.mul (Term.call .gamma t) (.form .polygamma [Term.zero, t]))
  | .factorial =>
    let u := Term.add t Term.one
    some (Term.mul (Term.call .gamma u) (.form .polygamma [Term.zero, u]))
  | .sign | .abs | .realPart | .imaginaryPart | .floor | .ceiling | .doubleFactorial => none

namespace Term

/-- The product of terms, multiplied from left to right. -/
def mulInOrder (ts : List Term) : Term := ts.foldl mul one

/-- The symbol in whose place an argument is put. -/
def argumentSymbol : Symbol := ⟨"_xi_1".toList, .complex⟩

/-- The derivative of a function by its argument, which stays as it is. -/
def openDerivative (f : Func) (a : Term) : Term :=
  match a with
  | symbol s => form .derivative [apply f a, symbol s]
  | a =>
    let s := symbol argumentSymbol
    form .substituted [form .derivative [apply f s, s], s, a]

/-- The derivative of a real or an imaginary part, term by term: numbers come out. -/
def partDerivative (x : Symbol) (t : Term) : Term :=
  addAll (t.terms.map fun u =>
    let (c, v) := u.coefficient
    if v.mentions x then scale c (form .derivative [v, symbol x]) else zero)

/-- The derivative of an absolute value of a term whose derivative is `da`. -/
def absDerivative (x : Symbol) (a da : Term) : Term :=
  if a.signs.isReal then mul (call .sign a) da
  else
    let re := call .realPart a
    let im := call .imaginaryPart a
    mulAll [add (mul re (partDerivative x re)) (mul im (partDerivative x im)), call .sign a, inv a]

/-- The derivative of a function's value, where `da` is the derivative of the argument. -/
def callDerivative (x : Symbol) (f : Func) (a da : Term) : Term :=
  if da = zero then zero
  else
    match f.derivative? a with
    | some d => mul d da
    | none =>
      match f with
      | .abs => absDerivative x a da
      | .sign | .realPart | .imaginaryPart => form .derivative [apply f a, symbol x]
      | f => mul (openDerivative f a) da

mutual

/-- The derivative of a term by a symbol. -/
def derivative (x : Symbol) : Term → Term
  | symbol s => if s = x then one else zero
  | sum ts => addAll (derivatives x ts)
  | product ts => addAll (productRule x [] ts)
  | power b y =>
    let db := derivative x b
    let dy := derivative x y
    match b with
    | constant .e => mul (power b y) dy
    | b => mul (power b y) (add (mul dy (log b)) (div (mul db y) b))
  | apply f a => callDerivative x f a (derivative x a)
  | form f ts =>
    if (form f ts).mentions x then form .derivative [form f ts, symbol x] else zero
  | _ => zero

/-- The derivatives of several terms. -/
def derivatives (x : Symbol) : List Term → List Term
  | [] => []
  | t :: ts => derivative x t :: derivatives x ts

/-- The terms of the product rule, in each of which one factor is differentiated; `before` are the
factors in front. -/
def productRule (x : Symbol) (before : List Term) : List Term → List Term
  | [] => []
  | t :: ts =>
    let d := derivative x t
    let rest := productRule x (before ++ [t]) ts
    if d = zero then rest else mulInOrder (before ++ d :: ts) :: rest

end

end Term

end Stepwise
