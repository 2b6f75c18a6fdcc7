import Stepwise.Term.Measure
import Stepwise.Term.Text

/-!
# Logarithms joined and taken apart

`expandLogs` takes logarithms of products, powers and fractions apart; a quotient of logarithms of
integers becomes a number plus a quotient of logarithms of smaller integers. `combineLogs` goes the
other way: factors in front of logarithms become exponents, and logarithms with the same factor in
front are joined to one. With `force` this is done even where it is right only for positive
arguments.
-/

namespace Stepwise.Algebra

open Term

/-- The argument of a logarithm. -/
def logOf? : Term → Option Term
  | apply .log a => some a
  | _ => none

/-- The integer whose logarithm the term is. -/
def integerLog? (t : Term) : Option Nat :=
  match logOf? t with
  | some (number q) => if q.den = 1 ∧ 1 < q then some q.num.natAbs else none
  | _ => none

/-- Is this the logarithm of a rational number? -/
def isRationalLog (t : Term) : Bool :=
  match logOf? t with
  | some (number _) => true
  | _ => false

/-- The number of logarithms in a term. -/
def countLogs (t : Term) : Nat := count t
where
  /-- Counts through all parts. -/
  count : Term → Nat
    | sum ts => countAll ts
    | product ts => countAll ts
    | power b x => count b + count x
    | apply f a => (if f = .log then 1 else 0) + count a
    | form _ ts => countAll ts
    | _ => 0
  /-- Counts in several terms. -/
  countAll : List Term → Nat
    | [] => 0
    | t :: ts => count t + countAll ts

/-- The logarithm of an integer by those of its prime factors. -/
def factoredLog (t : Term) : Term :=
  match t with
  | apply .log (number q) =>
    let part (n : Nat) : Term :=
      addAll ((smallFactors n).map fun (b, k) => scale (mkRat k 1) (apply .log (ofInt b)))
    if 0 < q then sub (part q.num.natAbs) (if q.den = 1 then zero else part q.den) else t
  | t => t

/-- A quotient of logarithms of rational numbers, with the whole multiples taken out. -/
def logQuotient (t : Term) : Term :=
  match t with
  | product ts =>
    let (n, d) := numeratorDenominator (product ts)
    if n.factors.any isRationalLog && d.factors.any isRationalLog then
      let u := match n.factors.filterMap integerLog?, d.factors.filterMap integerLog? with
        | [a], [b] =>
          let m := Term.multiplicity b (mkRat a 1)
          if m = 0 then t
          else
            let rest := log (number (mkRat a 1 / Surd.ratPow (mkRat b 1) m))
            let ratio := add (ofInt m) (div rest (apply .log (ofInt b)))
            rewrite (fun u => if u = apply .log (ofInt a) then mul (apply .log (ofInt b)) ratio
              else u) t
        | _, _ => t
      let v := rewrite expandProduct (rewrite factoredLog u)
      if countLogs v ≤ countLogs u then v else u
    else t
  | t => t

/-- Takes logarithms apart until nothing changes, at most `fuel` times. -/
def expandLogsIn : (fuel : Nat) → Term → Term
  | 0, t => t
  | fuel + 1, t =>
    let u := rewrite expandLog t
    if u = t then t else expandLogsIn fuel u

/-- The term with its logarithms taken apart. -/
def expandLogs (t : Term) : Term := expandLogsIn 16 (rewrite logQuotient t)

/-- Takes a logarithm apart as if every argument were positive. -/
def forcedLog (t : Term) : Term :=
  match t with
  | apply .log (product ts) => addAll (ts.map fun t => forcedPower t)
  | apply .log a => forcedPower a
  | t => t
where
  /-- The logarithm of a power. -/
  forcedPower : Term → Term
    | power b x => mul x (log b)
    | t => log t

/-- The term with its logarithms taken apart as if every argument were positive. -/
def forcedLogs (t : Term) : Term := rewrite forcedLog (rewrite forcedLog t)

/-- A multiple of a logarithm: what stays in front of it, what becomes an exponent, and the
argument. -/
structure LogMultiple where
  front : Term
  exponent : Term
  argument : Term

/-- Can the argument of a logarithm be joined with others? -/
def isGoodArgument (force : Bool) (a : Term) : Bool :=
  a.signs.isPositive || (force && (a.signs.positive || a.signs.nonreal))

/-- The term as a multiple of a logarithm. -/
def logMultiple? (force : Bool) (t : Term) : Option LogMultiple :=
  let good (t : Term) : Bool := ((logOf? t).map (isGoodArgument force)).getD false
  match t.factors.filter good with
  | [l] =>
    let others := t.factors.filter fun f => !good f
    let sign := if others.any fun f => f.hasMinus then negOne else one
    let isExponent (f : Term) : Bool := f.signs.isReal || force
    let exponents := others.filter isExponent
    let exponents := exponents.map fun f => if f.hasMinus then f.neg else f
    (logOf? l).map fun a =>
      ⟨mulAll (sign :: others.filter fun f => !isExponent f), mulAll exponents, a⟩
  | _ => none

/-- Joins the logarithms with equal or opposite factors in front. -/
def mergeLogs : List LogMultiple → List (Term × Term)
  | [] => []
  | m :: ms =>
    let a := pow m.argument m.exponent
    let insert : List (Term × Term) → List (Term × Term) := fun ps =>
      if ps.any fun p => p.1 = m.front then
        ps.map fun p => if p.1 = m.front then (p.1, mul a p.2) else p
      else if ps.any fun p => p.1 = m.front.neg then
        ps.map fun p =>
          if p.1 = m.front.neg then
            if m.front.operations ≤ p.1.operations then (m.front, div a p.2) else (p.1, div p.2 a)
          else p
      else (m.front, a) :: ps
    insert (mergeLogs ms)

/-- A sum or a product with its logarithms joined. -/
def combineLogs (force : Bool) (t : Term) : Term :=
  rewrite (fun t =>
    match t with
    | sum _ | product _ =>
      let parts := t.terms.map fun u => (u, logMultiple? force u)
      let merged := mergeLogs (parts.filterMap Prod.snd)
      let others := (parts.filter fun p => p.2.isNone).map Prod.fst
      if merged.isEmpty then t
      else
        addAll (others ++ merged.map fun (front, a) =>
          let l := apply .log a
          mul front l)
    | t => t) t

end Stepwise.Algebra
