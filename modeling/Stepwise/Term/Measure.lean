import Stepwise.Term.Expand

/-!
# The length of written terms

`operations` counts the operations by which a term is written: signs, sums, products, fraction
bars, powers and functions. Among several forms of a term the one with the fewest operations is
taken to be the simplest, and the first of those with equally few. `canonicalSigns` brings the sums
among the factors of a product to that one of both signs which is preferred.
-/

namespace Stepwise.Term

/-- The number of signs and fraction bars in a written number. -/
def numberOperations (q : Rat) : Nat := (if q < 0 then 1 else 0) + if q.den = 1 then 0 else 1

/-- Is there a minus sign in front of the term? -/
def hasMinus : Term → Bool
  | number q => q < 0
  | infinity negative => negative
  | product (number q :: _) => q < 0
  | product (infinity negative :: _) => negative
  | _ => false

/-- The factors of a product on both sides of its fraction bar, numbers left out: how many there
are, and how many operations are in them. -/
structure Bar where
  above : Nat
  atop : Nat
  below : Nat
  beneath : Nat

namespace Bar

def empty : Bar := ⟨0, 0, 0, 0⟩

/-- Takes in a factor above the bar. -/
def addAbove (bar : Bar) (n : Nat) : Bar := { bar with above := bar.above + 1, atop := bar.atop + n }

/-- Takes in a factor below the bar. -/
def addBelow (bar : Bar) (n : Nat) : Bar :=
  { bar with below := bar.below + 1, beneath := bar.beneath + n }

/-- The number of operations in a product with the rational factor `c`. -/
def operations (c : Rat) (bar : Bar) : Nat :=
  let above := bar.above + if c.num.natAbs = 1 then 0 else 1
  let below := bar.below + if c.den = 1 then 0 else 1
  (if c < 0 then 1 else 0) + (if 0 < below then 1 else 0) +
    (bar.atop + bar.beneath + (above - 1) + (below - 1))

end Bar

/-- The number of operations in a power by those in its base and in its exponent. -/
def powerOperations (b x : Term) (base exponent : Nat) : Nat :=
  if b = e then 1 + exponent else if x = one then base else 1 + base + exponent

mutual

/-- The number of operations in a written term. -/
def operations : Term → Nat
  | number q => numberOperations q
  | constant .e => 1
  | sum ts => (ts.length - 1) + (if ts.all hasMinus then 1 else 0) + sumOperations ts
  | product ts => (barOf ts).operations (product ts).coefficient.1
  | power b x =>
    if x = negOne then 1 + operations b else powerOperations b x (operations b) (operations x)
  | apply _ a => 1 + operations a
  | form _ ts => 1 + allOperations ts
  | _ => 0

/-- The number of operations in the terms of a sum, whose signs are not counted again. -/
def sumOperations : List Term → Nat
  | [] => 0
  | t :: ts => (operations t - if hasMinus t then 1 else 0) + sumOperations ts

/-- The number of operations in several terms. -/
def allOperations : List Term → Nat
  | [] => 0
  | t :: ts => operations t + allOperations ts

/-- The factors of a product on both sides of the fraction bar. -/
def barOf : List Term → Bar
  | [] => .empty
  | t :: ts =>
    match t with
    | number _ => barOf ts
    | power b x =>
      if x.coefficient.1 < 0 then
        (barOf ts).addBelow (powerOperations b (scaled (-1) x) (operations b)
          (operations x - if hasMinus x then 1 else 0))
      else (barOf ts).addAbove (powerOperations b x (operations b) (operations x))
    | t => (barOf ts).addAbove (operations t)

end

/-- The term with the fewest operations, the first one of equals. -/
def shortest (t : Term) (ts : List Term) : Term :=
  ts.foldl (fun best u => if u.operations < best.operations then u else best) t

/-- A sum with the preferred sign, and whether the sign was changed. -/
def preferredSign (t : Term) : Term × Bool :=
  match t with
  | sum ts => if (sum ts).extractsSign then (neg (sum ts), true) else (sum ts, false)
  | t => (t, false)

/-- A factor with the preferred signs of sums, and whether the sign of the factor was changed. -/
def preferredFactor (t : Term) : Term × Bool :=
  match t with
  | power b (number q) =>
    let (b', changed) := preferredSign b
    if q.den = 1 && changed then (pow b' (number q), q.num % 2 ≠ 0) else (power b (number q), false)
  | t => preferredSign t

/-- The sums among the factors of products, and below fraction bars, with the preferred sign. -/
def canonicalSigns (t : Term) : Term :=
  rewrite (fun t =>
    match t with
    | product ts =>
      let fs := ts.map preferredFactor
      if fs.all fun f => !f.2 then product ts
      else
        let sign := if (fs.filter Prod.snd).length % 2 = 0 then one else negOne
        mulAll (sign :: fs.map Prod.fst)
    | power b x =>
      let (u, changed) := preferredFactor (power b x)
      if changed then neg u else u
    | t => t) t

end Stepwise.Term
