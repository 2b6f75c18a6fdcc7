import Stepwise.Term.Function

/-!
# Multiplied out

`expand` multiplies products of sums out, takes integer powers of sums apart, splits powers of
products and powers with sums as exponents where that is right, and takes logarithms of products,
powers and fractions apart. A polynomial is multiplied out in one pass, from its innermost parts
outwards. Any other term is gone through part by part, the innermost parts first, one rule after
the other, until nothing changes.
-/

namespace Stepwise.Term

mutual

/-- Applies a rule to every part of a term, the innermost first. -/
def rewrite (rule : Term → Term) : Term → Term
  | sum ts =>
    let us := rewriteAll rule ts
    rule (if us = ts then sum ts else addAll us)
  | product ts =>
    let us := rewriteAll rule ts
    rule (if us = ts then product ts else mulAll us)
  | power b x =>
    let b' := rewrite rule b
    let x' := rewrite rule x
    rule (if b' = b ∧ x' = x then power b x else pow b' x')
  | apply f a =>
    let a' := rewrite rule a
    rule (if a' = a then apply f a else call f a')
  | form f ts => rule (form f (rewriteAll rule ts))
  | t => rule t

/-- Applies a rule to every part of several terms. -/
def rewriteAll (rule : Term → Term) : List Term → List Term
  | [] => []
  | t :: ts => rewrite rule t :: rewriteAll rule ts

end

/-- The products of each term of one sum with each term of another, added up. -/
def distribute (s t : Term) : Term :=
  addAll (s.terms.flatMap fun a => t.terms.map fun b => mul a b)

/-- A power of a sum with a natural exponent, multiplied out. -/
def expandPower (s : Term) : (n : Nat) → Term
  | 0 => one
  | 1 => s
  | n + 1 => distribute (expandPower s n) s

mutual

/-- Is the term a polynomial in its symbols? -/
def isPolynomial : Term → Bool
  | number _ => true
  | symbol _ => true
  | sum ts => arePolynomials ts
  | product ts => arePolynomials ts
  | power b (number q) => q.den = 1 && 0 ≤ q.num && isPolynomial b
  | _ => false

/-- Are all the terms polynomials? -/
def arePolynomials : List Term → Bool
  | [] => true
  | t :: ts => isPolynomial t && arePolynomials ts

end

mutual

/-- A polynomial multiplied out, the innermost parts first. -/
def expandPolynomial : Term → Term
  | sum ts => addAll (expandPolynomials ts)
  | product ts => (expandPolynomials ts).foldl distribute one
  | power b x =>
    match expandPolynomial b, x with
    | sum ts, number q => expandPower (sum ts) q.num.toNat
    | b, x => pow b x
  | t => t

/-- Several polynomials multiplied out. -/
def expandPolynomials : List Term → List Term
  | [] => []
  | t :: ts => expandPolynomial t :: expandPolynomials ts

end

/-- Takes a power of a sum apart: whole powers are multiplied out, in the denominator too, and the
whole part of a fractional exponent above 1 is taken off. -/
def expandSumPower (t : Term) : Term :=
  match t with
  | power (sum ts) (number q) =>
    if q.den = 1 then
      if 1 < q then expandPower (sum ts) q.num.toNat
      else if q < -1 then inv (expandPower (sum ts) (-q.num).toNat)
      else t
    else if 1 < q then
      let root := pow (sum ts) (number (q - q.floor))
      addAll ((expandPower (sum ts) q.floor.toNat).terms.map fun u => mul u root)
    else if q < -1 then
      let n := (-q).floor
      let root := pow (sum ts) (number (-q - n))
      inv (addAll ((expandPower (sum ts) n.toNat).terms.map fun u => mul u root))
    else t
  | power (number b) (sum ts) =>
    let numbers := ts.filter fun t => t.number?.isSome
    if numbers.isEmpty then t
    else
      mulAll (numbers.map (pow (number b)) ++
        [pow (number b) (addAll (ts.filter fun t => t.number?.isNone))])
  | t => t

/-- The factors of a term above and below the fraction bar. -/
def numeratorDenominator (t : Term) : Term × Term :=
  let above (t : Term) : Term := match t with
    | number q => ofInt q.num
    | power (constant .e) x => if x.signs.isNegative then one else power e x
    | power b x => if x.coefficient.1 < 0 then one else power b x
    | t => t
  let below (t : Term) : Term := match t with
    | number q => ofInt q.den
    | power (constant .e) x => if x.signs.isNegative then pow e x.neg else one
    | power b x => if x.coefficient.1 < 0 then pow b x.neg else one
    | _ => one
  (mulAll (t.factors.map above), mulAll (t.factors.map below))

/-- Multiplies the sums among the factors of a product out, each time with all other factors. -/
def distributeFactors (ts : List Term) : Term :=
  let isSum : Term → Bool := fun
    | sum _ => true
    | _ => false
  let plain := ts.filter fun t => !isSum t
  match ts.filter isSum with
  | [] => mulAll ts
  | s :: ss =>
    let expanded := ss.foldl distribute s
    addAll (expanded.terms.map fun u => mulAll (plain ++ [u]))

/-- Multiplies a product out; a denominator of several factors is multiplied out first. -/
def expandProduct (t : Term) : Term :=
  match t with
  | product ts =>
    let (n, d) := numeratorDenominator (product ts)
    match d with
    | product ds =>
      let n' := match n with
        | product ns => distributeFactors ns
        | n => n
      let u := div n' (distributeFactors ds)
      match u with
      | product us => distributeFactors us
      | u => u
    | _ =>
      match div n d with
      | product us => distributeFactors us
      | u => u
  | t => t

/-- Takes a power of a product apart: the factors that are not negative come out. -/
def expandBase (t : Term) : Term :=
  match t with
  | power (product ts) x =>
    let positive := ts.filter fun t => t.signs.isNotNegative
    let other := ts.filter fun t => !t.signs.isNotNegative
    if positive.isEmpty then t
    else mulAll (pow (mulAll other) x :: positive.map fun b => pow b x)
  | t => t

/-- Takes a power with a sum as its exponent apart, if the base cannot be zero or the terms of the
exponent cannot have different signs. -/
def expandExponent (t : Term) : Term :=
  match t with
  | power b (sum xs) =>
    let alike : Bool := xs.all (fun x => x.signs.isNotNegative) ||
      xs.all fun x => x.neg.signs.isNotNegative
    if b.signs.isNonzero || alike then mulAll (xs.map (pow b)) else t
  | t => t

/-- Takes the logarithm of one factor or power apart. -/
def expandLogPower (t : Term) : Term :=
  match t with
  | apply .log (number q) =>
    if q.den = 1 then
      match perfectPower? q.num.natAbs with
      | some (b, n) => if 1 < q then scale n (log (ofInt b)) else t
      | none => t
    else sub (log (ofInt q.num)) (log (ofInt q.den))
  | apply .log (power b x) =>
    let isSmall : Bool := match x with
      | number q => -1 < q && q ≤ 1
      | _ => false
    if x.signs.isReal ∧ (b.signs.isPositive ∨ isSmall) then mul x (log b) else t
  | t => t

/-- Takes a logarithm apart. -/
def expandLog (t : Term) : Term :=
  match t with
  | apply .log (product ts) =>
    let positive := ts.filter fun t => t.signs.isPositive
    let negative := ts.filter fun t => t.signs.isNegative
    let other := ts.filter fun t => !t.signs.isPositive && !t.signs.isNegative
    let rest := mulAll (negative.map (fun _ => negOne) ++ other)
    addAll (positive.map (fun t => expandLogPower (expandLogPower (log t))) ++
      negative.map (fun t => log t.neg) ++ [log rest])
  | t => expandLogPower t

/-- Multiplies out and takes logarithms apart until nothing changes, at most `fuel` times. -/
def expandRepeatedly : (fuel : Nat) → Term → Term
  | 0, t => t
  | fuel + 1, t =>
    let u := rewrite expandLog (rewrite expandProduct (rewrite expandSumPower t))
    if u = t then t else expandRepeatedly fuel u

/-- The term multiplied out. -/
def expand (t : Term) : Term :=
  if t.isPolynomial then expandPolynomial t
  else
    let t := rewrite expandLog t
    let t := rewrite expandSumPower t
    let t := rewrite expandProduct t
    let t := rewrite expandBase t
    let t := rewrite expandExponent t
    expandRepeatedly 32 t

end Stepwise.Term
