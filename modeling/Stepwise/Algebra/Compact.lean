import Stepwise.Algebra.Simplify

/-!
# Compact forms

`compact` goes on where `simplify` stops. Powers of one base or with one exponent in a product are
joined. A term with circular functions is written in several ways: by sines and cosines alone,
without the squares of the one or the other, with the angles of its products added, and with doubled
angles halved, each with quotients as tangents or not. Of these forms the one with the fewest
circular functions is taken, then the one with the fewest operations and the fewest parts.
Hyperbolic functions are circular functions of imaginary angles.
-/

namespace Stepwise.Algebra

open Term

mutual

/-- How many parts of a term pass a test. -/
def count (p : Term → Bool) : Term → Nat
  | sum ts => (if p (sum ts) then 1 else 0) + countAll p ts
  | product ts => (if p (product ts) then 1 else 0) + countAll p ts
  | power b x => (if p (power b x) then 1 else 0) + count p b + count p x
  | apply f a => (if p (apply f a) then 1 else 0) + count p a
  | form f ts => (if p (form f ts) then 1 else 0) + countAll p ts
  | t => if p t then 1 else 0

/-- How many parts of several terms pass a test. -/
def countAll (p : Term → Bool) : List Term → Nat
  | [] => 0
  | t :: ts => count p t + countAll p ts

end

/-! ### Sines, cosines and their quotients -/

/-- Is this a circular function? -/
def isCircularCall : Term → Bool
  | apply .sin _ => true
  | apply .cos _ => true
  | apply .tan _ => true
  | apply .cot _ => true
  | apply .sec _ => true
  | apply .csc _ => true
  | _ => false

/-- Every circular function by sines and cosines. -/
def bySines (t : Term) : Term :=
  rewrite (fun
    | apply .tan a => div (call .sin a) (call .cos a)
    | apply .cot a => div (call .cos a) (call .sin a)
    | apply .sec a => inv (call .cos a)
    | apply .csc a => inv (call .sin a)
    | t => t) t

/-- The angle and the exponent of a power of a sine. -/
def sinePower? : Term → Option (Term × Rat)
  | apply .sin a => some (a, 1)
  | power (apply .sin a) (number q) => some (a, q)
  | _ => none

/-- Powers of a sine over the same powers of the cosine, as powers of the tangent. -/
def joinTangents (t : Term) : Term :=
  let cosine (p : Term × Rat) : Term := pow (call .cos p.1) (number (-p.2))
  rewrite (fun
    | product ts =>
      match (ts.filterMap sinePower?).filter fun p => ts.contains (cosine p) with
      | [] => product ts
      | ps =>
        let joined := ps.flatMap fun p => [pow (call .sin p.1) (number p.2), cosine p]
        mulAll (ts.filter (fun t => !joined.contains t) ++
          ps.map fun p => pow (call .tan p.1) (number p.2))
    | t => t) t

/-! ### Sums and halves of angles -/

/-- A multiple of the sine or cosine of an angle. -/
structure Wave where
  factor : Rat
  isSine : Bool
  angle : Term

namespace Wave

/-- The cosine of no angle. -/
def one : Wave := ⟨1, false, zero⟩

def toTerm (w : Wave) : Term := scale w.factor (call (if w.isSine then .sin else .cos) w.angle)

/-- The product of two waves is a sum of two waves with the sum and the difference of the angles. -/
def mul (v w : Wave) : List Wave :=
  let c := v.factor * w.factor / 2
  let s := add v.angle w.angle
  let d := sub v.angle w.angle
  match v.isSine, w.isSine with
  | true, true => [⟨c, false, d⟩, ⟨-c, false, s⟩]
  | false, false => [⟨c, false, d⟩, ⟨c, false, s⟩]
  | true, false => [⟨c, true, s⟩, ⟨c, true, d⟩]
  | false, true => [⟨c, true, s⟩, ⟨-c, true, d⟩]

/-- A factor as a product of sines and cosines: none if it is something else, or a high power. -/
def ofFactor : Term → List Wave
  | apply .sin a => [⟨1, true, a⟩]
  | apply .cos a => [⟨1, false, a⟩]
  | power (apply .sin a) (number q) =>
    if q.den = 1 ∧ 0 < q ∧ q ≤ 8 then List.replicate q.num.toNat ⟨1, true, a⟩ else []
  | power (apply .cos a) (number q) =>
    if q.den = 1 ∧ 0 < q ∧ q ≤ 8 then List.replicate q.num.toNat ⟨1, false, a⟩ else []
  | _ => []

end Wave

/-- A term without products of sines and cosines. -/
def addAngles (t : Term) : Term :=
  expand (addAll ((expand t).terms.map fun u =>
    match u.factors.flatMap Wave.ofFactor with
    | [] => u
    | [_] => u
    | ws =>
      let waves := ws.foldl (fun vs w => vs.flatMap fun v => v.mul w) [Wave.one]
      mulAll [mulAll (u.factors.filter fun f => (Wave.ofFactor f).isEmpty),
        addAll (waves.map Wave.toTerm)]))

/-- Sines and cosines of even multiples of an angle by those of half of it. -/
def halveAngles (t : Term) : Term :=
  rewrite (fun
    | apply f a =>
      let c := a.coefficient.1
      let h := scale (1 / 2) a
      if a.isClosed || c.num % 2 ≠ 0 then apply f a
      else
        match f with
        | .sin => mulAll [ofInt 2, call .sin h, call .cos h]
        | .cos => sub (scale 2 (pow (call .cos h) (ofInt 2))) Term.one
        | f => apply f a
    | t => t) t

/-! ### The choice of a form -/

/-- The forms of a term among which one is chosen. -/
def circularForms (t : Term) : List Term :=
  let s := cancel (bySines t)
  let h := cancel (halveAngles s)
  let forms := [s, cancel (withoutSines s), cancel (withoutCosines s), addAngles s, h,
    cancel (withoutSines h), cancel (withoutCosines h)]
  forms ++ forms.map joinTangents

/-- Is the second form better than the first one? -/
def isBetter (t u : Term) : Bool :=
  let m := count isCircularCall t
  let n := count isCircularCall u
  n < m || (n = m && (u.operations < t.operations ||
    (u.operations = t.operations && count (fun _ => true) u < count (fun _ => true) t)))

/-- The best form of a term with circular functions. -/
def bestCircular (t : Term) : Term :=
  (circularForms t).foldl (fun best u => if isBetter best u then u else best) t

/-- Hyperbolic functions as circular functions of imaginary angles, written without the factor
of the angles. -/
def turnHyperbolic (t : Term) : Term :=
  rewrite (fun
    | apply .sinh a => mul i (call .sin a)
    | apply .cosh a => call .cos a
    | apply .tanh a => mul i (call .tan a)
    | apply .coth a => mul (neg i) (call .cot a)
    | apply .sech a => call .sec a
    | apply .csch a => mul (neg i) (call .csc a)
    | t => t) t

/-- The hyperbolic functions that `turnHyperbolic` has turned. -/
def turnBack (t : Term) : Term :=
  rewrite (fun
    | apply .sin a => mul (neg i) (call .sinh a)
    | apply .cos a => call .cosh a
    | apply .tan a => mul (neg i) (call .tanh a)
    | apply .cot a => mul i (call .coth a)
    | apply .sec a => call .sech a
    | apply .csc a => mul i (call .csch a)
    | t => t) t

/-- Is this a hyperbolic function? -/
def isHyperbolicCall : Term → Bool
  | apply f _ => f = .sinh || f = .cosh || f = .tanh || f = .coth || f = .sech || f = .csch
  | _ => false

/-! ### Powers -/

/-- Powers of one base in every product joined into one power. -/
def joinPowers (t : Term) : Term :=
  rewrite (fun
    | product ts =>
      let bases := (ts.map fun f => f.baseExponent.1).eraseDups
      mulAll (bases.map fun b =>
        pow b (addAll ((ts.filter fun f => f.baseExponent.1 = b).map fun f => f.baseExponent.2)))
    | t => t) t

/-- The exponent of a power of a positive number, if it is no number. -/
def openExponent? : Term → Option Term
  | power (number q) x => if 0 < q ∧ x.number?.isNone then some x else none
  | _ => none

/-- Powers of positive numbers with one exponent in every product joined into one power. -/
def joinBases (t : Term) : Term :=
  rewrite (fun
    | product ts =>
      let exponents := (ts.filterMap openExponent?).eraseDups
      let base (x : Term) : Term :=
        mulAll ((ts.filter fun f => openExponent? f = some x).map fun f => f.baseExponent.1)
      mulAll (ts.filter (fun f => (openExponent? f).isNone) ++
        exponents.map fun x => pow (base x) x)
    | t => t) t

/-- A simpler form of a term, with its functions and powers joined where that is shorter. -/
def compact (t : Term) : Term :=
  let a := simplify t
  if a.isImproper then a
  else
    let a := shortest a [joinPowers a, joinBases a]
    if a.any isCircularCall then bestCircular a
    else if a.any isHyperbolicCall then turnBack (bestCircular (turnHyperbolic a))
    else a

end Stepwise.Algebra
