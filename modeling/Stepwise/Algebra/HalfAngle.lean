import Stepwise.Algebra.Isolate

/-!
# Circular functions in terms of each other

Before equations with several circular functions are solved, the angles are brought together: sums
of the unknown and something else are taken apart, and sines and cosines of a double angle become
those of the angle. Sines and cosines of one angle are then written by the tangent of half the
angle, or by the tangent of the angle if one is a multiple of the other. Hyperbolic functions are
written by exponentials.
-/

namespace Stepwise.Algebra

open Term

/-- Is this one of the circular functions? -/
def isCircular : Func → Bool
  | .sin | .cos | .tan | .cot | .sec | .csc => true
  | _ => false

/-- A hyperbolic function by exponentials. -/
def hyperbolicByExponentials (f : Func) (a : Term) : Term :=
  let p := Term.exp a
  let q := Term.exp a.neg
  match f with
  | .sinh => sub (scale (1 / 2) p) (scale (1 / 2) q)
  | .cosh => add (scale (1 / 2) p) (scale (1 / 2) q)
  | .tanh => div (sub p q) (add p q)
  | .coth => div (add p q) (sub p q)
  | .sech => div (ofInt 2) (add p q)
  | .csch => div (ofInt 2) (sub p q)
  | f => apply f a

/-- The term without hyperbolic functions of the unknown. -/
def byExponentials (x : Symbol) (t : Term) : Term :=
  rewrite (fun
    | apply f a => if a.mentions x then hyperbolicByExponentials f a else apply f a
    | t => t) t

mutual

/-- The circular functions of the unknown in a term. -/
def circulars (x : Symbol) : Term → List (Func × Term)
  | sum ts => circularsOf x ts
  | product ts => circularsOf x ts
  | power b y => circulars x b ++ circulars x y
  | apply f a => (if isCircular f && a.mentions x then [(f, a)] else []) ++ circulars x a
  | form _ ts => circularsOf x ts
  | _ => []

/-- The circular functions of the unknown in several terms. -/
def circularsOf (x : Symbol) : List Term → List (Func × Term)
  | [] => []
  | t :: ts => circulars x t ++ circularsOf x ts

end

/-- The sine or cosine of a sum of two terms. -/
def ofSum (f : Func) (a b : Term) : Term :=
  match f with
  | .sin => add (mul (call .sin a) (call .cos b)) (mul (call .cos a) (call .sin b))
  | .cos => sub (mul (call .cos a) (call .cos b)) (mul (call .sin a) (call .sin b))
  | f => call f (add a b)

/-- A circular function of a double angle by those of the angle. -/
def ofDouble (f : Func) (angle a : Term) : Term :=
  if a = scale 2 angle then
    match f with
    | .sin => mulAll [ofInt 2, call .sin angle, call .cos angle]
    | .cos => sub (pow (call .cos angle) (ofInt 2)) (pow (call .sin angle) (ofInt 2))
    | f => apply f a
  else apply f a

/-- The greatest angle that two angles are whole multiples of, if they are multiples of one. -/
def commonAngle (a b : Term) : Term :=
  let (p, u) := a.coefficient
  let (q, v) := b.coefficient
  if u = v then scaled (commonDivisor [p, q]) u else one

/-- The circular functions with their angles brought together. -/
def joinAngles (x : Symbol) (t : Term) : Term :=
  let found := (circulars x t).eraseDups
  if found.length ≤ 1 then t
  else
    let isSum (a : Term) : Bool := match a with
      | sum _ => true
      | _ => false
    let others := found.filter fun c => !isSum c.2
    let angle := match others with
      | [(_, a)] => some a
      | [(_, a), (_, b)] => some (commonAngle a b)
      | _ => none
    rewrite (fun
      | apply f a =>
        if !(isCircular f && a.mentions x) then apply f a
        else
          match a with
          | sum ts =>
            let free := addAll (ts.filter fun t => !t.mentions x)
            let rest := addAll (ts.filter (·.mentions x))
            if rest = symbol x || rest = neg (symbol x) then ofSum f rest free else apply f a
          | a =>
            match angle with
            | some angle => ofDouble f angle a
            | none => apply f a
      | t => t) t

/-- Sines and cosines by the tangent of half the angle. -/
def ofHalf (x : Symbol) (t : Term) : Term :=
  let half (a : Term) : Term := call .tan (scale (1 / 2) a)
  let square (u : Term) : Term := pow u (ofInt 2)
  let sine (a : Term) : Term := div (scale 2 (half a)) (add one (square (half a)))
  let cosine (a : Term) : Term := div (sub one (square (half a))) (add one (square (half a)))
  rewrite (fun
    | apply f a =>
      if !a.mentions x then apply f a
      else
        match f with
        | .sin => sine a
        | .cos => cosine a
        | .sec => inv (cosine a)
        | .csc => inv (sine a)
        | .cot => inv (call .tan a)
        | f => apply f a
    | t => t) t

/-- If a sum consists of a multiple of a power of a sine and one of the same power of the cosine, an
equation in the tangent. -/
def ofTangent? (t : Term) : Option Term :=
  let part? (t : Term) : Option (Rat × Func × Term × Term) :=
    match t.coefficient with
    | (c, apply f a) => some (c, f, a, one)
    | (c, power (apply f a) y) => some (c, f, a, y)
    | _ => none
  match t with
  | sum [s, t] =>
    match part? s, part? t with
    | some (c, .sin, a, y), some (d, .cos, b, z) =>
      if a = b && y = z then some (add (scale (c / d) (pow (call .tan a) y)) one) else none
    | some (c, .cos, a, y), some (d, .sin, b, z) =>
      if a = b && y = z then some (add (scale (d / c) (pow (call .tan a) y)) one) else none
    | _, _ => none
  | _ => none

end Stepwise.Algebra
