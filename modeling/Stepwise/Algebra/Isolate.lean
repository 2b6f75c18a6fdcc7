import Stepwise.Algebra.Simplify

/-!
# Moving everything else to the other side

An equation has a side with the unknown and a side without it. What is added to the unknown or
multiplied with it moves to the other side, functions with an inverse are undone, and of two terms
that are powers with equal exponents, or equal functions, one is divided by the other or their
arguments are compared. This goes on until nothing changes.
-/

namespace Stepwise

/-- The inverse of a function that has one value everywhere. -/
def Func.inverse? : Func → Option (Term → Term)
  | .log => some Term.exp
  | .tan => some (Term.call .atan)
  | .cot => some (Term.call .acot)
  | .asin => some (Term.call .sin)
  | .acos => some (Term.call .cos)
  | .atan => some (Term.call .tan)
  | .acot => some (Term.call .cot)
  | .asec => some (Term.call .sec)
  | .acsc => some (Term.call .csc)
  | .sinh => some (Term.call .asinh)
  | .tanh => some (Term.call .atanh)
  | .coth => some (Term.call .acoth)
  | .asinh => some (Term.call .sinh)
  | .acosh => some (Term.call .cosh)
  | .atanh => some (Term.call .tanh)
  | .acoth => some (Term.call .coth)
  | _ => none

namespace Algebra

open Term

/-- An equation: the side with the unknown, and the other side. -/
structure Balance where
  dependent : Term
  free : Term

/-- The factors that do not mention the unknown, and the product of the others. -/
def splitFree (x : Symbol) (t : Term) : Term × Term :=
  (mulAll (t.factors.filter fun f => !f.mentions x), mulAll (t.factors.filter (·.mentions x)))

namespace Balance

/-- Moves terms and factors without the unknown, in at most so many steps. -/
def moveFree (x : Symbol) : (steps : Nat) → Balance → Balance
  | 0, b => b
  | steps + 1, b =>
    match b.dependent with
    | sum ts =>
      let free := ts.filter fun t => !t.mentions x
      if free.isEmpty then b
      else moveFree x steps ⟨addAll (ts.filter (·.mentions x)), sub b.free (addAll free)⟩
    | product ts =>
      if ts.all (·.mentions x) then b
      else
        let (c, u) := splitFree x (product ts)
        moveFree x steps ⟨u, div b.free c⟩
    | _ => b

/-- The terms of a sum with equal parts that mention the unknown put together. -/
def collected (x : Symbol) (t : Term) : Term :=
  let parts := t.terms.map (splitFree x)
  let kinds := (parts.map Prod.snd).eraseDups
  if kinds.length = parts.length then t
  else
    addAll (kinds.map fun u => mul (addAll ((parts.filter fun p => p.2 = u).map Prod.fst)) u)

/-- Is this a power? -/
def isPower : Term → Bool
  | power _ _ => true
  | _ => false

/-- The quotient of two powers if it is a power: they have equal bases, or equal exponents and
numbers as bases. -/
def quotient? (s t : Term) : Option Term :=
  let parts (t : Term) : Term × Term := match t with
    | power b y => (b, y)
    | t => (t, one)
  let (b, y) := parts s
  let (c, z) := parts t
  if !isPower s && !isPower t then none
  else if b = c then some (pow b (sub y z))
  else
    match b, c with
    | number p, number q => if y = z && 0 < p && 0 < q then some (pow (number (p / q)) y) else none
    | _, _ => none

/-- A sum of two terms that vanishes: their quotient, or their arguments, compared. -/
def comparePair (x : Symbol) (b : Balance) : Balance :=
  match b.dependent with
  | sum [s, t] =>
    if b.free ≠ zero || (coefficients? x (sum [s, t])).isSome then b
    else
      let (s, t) := if s.compare t = .gt then (t, s) else (s, t)
      let (c, u) := splitFree x s
      let (d, v) := splitFree x t
      match quotient? u v with
      | some w => ⟨w, neg (div d c)⟩
      | none =>
        match u, v with
        | apply f a, apply g a' =>
          if c = d.neg && f = g then ⟨sub a a', zero⟩ else b
        | _, _ => b
  | _ => b

/-- Undoes a function. -/
def undo (b : Balance) : Balance :=
  match b.dependent with
  | power (constant .e) y => ⟨y, log b.free⟩
  | apply f a =>
    match f.inverse? with
    | some g => ⟨a, g b.free⟩
    | none =>
      match b.free with
      | apply g c => if f = g then ⟨a, c⟩ else b
      | _ => b
  | power u (number q) =>
    if q < 0 && q.den = 1 && b.free ≠ zero then ⟨pow u (number (-q)), inv b.free⟩ else b
  | _ => b

/-- Moves, compares and undoes until nothing changes, in at most so many rounds. -/
def settle (x : Symbol) : (rounds : Nat) → Balance → Balance
  | 0, b => b
  | rounds + 1, b =>
    let b' := moveFree x b.dependent.size b
    let b' := undo (comparePair x ⟨collected x b'.dependent, b'.free⟩)
    if b'.dependent = b.dependent then b' else settle x rounds b'

end Balance

/-- The equation `t = 0` with as much as possible on the side without the unknown. -/
def isolate (x : Symbol) (t : Term) : Balance := Balance.settle x (t.size + 1) ⟨t, zero⟩

end Algebra

end Stepwise
