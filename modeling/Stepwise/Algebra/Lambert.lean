import Stepwise.Algebra.Check
import Stepwise.Algebra.Isolate
import Stepwise.Algebra.Radical
import Stepwise.Term.Reality

/-!
# Equations with an unknown inside and outside of a logarithm

An equation `a log (b X + c) + d X + f = 0` has the solutions `X = w a / d - c / b`, where `w` is a
value of the inverse of `w eʷ`. Equations with exponentials or powers beside the unknown, or
products of the unknown and its logarithm, are brought to this form by taking logarithms.
-/

namespace Stepwise.Algebra

open Term

namespace Lambert

/-- A term as `a X + b`, where `X` mentions the unknown and nothing else is a factor of it. -/
structure Linear where
  factor : Term
  offset : Term
  part : Term

/-- A term as `a X + b`. -/
def linearIn (x : Symbol) (t : Term) : Linear :=
  let ofProduct (u : Term) : Term × Term :=
    let (a, v) := splitFree x u
    if v.extractsSign then (a.neg, v.neg) else (a, v)
  match t with
  | sum ts =>
    let free := addAll (ts.filter fun t => !t.mentions x)
    let (a, v) := ofProduct (factorTerms (addAll (ts.filter (·.mentions x))))
    ⟨a, free, v⟩
  | t =>
    let (a, v) := ofProduct t
    ⟨a, zero, v⟩

mutual

/-- The parts of a term that pass a test, outer ones first. -/
def partsWith (p : Term → Bool) (t : Term) : List Term :=
  (if p t then [t] else []) ++ match t with
    | sum ts => partsOf p ts
    | product ts => partsOf p ts
    | power b y => partsWith p b ++ partsWith p y
    | apply _ a => partsWith p a
    | form _ ts => partsOf p ts
    | _ => []

/-- The parts of several terms that pass a test. -/
def partsOf (p : Term → Bool) : List Term → List Term
  | [] => []
  | t :: ts => partsWith p t ++ partsOf p ts

end

/-- Is this a logarithm that mentions the unknown? -/
def isLog (x : Symbol) : Term → Bool
  | apply .log a => a.mentions x
  | _ => false

/-- Is this a power with the unknown in its exponent? -/
def isExponential (x : Symbol) : Term → Bool
  | power _ y => y.mentions x
  | _ => false

/-- The part among several ones that has the most parts of its kind, the first one by order. -/
def main? (p : Term → Bool) (t : Term) : Option Term :=
  let parts := sortBy Term.compare (partsWith p t).eraseDups
  let depth (u : Term) : Nat := (partsWith p u).length
  match parts with
  | [] => none
  | u :: us => some (us.foldl (fun best v => if depth best < depth v then v else best) u)

/-- Puts one part of a term in the place of another. -/
def replacePart (u v t : Term) : Term := rewrite (fun w => if w = u then v else w) t

/-- The values of the inverse of `w eʷ` that count as solutions: the principal one, and the other
real one if there is one. -/
def values (t : Term) : List Term :=
  let other := form .lambert [t, negOne]
  let shifted := add t (inv e)
  let hasOther : Bool := t.isClosed && t.signs.isNegative && shifted.signs.isPositive
  (if hasOther then
    [if t = scale (-2) (Term.exp (ofInt (-2))) then ofInt (-2)
     else if t = scale (-1 / 2) (log (ofInt 2)) then scale (-2) (log (ofInt 2)) else other]
  else []) ++ [call .lambert t]

/-- The solutions of `t = 0` by the main logarithm in it; `zeros` undo the part that is solved
for. -/
def byLog (zeros : Zeros) (fresh x : Symbol) (t : Term) : List Term :=
  let t := expand (expandLogs t)
  match main? (isLog x) t with
  | some (apply .log argument) =>
    let l := apply .log argument
    let other := replacePart l zero t
    if !other.mentions x then []
    else
      let d := linearIn x other
      let a := div (expand (sub t other)) l
      let b := linearIn x argument
      if (expand a).mentions x || b.part ≠ d.part then []
      else
        let a := expand a
        let exponent := div (sub (mul b.offset d.factor) (mul b.factor d.offset)) (mul a b.factor)
        let (n, den) := fraction exponent
        let (p, den) := den.coefficient
        let root := Term.exp (div n den)
        let roots := if p = 1 then [root]
          else (List.range p.num.natAbs).map fun (k : Nat) =>
            mul (pow root (number p⁻¹))
              (add (cosOfTurns (2 * mkRat k 1 / p)) (mul i (sinOfTurns (2 * mkRat k 1 / p))))
        let arguments := roots.map fun r => mul (div d.factor (mul a b.factor)) r
        match zeros x (sub b.part (symbol fresh)) with
        | none => []
        | some us =>
          arguments.flatMap fun r => (values r).flatMap fun w =>
            us.map fun u =>
              substitute fresh (sub (mul (div a d.factor) w) (div b.offset b.factor)) u
  | _ => []

/-- The solutions of `lhs = rhs` by the main exponential: it stands alone, and logarithms are
taken. -/
def byExponential (zeros : Zeros) (fresh x : Symbol) (lhs rhs : Term) : List Term :=
  match main? (isExponential x) lhs with
  | none => []
  | some u =>
    match lhs with
    | product _ => if rhs = zero then [] else byLog zeros fresh x (sub (forced (log lhs)) (log rhs))
    | sum _ =>
      let other := replacePart u zero lhs
      let term := sub lhs other
      let rest := sub rhs other
      let (term, rest) := if term.extractsSign && rest.extractsSign then (term.neg, rest.neg)
        else (term, rest)
      byLog zeros fresh x (sub (forced (log term)) (log rest))
    | _ => []
where
  /-- The logarithm of a product and of powers taken apart. -/
  forced (t : Term) : Term := expand (forcedLogs t)

/-- The solutions of `lhs = rhs` by the main logarithm. -/
def byLogarithm (zeros : Zeros) (fresh x : Symbol) (lhs rhs : Term) : List Term :=
  match main? (isLog x) lhs with
  | none => []
  | some l =>
    match lhs with
    | product _ =>
      if rhs = zero then [] else byLog zeros fresh x (sub (forcedLogs (log lhs)) (log rhs))
    | sum _ =>
      let other := replacePart l zero lhs
      let hasPower := (partsWith (fun
        | power _ _ => true
        | _ => false) other).any (·.mentions x)
      let isSum : Bool := match other with
        | sum _ => true
        | _ => false
      if other ≠ zero && !isSum && hasPower then
        byLog zeros fresh x (if rhs = zero then sub (log other) (log (sub other lhs))
          else sub (log (sub lhs other)) (log (sub rhs other)))
      else byLog zeros fresh x (sub lhs rhs)
    | _ => []

/-- A whole number that a closed term is, as far as can be told. -/
def whole (t : Term) : Term :=
  if !t.isClosed || t.number?.isSome then t
  else
    match t.approx? with
    | some z =>
      let n := (z.re.add (.ofRat (1 / 2))).floor
      if isSmall (z.sub (.ofRat (mkRat n 1))) then ofInt n else t
    | none => t

end Lambert

/-- The solutions of `lhs = rhs` with the unknown inside and outside of a logarithm or an
exponent. -/
def lambertSolutions? (zeros : Zeros) (fresh x : Symbol) (lhs rhs : Term) : Option (List Term) :=
  let even (t : Term) : Bool := match t with
    | power (symbol s) (number q) => s = x && q.den = 1 && q.num % 2 = 0
    | _ => false
  let solve (lhs rhs : Term) : List Term :=
    match Lambert.byLogarithm zeros fresh x lhs rhs with
    | [] => Lambert.byExponential zeros fresh x lhs rhs
    | vs => vs
  let found := match lhs with
    | sum ts =>
      -- An even power of the unknown beside an exponential: both signs of its root.
      match ts.filter fun t => even (splitFree x t).2 with
      | [t] =>
        let (c, u) := splitFree x t
        let rest := sub rhs (addAll (ts.filter (· ≠ t)))
        let (b, n) := u.baseExponent
        let l := expand (sub (forcedLogs (log (div rest c))) zero)
        [b.neg, b].flatMap fun b => solve (sub (mul n (log b)) l) zero
      | _ => solve (factorTerms lhs) rhs
    | lhs => solve lhs rhs
  if found.isEmpty then none else some ((found.map Lambert.whole).eraseDups)

end Stepwise.Algebra
