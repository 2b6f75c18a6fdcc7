import Stepwise.Algebra.Simplify

/-!
# Equations without roots

A sum with roots of the unknown is turned into one without them whose zeros are among those of the
latter: roots are brought to one side and both sides raised to a power, again and again. If all
roots have one base, or two roots of different orders meet, a new unknown stands for a root instead
(`Change`).
-/

namespace Stepwise.Algebra

open Term

/-- A new unknown, and the equation that ties it to the old one. -/
structure Change where
  unknown : Symbol
  equation : Term

/-- A sum without roots, perhaps in a new unknown. -/
structure Freed where
  term : Term
  change : Option Change

/-- The ways to find the zeros of a term, for the changes of the unknown. -/
abbrev Zeros := Symbol → Term → Option (List Term)

namespace Radical

/-- The denominator of the rational number in front of the exponent of a power. -/
def order : Term → Nat
  | power _ x => x.coefficient.1.den
  | _ => 1

/-- Is this a root that mentions the unknown? -/
def isRoot (x : Symbol) (t : Term) : Bool := order t ≠ 1 && t.mentions x

/-- Is there a root of the unknown among the factors? -/
def hasRoot (x : Symbol) (t : Term) : Bool := t.factors.any (isRoot x)

/-- The roots of the unknown in a sum, each as a generator. -/
def rootsIn (x : Symbol) (t : Term) : List Term := (rawGenerators t).filter (isRoot x)

/-- The base of a root. -/
def base : Term → Term
  | power b (number _) => b
  | power b x => pow b (scaled x.coefficient.1.num x.coefficient.2)
  | t => t

/-- The least common multiple of the orders. -/
def commonOrder (roots : List Term) : Nat := roots.foldl (fun l r => Nat.lcm l (order r)) 1

/-- The terms without roots, and the sums of those with the same roots, in descending order. -/
def grouped (x : Symbol) (t : Term) : Term × List Term :=
  let others := addAll (t.terms.filter fun u => !hasRoot x u)
  let rooted := t.terms.filter (hasRoot x)
  let key (u : Term) : List Term := sortBy Term.compare (rootsIn x u)
  let keys := (rooted.map key).eraseDups
  let groups := keys.map fun k => addAll (rooted.filter fun u => key u = k)
  (others, (sortBy Term.compare groups).reverse)

/-- A power multiplied out. -/
def powerOf (t : Term) (n : Nat) : Term := expand (pow t (ofInt n))

/-- The square of a sum without its order. -/
def squareOfSum (a b : Term) : Term :=
  addAll [powerOf a 2, powerOf b 2, expand (mulAll [ofInt 2, a, b])]

/-- The sum without numbers and powers in front, with the preferred sign. -/
def canonical (t : Term) : Term :=
  let t := factorTerms (expand (fraction (expand t)).1)
  let bases := (t.factors.filter fun f => !f.isClosed).map fun f =>
    match f with
    | power b _ => b
    | f => f
  if t.isClosed then t
  else mulAll (bases.map fun f => if f.extractsSign then f.neg else f)

/-- The new unknown. -/
def rootSymbol (depth : Nat) : Symbol := ⟨'_' :: 'p' :: Text.ofNat depth, .nonnegative⟩

/-- The new unknown among all numbers. -/
def plainSymbol (s : Symbol) : Symbol := ⟨s.name, .complex⟩

/-- The result with a new unknown `p` that satisfies the equation. -/
def withChange (p : Symbol) (equation t : Term) : Freed :=
  let plain (t : Term) : Term := substitute p (symbol (plainSymbol p)) t
  ⟨canonical (plain t), some ⟨plainSymbol p, plain equation⟩⟩

/-- If all roots have one base, the sum in terms of a root of it. -/
def bySingleBase? (zeros : Zeros) (p x : Symbol) (t : Term) (roots : List Term) : Option Freed :=
  match (roots.map base).eraseDups with
  | [b] =>
    let equation := sub (pow (symbol p) (ofInt (commonOrder roots))) b
    match zeros x equation with
    | some (v :: _) => some (withChange p equation (substitute x v t))
    | _ => none
  | _ => none

/-- Is this a sum? -/
def isSum : Term → Bool
  | sum _ => true
  | _ => false

/-- One step: the roots on one side, both sides raised to a power. -/
def squared? (others : Term) (groups : List Term) (l : Nat) : Option Term :=
  match groups with
  | [r] =>
    if isSum r && 2 < l then none
    else some (sub (powerOf r l) (powerOf others.neg l))
  | [r, s] =>
    if others = zero then some (sub (powerOf r l) (powerOf s.neg l))
    else if l = 2 ^ l.log2 then some (sub (powerOf r 2) (squareOfSum s others))
    else none
  | [r, s, u] =>
    if l = 2 ^ l.log2 then some (sub (squareOfSum s u) (squareOfSum r others)) else none
  | [r, s, u, v] => if l = 2 ^ l.log2 then some (sub (squareOfSum r s) (squareOfSum u v)) else none
  | _ => none

/-- A sum freed of roots in at most so many steps: nothing if there is no root in it or if it cannot
be done; `zeros` serve for changes of the unknown. -/
def freeIn (zeros : Zeros) (x : Symbol) : (steps : Nat) → Term → Option (Option Freed)
  | 0, _ => none
  | steps + 1, t =>
    let t := expand (fraction t).1
    let roots := rootsIn x t
    if roots.isEmpty then some none
    else if roots.any fun r => r.baseExponent.2.mentions x then some none
    else if ((rawGenerators t).filter fun g => !roots.contains g).any fun g =>
        roots.any fun r => g.any (· = r) then some none
    else
      let l := commonOrder roots
      let (others, groups) := grouped x t
      let p := rootSymbol steps
      let isSingle : Bool := groups.length = 1 && !(groups.any isSum && 2 < l)
      match if isSingle then none else bySingleBase? zeros p x t roots with
      | some freed => some (some freed)
      | none =>
        let groups := match groups with
          | [sum ts] => if l ≤ 2 then groups else ts
          | groups => groups
        match squared? others groups l with
        | some u =>
          match freeIn zeros x steps u with
          | some (some freed) => some (some freed)
          | some none => some (some ⟨canonical u, none⟩)
          | none => none
        | none =>
          match groups with
          | [r, s] => (byPart? zeros p x r s others).or (byPart? zeros p x s r others)
          | _ => none
where
  /-- A new unknown for the roots in `s`, if the equation in `r` and the new unknown can be
  freed. -/
  byPart? (zeros : Zeros) (p x : Symbol) (r s others : Term) : Option (Option Freed) :=
    let roots := rootsIn x s
    let root := mulAll roots
    let order := commonOrder roots
    let equation := sub (pow (symbol p) (ofInt order)) (powerOf root order)
    match zeros x equation with
    | some (v :: _) =>
      let t := addAll [substitute x v r, mul (symbol p) (div s root), substitute x v others]
      if t.mentions x then none
      else
        let t := expand t
        let rs := rootsIn p t
        if rs.isEmpty then some (some (withChange p equation t))
        else
          let (others, groups) := grouped p t
          match squared? others groups (commonOrder rs) with
          | some u => if (rootsIn p u).isEmpty then some (some (withChange p equation u)) else none
          | none => none
    | _ => none

/-- A sum freed of the roots of the unknown; nothing if there are none or it cannot be done. -/
def free? (zeros : Zeros) (x : Symbol) (t : Term) : Option Freed := (freeIn zeros x 8 t).join

end Radical

end Stepwise.Algebra
