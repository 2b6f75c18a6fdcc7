import Stepwise.Term.Approximate

/-!
# The order of terms and factors

Every term has a rank: the class of what it is built from, its parts, its exponent and its
coefficient, compared in this order. Numbers come first, then constants and symbols by name, then
products and sums, then functions. Factors are written by rank. The terms of a sum are written by
descending exponents of the bases that occur in them, the bases taken by rank, and terms without
such bases by their values. One exception: a positive number comes before a single negative
multiple, as in `3 - x`.

Results: `compare_self`, and `sortBy_perm`, sorting loses nothing.
-/

namespace Stepwise

/-- Compares texts character by character. -/
def Text.compare : Text → Text → Ordering
  | [], [] => .eq
  | [], _ :: _ => .lt
  | _ :: _, [] => .gt
  | c :: cs, d :: ds => (Ord.compare c.toNat d.toNat).then (Text.compare cs ds)

/-- Puts an element in front of the first one that it is less than. -/
def insertSorted {α : Type} (compare : α → α → Ordering) (x : α) : List α → List α
  | [] => [x]
  | y :: ys => if compare x y = .lt then x :: y :: ys else y :: insertSorted compare x ys

/-- The elements in ascending order; equal ones keep their places. -/
def sortBy {α : Type} (compare : α → α → Ordering) (xs : List α) : List α :=
  xs.foldl (fun sorted x => insertSorted compare x sorted) []

theorem insertSorted_perm {α : Type} (compare : α → α → Ordering) (x : α) (ys : List α) :
    (insertSorted compare x ys).Perm (x :: ys) := by
  induction ys with
  | nil => exact .refl _
  | cons y ys ih =>
    unfold insertSorted
    split
    · exact .refl _
    · exact (ih.cons y).trans (.swap ..)

theorem sortBy_perm {α : Type} (compare : α → α → Ordering) (xs : List α) :
    (sortBy compare xs).Perm xs := by
  have key : ∀ (xs sorted : List α),
      (xs.foldl (fun sorted x => insertSorted compare x sorted) sorted).Perm (xs ++ sorted) := by
    intro xs
    induction xs with
    | nil => exact fun _ => .refl _
    | cons x xs ih =>
      intro sorted
      refine (ih _).trans ?_
      refine ((insertSorted_perm compare x sorted).append_left xs).trans ?_
      exact List.perm_middle
  have := key xs []
  rwa [List.append_nil] at this

/-- What terms are ordered by. -/
inductive Rank where
  /-- A number; `side` tells the infinities from the finite numbers. -/
  | number (side : Int) (value : Rat)
  /-- Anything else: its class, its label or its parts, its exponent and its coefficient. -/
  | node (major minor : Nat) (kind : Text) (label : Option Text) (parts : List Rank)
      (exponent : Rank) (coefficient : Rat)

namespace Rank

/-- Compares classes of terms. -/
def compareClass (major minor : Nat) (kind : Text) (major' minor' : Nat) (kind' : Text) :
    Ordering :=
  (Ord.compare major major').then ((Ord.compare minor minor').then (Text.compare kind kind'))

/-- The class of numbers. -/
def numberKind : Text := "Number".toList

/-- Compares labels; what has no label has parts instead. -/
def compareLabel : Option Text → Option Text → Ordering
  | some s, some t => Text.compare s t
  | _, _ => .eq

/-- How many parts a node has; a label counts as one. -/
def width (label : Option Text) (parts : List Rank) : Nat :=
  if label.isSome then 1 else parts.length

def compareRat (p q : Rat) : Ordering := if p < q then .lt else if p = q then .eq else .gt

mutual

/-- Which of two ranks comes first? -/
def compare : Rank → Rank → Ordering
  | number s p, number t q => (Ord.compare s t).then (compareRat p q)
  | number .., node major minor kind .. =>
    (compareClass 1 0 numberKind major minor kind).then .lt
  | node major minor kind .., number .. =>
    (compareClass major minor kind 1 0 numberKind).then .gt
  | node major minor kind label parts exponent c,
      node major' minor' kind' label' parts' exponent' c' =>
    (compareClass major minor kind major' minor' kind').then
      ((Ord.compare (width label parts) (width label' parts')).then
        ((compareLabel label label').then
          ((compareAll parts parts').then
            ((compare exponent exponent').then (compareRat c c')))))

/-- Which of two lists of ranks comes first, by the first difference? -/
def compareAll : List Rank → List Rank → Ordering
  | [], [] => .eq
  | [], _ :: _ => .lt
  | _ :: _, [] => .gt
  | r :: rs, s :: ss => (compare r s).then (compareAll rs ss)

end

/-- The rank of the number 1. -/
def one : Rank := number 0 1

/-- The same rank with another coefficient. -/
def withCoefficient (c : Rat) : Rank → Rank
  | number s q => number s (c * q)
  | node major minor kind label parts exponent _ => node major minor kind label parts exponent c

/-- The same rank with another exponent. -/
def withExponent (r x : Rank) : Rank :=
  match r with
  | number s q => node 1 0 numberKind (some (Text.ofInt q.num ++
      if q.den = 1 then [] else '/' :: Text.ofNat q.den)) [] x (if s = 0 then 1 else s)
  | node major minor kind label parts _ c => node major minor kind label parts x c

theorem compareRat_self (q : Rat) : compareRat q q = .eq := by
  rw [compareRat, if_neg Rat.lt_irrefl, if_pos rfl]

end Rank

theorem Text.compare_self (t : Text) : Text.compare t t = .eq := by
  induction t with
  | nil => rfl
  | cons c cs ih => simp [Text.compare, ih]

mutual

theorem Rank.compare_self (r : Rank) : r.compare r = .eq := by
  cases r with
  | number s q => simp [Rank.compare, Rank.compareRat_self]
  | node major minor kind label parts exponent c =>
    have h : Rank.compareLabel label label = .eq := by
      cases label <;> simp [Rank.compareLabel, Text.compare_self]
    simp [Rank.compare, Rank.compareClass, Text.compare_self, h, Rank.compareAll_self parts,
      Rank.compare_self exponent, Rank.compareRat_self]

theorem Rank.compareAll_self (rs : List Rank) : Rank.compareAll rs rs = .eq := by
  cases rs with
  | nil => rfl
  | cons r rs => simp [Rank.compareAll, Rank.compare_self r, Rank.compareAll_self rs]

end

/-- The place of a function among the functions. -/
def Func.place : Func → Nat
  | .log => 11
  | .sin => 20
  | .cos => 21
  | .tan => 22
  | .cot => 23
  | .sinh => 30
  | .cosh => 31
  | .tanh => 32
  | .coth => 33
  | .realPart => 41
  | .imaginaryPart => 42
  | _ => 10000

/-- The class of a constant. -/
def Constant.kind : Constant → Text
  | .e => "Exp1".toList
  | .i => "ImaginaryUnit".toList
  | .pi => "Pi".toList
  | c => c.name

/-- A term of a sum as the order of the sum sees it: its rank, its value as far as it is a number,
and the integer exponents of its other bases. -/
structure Monomial where
  term : Term
  rank : Rank
  value : Approx
  exponents : List (Rank × Int)

namespace Monomial

/-- The exponent of a base. -/
def exponent (m : Monomial) (base : Rank) : Int :=
  match m.exponents.find? fun p => Rank.compare p.1 base = .eq with
  | some p => p.2
  | none => 0

/-- Compares the approximate values of numbers. -/
def compareDyad (x y : Dyad) : Ordering :=
  if (x.sub y).isZero then .eq else if x.lt y then .lt else .gt

/-- Compares the values: real ones before others, then by the imaginary and the real part. -/
def compareValue (z w : Approx) : Ordering :=
  (Ord.compare (if z.isReal then 0 else 1 : Nat) (if w.isReal then 0 else 1)).then
    ((compareDyad z.im w.im).then (compareDyad z.re w.re))

/-- Compares by the exponents of the bases, greater exponents first, then by value. -/
def compare (bases : List Rank) (m n : Monomial) : Ordering :=
  bases.foldr (fun b o => (Ord.compare (n.exponent b) (m.exponent b)).then o)
    (compareValue m.value n.value)

/-- The bases that occur in the terms, by rank. -/
def bases (ms : List Monomial) : List Rank :=
  let all := ms.flatMap fun m => m.exponents.map Prod.fst
  (sortBy Rank.compare all).foldr (fun b bs =>
    match bs with
    | [] => [b]
    | c :: _ => if Rank.compare b c = .eq then bs else b :: bs) []

/-- Is this a positive number? -/
def isPositiveNumber : Term → Bool
  | .number q => 0 < q
  | .constant c => c ≠ .i
  | _ => false

/-- Is this a negative number times something that is no product? -/
def isNegativeMultiple : Term → Bool
  | .product [.number q, _] => q < 0
  | _ => false

/-- The terms in the order in which a sum of them is written. -/
def ordered (ms : List Monomial) : List Monomial :=
  match ms with
  | [m, n] =>
    if isPositiveNumber m.term && isNegativeMultiple n.term then [m, n]
    else if isPositiveNumber n.term && isNegativeMultiple m.term then [n, m]
    else sortBy (compare (bases ms)) ms
  | _ => sortBy (compare (bases ms)) ms

/-- A power of the base of rank `base` as a power with an integer exponent: half powers are powers
of the square root, and `b ^ (2 x)` is a power of `b ^ x`. The exponent is `x`, its rank
`exponent`. -/
def ofPower (base : Rank) (x : Term) (exponent : Rank) : Rank × Int :=
  match x with
  | .number q =>
    if q.den = 1 then (base, q.num)
    else (base.withExponent (.number 0 (mkRat 1 q.den)), q.num)
  | x =>
    let c := x.coefficient.1
    (base.withExponent (exponent.withCoefficient (mkRat 1 c.den)), c.num)

end Monomial

namespace Rank

/-- The rank of `e ^ x`, by the rank of `x`. -/
def ofExp (exponent : Rank) : Rank := node 4 10 "exp".toList none [exponent] one 1

/-- The rank of a product without a coefficient, by the ranks of its factors. -/
def ofProduct (factors : List Rank) : Rank := node 3 0 "Mul".toList none factors one 1

/-- The rank of a product by its factors and their ranks: a rational number in front is the
coefficient. -/
def ofFactors (ts : List Term) (ranks : List Rank) : Rank :=
  match ts, ranks with
  | [.number q, _], [_, r] => r.withCoefficient q
  | .number q :: _, _ :: rs => (ofProduct rs).withCoefficient q
  | _, rs => ofProduct rs

/-- The rank of a sum. -/
def ofSum (terms : List Monomial) : Rank :=
  node 3 1 "Add".toList none ((Monomial.ordered terms).map Monomial.rank) one 1

/-- The rank of a function's value, by the rank of the argument. -/
def ofCall (f : Func) (argument : Rank) : Rank := node 4 f.place f.name none [argument] one 1

/-- The rank of a form of several parts. -/
def ofForm (f : Form) (parts : List Rank) : Rank :=
  match f with
  | .derivative | .substituted | .rootOf => node 5 0 f.name none parts one 1
  | .piecewise => node 4 0 f.name none parts one 1
  | _ => node 4 10000 f.name none parts one 1

/-- The rank of something written by a name. -/
def ofName (kind label : Text) : Rank := node 2 0 kind (some label) [] one 1

end Rank

namespace Term

mutual

/-- The rank of a term. -/
def rank : Term → Rank
  | number q => .number 0 q
  | infinity negative => .number (if negative then -1 else 1) 0
  | undefined => .number 2 0
  | complexInfinity => .ofName "ComplexInfinity".toList "zoo".toList
  | constant c => .ofName c.kind c.name
  | symbol s => .ofName "Symbol".toList s.name
  | sum ts => .ofSum (monomials ts)
  | product ts => .ofFactors ts (ranks ts)
  | power (constant .e) x => .ofExp (rank x)
  | power b x => (shape b).withExponent (rank x)
  | apply f a => .ofCall f (rank a)
  | form f ts => .ofForm f (ranks ts)
termination_by structural t => t

/-- The rank of a base: an exponent or a coefficient of its own is a part of it. -/
def shape : Term → Rank
  | number q => .number 0 q
  | infinity negative => .number (if negative then -1 else 1) 0
  | undefined => .number 2 0
  | complexInfinity => .ofName "ComplexInfinity".toList "zoo".toList
  | constant c => .ofName c.kind c.name
  | symbol s => .ofName "Symbol".toList s.name
  | sum ts => .ofSum (monomials ts)
  | product ts => .ofProduct (ranks ts)
  | power (constant .e) x => .ofExp (rank x)
  | power b x => .node 3 2 "Pow".toList none [rank b, rank x] .one 1
  | apply f a => .ofCall f (rank a)
  | form f ts => .ofForm f (ranks ts)

/-- The ranks of several terms. -/
def ranks : List Term → List Rank
  | [] => []
  | t :: ts => rank t :: ranks ts

/-- The terms of a sum as the order of the sum sees them. -/
def monomials : List Term → List Monomial
  | [] => []
  | t :: ts =>
    let (value, exponents) := split t
    ⟨t, rank t, value, exponents⟩ :: monomials ts

/-- The value of the factors that are numbers, and the exponents of the bases of the others. -/
def split : Term → Approx × List (Rank × Int)
  | infinity negative =>
    let huge : Dyad := ⟨if negative then -1 else 1, 2 ^ 64⟩
    (.ofReal huge, [])
  | product ts => splitAll ts
  | power b x =>
    match approx? (power b x) with
    | some z => (z, [])
    | none =>
      match b with
      | constant .e =>
        let c := x.coefficient.1
        (.one, [(.ofExp ((rank x).withCoefficient (mkRat 1 c.den)), c.num)])
      | b => (.one, [Monomial.ofPower (shape b) x (rank x)])
  | sum ts =>
    match approxSum? ts with
    | some z => (z, [])
    | none => (.one, [(.ofSum (monomials ts), 1)])
  | apply f a =>
    match approx? (apply f a) with
    | some z => (z, [])
    | none => (.one, [(.ofCall f (rank a), 1)])
  | form f ts => (.one, [(.ofForm f (ranks ts), 1)])
  | number q => (.ofRat q, [])
  | constant c => (c.approx, [])
  | symbol s => (.one, [(.ofName "Symbol".toList s.name, 1)])
  | complexInfinity => (.one, [(.ofName "ComplexInfinity".toList "zoo".toList, 1)])
  | undefined => (.one, [])

/-- The values and bases of several factors. -/
def splitAll : List Term → Approx × List (Rank × Int)
  | [] => (.one, [])
  | t :: ts =>
    let (value, exponents) := split t
    let (value', exponents') := splitAll ts
    (value.mul value', exponents ++ exponents')

end

/-- Which of two terms comes first among factors? -/
def compare (s t : Term) : Ordering := s.rank.compare t.rank

/-- The factors in the order in which they are written. -/
def orderedFactors (ts : List Term) : List Term :=
  (sortBy (fun a b => Rank.compare a.1 b.1) (ts.map fun t => (t.rank, t))).map Prod.snd

/-- The terms in the order in which a sum of them is written. -/
def orderedTerms (ts : List Term) : List Term := (Monomial.ordered (monomials ts)).map Monomial.term

theorem compare_self (t : Term) : t.compare t = .eq := Rank.compare_self _

end Term

end Stepwise
