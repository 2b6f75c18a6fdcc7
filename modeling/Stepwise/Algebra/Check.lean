import Stepwise.Algebra.Simplify

/-!
# Solutions put to the test

A candidate is put in the place of the unknown. What results is zero, or it is not, or that cannot
be told. Numbers count as zero below a billionth; terms with further symbols are multiplied out, if
need be for positive values of the symbols.
-/

namespace Stepwise.Algebra

open Term

mutual

/-- What stands below fraction bars anywhere in a term, without exponents. -/
def denominators : Term → List Term
  | sum ts => denominatorsOf ts
  | product ts => denominatorsOf ts
  | power b x =>
    (match x with
    | number q => if q < 0 then [b] else []
    | x => if x.coefficient.1 < 0 then [pow b x.neg] else []) ++ denominators b ++ denominators x
  | apply _ a => denominators a
  | form _ ts => denominatorsOf ts
  | _ => []

/-- What stands below fraction bars in several terms. -/
def denominatorsOf : List Term → List Term
  | [] => []
  | t :: ts => denominators t ++ denominatorsOf ts

end

/-- The denominators that mention a symbol. -/
def denominatorsWith (x : Symbol) (t : Term) : List Term :=
  ((denominators t).filter (·.mentions x)).eraseDups

/-- The symbol with the same name for positive numbers only. -/
def positiveTwin (s : Symbol) : Symbol := ⟨s.name, .positive⟩

/-- The term with positive symbols in the place of all its symbols. -/
def positively (t : Term) : Term :=
  rewrite (fun
    | symbol s => symbol (positiveTwin s)
    | t => t) t

/-- The functions and powers of a term that are neither polynomials nor fractions. -/
def hasFunctions (t : Term) : Bool := t.any fun
  | apply _ _ => true
  | form _ _ => true
  | power _ (number q) => q.den ≠ 1
  | power _ _ => true
  | _ => false

/-- Is an approximate value smaller than a billionth? -/
def isSmall (z : Approx) : Bool :=
  let billionth : Dyad := .ofRat (1 / 1000000000)
  z.modulus.lt billionth

/-- Is the term zero? -/
def isZero? (t : Term) : Option Bool :=
  if t.isImproper then some false
  else
    match t with
    | number q => some (q = 0)
    | t =>
      if t.isClosed then t.approx?.map isSmall
      else
        let vanishes (t : Term) : Bool := expand (fraction (expand t)).1 = zero
        if vanishes t then some true
        else
          let u := expand (positively t)
          if vanishes u then some true
          else if !hasFunctions u then some false
          else if !(u.isClosed) then none
          else u.approx?.map isSmall

/-- Is the term zero where the unknown has the value `v`? -/
def holds? (x : Symbol) (v t : Term) : Option Bool :=
  if v.isImproper then some false else isZero? (substitute x v t)

/-- The candidates at which no denominator of the term is certainly zero. -/
def withDenominators (x : Symbol) (dens vs : List Term) : List Term :=
  vs.filter fun v => dens.all fun d => holds? x v d ≠ some true

end Stepwise.Algebra
