import Stepwise.Algebra.Check

/-!
# Identities

A term vanishes identically if it does so multiplied out, over one fraction bar, or, where functions
occur in it, at several points that no simple relation connects.
-/

namespace Stepwise.Algebra

open Term

/-- The value of the symbol number `i` at the sample point number `k`. -/
def sample (k i : Nat) : Approx :=
  let sign : Int := if (k + i) % 2 = 0 then 1 else -1
  ⟨.ofRat (mkRat (sign * (7 * i + 3 * k + 2)) 5), .ofRat (mkRat (2 * k + 3 * i + 1) 13)⟩

/-- The value of a term at a sample point. -/
def sampleValue? (t : Term) (k : Nat) : Option Approx :=
  let symbols := t.symbols.eraseDups
  t.valueAt? fun s => some (sample k (symbols.idxOf s))

/-- Is an approximate value zero, as far as can be told? -/
def isNearZero (z : Approx) : Bool :=
  (z.re.isZero || z.re.magnitude < -150) && (z.im.isZero || z.im.magnitude < -150)

/-- Does the term vanish at every sample point where it has a value, and at one of them at least? -/
def vanishesAtSamples (t : Term) : Bool :=
  let values := (List.range 4).filterMap (sampleValue? t)
  !values.isEmpty && values.all isNearZero

/-- Is the term zero for all values of its symbols? -/
def vanishes (t : Term) : Bool :=
  if t = zero then true
  else if t.isImproper then false
  else
    let u := Term.expand t
    if u = zero then true
    else if u.isImproper then false
    else
      let n := Term.expand (fraction u).1
      if n = zero then true
      else hasFunctions n && vanishesAtSamples n

end Stepwise.Algebra
