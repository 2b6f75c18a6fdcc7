import Stepwise.Polynomial.Basic

/-!
# Factors of polynomials

The rational roots of an integer polynomial are quotients of a divisor of its first and a divisor of
its last coefficient. A quadratic factor takes, at 0, 1 and -1, divisors of the values that the
polynomial takes there. Both searches are exhaustive as long as the numbers have few divisors.

Results: `eval_rationalRoots`, what is called a root is one, and `eval_quadraticFactor`, what is
called a factor divides.
-/

namespace Stepwise

/-- The divisors of a positive number, as far as its factors are found. -/
def divisors (n : Nat) : List Nat :=
  (smallFactors n).foldl
    (fun ds (p, e) => ds.flatMap fun d => (List.range (e + 1)).map fun k => d * p ^ k) [1]

namespace Poly

/-- Searches among more candidates than this are not begun. -/
def candidateLimit : Nat := 20000

/-- The numbers that the rational roots other than 0 are among. -/
def rootCandidates (p : Poly) : List Rat :=
  let p := primitive p
  match p.find? (· ≠ 0) with
  | none => []
  | some c =>
    let above := divisors c.num.natAbs
    let below := divisors p.lead.num.natAbs
    if candidateLimit < above.length * below.length then []
    else
      (above.flatMap fun a => below.flatMap fun b =>
        if Nat.gcd a b = 1 then [mkRat a b, -mkRat a b] else [])

/-- The rational roots, each of them once. -/
def rationalRoots (p : Poly) : List Rat :=
  if p.isEmpty then [] else (0 :: rootCandidates p).filter fun x => eval x p = 0

/-- The quadratic through the points (0, `u`), (1, `v`) and (-1, `w`). -/
def quadraticThrough (u v w : Rat) : Poly := trim [u, (v - w) / 2, (v + w) / 2 - u]

/-- The positive and negative divisors of a number other than zero. -/
def signedDivisors (n : Rat) : List Rat :=
  (divisors n.num.natAbs).flatMap fun (d : Nat) => [mkRat d 1, -mkRat d 1]

/-- A quadratic factor of a polynomial without rational roots, if one is found. -/
def quadraticFactor? (p : Poly) : Option Poly :=
  let p := primitive p
  let us := divisors (eval 0 p).num.natAbs
  let vs := signedDivisors (eval 1 p)
  let ws := signedDivisors (eval (-1) p)
  if candidateLimit < us.length * vs.length * ws.length then none
  else
    us.findSome? fun (u : Nat) => vs.findSome? fun v => ws.findSome? fun w =>
      let q := quadraticThrough u v w
      if q.length = 3 ∧ q.all (·.den = 1) ∧ (p.lead / q.lead).den = 1 ∧ mod p q = [] then some q
      else none

/-- The factors of a polynomial with simple roots and degree above 0, of which no rational one is
known; they are found in `steps` divisions. -/
def quadraticFactors : (steps : Nat) → Poly → List Poly
  | 0, p => [p]
  | steps + 1, p =>
    if p.degree < 4 then [p]
    else
      match quadraticFactor? p with
      | some q => q :: quadraticFactors steps (div p q)
      | none => [p]

/-- The factors of a polynomial with simple roots, as far as they are found: the rational roots
give linear ones. All have integer coefficients without a common factor. -/
def simpleFactors (p : Poly) : List Poly :=
  let linear := (rationalRoots p).map fun x => primitive [-x, 1]
  let rest := linear.foldl div p
  linear ++ if rest.degree = 0 then [] else (quadraticFactors rest.length rest).map primitive

/-- The factors of a polynomial with their multiplicities. -/
def factors (p : Poly) : List (Poly × Nat) :=
  (byMultiplicity p).flatMap fun (q, k) => (simpleFactors q).map fun f => (f, k)

theorem eval_rationalRoots {p : Poly} {x : Rat} (h : x ∈ rationalRoots p) : eval x p = 0 := by
  unfold rationalRoots at h
  split at h
  · simp at h
  · simpa using (List.mem_filter.1 h).2

theorem mod_quadraticFactor {p q : Poly} (h : quadraticFactor? p = some q) :
    mod (primitive p) q = [] := by
  unfold quadraticFactor? at h
  dsimp only at h
  split at h
  · simp at h
  · obtain ⟨u, -, h⟩ := List.exists_of_findSome?_eq_some h
    obtain ⟨v, -, h⟩ := List.exists_of_findSome?_eq_some h
    obtain ⟨w, -, h⟩ := List.exists_of_findSome?_eq_some h
    split at h
    · next hq => obtain rfl := Option.some.inj h; exact hq.2.2.2
    · simp at h

theorem eval_quadraticFactor {p q : Poly} (h : quadraticFactor? p = some q) (x : Rat) :
    eval x (primitive p) = eval x (div (primitive p) q) * eval x q := by
  have := eval_divMod x (primitive p) q
  rw [mod_quadraticFactor h] at this
  rw [this]
  simp only [eval]
  grind

end Poly

end Stepwise
