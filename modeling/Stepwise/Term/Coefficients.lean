import Stepwise.Polynomial.Factor
import Stepwise.Term.Expand

/-!
# Terms as polynomials and fractions

A term that is multiplied out may be a polynomial in one of its symbols, with coefficients that are
terms without this symbol or rational numbers. `fraction` brings a term over one fraction bar, and
`rational?` reduces a fraction of polynomials in a single symbol.
-/

namespace Stepwise.Term

/-- Puts a term in the place of a symbol. -/
def substitute (x : Symbol) (v t : Term) : Term :=
  rewrite (fun u => if u = symbol x then v else u) t

/-- The exponent of a symbol in a factor that is a natural power of it. -/
def exponentOf? (x : Symbol) : Term → Option Nat
  | symbol s => if s = x then some 1 else none
  | power (symbol s) (number q) =>
    if s = x ∧ q.den = 1 ∧ 0 ≤ q.num then some q.num.toNat else none
  | _ => none

/-- The coefficient and the exponent of a symbol in a term of a sum. -/
def monomial? (x : Symbol) (t : Term) : Option (Term × Nat) :=
  match t.factors.filter (·.mentions x) with
  | [] => some (t, 0)
  | [f] =>
    (exponentOf? x f).map fun n => (mulAll (t.factors.filter fun u => !u.mentions x), n)
  | _ => none

/-- The value of a function at every element, if it has one everywhere. -/
def allSome {α β : Type} (f : α → Option β) : List α → Option (List β)
  | [] => some []
  | a :: as =>
    match f a, allSome f as with
    | some b, some bs => some (b :: bs)
    | _, _ => none

/-- The coefficients of the powers of a symbol, the constant one first. -/
def collect (ms : List (Term × Nat)) : List Term :=
  let degree := ms.foldl (fun d m => max d m.2) 0
  (List.range (degree + 1)).map fun k => addAll ((ms.filter fun m => m.2 = k).map Prod.fst)

/-- A term as a polynomial in a symbol: its coefficients, the constant one first. -/
def coefficients? (x : Symbol) (t : Term) : Option (List Term) :=
  (allSome (monomial? x) (expand t).terms).map collect

/-- A term as a polynomial with rational coefficients. -/
def poly? (x : Symbol) (t : Term) : Option Poly :=
  ((coefficients? x t).bind (allSome number?)).map Poly.trim

/-- The sum of coefficients times powers of a term, from the `k`-th power on. -/
def ofCoefficients (x : Term) (cs : List Term) : Term :=
  addAll (cs.zipIdx.map fun (c, k) => mul c (pow x (ofInt k)))

/-- The value of a polynomial at a term. -/
def ofPoly (x : Term) (p : Poly) : Term := ofCoefficients x (p.map number)

/-! ### Fractions -/

/-- Adds a numerator to those over the same denominator. -/
def addOver (n d : Term) : List (Term × List Term) → List (Term × List Term)
  | [] => [(d, [n])]
  | (d', ns) :: rest => if d' = d then (d', ns ++ [n]) :: rest else (d', ns) :: addOver n d rest

/-- The products of all elements but one, each time together with this one. -/
def others {α : Type} : (before : List α) → List α → List (α × List α)
  | _, [] => []
  | before, a :: after => (a, before.reverse ++ after) :: others (a :: before) after

/-- The sum of fractions: numerators over equal denominators are added first, and the numbers in
the denominators have a common multiple. -/
def addFractions (fs : List (Term × Term)) : Term × Term :=
  let common := fs.foldl (fun l f => Nat.lcm l f.2.coefficient.1.num.natAbs) 1
  let groups := fs.foldl (fun gs (n, d) =>
    let (k, r) := d.coefficient
    addOver (scale (mkRat common 1 / k) n) r gs) []
  let sums := groups.map fun (d, ns) => (d, addAll ns)
  (addAll ((others [] sums).map fun (g, gs) => mulAll (g.2 :: gs.map Prod.fst)),
    mulAll (ofInt common :: sums.map Prod.fst))

mutual

/-- The numerator and the denominator of a term. -/
def fraction : Term → Term × Term
  | number q => (ofInt q.num, ofInt q.den)
  | sum ts => addFractions (fractions ts)
  | product ts =>
    let fs := fractions ts
    (mulAll (fs.map Prod.fst), mulAll (fs.map Prod.snd))
  | power b x =>
    match x with
    | number q =>
      if q.den = 1 then
        let (n, d) := fraction b
        if 0 ≤ q then (pow n x, pow d x) else (pow d x.neg, pow n x.neg)
      else
        let (n, d) := fraction b
        let (n, d) := if d ≠ one ∧ d.signs.isNotNegative then (n, d) else (b, one)
        if 0 ≤ q then (pow n x, pow d x) else (pow d x.neg, pow n x.neg)
    | x =>
      let (n, d) := fraction b
      let (n, d) := if d ≠ one ∧ d.signs.isPositive then (n, d) else (b, one)
      if x.coefficient.1 < 0 then (pow d x.neg, pow n x.neg) else (pow n x, pow d x)
  | t => (t, one)

/-- The numerators and denominators of several terms. -/
def fractions : List Term → List (Term × Term)
  | [] => []
  | t :: ts => fraction t :: fractions ts

end

/-- A term as a fraction of polynomials without a common factor; the denominator has integer
coefficients without a common factor. -/
def rational? (x : Symbol) (t : Term) : Option (Poly × Poly) :=
  let (n, d) := fraction t
  match poly? x n, poly? x d with
  | some p, some q =>
    if q.isEmpty then none
    else
      let g := Poly.gcd p q
      let p := Poly.div p g
      let q := Poly.div q g
      let c := Poly.content q
      some (Poly.scale c⁻¹ p, Poly.scale c⁻¹ q)
  | _, _ => none

end Stepwise.Term
