import Stepwise.Polynomial.Several

/-!
# Factors of polynomials in several variables

A polynomial is freed of the factors without one of its variables, each variable in turn, and taken
apart by multiplicity. What remains cannot be split if it is linear in some variable; if it is
quadratic in one, it splits exactly if the discriminant is a square; and if all its terms have one
degree in two variables, it splits as the polynomial in one variable that it stands for. Anything
else is left as one factor.
-/

namespace Stepwise

namespace MPoly

/-- Brings the variable number `i` to the front. -/
def toFront (i : Nat) (p : MPoly) : MPoly :=
  p.foldr (fun t q => addTerm (t.1.getD i 0 :: t.1.eraseIdx i, t.2) q) []

/-- Brings the front variable back to place number `i`. -/
def fromFront (i : Nat) (p : MPoly) : MPoly :=
  p.foldr (fun t q => addTerm (t.1.tail.insertIdx i (t.1.headD 0), t.2) q) []

/-- The degree in the variable number `i`. -/
def degreeIn (i : Nat) (p : MPoly) : Nat := p.foldl (fun d t => max d (t.1.getD i 0)) 0

/-- The greatest common divisor of the coefficients as a polynomial in the variable number `i`. -/
def contentIn (i : Nat) (p : MPoly) : MPoly :=
  let n := p.arity
  let c := (coefficients (toFront i p)).foldl (gcdIn (n - 1)) []
  fromFront i (c.map fun t => (0 :: t.1, t.2))

/-- The derivative by the variable number `i`. -/
def derivativeIn (i : Nat) (p : MPoly) : MPoly :=
  p.foldr (fun t q =>
    let k : Nat := t.1.getD i 0
    if k = 0 then q else addTerm (t.1.set i (k - 1), mkRat k 1 * t.2) q) []

/-- The rational square root, if there is one. -/
def rationalRoot? (q : Rat) : Option Rat :=
  if q < 0 then none
  else
    match exactRoot? 2 q.num.natAbs, exactRoot? 2 q.den with
    | some a, some b => some (mkRat a b)
    | _, _ => none

/-- Adds terms to a square root until its square is `p`. -/
def rootIn? : (steps : Nat) → (lead : MonomialTerm) → (r p : MPoly) → Option MPoly
  | 0, _, _, _ => none
  | steps + 1, lead, r, p =>
    match sub p (mul r r) with
    | [] => some r
    | t :: _ =>
      (subExponents? t.1 lead.1).bind fun e =>
        if compareExponents e lead.1 = .lt then
          rootIn? steps lead (add r [(e, t.2 / (2 * lead.2))]) p
        else none

/-- The square root, if the polynomial is a square. -/
def root? (p : MPoly) : Option MPoly :=
  match p with
  | [] => some []
  | t :: _ =>
    if t.1.all fun k => k % 2 = 0 then
      (rationalRoot? t.2).bind fun c =>
        let lead : MonomialTerm := (t.1.map (· / 2), c)
        rootIn? (stepBound p + 1) lead [lead] p
    else none

/-- The factors of a polynomial that is quadratic in its first variable. -/
def splitQuadratic (p : MPoly) : List MPoly :=
  let n := p.arity
  match coefficients p with
  | [c, b, a] =>
    match root? (sub (mul b b) (mul (const (n - 1) 4) (mul a c))) with
    | some r =>
      let factor (s : MPoly) : MPoly :=
        let f := ofCoefficients [s, scale 2 a]
        let g := contentIn 0 f
        primitive ((div? f g).getD f)
      [factor (add b r), factor (sub b r)]
    | none => [p]
  | _ => [p]

/-- If all terms have the same degree in exactly two variables, these variables and the degree. -/
def homogeneous? (p : MPoly) : Option (Nat × Nat × Nat) :=
  match (List.range p.arity).filter fun i => degreeIn i p ≠ 0 with
  | [i, j] =>
    let degrees := p.map fun t => t.1.getD i 0 + t.1.getD j 0
    match degrees with
    | [] => none
    | d :: ds => if ds.all (· = d) then some (i, j, d) else none
  | _ => none

/-- The factors of a polynomial whose terms have one degree in the variables number `i` and `j`. -/
def splitHomogeneous (i j : Nat) (p : MPoly) : List MPoly :=
  let n := p.arity
  let q : Poly := Poly.trim ((List.range (degreeIn i p + 1)).map fun k =>
    ((p.find? fun t => t.1.getD i 0 = k).map Prod.snd).getD 0)
  (Poly.simpleFactors q).map fun f =>
    (f.zipIdx.foldr (fun (c, k) (r : MPoly) =>
      addTerm (((List.replicate n 0).set i k).set j (f.degree - k), c) r) [])

/-- The factors of a polynomial of one variable, number `i`. -/
def splitSingle (i : Nat) (p : MPoly) : List MPoly :=
  let n := p.arity
  let q : Poly := Poly.trim ((List.range (degreeIn i p + 1)).map fun k =>
    ((p.find? fun t => t.1.getD i 0 = k).map Prod.snd).getD 0)
  (Poly.simpleFactors q).map fun f =>
    f.zipIdx.foldr (fun (c, k) (r : MPoly) => addTerm ((List.replicate n 0).set i k, c) r) []

/-- The factors of a polynomial without multiple factors and without a factor that lacks one of its
variables. -/
def splitSimple (p : MPoly) : List MPoly :=
  let used := (List.range p.arity).filter fun i => degreeIn i p ≠ 0
  match used with
  | [] => []
  | [i] => splitSingle i p
  | _ =>
    if used.any fun i => degreeIn i p = 1 then [p]
    else
      match used.find? fun i => degreeIn i p = 2 with
      | some i => (splitQuadratic (toFront i p)).map (fromFront i)
      | none =>
        match homogeneous? p with
        | some (i, j, _) => splitHomogeneous i j p
        | none => [p]

/-- Takes a polynomial apart by the multiplicity of its factors that hold the variable number `i`:
`p` is divided by `g` again and again. -/
def multiplicities (i : Nat) : (steps k : Nat) → (p g : MPoly) → List (MPoly × Nat)
  | 0, k, p, _ => [(p, k)]
  | steps + 1, k, p, g =>
    if degreeIn i p = 0 then []
    else
      let common := gcd p g
      let here := (div? p common).getD p
      let rest := multiplicities i steps (k + 1) common ((div? g common).getD g)
      if degreeIn i here = 0 then rest else (primitive here, k) :: rest

/-- The factors of a polynomial in the variables from number `i` on that divide it, with their
multiplicities; `count` variables are left. -/
def factorsFrom : (count i : Nat) → MPoly → List (MPoly × Nat)
  | 0, _, _ => []
  | count + 1, i, p =>
    if degreeIn i p = 0 then factorsFrom count (i + 1) p
    else
      let c := contentIn i p
      let q := primitive ((div? p c).getD p)
      let g := gcd q (derivativeIn i q)
      let here := (multiplicities i (totalDegree q + 1) 1 ((div? q g).getD q) g).flatMap
        fun (f, k) => (freeOf (List.range p.arity) f).flatMap fun f =>
          (splitSimple f).map fun f => (primitive f, k)
      here ++ factorsFrom count (i + 1) c
where
  /-- The parts of a polynomial that have a common factor without one of the variables, and the
  rest. -/
  freeOf : List Nat → MPoly → List MPoly
  | [], p => [p]
  | j :: js, p =>
    if degreeIn j p = 0 then freeOf js p
    else
      let c := contentIn j p
      if c.isConstant then freeOf js p
      else freeOf js c ++ freeOf js (primitive ((div? p c).getD p))

/-- The factors with their multiplicities; a number in front is left out. -/
def factors (p : MPoly) : List (MPoly × Nat) := factorsFrom p.arity 0 p

end MPoly

end Stepwise
