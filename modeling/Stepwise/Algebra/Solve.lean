import Stepwise.Algebra.Branch
import Stepwise.Algebra.HalfAngle
import Stepwise.Algebra.Lambert
import Stepwise.Algebra.Roots
import Stepwise.Calculus.Derivative

/-!
# Equations solved

The zeros of a term are searched for by its form. A product vanishes with its factors, and a term
that is linear in the unknown has one zero. A term that is a polynomial in one generator, such as
the unknown itself or one of its powers, exponentials and functions, is solved for the generator first.
Otherwise circular functions are written by half angles, roots are removed, logarithms are joined,
exponentials compared, and as a last resort all symbols are taken to be positive. Candidates are put
to the test, and real unknowns have only values that are not known to be otherwise.

The search goes on with smaller equations: each step is given the search below it.
-/

namespace Stepwise.Algebra

open Term

/-- What is known about an equation from those that led to it. -/
structure Effort where
  /-- The roots of a polynomial in the only generator were tried already. -/
  rootsTried : Bool
  /-- Solutions stay as they are found. -/
  verbatim : Bool
  /-- Candidates are tested later on. -/
  untested : Bool
  /-- All symbols are positive already. -/
  positive : Bool
  /-- The transcendental equations on the way. -/
  seen : List Term

/-- No equation led here. -/
def Effort.start : Effort := ⟨false, false, false, false, []⟩

/-- The search for the zeros of a term in an unknown. Without an answer it was given up. -/
abbrev Search := Effort → Symbol → Term → Option (List Term)

/-- The answers to several questions together, if each is answered. -/
def allTogether (answers : List (Option (List Term))) : Option (List Term) :=
  (allSome id answers).map List.flatten

/-- Is this a symbol that stands for something else in a search? -/
def isAuxiliary (s : Symbol) : Bool := s.name.head? = some '_'

/-- A symbol that does not occur in a term. -/
def freshSymbol (t : Term) : Symbol :=
  let names := t.symbols.map Symbol.name
  let name (k : Nat) : Text := "_t".toList ++ Text.ofNat k
  let k := ((List.range (names.length + 1)).find? fun k => !names.contains (name k)).getD 0
  ⟨name k, .complex⟩

namespace Search

variable (below : Search)

/-! ### One linear occurrence -/

/-- The zero of a term whose numerator is linear in the unknown; a constant has none. -/
def linearZero? (x : Symbol) (t : Term) : Option (List Term) :=
  let (n, _) := fraction t
  let slope := Term.derivative x n
  if n = zero || !n.mentions x || slope = zero then some []
  else if slope.mentions x then none
  else
    let v := spread (mul (neg (inv slope)) (substitute x zero n))
    match withDenominators x (denominatorsWith x t) [v] with
    | [] => none
    | vs => some vs

/-! ### One generator -/

/-- The coefficients of the powers of a generator in a term that is multiplied out. -/
def coefficientsIn (g t : Term) : List Term :=
  collect (t.terms.map fun u =>
    let parts := u.factors.map fun f => (f, decompose f)
    let n := (parts.filter fun p => p.2.1 = g).foldl (fun n p => n + p.2.2) 0
    (mulAll ((parts.filter fun p => p.2.1 ≠ g).map Prod.fst), n))

/-- The zeros by one generator: the values of the generator, and where it takes them. -/
def byGenerator (o : Effort) (x : Symbol) (g t : Term) : Option (List Term) :=
  let values := roots (coefficientsIn g t)
  if g = symbol x then some values
  else
    let s := freshSymbol t
    (below { o with rootsTried := true } x (sub g (symbol s))).map fun places =>
      (places.flatMap fun p => values.map fun v => substitute s v p).eraseDups

/-! ### Several generators -/

/-- The base of a generator with the rational number in front of its exponent taken out, and the
denominator of this number. -/
def baseAndOrder (g : Term) : Term × Nat :=
  match g with
  | power b (number q) => (b, q.den)
  | power b x =>
    let (c, r) := x.coefficient
    if c = 1 then (g, 1) else (pow b r, c.den)
  | g => (g, 1)

/-- Every power with its exponent multiplied out and sums in it taken apart. -/
def spreadExponents (t : Term) : Term :=
  rewrite (fun
    | power b x =>
      match spread x with
      | sum xs => mulAll (xs.map (pow b))
      | y => pow b y
    | t => t) t

/-- Powers of a generator as powers of a symbol. -/
def abstracted (g : Term) (s : Symbol) (t : Term) : Term :=
  rewrite (fun t =>
    if t = g then symbol s
    else
      match g, t with
      | power b y, power b' y' =>
        let (c, r) := y.coefficient
        let (c', r') := y'.coefficient
        if b = b' && r = r' && (c' / c).den = 1 then pow (symbol s) (number (c' / c)) else t
      | g, power b (number q) => if b = g && q.den = 1 then pow (symbol s) (number q) else t
      | _, t => t) t

/-- The zeros of a term whose generators are natural powers of one, above and below the bar. -/
def byBase (o : Effort) (x : Symbol) (g t : Term) : Option (List Term) :=
  let s := freshSymbol t
  (below o x (sub g (symbol s))).bind fun places =>
    let u := abstracted g s (spreadExponents t)
    if u.mentions x then none
    else
      (below o s u).map fun values =>
        (places.flatMap fun p => values.map fun v => substitute s v p).eraseDups

/-- The functions among the generators. -/
def functionsOf (gs : List Term) : List Term := gs.filter fun
  | apply _ _ => true
  | power (constant .e) _ => true
  | _ => false

/-- Is this a circular function? -/
def isCircularCall : Term → Bool
  | apply f _ => isCircular f
  | _ => false

/-- The zeros of a term in circular functions only, by the tangent. -/
def byTangent (o : Effort) (x : Symbol) (t : Term) : Option (List Term) :=
  let u := (ofTangent? t).getD (ofHalf x t)
  if u = t then none else below { o with untested := true } x u

/-- The zeros of a term in which nothing but one function mentions the unknown. -/
def byFunction (o : Effort) (x : Symbol) (f t : Term) : Option (List Term) :=
  let s := freshSymbol t
  let u := abstracted f s t
  if u.mentions x then none
  else
    match below o s u, below o x (sub (symbol s) f) with
    | some values, some places =>
      match sortBy Term.compare places with
      | p :: _ => some (values.map fun v => substitute s v p)
      | [] => none
    | _, _ => none

/-- The zeros by several generators. The search is given up with `none` inside, and another way is
to be tried with `none` outside. -/
def byGenerators (o : Effort) (x : Symbol) (gs : List Term) (t : Term) :
    Option (Option (List Term)) :=
  let parts := gs.map baseAndOrder
  match (parts.map Prod.fst).eraseDups with
  | [g] =>
    if parts.all fun p => p.2 = 1 then
      match below o x (sub g (symbol (freshSymbol t))) with
      | none => some none
      | some _ => (byBase below o x g t).map some
    else byFirst (parts.map Prod.fst).eraseDups
  | bases => byFirst bases
where
  /-- By the circular functions, or by the first function. -/
  byFirst (bases : List Term) : Option (Option (List Term)) :=
    let fs := sortBy Term.compare (functionsOf bases)
    let tangent := if 1 < fs.length && fs.all isCircularCall then byTangent below o x t else none
    match tangent, fs with
    | some vs, _ => some (some vs)
    | none, f :: _ => (byFunction below o x f t).map some
    | none, [] => none

/-! ### Roots removed -/

/-- The zeros of a term with roots of the unknown. -/
def byRadicals (o : Effort) (x : Symbol) (t : Term) : Option (Option (List Term)) :=
  let plain : Zeros := fun y u => below { o with untested := true, verbatim := true } y u
  match Radical.free? plain x t with
  | none => none
  | some ⟨u, none⟩ => (below o x u).map some
  | some ⟨u, some change⟩ =>
    match below o x change.equation, below o change.unknown u with
    | some (p :: _), some vs => some (some (vs.map fun v => substitute change.unknown v p))
    | _, _ => some none

/-! ### Transcendental equations -/

/-- Powers of perfect powers as powers of their roots. -/
def denested (t : Term) : Term :=
  rewrite (fun
    | power (number q) x =>
      if q.den = 1 && 1 < q && x.number?.isNone then
        match perfectPower? q.num.natAbs with
        | some (r, k) => power (ofInt r) (scale (mkRat k 1) x)
        | none => power (number q) x
      else power (number q) x
    | t => t) t

/-- The exponent that turns one number into another one, if it is a fraction with a small
denominator or has another form with which this can be shown. -/
def exponent? (b v : Term) : Option Term :=
  let (m, l) := (log (abs v), log (abs b))
  let value := (div m l).approx?.filter fun z => b.isClosed && v.isClosed && z.isReal
  value.bind fun z =>
    let fraction? := (List.range 12).findSome? fun (k : Nat) =>
      let n := ((z.re.mul (.ofInt (k + 1 : Nat))).add (.ofRat (1 / 2))).floor
      let q := mkRat n (k + 1)
      let error := z.re.sub (.ofRat q)
      if error.isZero || error.magnitude < -50 then some (number q) else none
    let guess := fraction?.getD (simplify (div m l))
    let (n, d) := numeratorDenominator guess
    if expand (sub (pow b n) (pow v d)) = zero then some guess else none

/-- Where `b ^ y = v`, with a base without the unknown. -/
def byExponent (o : Effort) (x : Symbol) (b y v : Term) : Option (List Term) :=
  if v = zero then some []
  else
    let (vb, vy) := match v with
      | power vb vy => (vb, vy)
      | v => (v, one)
    let found := if b = vb then below o x (sub y vy)
      else below o x (sub (Term.exp (mul (log b) y)) v)
    match found, exponent? b v with
    | some vs, some r =>
      let others := vs.filter fun w => isZero? (sub (substitute x w y) r) ≠ some true
      (below o x (sub y r)).map fun ws => (others ++ ws).eraseDups
    | found, _ => found

/-- Where `b ^ y = v`, if base and exponent mention the unknown. -/
def byBoth (o : Effort) (x : Symbol) (b y v t : Term) : Option (List Term) :=
  let plain := (below o x (sub (mul y (log b)) (log v))).getD []
  let guesses : List Term := match v with
    | number q =>
      if q = 1 then [y, sub b one, add b one]
      else if q.den = 1 && 1 < q then
        ((divisors q.num.natAbs).filter (1 < ·)).flatMap fun d =>
          let k := (Term.multiplicity d q).toNat
          if k ≠ 0 && d ^ k = q.num.natAbs then
            [sub b (ofInt d), add b (ofInt d), sub y (ofInt k)]
          else []
      else []
    | _ => []
  let candidates := guesses.flatMap fun u => (below o x u).getD []
  some ((plain ++ candidates.filter fun w => holds? x w t = some true).eraseDups)

/-- The power that `t` is, as an equation. -/
def byPower (o : Effort) (x : Symbol) (b y v t : Term) : Option (List Term) :=
  if y.integer?.isSome && sub (pow b y) v ≠ t then below o x (sub (pow b y) v)
  else if !y.mentions x then below o x (sub b (pow v (inv y)))
  else if v.symbols.any isAuxiliary then none
  else if !b.mentions x then byExponent below o x b y v
  else if v = zero then
    (below o x b).map fun vs => vs.filter fun w => substitute x w y ≠ zero
  else byBoth below o x b y v t

/-- The values at which a sine or a cosine is taken, up to full turns. -/
def arcs? (f : Func) (v : Term) : Option (List Term) :=
  match f with
  | .sin => let a := call .asin v; some [a, sub pi a]
  | .cos => let a := call .acos v; some [a, sub (scale 2 pi) a]
  | _ => none

/-- Powers of numbers by the exponential function, circular functions by exponentials. -/
def exponentialForm (x : Symbol) (t : Term) : Term :=
  let i := Term.i
  rewrite (fun
    | power b y =>
      if y.mentions x && b.isClosed && b ≠ e then Term.exp (mul y (log b)) else power b y
    | apply f a =>
      if !a.mentions x then apply f a
      else
        let p := Term.exp (mul i a)
        let q := Term.exp (neg (mul i a))
        match f with
        | .sin => scale (1 / 2) (mul i (sub q p))
        | .cos => scale (1 / 2) (add p q)
        | .tan => div (mul i (sub q p)) (add q p)
        | .cot => div (mul i (add q p)) (sub p q)
        | .sec => div (ofInt 2) (add p q)
        | .csc => div (scale 2 i) (sub p q)
        | f => apply f a
    | t => t) t

/-- The zeros of a sum of logarithms, joined to one. -/
def byJoining (o : Effort) (x : Symbol) (lhs rhs : Term) : Option (List Term) :=
  if rhs = zero && (functionsOf (rawGenerators lhs)).length ≠ 2 then none
  else
    let joined := combineLogs (!o.positive) lhs
    if countLogs joined = countLogs lhs then none
    else
      match joined with
      | apply .log a => below o x (sub a (Term.exp rhs))
      | u => below o x (sub u rhs)

/-- The zeros of an equation of which everything without the unknown is on the other side. -/
def bySide (o : Effort) (x : Symbol) (lhs rhs t : Term) : Option (List Term) :=
  let rewritten : Option (List Term) :=
    let u := exponentialForm x lhs
    if u = lhs then none else below o x (sub u rhs)
  match lhs with
  | sum ts =>
    match factor (denested (sub (sum ts) rhs)) with
    | product us => below o x (product us)
    | _ => (byJoining below o x (sum ts) rhs).or rewritten
  | power b y => if b = e then rewritten else byPower below o x b y rhs t
  | apply f a =>
    match arcs? f rhs with
    | some vs => allTogether (vs.map fun v => below o x (sub a v))
    | none =>
      if f = .lambert then below o x (sub a (mul rhs (Term.exp rhs))) else rewritten
  | _ => rewritten

/-- The zeros with all symbols positive. -/
def byPositive (o : Effort) (x : Symbol) (t : Term) : Option (List Term) :=
  if o.positive then none
  else
    let unsigned := t.symbols.eraseDups.filter fun s => s.domain ≠ .positive
    let twin := if unsigned.contains x then positiveTwin x else x
    (below { o with positive := true } twin (positively t)).map fun vs =>
      vs.map fun v => unsigned.foldl (fun v s => substitute (positiveTwin s) (symbol s) v) v

/-- The zeros of a term that is no polynomial in one generator. -/
def transcendental (o : Effort) (x : Symbol) (t : Term) : Option (List Term) :=
  if o.seen.contains t then none
  else
    let o := { o with seen := t :: o.seen, rootsTried := false }
    let ⟨lhs, rhs⟩ := isolate x t
    if lhs = symbol x then some [rhs]
    else
      let plain : Zeros := fun y u => below { o with untested := true } y u
      (bySide below o x lhs rhs t).or <|
        (lambertSolutions? plain (freshSymbol t) x lhs rhs).or (byPositive below o x (sub lhs rhs))

/-! ### All together -/

/-- Candidates simplified and tested in the numerator and the denominators. -/
def finished (o : Effort) (x : Symbol) (t n : Term) (verbatim tested : Bool) (vs : List Term) :
    List Term :=
  let vs := vs.eraseDups
  let vs := if verbatim then vs else (vs.map simplify).eraseDups
  if o.untested then vs
  else
    let vs := withDenominators x (denominatorsWith x t) vs
    if tested then vs else vs.filter fun v => holds? x v n ≠ some false

/-- The zeros of a sum, a power or a function. -/
def zerosOfOther (o : Effort) (x : Symbol) (t : Term) : Option (List Term) :=
  match linearZero? x t with
  | some vs => some (if o.verbatim then vs else vs.map simplify)
  | none =>
    let (n, _) := fraction t
    let u := expand n
    let gs := ((rawGenerators u).filter (·.mentions x)).eraseDups
    let other : Option (List Term) :=
      match byRadicals below o x n with
      | some found => found.map (finished o x t n true false)
      | none => (transcendental below o x n).map (finished o x t n o.verbatim false)
    match gs with
    | [g] =>
      if o.rootsTried then other
      else
        match byGenerator below o x g u with
        | some vs => some (finished o x t n (o.verbatim || 2 < vs.length) (g = symbol x) vs)
        | none => other
    | gs =>
      match byGenerators below o x gs u with
      | some found => found.map (finished o x t n o.verbatim false)
      | none => other

/-- The zeros of a term. -/
def zerosOf (o : Effort) (x : Symbol) (t : Term) : Option (List Term) :=
  match t with
  | product ts =>
    if ts.any fun t => t.isImproper then some []
    else
      (allTogether (ts.map (below o x))).map fun vs =>
        let vs := vs.eraseDups
        if o.untested then vs else withDenominators x (denominatorsWith x t) vs
  | t => zerosOfOther below o x t

/-- The search that goes on at most so often with smaller equations. -/
def ofDepth : (depth : Nat) → Search
  | 0 => fun _ _ _ => none
  | depth + 1 => zerosOf (ofDepth depth)

end Search

/-- The search for zeros. -/
def search : Search := .ofDepth 24

/-- The zeros of a term, branch by branch if it holds absolute values. -/
def zeros? (x : Symbol) (t : Term) : Option (List Term) :=
  let t := byExponentials x t
  match Branch.resolve? x 12 ⟨[], t⟩ with
  | none => none
  | some [⟨[], t⟩] => search .start x (joinAngles x t)
  | some bs => solveBranches? (fun y u => search .start y u) x bs

/-- The solutions of an equation for an unknown, in order, unless the search is given up. -/
def solve? (x : Symbol) (left right : Term) : Option (List Term) :=
  let t := sub left right
  if left = right || t.isImproper || !t.mentions x then some []
  else
    (zeros? x t).map fun vs =>
      sortBy Term.compare
        (vs.eraseDups.filter fun v => !(x.domain = .real && v.reality.real = some false))

end Stepwise.Algebra
