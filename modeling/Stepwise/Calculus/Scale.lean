import Stepwise.Term.Expand

/-!
# Scales of growth

Near a point that a variable approaches, terms are compared with products of powers of a small
positive `t`, powers of `ℓ = log (1 / t)` and of `log ℓ`, and exponentials of sums of such products
that grow beyond all bounds. A scale is one of these products. Of two scales the one with the greater
exponential dominates, then the one with the lower power of `t`, then the one with the higher power
of `ℓ`, and at last the one with the higher power of `log ℓ`.
-/

namespace Stepwise.Calculus

open Term

/-- A term `coefficient · t ^ power · ℓ ^ logs · (log ℓ) ^ logLogs` of an exponent. -/
structure Exponent where
  coefficient : Term
  power : Rat
  logs : Int
  logLogs : Int

/-- The product of an exponential, a power of `t`, a power of `ℓ` and a power of `log ℓ`. -/
structure Scale where
  /-- The terms of the exponent, the dominating one first. -/
  exponent : List Exponent
  power : Rat
  logs : Int
  logLogs : Int

/-- Is a coefficient zero, as far as can be told? -/
def isZeroCoefficient (c : Term) : Bool :=
  c = zero || (c.isClosed && (match c.approx? with
    | some z => z.isZero
    | none => false))

namespace Scale

/-- The scale of constants. -/
def one : Scale := ⟨[], 0, 0, 0⟩

/-- How `t ^ a ℓ ^ b (log ℓ) ^ c` grows: beyond all bounds, not at all, or towards zero. -/
def plainGrowth (a : Rat) (b c : Int) : Ordering :=
  if a < 0 then .gt
  else if 0 < a then .lt
  else if 0 < b then .gt
  else if b < 0 then .lt
  else if 0 < c then .gt
  else if c < 0 then .lt
  else .eq

/-- Puts a term into an exponent. -/
def insertExponent (e : Exponent) : List Exponent → List Exponent
  | [] => [e]
  | f :: fs =>
    match plainGrowth (e.power - f.power) (e.logs - f.logs) (e.logLogs - f.logLogs) with
    | .gt => e :: f :: fs
    | .lt => f :: insertExponent e fs
    | .eq =>
      let c := Term.expand (add e.coefficient f.coefficient)
      if isZeroCoefficient c then fs else { f with coefficient := c } :: fs

def mul (s u : Scale) : Scale :=
  ⟨s.exponent.foldr insertExponent u.exponent, s.power + u.power, s.logs + u.logs,
    s.logLogs + u.logLogs⟩

/-- A rational power, if the powers of `ℓ` and `log ℓ` stay whole. -/
def pow? (s : Scale) (r : Rat) : Option Scale :=
  let logs : Rat := r * s.logs
  let logLogs : Rat := r * s.logLogs
  if logs.den = 1 ∧ logLogs.den = 1 then
    let scaledBy (e : Exponent) : Exponent := { e with coefficient := scale r e.coefficient }
    some ⟨if r = 0 then [] else s.exponent.map scaledBy,
      r * s.power, logs.num, logLogs.num⟩
  else none

def inv (s : Scale) : Scale := (s.pow? (-1)).getD one

/-- How the scale grows. -/
def growth (s : Scale) : Ordering :=
  match s.exponent with
  | e :: _ =>
    -- An exponential of a multiple of `ℓ` is a power of `t`.
    let c := if e.power = 0 ∧ e.logs = 1 ∧ e.logLogs = 0 then
        Term.sub e.coefficient (number s.power)
      else e.coefficient
    if c.signs.isNegative then .lt else .gt
  | [] => plainGrowth s.power s.logs s.logLogs

/-- Which of two scales dominates? -/
def compare (s u : Scale) : Ordering := (s.mul u.inv).growth

/-- The dominating one of two scales. -/
def dominant (s u : Scale) : Scale := if s.compare u = .lt then u else s

/-- The scale of `1 / t`. -/
def reciprocal : Scale := ⟨[], -1, 0, 0⟩

/-- The scale of `ℓ`. -/
def logarithmic : Scale := ⟨[], 0, 1, 0⟩

/-- The scale of `log ℓ`. -/
def doublyLogarithmic : Scale := ⟨[], 0, 0, 1⟩

end Scale

/-! ### Series -/

/-- A sum of multiples of scales, the dominating one first, up to a rest that grows no faster than a
scale; without a rest the sum is exact. -/
structure Series where
  terms : List (Term × Scale)
  rest : Option Scale

namespace Series

/-- Adds a term to a sum whose terms are in order. -/
def insertTerm (c : Term) (s : Scale) : List (Term × Scale) → List (Term × Scale)
  | [] => [(c, s)]
  | (d, u) :: ts =>
    match s.compare u with
    | .gt => (c, s) :: (d, u) :: ts
    | .lt => (d, u) :: insertTerm c s ts
    | .eq => (Term.expand (add c d), u) :: ts

/-- The dominating one of two rests. -/
def joinRests : Option Scale → Option Scale → Option Scale
  | none, r => r
  | r, none => r
  | some s, some u => some (s.dominant u)

/-- The sum of terms in any order, with at most `order` terms. -/
def ofTerms (order : Nat) (ts : List (Term × Scale)) (rest : Option Scale) : Series :=
  let sorted := ts.foldr (fun (c, s) sum => insertTerm c s sum) []
  let sum : List (Term × Scale) := sorted.filter fun (c, _) => !isZeroCoefficient c
  let sum : List (Term × Scale) := match rest with
    | none => sum
    | some r => sum.takeWhile fun p => p.2.compare r = Ordering.gt
  match sum.drop order with
  | [] => ⟨sum, rest⟩
  | (_, s) :: _ => ⟨sum.take order, joinRests (some s) rest⟩

/-- A term that does not depend on `t`. -/
def ofConstant (c : Term) : Series := if isZeroCoefficient c then ⟨[], none⟩ else ⟨[(c, .one)], none⟩

/-- A scale that bounds the series, unless it is zero. -/
def bound (a : Series) : Option Scale :=
  match a.terms with
  | (_, s) :: _ => some s
  | [] => a.rest

def add (order : Nat) (a b : Series) : Series :=
  ofTerms order (a.terms ++ b.terms) (joinRests a.rest b.rest)

/-- The product of a bound and a rest. -/
def mulRests : Option Scale → Option Scale → Option Scale
  | some s, some u => some (s.mul u)
  | _, _ => none

def mul (order : Nat) (a b : Series) : Series :=
  let ts := a.terms.flatMap fun (c, s) => b.terms.map fun (d, u) =>
    (Term.expand (Term.mul c d), s.mul u)
  ofTerms order ts (joinRests (mulRests a.rest b.bound) (mulRests a.bound b.rest))

/-- The series times a constant and a scale. -/
def shift (c : Term) (s : Scale) (a : Series) : Series :=
  ⟨(a.terms.map fun (d, u) => (Term.expand (Term.mul c d), s.mul u)).filter
    fun (c, _) => !isZeroCoefficient c, a.rest.map s.mul⟩

def neg (a : Series) : Series := shift negOne .one a

/-- The sum of multiples of the powers of a series that tends to zero. -/
def compose (order : Nat) (ε : Series) : List Term → Series
  | [] => ⟨[], some .one⟩
  | c :: cs => add order (ofConstant c) (mul order ε (compose order ε cs))

/-- Does the rest tend to zero? -/
def isResolved (a : Series) : Bool :=
  match a.rest with
  | none => true
  | some r => r.growth = .lt

/-- The terms that grow beyond all bounds, the constant, and the others, which tend to zero. -/
def split (a : Series) : List (Term × Scale) × Term × Series :=
  (a.terms.filter fun (_, s) => s.growth = .gt,
    addAll ((a.terms.filter fun (_, s) => s.growth = .eq).map Prod.fst),
    ⟨a.terms.filter fun (_, s) => s.growth = .lt, a.rest⟩)

/-- The dominating term and the other ones in relation to it. -/
def lead? (a : Series) : Option (Term × Scale × Series) :=
  match a.terms with
  | [] => none
  | (c, s) :: ts => some (c, s, shift (Term.inv c) s.inv ⟨ts, a.rest⟩)

end Series

end Stepwise.Calculus
