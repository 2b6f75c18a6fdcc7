import Stepwise.Number.Surd
import Stepwise.Term.Rank
import Stepwise.Term.Signs

/-!
# Sums, products and powers

The three ways to join terms. Each gives a simplified term back: like terms of a sum are added and
equal bases of a product gathered, rational numbers and their roots are multiplied out, a rational
factor is distributed over a sum, and a power of a power or of a product is taken apart where that
is right for every value of the symbols. Nothing else is expanded.

Products, powers and absolute values need each other, each time for smaller parts. `Joining` holds
the three as far as they are available at some depth of nesting, and each of them is written for
terms whose parts are joined by the `Joining` below.

Results: `scale_number` and `pow_zero`.
-/

namespace Stepwise.Term

/-- A rational multiple of a term; it is distributed over a sum. -/
def scale (c : Rat) (t : Term) : Term :=
  match t with
  | infinity negative =>
    if c = 0 then undefined else infinity (if c < 0 then !negative else negative)
  | complexInfinity => if c = 0 then undefined else complexInfinity
  | undefined => undefined
  | sum ts =>
    if c = 0 then zero
    else if c = 1 then sum ts
    else
      ofTerms (orderedTerms (ts.map fun t =>
        let (k, r) := t.coefficient
        scaled (c * k) r))
  | t =>
    let (k, r) := t.coefficient
    scaled (c * k) r

/-- The term with the opposite sign. -/
def neg (t : Term) : Term := scale (-1) t

/-! ### Sums -/

/-- Adds `c` times `t` to the multiples found so far. -/
def addMultiple (c : Rat) (t : Term) : List (Rat × Term) → List (Rat × Term)
  | [] => [(c, t)]
  | (d, u) :: rest => if u = t then (c + d, u) :: rest else (d, u) :: addMultiple c t rest

/-- What stays of the terms of a sum beside an infinity: those that may be infinite as well. -/
def besideInfinity (t : Term) : Bool := !t.signs.isReal

/-- The sum of terms. -/
def addAll (ts : List Term) : Term :=
  let ts := ts.flatMap terms
  let finite := ts.filter fun
    | infinity _ => false
    | complexInfinity => false
    | _ => true
  let multiples := finite.foldl (fun ms t => let (c, r) := t.coefficient; addMultiple c r ms) []
  let whole := (multiples.filter fun (c, _) => c ≠ 0).map fun (c, r) => scaled c r
  let infinities := ts.filter fun
    | infinity _ => true
    | complexInfinity => true
    | _ => false
  if ts.contains undefined then undefined
  else
    match infinities with
    | [] => ofTerms (orderedTerms whole)
    | first :: others =>
      if others.all (· = first) && (first ≠ complexInfinity || others.isEmpty) then
        ofTerms (orderedTerms (first :: whole.filter besideInfinity))
      else undefined

def add (s t : Term) : Term := addAll [s, t]

def sub (s t : Term) : Term := addAll [s, t.neg]

/-- Is the term written with a minus sign in front, or mostly with minus signs? Of a sum and its
opposite that have as many of them, the one that comes first in order counts so. -/
def extractsSign : Term → Bool
  | number q => q < 0
  | infinity negative => negative
  | product (number q :: _) => q < 0
  | sum ts =>
    let isNegative : Term → Bool := fun
      | number q => q < 0
      | product (number q :: _) => q < 0
      | _ => false
    let negatives := (ts.filter isNegative).length
    if ts.length < 2 * negatives then true
    else if 2 * negatives < ts.length then false
    else (sum ts).compare (neg (sum ts)) = .lt
  | _ => false

/-! ### Products -/

/-- A power among the factors of a product: the base and the exponent, which is a rational number
times a term. -/
structure Gathered where
  base : Term
  coefficient : Rat
  rest : Term

/-- Multiplies the powers found so far by another one. -/
def gather (p : Gathered) : List Gathered → List Gathered
  | [] => [p]
  | q :: qs =>
    if q.base = p.base ∧ q.rest = p.rest then
      { q with coefficient := q.coefficient + p.coefficient } :: qs
    else q :: gather p qs

/-- The factors of a product by their kinds. -/
structure Factored where
  /-- The numbers and their roots. -/
  surds : List Surd
  infinities : List Term
  undefined : Bool
  /-- Positive rational numbers with exponents that are no numbers. -/
  exponentials : List Gathered
  powers : List Gathered

namespace Factored

def empty : Factored := ⟨[], [], false, [], []⟩

/-- Takes in another factor. -/
def insert (f : Factored) (t : Term) : Factored :=
  let asPower (b x : Term) : Factored :=
    let (c, r) := x.coefficient
    { f with powers := gather ⟨b, c, r⟩ f.powers }
  match t with
  | .number q => { f with surds := .ofRat q :: f.surds }
  | .constant .i => { f with surds := ⟨1, 1 / 2, []⟩ :: f.surds }
  | .infinity _ | .complexInfinity => { f with infinities := t :: f.infinities }
  | .undefined => { f with undefined := true }
  | .power (.number b) (.number x) =>
    if b = 0 then asPower (.number b) (.number x) else { f with surds := .ofPower b x :: f.surds }
  | .power (.number b) x =>
    if 0 < b then
      let (b', x') := (Term.power (.number b) x).baseExponent
      let (c, r) := x'.coefficient
      { f with exponentials := gather ⟨b', c, r⟩ f.exponentials }
    else asPower (.number b) x
  | t =>
    let (b, x) := t.baseExponent
    asPower b x

end Factored

/-- The coefficient of a surd, and its roots as factors. -/
def surdParts (s : Surd) : Rat × List Term :=
  let root (sign : Rat) (r : Radical) : Term := power (number (sign * r.base)) (number r.exponent)
  if s.turn = 0 then (s.coefficient, s.radicals.map (root 1))
  else if s.turn = 1 / 2 then (s.coefficient, i :: s.radicals.map (root 1))
  else
    match s.radicals.find? fun r => r.exponent = s.turn with
    | some r =>
      (s.coefficient, root (-1) r :: (s.radicals.filter fun r' => r' ≠ r).map (root 1))
    | none => (s.coefficient, power negOne (number s.turn) :: s.radicals.map (root 1))

/-- The product of numbers and factors that are gathered already. -/
def assemble (c : Rat) (infinities parts : List Term) : Term :=
  match infinities with
  | [] =>
    if c = 0 then zero
    else
      match parts with
      | [sum ts] => scale c (sum ts)
      | _ => ofFactors ((if c = 1 then [] else [number c]) ++ orderedFactors parts)
  | _ =>
    if c = 0 then undefined
    else if infinities.contains complexInfinity then
      ofFactors (orderedFactors (complexInfinity :: parts.filter fun t => t.signs.zero))
    else
      let signed := parts.filter fun t => !(t.signs.isPositive || t.signs.isNegative)
      let flips := (infinities.filter (· = infinity true)).length +
        (parts.filter fun t => t.signs.isNegative).length + if c < 0 then 1 else 0
      ofFactors (infinity (flips % 2 = 1) :: orderedFactors signed)

/-- The exponentials `b ^ x` with equal exponents joined. -/
def joinExponentials (gs : List Gathered) : List (Rat × Term) :=
  let insert (x : Term) (b : Rat) : List (Rat × Term) → List (Rat × Term) :=
    fun ps =>
      if ps.any fun p => p.2 = x then ps.map fun p => if p.2 = x then (p.1 * b, x) else p
      else ps ++ [(b, x)]
  gs.foldl (fun ps g =>
    match g.base with
    | number b => if g.coefficient = 0 then ps else insert (scale g.coefficient g.rest) b ps
    | _ => ps) []

/-- Is this a factor that a product holds as it is? -/
def isSettled : Term → Bool
  | number _ => false
  | product _ => false
  | constant .i => false
  | infinity _ => false
  | complexInfinity => false
  | undefined => false
  | power (number _) (number _) => false
  | _ => true

/-- Do two of the factors have bases and exponents that would be gathered? -/
def hasLikePowers : List Term → Bool
  | [] => false
  | t :: ts =>
    let (b, x) := t.baseExponent
    (ts.any fun u =>
      let (b', x') := u.baseExponent
      b' = b && x'.coefficient.2 = x.coefficient.2) || hasLikePowers ts

/-- How deep products and powers may nest. -/
def depth : Nat := 200

/-- Is the term a rational number plus a rational multiple of the imaginary unit? -/
def complexParts? : Term → Option (Rat × Rat)
  | sum [s, t] =>
    match s, t with
    | number a, constant .i => some (a, 1)
    | number a, product [number b, constant .i] => some (a, b)
    | constant .i, number a => some (a, 1)
    | product [number b, constant .i], number a => some (a, b)
    | _, _ => none
  | _ => none

/-- Products, powers and absolute values up to a certain depth of nesting. -/
structure Joining where
  mul : List Term → Term
  pow : Term → Term → Term
  abs : Term → Term

namespace Joining

variable (below : Joining)

/-- The product of terms, in terms of the joining of their parts. -/
def product (ts : List Term) : Term :=
  let f := (ts.flatMap factors).foldl Factored.insert .empty
  if f.undefined then undefined
  else
    let (c, roots) := surdParts (Surd.mul f.surds)
    let powers := (f.powers.filter fun g => g.coefficient ≠ 0).map fun g =>
      if g.coefficient = 1 ∧ g.rest = one then g.base
      else below.pow g.base (scale g.coefficient g.rest)
    let exponentials := (joinExponentials f.exponentials).map fun (b, x) =>
      below.pow (number b) x
    let parts := exponentials ++ powers
    if parts.all isSettled && !hasLikePowers powers then assemble c f.infinities (roots ++ parts)
    else below.mul (number c :: roots ++ f.infinities ++ parts)

/-- The power of a rational number. -/
def ratPower (q : Rat) (x : Term) : Term :=
  match x with
  | number r =>
    if q = 0 then if r < 0 then complexInfinity else zero
    else
      let (c, roots) := surdParts (Surd.ofPower q r)
      assemble c [] roots
  | infinity negative =>
    if q = 1 ∨ q = -1 then undefined
    else if q = 0 then if negative then complexInfinity else zero
    else if (q < 1 ∧ -1 < q) ≠ negative then zero
    else if 0 < q then infinity false
    else complexInfinity
  | x =>
    if q = 1 then one
    else if q = 0 then
      if x.signs.isPositive then zero
      else if x.signs.isNegative then complexInfinity
      else
        let (c, r) := x.coefficient
        if c < 0 then power complexInfinity r else power zero r
    else power (number q) x

/-- The power of an infinity. -/
def infinityPower (negative : Bool) (x : Term) : Term :=
  match x with
  | infinity true => zero
  | infinity false => if negative then undefined else infinity false
  | x =>
    if x.signs.isNegative then zero
    else if x.signs.isPositive then
      if !negative then infinity false
      else
        match x.integer? with
        | some n => infinity (n % 2 = 1)
        | none => below.mul [below.pow negOne x, infinity false]
    else power (infinity negative) x

/-- The power of the imaginary unit. -/
def turnPower (x : Term) : Term :=
  match x with
  | number r =>
    let turns : Int := (r / 2).floor
    let part : Rat := r - 2 * turns
    let sign : Rat := if turns % 2 = 0 then 1 else -1
    if part = 0 then number sign
    else if part = 1 then scale sign i
    else scaled sign (power i (number part))
  | x => power i x

/-- Does the exponent have the denominator 2? -/
def isHalf : Term → Bool
  | number s => s.den = 2
  | _ => false

/-- The power of a power, `(b ^ x) ^ y`. The exponents are multiplied if `y` is an integer, if `x`
is between -1 and 1, or if `b` is not negative; of an even power of a real number the absolute
value is taken first. -/
def nestedPower (b x y : Term) : Term :=
  let joined (b : Term) : Term := below.pow b (below.mul [x, y])
  if y.integer?.isSome then joined b
  else
    match x with
    | number r =>
      let isEven : Bool := r.den = 1 ∧ r.num % 2 = 0
      let b' := if isEven && b.signs.isReal then below.abs b else b
      if r = -1 ∧ isHalf y ∧ b.signs.isNegative then
        below.mul [below.pow negOne y, below.pow b.neg (below.mul [x, y])]
      else if (-1 < r ∧ r < 1) ∨ b'.signs.isNotNegative then joined b'
      else power (power b' x) y
    | x => if x.signs.isReal && b.signs.isNotNegative then joined b else power (power b x) y

/-- The power of a product with a rational exponent that is no integer: the factors that are not
negative, and the signs of those that are, come out from under the root. -/
def productRoot (ts : List Term) (r : Rat) : Term :=
  let positive := ts.filter fun t => t.signs.isNotNegative
  let negative := ts.filter fun t => t.signs.isNegative
  let other := ts.filter fun t => !t.signs.isNotNegative && !t.signs.isNegative
  if positive.isEmpty && negative.all (· = negOne) then power (.product ts) (number r)
  else
    let sign := if negative.length % 2 = 1 then [negOne] else []
    let outside := (positive ++ negative.map neg).map fun t => below.pow t (number r)
    let rest := match sign ++ other with
      | [] => one
      | [t] => below.pow t (number r)
      | inside => power (below.mul inside) (number r)
    below.mul (rest :: outside)

/-- If the factors are those of a rational multiple of `i π`, the rational number. -/
def halfTurns? : List Term → Option Rat
  | [constant .i, constant .pi] => some 1
  | [number q, constant .i, constant .pi] => some q
  | _ => none

/-- The power `e ^ (q i π)`. -/
def rootOfUnity (q : Rat) : Term :=
  if (2 * q).den = 1 then
    match (2 * q).num % 4 with
    | 0 => one
    | 1 => i
    | 2 => negOne
    | _ => neg i
  else
    let turns : Int := (q / 2).floor
    let part : Rat := q - 2 * turns
    power e (.product [number (if 1 < part then part - 2 else part), i, pi])

/-- The argument of a logarithm. -/
def logArgument? : Term → Option Term
  | apply .log a => some a
  | _ => none

/-- The exponent of a power of `e`. -/
def expArgument? : Term → Option Term
  | power (constant .e) x => some x
  | _ => none

/-- The exponential function. -/
def exponential (x : Term) : Term :=
  match x with
  | infinity negative => if negative then zero else infinity false
  | apply .log a => a
  | .product ts =>
    match halfTurns? ts with
    | some q => rootOfUnity q
    | none =>
      let others := ts.filter fun t => (logArgument? t).isNone
      match ts.filterMap logArgument? with
      | [a] =>
        if others.all fun t => t.isClosed && t.signs.isReal then below.pow a (below.mul others)
        else power e x
      | _ => power e x
  | sum ts =>
    let evaluated := ts.map fun t => if t = one then power e one else below.pow e t
    let kept := evaluated.filterMap expArgument?
    let out := evaluated.filter fun t => (expArgument? t).isNone
    if out.isEmpty && kept = ts then power e x
    else
      let y := addAll kept
      below.mul (out ++ [if y = zero then one else if y = one then e else power e y])
  | x => power e x

/-- Does the term divide by something? -/
def isDivisor : Term → Bool
  | .power _ (number q) => q < 0
  | .power _ (.product (number q :: _)) => q < 0
  | _ => false

/-- If every term of an exponent is divided by the logarithm of the base and by no other symbol, the
exponent without this logarithm. -/
def exponentOfE? (b x : Term) : Option Term :=
  let divisor := Term.power (apply .log b) negOne
  if x.terms.all fun t => t.factors.filter isDivisor = [divisor] then
    some (addAll (x.terms.map fun t => below.mul (t.factors.filter (· ≠ divisor))))
  else none

/-- The root of a number that is the square of a rational number. -/
def rootOfSquare? (q : Rat) : Option Rat :=
  match exactRoot? 2 q.num.toNat, exactRoot? 2 q.den with
  | some a, some b => if q < 0 then none else some (mkRat a b)
  | _, _ => none

/-- A power of `a + i` or `a - i`: its real part, and the coefficient of `i`. -/
def gaussianPower (a sign : Rat) : (n : Nat) → Rat × Rat
  | 0 => (1, 0)
  | n + 1 =>
    let (re, im) := gaussianPower a sign n
    (re * a - im * sign, re * sign + im * a)

/-- The power of a complex number with a half of an odd number as exponent, if the modulus is
rational: the root is then taken of its real part. -/
def gaussianRoot? (re im r : Rat) : Option Term :=
  match rootOfSquare? (re * re + im * im) with
  | none => none
  | some d =>
    let sign : Rat := if im < 0 then -1 else 1
    let a := (d + re) / (sign * im)
    let scale' := below.pow (number ((d - re) / 2)) (number r)
    let turn := match r.num with
      | .ofNat n =>
        let (u, v) := gaussianPower a sign n
        addAll [number u, scale v i]
      | .negSucc n => below.pow (addAll [number a, scale sign i]) (ofInt (.negSucc n))
    some (below.mul [scale', turn])

/-- The power of a term. A base divided by its own logarithm in the exponent is left out, as in
`2 ^ (x / log 2) = e ^ x`. -/
def power (b x : Term) : Term :=
  if x = zero then one
  else if x = one then b
  else if b = undefined ∨ x = undefined ∨ x = complexInfinity then undefined
  else if let some y := exponentOfE? below b x then below.pow e y
  else
    match b with
    | number q => ratPower q x
    | infinity negative => infinityPower below negative x
    | complexInfinity =>
      if x.signs.isPositive then complexInfinity
      else if x.signs.isNegative then zero
      else .power b x
    | constant .e => exponential below x
    | constant .i => turnPower x
    | .power b' x' => nestedPower below b' x' x
    | .product ts =>
      match x with
      | number r =>
        if r.den = 1 then below.mul (ts.map fun t => below.pow t x) else productRoot below ts r
      | x => .power b x
    | sum ts =>
      match complexParts? (sum ts) with
      | some (re, im) =>
        if x = negOne then
          .product [number (re * re + im * im)⁻¹, addAll [number re, scale (-im) i]]
        else
          match x with
          | number r =>
            if r.den = 2 then (gaussianRoot? below re im r).getD (.power b x) else .power b x
          | x => .power b x
      | none => .power b x
    | apply .abs a =>
      match x.integer? with
      | some n =>
        if !a.signs.isReal ∨ n = -1 then .power b x
        else if n % 2 = 0 then below.pow a x
        else below.mul [below.pow a (ofInt (n - 1)), b]
      | none => .power b x
    | _ => .power b x

/-- Is this an absolute value, or a power of one? -/
def isAbs : Term → Bool
  | apply .abs _ => true
  | .power (apply .abs _) _ => true
  | _ => false

/-- The absolute value of a product: the factors whose absolute values are known come out. -/
def absProduct (ts : List Term) : Term :=
  let values := ts.map fun t => (t, below.abs t)
  let known := (values.filter fun p => !isAbs p.2).map Prod.snd
  let unknown := (values.filter fun p => isAbs p.2).map Prod.fst
  if known.isEmpty then
    if ts.all fun t => t.baseExponent.2.coefficient.1 < 0 then
      below.pow (apply .abs (below.mul (ts.map fun t => below.pow t negOne))) negOne
    else apply .abs (.product ts)
  else if unknown.isEmpty then below.mul known
  else below.mul (below.abs (below.mul unknown) :: known)

/-- The absolute value. -/
def absolute (t : Term) : Term :=
  match t with
  | infinity _ => infinity false
  | complexInfinity => infinity false
  | undefined => undefined
  | _ =>
    if t.signs.isNotNegative then t
    else if t.signs.isReal && !t.signs.positive then t.neg
    else
      match t with
      | .product ts => absProduct below ts
      | .power b (number r) =>
        if r.den = 1 ∧ b.signs.isReal then
          if r.num % 2 = 0 then t else below.pow (below.abs b) (number r)
        else if r.den = 1 ∧ r < 0 then
          below.pow (below.abs (below.pow b (number (-r)))) negOne
        else apply .abs t
      | _ =>
        match complexParts? t with
        | some (re, im) => below.pow (number (re * re + im * im)) half
        | none => if t.extractsSign then apply .abs t.neg else apply .abs t

/-- The joining of terms whose parts nest at most so deep. What nests deeper stays as it is. -/
def ofDepth : (depth : Nat) → Joining
  | 0 => ⟨.product, .power, apply .abs⟩
  | depth + 1 =>
    let below := ofDepth depth
    ⟨product below, power below, absolute below⟩

end Joining

/-- The joining of terms. -/
def joining : Joining := .ofDepth depth

/-- The product of terms. -/
def mulAll (ts : List Term) : Term := joining.mul ts

def mul (s t : Term) : Term := mulAll [s, t]

/-- The power of a term. -/
def pow (b x : Term) : Term := joining.pow b x

def inv (t : Term) : Term := pow t negOne

def div (s t : Term) : Term := mul s (inv t)

def sqrt (t : Term) : Term := pow t half

/-- `e` to a power. -/
def exp (t : Term) : Term := pow e t

/-- The absolute value. -/
def abs (t : Term) : Term := joining.abs t

theorem scaled_one (q : Rat) : scaled q one = number q := by
  unfold scaled
  by_cases h0 : q = 0
  · simp [h0, zero]
  · by_cases h1 : q = 1
    · simp [h1, one]
    · simp only [h0, h1, one, if_false, Rat.mul_one]

theorem scale_number (p q : Rat) : scale p (number q) = number (p * q) := by
  simp [scale, coefficient, scaled_one]

theorem Joining.pow_zero (d : Nat) (t : Term) : (Joining.ofDepth (d + 1)).pow t zero = one := by
  simp [Joining.ofDepth, Joining.power]

theorem pow_zero (t : Term) : pow t zero = one := Joining.pow_zero 199 t

end Stepwise.Term
