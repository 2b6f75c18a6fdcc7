import Stepwise.Number.Root

/-!
# Products of powers of rational numbers

A surd is a rational coefficient times a power of −1 times roots of natural numbers. `ofPower` is
`base ^ exponent` for rationals, `mul` the product of several surds. Both are brought to one
simplified form: the exponents of the roots lie between 0 and 1, exact roots and square factors are
taken out, roots of equal exponents are joined, and common factors of roots with different
exponents are gathered.
-/

namespace Stepwise

/-- The root `base ^ exponent`. -/
structure Radical where
  base : Nat
  exponent : Rat
  deriving DecidableEq, Repr

/-- A coefficient times `(-1) ^ turn` times roots. -/
structure Surd where
  coefficient : Rat
  /-- At least 0 and less than 1; a half is the imaginary unit. -/
  turn : Rat
  radicals : List Radical
  deriving DecidableEq, Repr

namespace Surd

/-- A rational number. -/
def ofRat (q : Rat) : Surd := ⟨q, 0, []⟩

/-- `q` to a power with an integer exponent; zero has no negative powers here. -/
def ratPow (q : Rat) (n : Int) : Rat :=
  if 0 ≤ n then q ^ n.toNat else (q⁻¹) ^ (-n).toNat

/-- Adds `exponent` to the first entry with this base. -/
def addExponent (base : Nat) (exponent : Rat) : List Radical → List Radical
  | [] => [⟨base, exponent⟩]
  | r :: rs =>
    if r.base = base then ⟨base, r.exponent + exponent⟩ :: rs
    else r :: addExponent base exponent rs

/-- Multiplies the first entry with this exponent by `base`. -/
def mulBase (base : Nat) (exponent : Rat) : List Radical → List Radical
  | [] => [⟨base, exponent⟩]
  | r :: rs =>
    if r.exponent = exponent then ⟨r.base * base, exponent⟩ :: rs
    else r :: mulBase base exponent rs

/-- The whole part of a power of a natural number, and the root that remains, if any. -/
def splitWhole (r : Radical) : Rat × List Radical :=
  let whole := r.exponent.floor
  let part := r.exponent - whole
  (ratPow r.base whole, if part = 0 ∨ r.base = 1 then [] else [⟨r.base, part⟩])

/-- What is left of `r` when its common factors with the later roots are taken out, together with
the later roots without these factors, the roots of the common factors, and a coefficient. -/
def takeCommon : (r : Radical) → (later : List Radical) →
    Radical × List Radical × List Radical × Rat
  | r, [] => (r, [], [], 1)
  | r, s :: later =>
    let g := Nat.gcd r.base s.base
    if g = 1 then
      let (r', later', common, c) := takeCommon r later
      (r', s :: later', common, c)
    else
      let (c, shared) := splitWhole ⟨g, r.exponent + s.exponent⟩
      let (r', later', common, c') := takeCommon ⟨r.base / g, r.exponent⟩ later
      (r', ⟨s.base / g, s.exponent⟩ :: later', shared ++ common, c * c')

/-- Roots without common factors, and a coefficient. -/
def separate : (fuel : Nat) → List Radical → List Radical × Rat
  | 0, rs => (rs, 1)
  | _ + 1, [] => ([], 1)
  | fuel + 1, r :: rs =>
    if r.base = 1 then separate fuel rs
    else
      let (r', later, common, c) := takeCommon r rs
      let (rest, c') := separate fuel (later ++ common)
      (if r'.base = 1 then rest else r' :: rest, c * c')

/-- The greatest common divisor of exponents. -/
def gcdOf (ns : List Nat) : Nat := ns.foldl Nat.gcd 0

mutual

/-- The positive number `n` to the power `p / q`, with `q` above 1. -/
def rootPower : (fuel : Nat) → (n p q : Nat) → Surd
  | 0, n, p, q => ⟨1, 0, [⟨n, mkRat p q⟩]⟩
  | fuel + 1, n, p, q =>
    match exactRoot? q n with
    | some r => ofRat ((r ^ p : Nat) : Rat)
    | none =>
      let factors := match perfectPower? n with
        | some f => [f]
        | none => smallFactors n
      let scaled := factors.map fun (b, e) => (b, e * p)
      let whole := (scaled.map fun (b, e) => b ^ (e / q)).foldl (· * ·) 1
      let parts := (scaled.map fun (b, e) => (b, e % q)).filter fun (_, e) => 0 < e
      let (free, shared) := parts.partition fun (_, e) => Nat.gcd e q = 1
      let g := gcdOf (free.map Prod.snd)
      let inner := (free.map fun (b, e) => b ^ (e / g)).foldl (· * ·) 1
      if inner = n ∧ whole = 1 ∧ shared.isEmpty then ⟨1, 0, [⟨n, mkRat p q⟩]⟩
      else
        let roots := shared.map fun (b, e) =>
          rootPower fuel b (e / Nat.gcd e q) (q / Nat.gcd e q)
        let core := if inner = 1 then [] else [rootPower fuel inner g q]
        mulAll fuel (ofRat (whole : Rat) :: core ++ roots)

/-- The product of surds. -/
def mulAll : (fuel : Nat) → List Surd → Surd
  | 0, ss => ⟨(ss.map coefficient).foldl (· * ·) 1, 0, ss.flatMap radicals⟩
  | fuel + 1, ss =>
    let product : Rat := (ss.map Surd.coefficient).foldl (· * ·) 1
    let turns : Rat := (ss.map Surd.turn).foldl (· + ·) 0
    let byBase := (ss.flatMap radicals).foldl (fun rs r => addExponent r.base r.exponent rs) []
    let byExponent := byBase.foldl (fun rs r => mulBase r.base r.exponent rs) []
    let reduced := byExponent.map splitWhole
    let whole := (reduced.map Prod.fst).foldl (· * ·) 1
    let candidates := reduced.flatMap Prod.snd
    let (separated, common) := separate (2 ^ (candidates.length + 4)) candidates
    let evaluated := separated.map fun r =>
      rootPower fuel r.base r.exponent.num.natAbs r.exponent.den
    let extracted := (evaluated.map Surd.coefficient).foldl (· * ·) 1
    let joined := (evaluated.flatMap Surd.radicals).foldl
      (fun rs r => mulBase r.base r.exponent rs) []
    let half : Int := turns.floor
    let sign : Rat := if half % 2 = 0 then 1 else -1
    ⟨sign * product * whole * common * extracted, turns - half, joined⟩

end

/-- Depth enough for every nesting of roots. -/
def depth : Nat := 64

/-- The product of surds. -/
def mul (ss : List Surd) : Surd := mulAll depth ss

/-- A positive rational to a rational power. -/
def ofPositivePower (b e : Rat) : Surd :=
  if e.den = 1 then ofRat (ratPow b e.num)
  else
    let (num, den, e) := if e < 0 then (b.den, b.num.natAbs, -e) else (b.num.natAbs, b.den, e)
    let k := (e.floor + 1).toNat
    let rest := (k : Rat) - e
    mul [ofRat (1 / ((den ^ k : Nat) : Rat)),
      rootPower depth num e.num.natAbs e.den,
      if den = 1 then ofRat 1 else rootPower depth den rest.num.natAbs rest.den]

/-- `b ^ e` for a rational `b` other than zero. -/
def ofPower (b e : Rat) : Surd :=
  if 0 < b then ofPositivePower b e
  else mul [⟨1, e, []⟩, ofPositivePower (-b) e]

end Surd

end Stepwise
