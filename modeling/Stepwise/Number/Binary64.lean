import Stepwise.Number.Power

/-!
# Double-precision numbers

A finite double is `± significand · 2 ^ exponent` in its one canonical form: the significand fills
all 53 bits unless the exponent is the least one. `ofRatio` is the only way numbers are made: it
rounds a quotient of naturals to the nearest double, ties to the even significand, and goes to
infinity beyond the largest double. Products, sums and quotients of finite doubles are exact
fractions rounded once.

Results: `roundDiv_near` (a rounded quotient is off by at most a half), `toFraction_neg`, and
`isFinite_iff`.
-/

namespace Stepwise

/-- `num / den` rounded to a natural number, a half going to the even neighbour. -/
def roundDiv (num den : Nat) : Nat :=
  let q := num / den
  let r := num % den
  if 2 * r < den then q
  else if den < 2 * r then q + 1
  else if q % 2 = 0 then q else q + 1

theorem roundDiv_near (num den : Nat) (h : 0 < den) :
    2 * (roundDiv num den * den) ≤ 2 * num + den ∧
      2 * num ≤ 2 * (roundDiv num den * den) + den := by
  have e := Nat.div_add_mod num den
  have l := Nat.mod_lt num h
  have c : num / den * den = den * (num / den) := Nat.mul_comm ..
  have s : (num / den + 1) * den = num / den * den + den := Nat.succ_mul ..
  unfold roundDiv
  dsimp only
  split
  · omega
  · split
    · omega
    · split <;> omega

/-- The canonical pairs of significand and exponent. -/
def Binary64.Canonical (significand : Nat) (exponent : Int) : Prop :=
  significand < 2 ^ (53 : Nat) ∧ -1074 ≤ exponent ∧ exponent ≤ 971 ∧
    (2 ^ (52 : Nat) ≤ significand ∨ exponent = -1074)

instance (s : Nat) (e : Int) : Decidable (Binary64.Canonical s e) :=
  inferInstanceAs (Decidable (_ ∧ _ ∧ _ ∧ (_ ∨ _)))

/-- A double-precision number. -/
inductive Binary64 where
  /-- `significand · 2 ^ exponent`, negated if `negative`. -/
  | finite (negative : Bool) (significand : Nat) (exponent : Int)
      (canonical : Binary64.Canonical significand exponent)
  /-- An infinity. -/
  | infinite (negative : Bool)
  /-- No number. -/
  | nan
  deriving DecidableEq

namespace Binary64

/-- The zero of the given sign. -/
def zero (negative : Bool) : Binary64 := .finite negative 0 (-1074) (by decide)

/-- The double with these parts, or infinity if they are out of range. -/
def ofParts (negative : Bool) (significand : Nat) (exponent : Int) : Binary64 :=
  if h : Canonical significand exponent then .finite negative significand exponent h
  else .infinite negative

/-- The greatest `k` with `2 ^ k ≤ num / den`, for positive `num` and `den`. -/
def floorLog2 (num den : Nat) : Int :=
  let k : Int := (num.log2 : Int) - den.log2
  let atLeast := if 0 ≤ k then den * 2 ^ k.toNat ≤ num else den ≤ num * 2 ^ (-k).toNat
  if atLeast then k else k - 1

/-- The double nearest to `num / den`, with the given sign. -/
def ofRatio (negative : Bool) (num den : Nat) : Binary64 :=
  if num = 0 then zero negative
  else
    let e : Int := max (-1074) (floorLog2 num den - 52)
    let q := if 0 ≤ e then roundDiv num (den * 2 ^ e.toNat) else roundDiv (num * 2 ^ (-e).toNat) den
    if q = 2 ^ (53 : Nat) then ofParts negative (2 ^ (52 : Nat)) (e + 1) else ofParts negative q e

/-- The double nearest to the fraction `num / den`; a zero is positive. -/
def ofFraction (num : Int) (den : Nat) : Binary64 := ofRatio (num < 0) num.natAbs den

/-- The double nearest to an integer, if it is in range. -/
def ofInt? (n : Int) : Option Binary64 :=
  match ofFraction n 1 with
  | .finite s m e h => some (.finite s m e h)
  | _ => none

/-- The exact value of a finite double, as a fraction. -/
def toFraction? : Binary64 → Option (Int × Nat)
  | .finite negative s e _ =>
    let sign : Int := if negative then -1 else 1
    if 0 ≤ e then some (sign * (s * 2 ^ e.toNat : Nat), 1) else some (sign * s, 2 ^ (-e).toNat)
  | _ => none

/-- Is the sign bit set? -/
def isNegative : Binary64 → Bool
  | .finite negative .. => negative
  | .infinite negative => negative
  | .nan => false

/-- Neither infinite nor `nan`? -/
def isFinite : Binary64 → Bool
  | .finite .. => true
  | _ => false

/-- The number with the opposite sign. -/
def neg : Binary64 → Binary64
  | .finite negative s e h => .finite (!negative) s e h
  | .infinite negative => .infinite (!negative)
  | .nan => .nan

/-- Is this a zero of either sign? -/
def isZero : Binary64 → Bool
  | .finite _ s _ _ => s == 0
  | _ => false

/-- Less than zero: neither a zero nor `nan` is. -/
def isBelowZero (x : Binary64) : Bool := x.isNegative && !x.isZero

/-- The product of two finite doubles, rounded; `nan` if one is not finite. -/
def mul (x y : Binary64) : Binary64 :=
  match x.toFraction?, y.toFraction? with
  | some (a, b), some (c, d) => ofRatio (x.isNegative != y.isNegative) (a * c).natAbs (b * d)
  | _, _ => .nan

/-- The sum of two finite doubles, rounded; `nan` if one is not finite. -/
def add (x y : Binary64) : Binary64 :=
  match x.toFraction?, y.toFraction? with
  | some (a, b), some (c, d) =>
    let n := a * d + c * b
    if n = 0 then zero (x.isNegative && y.isNegative) else ofFraction n (b * d)
  | _, _ => .nan

/-- The quotient of two finite doubles, rounded; `none` if the divisor is zero, `nan` if one is
not finite. -/
def div? (x y : Binary64) : Option Binary64 :=
  match x.toFraction?, y.toFraction? with
  | some (a, b), some (c, d) =>
    if c = 0 then none
    else some (ofRatio (x.isNegative != y.isNegative) (a.natAbs * d) (b * c.natAbs))
  | _, _ => some .nan

/-- The greatest integer that is not above a finite double. -/
def floor? (x : Binary64) : Option Int := x.toFraction?.map fun (n, d) => n / (d : Int)

/-- The integer part of a finite double, towards zero. -/
def truncate? (x : Binary64) : Option Int := x.toFraction?.map fun (n, d) => n.tdiv d

/-- The integer that a finite double is equal to. -/
def toInt? (x : Binary64) : Option Int :=
  match x.toFraction? with
  | some (n, d) => if n % (d : Int) = 0 then some (n / (d : Int)) else none
  | none => none

/-- Is the magnitude of a finite double at least `2 ^ k`? -/
def atLeastPow2 (x : Binary64) (k : Nat) : Bool :=
  match x.toFraction? with
  | some (n, d) => decide (2 ^ k * d ≤ n.natAbs)
  | none => false

theorem isFinite_iff (x : Binary64) : x.isFinite = true ↔ ∃ f, x.toFraction? = some f := by
  cases x with
  | finite s m e h =>
    simp only [isFinite, toFraction?, true_iff]
    split <;> exact ⟨_, rfl⟩
  | infinite s => simp [isFinite, toFraction?]
  | nan => simp [isFinite, toFraction?]

theorem toFraction_neg (x : Binary64) :
    x.neg.toFraction? = x.toFraction?.map fun (n, d) => (-n, d) := by
  cases x with
  | finite s m e h =>
    cases s <;> by_cases he : 0 ≤ e <;> simp [neg, toFraction?, he]
  | infinite s => rfl
  | nan => rfl

end Binary64

end Stepwise
