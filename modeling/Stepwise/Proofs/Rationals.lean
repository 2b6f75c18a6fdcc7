import Mathlib.Algebra.Field.Rat
import Mathlib.Algebra.Order.Ring.Rat
import Mathlib.Data.Rat.Floor
import Mathlib.Tactic.Ring
import Stepwise.Formula.Value

/-!
# Exact arithmetic

A formula of numbers, signs and the four operations stands for a rational number unless it divides
by zero, and so it does with powers of whole exponents. `Formula.rational?` is this number, found by
arithmetic alone. The engine has no arithmetic of its own for numbers: it joins them as it joins any
terms, gathers like terms and equal bases, and takes roots and signs apart. On numbers all this
comes to the same.

Result: `value?_of_rational?`, a formula that stands for a rational number has it as its term.
-/

namespace Stepwise

/-! ## Surds -/

namespace Surd

/-- The product of two rational numbers, of which the first one is turned by whole half turns. -/
theorem mul_turned (n : Int) (a b : Rat) :
    mul [⟨a, n, []⟩, ofRat b] = ofRat ((if n % 2 = 0 then 1 else -1) * (a * b)) := by
  have turns : (0 : Rat) + n + 0 = n := by ring
  have bare : separate (2 ^ (0 + 4)) [] = ([], 1) := rfl
  simp only [mul, depth, mulAll, ofRat, List.map_cons, List.map_nil, List.foldl_cons, List.foldl_nil,
    List.flatMap_cons, List.flatMap_nil, List.append_nil, List.length_nil, turns, Rat.floor_intCast,
    bare, sub_self, one_mul, mul_one]

theorem mul_ofRat (a b : Rat) : mul [ofRat a, ofRat b] = ofRat (a * b) := by
  have h := mul_turned 0 a b
  rw [if_pos (Int.zero_emod 2), one_mul, Int.cast_zero] at h
  exact h

theorem ratPow_eq_zpow (q : Rat) (n : Int) : ratPow q n = q ^ n := by
  unfold ratPow
  split
  next h =>
    obtain ⟨k, rfl⟩ := Int.eq_ofNat_of_zero_le h
    rw [Int.toNat_natCast, zpow_natCast]
  next h =>
    obtain ⟨k, rfl⟩ : ∃ k : Nat, n = -k := ⟨(-n).toNat, by omega⟩
    rw [Int.neg_neg, Int.toNat_natCast, zpow_neg, zpow_natCast, inv_pow]

/-- A power with a whole exponent is a rational number. -/
theorem ofPower_intCast (q : Rat) (n : Int) : ofPower q n = ofRat (q ^ n) := by
  have positive (b : Rat) : ofPositivePower b n = ofRat (b ^ n) := by
    rw [ofPositivePower, if_pos (Rat.den_intCast n), Rat.num_intCast, ratPow_eq_zpow]
  unfold ofPower
  split
  next => exact positive q
  next h =>
    rw [positive, mul_turned, one_mul]
    split
    next even => rw [one_mul, Even.neg_zpow (Int.even_iff.mpr even)]
    next odd =>
      rw [neg_one_mul, Odd.neg_zpow (Int.odd_iff.mpr (by omega)), neg_neg]

end Surd

/-! ## Terms that are numbers -/

namespace Term

variable {p q : Rat}

theorem orderedTerms_number (q : Rat) : orderedTerms [number q] = [number q] := rfl

/-- **Sums of numbers are exact.** -/
theorem add_number (p q : Rat) : add (number p) (number q) = number (p + q) := by
  have gathered : addMultiple q one (addMultiple p one []) = [(q + p, one)] := if_pos rfl
  have sum : add (number p) (number q) = ofTerms (orderedTerms
      (((addMultiple q one (addMultiple p one [])).filter fun m => m.1 ≠ 0).map
        fun m => scaled m.1 m.2)) := rfl
  rw [sum, gathered, add_comm p q]
  by_cases h : q + p = 0
  · rw [h]
    rfl
  · simp only [List.filter_cons, ne_eq, h, not_false_eq_true, decide_true, if_true, List.filter_nil,
      List.map_cons, List.map_nil, scaled_one, orderedTerms_number, ofTerms]

theorem neg_number (q : Rat) : neg (number q) = number (-q) := by
  rw [neg, scale_number, neg_one_mul]

theorem sub_number (p q : Rat) : sub (number p) (number q) = number (p - q) := by
  rw [sub, neg_number, sub_eq_add_neg]
  exact add_number p (-q)

theorem assemble_number (c : Rat) : assemble c [] [] = number c := by
  by_cases h0 : c = 0
  · rw [h0]
    rfl
  · by_cases h1 : c = 1
    · rw [h1]
      rfl
    · simp only [assemble, if_neg h0, if_neg h1]
      rfl

namespace Joining

variable (d : Nat)

theorem mul_succ : (ofDepth (d + 1)).mul = Joining.product (ofDepth d) := by rw [ofDepth]

theorem mul_number (p q : Rat) : (ofDepth (d + 1)).mul [number p, number q] = number (p * q) := by
  have parts : surdParts (Surd.mul [Surd.ofRat q, Surd.ofRat p]) = (p * q, []) := by
    rw [Surd.mul_ofRat, mul_comm]
    rfl
  have gathered : ([number p, number q].flatMap factors).foldl Factored.insert .empty =
      ⟨[Surd.ofRat q, Surd.ofRat p], [], false, [], []⟩ := rfl
  rw [mul_succ, Joining.product, gathered]
  simp only [parts]
  exact assemble_number (p * q)

theorem exponentOfE?_number (below : Joining) (b : Term) (q : Rat) :
    exponentOfE? below b (number q) = none := rfl

theorem ratPower_number {n : Int} (hq : q ≠ 0) : ratPower q (number n) = number (q ^ n) := by
  have parts : surdParts (Surd.ofPower q n) = (q ^ n, []) := by
    rw [Surd.ofPower_intCast]
    rfl
  rw [ratPower, if_neg hq]
  simp only [parts]
  exact assemble_number (q ^ n)

theorem pow_number {n : Int} (h : q ≠ 0 ∨ 0 ≤ n) :
    (ofDepth (d + 1)).pow (number q) (number n) = number (q ^ n) := by
  by_cases h0 : n = 0
  · subst h0
    rw [zpow_zero]
    exact pow_zero d (number q)
  by_cases h1 : n = 1
  · subst h1
    rw [zpow_one]
    simp [ofDepth, power, one, zero]
  rw [ofDepth]
  have z : number (n : Rat) ≠ zero := fun h => h0 (Int.cast_eq_zero.mp (Term.number.inj h))
  have o : number (n : Rat) ≠ one := fun h => h1 (Int.cast_eq_one.mp (Term.number.inj h))
  simp only [power, if_neg z, if_neg o, exponentOfE?_number]
  rw [if_neg (by simp)]
  by_cases hq : q = 0
  · have low : ¬(n : Rat) < 0 := by
      rw [Int.cast_lt_zero]
      exact Int.not_lt.mpr (h.resolve_left (not_not_intro hq))
    rw [ratPower, if_pos hq, if_neg low, hq, zero_zpow n h0]
    rfl
  · exact ratPower_number hq

end Joining

/-- **Products of numbers are exact.** -/
theorem mul_number (p q : Rat) : mul (number p) (number q) = number (p * q) :=
  Joining.mul_number 199 p q

/-- **Powers of numbers with whole exponents are exact**, unless zero would be divided by. -/
theorem pow_number {n : Int} (h : q ≠ 0 ∨ 0 ≤ n) : pow (number q) (number n) = number (q ^ n) :=
  Joining.pow_number 199 h

theorem inv_number (h : q ≠ 0) : inv (number q) = number q⁻¹ := by
  have power := pow_number (n := -1) (.inl h)
  rw [zpow_neg_one] at power
  exact power

theorem div_number (p : Rat) (h : q ≠ 0) : div (number p) (number q) = number (p / q) := by
  rw [div, inv_number h, mul_number, div_eq_mul_inv]

end Term

/-! ## Formulas that are numbers -/

namespace Formula

variable {f : Formula} {p q r : Rat}

/-- Two numbers joined by an operation, as far as exact arithmetic goes: nothing is divided by zero,
and exponents are whole. -/
def Operation.rational? : Operation → Rat → Rat → Option Rat
  | .plus, p, q => some (p + q)
  | .minus, p, q => some (p - q)
  | .times, p, q => some (p * q)
  | .dividedBy, p, q => if q = 0 then none else some (p / q)
  | .power, p, q => if q.den = 1 ∧ (p ≠ 0 ∨ 0 ≤ q) then some (p ^ q.num) else none
  | _, _, _ => none

/-- The number that a formula of numbers, signs and operations stands for by exact arithmetic. -/
def rational? : Formula → Option Rat
  | .term (.number q) => some q
  | .plus f => rational? f
  | .minus f => (rational? f).map (- ·)
  | .operation op f g =>
    match rational? f, rational? g with
    | some p, some q => op.rational? p q
    | _, _ => none
  | _ => none

/-- The terms of numbers are joined as the numbers are. -/
theorem join?_of_rational? {op : Operation} (h : op.rational? p q = some r) :
    op.join? (.number p) (.number q) = some (.number r) := by
  cases op with
  | plus =>
    obtain rfl := Option.some.inj h
    exact congrArg some (Term.add_number p q)
  | minus =>
    obtain rfl := Option.some.inj h
    exact congrArg some (Term.sub_number p q)
  | times =>
    obtain rfl := Option.some.inj h
    exact congrArg some (Term.mul_number p q)
  | dividedBy =>
    obtain ⟨hq, h⟩ := Option.ite_none_left_eq_some.mp h
    obtain rfl := Option.some.inj h
    rw [Operation.join?]
    split
    next one =>
      obtain rfl : p = 1 := Term.number.inj one
      rw [Term.inv_number hq, one_div]
    next => rw [Term.div_number p hq]
  | power =>
    obtain ⟨⟨whole, hp⟩, h⟩ := Option.ite_none_right_eq_some.mp h
    obtain rfl := Option.some.inj h
    have exponent : ((q.num : Int) : Rat) = q := Rat.den_eq_one_iff q |>.mp whole
    have join := Term.pow_number (q := p) (n := q.num) (hp.imp_right Rat.num_nonneg.mpr)
    rw [exponent] at join
    exact congrArg some join
  | remainder => exact absurd h (by simp [Operation.rational?])
  | quotient => exact absurd h (by simp [Operation.rational?])

/-- **The engine is exact on rational arithmetic.** -/
theorem value?_of_rational? : ∀ {f : Formula} {q : Rat}, f.rational? = some q →
    f.value? = some (.number q)
  | .term (.number p), q, h => by
    obtain rfl := Option.some.inj h
    rfl
  | .plus f, q, h => value?_of_rational? (f := f) h
  | .minus f, q, h => by
    obtain ⟨p, hp, rfl⟩ := Option.map_eq_some_iff.mp h
    rw [value?, value?_of_rational? hp, Option.map_some, Term.neg_number]
  | .operation op f g, q, h => by
    rw [rational?] at h
    split at h
    next p r hp hr =>
      rw [value?, value?_of_rational? hp, value?_of_rational? hr]
      exact join?_of_rational? h
    next => exact absurd h (by simp)

end Formula

end Stepwise
