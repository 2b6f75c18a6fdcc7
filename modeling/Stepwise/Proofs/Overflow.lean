import Mathlib.Algebra.Order.Field.Basic
import Mathlib.Algebra.Order.Field.Power
import Mathlib.Data.Rat.Cast.Order
import Mathlib.Tactic.FieldSimp
import Mathlib.Tactic.Linarith
import Mathlib.Tactic.Ring
import Stepwise.Number.Dyad
import Stepwise.Proofs.Doubles

/-!
# Doubles out of range

Every number is made by rounding a quotient of naturals. The quotient is scaled so that its integer
part has 53 bits (`floorLog2_spec`), and the integer nearest to what comes out is the significand.
From `(2 ^ 54 - 1) · 2 ^ 970` on, half a unit above the largest double, the even neighbour to which
a tie goes has one bit more, and there is no double for it.

Results: `isFinite_ofRatio_iff`, the exact bound for quotients, and `isFinite_toBinary64_iff`, the
same for dyads; neither is ever rounded to `nan`. A number that loses all but its leading bits first
is out of range for the same bound (`abs_value_short_lt_iff`).
-/

namespace Stepwise

/-- A quotient is rounded below an even number if and only if it lies below the half in front of it. -/
theorem roundDiv_lt_iff {b n d : Nat} (hd : 0 < d) (hb : 0 < b) (even : b % 2 = 0) :
    roundDiv n d < b ↔ 2 * n < (2 * b - 1) * d := by
  obtain ⟨c, rfl⟩ : ∃ c, b = c + 1 := ⟨b - 1, by omega⟩
  have whole : d * (n / d) + n % d = n := Nat.div_add_mod n d
  have rest : n % d < d := Nat.mod_lt n hd
  have bound : (2 * (c + 1) - 1) * d = 2 * (d * c) + d := by
    rw [show 2 * (c + 1) - 1 = 2 * c + 1 by omega]
    ring
  rw [bound]
  rcases Nat.lt_trichotomy (n / d) c with below | rfl | above
  · -- Rounding adds at most one.
    have step : d * (n / d) + d ≤ d * c := by
      rw [← Nat.mul_succ]
      exact Nat.mul_le_mul_left d below
    have rounded : roundDiv n d ≤ n / d + 1 := by
      unfold roundDiv
      dsimp only
      split
      · omega
      · split
        · omega
        · split <;> omega
    exact iff_of_true (by omega) (by omega)
  · -- The quotient in front of an even number is odd, so a tie goes up.
    unfold roundDiv
    dsimp only
    split
    · exact iff_of_true (by omega) (by omega)
    · split
      · exact iff_of_false (by omega) (by omega)
      · rw [if_neg (by omega)]
        exact iff_of_false (by omega) (by omega)
  · have step : d * c + d ≤ d * (n / d) := by
      rw [← Nat.mul_succ]
      exact Nat.mul_le_mul_left d above
    have rounded : c + 1 ≤ roundDiv n d := le_roundDiv hd (by rw [Nat.mul_comm, Nat.mul_succ]; omega)
    exact iff_of_false (by omega) (by omega)

namespace Binary64

/-! ## The position of the leading bit -/

/-- A comparison of a power of two with a quotient, without division. -/
theorem atLeast_iff {n d : Nat} (hd : 0 < d) (k : Int) :
    (if 0 ≤ k then d * 2 ^ k.toNat ≤ n else d ≤ n * 2 ^ (-k).toNat) ↔
      (2 : ℚ) ^ k ≤ n / d := by
  have positive : (0 : ℚ) < d := by exact_mod_cast hd
  rw [le_div_iff₀ positive]
  split
  next hk =>
    obtain ⟨j, rfl⟩ := Int.eq_ofNat_of_zero_le hk
    rw [Int.toNat_natCast, zpow_natCast, mul_comm]
    exact_mod_cast Iff.rfl
  next hk =>
    obtain ⟨j, rfl⟩ : ∃ j : Nat, k = -j := ⟨(-k).toNat, by omega⟩
    rw [Int.neg_neg, Int.toNat_natCast, zpow_neg, zpow_natCast, inv_mul_le_iff₀ (by positivity),
      mul_comm]
    exact_mod_cast Iff.rfl

theorem floorLog2_spec {n d : Nat} (hn : 0 < n) (hd : 0 < d) :
    (2 : ℚ) ^ floorLog2 n d ≤ n / d ∧ (n : ℚ) / d < 2 ^ (floorLog2 n d + 1) := by
  have nLow : (2 : ℚ) ^ (n.log2 : Int) ≤ n := by
    rw [zpow_natCast]
    exact_mod_cast Nat.log2_self_le hn.ne'
  have nHigh : (n : ℚ) < 2 ^ ((n.log2 : Int) + 1) := by
    rw [← Nat.cast_succ, zpow_natCast]
    exact_mod_cast Nat.lt_log2_self
  have dLow : (2 : ℚ) ^ (d.log2 : Int) ≤ d := by
    rw [zpow_natCast]
    exact_mod_cast Nat.log2_self_le hd.ne'
  have dHigh : (d : ℚ) < 2 ^ ((d.log2 : Int) + 1) := by
    rw [← Nat.cast_succ, zpow_natCast]
    exact_mod_cast Nat.lt_log2_self
  have positive : (0 : ℚ) < d := by exact_mod_cast hd
  have low : (2 : ℚ) ^ ((n.log2 : Int) - d.log2 - 1) ≤ n / d := by
    rw [le_div_iff₀ positive]
    calc (2 : ℚ) ^ ((n.log2 : Int) - d.log2 - 1) * d
        ≤ 2 ^ ((n.log2 : Int) - d.log2 - 1) * 2 ^ ((d.log2 : Int) + 1) := by gcongr
      _ = 2 ^ (n.log2 : Int) := by rw [← zpow_add₀ two_ne_zero]; congr 1; omega
      _ ≤ n := nLow
  have high : (n : ℚ) / d < 2 ^ ((n.log2 : Int) - d.log2 + 1) := by
    rw [div_lt_iff₀ positive]
    calc (n : ℚ) < 2 ^ ((n.log2 : Int) + 1) := nHigh
      _ = 2 ^ ((n.log2 : Int) - d.log2 + 1) * 2 ^ (d.log2 : Int) := by
        rw [← zpow_add₀ two_ne_zero]; congr 1; omega
      _ ≤ 2 ^ ((n.log2 : Int) - d.log2 + 1) * d := by gcongr
  by_cases h : (2 : ℚ) ^ ((n.log2 : Int) - d.log2) ≤ n / d
  · have value : floorLog2 n d = n.log2 - d.log2 := if_pos ((atLeast_iff hd _).mpr h)
    rw [value]
    exact ⟨h, high⟩
  · have value : floorLog2 n d = n.log2 - d.log2 - 1 :=
      if_neg fun h' => h ((atLeast_iff hd _).mp h')
    rw [value, Int.sub_add_cancel]
    exact ⟨low, lt_of_not_ge h⟩

/-! ## Significands -/

/-- **How a quotient is rounded**: it is scaled by a power of two, and the integer nearest to what
comes out, a quotient again, is the significand, unless it is one bit too long. -/
theorem ofRatio_eq (negative : Bool) {n d : Nat} (hn : 0 < n) :
    ∃ a b : Nat, (0 < d → 0 < b) ∧
      (a : ℚ) / b = n / d / 2 ^ max (-1074) (floorLog2 n d - 52) ∧
      ofRatio negative n d =
        if roundDiv a b = 2 ^ (53 : Nat)
        then ofParts negative (2 ^ (52 : Nat)) (max (-1074) (floorLog2 n d - 52) + 1)
        else ofParts negative (roundDiv a b) (max (-1074) (floorLog2 n d - 52)) := by
  unfold ofRatio
  rw [if_neg hn.ne']
  generalize max (-1074) (floorLog2 n d - 52) = e
  dsimp only
  by_cases he : 0 ≤ e
  · obtain ⟨j, rfl⟩ := Int.eq_ofNat_of_zero_le he
    refine ⟨n, d * 2 ^ j, fun hd => Nat.mul_pos hd (Nat.two_pow_pos _), ?_, ?_⟩
    · rw [zpow_natCast, div_div]
      push_cast
      rfl
    · rw [if_pos he, Int.toNat_natCast]
  · obtain ⟨j, rfl⟩ : ∃ j : Nat, e = -j := ⟨(-e).toNat, by omega⟩
    refine ⟨n * 2 ^ j, d, id, ?_, ?_⟩
    · rw [zpow_neg, zpow_natCast, div_inv_eq_mul, div_mul_eq_mul_div]
      push_cast
      rfl
    · rw [if_neg he, Int.neg_neg, Int.toNat_natCast]

/-- A significand has at most 53 bits, and all of them unless the exponent is the least one. -/
theorem significand_bounds {n d a b : Nat} (hn : 0 < n) (hd : 0 < d) (hb : 0 < b)
    (scaled : (a : ℚ) / b = n / d / 2 ^ max (-1074) (floorLog2 n d - 52)) :
    roundDiv a b ≤ 2 ^ (53 : Nat) ∧
      (-1074 ≤ floorLog2 n d - 52 → 2 ^ (52 : Nat) ≤ roundDiv a b) := by
  obtain ⟨low, high⟩ := floorLog2_spec hn hd
  have positive : (0 : ℚ) < b := by exact_mod_cast hb
  refine ⟨roundDiv_le ?_, fun normal => le_roundDiv hb ?_⟩
  · have : (a : ℚ) / b < 2 ^ (53 : Nat) := calc
      (a : ℚ) / b = n / d / 2 ^ max (-1074) (floorLog2 n d - 52) := scaled
      _ < 2 ^ (floorLog2 n d + 1) / 2 ^ max (-1074) (floorLog2 n d - 52) := by gcongr
      _ = 2 ^ (floorLog2 n d + 1 - max (-1074) (floorLog2 n d - 52)) :=
        (zpow_sub₀ two_ne_zero _ _).symm
      _ ≤ 2 ^ (53 : Int) := zpow_le_zpow_right₀ one_le_two (by omega)
      _ = 2 ^ (53 : Nat) := zpow_natCast 2 53
    rw [div_lt_iff₀ positive] at this
    exact_mod_cast this
  · have : 2 ^ (52 : Nat) ≤ (a : ℚ) / b := calc
      (2 : ℚ) ^ (52 : Nat) = 2 ^ (52 : Int) := (zpow_natCast 2 52).symm
      _ = 2 ^ floorLog2 n d / 2 ^ max (-1074) (floorLog2 n d - 52) := by
        rw [← zpow_sub₀ two_ne_zero]
        congr 1
        omega
      _ ≤ n / d / 2 ^ max (-1074) (floorLog2 n d - 52) := by gcongr
      _ = a / b := scaled.symm
    rw [le_div_iff₀ positive] at this
    exact_mod_cast this

theorem isFinite_ofParts_iff {negative : Bool} {s : Nat} {e : Int} :
    (ofParts negative s e).isFinite = true ↔ Canonical s e := by
  refine ⟨fun h => ?_, isFinite_ofParts⟩
  unfold ofParts at h
  split at h
  next hc => exact hc
  next => exact absurd h Bool.false_ne_true

/-! ## The bound -/

/-- The half in front of a significand of 54 bits, for the exponent `k + 1`. -/
def halfBelow (k : Nat) : Nat := (2 ^ (54 : Nat) - 1) * 2 ^ k

theorem halfBelow_eq (k : Nat) :
    (halfBelow k : ℚ) = (2 ^ (54 : Nat) - 1) / 2 * 2 ^ ((k + 1 : Nat) : Int) := by
  rw [halfBelow, Nat.cast_mul, Nat.cast_sub (by decide), zpow_natCast, pow_succ]
  push_cast
  ring

theorem two_zpow (k : Nat) : (2 : ℚ) ^ (k : Int) = ((2 ^ k : Nat) : ℚ) := by
  rw [zpow_natCast]
  exact_mod_cast rfl

theorem halfBelow_pos (k : Nat) : 0 < halfBelow k := Nat.mul_pos (by decide) (Nat.two_pow_pos k)

theorem two_zpow_lt_halfBelow (k : Nat) : (2 : ℚ) ^ ((53 + k : Nat) : Int) < halfBelow k := by
  rw [two_zpow, Nat.pow_add]
  exact Nat.cast_lt.mpr (Nat.mul_lt_mul_of_pos_right (by decide) (Nat.two_pow_pos k))

theorem halfBelow_lt_two_zpow (k : Nat) : (halfBelow k : ℚ) < 2 ^ ((54 + k : Nat) : Int) := by
  rw [two_zpow, Nat.pow_add]
  exact Nat.cast_lt.mpr (Nat.mul_lt_mul_of_pos_right (by decide) (Nat.two_pow_pos k))

/-- The least magnitude that is rounded to infinity, `(2 ^ 54 - 1) · 2 ^ 970`. -/
def overflow : Nat := halfBelow 970

theorem overflow_pos : 0 < overflow := halfBelow_pos 970

/-- The bound lies above the last power of two that is a double, and below the next one. -/
theorem two_zpow_lt_overflow : (2 : ℚ) ^ ((1023 : Nat) : Int) < overflow :=
  two_zpow_lt_halfBelow 970

theorem overflow_lt_two_zpow : (overflow : ℚ) < 2 ^ ((1024 : Nat) : Int) :=
  halfBelow_lt_two_zpow 970

theorem overflow_eq : (overflow : ℚ) = (2 ^ (54 : Nat) - 1) / 2 * 2 ^ (971 : Int) := halfBelow_eq 970

/-- **Exactly from the bound on, a quotient is rounded to infinity.** -/
theorem isFinite_ofRatio_iff (negative : Bool) {n d : Nat} (hd : 0 < d) :
    (ofRatio negative n d).isFinite = true ↔ n < overflow * d := by
  rcases Nat.eq_zero_or_pos n with rfl | hn
  · exact iff_of_true rfl (Nat.mul_pos overflow_pos hd)
  obtain ⟨a, b, hb, scaled, value⟩ := ofRatio_eq negative (d := d) hn
  obtain ⟨low, high⟩ := floorLog2_spec hn hd
  obtain ⟨most, least⟩ := significand_bounds hn hd (hb hd) scaled
  have positive : (0 : ℚ) < d := by exact_mod_cast hd
  have bound : n < overflow * d ↔ (n : ℚ) / d < overflow := by
    rw [div_lt_iff₀ positive]
    exact_mod_cast Iff.rfl
  rw [value, bound]
  generalize floorLog2 n d = k at low high least scaled
  rcases Int.lt_trichotomy k 1023 with small | rfl | large
  · refine iff_of_true ?_ (lt_of_lt_of_le high ?_)
    · split
      next => exact isFinite_ofParts ⟨by decide, by omega, by omega, .inl le_rfl⟩
      next hq =>
        refine isFinite_ofParts ⟨by omega, by omega, by omega, ?_⟩
        rcases le_or_gt (-1074) (k - 52) with h | h
        · exact .inl (least h)
        · exact .inr (by omega)
    · exact (zpow_le_zpow_right₀ one_le_two (by omega)).trans two_zpow_lt_overflow.le
  · -- The last exponent: what counts is whether the significand gets a bit too long.
    have exponent : max (-1074) ((1023 : Int) - 52) = 971 := by decide
    rw [exponent] at scaled ⊢
    have bits : roundDiv a b < 2 ^ (53 : Nat) ↔ (n : ℚ) / d < overflow := by
      have half : (n : ℚ) / d < overflow ↔ (a : ℚ) / b < (2 ^ (54 : Nat) - 1) / 2 := by
        rw [scaled, overflow_eq, div_lt_iff₀ (show (0 : ℚ) < 2 ^ (971 : Int) by positivity)]
      have wide : (0 : ℚ) < b := by exact_mod_cast hb hd
      have odd : (((2 * 2 ^ (53 : Nat) - 1) * b : Nat) : ℚ) = (2 ^ (54 : Nat) - 1) * b := by
        rw [Nat.cast_mul, Nat.cast_sub (by decide)]
        norm_num
      rw [roundDiv_lt_iff (hb hd) (by decide) (by decide), half, div_lt_div_iff₀ wide two_pos, ← odd,
        mul_comm (a : ℚ)]
      exact_mod_cast Iff.rfl
    rw [← bits]
    split
    next hq =>
      rw [isFinite_ofParts_iff]
      exact iff_of_false (fun h => absurd h.2.2.1 (by decide)) (by omega)
    next hq =>
      rw [isFinite_ofParts_iff]
      exact iff_of_true ⟨by omega, by decide, by decide, .inl (least (by decide))⟩ (by omega)
  · refine iff_of_false ?_ (not_lt_of_ge ?_)
    · split
      · rw [isFinite_ofParts_iff]
        exact fun h => absurd h.2.2.1 (by omega)
      · rw [isFinite_ofParts_iff]
        exact fun h => absurd h.2.2.1 (by omega)
    · exact overflow_lt_two_zpow.le.trans ((zpow_le_zpow_right₀ one_le_two (by omega)).trans low)

/-- The same for fractions. -/
theorem isFinite_ofFraction_iff {n : Int} {d : Nat} (hd : 0 < d) :
    (ofFraction n d).isFinite = true ↔ |(n : ℚ) / d| < overflow := by
  have positive : (0 : ℚ) < d := by exact_mod_cast hd
  have size : |(n : ℚ)| = n.natAbs := by rw [Nat.cast_natAbs, Int.cast_abs]
  rw [ofFraction, isFinite_ofRatio_iff _ hd, abs_div, abs_of_pos positive, div_lt_iff₀ positive, size]
  exact_mod_cast Iff.rfl

theorem ofParts_ne_nan (negative : Bool) (s : Nat) (e : Int) : ofParts negative s e ≠ .nan := by
  unfold ofParts
  split <;> exact Binary64.noConfusion

theorem ofRatio_ne_nan (negative : Bool) (n d : Nat) : ofRatio negative n d ≠ .nan := by
  rcases Nat.eq_zero_or_pos n with rfl | hn
  · exact Binary64.noConfusion
  · obtain ⟨a, b, -, -, value⟩ := ofRatio_eq negative (d := d) hn
    rw [value]
    split
    · exact ofParts_ne_nan _ _ _
    · exact ofParts_ne_nan _ _ _

end Binary64

/-! ## Dyads -/

namespace Dyad

variable {x : Dyad}

/-- The number that a dyad is. -/
def value (x : Dyad) : ℚ := x.mantissa * 2 ^ x.exponent

theorem abs_value (x : Dyad) : |x.value| = x.mantissa.natAbs * 2 ^ x.exponent := by
  rw [value, abs_mul, abs_of_pos (show (0 : ℚ) < 2 ^ x.exponent by positivity), Nat.cast_natAbs,
    Int.cast_abs]

/-- The leading bit of a number other than zero. -/
theorem magnitude_spec (h : x.mantissa ≠ 0) :
    2 ^ x.magnitude ≤ |x.value| ∧ |x.value| < 2 ^ (x.magnitude + 1) := by
  have low : (2 : ℚ) ^ (x.mantissa.natAbs.log2 : Int) ≤ x.mantissa.natAbs := by
    rw [Binary64.two_zpow]
    exact Nat.cast_le.mpr (Nat.log2_self_le (Int.natAbs_ne_zero.mpr h))
  have high : (x.mantissa.natAbs : ℚ) < 2 ^ ((x.mantissa.natAbs.log2 + 1 : Nat) : Int) := by
    rw [Binary64.two_zpow]
    exact Nat.cast_lt.mpr Nat.lt_log2_self
  rw [abs_value, magnitude, add_right_comm, zpow_add₀ two_ne_zero, zpow_add₀ two_ne_zero]
  exact ⟨by gcongr, by gcongr; exact_mod_cast high⟩

/-- **Exactly from the bound on, a dyad is rounded to infinity.** -/
theorem isFinite_toBinary64_iff : x.toBinary64.isFinite = true ↔ |x.value| < Binary64.overflow := by
  unfold toBinary64
  split
  next h =>
    refine iff_of_true rfl ?_
    rw [value, h, Int.cast_zero, zero_mul, abs_zero]
    exact Nat.cast_pos.mpr Binary64.overflow_pos
  next h =>
    obtain ⟨low, high⟩ := magnitude_spec h
    split
    next large =>
      refine iff_of_false Bool.false_ne_true (not_lt_of_ge ?_)
      exact Binary64.overflow_lt_two_zpow.le.trans
        ((zpow_le_zpow_right₀ one_le_two (by omega)).trans low)
    next =>
      split
      next small =>
        refine iff_of_true rfl (high.trans_le ?_)
        exact (zpow_le_zpow_right₀ one_le_two (by omega)).trans Binary64.two_zpow_lt_overflow.le
      next =>
        split
        next he =>
          obtain ⟨j, hj⟩ := Int.eq_ofNat_of_zero_le he
          rw [Binary64.isFinite_ofRatio_iff _ Nat.one_pos, abs_value, hj, Int.toNat_natCast,
            Binary64.two_zpow, Nat.mul_one]
          exact_mod_cast Iff.rfl
        next he =>
          obtain ⟨j, hj⟩ : ∃ j : Nat, x.exponent = -j := ⟨(-x.exponent).toNat, by omega⟩
          rw [Binary64.isFinite_ofRatio_iff _ (Nat.two_pow_pos _), abs_value, hj, Int.neg_neg,
            Int.toNat_natCast, zpow_neg, Binary64.two_zpow, mul_inv_lt_iff₀ (by positivity)]
          exact_mod_cast Iff.rfl

theorem units_lt_iff {n d : Nat} (hd : 0 < d) (k : Int) (c : Nat) :
    units n d k < c ↔ (n : ℚ) / d < c * 2 ^ k := by
  have positive : (0 : ℚ) < d := by exact_mod_cast hd
  rw [div_lt_iff₀ positive, units]
  split
  next hk =>
    obtain ⟨j, rfl⟩ := Int.eq_ofNat_of_zero_le hk
    rw [Int.toNat_natCast, Nat.div_lt_iff_lt_mul (Nat.mul_pos hd (Nat.two_pow_pos j)),
      Binary64.two_zpow, mul_assoc, mul_comm (_ : ℚ) (d : ℚ)]
    exact_mod_cast Iff.rfl
  next hk =>
    obtain ⟨j, rfl⟩ : ∃ j : Nat, k = -j := ⟨(-k).toNat, by omega⟩
    rw [Int.neg_neg, Int.toNat_natCast, Nat.div_lt_iff_lt_mul hd, zpow_neg, Binary64.two_zpow,
      mul_right_comm, lt_mul_inv_iff₀ (by positivity)]
    exact_mod_cast Iff.rfl

/-- The size of the leading bits of a rational number. -/
theorem abs_value_short {q : ℚ} (hq : q ≠ 0) :
    ∃ (f : Int) (leading : Nat), (2 : ℚ) ^ f ≤ |q| ∧ |q| < 2 ^ (f + 1) ∧
      (∀ c : Nat, leading < c ↔ |q| < c * 2 ^ (f - 56)) ∧
      |(short q).value| = roundDiv leading 16 * 2 ^ (f - 52) := by
  have hn : q.num.natAbs ≠ 0 := Int.natAbs_ne_zero.mpr (Rat.num_ne_zero.mpr hq)
  have size : |q| = (q.num.natAbs : ℚ) / q.den := by
    rw [Nat.cast_natAbs, Int.cast_abs, ← Nat.abs_cast q.den, ← abs_div, Rat.num_div_den]
  obtain ⟨low, high⟩ := Binary64.floorLog2_spec (Nat.pos_of_ne_zero hn) q.den_pos
  refine ⟨_, units q.num.natAbs q.den (Binary64.floorLog2 q.num.natAbs q.den - 56), size ▸ low,
    size ▸ high, fun c => ?_, ?_⟩
  · rw [size]
    exact units_lt_iff q.den_pos _ c
  · rw [abs_value, short, if_neg hn]
    dsimp only
    congr 2
    · split
      · rw [Int.natAbs_neg, Int.natAbs_natCast]
      · rw [Int.natAbs_natCast]
    · omega

/-- **Exactly from the bound on, the leading bits of a rational number are.** From one power of two to
the next the bits that are kept are the same, and the bound has no more of them. -/
theorem abs_value_short_lt_iff (q : ℚ) :
    |(short q).value| < Binary64.overflow ↔ |q| < Binary64.overflow := by
  by_cases hq : q = 0
  · have none : (short 0).value = 0 := by simp [short, zero, Dyad.value]
    rw [hq, none]
  obtain ⟨f, leading, low, high, bits, value⟩ := abs_value_short hq
  have unit : (2 : ℚ) ^ f = 2 ^ (56 : Nat) * 2 ^ (f - 56) := by
    rw [← zpow_natCast, ← zpow_add₀ two_ne_zero]
    congr 1
    omega
  have most : leading < 2 ^ (57 : Nat) := by
    rw [bits, Nat.cast_pow, Nat.cast_two]
    calc |q| < 2 ^ (f + 1) := high
      _ = 2 ^ (57 : Nat) * 2 ^ (f - 56) := by rw [zpow_add₀ two_ne_zero, unit]; ring
  have least : 2 ^ (56 : Nat) ≤ leading := by
    refine le_of_not_gt fun h => ?_
    have h := (bits _).mp h
    rw [Nat.cast_pow, Nat.cast_two, ← unit] at h
    exact absurd low (not_le_of_gt h)
  rw [value]
  rcases Int.lt_trichotomy f 1023 with small | rfl | large
  · have rounded : roundDiv leading 16 ≤ 2 ^ (53 : Nat) := roundDiv_le (by omega)
    refine iff_of_true ?_ (high.trans_le ?_)
    · calc (roundDiv leading 16 : ℚ) * 2 ^ (f - 52)
          ≤ (2 ^ (53 : Nat) : Nat) * 2 ^ (f - 52) := by gcongr
        _ = 2 ^ (f + 1) := by
          rw [← Binary64.two_zpow, ← zpow_add₀ two_ne_zero]
          congr 1
          omega
        _ ≤ 2 ^ ((1023 : Nat) : Int) := zpow_le_zpow_right₀ one_le_two (by omega)
        _ < Binary64.overflow := Binary64.two_zpow_lt_overflow
    · exact (zpow_le_zpow_right₀ one_le_two (by omega)).trans Binary64.two_zpow_lt_overflow.le
  · -- Both bounds lie between two significands of 53 bits, a half from either.
    have half : (Binary64.overflow : ℚ) = ((2 ^ (54 : Nat) - 1) * 8 : Nat) * 2 ^ ((1023 : Int) - 56) := by
      rw [Binary64.overflow_eq, show (971 : Int) = 4 + (1023 - 56) by decide, zpow_add₀ two_ne_zero,
        Nat.cast_mul, Nat.cast_sub (by decide)]
      generalize (2 : ℚ) ^ ((1023 : Int) - 56) = unit
      push_cast
      ring
    have rounded : (roundDiv leading 16 : ℚ) * 2 ^ ((1023 : Int) - 52) < Binary64.overflow ↔
        roundDiv leading 16 < 2 ^ (53 : Nat) := by
      rw [Binary64.overflow_eq, show (1023 : Int) - 52 = 971 by decide,
        mul_lt_mul_iff_of_pos_right (show (0 : ℚ) < 2 ^ (971 : Int) by positivity), lt_div_iff₀ two_pos]
      constructor
      · intro h
        have h : roundDiv leading 16 * 2 < 2 ^ (54 : Nat) - 1 := by
          rw [← Nat.cast_lt (α := ℚ), Nat.cast_sub (by decide)]
          exact_mod_cast h
        omega
      · intro h
        have h : roundDiv leading 16 * 2 < 2 ^ (54 : Nat) - 1 := by omega
        rw [← Nat.cast_lt (α := ℚ), Nat.cast_sub (by decide)] at h
        exact_mod_cast h
    rw [rounded, half, ← bits, roundDiv_lt_iff (by decide) (by decide) (by decide)]
    omega
  · have rounded : 2 ^ (52 : Nat) ≤ roundDiv leading 16 := le_roundDiv (by decide) (by omega)
    refine iff_of_false (not_lt_of_ge ?_) (not_lt_of_ge ?_)
    · calc (Binary64.overflow : ℚ) ≤ 2 ^ ((1024 : Nat) : Int) := Binary64.overflow_lt_two_zpow.le
        _ ≤ 2 ^ f := zpow_le_zpow_right₀ one_le_two (by omega)
        _ = (2 ^ (52 : Nat) : Nat) * 2 ^ (f - 52) := by
          rw [← Binary64.two_zpow, ← zpow_add₀ two_ne_zero]
          congr 1
          omega
        _ ≤ roundDiv leading 16 * 2 ^ (f - 52) := by gcongr
    · exact Binary64.overflow_lt_two_zpow.le.trans
        ((zpow_le_zpow_right₀ one_le_two (by omega)).trans low)

theorem toBinary64_ne_nan (x : Dyad) : x.toBinary64 ≠ .nan := by
  unfold toBinary64
  split
  · exact Binary64.noConfusion
  · split
    · exact Binary64.noConfusion
    · split
      · exact Binary64.noConfusion
      · split
        · exact Binary64.ofRatio_ne_nan _ _ _
        · exact Binary64.ofRatio_ne_nan _ _ _

end Dyad

end Stepwise
