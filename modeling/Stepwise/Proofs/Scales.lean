import Stepwise.Proofs.Encoding
import Stepwise.Proofs.Outcome
import Stepwise.Proofs.Overflow
import Stepwise.Settings.Config

/-!
# Rounding at every precision

A double is rounded at the scale `10 ^ precision`: multiplied by it, moved to an integer, and divided
by it again. A setting can ask for any precision, but the scale has to be a double other than zero.
Positive powers of ten are doubles up to `10 ^ 308`; negative ones are rounded, down to zero from
`10 ^ -324` on; and a negative precision has to be a double itself.

Nothing else can fail: what is divided is the integer part of a double, and these are in range
(`natAbs_floor?_lt`).

Results: `isZero_ofRatio_iff`, the bound below which a quotient is rounded to zero;
`round_eq_error_iff`, rounding fails for finite doubles at the scales out of range, and for nothing
else; and `round_overflow`, a settings file with such a precision.
-/

namespace Stepwise

/-- A quotient is rounded to zero up to a half, as zero is even. -/
theorem roundDiv_eq_zero_iff {n d : Nat} (hd : 0 < d) : roundDiv n d = 0 ↔ 2 * n ≤ d := by
  constructor
  · intro h
    have near := (roundDiv_near n d hd).2
    rwa [h, Nat.zero_mul, Nat.mul_zero, Nat.zero_add] at near
  · intro h
    have small : n < d := by omega
    unfold roundDiv
    rw [Nat.div_eq_of_lt small, Nat.mod_eq_of_lt small]
    dsimp only
    split
    · rfl
    · rw [if_neg (by omega)]
      rfl

namespace Binary64

variable {x y : Binary64} {p : Int} {fault : Fault}

/-! ## Quotients that are rounded to zero -/

/-- The reciprocal of half of the number `2 ^ -k`. -/
def twice (k : Nat) : Nat := 2 * 2 ^ k

theorem twice_eq (k : Nat) : (twice k : ℚ) = 2 * 2 ^ (k : Int) := by
  rw [two_zpow, twice, Nat.cast_mul, Nat.cast_two]

/-- The least divisor by which one is rounded to zero, `2 ^ 1075`. -/
def underflow : Nat := twice 1074

theorem underflow_eq : (underflow : ℚ) = 2 * 2 ^ (1074 : Int) := twice_eq 1074

theorem eq_zero_of_isZero_ofParts {negative : Bool} {s : Nat} {e : Int}
    (h : (ofParts negative s e).isZero = true) : s = 0 := by
  unfold ofParts at h
  split at h
  · exact eq_of_beq h
  · exact absurd h Bool.false_ne_true

/-- A quotient whose significand has all its 53 bits is above half of the least double. -/
theorem one_lt_of_normal {q : ℚ} {k : Int} (low : 2 ^ k ≤ q) (normal : -1074 ≤ k - 52) :
    1 < q * (2 * 2 ^ (1074 : Int)) :=
  calc (1 : ℚ) < 2 * 2 ^ (52 : Int) := by norm_num
    _ ≤ 2 * 2 ^ (k + 1074) := by gcongr <;> [exact one_le_two; omega]
    _ = 2 ^ k * (2 * 2 ^ (1074 : Int)) := by rw [zpow_add₀ two_ne_zero]; ring
    _ ≤ q * (2 * 2 ^ (1074 : Int)) := by gcongr

/-- At the least exponent, the significand is zero up to half of the least double. -/
theorem roundDiv_eq_zero_iff_of_subnormal {q : ℚ} {a b : Nat} (hb : 0 < b)
    (scaled : (a : ℚ) / b = q / 2 ^ (-1074 : Int)) :
    roundDiv a b = 0 ↔ q * (2 * 2 ^ (1074 : Int)) ≤ 1 := by
  have wide : (0 : ℚ) < b := by exact_mod_cast hb
  have double : q * (2 * 2 ^ (1074 : Int)) = 2 * a / b := by
    rw [mul_div_assoc, scaled, zpow_neg, div_inv_eq_mul]
    ring
  rw [double, div_le_one wide, roundDiv_eq_zero_iff hb]
  exact_mod_cast Iff.rfl

/-- **Exactly up to half of the least double, a quotient is rounded to zero.** -/
theorem isZero_ofRatio_iff (negative : Bool) {n d : Nat} (hd : 0 < d) :
    (ofRatio negative n d).isZero = true ↔ n * underflow ≤ d := by
  rcases Nat.eq_zero_or_pos n with rfl | hn
  · exact iff_of_true rfl (by rw [Nat.zero_mul]; exact Nat.zero_le d)
  obtain ⟨a, b, hb, scaled, value⟩ := ofRatio_eq negative (d := d) hn
  obtain ⟨low, high⟩ := floorLog2_spec hn hd
  obtain ⟨most, least⟩ := significand_bounds hn hd (hb hd) scaled
  have positive : (0 : ℚ) < d := by exact_mod_cast hd
  have bound : n * underflow ≤ d ↔ (n : ℚ) / d * underflow ≤ 1 := by
    rw [div_mul_eq_mul_div, div_le_one positive]
    exact_mod_cast Iff.rfl
  rw [value, bound, underflow_eq]
  generalize floorLog2 n d = k at low high least scaled
  rcases le_or_gt (-1074) (k - 52) with normal | subnormal
  · -- All 53 bits of the significand are filled.
    have filled := least normal
    refine iff_of_false (fun h => ?_) (not_le_of_gt ?_)
    · split at h
      · exact absurd (eq_zero_of_isZero_ofParts h) (by decide)
      · have := eq_zero_of_isZero_ofParts h
        omega
    · exact one_lt_of_normal low normal
  · -- The least exponent: what counts is whether the significand is zero.
    have exponent : max (-1074) (k - 52) = -1074 := by omega
    rw [exponent] at scaled ⊢
    rw [← roundDiv_eq_zero_iff_of_subnormal (hb hd) scaled]
    split
    next hq =>
      refine iff_of_false (fun h => ?_) (by omega)
      exact absurd (eq_zero_of_isZero_ofParts h) (by decide)
    next hq =>
      refine ⟨eq_zero_of_isZero_ofParts, fun h => ?_⟩
      rw [h]
      rfl

/-- Between two powers of ten, only the exponents count. -/
theorem le_ten_pow_iff {b m : Nat} (last : 10 ^ m < b) (first : b ≤ 10 ^ (m + 1)) (k : Nat) :
    b ≤ 10 ^ k ↔ m < k := by
  refine ⟨fun h => ?_, fun h => first.trans (Nat.pow_le_pow_right (by decide) h)⟩
  by_contra hk
  have : 10 ^ k ≤ 10 ^ m := Nat.pow_le_pow_right (by decide) (by omega)
  omega

/-- **The negative powers of ten that are rounded to zero.** -/
theorem isZero_tenthPower_iff (k : Nat) : (tenthPower k).isZero = true ↔ 324 ≤ k := by
  unfold tenthPower
  split
  next h => exact iff_of_true rfl (by omega)
  next =>
    rw [isZero_ofRatio_iff false (Nat.pow_pos (by decide)), Nat.one_mul]
    exact le_ten_pow_iff (m := 323) (by decide +kernel) (by decide +kernel) k

/-! ## Integers that are doubles -/

theorem ofInt?_eq_none_iff (n : Int) : ofInt? n = none ↔ overflow ≤ n.natAbs := by
  have range : (ofFraction n 1).isFinite = true ↔ n.natAbs < overflow := by
    rw [ofFraction, isFinite_ofRatio_iff _ Nat.one_pos, Nat.mul_one]
  rw [← not_lt, ← range]
  unfold ofInt?
  generalize ofFraction n 1 = z
  cases z <;> simp [isFinite]

/-- The powers of ten that are no doubles. -/
theorem overflow_le_ten_pow_iff (k : Nat) : overflow ≤ 10 ^ k ↔ 309 ≤ k :=
  le_ten_pow_iff (m := 308) (by decide +kernel) (by decide +kernel) k

/-- The integer part of a double is in range. -/
theorem natAbs_floor?_lt {n : Int} (h : x.floor? = some n) : n.natAbs < overflow := by
  have bits : 2 ^ 53 ≤ overflow := by decide +kernel
  have largest : (2 ^ 53 - 1) * 2 ^ (971 : Nat) < overflow := by decide +kernel
  have size (negative : Bool) (k : Nat) : ((if negative then -1 else 1 : Int) * k).natAbs = k := by
    cases negative <;> simp
  obtain ⟨⟨a, d⟩, hf, rfl⟩ := Option.map_eq_some_iff.mp h
  refine Nat.lt_of_le_of_lt (Int.natAbs_ediv_le_natAbs a d) ?_
  cases x with
  | finite negative s e canonical =>
    obtain ⟨hs, _, he, _⟩ := canonical
    unfold toFraction? at hf
    dsimp only at hf
    split at hf
    · obtain ⟨rfl, -⟩ := Prod.mk.inj (Option.some.inj hf)
      rw [size]
      refine Nat.lt_of_le_of_lt (Nat.mul_le_mul ?_ (Nat.pow_le_pow_right (by decide) ?_)) largest
      · omega
      · omega
    · obtain ⟨rfl, -⟩ := Prod.mk.inj (Option.some.inj hf)
      rw [size]
      exact Nat.lt_of_lt_of_le hs bits
  | infinite => exact absurd hf (by simp [toFraction?])
  | nan => exact absurd hf (by simp [toFraction?])

/-! ## Up to the scale and down again -/

/-- The numerator tells whether a double is zero. -/
theorem numerator_eq_zero_iff {c : Int} {d : Nat} (h : y.toFraction? = some (c, d)) :
    c = 0 ↔ y.isZero = true := by
  cases y with
  | finite negative s e canonical =>
    unfold toFraction? at h
    dsimp only at h
    split at h
    · obtain ⟨rfl, -⟩ := Prod.mk.inj (Option.some.inj h)
      cases negative <;> simp [isZero]
    · obtain ⟨rfl, -⟩ := Prod.mk.inj (Option.some.inj h)
      cases negative <;> simp [isZero]
  | infinite => exact absurd h (by simp [toFraction?])
  | nan => exact absurd h (by simp [toFraction?])

theorem isZero_mul_of_isZero (hx : x.isFinite = true) (hy : y.isZero = true)
    (hf : y.isFinite = true) : (x.mul y).isZero = true := by
  obtain ⟨⟨a, b⟩, ha⟩ := (isFinite_iff x).mp hx
  obtain ⟨⟨c, d⟩, hc⟩ := (isFinite_iff y).mp hf
  obtain rfl := (numerator_eq_zero_iff hc).mpr hy
  unfold mul
  rw [ha, hc]
  dsimp only
  rw [Int.mul_zero]
  rfl

theorem div?_eq_none_iff (hx : x.isFinite = true) (hy : y.isFinite = true) :
    x.div? y = none ↔ y.isZero = true := by
  obtain ⟨⟨a, b⟩, ha⟩ := (isFinite_iff x).mp hx
  obtain ⟨⟨c, d⟩, hc⟩ := (isFinite_iff y).mp hy
  rw [← numerator_eq_zero_iff hc]
  unfold div?
  rw [ha, hc]
  simp

/-- The scale is no double, or the precision itself is none. -/
def ScaleTooLarge (p : Int) : Prop := 309 ≤ p ∨ p ≤ -overflow

/-- The scale is rounded to zero. -/
def ScaleVanishes (p : Int) : Prop := -overflow < p ∧ p ≤ -324

theorem scaleUp_eq_error_iff :
    x.scaleUp p = .error fault ↔ ScaleTooLarge p ∧ fault = .integerTooLarge := by
  have positive : (0 : Int) < overflow := by exact_mod_cast overflow_pos
  cases p with
  | ofNat k =>
    have large : ScaleTooLarge (.ofNat k) ↔ 309 ≤ k := by
      rw [ScaleTooLarge, Int.ofNat_eq_natCast]
      omega
    have range := ofInt?_eq_none_iff (10 ^ k)
    rw [Int.natAbs_pow, show (10 : Int).natAbs = 10 from rfl, overflow_le_ten_pow_iff] at range
    rw [large, ← range]
    unfold scaleUp
    dsimp only
    split
    next h => simp [range.mpr (by omega : 309 ≤ k), eq_comm]
    next =>
      cases ofInt? (10 ^ k) with
      | none => simp [eq_comm]
      | some factor => simp
  | negSucc k =>
    have large : ScaleTooLarge (.negSucc k) ↔ overflow ≤ (Int.negSucc k).natAbs := by
      rw [ScaleTooLarge]
      omega
    rw [large, ← ofInt?_eq_none_iff]
    unfold scaleUp
    dsimp only
    cases ofInt? (.negSucc k) with
    | none => simp [eq_comm]
    | some factor => simp

theorem scaleDown_eq_error_iff {n : Int} (hn : n.natAbs < overflow) :
    scaleDown n p = .error fault ↔ p ≤ -324 ∧ fault = .divisionByZero := by
  cases p with
  | ofNat k =>
    have nonneg : ¬Int.ofNat k ≤ -324 := by
      rw [Int.ofNat_eq_natCast]
      omega
    exact iff_of_false (by simp [scaleDown]) fun h => nonneg h.1
  | negSucc k =>
    have low : Int.negSucc k ≤ -324 ↔ (tenthPower (k + 1)).isZero = true := by
      rw [isZero_tenthPower_iff]
      omega
    obtain ⟨z, hz⟩ := Option.ne_none_iff_exists'.mp
      (mt (ofInt?_eq_none_iff n).mp (Nat.not_le_of_lt hn))
    rw [low, ← div?_eq_none_iff (isFinite_of_ofInt? hz) (isFinite_tenthPower (k + 1))]
    unfold scaleDown
    rw [hz]
    dsimp only
    cases z.div? (tenthPower (k + 1)) with
    | none => simp [eq_comm]
    | some y => simp

/-- At a scale that is rounded to zero, what comes out is zero. -/
theorem isZero_of_scaleVanishes (hx : x.isFinite = true) (hp : ScaleVanishes p)
    (h : x.scaleUp p = .ok y) : y.isZero = true := by
  obtain ⟨k, rfl⟩ : ∃ k, p = .negSucc k := Int.eq_negSucc_of_lt_zero (by have := hp.2; omega)
  have low := hp.2
  have vanishes : (tenthPower (k + 1)).isZero = true :=
    (isZero_tenthPower_iff (k + 1)).mpr (by omega)
  unfold scaleUp at h
  dsimp only at h
  split at h
  · obtain rfl := Except.ok.inj h
    exact isZero_mul_of_isZero hx vanishes (isFinite_tenthPower _)
  · exact absurd h (by simp)

end Binary64

namespace Value

open Binary64

variable {x : Binary64} {p : Int} {fault : Fault}

/-- Why rounding to `p` decimal places fails. -/
def RoundingFault (p : Int) (fault : Fault) : Prop :=
  ScaleTooLarge p ∧ fault = .integerTooLarge ∨ ScaleVanishes p ∧ fault = .divisionByZero

theorem roundFinite_eq_error_iff (hx : x.isFinite = true) :
    roundFinite x p = .error fault ↔ RoundingFault p fault := by
  -- What is divided again is zero, or the integer part of a double.
  have inRange : ∀ y : Binary64, ((y.floor?).getD 0).natAbs < overflow := by
    intro y
    cases hf : y.floor? with
    | none => exact overflow_pos
    | some n => exact natAbs_floor?_lt hf
  unfold roundFinite RoundingFault
  rw [bind_eq_error, scaleUp_eq_error_iff]
  refine or_congr Iff.rfl ⟨?_, ?_⟩
  · rintro ⟨scaled, hs, h⟩
    have inside : ¬ScaleTooLarge p := fun hp => by
      rw [scaleUp_eq_error_iff.mpr ⟨hp, rfl⟩] at hs
      exact absurd hs (by simp)
    split at h
    · exact absurd h (by simp [pure, Except.pure])
    · rcases bind_eq_error.mp h with h | ⟨rounded, -, h⟩
      · obtain ⟨low, rfl⟩ := (scaleDown_eq_error_iff (inRange _)).mp h
        exact ⟨⟨not_le.mp fun hp => inside (.inr hp), low⟩, rfl⟩
      · exact absurd h (by simp [pure, Except.pure])
  · rintro ⟨hp, rfl⟩
    have inside : ¬ScaleTooLarge p := by
      rintro (h | h)
      · have := hp.2
        omega
      · exact absurd hp.1 (not_lt_of_ge h)
    cases hs : x.scaleUp p with
    | error f => exact absurd (scaleUp_eq_error_iff.mp hs).1 inside
    | ok scaled =>
      refine ⟨scaled, rfl, ?_⟩
      rw [not_atLeastPow2_of_isZero (isZero_of_scaleVanishes hx hp hs), if_neg Bool.false_ne_true]
      exact bind_eq_error.mpr (.inl ((scaleDown_eq_error_iff (inRange _)).mpr ⟨hp.2, rfl⟩))

/-- Every integer is a precision that settings can ask for. -/
theorem exists_settings_precision (p : Int) : ∃ settings config,
    Config.ofSettings settings = .ok config ∧ config.precision = p :=
  ⟨fun s => if s = .precision then .int p else s.default, { Config.default with precision := p },
    rfl, rfl⟩

/-- **When rounding fails.** Every integer is a precision that settings can ask for. Texts, integers
and all doubles that are infinite or no numbers are rounded at each of them; a finite double is
rounded unless the precision is above 308 or below -323. -/
theorem round_eq_error_iff (p : Int) (v : Value) (fault : Fault) :
    (∃ settings config, Config.ofSettings settings = .ok config ∧ config.precision = p) ∧
      (round p v = .error fault ↔
        (∃ x, v = .float x ∧ x.isFinite = true) ∧ RoundingFault p fault) := by
  refine ⟨exists_settings_precision p, ?_⟩
  cases v with
  | float x =>
    rw [round]
    split
    next hx =>
      rw [roundFinite_eq_error_iff hx]
      exact ⟨fun h => ⟨⟨x, rfl, hx⟩, h⟩, fun h => h.2⟩
    next hx =>
      refine iff_of_false (by simp) ?_
      rintro ⟨⟨y, hy, hf⟩, -⟩
      exact hx (Value.float.inj hy ▸ hf)
  | null => simp [round]
  | bool b => simp [round]
  | int n => simp [round]
  | text t => simp [round]
  | list items => simp [round]
  | record fields => simp [round]

/-- A settings file that asks for 400 decimal places. -/
def manyPlaces : SettingsFile :=
  .content (Text.utf8 "\x7b\"precision\": 400\x7d".toList)

/-- At 400 decimal places the scale is no double, and at -400 it is rounded to zero. -/
theorem round_overflow :
    (∃ config, manyPlaces.config = .ok config ∧
      round config.precision (.float (ofRatio false 1 2)) = .error .integerTooLarge) ∧
    round (-400) (.float (ofRatio false 1 2)) = .error .divisionByZero := by
  obtain ⟨config, read, check⟩ := exists_ok_of_check (x := manyPlaces.config)
    (p := fun config => config.precision == 400) (by decide +kernel)
  have finite : (ofRatio false 1 2).isFinite = true := by decide +kernel
  constructor
  · refine ⟨config, read, ?_⟩
    rw [eq_of_beq check, round, if_pos finite]
    exact (roundFinite_eq_error_iff finite).mpr (.inl ⟨.inl (by decide), rfl⟩)
  · rw [round, if_pos finite]
    exact (roundFinite_eq_error_iff finite).mpr (.inr ⟨⟨by decide +kernel, by decide⟩, rfl⟩)

end Value

end Stepwise
