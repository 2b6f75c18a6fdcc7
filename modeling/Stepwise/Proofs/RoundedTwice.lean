import Mathlib.Data.Rat.Floor
import Stepwise.Proofs.Overflow

/-!
# Values that are rounded twice

A double that was rounded to three decimal places is the double nearest to some number of
thousandths. Rounding it again multiplies it by a thousand, adds a half and drops the fraction. Each
of these operations is rounded to a double (`Rounded`), and below `2 ^ 42` all of these errors
together are less than a half, so that the same number of thousandths comes out. From `2 ^ 44` on a
double has no thousandths and is left alone. In between it can change:
`4398046511104.022` is rounded to `4398046511104.023`.

Result: `round_round`, rounding to three decimal places twice is rounding once.
-/

namespace Stepwise

namespace Binary64

/-! ## What rounding does to a number -/

/-- The number that a finite double is. -/
def value? (x : Binary64) : Option ℚ := x.toFraction?.map fun (n, d) => (n : ℚ) / d

/-- `a` is the number that `r` is rounded to: a multiple of `2 ^ e` at most half of that away from
`r`, where `2 ^ e` is the place of the last of the 53 bits. -/
structure Rounded (e : ℤ) (r a : ℚ) : Prop where
  grid : ∃ m : ℤ, a = m * 2 ^ e
  near : |a - r| ≤ 2 ^ e / 2
  below : |r| < 2 ^ (53 + e)
  above : e = -1074 ∨ 2 ^ (52 + e) ≤ |r|

/-- The number with a sign. -/
def signed (negative : Bool) (a : ℚ) : ℚ := if negative then -a else a

theorem value?_finite (negative : Bool) {s : Nat} {e : Int} (h : Canonical s e) :
    (finite negative s e h).value? = some (signed negative (s * 2 ^ e)) := by
  unfold value? toFraction? signed
  dsimp only
  split
  next he =>
    obtain ⟨j, rfl⟩ := Int.eq_ofNat_of_zero_le he
    rw [Option.map_some, Int.toNat_natCast, two_zpow]
    push_cast
    cases negative <;> simp
  next he =>
    obtain ⟨j, rfl⟩ : ∃ j : Nat, e = -j := ⟨(-e).toNat, by omega⟩
    rw [Option.map_some, Int.neg_neg, Int.toNat_natCast, zpow_neg, two_zpow]
    push_cast
    cases negative
    · simp [div_eq_mul_inv]
    · simp [div_eq_mul_inv]

theorem value?_ofParts (negative : Bool) {s : Nat} {e : Int}
    (h : (ofParts negative s e).isFinite = true) :
    (ofParts negative s e).value? = some (signed negative (s * 2 ^ e)) := by
  rw [ofParts, dif_pos (isFinite_ofParts_iff.mp h), value?_finite]

variable {e : ℤ} {r a : ℚ}

theorem Rounded.zero : Rounded (-1074) 0 0 where
  grid := ⟨0, by rw [Int.cast_zero, zero_mul]⟩
  near := by
    rw [sub_zero, abs_zero]
    positivity
  below := by
    rw [abs_zero]
    positivity
  above := .inl rfl

theorem Rounded.neg (h : Rounded e r a) : Rounded e (-r) (-a) where
  grid := by
    obtain ⟨m, rfl⟩ := h.grid
    exact ⟨-m, by push_cast; ring⟩
  near := by
    rw [neg_sub_neg, abs_sub_comm]
    exact h.near
  below := (abs_neg r).symm ▸ h.below
  above := (abs_neg r).symm ▸ h.above

theorem Rounded.signed (h : Rounded e r a) (negative : Bool) :
    Rounded e (signed negative r) (signed negative a) := by
  cases negative with
  | false => exact h
  | true => exact h.neg

/-- **A quotient is rounded to 53 bits** if it is in range. -/
theorem exists_rounded_ofRatio {negative : Bool} {n d : Nat} (hd : 0 < d)
    (finite : (ofRatio negative n d).isFinite = true) :
    ∃ e a, Rounded e (Binary64.signed negative (n / d)) a ∧
      (ofRatio negative n d).value? = some a := by
  have positive : (0 : ℚ) < d := by exact_mod_cast hd
  have size : |(n : ℚ) / d| = n / d := abs_of_nonneg (div_nonneg (Nat.cast_nonneg n) positive.le)
  rcases Nat.eq_zero_or_pos n with rfl | hn
  · refine ⟨-1074, Binary64.signed negative 0, ?_, ?_⟩
    · rw [Nat.cast_zero, zero_div]
      exact Rounded.zero.signed negative
    · rw [ofRatio, if_pos rfl, Binary64.zero, value?_finite, Nat.cast_zero, zero_mul]
  obtain ⟨low, high⟩ := floorLog2_spec hn hd
  obtain ⟨a, b, hb, scaled, value⟩ := ofRatio_eq negative (d := d) hn
  rw [value] at finite ⊢
  generalize hf : max (-1074) (floorLog2 n d - 52) = e at scaled finite ⊢
  have unit : (0 : ℚ) < 2 ^ e := by positivity
  have wide : (0 : ℚ) < b := by exact_mod_cast hb hd
  have exact : (n : ℚ) / d = a / b * 2 ^ e := by rw [scaled, div_mul_cancel₀ _ unit.ne']
  have near : |(roundDiv a b : ℚ) - a / b| ≤ 1 / 2 := by
    obtain ⟨upper, lower⟩ := roundDiv_near a b (hb hd)
    have upper : 2 * (roundDiv a b * b : ℚ) ≤ 2 * a + b := by exact_mod_cast upper
    have lower : 2 * (a : ℚ) ≤ 2 * (roundDiv a b * b) + b := by exact_mod_cast lower
    have apart : (roundDiv a b : ℚ) - a / b = (roundDiv a b * b - a) / b := by field_simp
    rw [apart, abs_div, abs_of_pos wide, div_le_iff₀ wide, abs_le]
    constructor <;> linarith
  refine ⟨e, Binary64.signed negative (roundDiv a b * 2 ^ e),
    Rounded.signed ⟨⟨roundDiv a b, by push_cast; rfl⟩, ?_, ?_, ?_⟩ negative, ?_⟩
  · rw [exact, ← sub_mul, abs_mul, abs_of_pos unit]
    calc |(roundDiv a b : ℚ) - a / b| * 2 ^ e ≤ 1 / 2 * 2 ^ e := by gcongr
      _ = 2 ^ e / 2 := by ring
  · rw [size]
    exact high.trans_le (zpow_le_zpow_right₀ one_le_two (by omega))
  · rw [size]
    rcases le_total (floorLog2 n d - 52) (-1074) with h | h
    · exact .inl (by omega)
    · exact .inr ((zpow_le_zpow_right₀ one_le_two (by omega)).trans low)
  · split at finite
    next carry =>
      rw [if_pos carry, value?_ofParts _ finite, carry, zpow_add₀ two_ne_zero]
      congr 2
      push_cast
      ring
    next carry => rw [if_neg carry, value?_ofParts _ finite]

/-! ## Consequences -/

/-- The place of the last bit is bounded by the size of the number. -/
theorem Rounded.place_le (h : Rounded e r a) {j : ℕ} (hr : |r| < 2 ^ j) {k : ℤ} (hk : -1074 ≤ k)
    (hj : j ≤ 53 + k) : e ≤ k := by
  rcases h.above with rfl | above
  · exact hk
  · rw [← zpow_natCast] at hr
    have := (zpow_lt_zpow_iff_right₀ one_lt_two).mp (above.trans_lt hr)
    omega

/-- How far a number is off that is rounded. -/
theorem Rounded.near_of_lt (h : Rounded e r a) {j : ℕ} (hr : |r| < 2 ^ j) (k : ℤ) (hk : -1074 ≤ k)
    (hj : j ≤ 53 + k) : |a - r| ≤ 2 ^ k / 2 :=
  h.near.trans (div_le_div_of_nonneg_right
    (zpow_le_zpow_right₀ one_le_two (h.place_le hr hk hj)) two_pos.le)

/-- A multiple of a power of two that is not below another multiple less a half. -/
theorem le_of_grid {m k : ℤ} (h : (k : ℚ) * 2 ^ e - 2 ^ e / 2 ≤ m * 2 ^ e) : k ≤ m := by
  have unit : (0 : ℚ) < 2 ^ e := by positivity
  have h : ((k : ℚ) - 1 / 2) * 2 ^ e ≤ m * 2 ^ e := by
    refine le_trans (le_of_eq ?_) h
    ring
  have h := le_of_mul_le_mul_right h unit
  have : (k : ℚ) < m + 1 := by linarith
  exact_mod_cast Int.lt_add_one_iff.mp (by exact_mod_cast this)

/-- No number is rounded below a power of two that it is not below. -/
theorem Rounded.le_of_le (h : Rounded e r a) {j : ℕ} (hj : 2 ^ j ≤ r) (he : e ≤ j) : 2 ^ j ≤ a := by
  obtain ⟨m, rfl⟩ := h.grid
  obtain ⟨k, hk⟩ := Int.eq_ofNat_of_zero_le (sub_nonneg.mpr he)
  have power : (2 : ℚ) ^ j = ((2 ^ k : ℤ) : ℚ) * 2 ^ e := by
    rw [Int.cast_pow, Int.cast_ofNat, ← zpow_natCast, ← zpow_natCast, ← zpow_add₀ two_ne_zero]
    congr 1
    omega
  have low := (abs_le.mp h.near).1
  rw [power] at hj ⊢
  have : (2 ^ k : ℤ) ≤ m := le_of_grid (e := e) (by linarith)
  gcongr

theorem Rounded.le_abs_of_le (h : Rounded e r a) {j : ℕ} (hj : 2 ^ j ≤ |r|) : 2 ^ j ≤ |a| := by
  have bound {j : ℕ} (hj : 2 ^ j ≤ |r|) (he : e ≤ j) : 2 ^ j ≤ |a| := by
    rcases le_total 0 r with hr | hr
    · exact (h.le_of_le (abs_of_nonneg hr ▸ hj) he).trans (le_abs_self a)
    · exact (h.neg.le_of_le (abs_of_nonpos hr ▸ hj) he).trans (neg_le_abs a)
  rcases le_or_gt e j with he | he
  · exact bound hj he
  · -- Then all bits of `r` lie far above the power.
    obtain ⟨k, hk⟩ := Int.eq_ofNat_of_zero_le (show 0 ≤ 52 + e by omega)
    have above := h.above.resolve_left (by omega)
    rw [hk, zpow_natCast] at above
    exact (pow_le_pow_right₀ one_le_two (by omega)).trans (bound above (by omega))

theorem Rounded.lt_of_lt (h : Rounded e r a) {j : ℕ} (ha : |a| < 2 ^ j) : |r| < 2 ^ j :=
  lt_of_not_ge fun hr => not_lt_of_ge (h.le_abs_of_le hr) ha

/-- A number that has 53 bits from some place on is not changed. -/
theorem Rounded.eq_of_grid (h : Rounded e r a) {i : ℕ} (hm : |r| < 2 ^ i) {k m : ℤ}
    (hk : -1074 ≤ k) (hi : i ≤ 53 + k) (hr : r = m * 2 ^ k) : a = r := by
  obtain ⟨n, hn⟩ := h.grid
  obtain ⟨j, hj⟩ := Int.eq_ofNat_of_zero_le (sub_nonneg.mpr (h.place_le hm hk hi))
  have unit : (0 : ℚ) < 2 ^ e := by positivity
  have fine : r = ((m * 2 ^ j : ℤ) : ℚ) * 2 ^ e := by
    rw [hr, Int.cast_mul, Int.cast_pow, Int.cast_ofNat, mul_assoc, ← zpow_natCast,
      ← zpow_add₀ two_ne_zero]
    congr 2
    omega
  have near := abs_le.mp h.near
  rw [hn, fine] at near
  have upper : n ≤ m * 2 ^ j := le_of_grid (e := e) (by linarith)
  have lower : m * 2 ^ j ≤ n := le_of_grid (e := e) (by linarith)
  rw [hn, fine, le_antisymm upper lower]

/-! ## Operations -/

variable {x y : Binary64} {b c : ℚ}

theorem value?_eq_some (h : x.value? = some a) :
    ∃ (n : Int) (d : Nat), x.toFraction? = some (n, d) ∧ a = n / d ∧ 0 < d ∧
      signed x.isNegative n.natAbs = n := by
  obtain ⟨⟨n, d⟩, hf, rfl⟩ := Option.map_eq_some_iff.mp h
  refine ⟨n, d, hf, rfl, ?_⟩
  cases x with
  | finite negative s e canonical =>
    unfold toFraction? at hf
    dsimp only at hf
    split at hf
    · obtain ⟨rfl, rfl⟩ := Prod.mk.inj (Option.some.inj hf)
      refine ⟨Nat.one_pos, ?_⟩
      cases negative <;> simp [signed, isNegative]
    · obtain ⟨rfl, rfl⟩ := Prod.mk.inj (Option.some.inj hf)
      refine ⟨Nat.two_pow_pos _, ?_⟩
      cases negative <;> simp [signed, isNegative]
  | infinite => exact absurd hf (by simp [toFraction?])
  | nan => exact absurd hf (by simp [toFraction?])

theorem isFinite_of_value? (h : x.value? = some a) : x.isFinite = true := by
  obtain ⟨n, d, hf, -⟩ := value?_eq_some h
  exact (isFinite_iff x).mpr ⟨_, hf⟩

theorem exists_value? (h : x.isFinite = true) : ∃ a, x.value? = some a := by
  obtain ⟨f, hf⟩ := (isFinite_iff x).mp h
  exact ⟨_, by rw [value?, hf]; rfl⟩

theorem exists_rounded_ofFraction {n : Int} {d : Nat} (hd : 0 < d)
    (finite : (ofFraction n d).isFinite = true) :
    ∃ e a, Rounded e (n / d) a ∧ (ofFraction n d).value? = some a := by
  obtain ⟨e, a, h, ha⟩ := exists_rounded_ofRatio hd finite
  refine ⟨e, a, ?_, ha⟩
  have sign : signed (decide (n < 0)) ((n.natAbs : ℚ) / d) = n / d := by
    unfold signed
    rw [Nat.cast_natAbs, Int.cast_abs]
    by_cases hn : n < 0
    · rw [if_pos (decide_eq_true hn), abs_of_neg (by exact_mod_cast hn), neg_div, neg_neg]
    · rw [if_neg (by simpa using hn), abs_of_nonneg (by exact_mod_cast not_lt.mp hn)]
  rwa [sign] at h

/-- **Products are rounded.** -/
theorem exists_rounded_mul (hx : x.value? = some a) (hy : y.value? = some b)
    (finite : (x.mul y).isFinite = true) :
    ∃ e c, Rounded e (a * b) c ∧ (x.mul y).value? = some c := by
  obtain ⟨n, d, hf, rfl, hd, hn⟩ := value?_eq_some hx
  obtain ⟨m, k, hg, rfl, hk, hm⟩ := value?_eq_some hy
  have product : x.mul y = ofRatio (x.isNegative != y.isNegative) (n * m).natAbs (d * k) := by
    rw [mul, hf, hg]
  rw [product] at finite ⊢
  obtain ⟨e, c, h, hc⟩ := exists_rounded_ofRatio (Nat.mul_pos hd hk) finite
  refine ⟨e, c, ?_, hc⟩
  have sign : signed (x.isNegative != y.isNegative) (((n * m).natAbs : ℚ) / (d * k : Nat)) =
      n / d * (m / k) := by
    rw [← hn, ← hm, Int.natAbs_mul]
    unfold signed
    cases x.isNegative <;> cases y.isNegative <;> simp <;> ring
  rwa [sign] at h

theorem add_eq_div {n m : Int} {d k : Nat} (hd : 0 < d) (hk : 0 < k) :
    (n : ℚ) / d + m / k = ((n * k + m * d : Int) : ℚ) / (d * k : Nat) := by
  have wide : (d : ℚ) ≠ 0 := by exact_mod_cast hd.ne'
  have wide' : (k : ℚ) ≠ 0 := by exact_mod_cast hk.ne'
  push_cast
  rw [div_add_div _ _ wide wide', mul_comm (m : ℚ)]

/-- **Sums are rounded.** -/
theorem exists_rounded_add (hx : x.value? = some a) (hy : y.value? = some b)
    (finite : (x.add y).isFinite = true) :
    ∃ e c, Rounded e (a + b) c ∧ (x.add y).value? = some c := by
  obtain ⟨n, d, hf, rfl, hd, -⟩ := value?_eq_some hx
  obtain ⟨m, k, hg, rfl, hk, -⟩ := value?_eq_some hy
  rw [add_eq_div hd hk]
  unfold add at finite ⊢
  rw [hf, hg] at finite ⊢
  dsimp only at finite ⊢
  by_cases none : n * k + m * d = 0
  · rw [if_pos none, none, Int.cast_zero, zero_div]
    refine ⟨-1074, 0, .zero, ?_⟩
    rw [zero, value?_finite, Nat.cast_zero, zero_mul]
    cases x.isNegative && y.isNegative <;> simp [signed]
  · rw [if_neg none] at finite ⊢
    exact exists_rounded_ofFraction (Nat.mul_pos hd hk) finite

theorem isFinite_mul_iff (hx : x.value? = some a) (hy : y.value? = some b) :
    (x.mul y).isFinite = true ↔ |a * b| < overflow := by
  obtain ⟨n, d, hf, rfl, hd, -⟩ := value?_eq_some hx
  obtain ⟨m, k, hg, rfl, hk, -⟩ := value?_eq_some hy
  have wide : (0 : ℚ) < (d * k : Nat) := by exact_mod_cast Nat.mul_pos hd hk
  have size : |(n : ℚ) / d * (m / k)| = (n * m).natAbs / (d * k : Nat) := by
    rw [div_mul_div_comm, abs_div, Nat.cast_natAbs, Int.cast_abs, Int.cast_mul, Nat.cast_mul,
      abs_of_pos (by exact_mod_cast wide : (0 : ℚ) < d * k)]
  rw [mul, hf, hg]
  dsimp only
  rw [isFinite_ofRatio_iff _ (Nat.mul_pos hd hk), size, div_lt_iff₀ wide]
  exact_mod_cast Iff.rfl

theorem isFinite_add (hx : x.value? = some a) (hy : y.value? = some b) (h : |a + b| < overflow) :
    (x.add y).isFinite = true := by
  obtain ⟨n, d, hf, rfl, hd, -⟩ := value?_eq_some hx
  obtain ⟨m, k, hg, rfl, hk, -⟩ := value?_eq_some hy
  rw [add_eq_div hd hk] at h
  rw [add, hf, hg]
  dsimp only
  split
  · rfl
  · exact (isFinite_ofFraction_iff (Nat.mul_pos hd hk)).mpr h

theorem floor?_of_value? (h : x.value? = some a) : x.floor? = some ⌊a⌋ := by
  obtain ⟨n, d, hf, rfl, -⟩ := value?_eq_some h
  rw [floor?, hf, Option.map_some, Rat.floor_intCast_div_natCast]

theorem atLeastPow2_iff (h : x.value? = some a) (k : Nat) :
    x.atLeastPow2 k = true ↔ 2 ^ k ≤ |a| := by
  obtain ⟨n, d, hf, rfl, hd, -⟩ := value?_eq_some h
  have wide : (0 : ℚ) < d := by exact_mod_cast hd
  have size : |(n : ℚ) / d| = n.natAbs / d := by
    rw [abs_div, abs_of_pos wide, Nat.cast_natAbs, Int.cast_abs]
  rw [atLeastPow2, hf, decide_eq_true_iff, size, le_div_iff₀ wide]
  exact_mod_cast Iff.rfl

/-! ## A number of thousandths -/

/-- An integer is the only multiple of a half that is less than a half away from it. -/
theorem eq_of_abs_sub_lt_half {n m : ℤ} {z : ℚ} (hm : z = m * 2 ^ (-1 : ℤ)) (h : |z - n| < 1 / 2) :
    z = n := by
  have half : z = m / 2 := by rw [hm, zpow_neg_one, div_eq_mul_inv]
  obtain ⟨below, above⟩ := abs_lt.mp h
  rw [half] at below above ⊢
  have lower : 2 * n - 1 < m := by exact_mod_cast (by linarith : (2 * n - 1 : ℚ) < m)
  have upper : m < 2 * n + 1 := by exact_mod_cast (by linarith : (m : ℚ) < 2 * n + 1)
  obtain rfl : m = 2 * n := by omega
  push_cast
  ring

/-- **A number of thousandths is found again**: the double `a` nearest to it is multiplied by a
thousand, a half is added, and what is dropped is a fraction. -/
theorem floor_eq_of_rounded {n : ℤ} {e₁ e₂ e₃ : ℤ} {a z w : ℚ} (ha : Rounded e₁ (n / 1000) a)
    (small : |a| < 2 ^ 42) (hz : Rounded e₂ (a * 1000) z) (hw : Rounded e₃ (z + 1 / 2) w) :
    ⌊w⌋ = n := by
  -- `a` is off by at most `2 ^ -12`, and so its thousandfold by less than a quarter.
  have off := abs_le.mp (ha.near_of_lt (ha.lt_of_lt small) (-11) (by decide) (by decide))
  have small := abs_lt.mp small
  norm_num at off small
  have size : |a * 1000| < 2 ^ 52 := abs_lt.mpr (by constructor <;> norm_num <;> linarith)
  rcases lt_or_ge |a * 1000| (2 ^ 51) with low | high
  · have off₂ := abs_le.mp (hz.near_of_lt low (-2) (by decide) (by decide))
    have low := abs_lt.mp low
    norm_num at off₂ low
    rw [Int.floor_eq_iff]
    rcases lt_or_ge |z + 1 / 2| (2 ^ 51) with low₃ | high₃
    · have off₃ := abs_le.mp (hw.near_of_lt low₃ (-2) (by decide) (by decide))
      norm_num at off₃
      constructor <;> linarith
    · -- Only `2 ^ 51` itself is so close to this power.
      have above : 2 ^ 51 ≤ z + 1 / 2 := by
        rcases le_abs.mp high₃ with h | h
        · exact h
        · norm_num at h
          linarith
      have size₃ : |z + 1 / 2| < 2 ^ 52 := abs_lt.mpr (by constructor <;> norm_num <;> linarith)
      have off₃ := abs_le.mp (hw.near_of_lt size₃ (-1) (by decide) (by decide))
      have kept := hw.le_of_le above ((hw.place_le size₃ (k := -1) (by decide) (by decide)).trans
        (by decide))
      norm_num at above off₃ kept
      obtain rfl : n = 2 ^ 51 := by
        have lower : (2 ^ 51 - 1 : ℚ) < n := by norm_num; linarith
        have upper : (n : ℚ) < 2 ^ 51 + 1 := by norm_num; linarith
        have lower : 2 ^ 51 - 1 < n := by exact_mod_cast lower
        have upper : n < 2 ^ 51 + 1 := by exact_mod_cast upper
        omega
      norm_num
      constructor <;> linarith
  · -- The last bit is worth a half now, so the thousandfold is the integer.
    obtain rfl : e₂ = -1 := by
      have upper := hz.place_le size (k := -1) (by decide) (by decide)
      have lower : (51 : ℤ) < 53 + e₂ := by
        rw [← zpow_lt_zpow_iff_right₀ (one_lt_two (α := ℚ))]
        exact lt_of_le_of_lt (by exact_mod_cast high) hz.below
      omega
    obtain ⟨m, hm⟩ := hz.grid
    have off₂ := abs_le.mp hz.near
    norm_num at off₂
    obtain rfl : z = n := eq_of_abs_sub_lt_half hm (abs_lt.mpr (by constructor <;> linarith))
    have exact : w = n + 1 / 2 := hw.eq_of_grid (i := 52) (k := -1) (m := 2 * n + 1)
      (abs_lt.mpr (by constructor <;> norm_num <;> linarith)) (by decide) (by decide)
      (by push_cast; ring)
    rw [exact, Int.floor_eq_iff]
    constructor <;> linarith

end Binary64

/-! ## Rounding twice -/

namespace Value

open Binary64 (value? ofFraction)

/-- The scale of three decimal places. -/
def thousand : Binary64 := .ofFraction 1000 1

theorem value?_thousand : value? thousand = some 1000 := by decide +kernel

theorem value?_half : value? half = some (1 / 2) := by decide +kernel

theorem scaleUp_three (x : Binary64) : x.scaleUp 3 = .ok (x.mul thousand) := by
  have scale : Binary64.ofInt? (10 ^ 3) = some thousand := by decide +kernel
  have three : (3 : Int) = .ofNat 3 := rfl
  rw [three, Binary64.scaleUp, if_neg (by decide), scale]

/-- A double whose thousandfold is too large for a fraction is left alone. -/
theorem roundFinite_of_le {x : Binary64} {a : ℚ} (hx : x.value? = some a) (large : 2 ^ 44 ≤ |a|) :
    roundFinite x 3 = .ok (.float x) := by
  have huge : (!(x.mul thousand).isFinite || (x.mul thousand).atLeastPow2 53) = true := by
    cases finite : (x.mul thousand).isFinite with
    | false => rfl
    | true =>
      obtain ⟨e, z, hz, value⟩ := Binary64.exists_rounded_mul hx value?_thousand finite
      refine (Binary64.atLeastPow2_iff value 53).mpr (hz.le_abs_of_le ?_)
      rw [abs_mul]
      norm_num at large ⊢
      linarith
  rw [roundFinite, scaleUp_three, ok_bind, if_pos huge]
  rfl

/-- A number of thousandths that is not too large is rounded to itself. -/
theorem roundFinite_of_lt {n : Int} {a : ℚ} (ha : (ofFraction n 1000).value? = some a)
    (small : |a| < 2 ^ 42) (broken : (ofFraction n 1000).toInt? = none) :
    roundFinite (ofFraction n 1000) 3 = .ok (.float (ofFraction n 1000)) := by
  obtain ⟨e₁, a', nearest, ha'⟩ :=
    Binary64.exists_rounded_ofFraction (by decide) (Binary64.isFinite_of_value? ha)
  obtain rfl := Option.some.inj (ha.symm.trans ha')
  have inRange {q : ℚ} (h : |q| < 2 ^ 53) : |q| < Binary64.overflow := by
    refine (h.trans ?_).trans Binary64.two_zpow_lt_overflow
    rw [← zpow_natCast]
    exact zpow_lt_zpow_right₀ one_lt_two (by decide)
  have size : |a * 1000| < 2 ^ 52 := by
    rw [abs_mul]
    norm_num at small ⊢
    linarith
  have finite := (Binary64.isFinite_mul_iff ha value?_thousand).mpr
    (inRange (size.trans (by norm_num)))
  obtain ⟨e₂, z, hz, scaled⟩ := Binary64.exists_rounded_mul ha value?_thousand finite
  have near := abs_le.mp (hz.near_of_lt size (-1) (by decide) (by decide))
  have bounds := abs_lt.mp size
  norm_num at near bounds
  have sum := Binary64.isFinite_add scaled value?_half
    (inRange (abs_lt.mpr (by constructor <;> norm_num <;> linarith)))
  obtain ⟨e₃, w, hw, value⟩ := Binary64.exists_rounded_add scaled value?_half sum
  have fraction : ¬(!((ofFraction n 1000).mul thousand).isFinite ||
      ((ofFraction n 1000).mul thousand).atLeastPow2 53) = true := by
    rw [finite, Bool.not_true, Bool.false_or, Binary64.atLeastPow2_iff scaled, not_le]
    exact abs_lt.mpr (by constructor <;> norm_num <;> linarith)
  have down : Binary64.scaleDown n 3 = .ok (ofFraction n 1000) := rfl
  rw [roundFinite, scaleUp_three, ok_bind, if_neg fraction, Binary64.floor?_of_value? value,
    Option.getD_some, Binary64.floor_eq_of_rounded nearest small hz hw, down, ok_bind, broken]
  rfl

/-- **Rounding twice is rounding once**, to three decimal places, unless a double between `2 ^ 42` and
`2 ^ 44` comes out. -/
theorem round_round {v w : Value} (h : v.round 3 = .ok w)
    (sized : ∀ x a, w = .float x → x.value? = some a → |a| < 2 ^ 42 ∨ 2 ^ 44 ≤ |a|) :
    w.round 3 = .ok w := by
  cases v with
  | float x =>
    by_cases hx : x.isFinite = true
    · rw [round, if_pos hx] at h
      have rounded := h
      rw [roundFinite, scaleUp_three, ok_bind] at h
      split at h
      · obtain rfl := Except.ok.inj h
        rw [round, if_pos hx, rounded]
      · obtain ⟨y, hy, h⟩ := bind_eq_ok.mp h
        obtain rfl := Except.ok.inj hy
        split at h
        · obtain rfl := Except.ok.inj h
          rfl
        next broken =>
          obtain rfl := Except.ok.inj h
          by_cases finite : (ofFraction
              ((((x.mul thousand).add half).floor?).getD 0) 1000).isFinite = true
          · obtain ⟨a, ha⟩ := Binary64.exists_value? finite
            change round 3 (.float (ofFraction _ 1000)) = .ok (.float (ofFraction _ 1000))
            rw [round, if_pos finite]
            rcases sized _ a rfl ha with small | large
            · exact roundFinite_of_lt ha small broken
            · exact roundFinite_of_le ha large
          · exact round_of_not_finite 3 (Bool.eq_false_iff.mpr finite)
    · rw [round_of_not_finite 3 (Bool.eq_false_iff.mpr hx)] at h
      obtain rfl := Except.ok.inj h
      exact round_of_not_finite 3 (Bool.eq_false_iff.mpr hx)
  | _ =>
    obtain rfl := Except.ok.inj h
    rfl

end Value

end Stepwise
