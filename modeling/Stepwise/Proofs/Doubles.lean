import Mathlib.Data.Nat.Log
import Stepwise.Proofs.Outcome
import Stepwise.Value.Rounding

/-!
# Doubles that are rounded

A quotient of naturals is rounded to a double of the wanted sign (`isNegative_ofRatio`), and the
reciprocal of a natural number to a finite one (`isFinite_reciprocal`), so that a zero is a zero at
every scale.

Results: `roundFinite_ne`, no rounding leaves a negative zero, whose text starts with a minus sign
although it is not below zero; and `round_float_cases`, a finite double is rounded to an integer
that can be written or to a double that is no negative zero.
-/

namespace Stepwise

/-! ## Quotients -/

theorem le_roundDiv {a n d : Nat} (hd : 0 < d) (h : a * d ≤ n) : a ≤ roundDiv n d := by
  obtain ⟨_, hn⟩ := roundDiv_near n d hd
  by_contra hlt
  have := Nat.mul_le_mul_right d (by omega : roundDiv n d + 1 ≤ a)
  rw [Nat.succ_mul] at this
  omega

theorem roundDiv_le {b n d : Nat} (h : n < b * d) : roundDiv n d ≤ b := by
  have hd : 0 < d := Nat.pos_of_lt_mul_left h
  obtain ⟨hn, _⟩ := roundDiv_near n d hd
  by_contra hlt
  have := Nat.mul_le_mul_right d (by omega : b + 1 ≤ roundDiv n d)
  rw [Nat.succ_mul] at this
  omega

namespace Binary64

theorem isFinite_ofParts {negative : Bool} {s : Nat} {e : Int} (h : Canonical s e) :
    (ofParts negative s e).isFinite = true := by
  rw [ofParts, dif_pos h]
  rfl

theorem floorLog2_one_eq (d : Nat) :
    floorLog2 1 d = if d ≤ 2 ^ d.log2 then -(d.log2 : Int) else -(d.log2 : Int) - 1 := by
  have one : Nat.log2 1 = 0 := by decide
  unfold floorLog2
  rw [one]
  generalize d.log2 = k
  cases k with
  | zero => simp
  | succ k =>
    have below : ((0 : Nat) : Int) - (k + 1 : Nat) = -(k + 1 : Nat) := by omega
    have neg : ¬0 ≤ -((k + 1 : Nat) : Int) := by omega
    dsimp only
    rw [below]
    simp only [if_neg neg, Int.neg_neg, Int.toNat_natCast, Nat.one_mul]

/-- The reciprocal of `d` lies between `2 ^ -k` and the next power of two. -/
theorem floorLog2_one {d : Nat} (hd : 0 < d) :
    ∃ k : Nat, floorLog2 1 d = -k ∧ d ≤ 2 ^ k ∧ 2 ^ k < 2 * d := by
  have low : 2 ^ d.log2 ≤ d := Nat.log2_self_le (by omega)
  have high : d < 2 ^ (d.log2 + 1) := Nat.lt_log2_self
  rw [floorLog2_one_eq]
  split
  next h => exact ⟨d.log2, rfl, h, by omega⟩
  next h =>
    refine ⟨d.log2 + 1, by omega, high.le, ?_⟩
    rw [Nat.pow_succ]
    omega

theorem isFinite_reciprocal (negative : Bool) {d : Nat} (hd : 0 < d) :
    (ofRatio negative 1 d).isFinite = true := by
  obtain ⟨k, hk, low, high⟩ := floorLog2_one hd
  obtain ⟨m, hm, he⟩ : ∃ m : Nat, max (-1074) (floorLog2 1 d - 52) = -m ∧
      (m = 1074 ∧ 1074 ≤ k + 52 ∨ m = k + 52 ∧ k + 52 ≤ 1074) :=
    ⟨min 1074 (k + 52), by omega, by omega⟩
  have top : 2 ^ m < 2 ^ 53 * d := calc
    2 ^ m ≤ 2 ^ (k + 52) := Nat.pow_le_pow_right (by decide) (by omega)
    _ = 2 ^ k * 2 ^ 52 := Nat.pow_add ..
    _ < 2 ^ 53 * d := by omega
  -- The significand fills its 53 bits unless the exponent is the least one.
  have upper := roundDiv_le top
  have lower : 2 ^ 52 ≤ roundDiv (2 ^ m) d ∨ m = 1074 := by
    rcases he with ⟨he, _⟩ | ⟨rfl, _⟩
    · exact .inr he
    · refine .inl (le_roundDiv hd ?_)
      rw [Nat.pow_add, Nat.mul_comm]
      exact Nat.mul_le_mul_right _ low
  have neg : ¬0 ≤ -(m : Int) := by omega
  unfold ofRatio
  rw [hm, if_neg Nat.one_ne_zero]
  dsimp only
  rw [if_neg neg, Int.neg_neg, Int.toNat_natCast, Nat.one_mul]
  split
  next => exact isFinite_ofParts ⟨by decide, by omega, by omega, .inl le_rfl⟩
  next hq => exact isFinite_ofParts ⟨by omega, by omega, by omega, by omega⟩

theorem isNegative_ofRatio (negative : Bool) (n d : Nat) :
    (ofRatio negative n d).isNegative = negative := by
  have parts : ∀ s e, (ofParts negative s e).isNegative = negative := by
    intro s e
    unfold ofParts
    split <;> rfl
  unfold ofRatio
  dsimp only
  split
  · rfl
  · split
    · split
      · exact parts _ _
      · exact parts _ _
    · split
      · exact parts _ _
      · exact parts _ _

theorem isNegative_toBinary64 (d : Decimal) : d.toBinary64.isNegative = false := by
  unfold Decimal.toBinary64
  dsimp only
  split
  · rfl
  · split
    · rfl
    · exact isNegative_ofRatio false _ _

/-- Only the negative zero has a minus sign without being below zero. -/
theorem isBelowZero_eq {x : Binary64} (h : x ≠ zero true) : x.isBelowZero = x.isNegative := by
  cases x with
  | finite negative s e canonical =>
    cases negative with
    | false => rfl
    | true =>
      have hs : s ≠ 0 := by
        rintro rfl
        obtain ⟨_, _, _, h' | rfl⟩ := canonical
        · exact absurd h' (by decide)
        · exact h rfl
      simp [isBelowZero, isNegative, isZero, hs]
  | infinite negative => cases negative <;> rfl
  | nan => rfl

theorem ne_of_isNegative {x : Binary64} (h : x.isNegative = false) : x ≠ zero true := by
  rintro rfl
  exact absurd h (by decide)

/-! ## Integers -/

theorem natAbs_toFraction?_lt {x : Binary64} {n : Int} {d : Nat}
    (h : x.toFraction? = some (n, d)) : n.natAbs < 10 ^ Fault.digitLimit := by
  cases x with
  | finite negative s e canonical =>
    obtain ⟨hs, _, he, _⟩ := canonical
    have power (j k : Nat) (h : j + k ≤ Fault.digitLimit) :
        2 ^ j * 2 ^ k ≤ 10 ^ Fault.digitLimit := calc
      2 ^ j * 2 ^ k = 2 ^ (j + k) := (Nat.pow_add ..).symm
      _ ≤ 10 ^ (j + k) := Nat.pow_le_pow_left (by decide) _
      _ ≤ 10 ^ Fault.digitLimit := Nat.pow_le_pow_right (by decide) h
    have bound : s * 2 ^ e.toNat < 10 ^ Fault.digitLimit := calc
      s * 2 ^ e.toNat < 2 ^ 53 * 2 ^ 971 :=
        Nat.mul_lt_mul_of_lt_of_le hs (Nat.pow_le_pow_right (by decide) (by omega))
          (Nat.two_pow_pos _)
      _ ≤ 10 ^ Fault.digitLimit := power 53 971 (by decide)
    have size (k : Nat) : ((if negative then -1 else 1 : Int) * k).natAbs = k := by
      cases negative <;> simp
    unfold toFraction? at h
    dsimp only at h
    by_cases he : 0 ≤ e
    · rw [if_pos he] at h
      obtain ⟨rfl, -⟩ := Prod.mk.inj (Option.some.inj h)
      rwa [size]
    · rw [if_neg he] at h
      obtain ⟨rfl, -⟩ := Prod.mk.inj (Option.some.inj h)
      rw [size]
      exact Nat.lt_of_le_of_lt (Nat.le_mul_of_pos_right s (Nat.two_pow_pos _)) bound
  | infinite => exact absurd h (by simp [toFraction?])
  | nan => exact absurd h (by simp [toFraction?])

/-- A double that is an integer has at most 309 digits. -/
theorem natAbs_toInt?_lt {x : Binary64} {n : Int} (h : x.toInt? = some n) :
    n.natAbs < 10 ^ Fault.digitLimit := by
  unfold toInt? at h
  split at h
  next a d hf =>
    split at h
    · obtain rfl := Option.some.inj h
      exact Nat.lt_of_le_of_lt (Int.natAbs_ediv_le_natAbs a d) (natAbs_toFraction?_lt hf)
    · exact absurd h (by simp)
  next => exact absurd h (by simp)

/-! ## Zeros -/

theorem isFinite_tenthPower (k : Nat) : (tenthPower k).isFinite = true := by
  unfold tenthPower
  split
  · rfl
  · exact isFinite_reciprocal false (Nat.pow_pos (by decide))

theorem isFinite_of_ofInt? {n : Int} {x : Binary64} (h : ofInt? n = some x) :
    x.isFinite = true := by
  unfold ofInt? at h
  split at h
  · obtain rfl := Option.some.inj h
    rfl
  · exact absurd h (by simp)

theorem toFraction?_zero (negative : Bool) : ∃ d, (zero negative).toFraction? = some (0, d) := by
  cases negative <;> exact ⟨_, rfl⟩

theorem isZero_zero_mul (negative : Bool) {y : Binary64} (hy : y.isFinite = true) :
    ((zero negative).mul y).isZero = true := by
  obtain ⟨⟨c, d⟩, hc⟩ := (isFinite_iff y).mp hy
  obtain ⟨d₀, hz⟩ := toFraction?_zero negative
  unfold mul
  rw [hz, hc]
  dsimp only
  rw [Int.zero_mul]
  rfl

/-- A zero is still a zero at any scale. -/
theorem isZero_of_scaleUp {negative : Bool} {p : Int} {scaled : Binary64}
    (h : (zero negative).scaleUp p = .ok scaled) : scaled.isZero = true := by
  unfold scaleUp at h
  split at h
  · split at h
    · exact absurd h (by simp)
    · split at h
      next factor hf =>
        obtain rfl := Except.ok.inj h
        exact isZero_zero_mul negative (isFinite_of_ofInt? hf)
      · exact absurd h (by simp)
  · split at h
    · obtain rfl := Except.ok.inj h
      exact isZero_zero_mul negative (isFinite_tenthPower _)
    · exact absurd h (by simp)

theorem not_atLeastPow2_of_isZero {x : Binary64} (h : x.isZero = true) :
    (!x.isFinite || x.atLeastPow2 53) = false := by
  cases x with
  | finite negative s e canonical =>
    obtain rfl : s = 0 := eq_of_beq h
    obtain ⟨d, hd, hz⟩ : ∃ d : Nat, 0 < d ∧
        (finite negative 0 e canonical).toFraction? = some (0, d) := by
      unfold toFraction?
      by_cases he : 0 ≤ e
      · exact ⟨1, by decide, by simp [he]⟩
      · exact ⟨2 ^ (-e).toNat, Nat.two_pow_pos _, by simp [he]⟩
    have small : ¬2 ^ 53 * d ≤ (0 : Int).natAbs :=
      Nat.not_le_of_lt (Nat.mul_pos (Nat.two_pow_pos _) hd)
    rw [atLeastPow2, hz]
    exact decide_eq_false small
  | infinite => exact absurd h Bool.false_ne_true
  | nan => exact absurd h Bool.false_ne_true

end Binary64

namespace Value

/-- **Rounding leaves no negative zero**: a zero is rounded to the integer. -/
theorem roundFinite_ne {x y : Binary64} {p : Int} (h : roundFinite x p = .ok (.float y)) :
    y ≠ .zero true := by
  rintro rfl
  obtain ⟨scaled, hs, h⟩ := bind_eq_ok.mp h
  split at h
  next hc =>
    obtain rfl := Value.float.inj (Except.ok.inj h)
    rw [Binary64.not_atLeastPow2_of_isZero (Binary64.isZero_of_scaleUp hs)] at hc
    exact absurd hc Bool.false_ne_true
  next =>
    obtain ⟨rounded, _, h⟩ := bind_eq_ok.mp h
    have h := Except.ok.inj h
    split at h
    next => exact absurd h (by simp)
    next hn =>
      obtain rfl := Value.float.inj h
      obtain ⟨d, hz⟩ := Binary64.toFraction?_zero true
      rw [Binary64.toInt?, hz] at hn
      exact absurd hn (by simp)

/-- What rounding leaves of a finite double. -/
theorem round_float_cases {x : Binary64} {p : Int} {v : Value} (hx : x.isFinite = true)
    (h : round p (.float x) = .ok v) :
    (∃ n : Int, v = .int n ∧ n.natAbs < 10 ^ Fault.digitLimit) ∨
      ∃ y, v = .float y ∧ y ≠ .zero true := by
  rw [round, if_pos hx] at h
  have hr := h
  obtain ⟨scaled, _, h⟩ := bind_eq_ok.mp h
  split at h
  next =>
    obtain rfl := Except.ok.inj h
    exact .inr ⟨x, rfl, roundFinite_ne hr⟩
  next =>
    obtain ⟨rounded, _, h⟩ := bind_eq_ok.mp h
    have h := Except.ok.inj h
    split at h
    next n hn => exact .inl ⟨n, h.symm, Binary64.natAbs_toInt?_lt hn⟩
    next =>
      subst h
      exact .inr ⟨rounded, rfl, roundFinite_ne hr⟩

end Value

end Stepwise
