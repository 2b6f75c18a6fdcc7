import Stepwise.Algebra.Identity
import Stepwise.Proofs.JoinedProducts

/-!
# Polynomials over one bar

A term is put over one fraction bar with what is in the denominators below it. In a polynomial these
are only the numbers of its coefficients, so a natural number stands below the bar (`IsFraction`). A
sum takes a common multiple of the numbers below its terms, a product multiplies the numbers below
its factors.

Result: `isFraction_fraction`, above the bar is the polynomial times the number below it.
-/

namespace Stepwise

open MvPolynomial

namespace Term

variable {t : Term} {ts : List Term} {f : Term × Term} {p : MvPolynomial Char ℚ}

/-! ## Fractions -/

theorem numbers_map_number (qs : List ℚ) : numbers (qs.map number) = qs := by
  induction qs with
  | nil => rfl
  | cons q qs ih =>
    rw [numbers, List.map_cons, List.filterMap_cons_some (f := number?) (b := q) rfl]
    exact congrArg _ ih

theorem gathered_map_number (qs : List ℚ) : gathered (qs.map number) = [] := by
  have none : (qs.map number).filterMap basePower? = [] := by
    refine List.filterMap_eq_nil_iff.mpr fun u hu => ?_
    obtain ⟨q, -, rfl⟩ := List.mem_map.mp hu
    rfl
  rw [gathered, none]
  rfl

/-- A product of numbers is a number. -/
theorem mulAll_map_number (qs : List ℚ) : mulAll (qs.map number) = number qs.prod := by
  have factors : (qs.map number).flatMap factors = qs.map number := by
    induction qs with
    | nil => rfl
    | cons q qs ih => exact congrArg _ ih
  have joined : ∀ t ∈ qs.map number, t.IsJoined := by
    intro t ht
    obtain ⟨q, -, rfl⟩ := List.mem_map.mp ht
    exact .number q
  have product := product_eq 199 joined
  rw [factors, numbers_map_number, gathered_map_number] at product
  exact product.trans (assemble_number qs.prod)

/-- A pair of terms is a fraction of a polynomial: below the bar is a natural number. -/
structure IsFraction (f : Term × Term) (p : MvPolynomial Char ℚ) : Prop where
  joined : f.1.IsJoined
  denominator : ∃ k : ℕ, k ≠ 0 ∧ f.2 = number k ∧ f.1.polynomial = C (k : ℚ) * p

theorem IsFraction.whole (h : t.IsJoined) : IsFraction (t, one) t.polynomial :=
  ⟨h, 1, one_ne_zero, by rw [Nat.cast_one, one], by rw [Nat.cast_one, C_1, one_mul]⟩

/-- The numerator of a fraction over another denominator. -/
def numeratorOver (common : ℕ) (f : Term × Term) : Term :=
  scale (mkRat common 1 / f.2.coefficient.1) f.1

/-- The common multiple of the numbers in the denominators. -/
def commonMultiple (fs : List (Term × Term)) : ℕ :=
  fs.foldl (fun l f => Nat.lcm l f.2.coefficient.1.num.natAbs) 1

/-- The numerators over a common multiple, by the rests of their denominators. -/
def groupedOver (common : ℕ) (fs : List (Term × Term)) : List (Term × List Term) :=
  fs.foldl (fun gs f => addOver (numeratorOver common f) f.2.coefficient.2 gs) []

theorem addFractions_eq (fs : List (Term × Term)) :
    addFractions fs =
      let sums := (groupedOver (commonMultiple fs) fs).map fun g => (g.1, addAll g.2)
      (addAll ((others [] sums).map fun g => mulAll (g.1.2 :: g.2.map Prod.fst)),
        mulAll (ofInt (commonMultiple fs) :: sums.map Prod.fst)) := rfl

/-- Numerators over numbers are all added over the same denominator. -/
theorem groupedOver_cons (common : ℕ) {fs : List (Term × Term)}
    (h : ∀ g ∈ f :: fs, ∃ k, g.2 = number k) :
    groupedOver common (f :: fs) = [(one, (f :: fs).map (numeratorOver common))] := by
  have main : ∀ (fs : List (Term × Term)) (ns : List Term), (∀ g ∈ fs, ∃ k, g.2 = number k) →
      fs.foldl (fun gs f => addOver (numeratorOver common f) f.2.coefficient.2 gs) [(one, ns)] =
        [(one, ns ++ fs.map (numeratorOver common))] := by
    intro fs
    induction fs with
    | nil => exact fun ns _ => by rw [List.map_nil, List.append_nil]; rfl
    | cons g gs ih =>
      intro ns h
      obtain ⟨k, hk⟩ := h g List.mem_cons_self
      rw [List.foldl_cons, hk, coefficient_number, addOver, if_pos rfl,
        ih _ fun f hf => h f (List.mem_cons_of_mem g hf), List.map_cons, List.append_assoc,
        List.singleton_append]
  obtain ⟨k, hk⟩ := h f List.mem_cons_self
  rw [groupedOver, List.foldl_cons, hk, coefficient_number, addOver,
    main fs _ fun g hg => h g (List.mem_cons_of_mem f hg), List.map_cons, List.singleton_append]

theorem addFractions_cons {fs : List (Term × Term)} (h : ∀ g ∈ f :: fs, ∃ k, g.2 = number k) :
    addFractions (f :: fs) =
      (addAll [mulAll [addAll ((f :: fs).map (numeratorOver (commonMultiple (f :: fs))))]],
        mulAll [ofInt (commonMultiple (f :: fs)), one]) := by
  rw [addFractions_eq, groupedOver_cons _ h]
  rfl

theorem commonMultiple_ne_zero {fs : List (Term × Term)}
    (h : ∀ f ∈ fs, ∃ k : ℕ, k ≠ 0 ∧ f.2 = number k) : commonMultiple fs ≠ 0 := by
  have main : ∀ (fs : List (Term × Term)) (l : ℕ),
      (∀ f ∈ fs, ∃ k : ℕ, k ≠ 0 ∧ f.2 = number k) → l ≠ 0 →
        fs.foldl (fun l f => Nat.lcm l f.2.coefficient.1.num.natAbs) l ≠ 0 := by
    intro fs
    induction fs with
    | nil => exact fun _ _ hl => hl
    | cons f fs ih =>
      intro l h hl
      obtain ⟨k, hk, same⟩ := h f List.mem_cons_self
      refine ih _ (fun g hg => h g (List.mem_cons_of_mem f hg)) (Nat.lcm_ne_zero hl ?_)
      rw [same, coefficient_number, Rat.num_natCast, Int.natAbs_natCast]
      exact hk
  exact main fs 1 h one_ne_zero

/-- **A sum of fractions is a fraction.** -/
theorem isFraction_addFractions (h : ∀ t ∈ ts, IsFraction (fraction t) t.polynomial) :
    IsFraction (addFractions (ts.map fraction)) (ts.map polynomial).sum := by
  cases ts with
  | nil =>
    refine ⟨.zero, 1, one_ne_zero, ?_, ?_⟩
    · have below : mulAll [number 1] = number [(1 : ℚ)].prod := mulAll_map_number [1]
      rw [List.prod_singleton] at below
      rw [Nat.cast_one]
      exact below
    · rw [List.map_nil, List.map_nil, List.sum_nil, mul_zero]
      exact polynomial_zero
  | cons t ts =>
    have denominator : ∀ f ∈ (t :: ts).map fraction, ∃ k : ℕ, k ≠ 0 ∧ f.2 = number k := by
      intro f hf
      obtain ⟨u, hu, rfl⟩ := List.mem_map.mp hf
      obtain ⟨k, hk, same, -⟩ := (h u hu).denominator
      exact ⟨k, hk, same⟩
    have sum : addFractions ((t :: ts).map fraction) = _ := addFractions_cons fun f hf =>
      have ⟨k, _, same⟩ := denominator f hf
      ⟨k, same⟩
    have nonzero := commonMultiple_ne_zero denominator
    rw [← List.map_cons] at sum
    generalize commonMultiple ((t :: ts).map fraction) = common at sum nonzero
    have numerators : ∀ u ∈ ((t :: ts).map fraction).map (numeratorOver common), u.IsJoined := by
      intro u hu
      obtain ⟨f, hf, rfl⟩ := List.mem_map.mp hu
      obtain ⟨v, hv, rfl⟩ := List.mem_map.mp hf
      exact (h v hv).joined.scale _
    have inner := List.forall_mem_singleton.mpr (IsJoined.addAll numerators)
    have outer := List.forall_mem_singleton.mpr (IsJoined.mulAll inner)
    rw [sum]
    refine ⟨.addAll outer, common, nonzero, ?_, ?_⟩
    · have below : mulAll [ofInt common, one] = number ((common : ℤ) * 1) := mul_number _ _
      rw [mul_one, Int.cast_natCast] at below
      dsimp only
      rw [below]
    · rw [polynomial_addAll outer, List.map_singleton, List.sum_singleton, polynomial_mulAll inner,
        List.map_singleton, List.prod_singleton, polynomial_addAll numerators, List.map_map,
        List.map_map, ← List.sum_map_mul_left]
      refine congrArg List.sum (List.map_congr_left fun u hu => ?_)
      obtain ⟨k, hk, same, value⟩ := (h u hu).denominator
      have nonzero : (k : ℚ) ≠ 0 := Nat.cast_ne_zero.mpr hk
      rw [Function.comp, Function.comp, numeratorOver, polynomial_scale _ (h u hu).joined, value,
        same, coefficient_number, ← mul_assoc, ← C_mul, div_mul_cancel₀ _ nonzero, Rat.mkRat_one]
      rfl

theorem fractions_eq (ts : List Term) : fractions ts = ts.map fraction := by
  induction ts with
  | nil => rfl
  | cons t ts ih => rw [fractions, ih, List.map_cons]

/-- **A polynomial over one bar has a natural number below it.** -/
theorem isFraction_fraction (h : t.IsJoined) : IsFraction (fraction t) t.polynomial := by
  induction h with
  | number q =>
    refine ⟨.number _, q.den, q.den_ne_zero, rfl, ?_⟩
    rw [fraction, ofInt, polynomial_number, polynomial_number, ← C_mul, Rat.den_mul_eq_num]
  | letter c => exact .whole (.letter c)
  | sum _ ih =>
    rw [fraction, fractions_eq, polynomial_sum]
    exact isFraction_addFractions ih
  | @power b n hb hj ih =>
    obtain ⟨k, hk, same, value⟩ := ih.denominator
    have power : fraction (power b (number n)) =
        (pow (fraction b).1 (number n), pow (fraction b).2 (number n)) := by
      rw [fraction]
      simp only [Rat.den_natCast, if_true, Nat.cast_nonneg]
    rw [power, polynomial_power]
    refine ⟨ih.joined.pow n, k ^ n, pow_ne_zero n hk, ?_, ?_⟩
    · rw [same, Nat.cast_pow]
      exact joining_pow_number 199 n k
    · rw [polynomial_pow n ih.joined, value, mul_pow, Nat.cast_pow, C_pow]
  | @product ts _ _ ih =>
    have value : ∀ us : List Term, (∀ t ∈ us, IsFraction (fraction t) t.polynomial) →
        ∃ ks : List ℕ, ks.prod ≠ 0 ∧
          us.map (fun t => (fraction t).2) = (ks.map (Nat.cast : ℕ → ℚ)).map number ∧
          (us.map fun t => (fraction t).1.polynomial).prod =
            C (ks.prod : ℚ) * (us.map polynomial).prod := by
      intro us
      induction us with
      | nil => exact fun _ => ⟨[], one_ne_zero, rfl, by simp⟩
      | cons u us ihu =>
        intro h
        obtain ⟨k, hk, same, value⟩ := (h u List.mem_cons_self).denominator
        obtain ⟨ks, hks, sames, values⟩ := ihu fun t ht => h t (List.mem_cons_of_mem u ht)
        refine ⟨k :: ks, mul_ne_zero hk hks, ?_, ?_⟩
        · rw [List.map_cons, same, sames]
          rfl
        · rw [List.map_cons, List.prod_cons, value, values, List.prod_cons, Nat.cast_mul, C_mul,
            List.map_cons, List.prod_cons]
          ring
    obtain ⟨ks, nonzero, below, above⟩ := value ts ih
    have joined : ∀ u ∈ ts.map fun t => (fraction t).1, u.IsJoined := by
      intro u hu
      obtain ⟨t, ht, rfl⟩ := List.mem_map.mp hu
      exact (ih t ht).joined
    have split : fraction (product ts) =
        (mulAll (ts.map fun t => (fraction t).1), mulAll (ts.map fun t => (fraction t).2)) := by
      rw [fraction, fractions_eq, List.map_map, List.map_map]
      rfl
    rw [split]
    refine ⟨.mulAll joined, ks.prod, nonzero, ?_, ?_⟩
    · rw [below, mulAll_map_number, Nat.cast_list_prod]
    · rw [polynomial_mulAll joined, List.map_map, polynomial_product]
      exact above

end Term

end Stepwise
