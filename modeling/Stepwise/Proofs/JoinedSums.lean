import Stepwise.Proofs.Polynomials

/-!
# Sums of polynomial terms

The joinings keep the terms of polynomials in a shape of their own (`Term.IsJoined`): powers are
natural powers of letters and sums, and products have no products among their factors. Such a term
stands for a polynomial (`Term.polynomial`). A sum of them is put together from the multiples of
different terms, whatever order it is written in (`addAll_eq`).

Result: `polynomial_addAll`, sums of terms stand for sums of polynomials.
-/

namespace Stepwise

open MvPolynomial

namespace Term

variable {t : Term} {ts : List Term} {c : ℚ}

/-! ## The shape -/

/-- Is this what powers in polynomials are powers of: a symbol or a sum? -/
def isBase : Term → Bool
  | symbol _ => true
  | sum _ => true
  | _ => false

/-- Is this a product? -/
def isProduct : Term → Bool
  | product _ => true
  | _ => false

/-- The term of a polynomial, as the joinings leave it. -/
inductive IsJoined : Term → Prop
  | number (q : ℚ) : IsJoined (number q)
  | letter (c : Char) : IsJoined (symbol ⟨[c], .complex⟩)
  | sum {ts : List Term} (h : ∀ t ∈ ts, IsJoined t) : IsJoined (sum ts)
  | power {b : Term} (n : ℕ) (hb : b.isBase = true) (h : IsJoined b) :
      IsJoined (power b (number n))
  | product {ts : List Term} (h : ∀ t ∈ ts, IsJoined t) (flat : ∀ t ∈ ts, t.isProduct = false) :
      IsJoined (product ts)

mutual

/-- The polynomial that a term stands for. -/
noncomputable def polynomial : Term → MvPolynomial Char ℚ
  | number q => C q
  | symbol ⟨[c], _⟩ => X c
  | sum ts => (polynomials ts).sum
  | product ts => (polynomials ts).prod
  | power b (number q) => polynomial b ^ q.num.toNat
  | _ => 0

/-- The polynomials that several terms stand for. -/
noncomputable def polynomials : List Term → List (MvPolynomial Char ℚ)
  | [] => []
  | t :: ts => polynomial t :: polynomials ts

end

theorem polynomials_eq (ts : List Term) : polynomials ts = ts.map polynomial := by
  induction ts with
  | nil => rfl
  | cons t ts ih => rw [polynomials, ih, List.map_cons]

@[simp]
theorem polynomial_number (q : ℚ) : (number q).polynomial = C q := by rw [polynomial]

@[simp]
theorem polynomial_zero : zero.polynomial = 0 := by rw [zero, polynomial_number, C_0]

@[simp]
theorem polynomial_one : one.polynomial = 1 := by rw [one, polynomial_number, C_1]

@[simp]
theorem polynomial_symbol (c : Char) (d : Domain) : (symbol ⟨[c], d⟩).polynomial = X c := by
  rw [polynomial]

@[simp]
theorem polynomial_sum (ts : List Term) : (sum ts).polynomial = (ts.map polynomial).sum := by
  rw [polynomial, polynomials_eq]

@[simp]
theorem polynomial_product (ts : List Term) :
    (product ts).polynomial = (ts.map polynomial).prod := by
  rw [polynomial, polynomials_eq]

@[simp]
theorem polynomial_power (b : Term) (n : ℕ) :
    (power b (number n)).polynomial = b.polynomial ^ n := by
  rw [polynomial, Rat.num_natCast, Int.toNat_natCast]

/-! ## Terms, factors and coefficients -/

theorem polynomial_terms (t : Term) : (t.terms.map polynomial).sum = t.polynomial := by
  cases t with
  | sum ts => rw [terms, polynomial_sum]
  | _ => exact List.sum_singleton

theorem polynomial_flatMap_terms (ts : List Term) :
    ((ts.flatMap terms).map polynomial).sum = (ts.map polynomial).sum := by
  induction ts with
  | nil => rfl
  | cons t ts ih =>
    rw [List.flatMap_cons, List.map_append, List.sum_append, ih, polynomial_terms, List.map_cons,
      List.sum_cons]

theorem polynomial_factors (t : Term) : (t.factors.map polynomial).prod = t.polynomial := by
  cases t with
  | product ts => rw [factors, polynomial_product]
  | _ => exact List.prod_singleton

theorem polynomial_flatMap_factors (ts : List Term) :
    ((ts.flatMap factors).map polynomial).prod = (ts.map polynomial).prod := by
  induction ts with
  | nil => rfl
  | cons t ts ih =>
    rw [List.flatMap_cons, List.map_append, List.prod_append, ih, polynomial_factors, List.map_cons,
      List.prod_cons]

theorem polynomial_ofTerms (ts : List Term) : (ofTerms ts).polynomial = (ts.map polynomial).sum := by
  unfold ofTerms
  split
  · exact polynomial_zero
  · exact List.sum_singleton.symm
  · exact polynomial_sum ts

theorem polynomial_ofFactors (ts : List Term) :
    (ofFactors ts).polynomial = (ts.map polynomial).prod := by
  unfold ofFactors
  split
  · exact polynomial_one
  · exact List.prod_singleton.symm
  · exact polynomial_product ts

theorem polynomial_scaled (c : ℚ) (t : Term) : (scaled c t).polynomial = C c * t.polynomial := by
  unfold scaled
  split
  next h => rw [h, polynomial_zero, C_0, zero_mul]
  split
  next h => rw [h, C_1, one_mul]
  split
  next q => rw [polynomial_number, polynomial_number, C_mul]
  next ts => simp
  next => simp

theorem polynomial_coefficient (t : Term) :
    C t.coefficient.1 * t.coefficient.2.polynomial = t.polynomial := by
  unfold coefficient
  split
  next q => rw [polynomial_one, mul_one, polynomial_number]
  next q ts => rw [polynomial_ofFactors, polynomial_product, List.map_cons, List.prod_cons,
    polynomial_number]
  next => rw [C_1, one_mul]

/-! ## The shape is kept -/

theorem IsJoined.zero : IsJoined zero := .number 0

theorem IsJoined.one : IsJoined one := .number 1

theorem IsJoined.terms (h : t.IsJoined) : ∀ u ∈ t.terms, u.IsJoined := by
  intro u hu
  cases h with
  | sum h => exact h u hu
  | number q => exact List.mem_singleton.mp hu ▸ .number q
  | letter c => exact List.mem_singleton.mp hu ▸ .letter c
  | power n hb h => exact List.mem_singleton.mp hu ▸ .power n hb h
  | product h flat => exact List.mem_singleton.mp hu ▸ .product h flat

theorem IsJoined.factors (h : t.IsJoined) :
    ∀ u ∈ t.factors, u.IsJoined ∧ u.isProduct = false := by
  intro u hu
  cases h with
  | product h flat => exact ⟨h u hu, flat u hu⟩
  | number q => exact List.mem_singleton.mp hu ▸ ⟨.number q, rfl⟩
  | letter c => exact List.mem_singleton.mp hu ▸ ⟨.letter c, rfl⟩
  | sum h => exact List.mem_singleton.mp hu ▸ ⟨.sum h, rfl⟩
  | power n hb h => exact List.mem_singleton.mp hu ▸ ⟨.power n hb h, rfl⟩

theorem IsJoined.ofTerms (h : ∀ t ∈ ts, t.IsJoined) : (ofTerms ts).IsJoined := by
  unfold Term.ofTerms
  split
  · exact .zero
  · exact h _ List.mem_cons_self
  · exact .sum h

theorem IsJoined.ofFactors (h : ∀ t ∈ ts, t.IsJoined ∧ t.isProduct = false) :
    (ofFactors ts).IsJoined := by
  unfold Term.ofFactors
  split
  · exact .one
  · exact (h _ List.mem_cons_self).1
  · exact .product (fun t ht => (h t ht).1) fun t ht => (h t ht).2

theorem IsJoined.coefficient (h : t.IsJoined) : t.coefficient.2.IsJoined := by
  unfold Term.coefficient
  split
  · exact .one
  · exact .ofFactors fun t ht => h.factors t (List.mem_cons_of_mem _ ht)
  · exact h

theorem IsJoined.scaled (c : ℚ) (h : t.IsJoined) : (scaled c t).IsJoined := by
  unfold Term.scaled
  split
  · exact .zero
  split
  · exact h
  have leading {ts : List Term} (h : ∀ t ∈ ts, t.IsJoined ∧ t.isProduct = false) :
      (Term.product (Term.number c :: ts)).IsJoined := by
    have all := List.forall_mem_cons.mpr ⟨⟨IsJoined.number c, rfl⟩, h⟩
    exact .product (fun t ht => (all t ht).1) fun t ht => (all t ht).2
  split
  · exact .number _
  · exact leading h.factors
  next single =>
    refine leading (List.forall_mem_singleton.mpr ⟨h, ?_⟩)
    cases h with
    | product => exact absurd rfl (single _)
    | _ => rfl

/-! ## Sums -/

theorem map_term_monomials (ts : List Term) : (monomials ts).map Monomial.term = ts := by
  induction ts with
  | nil => rfl
  | cons t ts ih => rw [monomials, List.map_cons, ih]

theorem Monomial.ordered_perm (ms : List Monomial) : (Monomial.ordered ms).Perm ms := by
  unfold Monomial.ordered
  split
  · split
    · exact .refl _
    split
    · exact .swap ..
    · exact sortBy_perm _ _
  · exact sortBy_perm _ _

theorem orderedTerms_perm (ts : List Term) : (orderedTerms ts).Perm ts := by
  have perm := (Monomial.ordered_perm (monomials ts)).map Monomial.term
  rwa [map_term_monomials] at perm

theorem orderedFactors_perm (ts : List Term) : (orderedFactors ts).Perm ts := by
  have perm := (sortBy_perm (fun a b => Rank.compare a.1 b.1)
    (ts.map fun t => (t.rank, t))).map Prod.snd
  rwa [List.map_map, List.map_id''] at perm
  exact fun _ => rfl

theorem IsJoined.scale (c : ℚ) (h : t.IsJoined) : (scale c t).IsJoined := by
  cases h with
  | sum h =>
    unfold Term.scale
    simp only
    split
    · exact .zero
    split
    · exact .sum h
    refine .ofTerms fun u hu => ?_
    obtain ⟨v, hv, rfl⟩ := List.mem_map.mp ((orderedTerms_perm _).subset hu)
    exact (h v hv).coefficient.scaled _
  | number q => exact (IsJoined.number q).coefficient.scaled _
  | letter l => exact (IsJoined.letter l).coefficient.scaled _
  | power n hb h => exact (IsJoined.power n hb h).coefficient.scaled _
  | product h flat => exact (IsJoined.product h flat).coefficient.scaled _

theorem polynomial_scaled_coefficient (c : ℚ) (t : Term) :
    (scaled (c * t.coefficient.1) t.coefficient.2).polynomial = C c * t.polynomial := by
  rw [polynomial_scaled, C_mul, mul_assoc, polynomial_coefficient]

theorem polynomial_scale (c : ℚ) (h : t.IsJoined) : (scale c t).polynomial = C c * t.polynomial := by
  cases h with
  | @sum ts h =>
    unfold Term.scale
    simp only
    split
    next h => rw [h, C_0, zero_mul, polynomial_zero]
    split
    next h => rw [h, C_1, one_mul]
    rw [polynomial_ofTerms, ((orderedTerms_perm _).map polynomial).sum_eq, List.map_map,
      polynomial_sum, ← List.sum_map_mul_left]
    exact congrArg List.sum (List.map_congr_left fun t _ => polynomial_scaled_coefficient c t)
  | number q => exact polynomial_scaled_coefficient c (number q)
  | letter l => exact polynomial_scaled_coefficient c (symbol ⟨[l], .complex⟩)
  | @power b n => exact polynomial_scaled_coefficient c (power b (number n))
  | @product ts => exact polynomial_scaled_coefficient c (product ts)

/-- The multiples of different terms in a sum. -/
def multiples (ts : List Term) : List (Rat × Term) :=
  ts.foldl (fun ms t => addMultiple t.coefficient.1 t.coefficient.2 ms) []

/-- The sum of multiples, without those by zero. -/
def ofMultiples (ms : List (Rat × Term)) : Term :=
  ofTerms (orderedTerms ((ms.filter fun m => m.1 ≠ 0).map fun m => scaled m.1 m.2))

/-- **A sum consists of the multiples that its terms come to.** -/
theorem addAll_eq (h : ∀ t ∈ ts, t.IsJoined) :
    addAll ts = ofMultiples (multiples (ts.flatMap terms)) := by
  have joined : ∀ u ∈ ts.flatMap terms, u.IsJoined := by
    intro u hu
    obtain ⟨t, ht, hu⟩ := List.mem_flatMap.mp hu
    exact (h t ht).terms u hu
  unfold addAll
  generalize ts.flatMap terms = us at joined
  dsimp only
  split
  next undefined =>
    cases joined _ (List.contains_iff_mem.mp undefined)
  split
  next =>
    rw [(List.filter_eq_self (l := us)).mpr fun u hu => by cases joined u hu <;> rfl]
    rfl
  next first others infinities =>
    obtain ⟨hu, infinite⟩ := List.mem_filter.mp (infinities ▸ List.mem_cons_self (a := first))
    cases joined _ hu <;> exact absurd infinite Bool.false_ne_true

theorem polynomial_addMultiple (c : ℚ) (t : Term) (ms : List (Rat × Term)) :
    ((addMultiple c t ms).map fun m => C m.1 * m.2.polynomial).sum =
      C c * t.polynomial + (ms.map fun m => C m.1 * m.2.polynomial).sum := by
  induction ms with
  | nil => rfl
  | cons m ms ih =>
    rw [addMultiple]
    split
    next same => rw [List.map_cons, List.sum_cons, same, C_add, List.map_cons, List.sum_cons, same]; ring
    next => rw [List.map_cons, List.sum_cons, ih, List.map_cons, List.sum_cons, add_left_comm]

theorem polynomial_multiples (ts : List Term) :
    ((multiples ts).map fun m => C m.1 * m.2.polynomial).sum = (ts.map polynomial).sum := by
  have key : ∀ (ts : List Term) (ms : List (Rat × Term)),
      ((ts.foldl (fun ms t => addMultiple t.coefficient.1 t.coefficient.2 ms) ms).map
        fun m => C m.1 * m.2.polynomial).sum =
      (ts.map polynomial).sum + (ms.map fun m => C m.1 * m.2.polynomial).sum := by
    intro ts
    induction ts with
    | nil => exact fun ms => (zero_add _).symm
    | cons t ts ih =>
      intro ms
      rw [List.foldl_cons, ih, polynomial_addMultiple, polynomial_coefficient, List.map_cons,
        List.sum_cons, add_left_comm, add_assoc]
  exact (key ts []).trans (add_zero _)

theorem polynomial_ofMultiples (ms : List (Rat × Term)) :
    (ofMultiples ms).polynomial = (ms.map fun m => C m.1 * m.2.polynomial).sum := by
  rw [ofMultiples, polynomial_ofTerms, ((orderedTerms_perm _).map polynomial).sum_eq]
  induction ms with
  | nil => rfl
  | cons m ms ih =>
    by_cases h : m.1 = 0
    · rw [List.filter_cons_of_neg (by simp [h]), ih, List.map_cons, List.sum_cons, h, C_0, zero_mul,
        zero_add]
    · rw [List.filter_cons_of_pos (by simp [h]), List.map_cons, List.map_cons, List.sum_cons, ih,
        polynomial_scaled, List.map_cons, List.sum_cons]

/-- **Sums of terms stand for sums of polynomials.** -/
theorem polynomial_addAll (h : ∀ t ∈ ts, t.IsJoined) :
    (addAll ts).polynomial = (ts.map polynomial).sum := by
  rw [addAll_eq h, polynomial_ofMultiples, polynomial_multiples, polynomial_flatMap_terms]

theorem mem_addMultiple {m : Rat × Term} {ms : List (Rat × Term)}
    (h : m ∈ addMultiple c t ms) : m.2 = t ∨ ∃ n ∈ ms, n.2 = m.2 := by
  induction ms with
  | nil => exact .inl (congrArg Prod.snd (List.mem_singleton.mp h))
  | cons n ms ih =>
    rw [addMultiple] at h
    split at h
    next same =>
      rcases List.mem_cons.mp h with rfl | h
      · exact .inl same
      · exact .inr ⟨m, List.mem_cons_of_mem _ h, rfl⟩
    next =>
      rcases List.mem_cons.mp h with rfl | h
      · exact .inr ⟨_, List.mem_cons_self, rfl⟩
      · rcases ih h with same | ⟨k, hk, same⟩
        · exact .inl same
        · exact .inr ⟨k, List.mem_cons_of_mem _ hk, same⟩

theorem exists_of_mem_multiples {m : Rat × Term} (h : m ∈ multiples ts) :
    ∃ t ∈ ts, m.2 = t.coefficient.2 := by
  have key : ∀ (ts : List Term) (ms : List (Rat × Term)),
      m ∈ ts.foldl (fun ms t => addMultiple t.coefficient.1 t.coefficient.2 ms) ms →
        (∃ t ∈ ts, m.2 = t.coefficient.2) ∨ ∃ n ∈ ms, n.2 = m.2 := by
    intro ts
    induction ts with
    | nil => exact fun ms h => .inr ⟨m, h, rfl⟩
    | cons t ts ih =>
      intro ms h
      rcases ih _ h with ⟨u, hu, same⟩ | ⟨n, hn, same⟩
      · exact .inl ⟨u, List.mem_cons_of_mem t hu, same⟩
      · rcases mem_addMultiple hn with ht | ⟨k, hk, ht⟩
        · exact .inl ⟨t, List.mem_cons_self, same.symm.trans ht⟩
        · exact .inr ⟨k, hk, ht.trans same⟩
  rcases key ts [] h with found | ⟨n, hn, -⟩
  · exact found
  · exact absurd hn List.not_mem_nil

theorem IsJoined.addAll (h : ∀ t ∈ ts, t.IsJoined) : (addAll ts).IsJoined := by
  rw [addAll_eq h, ofMultiples]
  refine .ofTerms fun u hu => ?_
  obtain ⟨m, hm, rfl⟩ := List.mem_map.mp ((orderedTerms_perm _).subset hu)
  obtain ⟨v, hv, same⟩ := exists_of_mem_multiples (List.mem_of_mem_filter hm)
  obtain ⟨t, ht, hv⟩ := List.mem_flatMap.mp hv
  exact same ▸ (((h t ht).terms v hv).coefficient.scaled m.1)

end Term

end Stepwise
