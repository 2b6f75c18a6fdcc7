import Stepwise.Proofs.Monomials

/-!
# Polynomials multiplied out

A polynomial that is multiplied out is a sum of different monomials with coefficients other than
zero (`Term.IsExpanded`). A sum gathers all that there are of one monomial, because equal monomials
are equal terms up to their numbers.

Results: `IsExpanded.eq_zero_iff`, what is multiplied out is zero only as the number zero;
`expand_of_isJoined`, the term of a polynomial is multiplied out by `expand`, which keeps its
polynomial.
-/

namespace Stepwise

open MvPolynomial

namespace Term

variable {s t : Term} {ts : List Term} {c : ℚ} {p q : MvPolynomial Char ℚ}

/-! ## Sums of different monomials -/

/-- The term is a sum of different monomials, none of them with the coefficient 0. -/
def IsExpanded (t : Term) : Prop :=
  ∃ ts, t = ofTerms ts ∧ (∀ u ∈ ts, u.IsMonomial ∧ u ≠ zero) ∧
    (ts.map fun u => u.coefficient.2).Nodup

theorem IsExpanded.terms (h : t.IsExpanded) : ∀ u ∈ t.terms, u.IsMonomial := by
  obtain ⟨ts, rfl, hm, -⟩ := h
  match ts, hm with
  | [], _ => exact List.forall_mem_singleton.mpr (.number 0)
  | [u], hm =>
    have single := (hm u List.mem_cons_self).1
    rw [ofTerms, single.terms]
    exact List.forall_mem_singleton.mpr single
  | _ :: _ :: _, hm => exact fun u hu => (hm u hu).1

theorem IsExpanded.isJoined (h : t.IsExpanded) : t.IsJoined := by
  obtain ⟨ts, rfl, hm, -⟩ := h
  exact .ofTerms fun u hu => (hm u hu).1.isJoined

theorem IsMonomial.isExpanded (h : t.IsMonomial) : t.IsExpanded := by
  by_cases hz : t = zero
  · exact ⟨[], hz, fun _ h => absurd h List.not_mem_nil, List.nodup_nil⟩
  · exact ⟨[t], rfl, List.forall_mem_singleton.mpr ⟨h, hz⟩, List.nodup_singleton _⟩

theorem nodup_addMultiple {ms : List (ℚ × Term)} (h : (ms.map Prod.snd).Nodup) :
    ((addMultiple c t ms).map Prod.snd).Nodup := by
  induction ms with
  | nil => exact List.nodup_singleton t
  | cons m ms ih =>
    rw [List.map_cons, List.nodup_cons] at h
    rw [addMultiple]
    split
    next => exact List.nodup_cons.mpr h
    next other =>
      refine List.nodup_cons.mpr ⟨fun hm => ?_, ih h.2⟩
      obtain ⟨n, hn, same⟩ := List.mem_map.mp hm
      rcases mem_addMultiple hn with ht | ⟨k, hk, hn⟩
      · exact other (same.symm.trans ht)
      · exact h.1 (List.mem_map.mpr ⟨k, hk, hn.trans same⟩)

theorem nodup_multiples (ts : List Term) : ((multiples ts).map Prod.snd).Nodup := by
  have key : ∀ (ts : List Term) (ms : List (ℚ × Term)), (ms.map Prod.snd).Nodup →
      ((ts.foldl (fun ms t => addMultiple t.coefficient.1 t.coefficient.2 ms) ms).map
        Prod.snd).Nodup := by
    intro ts
    induction ts with
    | nil => exact fun _ h => h
    | cons t ts ih => exact fun ms h => ih _ (nodup_addMultiple h)
  exact key ts [] List.nodup_nil

theorem IsMonomial.exists_coefficient (h : t.IsMonomial) :
    ∃ fs, IsSorted fs ∧ t.coefficient.2 = Term.ofLetters fs := by
  obtain ⟨c, fs, hs, rfl⟩ := h
  by_cases hc : c = 0
  · refine ⟨[], isSorted_nil, ?_⟩
    rw [hc, scaled_zero_left]
    rfl
  · exact ⟨fs, hs, by rw [coefficient_scaled_ofLetters hc hs]⟩

theorem polynomial_scaled_ofLetters (c : ℚ) (fs : List (Char × ℕ)) :
    (scaled c (ofLetters fs)).polynomial = monomial (exponents fs) c := by
  rw [polynomial_scaled, polynomial_ofLetters, C_mul_monomial, mul_one]

theorem scaled_ofLetters_ne_zero (hc : c ≠ 0) (fs : List (Char × ℕ)) :
    scaled c (ofLetters fs) ≠ zero := by
  intro same
  have value := congrArg polynomial same
  rw [polynomial_scaled_ofLetters, polynomial_zero, monomial_eq_zero] at value
  exact hc value

/-- **A sum of monomials is a sum of different monomials.** -/
theorem isExpanded_addAll (h : ∀ t ∈ ts, t.IsJoined) (hm : ∀ t ∈ ts, ∀ u ∈ t.terms, u.IsMonomial) :
    (addAll ts).IsExpanded := by
  have multiple : ∀ m ∈ (multiples (ts.flatMap Term.terms)).filter fun m => m.1 ≠ 0,
      m.1 ≠ 0 ∧ ∃ fs, IsSorted fs ∧ m.2 = ofLetters fs := by
    intro m hm'
    obtain ⟨hm', nonzero⟩ := List.mem_filter.mp hm'
    obtain ⟨u, hu, same⟩ := exists_of_mem_multiples hm'
    obtain ⟨t, ht, hu⟩ := List.mem_flatMap.mp hu
    exact ⟨of_decide_eq_true nonzero, same ▸ (hm t ht u hu).exists_coefficient⟩
  have nodup : (((multiples (ts.flatMap Term.terms)).filter fun m => m.1 ≠ 0).map Prod.snd).Nodup :=
    (nodup_multiples _).sublist (List.filter_sublist.map Prod.snd)
  rw [addAll_eq h, ofMultiples]
  generalize (multiples (ts.flatMap Term.terms)).filter (fun m => m.1 ≠ 0) = ms at multiple nodup
  have perm := orderedTerms_perm (ms.map fun m => scaled m.1 m.2)
  refine ⟨_, rfl, fun u hu => ?_, ?_⟩
  · obtain ⟨m, hm, rfl⟩ := List.mem_map.mp (perm.subset hu)
    obtain ⟨nonzero, fs, hs, same⟩ := multiple m hm
    rw [same]
    exact ⟨⟨m.1, fs, hs, rfl⟩, scaled_ofLetters_ne_zero nonzero fs⟩
  · have rests : (ms.map fun m => scaled m.1 m.2).map (fun u => u.coefficient.2) =
        ms.map Prod.snd := by
      rw [List.map_map]
      refine List.map_congr_left fun m hm => ?_
      obtain ⟨nonzero, fs, hs, same⟩ := multiple m hm
      rw [Function.comp, same, coefficient_scaled_ofLetters nonzero hs]
    rw [(perm.map fun u => u.coefficient.2).nodup_iff, rests]
    exact nodup

/-- **What is multiplied out is zero only as the number zero.** -/
theorem IsExpanded.eq_zero_iff (h : t.IsExpanded) : t = zero ↔ t.polynomial = 0 := by
  refine ⟨fun same => same ▸ polynomial_zero, fun value => ?_⟩
  obtain ⟨ts, rfl, hm, hd⟩ := h
  cases ts with
  | nil => rfl
  | cons u us =>
    exfalso
    obtain ⟨⟨c, fs, hs, rfl⟩, nonzero⟩ := hm u List.mem_cons_self
    have hc : c ≠ 0 := by
      rintro rfl
      exact nonzero (scaled_zero_left _)
    have others : ∀ vs : List Term, (∀ v ∈ vs, v.IsMonomial ∧ v ≠ zero) →
        ofLetters fs ∉ vs.map (fun v => v.coefficient.2) →
        coeff (exponents fs) (vs.map polynomial).sum = 0 := by
      intro vs
      induction vs with
      | nil => exact fun _ _ => coeff_zero _
      | cons v vs ih =>
        intro hv hn
        obtain ⟨⟨d, gs, hg, rfl⟩, nonzero⟩ := hv v List.mem_cons_self
        have hd : d ≠ 0 := by
          rintro rfl
          exact nonzero (scaled_zero_left _)
        rw [List.map_cons, List.mem_cons, not_or, coefficient_scaled_ofLetters hd hg] at hn
        have different : exponents gs ≠ exponents fs := fun same =>
          hn.1 (congrArg ofLetters (exponents_injective hs hg same.symm))
        rw [List.map_cons, List.sum_cons, coeff_add, polynomial_scaled_ofLetters, coeff_monomial,
          if_neg different, zero_add]
        exact ih (fun w hw => hv w (List.mem_cons_of_mem _ hw)) hn.2
    rw [List.map_cons, List.nodup_cons, coefficient_scaled_ofLetters hc hs] at hd
    have first := congrArg (coeff (exponents fs)) value
    rw [polynomial_ofTerms, List.map_cons, List.sum_cons, coeff_add, polynomial_scaled_ofLetters,
      coeff_monomial, if_pos rfl, others us (fun v hv => hm v (List.mem_cons_of_mem _ hv)) hd.1,
      add_zero, coeff_zero] at first
    exact hc first

/-! ## Multiplying out -/

/-- The term is multiplied out and stands for the polynomial. -/
structure Expands (t : Term) (p : MvPolynomial Char ℚ) : Prop where
  expanded : t.IsExpanded
  value : t.polynomial = p

theorem Expands.one : Expands one 1 := ⟨(IsMonomial.number 1).isExpanded, polynomial_one⟩

theorem sum_map_mul_terms (ss ts : List Term) (hs : ∀ a ∈ ss, a.IsMonomial)
    (ht : ∀ b ∈ ts, b.IsMonomial) :
    ((ss.flatMap fun a => ts.map fun b => mul a b).map polynomial).sum =
      (ss.map polynomial).sum * (ts.map polynomial).sum := by
  induction ss with
  | nil => exact (zero_mul _).symm
  | cons a ss ih =>
    have head : ((ts.map fun b => mul a b).map polynomial).sum =
        a.polynomial * (ts.map polynomial).sum := by
      rw [List.map_map, ← List.sum_map_mul_left]
      refine congrArg List.sum (List.map_congr_left fun b hb => ?_)
      exact polynomial_mul (hs a List.mem_cons_self).isJoined (ht b hb).isJoined
    rw [List.flatMap_cons, List.map_append, List.sum_append, head,
      ih fun b hb => hs b (List.mem_cons_of_mem a hb), List.map_cons, List.sum_cons, add_mul]

theorem Expands.distribute (hs : Expands s p) (ht : Expands t q) :
    Expands (distribute s t) (p * q) := by
  have monomial : ∀ u ∈ s.terms.flatMap fun a => t.terms.map fun b => Term.mul a b,
      u.IsMonomial := by
    intro u hu
    obtain ⟨a, ha, hu⟩ := List.mem_flatMap.mp hu
    obtain ⟨b, hb, rfl⟩ := List.mem_map.mp hu
    exact (hs.expanded.terms a ha).mul (ht.expanded.terms b hb)
  refine ⟨isExpanded_addAll (fun u hu => (monomial u hu).isJoined) fun u hu v hv => ?_, ?_⟩
  · rw [(monomial u hu).terms] at hv
    exact List.mem_singleton.mp hv ▸ monomial u hu
  · rw [Term.distribute, polynomial_addAll fun u hu => (monomial u hu).isJoined,
      sum_map_mul_terms _ _ hs.expanded.terms ht.expanded.terms, polynomial_terms, polynomial_terms,
      hs.value, ht.value]

theorem Expands.expandPower (hs : Expands s p) : ∀ n : ℕ, Expands (expandPower s n) (p ^ n)
  | 0 => (Monoid.npow_zero p).symm ▸ .one
  | 1 => (pow_one p).symm ▸ hs
  | n + 2 => (pow_succ p (n + 1)).symm ▸ (hs.expandPower (n + 1)).distribute hs

theorem expandPolynomials_eq (ts : List Term) :
    expandPolynomials ts = ts.map expandPolynomial := by
  induction ts with
  | nil => rfl
  | cons t ts ih => rw [expandPolynomials, ih, List.map_cons]

theorem Expands.expandPolynomial (h : t.IsJoined) :
    Expands (expandPolynomial t) t.polynomial := by
  induction h with
  | number q => exact ⟨(IsMonomial.number q).isExpanded, rfl⟩
  | letter c =>
    have letter : symbol ⟨[c], .complex⟩ = Term.letterPower (c, 1) := rfl
    exact ⟨(letter ▸ IsMonomial.letterPower (c, 1)).isExpanded, rfl⟩
  | @sum ts _ ih =>
    have each : ∀ u ∈ ts.map Term.expandPolynomial, u.IsExpanded := by
      intro u hu
      obtain ⟨t, ht, rfl⟩ := List.mem_map.mp hu
      exact (ih t ht).expanded
    rw [Term.expandPolynomial, expandPolynomials_eq]
    refine ⟨isExpanded_addAll (fun u hu => (each u hu).isJoined) fun u hu => (each u hu).terms, ?_⟩
    rw [polynomial_addAll fun u hu => (each u hu).isJoined, List.map_map, polynomial_sum]
    exact congrArg List.sum (List.map_congr_left fun t ht => (ih t ht).value)
  | @power b n hb hj ih =>
    rw [polynomial_power]
    unfold Term.expandPolynomial
    split
    next us q sum same =>
      obtain rfl := Term.number.inj same
      rw [Rat.num_natCast, Int.toNat_natCast, ← sum]
      exact ih.expandPower n
    next other =>
      -- What is multiplied out and no sum is a monomial.
      have monomial : (Term.expandPolynomial b).IsMonomial := by
        refine ih.expanded.terms _ ?_
        cases he : Term.expandPolynomial b with
        | sum us => exact absurd rfl (other us n he)
        | _ => exact List.mem_singleton.mpr rfl
      refine ⟨(monomial.pow n).isExpanded, ?_⟩
      rw [polynomial_pow n monomial.isJoined, ih.value]
  | @product ts _ _ ih =>
    have main : ∀ (us : List Term) (s : Term) (p : MvPolynomial Char ℚ), Expands s p →
        (∀ u ∈ us, Expands (Term.expandPolynomial u) u.polynomial) →
        Expands ((us.map Term.expandPolynomial).foldl Term.distribute s)
          (p * (us.map polynomial).prod) := by
      intro us
      induction us with
      | nil => exact fun s p hs _ => (mul_one p).symm ▸ hs
      | cons u us ih =>
        intro s p hs hu
        rw [List.map_cons, List.foldl_cons, List.map_cons, List.prod_cons, ← mul_assoc]
        exact ih _ _ (hs.distribute (hu u List.mem_cons_self))
          fun v hv => hu v (List.mem_cons_of_mem u hv)
    have product := main ts Term.one 1 .one ih
    rw [one_mul, ← polynomial_product, ← expandPolynomials_eq] at product
    rwa [Term.expandPolynomial]

theorem IsJoined.isPolynomial (h : t.IsJoined) : t.isPolynomial = true := by
  have all {ts : List Term} (h : ∀ t ∈ ts, t.isPolynomial = true) : arePolynomials ts = true := by
    induction ts with
    | nil => rfl
    | cons t ts ih =>
      rw [arePolynomials, h t List.mem_cons_self, ih fun u hu => h u (List.mem_cons_of_mem t hu)]
      rfl
  induction h with
  | number q => rfl
  | letter c => rfl
  | sum _ ih => exact all ih
  | power n _ _ ih => simp [Term.isPolynomial, ih]
  | product _ _ ih => exact all ih

/-- **The term of a polynomial is multiplied out by `expand`**, which keeps its polynomial. -/
theorem expand_of_isJoined (h : t.IsJoined) : Expands (expand t) t.polynomial := by
  rw [expand, if_pos h.isPolynomial]
  exact .expandPolynomial h

end Term

end Stepwise
