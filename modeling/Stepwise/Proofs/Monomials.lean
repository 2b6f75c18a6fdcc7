import Stepwise.Proofs.JoinedProducts

/-!
# Monomials

A monomial is a number times powers of different letters. These are sorted by their letters, so that
monomials with equal exponents and equal numbers are equal terms. What the joinings make of monomials
is a monomial again, as far as they multiply and take natural powers.

Results: `pairwise_sortBy`, sorting by keys; `exponents_injective`, sorted powers of letters are told
apart by their exponents; `IsMonomial.mul` and `IsMonomial.pow`.
-/

namespace Stepwise

open MvPolynomial
open Finsupp (single)

/-! ## Sorting by keys -/

section Sorting

variable {α : Type} {compare : α → α → Ordering} {key : α → ℕ} {x : α} {xs ys : List α}

theorem pairwise_insertSorted
    (hc : ∀ y ∈ ys, compare x y = Ord.compare (key x) (key y)) (hx : ∀ y ∈ ys, key x ≠ key y)
    (h : ys.Pairwise (key · < key ·)) : (insertSorted compare x ys).Pairwise (key · < key ·) := by
  induction ys with
  | nil => exact List.pairwise_singleton _ _
  | cons y ys ih =>
    obtain ⟨hy, hys⟩ := List.pairwise_cons.mp h
    rw [insertSorted, hc y List.mem_cons_self]
    split
    next less =>
      have less : key x < key y := Nat.compare_eq_lt.mp less
      refine List.pairwise_cons.mpr ⟨fun z hz => ?_, h⟩
      rcases List.mem_cons.mp hz with rfl | hz
      · exact less
      · exact less.trans (hy z hz)
    next notLess =>
      have greater : key y < key x := by
        have least := mt Nat.compare_eq_lt.mpr notLess
        have other := hx y List.mem_cons_self
        omega
      refine List.pairwise_cons.mpr ⟨fun z hz => ?_, ih
        (fun z hz => hc z (List.mem_cons_of_mem y hz))
        (fun z hz => hx z (List.mem_cons_of_mem y hz)) hys⟩
      rcases List.mem_cons.mp ((insertSorted_perm compare x ys).subset hz) with rfl | hz
      · exact greater
      · exact hy z hz

/-- Elements with different keys that are compared by these are sorted by them. -/
theorem pairwise_sortBy (hc : ∀ a ∈ xs, ∀ b ∈ xs, key a ≠ key b →
      compare a b = Ord.compare (key a) (key b)) (h : (xs.map key).Nodup) :
    (sortBy compare xs).Pairwise (key · < key ·) := by
  have main : ∀ (xs sorted : List α), (∀ a ∈ xs, ∀ b ∈ xs ++ sorted, key a ≠ key b →
      compare a b = Ord.compare (key a) (key b)) → ((xs ++ sorted).map key).Nodup →
      sorted.Pairwise (key · < key ·) →
      (xs.foldl (fun sorted x => insertSorted compare x sorted) sorted).Pairwise (key · < key ·) := by
    intro xs
    induction xs with
    | nil => exact fun _ _ _ h => h
    | cons x xs ih =>
      intro sorted hc hn h
      have perm : (xs ++ insertSorted compare x sorted).Perm (x :: xs ++ sorted) :=
        ((insertSorted_perm compare x sorted).append_left xs).trans List.perm_middle
      have apart : ∀ y ∈ sorted, key x ≠ key y := fun y hy same =>
        (List.nodup_cons.mp hn).1 (same ▸ List.mem_map_of_mem (List.mem_append_right xs hy))
      refine ih _ (fun a ha b hb => hc a (List.mem_cons_of_mem x ha) b (perm.subset hb))
        ((perm.map key).nodup_iff.mpr hn) (pairwise_insertSorted (fun y hy => ?_) apart h)
      exact hc x List.mem_cons_self y (List.mem_append_right (x :: xs) hy) (apart y hy)
  refine main xs [] (fun a ha b hb => hc a ha b ?_) ?_ List.Pairwise.nil
  · rwa [List.append_nil] at hb
  · rwa [List.append_nil]

end Sorting

namespace Term

variable {t : Term} {ts us : List Term} {fs gs : List (Char × ℕ)} {c : ℚ}

/-! ## Monomials -/

/-- A power of a letter. -/
def letterPower (f : Char × ℕ) : Term := natPower (symbol ⟨[f.1], .complex⟩, f.2)

/-- Are these powers of different letters, in order? -/
structure IsSorted (fs : List (Char × ℕ)) : Prop where
  order : fs.Pairwise (·.1.toNat < ·.1.toNat)
  positive : ∀ f ∈ fs, f.2 ≠ 0

/-- The product of powers of letters. -/
def ofLetters (fs : List (Char × ℕ)) : Term := ofFactors (fs.map letterPower)

/-- The exponents of the letters. -/
noncomputable def exponents (fs : List (Char × ℕ)) : Char →₀ ℕ :=
  (fs.map fun f => single f.1 f.2).sum

theorem letterPower_cases {f : Char × ℕ} (h : f.2 ≠ 0) :
    letterPower f = symbol ⟨[f.1], .complex⟩ ∨
      letterPower f = power (symbol ⟨[f.1], .complex⟩) (number f.2) := by
  unfold letterPower natPower
  rw [if_neg h]
  split
  · exact .inl rfl
  · exact .inr rfl

theorem polynomial_letterPower (f : Char × ℕ) :
    (letterPower f).polynomial = monomial (single f.1 f.2) 1 := by
  rw [letterPower, polynomial_natPower, polynomial_symbol, X_pow_eq_monomial]

theorem polynomial_ofLetters (fs : List (Char × ℕ)) :
    (ofLetters fs).polynomial = monomial (exponents fs) 1 := by
  rw [ofLetters, polynomial_ofFactors]
  induction fs with
  | nil => rfl
  | cons f fs ih =>
    rw [List.map_cons, List.map_cons, List.prod_cons, ih, polynomial_letterPower, monomial_mul,
      mul_one, exponents, exponents, List.map_cons, List.sum_cons]

theorem exponents_apply_of_lt {c : Char} (h : ∀ f ∈ fs, c.toNat < f.1.toNat) :
    exponents fs c = 0 := by
  induction fs with
  | nil => rfl
  | cons f fs ih =>
    have other : f.1 ≠ c := fun same => Nat.lt_irrefl _ (same ▸ h f List.mem_cons_self)
    have rest : exponents fs c = 0 := ih fun g hg => h g (List.mem_cons_of_mem f hg)
    rw [exponents, List.map_cons, List.sum_cons, Finsupp.add_apply, Finsupp.single_eq_of_ne other.symm,
      zero_add]
    exact rest

theorem IsSorted.tail {f : Char × ℕ} (h : IsSorted (f :: fs)) : IsSorted fs :=
  ⟨(List.pairwise_cons.mp h.order).2, fun g hg => h.positive g (List.mem_cons_of_mem f hg)⟩

theorem exponents_cons_self {f : Char × ℕ} (h : IsSorted (f :: fs)) :
    exponents (f :: fs) f.1 = f.2 := by
  have rest := exponents_apply_of_lt (List.pairwise_cons.mp h.order).1
  rw [exponents] at rest ⊢
  rw [List.map_cons, List.sum_cons, Finsupp.add_apply, Finsupp.single_eq_same, rest, add_zero]

/-- **Sorted powers of letters are told apart by their exponents.** -/
theorem exponents_injective : ∀ {fs gs : List (Char × ℕ)}, IsSorted fs → IsSorted gs →
    exponents fs = exponents gs → fs = gs
  | [], [], _, _, _ => rfl
  | [], g :: gs, _, hg, h => by
    have zero := exponents_cons_self hg
    rw [← h] at zero
    exact absurd zero.symm (hg.positive g List.mem_cons_self)
  | f :: fs, [], hf, _, h => by
    have zero := exponents_cons_self hf
    rw [h] at zero
    exact absurd zero.symm (hf.positive f List.mem_cons_self)
  | f :: fs, g :: gs, hf, hg, h => by
    have hff := exponents_cons_self hf
    have hgg := exponents_cons_self hg
    -- A letter before the first one of the other list would have no exponent there.
    have first {f g : Char × ℕ} {fs gs : List (Char × ℕ)} (hf : IsSorted (f :: fs))
        (hg : IsSorted (g :: gs)) (h : exponents (f :: fs) = exponents (g :: gs)) :
        ¬f.1.toNat < g.1.toNat := by
      intro less
      have none : exponents (g :: gs) f.1 = 0 := exponents_apply_of_lt <|
        List.forall_mem_cons.mpr ⟨less, fun k hk =>
          less.trans ((List.pairwise_cons.mp hg.order).1 k hk)⟩
      rw [← h, exponents_cons_self hf] at none
      exact hf.positive f List.mem_cons_self none
    have letter : f.1 = g.1 := Char.toNat_inj.mp <|
      Nat.le_antisymm (Nat.not_lt.mp (first hg hf h.symm)) (Nat.not_lt.mp (first hf hg h))
    have same : f = g := by
      refine Prod.ext letter ?_
      rw [← hff, ← hgg, h, letter]
    subst same
    have rest : exponents fs = exponents gs := by
      rw [exponents, List.map_cons, List.sum_cons, exponents, List.map_cons, List.sum_cons] at h
      exact add_left_cancel h
    rw [exponents_injective hf.tail hg.tail rest]

/-! ### Monomial terms -/

theorem scaled_zero_left (t : Term) : scaled 0 t = zero := by
  unfold scaled
  exact if_pos rfl

theorem scaled_one_left (t : Term) : scaled 1 t = t := by
  unfold scaled
  rw [if_neg one_ne_zero]
  exact if_pos rfl

/-- The term is a number times powers of different letters. -/
def IsMonomial (t : Term) : Prop := ∃ c fs, IsSorted fs ∧ t = scaled c (ofLetters fs)

theorem isSorted_nil : IsSorted [] := ⟨List.Pairwise.nil, fun _ h => absurd h List.not_mem_nil⟩

theorem IsMonomial.number (q : ℚ) : IsMonomial (number q) :=
  ⟨q, [], isSorted_nil, (scaled_one q).symm⟩

theorem IsMonomial.ofLetters (h : IsSorted fs) : IsMonomial (ofLetters fs) :=
  ⟨1, fs, h, (scaled_one_left _).symm⟩

theorem IsMonomial.letterPower (f : Char × ℕ) : IsMonomial (letterPower f) := by
  by_cases h : f.2 = 0
  · rw [Term.letterPower, natPower, if_pos h]
    exact .number 1
  · have sorted : IsSorted [f] :=
      ⟨List.pairwise_singleton _ _, List.forall_mem_singleton.mpr h⟩
    exact .ofLetters sorted

/-- The factors of a monomial, its number included if that is not 1. -/
theorem scaled_ofLetters (hc : c ≠ 0) (h : IsSorted fs) :
    scaled c (ofLetters fs) =
      ofFactors ((if c = 1 then [] else [number c]) ++ fs.map letterPower) := by
  by_cases h1 : c = 1
  · rw [if_pos h1, h1, scaled_one_left]
    rfl
  unfold scaled
  rw [if_neg hc, if_neg h1, if_neg h1]
  match fs, h with
  | [], _ => exact congrArg Term.number (mul_one c)
  | [f], h =>
    rcases letterPower_cases (h.positive f List.mem_cons_self) with same | same
    · rw [ofLetters, List.map_singleton, same]
      rfl
    · rw [ofLetters, List.map_singleton, same]
      rfl
  | _ :: _ :: _, _ => rfl

theorem coefficient_scaled_ofLetters (hc : c ≠ 0) (h : IsSorted fs) :
    (scaled c (ofLetters fs)).coefficient = (c, ofLetters fs) := by
  rw [scaled_ofLetters hc h]
  by_cases h1 : c = 1
  · rw [if_pos h1, h1]
    match fs, h with
    | [], _ => rfl
    | [f], h =>
      rcases letterPower_cases (h.positive f List.mem_cons_self) with same | same
      · rw [ofLetters, List.nil_append, List.map_singleton, same]
        rfl
      · rw [ofLetters, List.nil_append, List.map_singleton, same]
        rfl
    | f :: g :: fs, h =>
      rcases letterPower_cases (h.positive f List.mem_cons_self) with same | same
      · rw [ofLetters, List.nil_append, List.map_cons, same]
        rfl
      · rw [ofLetters, List.nil_append, List.map_cons, same]
        rfl
  · rw [if_neg h1]
    match fs, h with
    | [], _ => rfl
    | [f], _ => rfl
    | _ :: _ :: _, _ => rfl

theorem IsMonomial.terms (h : t.IsMonomial) : t.terms = [t] := by
  obtain ⟨c, fs, hs, rfl⟩ := h
  by_cases hc : c = 0
  · rw [hc, scaled_zero_left]
    rfl
  · rw [scaled_ofLetters hc hs]
    by_cases h1 : c = 1
    · rw [if_pos h1]
      match fs, hs with
      | [], _ => rfl
      | [f], h =>
        rcases letterPower_cases (h.positive f List.mem_cons_self) with same | same
        · rw [List.nil_append, List.map_singleton, same]
          rfl
        · rw [List.nil_append, List.map_singleton, same]
          rfl
      | _ :: _ :: _, _ => rfl
    · rw [if_neg h1]
      match fs with
      | [] => rfl
      | _ :: _ => rfl

theorem isJoined_letterPower (f : Char × ℕ) :
    (letterPower f).IsJoined ∧ (letterPower f).isProduct = false :=
  IsJoined.natPower rfl (.letter f.1)

theorem IsMonomial.isJoined (h : t.IsMonomial) : t.IsJoined := by
  obtain ⟨c, fs, -, rfl⟩ := h
  refine IsJoined.scaled c (IsJoined.ofFactors fun u hu => ?_)
  obtain ⟨f, -, rfl⟩ := List.mem_map.mp hu
  exact isJoined_letterPower f

/-! ### Products of monomials -/

/-- Are the factors of a term numbers and powers of letters? -/
def IsLettered (t : Term) : Prop :=
  ∀ u ∈ t.factors, (∃ q, u = .number q) ∨ ∃ f, f.2 ≠ 0 ∧ u = letterPower f

theorem IsMonomial.isLettered (h : t.IsMonomial) : t.IsLettered := by
  obtain ⟨c, fs, hs, rfl⟩ := h
  intro u hu
  by_cases hc : c = 0
  · rw [hc, scaled_zero_left] at hu
    exact .inl ⟨0, List.mem_singleton.mp hu⟩
  rw [scaled_ofLetters hc hs] at hu
  have all : ∀ v ∈ (if c = 1 then [] else [Term.number c]) ++ fs.map Term.letterPower,
      (∃ q, v = .number q) ∨ ∃ f, f.2 ≠ 0 ∧ v = Term.letterPower f := by
    intro v hv
    rcases List.mem_append.mp hv with hv | hv
    · by_cases h1 : c = 1
      · rw [if_pos h1] at hv
        exact absurd hv List.not_mem_nil
      · rw [if_neg h1] at hv
        exact .inl ⟨c, List.mem_singleton.mp hv⟩
    · obtain ⟨f, hf, rfl⟩ := List.mem_map.mp hv
      exact .inr ⟨f, hs.positive f hf, rfl⟩
  generalize (if c = 1 then [] else [Term.number c]) ++ fs.map Term.letterPower = vs at hu all
  match vs, hu, all with
  | [], hu, _ => exact .inl ⟨1, List.mem_singleton.mp hu⟩
  | [v], hu, all =>
    have hv := all v List.mem_cons_self
    have single : v.factors = [v] := by
      rcases hv with ⟨q, rfl⟩ | ⟨f, hf, rfl⟩
      · rfl
      · rcases letterPower_cases hf with same | same
        · rw [same]
          rfl
        · rw [same]
          rfl
    rw [ofFactors, single] at hu
    exact List.mem_singleton.mp hu ▸ hv
  | _ :: _ :: _, hu, all => exact all u hu

theorem insertSorted_map {α β : Type} (compare : β → β → Ordering) (f : α → β) (x : α)
    (ys : List α) : insertSorted compare (f x) (ys.map f) =
      (insertSorted (fun a b => compare (f a) (f b)) x ys).map f := by
  induction ys with
  | nil => rfl
  | cons y ys ih =>
    rw [List.map_cons, insertSorted, insertSorted, ih]
    split <;> rfl

theorem sortBy_map {α β : Type} (compare : β → β → Ordering) (f : α → β) (xs : List α) :
    sortBy compare (xs.map f) = (sortBy (fun a b => compare (f a) (f b)) xs).map f := by
  have main : ∀ xs sorted : List α,
      (xs.map f).foldl (fun sorted x => insertSorted compare x sorted) (sorted.map f) =
        (xs.foldl (fun sorted x => insertSorted (fun a b => compare (f a) (f b)) x sorted)
          sorted).map f := by
    intro xs
    induction xs with
    | nil => exact fun _ => rfl
    | cons x xs ih =>
      intro sorted
      rw [List.map_cons, List.foldl_cons, insertSorted_map, ih, List.foldl_cons]
  exact main xs []

theorem rank_letterPower {f : Char × ℕ} (h : f.2 ≠ 0) :
    ∃ x, (letterPower f).rank = .node 2 0 "Symbol".toList (some [f.1]) [] x 1 := by
  rcases letterPower_cases h with same | same
  · exact ⟨.one, by rw [same]; rfl⟩
  · exact ⟨.number 0 f.2, by rw [same]; rfl⟩

/-- Powers of different letters are ordered by the letters. -/
theorem compare_rank_letterPower {f g : Char × ℕ} (hf : f.2 ≠ 0) (hg : g.2 ≠ 0)
    (h : f.1.toNat ≠ g.1.toNat) : Rank.compare (letterPower f).rank (letterPower g).rank =
      Ord.compare f.1.toNat g.1.toNat := by
  obtain ⟨x, hx⟩ := rank_letterPower hf
  obtain ⟨y, hy⟩ := rank_letterPower hg
  have kind : Text.compare "Symbol".toList "Symbol".toList = .eq := Text.compare_self _
  have less : Ord.compare f.1.toNat g.1.toNat ≠ .eq := fun same => h (Nat.compare_eq_eq.mp same)
  rw [hx, hy, Rank.compare, Rank.compareClass, kind]
  simp only [Rank.width, Rank.compareLabel, Text.compare, Option.isSome_some, if_true]
  cases hc : Ord.compare f.1.toNat g.1.toNat with
  | eq => exact absurd hc less
  | lt => rfl
  | gt => rfl

theorem exists_orderedFactors (hn : (gs.map Prod.fst).Nodup) (hp : ∀ g ∈ gs, g.2 ≠ 0) :
    ∃ fs, IsSorted fs ∧ orderedFactors (gs.map letterPower) = fs.map letterPower := by
  let compare := fun f g : Char × ℕ => Rank.compare (letterPower f).rank (letterPower g).rank
  have perm := sortBy_perm compare gs
  have keys : (gs.map fun g => g.1.toNat).Nodup := by
    have map := hn.map fun _ _ => Char.toNat_inj.mp
    rwa [List.map_map] at map
  refine ⟨sortBy compare gs, ⟨pairwise_sortBy (fun a ha b hb => ?_) keys,
    fun f hf => hp f (perm.subset hf)⟩, ?_⟩
  · exact compare_rank_letterPower (hp a ha) (hp b hb)
  · rw [orderedFactors, List.map_map, sortBy_map, List.map_map]
    rfl

theorem isMonomial_assemble (c : ℚ) (hn : (gs.map Prod.fst).Nodup) (hp : ∀ g ∈ gs, g.2 ≠ 0) :
    (assemble c [] (gs.map letterPower)).IsMonomial := by
  by_cases hc : c = 0
  · rw [hc, assemble_zero]
    exact .number 0
  have noSum : ∀ ts, gs.map letterPower ≠ [sum ts] := by
    intro ts h
    obtain ⟨g, hg, same⟩ := List.mem_map.mp (h ▸ List.mem_cons_self : sum ts ∈ gs.map letterPower)
    rcases letterPower_cases (hp g hg) with letter | power
    · exact absurd (letter.symm.trans same) (by simp)
    · exact absurd (power.symm.trans same) (by simp)
  obtain ⟨fs, hs, ordered⟩ := exists_orderedFactors hn hp
  rw [assemble_factors hc noSum, ordered]
  exact ⟨c, fs, hs, (scaled_ofLetters hc hs).symm⟩

/-- **A product of monomials is a monomial.** -/
theorem isMonomial_joining_mul (d : ℕ) (h : ∀ t ∈ ts, t.IsJoined ∧ t.IsLettered) :
    ((Joining.ofDepth (d + 1)).mul ts).IsMonomial := by
  let letter : Char × ℕ → Term × ℕ := fun g => (symbol ⟨[g.1], .complex⟩, g.2)
  have letters : ∀ p ∈ gathered (ts.flatMap factors), p ∈ Set.range letter := by
    rintro ⟨b, n⟩ hp
    obtain ⟨u, hu, m, hbase⟩ := exists_of_mem_gathered hp
    obtain ⟨t, ht, hu⟩ := List.mem_flatMap.mp hu
    rcases (h t ht).2 u hu with ⟨q, rfl⟩ | ⟨f, hf, rfl⟩
    · exact absurd hbase (by simp [basePower?])
    · rcases letterPower_cases hf with same | same
      · rw [same, basePower?_of_isBase rfl] at hbase
        exact ⟨(f.1, n), Prod.ext (Prod.mk.inj (Option.some.inj hbase)).1 rfl⟩
      · rw [same, basePower?_power] at hbase
        exact ⟨(f.1, n), Prod.ext (Prod.mk.inj (Option.some.inj hbase)).1 rfl⟩
  obtain ⟨ps, hps⟩ : gathered (ts.flatMap factors) ∈ Set.range (List.map letter) := by
    rw [Set.range_list_map]
    exact letters
  have nodup : (ps.map Prod.fst).Nodup := by
    have nodup := nodup_gathered (ts.flatMap factors)
    rw [← hps, List.map_map] at nodup
    exact List.Nodup.of_map (fun c : Char => symbol ⟨[c], .complex⟩) (by rwa [List.map_map])
  rw [product_eq d fun t ht => (h t ht).1, ofPowers, ← hps, List.filter_map, List.map_map]
  refine isMonomial_assemble _ (nodup.sublist ((List.filter_sublist (l := ps)).map Prod.fst)) ?_
  exact fun g hg => of_decide_eq_true (List.mem_filter.mp hg).2

theorem IsMonomial.mul {s : Term} (hs : s.IsMonomial) (ht : t.IsMonomial) : (mul s t).IsMonomial :=
  isMonomial_joining_mul 199 <| List.forall_mem_cons.mpr
    ⟨⟨hs.isJoined, hs.isLettered⟩, List.forall_mem_singleton.mpr ⟨ht.isJoined, ht.isLettered⟩⟩

/-- **A natural power of a monomial is a monomial.** -/
theorem IsMonomial.pow (n : ℕ) (h : t.IsMonomial) : (pow t (.number n)).IsMonomial := by
  by_cases h0 : n = 0
  · rw [h0, Nat.cast_zero]
    rw [show Term.pow t (.number 0) = one from pow_zero t]
    exact .number 1
  by_cases h1 : n = 1
  · rw [h1, Nat.cast_one]
    rwa [show Term.pow t (.number 1) = t from Joining.pow_one 199 t]
  have two : 2 ≤ n := by omega
  have factor (d : ℕ) {u : Term}
      (h : (∃ q, u = .number q) ∨ ∃ f, f.2 ≠ 0 ∧ u = Term.letterPower f) :
      ((Joining.ofDepth (d + 3)).pow u (.number n)).IsMonomial := by
    rcases h with ⟨q, rfl⟩ | ⟨f, hf, rfl⟩
    · rw [joining_pow_number]
      exact .number _
    · rcases letterPower_cases hf with same | same
      · rw [same, joining_pow_base _ _ rfl (.letter f.1)]
        exact .letterPower (f.1, n)
      · rw [same, joining_pow_power d f.2 rfl (.letter f.1) two]
        exact .letterPower (f.1, f.2 * n)
  have lettered := h.isLettered
  cases t with
  | product ts =>
    rw [Term.pow, joining, depth, joining_pow_product 199 ts two]
    refine isMonomial_joining_mul 198 fun u hu => ?_
    obtain ⟨v, hv, rfl⟩ := List.mem_map.mp hu
    have power := factor 196 (lettered v hv)
    exact ⟨power.isJoined, power.isLettered⟩
  | _ => exact factor 197 (lettered _ List.mem_cons_self)

end Term

end Stepwise
