import Stepwise.Proofs.JoinedSums

/-!
# Products and powers of polynomial terms

A product multiplies the numbers among its factors and gathers powers of equal bases. With the terms
of polynomials that is all: nothing has to be joined a second time (`product_eq`). Natural powers of
numbers are taken at once, those of bases stay, and those of other terms lead back to these.

Results: `polynomial_mulAll` and `polynomial_pow`, products and natural powers of terms stand for
those of their polynomials; `Formula.IsPolynomial.exists_value?`, a formula that writes a polynomial
has a term that stands for it.
-/

namespace Stepwise

open MvPolynomial

/-! ## Products of numbers -/

theorem Surd.mul_ofRats (qs : List ℚ) : mul (qs.map ofRat) = ofRat qs.prod := by
  have product : ∀ (qs : List ℚ) (c : ℚ),
      ((qs.map ofRat).map Surd.coefficient).foldl (· * ·) c = c * qs.prod := by
    intro qs
    induction qs with
    | nil => exact fun c => (mul_one c).symm
    | cons q qs ih => exact fun c => (ih (c * q)).trans (by rw [List.prod_cons, mul_assoc])
  have turns : ∀ qs : List ℚ, ((qs.map ofRat).map Surd.turn).foldl (· + ·) 0 = 0 := by
    intro qs
    induction qs with
    | nil => rfl
    | cons q qs ih =>
      rw [List.map_cons, List.map_cons, List.foldl_cons, ofRat, add_zero]
      exact ih
  have radicals : (qs.map ofRat).flatMap Surd.radicals = [] := by
    induction qs with
    | nil => rfl
    | cons q qs ih => exact ih
  have bare : separate (2 ^ (0 + 4)) [] = ([], 1) := rfl
  have floor : (0 : ℚ).floor = 0 := rfl
  simp only [mul, depth, mulAll, product, turns, radicals, List.foldl_nil, List.map_nil,
    List.flatMap_nil, List.length_nil, bare, floor, ofRat, Int.zero_emod, if_true, one_mul, mul_one,
    Int.cast_zero, sub_self]

namespace Term

variable {s t b : Term} {ts us : List Term} {c : ℚ}

/-! ## Products -/

/-- The natural power of a base. -/
def natPower (p : Term × ℕ) : Term :=
  if p.2 = 0 then one else if p.2 = 1 then p.1 else power p.1 (number p.2)

/-- A factor that is no number, as a power. -/
def basePower? : Term → Option (Term × ℕ)
  | number _ => none
  | power b (number q) => some (b, q.num.toNat)
  | t => some (t, 1)

/-- Multiplies powers of different bases by another one. -/
def gatherPower (p : Term × ℕ) : List (Term × ℕ) → List (Term × ℕ)
  | [] => [p]
  | q :: qs => if q.1 = p.1 then (q.1, q.2 + p.2) :: qs else q :: gatherPower p qs

/-- The powers of different bases that factors come to. -/
def gathered (us : List Term) : List (Term × ℕ) :=
  (us.filterMap basePower?).foldl (fun ps p => gatherPower p ps) []

/-- The numbers among factors. -/
def numbers (us : List Term) : List ℚ := us.filterMap number?

/-- The product of numbers and powers of different bases. -/
def ofPowers (c : ℚ) (ps : List (Term × ℕ)) : Term :=
  assemble c [] ((ps.filter fun p => p.2 ≠ 0).map natPower)

/-- A power as the joinings gather it. -/
def toGathered (p : Term × ℕ) : Gathered := ⟨p.1, p.2, one⟩

/-- Numbers and powers as the joinings take them in. -/
def toFactored (qs : List ℚ) (ps : List (Term × ℕ)) : Factored :=
  ⟨qs.map Surd.ofRat, [], false, [], ps.map toGathered⟩

theorem gather_toGathered (p : Term × ℕ) (ps : List (Term × ℕ)) :
    gather (toGathered p) (ps.map toGathered) = (gatherPower p ps).map toGathered := by
  induction ps with
  | nil => rfl
  | cons q qs ih =>
    rw [List.map_cons, gather, gatherPower]
    by_cases same : q.1 = p.1
    · rw [if_pos ⟨same, rfl⟩, if_pos same, List.map_cons]
      simp only [toGathered, Nat.cast_add]
    · rw [if_neg fun h => same h.1, if_neg same, ih, List.map_cons]

theorem baseExponent_of_isBase (h : b.isBase = true) : b.baseExponent = (b, one) := by
  cases b with
  | symbol => rfl
  | sum => rfl
  | _ => exact absurd h Bool.false_ne_true

theorem baseExponent_power (h : b.isBase = true) (x : Term) : (power b x).baseExponent = (b, x) := by
  cases b with
  | symbol => rfl
  | sum => rfl
  | _ => exact absurd h Bool.false_ne_true

theorem insert_base (h : b.isBase = true) (qs : List ℚ) (ps : List (Term × ℕ)) :
    (toFactored qs ps).insert b = toFactored qs (gatherPower (b, 1) ps) := by
  have insert : (toFactored qs ps).insert b =
      { toFactored qs ps with powers := gather ⟨b, 1, one⟩ (ps.map toGathered) } := by
    cases b with
    | symbol => rfl
    | sum => rfl
    | _ => exact absurd h Bool.false_ne_true
  have power : toGathered (b, 1) = ⟨b, 1, one⟩ := by rw [toGathered, Nat.cast_one]
  rw [insert, ← power, gather_toGathered]
  rfl

theorem insert_power (h : b.isBase = true) (n : ℕ) (qs : List ℚ) (ps : List (Term × ℕ)) :
    (toFactored qs ps).insert (power b (number n)) = toFactored qs (gatherPower (b, n) ps) := by
  have insert : (toFactored qs ps).insert (power b (number n)) =
      { toFactored qs ps with powers := gather (toGathered (b, n)) (ps.map toGathered) } := by
    cases b with
    | symbol => rfl
    | sum => rfl
    | _ => exact absurd h Bool.false_ne_true
  rw [insert, gather_toGathered]
  rfl

/-- A factor of a joined product is a number, a base or a power of one. -/
theorem IsJoined.factor_cases (h : t.IsJoined) (flat : t.isProduct = false) :
    (∃ q, t = .number q) ∨ (t.isBase = true) ∨
      ∃ (b : Term) (n : ℕ), b.isBase = true ∧ b.IsJoined ∧ t = .power b (.number n) := by
  cases h with
  | number q => exact .inl ⟨q, rfl⟩
  | letter c => exact .inr (.inl rfl)
  | sum h => exact .inr (.inl rfl)
  | @power b n hb h => exact .inr (.inr ⟨b, n, hb, h, rfl⟩)
  | product => exact absurd flat (by simp [isProduct])

theorem number?_of_isBase (h : b.isBase = true) : b.number? = none := by
  cases b with
  | number => exact absurd h Bool.false_ne_true
  | _ => rfl

theorem basePower?_of_isBase (h : b.isBase = true) : basePower? b = some (b, 1) := by
  cases b with
  | symbol => rfl
  | sum => rfl
  | _ => exact absurd h Bool.false_ne_true

theorem basePower?_power (b : Term) (n : ℕ) : basePower? (power b (number n)) = some (b, n) := by
  rw [basePower?, Rat.num_natCast, Int.toNat_natCast]

/-- **The factors of a product are taken in as numbers and as powers of different bases.** -/
theorem foldl_insert (h : ∀ u ∈ us, u.IsJoined ∧ u.isProduct = false) :
    us.foldl Factored.insert .empty = toFactored (numbers us).reverse (gathered us) := by
  have key : ∀ (us : List Term) (qs : List ℚ) (ps : List (Term × ℕ)),
      (∀ u ∈ us, u.IsJoined ∧ u.isProduct = false) →
        us.foldl Factored.insert (toFactored qs ps) =
          toFactored ((numbers us).reverse ++ qs)
            ((us.filterMap basePower?).foldl (fun ps p => gatherPower p ps) ps) := by
    intro us
    induction us with
    | nil => exact fun _ _ _ => rfl
    | cons u us ih =>
      intro qs ps h
      have rest := fun v hv => h v (List.mem_cons_of_mem u hv)
      obtain ⟨joined, flat⟩ := h u List.mem_cons_self
      rw [List.foldl_cons]
      rcases joined.factor_cases flat with ⟨q, rfl⟩ | hb | ⟨b, n, hb, -, rfl⟩
      · rw [show (toFactored qs ps).insert (number q) = toFactored (q :: qs) ps from rfl,
          ih _ _ rest, numbers, numbers, List.filterMap_cons_some (f := number?) (b := q) rfl,
          List.reverse_cons, List.append_assoc, List.filterMap_cons_none (f := basePower?) rfl]
        rfl
      · rw [insert_base hb, ih _ _ rest, numbers, numbers,
          List.filterMap_cons_none (number?_of_isBase hb),
          List.filterMap_cons_some (basePower?_of_isBase hb)]
        rfl
      · rw [insert_power hb, ih _ _ rest, numbers, numbers,
          List.filterMap_cons_none (f := number?) rfl,
          List.filterMap_cons_some (basePower?_power b n)]
        rfl
  exact (key us [] [] h).trans (by rw [List.append_nil]; rfl)

/-! ### Gathered powers -/

theorem exists_of_mem_gatherPower {p r : Term × ℕ} {ps : List (Term × ℕ)}
    (h : r ∈ gatherPower p ps) : r.1 = p.1 ∨ ∃ q ∈ ps, q.1 = r.1 := by
  induction ps with
  | nil => exact .inl (congrArg Prod.fst (List.mem_singleton.mp h))
  | cons q qs ih =>
    rw [gatherPower] at h
    split at h
    next same =>
      rcases List.mem_cons.mp h with rfl | h
      · exact .inl same
      · exact .inr ⟨r, List.mem_cons_of_mem _ h, rfl⟩
    next =>
      rcases List.mem_cons.mp h with rfl | h
      · exact .inr ⟨_, List.mem_cons_self, rfl⟩
      · rcases ih h with same | ⟨k, hk, same⟩
        · exact .inl same
        · exact .inr ⟨k, List.mem_cons_of_mem _ hk, same⟩

theorem nodup_gatherPower {p : Term × ℕ} {ps : List (Term × ℕ)} (h : (ps.map Prod.fst).Nodup) :
    ((gatherPower p ps).map Prod.fst).Nodup := by
  induction ps with
  | nil => exact List.nodup_singleton _
  | cons q qs ih =>
    rw [List.map_cons, List.nodup_cons] at h
    rw [gatherPower]
    split
    next => exact List.nodup_cons.mpr h
    next other =>
      refine List.nodup_cons.mpr ⟨fun hm => ?_, ih h.2⟩
      obtain ⟨r, hr, same⟩ := List.mem_map.mp hm
      rcases exists_of_mem_gatherPower hr with hp | ⟨k, hk, hr⟩
      · exact other (same.symm.trans hp)
      · exact h.1 (List.mem_map.mpr ⟨k, hk, hr.trans same⟩)

theorem polynomial_gatherPower (p : Term × ℕ) (ps : List (Term × ℕ)) :
    ((gatherPower p ps).map fun q => q.1.polynomial ^ q.2).prod =
      p.1.polynomial ^ p.2 * (ps.map fun q => q.1.polynomial ^ q.2).prod := by
  induction ps with
  | nil => rfl
  | cons q qs ih =>
    rw [gatherPower]
    split
    next same =>
      rw [List.map_cons, List.prod_cons, List.map_cons, List.prod_cons, same, pow_add]
      ring
    next => rw [List.map_cons, List.prod_cons, ih, List.map_cons, List.prod_cons, mul_left_comm]

/-- What holds of no powers and is kept when a factor is gathered holds of all gathered powers. -/
theorem gathered_induction {motive : List (Term × ℕ) → Prop} (us : List Term) (nil : motive [])
    (gather : ∀ (p : Term × ℕ) (ps : List (Term × ℕ)), p ∈ us.filterMap basePower? → motive ps →
      motive (gatherPower p ps)) : motive (gathered us) := by
  have key : ∀ (qs : List (Term × ℕ)) (ps : List (Term × ℕ)),
      (∀ q ∈ qs, q ∈ us.filterMap basePower?) → motive ps →
        motive (qs.foldl (fun ps p => gatherPower p ps) ps) := by
    intro qs
    induction qs with
    | nil => exact fun _ _ h => h
    | cons q qs ih =>
      intro ps hq h
      exact ih _ (fun r hr => hq r (List.mem_cons_of_mem q hr))
        (gather q ps (hq q List.mem_cons_self) h)
  exact key _ [] (fun _ h => h) nil

theorem nodup_gathered (us : List Term) : ((gathered us).map Prod.fst).Nodup :=
  gathered_induction (motive := fun ps => (ps.map Prod.fst).Nodup) us List.nodup_nil
    fun _ _ _ h => nodup_gatherPower h

theorem exists_of_mem_gathered {p : Term × ℕ} (h : p ∈ gathered us) :
    ∃ u ∈ us, ∃ n, basePower? u = some (p.1, n) := by
  refine gathered_induction (motive := fun ps => ∀ p ∈ ps, ∃ u ∈ us, ∃ n, basePower? u = some (p.1, n))
    us (fun _ h => absurd h List.not_mem_nil) ?_ p h
  intro q ps hq ih r hr
  rcases exists_of_mem_gatherPower hr with same | ⟨k, hk, same⟩
  · obtain ⟨u, hu, hbase⟩ := List.mem_filterMap.mp hq
    exact ⟨u, hu, q.2, same ▸ hbase⟩
  · exact same ▸ ih k hk

theorem isBase_of_mem_gathered {p : Term × ℕ} (hu : ∀ u ∈ us, u.IsJoined ∧ u.isProduct = false)
    (h : p ∈ gathered us) : p.1.isBase = true ∧ p.1.IsJoined := by
  obtain ⟨u, hm, n, hbase⟩ := exists_of_mem_gathered h
  obtain ⟨joined, flat⟩ := hu u hm
  rcases joined.factor_cases flat with ⟨q, rfl⟩ | hb | ⟨b, n, hb, hj, rfl⟩
  · exact absurd hbase (by simp [basePower?])
  · rw [basePower?_of_isBase hb] at hbase
    obtain rfl := congrArg Prod.fst (Option.some.inj hbase)
    exact ⟨hb, joined⟩
  · rw [basePower?_power] at hbase
    obtain rfl := congrArg Prod.fst (Option.some.inj hbase)
    exact ⟨hb, hj⟩

theorem polynomial_gathered (h : ∀ u ∈ us, u.IsJoined ∧ u.isProduct = false) :
    C (numbers us).prod * ((gathered us).map fun p => p.1.polynomial ^ p.2).prod =
      (us.map polynomial).prod := by
  have key : ∀ (qs ps : List (Term × ℕ)),
      ((qs.foldl (fun ps p => gatherPower p ps) ps).map fun p => p.1.polynomial ^ p.2).prod =
        (qs.map fun p => p.1.polynomial ^ p.2).prod *
          (ps.map fun p => p.1.polynomial ^ p.2).prod := by
    intro qs
    induction qs with
    | nil => exact fun ps => (one_mul _).symm
    | cons q qs ih =>
      intro ps
      rw [List.foldl_cons, ih, polynomial_gatherPower, List.map_cons, List.prod_cons]
      ring
  rw [gathered, key, List.map_nil, List.prod_nil, mul_one]
  induction us with
  | nil => simp [numbers]
  | cons u us ih =>
    have rest := ih fun v hv => h v (List.mem_cons_of_mem u hv)
    rw [List.map_cons, List.prod_cons, ← rest, numbers, numbers]
    obtain ⟨joined, flat⟩ := h u List.mem_cons_self
    rcases joined.factor_cases flat with ⟨q, rfl⟩ | hb | ⟨b, n, hb, -, rfl⟩
    · rw [List.filterMap_cons_some (f := number?) (b := q) rfl,
        List.filterMap_cons_none (f := basePower?) rfl, List.prod_cons, C_mul, polynomial_number,
        mul_assoc]
    · rw [List.filterMap_cons_none (number?_of_isBase hb),
        List.filterMap_cons_some (basePower?_of_isBase hb), List.map_cons, List.prod_cons, pow_one,
        mul_left_comm]
    · rw [List.filterMap_cons_none (f := number?) rfl,
        List.filterMap_cons_some (basePower?_power b n), List.map_cons, List.prod_cons,
        polynomial_power, mul_left_comm]

/-! ### Joined powers and products -/

theorem complexParts?_of_isJoined (h : (sum ts).IsJoined) : complexParts? (sum ts) = none := by
  have real : ∀ t ∈ ts, t.IsJoined := h.terms
  have turned {q : ℚ} (h : (product [number q, constant .i]).IsJoined) : False := by
    obtain ⟨joined, -⟩ := h.factors (constant .i) (by simp [factors])
    cases joined
  unfold complexParts?
  split
  next s t same =>
    obtain rfl := sum.inj same
    have hs := real s (by simp)
    have ht := real t (by simp)
    split
    · cases ht
    · exact (turned ht).elim
    · cases hs
    · exact (turned hs).elim
    · rfl
  · rfl

theorem natPower_of_two_le (b : Term) {n : ℕ} (h : 2 ≤ n) :
    natPower (b, n) = power b (number n) := by
  rw [natPower, if_neg (by omega), if_neg (by omega)]

theorem number_natCast_ne_zero {n : ℕ} (h : n ≠ 0) : number (n : ℚ) ≠ zero :=
  fun same => h (Nat.cast_eq_zero.mp (number.inj same))

theorem number_natCast_ne_one {n : ℕ} (h : n ≠ 1) : number (n : ℚ) ≠ one :=
  fun same => h (Nat.cast_eq_one.mp (number.inj same))

theorem Joining.pow_one (d : ℕ) (t : Term) : (Joining.ofDepth (d + 1)).pow t (number 1) = t := by
  simp [Joining.ofDepth, Joining.power, zero, one]

/-- A natural power of a base stays as it is. -/
theorem pow_base (d : ℕ) {n : ℕ} (hb : b.isBase = true) (hj : b.IsJoined) (hn : 2 ≤ n) :
    (Joining.ofDepth d).pow b (number n) = power b (number n) := by
  cases d with
  | zero => rfl
  | succ d =>
    rw [Joining.ofDepth]
    have z := number_natCast_ne_zero (n := n) (by omega)
    have o := number_natCast_ne_one (n := n) (by omega)
    simp only [Joining.power, if_neg z, if_neg o, Joining.exponentOfE?_number]
    cases b with
    | symbol s => rw [if_neg (by simp)]
    | sum ts =>
      rw [if_neg (by simp)]
      simp only [complexParts?_of_isJoined hj]
    | _ => exact absurd hb Bool.false_ne_true

theorem isSettled_natPower {p : Term × ℕ} (hb : p.1.isBase = true) (hn : p.2 ≠ 0) :
    (natPower p).isSettled = true := by
  obtain ⟨b, n⟩ := p
  rw [natPower, if_neg hn]
  cases b with
  | symbol => split <;> rfl
  | sum => split <;> rfl
  | _ => exact absurd hb Bool.false_ne_true

theorem baseExponent_natPower {p : Term × ℕ} (hb : p.1.isBase = true) (hn : p.2 ≠ 0) :
    (natPower p).baseExponent.1 = p.1 := by
  rw [natPower, if_neg hn]
  split
  · rw [baseExponent_of_isBase hb]
  · rw [baseExponent_power hb]

theorem hasLikePowers_map_natPower {ps : List (Term × ℕ)} (hb : ∀ p ∈ ps, p.1.isBase = true)
    (hn : ∀ p ∈ ps, p.2 ≠ 0) (h : (ps.map Prod.fst).Nodup) :
    hasLikePowers (ps.map natPower) = false := by
  induction ps with
  | nil => rfl
  | cons p ps ih =>
    rw [List.map_cons, List.nodup_cons] at h
    have rest := ih (fun q hq => hb q (List.mem_cons_of_mem p hq))
      (fun q hq => hn q (List.mem_cons_of_mem p hq)) h.2
    refine Bool.or_eq_false_iff.mpr ⟨List.any_eq_false.mpr fun u hu => ?_, rest⟩
    obtain ⟨q, hq, rfl⟩ := List.mem_map.mp hu
    have other : q.1 ≠ p.1 := fun same => h.1 (List.mem_map.mpr ⟨q, hq, same⟩)
    have base := baseExponent_natPower (hb p List.mem_cons_self) (hn p List.mem_cons_self)
    have base' := baseExponent_natPower (hb q (List.mem_cons_of_mem p hq))
      (hn q (List.mem_cons_of_mem p hq))
    intro both
    exact other (base'.symm.trans ((of_decide_eq_true (Bool.and_eq_true_iff.mp both).1).trans base))

/-- **A product is assembled from its numbers and its powers of different bases.** -/
theorem product_eq (d : ℕ) (h : ∀ t ∈ ts, t.IsJoined) :
    (Joining.ofDepth (d + 1)).mul ts =
      ofPowers (numbers (ts.flatMap factors)).prod (gathered (ts.flatMap factors)) := by
  have factor : ∀ u ∈ ts.flatMap factors, u.IsJoined ∧ u.isProduct = false := by
    intro u hu
    obtain ⟨t, ht, hu⟩ := List.mem_flatMap.mp hu
    exact (h t ht).factors u hu
  have base := fun p hp => isBase_of_mem_gathered (p := p) factor hp
  have nodup := nodup_gathered (ts.flatMap factors)
  rw [Joining.mul_succ, Joining.product, foldl_insert factor]
  generalize gathered (ts.flatMap factors) = ps at base nodup
  generalize numbers (ts.flatMap factors) = qs
  have parts : surdParts (Surd.mul (toFactored qs.reverse ps).surds) = (qs.prod, []) := by
    rw [toFactored, Surd.mul_ofRats, List.prod_reverse]
    rfl
  have kept : ∀ p ∈ ps.filter fun p => p.2 ≠ 0, p.1.isBase = true ∧ p.2 ≠ 0 := fun p hp =>
    ⟨(base p (List.mem_of_mem_filter hp)).1, of_decide_eq_true (List.mem_filter.mp hp).2⟩
  have powers : (((toFactored qs.reverse ps).powers.filter fun g => g.coefficient ≠ 0).map fun g =>
      if g.coefficient = 1 ∧ g.rest = one then g.base
      else (Joining.ofDepth d).pow g.base (scale g.coefficient g.rest)) =
        (ps.filter fun p => p.2 ≠ 0).map natPower := by
    rw [toFactored, List.filter_map, List.map_map]
    have same : ps.filter ((fun g : Gathered => decide (g.coefficient ≠ 0)) ∘ toGathered) =
        ps.filter fun p => p.2 ≠ 0 := List.filter_congr fun p _ => by simp [toGathered]
    rw [same]
    refine List.map_congr_left fun p hp => ?_
    obtain ⟨hb, hn⟩ := kept p hp
    have hj := (base p (List.mem_of_mem_filter hp)).2
    simp only [Function.comp, toGathered, natPower, if_neg hn, Nat.cast_eq_one, and_true]
    split
    · rfl
    · rw [one, scale_number, mul_one, pow_base d hb hj (by omega)]
  have settled : ((ps.filter fun p => p.2 ≠ 0).map natPower).all isSettled = true := by
    rw [List.all_map]
    exact List.all_eq_true.mpr fun p hp => isSettled_natPower (kept p hp).1 (kept p hp).2
  have unlike : hasLikePowers ((ps.filter fun p => p.2 ≠ 0).map natPower) = false :=
    hasLikePowers_map_natPower (fun p hp => (kept p hp).1) (fun p hp => (kept p hp).2)
      (nodup.sublist ((List.filter_sublist (l := ps)).map Prod.fst))
  have none : joinExponentials (toFactored qs.reverse ps).exponentials = [] := rfl
  simp only [parts, powers, none, List.map_nil, List.nil_append, settled, unlike, Bool.not_false,
    Bool.and_true]
  rfl

/-! ### The polynomials of products and powers -/

theorem polynomial_natPower (p : Term × ℕ) :
    (natPower p).polynomial = p.1.polynomial ^ p.2 := by
  unfold natPower
  split
  next h => simp [h]
  split
  next h => rw [h, pow_one]
  · exact polynomial_power p.1 p.2

theorem isProduct_of_isBase (h : b.isBase = true) : b.isProduct = false := by
  cases b with
  | product => exact absurd h Bool.false_ne_true
  | _ => rfl

theorem IsJoined.natPower {p : Term × ℕ} (hb : p.1.isBase = true) (h : p.1.IsJoined) :
    (natPower p).IsJoined ∧ (natPower p).isProduct = false := by
  unfold Term.natPower
  split
  · exact ⟨.one, rfl⟩
  split
  · exact ⟨h, isProduct_of_isBase hb⟩
  · exact ⟨.power p.2 hb h, rfl⟩

theorem assemble_zero (us : List Term) : assemble 0 [] us = zero := by
  unfold assemble
  exact if_pos rfl

theorem assemble_sum (hc : c ≠ 0) (ts : List Term) : assemble c [] [sum ts] = scale c (sum ts) := by
  rw [assemble, if_neg hc]

theorem assemble_factors (hc : c ≠ 0) (h : ∀ ts, us ≠ [sum ts]) :
    assemble c [] us = ofFactors ((if c = 1 then [] else [number c]) ++ orderedFactors us) := by
  unfold assemble
  dsimp only
  rw [if_neg hc]
  generalize (if c = 1 then [] else [number c]) = front
  split
  next ts => exact absurd rfl (h ts)
  next => rfl

/-- The factors of a product that is no multiple of a sum are those it is assembled from. -/
theorem IsJoined.assemble (c : ℚ) (h : ∀ u ∈ us, u.IsJoined ∧ u.isProduct = false) :
    (assemble c [] us).IsJoined ∧
      (assemble c [] us).polynomial = C c * (us.map polynomial).prod := by
  by_cases hc : c = 0
  · rw [hc, assemble_zero, polynomial_zero, C_0, zero_mul]
    exact ⟨.zero, rfl⟩
  by_cases hs : ∃ ts, us = [Term.sum ts]
  · obtain ⟨ts, rfl⟩ := hs
    have joined := (h _ List.mem_cons_self).1
    rw [assemble_sum hc, List.map_singleton, List.prod_singleton]
    exact ⟨joined.scale c, polynomial_scale c joined⟩
  rw [assemble_factors hc fun ts same => hs ⟨ts, same⟩, polynomial_ofFactors, List.map_append,
    List.prod_append, ((orderedFactors_perm us).map polynomial).prod_eq]
  have perm : ∀ t ∈ orderedFactors us, t.IsJoined ∧ t.isProduct = false :=
    fun t ht => h t ((orderedFactors_perm us).subset ht)
  by_cases h1 : c = 1
  · rw [if_pos h1, h1, C_1]
    exact ⟨.ofFactors perm, rfl⟩
  · rw [if_neg h1, List.map_singleton, List.prod_singleton, polynomial_number]
    exact ⟨.ofFactors (List.forall_mem_cons.mpr ⟨⟨.number c, rfl⟩, perm⟩), rfl⟩

theorem IsJoined.ofPowers (c : ℚ) {ps : List (Term × ℕ)}
    (h : ∀ p ∈ ps, p.1.isBase = true ∧ p.1.IsJoined) :
    (ofPowers c ps).IsJoined ∧
      (ofPowers c ps).polynomial = C c * (ps.map fun p => p.1.polynomial ^ p.2).prod := by
  have joined : ∀ u ∈ (ps.filter fun p => p.2 ≠ 0).map Term.natPower,
      u.IsJoined ∧ u.isProduct = false := by
    intro u hu
    obtain ⟨p, hp, rfl⟩ := List.mem_map.mp hu
    have base := h p (List.mem_of_mem_filter hp)
    exact IsJoined.natPower base.1 base.2
  have powers : (((ps.filter fun p => p.2 ≠ 0).map Term.natPower).map polynomial).prod =
      (ps.map fun p => p.1.polynomial ^ p.2).prod := by
    clear joined h
    induction ps with
    | nil => rfl
    | cons p ps ih =>
      rw [List.map_cons, List.prod_cons, ← ih, ← polynomial_natPower]
      by_cases hp : p.2 = 0
      · rw [List.filter_cons_of_neg (by simp [hp]), Term.natPower, if_pos hp, polynomial_one, one_mul]
      · rw [List.filter_cons_of_pos (by simp [hp]), List.map_cons, List.map_cons, List.prod_cons]
  rw [Term.ofPowers, ← powers]
  exact IsJoined.assemble c joined

theorem IsJoined.joining_mul (d : ℕ) (h : ∀ t ∈ ts, t.IsJoined) :
    ((Joining.ofDepth (d + 1)).mul ts).IsJoined ∧
      ((Joining.ofDepth (d + 1)).mul ts).polynomial = (ts.map polynomial).prod := by
  have factor : ∀ u ∈ ts.flatMap Term.factors, u.IsJoined ∧ u.isProduct = false := by
    intro u hu
    obtain ⟨t, ht, hu⟩ := List.mem_flatMap.mp hu
    exact (h t ht).factors u hu
  rw [product_eq d h, ← polynomial_flatMap_factors, ← polynomial_gathered factor]
  exact IsJoined.ofPowers _ fun p hp => isBase_of_mem_gathered factor hp

theorem joining_pow_base (d k : ℕ) (hb : b.isBase = true) (hj : b.IsJoined) :
    (Joining.ofDepth (d + 1)).pow b (number k) = natPower (b, k) := by
  by_cases h0 : k = 0
  · rw [h0, Nat.cast_zero]
    exact Joining.pow_zero d b
  by_cases h1 : k = 1
  · rw [h1, Nat.cast_one]
    exact Joining.pow_one d b
  · rw [pow_base _ hb hj (by omega), natPower_of_two_le b (by omega)]

theorem joining_pow_number (d n : ℕ) (q : ℚ) :
    (Joining.ofDepth (d + 1)).pow (number q) (number n) = number (q ^ n) := by
  have power := Joining.pow_number (q := q) (n := n) d (.inr (Int.natCast_nonneg n))
  rwa [Int.cast_natCast, zpow_natCast] at power

/-- The exponents of a nested power are multiplied. -/
theorem joining_pow_power (d m : ℕ) (hb : b.isBase = true) (hj : b.IsJoined)
    {n : ℕ} (hn : 2 ≤ n) :
    (Joining.ofDepth (d + 3)).pow (power b (number m)) (number n) = natPower (b, m * n) := by
  have z := number_natCast_ne_zero (n := n) (by omega)
  have o := number_natCast_ne_one (n := n) (by omega)
  have whole : (number (n : ℚ)).integer?.isSome = true := by
    rw [integer?, if_pos (Rat.den_natCast n)]
    rfl
  rw [Joining.ofDepth]
  simp only [Joining.power, if_neg z, if_neg o, Joining.exponentOfE?_number]
  rw [if_neg (by simp)]
  unfold Joining.nestedPower
  rw [if_pos whole, Joining.mul_number, ← Nat.cast_mul]
  exact joining_pow_base (d + 1) (m * n) hb hj

/-- A power of a product is the product of the powers. -/
theorem joining_pow_product (d : ℕ) (ts : List Term) {n : ℕ} (hn : 2 ≤ n) :
    (Joining.ofDepth (d + 1)).pow (product ts) (number n) =
      (Joining.ofDepth d).mul (ts.map fun t => (Joining.ofDepth d).pow t (number n)) := by
  have z := number_natCast_ne_zero (n := n) (by omega)
  have o := number_natCast_ne_one (n := n) (by omega)
  rw [Joining.ofDepth]
  simp only [Joining.power, if_neg z, if_neg o, Joining.exponentOfE?_number]
  rw [if_neg (by simp)]
  exact if_pos (Rat.den_natCast n)

/-- A natural power is the power of the factors, which are numbers and powers of bases. -/
theorem IsJoined.joining_pow (d n : ℕ) (h : t.IsJoined) :
    ((Joining.ofDepth (d + 4)).pow t (.number n)).IsJoined ∧
      ((Joining.ofDepth (d + 4)).pow t (.number n)).polynomial = t.polynomial ^ n := by
  by_cases h0 : n = 0
  · rw [h0, Nat.cast_zero]
    rw [show (Joining.ofDepth (d + 4)).pow t (.number 0) = Term.one from Joining.pow_zero _ t]
    simp [IsJoined.one]
  by_cases h1 : n = 1
  · rw [h1, Nat.cast_one, pow_one, Joining.pow_one]
    exact ⟨h, rfl⟩
  have two : 2 ≤ n := by omega
  -- A factor is a number or a power of a base.
  have factor (d : ℕ) {t : Term} (h : t.IsJoined) (flat : t.isProduct = false) :
      ((Joining.ofDepth (d + 3)).pow t (.number n)).IsJoined ∧
        ((Joining.ofDepth (d + 3)).pow t (.number n)).polynomial = t.polynomial ^ n := by
    rcases h.factor_cases flat with ⟨q, rfl⟩ | hb | ⟨b, m, hb, hj, rfl⟩
    · rw [joining_pow_number, polynomial_number, polynomial_number, C_pow]
      exact ⟨.number _, rfl⟩
    · rw [joining_pow_base _ n hb h, polynomial_natPower]
      exact ⟨(IsJoined.natPower hb h).1, rfl⟩
    · rw [joining_pow_power d m hb hj two, polynomial_natPower, polynomial_power, pow_mul]
      exact ⟨(IsJoined.natPower hb hj).1, rfl⟩
  cases h with
  | @product ts hj flat =>
    have joined : ∀ u ∈ ts.map fun t => (Joining.ofDepth (d + 3)).pow t (.number n), u.IsJoined := by
      intro u hu
      obtain ⟨t, ht, rfl⟩ := List.mem_map.mp hu
      exact (factor d (hj t ht) (flat t ht)).1
    obtain ⟨product, value⟩ := IsJoined.joining_mul (d + 2) joined
    rw [joining_pow_product (d + 3) ts two]
    rw [polynomial_product]
    refine ⟨product, value.trans ?_⟩
    refine .trans ?_ (map_list_prod (powMonoidHom n) (ts.map polynomial)).symm
    rw [List.map_map, List.map_map]
    exact congrArg List.prod (List.map_congr_left fun t ht => (factor d (hj t ht) (flat t ht)).2)
  | number q => exact factor (d + 1) (.number q) rfl
  | letter c => exact factor (d + 1) (.letter c) rfl
  | sum h => exact factor (d + 1) (.sum h) rfl
  | power m hb h => exact factor (d + 1) (.power m hb h) rfl

/-! ### Sums, products and powers -/

theorem IsJoined.mulAll (h : ∀ t ∈ ts, t.IsJoined) : (mulAll ts).IsJoined :=
  (joining_mul 199 h).1

/-- **Products of terms stand for products of polynomials.** -/
theorem polynomial_mulAll (h : ∀ t ∈ ts, t.IsJoined) :
    (mulAll ts).polynomial = (ts.map polynomial).prod := (IsJoined.joining_mul 199 h).2

theorem IsJoined.pow (n : ℕ) (h : t.IsJoined) : (pow t (.number n)).IsJoined :=
  (joining_pow 196 n h).1

/-- **Natural powers of terms stand for powers of polynomials.** -/
theorem polynomial_pow (n : ℕ) (h : t.IsJoined) :
    (pow t (number n)).polynomial = t.polynomial ^ n := (IsJoined.joining_pow 196 n h).2

theorem IsJoined.mul (hs : s.IsJoined) (ht : t.IsJoined) : (mul s t).IsJoined :=
  .mulAll (List.forall_mem_cons.mpr ⟨hs, List.forall_mem_singleton.mpr ht⟩)

theorem polynomial_mul (hs : s.IsJoined) (ht : t.IsJoined) :
    (mul s t).polynomial = s.polynomial * t.polynomial := by
  have all : ∀ u ∈ [s, t], u.IsJoined :=
    List.forall_mem_cons.mpr ⟨hs, List.forall_mem_singleton.mpr ht⟩
  rw [mul, polynomial_mulAll all]
  simp

theorem IsJoined.add (hs : s.IsJoined) (ht : t.IsJoined) : (add s t).IsJoined :=
  .addAll (List.forall_mem_cons.mpr ⟨hs, List.forall_mem_singleton.mpr ht⟩)

theorem polynomial_add (hs : s.IsJoined) (ht : t.IsJoined) :
    (add s t).polynomial = s.polynomial + t.polynomial := by
  have all : ∀ u ∈ [s, t], u.IsJoined :=
    List.forall_mem_cons.mpr ⟨hs, List.forall_mem_singleton.mpr ht⟩
  rw [add, polynomial_addAll all]
  simp

theorem IsJoined.neg (h : t.IsJoined) : (neg t).IsJoined := h.scale (-1)

theorem polynomial_neg (h : t.IsJoined) : (neg t).polynomial = -t.polynomial := by
  rw [neg, polynomial_scale (-1) h, map_neg, C_1, neg_one_mul]

theorem IsJoined.sub (hs : s.IsJoined) (ht : t.IsJoined) : (sub s t).IsJoined := hs.add ht.neg

theorem polynomial_sub (hs : s.IsJoined) (ht : t.IsJoined) :
    (sub s t).polynomial = s.polynomial - t.polynomial := by
  rw [sub_eq_add_neg, ← polynomial_neg ht]
  exact polynomial_add hs ht.neg

end Term

/-! ## Formulas of polynomials -/

namespace Formula

variable {f : Formula} {p : MvPolynomial Char ℚ}

/-- **A formula that writes a polynomial has a term that stands for it.** -/
theorem IsPolynomial.exists_value? (h : IsPolynomial f p) :
    ∃ t, f.value? = some t ∧ t.IsJoined ∧ t.polynomial = p := by
  induction h with
  | constant hf => exact ⟨_, value?_of_rational? hf, .number _, Term.polynomial_number _⟩
  | letter hc => exact ⟨_, rfl, .letter _, Term.polynomial_symbol _ _⟩
  | plus _ ih => exact ih
  | minus _ ih =>
    obtain ⟨t, ht, hj, rfl⟩ := ih
    exact ⟨t.neg, by rw [value?, ht, Option.map_some], hj.neg, Term.polynomial_neg hj⟩
  | sum _ _ ihf ihg =>
    obtain ⟨s, hs, hsj, rfl⟩ := ihf
    obtain ⟨t, ht, htj, rfl⟩ := ihg
    exact ⟨s.add t, by rw [value?, hs, ht]; rfl, hsj.add htj, Term.polynomial_add hsj htj⟩
  | difference _ _ ihf ihg =>
    obtain ⟨s, hs, hsj, rfl⟩ := ihf
    obtain ⟨t, ht, htj, rfl⟩ := ihg
    exact ⟨s.sub t, by rw [value?, hs, ht]; rfl, hsj.sub htj, Term.polynomial_sub hsj htj⟩
  | product _ _ ihf ihg =>
    obtain ⟨s, hs, hsj, rfl⟩ := ihf
    obtain ⟨t, ht, htj, rfl⟩ := ihg
    exact ⟨s.mul t, by rw [value?, hs, ht]; rfl, hsj.mul htj, Term.polynomial_mul hsj htj⟩
  | @quotient f g p a hf hg ha ih =>
    obtain ⟨s, hs, hj, rfl⟩ := ih
    have divisor := Term.IsJoined.number a⁻¹
    by_cases one : s = Term.one
    · refine ⟨.number a⁻¹, ?_, divisor, ?_⟩
      · rw [value?, hs, value?_of_rational? hg]
        simp only [Operation.join?, if_pos one, Term.inv_number ha]
      · rw [one, Term.polynomial_one, mul_one, Term.polynomial_number]
    · refine ⟨s.mul (.number a⁻¹), ?_, hj.mul divisor, ?_⟩
      · rw [value?, hs, value?_of_rational? hg]
        simp only [Operation.join?, if_neg one, Term.div, Term.inv_number ha]
      · rw [Term.polynomial_mul hj divisor, Term.polynomial_number, mul_comm]
  | @power f g p n hf hg ih =>
    obtain ⟨s, hs, hj, rfl⟩ := ih
    exact ⟨s.pow (.number n), by rw [value?, hs, value?_of_rational? hg]; rfl, hj.pow n,
      Term.polynomial_pow n hj⟩

end Formula

end Stepwise
