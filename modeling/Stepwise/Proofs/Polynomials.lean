import Mathlib.Algebra.MvPolynomial.PDeriv
import Stepwise.Algebra.Engine
import Stepwise.Proofs.Rationals
import Stepwise.Proofs.RoundTrip

/-!
# Polynomials

Polynomials over the rationals whose variables are letters. An integrand writes one if the engine
reads sums, differences and products of numbers and letters in it, quotients by numbers, and powers
with whole exponents (`Formula.Writes`). An expanded polynomial is a sum of terms with different
monomials, and a term is built from numbers and from powers of different letters
(`Tree.IsExpansion`). An antiderivative has the polynomial as its derivative, and no constant
(`IsAntiderivative`).

Results: `IsExpansion.count_name`, an expanded polynomial names a letter once for each of its
monomials with that letter; `IsAntiderivative.card_monomialsWith`, for every letter but the
variable of integration these are as many as in the integrand.
-/

namespace Stepwise

open MvPolynomial
open Finsupp (single)

/-! ## Integrands -/

namespace Formula

/-- The formula stands for the polynomial. Divisors and exponents have no letters. -/
inductive IsPolynomial : Formula → MvPolynomial Char ℚ → Prop
  | constant {f : Formula} {a : ℚ} (hf : f.rational? = some a) : IsPolynomial f (C a)
  | letter {c : Char} (hc : c.isAlpha = true) : IsPolynomial (.term (.symbol ⟨[c], .complex⟩)) (X c)
  | plus {f : Formula} {p : MvPolynomial Char ℚ} (hf : IsPolynomial f p) :
      IsPolynomial (.plus f) p
  | minus {f : Formula} {p : MvPolynomial Char ℚ} (hf : IsPolynomial f p) :
      IsPolynomial (.minus f) (-p)
  | sum {f g : Formula} {p q : MvPolynomial Char ℚ} (hf : IsPolynomial f p)
      (hg : IsPolynomial g q) : IsPolynomial (.operation .plus f g) (p + q)
  | difference {f g : Formula} {p q : MvPolynomial Char ℚ} (hf : IsPolynomial f p)
      (hg : IsPolynomial g q) : IsPolynomial (.operation .minus f g) (p - q)
  | product {f g : Formula} {p q : MvPolynomial Char ℚ} (hf : IsPolynomial f p)
      (hg : IsPolynomial g q) : IsPolynomial (.operation .times f g) (p * q)
  | quotient {f g : Formula} {p : MvPolynomial Char ℚ} {a : ℚ} (hf : IsPolynomial f p)
      (hg : g.rational? = some a) (ha : a ≠ 0) : IsPolynomial (.operation .dividedBy f g) (C a⁻¹ * p)
  | power {f g : Formula} {p : MvPolynomial Char ℚ} {n : ℕ} (hf : IsPolynomial f p)
      (hg : g.rational? = some (n : ℚ)) : IsPolynomial (.operation .power f g) (p ^ n)

/-- In a request about the variable `x`, the text writes the polynomial. -/
def Writes (x : Char) (t : Text) (p : MvPolynomial Char ℚ) : Prop :=
  ∃ f, read? (Algebra.names .default (some ⟨[x], .complex⟩)) t = some f ∧ IsPolynomial f p

end Formula

/-! ## Monomials with a letter -/

section Monomials

variable {c x : Char} {p F : MvPolynomial Char ℚ} {m : Char →₀ ℕ} {a : ℚ}

/-- The monomials of a polynomial in which a letter occurs. -/
def monomialsWith (c : Char) (p : MvPolynomial Char ℚ) : Finset (Char →₀ ℕ) :=
  p.support.filter fun m => m c ≠ 0

theorem mem_monomialsWith : m ∈ monomialsWith c p ↔ m ∈ p.support ∧ m c ≠ 0 := Finset.mem_filter

theorem card_monomialsWith_eq_zero : (monomialsWith c p).card = 0 ↔ c ∉ p.vars := by
  rw [Finset.card_eq_zero, Finset.eq_empty_iff_forall_notMem, mem_vars_iff_mem_support]
  simp only [mem_monomialsWith, Finsupp.mem_support_iff, not_and, not_exists]

theorem support_add_monomial (hm : m ∉ p.support) (ha : a ≠ 0) :
    (p + monomial m a).support = insert m p.support := by
  ext k
  rw [Finset.mem_insert, mem_support_iff, mem_support_iff, coeff_add, coeff_monomial]
  by_cases hk : m = k
  · subst hk
    simpa [notMem_support_iff.mp hm] using ha
  · simp [hk, Ne.symm hk]

theorem card_monomialsWith_add (hm : m ∉ p.support) (ha : a ≠ 0) :
    (monomialsWith c (p + monomial m a)).card =
      (monomialsWith c p).card + if m c = 0 then 0 else 1 := by
  unfold monomialsWith
  rw [support_add_monomial hm ha, Finset.filter_insert]
  by_cases hc : m c = 0
  · simp [hc]
  · rw [if_pos hc, if_neg hc, Finset.card_insert_of_notMem]
    exact fun h => hm (Finset.mem_of_mem_filter m h)

/-- `F` is an antiderivative of `p` by `x`, with no constant added. -/
structure IsAntiderivative (x : Char) (p F : MvPolynomial Char ℚ) : Prop where
  derivative : pderiv x F = p
  noConstant : ∀ m ∈ F.support, m x ≠ 0

theorem IsAntiderivative.mem_support (h : IsAntiderivative x p F) :
    m + single x 1 ∈ F.support ↔ m ∈ p.support := by
  have positive : ((m x : ℚ) + 1) ≠ 0 := by positivity
  rw [mem_support_iff, mem_support_iff, ← h.derivative, coeff_pderiv, mul_ne_zero_iff,
    and_iff_left positive]

/-- Integration by another letter changes no occurrence of a letter. -/
theorem IsAntiderivative.card_monomialsWith (h : IsAntiderivative x p F) (hc : c ≠ x) :
    (monomialsWith c F).card = (monomialsWith c p).card := by
  have same (m : Char →₀ ℕ) : (m + single x 1 : Char →₀ ℕ) c = m c := by simp [hc.symm]
  symm
  refine Finset.card_bij (fun m _ => m + single x 1) ?_ (fun _ _ _ _ => add_right_cancel) ?_
  · intro m hm
    obtain ⟨hm, hmc⟩ := mem_monomialsWith.mp hm
    exact mem_monomialsWith.mpr ⟨h.mem_support.mpr hm, (same m).symm ▸ hmc⟩
  · intro k hk
    obtain ⟨hk, hkc⟩ := mem_monomialsWith.mp hk
    have split : k - single x 1 + single x 1 = k := Finsupp.sub_add_single_one_cancel (h.noConstant k hk)
    rw [← split, same] at hkc
    exact ⟨k - single x 1,
      mem_monomialsWith.mpr ⟨h.mem_support.mp (split.symm ▸ hk), hkc⟩, split⟩

end Monomials

/-! ## Expanded polynomials -/

namespace Tree

/-- The tree is a term: numbers and powers of different letters, with `*` between them and numbers
behind `/`. -/
inductive IsTerm : Tree → (Char →₀ ℕ) → ℚ → Prop
  | number {n : ℕ} {s : Text} (hn : n ≠ 0) : IsTerm (.constant (.whole n) s) 0 n
  | letter (c : Char) : IsTerm (.name [c]) (single c 1) 1
  | power (c : Char) {n : ℕ} {s : Text} (hn : n ≠ 0) :
      IsTerm (.operation .power (.name [c]) (.constant (.whole n) s)) (single c n) 1
  | negation {t : Tree} {m : Char →₀ ℕ} {a : ℚ} (ht : IsTerm t m a) : IsTerm (.negation t) m (-a)
  | times {l r : Tree} {m k : Char →₀ ℕ} {a b : ℚ} (hl : IsTerm l m a) (hr : IsTerm r k b)
      (apart : ∀ c, m c = 0 ∨ k c = 0) : IsTerm (.operation .times l r) (m + k) (a * b)
  | dividedBy {l : Tree} {m : Char →₀ ℕ} {a : ℚ} {n : ℕ} {s : Text} (hl : IsTerm l m a)
      (hn : n ≠ 0) : IsTerm (.operation .dividedBy l (.constant (.whole n) s)) m (a / n)

/-- The tree is the polynomial, written as a sum of terms with different monomials. -/
inductive IsExpansion : Tree → MvPolynomial Char ℚ → Prop
  | zero (s : Text) : IsExpansion (.constant (.whole 0) s) 0
  | term {t : Tree} {m : Char →₀ ℕ} {a : ℚ} (ht : IsTerm t m a) : IsExpansion t (monomial m a)
  | plus {l r : Tree} {p : MvPolynomial Char ℚ} {m : Char →₀ ℕ} {a : ℚ} (hl : IsExpansion l p)
      (hr : IsTerm r m a) (hm : m ∉ p.support) :
      IsExpansion (.operation .plus l r) (p + monomial m a)
  | minus {l r : Tree} {p : MvPolynomial Char ℚ} {m : Char →₀ ℕ} {a : ℚ} (hl : IsExpansion l p)
      (hr : IsTerm r m a) (hm : m ∉ p.support) :
      IsExpansion (.operation .minus l r) (p - monomial m a)

variable {t : Tree} {m : Char →₀ ℕ} {a : ℚ} {p : MvPolynomial Char ℚ}

theorem IsTerm.coefficient_ne_zero (h : IsTerm t m a) : a ≠ 0 := by
  induction h with
  | number hn => exact Nat.cast_ne_zero.mpr hn
  | letter => exact one_ne_zero
  | power => exact one_ne_zero
  | negation _ ih => exact neg_ne_zero.mpr ih
  | times _ _ _ ihl ihr => exact mul_ne_zero ihl ihr
  | dividedBy _ hn ih => exact div_ne_zero ih (Nat.cast_ne_zero.mpr hn)

theorem count_name_operation (c : Char) (op : Operator) (l r : Tree) :
    (operation op l r).tokens.count (.name [c]) =
      l.tokens.count (.name [c]) + r.tokens.count (.name [c]) := by
  rw [tokens, List.count_append, List.count_cons_of_ne (by simp)]

/-- A term names each letter of its monomial once. -/
theorem IsTerm.count_name (h : IsTerm t m a) (c : Char) :
    t.tokens.count (.name [c]) = if m c = 0 then 0 else 1 := by
  have constant (n : Numeral) (s : Text) : (constant n s).tokens.count (.name [c]) = 0 := by
    rw [tokens]
    rfl
  have letter (d : Char) : (name [d]).tokens.count (.name [c]) = if d = c then 1 else 0 := by
    rw [tokens, List.count_singleton]
    simp
  induction h with
  | number => rw [constant]; rfl
  | letter d => rw [letter]; by_cases hd : d = c <;> simp [hd]
  | power d hn =>
    rw [count_name_operation, letter, constant]
    by_cases hd : d = c <;> simp [hd, hn]
  | negation _ ih => rwa [tokens, List.count_cons_of_ne (by simp)]
  | times _ _ apart ihl ihr =>
    rw [count_name_operation, ihl, ihr, Finsupp.add_apply]
    rcases apart c with hm | hk
    · simp [hm]
    · simp [hk]
  | dividedBy _ _ ih => rw [count_name_operation, ih, constant, Nat.add_zero]

/-- **An expanded polynomial names a letter once for each monomial with that letter.** -/
theorem IsExpansion.count_name (h : IsExpansion t p) (c : Char) :
    t.tokens.count (.name [c]) = (monomialsWith c p).card := by
  induction h with
  | zero s => rw [tokens]; rfl
  | term ht =>
    rw [ht.count_name, ← zero_add (monomial _ _),
      card_monomialsWith_add (by simp) ht.coefficient_ne_zero]
    simp [monomialsWith]
  | plus _ hr hm ih =>
    rw [count_name_operation, ih, hr.count_name, card_monomialsWith_add hm hr.coefficient_ne_zero]
  | minus _ hr hm ih =>
    rw [count_name_operation, ih, hr.count_name, sub_eq_add_neg, ← map_neg,
      card_monomialsWith_add hm (neg_ne_zero.mpr hr.coefficient_ne_zero)]

end Tree

end Stepwise
