import Stepwise.Proofs.Ending
import Stepwise.Proofs.Leaves
import Stepwise.Proofs.Letters
import Stepwise.Proofs.Polynomials
import Stepwise.Proofs.Reading
import Stepwise.Proofs.Splice
import Stepwise.Solve.Strategy

/-!
# The constant of integration

The constant is added to the written antiderivative as it is configured, whatever names stand
there already. Of the engine only the mathematics is taken for granted: what it integrates and then
multiplies out is the expanded antiderivative of a polynomial (`Engine.IntegratesPolynomials`).

Result: `integration_constant`, how often the answer to a polynomial integral names the constant:
once more than there are monomials with it in the integrand, so that it does so exactly once if and
only if the constant is no letter of the integrand.
-/

namespace Stepwise

open Text MvPolynomial

/-- What the engine integrates by a letter and then multiplies out, if it does not fail, is an
antiderivative of the polynomial, expanded. The letters `e`, `E` and `I` are its numbers. -/
def Engine.IntegratesPolynomials (engine : Engine) : Prop :=
  ∀ {before after : List Exchange} {x : Char} {t : Text} {p : MvPolynomial Char ℚ} {v w : Value},
    x.isAlpha = true → x ∉ "eEI".toList → Formula.Writes x t p →
    engine before (.integrate t [x]) = .ok v → engine after (.expand v) = .ok w →
    ∃ (F : MvPolynomial Char ℚ) (shown : Text) (tree : Tree), IsAntiderivative x p F ∧
      w = .text shown ∧ Tree.read Config.default.functions shown = .ok tree ∧ tree.IsExpansion F

/-! ## The names in an answer -/

namespace Token

variable {t : Text} {tokens : List Token} {c : Char}

theorem wellSpelled_letter (hc : c.isAlpha = true) : WellSpelled (.name [c]) := by
  refine ⟨List.cons_ne_nil _ _, ?_⟩
  rw [namePart, if_pos hc]
  rfl

/-- A letter added to a text is added to its tokens. -/
theorem scan_add_letter (hc : c.isAlpha = true) (h : scan t = .ok tokens) :
    scan (t ++ (" + ".toList ++ [c])) = .ok (tokens ++ [.sign '+', .name [c]]) := by
  have letter : Cuts ([c] ++ []) [.name [c]] :=
    .append (lexeme?_name (wellSpelled_letter hc) rfl) .nil
  have sum : Cuts ('+' :: ' ' :: [c]) [.sign '+', .name [c]] :=
    .append (w := ['+']) (lexeme?_sign (by decide) (by simp)) (.blank (by decide) letter)
  exact scan_eq_ok.mpr ((scan_eq_ok.mp h).splice (breaks_cons (by decide) _)
    (.blank (by decide) sum))

end Token

namespace Tree

variable {F : List Text} {w : Text} {t : Tree}

/-- A text that is read names what its tree names. -/
theorem count_name_of_read (h : read F w = .ok t) (name : Text) :
    ∃ tokens, Token.scan w = .ok tokens ∧
      tokens.count (.name name) = t.tokens.count (.name name) := by
  obtain ⟨tokens, hs, ht⟩ := bind_eq_ok.mp h
  have operands (us : List Token) :
      us.count (.name name) = (Token.operands us).count (.name name) :=
    (List.count_filter rfl).symm
  refine ⟨tokens, hs, ?_⟩
  rw [operands, operands t.tokens, (ofTokens?_eq_ok.mp ht).operands]

end Tree

/-! ## An engine that knows one integral -/

open Finsupp (single)

/-- In a request about `x`, the text `B*x+C` is a sum of a product and a variable. -/
theorem Formula.writes_linear {p : MvPolynomial Char ℚ} :
    Formula.Writes 'x' "B*x+C".toList p ↔ p = X 'B' * X 'x' + X 'C' := by
  have scan : Token.scan (Algebra.names .default (some ⟨['x'], .complex⟩)) "B*x+C".toList =
      some [.term (.symbol ⟨['B'], .complex⟩), .sign '*', .term (.symbol ⟨['x'], .complex⟩),
        .sign '+', .term (.symbol ⟨['C'], .complex⟩)] :=
    Token.Scanned.scanFrom <| (scanned_letter (by decide) 'x' (by decide)).append <|
      (Token.scanned_sign (by decide) (by decide)).append <|
      (scanned_letter (by decide) 'x' (by decide)).append <|
      (Token.scanned_sign (by decide) (by decide)).append
        (scanned_letter (by decide) 'x' (by decide))
  have read : Formula.read? (Algebra.names .default (some ⟨['x'], .complex⟩)) "B*x+C".toList =
      some (.operation .plus (.operation .times (.term (.symbol ⟨['B'], .complex⟩))
        (.term (.symbol ⟨['x'], .complex⟩))) (.term (.symbol ⟨['C'], .complex⟩))) := by
    rw [Formula.read?, scan]
    rfl
  have letter {c : Char} {q : MvPolynomial Char ℚ}
      (h : IsPolynomial (.term (.symbol ⟨[c], .complex⟩)) q) : q = X c := by
    cases h with
    | constant hf => exact absurd hf (by simp [rational?])
    | letter => rfl
  constructor
  · rintro ⟨f, hf, hp⟩
    obtain rfl := Option.some.inj (read.symm.trans hf)
    cases hp with
    | constant hf => exact absurd hf (by simp [rational?])
    | sum hl hr =>
      cases hl with
      | constant hf => exact absurd hf (by simp [rational?])
      | product hb hx => rw [letter hb, letter hx, letter hr]
  · rintro rfl
    exact ⟨_, read, .sum (.product (.letter (by decide)) (.letter (by decide)))
      (.letter (by decide))⟩

/-- The engine that knows one integral, that of `B*x+C` by `x`. -/
def Engine.oneIntegral : Engine := .ofFunction fun
  | .integrate t x =>
    if t = "B*x+C".toList ∧ x = ['x'] then .ok (.text "B*x^2/2 + C*x".toList)
    else .error (.noAntiderivative t)
  | .expand (.text t) =>
    if t = "B*x^2/2 + C*x".toList then .ok (.text t) else .error (.unreadableFormula t)
  | _ => .error exhausted

/-- The polynomial of `B*x^2/2 + C*x`. -/
noncomputable def linearIntegral : MvPolynomial Char ℚ :=
  monomial (single 'B' 1 + single 'x' 2) (1 / 2) + monomial (single 'C' 1 + single 'x' 1) 1

theorem isAntiderivative_linearIntegral :
    IsAntiderivative 'x' (X 'B' * X 'x' + X 'C') linearIntegral := by
  refine ⟨?_, fun m hm => ?_⟩
  · have square : (single 'B' 1 + single 'x' 2 : Char →₀ ℕ) - single 'x' 1 =
        single 'B' 1 + single 'x' 1 := by
      rw [show (2 : ℕ) = 1 + 1 from rfl, Finsupp.single_add, ← add_assoc, add_tsub_cancel_right]
    rw [linearIntegral, map_add, pderiv_monomial, pderiv_monomial, square, add_tsub_cancel_right,
      X, X, X, monomial_mul]
    simp
  · rcases Finset.mem_union.mp (support_add hm) with h | h
    · obtain rfl := Finset.mem_singleton.mp (support_monomial_subset h)
      simp
    · obtain rfl := Finset.mem_singleton.mp (support_monomial_subset h)
      simp

/-- The tree of `B*x^2/2 + C*x`. -/
def linearTree : Tree :=
  .operation .plus
    (.operation .dividedBy
      (.operation .times (.name ['B'])
        (.operation .power (.name ['x']) (.constant (.whole 2) ['2'])))
      (.constant (.whole 2) ['2']))
    (.operation .times (.name ['C']) (.name ['x']))

theorem read_linearTree :
    Tree.read Config.default.functions "B*x^2/2 + C*x".toList = .ok linearTree := by
  have scan : Token.scan "B*x^2/2 + C*x".toList = .ok [.name ['B'], .sign '*', .name ['x'],
      .sign '^', .number ['2'], .sign '/', .number ['2'], .sign '+', .name ['C'], .sign '*',
      .name ['x']] := by rfl
  rw [Tree.read, scan]
  rfl

theorem isExpansion_linearTree : linearTree.IsExpansion linearIntegral := by
  have apart {b c : Char} (hbc : b ≠ c) {m n : ℕ} (d : Char) :
      single b m d = 0 ∨ single c n d = 0 := by
    by_cases h : d = b
    · exact .inr (Finsupp.single_eq_of_ne (h ▸ hbc))
    · exact .inl (Finsupp.single_eq_of_ne h)
  have square : Tree.IsTerm _ _ (1 * 1 / (2 : ℕ)) :=
    .dividedBy (s := ['2']) (.times (.letter 'B') (.power 'x' (s := ['2']) two_ne_zero)
      (apart (by decide))) two_ne_zero
  have linear : Tree.IsTerm _ _ (1 * 1) :=
    .times (.letter 'C') (.letter 'x') (apart (by decide))
  have other : (single 'C' 1 + single 'x' 1 : Char →₀ ℕ) ∉
      (monomial (single 'B' 1 + single 'x' 2) (1 * 1 / ((2 : ℕ) : ℚ))).support := by
    intro h
    have same := DFunLike.congr_fun (Finset.mem_singleton.mp (support_monomial_subset h)) 'C'
    simp at same
  simpa [linearTree, linearIntegral] using Tree.IsExpansion.plus (.term square) linear other

theorem Engine.oneIntegral_integratesPolynomials : Engine.oneIntegral.IntegratesPolynomials := by
  intro before after x t p v w hx hnumber hp hv hw
  obtain ⟨⟨rfl, hname⟩, hv⟩ | ⟨-, hv⟩ := ite_eq_iff.mp hv
  · obtain rfl := List.singleton_inj.mp hname
    obtain rfl := Except.ok.inj hv
    obtain rfl := Formula.writes_linear.mp hp
    obtain rfl := Except.ok.inj hw
    exact ⟨_, _, linearTree, isAntiderivative_linearIntegral, rfl, read_linearTree,
      isExpansion_linearTree⟩
  · exact absurd hv (by simp)

/-! ## The answer -/

namespace Question

theorem isAlpha_of_variableOf {name : Option Text} {x : Char}
    (h : variableOf .default name = .ok [x]) : x.isAlpha = true := by
  unfold variableOf at h
  split at h
  · obtain rfl := List.singleton_inj.mp (Except.ok.inj h)
    decide
  · obtain rfl := List.singleton_inj.mp (Except.ok.inj h)
    decide
  next c =>
    split at h
    next hc =>
      obtain rfl := List.singleton_inj.mp (Except.ok.inj h)
      exact hc
    next => exact absurd h (by simp)
  · exact absurd h (by simp)

/-- The variable of an integral is a letter. -/
theorem isAlpha_of_integral {t integrand : Text} {x : Char}
    (h : integral .default t = .ok (integrand, [x])) : x.isAlpha = true := by
  have named {body : Text} {name : Option Text}
      (h : (do return (body, ← variableOf .default name)) =
        (.ok (integrand, [x]) : Except Fault (Text × Text))) : x.isAlpha = true := by
    obtain ⟨v, hv, h⟩ := bind_eq_ok.mp h
    obtain ⟨-, rfl⟩ := Prod.mk.inj (Except.ok.inj h)
    exact isAlpha_of_variableOf hv
  unfold integral at h
  split at h
  · unfold ofArguments at h
    split at h
    · exact absurd h (by simp)
    · exact absurd h (by simp)
    · exact named h
    · exact named h
    · exact absurd h (by simp)
  · split at h
    · exact named h
    · exact absurd h (by simp)

end Question

namespace Strategy

variable {engine : Engine} {problem canonical integrand : Text} {x : Char} {answer : Value}
  {s s' : Session}

/-- The answer is what the engine integrated and multiplied out, with the constant added. -/
def Integrated (engine : Engine) (config : Config) (integrand v : Text) (answer : Value) : Prop :=
  ∃ (before after : List Exchange) (F w : Value) (shown : Text),
    engine before (.integrate integrand v) = .ok F ∧ engine after (.expand F) = .ok w ∧
      w.display = .ok shown ∧
      answer = .text (shown ++ " + ".toList ++ config.integrationConstant)

theorem integration_integrated {config : Config} {v : Text}
    (hread : Question.integral config canonical = .ok (integrand, v))
    (hrun : integration engine config problem canonical s = (.ok answer, s')) :
    Integrated engine config integrand v answer := by
  have hends : Run.Ends (integration engine config problem canonical) s
      (fun a _ => Integrated engine config integrand v a) fun _ _ => True := by
    simp only [integration, hread, Run.ends_bind, Run.ends_tell, Run.ends_ask, Run.ends_ofExcept,
      Run.ends_display, Run.ends_pure, implies_true, and_true, Except.ok.injEq]
    rintro _ rfl F hF w hw shown hshown
    exact ⟨_, _, F, w, shown, hF, hw, hshown, rfl⟩
  exact hends.of_ok hrun

/-- **How often an answer names the constant of integration.** -/
theorem integration_constant (hengine : engine.IntegratesPolynomials) {p : MvPolynomial Char ℚ}
    (hread : Question.integral .default canonical = .ok (integrand, [x]))
    (hp : Formula.Writes x integrand p) (hx : x ∉ "eEIC".toList)
    (hrun : integration engine .default problem canonical s = (.ok answer, s')) :
    ∃ (shown : Text) (tokens : List Token), answer = .text (shown ++ " + C".toList) ∧
      Token.scan (shown ++ " + C".toList) = .ok tokens ∧
      tokens.count (.name ['C']) = (monomialsWith 'C' p).card + 1 ∧
      (tokens.count (.name ['C']) = 1 ↔ 'C' ∉ p.vars) := by
  obtain ⟨before, after, v, w, shown, hv, hw, hshown, rfl⟩ := integration_integrated hread hrun
  have unbound : x ∉ "eEI".toList := fun h => hx (List.mem_append_left ['C'] h)
  have other : 'C' ≠ x := by
    rintro rfl
    exact hx (by decide)
  obtain ⟨F, t, tree, hF, rfl, ht, htree⟩ :=
    hengine (Question.isAlpha_of_integral hread) unbound hp hv hw
  obtain rfl := Except.ok.inj hshown
  obtain ⟨tokens, hscan, hcount⟩ := Tree.count_name_of_read ht ['C']
  have count : (tokens ++ [Token.sign '+', .name ['C']]).count (.name ['C']) =
      (monomialsWith 'C' p).card + 1 := by
    rw [List.count_append, hcount, htree.count_name, hF.card_monomialsWith other]
    rfl
  refine ⟨t, _, congrArg Value.text (List.append_assoc t _ _),
    Token.scan_add_letter (c := 'C') (by decide) hscan, count, ?_⟩
  rw [count, Nat.add_eq_right, card_monomialsWith_eq_zero]

/-- The answer to the integral of `B*x+C` does not name the constant exactly once. -/
theorem integration_constant_linear :
    (Engine.oneIntegral.IntegratesPolynomials ∧
      Question.integral .default "integrate(B*x+C,x)".toList = .ok ("B*x+C".toList, ['x']) ∧
      Formula.Writes 'x' "B*x+C".toList (X 'B' * X 'x' + X 'C') ∧ 'x' ∉ "eEIC".toList) ∧
    ∃ (shown : Text) (tokens : List Token) (s : Session),
      integration Engine.oneIntegral .default "integrate(B*x+C,x)".toList
        "integrate(B*x+C,x)".toList .start = (.ok (.text (shown ++ " + C".toList)), s) ∧
      Token.scan (shown ++ " + C".toList) = .ok tokens ∧ tokens.count (.name ['C']) ≠ 1 := by
  have read : Question.integral .default "integrate(B*x+C,x)".toList =
      .ok ("B*x+C".toList, ['x']) := by rfl
  have writes := Formula.writes_linear.mpr rfl
  have letters : 'x' ∉ "eEIC".toList := by decide
  obtain ⟨answer, s, run⟩ := Run.exists_ok_of_check (x := integration Engine.oneIntegral .default
    "integrate(B*x+C,x)".toList "integrate(B*x+C,x)".toList) (s := .start) (by decide +kernel)
  refine ⟨⟨Engine.oneIntegral_integratesPolynomials, read, writes, letters⟩, ?_⟩
  obtain ⟨shown, tokens, rfl, scan, -, once⟩ :=
    integration_constant Engine.oneIntegral_integratesPolynomials read writes letters run
  have named : 'C' ∈ (X 'B' * X 'x' + X 'C' : MvPolynomial Char ℚ).vars := by
    rw [mem_vars_iff_mem_support]
    refine ⟨single 'C' 1, ?_, by simp⟩
    rw [mem_support_iff]
    simp [coeff_X_mul']
  exact ⟨shown, tokens, s, run, scan, fun h => once.mp h named⟩

/-- The answer to the integral of `B*x+C` names the constant twice. -/
theorem integration_constant_twice :
    Engine.oneIntegral.IntegratesPolynomials ∧
      Formula.Writes 'x' "B*x+C".toList (X 'B' * X 'x' + X 'C') ∧
      Question.integral .default "integrate(B*x+C,x)".toList = .ok ("B*x+C".toList, ['x']) ∧
      (integration Engine.oneIntegral .default "integrate(B*x+C,x)".toList
        "integrate(B*x+C,x)".toList .start).1 = .ok (.text "B*x^2/2 + C*x + C".toList) ∧
      ∃ tokens, Token.scan "B*x^2/2 + C*x + C".toList = .ok tokens ∧
        tokens.count (.name ['C']) = 2 := by
  refine ⟨Engine.oneIntegral_integratesPolynomials, Formula.writes_linear.mpr rfl, rfl, rfl, ?_⟩
  exact ⟨[.name ['B'], .sign '*', .name ['x'], .sign '^', .number ['2'], .sign '/', .number ['2'],
    .sign '+', .name ['C'], .sign '*', .name ['x'], .sign '+', .name ['C']], rfl, rfl⟩

end Strategy

end Stepwise
