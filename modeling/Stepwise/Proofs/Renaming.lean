import Stepwise.Proofs.DerivativeForms
import Stepwise.Proofs.Identities
import Stepwise.Proofs.IntegralForms
import Stepwise.Proofs.LetterPolynomials

/-!
# Renaming the variable

A derivative or an antiderivative is asked for in a request about a letter, and what the engine
writes is multiplied out in another request, which is about no letter at all. What is asked of a
library is that letters are alike to it (`Library.TreatsAlike`): with another letter for the variable
an expression is read, differentiated, integrated, multiplied out and written in the same way. Then
it is left to the letters whether both requests read the same (`Library.IsIndifferent`).

Results: `Library.polynomials_treatsAlike`, a library to which all letters are alike;
`Strategy.differentiation_eq` and `Strategy.integration_eq`, the answers as two requests in a row;
and `Strategy.calculus_renamed`, the answers to one problem in two letters differ in the letter only.
For a letter that is a number to the library they do not: `Strategy.calculus_known_letters`.
-/

namespace Stepwise

open Text

/-! ## Two computations -/

/-- Both computations succeed, with results in the relation, or both fail. -/
inductive Both {α β : Type} (R : α → β → Prop) : Except Fault α → Except Fault β → Prop
  | ok {a : α} {b : β} (h : R a b) : Both R (.ok a) (.ok b)
  | error (e f : Fault) : Both R (.error e) (.error f)

theorem Both.bind {α β γ δ : Type} {R : α → β → Prop} {S : γ → δ → Prop} {a : Except Fault α}
    {b : Except Fault β} {f : α → Except Fault γ} {g : β → Except Fault δ} (h : Both R a b)
    (hf : ∀ u v, a = .ok u → b = .ok v → R u v → Both S (f u) (g v)) :
    Both S (a >>= f) (b >>= g) := by
  cases h with
  | ok h => exact hf _ _ rfl rfl h
  | error e f => exact .error e f

/-- The second value is the text of the first one with one letter for another. -/
def IsRenamed (x y : Char) (v w : Value) : Prop := ∃ t, v = .text t ∧ w = .text (t.renamed x y)

/-! ## Letters to a library -/

namespace Library

/-- The letters are alike to the library: if one expression is the other one with the second letter
for the first, then so is what it makes of them in a request about the letters. -/
structure TreatsAlike (L : Library) (config : Config) (x y : Char)
    (Alike : L.Expr → L.Expr → Prop) : Prop where
  derivative : ∀ {e f : L.Expr}, Alike e f →
    Both Alike (L.derivative ⟨[x], .complex⟩ e) (L.derivative ⟨[y], .complex⟩ f)
  antiderivative? : ∀ {e f : L.Expr}, Alike e f →
    Both (Option.Rel Alike) (L.antiderivative? ⟨[x], .complex⟩ e)
      (L.antiderivative? ⟨[y], .complex⟩ f)
  expand : ∀ {e f : L.Expr}, Alike e f → Both Alike (L.expand e) (L.expand f)
  write : ∀ {e f : L.Expr}, Alike e f →
    Both (fun s t => t = s.renamed x y) (L.write e) (L.write f)
  reread : ∀ {e f : L.Expr} {t : Text}, Alike e f → L.write e = .ok t →
    Both Alike (L.parse (config.scope (some ⟨[x], .complex⟩)) t)
      (L.parse (config.scope (some ⟨[y], .complex⟩)) (t.renamed x y))

variable {L : Library} {config : Config} {x y : Char} {Alike : L.Expr → L.Expr → Prop}
  {e f : L.Expr} {a b : Except Fault L.Expr} {s t : Text}

theorem IsIndifferent.parse (h : L.IsIndifferent config x t) :
    L.parse (config.scope none) t = L.parse (config.scope (some ⟨[x], .complex⟩)) t := by
  rw [Library.parse, Library.parse, h]

namespace TreatsAlike

theorem written (h : L.TreatsAlike config x y Alike) (alike : Alike e f) :
    Both (IsRenamed x y) (L.written e) (L.written f) :=
  (h.write alike).bind fun t _ _ _ same => .ok ⟨t, rfl, congrArg Value.text same⟩

/-- What is written and multiplied out is renamed, if the letters mean nothing else in writing. -/
theorem expanded (h : L.TreatsAlike config x y Alike) (alike : Alike e f) (ht : L.write e = .ok t)
    (hx : L.IsIndifferent config x t) (hy : L.IsIndifferent config y (t.renamed x y)) :
    Both (IsRenamed x y) (L.expanded config (.text t)) (L.expanded config (.text (t.renamed x y))) := by
  have read := h.reread alike ht
  rw [← hx.parse, ← hy.parse] at read
  exact read.bind fun _ _ _ _ alike => (h.expand alike).bind fun _ _ _ _ alike => h.written alike

/-- The same for what is written, read again and multiplied out. -/
theorem written_expanded (h : L.TreatsAlike config x y Alike) (alike : Both Alike a b)
    (indifferent : ∀ t, a >>= L.written = .ok (.text t) →
      L.IsIndifferent config x t ∧ L.IsIndifferent config y (t.renamed x y)) :
    Both (IsRenamed x y) (a >>= L.written >>= L.expanded config)
      (b >>= L.written >>= L.expanded config) := by
  cases alike with
  | error => exact .error _ _
  | ok alike =>
    refine (h.written alike).bind ?_
    rintro _ _ hv - ⟨t, rfl, rfl⟩
    obtain ⟨w, hw, same⟩ := bind_eq_ok.mp hv
    obtain rfl := Value.text.inj (Except.ok.inj same)
    exact h.expanded alike hw (indifferent w hv).1 (indifferent w hv).2

theorem differentiate_eq (L : Library) (config : Config) (t name : Text) :
    L.differentiate config t name =
      (L.parse (config.scope (some ⟨name, .complex⟩)) t >>= L.derivative ⟨name, .complex⟩) >>=
        L.written := by
  rw [differentiate, bind_assoc]

theorem integrate_eq (L : Library) (config : Config) (t name : Text) :
    L.integrate config t name =
      (L.parse (config.scope (some ⟨name, .complex⟩)) t >>= fun e =>
        L.antiderivative? ⟨name, .complex⟩ e >>= fun found =>
          found.elim (.error (.noAntiderivative t)) .ok) >>= L.written := by
  rw [integrate, bind_assoc]
  refine congrArg _ (funext fun e => ?_)
  rw [bind_assoc]
  exact congrArg _ (funext fun found => by cases found <;> rfl)

theorem differentiate_expanded (h : L.TreatsAlike config x y Alike)
    (read : Both Alike (L.parse (config.scope (some ⟨[x], .complex⟩)) s)
      (L.parse (config.scope (some ⟨[y], .complex⟩)) t))
    (indifferent : ∀ w, L.differentiate config s [x] = .ok (.text w) →
      L.IsIndifferent config x w ∧ L.IsIndifferent config y (w.renamed x y)) :
    Both (IsRenamed x y) (L.differentiate config s [x] >>= L.expanded config)
      (L.differentiate config t [y] >>= L.expanded config) := by
  rw [differentiate_eq] at indifferent
  rw [differentiate_eq, differentiate_eq]
  exact h.written_expanded (read.bind fun _ _ _ _ alike => h.derivative alike) indifferent

theorem integrate_expanded (h : L.TreatsAlike config x y Alike)
    (read : Both Alike (L.parse (config.scope (some ⟨[x], .complex⟩)) s)
      (L.parse (config.scope (some ⟨[y], .complex⟩)) t))
    (indifferent : ∀ w, L.integrate config s [x] = .ok (.text w) →
      L.IsIndifferent config x w ∧ L.IsIndifferent config y (w.renamed x y)) :
    Both (IsRenamed x y) (L.integrate config s [x] >>= L.expanded config)
      (L.integrate config t [y] >>= L.expanded config) := by
  rw [integrate_eq] at indifferent
  rw [integrate_eq, integrate_eq]
  refine h.written_expanded (read.bind fun _ _ _ _ alike => ?_) indifferent
  refine (h.antiderivative? alike).bind fun _ _ _ _ found => ?_
  cases found with
  | none => exact .error _ _
  | some alike => exact .ok alike

end TreatsAlike

/-! ## A library to which letters are alike -/

/-- The second polynomial is the first one in another letter. -/
inductive PolynomialsAlike (x y : Char) : Option Char × Poly → Option Char × Poly → Prop
  | number (p : Poly) : PolynomialsAlike x y (none, p) (none, p)
  | polynomial (p : Poly) : PolynomialsAlike x y (some x, p) (some y, p)

theorem polynomials_parse_renamed (hx : isLetter x = true) (hy : isLetter y = true) (h : IsIn x t)
    (scope scope' : Scope) : Both (PolynomialsAlike x y) (polynomials.parse scope t)
      (polynomials.parse scope' (t.renamed x y)) := by
  unfold parse polynomials
  simp only [h.hasOneLetter, (h.renamed y).hasOneLetter, inX_renamed hx hy, find?_renamed hx hy,
    if_true]
  cases Tree.read [] (inX t) with
  | error => exact .error _ _
  | ok tree =>
    cases found : tree.polynomial? with
    | none =>
      simp only [found, Option.elim_none]
      exact .error _ _
    | some p =>
      simp only [found, Option.elim_some]
      rcases h.find?_eq with letter | letter
      · rw [letter]
        exact .ok (.number p)
      · rw [letter, Option.map_some, if_pos rfl]
        exact .ok (.polynomial p)

/-- All letters are alike to the library of polynomials in one letter. -/
theorem polynomials_treatsAlike (config : Config) (hx : isLetter x = true) (hy : isLetter y = true) :
    polynomials.TreatsAlike config x y (PolynomialsAlike x y) where
  derivative h := by
    cases h with
    | number p => exact .ok (.number [])
    | polynomial p => simpa [polynomials] using .ok (.polynomial p.derivative)
  antiderivative? h := by
    cases h with
    | number p => exact .ok (.some (.polynomial p.antiderivative))
    | polynomial p => simpa [polynomials] using .ok (.some (.polynomial p.antiderivative))
  expand h := .ok h
  write h := by
    cases h with
    | number p =>
      have absent : x ∉ Poly.numberText (p.headD 0) := fun hm => by
        obtain rfl := Poly.isIn_numberText '0' _ x hm hx
        exact absurd hx (by decide)
      exact .ok (renamed_of_not_mem absent y).symm
    | polynomial p => exact .ok ((Poly.isIn_text p).renamed_renamed hx).symm
  reread {e f t} h ht := by
    obtain rfl := Except.ok.inj ht
    refine polynomials_parse_renamed hx hy ?_ _ _
    cases h with
    | number p => exact Poly.isIn_numberText x _
    | polynomial p => exact (Poly.isIn_text p).renamed x

end Library

/-! ## The problem -/

namespace Question

open Phrase

/-- A polynomial in one letter as it stands in a problem, with its brackets closed. -/
structure LetterBody (x : Char) (e : Text) : Prop where
  signs : ∀ c ∈ e, c = x ∨ c ∈ polynomialSigns
  argument : Bracket.Argument e
  notBlank : allBlank e = false

variable {x y : Char} {e : Text}

theorem LetterBody.keyless (hx : isLetter x = true) (h : LetterBody x e) : Keyless e :=
  (side_of_letter hx h.signs).1.keyless

theorem LetterBody.renamed (hx : isLetter x = true) (hy : isLetter y = true) (h : LetterBody x e) :
    LetterBody y (e.renamed x y) where
  signs c hc := by
    obtain ⟨d, hd, rfl⟩ := List.mem_map.mp hc
    by_cases hdx : d = x
    · exact .inl (if_pos hdx)
    · rw [if_neg hdx]
      exact .inr ((h.signs d hd).resolve_left hdx)
  argument := by
    have mark : Bracket.isMark x = Bracket.isMark y := by
      rw [isMark_of_isLetter hx, isMark_of_isLetter hy]
    refine h.argument.of_marks ((filter_renamed mark e).trans (renamed_of_not_mem ?_ y))
    intro hm
    exact Bool.false_ne_true ((isMark_of_isLetter hx).symm.trans (List.mem_filter.mp hm).2)
  notBlank := by
    have ink {v : Char} (hv : isLetter v = true) : isBlank v = false :=
      Bool.eq_false_iff.mpr fun blank => absurd hv (by rw [isLetter_of_isBlank blank]; decide)
    have same : (isBlank ∘ fun c => if c = x then y else c) = isBlank := by
      funext c
      by_cases hc : c = x <;> simp [hc, ink hx, ink hy]
    rw [allBlank, Text.renamed, List.all_map, same]
    exact h.notBlank

end Question

/-! ## The answers -/

namespace Strategy

open Phrase

variable {L : Library} {config : Config} {x y : Char} {e t : Text}
  {Alike : L.Expr → L.Expr → Prop}

theorem exists_text_of_expanded {v a : Value} (h : L.expanded config v = .ok a) :
    ∃ t, a = .text t := by
  obtain ⟨_, _, h⟩ := bind_eq_ok.mp h
  obtain ⟨_, _, h⟩ := bind_eq_ok.mp h
  obtain ⟨_, _, h⟩ := bind_eq_ok.mp h
  obtain ⟨t, -, h⟩ := bind_eq_ok.mp h
  exact ⟨t, (Except.ok.inj h).symm⟩

/-- A derivative is answered as it is multiplied out. -/
theorem differentiation_eq {name : Text} (ht : Question.derivative config t = .ok (e, name))
    (problem : Text) (s : Session) :
    (differentiation (L.engine config) config problem t s).1 =
      L.differentiate config e name >>= L.expanded config := by
  have reply (before : List Exchange) (r : Request) :
      L.engine config before r = L.answer config r := rfl
  simp only [differentiation, Run.bind_apply, Run.tell, Run.ofExcept, ht, Run.ask, reply,
    Library.answer]
  cases L.differentiate config e name with
  | error fault => rfl
  | ok d =>
    rw [ok_bind]
    cases expanded : L.expanded config d with
    | error fault => simp only [expanded]
    | ok a =>
      obtain ⟨w, rfl⟩ := exists_text_of_expanded expanded
      simp only [expanded]
      rfl

/-- An antiderivative with the constant behind it. -/
def withConstant (config : Config) (a : Value) : Except Fault Value := do
  return .text ((← a.display) ++ " + ".toList ++ config.integrationConstant)

/-- An antiderivative is answered as it is multiplied out, with the constant. -/
theorem integration_eq {name : Text} (ht : Question.integral config t = .ok (e, name))
    (problem : Text) (s : Session) :
    (integration (L.engine config) config problem t s).1 =
      L.integrate config e name >>= L.expanded config >>= withConstant config := by
  have reply (before : List Exchange) (r : Request) :
      L.engine config before r = L.answer config r := rfl
  simp only [integration, Run.bind_apply, Run.tell, Run.ofExcept, ht, Run.ask, reply,
    Library.answer]
  cases L.integrate config e name with
  | error fault => rfl
  | ok d =>
    rw [ok_bind]
    cases expanded : L.expanded config d with
    | error fault =>
      simp only [expanded]
      rfl
    | ok a =>
      obtain ⟨w, rfl⟩ := exists_text_of_expanded expanded
      simp only [expanded]
      rfl

/-- **Renaming the variable of a calculus problem only renames it in the answer**, if letters are
alike to the library and what it writes first means the same in a request without a variable. The
answer is what the library finds and multiplies out, with the constant if it is an antiderivative,
and there is none only if the library has none. -/
theorem calculus_renamed (hL : L.TreatsAlike config x y Alike) (hx : isLetter x = true)
    (hy : isLetter y = true) (body : Question.LetterBody x e)
    (read : Both Alike (L.parse (config.scope (some ⟨[x], .complex⟩)) (plain e))
      (L.parse (config.scope (some ⟨[y], .complex⟩)) (plain (e.renamed x y))))
    (problem problem' : Text) (s s' : Session) :
    ((differentiation (L.engine config) config problem
          (canonical (callText derivativeName [e, [x]])) s).1 =
        L.differentiate config (plain e) [x] >>= L.expanded config ∧
      ((∀ t, L.differentiate config (plain e) [x] = .ok (.text t) →
          L.IsIndifferent config x t ∧ L.IsIndifferent config y (t.renamed x y)) →
        Both (IsRenamed x y)
          (differentiation (L.engine config) config problem
            (canonical (callText derivativeName [e, [x]])) s).1
          (differentiation (L.engine config) config problem'
            (canonical (callText derivativeName [e.renamed x y, [y]])) s').1)) ∧
    ((integration (L.engine config) config problem
          (canonical (callText integralName [e, [x]])) s).1 =
        L.integrate config (plain e) [x] >>= L.expanded config >>= withConstant config ∧
      ((∀ t, L.integrate config (plain e) [x] = .ok (.text t) →
          L.IsIndifferent config x t ∧ L.IsIndifferent config y (t.renamed x y)) →
        x ∉ config.integrationConstant →
        Both (IsRenamed x y)
          (integration (L.engine config) config problem
            (canonical (callText integralName [e, [x]])) s).1
          (integration (L.engine config) config problem'
            (canonical (callText integralName [e.renamed x y, [y]])) s').1)) := by
  have body' := body.renamed hx hy
  have derivative := differentiation_eq (L := L)
    (derivative_callForm config hx body.notBlank body.argument (body.keyless hx)) problem s
  have derivative' := differentiation_eq (L := L)
    (derivative_callForm config hy body'.notBlank body'.argument (body'.keyless hy)) problem' s'
  have integral := integration_eq (L := L)
    (integral_longForm config hx body.notBlank body.argument (body.keyless hx)) problem s
  have integral' := integration_eq (L := L)
    (integral_longForm config hy body'.notBlank body'.argument (body'.keyless hy)) problem' s'
  refine ⟨⟨derivative, fun indifferent => ?_⟩, ⟨integral, fun indifferent absent => ?_⟩⟩
  · rw [derivative, derivative']
    exact hL.differentiate_expanded read indifferent
  · rw [integral, integral']
    refine (hL.integrate_expanded read indifferent).bind ?_
    rintro _ _ - - ⟨t, rfl, rfl⟩
    have plus : x ∉ " + ".toList := fun hm => by
      have marks : ∀ c ∈ " + ".toList, isLetter c = false := forall_mem_of_all (by decide)
      exact Bool.false_ne_true ((marks x hm).symm.trans hx)
    refine .ok ⟨_, rfl, congrArg Value.text ?_⟩
    rw [renamed_append, renamed_append, renamed_of_not_mem plus, renamed_of_not_mem absent]

/-- A polynomial with products that have no sign, in another letter. -/
theorem calculus_renamed_quadratic :
    (Library.polynomials.TreatsAlike .default 'x' 't' (Library.PolynomialsAlike 'x' 't') ∧
      isLetter 'x' = true ∧ isLetter 't' = true ∧
      Question.LetterBody 'x' "3x^2 - 2x".toList ∧
      Both (Library.PolynomialsAlike 'x' 't')
        (Library.polynomials.parse (Config.default.scope (some ⟨['x'], .complex⟩))
          (plain "3x^2 - 2x".toList))
        (Library.polynomials.parse (Config.default.scope (some ⟨['t'], .complex⟩))
          (plain (renamed 'x' 't' "3x^2 - 2x".toList))) ∧
      (∀ u, Library.polynomials.IsIndifferent .default 'x' u ∧
        Library.polynomials.IsIndifferent .default 't' (u.renamed 'x' 't')) ∧
      'x' ∉ Config.default.integrationConstant) ∧
    Both (IsRenamed 'x' 't')
      (differentiation (Library.polynomials.engine .default) .default "diff(3x^2 - 2x,x)".toList
        (canonical (callText derivativeName ["3x^2 - 2x".toList, ['x']])) .start).1
      (differentiation (Library.polynomials.engine .default) .default "diff(3t^2 - 2t,t)".toList
        (canonical (callText derivativeName [renamed 'x' 't' "3x^2 - 2x".toList, ['t']])) .start).1 ∧
    Both (IsRenamed 'x' 't')
      (integration (Library.polynomials.engine .default) .default "integrate(3x^2 - 2x,x)".toList
        (canonical (callText integralName ["3x^2 - 2x".toList, ['x']])) .start).1
      (integration (Library.polynomials.engine .default) .default "integrate(3t^2 - 2t,t)".toList
        (canonical (callText integralName [renamed 'x' 't' "3x^2 - 2x".toList, ['t']])) .start).1 ∧
    (differentiation (Library.polynomials.engine .default) .default "diff(3t^2 - 2t,t)".toList
      (canonical (callText derivativeName [renamed 'x' 't' "3x^2 - 2x".toList, ['t']])) .start).1 =
        .ok (.text "6*t - 2".toList) ∧
    (integration (Library.polynomials.engine .default) .default "integrate(3t^2 - 2t,t)".toList
      (canonical (callText integralName [renamed 'x' 't' "3x^2 - 2x".toList, ['t']])) .start).1 =
        .ok (.text "t^3 - t^2 + C".toList) := by
  have x : isLetter 'x' = true := by decide
  have t : isLetter 't' = true := by decide
  have alike := Library.polynomials_treatsAlike .default x t
  have body : Question.LetterBody 'x' "3x^2 - 2x".toList :=
    ⟨forall_mem_of_all (by decide), ⟨by decide, by decide⟩, by decide⟩
  have read := Library.polynomials_parse_renamed (t := "3x^2-2x".toList) x t
    (forall_mem_of_all (by decide)) (Config.default.scope (some ⟨['x'], .complex⟩))
    (Config.default.scope (some ⟨['t'], .complex⟩))
  have plain_x : plain "3x^2 - 2x".toList = "3x^2-2x".toList := by decide +kernel
  have plain_t : plain (renamed 'x' 't' "3x^2 - 2x".toList) = renamed 'x' 't' "3x^2-2x".toList := by
    decide +kernel
  rw [← plain_t, ← plain_x] at read
  have indifferent (u : Text) : Library.polynomials.IsIndifferent .default 'x' u ∧
      Library.polynomials.IsIndifferent .default 't' (u.renamed 'x' 't') := ⟨rfl, rfl⟩
  have absent : 'x' ∉ Config.default.integrationConstant := by decide
  have alike_answers := calculus_renamed alike x t body read
  exact ⟨⟨alike, x, t, body, read, indifferent, absent⟩,
    (alike_answers _ _ .start .start).1.2 fun u _ => indifferent u,
    (alike_answers _ _ .start .start).2.2 (fun u _ => indifferent u) absent,
    isAnswer_iff.mp (by decide +kernel), isAnswer_iff.mp (by decide +kernel)⟩

theorem expanded_of_isIndifferent (h : L.IsIndifferent config x t) :
    L.expanded config (.text t) =
      L.parse (config.scope (some ⟨[x], .complex⟩)) t >>= fun e => L.expand e >>= L.written := by
  rw [← h.parse]
  rfl

/-- For a letter that is a number to the library, the answers to one problem in two letters differ in
more than the letter, and so they do where a letter behind a digit makes a number of it. -/
theorem calculus_known_letters :
    ((differentiation (Algebra.library.engine .default) .default "diff(x^2,x)".toList
        (canonical "diff(x^2,x)".toList) .start).1 = .ok (.text "2*x".toList) ∧
      (differentiation (Algebra.library.engine .default) .default "diff(e^2,e)".toList
        (canonical "diff(e^2,e)".toList) .start).1 = .ok (.text "2*E".toList) ∧
      "2*E".toList ≠ renamed 'x' 'e' "2*x".toList) ∧
    (differentiation (Algebra.library.engine .default) .default "diff(2x,x)".toList
        (canonical "diff(2x,x)".toList) .start).1 = .ok (.text "2".toList) ∧
      (differentiation (Algebra.library.engine .default) .default "diff(2j,j)".toList
        (canonical "diff(2j,j)".toList) .start).1 = .ok (.text "0".toList) := by
  have asked : Question.derivative .default (canonical "diff(x^2,x)".toList) =
      .ok ("x^2".toList, ['x']) := by
    have plain_eq : plain "x^2".toList = "x^2".toList := by decide +kernel
    have asked := derivative_callForm (v := 'x') (e := "x^2".toList) .default (by decide) (by decide)
      ⟨by decide, by decide⟩ (by decide +kernel)
    rwa [plain_eq] at asked
  have derivative : Algebra.library.differentiate .default "x^2".toList ['x'] =
      .ok (.text "2*x".toList) := isAnswer_iff.mp (by decide +kernel)
  -- The letter is looked for among the names of the library, unless the request is about it.
  have indifferent := Algebra.isIndifferent (v := 'x') (by decide) "2*x".toList
  have expanded : Algebra.library.expanded .default (.text "2*x".toList) =
      .ok (.text "2*x".toList) :=
    (expanded_of_isIndifferent indifferent).trans (isAnswer_iff.mp (by decide +kernel))
  refine ⟨⟨?_, isAnswer_iff.mp (by decide +kernel), by decide⟩, isAnswer_iff.mp (by decide +kernel),
    isAnswer_iff.mp (by decide +kernel)⟩
  rw [differentiation_eq asked, derivative, ok_bind, expanded]

end Strategy

end Stepwise
