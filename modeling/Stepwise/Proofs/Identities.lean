import Stepwise.Algebra.Engine
import Stepwise.Proofs.Ending
import Stepwise.Proofs.Equations
import Stepwise.Proofs.Expansion
import Stepwise.Proofs.Fractions
import Stepwise.Proofs.Letters
import Stepwise.Solve.Strategy

/-!
# Identities of polynomials

An equation that holds for all values of its unknown is not solved but reported as an identity. An
engine has its library take the difference of both sides and say whether that vanishes. What is
asked of the library is that it does so rightly for polynomials (`Library.ComparesPolynomials`). The
sides are read without a variable of their own for the unknown, so an equation is decided rightly if
its unknown means nothing else in it (`Library.IsIndifferent`); most letters do not, but to the
library of terms `I` is a number and `S` is a function.

Results: `Algebra.vanishes_iff` and `Algebra.comparesPolynomials`, the library of terms compares
polynomials; `Question.side_of_letter`, the texts in which only one letter occurs;
`Strategy.algebra_ends_of_identity`, how a solution ends by what the engine answers; and
`Strategy.algebra_identity_iff`, an equation of polynomials is answered with all numbers if and only
if it is an identity.
-/

namespace Stepwise

open MvPolynomial

namespace Term

variable {t : Term}

/-! ## The test -/

theorem IsJoined.any_eq_false {f : Term → Bool} (h : t.IsJoined)
    (hf : ∀ u : Term, u.IsJoined → f u = false) : t.any f = false := by
  have all {ts : List Term} (h : ∀ t ∈ ts, t.any f = false) : anyOf f ts = false := by
    induction ts with
    | nil => rfl
    | cons t ts ih =>
      rw [anyOf, h t List.mem_cons_self, ih fun u hu => h u (List.mem_cons_of_mem t hu)]
      rfl
  induction h with
  | number q =>
    unfold any
    exact Bool.or_eq_false_iff.mpr ⟨hf _ (.number q), rfl⟩
  | letter c =>
    unfold any
    exact Bool.or_eq_false_iff.mpr ⟨hf _ (.letter c), rfl⟩
  | sum h ih =>
    unfold any
    exact Bool.or_eq_false_iff.mpr ⟨hf _ (.sum h), all ih⟩
  | power n hb hj ih =>
    unfold any
    refine Bool.or_eq_false_iff.mpr ⟨hf _ (.power n hb hj), Bool.or_eq_false_iff.mpr ⟨ih, ?_⟩⟩
    unfold any
    exact Bool.or_eq_false_iff.mpr ⟨hf _ (.number n), rfl⟩
  | product h flat ih =>
    unfold any
    exact Bool.or_eq_false_iff.mpr ⟨hf _ (.product h flat), all ih⟩

theorem IsJoined.isImproper (h : t.IsJoined) : t.isImproper = false :=
  h.any_eq_false fun u hu => by cases hu <;> rfl

end Term

namespace Algebra

open Term

variable {s t : Term} {l r equation : Text} {v : Char} {p q : MvPolynomial Char ℚ}

theorem hasFunctions_of_isJoined (h : t.IsJoined) : hasFunctions t = false :=
  h.any_eq_false fun u hu => by
    cases hu with
    | power n => exact decide_eq_false (not_not_intro (Rat.den_natCast n))
    | _ => rfl

/-- **The term of a polynomial vanishes for all values if and only if the polynomial is zero.** -/
theorem vanishes_iff (h : t.IsJoined) : vanishes t = true ↔ t.polynomial = 0 := by
  have u := expand_of_isJoined h
  have fraction := isFraction_fraction u.expanded.isJoined
  have n := expand_of_isJoined fraction.joined
  obtain ⟨k, hk, -, numerator⟩ := fraction.denominator
  unfold vanishes
  by_cases zero : t.polynomial = 0
  · rw [h.isImproper, if_pos (u.expanded.eq_zero_iff.mpr (u.value.trans zero))]
    simp [zero]
  · have other {w : Term} (hw : w.polynomial ≠ 0) : w ≠ Term.zero :=
      fun same => hw (same ▸ polynomial_zero)
    have nonzero : (C (k : ℚ) * t.polynomial : MvPolynomial Char ℚ) ≠ 0 :=
      mul_ne_zero (fun same => hk (Nat.cast_eq_zero.mp (C_eq_zero.mp same))) zero
    have hu : (Term.expand t).polynomial ≠ 0 := u.value ▸ zero
    have hn : (Term.expand (Term.fraction (Term.expand t)).1).polynomial ≠ 0 := by
      rw [n.value, numerator, u.value]
      exact nonzero
    rw [if_neg (other zero), h.isImproper, if_neg Bool.false_ne_true, if_neg (other hu),
      u.expanded.isJoined.isImproper, if_neg Bool.false_ne_true, if_neg (other hn),
      hasFunctions_of_isJoined n.expanded.isJoined]
    simp [zero]

/-! ## The sides of an equation -/

theorem sides_equation (hl : Text.trim l = l) (hr : Text.trim r = r) (nl : l ≠ []) (nr : r ≠ [])
    (el : '=' ∉ l) (er : '=' ∉ r) : sides (l ++ '=' :: r) = .ok (l, r) := by
  have one : ∀ {t : Text}, '=' ∉ t → Text.splitOn '=' t = [t] := by
    intro t
    induction t with
    | nil => exact fun _ => rfl
    | cons c cs ih =>
      intro h
      rw [List.mem_cons, not_or] at h
      rw [Text.splitOn, if_neg (Ne.symm h.1), ih h.2]
  have two : Text.splitOn '=' (l ++ '=' :: r) = [l, r] := by
    clear hl nl
    induction l with
    | nil => rw [List.nil_append, Text.splitOn, if_pos rfl, one er]
    | cons c cs ih =>
      rw [List.mem_cons, not_or] at el
      rw [List.cons_append, Text.splitOn, if_neg (Ne.symm el.1), ih el.2]
  rw [sides, two]
  simp only [hl, hr, List.isEmpty_eq_false_iff.mpr nl, List.isEmpty_eq_false_iff.mpr nr,
    Bool.or_self, Bool.false_eq_true, if_false]

end Algebra

/-! ## Libraries that compare polynomials -/

namespace Library

open Text

variable {L : Library} {Is : L.Expr → MvPolynomial Char ℚ → Prop} {config : Config} {l r : Text}
  {p q : MvPolynomial Char ℚ}

/-- The text is read as an expression for the polynomial. -/
def Reads (L : Library) (Is : L.Expr → MvPolynomial Char ℚ → Prop) (scope : Scope) (t : Text)
    (p : MvPolynomial Char ℚ) : Prop :=
  ∃ e, L.read scope t = .expression e ∧ Is e p

/-- The text is read in one way, whether a request is about the letter or about none. -/
def IsIndifferent (L : Library) (config : Config) (v : Char) (t : Text) : Prop :=
  L.read (config.scope none) t = L.read (config.scope (some ⟨[v], .complex⟩)) t

/-- The library takes differences of polynomials and knows which of them are zero. Nothing at all is
not read as a polynomial. -/
structure ComparesPolynomials (L : Library) (Is : L.Expr → MvPolynomial Char ℚ → Prop) : Prop where
  blank : ∀ {scope : Scope} {p : MvPolynomial Char ℚ}, ¬L.Reads Is scope [] p
  difference : ∀ {e f : L.Expr} {p q : MvPolynomial Char ℚ}, Is e p → Is f q →
    ∃ d, L.difference e f = .ok d ∧ Is d (p - q)
  vanishes : ∀ {e : L.Expr} {p : MvPolynomial Char ℚ}, Is e p →
    ∃ b, L.vanishes e = .ok b ∧ (b = true ↔ p = 0)

theorem parseSides_equation {scope : Scope} {e f : L.Expr} (hl : trim l = l) (hr : trim r = r)
    (nl : l ≠ []) (nr : r ≠ []) (el : '=' ∉ l) (er : '=' ∉ r) (he : L.parse scope l = .ok e)
    (hf : L.parse scope r = .ok f) : L.parseSides scope (l ++ '=' :: r) = .ok (e, f) :=
  bind_eq_ok.mpr ⟨_, Algebra.sides_equation hl hr nl nr el er,
    bind_eq_ok.mpr ⟨e, he, bind_eq_ok.mpr ⟨f, hf, rfl⟩⟩⟩

namespace ComparesPolynomials

theorem ne_nil (h : L.ComparesPolynomials Is) {scope : Scope} (wl : L.Reads Is scope l p) : l ≠ [] := by
  rintro rfl
  exact h.blank wl

/-- **An engine tells whether an equation of polynomials is an identity**, as its sides are read
without a variable. -/
theorem isIdentity (h : L.ComparesPolynomials Is) (hl : trim l = l) (hr : trim r = r)
    (el : '=' ∉ l) (er : '=' ∉ r) (wl : L.Reads Is (config.scope none) l p)
    (wr : L.Reads Is (config.scope none) r q) :
    ∃ b, L.isIdentity config (l ++ '=' :: r) = .ok (.bool b) ∧ (b = true ↔ p = q) := by
  have nl := h.ne_nil wl
  have nr := h.ne_nil wr
  obtain ⟨e, he, hp⟩ := wl
  obtain ⟨f, hf, hq⟩ := wr
  obtain ⟨d, hd, hpq⟩ := h.difference hp hq
  obtain ⟨b, hb, zero⟩ := h.vanishes hpq
  have both := parseSides_equation hl hr nl nr el er (L.parse_eq_ok.mpr he) (L.parse_eq_ok.mpr hf)
  exact ⟨b, bind_eq_ok.mpr ⟨_, both, bind_eq_ok.mpr ⟨d, hd, bind_eq_ok.mpr ⟨b, hb, rfl⟩⟩⟩,
    zero.trans sub_eq_zero⟩

end ComparesPolynomials

end Library

namespace Algebra

open Term

/-- The term stands for the polynomial. -/
def IsTerm (t : Term) (p : MvPolynomial Char ℚ) : Prop := t.IsJoined ∧ t.polynomial = p

/-- **The library of terms compares polynomials.** -/
theorem comparesPolynomials : library.ComparesPolynomials IsTerm where
  blank := by
    rintro scope p ⟨e, he, -⟩
    exact absurd (show Library.Reading.unreadable = _ from he) nofun
  difference := by
    rintro s t _ _ ⟨hs, rfl⟩ ⟨ht, rfl⟩
    exact ⟨_, rfl, hs.sub ht, polynomial_sub hs ht⟩
  vanishes := by
    rintro t _ ⟨ht, rfl⟩
    exact ⟨_, rfl, vanishes_iff ht⟩

theorem isNoTerm_of_isPolynomial {f : Formula} (h : Formula.IsPolynomial f p) :
    f.isNoTerm = false := by
  cases h with
  | @constant f a hf =>
    cases f with
    | callable => exact absurd hf (by simp [Formula.rational?])
    | list => exact absurd hf (by simp [Formula.rational?])
    | _ => rfl
  | _ => rfl

theorem parse_of_read {config : Config} {bound : Option Symbol} {f : Formula} {t : Term}
    (read : Formula.read? (names config bound) l = some f) (hf : f.isNoTerm = false)
    (value : f.value? = some t) : library.parse (config.scope bound) l = .ok t := by
  rw [parse_library, Formula.evaluate, read]
  simp only [hf, Bool.false_eq_true, if_false, value]
  rfl

/-- What writes a polynomial in a request about a letter is read as its term. -/
theorem reads_of_writes (h : Formula.Writes v l p) :
    library.Reads IsTerm (Config.default.scope (some ⟨[v], .complex⟩)) l p := by
  obtain ⟨f, read, hf⟩ := h
  obtain ⟨t, value, ht⟩ := hf.exists_value?
  exact ⟨t, library.parse_eq_ok.mp (parse_of_read read (isNoTerm_of_isPolynomial hf) value), ht⟩

/-- Most letters mean nothing to the library. -/
theorem isIndifferent (hv : v ∈ Formula.variableLetters) (t : Text) :
    library.IsIndifferent .default v t := by
  unfold Library.IsIndifferent library
  simp only [namesOf_scope, Formula.evaluate_bound hv]

end Algebra

namespace Question

open Text Phrase Pattern

variable {t : Text} {v : Char}

/-- The characters of a polynomial with whole coefficients, apart from its letter. -/
def polynomialSigns : Text := "0123456789+-*^²³()[]\x7b\x7d ".toList ++ timesSigns ++ dashes

/-- A letter is the same as one small letter at most. -/
theorem eq_of_sameLetter (hv : isLetter v = true) {a b : Char} (ha : sameLetter a v = true)
    (hb : sameLetter b v = true) : a = b := by
  have other {c : Char} (hc : isLetter c = false) : v ≠ c :=
    fun same => Bool.false_ne_true ((same ▸ hc).symm.trans hv)
  have ascii : caseVariant? v = none := by
    rw [caseVariant?, if_neg (not_or.mpr ⟨other (by decide), other (by decide)⟩),
      if_neg (other (by decide)), if_neg (other (by decide))]
  rw [sameLetter, ascii] at ha hb
  simp only [beq_iff_eq, Bool.or_eq_true, reduceCtorEq, or_false] at ha hb
  exact ha.symm.trans hb

/-- A word with two different letters in front is not read where there is only one letter. -/
theorem nowhere_word_of_letter (hv : isLetter v = true)
    (h : ∀ c ∈ t, c = v ∨ c ∈ polynomialSigns) {a b : Char}
    (ha : (polynomialSigns.all fun c => !sameLetter a c) = true)
    (hb : (polynomialSigns.all fun c => !sameLetter b c) = true) (hab : a ≠ b) (w : Text) :
    Nowhere (word (a :: b :: w)) t := by
  have same {q c : Char} (hq : (polynomialSigns.all fun c => !sameLetter q c) = true) (hc : c ∈ t)
      (hs : sameLetter q c = true) : c = v := by
    refine (h c hc).resolve_right fun sign => ?_
    exact absurd (List.all_eq_true.mp hq c sign) (by simp [hs])
  intro s hs
  match s, hs with
  | [], _ => rfl
  | [c], _ => exact ite_self _
  | c :: d :: cs, hs =>
    cases first : sameLetter a c with
    | false => exact word_cons_eq_nil first _ _
    | true =>
      obtain rfl := same ha (hs.subset List.mem_cons_self) first
      refine (if_pos first).trans (word_cons_eq_nil (Bool.eq_false_iff.mpr fun second => ?_) _ _)
      obtain rfl := same hb (hs.subset (List.mem_cons_of_mem _ List.mem_cons_self)) second
      exact hab (eq_of_sameLetter hv first second)

/-- **Where there are no letters but one, a side holds nothing that is read as a phrase.** -/
theorem side_of_letter (hv : isLetter v = true) (h : ∀ c ∈ t, c = v ∨ c ∈ polynomialSigns) :
    Side t ∧ EndsOpen t := by
  have absent {c : Char} (hc : isLetter c = false) (hs : c ∉ polynomialSigns) : c ∉ t :=
    fun ht => (h c ht).elim (fun same => Bool.false_ne_true ((same ▸ hc).symm.trans hv)) hs
  refine ⟨⟨⟨nowhere_operatorStart (absent (by decide) (by decide)),
    absent (by decide) (by decide), ?_⟩, ?_, absent (by decide) (by decide),
    absent (by decide) (by decide)⟩, fun c hc => ?_⟩
  · intro w hw
    simp only [keywords, List.mem_cons, List.not_mem_nil, or_false] at hw
    rcases hw with rfl | rfl | rfl | rfl
    · exact nowhere_word_of_letter hv h (by decide) (by decide) (by decide) "rivative".toList
    · exact nowhere_word_of_letter hv h (by decide) (by decide) (by decide) "fferentiate".toList
    · exact nowhere_word_of_letter hv h (by decide) (by decide) (by decide) "t".toList
    · exact nowhere_word_of_letter hv h (by decide) (by decide) (by decide) "m".toList
  · exact nowhere_word_of_letter hv (fun c hc => h c (List.mem_filter.mp hc).1) (by decide)
      (by decide) (by decide) "r".toList
  · have inside := (List.dropWhile_sublist isBlank).subset
      (dropEndWhile_subset isBlank _ (List.mem_of_getLast? hc))
    exact ⟨fun same => absent (by decide) (by decide) (same ▸ inside),
      fun same => absent (by decide) (by decide) (same ▸ inside)⟩

end Question

namespace Strategy

open Text Phrase Formula

variable {v : Char} {l r : Text} {p q : MvPolynomial Char ℚ}

/-- The session tells that both sides of an equation are the same. -/
def TellsIdentity (s : Session) : Prop := ∃ step ∈ s.steps, step.action = Action.identityRecognized

/-! ## Solutions in one text -/

/-- The answer to an identity has no comma in it, so it is not put together from several texts. -/
theorem eq_of_joinWith_eq {texts : List Text} (h : joinWith ", ".toList texts = allNumbers) :
    texts = [allNumbers] := by
  match texts with
  | [] => exact absurd h (by decide)
  | [t] => exact congrArg (fun t => [t]) h
  | t :: u :: ts =>
    have comma : ',' ∈ joinWith ", ".toList (t :: u :: ts) := by simp [joinWith]
    exact absurd (h ▸ comma) (by decide)

theorem eq_of_go_eq_ok {vs : List Value} {texts : List Text} {n : Nat}
    (h : solutionTexts.go n vs = .ok texts) : vs = texts.map .text := by
  induction vs generalizing n texts with
  | nil =>
    obtain rfl := Except.ok.inj h
    rfl
  | cons v vs ih =>
    cases v with
    | text t =>
      obtain ⟨ts, hts, rest⟩ := bind_eq_ok.mp h
      obtain rfl := Except.ok.inj rest
      exact congrArg _ (ih hts)
    | _ => exact absurd h nofun

/-! ## The answer -/

/-- An engine decides how a solution ends: what it takes for an identity holds for all numbers, and
nothing else is answered like that, unless its solutions are, or told to be one. -/
theorem algebra_ends_of_identity {engine : Engine} {config : Config} {canonical equation x : Text}
    {b : Bool} (problem : Text) (hread : ∀ s, Question.equation engine config canonical s =
      (.ok (equation, .text x), s))
    (hidentity : ∀ before, engine before (.isIdentity equation) = .ok (.bool b))
    (hsolve : ∀ before solutions, engine before (.solve equation (.text x)) = .ok solutions →
      solutionTexts solutions ≠ .ok [allNumbers]) :
    Run.Ends (algebra engine config problem canonical) .start
      (fun a s => (a = .text allNumbers ↔ b = true) ∧ (TellsIdentity s ↔ b = true))
      (fun _ s => b = false ∧ ¬TellsIdentity s) := by
  have read {done : Text × Value → Session → Prop} {failed : Fault → Session → Prop}
      {s : Session} : Run.Ends (Question.equation engine config canonical) s done failed ↔
        done (equation, .text x) s := by
    unfold Run.Ends
    rw [hread]
  have identified : Action.equationIdentified ≠ Action.identityRecognized := by decide
  have solved : Action.equationSolved ≠ Action.identityRecognized := by decide
  simp only [algebra, Run.ends_bind, Run.ends_tell, read, Run.ends_ask, hidentity]
  refine ⟨?_, fun fault h => absurd h (by simp)⟩
  rintro _ hv
  obtain rfl := Except.ok.inj hv
  cases b with
  | true =>
    rw [if_pos (by rfl)]
    simp only [Run.ends_bind, Run.ends_display, Run.ends_tell, Run.ends_pure]
    have told {steps : List Step} {step : Step} (h : step.action = Action.identityRecognized)
        {e : List Exchange} : TellsIdentity ⟨e, steps ++ [step]⟩ :=
      ⟨step, List.mem_append_right steps List.mem_cons_self, h⟩
    exact ⟨fun name _ => ⟨trivial, iff_of_true (told rfl) trivial⟩,
      fun fault h => absurd h (by simp [Value.display])⟩
  | false =>
    rw [if_neg (by simp [Value.isTrue])]
    have silent {e : List Exchange} : ¬TellsIdentity ⟨e, Session.start.steps ++
        [{  action := Action.equationIdentified
            math := problem
            explanation := "Recognized as an algebraic equation.".toList }]⟩ := by
      rintro ⟨step, hstep, same⟩
      rw [List.mem_singleton.mp hstep] at same
      exact identified same
    rw [Run.ends_bind, Run.ends_ask]
    refine ⟨fun solutions hs => ?_, fun fault _ => ⟨by trivial, silent⟩⟩
    split
    · exact Run.ends_bind.mpr (Run.ends_throw.mpr ⟨by trivial, silent⟩)
    · simp only [Run.ends_bind, Run.ends_ofExcept, Run.ends_display, Run.ends_tell, Run.ends_pure]
      refine ⟨fun texts ht => ⟨fun name _ => ⟨iff_of_false ?_ Bool.false_ne_true, ?_⟩,
        fun fault _ => ⟨by trivial, silent⟩⟩, fun fault _ => ⟨by trivial, silent⟩⟩
      · intro same
        exact hsolve _ _ hs (eq_of_joinWith_eq (Value.text.inj same) ▸ ht)
      refine iff_of_false ?_ Bool.false_ne_true
      rintro ⟨step, hstep, same⟩
      rcases List.mem_append.mp hstep with hstep | hstep
      · exact silent (e := []) ⟨step, hstep, same⟩
      · rw [List.mem_singleton.mp hstep] at same
        exact solved same

/-- What the engine takes for an identity is answered with all numbers and told to be one, and
nothing else is. -/
theorem algebra_identity {engine : Engine} {config : Config} {canonical equation x : Text}
    {b : Bool} (problem : Text) (hread : ∀ s, Question.equation engine config canonical s =
      (.ok (equation, .text x), s))
    (hidentity : ∀ before, engine before (.isIdentity equation) = .ok (.bool b))
    (hsolve : ∀ before solutions, engine before (.solve equation (.text x)) = .ok solutions →
      solutionTexts solutions ≠ .ok [allNumbers]) :
    ((algebra engine config problem canonical .start).1 = .ok (.text allNumbers) ↔ b = true) ∧
      (TellsIdentity (algebra engine config problem canonical .start).2 ↔ b = true) := by
  have ends := algebra_ends_of_identity problem hread hidentity hsolve
  unfold Run.Ends at ends
  generalize algebra engine config problem canonical .start = run at ends ⊢
  obtain ⟨fault | a, s⟩ := run
  · rw [ends.1]
    exact ⟨iff_of_false nofun Bool.false_ne_true, iff_of_false ends.2 Bool.false_ne_true⟩
  · rw [Except.ok.injEq]
    exact ends

variable {L : Library} {Is : L.Expr → MvPolynomial Char ℚ → Prop} {config : Config}

theorem solutionTexts_ne {equation : Text} {x : Text}
    (h : L.solve config equation x ≠ .ok (.list [.text allNumbers])) (solutions : Value)
    (hs : L.solve config equation x = .ok solutions) :
    solutionTexts solutions ≠ .ok [allNumbers] := by
  intro ht
  obtain ⟨⟨e, f⟩, -, found⟩ := bind_eq_ok.mp hs
  obtain ⟨_ | es, -, list⟩ := bind_eq_ok.mp found
  · exact absurd list nofun
  · obtain ⟨vs, -, rest⟩ := bind_eq_ok.mp list
    obtain rfl := Except.ok.inj rest
    have same : vs = [.text allNumbers] := eq_of_go_eq_ok ht
    exact h (same ▸ hs)

/-- **An equation of polynomials in one letter is answered with all numbers if and only if both
polynomials are the same**, and only then it is told to be an identity. In both sides the letter
means nothing else to the library, and no solution is written like the answer to an identity. -/
theorem algebra_identity_iff (hL : L.ComparesPolynomials Is) (hv : isLetter v = true)
    (hl : ∀ c ∈ l, c = v ∨ c ∈ Question.polynomialSigns)
    (hr : ∀ c ∈ r, c = v ∨ c ∈ Question.polynomialSigns)
    (wl : L.Reads Is (config.scope (some ⟨[v], .complex⟩)) (plain l) p)
    (wr : L.Reads Is (config.scope (some ⟨[v], .complex⟩)) (plain r) q)
    (indifferent : ∀ t ∈ [plain l, plain r], L.IsIndifferent config v t)
    (hsolve : L.solve config (plain l ++ '=' :: plain r) [v] ≠ .ok (.list [.text allNumbers]))
    (problem : Text) :
    ∀ t ∈ Question.spellings v l r,
      ((algebra (L.engine config) config problem (canonical t) .start).1 = .ok (.text allNumbers) ↔
        p = q) ∧
      (TellsIdentity (algebra (L.engine config) config problem (canonical t) .start).2 ↔ p = q) := by
  intro t ht
  have unbound {t : Text} {p : MvPolynomial Char ℚ} (h : L.IsIndifferent config v t)
      (w : L.Reads Is (config.scope (some ⟨[v], .complex⟩)) t p) :
      L.Reads Is (config.scope none) t p := by
    unfold Library.Reads
    rwa [h]
  have glosses : ∀ new ∈ glosses, '=' ∉ new := by decide
  have equals {t : Text} (h : ∀ c ∈ t, c = v ∨ c ∈ Question.polynomialSigns) : '=' ∉ plain t :=
    fun ht => (h _ (mem_of_mem_plain glosses ht)).elim
      (fun same => absurd (same ▸ hv) (by decide)) (by decide)
  obtain ⟨b, identity, hb⟩ := hL.isIdentity (trim_plain l) (trim_plain r) (equals hl) (equals hr)
    (unbound (indifferent _ List.mem_cons_self) wl)
    (unbound (indifferent _ (List.mem_cons_of_mem _ List.mem_cons_self)) wr)
  rw [← hb]
  exact algebra_identity problem (Question.equation_spelling hv (Question.side_of_letter hv hl).1
      (Question.side_of_letter hv hr).1 (Question.side_of_letter hv hr).2 t ht (L.engine config) config)
    (fun _ => identity) fun _ => solutionTexts_ne hsolve

theorem scanned_x {d : Domain} {rest : Text} (h : (rest.head?.map isWord).getD false = false) :
    Token.Scanned (Algebra.names .default (some ⟨['x'], d⟩)) ['x'] [.term (.symbol ⟨['x'], d⟩)] rest :=
  scanned_variable (by decide) h

theorem read_product (d : Domain) :
    read? (Algebra.names .default (some ⟨['x'], d⟩)) "x*(x+2)".toList =
      some (.operation .times (.term (.symbol ⟨['x'], d⟩))
        (.operation .plus (.term (.symbol ⟨['x'], d⟩)) (.term (.number 2)))) := by
  have scan : Formula.Token.scan (Algebra.names .default (some ⟨['x'], d⟩))
      "x*(x+2)".toList = some [.term (.symbol ⟨['x'], d⟩), .sign '*', .sign '(',
        .term (.symbol ⟨['x'], d⟩), .sign '+', .term (.number 2), .sign ')'] :=
    Token.Scanned.scanFrom <| (scanned_x (by decide)).append <|
      (Token.scanned_sign (by decide) (by decide)).append <|
      (Token.scanned_sign (by decide) (by decide)).append <|
      (scanned_x (by decide)).append <|
      (Token.scanned_sign (by decide) (by decide)).append <|
      (Token.scanned_digit (by decide) (by rfl)).append
        (Token.scanned_sign (by decide) (by decide))
  rw [read?, scan]
  rfl

theorem read_powers (d : Domain) :
    read? (Algebra.names .default (some ⟨['x'], d⟩)) "x^2+2*x".toList =
      some (.operation .plus (.operation .power (.term (.symbol ⟨['x'], d⟩)) (.term (.number 2)))
        (.operation .times (.term (.number 2)) (.term (.symbol ⟨['x'], d⟩)))) := by
  have scan : Formula.Token.scan (Algebra.names .default (some ⟨['x'], d⟩))
      "x^2+2*x".toList = some [.term (.symbol ⟨['x'], d⟩), .sign '^', .term (.number 2),
        .sign '+', .term (.number 2), .sign '*', .term (.symbol ⟨['x'], d⟩)] :=
    Token.Scanned.scanFrom <| (scanned_x (by decide)).append <|
      (Token.scanned_sign (by decide) (by decide)).append <|
      (Token.scanned_digit (by decide) (by rfl)).append <|
      (Token.scanned_sign (by decide) (by decide)).append <|
      (Token.scanned_digit (by decide) (by rfl)).append <|
      (Token.scanned_sign (by decide) (by decide)).append (scanned_x (by decide))
  rw [read?, scan]
  rfl

/-- Equations are solved over the real numbers. -/
theorem solve_product :
    Algebra.library.solve .default ("x*(x+2)".toList ++ '=' :: "x^2+2*x".toList) ['x'] =
      .ok (.list []) := by
  obtain ⟨s, t, hs, ht, none⟩ : ∃ s t,
      value? (.operation .times (.term (.symbol ⟨['x'], .real⟩))
        (.operation .plus (.term (.symbol ⟨['x'], .real⟩)) (.term (.number 2)))) = some s ∧
      value? (.operation .plus
        (.operation .power (.term (.symbol ⟨['x'], .real⟩)) (.term (.number 2)))
        (.operation .times (.term (.number 2)) (.term (.symbol ⟨['x'], .real⟩)))) = some t ∧
      Algebra.solve? ⟨['x'], .real⟩ s t = some [] := ⟨_, _, rfl, rfl, by decide +kernel⟩
  have hl : Algebra.library.parse (Config.default.scope (some ⟨['x'], .real⟩)) "x*(x+2)".toList =
      .ok s := Algebra.parse_of_read (read_product .real) rfl hs
  have both := Library.parseSides_equation (by decide) (by decide) (by decide) (by decide)
    (by decide) (by decide) hl (Algebra.parse_of_read (read_powers .real) rfl ht)
  exact bind_eq_ok.mpr ⟨_, both, bind_eq_ok.mpr ⟨_, congrArg Except.ok none, rfl⟩⟩

/-- A product that is multiplied out on the other side is an identity. -/
theorem algebra_identity_product :
    (Algebra.library.ComparesPolynomials Algebra.IsTerm ∧ isLetter 'x' = true ∧
      (∀ c ∈ "x*(x + 2)".toList, c = 'x' ∨ c ∈ Question.polynomialSigns) ∧
      (∀ c ∈ "x² + 2*x".toList, c = 'x' ∨ c ∈ Question.polynomialSigns) ∧
      Algebra.library.Reads Algebra.IsTerm (Config.default.scope (some ⟨['x'], .complex⟩))
        (plain "x*(x + 2)".toList) (X 'x' * (X 'x' + C 2)) ∧
      Algebra.library.Reads Algebra.IsTerm (Config.default.scope (some ⟨['x'], .complex⟩))
        (plain "x² + 2*x".toList) (X 'x' ^ 2 + C 2 * X 'x') ∧
      (∀ t ∈ [plain "x*(x + 2)".toList, plain "x² + 2*x".toList],
        Algebra.library.IsIndifferent .default 'x' t) ∧
      Algebra.library.solve .default
        (plain "x*(x + 2)".toList ++ '=' :: plain "x² + 2*x".toList) ['x'] ≠
          .ok (.list [.text allNumbers])) ∧
    (algebra (Algebra.library.engine .default) .default "solve x*(x + 2) = x² + 2*x for x".toList
      (canonical "solve x*(x + 2) = x² + 2*x for x".toList) .start).1 =
        .ok (.text allNumbers) := by
  have plain_left : plain "x*(x + 2)".toList = "x*(x+2)".toList := by decide +kernel
  have plain_right : plain "x² + 2*x".toList = "x^2+2*x".toList := by decide +kernel
  have x : IsPolynomial (.term (.symbol ⟨['x'], .complex⟩)) (X 'x') := .letter (by decide)
  have two : rational? (.term (.number 2)) = some ((2 : ℕ) : ℚ) := by rfl
  have twice : IsPolynomial (.term (.number 2)) (C 2) := .constant (by rfl)
  have wl := Algebra.reads_of_writes (v := 'x') (l := "x*(x+2)".toList)
    ⟨_, read_product .complex, .product x (.sum x twice)⟩
  have wr := Algebra.reads_of_writes (v := 'x') (l := "x^2+2*x".toList)
    ⟨_, read_powers .complex, .sum (.power x two) (.product twice x)⟩
  have hsolve : Algebra.library.solve .default ("x*(x+2)".toList ++ '=' :: "x^2+2*x".toList) ['x'] ≠
      .ok (.list [.text allNumbers]) := by
    rw [solve_product]
    simp
  have letter : isLetter 'x' = true := by decide
  have hl : ∀ c ∈ "x*(x + 2)".toList, c = 'x' ∨ c ∈ Question.polynomialSigns :=
    forall_mem_of_all (by decide)
  have hr : ∀ c ∈ "x² + 2*x".toList, c = 'x' ∨ c ∈ Question.polynomialSigns :=
    forall_mem_of_all (by decide)
  have indifferent : ∀ t ∈ [plain "x*(x + 2)".toList, plain "x² + 2*x".toList],
      Algebra.library.IsIndifferent .default 'x' t := fun t _ =>
    Algebra.isIndifferent (by decide) t
  have spelling : "solve x*(x + 2) = x² + 2*x for x".toList ∈
      Question.spellings 'x' "x*(x + 2)".toList "x² + 2*x".toList := by decide +kernel
  rw [← plain_left] at wl
  rw [← plain_right] at wr
  rw [← plain_left, ← plain_right] at hsolve
  refine ⟨⟨Algebra.comparesPolynomials, letter, hl, hr, wl, wr, indifferent, hsolve⟩,
    (algebra_identity_iff Algebra.comparesPolynomials letter hl hr wl wr indifferent hsolve _ _
      spelling).1.mpr ?_⟩
  rw [show (C 2 : MvPolynomial Char ℚ) = 2 from rfl]
  ring

/-- Is the text the answer? -/
def isAnswer (t : Text) : Except Fault Value → Bool
  | .ok (.text u) => u == t
  | _ => false

theorem isAnswer_iff {t : Text} {x : Except Fault Value} : isAnswer t x = true ↔ x = .ok (.text t) := by
  unfold isAnswer
  split
  next u => rw [beq_iff_eq, Except.ok.injEq, Value.text.injEq]
  next other => exact iff_of_false Bool.false_ne_true (other t)

/-- Where a letter is a number to the library, an equation between two different polynomials in it is
answered as an identity, and where it is a function an identity is not. -/
theorem algebra_identity_known_letters :
    (Algebra.library.Reads Algebra.IsTerm (Config.default.scope (some ⟨['I'], .complex⟩))
        "I^2".toList (X 'I' ^ 2) ∧
      Algebra.library.Reads Algebra.IsTerm (Config.default.scope (some ⟨['I'], .complex⟩))
        "-1".toList (C (-1)) ∧
      (X 'I' ^ 2 : MvPolynomial Char ℚ) ≠ C (-1) ∧
      (algebra (Algebra.library.engine .default) .default "solve I^2 = -1 for I".toList
        (canonical "solve I^2 = -1 for I".toList) .start).1 = .ok (.text allNumbers)) ∧
    Algebra.library.Reads Algebra.IsTerm (Config.default.scope (some ⟨['S'], .complex⟩))
        "S".toList (X 'S') ∧
      (algebra (Algebra.library.engine .default) .default "solve S = S for S".toList
        (canonical "solve S = S for S".toList) .start).1 ≠ .ok (.text allNumbers) := by
  have square : Formula.Writes 'I' "I^2".toList (X 'I' ^ 2) := by
    have scan : Formula.Token.scan (Algebra.names .default (some ⟨['I'], .complex⟩))
        "I^2".toList = some [.term (.symbol ⟨['I'], .complex⟩), .sign '^', .term (.number 2)] :=
      Token.Scanned.scanFrom <| (scanned_variable (by decide) (by decide)).append <|
        (Token.scanned_sign (by decide) (by decide)).append
          (Token.scanned_digit (by decide) (by rfl))
    have two : Formula.rational? (.term (.number 2)) = some ((2 : ℕ) : ℚ) := by rfl
    refine ⟨.operation .power _ _, ?_, .power (.letter (by decide)) two⟩
    rw [Formula.read?, scan]
    rfl
  have minus : Formula.Writes 'I' "-1".toList (C (-1)) :=
    ⟨.minus (.term (.number 1)), rfl, .constant rfl⟩
  have function : Formula.Writes 'S' "S".toList (X 'S') := by
    have scan : Formula.Token.scan (Algebra.names .default (some ⟨['S'], .complex⟩))
        "S".toList = some [.term (.symbol ⟨['S'], .complex⟩)] :=
      Token.Scanned.scanFrom (scanned_variable (by decide) (by decide))
    refine ⟨.term _, ?_, .letter (by decide)⟩
    rw [Formula.read?, scan]
    rfl
  have different : (X 'I' ^ 2 : MvPolynomial Char ℚ) ≠ C (-1) := fun same => by
    have value := congrArg (eval fun _ => 0) same
    simp at value
  refine ⟨⟨Algebra.reads_of_writes square, Algebra.reads_of_writes minus, different,
    isAnswer_iff.mp (by decide +kernel)⟩, Algebra.reads_of_writes function, fun same => ?_⟩
  exact absurd (isAnswer_iff.mpr same) (by decide +kernel)

end Strategy

end Stepwise
