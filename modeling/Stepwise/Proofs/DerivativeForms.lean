import Stepwise.Proofs.Forms

/-!
# The operator before brackets

"d/dV(E)", with any brackets and with blanks around the parts of the operator, asks for the derivative
of `E` with respect to `V`. An expression without keywords is found again in the call that the problem
becomes: nothing of it is rewritten but its glyphs.

Results: `derivative_operatorText`, what becomes of the problem and what is read off in the end; and
`derivative_callForm`, what is read off the call itself.
-/

namespace Stepwise.Phrase

open Text Pattern Stepwise.Bracket

/-- The operator `d/dV` before an expression in brackets, with blanks around its parts. -/
def operatorText (w₀ w₁ w₂ w₃ w₄ : Text) (v opener : Char) (e : Text) (closer : Char) : Text :=
  w₀ ++ 'd' :: (w₁ ++ '/' :: (w₂ ++ 'd' :: (w₃ ++ v :: (w₄ ++ opener :: (e ++ [closer])))))

variable {v opener closer : Char} {w₀ w₁ w₂ w₃ w₄ e r t : Text}

theorem operatorText_eq (w₀ w₁ w₂ w₃ w₄ : Text) (v opener : Char) (e : Text) (closer : Char) :
    operatorText w₀ w₁ w₂ w₃ w₄ v opener e closer =
      w₀ ++ operatorText [] w₁ w₂ w₃ w₄ v opener e closer := rfl

/-! ## Before phrasings are looked for -/

theorem squeeze_operatorText (hv : isBlank v = false) (ho : isBlank opener = false)
    (hc : isBlank closer = false) :
    squeeze (operatorText w₀ w₁ w₂ w₃ w₄ v opener e closer) =
      operatorText (squeeze w₀) (squeeze w₁) (squeeze w₂) (squeeze w₃) (squeeze w₄) v opener
        (squeeze e) closer := by
  have slash : isBlank '/' = false := by decide
  have letter : isBlank 'd' = false := by decide
  simp only [operatorText, squeeze_append_cons letter, squeeze_append_cons slash,
    squeeze_append_cons hv, squeeze_append_cons ho, squeeze_append_singleton hc]

theorem tight_operatorText (hc : isBlank closer = false) :
    Tight (operatorText [] w₁ w₂ w₃ w₄ v opener e closer) where
  head := ⟨'d', _, rfl, by decide⟩
  last c h := by
    have hlast : operatorText [] w₁ w₂ w₃ w₄ v opener e closer =
        ('d' :: (w₁ ++ '/' :: (w₂ ++ 'd' :: (w₃ ++ v :: (w₄ ++ opener :: e))))) ++ [closer] := by
      simp [operatorText]
    rw [hlast, List.getLast?_concat] at h
    rw [← Option.some.inj h, hc]

/-- The D of the operator does not begin an instruction. -/
theorem instructionHead_operatorText (h₁ : allBlank w₁ = true) :
    instructionHead (operatorText [] w₁ w₂ w₃ w₄ v opener e closer) = [] := by
  rw [operatorText, List.nil_append]
  cases w₁ with
  | nil => exact instructionHead_of_second (by decide) _ _
  | cons b w =>
    have hb : isBlank b = true := List.all_eq_true.mp h₁ b List.mem_cons_self
    exact instructionHead_of_second (isAnyCaseLetter_of_isBlank hb) _ _

/-! ## The operator is read -/

theorem derivativeOperator_append (h₁ : allBlank w₁ = true) (h₂ : allBlank w₂ = true)
    (h₃ : allBlank w₃ = true) (hv : isAnyCaseLetter v = true) (r : Text) :
    derivativeOperator ('d' :: (w₁ ++ '/' :: (w₂ ++ 'd' :: (w₃ ++ v :: r)))) = [(v, r)] := by
  let letterOf : Pattern Char := blanks >>= fun _ => one isAnyCaseLetter
  let denominator : Pattern Char := blanks >>= fun _ => word ['d'] >>= fun _ => letterOf
  let fraction : Pattern Char := blanks >>= fun _ => literal ['/'] >>= fun _ => denominator
  have blank : ∀ {w : Text}, allBlank w = true → ∀ b ∈ w, isBlank b = true := fun h =>
    List.all_eq_true.mp h
  have hvariable : letterOf (w₃ ++ v :: r) = [(v, r)] :=
    (blanks_append (one_of_isBlank fun _ => isAnyCaseLetter_of_isBlank) (blank h₃)
      (isBlank_of_anyCaseLetter hv) r).trans (one_cons hv r)
  have hdenominator : denominator (w₂ ++ 'd' :: (w₃ ++ v :: r)) = [(v, r)] :=
    (blanks_append (fun c cs hc => bind_of_eq_nil
      (word_cons_eq_nil (sameLetter_of_isBlank (by decide) hc) _ _)) (blank h₂) (by decide) _).trans
      ((bind_of_eq rfl).trans hvariable)
  have hfraction : fraction (w₁ ++ '/' :: (w₂ ++ 'd' :: (w₃ ++ v :: r))) = [(v, r)] :=
    (blanks_append (fun c cs hc => bind_of_eq_nil (literal_singleton_eq_nil (by
      rintro rfl
      exact absurd hc (by decide)) _)) (blank h₁) (by decide) _).trans
      ((bind_of_eq rfl).trans hdenominator)
  exact (bind_of_eq rfl).trans hfraction

theorem wrappedHead_append (h₁ : allBlank w₁ = true) (h₂ : allBlank w₂ = true)
    (h₃ : allBlank w₃ = true) (h₄ : allBlank w₄ = true) (hv : isAnyCaseLetter v = true)
    (ho : closer? opener = some closer) (r : Text) :
    wrappedHead ('d' :: (w₁ ++ '/' :: (w₂ ++ 'd' :: (w₃ ++ v :: (w₄ ++ opener :: r))))) =
      [((v, opener), r)] := by
  have hopener : (one fun c => (closer? c).isSome) (opener :: r) = [(opener, r)] :=
    one_cons (congrArg Option.isSome ho) r
  refine (bind_of_eq (derivativeOperator_append h₁ h₂ h₃ hv _)).trans ?_
  refine (blanks_append (fun c cs hc => bind_of_eq_nil (one_of_isBlank (fun b hb => ?_) c cs hc))
    (List.all_eq_true.mp h₄) (isBlank_of_closer? ho) r).trans ((bind_of_eq hopener).trans rfl)
  rw [closer?_of_isBlank hb]
  rfl

/-- **The operator with its brackets becomes a call**, as the brackets are closed at the end. -/
theorem wrappedDerivatives_operatorText (h₁ : allBlank w₁ = true) (h₂ : allBlank w₂ = true)
    (h₃ : allBlank w₃ = true) (h₄ : allBlank w₄ = true) (hv : isAnyCaseLetter v = true)
    (ho : closer? opener = some closer) (he : WellNested e) :
    wrappedDerivatives (operatorText [] w₁ w₂ w₃ w₄ v opener e closer) =
      callText derivativeName [trim e, lower v] := by
  have hhead := best?_of_eq (wrappedHead_append h₁ h₂ h₃ h₄ hv ho (e ++ [closer]))
  have hcut := cutAtClosing_of_wellNested ho he []
  rw [operatorText, List.nil_append, wrappedDerivatives, wrappedFrom, hhead]
  dsimp only
  rw [hcut]
  dsimp only
  rw [wrappedFrom_of_length_le (by simp), List.append_nil]

/-- A call for the derivative of an expression without keywords is left alone. -/
theorem keyless_derivativeCall (hv : isLetter v = true) (he : Keyless e) :
    Keyless (callText derivativeName [e, [v]]) := by
  have hcall : callText derivativeName [e, [v]] = "diff(".toList ++ (e ++ [',', v, ')']) := by
    rw [callText_pair]
    simp [derivativeName]
  have hfront : Keyless "diff(".toList := by decide +kernel
  rw [hcall]
  exact keyless_call hfront ⟨"diff".toList, by decide⟩ hv he

theorem derivatives_of_wrapped (h : wrappedDerivatives t = r) (hr : Keyless r) :
    derivatives t = r := by
  have hself := hr.derivatives_eq
  have hwrapped : wrappedDerivatives r = r :=
    wrappedFrom_of_nowhere ((nowhere_derivativeOperator hr.operator).bind _)
  rw [derivatives, hwrapped] at hself
  rw [derivatives, h, hself]

/-! ## From the problem to the question -/

/-- **The derivative of an expression in brackets is what is asked for**: the canonical form is the
call with the plain expression and the small letter of the variable, and these are read off it. -/
theorem derivative_operatorText (config : Config) (hv : isLetter v = true)
    (ho : closer? opener = some closer) (hw : ∀ w ∈ [w₀, w₁, w₂, w₃, w₄], allBlank w = true)
    (hb : allBlank e = false) (ha : Argument e) (hk : Keyless e) :
    canonical (operatorText w₀ w₁ w₂ w₃ w₄ v opener e closer) =
        "diff(".toList ++ plain e ++ [',', v.toLower, ')'] ∧
      Question.derivative config (canonical (operatorText w₀ w₁ w₂ w₃ w₄ v opener e closer)) =
        .ok (plain e, [v.toLower]) := by
  have hanycase : isAnyCaseLetter v = true := isAnyCaseLetter_of_isLetter hv
  have hv' : isLetter v.toLower = true := isLetter_toLower hv
  have hcb : isBlank closer = false := isBlank_of_isCloser (isCloser_of_closer? ho)
  simp only [List.forall_mem_cons, List.not_mem_nil, false_implies, implies_true, and_true] at hw
  obtain ⟨h₀, h₁, h₂, h₃, h₄⟩ := hw
  -- Blanks are squeezed, and then the operator is the whole text.
  have hbare : bare (operatorText w₀ w₁ w₂ w₃ w₄ v opener e closer) =
      operatorText [] (squeeze w₁) (squeeze w₂) (squeeze w₃) (squeeze w₄) v opener (squeeze e)
        closer := by
    refine bare_of_collapse ?_ (instructionHead_operatorText (allBlank_squeeze h₁))
    rw [squeeze_operatorText (isBlank_of_anyCaseLetter hanycase) (isBlank_of_closer? ho) hcb,
      operatorText_eq, trim_blanks_append (List.all_eq_true.mp (allBlank_squeeze h₀))]
    exact (tight_operatorText hcb).trim_eq
  have hwrapped := wrappedDerivatives_operatorText (allBlank_squeeze h₁) (allBlank_squeeze h₂)
    (allBlank_squeeze h₃) (allBlank_squeeze h₄) hanycase ho ha.squeeze.wellNested
  rw [lower_of_isLetter hv] at hwrapped
  have hcall := keyless_derivativeCall hv' hk.squeeze.trim
  have hrewritten := derivatives_of_wrapped hwrapped hcall
  have hcanonical : canonical (operatorText w₀ w₁ w₂ w₃ w₄ v opener e closer) =
      callText derivativeName [plain e, [v.toLower]] := by
    rw [canonical_eq_callText hbare (by rw [hrewritten, hcall.integrals_eq, hcall.limits_eq])
      (by decide)]
    simp [plain_trim, plain_squeeze, plain_letters, hv']
  rw [hcanonical]
  refine ⟨by simp [callText_pair, derivativeName], ?_⟩
  exact derivative_callText config hb ha hv'

theorem derivative_operatorText_spaced :
    canonical "d /\nd T[ 2×sin\x7bt, 3\x7d ** 2 ]".toList = "diff(2*sin(t,3)^2,t)".toList ∧
      Question.derivative .default (canonical "d /\nd T[ 2×sin\x7bt, 3\x7d ** 2 ]".toList) =
        .ok ("2*sin(t,3)^2".toList, ['t']) := by
  have hblank : ∀ w ∈ [[], " ".toList, "\n".toList, " ".toList, []], allBlank w = true := by decide
  have hbracket : closer? '[' = some ']' := rfl
  have hletter : isLetter 'T' = true := by decide
  have hbody : allBlank " 2×sin\x7bt, 3\x7d ** 2 ".toList = false := by decide
  have hplain : plain " 2×sin\x7bt, 3\x7d ** 2 ".toList = "2*sin(t,3)^2".toList ∧ 'T'.toLower = 't' := by
    decide +kernel
  have h := derivative_operatorText .default hletter hbracket hblank hbody ⟨by decide, by decide⟩
    (by decide +kernel)
  have htext : operatorText [] " ".toList "\n".toList " ".toList [] 'T' '['
      " 2×sin\x7bt, 3\x7d ** 2 ".toList ']' = "d /\nd T[ 2×sin\x7bt, 3\x7d ** 2 ]".toList := by
    decide +kernel
  rw [hplain.1, hplain.2, htext] at h
  exact h

/-- A call for a derivative asks for the same. -/
theorem derivative_callForm (config : Config) (hv : isLetter v = true) (hb : allBlank e = false)
    (ha : Argument e) (hk : Keyless e) :
    Question.derivative config (canonical (callText derivativeName [e, [v]])) =
      .ok (plain e, [v]) := by
  have hcall : ∀ x : Text, callText derivativeName [x, [v]] =
      "diff".toList ++ '(' :: (x ++ [',', v, ')']) := fun x => by
    rw [callText_pair]
    simp [derivativeName]
  have hn : Blankless "diff".toList := forall_mem_of_all (by decide)
  have hhead : ∀ r, instructionHead ("diff".toList ++ '(' :: r) = [] := fun _ => by rfl
  have hbare := bare_call (e := e) hn hhead (by decide) hv
  have hkeyless := keyless_derivativeCall hv hk.squeeze
  have hcanonical : canonical (callText derivativeName [e, [v]]) =
      callText derivativeName [plain e, [v]] := by
    rw [hcall e, canonical_eq_callText hbare (by
      rw [← hcall, hkeyless.derivatives_eq, hkeyless.integrals_eq, hkeyless.limits_eq]) (by decide)]
    simp [plain_squeeze, plain_letters, hv]
  rw [hcanonical]
  exact derivative_callText config hb ha hv

end Stepwise.Phrase
