import Stepwise.Proofs.Forms

/-!
# Four ways to ask for an integral

"∫E dV", "integral of E dV", "integral of E with respect to V" and "int(E,V)" ask for the same: each is
read by another rule, but with no keyword and no differential in `E` all of them become the call that
asks for the integral of the plain expression.

Results: `first_differential`, the differential behind an expression is not read before its end;
`integral_forms`, what becomes of all four and what is read off in the end; and `integral_longForm`,
what is read off the call itself.
-/

namespace Stepwise.Phrase

open Text Pattern Stepwise.Bracket

/-- The letter D and a letter, which no letter of the alphabet follows. -/
def differential : Pattern Unit := do
  word ['d']
  let _ ← one isAnyCaseLetter
  notBefore isLetter

/-- What stands behind an integrand: a blank, the letter D and the variable. -/
def differentialText (v : Char) : Text := [' ', 'd', v]

/-- The ways to ask for the integral of an expression. -/
def integralForms (e : Text) (v : Char) : List Text :=
  ['∫' :: (e ++ differentialText v),
    "integral of".toList ++ ' ' :: (e ++ differentialText v),
    inWords "integral of".toList e v,
    "int(".toList ++ (e ++ [',', v, ')'])]

variable {v : Char} {b e r s t w : Text}

/-! ## Differentials -/

theorem unsqueezes_one {ok : Char → Bool} (h : ∀ c, ok c = true → isBlank c = false) :
    Unsqueezes (one ok) := by
  intro t c r hr
  obtain ⟨he, hc⟩ := mem_one.mp hr
  obtain ⟨ds, rfl, hds⟩ := squeeze_eq_cons he (h c hc)
  exact ⟨c, ds, mem_one.mpr ⟨rfl, hc⟩, hds⟩

theorem unsqueezes_notBefore {bad : Char → Bool} (h : ∀ c, isBlank c = true → bad c = false) :
    Unsqueezes (notBefore bad) := by
  intro t a r hr
  obtain rfl := mem_notBefore hr
  refine ⟨(), t, ?_, rfl⟩
  cases t with
  | nil => exact List.mem_singleton.mpr rfl
  | cons c cs =>
    have hc : ¬bad c = true := by
      intro hb
      have hcb : ¬isBlank c = true := fun hblank => by
        rw [h c hblank] at hb
        exact Bool.noConfusion hb
      rw [squeeze_cons_of_not_blank hcb, notBefore, if_pos hb] at hr
      exact List.not_mem_nil hr
    rw [notBefore, if_neg hc]
    exact List.mem_singleton.mpr rfl

theorem isLetter_of_isBlank {c : Char} (h : isBlank c = true) : isLetter c = false :=
  isLetter_of_anyCase (isAnyCaseLetter_of_isBlank h)

theorem unsqueezes_differential : Unsqueezes differential :=
  (unsqueezes_word (by decide)).then <|
    (unsqueezes_one fun _ => isBlank_of_anyCaseLetter).then <|
      unsqueezes_notBefore fun _ => isLetter_of_isBlank

/-- Blanks bring no differential. -/
theorem nowhere_differential_squeeze (h : Nowhere differential t) :
    Nowhere differential (squeeze (trim t)) := by
  obtain ⟨l, r, he, -, hr⟩ := trim_split t
  rw [he] at h
  have hsteady : Steady r differential :=
    (steady_word _).bind fun _ => (steady_one _).bind fun _ =>
      steady_notBefore fun c hc => isLetter_of_isBlank (hr c hc)
  exact unsqueezes_differential.nowhere (nowhere_of_within hsteady h)

theorem mem_differential {x : Unit} (h : (x, r) ∈ differential t) :
    ∃ d c, t = d :: c :: r ∧ sameLetter 'd' d = true ∧ isAnyCaseLetter c = true := by
  obtain ⟨_, _, hword, hrest⟩ := mem_bind.mp h
  obtain ⟨c, _, hletter, hend⟩ := mem_bind.mp hrest
  obtain rfl := mem_notBefore hend
  obtain ⟨rfl, hc⟩ := mem_one.mp hletter
  obtain ⟨d, rfl, hd⟩ := mem_word_singleton.mp hword
  exact ⟨d, c, rfl, hd, hc⟩

/-- **The differential behind an expression is not read before its end**, if there is none in it. -/
theorem first_differential (hd : Nowhere differential e) (he : NoBlankEnd e) (hs : s <:+ e)
    (hb : ∀ c ∈ b, isBlank c = true) (h : s ++ differentialText v = b ++ r)
    (hr : differential r ≠ []) : s = [] := by
  obtain ⟨⟨x, r'⟩, hx⟩ := List.exists_mem_of_ne_nil _ hr
  obtain ⟨d, c, rfl, -, hc⟩ := mem_differential hx
  have blank : ∀ {u}, b = s ++ u → s = [] := by
    rintro u rfl
    exact blank_suffix_eq_nil he hs (inkLength_of_blank fun c hc => hb c (List.mem_append_left _ hc))
  rcases List.append_eq_append_iff.mp h with ⟨u, hu, -⟩ | ⟨u, hu, hv⟩
  · exact blank hu
  by_cases hn : u = []
  · rw [hn, List.append_nil] at hu
    exact blank (u := []) (by rw [hu, List.append_nil])
  -- The differential begins in the expression, so it does not end there.
  exfalso
  have hsteady : Steady (differentialText v) differential :=
    (steady_word _).bind fun _ => (steady_one _).bind fun _ =>
      steady_notBefore_cons (by decide)
  have hnone : differential u = [] := hd u ((List.suffix_append b u).trans (hu ▸ hs))
  have hshort : r'.length < (differentialText v).length := by
    by_contra hlong
    have hmem : (x, r') ∈ (differential (u ++ differentialText v)).filter
        (leaves (differentialText v)) := by
      rw [← hv]
      exact List.mem_filter.mpr ⟨hx, decide_eq_true (Nat.le_of_not_lt hlong)⟩
    rw [hsteady.filter_eq u, hnone] at hmem
    exact List.not_mem_nil hmem
  obtain ⟨f, u, rfl⟩ := List.exists_cons_of_ne_nil hn
  obtain ⟨-, hv⟩ := List.cons.inj hv
  have hu : u = [] := by
    have := congrArg List.length hv
    simp only [List.append_eq, List.length_cons, List.length_append] at this
    exact List.length_eq_zero_iff.mp (by omega)
  rw [hu] at hv
  rw [(List.cons.inj hv).1] at hc
  exact absurd hc (by decide)

/-! ## No derivative is read -/

theorem operatorStart_of_derivativeOperator {x : Char} (h : (x, r) ∈ derivativeOperator s) :
    ∃ r', ((), r') ∈ operatorStart s ∧ r <:+ r' ∧ r.length < r'.length := by
  obtain ⟨_, r₁, h₁, hx⟩ := mem_bind.mp h
  obtain ⟨_, r₂, h₂, hx⟩ := mem_bind.mp hx
  obtain ⟨_, r₃, h₃, hx⟩ := mem_bind.mp hx
  obtain ⟨_, r₄, h₄, hx⟩ := mem_bind.mp hx
  obtain ⟨_, r₅, h₅, hx⟩ := mem_bind.mp hx
  obtain ⟨w, _, hw, hx⟩ := mem_bind.mp hx
  obtain ⟨rfl, -⟩ := mem_one.mp hx
  refine ⟨r₅, mem_bind.mpr ⟨_, r₁, h₁, mem_bind.mpr ⟨_, r₂, h₂, mem_bind.mpr ⟨_, r₃, h₃,
    mem_bind.mpr ⟨_, r₄, h₄, h₅⟩⟩⟩⟩, ?_⟩
  have he := (mem_many hw).1
  exact ⟨⟨w ++ [x], by rw [← he]; simp⟩, by rw [← he, List.length_append, List.length_cons]; omega⟩

/-- An operator that goes over into the differential leaves the variable at most. -/
theorem derivativeOperator_rest (ho : Nowhere operatorStart t) (hs : s <:+ t ++ differentialText v)
    {x : Char} (h : (x, r) ∈ derivativeOperator s) : r = [] ∨ r = [v] := by
  obtain ⟨r', hr', hsuf, hlt⟩ := operatorStart_of_derivativeOperator h
  have hr's : r' <:+ s := (steady_operatorStart []).leavesEnd _ _ _ hr'
  have hshort : r'.length < (differentialText v).length := by
    by_contra hlong
    have hlong := Nat.le_of_not_lt hlong
    obtain ⟨u, rfl⟩ : differentialText v <:+ s :=
      List.suffix_of_suffix_length_le (List.suffix_append _ _) hs (hlong.trans hr's.length_le)
    have hu : u <:+ t := by
      obtain ⟨w, hw⟩ := hs
      rw [← List.append_assoc] at hw
      exact ⟨w, List.append_cancel_right hw⟩
    have hmem : ((), r') ∈ (operatorStart (u ++ differentialText v)).filter
        (leaves (differentialText v)) := List.mem_filter.mpr ⟨hr', decide_eq_true hlong⟩
    rw [(steady_operatorStart _).filter_eq u, ho u hu] at hmem
    exact List.not_mem_nil hmem
  have hlen : r.length < 2 := by
    change r'.length < 3 at hshort
    omega
  have hv : r <:+ differentialText v :=
    List.suffix_of_suffix_length_le ((hsuf.trans hr's).trans hs) (List.suffix_append _ _)
      (Nat.le_of_lt (Nat.lt_trans hlen (by decide : 2 < 3)))
  rcases List.suffix_cons_iff.mp hv with rfl | hv
  · exact absurd hlen (by simp)
  · rcases List.suffix_cons_iff.mp hv with rfl | hv
    · exact absurd hlen (by simp)
    · rcases List.suffix_cons_iff.mp hv with rfl | hv
      · exact .inr rfl
      · exact .inl (List.suffix_nil.mp hv)

/-- A differential behind a text brings no derivative with it. -/
theorem derivatives_differentialText (hv : isLetter v = true) (ho : Nowhere operatorStart t)
    (hd : Nowhere (word "derivative".toList) t) (hd' : Nowhere (word "differentiate".toList) t) :
    derivatives (t ++ differentialText v) = t ++ differentialText v := by
  have hblank : ¬isBlank v = true := by
    rw [isBlank_of_anyCaseLetter (isAnyCaseLetter_of_isLetter hv)]
    decide
  -- Neither a bracket nor a blank comes behind such an operator.
  have after : ∀ {β : Type} {f : Char → Pattern β}, (∀ x, f x [] = []) → (∀ x, f x [v] = []) →
      Nowhere (derivativeOperator >>= f) (t ++ differentialText v) := by
    intro β f hnil hletter s hs
    refine List.eq_nil_iff_forall_not_mem.mpr fun y hy => ?_
    obtain ⟨x, r, hx, hy⟩ := mem_bind.mp hy
    rcases derivativeOperator_rest ho hs hx with rfl | rfl
    · rw [hnil x] at hy
      exact List.not_mem_nil hy
    · rw [hletter x] at hy
      exact List.not_mem_nil hy
  have hopener : ¬(closer? v).isSome = true := by
    have := isMark_of_isLetter hv
    rw [isMark, Bool.or_eq_false_iff, Bool.or_eq_false_iff] at this
    rw [this.1.1]
    decide
  have hword : ∀ {k : Text}, k.all isLetter = true → 3 < k.length → Nowhere (word k) t →
      Nowhere (word k) (t ++ differentialText v) := by
    intro k hk hl hn
    have hne : k ≠ [] := by
      rintro rfl
      exact absurd hl (by decide)
    refine nowhere_append (fun _ => steady_word k) (spells_word hk hne) ?_ hn
      (nowhere_word_of_length hl)
    exact .inr ⟨[], ' ', ['d', v], rfl, fun _ h => absurd h List.not_mem_nil, by decide⟩
  refine derivatives_eq_self (after (fun _ => rfl) fun x => ?_) (after (fun _ => rfl) fun x => ?_)
    (hword (by decide) (by decide) hd) (hword (by decide) (by decide) hd')
  · exact (bind_of_eq (many_stop hblank [])).trans (bind_of_eq_nil (if_neg hopener))
  · exact bind_of_eq_nil (bind_of_eq_nil (if_neg hblank))

/-! ## The call is left alone -/

theorem callText_integral (e : Text) (v : Char) :
    callText integralName [e, [v]] = "integrate(".toList ++ (e ++ [',', v, ')']) := by
  have hname : "integrate(".toList = integralName ++ ['('] := by decide
  rw [callText_pair, hname]
  simp

theorem shortIntegral_call (he : Nowhere (word "int".toList) e) :
    replaceAll shortIntegral ("integrate(".toList ++ (e ++ [',', v, ')'])) =
      "integrate(".toList ++ (e ++ [',', v, ')']) := by
  let named : Pattern Text := literal "int".toList >>= fun _ => blanks >>= fun _ =>
    literal ['('] >>= fun _ => pure (integralName ++ ['('])
  let rest : Text := "egrate(".toList ++ (e ++ [',', v, ')'])
  have hcall : Nowhere (word "int".toList) ("ntegrate(".toList ++ (e ++ [',', v, ')'])) :=
    nowhere_word_call (by decide) (by decide) (nowhere_word_of_initial (by decide) _)
      ⟨"ntegrate".toList, by decide⟩ he
  have hrest : Nowhere (word "int".toList) ("nt".toList ++ rest) := hcall
  -- The name of the call goes on after "int".
  have hfirst : named ("int".toList ++ rest) = [] :=
    (bind_of_eq (literal_append _ _)).trans ((bind_of_eq (many_stop (by decide) _)).trans
      (bind_of_eq_nil (literal_singleton_eq_nil (by decide) _)))
  have hnone : Nowhere named ('i' :: ("nt".toList ++ rest)) :=
    nowhere_cons.mpr ⟨hfirst, (nowhere_literal_of_word (by decide) hrest).bind _⟩
  exact Nowhere.replaceAll_eq (t := 'i' :: ("nt".toList ++ rest)) fun _ =>
    .after (leavesEnd_guard _) fun _ => hnone

theorem limits_integralCall (he : Nowhere (word "lim".toList) e) :
    limits ("integrate(".toList ++ (e ++ [',', v, ')'])) =
      "integrate(".toList ++ (e ++ [',', v, ')']) :=
  limits_eq_self (nowhere_word_call (by decide) (by decide) (nowhere_word_of_initial (by decide) _)
    ⟨"integrate".toList, by decide⟩ he)

/-! ## Where the integrand ends -/

/-- The integral sign with an integrand and its differential. -/
theorem best?_signWithDifferential (hv : isLetter v = true) (hw : ∀ b ∈ w, isBlank b = true)
    (ht : Tight e) (hl : OneLine e) (hd : Nowhere differential e) :
    signWithDifferential.best? ('∫' :: (w ++ (e ++ differentialText v))) =
      some (calculusCall integralName e (some v), []) := by
  obtain ⟨c, cs, he, -⟩ := ht.head
  refine best?_bind (best?_of_eq rfl) (best?_bind (best?_many (head_tight ht _) hw) ?_)
  refine best?_few1 (by simp [he]) hl (fun u s hus _ hs => ?_) ?_
  · refine List.eq_nil_iff_forall_not_mem.mpr fun y hy => ?_
    obtain ⟨b, r, hb, hy⟩ := mem_bind.mp hy
    obtain ⟨_, r₁, h₁, hy⟩ := mem_bind.mp hy
    obtain ⟨x, r₂, h₂, hy⟩ := mem_bind.mp hy
    obtain ⟨_, r₃, h₃, -⟩ := mem_bind.mp hy
    obtain ⟨hbr, hbb⟩ := mem_many hb
    obtain rfl := mem_literal.mp h₁
    obtain ⟨rfl, hx⟩ := mem_one.mp h₂
    have hread : ((), r₃) ∈ differential ('d' :: x :: r₂) :=
      mem_bind.mpr ⟨(), x :: r₂, mem_word_singleton.mpr ⟨'d', rfl, by decide⟩, mem_bind.mpr
        ⟨x, r₂, mem_one.mpr ⟨rfl, isAnyCaseLetter_of_isLetter hx⟩, h₃⟩⟩
    exact hs (first_differential hd ht.last ⟨u, hus.symm⟩ hbb hbr.symm (List.ne_nil_of_mem hread))
  · have hletter : one isLetter [v] = [(v, [])] := if_pos hv
    have hlast : (one isLetter >>= fun x => notBefore isLetter >>= fun _ =>
        pure (calculusCall integralName e (some x))) [v] =
          [(calculusCall integralName e (some v), [])] := bind_of_eq hletter
    exact best?_bind (best?_of_eq rfl) (best?_bind (best?_of_eq rfl) (best?_of_eq hlast))

theorem differential_of_wordedDifferential {x : Char} (h : (some x, r) ∈ wordedDifferential t) :
    ∃ b s, t = b ++ s ∧ (∀ c ∈ b, isBlank c = true) ∧ differential s ≠ [] := by
  rcases List.mem_append.mp h with h | h
  · obtain ⟨⟨y, r'⟩, hy, he⟩ := List.mem_map.mp h
    obtain ⟨b, s, hb, hy⟩ := mem_bind.mp hy
    obtain ⟨_, r₁, h₁, hy⟩ := mem_bind.mp hy
    obtain ⟨z, r₂, h₂, hy⟩ := mem_bind.mp hy
    obtain ⟨_, r₃, h₃, -⟩ := mem_bind.mp hy
    obtain ⟨u, hu, hub, hall⟩ := reads_many1 isBlank _ _ _ hb
    -- No letter at all follows, so none of the alphabet does.
    have hend : ((), r₂) ∈ notBefore isLetter r₂ := by
      cases r₂ with
      | nil => exact List.mem_singleton.mpr rfl
      | cons c cs =>
        have hc : ¬isLetter c = true := fun hc => by
          rw [notBefore, if_pos (isAnyCaseLetter_of_isLetter hc)] at h₃
          exact List.not_mem_nil h₃
        rw [notBefore, if_neg hc]
        exact List.mem_singleton.mpr rfl
    exact ⟨u, s, hu, hub ▸ hall, List.ne_nil_of_mem
      (mem_bind.mpr ⟨_, r₁, h₁, mem_bind.mpr ⟨z, r₂, h₂, hend⟩⟩)⟩
  · exact absurd (List.mem_singleton.mp h) (by simp)

/-- The words for a variable have a blank in front of it. -/
theorem reads_respectTo_variable :
    Reads respectTo fun u _ => u = [] ∨ ∃ s b x, u = s ++ [b, x] ∧ isBlank b = true := by
  have hwords : Reads (words ["with".toList, "respect".toList, "to".toList]) fun _ _ => True := by
    intro t a r h
    obtain ⟨u, hu⟩ := leavesEnd_words _ t a r h
    exact ⟨u, hu.symm, trivial⟩
  have inner : Reads (blanks1 >>= fun _ => words ["with".toList, "respect".toList, "to".toList] >>=
      fun _ => blanks1 >>= fun _ => one isAnyCaseLetter)
      fun u _ => ∃ s b x, u = s ++ [b, x] ∧ isBlank b = true := by
    refine reads_blanks1.bind fun u₁ _ _ => hwords.bind fun u₂ _ _ => reads_blanks1.bind
      fun u₃ _ h₃ => (reads_one _).mono fun u₄ x h₄ => ?_
    obtain ⟨s, b, rfl, hb⟩ := h₃
    exact ⟨u₁ ++ (u₂ ++ s), b, x, by simp [h₄.1], hb⟩
  refine inner.optional.mono fun u o h => ?_
  cases o with
  | none => exact .inl h
  | some _ => exact .inr h

/-- The differential is no words for a variable: the variable has a letter in front of it. -/
theorem respectTo_differentialText {o : Option Char} {r₁ r₂ r₃ : Text} {x : Text}
    (hv : isAnyCaseLetter v = true) (h₁ : (o, r₁) ∈ respectTo (s ++ differentialText v))
    (h₂ : (x, r₂) ∈ blanks r₁) (h₃ : ((), r₃) ∈ atEnd r₂) : False := by
  obtain ⟨u₁, e₁, k₁⟩ := reads_respectTo_variable _ _ _ h₁
  obtain ⟨u₂, e₂, k₂⟩ := reads_ink_blanks _ _ _ h₂
  have hend : NoBlankEnd (s ++ differentialText v) := by
    intro c hc
    have hlast : s ++ differentialText v = (s ++ [' ', 'd']) ++ [v] := by simp [differentialText]
    rw [hlast, List.getLast?_concat] at hc
    rw [← Option.some.inj hc, isBlank_of_anyCaseLetter hv]
  have hr₁ : r₁ = [] := by
    refine blank_suffix_eq_nil hend ⟨u₁, e₁.symm⟩ ?_
    rw [e₂, inkLength_append, k₂, reads_ink_atEnd h₃]
  rw [hr₁, List.append_nil] at e₁
  rcases k₁ with rfl | ⟨s', b, x, rfl, hb⟩
  · exact absurd e₁ (by simp [differentialText])
  · have hsplit : (s ++ [' ']) ++ ['d', v] = s' ++ [b, x] := by
      rw [← e₁]
      simp [differentialText]
    have hlast := (List.append_inj' hsplit rfl).2
    rw [← (List.cons.inj hlast).1] at hb
    exact absurd hb (by decide)

theorem wordedDifferential_differentialText (hv : isAnyCaseLetter v = true) :
    wordedDifferential (differentialText v) = [(some v, []), (none, differentialText v)] := by
  have inner : (blanks1 >>= fun _ => word ['d'] >>= fun _ => one isAnyCaseLetter >>=
      fun x => notBefore isAnyCaseLetter >>= fun _ => pure x) (differentialText v) = [(v, [])] := by
    refine (bind_of_eq (blanks1_space (by decide))).trans ((bind_of_eq rfl).trans ?_)
    exact (bind_of_eq (if_pos hv)).trans rfl
  change List.map _ ((blanks1 >>= fun _ => _) (differentialText v)) ++ _ = _
  rw [inner]
  rfl

/-- The words of an integral with an integrand and its differential. -/
theorem best?_integralBody_differential (hv : isLetter v = true) (ht : Tight e) (hl : OneLine e)
    (hd : Nowhere differential e) : integralBody.best? (e ++ differentialText v) =
      some (calculusCall integralName e (some v), []) := by
  obtain ⟨c, cs, he, -⟩ := ht.head
  have hv' : isAnyCaseLetter v = true := isAnyCaseLetter_of_isLetter hv
  refine best?_few1 (by simp [he]) hl (fun u s hus _ hs => ?_) ?_
  · refine List.eq_nil_iff_forall_not_mem.mpr fun y hy => ?_
    obtain ⟨o, r₀, h₀, hy⟩ := mem_bind.mp hy
    obtain ⟨_, r₁, h₁, hy⟩ := mem_bind.mp hy
    obtain ⟨_, r₂, h₂, hy⟩ := mem_bind.mp hy
    obtain ⟨_, r₃, h₃, -⟩ := mem_bind.mp hy
    cases o with
    | some x =>
      obtain ⟨b, r, hbr, hb, hr⟩ := differential_of_wordedDifferential h₀
      exact hs (first_differential hd ht.last ⟨u, hus.symm⟩ hb hbr hr)
    | none =>
      -- Without a differential, only the words for a variable could be read.
      have hr₀ : r₀ = s ++ differentialText v := by
        rcases List.mem_append.mp h₀ with h | h
        · obtain ⟨_, -, h⟩ := List.mem_map.mp h
          exact absurd h (by simp)
        · exact (Prod.mk.inj (List.mem_singleton.mp h)).2
      rw [hr₀] at h₁
      exact respectTo_differentialText hv' h₁ h₂ h₃
  · exact best?_bind (best?_of_eq (wordedDifferential_differentialText hv')) (best?_of_eq rfl)

/-! ## Before phrasings are looked for -/

theorem tight_differential (hv : isLetter v = true) : Tight ['d', v] where
  head := ⟨'d', [v], rfl, by decide⟩
  last c hc := by
    obtain rfl : v = c := Option.some.inj hc
    exact isBlank_of_anyCaseLetter (isAnyCaseLetter_of_isLetter hv)

theorem squeeze_differential (hv : isLetter v = true) : squeeze ['d', v] = ['d', v] :=
  Blankless.squeeze_eq <| Blankless.cons_iff.mpr ⟨by decide, Blankless.cons_iff.mpr
    ⟨isBlank_of_anyCaseLetter (isAnyCaseLetter_of_isLetter hv), .nil⟩⟩

theorem bare_signForm (hv : isLetter v = true) (he : allBlank e = false) :
    ∃ w, (∀ b ∈ w, isBlank b = true) ∧ bare ('∫' :: (e ++ differentialText v)) =
      '∫' :: (w ++ (squeeze (trim e) ++ differentialText v)) := by
  obtain ⟨w, hw, hs⟩ := squeeze_tight (c := 'd') (t := [v]) he (by decide)
  rw [squeeze_differential hv] at hs
  refine ⟨w, hw, bare_of_collapse ?_ (instructionHead_of_head (by decide) _)⟩
  have hsqueeze : squeeze ('∫' :: (e ++ differentialText v)) =
      '∫' :: (w ++ (squeeze (trim e) ++ differentialText v)) := by
    rw [squeeze_cons_of_not_blank (by decide)]
    exact congrArg ('∫' :: ·) hs
  rw [hsqueeze]
  refine Tight.trim_eq ⟨⟨'∫', _, rfl, by decide⟩, fun c hc => (tight_differential hv).last c ?_⟩
  have hlast : '∫' :: (w ++ (squeeze (trim e) ++ differentialText v)) =
      ('∫' :: (w ++ (squeeze (trim e) ++ [' ']))) ++ ['d', v] := by simp [differentialText]
  rw [hlast, List.getLast?_append] at hc
  exact hc

theorem integralOf_eq_append : "integral of".toList = "integral".toList ++ " of".toList := by decide

theorem bare_differentialForm (hv : isLetter v = true) (he : allBlank e = false) :
    bare ("integral of".toList ++ ' ' :: (e ++ differentialText v)) =
      "integral of".toList ++ ' ' :: (squeeze (trim e) ++ differentialText v) := by
  have hlead := leading_integralOf
  rw [← integralOf_eq_append] at hlead
  have hc := collapse_between hlead.tight (tight_differential hv) he
  rw [hlead.squeeze_eq, squeeze_differential hv] at hc
  exact bare_of_collapse hc (hlead.noInstruction _)

theorem bare_shortForm (hv : isLetter v = true) :
    bare ("int(".toList ++ (e ++ [',', v, ')'])) = "int(".toList ++ (squeeze e ++ [',', v, ')']) :=
  have hn : Blankless "int".toList := forall_mem_of_all (by decide)
  bare_call hn (fun _ => instructionHead_of_head (c := 'i') (by decide) _) (by decide) hv

theorem bare_longForm (hv : isLetter v = true) :
    bare ("integrate(".toList ++ (e ++ [',', v, ')'])) =
      "integrate(".toList ++ (squeeze e ++ [',', v, ')']) :=
  have hn : Blankless "integrate".toList := forall_mem_of_all (by decide)
  bare_call hn (fun _ => instructionHead_of_head (c := 'i') (by decide) _) (by decide) hv

/-! ## The four forms -/

theorem Body.int (hb : Body e) (l : Text) : Nowhere (word ("int".toList ++ l)) e :=
  nowhere_word_append (hb.keyless.words "int".toList (by decide))

theorem sign_not_mem_integralCall (hb : Body e) (hv : isLetter v = true) :
    '∫' ∉ "integrate(".toList ++ (e ++ [',', v, ')']) := by
  have hne : '∫' ≠ v := by
    rintro rfl
    exact absurd hv (by decide)
  have hfront : '∫' ∉ "integrate(".toList := by decide
  simp only [List.mem_append, not_or]
  exact ⟨hfront, hb.keyless.sign, by simpa using hne⟩

theorem calculusCall_integral (hb : Body e) (v : Char) :
    calculusCall integralName e (some v) = "integrate(".toList ++ (e ++ [',', v, ')']) := by
  rw [← callText_integral, calculusCall, hb.tight.trim_eq]
  rfl

theorem integrals_signForm (hv : isLetter v = true) (hb : Body e) (hd : Nowhere differential e)
    (hw : ∀ b ∈ w, isBlank b = true) :
    integrals ('∫' :: (w ++ (e ++ differentialText v))) =
      "integrate(".toList ++ (e ++ [',', v, ')']) := by
  have hsign : replaceAll (fun _ => signWithDifferential) ('∫' :: (w ++ (e ++ differentialText v))) =
      calculusCall integralName e (some v) :=
    replaceAll_of_whole (List.cons_ne_nil _ _)
      (best?_signWithDifferential hv hw hb.tight hb.oneLine hd)
  have hopen : replaceAll (fun _ => openIntegral) ("integrate(".toList ++ (e ++ [',', v, ')'])) =
      "integrate(".toList ++ (e ++ [',', v, ')']) :=
    Nowhere.replaceAll_eq fun _ => (nowhere_literal (sign_not_mem_integralCall hb hv)).bind _
  have hof : Nowhere (word "integral".toList) ("integrate(".toList ++ (e ++ [',', v, ')'])) :=
    nowhere_word_call (by decide) (by decide) (by decide +kernel) ⟨"integrate".toList, by decide⟩
      (hb.int "egral".toList)
  have hcommand := integrate_call (v := v) hb.tight (hb.int "egrate".toList)
  rw [calculusCall_integral hb] at hsign hcommand
  rw [integrals, hsign, hopen, integralOf_eq hof, hcommand,
    shortIntegral_call (hb.keyless.words _ (by decide))]

theorem derivatives_signForm (hv : isLetter v = true) (hb : Body e)
    (hw : ∀ b ∈ w, isBlank b = true) :
    derivatives ('∫' :: (w ++ (e ++ differentialText v))) =
      '∫' :: (w ++ (e ++ differentialText v)) := by
  have word : ∀ k ∈ keywords, Nowhere (word k) ('∫' :: (w ++ e)) := by
    intro k hk
    obtain ⟨hl, hn⟩ := letters_of_mem_keywords hk
    exact nowhere_cons.mpr ⟨word_of_not_letter hl hn (by decide) _, nowhere_blanks_append
      (fun _ cs hc => word_of_not_letter hl hn (isAnyCaseLetter_of_isBlank hc) cs)
      (hb.keyless.words k hk) hw⟩
  have hshape : '∫' :: (w ++ (e ++ differentialText v)) =
      ('∫' :: (w ++ e)) ++ differentialText v := by simp
  rw [hshape]
  refine derivatives_differentialText hv ?_ (word _ (by decide)) (word _ (by decide))
  exact nowhere_cons.mpr ⟨rfl, nowhere_blanks_append
    (fun _ cs hc => operatorStart_of_not_letter (isAnyCaseLetter_of_isBlank hc) cs)
    hb.keyless.operator hw⟩

theorem derivatives_differentialForm (hv : isLetter v = true) (hb : Body e) :
    derivatives ("integral of".toList ++ ' ' :: (e ++ differentialText v)) =
      "integral of".toList ++ ' ' :: (e ++ differentialText v) := by
  have word : ∀ k ∈ keywords, Nowhere (word k) "integral of".toList →
      Nowhere (word k) ("integral of".toList ++ ' ' :: e) := by
    intro k hk hfront
    obtain ⟨hl, hn⟩ := letters_of_mem_keywords hk
    refine nowhere_append (fun _ => steady_word k) (spells_word hl hn) ?_ hfront
      (nowhere_cons.mpr ⟨word_of_not_letter hl hn (by decide) _, hb.keyless.words k hk⟩)
    exact .inr ⟨[], ' ', e, rfl, fun _ h => absurd h List.not_mem_nil, by decide⟩
  have hshape : "integral of".toList ++ ' ' :: (e ++ differentialText v) =
      ("integral of".toList ++ ' ' :: e) ++ differentialText v := by
    rw [List.append_assoc, List.cons_append]
  rw [hshape]
  refine derivatives_differentialText hv ?_ (word _ (by decide) (nowhere_word_of_initial (by decide) _))
    (word _ (by decide) (nowhere_word_of_initial (by decide) _))
  refine nowhere_append steady_operatorStart spells_operatorStart
    (.inl ⟨"integral o".toList, 'f', by decide, by decide⟩) (nowhere_operatorStart (by decide)) ?_
  exact nowhere_cons.mpr ⟨operatorStart_of_not_letter (by decide) _, hb.keyless.operator⟩

theorem integrals_differentialForm (hv : isLetter v = true) (hb : Body e)
    (hd : Nowhere differential e) :
    integrals ("integral of".toList ++ ' ' :: (e ++ differentialText v)) =
      "integrate(".toList ++ (e ++ [',', v, ')']) := by
  have hsign : '∫' ∉ "integral of".toList ++ ' ' :: (e ++ differentialText v) := by
    have hne : '∫' ≠ v := by
      rintro rfl
      exact absurd hv (by decide)
    have hfront : '∫' ∉ "integral of".toList := by decide
    simp only [List.mem_append, List.mem_cons, not_or]
    exact ⟨hfront, by decide, hb.keyless.sign, by simpa [differentialText] using hne⟩
  have hof : replaceAll (fun _ => integralOf) ("integral of".toList ++ ' ' :: (e ++ differentialText v)) =
      calculusCall integralName e (some v) := by
    refine replaceAll_of_whole (by simp) ?_
    rw [integralOf_eq_append]
    exact best?_of_append (by decide) (fun _ => rfl) hb.tight
      (best?_integralBody_differential hv hb.tight hb.oneLine hd)
  have hcommand := integrate_call (v := v) hb.tight (hb.int "egrate".toList)
  rw [integrals_of_not_mem hsign, hof, hcommand, calculusCall_integral hb,
    shortIntegral_call (hb.keyless.words _ (by decide))]

/-- A differential at the end is a differential. -/
theorem not_differentialAtEnd (hd : Nowhere differential e) : ¬DifferentialAtEnd e := by
  rintro ⟨s, b, d, x, rfl, -, hdd, hx⟩
  have hread : ((), []) ∈ differential [d, x] :=
    mem_bind.mpr ⟨(), [x], mem_word_singleton.mpr ⟨d, rfl, hdd⟩, mem_bind.mpr
      ⟨x, [], mem_one.mpr ⟨rfl, hx⟩, List.mem_singleton.mpr rfl⟩⟩
  rw [hd [d, x] ⟨s ++ [b], by simp⟩] at hread
  exact List.not_mem_nil hread

theorem integrals_respectForm (hv : isLetter v = true) (hb : Body e)
    (hd : Nowhere differential e) :
    integrals (derivatives (inWords "integral of".toList e v)) =
      "integrate(".toList ++ (e ++ [',', v, ')']) := by
  have hv' : isAnyCaseLetter v = true := isAnyCaseLetter_of_isLetter hv
  rw [integralOf_eq_append,
    derivatives_inWords hb hv' leading_integralOf (nowhere_word_of_initial (by decide) _)
      (nowhere_word_of_initial (by decide) _),
    integrals_integralOf hb hv' (not_differentialAtEnd hd), calculusCall_integral hb,
    shortIntegral_call (hb.keyless.words _ (by decide))]

theorem keyless_callRest (hv : isLetter v = true) (hk : Keyless e) :
    Keyless (e ++ [',', v, ')']) :=
  hk.append (keyless_callEnd hv)
    (.inr ⟨[], ',', [v, ')'], rfl, fun _ h => absurd h List.not_mem_nil, by decide⟩)

/-- No derivative is read in a call with another name. -/
theorem derivatives_callForm {front : Text} (hlast : ∃ s, front = s ++ ['('])
    (ho : '/' ∉ front) (hd : (front.all fun c => !sameLetter 'd' c) = true)
    (hv : isLetter v = true) (hk : Keyless e) :
    derivatives (front ++ (e ++ [',', v, ')'])) = front ++ (e ++ [',', v, ')']) := by
  have hend := keyless_callRest hv hk
  obtain ⟨s, hs⟩ := hlast
  have word : ∀ k : Text, 'd' :: k ∈ keywords → ('d' :: k).all isLetter = true →
      Nowhere (word ('d' :: k)) (front ++ (e ++ [',', v, ')'])) := fun k hk hl =>
    nowhere_append (fun _ => steady_word _) (spells_word hl (List.cons_ne_nil _ _))
      (.inl ⟨s, '(', hs, by decide⟩) (nowhere_word_of_initial hd k) (hend.words _ hk)
  have hoperator : Nowhere operatorStart (front ++ (e ++ [',', v, ')'])) :=
    nowhere_append steady_operatorStart spells_operatorStart (.inl ⟨s, '(', hs, by decide⟩)
      (nowhere_operatorStart ho) hend.operator
  exact derivatives_eq_self ((nowhere_derivativeOperator hoperator).bind _)
    ((nowhere_derivativeOperator hoperator).bind _)
    (word "erivative".toList (by decide) (by decide))
    (word "ifferentiate".toList (by decide) (by decide))

theorem integrals_shortForm (hv : isLetter v = true) (hk : Keyless e) :
    integrals (derivatives ("int(".toList ++ (e ++ [',', v, ')']))) =
      "integrate(".toList ++ (e ++ [',', v, ')']) := by
  have hend := keyless_callRest hv hk
  have word : ∀ {k : Text}, k.all isLetter = true → k ≠ [] → Nowhere (word k) "int(".toList →
      Nowhere (word k) (e ++ [',', v, ')']) →
      Nowhere (word k) ("int(".toList ++ (e ++ [',', v, ')'])) := fun hl hn hfront =>
    nowhere_append (fun _ => steady_word _) (spells_word hl hn)
      (.inl ⟨"int".toList, '(', by decide, by decide⟩) hfront
  have hint : ∀ l, Nowhere (Pattern.word ("int".toList ++ l)) (e ++ [',', v, ')']) := fun l =>
    nowhere_word_append (hend.words "int".toList (by decide))
  have hsign : '∫' ∉ "int(".toList ++ (e ++ [',', v, ')']) := fun h =>
    (List.mem_append.mp h).elim (fun h => absurd h (by decide)) hend.sign
  have hof := word (k := "integral".toList) (by decide) (by decide)
    (nowhere_word_of_length (by decide)) (hint "egral".toList)
  have hcommand := word (k := integralName) (by decide) (by decide)
    (nowhere_word_of_length (by decide)) (hint "egrate".toList)
  have hshort : (shortIntegral none).best? ("int(".toList ++ (e ++ [',', v, ')'])) =
      some ("integrate(".toList, e ++ [',', v, ')']) := by
    refine best?_bind (best?_of_eq rfl) (best?_bind (best?_of_eq (literal_append "int".toList _)) ?_)
    exact best?_bind (best?_of_eq (many_stop (by decide) _)) (best?_of_eq rfl)
  rw [derivatives_callForm ⟨"int".toList, by decide⟩ (by decide) (by decide) hv hk,
    integrals_of_not_mem hsign, integralOf_eq hof, integrate_eq_self hcommand]
  refine replaceAll_of_front (by decide) hshort fun _ => .after (leavesEnd_guard _) fun _ => ?_
  exact (nowhere_literal_of_word (by decide) (hend.words _ (by decide))).bind _

theorem integrals_longForm (hv : isLetter v = true) (hk : Keyless e) :
    integrals (derivatives ("integrate(".toList ++ (e ++ [',', v, ')']))) =
      "integrate(".toList ++ (e ++ [',', v, ')']) := by
  have hint : ∀ l, Nowhere (word ("int".toList ++ l)) e := fun l =>
    nowhere_word_append (hk.words "int".toList (by decide))
  have hsign : '∫' ∉ "integrate(".toList ++ (e ++ [',', v, ')']) := fun h =>
    (List.mem_append.mp h).elim (fun h => absurd h (by decide)) (keyless_callRest hv hk).sign
  have hof : Nowhere (word "integral".toList) ("integrate(".toList ++ (e ++ [',', v, ')'])) :=
    nowhere_word_call (by decide) (by decide) (by decide +kernel) ⟨"integrate".toList, by decide⟩
      (hint "egral".toList)
  have hrest : Nowhere (word integralName) ("ntegrate(".toList ++ (e ++ [',', v, ')'])) :=
    nowhere_word_call (by decide) (by decide) (nowhere_word_of_initial (by decide) _)
      ⟨"ntegrate".toList, by decide⟩ (hint "egrate".toList)
  have hcommand : Nowhere integrate ('i' :: ("ntegrate(".toList ++ (e ++ [',', v, ')']))) :=
    nowhere_cons.mpr ⟨commanded_call (k := integralName) (by decide) _, hrest.bind _⟩
  rw [derivatives_callForm ⟨"integrate".toList, by decide⟩ (by decide) (by decide) hv hk,
    integrals_of_not_mem hsign, integralOf_eq hof]
  change replaceAll shortIntegral (replaceAll (fun _ => integrate)
    ('i' :: ("ntegrate(".toList ++ (e ++ [',', v, ')'])))) = _
  rw [Nowhere.replaceAll_eq fun _ => hcommand]
  exact shortIntegral_call (hk.words _ (by decide))

/-! ## From the problem to the question -/

/-- **All four forms ask for the same integral**: the canonical form is the call with the plain
integrand and the variable, and these are read off it. -/
theorem integral_forms (config : Config) (hv : isLetter v = true) (hb : allBlank e = false)
    (ha : Argument e) (hk : Keyless e) (hd : Nowhere differential e) :
    ∀ t ∈ integralForms e v,
      canonical t = "integrate(".toList ++ plain e ++ [',', v, ')'] ∧
        Question.integral config (canonical t) = .ok (plain e, [v]) := by
  have hbody := body_of hb hk
  have hdiff := nowhere_differential_squeeze hd
  -- In each form, the phrasing becomes a call of the expression or of the trimmed expression.
  have call : ∀ {t e' : Text}, integrals (derivatives (bare t)) =
      "integrate(".toList ++ (e' ++ [',', v, ')']) → Keyless e' → plain e' = plain e →
      canonical t = "integrate(".toList ++ plain e ++ [',', v, ')'] ∧
        Question.integral config (canonical t) = .ok (plain e, [v]) := by
    intro t e' ht hk' hplain
    have hcanonical : canonical t = callText integralName [plain e, [v]] := by
      have := canonical_eq_callText rfl (by rw [ht, limits_integralCall (hk'.words _ (by decide)),
        callText_integral]) (by decide)
      simpa [hplain, plain_letters, hv] using this
    rw [hcanonical]
    refine ⟨?_, integral_callText config hb ha hv⟩
    rw [callText_integral, List.append_assoc]
  have hplain : plain (squeeze (trim e)) = plain e := by rw [plain_squeeze, plain_trim]
  obtain ⟨w, hw, hsign⟩ := bare_signForm hv hb
  simp only [integralForms, List.forall_mem_cons, List.not_mem_nil, false_implies, implies_true,
    and_true]
  refine ⟨call ?_ hbody.keyless hplain, call ?_ hbody.keyless hplain, call ?_ hbody.keyless hplain,
    call ?_ hk.squeeze (plain_squeeze e)⟩
  · rw [hsign, derivatives_signForm hv hbody hw, integrals_signForm hv hbody hdiff hw]
  · rw [bare_differentialForm hv hb, derivatives_differentialForm hv hbody,
      integrals_differentialForm hv hbody hdiff]
  · have hbare := bare_inWords leading_integralOf (isAnyCaseLetter_of_isLetter hv) hb
    rw [← integralOf_eq_append] at hbare
    rw [hbare, integrals_respectForm hv hbody hdiff]
  · rw [bare_shortForm hv, integrals_shortForm hv hk.squeeze]

theorem integral_forms_nested :
    Argument " 3×[d sin\x7bu, 2\x7d] ÷ d² ".toList ∧ Keyless " 3×[d sin\x7bu, 2\x7d] ÷ d² ".toList ∧
      Nowhere differential " 3×[d sin\x7bu, 2\x7d] ÷ d² ".toList ∧
      ∀ t ∈ integralForms " 3×[d sin\x7bu, 2\x7d] ÷ d² ".toList 'd',
        canonical t = "integrate(3*(dsin(u,2))/d^2,d)".toList ∧
          Question.integral .default (canonical t) = .ok ("3*(dsin(u,2))/d^2".toList, ['d']) := by
  have hargument : Argument " 3×[d sin\x7bu, 2\x7d] ÷ d² ".toList := ⟨by decide, by decide⟩
  have hkeyless : Keyless " 3×[d sin\x7bu, 2\x7d] ÷ d² ".toList := by decide +kernel
  have hdifferential : Nowhere differential " 3×[d sin\x7bu, 2\x7d] ÷ d² ".toList := by decide +kernel
  have hplain : plain " 3×[d sin\x7bu, 2\x7d] ÷ d² ".toList = "3*(dsin(u,2))/d^2".toList := by
    decide +kernel
  have h := integral_forms (v := 'd') .default (by decide) (by decide) hargument hkeyless hdifferential
  rw [hplain] at h
  exact ⟨hargument, hkeyless, hdifferential, h⟩

/-- The call with the long name asks for the same. -/
theorem integral_longForm (config : Config) (hv : isLetter v = true) (hb : allBlank e = false)
    (ha : Argument e) (hk : Keyless e) :
    Question.integral config (canonical (callText integralName [e, [v]])) = .ok (plain e, [v]) := by
  have hrewritten := integrals_longForm hv hk.squeeze
  have hcanonical : canonical (callText integralName [e, [v]]) =
      callText integralName [plain e, [v]] := by
    rw [callText_integral, canonical_eq_callText (bare_longForm hv) (by
      rw [hrewritten, limits_integralCall (hk.squeeze.words _ (by decide)), callText_integral])
      (by decide)]
    simp [plain_squeeze, plain_letters, hv]
  rw [hcanonical]
  exact integral_callText config hb ha hv

end Stepwise.Phrase
