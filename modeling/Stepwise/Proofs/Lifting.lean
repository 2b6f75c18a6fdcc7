import Stepwise.Proofs.Weight

/-!
# Every rule raises the weight

What a text without blanks is rewritten for: an operator `d/dV` before brackets, an integral sign,
the call `int`, an X between digits, a double star, and glyphs. Each of these is replaced by
something heavier.

Results: `raises_apply`, every rule raises the weight of a text without blanks; and
`canonical_eq_iff`, such a text is canonical if and only if no rule changes it.
-/

namespace Stepwise.Phrase

open Text Pattern

variable {t : Text}

/-! ## Integrals -/

/-- A call weighs more than an integral sign and a differential. -/
theorem weight_calculusCall {body : Text} {x : Option Char} (hb : Blankless body) :
    weight (calculusCall integralName body x) =
      87 + weight body + charWeight (x.getD usualVariable) := by
  have hn : weight integralName = 90 := by decide
  have ho : charWeight '(' = -1 := by decide
  have hc : charWeight ',' = -1 := by decide
  have he : charWeight ')' = -1 := by decide
  rw [calculusCall, callText_pair, hb.trim_eq]
  simp only [weight_append, weight_cons, weight_nil]
  omega

theorem blankless_calculusCall {body : Text} {x : Option Char} (hb : Blankless body)
    (hx : ∀ c, x = some c → isBlank c = false) :
    Blankless (calculusCall integralName body x) := by
  have hv : isBlank (x.getD usualVariable) = false := by
    cases x with
    | none => decide
    | some c => exact hx c rfl
  have hn : Blankless integralName := forall_mem_of_all (by decide)
  rw [calculusCall, callText_pair, hb.trim_eq]
  have ho : isBlank '(' = false := by decide
  have hc : isBlank ',' = false := by decide
  have he : isBlank ')' = false := by decide
  simp only [Blankless.append_iff, Blankless.cons_iff]
  exact ⟨⟨⟨hn, ho, hb⟩, hc, hv, Blankless.nil⟩, he, Blankless.nil⟩

theorem lifts_signWithDifferential : Lifts signWithDifferential := by
  intro t new rest ht h
  have h := mem_of_best? h
  simp only [signWithDifferential, mem_bind, mem_literal, mem_one, mem_pure] at h
  obtain ⟨_, _, rfl, _, _, hb, body, _, hbody, _, _, hb', _, _, rfl, x, _, ⟨rfl, -⟩, _, _, hn, rfl,
    rfl⟩ := h
  obtain rfl := mem_notBefore hn
  obtain ⟨-, ht⟩ := Blankless.append_iff.mp ht
  obtain ⟨-, rfl⟩ := (mem_blanks ht).mp hb
  obtain ⟨rfl, -⟩ := mem_few1 hbody
  obtain ⟨hbl, hrest⟩ := Blankless.append_iff.mp ht
  obtain ⟨-, rfl⟩ := (mem_blanks hrest).mp hb'
  have hx : isBlank x = false := hrest x (by simp)
  refine ⟨'∫', body ++ ['d', x], by simp, blankless_calculusCall hbl ?_, ?_⟩
  · rintro c h
    obtain rfl := Option.some.inj h
    exact hx
  · have hs : charWeight '∫' = -1 := by decide
    have hd : charWeight 'd' = 10 := by decide
    rw [weight_calculusCall hbl, Option.getD_some]
    simp only [weight_append, weight_cons, weight_nil]
    omega

theorem lifts_openIntegral : Lifts openIntegral := by
  intro t new rest ht h
  have h := mem_of_best? h
  simp only [openIntegral, mem_bind, mem_literal, mem_pure, mem_atEnd] at h
  obtain ⟨_, _, rfl, _, _, hb, body, _, hbody, _, _, ⟨rfl, -⟩, rfl, rfl⟩ := h
  obtain ⟨-, ht⟩ := Blankless.append_iff.mp ht
  obtain ⟨-, rfl⟩ := (mem_blanks ht).mp hb
  obtain ⟨rfl, -⟩ := mem_many1 hbody
  have hbl := (Blankless.append_iff.mp ht).1
  refine ⟨'∫', body, rfl, blankless_calculusCall hbl (by simp), ?_⟩
  have hs : charWeight '∫' = -1 := by decide
  have hx : charWeight usualVariable = -2 := by decide
  rw [weight_calculusCall hbl, Option.getD_none, weight_cons]
  omega

theorem lifts_shortIntegral (last : Option Char) : Lifts (shortIntegral last) := by
  intro t new rest ht h
  have h := mem_of_best? h
  simp only [shortIntegral, mem_bind, mem_literal, mem_pure, mem_guard] at h
  obtain ⟨_, _, ⟨rfl, -⟩, _, r, rfl, _, _, hb, _, _, rfl, rfl, rfl⟩ := h
  obtain ⟨-, rfl⟩ := (mem_blanks (Blankless.append_iff.mp ht).2).mp hb
  exact ⟨'i', ['n', 't', '('], rfl, forall_mem_of_all (by decide), by decide⟩

/-- What becomes of integrals, step by step. -/
def integralSteps : List (Text → Text) :=
  [replaceAll fun _ => signWithDifferential, replaceAll fun _ => openIntegral,
   replaceAll fun _ => integralOf, replaceAll fun _ => integrate, replaceAll shortIntegral]

theorem raises_integralSteps : ∀ f ∈ integralSteps, Raises f := by
  unfold integralSteps
  simp only [List.forall_mem_cons]
  exact ⟨raises_replaceAll fun _ => lifts_signWithDifferential,
    raises_replaceAll fun _ => lifts_openIntegral,
    .of_eq fun _ => NeedsBlank.replaceAll_eq fun _ => needsBlank_integralOf,
    .of_eq fun _ => NeedsBlank.replaceAll_eq fun _ => needsBlank_integrate,
    raises_replaceAll lifts_shortIntegral, fun _ h => absurd h List.not_mem_nil⟩

/-! ## Glyphs -/

theorem lifts_crossBetweenDigits (last : Option Char) : Lifts (crossBetweenDigits last) := by
  intro t new rest ht h
  have h := mem_of_best? h
  simp only [crossBetweenDigits, mem_bind, mem_one, mem_pure, mem_guard, mem_before] at h
  obtain ⟨_, _, ⟨rfl, -⟩, _, _, hb, x, r, ⟨rfl, hx⟩, _, _, hb', _, _, ⟨rfl, -⟩, rfl, rfl⟩ := h
  obtain ⟨-, he⟩ := (mem_blanks ht).mp hb
  subst he
  obtain ⟨-, rfl⟩ := (mem_blanks (Blankless.cons_iff.mp ht).2).mp hb'
  refine ⟨x, [], rfl, List.forall_mem_singleton.mpr (by decide), ?_⟩
  rcases Bool.or_eq_true_iff.mp hx with hx | hx
  · rw [eq_of_beq hx]
    decide
  · rw [eq_of_beq hx]
    decide

theorem lifts_doubleStar : Lifts doubleStar := by
  intro t new rest ht h
  have h := mem_of_best? h
  simp only [doubleStar, mem_bind, mem_literal, mem_pure] at h
  obtain ⟨_, _, rfl, rfl, rfl⟩ := h
  exact ⟨'*', ['*'], rfl, List.forall_mem_singleton.mpr (by decide), by decide⟩

/-- The signs of multiplication as stars, the first step of `plainGlyphs`. -/
def plainTimes (c : Char) : Char := if timesSigns.contains c then '*' else c

theorem raises_plainTimes : Raises (List.map plainTimes) := by
  have hw : ∀ c ∈ timesSigns, charWeight c < charWeight '*' := forall_mem_of_all (by decide)
  refine .map (fun c hc => ?_) fun c => ?_
  · unfold plainTimes
    split
    · decide
    · exact hc
  · unfold plainTimes
    split
    next h => exact .inr (hw c (List.contains_iff_mem.mp h))
    next => exact .inl rfl

theorem raises_plainSign : Raises (List.map plainSign) := by
  have hw : ∀ c ∈ dashes, charWeight c < charWeight '-' := forall_mem_of_all (by decide)
  refine .map (fun c hc => ?_) fun c => ?_
  · unfold plainSign
    split
    · decide
    · split
      · decide
      · exact hc
  · unfold plainSign
    split
    next h =>
      rw [h]
      exact .inr (by decide)
    · split
      next h => exact .inr (hw c (List.contains_iff_mem.mp h))
      next => exact .inl rfl

theorem plainGlyph_of_not_mem {c : Char} (h : c ∉ spelledGlyphs) : plainGlyph c = [c] :=
  plainGlyph_self h

theorem raises_plainGlyph : Raises (List.flatMap plainGlyph) := by
  have hb : ∀ c ∈ spelledGlyphs, (plainGlyph c).all (fun d => decide (isBlank d = false)) = true :=
    forall_mem_of_all (by decide)
  have hw : ∀ c ∈ spelledGlyphs, charWeight c < weight (plainGlyph c) :=
    forall_mem_of_all (by decide)
  refine .flatMap (fun c hc => ?_) fun c => ?_
  · by_cases h : c ∈ spelledGlyphs
    · exact forall_mem_of_all (hb c h)
    · rw [plainGlyph_of_not_mem h]
      exact List.forall_mem_singleton.mpr hc
  · by_cases h : c ∈ spelledGlyphs
    · exact .inr (hw c h)
    · exact .inl (plainGlyph_of_not_mem h)

/-- What becomes of glyphs, step by step. -/
def glyphSteps : List (Text → Text) :=
  [List.map plainTimes, replaceAll crossBetweenDigits, List.map plainSign,
   replaceAll fun _ => doubleStar, List.flatMap plainGlyph]

theorem raises_glyphSteps : ∀ f ∈ glyphSteps, Raises f := by
  unfold glyphSteps
  simp only [List.forall_mem_cons]
  exact ⟨raises_plainTimes, raises_replaceAll lifts_crossBetweenDigits, raises_plainSign,
    raises_replaceAll fun _ => lifts_doubleStar, raises_plainGlyph,
    fun _ h => absurd h List.not_mem_nil⟩

/-! ## The end of a sentence -/

theorem dropEndWhile_append (p : Char → Bool) : ∀ t : Text,
    ∃ w, t = dropEndWhile p t ++ w ∧ ∀ c ∈ w, p c = true
  | [] => ⟨[], rfl, fun _ h => absurd h List.not_mem_nil⟩
  | c :: cs => by
    obtain ⟨w, he, hw⟩ := dropEndWhile_append p cs
    unfold dropEndWhile
    split
    next h =>
      rw [h, List.nil_append] at he
      split
      next hc => exact ⟨c :: w, by rw [he]; rfl, List.forall_mem_cons.mpr ⟨hc, hw⟩⟩
      next => exact ⟨w, by rw [he]; rfl, hw⟩
    next d ds h =>
      rw [h] at he
      exact ⟨w, congrArg (c :: ·) he, hw⟩

theorem weight_of_forall : ∀ {w : Text}, (∀ c ∈ w, charWeight c = -1) → weight w = -w.length
  | [], _ => rfl
  | c :: cs, h => by
    obtain ⟨hc, hcs⟩ := List.forall_mem_cons.mp h
    rw [weight_cons, hc, weight_of_forall hcs, List.length_cons]
    omega

theorem raises_dropEndWhile : Raises (dropEndWhile endsSentence) where
  blankless {t} ht := by
    obtain ⟨w, he, -⟩ := dropEndWhile_append endsSentence t
    rw [he] at ht
    exact (Blankless.append_iff.mp ht).1
  eq_or_lt {t} ht := by
    obtain ⟨w, he, hw⟩ := dropEndWhile_append endsSentence t
    have hneg : ∀ c ∈ w, charWeight c = -1 := by
      intro c hc
      have hb : isBlank c = false := ht c (by rw [he]; exact List.mem_append_right _ hc)
      have := hw c hc
      rw [endsSentence, hb, Bool.false_or, Bool.or_eq_true, beq_iff_eq, beq_iff_eq] at this
      rcases this with rfl | rfl <;> decide
    cases w with
    | nil =>
      rw [List.append_nil] at he
      exact .inl he.symm
    | cons c w =>
      refine .inr ?_
      have hsum := congrArg weight he
      rw [weight_append, weight_of_forall hneg, List.length_cons] at hsum
      omega

/-! ## Derivatives -/

theorem closingFrom_split {opener closer : Char} : ∀ {t : Text} {depth j : Nat},
    Bracket.closingFrom opener closer depth t = some j →
      t = t.take j ++ closer :: t.drop (j + 1)
  | [], _, _, h => absurd h (by simp [Bracket.closingFrom])
  | c :: cs, depth, j, h => by
    have step {d : Nat} (h : (Bracket.closingFrom opener closer d cs).map (· + 1) = some j) :
        c :: cs = (c :: cs).take j ++ closer :: (c :: cs).drop (j + 1) := by
      obtain ⟨k, hk, rfl⟩ := Option.map_eq_some_iff.mp h
      exact congrArg (c :: ·) (closingFrom_split hk)
    unfold Bracket.closingFrom at h
    split at h
    · exact step h
    · split at h
      next hc =>
        split at h
        · obtain rfl := Option.some.inj h
          rw [hc]
          rfl
        · exact step h
      · exact step h

/-- The brackets weigh little, on either side. -/
theorem charWeight_closer {opener closer : Char} (h : Bracket.closer? opener = some closer) :
    charWeight opener ≤ -1 ∧ charWeight closer ≤ -1 := by
  unfold Bracket.closer? at h
  split at h
  · obtain rfl := Option.some.inj h
    decide
  · obtain rfl := Option.some.inj h
    decide
  · obtain rfl := Option.some.inj h
    decide
  · exact absurd h (by simp)

theorem cutAtClosing_eq_some {opener : Char} {t body rest : Text}
    (h : cutAtClosing opener t = some (body, rest)) :
    ∃ closer, t = body ++ closer :: rest ∧ charWeight opener ≤ -1 ∧ charWeight closer ≤ -1 := by
  unfold cutAtClosing at h
  obtain ⟨closer, hc, h⟩ := Option.bind_eq_some_iff.mp h
  obtain ⟨j, hj, h⟩ := Option.bind_eq_some_iff.mp h
  obtain ⟨rfl, rfl⟩ := Prod.mk.inj (Option.some.inj h)
  exact ⟨closer, closingFrom_split hj, charWeight_closer hc⟩

theorem isBlank_toLower {c : Char} (h : isBlank c = false) : isBlank c.toLower = false :=
  toLower_induction (p := fun c => isBlank c = false) h (by decide)

theorem blankless_lower {c : Char} (h : isBlank c = false) : Blankless (lower c) := by
  unfold lower
  split
  · exact forall_mem_of_all (by decide)
  · split
    · exact forall_mem_of_all (by decide)
    · exact List.forall_mem_singleton.mpr (isBlank_toLower h)

theorem le_weight_lower (c : Char) : -6 ≤ weight (lower c) := by
  unfold lower
  split
  · decide
  · split
    · decide
    · have := le_charWeight c.toLower
      rw [weight_cons, weight_nil]
      omega

/-- A text that starts with an operator `d/dV` and the bracket `opener`, with no blank in them. -/
def OperatorBefore (opener : Char) (rest t : Text) : Prop :=
  ∃ d e x, t = d :: '/' :: e :: x :: opener :: rest ∧ sameLetter 'd' d = true ∧
    sameLetter 'd' e = true ∧ isAnyCaseLetter x = true ∧ (Bracket.closer? opener).isSome = true

theorem mem_wrappedHead {x opener : Char} {rest : Text} (ht : Blankless t)
    (h : ((x, opener), rest) ∈ wrappedHead t) :
    (∃ d e, t = d :: '/' :: e :: x :: opener :: rest) ∧ OperatorBefore opener rest t := by
  simp only [wrappedHead, derivativeOperator, mem_bind, mem_literal, mem_pure, mem_word_singleton,
    mem_one] at h
  obtain ⟨_, _, ⟨_, _, ⟨d, rfl, hd⟩, _, _, h₁, _, _, rfl, _, _, h₂, _, _, ⟨e, rfl, he⟩, _, _, h₃,
    rfl, hx⟩, _, _, h₄, _, _, ⟨rfl, ho⟩, heq, rfl⟩ := h
  obtain ⟨rfl, rfl⟩ := Prod.mk.inj heq
  have ht₁ := (Blankless.cons_iff.mp ht).2
  obtain ⟨-, rfl⟩ := (mem_blanks ht₁).mp h₁
  have ht₂ := (Blankless.cons_iff.mp ht₁).2
  obtain ⟨-, rfl⟩ := (mem_blanks ht₂).mp h₂
  have ht₃ := (Blankless.cons_iff.mp ht₂).2
  obtain ⟨-, rfl⟩ := (mem_blanks ht₃).mp h₃
  have ht₄ := (Blankless.cons_iff.mp ht₃).2
  obtain ⟨-, rfl⟩ := (mem_blanks ht₄).mp h₄
  exact ⟨⟨d, e, rfl⟩, d, e, _, rfl, hd, he, hx, ho⟩

theorem OperatorBefore.best?_ne_none {opener : Char} {rest : Text} (ht : Blankless t)
    (h : OperatorBefore opener rest t) : wrappedHead.best? t ≠ none := by
  obtain ⟨d, e, x, rfl, hd, he, hx, ho⟩ := h
  have ht₁ := (Blankless.cons_iff.mp ht).2
  have ht₂ := (Blankless.cons_iff.mp ht₁).2
  have ht₃ := (Blankless.cons_iff.mp ht₂).2
  have ht₄ := (Blankless.cons_iff.mp ht₃).2
  refine Pattern.best?_ne_none.mpr ⟨(x, opener), rest, ?_⟩
  simp only [wrappedHead, derivativeOperator, mem_bind, mem_literal, mem_pure, mem_word_singleton,
    mem_one]
  exact ⟨x, _, ⟨(), _, ⟨d, rfl, hd⟩, [], _, (mem_blanks ht₁).mpr ⟨rfl, rfl⟩, (), _, rfl, [], _,
    (mem_blanks ht₂).mpr ⟨rfl, rfl⟩, (), _, ⟨e, rfl, he⟩, [], _, (mem_blanks ht₃).mpr ⟨rfl, rfl⟩,
    rfl, hx⟩, [], _, (mem_blanks ht₄).mpr ⟨rfl, rfl⟩, opener, rest, ⟨rfl, ho⟩, rfl, rfl⟩

theorem OperatorBefore.unique {o o' : Char} {r r' : Text} (h : OperatorBefore o r t)
    (h' : OperatorBefore o' r' t) : o = o' ∧ r = r' := by
  obtain ⟨_, _, _, rfl, -⟩ := h
  obtain ⟨_, _, _, he, -⟩ := h'
  simp only [List.cons.injEq, true_and] at he
  exact he.2.2.2

/-- What comes of an operator whose bracket is closed: its call, and the text after the bracket. -/
theorem wrappedFrom_of_closed {c x opener : Char} {cs rest body rest' : Text}
    (ht : Blankless (c :: cs)) (h : wrappedHead.best? (c :: cs) = some ((x, opener), rest))
    (hc : cutAtClosing opener rest = some (body, rest')) :
    ∃ new skip, wrappedFrom 0 (c :: cs) = new ++ wrappedFrom skip cs ∧ Blankless new ∧
      weight (c :: cs) < weight new + weight (cs.drop skip) := by
  obtain ⟨⟨d, e, he⟩, -⟩ := mem_wrappedHead ht (mem_of_best? h)
  obtain ⟨closer, rfl, ho, hcl⟩ := cutAtClosing_eq_some hc
  have hs : wrappedFrom 0 (c :: cs) = callText derivativeName [trim body, lower x] ++
      wrappedFrom (cs.length - rest'.length) cs := by
    rw [wrappedFrom, h]
    dsimp only
    rw [hc]
  obtain ⟨rfl, rfl⟩ := List.cons.inj he
  simp only [Blankless.append_iff, Blankless.cons_iff] at ht
  obtain ⟨-, -, -, hx, -, hb, -⟩ := ht
  refine ⟨_, _, hs, ?_, ?_⟩
  · have hn : Blankless derivativeName := forall_mem_of_all (by decide)
    have h₁ : isBlank '(' = false := by decide
    have h₂ : isBlank ',' = false := by decide
    have h₃ : isBlank ')' = false := by decide
    rw [callText_pair, hb.trim_eq]
    simp only [Blankless.append_iff, Blankless.cons_iff]
    exact ⟨⟨⟨hn, h₁, hb⟩, h₂, blankless_lower hx⟩, h₃, Blankless.nil⟩
  · have hd : ('/' :: e :: x :: opener :: (body ++ closer :: rest')).drop
        (('/' :: e :: x :: opener :: (body ++ closer :: rest')).length - rest'.length) = rest' := by
      have hl : '/' :: e :: x :: opener :: (body ++ closer :: rest') =
          ('/' :: e :: x :: opener :: body ++ [closer]) ++ rest' := by simp
      rw [hl, List.length_append, Nat.add_sub_cancel, List.drop_left]
    have hn : weight derivativeName = 40 := by decide
    have h₁ : charWeight '(' = -1 := by decide
    have h₂ : charWeight ',' = -1 := by decide
    have h₃ : charWeight ')' = -1 := by decide
    have h₄ : charWeight '/' = -1 := by decide
    rw [hd, callText_pair, hb.trim_eq]
    simp only [weight_append, weight_cons, weight_nil]
    have := charWeight_le c
    have := charWeight_le e
    have := charWeight_le x
    have := le_weight_lower x
    omega

theorem blankless_wrappedFrom : ∀ {t : Text} {skip : Nat}, Blankless t →
    Blankless (wrappedFrom skip t)
  | [], _, ht => by rwa [wrappedFrom]
  | c :: cs, skip + 1, ht => by
    rw [wrappedFrom]
    exact blankless_wrappedFrom (Blankless.cons_iff.mp ht).2
  | c :: cs, 0, ht => by
    obtain ⟨hc, hcs⟩ := Blankless.cons_iff.mp ht
    cases h : wrappedHead.best? (c :: cs) with
    | none =>
      rw [wrappedFrom, h]
      exact Blankless.cons_iff.mpr ⟨hc, blankless_wrappedFrom hcs⟩
    | some r =>
      obtain ⟨⟨x, opener⟩, rest⟩ := r
      cases hcut : cutAtClosing opener rest with
      | none => rwa [wrappedFrom_of_unclosed h hcut]
      | some r =>
        obtain ⟨new, skip, hs, hn, -⟩ := wrappedFrom_of_closed ht h hcut
        rw [hs]
        exact Blankless.append_iff.mpr ⟨hn, blankless_wrappedFrom hcs⟩

theorem le_weight_wrappedFrom : ∀ {t : Text} (skip : Nat), Blankless t →
    weight (t.drop skip) ≤ weight (wrappedFrom skip t)
  | [], _, _ => by
    exact Int.le_of_eq (by rw [wrappedFrom, List.drop_nil])
  | c :: cs, skip + 1, ht => by
    rw [wrappedFrom, List.drop_succ_cons]
    exact le_weight_wrappedFrom skip (Blankless.cons_iff.mp ht).2
  | c :: cs, 0, ht => by
    have hcs := (Blankless.cons_iff.mp ht).2
    rw [List.drop_zero]
    cases h : wrappedHead.best? (c :: cs) with
    | none =>
      have ih := le_weight_wrappedFrom 0 hcs
      rw [List.drop_zero] at ih
      rw [wrappedFrom, h, weight_cons, weight_cons]
      omega
    | some r =>
      obtain ⟨⟨x, opener⟩, rest⟩ := r
      cases hcut : cutAtClosing opener rest with
      | none => exact Int.le_of_eq (by rw [wrappedFrom_of_unclosed h hcut])
      | some r =>
        obtain ⟨new, skip, hs, -, hlt⟩ := wrappedFrom_of_closed ht h hcut
        have ih := le_weight_wrappedFrom skip hcs
        rw [hs, weight_append]
        omega

/-- The first operator before a bracket has its bracket closed. -/
def FirstClosed (t : Text) : Prop :=
  ∃ a s opener rest, t = a ++ s ∧ OperatorBefore opener rest s ∧
    (∀ b u o r, t = b ++ u → OperatorBefore o r u → a.length ≤ b.length) ∧
      (cutAtClosing opener rest).isSome = true

theorem firstClosed_of_none {c : Char} {cs : Text} (ht : Blankless (c :: cs))
    (h : wrappedHead.best? (c :: cs) = none) : FirstClosed (c :: cs) ↔ FirstClosed cs := by
  have hn : ∀ o r, ¬OperatorBefore o r (c :: cs) := fun o r ho => ho.best?_ne_none ht h
  constructor
  · rintro ⟨a, s, opener, rest, he, ho, hf, hc⟩
    cases a with
    | nil =>
      obtain rfl : c :: cs = s := he
      exact absurd ho (hn opener rest)
    | cons d a =>
      obtain ⟨rfl, rfl⟩ := List.cons.inj he
      refine ⟨a, s, opener, rest, rfl, ho, fun b u o r hb ho' => ?_, hc⟩
      exact Nat.le_of_succ_le_succ (hf (c :: b) u o r (congrArg (c :: ·) hb) ho')
  · rintro ⟨a, s, opener, rest, rfl, ho, hf, hc⟩
    refine ⟨c :: a, s, opener, rest, rfl, ho, fun b u o r hb ho' => ?_, hc⟩
    cases b with
    | nil =>
      obtain rfl : c :: (a ++ s) = u := hb
      exact absurd ho' (hn o r)
    | cons d b =>
      exact Nat.succ_le_succ (hf b u o r (List.cons.inj hb).2 ho')

theorem firstClosed_of_some {c x opener : Char} {cs rest : Text} (ht : Blankless (c :: cs))
    (h : wrappedHead.best? (c :: cs) = some ((x, opener), rest)) :
    FirstClosed (c :: cs) ↔ (cutAtClosing opener rest).isSome = true := by
  have ho := (mem_wrappedHead ht (mem_of_best? h)).2
  constructor
  · rintro ⟨a, s, o, r, he, ho', hf, hc⟩
    obtain rfl : a = [] := List.eq_nil_of_length_eq_zero (Nat.le_zero.mp (hf [] _ _ _ rfl ho))
    obtain rfl : c :: cs = s := he
    obtain ⟨rfl, rfl⟩ := ho.unique ho'
    exact hc
  · exact fun hc => ⟨[], _, opener, rest, rfl, ho, fun _ _ _ _ _ _ => Nat.zero_le _, hc⟩

theorem wrappedFrom_of_not_firstClosed : ∀ {t : Text}, Blankless t →
    ¬FirstClosed t → wrappedFrom 0 t = t
  | [], _, _ => by rw [wrappedFrom]
  | c :: cs, ht, hn => by
    cases h : wrappedHead.best? (c :: cs) with
    | none =>
      rw [firstClosed_of_none ht h] at hn
      rw [wrappedFrom, h]
      exact congrArg (c :: ·) (wrappedFrom_of_not_firstClosed (Blankless.cons_iff.mp ht).2 hn)
    | some r =>
      obtain ⟨⟨x, opener⟩, rest⟩ := r
      rw [firstClosed_of_some ht h, Bool.not_eq_true, Option.isSome_eq_false_iff,
        Option.isNone_iff_eq_none] at hn
      exact wrappedFrom_of_unclosed h hn

theorem lt_weight_wrappedFrom : ∀ {t : Text}, Blankless t →
    FirstClosed t → weight t < weight (wrappedFrom 0 t)
  | [], _, hc => by
    obtain ⟨a, s, _, _, he, ⟨_, _, _, rfl, -⟩, -⟩ := hc
    exact absurd he.symm (by simp)
  | c :: cs, ht, hc => by
    have hcs := (Blankless.cons_iff.mp ht).2
    cases h : wrappedHead.best? (c :: cs) with
    | none =>
      have ih := lt_weight_wrappedFrom hcs ((firstClosed_of_none ht h).mp hc)
      rw [wrappedFrom, h, weight_cons, weight_cons]
      omega
    | some r =>
      obtain ⟨⟨x, opener⟩, rest⟩ := r
      obtain ⟨⟨body, rest'⟩, hcut⟩ :=
        Option.isSome_iff_exists.mp ((firstClosed_of_some ht h).mp hc)
      obtain ⟨new, skip, hs, -, hlt⟩ := wrappedFrom_of_closed ht h hcut
      have hle := le_weight_wrappedFrom skip hcs
      rw [hs, weight_append]
      omega

theorem raises_wrappedDerivatives : Raises wrappedDerivatives where
  blankless ht := blankless_wrappedFrom ht
  eq_or_lt {t} ht := by
    by_cases h : FirstClosed t
    · exact .inr (lt_weight_wrappedFrom ht h)
    · exact .inl (wrappedFrom_of_not_firstClosed ht h)

/-- Operators are left alone if and only if the bracket of the first one is never closed. -/
theorem wrappedDerivatives_eq_iff (ht : Blankless t) :
    wrappedDerivatives t = t ↔ ¬FirstClosed t := by
  constructor
  · intro h hc
    have hlt : weight t < weight (wrappedDerivatives t) := lt_weight_wrappedFrom ht hc
    rw [h] at hlt
    exact Int.lt_irrefl _ hlt
  · exact wrappedFrom_of_not_firstClosed ht

theorem raises_derivatives : Raises derivatives where
  blankless {t} ht := by
    have hw := raises_wrappedDerivatives.blankless ht
    rwa [derivatives_of_blankless hw]
  eq_or_lt {t} ht := by
    rw [derivatives_of_blankless (raises_wrappedDerivatives.blankless ht)]
    exact raises_wrappedDerivatives.eq_or_lt ht

/-! ## Rules -/

/-- **Every rule raises the weight** of a text without blanks, or leaves the text alone. -/
theorem raises_apply : ∀ r : Rule, Raises r.apply
  | .collapseBlanks => .of_eq fun t ht => by rw [Rule.apply, ht.squeeze_eq, ht.trim_eq]
  | .stripInstructions => .of_eq fun t ht => instructions_of_blankless ht _
  | .derivativePhrasing => raises_derivatives
  | .integralPhrasing => .inOrder raises_integralSteps
  | .limitPhrasing => .of_eq fun _ ht => limits_of_blankless ht
  | .operatorGlyphs => .inOrder raises_glyphSteps
  | .stripTrailingPeriod => raises_dropEndWhile
  | .removeBlanks => .of_eq fun _ ht => ht.removeBlanks_eq

/-- **A text without blanks is canonical if and only if no rule changes it.** -/
theorem canonical_eq_iff (ht : Blankless t) : canonical t = t ↔ ∀ r : Rule, r.apply t = t := by
  have all : ∀ r : Rule, r ∈ Rule.all := by
    intro r
    cases r <;> decide
  have raises : ∀ f ∈ Rule.all.map Rule.apply, Raises f := by
    intro f hf
    obtain ⟨r, -, rfl⟩ := List.mem_map.mp hf
    exact raises_apply r
  have he : canonical t = inOrder (Rule.all.map Rule.apply) t := by
    rw [inOrder, List.foldl_map]
    rfl
  rw [he, Raises.inOrder_eq_iff ht raises]
  constructor
  · exact fun h r => h _ (List.mem_map.mpr ⟨r, all r, rfl⟩)
  · intro h f hf
    obtain ⟨r, -, rfl⟩ := List.mem_map.mp hf
    exact h r

end Stepwise.Phrase
