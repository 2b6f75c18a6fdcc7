import Stepwise.Proofs.Tally

/-!
# Phrasings and the marks that end a sentence

A period or a question mark is part of no phrasing: patterns with an end of their own leave it alone,
and the others keep it in what they give. Here this is said of each pattern of the rules.

Results: `anchored_signWithDifferential` and its siblings, for the patterns that leave the end of a
sentence alone, and `carries_openDerivative` and its siblings, for all that are replaced.
-/

namespace Stepwise.Phrase

open Text Pattern

/-! ## Marks -/

/-- The marks that end a sentence. -/
def sentenceMarks : Text := ['.', '?']

/-- What a mark adds to a text whose blanks have been collapsed. -/
def markTails (m : Char) : List Text := [[m], [' ', m]]

section Marks

variable {m : Char} {tail t : Text}

theorem mark_eq (hm : m ∈ sentenceMarks) : m = '.' ∨ m = '?' := by
  simpa [sentenceMarks] using hm

theorem isBlank_mark (hm : m ∈ sentenceMarks) : isBlank m = false := by
  rcases mark_eq hm with rfl | rfl <;> decide

theorem isAnyCaseLetter_mark (hm : m ∈ sentenceMarks) : isAnyCaseLetter m = false := by
  rcases mark_eq hm with rfl | rfl <;> decide

theorem endsSentence_mark (hm : m ∈ sentenceMarks) : endsSentence m = true := by
  rcases mark_eq hm with rfl | rfl <;> decide

theorem isLetter_of_anyCase {c : Char} (h : isAnyCaseLetter c = false) : isLetter c = false :=
  (Bool.or_eq_false_iff.mp h).1

theorem isLetter_mark (hm : m ∈ sentenceMarks) : isLetter m = false :=
  isLetter_of_anyCase (isAnyCaseLetter_mark hm)

theorem mark_not_mem_of_letters {w : Text} (hm : m ∈ sentenceMarks) (hw : w.all isLetter = true) :
    m ∉ w := by
  intro h
  have := List.all_eq_true.mp hw m h
  rw [isLetter_mark hm] at this
  exact Bool.false_ne_true this

theorem sameLetter_mark {q : Char} (hm : m ∈ sentenceMarks) (hq : isLetter q = true) :
    sameLetter q m = false := by
  have h : sameLetter q m = (m == q) := by
    rcases mark_eq hm with rfl | rfl <;> simp [sameLetter, caseVariant?]
  rw [h, beq_eq_false_iff_ne]
  rintro rfl
  rw [isLetter_mark hm] at hq
  exact Bool.false_ne_true hq

theorem isAnyCaseLetter_toLower {c : Char} (h : isAnyCaseLetter c = true) :
    isAnyCaseLetter c.toLower = true :=
  toLower_induction (p := fun c => isAnyCaseLetter c = true) h (by decide)

/-- The lower case of a letter is made of letters, and a dot above in one case. -/
theorem not_mem_lower {c d : Char} (hd : isAnyCaseLetter d = false) (hdot : d ≠ '\u0307')
    (hc : isAnyCaseLetter c = true) : d ∉ lower c := by
  have ne : ∀ {e : Char}, isAnyCaseLetter e = true → d ≠ e := by
    rintro e he rfl
    exact Bool.false_ne_true (hd.symm.trans he)
  unfold lower
  split
  · simpa using ⟨ne (by decide), hdot⟩
  · split
    · simpa using ne (by decide)
    · simpa using ne (isAnyCaseLetter_toLower hc)

theorem mark_not_mem_lower {c : Char} (hm : m ∈ sentenceMarks) (hc : isAnyCaseLetter c = true) :
    m ∉ lower c :=
  not_mem_lower (isAnyCaseLetter_mark hm) (by rcases mark_eq hm with rfl | rfl <;> decide) hc

theorem forall_mem_markTail {q : Char → Prop} (ht : tail ∈ markTails m) (hs : q ' ') (hm : q m) :
    ∀ c ∈ tail, q c := by
  simp only [markTails, List.mem_cons, List.not_mem_nil, or_false] at ht
  rcases ht with rfl | rfl
  · simpa using hm
  · simpa using ⟨hs, hm⟩

theorem isLetter_markTail (hm : m ∈ sentenceMarks) (ht : tail ∈ markTails m) :
    ∀ c ∈ tail, isLetter c = false :=
  forall_mem_markTail ht (by decide) (isLetter_mark hm)

theorem isDigit_markTail (hm : m ∈ sentenceMarks) (ht : tail ∈ markTails m) :
    ∀ c ∈ tail, isDigit c = false :=
  forall_mem_markTail ht (by decide) (by rcases mark_eq hm with rfl | rfl <;> decide)

theorem inLine_markTail (hm : m ∈ sentenceMarks) (ht : tail ∈ markTails m) :
    ∀ c ∈ tail, inLine c = true :=
  forall_mem_markTail ht (by decide) (by rcases mark_eq hm with rfl | rfl <;> decide)

theorem not_mem_markTail {c : Char} (hm : m ∈ sentenceMarks) (ht : tail ∈ markTails m)
    (hc : endsSentence c = false) : c ∉ tail := by
  intro h
  have : endsSentence c = true :=
    forall_mem_markTail (q := fun c => endsSentence c = true) ht (by decide) (endsSentence_mark hm) c h
  rw [hc] at this
  exact Bool.false_ne_true this

theorem count_removeBlanks (hm : m ∈ sentenceMarks) (t : Text) :
    (removeBlanks t).count m = t.count m :=
  List.count_filter (by rw [isBlank_mark hm]; rfl)

theorem count_trim (hm : m ∈ sentenceMarks) (t : Text) : (trim t).count m = t.count m := by
  rw [← count_removeBlanks hm (trim t), removeBlanks_trim, count_removeBlanks hm]

theorem firm_callText (name : Text) (arguments : List Text) : Firm (callText name arguments) := by
  have : callText name arguments = (name ++ '(' :: joinWith [','] arguments) ++ [')'] := by
    simp [callText]
  rw [this]
  exact firm_append_singleton _ (by decide)

end Marks

/-! ## Patterns that leave a tail alone -/

section Steady

variable {m : Char} {tail : Text}

theorem steady_words : ∀ ws : List Text, Steady tail (words ws)
  | [] => steady_pure ()
  | [w] => steady_word w
  | w :: v :: ws =>
    (steady_word w).bind fun _ => (steady_many1 isBlank).bind fun _ => steady_words (v :: ws)

theorem steady_optionalArticle : Steady tail optionalArticle :=
  ((steady_word _).bind fun _ => steady_many1 _).optional.bind fun _ => steady_pure _

theorem steady_derivativeOperator : Steady tail derivativeOperator :=
  (steady_word _).bind fun _ => (steady_many _).bind fun _ => (steady_literal _).bind fun _ =>
    (steady_many _).bind fun _ => (steady_word _).bind fun _ => (steady_many _).bind fun _ =>
      steady_one _

theorem steady_wrappedHead : Steady tail wrappedHead :=
  steady_derivativeOperator.bind fun _ => (steady_many _).bind fun _ => (steady_one _).bind fun _ =>
    steady_pure _

theorem anchored_wrappedHead (hm : m ∈ sentenceMarks) (ht : tail ∈ markTails m) :
    Anchored tail wrappedHead := by
  refine .after leavesEnd_derivativeOperator fun _ => .after (leavesEnd_many _) fun _ => ?_
  refine (anchored_one ?_).result _
  exact forall_mem_markTail ht (by decide) (by rcases mark_eq hm with rfl | rfl <;> decide)

theorem steady_signWithDifferential (hm : m ∈ sentenceMarks) (ht : tail ∈ markTails m) :
    Steady tail signWithDifferential :=
  (steady_literal _).bind fun _ => (steady_many _).bind fun _ => (steady_few1 _).bind fun _ =>
    (steady_many _).bind fun _ => (steady_literal _).bind fun _ => (steady_one _).bind fun _ =>
      (steady_notBefore (isLetter_markTail hm ht)).bind fun _ => steady_pure _

theorem anchored_signWithDifferential (hm : m ∈ sentenceMarks) (ht : tail ∈ markTails m) :
    Anchored tail signWithDifferential := by
  refine .after (leavesEnd_literal _) fun _ => .after (leavesEnd_many _) fun _ =>
    .after (leavesEnd_few1 _) fun _ => .after (leavesEnd_many _) fun _ =>
    .after (leavesEnd_literal _) fun _ => (anchored_one (isLetter_markTail hm ht)).stay ?_
  intro x t b r h
  obtain ⟨_, s, hs, hr⟩ := mem_bind.mp h
  obtain rfl := mem_notBefore hs
  exact (mem_pure.mp hr).2

theorem steady_shortIntegral (last : Option Char) : Steady tail (shortIntegral last) :=
  (steady_guard _).bind fun _ => (steady_literal _).bind fun _ => (steady_many _).bind fun _ =>
    (steady_literal _).bind fun _ => steady_pure _

theorem anchored_shortIntegral (hm : m ∈ sentenceMarks) (ht : tail ∈ markTails m)
    (last : Option Char) : Anchored tail (shortIntegral last) :=
  .after (leavesEnd_guard _) fun _ => .after (leavesEnd_literal _) fun _ =>
    .after (leavesEnd_many _) fun _ =>
      (anchored_literal (w := []) (c := '(') (not_mem_markTail hm ht (by decide))).result _

theorem steady_crossBetweenDigits (hm : m ∈ sentenceMarks) (ht : tail ∈ markTails m)
    (last : Option Char) : Steady tail (crossBetweenDigits last) :=
  (steady_guard _).bind fun _ => (steady_many _).bind fun _ => (steady_one _).bind fun _ =>
    (steady_many _).bind fun _ => (steady_before (isDigit_markTail hm ht)).bind fun _ =>
      steady_pure _

theorem anchored_crossBetweenDigits (hm : m ∈ sentenceMarks) (ht : tail ∈ markTails m)
    (last : Option Char) : Anchored tail (crossBetweenDigits last) :=
  .after (leavesEnd_guard _) fun _ => .after (leavesEnd_many _) fun _ =>
    .after (leavesEnd_one _) fun _ => .after (leavesEnd_many _) fun _ =>
      (anchored_before (isDigit_markTail hm ht)).result _

theorem steady_doubleStar : Steady tail doubleStar :=
  (steady_literal _).bind fun _ => steady_pure _

theorem anchored_doubleStar (hm : m ∈ sentenceMarks) (ht : tail ∈ markTails m) :
    Anchored tail doubleStar :=
  (anchored_literal (w := ['*']) (c := '*') (not_mem_markTail hm ht (by decide))).result _

end Steady

/-! ## Patterns that carry a mark -/

section Carries

variable {m : Char}

theorem passes_letters (hm : m ∈ sentenceMarks) {w : Text} (hw : w.all isLetter = true) :
    Passes m (word w) :=
  passes_word fun q hq => sameLetter_mark hm (List.all_eq_true.mp hw q hq)

theorem passes_blanks (hm : m ∈ sentenceMarks) : Passes m blanks := passes_many (isBlank_mark hm)

theorem passes_blanks1 (hm : m ∈ sentenceMarks) : Passes m blanks1 :=
  passes_many1 (isBlank_mark hm)

theorem passes_words (hm : m ∈ sentenceMarks) : ∀ {ws : List Text},
    (ws.all fun w => w.all isLetter) = true → Passes m (words ws)
  | [], _ => passes_pure ()
  | [w], h => passes_letters hm (List.all_eq_true.mp h w (List.mem_singleton.mpr rfl))
  | w :: v :: ws, h => by
    obtain ⟨hw, hws⟩ := (Bool.and_eq_true _ _).mp h
    exact (passes_letters hm hw).bind fun _ => (passes_blanks1 hm).bind fun _ => passes_words hm hws

theorem passes_optionalArticle (hm : m ∈ sentenceMarks) : Passes m optionalArticle :=
  ((passes_letters hm (by decide)).bind fun _ => passes_blanks1 hm).optional.bind fun _ =>
    passes_pure _

/-- A word is read, and no mark. -/
theorem reads_letters (hm : m ∈ sentenceMarks) {w : Text} (hw : w.all isLetter = true)
    (hn : w ≠ []) : Reads (word w) fun u _ => u ≠ [] ∧ m ∉ u := by
  intro t a r h
  obtain ⟨u, rfl, hu⟩ := passes_letters hm hw t a r h
  obtain ⟨v, hv, hl, -⟩ := reads_word w _ a r h
  obtain rfl := List.append_cancel_right hv
  refine ⟨u, rfl, ?_, hu⟩
  rintro rfl
  exact hn (List.length_eq_zero_iff.mp hl.symm)

theorem reads_words (hm : m ∈ sentenceMarks) {w : Text} {ws : List Text}
    (h : ((w :: ws).all fun w => w.all isLetter) = true) (hn : w ≠ []) :
    Reads (words (w :: ws)) fun u _ => u ≠ [] ∧ m ∉ u := by
  obtain ⟨hw, hws⟩ := (Bool.and_eq_true _ _).mp h
  cases ws with
  | nil => exact reads_letters hm hw hn
  | cons v ws =>
    refine (reads_letters hm hw hn).bind fun u _ hu => (passes_blanks1 hm).before fun u₁ _ h₁ =>
      (passes_words hm hws).mono fun u₂ _ h₂ => ?_
    simp [hu, h₁, h₂]

theorem reads_derivativeOperator (hm : m ∈ sentenceMarks) :
    Reads derivativeOperator fun u x => u ≠ [] ∧ m ∉ u ∧ isAnyCaseLetter x = true := by
  refine (reads_letters hm (by decide) (by decide)).bind fun u _ hu => ?_
  refine (passes_blanks hm).before fun v₁ _ h₁ => ?_
  have slash : Passes m (literal ['/']) :=
    passes_literal (by rcases mark_eq hm with rfl | rfl <;> decide)
  refine slash.before fun v₂ _ h₂ => (passes_blanks hm).before fun v₃ _ h₃ => ?_
  refine (passes_letters hm (by decide)).before fun v₄ _ h₄ => ?_
  refine (passes_blanks hm).before fun v₅ _ h₅ => (reads_one _).mono fun v₆ x h₆ => ?_
  obtain ⟨rfl, hx⟩ := h₆
  have hmx : m ≠ x := by
    rintro rfl
    exact Bool.false_ne_true ((isAnyCaseLetter_mark hm).symm.trans hx)
  simp [hu, h₁, h₂, h₃, h₄, h₅, hx, hmx]

theorem reads_respectTo (hm : m ∈ sentenceMarks) :
    Reads respectTo fun u o => m ∉ u ∧ ∀ x ∈ o, isAnyCaseLetter x = true := by
  have inner : Reads (blanks1 >>= fun _ => words ["with".toList, "respect".toList, "to".toList] >>=
      fun _ => blanks1 >>= fun _ => one isAnyCaseLetter)
      fun u x => m ∉ u ∧ isAnyCaseLetter x = true := by
    refine (passes_blanks1 hm).before fun u₁ _ h₁ => (passes_words hm (by decide)).before
      fun u₂ _ h₂ => (passes_blanks1 hm).before fun u₃ _ h₃ => ?_
    refine (passes_one (isAnyCaseLetter_mark hm)).and (reads_one _) |>.mono fun u₄ x h₄ => ?_
    simp [h₁, h₂, h₃, h₄.1, h₄.2.2]
  refine inner.optional.mono fun u o h => ?_
  cases o with
  | none =>
    obtain rfl : u = [] := h
    exact ⟨List.not_mem_nil, fun _ h => absurd h (by simp)⟩
  | some x => exact ⟨h.1, fun y hy => by rw [← Option.some.inj hy]; exact h.2⟩

theorem reads_wordedBody (hm : m ∈ sentenceMarks) : Reads wordedBody fun u x =>
    u.count m = x.1.count m ∧ ∀ y ∈ x.2, isAnyCaseLetter y = true := by
  refine (reads_few1 _).bind fun u body h => (reads_respectTo hm).bind fun u₁ o h₁ =>
    (passes_blanks hm).before fun u₂ _ h₂ => stays_atEnd.bind fun _ => reads_pure ?_
  obtain rfl := h
  refine ⟨?_, h₁.2⟩
  simp [List.count_append, List.count_eq_zero_of_not_mem h₁.1, List.count_eq_zero_of_not_mem h₂]

theorem count_callText (hm : m ∈ sentenceMarks) {name body x : Text}
    (hn : name.all isLetter = true) (hx : m ∉ x) :
    (callText name [trim body, x]).count m = body.count m := by
  have hb : m ≠ '(' ∧ m ≠ ',' ∧ m ≠ ')' := by rcases mark_eq hm with rfl | rfl <;> decide
  have hname := List.count_eq_zero_of_not_mem (mark_not_mem_of_letters hm hn)
  rw [callText_pair]
  simp [List.count_append, hname, List.count_eq_zero_of_not_mem hx,
    count_trim hm, hb.1.symm, hb.2.1.symm, hb.2.2.symm]

theorem mark_ne_letter (hm : m ∈ sentenceMarks) {x : Char} (hx : isAnyCaseLetter x = true) :
    m ≠ x := by
  rintro rfl
  exact Bool.false_ne_true ((isAnyCaseLetter_mark hm).symm.trans hx)

theorem count_calculusCall (hm : m ∈ sentenceMarks) {name body : Text} {o : Option Char}
    (hn : name.all isLetter = true) (ho : ∀ x ∈ o, isAnyCaseLetter x = true) :
    (calculusCall name body o).count m = body.count m := by
  refine count_callText hm hn ?_
  have hx : isAnyCaseLetter (o.getD usualVariable) = true := by
    cases o with
    | none => decide
    | some x => exact ho x rfl
  exact fun h => mark_ne_letter hm hx (List.mem_singleton.mp h)

/-- A sum of counts, where only the body holds the mark. -/
theorem count_append_of_not_mem {u v : Text} (h : m ∉ u) : (u ++ v).count m = v.count m := by
  rw [List.count_append, List.count_eq_zero_of_not_mem h, Nat.zero_add]

theorem carries_openDerivative (hm : m ∈ sentenceMarks) : Carries m openDerivative := by
  refine (reads_derivativeOperator hm).bind fun u x hu => (passes_blanks1 hm).before fun u₁ _ h₁ =>
    (reads_many1 _).bind fun w body hw => stays_atEnd.bind fun _ => reads_pure ?_
  obtain ⟨rfl, -⟩ := hw
  refine ⟨by simp [hu.1], ?_, firm_callText _ _⟩
  rw [count_callText hm (by decide) (mark_not_mem_lower hm hu.2.2), List.append_nil,
    count_append_of_not_mem hu.2.1, count_append_of_not_mem h₁]

theorem carries_derivativeOf (hm : m ∈ sentenceMarks) : Carries m derivativeOf := by
  refine (passes_optionalArticle hm).before fun u₁ _ h₁ =>
    (reads_words hm (by decide) (by decide)).bind fun u₂ _ h₂ =>
    (passes_blanks1 hm).before fun u₃ _ h₃ => (reads_wordedBody hm).bind fun w x hw =>
      reads_pure ?_
  refine ⟨by simp [h₂.1], ?_, firm_callText _ _⟩
  rw [count_calculusCall hm (by decide) hw.2, List.append_nil, count_append_of_not_mem h₁,
    count_append_of_not_mem h₂.2, count_append_of_not_mem h₃, hw.1]

/-- "differentiate E" and "integrate E" are one pattern, each with its own word and name. -/
def commanded (w name : Text) : Pattern Text := do
  word w
  let _ ← blanks1
  notBefore (· == '(')
  let (body, x) ← wordedBody
  return calculusCall name body x

theorem differentiate_eq : differentiate = commanded "differentiate".toList derivativeName := rfl

theorem integrate_eq : integrate = commanded integralName integralName := rfl

theorem carries_commanded (hm : m ∈ sentenceMarks) {w name : Text} (hw : w.all isLetter = true)
    (hne : w ≠ []) (hn : name.all isLetter = true) : Carries m (commanded w name) := by
  refine (reads_letters hm hw hne).bind fun u₁ _ h₁ => (passes_blanks1 hm).before fun u₂ _ h₂ =>
    (stays_notBefore _).bind fun _ => (reads_wordedBody hm).bind fun w x hx => reads_pure ?_
  refine ⟨by simp [h₁.1], ?_, firm_callText _ _⟩
  rw [count_calculusCall hm hn hx.2, List.append_nil, count_append_of_not_mem h₁.2,
    count_append_of_not_mem h₂, hx.1]

theorem reads_wordedDifferential (hm : m ∈ sentenceMarks) :
    Reads wordedDifferential fun u o => m ∉ u ∧ ∀ x ∈ o, isAnyCaseLetter x = true := by
  have inner : Reads (blanks1 >>= fun _ => word ['d'] >>= fun _ => one isAnyCaseLetter >>=
      fun x => notBefore isAnyCaseLetter >>= fun _ => pure x)
      fun u x => m ∉ u ∧ isAnyCaseLetter x = true := by
    refine (passes_blanks1 hm).before fun u₁ _ h₁ => (passes_letters hm (by decide)).before
      fun u₂ _ h₂ => (reads_one _).bind fun u₃ x h₃ => (stays_notBefore _).bind fun _ =>
      reads_pure ?_
    obtain ⟨rfl, hx⟩ := h₃
    simp [h₁, h₂, mark_ne_letter hm hx, hx]
  refine inner.optional.mono fun u o h => ?_
  cases o with
  | none =>
    obtain rfl : u = [] := h
    exact ⟨List.not_mem_nil, fun _ h => absurd h (by simp)⟩
  | some x => exact ⟨h.1, fun y hy => by rw [← Option.some.inj hy]; exact h.2⟩

theorem carries_integralOf (hm : m ∈ sentenceMarks) : Carries m integralOf := by
  refine (passes_optionalArticle hm).before fun u₁ _ h₁ =>
    (reads_words hm (by decide) (by decide)).bind fun u₂ _ h₂ =>
    (passes_blanks1 hm).before fun u₃ _ h₃ => (reads_few1 _).bind fun w body hw =>
    (reads_wordedDifferential hm).bind fun u₄ x h₄ => (reads_respectTo hm).bind fun u₅ y h₅ =>
    (passes_blanks hm).before fun u₆ _ h₆ => stays_atEnd.bind fun _ => reads_pure ?_
  obtain rfl := hw
  have ho : ∀ z ∈ (x <|> y), isAnyCaseLetter z = true := by
    cases x with
    | none => exact h₅.2
    | some x => exact h₄.2
  refine ⟨by simp [h₂.1], ?_, firm_callText _ _⟩
  rw [count_calculusCall hm (by decide) ho, List.append_nil, count_append_of_not_mem h₁,
    count_append_of_not_mem h₂.2, count_append_of_not_mem h₃, List.count_append,
    count_append_of_not_mem h₄.1, count_append_of_not_mem h₅.1, List.count_eq_zero_of_not_mem h₆,
    Nat.add_zero]

theorem carries_openIntegral (hm : m ∈ sentenceMarks) : Carries m openIntegral := by
  refine (reads_literal _).bind fun u₁ _ h₁ => (passes_blanks hm).before fun u₂ _ h₂ =>
    (reads_many1 _).bind fun w body hw => stays_atEnd.bind fun _ => reads_pure ?_
  obtain ⟨rfl, -⟩ := hw
  have hi : m ∉ ['∫'] := by rcases mark_eq hm with rfl | rfl <;> decide
  refine ⟨by simp [h₁], ?_, firm_callText _ _⟩
  rw [count_calculusCall hm (by decide) fun _ h => absurd h (by simp), List.append_nil, h₁,
    count_append_of_not_mem hi, count_append_of_not_mem h₂]

theorem carries_signWithDifferential (hm : m ∈ sentenceMarks) : Carries m signWithDifferential := by
  refine (reads_literal _).bind fun u₁ _ h₁ => (passes_blanks hm).before fun u₂ _ h₂ =>
    (reads_few1 _).bind fun w body hw => (passes_blanks hm).before fun u₃ _ h₃ =>
    (reads_literal _).bind fun u₄ _ h₄ => (reads_one _).bind fun u₅ x h₅ =>
    (stays_notBefore _).bind fun _ => reads_pure ?_
  obtain rfl := hw
  obtain ⟨rfl, hx⟩ := h₅
  have hx : isAnyCaseLetter x = true := by rw [isAnyCaseLetter, hx]; rfl
  have hi : m ∉ ['∫'] := by rcases mark_eq hm with rfl | rfl <;> decide
  have hd : m ∉ ['d', x] := by
    have : m ≠ 'd' := mark_ne_letter hm (by decide)
    simp [this, mark_ne_letter hm hx]
  refine ⟨by simp [h₁], ?_, firm_callText _ _⟩
  rw [count_calculusCall hm (by decide) fun y hy => by rwa [← Option.some.inj hy], h₁, h₄,
    count_append_of_not_mem hi, count_append_of_not_mem h₂, List.count_append,
    count_append_of_not_mem h₃]
  exact (Nat.add_eq_left.mpr (List.count_eq_zero_of_not_mem hd)).symm

theorem carries_shortIntegral (hm : m ∈ sentenceMarks) (last : Option Char) :
    Carries m (shortIntegral last) := by
  refine (stays_guard _).bind fun _ => (reads_literal _).bind fun u₁ _ h₁ =>
    (passes_blanks hm).before fun u₂ _ h₂ => (reads_literal _).bind fun u₃ _ h₃ => reads_pure ?_
  have hi : m ∉ "int".toList ∧ m ∉ ['('] ∧ m ∉ integralName ++ ['('] := by
    rcases mark_eq hm with rfl | rfl <;> decide
  refine ⟨by simp [h₁], ?_, firm_append_singleton _ (by decide)⟩
  rw [h₁, h₃, count_append_of_not_mem hi.1, count_append_of_not_mem h₂, List.append_nil,
    List.count_eq_zero_of_not_mem hi.2.1, List.count_eq_zero_of_not_mem hi.2.2]

theorem count_limitCall (hm : m ∈ sentenceMarks) {body target : Text} {x : Char}
    (hx : isAnyCaseLetter x = true) :
    (limitCall body x target).count m = target.count m + body.count m := by
  have hb : m ≠ '(' ∧ m ≠ ',' ∧ m ≠ ')' := by rcases mark_eq hm with rfl | rfl <;> decide
  have hname : m ∉ limitName := mark_not_mem_of_letters hm (by decide)
  have hmx := mark_ne_letter hm hx
  simp [limitCall, callText, joinWith, List.count_append, List.count_eq_zero_of_not_mem hname,
    count_trim hm, hb.1.symm, hb.2.1.symm, hb.2.2.symm, hmx.symm, Nat.add_comm]

theorem passes_optional_literal (hm : m ∈ sentenceMarks) {c : Char} (hc : endsSentence c = false) :
    Passes m (optional (literal [c])) := by
  refine (passes_literal fun h => ?_).optional
  obtain rfl := List.mem_singleton.mp h
  exact Bool.false_ne_true (hc.symm.trans (endsSentence_mark hm))

theorem passes_arrow (hm : m ∈ sentenceMarks) : Passes m arrow := by
  refine (passes_literal ?_).either (passes_literal ?_) <;>
    rcases mark_eq hm with rfl | rfl <;> decide

theorem carries_arrowLimit (hm : m ∈ sentenceMarks) (last : Option Char) :
    Carries m (arrowLimit last) := by
  refine (stays_guard _).bind fun _ => (reads_letters hm (by decide) (by decide)).bind fun u _ h =>
    (passes_blanks hm).before fun u₁ _ h₁ =>
    (passes_optional_literal hm (by decide)).before fun u₂ _ h₂ =>
    (passes_blanks hm).before fun u₃ _ h₃ =>
    (passes_optional_literal hm (by decide)).before fun u₄ _ h₄ =>
    (passes_blanks hm).before fun u₅ _ h₅ => (reads_one _).bind fun u₆ x h₆ =>
    (passes_blanks hm).before fun u₇ _ h₇ => (passes_arrow hm).before fun u₈ _ h₈ =>
    (passes_blanks hm).before fun u₉ _ h₉ => (reads_many1 _).bind fun v target hv =>
    (passes_blanks hm).before fun v₁ _ k₁ =>
    (passes_optional_literal hm (by decide)).before fun v₂ _ k₂ =>
    (passes_blanks1 hm).before fun v₃ _ k₃ => (reads_many1 _).bind fun w body hw =>
    stays_atEnd.bind fun _ => reads_pure ?_
  obtain ⟨rfl, hx⟩ := h₆
  obtain ⟨rfl, -⟩ := hv
  obtain ⟨rfl, -⟩ := hw
  have h₆ : m ∉ [x] := fun h => mark_ne_letter hm hx (List.mem_singleton.mp h)
  refine ⟨by simp [h.1], ?_, firm_callText _ _⟩
  rw [count_limitCall hm hx, count_append_of_not_mem h.2, count_append_of_not_mem h₁,
    count_append_of_not_mem h₂, count_append_of_not_mem h₃, count_append_of_not_mem h₄,
    count_append_of_not_mem h₅, count_append_of_not_mem h₆, count_append_of_not_mem h₇,
    count_append_of_not_mem h₈, count_append_of_not_mem h₉, List.count_append,
    count_append_of_not_mem k₁, count_append_of_not_mem k₂, count_append_of_not_mem k₃,
    List.append_nil]

theorem passes_approaches (hm : m ∈ sentenceMarks) : Passes m approaches :=
  (passes_letters hm (by decide)).either
    ((passes_words hm (by decide)).either (passes_words hm (by decide)))

theorem carries_wordedLimit (hm : m ∈ sentenceMarks) (last : Option Char) :
    Carries m (wordedLimit last) := by
  refine (stays_guard _).bind fun _ => (reads_words hm (by decide) (by decide)).bind fun u _ h =>
    (passes_blanks1 hm).before fun u₁ _ h₁ => (reads_one _).bind fun u₂ x h₂ =>
    (passes_blanks1 hm).before fun u₃ _ h₃ => (passes_approaches hm).before fun u₄ _ h₄ =>
    (passes_blanks1 hm).before fun u₅ _ h₅ => (reads_many1 _).bind fun v target hv =>
    (passes_blanks1 hm).before fun v₁ _ k₁ => (passes_letters hm (by decide)).before fun v₂ _ k₂ =>
    (passes_blanks1 hm).before fun v₃ _ k₃ => (reads_many1 _).bind fun w body hw =>
    stays_atEnd.bind fun _ => reads_pure ?_
  obtain ⟨rfl, hx⟩ := h₂
  obtain ⟨rfl, -⟩ := hv
  obtain ⟨rfl, -⟩ := hw
  have h₂ : m ∉ [x] := fun h => mark_ne_letter hm hx (List.mem_singleton.mp h)
  refine ⟨by simp [h.1], ?_, firm_callText _ _⟩
  rw [count_limitCall hm hx, count_append_of_not_mem h.2, count_append_of_not_mem h₁,
    count_append_of_not_mem h₂, count_append_of_not_mem h₃, count_append_of_not_mem h₄,
    count_append_of_not_mem h₅, List.count_append, count_append_of_not_mem k₁,
    count_append_of_not_mem k₂, count_append_of_not_mem k₃, List.append_nil]

theorem carries_crossBetweenDigits (hm : m ∈ sentenceMarks) (last : Option Char) :
    Carries m (crossBetweenDigits last) := by
  have cross : Passes m (one fun c => c == 'x' || c == 'X') :=
    passes_one (by rcases mark_eq hm with rfl | rfl <;> decide)
  refine (stays_guard _).bind fun _ => (passes_blanks hm).before fun u₁ _ h₁ =>
    (cross.and (reads_one _)).bind fun u₂ x h₂ => (passes_blanks hm).before fun u₃ _ h₃ =>
    (stays_before _).bind fun _ => reads_pure ?_
  have hs : m ∉ ['*'] := by rcases mark_eq hm with rfl | rfl <;> decide
  refine ⟨by simp [h₂.2.1], ?_, firm_append_singleton [] (by decide)⟩
  rw [count_append_of_not_mem h₁, count_append_of_not_mem h₂.1, count_append_of_not_mem h₃,
    List.count_eq_zero_of_not_mem hs]
  rfl

theorem carries_doubleStar (hm : m ∈ sentenceMarks) : Carries m doubleStar := by
  refine (reads_literal _).bind fun u _ h => reads_pure ?_
  have hs : m ∉ ['*', '*'] ∧ m ∉ ['^'] := by rcases mark_eq hm with rfl | rfl <;> decide
  refine ⟨by simp [h], ?_, firm_append_singleton [] (by decide)⟩
  rw [h, List.append_nil, List.count_eq_zero_of_not_mem hs.1, List.count_eq_zero_of_not_mem hs.2]

end Carries

end Stepwise.Phrase
