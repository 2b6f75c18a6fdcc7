import Stepwise.Proofs.Calls
import Stepwise.Proofs.Equations

/-!
# Calls of plain expressions

A call whose arguments are expressions in plain characters is nearly in canonical form. No keyword has
a bracket or a comma in it, so a keyword in the call is in its name or in an argument
(`infix_callText`), and there it is only if it is the name. What is left to do is to write out the
short name of an integral, and to make the arguments plain, which brings no keyword
(`CallArgument.plain`).

Result: `canonical_callText`, the canonical form of a call, in whatever case its name is written.
-/

namespace Stepwise

namespace Text

variable {c : Char} {s t w : Text}

/-! ## Texts in texts -/

/-- A text without the character is on one side of it. -/
theorem infix_of_infix_append_cons (hc : c ∉ w) (h : w <:+: s ++ c :: t) : w <:+: s ∨ w <:+: t := by
  obtain ⟨u, v, he⟩ := h
  rcases List.append_eq_append_iff.mp he with ⟨a, rfl, -⟩ | ⟨a, hu, ha⟩
  · exact .inl ⟨u, a, rfl⟩
  · cases a with
    | nil =>
      rw [List.append_nil] at hu
      exact .inl ⟨u, [], by rw [List.append_nil, hu]⟩
    | cons d a =>
      obtain ⟨rfl, rfl⟩ := List.cons.inj ha
      -- The character is behind the text or in front of it.
      rcases List.append_eq_append_iff.mp hu with ⟨b, -, rfl⟩ | ⟨b, rfl, hb⟩
      · exact absurd (by simp) hc
      · cases b with
        | nil => exact absurd (by rw [← List.nil_append w, ← hb]; exact List.mem_cons_self) hc
        | cons e b =>
          obtain ⟨-, rfl⟩ := List.cons.inj hb
          exact .inr ⟨b, v, rfl⟩

/-- What ends the text and has not the character is behind it. -/
theorem suffix_of_suffix_append_cons (hc : c ∉ w) (h : w <:+ s ++ c :: t) : w <:+ t := by
  rcases List.suffix_or_suffix_of_suffix h (List.suffix_append s (c :: t)) with h | h
  · rcases List.suffix_cons_iff.mp h with rfl | h
    · exact absurd List.mem_cons_self hc
    · exact h
  · exact absurd (h.subset List.mem_cons_self) hc

/-- The first place of a character is the one of another cut, or in front of it. -/
theorem append_cons_cases {x y : Text} (hc : c ∉ w) (h : x ++ c :: y = w ++ c :: t) :
    x = w ∨ ∃ m, x = w ++ c :: m ∧ t = m ++ c :: y := by
  rcases List.append_eq_append_iff.mp h with ⟨m, rfl, hm⟩ | ⟨m, rfl, hm⟩
  · cases m with
    | nil => exact .inl (List.append_nil x).symm
    | cons d m =>
      obtain ⟨rfl, -⟩ := List.cons.inj hm
      exact absurd (by simp) hc
  · cases m with
    | nil => exact .inl (List.append_nil w)
    | cons d m =>
      obtain ⟨rfl, ht⟩ := List.cons.inj hm
      exact .inr ⟨m, rfl, ht⟩

theorem holds_eq_true_iff : holds w t = true ↔ w <:+: t := by
  induction t with
  | nil => rw [holds, List.isEmpty_iff, List.infix_nil]
  | cons c cs ih =>
    rw [holds, Bool.or_eq_true, ih, List.isPrefixOf_iff_prefix, List.infix_cons_iff]

end Text

namespace Phrase

open Text Pattern Stepwise.Bracket

variable {a name s t w : Text} {args : List Text} {c g : Char} {last : Option Char}

section Replaced

variable {p : Option Char → Pattern Text} (hp : ∀ last, Reads (p last) fun _ new => new = [g])
include hp

/-- A text without the character that is put in comes from where it stands. -/
theorem prefix_of_prefix_replaceFrom (hg : g ∉ w) (h : w <+: replaceFrom p last 0 t) : w <+: t := by
  induction t generalizing last w with
  | nil => exact h
  | cons c cs ih =>
    cases w with
    | nil => exact List.nil_prefix
    | cons d w =>
      rw [replaceFrom] at h
      split at h
      · obtain ⟨rfl, h⟩ := List.cons_prefix_cons.mp h
        exact List.cons_prefix_cons.mpr ⟨rfl, ih (fun hm => hg (List.mem_cons_of_mem d hm)) h⟩
      next new rest hb =>
        obtain ⟨u, -, rfl⟩ := hp last _ _ _ (mem_of_best? hb)
        exact absurd ((List.cons_prefix_cons.mp h).1 ▸ List.mem_cons_self) hg

theorem infix_of_infix_replaceFrom (hg : g ∉ w) : ∀ {t : Text} {last : Option Char} {skip : Nat},
    w <:+: replaceFrom p last skip t → w <:+: t
  | [], _, _, h => by rwa [replaceFrom] at h
  | c :: cs, _, skip + 1, h => by
    rw [replaceFrom] at h
    exact List.infix_cons (infix_of_infix_replaceFrom hg h)
  | c :: cs, last, 0, h => by
    suffices w <+: replaceFrom p last 0 (c :: cs) ∨ w <:+: cs from
      this.elim (fun h => (prefix_of_prefix_replaceFrom hp hg h).isInfix) List.infix_cons
    rw [replaceFrom] at h ⊢
    cases hb : (p last).best? (c :: cs) with
    | none =>
      rw [hb] at h
      exact (List.infix_cons_iff.mp h).imp_right (infix_of_infix_replaceFrom hg)
    | some x =>
      obtain ⟨u, -, hnew⟩ := hp last _ _ _ (mem_of_best? hb)
      rw [hb] at h
      dsimp only at h ⊢
      rw [hnew] at h ⊢
      exact (List.infix_cons_iff.mp h).imp_right (infix_of_infix_replaceFrom hg)

end Replaced

/-! ## Arguments -/

/-- The digits, the small letters, the operators and the round brackets. -/
def expressionChars : Text := "0123456789abcdefghijklmnopqrstuvwxyz+-*/^()".toList

/-- An argument of a call: an expression in plain characters that closes its brackets, without a
keyword of integrals or limits and without the operator of a derivative. -/
structure CallArgument (a : Text) : Prop where
  chars : ∀ c ∈ a, c ∈ expressionChars
  wellNested : WellNested a
  noInt : ¬"int".toList <:+: a
  noLim : ¬"lim".toList <:+: a
  noOperator : ¬"d/d".toList <:+: a

theorem not_mem_glyphs_of_expression : ∀ c ∈ expressionChars, c ∉ glyphs ∧ isBlank c = false :=
  forall_mem_of_all (by decide)

/-- An expression has crosses between digits and double stars, but no other glyphs. -/
theorem plain_eq_replaceAll (h : ∀ c ∈ a, c ∈ expressionChars) :
    plain a = replaceAll (fun _ => doubleStar) (replaceAll crossBetweenDigits a) ∧
      ∀ c ∈ plain a, c ∈ expressionChars := by
  have cross : ∀ c ∈ replaceAll crossBetweenDigits a, c ∈ expressionChars := fun c hc =>
    (mem_replaceAll_cross hc).elim (h c) fun he => he ▸ by decide
  have star : ∀ c ∈ replaceAll (fun _ => doubleStar) (replaceAll crossBetweenDigits a),
      c ∈ expressionChars := fun c hc =>
    (mem_replaceAll_doubleStar hc).elim (cross c) fun he => he ▸ by decide
  have times : a.map plainTimes = a := (List.map_congr_left fun c hc =>
    plainTimes_self (not_mem_glyphs_of_expression c (h c hc)).1).trans (List.map_id' a)
  have sign := (List.map_congr_left fun c hc =>
    plainSign_self (not_mem_glyphs_of_expression c (cross c hc)).1).trans (List.map_id' _)
  have glyph := flatMap_plainGlyph_self fun c hc =>
    (not_mem_glyphs_of_expression c (star c hc)).1
  have blank : Blankless (replaceAll (fun _ => doubleStar) (replaceAll crossBetweenDigits a)) :=
    fun c hc => (not_mem_glyphs_of_expression c (star c hc)).2
  have he : plain a = replaceAll (fun _ => doubleStar) (replaceAll crossBetweenDigits a) := by
    rw [plain, plainGlyphs_eq, plainSigns, times, sign, plainStars, glyph, blank.removeBlanks_eq]
  exact ⟨he, he ▸ star⟩

theorem infix_of_infix_plain (h : ∀ c ∈ a, c ∈ expressionChars) (hs : '*' ∉ w) (hp : '^' ∉ w)
    (hw : w <:+: plain a) : w <:+: a := by
  rw [(plain_eq_replaceAll h).1] at hw
  have hstar : ∀ _ : Option Char, Reads doubleStar fun _ new => new = ['^'] := fun _ =>
    reads_doubleStar.mono fun _ _ h => h.1
  have hcross : ∀ last, Reads (crossBetweenDigits last) fun _ new => new = ['*'] := fun last =>
    (reads_crossBetweenDigits last).mono fun _ _ h => h.1
  exact infix_of_infix_replaceFrom hcross hs (infix_of_infix_replaceFrom hstar hp hw)

/-- All brackets of an expression are round. -/
theorem CallArgument.map_marks (h : CallArgument a) : (marks a).map roundBracket = marks a := by
  have round : ∀ c ∈ expressionChars, roundBracket c = c := forall_mem_of_all (by decide)
  refine (List.map_congr_left fun c hc => ?_).trans (List.map_id' _)
  exact round c (h.chars c (List.mem_filter.mp hc).1)

theorem CallArgument.balanced (h : CallArgument a) : Bracket.Balanced a :=
  balanced_of_marks h.wellNested h.map_marks.symm

/-- **What an expression becomes when it is made plain is such an expression.** -/
theorem CallArgument.plain (h : CallArgument a) : CallArgument (plain a) where
  chars := (plain_eq_replaceAll h.chars).2
  wellNested := h.wellNested.of_marks ((marks_plain a).trans h.map_marks)
  noInt := fun hw => h.noInt (infix_of_infix_plain h.chars (by decide) (by decide) hw)
  noLim := fun hw => h.noLim (infix_of_infix_plain h.chars (by decide) (by decide) hw)
  noOperator := fun hw => h.noOperator (infix_of_infix_plain h.chars (by decide) (by decide) hw)

theorem CallArgument.blankless (h : CallArgument a) : Blankless a := fun c hc =>
  (not_mem_glyphs_of_expression c (h.chars c hc)).2

theorem CallArgument.noComma (h : CallArgument a) : ',' ∉ a := fun hc =>
  absurd (h.chars _ hc) (by decide)

theorem CallArgument.noBareComma (h : CallArgument a) : NoBareComma a := fun _ _ he =>
  absurd (by rw [he]; simp) h.noComma

theorem CallArgument.plain_eq_nil_iff (h : CallArgument a) : Phrase.plain a = [] ↔ a = [] := by
  constructor
  · intro hp
    cases a with
    | nil => rfl
    | cons c cs =>
      refine absurd hp (plain_ne_nil ?_)
      exact List.all_eq_false.mpr ⟨c, List.mem_cons_self, by rw [h.blankless c List.mem_cons_self]; decide⟩
  · rintro rfl
    rfl

/-! ## Where a keyword is in a call -/

/-- The names of calls that ask for an integral, a derivative or a limit. -/
def callNames : List Text :=
  ["int".toList, integralName, derivativeName, limitName, "lim".toList]

theorem callText_eq (w : Text) (args : List Text) :
    callText w args = w ++ '(' :: (joinWith [','] args ++ [')']) := by
  simp [callText]

theorem infix_of_infix_joinWith (hk : ',' ∉ w) (hn : w ≠ []) : ∀ {args : List Text},
    w <:+: joinWith [','] args → ∃ a ∈ args, w <:+: a
  | [], h => absurd (List.infix_nil.mp h) hn
  | [a], h => ⟨a, List.mem_cons_self, h⟩
  | a :: b :: rest, h => by
    have hj : joinWith [','] (a :: b :: rest) = a ++ ',' :: joinWith [','] (b :: rest) := by
      simp [joinWith]
    rw [hj] at h
    rcases infix_of_infix_append_cons hk h with h | h
    · exact ⟨a, List.mem_cons_self, h⟩
    · obtain ⟨x, hx, h⟩ := infix_of_infix_joinWith hk hn h
      exact ⟨x, List.mem_cons_of_mem a hx, h⟩

theorem infix_of_infix_arguments (hk : ∀ c ∈ [',', ')'], c ∉ w) (hn : w ≠ [])
    (h : w <:+: joinWith [','] args ++ [')']) : ∃ a ∈ args, w <:+: a := by
  rcases infix_of_infix_append_cons (hk ')' (by decide)) h with h | h
  · exact infix_of_infix_joinWith (hk ',' (by decide)) hn h
  · exact absurd (List.infix_nil.mp h) hn

/-- **What has no separator in it and is in a call is in its name or in an argument.** -/
theorem infix_callText (hk : ∀ c ∈ separators, c ∉ w) (hn : w ≠ []) (h : w <:+: callText name args) :
    w <:+: name ∨ ∃ a ∈ args, w <:+: a := by
  rw [callText_eq] at h
  refine (infix_of_infix_append_cons (hk '(' (by decide)) h).imp_right ?_
  refine infix_of_infix_arguments (fun c hc => hk c ?_) hn
  exact List.mem_cons_of_mem '(' hc

theorem mem_callText (h : c ∈ callText name args) :
    c ∈ name ∨ c ∈ separators ∨ ∃ a ∈ args, c ∈ a := by
  by_cases hc : c ∈ separators
  · exact .inr (.inl hc)
  · have hk : ∀ d ∈ separators, d ∉ [c] := fun d hd he => hc (List.mem_singleton.mp he ▸ hd)
    rcases infix_callText hk (List.cons_ne_nil c []) ((List.singleton_infix_iff c _).mpr h) with h | h
    · exact .inl ((List.singleton_infix_iff c _).mp h)
    · obtain ⟨a, ha, h⟩ := h
      exact .inr (.inr ⟨a, ha, (List.singleton_infix_iff c _).mp h⟩)

/-! ## Names in either case -/

theorem isLetter_of_isLetter_toLower (h : isLetter c.toLower = true) : isLetter c = true := by
  by_cases hc : c.val ≥ 'A'.val ∧ c.val ≤ 'Z'.val
  · have hupper : c.isUpper = true := decide_eq_true hc
    have hletter : (c.isUpper || c.isLower) = true := by rw [hupper, Bool.true_or]
    exact hletter
  · have he : c.toLower = c := dif_neg hc
    rwa [he] at h

/-- The text is one of the names when case does not count. -/
def IsCallName (w : Text) : Prop := w.map Char.toLower ∈ callNames

instance (w : Text) : Decidable (IsCallName w) := inferInstanceAs (Decidable (_ ∈ _))

theorem letters_of_mem_callNames : ∀ k ∈ callNames, k.all isLetter = true ∧ k ≠ [] := by decide

theorem map_toLower_of_mem_callNames : ∀ k ∈ callNames, k.map Char.toLower = k := by decide

theorem isCallName_of_mem (h : w ∈ callNames) : IsCallName w := by
  rwa [IsCallName, map_toLower_of_mem_callNames w h]

theorem IsCallName.letters (h : IsCallName w) : w.all isLetter = true := by
  refine List.all_eq_true.mpr fun c hc => isLetter_of_isLetter_toLower ?_
  exact List.all_eq_true.mp (letters_of_mem_callNames _ h).1 _ (List.mem_map_of_mem hc)

theorem IsCallName.ne_nil (h : IsCallName w) : w ≠ [] := by
  rintro rfl
  exact (letters_of_mem_callNames _ h).2 rfl

theorem IsCallName.not_mem (h : IsCallName w) (hc : isLetter c = false) : c ∉ w := fun hm => by
  rw [List.all_eq_true.mp h.letters c hm] at hc
  exact Bool.noConfusion hc

section Call

variable (hw : IsCallName w) (ha : ∀ a ∈ args, CallArgument a)
include hw ha

theorem blankless_callText : Blankless (callText w args) := by
  intro c hc
  rcases mem_callText hc with h | h | ⟨a, h, hc⟩
  · refine isBlank_of_anyCaseLetter ?_
    rw [isAnyCaseLetter, List.all_eq_true.mp hw.letters c h]
    rfl
  · exact forall_mem_of_all (p := fun c => isBlank c = false) (by decide) c h
  · exact (ha a h).blankless c hc

theorem sign_not_mem_callText : '∫' ∉ callText w args := by
  intro hc
  rcases mem_callText hc with h | h | ⟨a, h, hc⟩
  · exact hw.not_mem (by decide) h
  · exact absurd h (by decide)
  · exact absurd ((ha a h).chars _ hc) (by decide)

/-- There is no operator of a derivative in the call, in any case. -/
theorem not_infix_operator {d d' : Char} (hd : sameLetter 'd' d = true)
    (hd' : sameLetter 'd' d' = true) : ¬[d, '/', d'] <:+: callText w args := by
  have small : ∀ c ∈ expressionChars, sameLetter 'd' c = true → c = 'd' :=
    forall_mem_of_all (by decide)
  have separator : ∀ c ∈ separators, sameLetter 'd' c = false ∧ c ≠ '/' :=
    forall_mem_of_all (by decide)
  have hk : ∀ c ∈ separators, c ∉ [d, '/', d'] := by
    intro c hc hm
    have := separator c hc
    simp only [List.mem_cons, List.not_mem_nil, or_false] at hm
    rcases hm with rfl | rfl | rfl
    · exact Bool.noConfusion (this.1.symm.trans hd)
    · exact this.2 rfl
    · exact Bool.noConfusion (this.1.symm.trans hd')
  intro h
  rcases infix_callText hk (List.cons_ne_nil _ _) h with h | ⟨a, haa, h⟩
  · exact hw.not_mem (by decide) (h.subset (by simp : '/' ∈ [d, '/', d']))
  · have mem : ∀ c ∈ [d, '/', d'], c ∈ expressionChars := fun c hc =>
      (ha a haa).chars c (h.subset hc)
    obtain rfl := small d (mem d (by simp)) hd
    obtain rfl := small d' (mem d' (by simp)) hd'
    exact (ha a haa).noOperator h

theorem nowhere_operatorStart_callText : Nowhere operatorStart (callText w args) := by
  intro s hs
  refine List.eq_nil_iff_forall_not_mem.mpr ?_
  rintro ⟨_, r⟩ hr
  obtain ⟨d, x, y, d', rfl, hd, hx, hy, hd'⟩ := mem_operatorStart.mp hr
  have blankless : Blankless (d :: (x ++ '/' :: (y ++ d' :: r))) :=
    (blankless_callText hw ha).of_suffix hs
  have none : ∀ {z : Text}, allBlank z = true → Blankless z → z = [] := by
    intro z hz hb
    refine List.eq_nil_iff_forall_not_mem.mpr fun c hc => ?_
    exact Bool.noConfusion ((hb c hc).symm.trans (List.all_eq_true.mp hz c hc))
  obtain ⟨hbx, hb⟩ := Blankless.append_iff.mp (Blankless.cons_iff.mp blankless).2
  obtain rfl := none hx hbx
  obtain rfl := none hy (Blankless.append_iff.mp (Blankless.cons_iff.mp hb).2).1
  refine not_infix_operator hw ha hd hd' (List.IsInfix.trans ?_ hs.isInfix)
  exact ⟨[], r, by simp⟩

/-- No operator is found in the call when it is asked what to derive. -/
theorem find?_operator_callText : find? (fun _ => Question.operator) (callText w args) = none := by
  refine find?_of_nowhere fun s hs => List.eq_nil_iff_forall_not_mem.mpr ?_
  rintro ⟨x, r⟩ hr
  simp only [Question.operator, mem_bind, mem_word_singleton, mem_literal] at hr
  obtain ⟨_, _, ⟨d, rfl, hd⟩, _, _, rfl, _, y, ⟨d', rfl, hd'⟩, -⟩ := hr
  exact not_infix_operator hw ha hd hd' (List.IsInfix.trans ⟨[], y, by simp⟩ hs.isInfix)

/-! ## The canonical form of a call -/

omit hw in
/-- Behind the bracket there is no name of an integral. -/
theorem not_infix_int_arguments : ¬"int".toList <:+: joinWith [','] args ++ [')'] := fun h => by
  obtain ⟨a, haa, h⟩ :=
    infix_of_infix_arguments (forall_mem_of_all (by decide)) (by decide) h
  exact (ha a haa).noInt h

/-- Only a call with that name is the short call of an integral. -/
theorem not_infix_shortIntegral (hn : w ≠ "int".toList) :
    ¬"int(".toList <:+: callText w args := by
  have ends : ∀ k ∈ callNames, "int".toList <:+ k → k.length ≤ 3 := by decide
  rintro ⟨u, v, h⟩
  have he : (u ++ "int".toList) ++ '(' :: v = w ++ '(' :: (joinWith [','] args ++ [')']) := by
    rw [← callText_eq, ← h]
    simp
  rcases append_cons_cases (hw.not_mem (by decide)) he with rfl | ⟨m, hm, hr⟩
  · have hlen := ends _ hw ⟨u.map Char.toLower, by rw [List.map_append]; rfl⟩
    have hu : u.length = 0 := by simpa using hlen
    rw [List.length_eq_zero_iff.mp hu] at hn
    exact hn rfl
  · have hsuffix : "int".toList <:+ m :=
      suffix_of_suffix_append_cons (by decide) ⟨u, hm⟩
    refine not_infix_int_arguments ha (hsuffix.isInfix.trans ?_)
    rw [hr]
    exact (List.prefix_append _ _).isInfix

omit hw ha in
theorem nowhere_shortIntegral (hb : Blankless t) (h : ¬"int(".toList <:+: t) (last : Option Char) :
    Nowhere (shortIntegral last) t := by
  intro s hs
  refine List.eq_nil_iff_forall_not_mem.mpr ?_
  rintro ⟨x, r⟩ hr
  have blankless := hb.of_suffix hs
  simp only [shortIntegral, mem_bind, mem_guard, mem_literal] at hr
  obtain ⟨_, _, ⟨rfl, -⟩, _, z, rfl, b, z', hz, _, r, rfl, -⟩ := hr
  obtain ⟨-, rfl⟩ := (mem_blanks (Blankless.append_iff.mp blankless).2).mp hz
  exact h (List.IsInfix.trans ⟨[], r, by simp⟩ hs.isInfix)

/-- The long name of an integral for the short one. -/
def longName (w : Text) : Text := if w = "int".toList then integralName else w

theorem replaceAll_shortIntegral_callText :
    replaceAll shortIntegral (callText w args) = callText (longName w) args := by
  have blankless := blankless_callText hw ha
  unfold longName
  split
  next hn =>
    subst hn
    have hcall : callText "int".toList args = "int(".toList ++ (joinWith [','] args ++ [')']) := by
      rw [callText_eq]
      rfl
    have hlong : callText integralName args =
        (integralName ++ ['(']) ++ (joinWith [','] args ++ [')']) := by
      rw [callText_eq, List.append_assoc]
      rfl
    rw [hcall] at blankless ⊢
    have hrest : ¬"int(".toList <:+: joinWith [','] args ++ [')'] := fun h =>
      not_infix_int_arguments ha (List.IsInfix.trans ⟨[], ['('], rfl⟩ h)
    have hshort : (shortIntegral none).best? ("int(".toList ++ (joinWith [','] args ++ [')'])) =
        some (integralName ++ ['('], joinWith [','] args ++ [')']) := by
      refine best?_bind (best?_of_eq rfl)
        (best?_bind (best?_of_eq (literal_append "int".toList _)) ?_)
      exact best?_bind (best?_of_eq (many_stop (by decide) _)) (best?_of_eq rfl)
    rw [hlong]
    exact replaceAll_of_front (by decide) hshort
      (nowhere_shortIntegral (Blankless.append_iff.mp blankless).2 hrest)
  next hn =>
    exact Nowhere.replaceAll_eq (nowhere_shortIntegral blankless (not_infix_shortIntegral hw ha hn))

/-- The phrasings are not found in the call, but for the short name of an integral. -/
theorem rewritten_callText :
    limits (integrals (derivatives (callText w args))) = callText (longName w) args := by
  have blankless := blankless_callText hw ha
  have hwrapped : wrappedDerivatives (callText w args) = callText w args :=
    wrappedFrom_of_nowhere
      ((nowhere_derivativeOperator (nowhere_operatorStart_callText hw ha)).bind _)
  have hderivatives : derivatives (callText w args) = callText w args := by
    rw [derivatives_of_blankless (hwrapped.symm ▸ blankless), hwrapped]
  have hof : replaceAll (fun _ => integralOf) (callText w args) = callText w args :=
    NeedsBlank.replaceAll_eq (fun _ => needsBlank_integralOf) blankless
  have hintegrate : replaceAll (fun _ => integrate) (callText w args) = callText w args :=
    NeedsBlank.replaceAll_eq (fun _ => needsBlank_integrate) blankless
  have hlong : Blankless (callText (longName w) args) := by
    unfold longName
    split
    · exact blankless_callText (w := integralName) (by decide) ha
    · exact blankless
  rw [hderivatives, integrals_of_not_mem (sign_not_mem_callText hw ha), hof, hintegrate,
    replaceAll_shortIntegral_callText hw ha, limits_of_blankless hlong]

/-- **The canonical form of a call.** The short name of an integral is written out, if it is in small
letters, and the arguments are made plain one by one. -/
theorem canonical_callText :
    canonical (callText w args) = callText (longName w) (args.map plain) := by
  have blankless := blankless_callText hw ha
  have hbare : bare (callText w args) = callText w args := by
    rw [bare, Rule.apply, Rule.apply, blankless.squeeze_eq, blankless.trim_eq]
    exact instructions_of_blankless blankless _
  refine canonical_eq_callText hbare (rewritten_callText hw ha) ?_
  unfold longName
  split
  · decide
  · exact hw.letters

end Call

end Phrase

end Stepwise
