import Stepwise.Proofs.Glosses
import Stepwise.Proofs.Tightening

/-!
# Texts from images

A text that was read from an image is tidied before it is solved: blanks around operators go, and all
brackets become round. In a text without keywords of calculus this changes the canonical form in one
case only, namely when an equals sign comes right behind the instructions: the blank that completes
the last instruction goes with those around the sign.

Results: `canonical_tidy_iff`, the exact condition, and `canonical_tidy_limit`, with a keyword also
the kind of brackets matters.
-/

namespace Stepwise.Phrase

open Text Pattern

variable {c : Char} {m s t u v w w' x y : Text}

/-! ## Maps -/

theorem dropEndWhile_map {p : Char → Bool} {f : Char → Char} (hf : ∀ c, p (f c) = p c) (t : Text) :
    dropEndWhile p (t.map f) = (dropEndWhile p t).map f := by
  induction t with
  | nil => rfl
  | cons c cs ih =>
    rw [List.map_cons, dropEndWhile_cons, dropEndWhile_cons, ih, hf]
    simp only [List.map_eq_nil_iff]
    split <;> rfl

theorem trim_map {f : Char → Char} (hf : ∀ c, isBlank (f c) = isBlank c) (t : Text) :
    trim (t.map f) = (trim t).map f := by
  have hcomp : isBlank ∘ f = isBlank := funext hf
  rw [trim, List.dropWhile_map, hcomp, dropEndWhile_map hf, trim]

theorem squeeze_map {f : Char → Char} (hf : ∀ c, isBlank (f c) = isBlank c)
    (hb : ∀ c, isBlank c = true → f c = c) (t : Text) : squeeze (t.map f) = (squeeze t).map f := by
  have hmap : List.map f = List.flatMap fun c => [f c] := by
    funext t
    rw [List.map_eq_flatMap]
  rw [hmap]
  refine squeeze_flatMap (fun c hc => by rw [hb c hc]) (fun c hc => ?_) t
  exact ⟨List.cons_ne_nil _ _, Blankless.cons_iff.mpr ⟨by rw [hf, hc], .nil⟩⟩

theorem isBlank_roundBracket (c : Char) : isBlank (roundBracket c) = isBlank c := by
  rcases roundBracket_cases c with h | h
  · rw [h]
  · exact forall_mem_of_all (p := fun c => isBlank (roundBracket c) = isBlank c) (by decide) c h

theorem isWording_roundBracket (c : Char) : isWording (roundBracket c) = isWording c := by
  rcases roundBracket_cases c with h | h
  · rw [h]
  · exact forall_mem_of_all (p := fun c => isWording (roundBracket c) = isWording c) (by decide) c h

theorem roundBracket_of_isWording (h : isWording c = true) : roundBracket c = c := by
  rcases roundBracket_cases c with hc | hc
  · exact hc
  · have := forall_mem_of_all (p := fun c => isWording c = false) (by decide) c hc
    rw [h] at this
    exact Bool.noConfusion this

theorem map_roundBracket_of_wording (h : ∀ c ∈ m, isWording c = true) : m.map roundBracket = m :=
  (List.map_congr_left fun c hc => roundBracket_of_isWording (h c hc)).trans (List.map_id' m)

theorem Keyless.map_roundBracket (h : Keyless t) : Keyless (t.map roundBracket) := by
  have key : ∀ t s : Text, Keyless (s ++ t) → Keyless (s ++ t.map roundBracket) := by
    intro t
    induction t with
    | nil => exact fun s h => h
    | cons c cs ih =>
      intro s h
      rcases roundBracket_cases c with hc | hc
      · have := ih (s ++ [c])
        rw [List.append_assoc, List.append_assoc] at this
        rw [List.map_cons, hc]
        exact this h
      · have hround : isAnyCaseLetter (roundBracket c) = false ∧ roundBracket c ≠ '∫' ∧
            roundBracket c ≠ '/' ∧ isKeywordChar (roundBracket c) = false :=
          forall_mem_of_all (p := fun c => isAnyCaseLetter (roundBracket c) = false ∧
            roundBracket c ≠ '∫' ∧ roundBracket c ≠ '/' ∧ isKeywordChar (roundBracket c) = false)
            (by decide) c hc
        obtain ⟨hl, hs, -, hk⟩ := hround
        have hleft : Keyless s := h.within (l := []) (r := c :: cs) rfl
        have hright : Keyless cs := h.within (l := s ++ [c]) (r := []) (by simp)
        exact hleft.append ((ih [] hright).cons hl hs) (.inr ⟨[], _, _, rfl, allBlanks_nil, hk⟩)
  exact key t [] h

/-! ## The canonical form without keywords -/

theorem removeBlanks_dropEndWhile_endsSentence (y : Text) :
    removeBlanks (dropEndWhile endsSentence y) = dropEndWhile endsSentence (removeBlanks y) := by
  induction y with
  | nil => rfl
  | cons c cs ih =>
    have hnil : dropEndWhile endsSentence (removeBlanks cs) = [] ↔
        dropEndWhile endsSentence cs = [] := by
      rw [← ih]
      refine ⟨fun h => ?_, fun h => by rw [h]; rfl⟩
      -- The last character of what is kept is no blank.
      cases hlast : (dropEndWhile endsSentence cs).getLast? with
      | none => exact List.getLast?_eq_none_iff.mp hlast
      | some d =>
        have hd : endsSentence d = false := getLast?_dropEndWhile hlast
        rw [endsSentence, Bool.or_eq_false_iff, Bool.or_eq_false_iff] at hd
        have : d ∈ removeBlanks (dropEndWhile endsSentence cs) :=
          List.mem_filter.mpr ⟨List.mem_of_getLast? hlast, by rw [hd.1.1]; rfl⟩
        rw [h] at this
        exact absurd this List.not_mem_nil
    rw [dropEndWhile_cons]
    by_cases hb : isBlank c = true
    · have hc : endsSentence c = true := by rw [endsSentence, hb]; rfl
      have hskip : ∀ s, removeBlanks (c :: s) = removeBlanks s :=
        fun s => List.filter_cons_of_neg (by rw [hb]; decide)
      rw [hskip, ← ih]
      split
      next h => rw [h.1]
      next => exact hskip _
    · have hkeep : ∀ s, removeBlanks (c :: s) = c :: removeBlanks s :=
        fun s => List.filter_cons_of_pos (by rw [Bool.eq_false_iff.mpr hb]; rfl)
      rw [hkeep, dropEndWhile_cons]
      by_cases h : dropEndWhile endsSentence cs = [] ∧ endsSentence c = true
      · rw [if_pos h, if_pos ⟨hnil.mpr h.1, h.2⟩]
        rfl
      · rw [if_neg h, if_neg fun h' => h ⟨hnil.mp h'.1, h'.2⟩, hkeep, ih]

theorem canonical_eq_plain (s : Text) :
    canonical s = dropEndWhile endsSentence (plain (limits (integrals (derivatives (bare s))))) := by
  rw [canonical_eq_run, run_rewritingSteps, removeBlanks_dropEndWhile_endsSentence]
  rfl

theorem Keyless.bare (h : Keyless t) : Keyless (bare t) := by
  obtain ⟨v, hv⟩ := withoutInstructions_suffix (Rule.collapseBlanks.apply t).length
    (Rule.collapseBlanks.apply t)
  exact h.squeeze.trim.within (l := v) (r := []) (by rw [List.append_nil]; exact hv.symm)

/-- **Without keywords a text is made plain, and the end of the sentence goes.** -/
theorem canonical_of_keyless (h : Keyless (bare t)) :
    canonical t = dropEndWhile endsSentence (plain (bare t)) := by
  rw [canonical_eq_plain, h.derivatives_eq, h.integrals_eq, h.limits_eq]

/-! ## The tidy text -/

theorem squeeze_trim_of_squeezed (h : squeeze t = t) : squeeze (trim t) = trim t := by
  obtain ⟨l, r, he, -, -⟩ := trim_split t
  have hright : squeeze (trim t ++ r) = trim t ++ r := squeeze_of_suffix h ⟨l, he.symm⟩
  have hr : squeeze r = r := squeeze_of_suffix h ⟨l ++ trim t, by rw [List.append_assoc, ← he]⟩
  rw [squeeze_append (noBlankEnd_trim t), hr] at hright
  exact List.append_cancel_right hright

theorem trim_trim (t : Text) : trim (trim t) = trim t := by
  cases h : allBlank t with
  | false => exact (tight_trim h).trim_eq
  | true =>
    have : trim t = [] := by
      rw [trim, List.dropWhile_eq_nil_iff.mpr (List.all_eq_true.mp h)]
      rfl
    rw [this]
    rfl

/-- The tightened text that becomes the tidy one. -/
def tightText (t : Text) : Text := trim (tightEqualities (tightOperations (squeeze t)))

theorem tidy_eq_map (t : Text) : tidy t = (tightText t).map roundBracket :=
  trim_map isBlank_roundBracket _

theorem tightened_tightText (t : Text) : Tightened (Rule.collapseBlanks.apply t) (tightText t) :=
  (tightened_tighten (squeeze t)).trim

theorem squeeze_tidy (t : Text) : squeeze (tidy t) = tidy t := by
  have hsqueeze : squeeze (tightText t) = tightText t := squeeze_trim_of_squeezed
    ((tightened_tighten (squeeze t)).squeezed (squeeze_squeeze t))
  have hround : ∀ b, isBlank b = true → roundBracket b = b := fun b hb =>
    roundBracket_of_isWording (by rw [isWording, hb, Bool.or_true])
  rw [tidy_eq_map, squeeze_map isBlank_roundBracket hround, hsqueeze]

theorem trim_tidy (t : Text) : trim (tidy t) = tidy t := by
  rw [tidy_eq_map, trim_map isBlank_roundBracket, tightText, trim_trim]

theorem collapse_tidy (t : Text) : Rule.collapseBlanks.apply (tidy t) = tidy t := by
  rw [Rule.apply, squeeze_tidy, trim_tidy]

/-! ## The words in front -/

section Front

variable (f : SameFront (Rule.collapseBlanks.apply t) (tightText t) m w x y)
include f

theorem bare_eq_front : bare t = Rule.stripInstructions.apply (m ++ w) ++ x := by
  rw [bare, f.left, ← List.append_assoc, stripInstructions_append f.stop]

theorem bare_tidy_eq_front :
    bare (tidy t) = (Rule.stripInstructions.apply m ++ y).map roundBracket := by
  have hstop : ∀ c, (y.map roundBracket).head? = some c → isWording c = false := by
    intro c hc
    rw [List.head?_map, ← f.head] at hc
    obtain ⟨d, hd, rfl⟩ := Option.map_eq_some_iff.mp hc
    rw [isWording_roundBracket, f.stop d hd]
  have hwords : ∀ c ∈ Rule.stripInstructions.apply m, isWording c = true :=
    fun c hc => f.words c ((withoutInstructions_suffix _ m).subset hc)
  rw [bare, collapse_tidy, tidy_eq_map, f.right, List.map_append, map_roundBracket_of_wording f.words,
    stripInstructions_append hstop, List.map_append, map_roundBracket_of_wording hwords]

theorem canonical_tidy_eq_front (h : Keyless t) : canonical (tidy t) =
    dropEndWhile endsSentence (plain (Rule.stripInstructions.apply m ++ x)) := by
  have htight : Keyless (tightText t) :=
    (tightened_tightText t).keyless [] h.squeeze.trim
  have hkeyless : Keyless (bare (tidy t)) := by
    obtain ⟨v, hv⟩ := withoutInstructions_suffix m.length m
    rw [bare_tidy_eq_front f]
    refine (htight.within (l := v) (r := []) ?_).map_roundBracket
    rw [List.append_nil, ← List.append_assoc, f.right]
    exact congrArg (· ++ y) hv.symm
  rw [canonical_of_keyless hkeyless, bare_tidy_eq_front f, plain_map_roundBracket, f.rest.plain_eq]

/-- At most one blank is lost in front of the equals sign. -/
theorem front_blanks : w = [] ∨ w = [' '] := by
  by_cases hw : w = []
  · exact .inl hw
  · obtain ⟨r, hr⟩ := List.head?_eq_some_iff.mp (f.sign hw)
    have hsqueezed : squeeze (Rule.collapseBlanks.apply t) = Rule.collapseBlanks.apply t :=
      squeeze_trim_of_squeezed (squeeze_squeeze t)
    have hrest : squeeze (w ++ x) = w ++ x :=
      squeeze_of_suffix hsqueezed (f.left ▸ List.suffix_append m (w ++ x))
    have hx : squeeze x = x :=
      squeeze_of_suffix hrest (List.suffix_append w x)
    rw [hr, squeeze_blanks (by decide) hw f.blanks, ← hr, hx] at hrest
    exact .inr ((List.append_left_inj x).mp hrest).symm

end Front

/-! ## The exact condition -/

/-- Instructions were dropped, and an equals sign comes right behind them. -/
def SignBehindInstructions (t : Text) : Prop :=
  bare t ≠ Rule.collapseBlanks.apply t ∧ (bare t).head? = some '='

theorem canonical_ne_of_words (hw : ∀ c ∈ s, isWording c = true) (hs : plain s ≠ []) :
    dropEndWhile endsSentence (plain (s ++ '=' :: x)) ≠
      dropEndWhile endsSentence (plain ('=' :: x)) := by
  have hends : endsSentence '=' = false := by decide
  have hleft : plain (s ++ '=' :: x) = plain s ++ '=' :: plain x :=
    plain_inert (by decide) (by decide) s x
  have hright : plain ('=' :: x) = [] ++ '=' :: plain x :=
    plain_inert (by decide) (by decide) [] x
  rw [hleft, hright, dropEndWhile_append_cons hends, dropEndWhile_append_cons hends]
  intro he
  obtain ⟨c, cs, hc⟩ := List.exists_cons_of_ne_nil hs
  rw [hc] at he
  obtain rfl : c = '=' := (List.cons.inj he).1
  have hm : '=' ∈ s := mem_of_mem_plain (by decide) (hc ▸ List.mem_cons_self)
  exact absurd (hw '=' hm) (by decide)

/-- **In a text without keywords tidying changes the canonical form in one case only, namely when an
equals sign comes right behind the instructions.** -/
theorem canonical_tidy_iff (h : Keyless t) :
    canonical (tidy t) = canonical t ↔ ¬SignBehindInstructions t := by
  obtain ⟨m, w, x, y, f⟩ := (tightened_tightText t).exists_sameFront
  have hbare := bare_eq_front f
  have hwords : ∀ c ∈ Rule.stripInstructions.apply m, isWording c = true :=
    fun c hc => f.words c ((withoutInstructions_suffix _ m).subset hc)
  rw [canonical_tidy_eq_front f h, canonical_of_keyless h.bare, SignBehindInstructions, hbare]
  rcases front_blanks f with rfl | rfl
  · rw [List.append_nil]
    refine iff_of_true rfl ?_
    rintro ⟨hne, hhead⟩
    cases hs : Rule.stripInstructions.apply m with
    | cons c cs =>
      rw [hs] at hhead hwords
      have hc := hwords c List.mem_cons_self
      rw [Option.some.inj hhead] at hc
      exact absurd hc (by decide)
    | nil =>
      -- Something is left of words that do not end in a blank, so there were none.
      rw [hs] at hhead hne
      have hm : m = [] := Decidable.of_not_not fun hm =>
        (instructions_suffix (f.last hhead) hm).2 hs
      rw [f.left, hm] at hne
      exact hne rfl
  · have hx := f.sign (List.cons_ne_nil _ _)
    obtain ⟨r, rfl⟩ := List.head?_eq_some_iff.mp hx
    rcases stripInstructions_append_blank (f.last hx) with he | ⟨he, hne⟩
    · have hblank : AllBlanks [' '] := List.forall_mem_singleton.mpr (by decide)
      have hplain := plain_equality hblank allBlanks_nil (Rule.stripInstructions.apply m) r
      rw [he, List.append_assoc]
      refine iff_of_true (congrArg _ hplain.symm) ?_
      rintro ⟨-, hhead⟩
      cases hs : Rule.stripInstructions.apply m with
      | nil =>
        rw [hs] at hhead
        exact absurd hhead (by simp)
      | cons c cs =>
        rw [hs] at hhead hwords
        have hc := hwords c List.mem_cons_self
        rw [Option.some.inj hhead] at hc
        exact absurd hc (by decide)
    · have hplain : plain (Rule.stripInstructions.apply m) ≠ [] := by
        have hend := (f.last hx).of_suffix (withoutInstructions_suffix m.length m)
        refine plain_ne_nil (List.all_eq_false.mpr ⟨_, List.getLast_mem hne, ?_⟩)
        rw [hend _ (List.getLast?_eq_some_getLast hne)]
        decide
      rw [he]
      refine iff_of_false (canonical_ne_of_words hwords hplain) (not_not_intro ⟨fun hc => ?_, rfl⟩)
      have := congrArg List.length (hc.trans f.left)
      simp only [List.nil_append, List.length_cons, List.length_append, List.length_nil] at this
      omega

/-- The text `find = 3` becomes `find=3`, which is no longer an instruction. -/
theorem canonical_tidy_find :
    canonical (tidy "find = 3".toList) ≠ canonical "find = 3".toList :=
  fun he => (canonical_tidy_iff (by decide +kernel)).mp he ⟨by decide +kernel, by decide +kernel⟩

/-- With a keyword the brackets matter: no target of a limit is given in round ones. -/
theorem canonical_tidy_limit :
    canonical "lim_\x7bx→0\x7d sin(x)/x".toList = "limit(sin(x)/x,x,0)".toList ∧
      canonical (tidy "lim_\x7bx→0\x7d sin(x)/x".toList) = "lim_(x→0)sin(x)/x".toList := by
  decide +kernel

end Stepwise.Phrase
