import Stepwise.Proofs.Arguments
import Stepwise.Proofs.Phrasing
import Stepwise.Proofs.Separators

/-!
# Plain texts

What becomes of an expression in the end: its glyphs are replaced, and its blanks removed (`plain`).
This does not depend on what stands around the expression, as brackets and commas are separators for
all steps; nor does it depend on how its blanks were squeezed and trimmed before.

Results: `plain_callText`, a call is made plain argument by argument; `plain_squeeze` and
`plain_trim`; `marks_plain`, the brackets stay and become round; and `plain_ne_nil`.
-/

namespace Stepwise.Phrase

open Text Pattern Stepwise.Bracket

/-- The text without glyphs and without blanks. -/
def plain (t : Text) : Text := removeBlanks (plainGlyphs t)

/-- The characters that set off the arguments of a call. -/
def separators : Text := ['(', ',', ')']

variable {b c : Char} {last last' : Option Char} {name s t tail w : Text} {args : List Text}

/-- The steps before the double stars. -/
def plainSigns (t : Text) : Text :=
  (replaceAll crossBetweenDigits (t.map plainTimes)).map plainSign

/-- The step of the double stars. -/
def plainStars (t : Text) : Text := replaceAll (fun _ => doubleStar) t

theorem plainGlyphs_eq (t : Text) :
    plainGlyphs t = (plainStars (plainSigns t)).flatMap plainGlyph := rfl

/-! ## What the steps read -/

theorem reads_crossBetweenDigits (last : Option Char) : Reads (crossBetweenDigits last) fun u new =>
    new = ['*'] ∧ u ≠ [] ∧ ∀ c ∈ u, isBlank c = true ∨ c = 'x' ∨ c = 'X' := by
  refine (stays_guard _).bind fun _ => (reads_many _).bind fun w v hw => (reads_one _).bind
    fun u x hx => (reads_many _).bind fun w' v' hw' => (stays_before _).bind fun _ => reads_pure ?_
  obtain ⟨rfl, hw⟩ := hw
  obtain ⟨rfl, hx⟩ := hx
  obtain ⟨rfl, hw'⟩ := hw'
  refine ⟨rfl, by simp, ?_⟩
  rw [Bool.or_eq_true, beq_iff_eq, beq_iff_eq] at hx
  simp only [List.append_nil, List.forall_mem_append, List.forall_mem_singleton]
  exact ⟨fun c hc => .inl (hw c hc), .inr hx, fun c hc => .inl (hw' c hc)⟩

theorem reads_doubleStar : Reads doubleStar fun u new => new = ['^'] ∧ u = ['*', '*'] :=
  (reads_literal _).bind fun _ _ hu => reads_pure ⟨rfl, by rw [hu]; rfl⟩

/-- All that matters of the character before is whether it is a digit. -/
theorem crossBetweenDigits_congr (h : last.any isDigit = last'.any isDigit) :
    crossBetweenDigits last = crossBetweenDigits last' := by
  unfold crossBetweenDigits
  rw [h]

theorem crossBetweenDigits_some (h : isDigit c = false) :
    crossBetweenDigits (some c) = crossBetweenDigits none := crossBetweenDigits_congr h

theorem isDigit_of_crossed (h : isBlank c = true ∨ c = 'x' ∨ c = 'X') : isDigit c = false := by
  rcases h with h | rfl | rfl
  · exact isDigit_of_isBlank h
  · decide
  · decide

theorem steady_cross (h : Steady tail (before isDigit)) (last : Option Char) :
    Steady tail (crossBetweenDigits last) :=
  (steady_guard _).bind fun _ => (steady_many _).bind fun _ => (steady_one _).bind fun _ =>
    (steady_many _).bind fun _ => h.bind fun _ => steady_pure _

/-! ## Separators -/

/-- The steps before the double stars pass this character over. -/
def Inert (b : Char) : Prop :=
  plainTimes b = b ∧ plainSign b = b ∧ isDigit b = false ∧ ¬(isBlank b = true ∨ b = 'x' ∨ b = 'X')

instance (b : Char) : Decidable (Inert b) := inferInstanceAs (Decidable (_ ∧ _))

theorem Inert.not_isBlank (hb : Inert b) : isBlank b = false :=
  Bool.eq_false_iff.mpr fun h => hb.2.2.2 (.inl h)

theorem Inert.skirts (hb : Inert b) (last : Option Char) : Skirts b (crossBetweenDigits last) :=
  (reads_crossBetweenDigits last).mono fun _ _ ⟨_, hn, hu⟩ => ⟨hn, fun hm => hb.2.2.2 (hu b hm)⟩

/-- What stands on both sides of such a character is rewritten on its own. -/
theorem plainSigns_inert (hb : Inert b) (s t : Text) :
    plainSigns (s ++ b :: t) = plainSigns s ++ b :: plainSigns t := by
  have hcross : ∀ x y : Text, replaceAll crossBetweenDigits (x ++ b :: y) =
      replaceAll crossBetweenDigits x ++ b :: replaceAll crossBetweenDigits y := fun x y =>
    (replaceFrom_separator (steady_cross (steady_before_cons hb.2.2.1)) hb.skirts x none 0
      (Nat.zero_le _)).trans
      (congrArg (replaceAll crossBetweenDigits x ++ b :: ·)
        (replaceFrom_congr (crossBetweenDigits_some hb.2.2.1) y))
  rw [plainSigns, List.map_append, List.map_cons, hb.1, hcross, List.map_append, List.map_cons,
    hb.2.1]
  rfl

theorem plainStars_cons (hb : b ≠ '*') (s t : Text) :
    plainStars (s ++ b :: t) = plainStars s ++ b :: plainStars t := by
  have hskirts : Skirts b doubleStar := reads_doubleStar.mono fun u new ⟨_, hu⟩ => by
    rw [hu]
    exact ⟨by decide, by simpa using hb⟩
  refine (replaceFrom_separator (fun _ => steady_doubleStar) (fun _ => hskirts) s none 0
    (Nat.zero_le _)).trans (congrArg (plainStars s ++ b :: ·) ?_)
  exact replaceFrom_congr (p := fun _ => doubleStar) rfl t

/-- **What stands on both sides of a separator is rewritten on its own.** -/
theorem plainGlyphs_inert (hb : Inert b) (hs : b ≠ '*') (s t : Text) :
    plainGlyphs (s ++ b :: t) = plainGlyphs s ++ (plainGlyph b ++ plainGlyphs t) := by
  rw [plainGlyphs_eq, plainSigns_inert hb, plainStars_cons hs, List.flatMap_append,
    List.flatMap_cons]
  rfl

theorem plainGlyphs_separator (hb : b ∈ separators) (s t : Text) :
    plainGlyphs (s ++ b :: t) = plainGlyphs s ++ b :: plainGlyphs t := by
  have self : Inert b ∧ b ≠ '*' ∧ plainGlyph b = [b] :=
    forall_mem_of_all (p := fun b => Inert b ∧ b ≠ '*' ∧ plainGlyph b = [b]) (by decide) b hb
  rw [plainGlyphs_inert self.1 self.2.1, self.2.2]
  rfl

theorem plain_separator (hb : b ∈ separators) (s t : Text) :
    plain (s ++ b :: t) = plain s ++ b :: plain t := by
  have hblank : isBlank b = false := by
    simp only [separators, List.mem_cons, List.not_mem_nil, or_false] at hb
    rcases hb with rfl | rfl | rfl <;> decide
  have hcons : ∀ x : Text, removeBlanks (b :: x) = b :: removeBlanks x := fun x =>
    List.filter_cons_of_pos (by rw [hblank]; rfl)
  rw [plain, plainGlyphs_separator hb, removeBlanks_append, hcons]
  rfl

theorem plain_joinWith : ∀ args : List Text,
    plain (joinWith [','] args) = joinWith [','] (args.map plain)
  | [] => rfl
  | [_] => rfl
  | a :: b :: rest => by
    have hj : ∀ x y : Text, ∀ ys, joinWith [','] (x :: y :: ys) = x ++ ',' :: joinWith [','] (y :: ys) := by
      intro x y ys
      simp [joinWith]
    rw [hj, plain_separator (by decide), plain_joinWith (b :: rest), List.map_cons, List.map_cons,
      List.map_cons, hj]

/-- There are no glyphs in a name. -/
theorem plainGlyphs_letters (h : t.all isLetter = true) : plainGlyphs t = t := by
  have letter : ∀ c ∈ t, isLetter c = true := List.all_eq_true.mp h
  have nonglyph : ∀ g ∈ glyphs, isLetter g = false := forall_mem_of_all (by decide)
  have hb : Blankless t := fun c hc =>
    isBlank_of_anyCaseLetter (by rw [isAnyCaseLetter, letter c hc]; rfl)
  refine (plainGlyphs_eq_iff hb fun c hc hg => ?_).mpr ⟨?_, ?_⟩
  · have := letter c hc
    rw [nonglyph c hg] at this
    exact Bool.false_ne_true this
  · rintro ⟨a, b, d, x, e, rfl, hd, -, -⟩
    rw [isDigit_of_isAlpha (letter d (by simp))] at hd
    exact Bool.false_ne_true hd
  · rintro ⟨a, b, rfl⟩
    exact absurd (letter '*' (by simp)) (by decide)

theorem plain_letters (h : t.all isLetter = true) : plain t = t := by
  rw [plain, plainGlyphs_letters h]
  refine Blankless.removeBlanks_eq fun c hc => isBlank_of_anyCaseLetter ?_
  rw [isAnyCaseLetter, List.all_eq_true.mp h c hc]
  rfl

/-- **A call is made plain argument by argument**, and the end of it is no end of a sentence. -/
theorem plain_callText (hn : name.all isLetter = true) (args : List Text) :
    removeBlanks (dropEndWhile endsSentence (plainGlyphs (callText name args))) =
      callText name (args.map plain) := by
  have hcall : ∀ xs, callText name xs = name ++ '(' :: (joinWith [','] xs ++ ')' :: []) := by
    simp [callText]
  have hfirm : Firm (plainGlyphs (callText name args)) := by
    rw [hcall, plainGlyphs_separator (by decide), plainGlyphs_separator (by decide)]
    refine Firm.append (s := plainGlyphs name) ?_
    exact (firm_append_singleton (c := ')') _ (by decide)).append ['(']
  rw [hfirm.dropEndWhile_eq]
  change plain (callText name args) = _
  rw [hcall, hcall, plain_separator (by decide), plain_separator (by decide), plain_joinWith,
    plain_letters hn]
  rfl

/-! ## Blanks -/

theorem not_mem_glyphs_of_isBlank (h : isBlank b = true) : b ∉ glyphs := by
  have hg : ∀ g ∈ glyphs, isBlank g = false := forall_mem_of_all (by decide)
  intro hm
  rw [hg b hm] at h
  exact Bool.false_ne_true h

theorem plainGlyph_of_isBlank (h : isBlank b = true) : plainGlyph b = [b] :=
  plainGlyph_of_not_mem fun hm => not_mem_glyphs_of_isBlank h (List.mem_append_right _ hm)

theorem isBlank_plainTimes (c : Char) : isBlank (plainTimes c) = isBlank c := by
  cases hb : isBlank c with
  | true => rw [plainTimes_self (not_mem_glyphs_of_isBlank hb), hb]
  | false =>
    unfold plainTimes
    split
    · decide
    · exact hb

theorem isBlank_plainSign (c : Char) : isBlank (plainSign c) = isBlank c := by
  cases hb : isBlank c with
  | true => rw [plainSign_self (not_mem_glyphs_of_isBlank hb), hb]
  | false =>
    unfold plainSign
    split
    · decide
    · split
      · decide
      · exact hb

theorem blankless_plainGlyph (h : isBlank c = false) :
    plainGlyph c ≠ [] ∧ Blankless (plainGlyph c) := by
  have spelled : ∀ c ∈ spelledGlyphs,
      (!(plainGlyph c).isEmpty && (plainGlyph c).all fun d => !isBlank d) = true :=
    forall_mem_of_all (by decide)
  by_cases hc : c ∈ spelledGlyphs
  · have := spelled c hc
    rw [Bool.and_eq_true, Bool.not_eq_true', List.isEmpty_eq_false_iff, List.all_eq_true] at this
    exact ⟨this.1, fun d hd => (Bool.not_eq_true' _).mp (this.2 d hd)⟩
  · rw [plainGlyph_of_not_mem hc]
    exact ⟨List.cons_ne_nil _ _, Blankless.cons_iff.mpr ⟨h, .nil⟩⟩

theorem squeezes_crossBetweenDigits (last : Option Char) : Squeezes (crossBetweenDigits last) := by
  have hcross : ∀ c, isBlank c = true → (c == 'x' || c == 'X') = false :=
    fun c => isBlank_induction (p := fun c => (c == 'x' || c == 'X') = false) (by decide)
  have hdigit : ∀ c, isBlank c = true → isDigit c = false := fun _ => isDigit_of_isBlank
  have hbefore := (squeezes_before hdigit).bind fun _ => squeezes_pure ['*']
  -- An X and a digit are no blanks, so blanks in front of them are read as a whole.
  refine (squeezes_guard _).bind fun _ => .blanks_bind (.bind (squeezes_one hcross) fun _ =>
    hbefore.blanks_bind fun c cs hc => ?_) fun c cs hc => ?_
  · exact bind_of_eq_nil (before_of_isBlank hdigit c cs hc)
  · exact bind_of_eq_nil (one_of_isBlank hcross c cs hc)

theorem squeezes_doubleStar : Squeezes doubleStar :=
  (squeezes_literal (forall_mem_of_all (by decide))).bind fun _ => squeezes_pure ['^']

theorem lax_crossBetweenDigits : Lax crossBetweenDigits where
  after_blank hb := crossBetweenDigits_some (isDigit_of_isBlank hb)
  blank _ _ := rfl
  squeeze last t := (squeezes_crossBetweenDigits last).best?_eq t
  reads h := by
    obtain ⟨u, he, rfl, hn, hu⟩ := reads_crossBetweenDigits _ _ _ _ (mem_of_best? h)
    exact ⟨⟨'*', rfl, by decide⟩, u, he, hn, fun c hc =>
      crossBetweenDigits_some (isDigit_of_crossed (hu c hc))⟩

theorem lax_doubleStar : Lax fun _ => doubleStar where
  after_blank _ := rfl
  blank t hb := by
    cases h : doubleStar.best? (_ :: t) with
    | none => rfl
    | some x =>
      obtain ⟨u, he, -, rfl⟩ := reads_doubleStar _ _ _ (mem_of_best? h)
      rw [(List.cons.inj he).1] at hb
      exact absurd hb (by decide)
  squeeze _ t := squeezes_doubleStar.best?_eq t
  reads h := by
    obtain ⟨u, he, rfl, rfl⟩ := reads_doubleStar _ _ _ (mem_of_best? h)
    exact ⟨⟨'^', rfl, by decide⟩, _, he, by decide, fun _ _ => rfl⟩

theorem squeeze_squeeze (t : Text) : squeeze (squeeze t) = squeeze t := by
  fun_induction squeeze t with
  | case1 => rfl
  | case2 c h => rfl
  | case3 c h d ds hd ih => exact ih
  | case4 c h d ds hd ih =>
    rw [squeeze_cons_of_blank (by decide), dropWhile_squeeze, List.dropWhile_cons_of_neg hd, ih]
  | case5 c cs h ih => rw [squeeze_cons_of_not_blank h, ih]

theorem squeeze_flatMap {g : Char → Text} (hb : ∀ b, isBlank b = true → g b = [b])
    (hn : ∀ c, isBlank c = false → g c ≠ [] ∧ Blankless (g c)) (t : Text) :
    squeeze (t.flatMap g) = (squeeze t).flatMap g := by
  fun_induction squeeze t with
  | case1 => rfl
  | case2 c h => simp [hb c h, hb ' ' (by decide), squeeze, h]
  | case3 c h d ds hd ih =>
    rw [List.flatMap_cons, hb c h, ← ih, List.flatMap_cons, hb d hd]
    simp [squeeze, h, hd]
  | case4 c h d ds hd ih =>
    obtain ⟨hne, hbl⟩ := hn d (Bool.eq_false_iff.mpr hd)
    obtain ⟨e, es, he⟩ := List.exists_cons_of_ne_nil hne
    have hbe : ¬isBlank e = true := by
      rw [hbl e (by rw [he]; exact List.mem_cons_self)]
      decide
    have hspace : (' ' :: squeeze (d :: ds)).flatMap g = ' ' :: (squeeze (d :: ds)).flatMap g := by
      rw [List.flatMap_cons, hb ' ' (by decide)]
      rfl
    rw [hspace, ← ih, List.flatMap_cons, hb c h, List.flatMap_cons, he, List.cons_append,
      List.nil_append, List.cons_append, squeeze_cons_of_blank h, List.dropWhile_cons_of_neg hbe]
  | case5 c cs h ih =>
    obtain ⟨-, hbl⟩ := hn c (Bool.eq_false_iff.mpr h)
    have hend : NoBlankEnd (g c) := fun d hd => hbl d (List.mem_of_getLast? hd)
    rw [List.flatMap_cons, List.flatMap_cons, squeeze_append hend, hbl.squeeze_eq, ih]

/-- Runs of blanks make no difference to what a step makes of a text. -/
def IgnoresRuns (f : Text → Text) : Prop := ∀ t, squeeze (f (squeeze t)) = squeeze (f t)

theorem IgnoresRuns.comp {f g : Text → Text} (hg : IgnoresRuns g) (hf : IgnoresRuns f) :
    IgnoresRuns fun t => g (f t) := by
  intro t
  dsimp only
  rw [← hg, hf, hg]

theorem ignoresRuns_flatMap {g : Char → Text} (hb : ∀ b, isBlank b = true → g b = [b])
    (hn : ∀ c, isBlank c = false → g c ≠ [] ∧ Blankless (g c)) : IgnoresRuns (List.flatMap g) := by
  intro t
  rw [squeeze_flatMap hb hn, squeeze_flatMap hb hn, squeeze_squeeze]

theorem ignoresRuns_map {f : Char → Char} (hb : ∀ b, isBlank b = true → f b = b)
    (hn : ∀ c, isBlank (f c) = isBlank c) : IgnoresRuns (List.map f) := by
  have hmap : List.map f = List.flatMap fun c => [f c] := by
    funext t
    rw [List.map_eq_flatMap]
  rw [hmap]
  refine ignoresRuns_flatMap (fun b h => by rw [hb b h]) fun c h => ⟨List.cons_ne_nil _ _, ?_⟩
  exact Blankless.cons_iff.mpr ⟨by rw [hn, h], .nil⟩

theorem ignoresRuns_plainGlyphs : IgnoresRuns plainGlyphs :=
  (ignoresRuns_flatMap (fun _ => plainGlyph_of_isBlank) fun _ => blankless_plainGlyph).comp <|
    (show IgnoresRuns _ from lax_doubleStar.squeeze_replaceAll).comp <|
    (ignoresRuns_map (fun _ h => plainSign_self (not_mem_glyphs_of_isBlank h)) isBlank_plainSign).comp <|
    (show IgnoresRuns _ from lax_crossBetweenDigits.squeeze_replaceAll).comp <|
    ignoresRuns_map (fun _ h => plainTimes_self (not_mem_glyphs_of_isBlank h)) isBlank_plainTimes

/-- **How blanks were squeezed makes no difference to a plain text.** -/
theorem plain_squeeze (t : Text) : plain (squeeze t) = plain t := by
  rw [plain, ← removeBlanks_squeeze, ignoresRuns_plainGlyphs, removeBlanks_squeeze]
  rfl

theorem map_of_isBlank {f : Char → Char} (hf : ∀ c, c ∉ glyphs → f c = c)
    (hw : ∀ b ∈ w, isBlank b = true) : w.map f = w :=
  (List.map_congr_left fun c hc => hf c (not_mem_glyphs_of_isBlank (hw c hc))).trans
    (List.map_id' w)

theorem plainSigns_blanks {l r : Text} (hl : ∀ b ∈ l, isBlank b = true)
    (hr : ∀ b ∈ r, isBlank b = true) (t : Text) :
    plainSigns (l ++ (t ++ r)) = l ++ (plainSigns t ++ r) := by
  have hdigit : ∀ c ∈ r, isDigit c = false := fun c hc => isDigit_of_isBlank (hr c hc)
  have cross : ∀ x : Text, replaceAll crossBetweenDigits (l ++ (x ++ r)) =
      l ++ (replaceAll crossBetweenDigits x ++ r) := by
    intro x
    refine (lax_crossBetweenDigits.replaceFrom_blanks hl _).trans (congrArg (l ++ ·) ?_)
    refine replaceAll_append (steady_cross (steady_before hdigit)) (fun last => ?_) x
    exact .after (leavesEnd_guard _) fun _ => .after (leavesEnd_many _) fun _ =>
      .after (leavesEnd_one _) fun _ => .after (leavesEnd_many _) fun _ =>
        (anchored_before hdigit).result _
  simp only [plainSigns, List.map_append, map_of_isBlank (fun _ => plainTimes_self) hl,
    map_of_isBlank (fun _ => plainTimes_self) hr, cross, map_of_isBlank (fun _ => plainSign_self) hl,
    map_of_isBlank (fun _ => plainSign_self) hr]

theorem plainStars_blanks {l r : Text} (hl : ∀ b ∈ l, isBlank b = true)
    (hr : ∀ b ∈ r, isBlank b = true) (t : Text) :
    plainStars (l ++ (t ++ r)) = l ++ (plainStars t ++ r) := by
  have hstar : '*' ∉ r := fun hm => absurd (hr '*' hm) (by decide)
  refine (lax_doubleStar.replaceFrom_blanks hl _).trans (congrArg (l ++ ·) ?_)
  exact replaceAll_append (fun _ => steady_doubleStar)
    (fun _ => (anchored_literal (w := ['*']) hstar).result _) t

/-- Blanks around a text stay where they are. -/
theorem plainGlyphs_blanks {l r : Text} (hl : ∀ b ∈ l, isBlank b = true)
    (hr : ∀ b ∈ r, isBlank b = true) (t : Text) :
    plainGlyphs (l ++ (t ++ r)) = l ++ (plainGlyphs t ++ r) := by
  have flat_self : ∀ {w : Text}, (∀ b ∈ w, isBlank b = true) → w.flatMap plainGlyph = w := by
    intro w hw
    exact flatMap_plainGlyph_self fun c hc => not_mem_glyphs_of_isBlank (hw c hc)
  rw [plainGlyphs_eq, plainSigns_blanks hl hr, plainStars_blanks hl hr, List.flatMap_append,
    List.flatMap_append, flat_self hl, flat_self hr]
  rfl

/-- **How a text was trimmed makes no difference to a plain text.** -/
theorem plain_trim (t : Text) : plain (trim t) = plain t := by
  have blank : ∀ {w : Text}, (∀ b ∈ w, isBlank b = true) → removeBlanks w = [] := by
    intro w hw
    refine List.filter_eq_nil_iff.mpr fun c hc => ?_
    rw [hw c hc]
    decide
  obtain ⟨l, r, he, hl, hr⟩ := trim_split t
  conv => rhs; rw [he]
  rw [plain, plain, plainGlyphs_blanks hl hr, removeBlanks_append, removeBlanks_append, blank hl,
    blank hr, List.nil_append, List.append_nil]

theorem blankless_plain (t : Text) : Blankless (plain t) :=
  fun _ hc => not_isBlank_of_mem_removeBlanks hc

theorem trim_plain (t : Text) : trim (plain t) = plain t := (blankless_plain t).trim_eq

/-! ## What stays -/

/-- A text with more than blanks does not become empty. -/
theorem plain_ne_nil (h : allBlank t = false) : plain t ≠ [] := by
  have map : ∀ {f : Char → Char} {x : Text}, (∀ c, isBlank (f c) = isBlank c) →
      allBlank x = false → allBlank (x.map f) = false := by
    intro f x hf hx
    have : isBlank ∘ f = isBlank := funext hf
    rwa [allBlank, List.all_map, this]
  have flat : ∀ {x : Text}, allBlank x = false → allBlank (x.flatMap plainGlyph) = false := by
    intro x hx
    obtain ⟨c, hc, hb⟩ := List.all_eq_false.mp hx
    obtain ⟨hne, hbl⟩ := blankless_plainGlyph (Bool.eq_false_iff.mpr hb)
    obtain ⟨d, ds, hd⟩ := List.exists_cons_of_ne_nil hne
    have hm : d ∈ plainGlyph c := by rw [hd]; exact List.mem_cons_self
    exact List.all_eq_false.mpr ⟨d, List.mem_flatMap.mpr ⟨c, hc, hm⟩, by rw [hbl d hm]; decide⟩
  have hall : allBlank (plainGlyphs t) = false := by
    rw [plainGlyphs_eq]
    refine flat (allBlank_replaceFrom (fun _ _ _ _ h => ?_) (map isBlank_plainSign
      (allBlank_replaceFrom (fun _ _ _ _ h => ?_) (map isBlank_plainTimes h))))
    · obtain ⟨_, -, rfl, -⟩ := reads_doubleStar _ _ _ (mem_of_best? h)
      decide
    · obtain ⟨_, -, rfl, -⟩ := reads_crossBetweenDigits _ _ _ _ (mem_of_best? h)
      decide
  intro hn
  obtain ⟨c, hc, hb⟩ := List.all_eq_false.mp hall
  have : c ∈ plain t := List.mem_filter.mpr ⟨hc, by rw [Bool.eq_false_iff.mpr hb]; rfl⟩
  rw [hn] at this
  exact List.not_mem_nil this

theorem marks_flatMap_plainGlyph (t : Text) :
    marks (t.flatMap plainGlyph) = (marks t).map roundBracket := by
  have spelled : ∀ c ∈ spelledGlyphs,
      marks (plainGlyph c) = if isMark c then [roundBracket c] else [] := forall_mem_of_all (by decide)
  have single : ∀ c, marks (plainGlyph c) = if isMark c then [roundBracket c] else [] := by
    intro c
    by_cases hc : c ∈ spelledGlyphs
    · exact spelled c hc
    · have hround : roundBracket c = c := by
        have ho : ¬(c = '[' ∨ c = '\x7b') := by
          rintro (rfl | rfl) <;> exact hc (by decide)
        have hcl : ¬(c = ']' ∨ c = '\x7d') := by
          rintro (rfl | rfl) <;> exact hc (by decide)
        rw [roundBracket, if_neg ho, if_neg hcl]
      rw [plainGlyph_of_not_mem hc, hround, marks, List.filter_singleton]
      cases isMark c <;> rfl
  induction t with
  | nil => rfl
  | cons c cs ih =>
    rw [List.flatMap_cons, marks, List.filter_append]
    change marks (plainGlyph c) ++ marks (cs.flatMap plainGlyph) = _
    rw [single c, ih, marks, marks, List.filter_cons]
    cases isMark c <;> rfl

/-- What is neither a bracket nor a comma may be exchanged for what is none either. -/
theorem marks_map {f : Char → Char} (hf : ∀ c, f c = c ∨ isMark (f c) = false ∧ isMark c = false)
    (t : Text) : marks (t.map f) = marks t := by
  have hcomp : isMark ∘ f = isMark := by
    funext c
    rcases hf c with h | ⟨h, h'⟩
    · rw [Function.comp_apply, h]
    · rw [Function.comp_apply, h, h']
  rw [marks, List.filter_map, hcomp]
  refine (List.map_congr_left fun c hc => (hf c).resolve_right fun h => ?_).trans (List.map_id' _)
  rw [(List.mem_filter.mp hc).2] at h
  exact Bool.noConfusion h.2

theorem isMark_signGlyph : ∀ g ∈ signGlyphs, isMark g = false := forall_mem_of_all (by decide)

theorem plainTimes_cases (c : Char) :
    plainTimes c = c ∨ isMark (plainTimes c) = false ∧ isMark c = false := by
  unfold plainTimes
  split
  next h =>
    refine .inr ⟨by decide, isMark_signGlyph c ?_⟩
    exact List.mem_append_left _ (List.contains_iff_mem.mp h)
  next => exact .inl rfl

theorem plainSign_cases (c : Char) :
    plainSign c = c ∨ isMark (plainSign c) = false ∧ isMark c = false := by
  unfold plainSign
  split
  next h => exact .inr ⟨by decide, by rw [h]; decide⟩
  next =>
    split
    next h =>
      refine .inr ⟨by decide, isMark_signGlyph c (List.mem_append_right _ ?_)⟩
      exact List.mem_cons_of_mem _ (List.contains_iff_mem.mp h)
    next => exact .inl rfl

theorem marks_crossBetweenDigits (t : Text) : marks (replaceAll crossBetweenDigits t) = marks t := by
  refine filter_replaceAll (fun last => (reads_crossBetweenDigits last).mono fun u new h => ?_) t
  obtain ⟨rfl, hn, hu⟩ := h
  have hnil : u.filter isMark = [] := by
    refine List.filter_eq_nil_iff.mpr fun c hc => ?_
    rcases hu c hc with hb | rfl | rfl
    · rw [isBlank_induction (p := fun c => isMark c = false) (by decide) hb]
      decide
    · decide
    · decide
  exact ⟨hn, by rw [hnil]; rfl⟩

theorem marks_doubleStar (t : Text) : marks (replaceAll (fun _ => doubleStar) t) = marks t := by
  refine filter_replaceAll (fun _ => reads_doubleStar.mono fun u new h => ?_) t
  obtain ⟨rfl, rfl⟩ := h
  exact ⟨by decide, by decide⟩

/-- **The brackets and commas of a text stay, and all brackets become round.** -/
theorem marks_plain (t : Text) : marks (plain t) = (marks t).map roundBracket := by
  rw [plain, marks_removeBlanks, plainGlyphs_eq, marks_flatMap_plainGlyph, plainStars,
    marks_doubleStar, plainSigns, marks_map plainSign_cases, marks_crossBetweenDigits,
    marks_map plainTimes_cases]

/-- **The arguments of a call are read back as they were made plain.** -/
theorem callArguments_plain {names : List Text} (hh : names.head? = some name) (hn : name ≠ [])
    (hne : args ≠ []) (ha : ∀ a ∈ args, Argument a) :
    callArguments names (callText name (args.map plain)) = some (args.map plain) := by
  have hb : ∀ a ∈ args.map plain, Balanced a := List.forall_mem_map.mpr fun a h =>
    balanced_of_marks (ha a h).wellNested (marks_plain a)
  have hc : ∀ a ∈ args.map plain, NoBareComma a := List.forall_mem_map.mpr fun a h =>
    noBareComma_of_marks (ha a h).wellNested (ha a h).noOuterComma (marks_plain a)
  rw [callArguments_callText hh hn (by simpa using hne) hb hc, List.map_map]
  exact congrArg some (List.map_congr_left fun a _ => trim_plain a)

end Stepwise.Phrase
