import Stepwise.Proofs.PlainText

/-!
# Operators in plain texts

Blanks next to an operator make no difference to a plain text when the operator stands between two
digits, and none next to an equals sign: `plain_operation` and `plain_equality`. Most operators are
separators for all steps (`Inert`). Only a star is not, as two stars that come together are a power;
but between digits none comes near another one.

Results: `plain_inert`, `plain_operation`, `plain_equality`, and `plain_map_roundBracket`, brackets
may become round beforehand.
-/

namespace Stepwise.Phrase

open Text Pattern

variable {b d e op : Char} {s t w w' x : Text}

/-- A star in front of something else is passed over. -/
theorem plainStars_star (ht : t.head? ≠ some '*') : plainStars ('*' :: t) = '*' :: plainStars t := by
  have hbest : doubleStar.best? ('*' :: t) = none := by
    cases h : doubleStar.best? ('*' :: t) with
    | none => rfl
    | some x =>
      obtain ⟨u, he, -, rfl⟩ := reads_doubleStar _ _ _ (mem_of_best? h)
      exact absurd (congrArg List.head? (List.cons.inj he).2) ht
  rw [plainStars, replaceAll, replaceFrom, hbest]
  exact congrArg ('*' :: ·) (replaceFrom_congr (p := fun _ => doubleStar) rfl t)

/-- **A character that no step reads splits a plain text.** -/
theorem plain_inert (hb : Inert b) (hs : b ≠ '*') (s t : Text) :
    plain (s ++ b :: t) = plain s ++ (plainGlyph b ++ plain t) := by
  have hglyph : removeBlanks (plainGlyph b) = plainGlyph b :=
    (blankless_plainGlyph hb.not_isBlank).2.removeBlanks_eq
  rw [plain, plainGlyphs_inert hb hs, removeBlanks_append, removeBlanks_append, hglyph]
  rfl

theorem plain_letters_append (hw : ∀ b ∈ w, Inert b ∧ b ≠ '*' ∧ plainGlyph b = [b]) (t : Text) :
    plain (w ++ t) = w ++ plain t := by
  induction w with
  | nil => rfl
  | cons b w ih =>
    obtain ⟨⟨hb, hs, hself⟩, hw⟩ := List.forall_mem_cons.mp hw
    have := plain_inert hb hs [] (w ++ t)
    rw [hself, ih hw] at this
    exact this

/-- A word that no step reads stays as it is and splits a plain text. -/
theorem plain_append_letters (hn : w ≠ []) (hw : ∀ b ∈ w, Inert b ∧ b ≠ '*' ∧ plainGlyph b = [b])
    (s t : Text) : plain (s ++ (w ++ t)) = plain s ++ (w ++ plain t) := by
  obtain ⟨b, w, rfl⟩ := List.exists_cons_of_ne_nil hn
  obtain ⟨⟨hb, hs, hself⟩, hw⟩ := List.forall_mem_cons.mp hw
  rw [List.cons_append, plain_inert hb hs, hself, plain_letters_append hw]
  rfl

/-! ## Blanks -/

theorem removeBlanks_eq_nil (hw : ∀ b ∈ w, isBlank b = true) : removeBlanks w = [] :=
  List.filter_eq_nil_iff.mpr fun c hc => by rw [hw c hc]; decide

/-- Blanks around a text make no difference to the plain text. -/
theorem plain_blanks (hw : ∀ b ∈ w, isBlank b = true) (hw' : ∀ b ∈ w', isBlank b = true)
    (t : Text) : plain (w ++ (t ++ w')) = plain t := by
  rw [plain, plainGlyphs_blanks hw hw', removeBlanks_append, removeBlanks_append,
    removeBlanks_eq_nil hw, removeBlanks_eq_nil hw', List.nil_append, List.append_nil]
  rfl

theorem plain_blanks_left (hw : ∀ b ∈ w, isBlank b = true) (t : Text) :
    plain (w ++ t) = plain t := by
  have none : ∀ b ∈ ([] : Text), isBlank b = true := fun _ h => absurd h List.not_mem_nil
  have := plain_blanks hw none t
  rwa [List.append_nil] at this

theorem plain_blanks_right (hw : ∀ b ∈ w, isBlank b = true) (t : Text) :
    plain (t ++ w) = plain t :=
  plain_blanks (w := []) (fun _ h => absurd h List.not_mem_nil) hw t

/-- **Blanks around an equals sign make no difference.** -/
theorem plain_equality (hw : ∀ b ∈ w, isBlank b = true) (hw' : ∀ b ∈ w', isBlank b = true)
    (s t : Text) : plain (s ++ (w ++ '=' :: (w' ++ t))) = plain (s ++ '=' :: t) := by
  rw [← List.append_assoc, plain_inert (by decide) (by decide), plain_inert (by decide) (by decide),
    plain_blanks_right hw, plain_blanks_left hw']

/-! ## Operators between digits -/

theorem plain_digit (hd : isDigit d = true) : d ∉ glyphs ∧ isBlank d = false ∧ d ≠ '*' := by
  have hg : ∀ g ∈ glyphs, isDigit g = false := forall_mem_of_all (by decide)
  refine ⟨fun hm => ?_, ?_, ?_⟩
  · rw [hg d hm] at hd
    exact Bool.noConfusion hd
  · exact Bool.eq_false_iff.mpr fun hb => by
      rw [isDigit_of_isBlank hb] at hd
      exact Bool.noConfusion hd
  · rintro rfl
    exact absurd hd (by decide)

/-- Where a reading leaves something at the end, the last character stays. -/
theorem getLast?_replaceFrom {p : Option Char → Pattern Text}
    (hp : ∀ last c t new r, (p last).best? (c :: t) = some (new, r) → r <:+ t ∧ r ≠ []) :
    ∀ (t : Text) (last : Option Char) (skip : Nat), skip < t.length →
      (replaceFrom p last skip t).getLast? = t.getLast?
  | [], _, _, h => absurd h (Nat.not_lt_zero _)
  | [c], last, 0, _ => by
    rw [replaceFrom]
    cases hb : (p last).best? [c] with
    | none => rfl
    | some x =>
      obtain ⟨hs, hne⟩ := hp last c [] x.1 x.2 hb
      exact absurd (List.suffix_nil.mp hs) hne
  | [_], _, _ + 1, h => absurd (Nat.lt_of_succ_lt_succ h) (Nat.not_lt_zero _)
  | c :: d :: ds, _, skip + 1, h => by
    rw [replaceFrom, getLast?_replaceFrom hp (d :: ds) _ skip (Nat.lt_of_succ_lt_succ h),
      List.getLast?_cons_cons]
  | c :: d :: ds, last, 0, _ => by
    have last_append : ∀ (new x : Text), x.getLast? = (d :: ds).getLast? →
        (new ++ x).getLast? = (c :: d :: ds).getLast? := by
      intro new x hx
      rw [List.getLast?_append, hx, List.getLast?_cons_cons, List.getLast?_cons]
      rfl
    rw [replaceFrom]
    cases hb : (p last).best? (c :: d :: ds) with
    | none => exact last_append [c] _ (getLast?_replaceFrom hp (d :: ds) _ 0 (Nat.succ_pos _))
    | some x =>
      obtain ⟨hs, hne⟩ := hp last c (d :: ds) x.1 x.2 hb
      have hpos := List.length_pos_iff.mpr hne
      have hle := hs.length_le
      exact last_append _ _ (getLast?_replaceFrom hp (d :: ds) _ _ (by omega))

/-- The steps before the double stars keep a digit at the end of a text. -/
theorem plainSigns_concat_digit (hd : isDigit d = true) (s : Text) :
    ∃ y, plainSigns (s ++ [d]) = y ++ [d] := by
  obtain ⟨hg, -, -⟩ := plain_digit hd
  have hlast : (replaceAll crossBetweenDigits ((s ++ [d]).map plainTimes)).getLast? = some d := by
    rw [List.map_append, List.map_singleton, plainTimes_self hg]
    refine (getLast?_replaceFrom (fun last c t new r h => ?_) _ none 0 (by simp)).trans
      List.getLast?_concat
    -- A digit follows an X that is read.
    have hm := mem_of_best? h
    obtain ⟨u, he, -, hu, -⟩ := reads_crossBetweenDigits _ _ _ _ hm
    obtain ⟨e, u, rfl⟩ := List.exists_cons_of_ne_nil hu
    obtain ⟨-, rfl⟩ := List.cons.inj he
    refine ⟨List.suffix_append _ _, ?_⟩
    simp only [crossBetweenDigits, mem_bind, mem_pure, mem_before] at hm
    obtain ⟨_, _, _, _, _, _, _, _, _, _, _, _, _, _, ⟨rfl, _, _, rfl, _⟩, _, rfl⟩ := hm
    exact List.cons_ne_nil _ _
  obtain ⟨y, hy⟩ := List.getLast?_eq_some_iff.mp hlast
  exact ⟨y.map plainSign, by rw [plainSigns, hy, List.map_append, List.map_singleton, plainSign_self hg]⟩

theorem plainSigns_cons_digit (he : isDigit e = true) (t : Text) :
    ∃ y, plainSigns (e :: t) = e :: y := by
  obtain ⟨hg, -, -⟩ := plain_digit he
  have hbest : (crossBetweenDigits none).best? (e :: t.map plainTimes) = none := rfl
  refine ⟨(replaceFrom crossBetweenDigits (some e) 0 (t.map plainTimes)).map plainSign, ?_⟩
  rw [plainSigns, List.map_cons, plainTimes_self hg, replaceAll, replaceFrom, hbest]
  exact congrArg (· :: _) (plainSign_self hg)

theorem plainStars_concat (hd : d ≠ '*') (t : Text) : plainStars (t ++ [d]) = plainStars t ++ [d] :=
  plainStars_cons hd t []

/-- A star between digits, however far apart, comes near no other star. -/
theorem plain_product (hd : isDigit d = true) (he : isDigit e = true)
    (hw : ∀ b ∈ w, isBlank b = true) (hw' : ∀ b ∈ w', isBlank b = true) (s t : Text) :
    plain (s ++ d :: (w ++ '*' :: (w' ++ e :: t))) = plain (s ++ [d]) ++ '*' :: plain (e :: t) := by
  obtain ⟨y, hy⟩ := plainSigns_concat_digit hd s
  obtain ⟨z, hz⟩ := plainSigns_cons_digit he t
  obtain ⟨-, -, hstar⟩ := plain_digit hd
  have none : ∀ b ∈ ([] : Text), isBlank b = true := fun _ h => absurd h List.not_mem_nil
  have hleft : plainSigns (s ++ d :: w) = y ++ d :: w := by
    have := plainSigns_blanks none hw (s ++ [d])
    rw [hy] at this
    simpa using this
  have hright : plainSigns (w' ++ e :: t) = w' ++ e :: z := by
    have := plainSigns_blanks hw' none (e :: t)
    rw [hz] at this
    simpa using this
  have hsigns : plainSigns (s ++ d :: (w ++ '*' :: (w' ++ e :: t))) =
      y ++ d :: (w ++ '*' :: (w' ++ e :: z)) := by
    have := plainSigns_inert (b := '*') (by decide) (s ++ d :: w) (w' ++ e :: t)
    rw [hleft, hright] at this
    simpa using this
  have hhead : (w' ++ e :: z).head? ≠ some '*' := by
    cases w' with
    | nil => simpa using (plain_digit he).2.2
    | cons b w' =>
      intro h
      have hb := hw' b List.mem_cons_self
      rw [Option.some.inj h] at hb
      exact absurd hb (by decide)
  have hstars : plainStars (y ++ d :: (w ++ '*' :: (w' ++ e :: z))) =
      plainStars (y ++ [d]) ++ (w ++ '*' :: (w' ++ plainStars (e :: z))) := by
    have hl := plainStars_blanks hw none ('*' :: (w' ++ e :: z))
    have hr := plainStars_blanks hw' none (e :: z)
    rw [List.append_nil, List.append_nil] at hl hr
    rw [plainStars_cons hstar, hl, plainStars_star hhead, hr, plainStars_concat hstar,
      List.append_assoc]
    rfl
  have hblanks : ∀ {v : Text}, (∀ b ∈ v, isBlank b = true) →
      removeBlanks (v.flatMap plainGlyph) = [] := by
    intro v hv
    rw [flatMap_plainGlyph_self fun c hc => not_mem_glyphs_of_isBlank (hv c hc),
      removeBlanks_eq_nil hv]
  have hplain : ∀ u, plain u = removeBlanks ((plainStars (plainSigns u)).flatMap plainGlyph) :=
    fun _ => rfl
  rw [hplain, hplain, hplain, hsigns, hstars, hy, hz, List.flatMap_append, removeBlanks_append,
    List.flatMap_append, removeBlanks_append, hblanks hw, List.flatMap_cons, removeBlanks_append,
    List.flatMap_append, removeBlanks_append, hblanks hw']
  rfl

/-- **Blanks around an operator between digits make no difference.** -/
theorem plain_operation (hop : op ∈ "+-*/^".toList) (hd : isDigit d = true) (he : isDigit e = true)
    (hw : ∀ b ∈ w, isBlank b = true) (hw' : ∀ b ∈ w', isBlank b = true) (s t : Text) :
    plain (s ++ d :: (w ++ op :: (w' ++ e :: t))) = plain (s ++ d :: op :: e :: t) := by
  have none : ∀ b ∈ ([] : Text), isBlank b = true := fun _ h => absurd h List.not_mem_nil
  by_cases hs : op = '*'
  · subst hs
    have htight := plain_product hd he none none s t
    rw [List.nil_append, List.nil_append] at htight
    rw [plain_product hd he hw hw', htight]
  · have hinert : op ≠ '*' → Inert op := by
      refine forall_mem_of_all (p := fun op => op ≠ '*' → Inert op) (by decide) op hop
    have hsplit := plain_inert (hinert hs) hs (s ++ d :: w) (w' ++ e :: t)
    have htight := plain_inert (hinert hs) hs (s ++ [d]) (e :: t)
    have hleft := plain_blanks_right hw (s ++ [d])
    rw [List.append_assoc, List.singleton_append] at hleft
    rw [hleft, plain_blanks_left hw', ← htight] at hsplit
    simpa using hsplit

/-! ## Brackets -/

theorem roundBracket_cases (c : Char) : roundBracket c = c ∨ c ∈ ['[', ']', '\x7b', '\x7d'] := by
  unfold roundBracket
  split
  next h => rcases h with rfl | rfl <;> exact .inr (by decide)
  · split
    next h => rcases h with rfl | rfl <;> exact .inr (by decide)
    · exact .inl rfl

/-- **Brackets may become round beforehand.** -/
theorem plain_map_roundBracket (t : Text) : plain (t.map roundBracket) = plain t := by
  have key : ∀ t s : Text, plain (s ++ t.map roundBracket) = plain (s ++ t) := by
    intro t
    induction t with
    | nil => exact fun s => rfl
    | cons c cs ih =>
      intro s
      rw [List.map_cons]
      rcases roundBracket_cases c with hc | hc
      · have := ih (s ++ [c])
        rw [List.append_assoc, List.append_assoc] at this
        rw [hc]
        exact this
      · have hbracket : Inert c ∧ c ≠ '*' ∧ Inert (roundBracket c) ∧ roundBracket c ≠ '*' ∧
            plainGlyph (roundBracket c) = plainGlyph c :=
          forall_mem_of_all (p := fun c => Inert c ∧ c ≠ '*' ∧ Inert (roundBracket c) ∧
            roundBracket c ≠ '*' ∧ plainGlyph (roundBracket c) = plainGlyph c) (by decide) c hc
        obtain ⟨hi, hs, hi', hs', hg⟩ := hbracket
        have hrest := ih []
        rw [List.nil_append, List.nil_append] at hrest
        rw [plain_inert hi hs, plain_inert hi' hs', hg, hrest]
  exact key t []

end Stepwise.Phrase
