import Stepwise.Proofs.Idempotence

/-!
# Squeezed texts

How the blanks of a text are squeezed can be said piece by piece: a piece that does not end in a blank
is squeezed on its own (`squeeze_append`), and a run of blanks becomes a space.

Results: `suffix_squeeze`, the end pieces of a squeezed text are squeezed end pieces;
`getLast?_squeeze`; and `collapse_between`, a text between two others.
-/

namespace Stepwise.Text

open Phrase

/-- The text does not end in a blank. -/
def NoBlankEnd (t : Text) : Prop := ∀ c, t.getLast? = some c → isBlank c = false

/-- The text ends in a blank. -/
def EndsBlank (t : Text) : Prop := ∃ s b, t = s ++ [b] ∧ isBlank b = true

variable {s t w : Text}

theorem EndsBlank.append (h : EndsBlank t) (s : Text) : EndsBlank (s ++ t) := by
  obtain ⟨v, b, rfl, hb⟩ := h
  exact ⟨s ++ v, b, (List.append_assoc _ _ _).symm, hb⟩

theorem EndsBlank.not_noBlankEnd (h : EndsBlank t) : ¬NoBlankEnd t := by
  obtain ⟨s, b, rfl, hb⟩ := h
  intro hn
  exact Bool.false_ne_true ((hn b List.getLast?_concat).symm.trans hb)

theorem NoBlankEnd.of_suffix (h : NoBlankEnd t) (hs : s <:+ t) : NoBlankEnd s := by
  obtain ⟨w, rfl⟩ := hs
  intro c hc
  exact h c (by rw [List.getLast?_append, hc]; rfl)

theorem squeeze_append_singleton {d : Char} (hd : isBlank d = false) (t : Text) :
    squeeze (t ++ [d]) = squeeze t ++ [d] := by
  fun_induction squeeze t with
  | case1 => simp [squeeze, hd]
  | case2 c h => simp [squeeze, h, hd]
  | case3 c h e es he ih => simpa [squeeze, h, he] using ih
  | case4 c h e es he ih => simpa [squeeze, h, he] using ih
  | case5 c cs h ih => simp [squeeze, h, ih]

theorem squeeze_cons_of_not_blank {c : Char} (h : ¬isBlank c = true) (cs : Text) :
    squeeze (c :: cs) = c :: squeeze cs := by
  rw [squeeze.eq_def]
  exact if_neg h

/-- The blanks of a squeezed text are spaces, and no two are next to each other. -/
theorem blank_suffix_squeeze (t : Text) : ∀ w, w <:+ squeeze t → (∀ c ∈ w, isBlank c = true) →
    w = [] ∨ w = [' '] := by
  fun_induction squeeze t with
  | case1 => exact fun w hw _ => .inl (List.suffix_nil.mp hw)
  | case2 c h =>
    intro w hw _
    rcases List.suffix_cons_iff.mp hw with h | h
    · exact .inr h
    · exact .inl (List.suffix_nil.mp h)
  | case3 c h d ds hd ih => exact ih
  | case4 c h d ds hd ih =>
    intro w hw hb
    rcases List.suffix_cons_iff.mp hw with rfl | hw
    · refine absurd (hb d ?_) hd
      rw [squeeze_cons_of_not_blank hd]
      exact List.mem_cons_of_mem _ List.mem_cons_self
    · exact ih w hw hb
  | case5 c cs h ih =>
    intro w hw hb
    rcases List.suffix_cons_iff.mp hw with rfl | hw
    · exact absurd (hb c List.mem_cons_self) h
    · exact ih w hw hb

theorem blank_not_mem_squeeze {d : Char} (hd : isBlank d = true) (hs : d ≠ ' ') (t : Text) :
    d ∉ squeeze t := by
  fun_induction squeeze t with
  | case1 => exact List.not_mem_nil
  | case2 c h => simpa using hs
  | case3 c h e es he ih => exact ih
  | case4 c h e es he ih => simpa using ⟨hs, ih⟩
  | case5 c cs h ih =>
    have : d ≠ c := by
      rintro rfl
      exact h hd
    simpa using ⟨this, ih⟩

theorem dropWhile_append_singleton {q : Char → Bool} {c : Char} (hc : q c = false) :
    ∀ t : Text, (t ++ [c]).dropWhile q = t.dropWhile q ++ [c]
  | [] => by simp [hc]
  | d :: ds => by
    by_cases hd : q d = true
    · simpa [hd] using dropWhile_append_singleton hc ds
    · simp [hd]

/-- A piece that does not end in a blank is squeezed on its own. -/
theorem squeeze_append (h : NoBlankEnd s) (t : Text) : squeeze (s ++ t) = squeeze s ++ squeeze t := by
  fun_induction squeeze s with
  | case1 => rfl
  | case2 c hc => exact absurd hc (by rw [h c rfl]; decide)
  | case3 c hc d ds hd ih => simpa [squeeze, hc, hd] using ih (h.of_suffix (List.suffix_cons _ _))
  | case4 c hc d ds hd ih => simpa [squeeze, hc, hd] using ih (h.of_suffix (List.suffix_cons _ _))
  | case5 c cs hc ih => simp [squeeze, hc, ih (h.of_suffix (List.suffix_cons _ _))]

/-- A run of blanks becomes a space. -/
theorem squeeze_blanks {c : Char} (hc : ¬isBlank c = true) : ∀ {w : Text}, w ≠ [] →
    (∀ b ∈ w, isBlank b = true) → squeeze (w ++ c :: t) = ' ' :: squeeze (c :: t)
  | [b], _, hb => by
    have hb : isBlank b = true := hb b List.mem_cons_self
    rw [List.singleton_append, squeeze.eq_def]
    simp [hb, hc]
  | b :: d :: w, _, hb => by
    obtain ⟨hb, hw⟩ := List.forall_mem_cons.mp hb
    have hd : isBlank d = true := hw d List.mem_cons_self
    have ih : squeeze (d :: w ++ c :: t) = ' ' :: squeeze (c :: t) :=
      squeeze_blanks hc (List.cons_ne_nil _ _) hw
    rw [List.cons_append, List.cons_append, squeeze.eq_def]
    simpa [hb, hd] using ih

/-- The blanks in front of a text become a space. -/
theorem squeeze_cons_of_blank {b : Char} (hb : isBlank b = true) (t : Text) :
    squeeze (b :: t) = ' ' :: squeeze (t.dropWhile isBlank) := by
  induction t generalizing b with
  | nil => simp [squeeze, hb]
  | cons c cs ih =>
    by_cases hc : isBlank c = true
    · rw [squeeze.eq_def, List.dropWhile_cons_of_pos hc, ← ih hc]
      simp [hb, hc]
    · rw [squeeze.eq_def, List.dropWhile_cons_of_neg hc]
      simp [hb, hc]

theorem mem_of_mem_squeeze {c : Char} (hc : isBlank c = false) (h : c ∈ squeeze t) : c ∈ t := by
  have : c ∈ removeBlanks (squeeze t) := List.mem_filter.mpr ⟨h, by rw [hc]; rfl⟩
  rw [removeBlanks_squeeze] at this
  exact (List.mem_filter.mp this).1

/-- The end pieces of a squeezed text are squeezed end pieces. -/
theorem suffix_squeeze (t : Text) : ∀ {s}, s <:+ squeeze t → ∃ r, r <:+ t ∧ s = squeeze r := by
  fun_induction squeeze t with
  | case1 =>
    intro s hs
    exact ⟨[], List.suffix_refl _, List.suffix_nil.mp hs⟩
  | case2 c h =>
    intro s hs
    rcases List.suffix_cons_iff.mp hs with rfl | hs
    · exact ⟨[c], List.suffix_refl _, by simp [squeeze, h]⟩
    · exact ⟨[], List.nil_suffix, List.suffix_nil.mp hs⟩
  | case3 c h d ds hd ih =>
    intro s hs
    obtain ⟨r, hr, he⟩ := ih hs
    exact ⟨r, hr.trans (List.suffix_cons _ _), he⟩
  | case4 c h d ds hd ih =>
    intro s hs
    rcases List.suffix_cons_iff.mp hs with rfl | hs
    · refine ⟨c :: d :: ds, List.suffix_refl _, ?_⟩
      exact (squeeze_blanks hd (List.cons_ne_nil c []) (by simpa using h)).symm
    · obtain ⟨r, hr, he⟩ := ih hs
      exact ⟨r, hr.trans (List.suffix_cons _ _), he⟩
  | case5 c cs h ih =>
    intro s hs
    rcases List.suffix_cons_iff.mp hs with rfl | hs
    · exact ⟨c :: cs, List.suffix_refl _, (squeeze_cons_of_not_blank h cs).symm⟩
    · obtain ⟨r, hr, he⟩ := ih hs
      exact ⟨r, hr.trans (List.suffix_cons _ _), he⟩

/-- The last character of a text is that of the squeezed text, unless it is a blank. -/
theorem getLast?_squeeze (t : Text) :
    (squeeze t).getLast? = t.getLast?.map fun c => if isBlank c then ' ' else c := by
  rcases List.eq_nil_or_concat t with rfl | ⟨s, c, rfl⟩
  · rfl
  · rw [List.concat_eq_append, List.getLast?_concat, Option.map_some]
    by_cases hc : isBlank c = true
    · rw [if_pos hc]
      induction s with
      | nil => simp [squeeze, hc]
      | cons d ds ih =>
        obtain ⟨e, es, he⟩ : ∃ e es, ds ++ [c] = e :: es :=
          List.exists_cons_of_ne_nil (by simp)
        rw [he] at ih
        rw [List.cons_append, he, squeeze.eq_def]
        dsimp only
        split
        · split
          · exact ih
          · rw [List.getLast?_cons, ih]
            rfl
        · rw [List.getLast?_cons, ih]
          rfl
    · have hb : isBlank c = false := Bool.eq_false_iff.mpr hc
      rw [if_neg hc, squeeze_append_singleton hb, List.getLast?_concat]

/-- Blanks are cut off a text at both ends. -/
theorem trim_split (t : Text) : ∃ l r, t = l ++ (trim t ++ r) ∧ (∀ c ∈ l, isBlank c = true) ∧
    ∀ c ∈ r, isBlank c = true := by
  obtain ⟨r, he, hr⟩ := dropEndWhile_append isBlank (t.dropWhile isBlank)
  refine ⟨t.takeWhile isBlank, r, ?_, fun c hc => ?_, hr⟩
  · rw [trim, ← he, List.takeWhile_append_dropWhile]
  · exact List.all_eq_true.mp List.all_takeWhile c hc

theorem noBlankEnd_trim (t : Text) : NoBlankEnd (trim t) := fun _ hc => getLast?_dropEndWhile hc

theorem trim_ne_nil (h : allBlank t = false) : trim t ≠ [] := by
  intro hn
  obtain ⟨l, r, he, hl, hr⟩ := trim_split t
  rw [hn, List.nil_append] at he
  have : allBlank t = true := by
    rw [allBlank, List.all_eq_true, he]
    exact List.forall_mem_append.mpr ⟨hl, hr⟩
  rw [h] at this
  exact Bool.false_ne_true this

/-- A trimmed text does not start with a blank. -/
theorem head_trim {c : Char} {cs : Text} (h : trim t = c :: cs) : ¬isBlank c = true := by
  obtain ⟨r, he, -⟩ := dropEndWhile_append isBlank (t.dropWhile isBlank)
  have hd : t.dropWhile isBlank = c :: (cs ++ r) := by
    rw [he]
    exact congrArg (· ++ r) h
  have := List.head?_dropWhile_not isBlank t
  rw [hd] at this
  simpa using this

/-- The text starts with a character that is no blank, and does not end in a blank. -/
structure Tight (t : Text) : Prop where
  head : ∃ c cs, t = c :: cs ∧ ¬isBlank c = true
  last : NoBlankEnd t

theorem Tight.trim_eq (h : Tight t) : trim t = t := by
  obtain ⟨c, cs, rfl, hc⟩ := h.head
  rw [trim, List.dropWhile_cons_of_neg hc]
  exact dropEndWhile_of_getLast h.last

theorem tight_trim (h : allBlank t = false) : Tight (trim t) := by
  obtain ⟨c, cs, he⟩ := List.exists_cons_of_ne_nil (trim_ne_nil h)
  exact ⟨⟨c, cs, he, head_trim he⟩, noBlankEnd_trim t⟩

theorem Tight.append (hs : Tight s) (ht : Tight t) (w : Text) : Tight (s ++ (w ++ t)) := by
  obtain ⟨c, cs, rfl, hc⟩ := hs.head
  obtain ⟨d, ds, rfl, -⟩ := ht.head
  refine ⟨⟨c, cs ++ (w ++ d :: ds), rfl, hc⟩, fun e he => ht.last e ?_⟩
  rw [List.getLast?_append, List.getLast?_append, List.getLast?_cons] at he
  rwa [List.getLast?_cons]

theorem Tight.squeeze (h : Tight t) : Tight (squeeze t) := by
  obtain ⟨c, cs, rfl, hc⟩ := h.head
  refine ⟨⟨c, Text.squeeze cs, squeeze_cons_of_not_blank hc cs, hc⟩, fun d hd => ?_⟩
  rw [getLast?_squeeze] at hd
  obtain ⟨e, he, rfl⟩ := Option.map_eq_some_iff.mp hd
  have hb := h.last e he
  rwa [if_neg (by rw [hb]; decide)]

/-- The blanks of a text in front of another one. -/
theorem squeeze_tight {c : Char} (hs : allBlank s = false) (hc : ¬isBlank c = true) :
    ∃ w, (∀ b ∈ w, isBlank b = true) ∧
      squeeze (s ++ ' ' :: c :: t) = w ++ (squeeze (trim s) ++ ' ' :: squeeze (c :: t)) := by
  have space : isBlank ' ' = true := by decide
  obtain ⟨l, r, he, hl, hr⟩ := trim_split s
  obtain ⟨d, ds, hd, hdb⟩ := (tight_trim hs).head
  have right : squeeze (trim s ++ (r ++ ' ' :: c :: t)) =
      squeeze (trim s) ++ ' ' :: squeeze (c :: t) := by
    have hblanks := squeeze_blanks hc (w := r ++ [' ']) (t := t) (by simp)
      (List.forall_mem_append.mpr ⟨hr, by simpa using space⟩)
    rw [List.append_assoc, List.singleton_append] at hblanks
    rw [squeeze_append (tight_trim hs).last, hblanks]
  have hsplit : s ++ ' ' :: c :: t = l ++ (trim s ++ (r ++ ' ' :: c :: t)) := by
    conv => lhs; rw [he]
    simp
  rw [hsplit]
  by_cases hn : l = []
  · exact ⟨[], fun _ h => absurd h List.not_mem_nil, by rw [hn, List.nil_append, right]; rfl⟩
  · refine ⟨[' '], by simpa using space, ?_⟩
    have hlead := squeeze_blanks hdb (t := ds ++ (r ++ ' ' :: c :: t)) hn hl
    rw [← List.cons_append, ← hd, right] at hlead
    exact hlead

/-- The blanks of a text between two others. -/
theorem collapse_between (hs : Tight s) (ht : Tight t) (hw : allBlank w = false) :
    trim (squeeze (s ++ ' ' :: (w ++ ' ' :: t))) =
      squeeze s ++ ' ' :: (squeeze (trim w) ++ ' ' :: squeeze t) := by
  have space : isBlank ' ' = true := by decide
  obtain ⟨l, r, he, hl, hr⟩ := trim_split w
  have hcore := tight_trim hw
  obtain ⟨c, cs, hc, hcb⟩ := hcore.head
  obtain ⟨d, ds, rfl, hd⟩ := ht.head
  have right : squeeze (r ++ ' ' :: d :: ds) = ' ' :: squeeze (d :: ds) := by
    have := squeeze_blanks hd (w := r ++ [' ']) (t := ds) (by simp)
      (List.forall_mem_append.mpr ⟨hr, by simpa using space⟩)
    rwa [List.append_assoc] at this
  have left : squeeze (' ' :: (w ++ ' ' :: d :: ds)) =
      ' ' :: (squeeze (trim w) ++ ' ' :: squeeze (d :: ds)) := by
    have hsplit : ' ' :: (w ++ ' ' :: d :: ds) =
        (' ' :: l) ++ c :: (cs ++ (r ++ ' ' :: d :: ds)) := by
      conv => lhs; rw [he, hc]
      simp
    have hb : ∀ b ∈ ' ' :: l, isBlank b = true := List.forall_mem_cons.mpr ⟨space, hl⟩
    rw [hsplit, squeeze_blanks hcb (List.cons_ne_nil _ _) hb, ← List.cons_append, ← hc,
      squeeze_append hcore.last, right]
  rw [squeeze_append hs.last, left]
  have tight : Tight (squeeze s ++ (' ' :: (squeeze (trim w) ++ [' ']) ++ squeeze (d :: ds))) :=
    hs.squeeze.append ht.squeeze _
  simpa using tight.trim_eq

end Stepwise.Text
