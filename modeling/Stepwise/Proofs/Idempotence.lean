import Stepwise.Proofs.Lifting

/-!
# When the canonical form of a canonical text is itself

The rules do not look into what they have written: a body in brackets may hold another operator, and
the letters of two pieces may come together when blanks are removed. `Leftover` lists what a rule
would rewrite if it was given a canonical text.

Results: `canonicalForm_canonical`, what no canonical text holds; `canonical_canonical_iff`, a
canonical text is its own canonical form if and only if there is nothing left over in it; and
`canonical_not_idempotent`, a nested derivative.
-/

namespace Stepwise.Phrase

open Text Pattern

variable {t : Text}

/-- What the rules would still rewrite in a text without blanks and glyphs. -/
inductive Leftover (t : Text) : Prop
  /-- The first operator `d/dV` before a bracket, which is closed. -/
  | operator (h : FirstClosed t)
  /-- An integral sign with something after it. -/
  | integralSign {a b : Text} {c : Char} (h : t = a ++ '∫' :: c :: b)
  /-- The short call of an integral. -/
  | shortIntegral {a b : Text} (h : t = a ++ "int(".toList ++ b)
      (hb : atBoundary a.getLast? = true)
  /-- An X between digits. -/
  | cross {a b : Text} {d x e : Char} (h : t = a ++ d :: x :: e :: b) (hd : isDigit d = true)
      (hx : x = 'x' ∨ x = 'X') (he : isDigit e = true)
  | doubleStar {a b : Text} (h : t = a ++ '*' :: '*' :: b)

/-! ## Where a pattern is read -/

theorem getLast?_cons_or (c : Char) (a : Text) (last : Option Char) :
    (c :: a).getLast?.or last = a.getLast?.or (some c) := by
  rw [List.getLast?_cons]
  cases a.getLast? <;> rfl

/-- A pattern is read at some place, where it is told the character before. -/
theorem readsFrom_iff {α : Type} {p : Option Char → Pattern α} : ∀ {t : Text} {last : Option Char},
    ReadsFrom p last t ↔
      ∃ a c s, t = a ++ c :: s ∧ (p (a.getLast?.or last)).best? (c :: s) ≠ none
  | [], last => by
    constructor
    · exact False.elim
    · rintro ⟨a, c, s, h, -⟩
      exact absurd h.symm (by simp)
  | d :: ds, last => by
    unfold ReadsFrom
    rw [readsFrom_iff]
    constructor
    · rintro (h | ⟨a, c, s, rfl, h⟩)
      · exact ⟨[], d, ds, rfl, h⟩
      · refine ⟨d :: a, c, s, rfl, ?_⟩
        rwa [getLast?_cons_or]
    · rintro ⟨a, c, s, he, h⟩
      cases a with
      | nil =>
        obtain ⟨rfl, rfl⟩ := List.cons.inj he
        exact .inl h
      | cons d' a =>
        obtain ⟨rfl, rfl⟩ := List.cons.inj he
        refine .inr ⟨a, c, s, rfl, ?_⟩
        rwa [getLast?_cons_or] at h

theorem readsFrom_none_iff {α : Type} {p : Option Char → Pattern α} {t : Text} :
    ReadsFrom p none t ↔ ∃ a c s, t = a ++ c :: s ∧ (p a.getLast?).best? (c :: s) ≠ none := by
  rw [readsFrom_iff]
  simp only [Option.or_none]

theorem mem_signWithDifferential {s new r : Text} (hs : Blankless s)
    (h : (new, r) ∈ signWithDifferential s) : ∃ c b, s = '∫' :: c :: b := by
  simp only [signWithDifferential, mem_bind, mem_literal] at h
  obtain ⟨_, s', rfl, _, _, hb, _, _, hbody, -⟩ := h
  obtain ⟨-, rfl⟩ := (mem_blanks (Blankless.append_iff.mp hs).2).mp hb
  obtain ⟨rfl, hne⟩ := mem_few1 hbody
  obtain ⟨c, b, rfl⟩ := List.exists_cons_of_ne_nil hne
  exact ⟨c, _, rfl⟩

theorem mem_openIntegral {s new r : Text} (hs : Blankless s) (h : (new, r) ∈ openIntegral s) :
    ∃ c b, s = '∫' :: c :: b := by
  simp only [openIntegral, mem_bind, mem_literal] at h
  obtain ⟨_, s', rfl, _, _, hb, _, _, hbody, -⟩ := h
  obtain ⟨-, rfl⟩ := (mem_blanks (Blankless.append_iff.mp hs).2).mp hb
  obtain ⟨rfl, hne⟩ := mem_many1 hbody
  obtain ⟨c, b, rfl⟩ := List.exists_cons_of_ne_nil hne
  exact ⟨c, _, rfl⟩

/-- There are no line breaks where there are no blanks, so that an integral sign takes the rest. -/
theorem openIntegral_ne_none {c : Char} {b : Text} (hs : Blankless ('∫' :: c :: b)) :
    openIntegral.best? ('∫' :: c :: b) ≠ none := by
  have ht := (Blankless.cons_iff.mp hs).2
  have hl : ∀ d ∈ c :: b, inLine d = true := by
    intro d hd
    refine bne_iff_ne.mpr ?_
    rintro rfl
    exact absurd (ht _ hd) (by decide)
  refine best?_ne_none.mpr ⟨calculusCall integralName (c :: b) none, [], ?_⟩
  simp only [openIntegral, mem_bind, mem_literal, mem_pure, mem_atEnd]
  exact ⟨(), c :: b, rfl, [], c :: b, (mem_blanks ht).mpr ⟨rfl, rfl⟩, c :: b, [],
    mem_many1_all hl, (), [], ⟨rfl, .inl rfl⟩, rfl, rfl⟩

/-- An integral sign is read as soon as something follows it. -/
theorem readsFrom_integralSign (ht : Blankless t) :
    ReadsFrom (fun _ => signWithDifferential) none t ∨ ReadsFrom (fun _ => openIntegral) none t ↔
      ∃ a b c, t = a ++ '∫' :: c :: b := by
  rw [readsFrom_none_iff, readsFrom_none_iff]
  constructor
  · rintro (⟨a, c, s, rfl, h⟩ | ⟨a, c, s, rfl, h⟩)
    · obtain ⟨new, r, h⟩ := best?_ne_none.mp h
      obtain ⟨d, b, hs⟩ := mem_signWithDifferential (Blankless.append_iff.mp ht).2 h
      exact ⟨a, b, d, congrArg (a ++ ·) hs⟩
    · obtain ⟨new, r, h⟩ := best?_ne_none.mp h
      obtain ⟨d, b, hs⟩ := mem_openIntegral (Blankless.append_iff.mp ht).2 h
      exact ⟨a, b, d, congrArg (a ++ ·) hs⟩
  · rintro ⟨a, b, c, rfl⟩
    exact .inr ⟨a, '∫', c :: b, rfl, openIntegral_ne_none (Blankless.append_iff.mp ht).2⟩

theorem readsFrom_shortIntegral (ht : Blankless t) :
    ReadsFrom shortIntegral none t ↔
      ∃ a b, t = a ++ "int(".toList ++ b ∧ atBoundary a.getLast? = true := by
  rw [readsFrom_none_iff]
  constructor
  · rintro ⟨a, c, s, rfl, h⟩
    obtain ⟨new, r, h⟩ := best?_ne_none.mp h
    simp only [shortIntegral, mem_bind, mem_literal, mem_guard] at h
    obtain ⟨_, _, ⟨rfl, hg⟩, _, s', hs, _, _, hb, _, r, rfl, -⟩ := h
    rw [hs] at ht ⊢
    obtain ⟨-, rfl⟩ := (mem_blanks (Blankless.append_iff.mp (Blankless.append_iff.mp ht).2).2).mp hb
    exact ⟨a, r, by simp, hg⟩
  · rintro ⟨a, b, rfl, hg⟩
    refine ⟨a, 'i', ['n', 't', '('] ++ b, by simp, best?_ne_none.mpr ⟨integralName ++ ['('], b, ?_⟩⟩
    have hb : Blankless ('(' :: b) := ht.of_suffix ⟨a ++ ['i', 'n', 't'], by simp⟩
    simp only [shortIntegral, mem_bind, mem_literal, mem_guard, mem_pure]
    exact ⟨(), _, ⟨rfl, hg⟩, (), '(' :: b, rfl, [], '(' :: b, (mem_blanks hb).mpr ⟨rfl, rfl⟩, (), b,
      rfl, trivial, rfl⟩

theorem readsFrom_cross (ht : Blankless t) :
    ReadsFrom crossBetweenDigits none t ↔ ∃ a b d x e, t = a ++ d :: x :: e :: b ∧
      isDigit d = true ∧ (x = 'x' ∨ x = 'X') ∧ isDigit e = true := by
  rw [readsFrom_none_iff]
  constructor
  · rintro ⟨a, c, s, rfl, h⟩
    obtain ⟨new, r, h⟩ := best?_ne_none.mp h
    have hs := (Blankless.append_iff.mp ht).2
    simp only [crossBetweenDigits, mem_bind, mem_one, mem_guard, mem_before] at h
    obtain ⟨_, _, ⟨rfl, hl⟩, _, _, hb, x, r, ⟨rfl, hx⟩, _, _, hb', _, _, ⟨-, e, b, rfl, he⟩, -⟩ := h
    obtain ⟨-, h⟩ := (mem_blanks hs).mp hb
    obtain ⟨rfl, rfl⟩ := List.cons.inj h
    obtain ⟨-, rfl⟩ := (mem_blanks (Blankless.cons_iff.mp hs).2).mp hb'
    obtain ⟨d, hlast, hd⟩ := (Option.any_eq_true _ _).mp hl
    obtain ⟨a, rfl⟩ := List.getLast?_eq_some_iff.mp hlast
    rw [Bool.or_eq_true, beq_iff_eq, beq_iff_eq] at hx
    exact ⟨a, b, d, x, e, by simp, hd, hx, he⟩
  · rintro ⟨a, b, d, x, e, rfl, hd, hx, he⟩
    have hs : Blankless (x :: e :: b) := ht.of_suffix ⟨a ++ [d], by simp⟩
    refine ⟨a ++ [d], x, e :: b, by simp, best?_ne_none.mpr ⟨['*'], e :: b, ?_⟩⟩
    simp only [crossBetweenDigits, mem_bind, mem_one, mem_guard, mem_before, mem_pure]
    refine ⟨(), _, ⟨rfl, by simp [hd]⟩, [], _, (mem_blanks hs).mpr ⟨rfl, rfl⟩, x, _, ⟨rfl, ?_⟩,
      [], _, (mem_blanks (Blankless.cons_iff.mp hs).2).mpr ⟨rfl, rfl⟩, (), _, ⟨rfl, e, b, rfl, he⟩,
      trivial, rfl⟩
    rw [Bool.or_eq_true, beq_iff_eq, beq_iff_eq]
    exact hx

theorem readsFrom_doubleStar :
    ReadsFrom (fun _ => doubleStar) none t ↔ ∃ a b, t = a ++ '*' :: '*' :: b := by
  rw [readsFrom_none_iff]
  constructor
  · rintro ⟨a, c, s, rfl, h⟩
    obtain ⟨new, r, h⟩ := best?_ne_none.mp h
    simp only [doubleStar, mem_bind, mem_literal] at h
    obtain ⟨_, b, hs, -⟩ := h
    exact ⟨a, b, congrArg (a ++ ·) hs⟩
  · rintro ⟨a, b, rfl⟩
    refine ⟨a, '*', '*' :: b, rfl, best?_ne_none.mpr ⟨['^'], b, ?_⟩⟩
    simp only [doubleStar, mem_bind, mem_literal, mem_pure]
    exact ⟨(), b, rfl, trivial, rfl⟩

/-! ## What a canonical text holds -/

theorem mem_replaceFrom {p : Option Char → Pattern Text} {c : Char} : ∀ {t : Text}
    {last : Option Char} {skip : Nat}, c ∈ replaceFrom p last skip t →
      c ∈ t ∨ ∃ l s new rest, (new, rest) ∈ p l s ∧ c ∈ new
  | [], _, _, h => .inl (by rwa [replaceFrom] at h)
  | d :: ds, _, skip + 1, h => by
    rw [replaceFrom] at h
    exact (mem_replaceFrom h).imp_left (List.mem_cons_of_mem d)
  | d :: ds, last, 0, h => by
    rw [replaceFrom] at h
    split at h
    · rcases List.mem_cons.mp h with rfl | h
      · exact .inl List.mem_cons_self
      · exact (mem_replaceFrom h).imp_left (List.mem_cons_of_mem d)
    next new rest hb =>
      rcases List.mem_append.mp h with h | h
      · exact .inr ⟨last, _, new, rest, mem_of_best? hb, h⟩
      · exact (mem_replaceFrom h).imp_left (List.mem_cons_of_mem d)

theorem mem_replaceAll_cross {c : Char} (h : c ∈ replaceAll crossBetweenDigits t) :
    c ∈ t ∨ c = '*' := by
  refine (mem_replaceFrom h).imp_right ?_
  rintro ⟨l, s, new, rest, hn, hc⟩
  simp only [crossBetweenDigits, mem_bind, mem_pure] at hn
  obtain ⟨_, _, _, _, _, _, _, _, _, _, _, _, _, _, _, rfl, rfl⟩ := hn
  exact List.mem_singleton.mp hc

theorem mem_replaceAll_doubleStar {c : Char} (h : c ∈ replaceAll (fun _ => doubleStar) t) :
    c ∈ t ∨ c = '^' := by
  refine (mem_replaceFrom h).imp_right ?_
  rintro ⟨l, s, new, rest, hn, hc⟩
  simp only [doubleStar, mem_bind, mem_pure] at hn
  obtain ⟨_, _, _, rfl, rfl⟩ := hn
  exact List.mem_singleton.mp hc

theorem plainTimes_not_mem (c : Char) : plainTimes c ∉ timesSigns := by
  unfold plainTimes
  split
  · decide
  next h => exact fun h' => h (List.contains_iff_mem.mpr h')

theorem plainSign_not_mem {c : Char} (h : c ∉ timesSigns) : plainSign c ∉ signGlyphs := by
  unfold plainSign
  split
  · decide
  next hd =>
    split
    · decide
    next hs =>
      intro hm
      rcases List.mem_append.mp hm with hm | hm
      · exact h hm
      · rcases List.mem_cons.mp hm with hm | hm
        · exact hd hm
        · exact hs (List.contains_iff_mem.mpr hm)

theorem plainGlyph_not_mem {c d : Char} (h : c ∉ signGlyphs) (hd : d ∈ plainGlyph c) :
    d ∉ glyphs := by
  have hs : ∀ c ∈ spelledGlyphs, (plainGlyph c).all (fun d => decide (d ∉ glyphs)) = true :=
    forall_mem_of_all (by decide)
  by_cases hc : c ∈ spelledGlyphs
  · exact forall_mem_of_all (hs c hc) d hd
  · rw [plainGlyph_of_not_mem hc] at hd
    obtain rfl := List.mem_singleton.mp hd
    intro hg
    exact (List.mem_append.mp hg).elim h hc

theorem mem_plainGlyphs {c : Char} (h : c ∈ plainGlyphs t) : c ∉ glyphs := by
  obtain ⟨d, hd, hc⟩ := List.mem_flatMap.mp h
  refine plainGlyph_not_mem ?_ hc
  rcases mem_replaceAll_doubleStar hd with hd | rfl
  · obtain ⟨e, he, rfl⟩ := List.mem_map.mp hd
    refine plainSign_not_mem ?_
    rcases mem_replaceAll_cross he with he | rfl
    · obtain ⟨b, -, rfl⟩ := List.mem_map.mp he
      exact plainTimes_not_mem b
    · decide
  · decide

theorem getLast?_dropEndWhile {p : Char → Bool} : ∀ {t : Text} {c : Char},
    (dropEndWhile p t).getLast? = some c → p c = false
  | [], _, h => absurd h (by simp [dropEndWhile])
  | d :: ds, c, h => by
    unfold dropEndWhile at h
    split at h
    · split at h
      · exact absurd h (by simp)
      next hd =>
        obtain rfl := Option.some.inj h
        exact Bool.eq_false_iff.mpr hd
    next e es he =>
      rw [List.getLast?_cons_cons, ← he] at h
      exact getLast?_dropEndWhile h

theorem getLast?_removeBlanks {c : Char} (h : ∀ c, t.getLast? = some c → isBlank c = false)
    (hc : (removeBlanks t).getLast? = some c) : t.getLast? = some c := by
  rcases List.eq_nil_or_concat t with rfl | ⟨a, d, rfl⟩
  · exact hc
  · have hd : isBlank d = false := h d (by simp)
    simpa [removeBlanks, hd] using hc

/-- The last three rules make a canonical text what it is. -/
theorem exists_canonical_eq (t : Text) :
    ∃ s, canonical t = removeBlanks (dropEndWhile endsSentence (plainGlyphs s)) := by
  unfold canonical Rule.all
  simp only [List.foldl_cons, List.foldl_nil, Rule.apply]
  exact ⟨_, rfl⟩

/-- A canonical text has no blanks and no glyphs, and it does not end like a sentence. -/
theorem canonical_spec (t : Text) : Blankless (canonical t) ∧ (∀ c ∈ canonical t, c ∉ glyphs) ∧
    dropEndWhile endsSentence (canonical t) = canonical t := by
  obtain ⟨s, hs⟩ := exists_canonical_eq t
  refine ⟨fun c hc => not_isBlank_of_mem_canonical hc, fun c hc => ?_, ?_⟩
  · rw [hs] at hc
    obtain ⟨w, he, -⟩ := dropEndWhile_append endsSentence (plainGlyphs s)
    refine mem_plainGlyphs (t := s) ?_
    rw [he]
    exact List.mem_append_left _ (List.mem_filter.mp hc).1
  · refine dropEndWhile_of_getLast fun c hc => ?_
    rw [hs] at hc
    have ends : ∀ {d}, (dropEndWhile endsSentence (plainGlyphs s)).getLast? = some d →
        endsSentence d = false := getLast?_dropEndWhile
    refine ends (getLast?_removeBlanks (fun d hd => ?_) hc)
    have := ends hd
    rw [endsSentence, Bool.or_eq_false_iff, Bool.or_eq_false_iff] at this
    exact this.1.1

/-- The signs that a canonical text spells in plain characters. -/
def foreignSigns : Text :=
  ['×', '·', '⋅', '∙', '÷', '−', '‐', '‑', '‒', '–', '—', '﹣', '－', '²', '³', '√', 'π', '∞']

/-- What solving may count on in the text that it is given. -/
structure CanonicalForm (t : Text) : Prop where
  /-- There is no space, tab, line break or any other blank. -/
  blankless : Blankless t
  /-- Operators, powers and constants are written in plain characters. -/
  plain : ∀ c ∈ foreignSigns, c ∉ t
  /-- All brackets are round. -/
  round : ∀ c ∈ ['[', ']', '\x7b', '\x7d'], c ∉ t
  /-- It does not end like a sentence. -/
  unfinished : t.getLast? ≠ some '.' ∧ t.getLast? ≠ some '?'

/-- **Every text is brought into canonical form.** -/
theorem canonicalForm_canonical (raw : Text) : CanonicalForm (canonical raw) := by
  obtain ⟨blankless, unmarked, ending⟩ := canonical_spec raw
  have signs : ∀ c ∈ foreignSigns, c ∈ glyphs := forall_mem_of_all (by decide)
  have brackets : ∀ c ∈ ['[', ']', '\x7b', '\x7d'], c ∈ glyphs := forall_mem_of_all (by decide)
  -- The last character is one that the step for the end of a sentence leaves.
  have last : ∀ c, (canonical raw).getLast? = some c → endsSentence c = false := fun c h =>
    getLast?_dropEndWhile (ending.symm ▸ h)
  exact {
    blankless := blankless
    plain := fun c hc h => unmarked c h (signs c hc)
    round := fun c hc h => unmarked c h (brackets c hc)
    unfinished := ⟨fun h => absurd (last _ h) (by decide), fun h => absurd (last _ h) (by decide)⟩ }

/-! ## The exact condition -/

theorem integrals_eq_iff (ht : Blankless t) : integrals t = t ↔
    ¬(∃ a b c, t = a ++ '∫' :: c :: b) ∧
      ¬∃ a b, t = a ++ "int(".toList ++ b ∧ atBoundary a.getLast? = true := by
  have he : integrals t = inOrder integralSteps t := rfl
  have h₃ : replaceAll (fun _ => integralOf) t = t :=
    NeedsBlank.replaceAll_eq (fun _ => needsBlank_integralOf) ht
  have h₄ : replaceAll (fun _ => integrate) t = t :=
    NeedsBlank.replaceAll_eq (fun _ => needsBlank_integrate) ht
  rw [he, Raises.inOrder_eq_iff ht raises_integralSteps, ← readsFrom_integralSign ht,
    ← readsFrom_shortIntegral ht, ← replaceAll_eq_iff lifts_shortIntegral ht, not_or,
    ← replaceAll_eq_iff (fun _ => lifts_signWithDifferential) ht,
    ← replaceAll_eq_iff (fun _ => lifts_openIntegral) ht]
  simp only [integralSteps, List.forall_mem_cons, h₃, h₄, true_and, and_assoc,
    List.not_mem_nil, false_implies, implies_true, and_true]

theorem plainTimes_self {c : Char} (h : c ∉ glyphs) : plainTimes c = c := by
  refine if_neg fun hm => h ?_
  exact List.mem_append_left _ (List.mem_append_left _ (List.contains_iff_mem.mp hm))

theorem plainSign_self {c : Char} (h : c ∉ glyphs) : plainSign c = c := by
  have hd : c ≠ '÷' := by
    rintro rfl
    exact h (by decide)
  have hs : ¬dashes.contains c = true := fun hm =>
    h (List.mem_append_left _ (List.mem_append_right _
      (List.mem_cons_of_mem _ (List.contains_iff_mem.mp hm))))
  rw [plainSign, if_neg hd, if_neg hs]

theorem flatMap_plainGlyph_self : ∀ {t : Text}, (∀ c ∈ t, c ∉ glyphs) → t.flatMap plainGlyph = t
  | [], _ => rfl
  | c :: cs, h => by
    obtain ⟨hc, hcs⟩ := List.forall_mem_cons.mp h
    rw [List.flatMap_cons, flatMap_plainGlyph_self hcs,
      plainGlyph_of_not_mem fun hm => hc (List.mem_append_right _ hm)]
    rfl

/-- Where there are no glyphs, only the steps for an X and for double stars do anything. -/
theorem plainGlyphs_eq_iff (ht : Blankless t) (hg : ∀ c ∈ t, c ∉ glyphs) : plainGlyphs t = t ↔
    ¬(∃ a b d x e, t = a ++ d :: x :: e :: b ∧ isDigit d = true ∧ (x = 'x' ∨ x = 'X') ∧
      isDigit e = true) ∧ ¬∃ a b, t = a ++ '*' :: '*' :: b := by
  have he : plainGlyphs t = inOrder glyphSteps t := rfl
  have h₁ : t.map plainTimes = t :=
    (List.map_congr_left fun c hc => plainTimes_self (hg c hc)).trans (List.map_id' t)
  have h₃ : t.map plainSign = t :=
    (List.map_congr_left fun c hc => plainSign_self (hg c hc)).trans (List.map_id' t)
  have h₅ : t.flatMap plainGlyph = t := flatMap_plainGlyph_self hg
  rw [he, Raises.inOrder_eq_iff ht raises_glyphSteps, ← readsFrom_cross ht,
    ← readsFrom_doubleStar, ← replaceAll_eq_iff lifts_crossBetweenDigits ht,
    ← replaceAll_eq_iff (fun _ => lifts_doubleStar) ht]
  simp only [glyphSteps, List.forall_mem_cons, h₁, h₃, h₅, true_and,
    List.not_mem_nil, false_implies, implies_true, and_true]

/-- **A canonical text is its own canonical form if and only if nothing is left over in it.** -/
theorem canonical_canonical_iff (t : Text) :
    canonical (canonical t) = canonical t ↔ ¬Leftover (canonical t) := by
  obtain ⟨hb, hg, hs⟩ := canonical_spec t
  generalize canonical t = u at hb hg hs ⊢
  have hd : derivatives u = u ↔ ¬FirstClosed u := by
    rw [derivatives_of_blankless (raises_wrappedDerivatives.blankless hb),
      wrappedDerivatives_eq_iff hb]
  rw [canonical_eq_iff hb]
  constructor
  · rintro h (h' | h' | ⟨h', hl⟩ | ⟨h', hd', hx, he⟩ | h')
    · exact hd.mp (h .derivativePhrasing) h'
    · exact ((integrals_eq_iff hb).mp (h .integralPhrasing)).1 ⟨_, _, _, h'⟩
    · exact ((integrals_eq_iff hb).mp (h .integralPhrasing)).2 ⟨_, _, h', hl⟩
    · exact ((plainGlyphs_eq_iff hb hg).mp (h .operatorGlyphs)).1 ⟨_, _, _, _, _, h', hd', hx, he⟩
    · exact ((plainGlyphs_eq_iff hb hg).mp (h .operatorGlyphs)).2 ⟨_, _, h'⟩
  · intro h r
    cases r with
    | collapseBlanks => rw [Rule.apply, hb.squeeze_eq, hb.trim_eq]
    | stripInstructions => exact instructions_of_blankless hb _
    | derivativePhrasing => exact hd.mpr fun h' => h (.operator h')
    | integralPhrasing =>
      refine (integrals_eq_iff hb).mpr ⟨?_, ?_⟩
      · rintro ⟨a, b, c, h'⟩
        exact h (.integralSign h')
      · rintro ⟨a, b, h', hl⟩
        exact h (.shortIntegral h' hl)
    | limitPhrasing => exact limits_of_blankless hb
    | operatorGlyphs =>
      refine (plainGlyphs_eq_iff hb hg).mpr ⟨?_, ?_⟩
      · rintro ⟨a, b, d, x, e, h', hd', hx, he⟩
        exact h (.cross h' hd' hx he)
      · rintro ⟨a, b, h'⟩
        exact h (.doubleStar h')
    | stripTrailingPeriod => exact hs
    | removeBlanks => exact hb.removeBlanks_eq

/-- The body of an operator is not looked into: the inner one of `d/dx(d/dx(x))` is left over. -/
theorem canonical_not_idempotent :
    canonical "d/dx(d/dx(x))".toList = "diff(d/dx(x),x)".toList ∧
      canonical (canonical "d/dx(d/dx(x))".toList) = "diff(diff(x,x),x)".toList := by
  decide +kernel

end Stepwise.Phrase
