import Stepwise.Proofs.Marks
import Stepwise.Proofs.Squeeze

/-!
# Texts without keywords

A phrasing is recognised by its keyword: a word, the integral sign, or the operator `d/d`. In a text
without keywords (`Keyless`) no phrasing is read, and neither is one across the ends of such a text
when it stands between words with blanks around, as no keyword is cut in two there
(`nowhere_append`).

Results: `Keyless.squeeze` and `Keyless.trim`, blanks bring no keyword; and `Nowhere.bind` and
`Nowhere.after`, a pattern is read nowhere if one of its parts is not.
-/

namespace Stepwise

open Text Pattern

namespace Pattern

variable {α β : Type} {p : Pattern α} {s t : Text}

/-- The pattern is read nowhere in the text. -/
def Nowhere (p : Pattern α) (t : Text) : Prop := ∀ s, s <:+ t → p s = []

theorem nowhere_cons {c : Char} : Nowhere p (c :: t) ↔ p (c :: t) = [] ∧ Nowhere p t := by
  constructor
  · intro h
    exact ⟨h _ (List.suffix_refl _), fun s hs => h s (hs.trans (List.suffix_cons _ _))⟩
  · rintro ⟨hc, ht⟩ s hs
    rcases List.suffix_cons_iff.mp hs with rfl | hs
    · exact hc
    · exact ht s hs

theorem nowhere_nil : Nowhere p [] ↔ p [] = [] := by
  constructor
  · exact fun h => h [] (List.suffix_refl _)
  · rintro h s hs
    rwa [List.suffix_nil.mp hs]

instance decidableNowhere (p : Pattern α) : ∀ t, Decidable (Nowhere p t)
  | [] => decidable_of_iff _ nowhere_nil.symm
  | _ :: t =>
    have := decidableNowhere p t
    decidable_of_iff _ nowhere_cons.symm

theorem Nowhere.of_suffix (h : Nowhere p t) (hs : s <:+ t) : Nowhere p s :=
  fun r hr => h r (hr.trans hs)

theorem Nowhere.bind (h : Nowhere p t) (f : α → Pattern β) : Nowhere (p >>= f) t := by
  intro s hs
  refine List.eq_nil_iff_forall_not_mem.mpr fun x hx => ?_
  obtain ⟨a, r, hr, -⟩ := mem_bind.mp hx
  rw [h s hs] at hr
  exact List.not_mem_nil hr

theorem Nowhere.after {f : α → Pattern β} (hp : LeavesEnd p) (h : ∀ a, Nowhere (f a) t) :
    Nowhere (p >>= f) t := by
  intro s hs
  refine List.eq_nil_iff_forall_not_mem.mpr fun x hx => ?_
  obtain ⟨a, r, hr, hx⟩ := mem_bind.mp hx
  rw [h a r ((hp s a r hr).trans hs)] at hx
  exact List.not_mem_nil hx

theorem Nowhere.replaceAll_eq {p : Option Char → Pattern Text} (h : ∀ last, Nowhere (p last) t) :
    replaceAll p t = t :=
  replaceAll_of_none p t fun l s hs => by rw [best?, h l s hs]; rfl

/-! ## Where two texts meet -/

/-- A reading whose characters satisfy `ok`, the last of which is no blank. -/
def Spells (ok : Char → Bool) (p : Pattern α) : Prop :=
  Reads p fun u _ => (∀ c ∈ u, ok c = true) ∧ ∃ v c, u = v ++ [c] ∧ isBlank c = false

/-- No reading goes over from one text into the next: the first one ends in another kind of
character, or such a character comes first in the next one, apart from blanks. -/
def Apart (ok : Char → Bool) (s t : Text) : Prop :=
  (∃ v c, s = v ++ [c] ∧ ok c = false) ∨
    ∃ w c v, t = w ++ c :: v ∧ (∀ b ∈ w, isBlank b = true) ∧ ok c = false

/-- A reading of both texts ends in the first one. -/
theorem Apart.length_le {ok : Char → Bool} (h : Apart ok s t) {u r : Text} (hs : s ≠ [])
    (he : s ++ t = u ++ r) (hu : ∀ c ∈ u, ok c = true) (hl : ∃ v c, u = v ++ [c] ∧ isBlank c = false) :
    t.length ≤ r.length := by
  rcases List.append_eq_append_iff.mp he with ⟨a, hsu, hta⟩ | ⟨a, hsu, hr⟩
  · -- The reading holds all of the first text, and the piece `a` of the second.
    rcases List.eq_nil_or_concat a with rfl | ⟨a, d, rfl⟩
    · rw [hta]
      exact Nat.le_refl _
    · exfalso
      rcases h with ⟨v, c, rfl, hc⟩ | ⟨w, c, v, rfl, hw, hc⟩
      · rw [hu c (by rw [hsu]; simp)] at hc
        exact Bool.noConfusion hc
      · obtain ⟨v', d', hv', hd'⟩ := hl
        have hdd : d' = d := by
          have : (v' ++ [d']).getLast? = (s ++ a.concat d).getLast? := by rw [← hv', hsu]
          rw [List.concat_eq_append, ← List.append_assoc, List.getLast?_concat,
            List.getLast?_concat] at this
          exact Option.some.inj this
        subst hdd
        rw [List.concat_eq_append] at hta hsu
        rcases List.append_eq_append_iff.mp hta with ⟨b, hwb, hcb⟩ | ⟨b, hwb, hcb⟩
        · cases b with
          | nil =>
            rw [List.append_nil] at hwb
            exact absurd (hw d' (by rw [← hwb]; simp)) (by rw [hd']; decide)
          | cons e b =>
            obtain ⟨rfl, -⟩ := List.cons.inj hcb
            rw [hu c (by rw [hsu, hwb]; simp)] at hc
            exact Bool.noConfusion hc
        · exact absurd (hw d' (by rw [hwb]; simp)) (by rw [hd']; decide)
  · rw [hr, List.length_append]
    exact Nat.le_add_left _ _

theorem Apart.of_suffix {ok : Char → Bool} {r : Text} (h : Apart ok s t) (hr : r <:+ s)
    (hn : r ≠ []) : Apart ok r t := by
  rcases h with ⟨v, c, rfl, hc⟩ | h
  · obtain ⟨w, hw⟩ := hr
    rcases List.eq_nil_or_concat r with rfl | ⟨x, d, rfl⟩
    · exact absurd rfl hn
    · rw [List.concat_eq_append, ← List.append_assoc] at hw
      have hdc : d = c := List.singleton_inj.mp (List.append_inj_right' hw rfl)
      exact .inl ⟨x, c, by rw [List.concat_eq_append, hdc], hc⟩
  · exact .inr h

/-- **A pattern is read nowhere in two texts that are apart if it is in neither of them.** -/
theorem nowhere_append {ok : Char → Bool} (hp : ∀ tail, Steady tail p) (hok : Spells ok p)
    (ha : Apart ok s t) (hs : Nowhere p s) (ht : Nowhere p t) : Nowhere p (s ++ t) := by
  intro r hr
  rcases List.suffix_or_suffix_of_suffix hr (List.suffix_append s t) with h | ⟨r', rfl⟩
  · exact ht r h
  have hr' : r' <:+ s := by
    obtain ⟨w, hw⟩ := hr
    rw [← List.append_assoc] at hw
    exact ⟨w, List.append_cancel_right hw⟩
  by_cases hn : r' = []
  · rw [hn]
    exact ht _ (List.suffix_refl _)
  -- What is read ends in the first text, so it can be read there.
  refine List.eq_nil_iff_forall_not_mem.mpr ?_
  rintro ⟨a, x⟩ hx
  obtain ⟨u, he, hu, hl⟩ := hok _ _ _ hx
  have hle := (ha.of_suffix hr' hn).length_le hn he hu hl
  have hf : (a, x) ∈ (p (r' ++ t)).filter (leaves t) :=
    List.mem_filter.mpr ⟨hx, decide_eq_true hle⟩
  rw [(hp t).filter_eq r', hs r' hr'] at hf
  exact absurd hf List.not_mem_nil

/-! ## Blanks -/

/-- What can be read of a squeezed text can be read of the text. -/
def Unsqueezes (p : Pattern α) : Prop :=
  ∀ t a r, (a, r) ∈ p (squeeze t) → ∃ b r', (b, r') ∈ p t ∧ squeeze r' = r

theorem Unsqueezes.then {p : Pattern α} {q : Pattern β} (hp : Unsqueezes p) (hq : Unsqueezes q) :
    Unsqueezes (p >>= fun _ => q) := by
  intro t b r h
  obtain ⟨a, s, hs, hr⟩ := mem_bind.mp h
  obtain ⟨a', s', hs', rfl⟩ := hp t a s hs
  obtain ⟨b', r', hr', he⟩ := hq s' b r hr
  exact ⟨b', r', mem_bind.mpr ⟨a', s', hs', hr'⟩, he⟩

/-- The character in front of a squeezed text, if it is no blank. -/
theorem squeeze_eq_cons {c : Char} {cs : Text} (h : squeeze t = c :: cs) (hc : isBlank c = false) :
    ∃ ds, t = c :: ds ∧ squeeze ds = cs := by
  cases t with
  | nil => exact absurd h (by simp [squeeze])
  | cons d ds =>
    by_cases hd : isBlank d = true
    · rw [squeeze_cons_of_blank hd] at h
      rw [← (List.cons.inj h).1] at hc
      exact absurd hc (by decide)
    · rw [squeeze_cons_of_not_blank hd] at h
      obtain ⟨rfl, rfl⟩ := List.cons.inj h
      exact ⟨ds, rfl, rfl⟩

theorem isBlank_of_sameLetter {q c : Char} (hq : isLetter q = true) (h : sameLetter q c = true) :
    isBlank c = false := by
  cases hb : isBlank c with
  | false => rfl
  | true =>
    -- A blank is its own lower case, and no variant of a letter.
    have blank : c.toLower = c ∧ caseVariant? c = none := by
      have lower : ∀ n ∈ blankCodes, (Char.ofNat n).toLower = Char.ofNat n := by decide
      have variant : ∀ n ∈ blankCodes, caseVariant? (Char.ofNat n) = none := by decide
      exact ⟨isBlank_induction (p := fun c => c.toLower = c) lower hb,
        isBlank_induction (p := fun c => caseVariant? c = none) variant hb⟩
    rw [sameLetter, blank.1, blank.2] at h
    have hcq : c = q := by simpa using h
    rw [← hcq, isLetter, isAlpha_of_isBlank hb] at hq
    exact absurd hq Bool.false_ne_true

theorem unsqueezes_word : ∀ {w : Text}, w.all isLetter = true → Unsqueezes (word w)
  | [], _, t, _, r, h => by
    obtain ⟨-, rfl⟩ := Prod.mk.inj (List.mem_singleton.mp h)
    exact ⟨(), t, List.mem_singleton.mpr rfl, rfl⟩
  | q :: qs, hw, t, a, r, h => by
    obtain ⟨hq, hqs⟩ := (Bool.and_eq_true _ _).mp hw
    cases he : squeeze t with
    | nil =>
      rw [he] at h
      exact absurd h List.not_mem_nil
    | cons c cs =>
      rw [he] at h
      unfold word at h
      dsimp only at h
      split at h
      next hs =>
        obtain ⟨ds, rfl, rfl⟩ := squeeze_eq_cons he (isBlank_of_sameLetter hq hs)
        obtain ⟨b, r', hr, hr'⟩ := unsqueezes_word hqs ds a r h
        refine ⟨b, r', ?_, hr'⟩
        unfold word
        dsimp only
        rwa [if_pos hs]
      next => exact absurd h List.not_mem_nil

theorem unsqueezes_literal {c : Char} (hc : isBlank c = false) : Unsqueezes (literal [c]) := by
  intro t a r h
  have he := mem_literal.mp h
  obtain ⟨ds, rfl, hds⟩ := squeeze_eq_cons he hc
  exact ⟨(), ds, mem_literal.mpr rfl, hds⟩

theorem nil_mem_many (ok : Char → Bool) : ∀ t : Text, ([], t) ∈ many ok t
  | [] => List.mem_singleton.mpr rfl
  | c :: cs => by
    unfold many
    split
    · exact List.mem_append_right _ (List.mem_singleton.mpr rfl)
    · exact List.mem_singleton.mpr rfl

theorem takeWhile_mem_many (ok : Char → Bool) : ∀ t : Text,
    (t.takeWhile ok, t.dropWhile ok) ∈ many ok t
  | [] => List.mem_singleton.mpr rfl
  | c :: cs => by
    unfold many
    by_cases hc : ok c = true
    · rw [if_pos hc, List.takeWhile_cons_of_pos hc, List.dropWhile_cons_of_pos hc]
      exact List.mem_append_left _ (List.mem_map.mpr ⟨_, takeWhile_mem_many ok cs, rfl⟩)
    · rw [if_neg hc, List.takeWhile_cons_of_neg hc, List.dropWhile_cons_of_neg hc]
      exact List.mem_singleton.mpr rfl

theorem unsqueezes_blanks : Unsqueezes blanks := by
  intro t w r h
  obtain ⟨he, hw⟩ := mem_many h
  cases w with
  | nil => exact ⟨[], t, nil_mem_many _ t, he.symm⟩
  | cons c w =>
    obtain ⟨hc, hw⟩ := List.forall_mem_cons.mp hw
    cases t with
    | nil => exact absurd he (by simp [squeeze])
    | cons d ds =>
      by_cases hd : isBlank d = true
      · -- All blanks in front of the text are read.
        rw [squeeze_cons_of_blank hd, List.cons_append] at he
        have he := (List.cons.inj he).2
        refine ⟨d :: ds.takeWhile isBlank, ds.dropWhile isBlank, ?_, ?_⟩
        · have := takeWhile_mem_many isBlank (d :: ds)
          rwa [List.takeWhile_cons_of_pos hd, List.dropWhile_cons_of_pos hd] at this
        · cases w with
          | nil => exact he.symm
          | cons e w =>
            exfalso
            have hb := List.head?_dropWhile_not isBlank ds
            cases hrest : ds.dropWhile isBlank with
            | nil =>
              rw [hrest] at he
              exact absurd he (by simp [squeeze])
            | cons x xs =>
              rw [hrest] at he hb
              have hx : ¬isBlank x = true := by simpa using hb
              rw [squeeze_cons_of_not_blank hx, List.cons_append] at he
              rw [(List.cons.inj he).1] at hw
              exact hx (hw x List.mem_cons_self)
      · rw [squeeze_cons_of_not_blank hd, List.cons_append] at he
        rw [(List.cons.inj he).1] at hc
        exact absurd hc hd

theorem Unsqueezes.nowhere (hp : Unsqueezes p) (h : Nowhere p t) : Nowhere p (squeeze t) := by
  intro s hs
  obtain ⟨r, hr, rfl⟩ := suffix_squeeze t hs
  refine List.eq_nil_iff_forall_not_mem.mpr ?_
  rintro ⟨a, x⟩ hx
  obtain ⟨b, r', hr', -⟩ := hp r a x hx
  rw [h r hr] at hr'
  exact List.not_mem_nil hr'

theorem nowhere_of_within {l r : Text} (hp : Steady r p) (h : Nowhere p (l ++ (t ++ r))) :
    Nowhere p t := by
  rintro s ⟨w, rfl⟩
  refine List.eq_nil_iff_forall_not_mem.mpr ?_
  rintro ⟨a, x⟩ hx
  have hm := hp.mem_append hx
  rw [h (s ++ r) ⟨l ++ w, by simp⟩] at hm
  exact List.not_mem_nil hm

end Pattern

namespace Phrase

/-! ## Keywords -/

/-- The operator `d/d`, with blanks. -/
def operatorStart : Pattern Unit := do
  word ['d']
  let _ ← blanks
  literal ['/']
  let _ ← blanks
  word ['d']

/-- The words by which phrasings of calculus are recognised. -/
def keywords : List Text :=
  ["derivative".toList, "differentiate".toList, "int".toList, "lim".toList]

/-- There is no keyword of calculus in the text. -/
structure Keyless (t : Text) : Prop where
  operator : Nowhere operatorStart t
  sign : '∫' ∉ t
  words : ∀ w ∈ keywords, Nowhere (word w) t

variable {s t : Text}

theorem steady_operatorStart (tail : Text) : Steady tail operatorStart :=
  (steady_word _).bind fun _ => (steady_many _).bind fun _ => (steady_literal _).bind fun _ =>
    (steady_many _).bind fun _ => steady_word _

theorem unsqueezes_operatorStart : Unsqueezes operatorStart :=
  (unsqueezes_word (by decide)).then <| unsqueezes_blanks.then <|
    (unsqueezes_literal (by decide)).then <| unsqueezes_blanks.then <| unsqueezes_word (by decide)

/-- The characters of the operator. -/
def isOperatorChar (c : Char) : Bool := sameLetter 'd' c || c == '/' || isBlank c

theorem spells_operatorStart : Spells isOperatorChar operatorStart := by
  have blank : ∀ {c}, isBlank c = true → isOperatorChar c = true := by
    intro c hc
    simp [isOperatorChar, hc]
  have letter : Reads (word ['d']) fun u _ => ∃ c, u = [c] ∧ isOperatorChar c = true ∧
      isBlank c = false := by
    intro t a r h
    obtain ⟨c, rfl, hc⟩ := mem_word_singleton.mp h
    exact ⟨[c], rfl, c, rfl, by simp [isOperatorChar, hc], isBlank_of_sameLetter (by decide) hc⟩
  refine letter.bind fun u₁ _ h₁ => (reads_many _).bind fun u₂ _ h₂ => (reads_literal _).bind
    fun u₃ _ h₃ => (reads_many _).bind fun u₄ _ h₄ => letter.mono fun u₅ _ h₅ => ?_
  obtain ⟨c, rfl, hc, -⟩ := h₁
  obtain ⟨d, rfl, hd, hdb⟩ := h₅
  refine ⟨?_, c :: (u₂ ++ (u₃ ++ u₄)), d, by simp, hdb⟩
  obtain ⟨rfl, h₂⟩ := h₂
  obtain ⟨rfl, h₄⟩ := h₄
  rw [h₃]
  simp only [List.forall_mem_append, List.forall_mem_cons, List.not_mem_nil, false_implies,
    implies_true, and_true]
  exact ⟨hc, fun b hb => blank (h₂ b hb), by decide, fun b hb => blank (h₄ b hb), hd⟩

theorem isAnyCaseLetter_of_sameLetter {q c : Char} (hq : isLetter q = true)
    (h : sameLetter q c = true) : isAnyCaseLetter c = true := by
  rw [sameLetter, Bool.or_eq_true, beq_iff_eq, beq_iff_eq] at h
  rw [isAnyCaseLetter, Bool.or_eq_true]
  rcases h with rfl | h
  · left
    by_cases hc : c.val ≥ 'A'.val ∧ c.val ≤ 'Z'.val
    · have hu : c.isUpper = true := decide_eq_true hc
      change (c.isUpper || c.isLower) = true
      rw [hu, Bool.true_or]
    · have he : c.toLower = c := dif_neg hc
      rwa [he] at hq
  · exact .inr (by rw [h]; rfl)

theorem spells_word {w : Text} (hw : w.all isLetter = true) (hn : w ≠ []) :
    Spells isAnyCaseLetter (word w) := by
  refine (reads_word w).mono fun u _ hu => ?_
  have letter : ∀ c ∈ u, isAnyCaseLetter c = true ∧ isBlank c = false := by
    intro c hc
    obtain ⟨q, hq, hs⟩ := hu.2 c hc
    have hl := List.all_eq_true.mp hw q hq
    exact ⟨isAnyCaseLetter_of_sameLetter hl hs, isBlank_of_sameLetter hl hs⟩
  have hun : u ≠ [] := by
    rintro rfl
    exact hn (List.length_eq_zero_iff.mp hu.1.symm)
  exact ⟨fun c hc => (letter c hc).1, u.dropLast, u.getLast hun,
    (List.dropLast_concat_getLast hun).symm, (letter _ (List.getLast_mem hun)).2⟩

theorem letters_of_mem_keywords {w : Text} (hw : w ∈ keywords) : w.all isLetter = true ∧ w ≠ [] := by
  have h : (keywords.all fun w => w.all isLetter && !w.isEmpty) = true := by decide
  simpa using List.all_eq_true.mp h w hw

theorem Keyless.squeeze (h : Keyless t) : Keyless (squeeze t) where
  operator := unsqueezes_operatorStart.nowhere h.operator
  sign hm := h.sign (mem_of_mem_squeeze (by decide) hm)
  words w hw := (unsqueezes_word (letters_of_mem_keywords hw).1).nowhere (h.words w hw)

/-- There is no keyword in a part of the text. -/
theorem Keyless.within {l r : Text} (h : Keyless t) (he : t = l ++ (s ++ r)) : Keyless s := by
  rw [he] at h
  exact
    { operator := nowhere_of_within (steady_operatorStart r) h.operator
      sign := fun hm => h.sign (by simp [hm])
      words := fun w hw => nowhere_of_within (steady_word w) (h.words w hw) }

theorem Keyless.trim (h : Keyless t) : Keyless (trim t) := by
  obtain ⟨l, r, he, -, -⟩ := trim_split t
  exact h.within he

end Phrase

end Stepwise
