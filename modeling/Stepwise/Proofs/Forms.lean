import Stepwise.Proofs.PlainText

/-!
# Problems of a given form

What the problems that ask for derivatives, integrals and limits have in common: a pattern reads a text
of a given form part by part (`best?_bind`), rules leave a text alone that has none of their keywords,
and what is left in the end is a call, which is made plain argument by argument.

Results: `derivatives_eq_self`, `integrals_eq_self` and `limits_eq_self`; `bare_of_collapse`; and
`canonical_eq_callText`.
-/

namespace Stepwise

open Text

namespace Text

variable {c q : Char} {t : Text}

/-! ## Letters and blanks -/

theorem isAnyCaseLetter_of_isLetter (h : isLetter c = true) : isAnyCaseLetter c = true := by
  rw [isAnyCaseLetter, h]
  rfl

theorem isLetter_toLower (h : isLetter c = true) : isLetter c.toLower = true :=
  toLower_induction (p := fun c => isLetter c = true) h (by decide)

theorem lower_of_isLetter (h : isLetter c = true) : lower c = [c.toLower] := by
  have variants : c ≠ '\u0130' ∧ c ≠ '\u212A' := by
    constructor <;> rintro rfl <;> exact absurd h (by decide)
  rw [lower, if_neg variants.1, if_neg variants.2]

theorem isAnyCaseLetter_of_isBlank (h : isBlank c = true) : isAnyCaseLetter c = false :=
  isBlank_induction (p := fun c => isAnyCaseLetter c = false) (by decide) h

theorem sameLetter_of_isBlank (hq : isLetter q = true) (h : isBlank c = true) :
    sameLetter q c = false := by
  rw [Bool.eq_false_iff]
  intro hs
  rw [Pattern.isBlank_of_sameLetter hq hs] at h
  exact Bool.noConfusion h

theorem allBlank_squeeze (h : allBlank t = true) : allBlank (squeeze t) = true := by
  refine List.all_eq_true.mpr fun b hb => ?_
  cases hc : isBlank b with
  | true => rfl
  | false =>
    rw [List.all_eq_true.mp h b (mem_of_mem_squeeze hc hb)] at hc
    exact Bool.noConfusion hc

end Text

namespace Bracket

variable {c d : Char}

theorem isBlank_of_closer? (h : closer? c = some d) : isBlank c = false := by
  rcases closer?_cases h with ⟨rfl, -⟩ | ⟨rfl, -⟩ | ⟨rfl, -⟩ <;> decide

theorem isBlank_of_isCloser (h : isCloser c = true) : isBlank c = false := by
  simp only [isCloser, Bool.or_eq_true, beq_iff_eq] at h
  rcases h with (rfl | rfl) | rfl <;> decide

theorem closer?_of_isBlank (h : isBlank c = true) : closer? c = none := by
  cases hc : closer? c with
  | none => rfl
  | some d =>
    rw [isBlank_of_closer? hc] at h
    exact Bool.noConfusion h

end Bracket

namespace Pattern

variable {α β : Type} {p : Pattern α} {f : α → Pattern β} {a : α} {c : Char} {r t u w : Text}

/-! ## Reading part by part -/

theorem best?_of_eq {l : List (α × Text)} {x : α × Text} (h : p t = x :: l) : p.best? t = some x := by
  rw [best?, h]
  rfl

/-- The best reading of two parts, if the first part can be read in the best way. -/
theorem best?_bind {y : β × Text} (h : p.best? t = some (a, r)) (hf : (f a).best? r = some y) :
    (p >>= f).best? t = some y := by
  obtain ⟨l, hl⟩ := List.head?_eq_some_iff.mp h
  obtain ⟨m, hm⟩ := List.head?_eq_some_iff.mp hf
  change List.head? ((p t).flatMap fun x => f x.1 x.2) = _
  rw [hl, List.flatMap_cons, hm]
  rfl

theorem one_cons {ok : Char → Bool} (h : ok c = true) (t : Text) : one ok (c :: t) = [(c, t)] := if_pos h

theorem best?_many {ok : Char → Bool} (ht : ∀ c, t.head? = some c → ok c = false) :
    ∀ {w : Text}, (∀ c ∈ w, ok c = true) → best? (many ok) (w ++ t) = some (w, t)
  | [], _ => by
    cases t with
    | nil => rfl
    | cons c cs =>
      have hc : ¬ok c = true := by rw [ht c rfl]; decide
      exact best?_of_eq (many_stop hc cs)
  | c :: w, hw => by
    obtain ⟨hc, hw⟩ := List.forall_mem_cons.mp hw
    obtain ⟨l, hl⟩ := List.head?_eq_some_iff.mp (best?_many ht hw)
    change List.head? (many ok (c :: (w ++ t))) = _
    rw [many_cons hc, hl]
    rfl

theorem best?_many1 {ok : Char → Bool} (ht : ∀ c, t.head? = some c → ok c = false) (hn : w ≠ [])
    (hw : ∀ c ∈ w, ok c = true) : (many1 ok).best? (w ++ t) = some (w, t) := by
  obtain ⟨c, w, rfl⟩ := List.exists_cons_of_ne_nil hn
  obtain ⟨hc, hw⟩ := List.forall_mem_cons.mp hw
  exact best?_bind (best?_of_eq (one_cons hc _)) (best?_bind (best?_many ht hw) rfl)

theorem mem_many_append {ok : Char → Bool} (t : Text) : ∀ {w : Text}, (∀ c ∈ w, ok c = true) →
    (w, t) ∈ many ok (w ++ t)
  | [], _ => nil_mem_many ok t
  | c :: w, hw => by
    obtain ⟨hc, hw⟩ := List.forall_mem_cons.mp hw
    rw [List.cons_append, many_cons hc]
    exact List.mem_append_left _ (List.mem_map.mpr ⟨(w, t), mem_many_append t hw, rfl⟩)

theorem literal_append (w t : Text) : literal w (w ++ t) = [((), t)] := by
  have : w.isPrefixOf (w ++ t) = true := List.isPrefixOf_iff_prefix.mpr (List.prefix_append w t)
  rw [literal, if_pos this, List.drop_left]

theorem literal_singleton_eq_nil {d : Char} (h : d ≠ c) (t : Text) : literal [c] (d :: t) = [] := by
  refine List.eq_nil_iff_forall_not_mem.mpr ?_
  rintro ⟨_, r⟩ hr
  exact h (List.cons.inj (mem_literal.mp hr)).1

theorem best?_optional_of_eq (h : p t = [(a, r)]) : (optional p).best? t = some (some a, r) :=
  best?_of_eq (l := [(none, t)]) (by rw [optional, h]; rfl)

theorem mem_blanks_iff : (w, r) ∈ blanks t ↔ t = w ++ r ∧ allBlank w = true := by
  constructor
  · intro h
    obtain ⟨he, hw⟩ := mem_many h
    exact ⟨he.symm, List.all_eq_true.mpr hw⟩
  · rintro ⟨rfl, hw⟩
    exact mem_many_append r (List.all_eq_true.mp hw)

/-- Blanks in front of what starts with no blank. -/
theorem blanks_append {k : Pattern β} (hk : ∀ c cs, isBlank c = true → k (c :: cs) = [])
    (hw : ∀ b ∈ w, isBlank b = true) (hc : isBlank c = false) (t : Text) :
    (blanks >>= fun _ => k) (w ++ c :: t) = k (c :: t) := by
  rw [blanks_bind hk, List.dropWhile_append_of_pos hw,
    List.dropWhile_cons_of_neg (by rw [hc]; decide)]

/-- Where a pattern is read in two texts, if it is not read in the second one alone. -/
theorem nowhere_append_iff {α : Type} {p : Pattern α} :
    Nowhere p (w ++ t) ↔ (∀ u, u <:+ w → p (u ++ t) = []) ∧ Nowhere p t := by
  constructor
  · refine fun h => ⟨?_, h.of_suffix (List.suffix_append w t)⟩
    rintro u ⟨v, rfl⟩
    exact h _ ⟨v, (List.append_assoc v u t).symm⟩
  · rintro ⟨hw, ht⟩ s hs
    rcases List.suffix_or_suffix_of_suffix hs (List.suffix_append w t) with h | ⟨u, rfl⟩
    · exact ht s h
    · obtain ⟨v, hv⟩ := hs
      rw [← List.append_assoc] at hv
      exact hw u ⟨v, List.append_cancel_right hv⟩

/-- What is read at the front of a text is replaced, and then the rest is rewritten. -/
theorem replaceFrom_of_best? {p : Option Char → Pattern Text} {last : Option Char} {new : Text}
    (hu : u ≠ []) (h : (p last).best? (u ++ r) = some (new, r)) :
    ∃ last', replaceFrom p last 0 (u ++ r) = new ++ replaceFrom p last' 0 r := by
  obtain ⟨c, u, rfl⟩ := List.exists_cons_of_ne_nil hu
  have hlen : (u ++ r).length - r.length = u.length := by simp
  rw [List.cons_append] at h ⊢
  rw [replaceFrom, h]
  dsimp only
  rw [hlen, replaceFrom_skip]
  exact ⟨_, rfl⟩

/-- A text is rewritten at its front only, if nothing can be read of the rest. -/
theorem replaceAll_of_front {p : Option Char → Pattern Text} {new : Text} (hu : u ≠ [])
    (h : (p none).best? (u ++ r) = some (new, r)) (hr : ∀ last, Nowhere (p last) r) :
    replaceAll p (u ++ r) = new ++ r := by
  obtain ⟨last, hfront⟩ := replaceFrom_of_best? hu h
  rw [replaceAll, hfront]
  refine congrArg (new ++ ·) (replaceFrom_of_none p last r fun l s hs => ?_)
  rw [best?, hr l s hs]
  rfl

end Pattern

namespace Phrase

open Pattern Stepwise.Bracket

variable {c v : Char} {e name r s t w : Text} {args names : List Text}

/-! ## Texts that rules leave alone -/

theorem nowhere_literal_of_word (hw : (w.all fun q => q.toLower == q) = true)
    (h : Nowhere (word w) t) : Nowhere (literal w) t := by
  intro s hs
  refine List.eq_nil_iff_forall_not_mem.mpr ?_
  rintro ⟨_, r⟩ hr
  obtain rfl := mem_literal.mp hr
  have := h _ hs
  rw [word_append hw] at this
  exact absurd this (by simp)

/-- No word starts with what is no letter. -/
theorem word_of_not_letter {k : Text} (hk : k.all isLetter = true) (hn : k ≠ [])
    (hc : isAnyCaseLetter c = false) (t : Text) : word k (c :: t) = [] := by
  obtain ⟨q, qs, rfl⟩ := List.exists_cons_of_ne_nil hn
  have hq := List.all_eq_true.mp hk q List.mem_cons_self
  refine word_cons_eq_nil (Bool.eq_false_iff.mpr fun hs => ?_) qs t
  rw [isAnyCaseLetter_of_sameLetter hq hs] at hc
  exact Bool.noConfusion hc

theorem mem_operatorStart {u : Unit} : (u, r) ∈ operatorStart t ↔
    ∃ d w w' d', t = d :: (w ++ '/' :: (w' ++ d' :: r)) ∧ sameLetter 'd' d = true ∧
      allBlank w = true ∧ allBlank w' = true ∧ sameLetter 'd' d' = true := by
  simp only [operatorStart, mem_bind, mem_blanks_iff, mem_literal, mem_word_singleton]
  constructor
  · rintro ⟨_, _, ⟨d, rfl, hd⟩, w, _, ⟨rfl, hw⟩, _, _, rfl, w', _, ⟨rfl, hw'⟩, d', rfl, hd'⟩
    exact ⟨d, w, w', d', rfl, hd, hw, hw', hd'⟩
  · rintro ⟨d, w, w', d', rfl, hd, hw, hw', hd'⟩
    exact ⟨(), _, ⟨d, rfl, hd⟩, w, _, ⟨rfl, hw⟩, (), _, rfl, w', _, ⟨rfl, hw'⟩, d', rfl, hd'⟩

theorem operatorStart_of_not_letter (hc : isAnyCaseLetter c = false) (t : Text) :
    operatorStart (c :: t) = [] :=
  bind_of_eq_nil (word_of_not_letter (k := ['d']) (by decide) (by decide) hc t)

theorem nowhere_blanks_append {α : Type} {p : Pattern α}
    (hp : ∀ c cs, isBlank c = true → p (c :: cs) = []) (h : Nowhere p t) :
    ∀ {w : Text}, (∀ b ∈ w, isBlank b = true) → Nowhere p (w ++ t)
  | [], _ => h
  | c :: _, hw =>
    have hw := List.forall_mem_cons.mp hw
    nowhere_cons.mpr ⟨hp c _ hw.1, nowhere_blanks_append hp h hw.2⟩

theorem derivatives_eq_self (hw : Nowhere wrappedHead t) (ho : Nowhere openDerivative t)
    (hd : Nowhere (word "derivative".toList) t) (hd' : Nowhere (word "differentiate".toList) t) :
    derivatives t = t := by
  have hwrapped : wrappedDerivatives t = t := wrappedFrom_of_nowhere hw
  rw [derivatives, hwrapped, Nowhere.replaceAll_eq fun _ => ho, derivativeOf_eq hd,
    differentiate_nowhere hd']

theorem integrate_eq_self (h : Nowhere (word integralName) t) :
    replaceAll (fun _ => integrate) t = t :=
  Nowhere.replaceAll_eq fun _ => h.bind _

theorem integrals_eq_self (hs : '∫' ∉ t) (hi : Nowhere (word "int".toList) t) :
    integrals t = t := by
  have hintegral : Nowhere (word "integral".toList) t := nowhere_word_append (l := "egral".toList) hi
  have hintegrate : replaceAll (fun _ => integrate) t = t :=
    integrate_eq_self (nowhere_word_append (k := "int".toList) (l := "egrate".toList) hi)
  have hshort : replaceAll shortIntegral t = t := Nowhere.replaceAll_eq fun _ =>
    .after (leavesEnd_guard _) fun _ => (nowhere_literal_of_word (by decide) hi).bind _
  rw [integrals_of_not_mem hs, integralOf_eq hintegral, hintegrate, hshort]

theorem limits_eq_self (h : Nowhere (word "lim".toList) t) : limits t = t := by
  have harrow : replaceAll arrowLimit t = t := Nowhere.replaceAll_eq fun _ =>
    .after (leavesEnd_guard _) fun _ => h.bind _
  have hlimit : Nowhere (word "limit".toList) t := nowhere_word_append (l := "it".toList) h
  have hworded : replaceAll wordedLimit t = t := Nowhere.replaceAll_eq fun _ =>
    .after (leavesEnd_guard _) fun _ => Nowhere.bind (Nowhere.bind hlimit _) _
  rw [limits, harrow, hworded]

theorem Keyless.derivatives_eq (h : Keyless t) : derivatives t = t :=
  derivatives_eq_self ((nowhere_derivativeOperator h.operator).bind _)
    ((nowhere_derivativeOperator h.operator).bind _) (h.words _ (by decide)) (h.words _ (by decide))

theorem Keyless.integrals_eq (h : Keyless t) : integrals t = t :=
  integrals_eq_self h.sign (h.words _ (by decide))

theorem Keyless.limits_eq (h : Keyless t) : limits t = t := limits_eq_self (h.words _ (by decide))

instance (t : Text) : Decidable (Keyless t) :=
  decidable_of_iff (Nowhere operatorStart t ∧ '∫' ∉ t ∧ ∀ w ∈ keywords, Nowhere (word w) t)
    ⟨fun h => ⟨h.1, h.2.1, h.2.2⟩, fun h => ⟨h.operator, h.sign, h.words⟩⟩

/-- Can the character be part of a keyword, or of the blanks in one? -/
def isKeywordChar (c : Char) : Bool := isAnyCaseLetter c || c == '/' || isBlank c

theorem apart_mono {ok ok' : Char → Bool} (h : ∀ c, ok' c = true → ok c = true)
    (ha : Apart ok s t) : Apart ok' s t := by
  have not : ∀ {c}, ok c = false → ok' c = false := fun {c} hc =>
    Bool.eq_false_iff.mpr fun h' => Bool.eq_false_iff.mp hc (h c h')
  rcases ha with ⟨v, c, rfl, hc⟩ | ⟨w, c, v, rfl, hw, hc⟩
  · exact .inl ⟨v, c, rfl, not hc⟩
  · exact .inr ⟨w, c, v, rfl, hw, not hc⟩

/-- A keyword in two texts is in one of them, if the operator is not cut in two, and no word is. -/
theorem Keyless.join (hs : Keyless s) (ht : Keyless t) (ho : Apart isOperatorChar s t)
    (hl : Apart isAnyCaseLetter s t) : Keyless (s ++ t) where
  operator :=
    nowhere_append steady_operatorStart spells_operatorStart ho hs.operator ht.operator
  sign h := (List.mem_append.mp h).elim hs.sign ht.sign
  words k hk := by
    obtain ⟨hletters, hn⟩ := letters_of_mem_keywords hk
    exact nowhere_append (fun _ => steady_word k) (spells_word hletters hn) hl (hs.words k hk)
      (ht.words k hk)

/-- A keyword in two texts that are apart is in one of them. -/
theorem Keyless.append (hs : Keyless s) (ht : Keyless t) (ha : Apart isKeywordChar s t) :
    Keyless (s ++ t) := by
  refine hs.join ht (apart_mono (fun c hc => ?_) ha) (apart_mono (fun c hc => ?_) ha)
  · rw [isOperatorChar, Bool.or_eq_true, Bool.or_eq_true] at hc
    rcases hc with (hc | hc) | hc
    · simp [isKeywordChar, isAnyCaseLetter_of_sameLetter (by decide) hc]
    · simp [isKeywordChar, hc]
    · simp [isKeywordChar, hc]
  · simp [isKeywordChar, hc]

theorem keyless_singleton (h : c ≠ '∫') (h' : c ≠ '/') : Keyless [c] where
  operator := nowhere_operatorStart (by simpa using h'.symm)
  sign := by simpa using h.symm
  words k hk := by
    have hlen : ∀ k ∈ keywords, 1 < k.length := by decide
    exact nowhere_word_of_length (hlen k hk)

/-- A character that is part of no keyword in front of a text. -/
theorem Keyless.cons (h : Keyless t) (hc : isAnyCaseLetter c = false) (hs : c ≠ '∫') :
    Keyless (c :: t) where
  operator := nowhere_cons.mpr ⟨operatorStart_of_not_letter hc t, h.operator⟩
  sign := by simpa using ⟨hs.symm, h.sign⟩
  words k hk := by
    obtain ⟨hl, hn⟩ := letters_of_mem_keywords hk
    exact nowhere_cons.mpr ⟨word_of_not_letter hl hn hc t, h.words k hk⟩

theorem keyless_letter (hv : isLetter v = true) : Keyless [v] := by
  refine keyless_singleton ?_ ?_ <;> rintro rfl <;> exact absurd hv (by decide)

/-- A letter that stands alone in front of a text. -/
theorem Keyless.letter_cons (h : Keyless (c :: t)) (hv : isLetter v = true)
    (hc : isKeywordChar c = false) : Keyless (v :: c :: t) :=
  (keyless_letter hv).append h (.inr ⟨[], c, t, rfl, fun _ h => absurd h List.not_mem_nil, hc⟩)

/-- The end of a call. -/
theorem keyless_callEnd (hv : isLetter v = true) : Keyless [',', v, ')'] :=
  have bracket : Keyless [')'] := keyless_singleton (by decide) (by decide)
  (bracket.letter_cons hv (by decide)).cons (by decide) (by decide)

theorem keyless_call {front : Text} (hf : Keyless front) (hlast : ∃ s, front = s ++ ['('])
    (hv : isLetter v = true) (he : Keyless e) : Keyless (front ++ (e ++ [',', v, ')'])) := by
  obtain ⟨s, hs⟩ := hlast
  refine hf.append (he.append (keyless_callEnd hv) ?_) (.inl ⟨s, '(', hs, by decide⟩)
  exact .inr ⟨[], ',', [v, ')'], rfl, fun _ h => absurd h List.not_mem_nil, by decide⟩

/-! ## Before and after -/

/-- A text is squeezed on both sides of a character that is no blank. -/
theorem squeeze_append_cons (hc : isBlank c = false) (s t : Text) :
    squeeze (s ++ c :: t) = squeeze s ++ c :: squeeze t := by
  fun_induction squeeze s with
  | case1 => simp [squeeze, hc]
  | case2 d h => simp [squeeze, h, hc]
  | case3 d h f fs hf ih => simpa [squeeze, h, hf] using ih
  | case4 d h f fs hf ih => simpa [squeeze, h, hf] using ih
  | case5 d cs h ih => simp [squeeze, h, ih]

theorem trim_blanks_append (hw : ∀ b ∈ w, isBlank b = true) (t : Text) : trim (w ++ t) = trim t := by
  rw [trim, trim, List.dropWhile_append_of_pos hw]

/-- The blanks of a text behind another one. -/
theorem collapse_after (hs : Tight s) (he : allBlank e = false) :
    trim (squeeze (s ++ ' ' :: e)) = squeeze s ++ ' ' :: squeeze (trim e) := by
  obtain ⟨r, hr, hrb⟩ := dropEndWhile_append isBlank (e.dropWhile isBlank)
  have hdrop : e.dropWhile isBlank = trim e ++ r := hr
  have hsqueeze : squeeze (s ++ ' ' :: e) =
      (squeeze s ++ ' ' :: squeeze (trim e)) ++ squeeze r := by
    rw [squeeze_append hs.last, squeeze_cons_of_blank (by decide), hdrop,
      squeeze_append (noBlankEnd_trim e), List.append_assoc, List.cons_append]
  have htight : Tight (squeeze s ++ ([' '] ++ squeeze (trim e))) :=
    hs.squeeze.append (tight_trim he).squeeze [' ']
  obtain ⟨c, cs, hc, hcb⟩ := htight.head
  rw [List.singleton_append] at hc htight
  have hblank := List.all_eq_true.mp (allBlank_squeeze (List.all_eq_true.mpr hrb))
  rw [hsqueeze, trim, hc, List.cons_append, List.dropWhile_cons_of_neg hcb, ← List.cons_append, ← hc,
    dropEndWhile_append_of_all hblank]
  exact dropEndWhile_of_getLast htight.last

/-- All letters of an instruction come first. -/
theorem instructionHead_of_second (h : isAnyCaseLetter c = false) (d : Char) (t : Text) :
    instructionHead (d :: c :: t) = [] := by
  have long : (instructionWords.all fun k => k.tail.head?.any isLetter) = true := by decide
  refine instructionHead_eq_nil fun k hk => ?_
  obtain ⟨q, hq, hletter⟩ := (Option.any_eq_true _ _).mp (List.all_eq_true.mp long k hk)
  obtain ⟨qs, htail⟩ := List.head?_eq_some_iff.mp hq
  obtain ⟨p, rfl⟩ : ∃ p, k = p :: q :: qs := by
    cases k with
    | nil => exact absurd htail (List.cons_ne_nil q qs).symm
    | cons p ps => exact ⟨p, congrArg (p :: ·) htail⟩
  have hsame : sameLetter q c = false := Bool.eq_false_iff.mpr fun hs => by
    rw [isAnyCaseLetter_of_sameLetter hletter hs] at h
    exact Bool.noConfusion h
  change (if sameLetter p d then word (q :: qs) (c :: t) else []) = []
  rw [word_cons_eq_nil hsame, ite_self]

theorem instructionHead_of_head
    (h : (instructionWords.all fun k => k.head?.any fun q => !sameLetter q c) = true) (t : Text) :
    instructionHead (c :: t) = [] := by
  refine instructionHead_eq_nil fun k hk => ?_
  obtain ⟨q, hq, hs⟩ := (Option.any_eq_true _ _).mp (List.all_eq_true.mp h k hk)
  obtain ⟨qs, rfl⟩ := List.head?_eq_some_iff.mp hq
  exact word_cons_eq_nil ((Bool.not_eq_true' _).mp hs) qs t

theorem head_tight (h : Tight e) (r : Text) : ∀ c, (e ++ r).head? = some c → isBlank c = false := by
  obtain ⟨c, cs, rfl, hc⟩ := h.head
  rintro d hd
  rw [← Option.some.inj hd]
  exact Bool.eq_false_iff.mpr hc

/-- Blanks are collapsed, and no instruction is dropped. -/
theorem bare_of_collapse (hc : trim (squeeze s) = t) (hi : instructionHead t = []) : bare s = t := by
  have none : ∀ n, withoutInstructions n t = t := by
    intro n
    cases n with
    | zero => rfl
    | succ n =>
      rw [withoutInstructions_succ, best?, hi]
      rfl
  have : Rule.collapseBlanks.apply s = t := hc
  rw [bare, this]
  exact none _

/-- The blanks of a call are collapsed in its argument. -/
theorem bare_call (hn : Blankless name) (hi : ∀ r, instructionHead (name ++ '(' :: r) = [])
    (hne : name ≠ []) (hv : isLetter v = true) :
    bare (name ++ '(' :: (e ++ [',', v, ')'])) = name ++ '(' :: (squeeze e ++ [',', v, ')']) := by
  have hend : squeeze [v, ')'] = [v, ')'] := Blankless.squeeze_eq <| Blankless.cons_iff.mpr
    ⟨isBlank_of_anyCaseLetter (isAnyCaseLetter_of_isLetter hv), Blankless.cons_iff.mpr ⟨by decide, .nil⟩⟩
  have hsqueeze : squeeze (name ++ '(' :: (e ++ ',' :: [v, ')'])) =
      name ++ '(' :: (squeeze e ++ ',' :: [v, ')']) := by
    rw [squeeze_append_cons (by decide), squeeze_append_cons (by decide), hend, hn.squeeze_eq]
  refine bare_of_collapse ?_ (hi _)
  obtain ⟨c, cs, rfl⟩ := List.exists_cons_of_ne_nil hne
  rw [hsqueeze]
  refine Tight.trim_eq ⟨⟨c, _, rfl, by simp [hn c List.mem_cons_self]⟩, fun d hd => ?_⟩
  have hlast : (c :: cs) ++ '(' :: (squeeze e ++ ',' :: [v, ')']) =
      ((c :: cs) ++ '(' :: (squeeze e ++ [',', v])) ++ [')'] := by simp
  rw [hlast, List.getLast?_concat] at hd
  rw [← Option.some.inj hd]
  decide

/-- **What the phrasings have been rewritten to is made plain argument by argument.** -/
theorem canonical_eq_callText (hb : bare s = t)
    (ht : limits (integrals (derivatives t)) = callText name args) (hn : name.all isLetter = true) :
    canonical s = callText name (args.map plain) := by
  rw [canonical_eq_run, run_rewritingSteps, hb, ht, plain_callText hn]

/-! ## The question -/

theorem ofArguments_pair (config : Config) (invalid : Fault) {body : Text} (hb : body ≠ [])
    (hv : isLetter v = true) :
    Question.ofArguments config invalid [body, [v]] = .ok (body, [v]) := by
  obtain ⟨c, cs, rfl⟩ := List.exists_cons_of_ne_nil hb
  simp only [Question.ofArguments, Question.variableOf, if_pos hv]
  rfl

theorem isMark_of_isLetter (h : isLetter c = true) : isMark c = false := by
  rw [Bool.eq_false_iff]
  intro hm
  simp only [isMark, isCloser, Bool.or_eq_true, Option.isSome_iff_exists, beq_iff_eq] at hm
  rcases hm with (⟨d, hd⟩ | (rfl | rfl) | rfl) | rfl
  · rcases closer?_cases hd with ⟨rfl, -⟩ | ⟨rfl, -⟩ | ⟨rfl, -⟩ <;> exact absurd h (by decide)
  all_goals exact absurd h (by decide)

theorem argument_letter (h : isLetter c = true) : Argument [c] := by
  have hm : marks [c] = [] := List.filter_eq_nil_iff.mpr fun d hd => by
    rw [List.mem_singleton.mp hd, isMark_of_isLetter h]
    decide
  exact (⟨rfl, by decide⟩ : Argument []).of_marks hm

/-- The arguments of a call for an expression and a variable. -/
theorem callArguments_pair (hn : name ≠ []) (ha : Argument e) (hv : isLetter v = true) :
    callArguments [name] (callText name [plain e, [v]]) = some [plain e, [v]] := by
  have hargs : ∀ a ∈ [e, [v]], Argument a :=
    List.forall_mem_cons.mpr ⟨ha, List.forall_mem_singleton.mpr (argument_letter hv)⟩
  have hname : [name].head? = some name := rfl
  have h := callArguments_plain hname hn (List.cons_ne_nil _ _) hargs
  have hletter : plain [v] = [v] := plain_letters (by simpa using hv)
  simpa only [List.map_cons, List.map_nil, hletter] using h

theorem derivative_callText (config : Config) (hb : allBlank e = false) (ha : Argument e)
    (hv : isLetter v = true) :
    Question.derivative config (callText derivativeName [plain e, [v]]) = .ok (plain e, [v]) := by
  rw [Question.derivative, callArguments_pair (by decide) ha hv]
  exact ofArguments_pair config _ (plain_ne_nil hb) hv

theorem integral_callText (config : Config) (hb : allBlank e = false) (ha : Argument e)
    (hv : isLetter v = true) :
    Question.integral config (callText integralName [plain e, [v]]) = .ok (plain e, [v]) := by
  rw [Question.integral, callArguments_pair (by decide) ha hv]
  exact ofArguments_pair config _ (plain_ne_nil hb) hv

end Phrase

end Stepwise
