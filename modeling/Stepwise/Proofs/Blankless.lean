import Stepwise.Phrase.Rule
import Stepwise.Proofs.Character

/-!
# Texts without blanks

A canonical text has no blanks, and most phrasings need one: `NeedsBlank p` says that `p` reads
nothing where there is none. A pattern needs a blank if one of its parts does and the parts in front
of it leave an end piece of the text (`LeavesEnd`).

Results: `instructions_of_blankless` and its siblings, the rules of worded problems leave texts
without blanks alone.
-/

namespace Stepwise

open Text

namespace Text

/-- There is no blank in the text. -/
def Blankless (t : Text) : Prop := ∀ c ∈ t, isBlank c = false

variable {s t : Text}

theorem Blankless.nil : Blankless [] := fun _ h => absurd h List.not_mem_nil

theorem Blankless.append_iff : Blankless (s ++ t) ↔ Blankless s ∧ Blankless t :=
  List.forall_mem_append

theorem Blankless.sublist (h : Blankless t) (hs : List.Sublist s t) : Blankless s :=
  fun c hc => h c (hs.subset hc)

theorem Blankless.of_suffix (h : Blankless t) (hs : s <:+ t) : Blankless s := h.sublist hs.sublist

theorem Blankless.cons_iff {c : Char} : Blankless (c :: t) ↔ isBlank c = false ∧ Blankless t :=
  List.forall_mem_cons

theorem Blankless.squeeze_eq : ∀ {t : Text}, Blankless t → squeeze t = t
  | [], _ => rfl
  | c :: cs, h => by
    obtain ⟨hc, hcs⟩ := Blankless.cons_iff.mp h
    unfold squeeze
    rw [if_neg (by simp [hc]), hcs.squeeze_eq]

theorem dropEndWhile_of_getLast {p : Char → Bool} : ∀ {t : Text},
    (∀ c, t.getLast? = some c → p c = false) → dropEndWhile p t = t
  | [], _ => rfl
  | [c], h => by
    have := h c rfl
    simp [dropEndWhile, this]
  | c :: d :: ds, h => by
    have ih : dropEndWhile p (d :: ds) = d :: ds :=
      dropEndWhile_of_getLast fun e he => h e (by rwa [List.getLast?_cons_cons])
    rw [dropEndWhile, ih]

theorem Blankless.trim_eq (h : Blankless t) : trim t = t := by
  have hw : t.dropWhile isBlank = t := by
    cases t with
    | nil => rfl
    | cons c cs => rw [List.dropWhile_cons, if_neg (by simp [h c List.mem_cons_self])]
  rw [trim, hw]
  exact dropEndWhile_of_getLast fun c hc => h c (List.mem_of_getLast? hc)

theorem Blankless.removeBlanks_eq (h : Blankless t) : removeBlanks t = t :=
  List.filter_eq_self.mpr fun c hc => by rw [h c hc]; rfl

end Text

namespace Pattern

variable {α β : Type}

theorem mem_bind {p : Pattern α} {f : α → Pattern β} {t : Text} {x : β × Text} :
    x ∈ (p >>= f) t ↔ ∃ a r, (a, r) ∈ p t ∧ x ∈ f a r := by
  change x ∈ (p t).flatMap (fun y => f y.1 y.2) ↔ _
  rw [List.mem_flatMap]
  constructor
  · rintro ⟨⟨a, r⟩, hp, hf⟩
    exact ⟨a, r, hp, hf⟩
  · rintro ⟨a, r, hp, hf⟩
    exact ⟨(a, r), hp, hf⟩

/-! ## What patterns read -/

theorem mem_pure {a b : α} {t r : Text} : (b, r) ∈ (pure a : Pattern α) t ↔ b = a ∧ r = t := by
  change (b, r) ∈ [(a, t)] ↔ _
  rw [List.mem_singleton, Prod.mk.injEq]

theorem mem_one {ok : Char → Bool} {t r : Text} {c : Char} :
    (c, r) ∈ one ok t ↔ t = c :: r ∧ ok c = true := by
  cases t with
  | nil => simp [one]
  | cons d ds =>
    by_cases hd : ok d = true
    · rw [one, if_pos hd, List.mem_singleton, Prod.mk.injEq, List.cons.injEq]
      constructor
      · rintro ⟨rfl, rfl⟩
        exact ⟨⟨rfl, rfl⟩, hd⟩
      · rintro ⟨⟨rfl, rfl⟩, -⟩
        exact ⟨rfl, rfl⟩
    · rw [one, if_neg hd, List.cons.injEq]
      constructor
      · exact fun h => absurd h List.not_mem_nil
      · rintro ⟨⟨rfl, -⟩, hc⟩
        exact absurd hc hd

theorem mem_literal {w t r : Text} {u : Unit} : (u, r) ∈ literal w t ↔ t = w ++ r := by
  unfold literal
  split
  next h =>
    obtain ⟨s, rfl⟩ := List.isPrefixOf_iff_prefix.mp h
    rw [List.mem_singleton, Prod.mk.injEq, List.drop_left]
    exact ⟨fun h => by rw [h.2], fun h => ⟨rfl, (List.append_cancel_left h).symm⟩⟩
  next h =>
    constructor
    · exact fun h => absurd h List.not_mem_nil
    · rintro rfl
      exact absurd (List.isPrefixOf_iff_prefix.mpr (List.prefix_append w r)) h

theorem mem_word_singleton {p : Char} {t r : Text} {u : Unit} :
    (u, r) ∈ word [p] t ↔ ∃ c, t = c :: r ∧ sameLetter p c = true := by
  cases t with
  | nil => simp [word]
  | cons d ds =>
    have hw : word [p] (d :: ds) = if sameLetter p d then [((), ds)] else [] := rfl
    by_cases hd : sameLetter p d = true
    · rw [hw, if_pos hd, List.mem_singleton, Prod.mk.injEq]
      constructor
      · rintro ⟨-, rfl⟩
        exact ⟨d, rfl, hd⟩
      · rintro ⟨c, h, -⟩
        exact ⟨rfl, (List.cons.inj h).2.symm⟩
    · rw [hw, if_neg hd]
      constructor
      · exact fun h => absurd h List.not_mem_nil
      · rintro ⟨c, h, hc⟩
        rw [(List.cons.inj h).1] at hd
        exact absurd hc hd

theorem mem_guard {b : Bool} {t r : Text} {u : Unit} : (u, r) ∈ guard b t ↔ r = t ∧ b = true := by
  unfold guard
  split
  next h => simp [h]
  next h => simp [h]

theorem mem_notBefore {bad : Char → Bool} {t r : Text} {u : Unit}
    (h : (u, r) ∈ notBefore bad t) : r = t := by
  unfold notBefore at h
  split at h
  · split at h
    · exact absurd h List.not_mem_nil
    · exact (Prod.mk.inj (List.mem_singleton.mp h)).2
  · exact (Prod.mk.inj (List.mem_singleton.mp h)).2

theorem mem_before {ok : Char → Bool} {t r : Text} {u : Unit} :
    (u, r) ∈ before ok t ↔ r = t ∧ ∃ c cs, t = c :: cs ∧ ok c = true := by
  cases t with
  | nil => simp [before]
  | cons d ds =>
    by_cases hd : ok d = true
    · rw [before, if_pos hd, List.mem_singleton, Prod.mk.injEq]
      exact ⟨fun h => ⟨h.2, d, ds, rfl, hd⟩, fun h => ⟨rfl, h.1⟩⟩
    · rw [before, if_neg hd]
      constructor
      · exact fun h => absurd h List.not_mem_nil
      · rintro ⟨-, _, _, h, hc⟩
        obtain ⟨rfl, -⟩ := List.cons.inj h
        exact absurd hc hd

theorem mem_atEnd {t r : Text} {u : Unit} :
    (u, r) ∈ atEnd t ↔ r = t ∧ (t = [] ∨ t = ['\n']) := by
  unfold atEnd
  split
  next h => simp [h]
  next h => simp [h]

theorem mem_few {ok : Char → Bool} : ∀ {t w r : Text}, (w, r) ∈ few ok t → t = w ++ r
  | [], w, r, h => by
    obtain ⟨rfl, rfl⟩ := Prod.mk.inj (List.mem_singleton.mp h)
    rfl
  | c :: cs, w, r, h => by
    unfold few at h
    rcases List.mem_cons.mp h with h | h
    · obtain ⟨rfl, rfl⟩ := Prod.mk.inj h
      rfl
    · split at h
      · obtain ⟨⟨v, s⟩, hv, h⟩ := List.mem_map.mp h
        obtain ⟨rfl, rfl⟩ := Prod.mk.inj h
        exact congrArg (c :: ·) (mem_few hv)
      · exact absurd h List.not_mem_nil

theorem mem_few1 {ok : Char → Bool} {t w r : Text} (h : (w, r) ∈ few1 ok t) :
    t = w ++ r ∧ w ≠ [] := by
  obtain ⟨c, s, hc, h⟩ := mem_bind.mp h
  obtain ⟨v, s', hv, h⟩ := mem_bind.mp h
  obtain ⟨rfl, rfl⟩ := mem_pure.mp h
  obtain ⟨rfl, -⟩ := mem_one.mp hc
  exact ⟨congrArg (c :: ·) (mem_few hv), List.cons_ne_nil _ _⟩

theorem mem_many1 {ok : Char → Bool} {t w r : Text} (h : (w, r) ∈ many1 ok t) :
    t = w ++ r ∧ w ≠ [] := by
  obtain ⟨c, s, hc, h⟩ := mem_bind.mp h
  obtain ⟨v, s', hv, h⟩ := mem_bind.mp h
  obtain ⟨rfl, rfl⟩ := mem_pure.mp h
  obtain ⟨rfl, -⟩ := mem_one.mp hc
  exact ⟨congrArg (c :: ·) (mem_many hv).1.symm, List.cons_ne_nil _ _⟩

/-- A text of good characters can be read as a whole. -/
theorem mem_many_all {ok : Char → Bool} : ∀ {t : Text}, (∀ c ∈ t, ok c = true) →
    (t, []) ∈ many ok t
  | [], _ => List.mem_singleton.mpr rfl
  | c :: cs, h => by
    obtain ⟨hc, hcs⟩ := List.forall_mem_cons.mp h
    rw [many, if_pos hc]
    exact List.mem_append_left _ (List.mem_map.mpr ⟨(cs, []), mem_many_all hcs, rfl⟩)

theorem mem_many1_all {ok : Char → Bool} {c : Char} {cs : Text} (h : ∀ d ∈ c :: cs, ok d = true) :
    (c :: cs, []) ∈ many1 ok (c :: cs) := by
  obtain ⟨hc, hcs⟩ := List.forall_mem_cons.mp h
  refine mem_bind.mpr ⟨c, cs, mem_one.mpr ⟨rfl, hc⟩, mem_bind.mpr ⟨cs, [], mem_many_all hcs, ?_⟩⟩
  exact mem_pure.mpr ⟨rfl, rfl⟩

/-- Where there is no blank, only no blank is read. -/
theorem mem_blanks {t w r : Text} (ht : Blankless t) : (w, r) ∈ blanks t ↔ w = [] ∧ r = t := by
  have h : blanks t = [([], t)] := by
    cases t with
    | nil => rfl
    | cons c cs => rw [blanks, many, if_neg (by simp [ht c List.mem_cons_self])]
  rw [h, List.mem_singleton, Prod.mk.injEq]

theorem best?_ne_none {p : Pattern α} {t : Text} : p.best? t ≠ none ↔ ∃ a r, (a, r) ∈ p t := by
  rw [best?, ne_eq, List.head?_eq_none_iff]
  constructor
  · intro h
    obtain ⟨⟨a, r⟩, hr⟩ := List.exists_mem_of_ne_nil _ h
    exact ⟨a, r, hr⟩
  · rintro ⟨a, r, hr⟩
    exact List.ne_nil_of_mem hr

theorem mem_of_best? {p : Pattern α} {t r : Text} {a : α} (h : p.best? t = some (a, r)) :
    (a, r) ∈ p t := List.mem_of_head? h

/-! ## Patterns that leave an end piece -/

/-- Every reading leaves an end piece of the text. -/
def LeavesEnd (p : Pattern α) : Prop := ∀ t a r, (a, r) ∈ p t → r <:+ t

theorem leavesEnd_pure (a : α) : LeavesEnd (pure a : Pattern α) := by
  intro t b r h
  obtain ⟨-, rfl⟩ := mem_pure.mp h
  exact List.suffix_refl _

theorem LeavesEnd.bind {p : Pattern α} {f : α → Pattern β} (hp : LeavesEnd p)
    (hf : ∀ a, LeavesEnd (f a)) : LeavesEnd (p >>= f) := by
  intro t b r h
  obtain ⟨a, s, hs, hr⟩ := mem_bind.mp h
  exact (hf a s b r hr).trans (hp t a s hs)

theorem leavesEnd_one (ok : Char → Bool) : LeavesEnd (one ok) := by
  intro t a r h
  obtain ⟨rfl, -⟩ := mem_one.mp h
  exact List.suffix_cons _ _

theorem leavesEnd_literal (w : Text) : LeavesEnd (literal w) := by
  intro t a r h
  obtain rfl := mem_literal.mp h
  exact List.suffix_append _ _

theorem leavesEnd_word : ∀ w : Text, LeavesEnd (word w)
  | [], t, a, r, h => by
    obtain ⟨-, rfl⟩ := Prod.mk.inj (List.mem_singleton.mp h)
    exact List.suffix_refl _
  | _ :: _, [], _, _, h => absurd h List.not_mem_nil
  | p :: ps, c :: cs, a, r, h => by
    unfold word at h
    dsimp only at h
    split at h
    · exact (leavesEnd_word ps cs a r h).trans (List.suffix_cons _ _)
    · exact absurd h List.not_mem_nil

theorem LeavesEnd.either {p q : Pattern α} (hp : LeavesEnd p) (hq : LeavesEnd q) :
    LeavesEnd (either p q) :=
  fun t a r h => (List.mem_append.mp h).elim (hp t a r) (hq t a r)

theorem LeavesEnd.optional {p : Pattern α} (hp : LeavesEnd p) : LeavesEnd (optional p) := by
  intro t a r h
  rcases List.mem_append.mp h with h | h
  · obtain ⟨⟨b, s⟩, hs, h⟩ := List.mem_map.mp h
    obtain ⟨-, rfl⟩ := Prod.mk.inj h
    exact hp t b s hs
  · obtain ⟨-, rfl⟩ := Prod.mk.inj (List.mem_singleton.mp h)
    exact List.suffix_refl _

theorem leavesEnd_many (ok : Char → Bool) : LeavesEnd (many ok) :=
  fun _ a _ h => ⟨a, (mem_many h).1⟩

theorem leavesEnd_many1 (ok : Char → Bool) : LeavesEnd (many1 ok) :=
  (leavesEnd_one ok).bind fun _ => (leavesEnd_many ok).bind fun _ => leavesEnd_pure _

theorem leavesEnd_guard (b : Bool) : LeavesEnd (guard b) := by
  intro t a r h
  obtain ⟨rfl, -⟩ := mem_guard.mp h
  exact List.suffix_refl _

/-! ## Patterns that need a blank -/

/-- Nothing is read where there is no blank. -/
def NeedsBlank (p : Pattern α) : Prop := ∀ t, Blankless t → p t = []

theorem NeedsBlank.bind {p : Pattern α} (hp : NeedsBlank p) (f : α → Pattern β) :
    NeedsBlank (p >>= f) := by
  intro t ht
  refine List.eq_nil_iff_forall_not_mem.mpr fun x hx => ?_
  obtain ⟨a, r, hr, -⟩ := mem_bind.mp hx
  rw [hp t ht] at hr
  exact List.not_mem_nil hr

theorem LeavesEnd.needsBlank {p : Pattern α} {f : α → Pattern β} (hp : LeavesEnd p)
    (hf : ∀ a, NeedsBlank (f a)) : NeedsBlank (p >>= f) := by
  intro t ht
  refine List.eq_nil_iff_forall_not_mem.mpr fun x hx => ?_
  obtain ⟨a, r, hr, hx⟩ := mem_bind.mp hx
  rw [hf a r (ht.of_suffix (hp t a r hr))] at hx
  exact List.not_mem_nil hx

theorem needsBlank_blanks1 : NeedsBlank blanks1 := by
  refine NeedsBlank.bind (fun t ht => ?_) _
  cases t with
  | nil => rfl
  | cons c cs =>
    have hc := ht c List.mem_cons_self
    rw [one, hc]
    rfl

/-- A pattern that needs a blank is nowhere read in a text without blanks. -/
theorem NeedsBlank.replaceAll_eq {p : Option Char → Pattern Text} (hp : ∀ last, NeedsBlank (p last))
    {t : Text} (ht : Blankless t) : replaceAll p t = t :=
  replaceAll_of_none p t fun l s hs => by rw [best?, hp l s (ht.of_suffix hs)]; rfl

end Pattern

namespace Phrase

open Pattern

/-! ## Worded phrasings -/

theorem leavesEnd_words : ∀ ws : List Text, LeavesEnd (words ws)
  | [] => leavesEnd_pure ()
  | [w] => leavesEnd_word w
  | w :: v :: ws =>
    (leavesEnd_word w).bind fun _ => (leavesEnd_many1 isBlank).bind fun _ =>
      leavesEnd_words (v :: ws)

/-- Two words have a blank between them. -/
theorem needsBlank_words (w v : Text) (ws : List Text) : NeedsBlank (words (w :: v :: ws)) :=
  (leavesEnd_word w).needsBlank fun _ => needsBlank_blanks1.bind _

theorem leavesEnd_optionalArticle : LeavesEnd optionalArticle :=
  ((leavesEnd_word _).bind fun _ => leavesEnd_many1 isBlank).optional.bind fun _ =>
    leavesEnd_pure _

theorem leavesEnd_instruction : LeavesEnd instruction := by
  intro t a r h
  rcases List.mem_append.mp h with h | h
  · obtain ⟨w, -, hw⟩ := List.mem_flatMap.mp h
    exact leavesEnd_word w t a r hw
  · exact leavesEnd_words _ t a r h

theorem instructions_of_blankless {t : Text} (ht : Blankless t) :
    ∀ fuel, withoutInstructions fuel t = t
  | 0 => rfl
  | fuel + 1 => by
    have head : NeedsBlank (instruction >>= fun _ => blanks1 >>= fun _ => optionalArticle) :=
      leavesEnd_instruction.needsBlank fun _ => needsBlank_blanks1.bind _
    unfold withoutInstructions
    dsimp only
    rw [best?, head t ht]
    rfl

theorem leavesEnd_derivativeOperator : LeavesEnd derivativeOperator :=
  (leavesEnd_word _).bind fun _ => (leavesEnd_many _).bind fun _ => (leavesEnd_literal _).bind
    fun _ => (leavesEnd_many _).bind fun _ => (leavesEnd_word _).bind fun _ =>
      (leavesEnd_many _).bind fun _ => leavesEnd_one _

theorem needsBlank_openDerivative : NeedsBlank openDerivative :=
  leavesEnd_derivativeOperator.needsBlank fun _ => needsBlank_blanks1.bind _

theorem needsBlank_derivativeOf : NeedsBlank derivativeOf :=
  leavesEnd_optionalArticle.needsBlank fun _ => (needsBlank_words _ _ _).bind _

theorem needsBlank_differentiate : NeedsBlank differentiate :=
  (leavesEnd_word _).needsBlank fun _ => needsBlank_blanks1.bind _

theorem needsBlank_integralOf : NeedsBlank integralOf :=
  leavesEnd_optionalArticle.needsBlank fun _ => (needsBlank_words _ _ _).bind _

theorem needsBlank_integrate : NeedsBlank integrate :=
  (leavesEnd_word _).needsBlank fun _ => needsBlank_blanks1.bind _

theorem leavesEnd_arrow : LeavesEnd arrow := (leavesEnd_literal _).either (leavesEnd_literal _)

theorem needsBlank_arrowLimit (last : Option Char) : NeedsBlank (arrowLimit last) :=
  (leavesEnd_guard _).needsBlank fun _ => (leavesEnd_word _).needsBlank fun _ =>
    (leavesEnd_many _).needsBlank fun _ => (leavesEnd_literal _).optional.needsBlank fun _ =>
    (leavesEnd_many _).needsBlank fun _ => (leavesEnd_literal _).optional.needsBlank fun _ =>
    (leavesEnd_many _).needsBlank fun _ => (leavesEnd_one _).needsBlank fun _ =>
    (leavesEnd_many _).needsBlank fun _ => leavesEnd_arrow.needsBlank fun _ =>
    (leavesEnd_many _).needsBlank fun _ => (leavesEnd_many1 _).needsBlank fun _ =>
    (leavesEnd_many _).needsBlank fun _ => (leavesEnd_literal _).optional.needsBlank fun _ =>
    needsBlank_blanks1.bind _

theorem needsBlank_wordedLimit (last : Option Char) : NeedsBlank (wordedLimit last) :=
  (leavesEnd_guard _).needsBlank fun _ => (needsBlank_words _ _ _).bind _

variable {t : Text}

theorem derivatives_of_blankless (ht : Blankless (wrappedDerivatives t)) :
    derivatives t = wrappedDerivatives t := by
  unfold derivatives
  rw [NeedsBlank.replaceAll_eq (fun _ => needsBlank_openDerivative) ht,
    NeedsBlank.replaceAll_eq (fun _ => needsBlank_derivativeOf) ht,
    NeedsBlank.replaceAll_eq (fun _ => needsBlank_differentiate) ht]

theorem limits_of_blankless (ht : Blankless t) : limits t = t := by
  unfold limits
  rw [NeedsBlank.replaceAll_eq needsBlank_arrowLimit ht,
    NeedsBlank.replaceAll_eq needsBlank_wordedLimit ht]

end Phrase

end Stepwise
