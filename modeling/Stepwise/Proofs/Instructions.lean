import Stepwise.Proofs.Forms

/-!
# Instructions in front of a text

Instructions are words and blanks, so what is dropped of a text depends on the words at its front
alone, up to the first character of another kind: `stripInstructions_append`. A blank behind these
words matters only if nothing but instructions stands in front of it:
`stripInstructions_append_blank`.
-/

namespace Stepwise

open Text Pattern

namespace Pattern

variable {α : Type} {p : Pattern α} {tail t r : Text} {a : α}

/-- If the best reading leaves a tail alone, it is the best one without the tail. -/
theorem Steady.best?_of_leaves (hp : Steady tail p) (h : p.best? (t ++ tail) = some (a, r))
    (hl : tail.length ≤ r.length) : ∃ s, r = s ++ tail ∧ p.best? t = some (a, s) := by
  obtain ⟨rest, hrest⟩ := List.head?_eq_some_iff.mp h
  have hl : leaves tail (a, r) = true := decide_eq_true hl
  have hf := hp.filter_eq t
  rw [hrest, List.filter_cons_of_pos hl] at hf
  cases hb : p t with
  | nil =>
    rw [hb] at hf
    exact absurd hf (List.cons_ne_nil _ _)
  | cons x xs =>
    rw [hb] at hf
    obtain ⟨rfl, hr⟩ := Prod.mk.inj (List.cons.inj hf).1
    exact ⟨x.2, hr, by rw [best?, hb]; rfl⟩

end Pattern

namespace Phrase

variable {b : Char} {m t tail x : Text}

/-- Can the character stand in an instruction? -/
def isWording (c : Char) : Bool := isAnyCaseLetter c || isBlank c

theorem isAnyCaseLetter_of_isDigit {d : Char} (hd : isDigit d = true) :
    isAnyCaseLetter d = false := by
  have hl : isLetter d = false := Bool.eq_false_iff.mpr fun h => by
    rw [isDigit_of_isAlpha h] at hd
    exact Bool.noConfusion hd
  have hv : caseVariant? d = none := by
    unfold caseVariant?
    split
    next h => rcases h with rfl | rfl <;> exact absurd hd (by decide)
    · split
      next h =>
        subst h
        exact absurd hd (by decide)
      · split
        next h =>
          subst h
          exact absurd hd (by decide)
        · rfl
  rw [isAnyCaseLetter, hl, hv]
  rfl

theorem isWording_of_isBlank {c : Char} (h : isBlank c = true) : isWording c = true := by
  rw [isWording, h, Bool.or_true]

theorem isWording_of_isAnyCaseLetter {c : Char} (h : isAnyCaseLetter c = true) :
    isWording c = true := by
  rw [isWording, h, Bool.true_or]

/-- Nothing but wording is read. -/
def Wording {α : Type} (p : Pattern α) : Prop := Reads p fun u _ => ∀ c ∈ u, isWording c = true

section Wording

variable {α β : Type} {p q : Pattern α} {f : α → Pattern β}

theorem Wording.bind (hp : Wording p) (hf : ∀ a, Wording (f a)) : Wording (p >>= f) :=
  Reads.bind hp fun _ a hu => (hf a).mono fun _ _ hv => List.forall_mem_append.mpr ⟨hu, hv⟩

/-- What is read behind wording. -/
theorem Wording.before {Q : Text → β → Prop} (hp : Wording p) (hf : ∀ u a,
    (∀ c ∈ u, isWording c = true) → Reads (f a) fun v b => Q (u ++ v) b) : Reads (p >>= f) Q :=
  Reads.bind hp hf

theorem Wording.either (hp : Wording p) (hq : Wording q) : Wording (either p q) :=
  Reads.either hp hq

theorem Wording.optional (hp : Wording p) : Wording (optional p) := by
  refine (Reads.optional hp).mono fun u o h => ?_
  cases o with
  | none =>
    rw [show u = [] from h]
    exact fun _ h => absurd h List.not_mem_nil
  | some _ => exact h

theorem wording_pure (a : α) : Wording (pure a : Pattern α) :=
  reads_pure fun _ h => absurd h List.not_mem_nil

theorem wording_word {w : Text} (hw : w.all isLetter = true) : Wording (word w) := by
  refine (reads_word w).mono fun u _ hu c hc => ?_
  obtain ⟨k, hk, hs⟩ := hu.2 c hc
  exact isWording_of_isAnyCaseLetter (isAnyCaseLetter_of_sameLetter (List.all_eq_true.mp hw k hk) hs)

theorem wording_blanks : Wording blanks :=
  (reads_many isBlank).mono fun _ _ ⟨hu, hv⟩ c hc => isWording_of_isBlank (hv c (hu ▸ hc))

theorem wording_blanks1 : Wording blanks1 :=
  (reads_many1 isBlank).mono fun _ _ ⟨hu, hv⟩ c hc => isWording_of_isBlank (hv c (hu ▸ hc))

theorem wording_letter : Wording (one isAnyCaseLetter) := by
  refine (reads_one _).mono fun u c ⟨hu, hc⟩ d hd => isWording_of_isAnyCaseLetter ?_
  rw [hu] at hd
  rwa [List.mem_singleton.mp hd]

theorem wording_anyWord : ∀ {ws : List Text}, (ws.all fun w => w.all isLetter) = true →
    Wording (anyWord ws)
  | [], _ => fun _ _ _ h => absurd h List.not_mem_nil
  | _ :: _, h => by
    obtain ⟨hw, hws⟩ := (Bool.and_eq_true _ _).mp h
    rw [anyWord_cons]
    exact (wording_word hw).either (wording_anyWord hws)

theorem wording_words : ∀ {ws : List Text}, (ws.all fun w => w.all isLetter) = true →
    Wording (words ws)
  | [], _ => wording_pure ()
  | [_], h => wording_word (List.all_eq_true.mp h _ List.mem_cons_self)
  | _ :: _ :: _, h => by
    obtain ⟨hw, hws⟩ := (Bool.and_eq_true _ _).mp h
    exact (wording_word hw).bind fun _ => wording_blanks1.bind fun _ => wording_words hws

theorem wording_optionalArticle : Wording optionalArticle := by
  have inner : Wording (word "the".toList >>= fun _ => blanks1) :=
    (wording_word (by decide)).bind fun _ => wording_blanks1
  exact inner.optional.bind fun _ => wording_pure ()

/-- **Instructions are words and blanks.** -/
theorem wording_instructionHead : Wording instructionHead := by
  refine Wording.bind ?_ fun _ => wording_blanks1.bind fun _ => wording_optionalArticle
  rw [instruction_eq]
  exact (wording_anyWord (by decide)).either (wording_words (by decide))

end Wording

/-! ## What comes behind the words -/

theorem skirts_instructionHead (hb : isWording b = false) : Skirts b instructionHead := by
  refine (wording_instructionHead.and reads_instructionHead).mono fun u _ ⟨hw, hu⟩ => ⟨?_, fun hm => ?_⟩
  · obtain ⟨s, c, rfl, -⟩ := hu
    exact List.append_ne_nil_of_right_ne_nil s (List.cons_ne_nil _ _)
  · rw [hw b hm] at hb
    exact Bool.noConfusion hb

theorem withoutInstructions_suffix : ∀ (fuel : Nat) (t : Text), withoutInstructions fuel t <:+ t
  | 0, t => List.suffix_refl t
  | fuel + 1, t => by
    rw [withoutInstructions_succ]
    split
    next u r h =>
      obtain ⟨v, rfl, -⟩ := reads_instructionHead _ _ _ (mem_of_best? h)
      exact (withoutInstructions_suffix fuel r).trans (List.suffix_append v r)
    next => exact List.suffix_refl t

/-- **Instructions are dropped whatever comes behind the words.** -/
theorem withoutInstructions_append_of_wording (hx : ∀ c, x.head? = some c → isWording c = false)
    (fuel : Nat) (m : Text) :
    withoutInstructions fuel (m ++ x) = withoutInstructions fuel m ++ x := by
  cases x with
  | nil => rw [List.append_nil, List.append_nil]
  | cons b tail =>
    induction fuel generalizing m with
    | zero => rfl
    | succ fuel ih =>
      have unmoved : Unmoved (b :: tail) instructionHead :=
        steady_instructionHead.unmoved_of_skirts (skirts_instructionHead (hx b rfl))
      have hbest := unmoved.best?_append m
      rw [withoutInstructions_succ, withoutInstructions_succ, hbest]
      cases instructionHead.best? m with
      | none => rfl
      | some y => exact ih y.2

theorem stripInstructions_append (hx : ∀ c, x.head? = some c → isWording c = false) (m : Text) :
    Rule.stripInstructions.apply (m ++ x) = Rule.stripInstructions.apply m ++ x := by
  have hfuel : withoutInstructions (m ++ x).length m = withoutInstructions m.length m :=
    withoutInstructions_eq (by rw [List.length_append]; exact Nat.le_add_right _ _) (Nat.le_refl _)
  exact (withoutInstructions_append_of_wording hx _ m).trans (congrArg (· ++ x) hfuel)

/-- A blank behind the words stays, or it completes an instruction and nothing is left. -/
theorem withoutInstructions_append_blank : ∀ (fuel : Nat) {m : Text}, NoBlankEnd m →
    withoutInstructions fuel (m ++ [' ']) = withoutInstructions fuel m ++ [' '] ∨
      withoutInstructions fuel (m ++ [' ']) = [] ∧ withoutInstructions fuel m ≠ []
  | 0, _, _ => .inl rfl
  | fuel + 1, m, hm => by
    have steady : Steady [' '] instructionHead := steady_instructionHead
    rw [withoutInstructions_succ, withoutInstructions_succ]
    cases h : instructionHead.best? (m ++ [' ']) with
    | none =>
      have hm' : instructionHead.best? m = none := by
        cases hb : instructionHead.best? m with
        | none => rfl
        | some y => exact absurd h (best?_ne_none.mpr ⟨_, _, steady.mem_append (mem_of_best? hb)⟩)
      rw [hm']
      exact .inl rfl
    | some y =>
      obtain ⟨u, r⟩ := y
      cases r with
      | nil =>
        refine .inr ⟨instructions_of_blankless .nil fuel, ?_⟩
        have hne : m ≠ [] := by
          rintro rfl
          have : instructionHead [' '] = [] := rfl
          exact absurd (mem_of_best? h) (by rw [List.nil_append, this]; exact List.not_mem_nil)
        exact (@instructions_suffix (fuel + 1) _ hm hne).2
      | cons c cs =>
        obtain ⟨s, hr, hb⟩ := steady.best?_of_leaves h (Nat.succ_le_succ (Nat.zero_le _))
        obtain ⟨v, hv, -⟩ := reads_instructionHead _ _ _ (mem_of_best? hb)
        rw [hb, hr]
        exact withoutInstructions_append_blank fuel (hm.of_suffix ⟨v, hv.symm⟩)

theorem stripInstructions_append_blank (hm : NoBlankEnd m) :
    Rule.stripInstructions.apply (m ++ [' ']) = Rule.stripInstructions.apply m ++ [' '] ∨
      Rule.stripInstructions.apply (m ++ [' ']) = [] ∧ Rule.stripInstructions.apply m ≠ [] := by
  have hfuel : withoutInstructions (m ++ [' ']).length m = withoutInstructions m.length m :=
    withoutInstructions_eq (by rw [List.length_append]; exact Nat.le_add_right _ _) (Nat.le_refl _)
  have h := withoutInstructions_append_blank (m ++ [' ']).length hm
  rwa [hfuel] at h

end Phrase

end Stepwise
