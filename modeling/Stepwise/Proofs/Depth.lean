import Stepwise.Proofs.Instructions
import Stepwise.Proofs.NestedOperators
import Stepwise.Proofs.Operators

/-!
# Brackets through the rules

Brackets of all kinds are counted alike, as all of them become round in the end (`level`). The
phrasings of derivatives and integrals put a body into brackets and leave out nothing that has any,
so that as many are open afterwards as before (`KeepsLevel`). A phrasing of a limit moves the target
behind the body; this is harmless if the brackets of the target are in balance (`FairTargets`).

Results: `keepsLevel_derivatives`, `keepsLevel_integrals`, `keepsLevel_limits`, and
`balanced_canonical`, the canonical form of a well-nested text is balanced.
-/

namespace Stepwise.Phrase

open Text Pattern Stepwise.Bracket

variable {b c d : Char} {k m n : Nat} {body l name r s t u v w : Text}

/-- The number of brackets, of whatever kind, that are open after a text, unless one closes what is
not open. -/
def level (n : Nat) (t : Text) : Option Nat := depthAfter n (t.map roundBracket)

/-- After the second text as many brackets are open as after the first one. -/
def KeepsLevel (s t : Text) : Prop := ∀ n m, level n s = some m → level n t = some m

/-- There is no bracket in the text. -/
def Flat (w : Text) : Prop := ∀ c ∈ w, closer? c = none ∧ isCloser c = false

/-! ## Counting -/

theorem level_append (n : Nat) (s t : Text) :
    level n (s ++ t) = (level n s).bind fun n => level n t := by
  rw [level, List.map_append, depthAfter_append]
  rfl

theorem level_cons (n : Nat) (c : Char) (t : Text) :
    level n (c :: t) = (depthStep n (roundBracket c)).bind fun n => level n t := rfl

theorem level_opener (h : closer? c = some d) (n : Nat) (t : Text) :
    level n (c :: t) = level (n + 1) t := by
  rcases closer?_cases h with ⟨rfl, -⟩ | ⟨rfl, -⟩ | ⟨rfl, -⟩ <;> rfl

theorem level_closer (h : isCloser c = true) (n : Nat) (t : Text) :
    level (n + 1) (c :: t) = level n t := by
  have hround : roundBracket c = ')' := by
    rw [isCloser, Bool.or_eq_true, Bool.or_eq_true, beq_iff_eq, beq_iff_eq, beq_iff_eq] at h
    rcases h with (rfl | rfl) | rfl <;> rfl
  rw [level_cons, hround]
  rfl

theorem depthStep_of_flat (h : closer? c = none ∧ isCloser c = false) (n : Nat) :
    depthStep n (roundBracket c) = some n := by
  have hround : roundBracket c = c := by
    refine (roundBracket_cases c).resolve_right fun hm => ?_
    have : ∀ c ∈ ['[', ']', '\x7b', '\x7d'], closer? c ≠ none ∨ isCloser c ≠ false :=
      forall_mem_of_all (by decide)
    exact (this c hm).elim (absurd h.1) (absurd h.2)
  rw [hround]
  refine depthStep_other ?_ ?_ n
  · rintro rfl
    exact absurd h.1 (by decide)
  · rintro rfl
    exact absurd h.2 (by decide)

theorem level_flat (h : Flat w) (n : Nat) : level n w = some n := by
  induction w with
  | nil => rfl
  | cons c w ih =>
    obtain ⟨hc, hw⟩ := List.forall_mem_cons.mp h
    rw [level_cons, depthStep_of_flat hc]
    exact ih hw

theorem level_flat_append (h : Flat w) (n : Nat) (t : Text) : level n (w ++ t) = level n t := by
  rw [level_append, level_flat h]
  rfl

/-- One more bracket can be open all the time. -/
theorem level_succ : ∀ {t : Text} {n}, level n t = some m → level (n + 1) t = some (m + 1)
  | [], n, h => congrArg (Option.map (· + 1)) h
  | c :: t, n, h => by
    rw [level_cons] at h ⊢
    obtain ⟨k, hk, h⟩ := Option.bind_eq_some_iff.mp h
    have hstep : depthStep (n + 1) (roundBracket c) = some (k + 1) := by
      rcases depthStep_cases hk with ⟨hc, rfl⟩ | ⟨hc, rfl⟩ | ⟨ho, hc, rfl⟩
      · rw [hc]
        rfl
      · rw [hc]
        rfl
      · exact depthStep_other ho hc _
    rw [hstep]
    exact level_succ h

theorem flat_nil : Flat [] := fun _ h => absurd h List.not_mem_nil

theorem Flat.append (hs : Flat s) (ht : Flat t) : Flat (s ++ t) :=
  List.forall_mem_append.mpr ⟨hs, ht⟩

theorem Flat.cons (hc : closer? c = none ∧ isCloser c = false) (ht : Flat t) : Flat (c :: t) :=
  List.forall_mem_cons.mpr ⟨hc, ht⟩

/-- The brackets. -/
theorem flat_of_not_mem
    (h : ∀ d ∈ ['(', ')', '[', ']', '\x7b', '\x7d'], d ∉ w) : Flat w := by
  intro c hc
  constructor
  · cases ho : closer? c with
    | none => rfl
    | some d =>
      refine absurd hc (h c ?_)
      rcases closer?_cases ho with ⟨rfl, -⟩ | ⟨rfl, -⟩ | ⟨rfl, -⟩ <;> decide
  · refine Bool.eq_false_iff.mpr fun hb => h c ?_ hc
    rw [isCloser, Bool.or_eq_true, Bool.or_eq_true, beq_iff_eq, beq_iff_eq, beq_iff_eq] at hb
    rcases hb with (rfl | rfl) | rfl <;> decide

theorem flat_of_wording (h : ∀ c ∈ w, isWording c = true) : Flat w := by
  refine flat_of_not_mem fun d hd hm => ?_
  have : ∀ d ∈ ['(', ')', '[', ']', '\x7b', '\x7d'], isWording d = false :=
    forall_mem_of_all (by decide)
  have hw := h d hm
  rw [this d hd] at hw
  exact Bool.noConfusion hw

theorem flat_lower (hc : isAnyCaseLetter c = true) : Flat (lower c) := by
  have : ∀ d ∈ ['(', ')', '[', ']', '\x7b', '\x7d'], isAnyCaseLetter d = false ∧ d ≠ '\u0307' :=
    forall_mem_of_all (by decide)
  exact flat_of_not_mem fun d hd => not_mem_lower (this d hd).1 (this d hd).2 hc

theorem flat_blanks (h : ∀ c ∈ w, isBlank c = true) : Flat w :=
  flat_of_wording fun c hc => isWording_of_isBlank (h c hc)

theorem flat_letter (h : isAnyCaseLetter c = true) : Flat [c] :=
  flat_of_wording (List.forall_mem_singleton.mpr (isWording_of_isAnyCaseLetter h))

theorem level_trim (n : Nat) (t : Text) : level n (trim t) = level n t := by
  obtain ⟨l, r, he, hl, hr⟩ := trim_split t
  have hright : ∀ o : Option Nat, (o.bind fun n => level n r) = o := by
    intro o
    cases o with
    | none => rfl
    | some n => exact level_flat (flat_blanks hr) n
  conv => rhs; rw [he]
  rw [level_flat_append (flat_blanks hl), level_append, hright]

theorem KeepsLevel.append (h : KeepsLevel s u) (h' : KeepsLevel t v) :
    KeepsLevel (s ++ t) (u ++ v) := by
  intro n m hn
  rw [level_append] at hn ⊢
  obtain ⟨k, hk, hm⟩ := Option.bind_eq_some_iff.mp hn
  rw [h n k hk]
  exact h' k m hm

theorem KeepsLevel.refl (t : Text) : KeepsLevel t t := fun _ _ h => h

theorem KeepsLevel.trans (h : KeepsLevel s t) (h' : KeepsLevel t u) : KeepsLevel s u :=
  fun n m hn => h' n m (h n m hn)

/-! ## Calls -/

/-- As many brackets are open after a call as after its argument. -/
theorem level_call (hn : Flat name) (hw : Flat w) (h : level n body = some m) :
    level n (callText name [trim body, w]) = some m := by
  have hcall : callText name [trim body, w] =
      name ++ '(' :: (trim body ++ (',' :: w ++ [')'])) := by
    rw [callText_pair]
    simp
  have hbody : level (n + 1) (trim body) = some (m + 1) := by
    rw [level_trim]
    exact level_succ h
  have hend : Flat (',' :: w) := hw.cons (by decide)
  rw [hcall, level_flat_append hn, level_opener (d := ')') rfl, level_append, hbody]
  exact (level_flat_append hend _ _).trans (level_closer (by decide) m [])

/-- What is given for what is read: a call, whose body is what is read but for texts without
brackets. -/
def Encloses (name u new : Text) : Prop :=
  u ≠ [] ∧ ∃ l body r w, u = l ++ (body ++ r) ∧ new = callText name [trim body, w] ∧
    Flat l ∧ Flat r ∧ Flat w

theorem Encloses.keepsLevel (hn : Flat name) (h : Encloses name u v) : KeepsLevel u v := by
  obtain ⟨-, l, body, r, w, rfl, rfl, hl, hr, hw⟩ := h
  intro n m h
  rw [level_flat_append hl, level_append] at h
  obtain ⟨k, hk, h⟩ := Option.bind_eq_some_iff.mp h
  rw [level_flat hr] at h
  obtain rfl := Option.some.inj h
  exact level_call hn hw hk

/-- Whatever is read in the text, as many brackets are open after what is given for it. -/
def KeepsLevels (p : Option Char → Pattern Text) (t : Text) : Prop :=
  ∀ last s new r, s <:+ t → (new, r) ∈ p last s → ∃ u, s = u ++ r ∧ u ≠ [] ∧ KeepsLevel u new

theorem keepsLevels_of_reads {p : Option Char → Pattern Text}
    (hp : ∀ last, Reads (p last) fun u new => u ≠ [] ∧ KeepsLevel u new) (t : Text) :
    KeepsLevels p t :=
  fun last s new r _ h => hp last s new r h

theorem keepsLevel_replaceFrom {p : Option Char → Pattern Text} : ∀ (n : Nat) {t : Text}
    (last : Option Char), t.length ≤ n → KeepsLevels p t → KeepsLevel t (replaceFrom p last 0 t)
  | _, [], _, _, _ => KeepsLevel.refl []
  | n + 1, c :: cs, last, hn, hp => by
    cases hbest : (p last).best? (c :: cs) with
    | none =>
      rw [replaceFrom, hbest]
      have hcs : KeepsLevels p cs := fun last s new r hs =>
        hp last s new r (hs.trans (List.suffix_cons c cs))
      exact (KeepsLevel.refl [c]).append
        (keepsLevel_replaceFrom n (some c) (Nat.le_of_succ_le_succ hn) hcs)
    | some y =>
      obtain ⟨new, r⟩ := y
      obtain ⟨u, heq, hu, hnew⟩ := hp last _ new r (List.suffix_refl _) (mem_of_best? hbest)
      rw [heq] at hbest hn hp ⊢
      obtain ⟨last', hfront⟩ := replaceFrom_of_best? hu hbest
      have hr : KeepsLevels p r := fun last s new r' hs =>
        hp last s new r' (hs.trans (List.suffix_append u r))
      have hle : r.length ≤ n := by
        have := List.length_pos_iff.mpr hu
        rw [List.length_append] at hn
        omega
      rw [hfront]
      exact hnew.append (keepsLevel_replaceFrom n last' hle hr)

/-- **What keeps the brackets in what it reads keeps those of the text.** -/
theorem keepsLevel_replaceAll {p : Option Char → Pattern Text} (h : KeepsLevels p t) :
    KeepsLevel t (replaceAll p t) :=
  keepsLevel_replaceFrom t.length none (Nat.le_refl _) h

/-! ## Derivatives -/

/-- Brackets in balance stay so, however many are open around them. -/
theorem level_of_balanced (h : level 0 t = some 0) : ∀ n, level n t = some n
  | 0 => h
  | n + 1 => level_succ (level_of_balanced h n)

theorem level_of_wellNested (h : WellNested t) : ∀ n, level n t = some n :=
  level_of_balanced (depthAfter_map_roundBracket h)

theorem flat_operator {x : Char} (h : Operator u x) : Flat u := by
  have : ∀ d ∈ ['(', ')', '[', ']', '\x7b', '\x7d'], isKeywordChar d = false :=
    forall_mem_of_all (by decide)
  refine flat_of_not_mem fun d hd hm => ?_
  have hk := h.chars d hm
  rw [this d hd] at hk
  exact Bool.noConfusion hk

theorem flat_derivativeName : Flat derivativeName := forall_mem_of_all (by decide)

theorem flat_integralName : Flat integralName := forall_mem_of_all (by decide)

theorem Wraps.keepsLevel (h : Wraps t r) : KeepsLevel t r := by
  induction h with
  | nil => exact KeepsLevel.refl []
  | @other c cs r _ _ ih => exact (KeepsLevel.refl [c]).append ih
  | @operator u body after r x opener closer hu _ hc hb _ ih =>
    intro n m h
    have hbody := level_of_wellNested hb
    rw [level_flat_append (flat_operator hu), level_opener hc, level_append, hbody] at h
    rw [level_append, level_call flat_derivativeName (flat_lower hu.letter) (hbody n)]
    exact ih n m ((level_closer (isCloser_of_closer? hc) n after).symm.trans h)

/-- The operator, without brackets, and its variable. -/
theorem reads_derivativeOperator_flat : Reads derivativeOperator fun u x =>
    u ≠ [] ∧ Flat u ∧ isAnyCaseLetter x = true := by
  refine (wording_word (by decide)).before fun u₁ _ h₁ => wording_blanks.before fun u₂ _ h₂ =>
    (reads_literal _).bind fun u₃ _ h₃ => wording_blanks.before fun u₄ _ h₄ =>
    (wording_word (by decide)).before fun u₅ _ h₅ => wording_blanks.before fun u₆ _ h₆ =>
    (reads_one _).mono fun u₇ x ⟨h₇, hx⟩ => ?_
  have hslash : Flat u₃ := by
    rw [h₃]
    exact forall_mem_of_all (by decide)
  have hletter : Flat u₇ := by
    rw [h₇]
    exact flat_letter hx
  refine ⟨by simp [h₃], ?_, hx⟩
  exact (flat_of_wording h₁).append <| (flat_of_wording h₂).append <| hslash.append <|
    (flat_of_wording h₄).append <| (flat_of_wording h₅).append <| (flat_of_wording h₆).append hletter

theorem encloses_openDerivative : Reads openDerivative (Encloses derivativeName) := by
  refine reads_derivativeOperator_flat.bind fun u x ⟨hu, hf, hx⟩ => wording_blanks1.before fun v _ hv =>
    (reads_many1 _).bind fun w body ⟨hw, _⟩ => stays_atEnd.bind fun _ => reads_pure ?_
  refine ⟨by simp [hu], u ++ v, body, [], lower x, by simp [hw], rfl, ?_, flat_nil, flat_lower hx⟩
  exact hf.append (flat_of_wording hv)

theorem wording_respectTo : Wording respectTo :=
  Wording.optional <| wording_blanks1.bind fun _ => (wording_words (by decide)).bind fun _ =>
    wording_blanks1.bind fun _ => wording_letter

/-- A variable that is named is a letter. -/
theorem flat_variable {o : Option Char} (h : ∀ x ∈ o, isAnyCaseLetter x = true) :
    Flat [o.getD usualVariable] := by
  cases o with
  | none => exact flat_letter (by decide)
  | some x => exact flat_letter (h x rfl)

theorem reads_wordedBody_flat : Reads wordedBody fun u x =>
    (∃ r, u = x.1 ++ r ∧ Flat r) ∧ Flat [x.2.getD usualVariable] := by
  have hm : '.' ∈ sentenceMarks := by decide
  refine (reads_few1 _).bind fun u body h => (wording_respectTo.and (reads_respectTo hm)).bind
    fun v o ⟨hv, _, ho⟩ => wording_blanks.before fun w _ hw => stays_atEnd.bind fun _ => reads_pure ?_
  refine ⟨⟨v ++ w, by simp [h], ?_⟩, flat_variable ho⟩
  exact (flat_of_wording hv).append (flat_of_wording hw)

theorem encloses_derivativeOf : Reads derivativeOf (Encloses derivativeName) := by
  have hm : '.' ∈ sentenceMarks := by decide
  have hwords : Wording (words ["derivative".toList, "of".toList]) := wording_words (by decide)
  refine wording_optionalArticle.before fun u₁ _ h₁ =>
    (hwords.and (reads_words hm (by decide) (by decide))).bind fun u₂ _ ⟨h₂, hn⟩ =>
    wording_blanks1.before fun u₃ _ h₃ => reads_wordedBody_flat.bind fun w x ⟨⟨r, hw, hr⟩, hx⟩ =>
    reads_pure ?_
  refine ⟨by simp [hn.1], u₁ ++ (u₂ ++ u₃), x.1, r, _, by simp [hw], rfl, ?_, hr, hx⟩
  exact (flat_of_wording h₁).append ((flat_of_wording h₂).append (flat_of_wording h₃))

/-- A command puts its body into brackets. -/
theorem encloses_commanded {k name : Text} (hk : k.all isLetter = true) (hn : k ≠ []) :
    Reads (commanded k name) (Encloses name) := by
  have hm : '.' ∈ sentenceMarks := by decide
  refine ((wording_word hk).and (reads_letters hm hk hn)).bind fun u₁ _ ⟨h₁, hn⟩ =>
    wording_blanks1.before fun u₂ _ h₂ => (stays_notBefore _).bind fun _ =>
    reads_wordedBody_flat.bind fun w x ⟨⟨r, hw, hr⟩, hx⟩ => reads_pure ?_
  refine ⟨by simp [hn.1], u₁ ++ u₂, x.1, r, _, by simp [hw], rfl, ?_, hr, hx⟩
  exact (flat_of_wording h₁).append (flat_of_wording h₂)

theorem keepsLevel_of_encloses {p : Option Char → Pattern Text} (hn : Flat name)
    (hp : ∀ last, Reads (p last) (Encloses name)) (t : Text) : KeepsLevel t (replaceAll p t) :=
  keepsLevel_replaceAll <|
    keepsLevels_of_reads (fun last => (hp last).mono fun _ _ h => ⟨h.1, h.keepsLevel hn⟩) t

/-- **The phrasings of derivatives keep the brackets in balance.** -/
theorem keepsLevel_derivatives (h : WellNested t) : KeepsLevel t (derivatives t) :=
  (wraps_wrappedDerivatives h).keepsLevel.trans <|
    (keepsLevel_of_encloses flat_derivativeName (fun _ => encloses_openDerivative) _).trans <|
    (keepsLevel_of_encloses flat_derivativeName (fun _ => encloses_derivativeOf) _).trans <|
    keepsLevel_of_encloses flat_derivativeName
      (fun _ => encloses_commanded (k := "differentiate".toList) (by decide) (by decide)) _

/-! ## Integrals -/

theorem encloses_signWithDifferential : Reads signWithDifferential (Encloses integralName) := by
  refine (reads_literal _).bind fun u₁ _ h₁ => wording_blanks.before fun u₂ _ h₂ =>
    (reads_few1 _).bind fun w body hw => wording_blanks.before fun u₃ _ h₃ =>
    (reads_literal _).bind fun u₄ _ h₄ => (reads_one _).bind fun u₅ x ⟨h₅, hx⟩ =>
    (stays_notBefore _).bind fun _ => reads_pure ?_
  have hx : isAnyCaseLetter x = true := isAnyCaseLetter_of_isLetter hx
  have hsign : Flat u₁ := by
    rw [h₁]
    exact forall_mem_of_all (by decide)
  have hd : Flat (u₄ ++ u₅) := by
    rw [h₄, h₅]
    exact Flat.append (forall_mem_of_all (by decide)) (flat_letter hx)
  refine ⟨by simp [h₁], u₁ ++ u₂, body, u₃ ++ (u₄ ++ u₅), _, by simp [hw], rfl,
    hsign.append (flat_of_wording h₂), (flat_of_wording h₃).append hd, flat_letter hx⟩

theorem encloses_openIntegral : Reads openIntegral (Encloses integralName) := by
  refine (reads_literal _).bind fun u₁ _ h₁ => wording_blanks.before fun u₂ _ h₂ =>
    (reads_many1 _).bind fun w body ⟨hw, _⟩ => stays_atEnd.bind fun _ => reads_pure ?_
  have hsign : Flat u₁ := by
    rw [h₁]
    exact forall_mem_of_all (by decide)
  exact ⟨by simp [h₁], u₁ ++ u₂, body, [], _, by simp [hw], rfl, hsign.append (flat_of_wording h₂),
    flat_nil, flat_letter (by decide)⟩

theorem wording_wordedDifferential : Wording wordedDifferential :=
  Wording.optional <| wording_blanks1.bind fun _ => (wording_word (by decide)).bind fun _ =>
    wording_letter.before fun u x hu => (stays_notBefore _).bind fun _ => reads_pure <| by
      rwa [List.append_nil]

theorem encloses_integralOf : Reads integralOf (Encloses integralName) := by
  have hm : '.' ∈ sentenceMarks := by decide
  have hwords : Wording (words ["integral".toList, "of".toList]) := wording_words (by decide)
  refine wording_optionalArticle.before fun u₁ _ h₁ =>
    (hwords.and (reads_words hm (by decide) (by decide))).bind fun u₂ _ ⟨h₂, hn⟩ =>
    wording_blanks1.before fun u₃ _ h₃ => (reads_few1 _).bind fun w body hw =>
    (wording_wordedDifferential.and (reads_wordedDifferential hm)).bind fun u₄ x ⟨h₄, _, hx⟩ =>
    (wording_respectTo.and (reads_respectTo hm)).bind fun u₅ y ⟨h₅, _, hy⟩ =>
    wording_blanks.before fun u₆ _ h₆ => stays_atEnd.bind fun _ => reads_pure ?_
  have ho : ∀ z ∈ (x <|> y), isAnyCaseLetter z = true := by
    cases x with
    | none => exact hy
    | some x => exact hx
  refine ⟨by simp [hn.1], u₁ ++ (u₂ ++ u₃), body, u₄ ++ (u₅ ++ u₆), _, by simp [hw], rfl, ?_, ?_,
    flat_variable ho⟩
  · exact (flat_of_wording h₁).append ((flat_of_wording h₂).append (flat_of_wording h₃))
  · exact (flat_of_wording h₄).append ((flat_of_wording h₅).append (flat_of_wording h₆))

theorem keepsLevel_shortIntegral (last : Option Char) :
    Reads (shortIntegral last) fun u new => u ≠ [] ∧ KeepsLevel u new := by
  refine (stays_guard _).bind fun _ => (reads_literal _).bind fun u₁ _ h₁ =>
    wording_blanks.before fun u₂ _ h₂ => (reads_literal _).bind fun u₃ _ h₃ => reads_pure ?_
  have hname : Flat u₁ := by
    rw [h₁]
    exact forall_mem_of_all (by decide)
  refine ⟨by simp [h₁], fun n m h => ?_⟩
  rw [level_flat_append hname, level_flat_append (flat_of_wording h₂), h₃] at h
  rw [level_flat_append flat_integralName]
  exact h

/-- **The phrasings of integrals keep the brackets in balance.** -/
theorem keepsLevel_integrals (t : Text) : KeepsLevel t (integrals t) :=
  (keepsLevel_of_encloses flat_integralName (fun _ => encloses_signWithDifferential) t).trans <|
    (keepsLevel_of_encloses flat_integralName (fun _ => encloses_openIntegral) _).trans <|
    (keepsLevel_of_encloses flat_integralName (fun _ => encloses_integralOf) _).trans <|
    (keepsLevel_of_encloses flat_integralName
      (fun _ => encloses_commanded (k := integralName) (by decide) (by decide)) _).trans <|
    keepsLevel_replaceAll (keepsLevels_of_reads keepsLevel_shortIntegral _)

/-! ## Limits -/

theorem bind_assoc_pattern {α β γ : Type} (p : Pattern α) (f : α → Pattern β) (g : β → Pattern γ) :
    p >>= f >>= g = p >>= fun a => f a >>= g := by
  funext t
  exact List.flatMap_assoc

theorem pure_bind_pattern {α β : Type} (a : α) (f : α → Pattern β) : pure a >>= f = f a := by
  funext t
  exact List.append_nil _

/-- What a limit says in front of its body: the variable, the target, and whether a brace is opened
in front of the variable and closed behind the target. -/
structure Front where
  opened : Bool
  letter : Char
  target : Text
  closed : Bool

/-- The front of "lim" with an arrow. -/
def arrowFront (last : Option Char) : Pattern Front := do
  guard (atBoundary last)
  word "lim".toList
  let _ ← blanks
  let _ ← optional (literal ['_'])
  let _ ← blanks
  let o ← optional (literal ['\x7b'])
  let _ ← blanks
  let x ← one isAnyCaseLetter
  let _ ← blanks
  arrow
  let _ ← blanks
  let target ← many1 fun c => !isBlank c && c != '\x7d'
  let _ ← blanks
  let e ← optional (literal ['\x7d'])
  let _ ← blanks1
  return ⟨o.isSome, x, target, e.isSome⟩

/-- The front of "limit as V approaches A of". -/
def wordedFront (last : Option Char) : Pattern Front := do
  guard (atBoundary last)
  words ["limit".toList, "as".toList]
  let _ ← blanks1
  let x ← one isAnyCaseLetter
  let _ ← blanks1
  approaches
  let _ ← blanks1
  let target ← many1 fun c => !isBlank c
  let _ ← blanks1
  word "of".toList
  let _ ← blanks1
  return ⟨false, x, target, false⟩

/-- The body, up to the end of the text. -/
def behindFront (f : Front) : Pattern Text := do
  let body ← many1 inLine
  atEnd
  return limitCall body f.letter f.target

theorem arrowLimit_eq (last : Option Char) : arrowLimit last = arrowFront last >>= behindFront := by
  simp only [arrowFront, bind_assoc_pattern, pure_bind_pattern]
  rfl

theorem wordedLimit_eq (last : Option Char) : wordedLimit last = wordedFront last >>= behindFront := by
  simp only [wordedFront, bind_assoc_pattern, pure_bind_pattern]
  rfl

/-- The brackets of the target are in balance, and there are two braces around it or none. -/
structure Front.Fair (f : Front) : Prop where
  braces : f.opened = f.closed
  target : level 0 f.target = some 0

/-- Every limit that is read in the text has a fair front. -/
def FairFronts (p : Option Char → Pattern Front) (t : Text) : Prop :=
  ∀ last s f r, s <:+ t → (f, r) ∈ p last s → f.Fair

/-- Every limit in the text has a fair front. -/
structure FairTargets (t : Text) : Prop where
  arrow : FairFronts arrowFront t
  worded : FairFronts wordedFront (replaceAll arrowLimit t)

/-- As many brackets are open behind a fair front as before. -/
theorem level_front {f : Front} {e o x y z : Text} (hf : f.Fair) (hl : Flat l) (hx : Flat x)
    (hy : Flat y) (hz : Flat z) (ho : o = if f.opened then ['\x7b'] else [])
    (he : e = if f.closed then ['\x7d'] else []) (n : Nat) :
    level n (l ++ (o ++ (x ++ (f.target ++ (y ++ (e ++ z)))))) = some n := by
  have htarget := level_of_balanced hf.target
  rw [ho, he, ← hf.braces, level_flat_append hl]
  cases f.opened with
  | false =>
    rw [if_neg (by decide), if_neg (by decide), List.nil_append, List.nil_append,
      level_flat_append hx, level_append, htarget]
    exact (level_flat_append hy n z).trans (level_flat hz n)
  | true =>
    rw [if_pos rfl, if_pos rfl, List.singleton_append, level_opener (d := '\x7d') rfl,
      level_flat_append hx, level_append, htarget]
    refine (level_flat_append hy (n + 1) _).trans ?_
    exact (level_closer (by decide) n z).trans (level_flat hz n)

/-- What is given for a front and its body, where the target comes last. -/
theorem level_limitCall {x : Char} (hx : isAnyCaseLetter x = true) (ht : level 0 t = some 0)
    (h : level n body = some m) : level n (limitCall body x t) = some m := by
  have hcall : limitCall body x t =
      limitName ++ '(' :: (trim body ++ ([',', x, ','] ++ (t ++ [')']))) := by
    simp [limitCall, callText, joinWith]
  have hname : Flat limitName := forall_mem_of_all (by decide)
  have hbody : level (n + 1) (trim body) = some (m + 1) := by
    rw [level_trim]
    exact level_succ h
  have hletter : Flat [',', x, ','] :=
    Flat.cons (by decide) ((flat_letter hx).append (forall_mem_of_all (by decide)))
  rw [hcall, level_flat_append hname, level_opener (d := ')') rfl, level_append, hbody]
  refine (level_flat_append hletter (m + 1) _).trans ?_
  rw [level_append, level_of_balanced ht]
  exact level_closer (by decide) m []

/-- What a front is for the brackets of a text. -/
def FrontLike (u : Text) (f : Front) : Prop :=
  u ≠ [] ∧ isAnyCaseLetter f.letter = true ∧ (f.Fair → ∀ n, level n u = some n)

theorem keepsLevels_behindFront {p : Option Char → Pattern Front}
    (hp : ∀ last, Reads (p last) FrontLike) (h : FairFronts p t) :
    KeepsLevels (fun last => p last >>= behindFront) t := by
  intro last s new r hs hm
  obtain ⟨f, s', hf, hbody⟩ := mem_bind.mp hm
  obtain ⟨u, rfl, hu, hx, hlevel⟩ := hp last s f s' hf
  have hfair := h last _ f s' hs hf
  have hrest : Reads (behindFront f) fun v new => ∃ body, v = body ∧
      new = limitCall body f.letter f.target :=
    (reads_many1 _).bind fun w body ⟨hw, _⟩ => stays_atEnd.bind fun _ => reads_pure
      ⟨body, by simp [hw], rfl⟩
  obtain ⟨v, rfl, body, rfl, rfl⟩ := hrest s' new r hbody
  refine ⟨u ++ v, by simp, by simp [hu], fun n m hn => ?_⟩
  rw [level_append, hlevel hfair n] at hn
  exact level_limitCall hx hfair.target hn

theorem reads_optional_literal (c : Char) :
    Reads (optional (literal [c])) fun u o => u = if o.isSome then [c] else [] :=
  (reads_literal [c]).optional.mono fun u o h => by
    cases o with
    | none => exact h
    | some _ => exact h

theorem reads_arrow_flat : Reads arrow fun u _ => Flat u := by
  refine Reads.either ((reads_literal _).mono ?_) ((reads_literal _).mono ?_) <;>
  · rintro u _ rfl
    exact forall_mem_of_all (by decide)

theorem reads_arrowFront (last : Option Char) : Reads (arrowFront last) FrontLike := by
  have hm : '.' ∈ sentenceMarks := by decide
  have hlim : Wording (word "lim".toList) := wording_word (by decide)
  refine (stays_guard _).bind fun _ =>
    (hlim.and (reads_letters hm (by decide) (by decide))).bind fun u₁ _ ⟨h₁, hn⟩ =>
    wording_blanks.before fun u₂ _ h₂ => (reads_optional_literal _).bind fun u₃ _ h₃ =>
    wording_blanks.before fun u₄ _ h₄ => (reads_optional_literal _).bind fun u₅ o h₅ =>
    wording_blanks.before fun u₆ _ h₆ => (reads_one _).bind fun u₇ x ⟨h₇, hx⟩ =>
    wording_blanks.before fun u₈ _ h₈ => reads_arrow_flat.bind fun u₉ _ h₉ =>
    wording_blanks.before fun u₁₀ _ h₁₀ => (reads_many1 _).bind fun v target ⟨hv, _⟩ =>
    wording_blanks.before fun v₁ _ k₁ => (reads_optional_literal _).bind fun v₂ e k₂ =>
    wording_blanks1.before fun v₃ _ k₃ => reads_pure ?_
  have hsign : Flat u₃ := by
    rw [h₃]
    split
    · exact forall_mem_of_all (by decide)
    · exact flat_nil
  have hletter : Flat u₇ := by
    rw [h₇]
    exact flat_letter hx
  refine ⟨by simp [hn.1], hx, fun hf n => ?_⟩
  have hlevel := level_front (l := u₁ ++ (u₂ ++ (u₃ ++ u₄)))
    (x := u₆ ++ (u₇ ++ (u₈ ++ (u₉ ++ u₁₀)))) (y := v₁) (z := v₃) hf
    ((flat_of_wording h₁).append <| (flat_of_wording h₂).append <| hsign.append (flat_of_wording h₄))
    ((flat_of_wording h₆).append <| hletter.append <| (flat_of_wording h₈).append <|
      h₉.append (flat_of_wording h₁₀))
    (flat_of_wording k₁) (flat_of_wording k₃) h₅ k₂ n
  simpa [hv] using hlevel

theorem wording_approaches : Wording approaches :=
  (wording_word (by decide)).either
    ((wording_words (by decide)).either (wording_words (by decide)))

theorem reads_wordedFront (last : Option Char) : Reads (wordedFront last) FrontLike := by
  have hm : '.' ∈ sentenceMarks := by decide
  have hwords : Wording (words ["limit".toList, "as".toList]) := wording_words (by decide)
  refine (stays_guard _).bind fun _ =>
    (hwords.and (reads_words hm (by decide) (by decide))).bind fun u₁ _ ⟨h₁, hn⟩ =>
    wording_blanks1.before fun u₂ _ h₂ => (reads_one _).bind fun u₃ x ⟨h₃, hx⟩ =>
    wording_blanks1.before fun u₄ _ h₄ => wording_approaches.before fun u₅ _ h₅ =>
    wording_blanks1.before fun u₆ _ h₆ => (reads_many1 _).bind fun v target ⟨hv, _⟩ =>
    wording_blanks1.before fun v₁ _ k₁ => (wording_word (by decide)).before fun v₂ _ k₂ =>
    wording_blanks1.before fun v₃ _ k₃ => reads_pure ?_
  have hletter : Flat u₃ := by
    rw [h₃]
    exact flat_letter hx
  refine ⟨by simp [hn.1], hx, fun hf n => ?_⟩
  have hlevel := level_front (l := u₁ ++ (u₂ ++ (u₃ ++ (u₄ ++ (u₅ ++ u₆))))) (x := []) (y := [])
    (z := v₁ ++ (v₂ ++ v₃)) hf
    ((flat_of_wording h₁).append <| (flat_of_wording h₂).append <| hletter.append <|
      (flat_of_wording h₄).append <| (flat_of_wording h₅).append (flat_of_wording h₆))
    flat_nil flat_nil
    ((flat_of_wording k₁).append ((flat_of_wording k₂).append (flat_of_wording k₃))) rfl rfl n
  simpa [hv] using hlevel

/-- **The phrasings of limits keep the brackets in balance** if the targets are fair. -/
theorem keepsLevel_limits (h : FairTargets t) : KeepsLevel t (limits t) := by
  have harrow : (fun last => arrowFront last >>= behindFront) = arrowLimit :=
    funext fun last => (arrowLimit_eq last).symm
  have hworded : (fun last => wordedFront last >>= behindFront) = wordedLimit :=
    funext fun last => (wordedLimit_eq last).symm
  have hfirst := keepsLevel_replaceAll (keepsLevels_behindFront reads_arrowFront h.arrow)
  have hsecond := keepsLevel_replaceAll (keepsLevels_behindFront reads_wordedFront h.worded)
  rw [harrow] at hfirst
  rw [hworded] at hsecond
  exact hfirst.trans hsecond

/-- Without "lim" there are no targets. -/
theorem fairTargets_of_nowhere (h : Nowhere (word "lim".toList) t) : FairTargets t := by
  have harrow : replaceAll arrowLimit t = t := Nowhere.replaceAll_eq fun _ =>
    .after (leavesEnd_guard _) fun _ => h.bind _
  have hlimit : Nowhere (word "limit".toList) t := nowhere_word_append (l := "it".toList) h
  constructor
  · intro last s f r hs hm
    have hnone : Nowhere (arrowFront last) t := .after (leavesEnd_guard _) fun _ => h.bind _
    rw [hnone s hs] at hm
    exact absurd hm List.not_mem_nil
  · rw [harrow]
    intro last s f r hs hm
    have hnone : Nowhere (wordedFront last) t :=
      .after (leavesEnd_guard _) fun _ => Nowhere.bind (Nowhere.bind hlimit _) _
    rw [hnone s hs] at hm
    exact absurd hm List.not_mem_nil

/-! ## The canonical form -/

theorem isMark_roundBracket (c : Char) : isMark (roundBracket c) = isMark c := by
  rcases roundBracket_cases c with h | h
  · rw [h]
  · exact forall_mem_of_all (p := fun c => isMark (roundBracket c) = isMark c) (by decide) c h

/-- Only the marks count. -/
theorem level_marks (n : Nat) (t : Text) : depthAfter n ((marks t).map roundBracket) = level n t := by
  have hcomp : isMark ∘ roundBracket = isMark := funext isMark_roundBracket
  have hmap : (marks t).map roundBracket = marks (t.map roundBracket) := by
    rw [marks, marks, List.filter_map, hcomp]
  rw [hmap, depthAfter_marks]
  rfl

/-- What is not left of a text in the canonical form is no bracket. -/
theorem marks_dropEndWhile_endsSentence (t : Text) : marks (dropEndWhile endsSentence t) = marks t := by
  obtain ⟨w, he, hw⟩ := dropEndWhile_append endsSentence t
  have hnil : marks w = [] := by
    refine List.filter_eq_nil_iff.mpr fun c hc => ?_
    have hends := hw c hc
    rw [endsSentence, Bool.or_eq_true, Bool.or_eq_true, beq_iff_eq, beq_iff_eq] at hends
    rcases hends with (hb | rfl) | rfl
    · rw [isBlank_induction (p := fun c => isMark c = false) (by decide) hb]
      decide
    · decide
    · decide
  conv => rhs; rw [he, marks, List.filter_append]
  change _ = marks _ ++ marks w
  rw [hnil, List.append_nil]

theorem depthAfter_canonical (s : Text) : depthAfter 0 (canonical s) =
    level 0 (limits (integrals (derivatives (bare s)))) := by
  rw [canonical_eq_run, run_rewritingSteps, ← depthAfter_marks, marks_removeBlanks,
    marks_dropEndWhile_endsSentence, ← marks_removeBlanks]
  exact (congrArg (depthAfter 0) (marks_plain _)).trans (level_marks 0 _)

theorem wellNested_bare (h : WellNested s) : WellNested (bare s) := by
  have hcollapse : WellNested (Rule.collapseBlanks.apply s) :=
    h.of_marks ((marks_trim _).trans (marks_squeeze s))
  have drop : ∀ (fuel : Nat) {t : Text}, WellNested t → WellNested (withoutInstructions fuel t) := by
    intro fuel
    induction fuel with
    | zero => exact fun h => h
    | succ fuel ih =>
      intro t ht
      rw [withoutInstructions_succ]
      split
      next u r hb =>
        obtain ⟨v, rfl, hv⟩ := wording_instructionHead _ _ _ (mem_of_best? hb)
        refine ih (ht.of_marks ?_)
        have hnil : marks v = [] := List.filter_eq_nil_iff.mpr fun c hc => by
          obtain ⟨ho, hcl⟩ := flat_of_wording hv c hc
          have hcomma : c ≠ ',' := by
            rintro rfl
            exact absurd (hv ',' hc) (by decide)
          simp [isMark, ho, hcl, hcomma]
        rw [marks, marks, List.filter_append]
        change _ = marks v ++ _
        rw [hnil, List.nil_append]
      next => exact ht
  exact drop _ hcollapse

/-- **The canonical form of a well-nested text is balanced** if the targets of its limits are fair. -/
theorem balanced_canonical (hs : WellNested s)
    (hf : FairTargets (integrals (derivatives (bare s)))) : Bracket.Balanced (canonical s) := by
  have hbare := wellNested_bare hs
  rw [Bracket.Balanced, depthAfter_canonical]
  exact keepsLevel_limits hf 0 0 <| keepsLevel_integrals _ 0 0 <| keepsLevel_derivatives hbare 0 0 <|
    level_of_wellNested hbare 0

end Stepwise.Phrase
