import Stepwise.Proofs.Keyword
import Stepwise.Proofs.Punctuation

/-!
# Where the body of a worded problem ends

The body of a problem in words is as short as what follows it allows. What follows may be "with
respect to V", which has fourteen letters, and for integrals a differential before that: a shorter
body would leave too many letters over.

Results: `best?_wordedBody` and `best?_integralBody`, the body ends where the variable is named.
-/

namespace Stepwise.Phrase

open Text Pattern

/-- The text ends in a differential: a blank, the letter D and a variable. -/
def DifferentialAtEnd (t : Text) : Prop := ∃ s b d x, t = s ++ [b, d, x] ∧ isBlank b = true ∧
  sameLetter 'd' d = true ∧ isAnyCaseLetter x = true

variable {w e t : Text} {v : Char}

/-! ## The body -/

/-- How many characters of a text are no blanks. -/
def inkLength (t : Text) : Nat := (removeBlanks t).length

theorem inkLength_append (s t : Text) : inkLength (s ++ t) = inkLength s + inkLength t := by
  rw [inkLength, removeBlanks_append, List.length_append]
  rfl

theorem inkLength_of_blank (h : ∀ c ∈ t, isBlank c = true) : inkLength t = 0 := by
  rw [inkLength, List.length_eq_zero_iff, removeBlanks, List.filter_eq_nil_iff]
  intro c hc
  rw [h c hc]
  decide

theorem inkLength_of_blankless (h : Blankless t) : inkLength t = t.length :=
  congrArg List.length h.removeBlanks_eq

theorem isBlank_of_inkLength (h : inkLength t = 0) : ∀ c ∈ t, isBlank c = true := by
  intro c hc
  rw [inkLength, List.length_eq_zero_iff, removeBlanks, List.filter_eq_nil_iff] at h
  simpa using h c hc

theorem reads_ink_word (hw : w.all isLetter = true) :
    Reads (word w) fun u _ => inkLength u = w.length := by
  refine (reads_word w).mono fun u _ hu => ?_
  have hb : Blankless u := by
    intro c hc
    obtain ⟨q, hq, hs⟩ := hu.2 c hc
    exact isBlank_of_sameLetter (List.all_eq_true.mp hw q hq) hs
  rw [inkLength_of_blankless hb, hu.1]

theorem reads_ink_blanks : Reads blanks fun u _ => inkLength u = 0 :=
  (reads_many _).mono fun _ _ hu => inkLength_of_blank (hu.1 ▸ hu.2)

theorem reads_ink_blanks1 : Reads blanks1 fun u _ => inkLength u = 0 :=
  (reads_many1 _).mono fun _ _ hu => inkLength_of_blank (hu.1 ▸ hu.2)

theorem isBlank_of_anyCaseLetter {c : Char} (h : isAnyCaseLetter c = true) : isBlank c = false := by
  cases hb : isBlank c with
  | false => rfl
  | true =>
    have : isAnyCaseLetter c = false :=
      isBlank_induction (p := fun c => isAnyCaseLetter c = false) (by decide) hb
    rw [h] at this
    exact Bool.noConfusion this

theorem reads_ink_letter : Reads (one isAnyCaseLetter) fun u _ => inkLength u = 1 := by
  refine (reads_one _).mono fun u c hu => ?_
  rw [hu.1, inkLength_of_blankless (Blankless.cons_iff.mpr ⟨isBlank_of_anyCaseLetter hu.2, .nil⟩)]
  rfl

/-- "with respect to V" has fourteen letters. -/
theorem reads_ink_respectTo : Reads respectTo fun u o =>
    (o = none ∧ inkLength u = 0) ∨ inkLength u = 14 := by
  have inner : Reads (blanks1 >>= fun _ => words ["with".toList, "respect".toList, "to".toList] >>=
      fun _ => blanks1 >>= fun _ => one isAnyCaseLetter) fun u _ => inkLength u = 14 := by
    refine reads_ink_blanks1.bind fun u₁ _ h₁ => Reads.bind (P := fun u _ => inkLength u = 13)
      ?_ fun u₂ _ h₂ => reads_ink_blanks1.bind fun u₃ _ h₃ => reads_ink_letter.mono fun u₄ _ h₄ => ?_
    · refine (reads_ink_word (by decide)).bind fun v₁ _ k₁ => reads_ink_blanks1.bind fun v₂ _ k₂ =>
        (reads_ink_word (by decide)).bind fun v₃ _ k₃ => reads_ink_blanks1.bind fun v₄ _ k₄ =>
        (reads_ink_word (by decide)).mono fun v₅ _ k₅ => ?_
      simp only [inkLength_append, k₁, k₂, k₃, k₄, k₅]
      rfl
    · simp only [inkLength_append, h₁, h₂, h₃, h₄]
  refine inner.optional.mono fun u o h => ?_
  cases o with
  | none =>
    obtain rfl : u = [] := h
    exact .inl ⟨rfl, rfl⟩
  | some _ => exact .inr h

theorem reads_ink_wordedDifferential : Reads wordedDifferential fun u o =>
    (o = none ∧ u = []) ∨ ∃ b d x, u = b ++ [d, x] ∧ b ≠ [] ∧ (∀ c ∈ b, isBlank c = true) ∧
      sameLetter 'd' d = true ∧ isAnyCaseLetter x = true := by
  have inner : Reads (blanks1 >>= fun _ => word ['d'] >>= fun _ => one isAnyCaseLetter >>=
      fun x => notBefore isAnyCaseLetter >>= fun _ => pure x)
      fun u _ => ∃ b d x, u = b ++ [d, x] ∧ b ≠ [] ∧ (∀ c ∈ b, isBlank c = true) ∧
        sameLetter 'd' d = true ∧ isAnyCaseLetter x = true := by
    have letter : Reads (word ['d']) fun u _ => ∃ d, u = [d] ∧ sameLetter 'd' d = true := by
      intro t a r h
      obtain ⟨c, rfl, hc⟩ := mem_word_singleton.mp h
      exact ⟨[c], rfl, c, rfl, hc⟩
    refine (reads_blanks1.and (reads_many1 _)).bind fun b _ hb => letter.bind fun u₁ _ h₁ =>
      (reads_one _).bind fun u₂ x h₂ => (stays_notBefore _).bind fun _ => reads_pure ?_
    obtain ⟨d, rfl, hd⟩ := h₁
    obtain ⟨rfl, hx⟩ := h₂
    obtain ⟨⟨s, c, rfl, hc⟩, rfl, hall⟩ := hb
    exact ⟨s ++ [c], d, x, by simp, by simp, hall, hd, hx⟩
  refine inner.optional.mono fun u o h => ?_
  cases o with
  | none =>
    obtain rfl : u = [] := h
    exact .inl ⟨rfl, rfl⟩
  | some _ => exact .inr h

theorem reads_ink_atEnd {t r : Text} {u : Unit} (h : (u, r) ∈ atEnd t) : inkLength t = 0 := by
  obtain ⟨-, rfl | rfl⟩ := mem_atEnd.mp h <;> rfl

/-! ## Where the body ends -/

theorem few_flatMap {β : Type} {ok : Char → Bool} {r : Text} {y : β × Text} :
    ∀ {e : Text} {f : Text → Pattern β}, (∀ c ∈ e, ok c = true) →
      (∀ u s, e = u ++ s → s ≠ [] → f u (s ++ r) = []) → (f e r).head? = some y →
      ((few ok (e ++ r)).flatMap fun x => f x.1 x.2).head? = some y
  | [], f, _, _, hy => by
    obtain ⟨rest, hrest⟩ := List.head?_eq_some_iff.mp hy
    cases r with
    | nil => simp [few, hrest]
    | cons c cs => simp [few, hrest]
  | c :: cs, f, hok, hs, hy => by
    obtain ⟨hc, hcs⟩ := List.forall_mem_cons.mp hok
    have h₀ : f [] (c :: cs ++ r) = [] := hs [] (c :: cs) rfl (List.cons_ne_nil _ _)
    have ih := few_flatMap (f := fun u => f (c :: u)) hcs
      (fun u s he hn => hs (c :: u) s (congrArg (c :: ·) he) hn) hy
    rw [List.cons_append] at h₀ ⊢
    rw [few_cons hc, List.flatMap_cons, h₀, List.nil_append, List.flatMap_map]
    exact ih

/-- A body is as short as what follows it allows. -/
theorem best?_few1 {β : Type} {ok : Char → Bool} {e r : Text} {f : Text → Pattern β} {y : β × Text}
    (hn : e ≠ []) (hok : ∀ c ∈ e, ok c = true)
    (hs : ∀ u s, e = u ++ s → u ≠ [] → s ≠ [] → f u (s ++ r) = []) (hy : (f e).best? r = some y) :
    (few1 ok >>= f).best? (e ++ r) = some y := by
  obtain ⟨c, cs, rfl⟩ := List.exists_cons_of_ne_nil hn
  obtain ⟨hc, hcs⟩ := List.forall_mem_cons.mp hok
  have key := few_flatMap (f := fun u => f (c :: u)) hcs
    (fun u s he hn => hs (c :: u) s (congrArg (c :: ·) he) (List.cons_ne_nil _ _) hn) hy
  have hone : (few1 ok >>= f) (c :: (cs ++ r)) =
      (few ok (cs ++ r)).flatMap fun x => f (c :: x.1) x.2 := by
    change List.flatMap (fun x => f x.1 x.2) (List.flatMap (fun x => List.flatMap
      (fun y => [(x.1 :: y.1, y.2)]) (few ok x.2)) (if ok c then [(c, cs ++ r)] else [])) = _
    rw [if_pos hc, List.flatMap_singleton, List.flatMap_assoc]
    simp
  rw [best?, List.cons_append, hone]
  exact key

/-! ## Reading what is given -/

section Given

variable {α β : Type} {p : Pattern α} {f : α → Pattern β} {a : α} {r : Text}

theorem bind_of_eq (h : p t = [(a, r)]) : (p >>= f) t = f a r := by
  change (p t).flatMap (fun x => f x.1 x.2) = _
  rw [h, List.flatMap_singleton]

theorem bind_of_eq_nil (h : p t = []) : (p >>= f) t = [] := by
  change (p t).flatMap (fun x => f x.1 x.2) = _
  rw [h]
  rfl

theorem word_append : ∀ {w : Text}, (w.all fun q => q.toLower == q) = true → ∀ t : Text,
    word w (w ++ t) = [((), t)]
  | [], _, _ => rfl
  | q :: qs, h, t => by
    obtain ⟨hq, hqs⟩ := (Bool.and_eq_true _ _).mp h
    rw [List.cons_append, word]
    exact (if_pos (sameLetter_self q (beq_iff_eq.mp hq))).trans (word_append hqs t)

theorem blanks1_space {c : Char} {cs : Text} (hc : isBlank c = false) :
    blanks1 (' ' :: c :: cs) = [([' '], c :: cs)] := by
  have hm : many isBlank (c :: cs) = [([], c :: cs)] := many_stop (by rw [hc]; decide) cs
  have ho : one isBlank (' ' :: c :: cs) = [(' ', c :: cs)] := rfl
  rw [blanks1, many1, bind_of_eq ho, bind_of_eq hm]
  rfl

end Given

/-- The words that name the variable. -/
def respectText (v : Char) : Text := " with respect to ".toList ++ [v]

theorem respectTo_respectText (hv : isAnyCaseLetter v = true) :
    respectTo (respectText v) = [(some v, []), (none, respectText v)] := by
  let afterTo : Text := [' ', v]
  let afterRespect : Text := ' ' :: ("to".toList ++ afterTo)
  let afterWith : Text := ' ' :: ("respect".toList ++ afterRespect)
  have h₁ : blanks1 (respectText v) = [([' '], "with".toList ++ afterWith)] :=
    blanks1_space (c := 'w') (by decide)
  have h₂ : blanks1 afterWith = [([' '], "respect".toList ++ afterRespect)] :=
    blanks1_space (c := 'r') (by decide)
  have h₃ : blanks1 afterRespect = [([' '], "to".toList ++ afterTo)] :=
    blanks1_space (c := 't') (by decide)
  have h₄ : blanks1 afterTo = [([' '], [v])] := blanks1_space (isBlank_of_anyCaseLetter hv)
  have h₅ : one isAnyCaseLetter [v] = [(v, [])] := if_pos hv
  have hwords : words ["with".toList, "respect".toList, "to".toList] ("with".toList ++ afterWith) =
      [((), afterTo)] := by
    refine (bind_of_eq (word_append (by decide) _)).trans ((bind_of_eq h₂).trans ?_)
    refine (bind_of_eq (word_append (by decide) _)).trans ((bind_of_eq h₃).trans ?_)
    exact word_append (by decide) _
  have inner : (blanks1 >>= fun _ => words ["with".toList, "respect".toList, "to".toList] >>=
      fun _ => blanks1 >>= fun _ => one isAnyCaseLetter) (respectText v) = [(v, [])] :=
    (bind_of_eq h₁).trans ((bind_of_eq hwords).trans ((bind_of_eq h₄).trans h₅))
  change List.map _ ((blanks1 >>= fun _ => _ >>= fun _ => blanks1 >>= fun _ => one isAnyCaseLetter)
    (respectText v)) ++ _ = _
  rw [inner]
  rfl

theorem inkLength_respectText (hv : isAnyCaseLetter v = true) : inkLength (respectText v) = 14 := by
  have words : inkLength " with respect to ".toList = 13 := by decide
  have single : inkLength [v] = 1 :=
    inkLength_of_blankless (Blankless.cons_iff.mpr ⟨isBlank_of_anyCaseLetter hv, .nil⟩)
  calc inkLength (respectText v) = inkLength " with respect to ".toList + inkLength [v] :=
        inkLength_append _ _
    _ = 14 := by rw [words, single]

theorem blank_suffix_eq_nil {s : Text} (h : NoBlankEnd e) (hs : s <:+ e) (hb : inkLength s = 0) :
    s = [] := by
  rcases List.eq_nil_or_concat s with rfl | ⟨u, c, rfl⟩
  · rfl
  · rw [List.concat_eq_append] at hs hb
    have hc : isBlank c = false := h.of_suffix hs c List.getLast?_concat
    have hb := isBlank_of_inkLength hb c (by simp)
    rw [hb] at hc
    exact Bool.noConfusion hc

/-- **The body of a worded problem ends where the variable is named.** -/
theorem best?_wordedBody (hv : isAnyCaseLetter v = true) (hn : e ≠ []) (hl : OneLine e)
    (he : NoBlankEnd e) : wordedBody.best? (e ++ respectText v) = some ((e, some v), []) := by
  refine best?_few1 hn hl (fun u s hus _ hs => ?_) ?_
  · -- A shorter body leaves more letters than the words for the variable have.
    refine List.eq_nil_iff_forall_not_mem.mpr ?_
    rintro ⟨y, r⟩ hx
    obtain ⟨o, r₁, h₁, hx⟩ := mem_bind.mp hx
    obtain ⟨_, r₂, h₂, hx⟩ := mem_bind.mp hx
    obtain ⟨_, r₃, h₃, -⟩ := mem_bind.mp hx
    obtain ⟨u₁, e₁, k₁⟩ := reads_ink_respectTo _ _ _ h₁
    obtain ⟨u₂, e₂, k₂⟩ := reads_ink_blanks _ _ _ h₂
    have k₃ := reads_ink_atEnd h₃
    have hlen := congrArg inkLength e₁
    rw [e₂, inkLength_append, inkLength_append, inkLength_append, inkLength_respectText hv, k₂,
      k₃] at hlen
    exact hs (blank_suffix_eq_nil he ⟨u, hus.symm⟩ (by omega))
  · change List.head? (List.flatMap _ (respectTo (respectText v))) = _
    rw [respectTo_respectText hv]
    rfl

/-- A differential that is read before the words for the variable is the end of the body. -/
theorem differentialAtEnd_of_reading {s b r : Text} {d x : Char} (hs : NoBlankEnd s)
    (hb : b ≠ [] ∧ ∀ c ∈ b, isBlank c = true) (hd : sameLetter 'd' d = true)
    (hx : isAnyCaseLetter x = true) (he : s ++ respectText v = b ++ [d, x] ++ r)
    (hi : inkLength r = inkLength (respectText v)) : DifferentialAtEnd s := by
  have hse : s = b ++ [d, x] := by
    rcases List.append_eq_append_iff.mp he with ⟨a, ha, hr⟩ | ⟨a, ha, hr⟩
    · -- The rest of the differential has no letters, and its last character is one.
      have hlen := congrArg inkLength hr
      rw [inkLength_append] at hlen
      have hblank := isBlank_of_inkLength (t := a) (by omega)
      rcases List.eq_nil_or_concat a with rfl | ⟨a, c, rfl⟩
      · rw [ha, List.append_nil]
      · rw [List.concat_eq_append] at ha hblank
        have hcx : c = x := by
          have := congrArg List.getLast? ha
          rw [← List.append_assoc, List.getLast?_concat, List.getLast?_append] at this
          exact (Option.some.inj this).symm
        have := hblank c (by simp)
        rw [hcx, isBlank_of_anyCaseLetter hx] at this
        exact Bool.noConfusion this
    · have hlen := congrArg inkLength hr
      rw [inkLength_append] at hlen
      have hnil := blank_suffix_eq_nil hs ⟨_, ha.symm⟩ (by omega)
      rw [ha, hnil, List.append_nil]
  obtain ⟨c, hc⟩ : ∃ c, b.getLast? = some c := by
    rcases List.eq_nil_or_concat b with rfl | ⟨b, c, rfl⟩
    · exact absurd rfl hb.1
    · exact ⟨c, by simp⟩
  obtain ⟨b', rfl⟩ := List.getLast?_eq_some_iff.mp hc
  exact ⟨b', c, d, x, by rw [hse]; simp, hb.2 c (by simp), hd, hx⟩

/-- What stands after "integral of". -/
def integralBody : Pattern Text := do
  let body ← few1 inLine
  let x ← wordedDifferential
  let y ← respectTo
  let _ ← blanks
  atEnd
  return calculusCall integralName body (x <|> y)

theorem wordedDifferential_respectText :
    wordedDifferential (respectText v) = [(none, respectText v)] := by
  have h : blanks1 (respectText v) = [([' '], (respectText v).tail)] :=
    blanks1_space (c := 'w') (by decide)
  have inner : (blanks1 >>= fun _ => word ['d'] >>= fun _ => one isAnyCaseLetter >>=
      fun x => notBefore isAnyCaseLetter >>= fun _ => pure x) (respectText v) = [] :=
    (bind_of_eq h).trans (bind_of_eq_nil rfl)
  change List.map _ ((blanks1 >>= fun _ => _) (respectText v)) ++ _ = _
  rw [inner]
  rfl

theorem best?_integralBody (hv : isAnyCaseLetter v = true) (hn : e ≠ []) (hl : OneLine e)
    (he : NoBlankEnd e) (hd : ¬DifferentialAtEnd e) :
    integralBody.best? (e ++ respectText v) =
      some (calculusCall integralName e (some v), []) := by
  refine best?_few1 hn hl (fun u s hus _ hs => ?_) ?_
  · refine List.eq_nil_iff_forall_not_mem.mpr ?_
    rintro ⟨y, r⟩ hx
    obtain ⟨o₀, r₀, h₀, hx⟩ := mem_bind.mp hx
    obtain ⟨o₁, r₁, h₁, hx⟩ := mem_bind.mp hx
    obtain ⟨_, r₂, h₂, hx⟩ := mem_bind.mp hx
    obtain ⟨_, r₃, h₃, -⟩ := mem_bind.mp hx
    obtain ⟨u₀, e₀, k₀⟩ := reads_ink_wordedDifferential _ _ _ h₀
    obtain ⟨u₁, e₁, k₁⟩ := reads_ink_respectTo _ _ _ h₁
    obtain ⟨u₂, e₂, k₂⟩ := reads_ink_blanks _ _ _ h₂
    have k₃ := reads_ink_atEnd h₃
    have hsuf : s <:+ e := ⟨u, hus.symm⟩
    have hrest : inkLength r₀ = inkLength u₁ := by
      rw [e₁, e₂, inkLength_append, inkLength_append, k₂, k₃, Nat.add_zero]
    have hlen := congrArg inkLength e₀
    rw [inkLength_append, inkLength_append, inkLength_respectText hv, hrest] at hlen
    rcases k₀ with ⟨-, rfl⟩ | ⟨b, d, x, rfl, hb, hbb, hdd, hxx⟩
    · have hnil : inkLength ([] : Text) = 0 := rfl
      exact hs (blank_suffix_eq_nil he hsuf (by omega))
    · have hdx : inkLength (b ++ [d, x]) = 2 := by
        have : Blankless [d, x] := Blankless.cons_iff.mpr
          ⟨isBlank_of_sameLetter (by decide) hdd, Blankless.cons_iff.mpr
            ⟨isBlank_of_anyCaseLetter hxx, .nil⟩⟩
        rw [inkLength_append, inkLength_of_blank hbb, inkLength_of_blankless this]
        rfl
      have hi : inkLength r₀ = inkLength (respectText v) := by
        rw [hrest, inkLength_respectText hv]
        omega
      obtain ⟨a, b', d', x', ha, hab⟩ :=
        differentialAtEnd_of_reading (he.of_suffix hsuf) ⟨hb, hbb⟩ hdd hxx e₀ hi
      exact hd ⟨u ++ a, b', d', x', by rw [hus, ha]; simp, hab⟩
  · change List.head? (List.flatMap _ (wordedDifferential (respectText v))) = _
    rw [wordedDifferential_respectText, List.flatMap_singleton]
    change List.head? (List.flatMap _ (respectTo (respectText v))) = _
    rw [respectTo_respectText hv]
    rfl

end Stepwise.Phrase
