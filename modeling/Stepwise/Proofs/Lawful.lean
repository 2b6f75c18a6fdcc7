import Stepwise.Proofs.Lifting
import Stepwise.Proofs.Steps

/-!
# The laws of the rewriting steps

Each step of the rules obeys the laws of its kind: the operators with brackets, the integral sign
with a differential, the short call and the glyphs leave a mark at the end of the text alone, and
every other phrasing takes it with the rest.

Result: `rewritingSteps_lawful`.
-/

namespace Stepwise.Phrase

open Text Pattern

/-! ## Operators with brackets -/

section Wrapped

variable {m : Char} {tail t : Text}

theorem closingFrom_eq_none {opener closer : Char} : ∀ {t : Text} {depth : Nat}, closer ∉ t →
    Bracket.closingFrom opener closer depth t = none
  | [], _, _ => rfl
  | c :: cs, depth, h => by
    rw [List.mem_cons, not_or] at h
    obtain ⟨hc, hcs⟩ := h
    unfold Bracket.closingFrom
    rw [if_neg (Ne.symm hc), closingFrom_eq_none hcs, closingFrom_eq_none hcs]
    split <;> rfl

theorem closingFrom_append {opener closer : Char} (ht : closer ∉ tail) : ∀ (t : Text) (depth : Nat),
    Bracket.closingFrom opener closer depth (t ++ tail) =
      Bracket.closingFrom opener closer depth t
  | [], depth => closingFrom_eq_none ht
  | c :: cs, depth => by
    rw [List.cons_append, Bracket.closingFrom, Bracket.closingFrom, closingFrom_append ht cs,
      closingFrom_append ht cs, closingFrom_append ht cs]

theorem endsSentence_closer {opener closer : Char} (h : Bracket.closer? opener = some closer) :
    endsSentence closer = false := by
  unfold Bracket.closer? at h
  split at h
  · obtain rfl := Option.some.inj h
    decide
  · obtain rfl := Option.some.inj h
    decide
  · obtain rfl := Option.some.inj h
    decide
  · exact absurd h (by simp)

/-- A bracket is closed in front of the mark, if at all. -/
theorem cutAtClosing_append (hm : m ∈ sentenceMarks) (ht : tail ∈ markTails m) (opener : Char)
    (t : Text) : cutAtClosing opener (t ++ tail) =
      (cutAtClosing opener t).map fun x => (x.1, x.2 ++ tail) := by
  unfold cutAtClosing
  cases hc : Bracket.closer? opener with
  | none => rfl
  | some closer =>
    have hn : closer ∉ tail := not_mem_markTail hm ht (endsSentence_closer hc)
    simp only [Option.bind_eq_bind, Option.bind_some, closingFrom_append hn]
    cases hj : Bracket.closingFrom opener closer 1 t with
    | none => rfl
    | some j =>
      have hl := Bracket.closingFrom_lt hj
      simp only [Option.bind_some, List.take_append_of_le_length (Nat.le_of_lt hl),
        List.drop_append_of_le_length hl]
      rfl

/-- The operator in front of a bracket holds no mark. -/
theorem reads_wrappedHead (hm : m ∈ sentenceMarks) : Reads wrappedHead fun u x =>
    u ≠ [] ∧ m ∉ u ∧ isAnyCaseLetter x.1 = true := by
  have opener : Passes m (one fun c => (Bracket.closer? c).isSome) :=
    passes_one (by rcases mark_eq hm with rfl | rfl <;> decide)
  refine (reads_derivativeOperator hm).bind fun u x hu => (passes_blanks hm).before fun u₁ _ h₁ =>
    opener.before fun u₂ _ h₂ => reads_pure ?_
  simp [hu, h₁, h₂]

/-- An operator with its bracket: what is read, the body, and the bracket that closes it. -/
theorem wrapped_split (hm : m ∈ sentenceMarks) {c x opener : Char} {cs rest body rest' : Text}
    (h : wrappedHead.best? (c :: cs) = some ((x, opener), rest))
    (hc : cutAtClosing opener rest = some (body, rest')) :
    ∃ u closer, c :: cs = u ++ (body ++ closer :: rest') ∧ m ∉ u ∧ m ≠ closer ∧
      isAnyCaseLetter x = true ∧ cs.drop (cs.length - rest'.length) = rest' := by
  obtain ⟨u, he, hu, hmu, hx⟩ := reads_wrappedHead hm _ _ _ (mem_of_best? h)
  obtain ⟨closer, hcl⟩ : ∃ closer, rest = body ++ closer :: rest' ∧ endsSentence closer = false := by
    unfold cutAtClosing at hc
    obtain ⟨closer, hcl, hc⟩ := Option.bind_eq_some_iff.mp hc
    obtain ⟨j, hj, hc⟩ := Option.bind_eq_some_iff.mp hc
    obtain ⟨rfl, rfl⟩ := Prod.mk.inj (Option.some.inj hc)
    exact ⟨closer, closingFrom_split hj, endsSentence_closer hcl⟩
  have hmc : m ≠ closer := by
    rintro rfl
    exact Bool.false_ne_true (hcl.2.symm.trans (endsSentence_mark hm))
  obtain ⟨rfl, hends⟩ := hcl
  refine ⟨u, closer, he, hmu, hmc, hx, ?_⟩
  obtain ⟨d, u, rfl⟩ := List.exists_cons_of_ne_nil hu
  obtain ⟨rfl, rfl⟩ := List.cons.inj he
  have hcs : u ++ (body ++ closer :: rest') = (u ++ body ++ [closer]) ++ rest' := by simp
  rw [List.append_eq, hcs, List.length_append, Nat.add_sub_cancel, List.drop_left]

theorem wrappedFrom_of_nowhere : ∀ {t : Text}, (∀ s, s <:+ t → wrappedHead s = []) →
    wrappedFrom 0 t = t
  | [], _ => rfl
  | c :: cs, h => by
    have hb : wrappedHead.best? (c :: cs) = none := by
      rw [best?, h _ (List.suffix_refl _)]
      rfl
    rw [wrappedFrom, hb]
    exact congrArg (c :: ·)
      (wrappedFrom_of_nowhere fun s hs => h s (hs.trans (List.suffix_cons _ _)))

theorem wrappedFrom_of_length_le : ∀ {t : Text} {skip : Nat}, t.length ≤ skip →
    wrappedFrom skip t = []
  | [], skip, _ => by cases skip <;> rfl
  | c :: cs, skip + 1, h => by
    rw [wrappedFrom]
    exact wrappedFrom_of_length_le (Nat.le_of_succ_le_succ h)

theorem wrappedFrom_append (hm : m ∈ sentenceMarks) (ht : tail ∈ markTails m) :
    ∀ {t : Text} {skip : Nat}, skip ≤ t.length →
      wrappedFrom skip (t ++ tail) = wrappedFrom skip t ++ tail
  | [], skip, h => by
    obtain rfl := Nat.le_zero.mp h
    exact wrappedFrom_of_nowhere fun s hs => (anchored_wrappedHead hm ht).eq_nil hs
  | c :: cs, skip + 1, h => by
    rw [List.cons_append, wrappedFrom, wrappedFrom]
    exact wrappedFrom_append hm ht (Nat.le_of_succ_le_succ h)
  | c :: cs, 0, _ => by
    have hb := (steady_wrappedHead.unmoved (anchored_wrappedHead hm ht)).best?_append (c :: cs)
    rw [List.cons_append] at hb
    rw [List.cons_append, wrappedFrom, wrappedFrom, hb]
    cases wrappedHead.best? (c :: cs) with
    | none => exact congrArg (c :: ·) (wrappedFrom_append hm ht (Nat.zero_le _))
    | some y =>
      obtain ⟨⟨x, opener⟩, rest⟩ := y
      simp only [Option.map_some, withTail, cutAtClosing_append hm ht]
      cases cutAtClosing opener rest with
      | none => rfl
      | some z =>
        have hl : (cs ++ tail).length - (z.2 ++ tail).length = cs.length - z.2.length := by
          rw [List.length_append, List.length_append]
          omega
        have ih := wrappedFrom_append hm ht (Nat.sub_le cs.length z.2.length)
        simp only [Option.map_some, hl, ih, List.append_assoc]

theorem count_wrappedFrom (hm : m ∈ sentenceMarks) : ∀ (t : Text) (skip : Nat),
    (wrappedFrom skip t).count m = (t.drop skip).count m
  | [], skip => by cases skip <;> rfl
  | c :: cs, skip + 1 => by
    rw [wrappedFrom, List.drop_succ_cons]
    exact count_wrappedFrom hm cs skip
  | c :: cs, 0 => by
    rw [wrappedFrom, List.drop_zero]
    cases h : wrappedHead.best? (c :: cs) with
    | none =>
      have ih := count_wrappedFrom hm cs 0
      rw [List.drop_zero] at ih
      rw [List.count_cons, List.count_cons, ih]
    | some y =>
      obtain ⟨⟨x, opener⟩, rest⟩ := y
      cases hc : cutAtClosing opener rest with
      | none => simp only [hc]
      | some z =>
        obtain ⟨u, closer, he, hu, hmc, hx, hd⟩ := wrapped_split hm h hc
        have ih := count_wrappedFrom hm cs (cs.length - z.2.length)
        rw [hd] at ih
        simp only [hc]
        rw [he, List.count_append, ih, count_callText hm (by decide) (mark_not_mem_lower hm hx),
          count_append_of_not_mem hu, List.count_append, List.count_cons_of_ne hmc.symm]

theorem firm_wrappedFrom (hm : m ∈ sentenceMarks) : ∀ {t : Text} {skip : Nat},
    Firm (t.drop skip) → Firm (wrappedFrom skip t)
  | [], skip, h => absurd List.drop_nil h.ne_nil
  | c :: cs, skip + 1, h => by
    rw [wrappedFrom]
    exact firm_wrappedFrom hm h
  | c :: cs, 0, h => by
    have next : ∀ skip, cs.drop skip ≠ [] → Firm (wrappedFrom skip cs) := fun skip hs =>
      firm_wrappedFrom hm (h.of_suffix ((List.drop_suffix _ _).trans (List.suffix_cons _ _)) hs)
    have done : ∀ skip, cs.drop skip = [] → wrappedFrom skip cs = [] := by
      intro skip hs
      exact wrappedFrom_of_length_le (List.drop_eq_nil_iff.mp hs)
    rw [wrappedFrom]
    cases hb : wrappedHead.best? (c :: cs) with
    | none =>
      by_cases hs : cs = []
      · rw [hs] at h ⊢
        exact h
      · exact (next 0 hs).append [c]
    | some y =>
      obtain ⟨⟨x, opener⟩, rest⟩ := y
      cases hc : cutAtClosing opener rest with
      | none =>
        simp only [hc]
        exact h
      | some z =>
        simp only [hc]
        by_cases hs : cs.drop (cs.length - z.2.length) = []
        · rw [done _ hs, List.append_nil]
          exact firm_callText _ _
        · exact (next _ hs).append _

end Wrapped

/-! ## Line breaks -/

section Lines

variable {s t : Text} {p : Option Char → Pattern Text}

theorem OneLine.append_iff : OneLine (s ++ t) ↔ OneLine s ∧ OneLine t := List.forall_mem_append

theorem OneLine.of_subset (h : OneLine t) (hs : s ⊆ t) : OneLine s := fun c hc => h c (hs hc)

theorem OneLine.of_suffix (h : OneLine t) (hs : s <:+ t) : OneLine s := h.of_subset hs.subset

theorem dropEndWhile_subset (q : Char → Bool) (t : Text) : dropEndWhile q t ⊆ t := by
  obtain ⟨w, he, -⟩ := dropEndWhile_append q t
  intro c hc
  rw [he]
  exact List.mem_append_left _ hc

theorem OneLine.trim (h : OneLine t) : OneLine (trim t) :=
  h.of_subset fun _ hc => (List.dropWhile_suffix _).subset (dropEndWhile_subset _ _ hc)

theorem oneLine_callText {name body x : Text} (hn : OneLine name) (hb : OneLine body)
    (hx : OneLine x) : OneLine (callText name [Text.trim body, x]) := by
  have hsign : inLine '(' = true ∧ inLine ',' = true ∧ inLine ')' = true := by decide
  rw [callText_pair]
  simp only [OneLine, List.forall_mem_append, List.forall_mem_cons, List.not_mem_nil, false_implies,
    implies_true, and_true]
  exact ⟨⟨⟨hn, hsign.1, hb.trim⟩, hsign.2.1, hx⟩, hsign.2.2⟩

theorem oneLine_letters {w : Text} (hw : w.all isAnyCaseLetter = true) : OneLine w := by
  intro c hc
  refine bne_iff_ne.mpr ?_
  rintro rfl
  exact absurd (List.all_eq_true.mp hw _ hc) (by decide)

theorem oneLine_lower {x : Char} (hx : isAnyCaseLetter x = true) : OneLine (lower x) := by
  intro c hc
  refine bne_iff_ne.mpr ?_
  rintro rfl
  exact not_mem_lower (by decide) (by decide) hx hc

/-- A pattern that gives no line break, unless it has read one, brings none into a text. -/
theorem oneLine_replaceFrom (hp : ∀ last, Reads (p last) fun u new => OneLine u → OneLine new) :
    ∀ {t : Text} {last : Option Char} {skip : Nat}, OneLine t → OneLine (replaceFrom p last skip t)
  | [], _, _, h => by rwa [replaceFrom]
  | c :: cs, _, skip + 1, h => by
    rw [replaceFrom]
    exact oneLine_replaceFrom hp (h.of_suffix (List.suffix_cons _ _))
  | c :: cs, last, 0, h => by
    have hcs := h.of_suffix (List.suffix_cons _ _)
    rw [replaceFrom]
    split
    · exact List.forall_mem_cons.mpr ⟨h c List.mem_cons_self, oneLine_replaceFrom hp hcs⟩
    next new rest hb =>
      obtain ⟨u, he, hu⟩ := hp last _ _ _ (mem_of_best? hb)
      rw [he] at h
      exact OneLine.append_iff.mpr ⟨hu (OneLine.append_iff.mp h).1, oneLine_replaceFrom hp hcs⟩

theorem reads_signWithDifferential :
    Reads signWithDifferential fun u new => OneLine u → OneLine new := by
  refine (reads_literal _).bind fun u₁ _ _ => (reads_many _).bind fun u₂ _ _ =>
    (reads_few1 _).bind fun w body hw => (reads_many _).bind fun u₃ _ _ =>
    (reads_literal _).bind fun u₄ _ _ => (reads_one _).bind fun u₅ x h₅ =>
    (stays_notBefore _).bind fun _ => reads_pure fun h => ?_
  obtain rfl := hw
  have hx : isAnyCaseLetter x = true := by rw [isAnyCaseLetter, h₅.2]; rfl
  refine oneLine_callText (oneLine_letters (by decide)) (h.of_subset fun c hc => ?_)
    (oneLine_letters (by simpa using hx))
  simp [hc]

theorem reads_shortIntegral (last : Option Char) :
    Reads (shortIntegral last) fun u new => OneLine u → OneLine new := by
  refine (stays_guard _).bind fun _ => (reads_literal _).bind fun u₁ _ _ =>
    (reads_many _).bind fun u₂ _ _ => (reads_literal _).bind fun u₃ _ _ => reads_pure fun _ => ?_
  exact forall_mem_of_all (by decide)

theorem oneLine_wrappedFrom : ∀ {t : Text} {skip : Nat}, OneLine t → OneLine (wrappedFrom skip t)
  | [], skip, h => by cases skip <;> exact h
  | c :: cs, skip + 1, h => by
    rw [wrappedFrom]
    exact oneLine_wrappedFrom (h.of_suffix (List.suffix_cons _ _))
  | c :: cs, 0, h => by
    have hcs := h.of_suffix (List.suffix_cons _ _)
    rw [wrappedFrom]
    cases hb : wrappedHead.best? (c :: cs) with
    | none => exact List.forall_mem_cons.mpr ⟨h c List.mem_cons_self, oneLine_wrappedFrom hcs⟩
    | some y =>
      obtain ⟨⟨x, opener⟩, rest⟩ := y
      cases hc : cutAtClosing opener rest with
      | none =>
        simp only [hc]
        exact h
      | some z =>
        have hm : '?' ∈ sentenceMarks := by decide
        obtain ⟨u, closer, he, -, -, hx, -⟩ := wrapped_split hm hb hc
        rw [he] at h
        have hbody := (OneLine.append_iff.mp (OneLine.append_iff.mp h).2).1
        simp only [hc]
        exact OneLine.append_iff.mpr ⟨oneLine_callText (oneLine_letters (by decide)) hbody
          (oneLine_lower hx), oneLine_wrappedFrom hcs⟩

end Lines

/-! ## Patterns that take the rest -/

section Rests

variable {α β : Type} {m : Char} {tail : Text} {p : Pattern α}

/-- Every reading ends at the end of the text, or of its last line. -/
def EndsText (p : Pattern α) : Prop := ∀ t a r, (a, r) ∈ p t → r = [] ∨ r = ['\n']

theorem EndsText.after {f : α → Pattern β} (hf : ∀ a, EndsText (f a)) : EndsText (p >>= f) := by
  intro t b r h
  obtain ⟨a, s, -, hr⟩ := mem_bind.mp h
  exact hf a s b r hr

theorem EndsText.result {f : α → Pattern β} (hp : EndsText p)
    (hf : ∀ a t b r, (b, r) ∈ f a t → r = t) : EndsText (p >>= f) := by
  intro t b r h
  obtain ⟨a, s, hs, hr⟩ := mem_bind.mp h
  obtain rfl := hf a s b r hr
  exact hp t a r hs

theorem endsText_atEnd (a : α) : EndsText (atEnd >>= fun _ => pure a) := by
  intro t b r h
  obtain ⟨_, s, hs, hr⟩ := mem_bind.mp h
  obtain ⟨-, rfl⟩ := mem_pure.mp hr
  obtain ⟨rfl, h⟩ := mem_atEnd.mp hs
  exact h

theorem endsText_wordedBody : EndsText wordedBody :=
  .after fun _ => .after fun _ => .after fun _ => endsText_atEnd _

theorem EndsText.eq_nil (hp : EndsText p) (hl : LeavesEnd p) {t r : Text} {a : α} (ht : OneLine t)
    (h : (a, r) ∈ p t) : r = [] := by
  refine (hp t a r h).resolve_right ?_
  rintro rfl
  exact absurd (ht '\n' ((hl t a _ h).subset List.mem_cons_self)) (by decide)

/-- A pattern continues if it can read any line. -/
theorem continues_of_line (hn : p [] = []) (hl : ∀ {c cs}, OneLine (c :: cs) → p (c :: cs) ≠ [])
    (ht : OneLine tail) : Continues tail p := by
  intro t hline h
  cases t with
  | nil => exact absurd hn h
  | cons c cs => exact hl (OneLine.append_iff.mpr ⟨hline, ht⟩)

theorem mem_few_all {ok : Char → Bool} : ∀ {t : Text}, (∀ c ∈ t, ok c = true) → (t, []) ∈ few ok t
  | [], _ => List.mem_singleton.mpr rfl
  | c :: cs, h => by
    obtain ⟨hc, hcs⟩ := List.forall_mem_cons.mp h
    rw [few_cons hc]
    exact List.mem_cons_of_mem _ (List.mem_map.mpr ⟨(cs, []), mem_few_all hcs, rfl⟩)

theorem mem_few1_all {ok : Char → Bool} {c : Char} {cs : Text} (h : ∀ d ∈ c :: cs, ok d = true) :
    (c :: cs, []) ∈ few1 ok (c :: cs) := by
  obtain ⟨hc, hcs⟩ := List.forall_mem_cons.mp h
  refine mem_bind.mpr ⟨c, cs, mem_one.mpr ⟨rfl, hc⟩, mem_bind.mpr ⟨cs, [], mem_few_all hcs, ?_⟩⟩
  exact mem_pure.mpr ⟨rfl, rfl⟩

theorem none_mem_optional (t : Text) : (none, t) ∈ optional p t :=
  List.mem_append_right _ (List.mem_singleton.mpr rfl)

theorem nil_mem_blanks : ([], []) ∈ blanks [] := List.mem_singleton.mpr rfl

theorem nil_mem_atEnd : ((), []) ∈ atEnd [] := mem_atEnd.mpr ⟨rfl, .inl rfl⟩

theorem continues_line (ht : OneLine tail) (f : Text → α) :
    Continues tail (many1 inLine >>= fun body => atEnd >>= fun _ => pure (f body)) := by
  refine continues_of_line rfl (fun {c cs} h => ?_) ht
  refine List.ne_nil_of_mem (a := (f (c :: cs), [])) ?_
  exact mem_bind.mpr ⟨_, [], mem_many1_all h, mem_bind.mpr ⟨(), [], nil_mem_atEnd,
    mem_pure.mpr ⟨rfl, rfl⟩⟩⟩

theorem mem_wordedBody {c : Char} {cs : Text} (h : OneLine (c :: cs)) :
    ((c :: cs, none), []) ∈ wordedBody (c :: cs) :=
  mem_bind.mpr ⟨_, [], mem_few1_all h, mem_bind.mpr ⟨none, [], none_mem_optional [],
    mem_bind.mpr ⟨[], [], nil_mem_blanks, mem_bind.mpr ⟨(), [], nil_mem_atEnd,
      mem_pure.mpr ⟨rfl, rfl⟩⟩⟩⟩⟩

theorem continues_wordedBody (ht : OneLine tail) (f : Text × Option Char → α) :
    Continues tail (wordedBody >>= fun x => pure (f x)) := by
  refine continues_of_line rfl (fun {c cs} h => ?_) ht
  refine List.ne_nil_of_mem (a := (f (c :: cs, none), [])) ?_
  exact mem_bind.mpr ⟨_, [], mem_wordedBody h, mem_pure.mpr ⟨rfl, rfl⟩⟩

theorem continues_integralBody (ht : OneLine tail) (f : Text → Option Char → Option Char → α) :
    Continues tail (few1 inLine >>= fun body => wordedDifferential >>= fun x =>
      respectTo >>= fun y => blanks >>= fun _ => atEnd >>= fun _ => pure (f body x y)) := by
  refine continues_of_line rfl (fun {c cs} h => ?_) ht
  refine List.ne_nil_of_mem (a := (f (c :: cs) none none, [])) ?_
  exact mem_bind.mpr ⟨_, [], mem_few1_all h, mem_bind.mpr ⟨none, [], none_mem_optional [],
    mem_bind.mpr ⟨none, [], none_mem_optional [], mem_bind.mpr ⟨[], [], nil_mem_blanks,
      mem_bind.mpr ⟨(), [], nil_mem_atEnd, mem_pure.mpr ⟨rfl, rfl⟩⟩⟩⟩⟩⟩

end Rests

/-! ## The laws of the steps -/

section Laws

variable {m : Char}

theorem within_wrappedDerivatives (hm : m ∈ sentenceMarks) : Within m wrappedDerivatives where
  nil := rfl
  append ht _ := wrappedFrom_append hm ht (Nat.zero_le _)
  oneLine h := oneLine_wrappedFrom h
  count t := count_wrappedFrom hm t 0
  firm h := firm_wrappedFrom hm h

theorem within_signWithDifferential (hm : m ∈ sentenceMarks) :
    Within m (replaceAll fun _ => signWithDifferential) where
  nil := rfl
  append ht t := replaceAll_append (fun _ => steady_signWithDifferential hm ht)
    (fun _ => anchored_signWithDifferential hm ht) t
  oneLine h := oneLine_replaceFrom (fun _ => reads_signWithDifferential) h
  count t := count_replaceAll (fun _ => carries_signWithDifferential hm) t
  firm h := firm_replaceAll (fun _ => carries_signWithDifferential hm) h

theorem within_shortIntegral (hm : m ∈ sentenceMarks) : Within m (replaceAll shortIntegral) where
  nil := rfl
  append ht t := replaceAll_append steady_shortIntegral (anchored_shortIntegral hm ht) t
  oneLine h := oneLine_replaceFrom reads_shortIntegral h
  count t := count_replaceAll (carries_shortIntegral hm) t
  firm h := firm_replaceAll (carries_shortIntegral hm) h

theorem blankless_mark (hm : m ∈ sentenceMarks) : Blankless [m] :=
  Blankless.cons_iff.mpr ⟨isBlank_mark hm, .nil⟩

theorem rest_openDerivative (hm : m ∈ sentenceMarks) : Rest m fun _ => openDerivative where
  continues ht _ := steady_derivativeOperator.continues fun _ => (steady_many1 _).continues fun _ =>
    continues_line (inLine_markTail hm ht) _
  carries _ := carries_openDerivative hm
  takesAll ht h := EndsText.eq_nil (.after fun _ => .after fun _ => .after fun _ => endsText_atEnd _)
    (carries_openDerivative hm).leavesEnd ht h
  alone _ := needsBlank_openDerivative _ (blankless_mark hm)

theorem endsText_worded (f : Text × Option Char → Text) :
    EndsText (wordedBody >>= fun x => pure (f x)) :=
  endsText_wordedBody.result fun _ _ _ _ h => (mem_pure.mp h).2

theorem rest_derivativeOf (hm : m ∈ sentenceMarks) : Rest m fun _ => derivativeOf where
  continues ht _ := steady_optionalArticle.continues fun _ => (steady_words _).continues fun _ =>
    (steady_many1 _).continues fun _ => continues_wordedBody (inLine_markTail hm ht) _
  carries _ := carries_derivativeOf hm
  takesAll ht h := EndsText.eq_nil (.after fun _ => .after fun _ => .after fun _ =>
    endsText_worded _) (carries_derivativeOf hm).leavesEnd ht h
  alone _ := needsBlank_derivativeOf _ (blankless_mark hm)

theorem bracket_markTail (hm : m ∈ sentenceMarks) {tail : Text} (ht : tail ∈ markTails m) :
    ∀ c ∈ tail, (c == '(') = false := by
  intro c hc
  rw [beq_eq_false_iff_ne]
  rintro rfl
  exact not_mem_markTail hm ht (by decide) hc

theorem rest_commanded (hm : m ∈ sentenceMarks) {w name : Text} (hw : w.all isLetter = true)
    (hne : w ≠ []) (hn : name.all isLetter = true) : Rest m fun _ => commanded w name where
  continues ht _ := (steady_word _).continues fun _ => (steady_many1 _).continues fun _ =>
    (steady_notBefore (bracket_markTail hm ht)).continues fun _ =>
      continues_wordedBody (inLine_markTail hm ht) _
  carries _ := carries_commanded hm hw hne hn
  takesAll ht h := EndsText.eq_nil (.after fun _ => .after fun _ => .after fun _ =>
    endsText_worded _) (carries_commanded hm hw hne hn).leavesEnd ht h
  alone _ := (leavesEnd_word w).needsBlank (fun _ => needsBlank_blanks1.bind _) _ (blankless_mark hm)

theorem rest_openIntegral (hm : m ∈ sentenceMarks) : Rest m fun _ => openIntegral where
  continues ht _ := (steady_literal _).continues fun _ => (steady_many _).continues fun _ =>
    continues_line (inLine_markTail hm ht) _
  carries _ := carries_openIntegral hm
  takesAll ht h := EndsText.eq_nil (.after fun _ => .after fun _ => .after fun _ => endsText_atEnd _)
    (carries_openIntegral hm).leavesEnd ht h
  alone _ := by rcases mark_eq hm with rfl | rfl <;> rfl

theorem rest_integralOf (hm : m ∈ sentenceMarks) : Rest m fun _ => integralOf where
  continues ht _ := steady_optionalArticle.continues fun _ => (steady_words _).continues fun _ =>
    (steady_many1 _).continues fun _ => continues_integralBody (inLine_markTail hm ht) _
  carries _ := carries_integralOf hm
  takesAll ht h := EndsText.eq_nil (.after fun _ => .after fun _ => .after fun _ => .after fun _ =>
    .after fun _ => .after fun _ => .after fun _ => endsText_atEnd _)
    (carries_integralOf hm).leavesEnd ht h
  alone _ := needsBlank_integralOf _ (blankless_mark hm)

theorem steady_arrow {tail : Text} : Steady tail arrow :=
  (steady_literal _).either (steady_literal _)

theorem rest_arrowLimit (hm : m ∈ sentenceMarks) : Rest m arrowLimit where
  continues ht _ := (steady_guard _).continues fun _ => (steady_word _).continues fun _ =>
    (steady_many _).continues fun _ => (steady_literal _).optional.continues fun _ =>
    (steady_many _).continues fun _ => (steady_literal _).optional.continues fun _ =>
    (steady_many _).continues fun _ => (steady_one _).continues fun _ =>
    (steady_many _).continues fun _ => steady_arrow.continues fun _ =>
    (steady_many _).continues fun _ => (steady_many1 _).continues fun _ =>
    (steady_many _).continues fun _ => (steady_literal _).optional.continues fun _ =>
    (steady_many1 _).continues fun _ => continues_line (inLine_markTail hm ht) _
  carries := carries_arrowLimit hm
  takesAll {last _ _ _} ht h := EndsText.eq_nil (.after fun _ => .after fun _ => .after fun _ =>
    .after fun _ => .after fun _ => .after fun _ => .after fun _ => .after fun _ => .after fun _ =>
    .after fun _ => .after fun _ => .after fun _ => .after fun _ => .after fun _ => .after fun _ =>
    .after fun _ => endsText_atEnd _) (carries_arrowLimit hm last).leavesEnd ht h
  alone last := needsBlank_arrowLimit last _ (blankless_mark hm)

theorem steady_approaches {tail : Text} : Steady tail approaches :=
  (steady_word _).either ((steady_words _).either (steady_words _))

theorem rest_wordedLimit (hm : m ∈ sentenceMarks) : Rest m wordedLimit where
  continues ht _ := (steady_guard _).continues fun _ => (steady_words _).continues fun _ =>
    (steady_many1 _).continues fun _ => (steady_one _).continues fun _ =>
    (steady_many1 _).continues fun _ => steady_approaches.continues fun _ =>
    (steady_many1 _).continues fun _ => (steady_many1 _).continues fun _ =>
    (steady_many1 _).continues fun _ => (steady_word _).continues fun _ =>
    (steady_many1 _).continues fun _ => continues_line (inLine_markTail hm ht) _
  carries := carries_wordedLimit hm
  takesAll {last _ _ _} ht h := EndsText.eq_nil (.after fun _ => .after fun _ => .after fun _ =>
    .after fun _ => .after fun _ => .after fun _ => .after fun _ => .after fun _ => .after fun _ =>
    .after fun _ => .after fun _ => .after fun _ => endsText_atEnd _)
    (carries_wordedLimit hm last).leavesEnd ht h
  alone last := needsBlank_wordedLimit last _ (blankless_mark hm)

theorem Within.comp {f g : Text → Text} (hf : Within m f) (hg : Within m g) :
    Within m fun t => g (f t) where
  nil := by rw [hf.nil, hg.nil]
  append ht t := by rw [hf.append ht, hg.append ht]
  oneLine h := hg.oneLine (hf.oneLine h)
  count t := by rw [hg.count, hf.count]
  firm h := hg.firm (hf.firm h)

/-- What single characters become holds the mark only if it is the mark. -/
theorem within_flatMap {g : Char → Text} (hs : g ' ' = [' ']) (hm : g m = [m])
    (hn : ∀ c, c ≠ m → m ∉ g c) (hl : ∀ c, inLine c = true → OneLine (g c))
    (hf : ∀ c, endsSentence c = false → Firm (g c)) : Within m (List.flatMap g) where
  nil := rfl
  append {tail} ht t := by
    simp only [markTails, List.mem_cons, List.not_mem_nil, or_false] at ht
    rcases ht with rfl | rfl <;> simp [hs, hm]
  oneLine {t} h c hc := by
    obtain ⟨d, hd, hc⟩ := List.mem_flatMap.mp hc
    exact hl d (h d hd) c hc
  count t := by
    induction t with
    | nil => rfl
    | cons c cs ih =>
      rw [List.flatMap_cons, List.count_append, ih, List.count_cons]
      by_cases hc : c = m
      · rw [hc, hm, if_pos (beq_self_eq_true m), List.count_singleton_self, Nat.add_comm]
      · rw [List.count_eq_zero_of_not_mem (hn c hc), Nat.zero_add, if_neg (by simpa using hc),
          Nat.add_zero]
  firm {t} h := by
    obtain ⟨c, hc, he⟩ := h
    obtain ⟨s, rfl⟩ := List.getLast?_eq_some_iff.mp hc
    rw [List.flatMap_append, List.flatMap_singleton]
    exact (hf c he).append _

theorem within_map {g : Char → Char} (hs : g ' ' = ' ') (hm : g m = m)
    (hn : ∀ c, c ≠ m → g c ≠ m) (hl : ∀ c, inLine c = true → inLine (g c) = true)
    (hf : ∀ c, endsSentence c = false → endsSentence (g c) = false) : Within m (List.map g) := by
  have h : Within m (List.flatMap fun c => [g c]) :=
    within_flatMap (by rw [hs]) (by rw [hm]) (fun c hc h => hn c hc (List.mem_singleton.mp h).symm)
      (fun c hc => List.forall_mem_singleton.mpr (hl c hc))
      fun c hc => firm_append_singleton [] (hf c hc)
  have he : (List.flatMap fun c => [g c]) = List.map g := by
    funext t
    exact List.map_eq_flatMap.symm
  rwa [he] at h

theorem within_crossBetweenDigits (hm : m ∈ sentenceMarks) :
    Within m (replaceAll crossBetweenDigits) where
  nil := rfl
  append ht t := replaceAll_append (steady_crossBetweenDigits hm ht)
    (anchored_crossBetweenDigits hm ht) t
  oneLine h := oneLine_replaceFrom (fun last => by
    refine (stays_guard _).bind fun _ => (reads_many _).bind fun _ _ _ => (reads_one _).bind
      fun _ _ _ => (reads_many _).bind fun _ _ _ => (stays_before _).bind fun _ => reads_pure fun _ => ?_
    exact forall_mem_of_all (by decide)) h
  count t := count_replaceAll (carries_crossBetweenDigits hm) t
  firm h := firm_replaceAll (carries_crossBetweenDigits hm) h

theorem within_doubleStar (hm : m ∈ sentenceMarks) : Within m (replaceAll fun _ => doubleStar) where
  nil := rfl
  append ht t := replaceAll_append (fun _ => steady_doubleStar) (fun _ => anchored_doubleStar hm ht) t
  oneLine h := oneLine_replaceFrom (fun _ => by
    refine (reads_literal _).bind fun _ _ _ => reads_pure fun _ => ?_
    exact forall_mem_of_all (by decide)) h
  count t := count_replaceAll (fun _ => carries_doubleStar hm) t
  firm h := firm_replaceAll (fun _ => carries_doubleStar hm) h

theorem within_plainTimes (hm : m ∈ sentenceMarks) : Within m (List.map plainTimes) := by
  have cases : ∀ c, plainTimes c = '*' ∨ plainTimes c = c := by
    intro c
    unfold plainTimes
    split
    · exact .inl rfl
    · exact .inr rfl
  have hstar : m ≠ '*' := by rcases mark_eq hm with rfl | rfl <;> decide
  refine within_map (by decide) (by rcases mark_eq hm with rfl | rfl <;> decide) (fun c hc => ?_)
    (fun c hc => ?_) fun c hc => ?_
  · rcases cases c with h | h <;> rw [h]
    · exact hstar.symm
    · exact hc
  · rcases cases c with h | h <;> rw [h]
    · decide
    · exact hc
  · rcases cases c with h | h <;> rw [h]
    · decide
    · exact hc

theorem within_plainSign (hm : m ∈ sentenceMarks) : Within m (List.map plainSign) := by
  have cases : ∀ c, plainSign c = '/' ∨ plainSign c = '-' ∨ plainSign c = c := by
    intro c
    unfold plainSign
    split
    · exact .inl rfl
    · split
      · exact .inr (.inl rfl)
      · exact .inr (.inr rfl)
  have hsign : m ≠ '/' ∧ m ≠ '-' := by rcases mark_eq hm with rfl | rfl <;> decide
  refine within_map (by decide) (by rcases mark_eq hm with rfl | rfl <;> decide) (fun c hc => ?_)
    (fun c hc => ?_) fun c hc => ?_
  · rcases cases c with h | h | h <;> rw [h]
    · exact hsign.1.symm
    · exact hsign.2.symm
    · exact hc
  · rcases cases c with h | h | h <;> rw [h]
    · decide
    · decide
    · exact hc
  · rcases cases c with h | h | h <;> rw [h]
    · decide
    · decide
    · exact hc

theorem firm_iff {t : Text} : Firm t ↔ t.getLast?.any (fun c => !endsSentence c) = true := by
  cases h : t.getLast? with
  | none => simp [Firm, h]
  | some c => simp [Firm, h]

theorem within_plainGlyph (hm : m ∈ sentenceMarks) : Within m (List.flatMap plainGlyph) := by
  have spelled : ∀ c ∈ spelledGlyphs, ((plainGlyph c).all fun d => !sentenceMarks.contains d) = true ∧
      (plainGlyph c).all inLine = true ∧
      (plainGlyph c).getLast?.any (fun d => !endsSentence d) = true :=
    forall_mem_of_all (by decide)
  refine within_flatMap (by decide) (by rcases mark_eq hm with rfl | rfl <;> decide)
    (fun c hc => ?_) (fun c hc => ?_) fun c hc => ?_
  all_goals by_cases h : c ∈ spelledGlyphs
  · intro hc
    have := List.all_eq_true.mp (spelled c h).1 m hc
    rw [List.contains_iff_mem.mpr hm] at this
    exact absurd this (by decide)
  · rw [plainGlyph_of_not_mem h]
    exact fun hm => hc (List.mem_singleton.mp hm).symm
  · exact List.all_eq_true.mp (spelled c h).2.1
  · rw [plainGlyph_of_not_mem h]
    exact List.forall_mem_singleton.mpr hc
  · exact firm_iff.mpr (spelled c h).2.2
  · rw [plainGlyph_of_not_mem h]
    exact firm_append_singleton [] hc

theorem within_plainGlyphs (hm : m ∈ sentenceMarks) : Within m plainGlyphs :=
  (((within_plainTimes hm).comp (within_crossBetweenDigits hm)).comp (within_plainSign hm)).comp
    (within_doubleStar hm) |>.comp (within_plainGlyph hm)

/-- **Every step obeys the laws of its kind.** -/
theorem rewritingSteps_lawful (hm : m ∈ sentenceMarks) : ∀ s ∈ rewritingSteps, s.Lawful m := by
  simp only [rewritingSteps, List.forall_mem_cons, List.not_mem_nil, false_implies, implies_true,
    and_true]
  exact ⟨within_wrappedDerivatives hm, rest_openDerivative hm, rest_derivativeOf hm,
    rest_commanded hm (by decide) (by decide) (by decide), within_signWithDifferential hm,
    rest_openIntegral hm, rest_integralOf hm,
    rest_commanded hm (by decide) (by decide) (by decide), within_shortIntegral hm,
    rest_arrowLimit hm, rest_wordedLimit hm, within_plainGlyphs hm⟩

end Laws

end Stepwise.Phrase
