import Stepwise.Proofs.Lawful
import Stepwise.Proofs.Squeeze

/-!
# A mark at the end of a problem

Rules drop the marks that end a sentence, but only after the phrasings have been rewritten: a
phrasing that takes the rest of the text takes the mark as well. Here it is said exactly which
problems have the same canonical form with a mark and without.

Results: `canonical_append_mark_iff`, and `canonical_question`, a question whose mark stays.
-/

namespace Stepwise.Phrase

open Text Pattern

/-- The text that phrasings are looked for in: blanks are collapsed, and instructions dropped. -/
def bare (t : Text) : Text :=
  Rule.stripInstructions.apply (Rule.collapseBlanks.apply t)

theorem canonical_eq_run (t : Text) :
    canonical t = removeBlanks (dropEndWhile endsSentence (run rewritingSteps (bare t))) := by
  rw [run_rewritingSteps]
  simp only [canonical, Rule.all, List.foldl_cons, List.foldl_nil, bare, Rule.apply, canonical]

section Collapse

variable {m : Char} {s t : Text}

theorem oneLine_squeeze (t : Text) : OneLine (squeeze t) := by
  intro c hc
  refine bne_iff_ne.mpr ?_
  rintro rfl
  exact blank_not_mem_squeeze (by decide) (by decide) t hc

theorem noBlankEnd_collapse (t : Text) : NoBlankEnd (Rule.collapseBlanks.apply t) :=
  fun _ hc => getLast?_dropEndWhile hc

theorem oneLine_collapse (t : Text) : OneLine (Rule.collapseBlanks.apply t) :=
  (oneLine_squeeze t).trim

/-- A mark comes right after the collapsed text, or with a space in between. -/
theorem collapse_append_mark (hm : m ∈ sentenceMarks) (s : Text) : ∃ tail ∈ markTails m,
    Rule.collapseBlanks.apply (s ++ [m]) = Rule.collapseBlanks.apply s ++ tail := by
  have hb := isBlank_mark hm
  obtain ⟨w, he, hw⟩ := dropEndWhile_append isBlank ((squeeze s).dropWhile isBlank)
  have hsuf : w <:+ squeeze s := List.IsSuffix.trans ⟨_, he.symm⟩ (List.dropWhile_suffix _)
  have hend : ∀ c, ((squeeze s).dropWhile isBlank ++ [m]).getLast? = some c → isBlank c = false := by
    intro c hc
    rw [List.getLast?_concat] at hc
    rwa [← Option.some.inj hc]
  have happ : Rule.collapseBlanks.apply (s ++ [m]) = (squeeze s).dropWhile isBlank ++ [m] := by
    rw [Rule.apply, squeeze_append_singleton hb, trim, dropWhile_append_singleton hb,
      dropEndWhile_of_getLast hend]
  refine ⟨w ++ [m], ?_, ?_⟩
  · rcases blank_suffix_squeeze s w hsuf hw with rfl | rfl
    · exact List.mem_cons_self
    · exact List.mem_cons_of_mem _ List.mem_cons_self
  · rw [happ, he, List.append_assoc]
    rfl

theorem allBlank_of_collapse (h : Rule.collapseBlanks.apply s = []) : allBlank s = true := by
  have hr : removeBlanks s = [] := by
    rw [← removeBlanks_squeeze, ← removeBlanks_trim]
    exact (congrArg removeBlanks h).trans rfl
  rw [allBlank, List.all_eq_true]
  intro c hc
  cases hb : isBlank c with
  | true => rfl
  | false =>
    have : c ∈ removeBlanks s := List.mem_filter.mpr ⟨hc, by rw [hb]; rfl⟩
    rw [hr] at this
    exact absurd this List.not_mem_nil

theorem collapse_of_allBlank (h : allBlank s = true) : Rule.collapseBlanks.apply s = [] := by
  have hr : removeBlanks (Rule.collapseBlanks.apply s) = [] := by
    rw [Rule.apply, removeBlanks_trim, removeBlanks_squeeze, removeBlanks, List.filter_eq_nil_iff]
    intro c hc
    rw [List.all_eq_true.mp h c hc]
    decide
  cases hl : (Rule.collapseBlanks.apply s).getLast? with
  | none => exact List.getLast?_eq_none_iff.mp hl
  | some c =>
    have hc : c ∈ removeBlanks (Rule.collapseBlanks.apply s) :=
      List.mem_filter.mpr ⟨List.mem_of_getLast? hl, by rw [noBlankEnd_collapse s c hl]; rfl⟩
    rw [hr] at hc
    exact absurd hc List.not_mem_nil

end Collapse

/-! ## Instructions -/

/-- An instruction in front of a text, with the blanks and the article after it. -/
def instructionHead : Pattern Unit := do
  instruction
  let _ ← blanks1
  optionalArticle

theorem withoutInstructions_succ (fuel : Nat) (t : Text) : withoutInstructions (fuel + 1) t =
    match instructionHead.best? t with
    | some (_, rest) => withoutInstructions fuel rest
    | none => t := rfl

section Instructions

variable {m : Char} {tail s t : Text}

theorem instruction_eq : instruction = either (anyWord ["find".toList, "compute".toList,
    "evaluate".toList, "calculate".toList, "determine".toList])
    (words ["what".toList, "is".toList]) := rfl

theorem anyWord_cons (w : Text) (ws : List Text) : anyWord (w :: ws) = either (word w) (anyWord ws) :=
  rfl

theorem steady_anyWord : ∀ ws : List Text, Steady tail (anyWord ws)
  | [] => ⟨fun _ _ _ h => absurd h List.not_mem_nil, fun _ => rfl⟩
  | w :: ws => by
    rw [anyWord_cons]
    exact (steady_word w).either (steady_anyWord ws)

theorem passes_anyWord (hm : m ∈ sentenceMarks) : ∀ {ws : List Text},
    (ws.all fun w => w.all isLetter) = true → Passes m (anyWord ws)
  | [], _ => fun _ _ _ h => absurd h List.not_mem_nil
  | w :: ws, h => by
    obtain ⟨hw, hws⟩ := (Bool.and_eq_true _ _).mp h
    rw [anyWord_cons]
    exact (passes_letters hm hw).either (passes_anyWord hm hws)

theorem steady_instructionHead : Steady tail instructionHead := by
  refine Steady.bind ?_ fun _ => (steady_many1 _).bind fun _ => steady_optionalArticle
  rw [instruction_eq]
  exact (steady_anyWord _).either (steady_words _)

theorem passes_instructionHead (hm : m ∈ sentenceMarks) : Passes m instructionHead := by
  refine Passes.bind ?_ fun _ => (passes_blanks1 hm).bind fun _ => passes_optionalArticle hm
  rw [instruction_eq]
  exact (passes_anyWord hm (by decide)).either (passes_words hm (by decide))

theorem reads_blanks1 : Reads blanks1 fun u _ => EndsBlank u := by
  intro t v r h
  obtain ⟨u, he, rfl, hb⟩ := reads_many1 isBlank t v r h
  have hn : u ≠ [] := (mem_many1 h).2
  exact ⟨u, he, u.dropLast, u.getLast hn, (List.dropLast_concat_getLast hn).symm,
    hb _ (List.getLast_mem hn)⟩

/-- An instruction ends in a blank. -/
theorem reads_instructionHead : Reads instructionHead fun u _ => EndsBlank u := by
  have article : Reads optionalArticle fun u _ => u = [] ∨ EndsBlank u := by
    have inner : Reads (word "the".toList >>= fun _ => blanks1) fun u _ => EndsBlank u :=
      (leavesEnd_word _).reads.bind fun u _ _ => reads_blanks1.mono fun v _ hv => hv.append u
    refine inner.optional.bind fun u o h => reads_pure ?_
    rw [List.append_nil]
    cases o with
    | none => exact .inl h
    | some _ => exact .inr h
  refine leavesEnd_instruction.reads.bind fun u _ _ => reads_blanks1.bind fun v _ hv =>
    article.mono fun w _ hw => ?_
  rcases hw with rfl | hw
  · rw [List.append_nil]
    exact hv.append u
  · exact (hw.append v).append u

/-- Something is left of a text that does not end in a blank. -/
theorem instructions_suffix : ∀ {fuel : Nat} {t : Text}, NoBlankEnd t → t ≠ [] →
    withoutInstructions fuel t <:+ t ∧ withoutInstructions fuel t ≠ []
  | 0, _, _, hn => ⟨List.suffix_refl _, hn⟩
  | fuel + 1, t, ht, hn => by
    rw [withoutInstructions_succ]
    split
    next u r h =>
      obtain ⟨u, rfl, hu⟩ := reads_instructionHead _ _ _ (mem_of_best? h)
      have hr : r ≠ [] := by
        rintro rfl
        rw [List.append_nil] at ht
        exact hu.not_noBlankEnd ht
      have hs : r <:+ u ++ r := List.suffix_append _ _
      obtain ⟨hsuf, hne⟩ := instructions_suffix (t := r) (ht.of_suffix hs) hr
      exact ⟨hsuf.trans hs, hne⟩
    next => exact ⟨List.suffix_refl _, hn⟩

/-- More fuel than there are characters changes nothing. -/
theorem withoutInstructions_eq : ∀ {fuel fuel' : Nat} {t : Text}, t.length ≤ fuel →
    t.length ≤ fuel' → withoutInstructions fuel t = withoutInstructions fuel' t
  | 0, fuel', t, h, _ => by
    obtain rfl := List.length_eq_zero_iff.mp (Nat.le_zero.mp h)
    exact (instructions_of_blankless .nil fuel').symm
  | fuel + 1, 0, t, _, h => by
    obtain rfl := List.length_eq_zero_iff.mp (Nat.le_zero.mp h)
    exact instructions_of_blankless .nil _
  | fuel + 1, fuel' + 1, t, h, h' => by
    rw [withoutInstructions_succ, withoutInstructions_succ]
    split
    next u r hb =>
      obtain ⟨u, rfl, v, b, rfl, -⟩ := reads_instructionHead _ _ _ (mem_of_best? hb)
      simp only [List.length_append, List.length_singleton] at h h'
      exact withoutInstructions_eq (by omega) (by omega)
    next => rfl

/-- What is read of a text with a mark at the end is read of the text, or it is an instruction with
nothing but the mark behind. -/
theorem instructionHead_append (hm : m ∈ sentenceMarks) (ht : tail ∈ markTails m) {w : Text}
    (hw : NoBlankEnd w) {r : Text} (h : instructionHead.best? (w ++ tail) = some ((), r)) :
    (∃ s, r = s ++ tail ∧ instructionHead.best? w = some ((), s)) ∨ r = [m] ∧ Firm w := by
  have hmem := mem_of_best? h
  by_cases hl : leaves tail ((), r) = true
  · -- The best reading leaves the tail alone, so it is the best of those that do.
    left
    have steady : Steady tail instructionHead := steady_instructionHead
    have hf := steady.filter_eq w
    obtain ⟨rest, hrest⟩ : ∃ rest, instructionHead (w ++ tail) = ((), r) :: rest :=
      List.head?_eq_some_iff.mp h
    rw [hrest, List.filter_cons_of_pos hl] at hf
    cases hb : instructionHead w with
    | nil =>
      rw [hb] at hf
      exact absurd hf (List.cons_ne_nil _ _)
    | cons x xs =>
      rw [hb] at hf
      have hx : ((), r) = withTail tail x := (List.cons.inj hf).1
      exact ⟨x.2, (Prod.mk.inj hx).2, by rw [best?, hb]; rfl⟩
  · right
    obtain ⟨u, he, hu⟩ := passes_instructionHead hm _ _ _ hmem
    have hlt : r.length < tail.length := Nat.lt_of_not_le fun h => hl (decide_eq_true h)
    have hmr : m ∈ r := by
      have : m ∈ u ++ r := by
        rw [← he]
        refine List.mem_append_right _ ?_
        simp only [markTails, List.mem_cons, List.not_mem_nil, or_false] at ht
        rcases ht with rfl | rfl <;> simp
      exact (List.mem_append.mp this).resolve_left hu
    obtain ⟨d, rs, rfl⟩ := List.exists_cons_of_ne_nil (List.ne_nil_of_mem hmr)
    have htail : tail = [' ', m] := by
      simp only [markTails, List.mem_cons, List.not_mem_nil, or_false] at ht
      refine ht.resolve_left ?_
      rintro rfl
      simp at hlt
    subst htail
    obtain rfl : rs = [] := by
      simp only [List.length_cons, List.length_nil] at hlt
      exact List.length_eq_zero_iff.mp (by omega)
    obtain rfl := List.mem_singleton.mp hmr
    have hu' : u = w ++ [' '] := by
      have : w ++ [' '] ++ [m] = u ++ [m] := by simpa using he
      exact (List.append_cancel_right this).symm
    refine ⟨rfl, ?_⟩
    cases hlast : w.getLast? with
    | none =>
      obtain rfl := List.getLast?_eq_none_iff.mp hlast
      have : instructionHead [' ', m] = [] := by rcases mark_eq hm with rfl | rfl <;> rfl
      rw [List.nil_append, this] at hmem
      exact absurd hmem List.not_mem_nil
    | some c =>
      have hmark : ∀ k ∈ sentenceMarks, c ≠ k := by
        rintro k hk rfl
        obtain ⟨v, hv, hvc⟩ := passes_instructionHead hk _ _ _ hmem
        rw [he] at hv
        rw [← List.append_cancel_right hv, hu'] at hvc
        exact hvc (List.mem_append_left _ (List.mem_of_getLast? hlast))
      refine ⟨c, hlast, ?_⟩
      rw [endsSentence, hw c hlast, Bool.false_or, Bool.or_eq_false_iff, beq_eq_false_iff_ne,
        beq_eq_false_iff_ne]
      exact ⟨hmark '.' (by decide), hmark '?' (by decide)⟩

/-- Instructions are dropped in front of a mark as they are without it, or nothing but the mark is
left. -/
theorem withoutInstructions_append (hm : m ∈ sentenceMarks) (ht : tail ∈ markTails m) :
    ∀ (fuel : Nat) {w : Text}, NoBlankEnd w →
      withoutInstructions fuel (w ++ tail) = withoutInstructions fuel w ++ tail ∨
        withoutInstructions fuel (w ++ tail) = [m] ∧ Firm w
  | 0, _, _ => .inl rfl
  | fuel + 1, w, hw => by
    rw [withoutInstructions_succ, withoutInstructions_succ]
    cases h : instructionHead.best? (w ++ tail) with
    | none =>
      have hw' : instructionHead.best? w = none := by
        cases hb : instructionHead.best? w with
        | none => rfl
        | some x =>
          have steady : Steady tail instructionHead := steady_instructionHead
          have hne := best?_ne_none.mpr ⟨_, _, steady.mem_append (mem_of_best? hb)⟩
          exact absurd h hne
      rw [hw']
      exact .inl rfl
    | some x =>
      rcases instructionHead_append hm ht hw h with ⟨s, hs, hb⟩ | ⟨hr, hf⟩
      · obtain ⟨u, hu, hub⟩ := reads_instructionHead _ _ _ (mem_of_best? hb)
        have hsuf : s <:+ w := ⟨u, hu.symm⟩
        rw [hb]
        dsimp only
        rw [hs]
        exact (withoutInstructions_append hm ht fuel (hw.of_suffix hsuf)).imp_right fun ⟨he, hf⟩ =>
          ⟨he, by rw [hu]; exact hf.append u⟩
      · right
        dsimp only
        rw [hr]
        exact ⟨instructions_of_blankless (blankless_mark hm) _, hf⟩

end Instructions

/-! ## The exact condition -/

/-- The mark at the end of a problem makes a difference. -/
inductive MarkMatters (s : Text) (m : Char) : Prop
  /-- A phrasing takes the rest of the text, and the mark with it. -/
  | taken (h : TakesRest rewritingSteps (bare (s ++ [m])))
  /-- There is nothing but instructions in front of the mark, the last of which is complete only with
  the blank before it. -/
  | instructions (h : bare (s ++ [m]) = [m]) (hs : allBlank s = false)

section Main

variable {m : Char} {s t tail : Text}

theorem bare_suffix (s : Text) : bare s <:+ Rule.collapseBlanks.apply s := by
  by_cases h : Rule.collapseBlanks.apply s = []
  · rw [bare, h]
    exact List.suffix_refl _
  · exact (instructions_suffix (noBlankEnd_collapse s) h).1

theorem oneLine_bare (s : Text) : OneLine (bare s) := (oneLine_collapse s).of_suffix (bare_suffix s)

theorem bare_append_mark (hm : m ∈ sentenceMarks) (s : Text) :
    (∃ tail ∈ markTails m, bare (s ++ [m]) = bare s ++ tail) ∨
      bare (s ++ [m]) = [m] ∧ Firm (bare s) ∧ allBlank s = false := by
  obtain ⟨tail, ht, hc⟩ := collapse_append_mark hm s
  have hn := noBlankEnd_collapse s
  have hbare : bare s = withoutInstructions (Rule.collapseBlanks.apply (s ++ [m])).length
      (Rule.collapseBlanks.apply s) := by
    refine withoutInstructions_eq (Nat.le_refl _) ?_
    rw [hc, List.length_append]
    exact Nat.le_add_right _ _
  have hbare' : bare (s ++ [m]) = withoutInstructions (Rule.collapseBlanks.apply (s ++ [m])).length
      (Rule.collapseBlanks.apply s ++ tail) := congrArg (withoutInstructions _) hc
  rcases withoutInstructions_append hm ht (Rule.collapseBlanks.apply (s ++ [m])).length hn with
    h | ⟨h, hf⟩
  · exact .inl ⟨tail, ht, by rw [hbare', h, hbare]⟩
  · refine .inr ⟨by rw [hbare', h], ?_, ?_⟩
    · obtain ⟨hsuf, hne⟩ := instructions_suffix hn hf.ne_nil
      exact hf.of_suffix hsuf hne
    · cases hall : allBlank s with
      | false => rfl
      | true => exact absurd (collapse_of_allBlank hall) hf.ne_nil

theorem dropEndWhile_append_of_all {q : Char → Bool} (h : ∀ c ∈ tail, q c = true) :
    ∀ t : Text, dropEndWhile q (t ++ tail) = dropEndWhile q t
  | [] => by
    induction tail with
    | nil => rfl
    | cons c cs ih =>
      obtain ⟨hc, hcs⟩ := List.forall_mem_cons.mp h
      have hcs : dropEndWhile q cs = [] := ih hcs
      change dropEndWhile q (c :: cs) = []
      rw [dropEndWhile, hcs]
      exact if_pos hc
  | c :: cs => by
    rw [List.cons_append, dropEndWhile, dropEndWhile, dropEndWhile_append_of_all h cs]

theorem Firm.dropEndWhile_eq (h : Firm t) : dropEndWhile endsSentence t = t := by
  obtain ⟨c, hc, he⟩ := h
  refine dropEndWhile_of_getLast fun d hd => ?_
  rwa [← Option.some.inj (hc.symm.trans hd)]

/-- A canonical text that comes of one that does not end like a sentence holds all its marks. -/
theorem count_canonical_of_firm (hm : m ∈ sentenceMarks)
    (h : Firm (run rewritingSteps (bare s))) : (canonical s).count m = (bare s).count m := by
  rw [canonical_eq_run, h.dropEndWhile_eq, count_removeBlanks hm,
    count_run (rewritingSteps_lawful hm)]

theorem count_canonical_le (hm : m ∈ sentenceMarks) (s : Text) :
    (canonical s).count m ≤ (bare s).count m := by
  obtain ⟨w, he, -⟩ := dropEndWhile_append endsSentence (run rewritingSteps (bare s))
  rw [canonical_eq_run, count_removeBlanks hm, ← count_run (rewritingSteps_lawful hm) (bare s)]
  conv => rhs; rw [he, List.count_append]
  exact Nat.le_add_right _ _

theorem canonical_of_bare_mark (hm : m ∈ sentenceMarks) (h : bare s = [m]) : canonical s = [] := by
  have lawful := rewritingSteps_lawful hm
  have hrun : run rewritingSteps ([] ++ [m]) = run rewritingSteps [] ++ [m] :=
    run_append lawful List.mem_cons_self (fun _ h => absurd h List.not_mem_nil)
      (not_takesRest_mark lawful)
  rw [List.nil_append, run_nil lawful, List.nil_append] at hrun
  rw [canonical_eq_run, h, hrun, dropEndWhile, dropEndWhile]
  exact congrArg removeBlanks (if_pos (endsSentence_mark hm))

theorem canonical_ne_nil_of_firm (h : Firm (run rewritingSteps (bare s))) : canonical s ≠ [] := by
  obtain ⟨c, hc, he⟩ := h
  have hmem : c ∈ canonical s := by
    rw [canonical_eq_run, Firm.dropEndWhile_eq ⟨c, hc, he⟩]
    refine List.mem_filter.mpr ⟨List.mem_of_getLast? hc, ?_⟩
    rw [endsSentence, Bool.or_eq_false_iff, Bool.or_eq_false_iff] at he
    rw [he.1.1]
    rfl
  exact List.ne_nil_of_mem hmem

theorem allBlank_of_bare_append (ht : tail ∈ markTails m) (h : bare s ++ tail = [m]) :
    allBlank s = true := by
  have hnil : bare s = [] := by
    simp only [markTails, List.mem_cons, List.not_mem_nil, or_false] at ht
    rcases ht with rfl | rfl
    · simpa using h
    · exact absurd (congrArg List.length h) (by simp)
  by_cases hn : Rule.collapseBlanks.apply s = []
  · exact allBlank_of_collapse hn
  · exact absurd hnil (instructions_suffix (noBlankEnd_collapse s) hn).2

/-- A text in a call holds one mark more than there can be without it. -/
theorem canonical_append_ne_of_taken (hm : m ∈ sentenceMarks) (ht : tail ∈ markTails m)
    (hb : bare (s ++ [m]) = bare s ++ tail) (hr : TakesRest rewritingSteps (bare (s ++ [m]))) :
    canonical (s ++ [m]) ≠ canonical s := by
  intro he
  have hfirm := firm_run_of_takesRest (rewritingSteps_lawful hm) (oneLine_bare (s ++ [m])) hr
  have hcount := count_canonical_of_firm hm hfirm
  have hle := count_canonical_le hm s
  have htail : 0 < tail.count m := by
    simp only [markTails, List.mem_cons, List.not_mem_nil, or_false] at ht
    rcases ht with rfl | rfl <;> simp
  rw [he, hb, List.count_append] at hcount
  omega

theorem canonical_append_mark (hm : m ∈ sentenceMarks) (s : Text) :
    canonical (s ++ [m]) = canonical s ↔ ¬MarkMatters s m := by
  have lawful := rewritingSteps_lawful hm
  rcases bare_append_mark hm s with ⟨tail, ht, hb⟩ | ⟨hb, hf, hs⟩
  · by_cases hr : TakesRest rewritingSteps (bare (s ++ [m]))
    · exact iff_of_false (canonical_append_ne_of_taken hm ht hb hr) fun h => h (.taken hr)
    · refine iff_of_true ?_ ?_
      · rw [hb] at hr
        have hall : ∀ c ∈ tail, endsSentence c = true :=
          forall_mem_markTail ht (by decide) (endsSentence_mark hm)
        rw [canonical_eq_run, canonical_eq_run, hb, run_append lawful ht (oneLine_bare s) hr,
          dropEndWhile_append_of_all hall]
      · rintro (h | ⟨h, hs⟩)
        · exact hr h
        · rw [hb] at h
          rw [allBlank_of_bare_append ht h] at hs
          exact Bool.false_ne_true hs.symm
  · -- Nothing is left of the mark alone, but an instruction without its blank stays.
    refine iff_of_false (fun he => ?_) fun h => h (.instructions hb hs)
    exact canonical_ne_nil_of_firm (firm_run lawful hf) (he.symm.trans (canonical_of_bare_mark hm hb))

/-- **A question mark or a period at the end of a problem makes no difference to the canonical form,
unless it is taken into a call or stands behind nothing but instructions.** -/
theorem canonical_append_mark_iff (s : Text) :
    (canonical (s ++ ['?']) = canonical s ↔ ¬MarkMatters s '?') ∧
      (canonical (s ++ ['.']) = canonical s ↔ ¬MarkMatters s '.') :=
  ⟨canonical_append_mark (by decide) s, canonical_append_mark (by decide) s⟩

/-- The mark of a question that asks for a derivative is taken into the call. -/
theorem canonical_question :
    canonical "What is the derivative of x^2".toList = "diff(x^2,x)".toList ∧
      canonical "What is the derivative of x^2?".toList = "diff(x^2?,x)".toList := by
  decide +kernel

end Main

end Stepwise.Phrase
