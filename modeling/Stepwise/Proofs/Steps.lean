import Stepwise.Proofs.Marks

/-!
# Rewriting step by step

The rules of derivatives, integrals, limits and glyphs are steps in a row. Some rewrite a piece in the
middle of a text (`Step.within`), the others take the rest of it (`Step.rest`): once one of those is
read, everything up to the end stands in a call. What a step does to a text that ends with a mark is
said once for each kind: `Within` and `Rest`.

Results: `run_append`, steps that take no rest leave the end of a sentence alone;
`firm_run_of_takesRest`, after one that does the text does not end like a sentence; and `count_run`,
no step loses a mark.
-/

namespace Stepwise.Phrase

open Text Pattern

/-- A step of the phrase rules. -/
inductive Step
  /-- It rewrites pieces in the middle. -/
  | within (f : Text → Text)
  /-- It replaces a pattern that takes the rest of the text. -/
  | rest (p : Option Char → Pattern Text)

/-- What a step makes of a text. -/
def Step.apply : Step → Text → Text
  | within f, t => f t
  | rest p, t => replaceAll p t

/-- Steps one after the other. -/
def run (steps : List Step) (t : Text) : Text := steps.foldl (fun t s => s.apply t) t

/-- The steps of the rules for derivatives, integrals, limits and glyphs. -/
def rewritingSteps : List Step :=
  [.within wrappedDerivatives, .rest fun _ => openDerivative, .rest fun _ => derivativeOf,
    .rest fun _ => differentiate, .within (replaceAll fun _ => signWithDifferential),
    .rest fun _ => openIntegral, .rest fun _ => integralOf, .rest fun _ => integrate,
    .within (replaceAll shortIntegral), .rest arrowLimit, .rest wordedLimit, .within plainGlyphs]

theorem run_rewritingSteps (t : Text) :
    run rewritingSteps t = plainGlyphs (limits (integrals (derivatives t))) := by
  simp only [run, rewritingSteps, List.foldl_cons, List.foldl_nil, Step.apply, derivatives,
    integrals, limits]

/-- One of the steps that take the rest is read when its turn comes. -/
def TakesRest : List Step → Text → Prop
  | [], _ => False
  | .within f :: steps, t => TakesRest steps (f t)
  | .rest p :: steps, t => ReadsFrom p none t ∨ TakesRest steps t

/-! ## The laws of the two kinds -/

/-- There is no line break in the text. -/
def OneLine (t : Text) : Prop := ∀ c ∈ t, inLine c = true

/-- A step in the middle of a text leaves the end of a sentence alone, and keeps its marks. -/
structure Within (m : Char) (f : Text → Text) : Prop where
  nil : f [] = []
  append : ∀ {tail}, tail ∈ markTails m → ∀ t, f (t ++ tail) = f t ++ tail
  oneLine : ∀ {t}, OneLine t → OneLine (f t)
  count : ∀ t, (f t).count m = t.count m
  firm : ∀ {t}, Firm t → Firm (f t)

/-- A step that takes the rest of a text does so with a mark at the end, too, and keeps it. -/
structure Rest (m : Char) (p : Option Char → Pattern Text) : Prop where
  continues : ∀ {tail}, tail ∈ markTails m → ∀ last, Continues tail (p last)
  carries : ∀ last, Carries m (p last)
  takesAll : ∀ {last t new r}, OneLine t → (new, r) ∈ p last t → r = []
  alone : ∀ last, p last [m] = []

/-- The laws of the step's kind. -/
def Step.Lawful (m : Char) : Step → Prop
  | within f => Within m f
  | rest p => Rest m p

section Run

variable {m : Char} {tail t : Text} {p : Option Char → Pattern Text}

theorem Step.Lawful.count {s : Step} (h : s.Lawful m) (t : Text) :
    (s.apply t).count m = t.count m := by
  cases s with
  | within f => exact Within.count h t
  | rest p => exact count_replaceAll (Rest.carries h) t

theorem Step.Lawful.firm {s : Step} (h : s.Lawful m) (ht : Firm t) : Firm (s.apply t) := by
  cases s with
  | within f => exact Within.firm h ht
  | rest p => exact firm_replaceAll (Rest.carries h) ht

/-- No step loses a mark. -/
theorem count_run {steps : List Step} (h : ∀ s ∈ steps, s.Lawful m) (t : Text) :
    (run steps t).count m = t.count m := by
  induction steps generalizing t with
  | nil => rfl
  | cons s steps ih =>
    obtain ⟨hs, hsteps⟩ := List.forall_mem_cons.mp h
    exact (ih hsteps (s.apply t)).trans (hs.count t)

theorem firm_run {steps : List Step} (h : ∀ s ∈ steps, s.Lawful m) (ht : Firm t) :
    Firm (run steps t) := by
  induction steps generalizing t with
  | nil => exact ht
  | cons s steps ih =>
    obtain ⟨hs, hsteps⟩ := List.forall_mem_cons.mp h
    exact ih hsteps (hs.firm ht)

/-- A pattern that takes the rest is read with a mark at the end where it is read without. -/
theorem Rest.readsFrom_append (h : Rest m p) (ht : tail ∈ markTails m) :
    ∀ {t : Text} {last : Option Char}, OneLine t → ReadsFrom p last t → ReadsFrom p last (t ++ tail)
  | c :: cs, last, hl, hr => by
    refine hr.imp (fun hb => ?_) fun hr =>
      h.readsFrom_append ht (List.forall_mem_cons.mp hl).2 hr
    obtain ⟨a, r, hr⟩ := best?_ne_none.mp hb
    obtain ⟨y, hy⟩ :=
      List.exists_mem_of_ne_nil _ (h.continues ht last (c :: cs) hl (List.ne_nil_of_mem hr))
    exact best?_ne_none.mpr ⟨y.1, y.2, hy⟩

/-- **Steps that take no rest leave the end of a sentence alone.** -/
theorem run_append {steps : List Step} (h : ∀ s ∈ steps, s.Lawful m) (ht : tail ∈ markTails m)
    (hl : OneLine t) (hr : ¬TakesRest steps (t ++ tail)) :
    run steps (t ++ tail) = run steps t ++ tail := by
  induction steps generalizing t with
  | nil => rfl
  | cons s steps ih =>
    obtain ⟨hs, hsteps⟩ := List.forall_mem_cons.mp h
    cases s with
    | within f =>
      have hw : Within m f := hs
      have he := hw.append ht t
      have hr : ¬TakesRest steps (f t ++ tail) := he ▸ hr
      have := ih hsteps (hw.oneLine hl) hr
      rwa [← he] at this
    | rest p =>
      obtain ⟨hp, hr⟩ := not_or.mp hr
      have hp' : ¬ReadsFrom p none t := fun h => hp (Rest.readsFrom_append hs ht hl h)
      have hall : replaceAll p (t ++ tail) = t ++ tail := replaceFrom_of_not_readsFrom hp
      have hall' : replaceAll p t = t := replaceFrom_of_not_readsFrom hp'
      change run steps (replaceAll p (t ++ tail)) = run steps (replaceAll p t) ++ tail
      rw [hall, hall']
      exact ih hsteps hl hr

/-- **After a step that takes the rest the text does not end like a sentence.** -/
theorem firm_run_of_takesRest {steps : List Step} (h : ∀ s ∈ steps, s.Lawful m) (hl : OneLine t)
    (hr : TakesRest steps t) : Firm (run steps t) := by
  induction steps generalizing t with
  | nil => exact hr.elim
  | cons s steps ih =>
    obtain ⟨hs, hsteps⟩ := List.forall_mem_cons.mp h
    cases s with
    | within f => exact ih hsteps (Within.oneLine hs hl) hr
    | rest p =>
      change Firm (run steps (replaceAll p t))
      by_cases hp : ReadsFrom p none t
      · refine firm_run hsteps (firm_replaceAll_of_readsFrom (Rest.carries hs) ?_ hp)
        exact fun l u new r hu hn => Rest.takesAll hs (fun c hc => hl c (hu.subset hc)) hn
      · have hall : replaceAll p t = t := replaceFrom_of_not_readsFrom hp
        rw [hall]
        exact ih hsteps hl (hr.resolve_left hp)

theorem run_nil {steps : List Step} (h : ∀ s ∈ steps, s.Lawful m) : run steps [] = [] := by
  induction steps with
  | nil => rfl
  | cons s steps ih =>
    obtain ⟨hs, hsteps⟩ := List.forall_mem_cons.mp h
    have hnil : s.apply [] = [] := by
      cases s with
      | within f => exact Within.nil hs
      | rest p => rfl
    change run steps (s.apply []) = []
    rw [hnil]
    exact ih hsteps

/-- In a mark alone nothing is read. -/
theorem not_takesRest_mark {steps : List Step} (h : ∀ s ∈ steps, s.Lawful m) :
    ¬TakesRest steps [m] := by
  induction steps with
  | nil => exact id
  | cons s steps ih =>
    obtain ⟨hs, hsteps⟩ := List.forall_mem_cons.mp h
    cases s with
    | within f =>
      have he : f [m] = f [] ++ [m] := Within.append hs List.mem_cons_self []
      rw [Within.nil hs, List.nil_append] at he
      change ¬TakesRest steps (f [m])
      rw [he]
      exact ih hsteps
    | rest p =>
      rintro (hr | hr)
      · rcases hr with hr | hr
        · rw [best?, Rest.alone hs none] at hr
          exact hr rfl
        · exact hr
      · exact ih hsteps hr

end Run

end Stepwise.Phrase
