import Stepwise.Proofs.WordedBody

/-!
# One problem in different words

"differentiate E with respect to V" and "derivative of E with respect to V" become the same call, and
so do "integrate E …" and "integral of E …". A command is left alone when a bracket follows, and only
"integral of E" looks for a differential at the end of its body; other bodies without keywords are cut
out in the same way by all four.

Results: `canonical_inWords`; and `canonical_inWords_bracket`, a command with a bracket after it.
-/

namespace Stepwise.Phrase

open Text Pattern

/-- A problem with its body and its variable in words. -/
def inWords (w body : Text) (v : Char) : Text :=
  w ++ ' ' :: body ++ " with respect to ".toList ++ [v]

/-- The body starts with a round bracket. -/
def StartsWithBracket (t : Text) : Prop := ∃ cs, trim t = '(' :: cs

variable {w e t : Text} {v : Char}

/-! ## The problem as a whole -/

theorem inWords_eq (w body : Text) (v : Char) :
    inWords w body v = w ++ ' ' :: (body ++ respectText v) := by
  have assoc : ∀ r : Text, w ++ ' ' :: body ++ r ++ [v] = w ++ ' ' :: (body ++ (r ++ [v])) := by
    simp
  exact assoc _

/-- A word or two at the front of a problem. -/
structure Leading (w : Text) : Prop where
  tight : Tight w
  squeeze_eq : squeeze w = w
  noInstruction : ∀ t, instructionHead (w ++ t) = []
  noOperator : '/' ∉ w
  last : ∃ s c, w = s ++ [c] ∧ isOperatorChar c = false

theorem tight_respect (hv : isAnyCaseLetter v = true) :
    Tight ("with respect to ".toList ++ [v]) where
  head := by
    have h : "with respect to ".toList = 'w' :: "ith respect to ".toList := by decide
    exact ⟨'w', "ith respect to ".toList ++ [v], congrArg (· ++ [v]) h, by decide⟩
  last c hc := by
    rw [List.getLast?_concat] at hc
    rw [← Option.some.inj hc]
    exact isBlank_of_anyCaseLetter hv

/-- The blanks of the body are collapsed, and nothing else happens before phrasings are looked for. -/
theorem bare_inWords (hw : Leading w) (hv : isAnyCaseLetter v = true) {body : Text}
    (hb : allBlank body = false) :
    bare (inWords w body v) = inWords w (squeeze (trim body)) v := by
  have hv' : isBlank v = false := isBlank_of_anyCaseLetter hv
  have hsq : squeeze ("with respect to ".toList ++ [v]) = "with respect to ".toList ++ [v] := by
    rw [squeeze_append_singleton hv']
    rfl
  have hc : Rule.collapseBlanks.apply (inWords w body v) = inWords w (squeeze (trim body)) v := by
    have := collapse_between hw.tight (tight_respect hv) hb
    rw [hw.squeeze_eq, hsq] at this
    rw [inWords_eq, inWords_eq]
    exact this
  have hnone : instructionHead (inWords w (squeeze (trim body)) v) = [] := by
    rw [inWords_eq]
    exact hw.noInstruction _
  rw [bare, hc, Rule.apply]
  cases (inWords w (squeeze (trim body)) v).length with
  | zero => rfl
  | succ n =>
    rw [withoutInstructions_succ, best?, hnone]
    rfl

/-- A pattern with a long word reads nothing of a short text. -/
theorem nowhere_word_of_length : ∀ {w t : Text}, t.length < w.length → Nowhere (word w) t := by
  intro w t h s hs
  refine List.eq_nil_iff_forall_not_mem.mpr ?_
  rintro ⟨a, r⟩ hr
  obtain ⟨u, rfl, hu, -⟩ := reads_word w _ _ _ hr
  have hl := hs.length_le
  rw [List.length_append] at hl
  omega

theorem word_cons_eq_nil {q : Char} (h : sameLetter q c = false) (qs cs : Text) :
    word (q :: qs) (c :: cs) = [] := if_neg (by rw [h]; decide)

/-- A word is not read in a text without its first letter. -/
theorem nowhere_word_of_initial {q : Char} (h : (t.all fun c => !sameLetter q c) = true)
    (qs : Text) : Nowhere (word (q :: qs)) t := by
  intro s hs
  cases s with
  | nil => rfl
  | cons c cs =>
    have hc := List.all_eq_true.mp h c (hs.subset List.mem_cons_self)
    exact word_cons_eq_nil ((Bool.not_eq_true' _).mp hc) qs cs

theorem nowhere_operatorStart (h : '/' ∉ t) : Nowhere operatorStart t := by
  intro s hs
  refine List.eq_nil_iff_forall_not_mem.mpr ?_
  rintro ⟨a, r⟩ hr
  obtain ⟨_, r₁, h₁, hr⟩ := mem_bind.mp hr
  obtain ⟨_, r₂, h₂, hr⟩ := mem_bind.mp hr
  obtain ⟨_, r₃, h₃, -⟩ := mem_bind.mp hr
  obtain rfl := mem_literal.mp h₃
  have hsuf := (leavesEnd_many isBlank _ _ _ h₂).trans (leavesEnd_word _ _ _ _ h₁)
  exact h (hs.subset (hsuf.subset (by simp)))

theorem nowhere_word_respectText (hw : w.all isLetter = true) (hl : 1 < w.length)
    (hn : Nowhere (word w) " with respect to ".toList) : Nowhere (word w) (respectText v) := by
  have hne : w ≠ [] := by
    rintro rfl
    exact absurd hl (by decide)
  refine nowhere_append (fun _ => steady_word w) (spells_word hw hne) ?_ hn
    (nowhere_word_of_length hl)
  exact .inl ⟨" with respect to".toList, ' ', rfl, by decide⟩

/-- A word that is neither in front nor in the body is nowhere in the problem. -/
theorem nowhere_word_inWords {k : Text} (hk : k.all isLetter = true) (hl : 1 < k.length)
    (hw : Nowhere (word k) w) (he : Nowhere (word k) e)
    (hr : Nowhere (word k) " with respect to ".toList) : Nowhere (word k) (inWords w e v) := by
  have hne : k ≠ [] := by
    rintro rfl
    exact absurd hl (by decide)
  have hs : ∀ tail, Steady tail (word k) := fun _ => steady_word k
  have hok := spells_word hk hne
  have apart : ∀ {s t : Text}, Apart isAnyCaseLetter s (' ' :: t) := fun {s t} =>
    .inr ⟨[], ' ', t, rfl, fun _ h => absurd h List.not_mem_nil, by decide⟩
  have hbody : Nowhere (word k) (e ++ respectText v) :=
    nowhere_append hs hok apart he (nowhere_word_respectText hk hl hr)
  have hspace : Nowhere (word k) ([' '] ++ (e ++ respectText v)) :=
    nowhere_append hs hok (.inl ⟨[], ' ', rfl, by decide⟩) (nowhere_word_of_length hl) hbody
  rw [inWords_eq]
  exact nowhere_append hs hok apart hw hspace

theorem nowhere_operator_inWords (hw : Leading w) (hv : isAnyCaseLetter v = true)
    (he : Nowhere operatorStart e) : Nowhere operatorStart (inWords w e v) := by
  have hr : '/' ∉ respectText v := by
    have hne : '/' ≠ v := by
      rintro rfl
      exact absurd hv (by decide)
    intro h
    rcases List.mem_append.mp h with h | h
    · exact absurd h (by decide)
    · exact hne (List.mem_singleton.mp h)
  have hbody : Nowhere operatorStart (e ++ respectText v) := by
    refine nowhere_append steady_operatorStart spells_operatorStart ?_ he (nowhere_operatorStart hr)
    have h : " with respect to ".toList = [' '] ++ 'w' :: "ith respect to ".toList := by decide
    refine .inr ⟨[' '], 'w', "ith respect to ".toList ++ [v], ?_, ?_, by decide⟩
    · exact congrArg (· ++ [v]) h
    · exact List.forall_mem_singleton.mpr (by decide)
  have hspace : Nowhere operatorStart (' ' :: (e ++ respectText v)) :=
    nowhere_cons.mpr ⟨rfl, hbody⟩
  rw [inWords_eq]
  obtain ⟨s, c, hs, hc⟩ := hw.last
  exact nowhere_append steady_operatorStart spells_operatorStart (.inl ⟨s, c, hs, hc⟩)
    (nowhere_operatorStart hw.noOperator) hspace

/-! ## What the rules do -/

/-- A text that is read as a whole is replaced as a whole. -/
theorem replaceAll_of_whole {p : Option Char → Pattern Text} {new : Text} (hn : t ≠ [])
    (h : (p none).best? t = some (new, [])) : replaceAll p t = new := by
  obtain ⟨c, cs, rfl⟩ := List.exists_cons_of_ne_nil hn
  rw [replaceAll, replaceFrom, h]
  dsimp only
  rw [replaceFrom_of_length_le (by simp), List.append_nil]

theorem nowhere_derivativeOperator (h : Nowhere operatorStart t) :
    Nowhere derivativeOperator t := by
  intro s hs
  refine List.eq_nil_iff_forall_not_mem.mpr ?_
  rintro ⟨x, r⟩ hx
  obtain ⟨_, r₁, h₁, hx⟩ := mem_bind.mp hx
  obtain ⟨_, r₂, h₂, hx⟩ := mem_bind.mp hx
  obtain ⟨_, r₃, h₃, hx⟩ := mem_bind.mp hx
  obtain ⟨_, r₄, h₄, hx⟩ := mem_bind.mp hx
  obtain ⟨_, r₅, h₅, -⟩ := mem_bind.mp hx
  have : ((), r₅) ∈ operatorStart s := mem_bind.mpr ⟨_, r₁, h₁, mem_bind.mpr ⟨_, r₂, h₂,
    mem_bind.mpr ⟨_, r₃, h₃, mem_bind.mpr ⟨_, r₄, h₄, h₅⟩⟩⟩⟩
  rw [h s hs] at this
  exact List.not_mem_nil this

/-- Without the operator, only phrasings in words become derivatives. -/
theorem derivatives_of_nowhere (h : Nowhere operatorStart t) : derivatives t =
    replaceAll (fun _ => differentiate) (replaceAll (fun _ => derivativeOf) t) := by
  have hop := nowhere_derivativeOperator h
  have hwrapped : wrappedDerivatives t = t := wrappedFrom_of_nowhere (hop.bind _)
  have hopen : replaceAll (fun _ => openDerivative) t = t :=
    Nowhere.replaceAll_eq fun _ => hop.bind _
  rw [derivatives, hwrapped, hopen]

theorem nowhere_literal {c : Char} (h : c ∉ t) : Nowhere (literal [c]) t := by
  intro s hs
  refine List.eq_nil_iff_forall_not_mem.mpr ?_
  rintro ⟨a, r⟩ hr
  obtain rfl := mem_literal.mp hr
  exact h (hs.subset (by simp))

/-- Without the sign, only phrasings in words become integrals. -/
theorem integrals_of_not_mem (h : '∫' ∉ t) : integrals t =
    replaceAll shortIntegral (replaceAll (fun _ => integrate)
      (replaceAll (fun _ => integralOf) t)) := by
  have hsign : replaceAll (fun _ => signWithDifferential) t = t :=
    Nowhere.replaceAll_eq fun _ => (nowhere_literal h).bind _
  have hopen : replaceAll (fun _ => openIntegral) t = t :=
    Nowhere.replaceAll_eq fun _ => (nowhere_literal h).bind _
  rw [integrals, hsign, hopen]

theorem derivativeOf_eq (h : Nowhere (word "derivative".toList) t) :
    replaceAll (fun _ => derivativeOf) t = t :=
  Nowhere.replaceAll_eq fun _ => .after leavesEnd_optionalArticle fun _ =>
    Nowhere.bind (Nowhere.bind h _) _

theorem integralOf_eq (h : Nowhere (word "integral".toList) t) :
    replaceAll (fun _ => integralOf) t = t :=
  Nowhere.replaceAll_eq fun _ => .after leavesEnd_optionalArticle fun _ =>
    Nowhere.bind (Nowhere.bind h _) _

theorem differentiate_nowhere (h : Nowhere (word "differentiate".toList) t) :
    replaceAll (fun _ => differentiate) t = t :=
  Nowhere.replaceAll_eq fun _ => Nowhere.bind h _

/-- What a command reads of a body that does not start with a bracket. -/
theorem best?_commanded {k name : Text} (hk : (k.all fun q => q.toLower == q) = true)
    (hv : isAnyCaseLetter v = true) (ht : Tight e) (hl : OneLine e)
    (hb : ∀ cs, e ≠ '(' :: cs) :
    (commanded k name).best? (inWords k e v) = some (calculusCall name e (some v), []) := by
  obtain ⟨c, cs, rfl, hc⟩ := ht.head
  have hspace : blanks1 (' ' :: (c :: cs ++ respectText v)) =
      [([' '], c :: cs ++ respectText v)] := blanks1_space (Bool.eq_false_iff.mpr hc)
  have hbracket : notBefore (· == '(') (c :: cs ++ respectText v) =
      [((), c :: cs ++ respectText v)] := by
    refine if_neg fun h => hb cs ?_
    rw [beq_iff_eq.mp h]
  have hbody := best?_wordedBody hv (List.cons_ne_nil c cs) hl ht.last
  obtain ⟨rest, hrest⟩ := List.head?_eq_some_iff.mp hbody
  rw [inWords_eq, best?]
  have hall : commanded k name (k ++ ' ' :: (c :: cs ++ respectText v)) =
      (wordedBody (c :: cs ++ respectText v)).flatMap fun x =>
        [(calculusCall name x.1.1 x.1.2, x.2)] :=
    (bind_of_eq (word_append hk _)).trans ((bind_of_eq hspace).trans ((bind_of_eq hbracket).trans rfl))
  rw [hall, hrest]
  rfl

/-- What "derivative of" and "integral of" read of a body with something behind it. -/
theorem best?_of_append {k r : Text} {body : Pattern Text} {new : Text}
    (hk : (k.all fun q => q.toLower == q) = true)
    (hart : ∀ x, optionalArticle (k ++ x) = [((), k ++ x)]) (ht : Tight e)
    (hbody : body.best? (e ++ r) = some (new, [])) :
    (optionalArticle >>= fun _ => words [k, "of".toList] >>= fun _ => blanks1 >>= fun _ =>
      body).best? ((k ++ " of".toList) ++ ' ' :: (e ++ r)) = some (new, []) := by
  obtain ⟨c, cs, rfl, hc⟩ := ht.head
  have hshape : (k ++ " of".toList) ++ ' ' :: (c :: cs ++ r) =
      k ++ ' ' :: ("of".toList ++ ' ' :: (c :: cs ++ r)) := by
    rw [List.append_assoc]
    rfl
  have hspace : blanks1 (' ' :: (c :: cs ++ r)) = [([' '], c :: cs ++ r)] :=
    blanks1_space (Bool.eq_false_iff.mpr hc)
  have hgap : blanks1 (' ' :: ("of".toList ++ ' ' :: (c :: cs ++ r))) =
      [([' '], "of".toList ++ ' ' :: (c :: cs ++ r))] :=
    blanks1_space (c := 'o') (by decide)
  have hwords : words [k, "of".toList] (k ++ ' ' :: ("of".toList ++ ' ' :: (c :: cs ++ r))) =
      [((), ' ' :: (c :: cs ++ r))] :=
    (bind_of_eq (word_append hk _)).trans ((bind_of_eq hgap).trans (word_append (by decide) _))
  rw [hshape, best?]
  rw [bind_of_eq (hart _)]
  exact (congrArg List.head? ((bind_of_eq hwords).trans (bind_of_eq hspace))).trans hbody

/-- What "derivative of" and "integral of" read of a body. -/
theorem best?_of {k : Text} {body : Pattern Text} {new : Text}
    (hk : (k.all fun q => q.toLower == q) = true)
    (hart : ∀ x, optionalArticle (k ++ x) = [((), k ++ x)]) (ht : Tight e)
    (hbody : body.best? (e ++ respectText v) = some (new, [])) :
    (optionalArticle >>= fun _ => words [k, "of".toList] >>= fun _ => blanks1 >>= fun _ =>
      body).best? (inWords (k ++ " of".toList) e v) = some (new, []) := by
  rw [inWords_eq]
  exact best?_of_append hk hart ht hbody

/-! ## The calls -/

/-- A call with a word that is neither in its front nor in its body. -/
theorem nowhere_word_call {k front : Text} (hk : k.all isLetter = true) (hl : 2 < k.length)
    (hfront : Nowhere (word k) front) (hlast : ∃ s, front = s ++ ['('])
    (he : Nowhere (word k) e) : Nowhere (word k) (front ++ (e ++ [',', v, ')'])) := by
  have hne : k ≠ [] := by
    rintro rfl
    exact absurd hl (by decide)
  have hs : ∀ tail, Steady tail (word k) := fun _ => steady_word k
  have hok := spells_word hk hne
  obtain ⟨s, hfs⟩ := hlast
  have hend : Nowhere (word k) ([','] ++ [v, ')']) :=
    nowhere_append hs hok (.inl ⟨[], ',', rfl, by decide⟩)
      (nowhere_word_of_length (Nat.lt_of_succ_lt hl)) (nowhere_word_of_length hl)
  refine nowhere_append hs hok (.inl ⟨s, '(', hfs, by decide⟩) hfront ?_
  refine nowhere_append hs hok ?_ he hend
  exact .inr ⟨[], ',', [v, ')'], rfl, fun _ h => absurd h List.not_mem_nil, by decide⟩

theorem calculusCall_eq (name : Text) (ht : Tight e) (v : Char) :
    calculusCall name e (some v) = (name ++ ['(']) ++ (e ++ [',', v, ')']) := by
  rw [calculusCall, callText_pair, ht.trim_eq]
  simp

theorem differentiate_call (ht : Tight e) (he : Nowhere (word "differentiate".toList) e) :
    replaceAll (fun _ => differentiate) (calculusCall derivativeName e (some v)) =
      calculusCall derivativeName e (some v) := by
  refine differentiate_nowhere ?_
  rw [calculusCall_eq _ ht]
  exact nowhere_word_call (by decide) (by decide) (nowhere_word_of_length (by decide))
    ⟨derivativeName, rfl⟩ he

/-- The name of a call is no command: a bracket follows it. -/
theorem commanded_call {k name : Text} (hk : (k.all fun q => q.toLower == q) = true) (t : Text) :
    commanded k name ((k ++ ['(']) ++ t) = [] := by
  have hbracket : blanks1 ('(' :: t) = [] := rfl
  rw [List.append_assoc]
  exact (bind_of_eq (word_append hk _)).trans (bind_of_eq_nil hbracket)

theorem integrate_call (ht : Tight e) (he : Nowhere (word integralName) e) :
    replaceAll (fun _ => integrate) (calculusCall integralName e (some v)) =
      calculusCall integralName e (some v) := by
  have hname : integralName ++ ['('] = 'i' :: "ntegrate(".toList := by decide
  have hshape : calculusCall integralName e (some v) =
      'i' :: ("ntegrate(".toList ++ (e ++ [',', v, ')'])) :=
    (calculusCall_eq integralName ht v).trans (congrArg (· ++ (e ++ [',', v, ')'])) hname)
  have hfirst : commanded integralName integralName (calculusCall integralName e (some v)) = [] :=
    (congrArg _ (calculusCall_eq integralName ht v)).trans (commanded_call (by decide) _)
  have hrest : Nowhere (word integralName) ("ntegrate(".toList ++ (e ++ [',', v, ')'])) :=
    nowhere_word_call (by decide) (by decide) (nowhere_word_of_initial (by decide) _)
      ⟨"ntegrate".toList, by decide⟩ he
  refine Nowhere.replaceAll_eq fun _ => ?_
  rw [hshape] at hfirst ⊢
  exact nowhere_cons.mpr ⟨hfirst, hrest.bind _⟩

/-! ## The four phrasings -/

/-- The first words of instructions. -/
def instructionWords : List Text :=
  ["find".toList, "compute".toList, "evaluate".toList, "calculate".toList, "determine".toList,
    "what".toList]

theorem word_append_eq_nil {k w : Text} (h : word k w = []) (hl : k.length ≤ w.length) (t : Text) :
    word k (w ++ t) = [] := by
  refine List.eq_nil_iff_forall_not_mem.mpr ?_
  rintro ⟨a, r⟩ hr
  obtain ⟨u, he, hu, -⟩ := reads_word k _ _ _ hr
  have hlen := congrArg List.length he
  rw [List.length_append, List.length_append, hu] at hlen
  have hle : t.length ≤ r.length := by omega
  have hf : (a, r) ∈ (word k (w ++ t)).filter (leaves t) :=
    List.mem_filter.mpr ⟨hr, decide_eq_true hle⟩
  rw [(steady_word k).filter_eq w, h] at hf
  exact absurd hf List.not_mem_nil

/-- No instruction is read where none of its words is. -/
theorem instructionHead_eq_nil (h : ∀ k ∈ instructionWords, word k t = []) :
    instructionHead t = [] := by
  refine bind_of_eq_nil ?_
  rw [instruction_eq]
  simp only [instructionWords, List.forall_mem_cons, List.not_mem_nil, false_implies, implies_true,
    and_true] at h
  obtain ⟨h₁, h₂, h₃, h₄, h₅, h₆⟩ := h
  have hwhat : words ["what".toList, "is".toList] t = [] := bind_of_eq_nil h₆
  have hany : anyWord ["find".toList, "compute".toList, "evaluate".toList, "calculate".toList,
      "determine".toList] t = [] := by
    simp only [anyWord_cons, Pattern.either, h₁, h₂, h₃, h₄, h₅, List.nil_append]
    rfl
  rw [Pattern.either, hany, hwhat]
  rfl

theorem leading_of {w : Text} (hhead : w.head?.any isLetter = true)
    (hlast : w.getLast?.any (fun c => isLetter c && !isOperatorChar c) = true)
    (hs : squeeze w = w) (ho : '/' ∉ w)
    (hi : (instructionWords.all fun k => (word k w).isEmpty && decide (k.length ≤ w.length)) = true) :
    Leading w := by
  have nonblank : ∀ {x : Char}, isLetter x = true → isBlank x = false := fun hx =>
    isBlank_of_anyCaseLetter (by rw [isAnyCaseLetter, hx]; rfl)
  obtain ⟨c, hc, hcl⟩ := (Option.any_eq_true _ _).mp hhead
  obtain ⟨d, hd, hdl⟩ := (Option.any_eq_true _ _).mp hlast
  rw [Bool.and_eq_true, Bool.not_eq_true'] at hdl
  obtain ⟨cs, hcs⟩ := List.head?_eq_some_iff.mp hc
  obtain ⟨ds, hds⟩ := List.getLast?_eq_some_iff.mp hd
  refine ⟨⟨⟨c, cs, hcs, by rw [nonblank hcl]; decide⟩, fun e he => ?_⟩, hs, fun t => ?_, ho,
    ds, d, hds, hdl.2⟩
  · rw [← Option.some.inj (hd.symm.trans he)]
    exact nonblank hdl.1
  · refine instructionHead_eq_nil fun k hk => ?_
    have := List.all_eq_true.mp hi k hk
    rw [Bool.and_eq_true, List.isEmpty_iff, decide_eq_true_eq] at this
    exact word_append_eq_nil this.1 this.2 t

/-- What the problems of the four phrasings begin with. -/
def phrasings : List Text :=
  ["differentiate".toList, integralName, "derivative".toList ++ " of".toList,
    "integral".toList ++ " of".toList]

theorem noInstruction_of_mem_phrasings : ∀ w ∈ phrasings, (instructionWords.all fun k =>
    (word k w).isEmpty && decide (k.length ≤ w.length)) = true := by
  decide +kernel

theorem leading_differentiate : Leading "differentiate".toList :=
  leading_of (by decide) (by decide) (by decide) (by decide)
    (noInstruction_of_mem_phrasings _ (by simp [phrasings]))

theorem leading_integrate : Leading integralName :=
  leading_of (by decide) (by decide) (by decide) (by decide)
    (noInstruction_of_mem_phrasings _ (by simp [phrasings]))

theorem leading_derivativeOf : Leading ("derivative".toList ++ " of".toList) :=
  leading_of (by decide) (by decide) (by decide) (by decide)
    (noInstruction_of_mem_phrasings _ (by simp [phrasings]))

theorem leading_integralOf : Leading ("integral".toList ++ " of".toList) :=
  leading_of (by decide) (by decide) (by decide) (by decide)
    (noInstruction_of_mem_phrasings _ (by simp [phrasings]))

/-- What is known of a body once its blanks have been collapsed. -/
structure Body (e : Text) : Prop where
  tight : Tight e
  oneLine : OneLine e
  keyless : Keyless e

theorem body_of {body : Text} (hb : allBlank body = false) (hk : Keyless body) :
    Body (squeeze (trim body)) :=
  ⟨(tight_trim hb).squeeze, oneLine_squeeze _, hk.trim.squeeze⟩

theorem word_append_eq (l : Text) : ∀ k : Text, word (k ++ l) = (word k >>= fun _ => word l)
  | [] => by
    funext t
    exact (List.flatMap_singleton _ _).symm
  | q :: qs => by
    funext t
    cases t with
    | nil => rfl
    | cons c cs =>
      change (if sameLetter q c then word (qs ++ l) cs else []) =
        List.flatMap (fun x => word l x.2) (if sameLetter q c then word qs cs else [])
      split
      · rw [word_append_eq l qs]
        rfl
      · rfl

/-- A word that goes on after a keyword is not in the text either. -/
theorem nowhere_word_append {k l : Text} (h : Nowhere (word k) t) : Nowhere (word (k ++ l)) t := by
  rw [word_append_eq]
  exact h.bind _

theorem derivatives_differentiate (hb : Body e) (hv : isAnyCaseLetter v = true)
    (hs : ∀ cs, e ≠ '(' :: cs) :
    derivatives (inWords "differentiate".toList e v) = calculusCall derivativeName e (some v) := by
  have hword : Nowhere (word "derivative".toList) (inWords "differentiate".toList e v) :=
    nowhere_word_inWords (by decide) (by decide) (by decide +kernel)
      (hb.keyless.words _ (by decide)) (nowhere_word_of_initial (by decide) _)
  rw [derivatives_of_nowhere (nowhere_operator_inWords leading_differentiate hv hb.keyless.operator),
    derivativeOf_eq hword]
  refine replaceAll_of_whole (by simp [inWords]) ?_
  rw [differentiate_eq]
  exact best?_commanded (by decide) hv hb.tight hb.oneLine hs

theorem derivatives_derivativeOf (hb : Body e) (hv : isAnyCaseLetter v = true) :
    derivatives (inWords ("derivative".toList ++ " of".toList) e v) =
      calculusCall derivativeName e (some v) := by
  have hbody : (wordedBody >>= fun x => pure (calculusCall derivativeName x.1 x.2)).best?
      (e ++ respectText v) = some (calculusCall derivativeName e (some v), []) := by
    obtain ⟨c, cs, he, -⟩ := hb.tight.head
    have hn : e ≠ [] := by simp [he]
    obtain ⟨rest, hrest⟩ := List.head?_eq_some_iff.mp (best?_wordedBody hv hn hb.oneLine hb.tight.last)
    change List.head? (List.flatMap _ (wordedBody (e ++ respectText v))) = _
    rw [hrest]
    rfl
  rw [derivatives_of_nowhere (nowhere_operator_inWords leading_derivativeOf hv hb.keyless.operator)]
  have hof : replaceAll (fun _ => derivativeOf) (inWords ("derivative".toList ++ " of".toList) e v) =
      calculusCall derivativeName e (some v) :=
    replaceAll_of_whole (by simp [inWords]) (best?_of (by decide) (fun _ => rfl) hb.tight hbody)
  rw [hof]
  exact differentiate_call hb.tight (hb.keyless.words _ (by decide))

/-- Problems that begin with other words are no derivatives. -/
theorem derivatives_inWords (hb : Body e) (hv : isAnyCaseLetter v = true) (hw : Leading w)
    (hd : Nowhere (word "derivative".toList) w) (hd' : Nowhere (word "differentiate".toList) w) :
    derivatives (inWords w e v) = inWords w e v := by
  have hword : Nowhere (word "derivative".toList) (inWords w e v) :=
    nowhere_word_inWords (by decide) (by decide) hd (hb.keyless.words _ (by decide))
      (nowhere_word_of_initial (by decide) _)
  have hword' : Nowhere (word "differentiate".toList) (inWords w e v) :=
    nowhere_word_inWords (by decide) (by decide) hd' (hb.keyless.words _ (by decide))
      (nowhere_word_of_initial (by decide) _)
  rw [derivatives_of_nowhere (nowhere_operator_inWords hw hv hb.keyless.operator),
    derivativeOf_eq hword, differentiate_nowhere hword']

theorem sign_not_mem_inWords (hb : Body e) (hv : isAnyCaseLetter v = true) (hw : '∫' ∉ w) :
    '∫' ∉ inWords w e v := by
  have hne : '∫' ≠ v := by
    rintro rfl
    exact absurd hv (by decide)
  have hr : '∫' ∉ respectText v := by
    intro h
    rcases List.mem_append.mp h with h | h
    · exact absurd h (by decide)
    · exact hne (List.mem_singleton.mp h)
  rw [inWords_eq]
  simp [hw, hb.keyless.sign, hr]

theorem integrals_integrate (hb : Body e) (hv : isAnyCaseLetter v = true)
    (hs : ∀ cs, e ≠ '(' :: cs) : integrals (inWords integralName e v) =
      replaceAll shortIntegral (calculusCall integralName e (some v)) := by
  have hint : Nowhere (word "integral".toList) e :=
    nowhere_word_append (l := "egral".toList) (hb.keyless.words "int".toList (by decide))
  have hword : Nowhere (word "integral".toList) (inWords integralName e v) :=
    nowhere_word_inWords (by decide) (by decide) (by decide +kernel) hint (by decide +kernel)
  have hcommand : replaceAll (fun _ => integrate) (inWords integralName e v) =
      calculusCall integralName e (some v) := by
    refine replaceAll_of_whole (by simp [inWords]) ?_
    rw [integrate_eq]
    exact best?_commanded (by decide) hv hb.tight hb.oneLine hs
  rw [integrals_of_not_mem (sign_not_mem_inWords hb hv (by decide)), integralOf_eq hword, hcommand]

theorem integrals_integralOf (hb : Body e) (hv : isAnyCaseLetter v = true)
    (hd : ¬DifferentialAtEnd e) : integrals (inWords ("integral".toList ++ " of".toList) e v) =
      replaceAll shortIntegral (calculusCall integralName e (some v)) := by
  have hint : Nowhere (word integralName) e :=
    nowhere_word_append (l := "egrate".toList) (hb.keyless.words "int".toList (by decide))
  have hbody : integralBody.best? (e ++ respectText v) =
      some (calculusCall integralName e (some v), []) := by
    obtain ⟨c, cs, he, -⟩ := hb.tight.head
    exact best?_integralBody hv (by simp [he]) hb.oneLine hb.tight.last hd
  have hof : replaceAll (fun _ => integralOf) (inWords ("integral".toList ++ " of".toList) e v) =
      calculusCall integralName e (some v) :=
    replaceAll_of_whole (by simp [inWords]) (best?_of (by decide) (fun _ => rfl) hb.tight hbody)
  rw [integrals_of_not_mem (sign_not_mem_inWords hb hv (by decide)), hof,
    integrate_call hb.tight hint]

/-! ## The same canonical form -/

theorem differentialAtEnd_of_squeeze (h : DifferentialAtEnd (squeeze t)) : DifferentialAtEnd t := by
  obtain ⟨s, b, d, x, he, hb, hd, hx⟩ := h
  obtain ⟨r, ⟨u, hu⟩, hr⟩ := suffix_squeeze t ⟨s, he.symm⟩
  have hdb := isBlank_of_sameLetter (by decide) hd
  have hxb := isBlank_of_anyCaseLetter hx
  cases r with
  | nil => exact absurd hr (by simp [squeeze])
  | cons c cs =>
    have hc : isBlank c = true := by
      cases hc : isBlank c with
      | true => rfl
      | false =>
        rw [squeeze_cons_of_not_blank (by rw [hc]; decide)] at hr
        rw [(List.cons.inj hr).1, hc] at hb
        exact absurd hb Bool.false_ne_true
    rw [squeeze_cons_of_blank hc] at hr
    obtain ⟨ds, hds, hds'⟩ := squeeze_eq_cons (List.cons.inj hr).2.symm hdb
    obtain ⟨xs, rfl, hxs⟩ := squeeze_eq_cons hds' hxb
    have hnil : xs = [] := by
      cases xs with
      | nil => rfl
      | cons y ys =>
        by_cases hy : isBlank y = true
        · rw [squeeze_cons_of_blank hy] at hxs
          exact absurd hxs (List.cons_ne_nil _ _)
        · rw [squeeze_cons_of_not_blank hy] at hxs
          exact absurd hxs (List.cons_ne_nil _ _)
    rw [hnil] at hds
    -- The last of the blanks stands right before the differential.
    have hall : ∀ b ∈ c :: cs.takeWhile isBlank, isBlank b = true :=
      List.forall_mem_cons.mpr ⟨hc, fun b hb => List.all_eq_true.mp List.all_takeWhile b hb⟩
    have hlast := List.dropLast_concat_getLast (List.cons_ne_nil c (cs.takeWhile isBlank))
    refine ⟨u ++ (c :: cs.takeWhile isBlank).dropLast, _, d, x, ?_,
      hall _ (List.getLast_mem (List.cons_ne_nil _ _)), hd, hx⟩
    have hcs : c :: cs = (c :: cs.takeWhile isBlank) ++ [d, x] := by
      rw [List.cons_append, ← hds, List.takeWhile_append_dropWhile]
    rw [← hu, hcs]
    conv => lhs; rw [← hlast]
    simp

theorem canonical_of_derivatives {s : Text} (h : derivatives (bare s) = derivatives (bare t)) :
    canonical s = canonical t := by
  rw [canonical_eq_run, canonical_eq_run, run_rewritingSteps, run_rewritingSteps, h]

theorem canonical_of_integrals {s : Text}
    (h : integrals (derivatives (bare s)) = integrals (derivatives (bare t))) :
    canonical s = canonical t := by
  rw [canonical_eq_run, canonical_eq_run, run_rewritingSteps, run_rewritingSteps, h]

/-- **One problem in different words has one canonical form**: if the body has no keyword and does not
start with a bracket, the command to differentiate it agrees with its derivative, and, if it does
not end in a differential, the command to integrate it with its integral. -/
theorem canonical_inWords {body : Text} {v : Char} (hv : isLetter v = true)
    (hb : allBlank body = false) (hk : Keyless body) (hs : ¬StartsWithBracket body) :
    (¬DifferentialAtEnd (trim body) → canonical (inWords "integrate".toList body v) =
        canonical (inWords "integral of".toList body v)) ∧
      canonical (inWords "differentiate".toList body v) =
        canonical (inWords "derivative of".toList body v) := by
  have hv : isAnyCaseLetter v = true := by rw [isAnyCaseLetter, hv]; rfl
  have hbody := body_of hb hk
  have hbracket : ∀ cs, squeeze (trim body) ≠ '(' :: cs := by
    intro cs he
    obtain ⟨ds, hds, -⟩ := squeeze_eq_cons he (by decide)
    exact hs ⟨ds, hds⟩
  have hderivative : "derivative of".toList = "derivative".toList ++ " of".toList := by decide
  have hintegral : "integral of".toList = "integral".toList ++ " of".toList := by decide
  constructor
  · intro hd
    refine canonical_of_integrals ?_
    rw [hintegral, bare_inWords leading_integralOf hv hb,
      derivatives_inWords hbody hv leading_integralOf (nowhere_word_of_initial (by decide) _)
        (nowhere_word_of_initial (by decide) _),
      integrals_integralOf hbody hv fun h => hd (differentialAtEnd_of_squeeze h)]
    change integrals (derivatives (bare (inWords integralName body v))) = _
    rw [bare_inWords leading_integrate hv hb,
      derivatives_inWords hbody hv leading_integrate (nowhere_word_of_initial (by decide) _)
        (nowhere_word_of_initial (by decide) _),
      integrals_integrate hbody hv hbracket]
  · refine canonical_of_derivatives ?_
    rw [hderivative, bare_inWords leading_derivativeOf hv hb, derivatives_derivativeOf hbody hv,
      bare_inWords leading_differentiate hv hb, derivatives_differentiate hbody hv hbracket]

theorem canonical_inWords_square :
    canonical (inWords "integrate".toList "x^2 + 1".toList 't') =
        canonical (inWords "integral of".toList "x^2 + 1".toList 't') ∧
      canonical (inWords "differentiate".toList "x^2 + 1".toList 't') =
        canonical (inWords "derivative of".toList "x^2 + 1".toList 't') := by
  have hk : Keyless "x^2 + 1".toList :=
    ⟨by decide +kernel, by decide, by simpa [keywords] using by decide +kernel⟩
  have hs : ¬StartsWithBracket "x^2 + 1".toList := by
    rintro ⟨cs, h⟩
    have hhead : (trim "x^2 + 1".toList).head? = some 'x' := by decide
    rw [h] at hhead
    exact absurd hhead (by simp)
  have hd : ¬DifferentialAtEnd (trim "x^2 + 1".toList) := by
    rintro ⟨s, b, d, x, h, -, -, hx⟩
    have hlast : (trim "x^2 + 1".toList).getLast? = some '1' := by decide
    rw [h] at hlast
    have : x = '1' := by simpa using hlast
    rw [this] at hx
    exact absurd hx (by decide)
  have h := canonical_inWords (v := 't') (by decide) (by decide) hk hs
  exact ⟨h.1 hd, h.2⟩

/-- A command is not recognised in front of a bracket, and a differential belongs to the body of
"integrate", but not to that of "integral of". -/
theorem canonical_inWords_bracket :
    canonical (inWords "integrate".toList "(x+1)^2".toList 't') =
        "integrate(x+1)^2withrespecttot".toList ∧
      canonical (inWords "integral of".toList "(x+1)^2".toList 't') =
        "integrate((x+1)^2,t)".toList ∧
      canonical (inWords "differentiate".toList "(x+1)^2".toList 't') =
        "differentiate(x+1)^2withrespecttot".toList ∧
      canonical (inWords "derivative of".toList "(x+1)^2".toList 't') =
        "diff((x+1)^2,t)".toList ∧
      canonical (inWords "integrate".toList "x dx".toList 't') = "integrate(xdx,t)".toList ∧
      canonical (inWords "integral of".toList "x dx".toList 't') = "integrate(x,x)".toList := by
  decide +kernel

end Stepwise.Phrase
