import Stepwise.Proofs.Forms

/-!
# Four ways to ask for a limit

"lim V→A E", "lim V->A E", "lim_{V→A} E" and "limit as V approaches A of E" become the same call, in
which the target comes last. Between the target and the expression there is nothing but a blank in the
first two, so that the operator of a derivative can be read across it: they need a target that does not
end in a slash, and an expression that does not begin with one.

Results: `limit_forms`, what becomes of all four and what is read off in the end; and
`limit_arrowForm_slash`, a slash behind a blank.
-/

namespace Stepwise.Phrase

open Text Pattern Stepwise.Bracket

/-- "lim" and an arrow, with a blank between the target and the expression. -/
def arrowForms (e a : Text) (v : Char) : List Text :=
  ["lim ".toList ++ v :: '→' :: (a ++ ' ' :: e), "lim ".toList ++ v :: '-' :: '>' :: (a ++ ' ' :: e)]

/-- "lim" with an arrow in braces, and "limit as". -/
def separatedForms (e a : Text) (v : Char) : List Text :=
  ["lim_\x7b".toList ++ v :: '→' :: (a ++ '\x7d' :: ' ' :: e),
    "limit as ".toList ++ v :: (" approaches ".toList ++ (a ++ (" of ".toList ++ e)))]

/-- What a limit can approach: an expression in one piece, without blanks and curly brackets. -/
structure Target (a : Text) : Prop where
  nonempty : a ≠ []
  wellNested : WellNested a
  noComma : ',' ∉ a
  noCurly : '\x7b' ∉ a ∧ '\x7d' ∉ a
  blankless : Blankless a
  keyless : Keyless a

/-- The sign at the end of a target is the side from which it is approached, if something comes before
the sign. -/
inductive Approaches : Text → Text → Approach → Prop where
  | fromRight {t : Text} (h : t ≠ []) : Approaches (t ++ ['+']) t .fromRight
  | fromLeft {t : Text} (h : t ≠ []) : Approaches (t ++ ['-']) t .fromLeft
  | bothSides {t : Text} (h : ∀ s c, t = s ++ [c] → s ≠ [] → c ≠ '+' ∧ c ≠ '-') :
    Approaches t t .bothSides

/-- The canonical form of a problem is the call for a limit, and that limit is read off it. -/
def AsksLimit (config : Config) (e a : Text) (v : Char) (t : Text) : Prop :=
  canonical t = "limit(".toList ++ plain e ++ [',', v, ','] ++ plain a ++ [')'] ∧
    ∃ target approach, Approaches (plain a) target approach ∧
      Question.limit config (canonical t) = .ok ⟨plain e, [v], target, approach⟩

variable {v c : Char} {a e r s t w : Text}

/-! ## The question -/

theorem approaches_approachOf (t : Text) :
    Approaches t (Question.approachOf t).1 (Question.approachOf t).2 := by
  have cons : ∀ {s : Text} {c : Char}, 1 < (s ++ [c]).length → s ≠ [] := by
    rintro s c h rfl
    exact absurd h (by simp)
  unfold Question.approachOf
  split
  next h =>
    refine .bothSides fun s c hs hn => ?_
    obtain ⟨d, ds, rfl⟩ := List.exists_cons_of_ne_nil hn
    exact absurd h (by simp [hs])
  next h =>
    have h := Nat.lt_of_not_le h
    split
    next hl =>
      obtain ⟨s, rfl⟩ := List.getLast?_eq_some_iff.mp hl
      simpa using Approaches.fromRight (cons h)
    next hl =>
      obtain ⟨s, rfl⟩ := List.getLast?_eq_some_iff.mp hl
      simpa using Approaches.fromLeft (cons h)
    next hr hl =>
      refine .bothSides fun s c hs _ => ⟨?_, ?_⟩
      · rintro rfl
        exact hr (by rw [hs, List.getLast?_concat])
      · rintro rfl
        exact hl (by rw [hs, List.getLast?_concat])

theorem Target.argument (h : Target a) : Argument a :=
  ⟨h.wellNested, fun s r he _ => h.noComma (by rw [he]; simp)⟩

theorem Target.nonblank (h : Target a) : allBlank a = false := by
  obtain ⟨c, cs, rfl⟩ := List.exists_cons_of_ne_nil h.nonempty
  have hc := (Blankless.cons_iff.mp h.blankless).1
  rw [allBlank, List.all_cons, hc, Bool.false_and]

/-- A call for a limit asks for it. -/
theorem asksLimit_of_canonical (config : Config) (he : allBlank e = false) (hae : Argument e)
    (ha : Target a) (hv : isLetter v = true)
    (ht : canonical t = callText limitName [plain e, [v], plain a]) : AsksLimit config e a v t := by
  have hargs : ∀ x ∈ [e, [v], a], Argument x := by
    simp only [List.forall_mem_cons, List.not_mem_nil, false_implies, implies_true, and_true]
    exact ⟨hae, argument_letter hv, ha.argument⟩
  have hletter : plain [v] = [v] := plain_letters (by simpa using hv)
  have hname : Question.limitNames.head? = some limitName := rfl
  have hcall := callArguments_plain hname (by decide) (List.cons_ne_nil _ _) hargs
  simp only [List.map_cons, List.map_nil, hletter] at hcall
  have hcallName : "limit(".toList = limitName ++ ['('] := by decide
  rw [AsksLimit, ht]
  refine ⟨by rw [hcallName]; simp [callText, joinWith], _, _, approaches_approachOf (plain a), ?_⟩
  have hempty : [plain e, [v], plain a].any List.isEmpty = false := by
    simp [plain_ne_nil he, plain_ne_nil ha.nonblank]
  rw [Question.limit, hcall]
  simp only [hempty, Bool.false_eq_true, if_false, Question.variableOf, if_pos hv]
  rfl

/-! ## Before phrasings are looked for -/

/-- In front of the expression everything stays as it is. -/
theorem bare_limitForm (hl : s.head? = some 'l') (hn : NoBlankEnd s) (hs : squeeze s = s)
    (he : allBlank e = false) : bare (s ++ ' ' :: e) = s ++ ' ' :: squeeze (trim e) := by
  obtain ⟨r, rfl⟩ := List.head?_eq_some_iff.mp hl
  have hc := collapse_after ⟨⟨'l', r, rfl, by decide⟩, hn⟩ he
  rw [hs] at hc
  exact bare_of_collapse hc (instructionHead_of_head (by decide) _)

theorem squeeze_letter (hv : isLetter v = true) (ht : Blankless t) (hw : squeeze w = w) :
    squeeze (w ++ v :: t) = w ++ v :: t := by
  rw [squeeze_append_cons (isBlank_of_anyCaseLetter (isAnyCaseLetter_of_isLetter hv)), hw,
    ht.squeeze_eq]

theorem Target.noBlankEnd (ha : Target a) (s : Text) : NoBlankEnd (s ++ a) := by
  intro c hc
  obtain ⟨x, d, rfl⟩ : ∃ x d, a = x ++ [d] := by
    rcases List.eq_nil_or_concat a with rfl | ⟨x, d, h⟩
    · exact absurd rfl ha.nonempty
    · exact ⟨x, d, by rw [h, List.concat_eq_append]⟩
  rw [← List.append_assoc, List.getLast?_concat] at hc
  exact ha.blankless c (by rw [← Option.some.inj hc]; simp)

theorem noBlankEnd_concat (hc : isBlank c = false) (s : Text) : NoBlankEnd (s ++ [c]) := by
  intro d hd
  rw [List.getLast?_concat] at hd
  rwa [← Option.some.inj hd]

/-! ## Derivatives and integrals -/

/-- The words of a limit hold no keyword of calculus but the "lim" in front. -/
theorem keyless_limitWord : ∀ s ∈ ["imit(".toList, "imit as".toList, "approaches".toList,
    "of".toList], Keyless s := by
  decide +kernel

theorem keyless_limitFront : ∀ s ∈ ["lim".toList, "lim_".toList, "limit as".toList],
    Nowhere operatorStart s ∧ '∫' ∉ s ∧
      ∀ k ∈ ["derivative".toList, "differentiate".toList, "int".toList], Nowhere (word k) s := by
  decide +kernel

/-- Only limits are read in a text with "lim" at its front, if there is no keyword behind it. -/
theorem integrals_limitFront (hr : Keyless r)
    (hfront : Nowhere operatorStart s ∧ '∫' ∉ s ∧
      ∀ k ∈ ["derivative".toList, "differentiate".toList, "int".toList], Nowhere (word k) s)
    (hlast : ∃ u d, s = u ++ [d] ∧ isOperatorChar d = false)
    (hc : isAnyCaseLetter c = false) (hne : c ≠ '∫') :
    integrals (derivatives (s ++ c :: r)) = s ++ c :: r := by
  have hrest : Keyless (c :: r) := hr.cons hc hne
  have hoperator : Nowhere operatorStart (s ++ c :: r) :=
    nowhere_append steady_operatorStart spells_operatorStart (.inl hlast) hfront.1 hrest.operator
  have hword : ∀ k ∈ ["derivative".toList, "differentiate".toList, "int".toList], k ∈ keywords →
      Nowhere (word k) (s ++ c :: r) := by
    intro k hk hkey
    obtain ⟨hl, hn⟩ := letters_of_mem_keywords hkey
    exact nowhere_append (fun _ => steady_word k) (spells_word hl hn)
      (.inr ⟨[], c, r, rfl, fun _ h => absurd h List.not_mem_nil, hc⟩) (hfront.2.2 k hk)
      (hrest.words k hkey)
  have hderivatives : derivatives (s ++ c :: r) = s ++ c :: r :=
    derivatives_eq_self ((nowhere_derivativeOperator hoperator).bind _)
      ((nowhere_derivativeOperator hoperator).bind _) (hword _ (by decide) (by decide))
      (hword _ (by decide) (by decide))
  rw [hderivatives]
  exact integrals_eq_self (fun h => (List.mem_append.mp h).elim hfront.2.1 hrest.sign)
    (hword _ (by decide) (by decide))

/-- The operator of a derivative is not read across the blank, as there is no slash on either side. -/
theorem operatorStart_gap (ha : Target a) (hs : a.getLast? ≠ some '/') (he : Tight e)
    (hh : e.head? ≠ some '/') {x : Text} (hx : x <:+ a) : operatorStart (x ++ ' ' :: e) = [] := by
  refine List.eq_nil_iff_forall_not_mem.mpr fun ⟨_, r⟩ hread => ?_
  obtain ⟨d, w, w', d', heq, hd, hw, hw', hd'⟩ := mem_operatorStart.mp hread
  have hw : ∀ b ∈ w, isBlank b = true := List.all_eq_true.mp hw
  have hw' : ∀ b ∈ w', isBlank b = true := List.all_eq_true.mp hw'
  have hblank : Blankless x := ha.blankless.of_suffix hx
  -- What is read of the target, character by character.
  match x, w, w', hx, heq, hw, hw', hblank with
  | [], _, _, _, heq, _, _, _ =>
    rw [← (List.cons.inj heq).1] at hd
    exact absurd hd (by decide)
  | [_], [], _, _, heq, _, _, _ =>
    exact absurd (List.cons.inj (List.cons.inj heq).2).1 (by decide)
  | [_], [_], _, _, heq, _, _, _ =>
    exact hh (congrArg List.head? (List.cons.inj (List.cons.inj heq).2).2)
  | [_], _ :: b :: _, _, _, heq, hw, _, _ =>
    obtain ⟨c, cs, rfl, hc⟩ := he.head
    rw [(List.cons.inj (List.cons.inj (List.cons.inj heq).2).2).1] at hc
    exact hc (hw b (by simp))
  | _ :: _ :: _, b :: _, _, _, heq, hw, _, hblank =>
    have hb := (Blankless.cons_iff.mp (Blankless.cons_iff.mp hblank).2).1
    rw [(List.cons.inj (List.cons.inj heq).2).1, hw b List.mem_cons_self] at hb
    exact Bool.noConfusion hb
  | [_, _], [], _, hx, heq, _, _, _ =>
    obtain ⟨u, rfl⟩ := hx
    exact hs (by simp [(List.cons.inj (List.cons.inj heq).2).1])
  | _ :: _ :: _ :: _, [], b :: _, _, heq, _, hw', hblank =>
    have hb := (Blankless.cons_iff.mp (Blankless.cons_iff.mp (Blankless.cons_iff.mp hblank).2).2).1
    rw [(List.cons.inj (List.cons.inj (List.cons.inj heq).2).2).1, hw' b List.mem_cons_self] at hb
    exact Bool.noConfusion hb
  | x₁ :: x₂ :: x₃ :: x, [], [], hx, heq, _, _, _ =>
    simp only [List.cons_append, List.nil_append, List.cons.injEq] at heq
    obtain ⟨rfl, rfl, rfl, -⟩ := heq
    have hmem : ((), x) ∈ operatorStart (x₁ :: '/' :: x₃ :: x) :=
      mem_operatorStart.mpr ⟨x₁, [], [], x₃, rfl, hd, rfl, rfl, hd'⟩
    rw [ha.keyless.operator _ hx] at hmem
    exact List.not_mem_nil hmem

theorem keyless_gap (ha : Target a) (hs : a.getLast? ≠ some '/') (he : Body e)
    (hh : e.head? ≠ some '/') : Keyless (a ++ ' ' :: e) := by
  have hspace : Keyless (' ' :: e) := he.keyless.cons (by decide) (by decide)
  refine ⟨nowhere_append_iff.mpr ⟨fun x => operatorStart_gap ha hs he.tight hh, hspace.operator⟩,
    fun h => (List.mem_append.mp h).elim ha.keyless.sign hspace.sign, fun k hk => ?_⟩
  obtain ⟨hl, hn⟩ := letters_of_mem_keywords hk
  exact nowhere_append (fun _ => steady_word k) (spells_word hl hn)
    (.inr ⟨[], ' ', e, rfl, fun _ h => absurd h List.not_mem_nil, by decide⟩) (ha.keyless.words k hk)
    (hspace.words k hk)

/-! ## The limit is read -/

/-- A call for a limit of an expression without keywords is left alone. -/
theorem wordedLimit_call (hv : isLetter v = true) (ha : Keyless a) (he : Keyless e) :
    replaceAll wordedLimit (callText limitName [e, [v], a]) = callText limitName [e, [v], a] := by
  have hcall : callText limitName [e, [v], a] =
      'l' :: ("imit(".toList ++ (e ++ ',' :: v :: ',' :: (a ++ [')']))) := by
    simp [callText, joinWith, limitName]
  have hend : Keyless (a ++ [')']) :=
    ha.append (keyless_singleton (by decide) (by decide)) (.inr ⟨[], ')', [], rfl, by simp, by decide⟩)
  have hrest : Keyless (e ++ ',' :: v :: ',' :: (a ++ [')'])) :=
    he.append (((hend.cons (by decide) (by decide)).letter_cons hv (by decide)).cons (by decide)
      (by decide)) (.inr ⟨[], ',', _, rfl, by simp, by decide⟩)
  have htail : Keyless ("imit(".toList ++ (e ++ ',' :: v :: ',' :: (a ++ [')']))) :=
    (keyless_limitWord _ (by simp)).append hrest (.inl ⟨"imit".toList, '(', by decide, by decide⟩)
  -- At the front, "limit" is followed by a bracket and not by a blank.
  have hfront : ∀ r, words ["limit".toList, "as".toList] ('l' :: ("imit(".toList ++ r)) = [] := by
    intro r
    have hshape : 'l' :: ("imit(".toList ++ r) = "limit".toList ++ '(' :: r := by simp
    rw [hshape]
    exact (bind_of_eq (word_append (by decide) _)).trans (bind_of_eq_nil rfl)
  rw [hcall]
  refine Nowhere.replaceAll_eq fun last => .after (leavesEnd_guard _) fun _ => ?_
  refine nowhere_cons.mpr ⟨bind_of_eq_nil (hfront _), Nowhere.bind (Nowhere.bind ?_ _) _⟩
  exact nowhere_word_append (k := "lim".toList) (l := "it".toList) (htail.words _ (by decide))

/-- The end of both phrasings. -/
def limitBody (x : Char) (target : Text) : Pattern Text := do
  let _ ← blanks1
  let body ← many1 inLine
  atEnd
  return limitCall body x target

theorem best?_limitBody (hb : Body e) (v : Char) (a : Text) :
    (limitBody v a).best? (' ' :: e) = some (callText limitName [e, [v], a], []) := by
  have hread : (many1 inLine).best? e = some (e, []) := by
    obtain ⟨c, cs, hc, -⟩ := hb.tight.head
    have h := best?_many1 (t := []) (fun _ h => absurd h (by simp)) (hc ▸ List.cons_ne_nil c cs)
      hb.oneLine
    rwa [List.append_nil] at h
  obtain ⟨c, cs, rfl, hc⟩ := hb.tight.head
  have hcall : limitCall (c :: cs) v a = callText limitName [c :: cs, [v], a] := by
    rw [limitCall, hb.tight.trim_eq]
  refine best?_bind (best?_of_eq (blanks1_space (Bool.eq_false_iff.mpr hc))) ?_
  refine best?_bind hread (best?_bind (best?_of_eq (l := []) rfl) ?_)
  rw [hcall]
  rfl

theorem optional_sign_of_ne {d : Char} (h : d ≠ c) (t : Text) :
    optional (literal [c]) (d :: t) = [(none, d :: t)] := by
  simp [Pattern.optional, literal_singleton_eq_nil h]

/-- What follows the target behind an arrow. -/
def afterTarget (x : Char) (target : Text) : Pattern Text := do
  let _ ← blanks
  let _ ← optional (literal ['\x7d'])
  limitBody x target

theorem best?_afterTarget_space (hb : Body e) (hc : e.head? ≠ some '\x7d') (v : Char) (a : Text) :
    (afterTarget v a).best? (' ' :: e) = some (callText limitName [e, [v], a], []) := by
  let body : Pattern Text := optional (literal ['\x7d']) >>= fun _ => limitBody v a
  have none : ∀ {d : Char}, d ≠ '\x7d' → ∀ t, body (d :: t) = limitBody v a (d :: t) :=
    fun hd t => bind_of_eq (optional_sign_of_ne hd t)
  obtain ⟨d, ds, rfl, hd⟩ := hb.tight.head
  have hd : isBlank d = false := Bool.eq_false_iff.mpr hd
  have hblanks : blanks (' ' :: d :: ds) = [([' '], d :: ds), ([], ' ' :: d :: ds)] := by
    rw [blanks, many_cons (by decide), many_stop (by rw [hd]; decide)]
    rfl
  -- If the blank is taken for one behind the target, none is left in front of the expression.
  have hfirst : body (d :: ds) = [] :=
    (none (fun h => hc (congrArg some h)) ds).trans
      (bind_of_eq_nil (bind_of_eq_nil (if_neg (by rw [hd]; decide))))
  change List.head? ((blanks (' ' :: d :: ds)).flatMap fun x => body x.2) = _
  rw [hblanks, List.flatMap_cons, hfirst, List.nil_append, List.flatMap_singleton, none (by decide)]
  exact best?_limitBody hb v a

theorem best?_afterTarget_brace (hb : Body e) (v : Char) (a : Text) :
    (afterTarget v a).best? ('\x7d' :: ' ' :: e) = some (callText limitName [e, [v], a], []) := by
  refine best?_bind (best?_of_eq (many_stop (by decide) _)) ?_
  refine best?_bind (best?_optional_of_eq (r := ' ' :: e) rfl) ?_
  exact best?_limitBody hb v a

/-- A variable, an arrow and a target, and what follows them. -/
def arrowTarget : Pattern Text := do
  let x ← one isAnyCaseLetter
  let _ ← blanks
  arrow
  let _ ← blanks
  let target ← many1 fun c => !isBlank c && c != '\x7d'
  afterTarget x target

/-- What an arrow looks like. -/
def arrows : List Text := [['→'], ['-', '>']]

theorem best?_blanks_none (h : isBlank c = false) (t : Text) :
    blanks.best? (c :: t) = some ([], c :: t) :=
  best?_of_eq (many_stop (by rw [h]; decide) t)

theorem best?_arrowTarget {new : Text} (hv : isLetter v = true) (ha : Target a) (hw : w ∈ arrows)
    (hc : (isBlank c || c == '\x7d') = true) (hr : (afterTarget v a).best? (c :: r) = some (new, [])) :
    arrowTarget.best? (v :: (w ++ (a ++ c :: r))) = some (new, []) := by
  have hany := isAnyCaseLetter_of_isLetter hv
  have hshape : ∃ d u, w = d :: u ∧ isBlank d = false ∧ arrow.best? (w ++ (a ++ c :: r)) =
      some ((), a ++ c :: r) := by
    simp only [arrows, List.mem_cons, List.not_mem_nil, or_false] at hw
    rcases hw with rfl | rfl
    · exact ⟨'→', [], rfl, by decide, best?_of_eq rfl⟩
    · exact ⟨'-', ['>'], rfl, by decide, best?_of_eq rfl⟩
  obtain ⟨d, u, rfl, hd, harrow⟩ := hshape
  obtain ⟨f, fs, hf⟩ := List.exists_cons_of_ne_nil ha.nonempty
  have hblanks : blanks.best? (a ++ c :: r) = some ([], a ++ c :: r) := by
    rw [hf]
    exact best?_blanks_none (ha.blankless f (by rw [hf]; simp)) _
  refine best?_bind (best?_of_eq (one_cons hany _)) (best?_bind (best?_blanks_none hd _) ?_)
  refine best?_bind harrow (best?_bind hblanks ?_)
  refine best?_bind (best?_many1 (fun d hd => ?_) (hf ▸ List.cons_ne_nil f fs) fun d hd => ?_) hr
  · rw [← Option.some.inj hd]
    rcases (Bool.or_eq_true _ _).mp hc with h | h <;> simp_all
  · have hne : d ≠ '\x7d' := fun h => ha.noCurly.2 (h ▸ hd)
    simp [ha.blankless d hd, hne]

/-- "lim", and what stands in front of the variable. -/
theorem best?_arrowLimit_space {new : Text} (hv : isLetter v = true)
    (hr : arrowTarget.best? (v :: r) = some (new, [])) :
    (arrowLimit none).best? ("lim ".toList ++ v :: r) = some (new, []) := by
  have hvb := isBlank_of_anyCaseLetter (isAnyCaseLetter_of_isLetter hv)
  have hv' : v ≠ '_' ∧ v ≠ '\x7b' := by
    constructor <;> rintro rfl <;> exact absurd hv (by decide)
  have hlim : "lim ".toList ++ v :: r = "lim".toList ++ ' ' :: v :: r := by simp
  have hspace : blanks.best? (' ' :: v :: r) = some ([' '], v :: r) :=
    best?_many (fun d hd => by rw [← Option.some.inj hd, hvb]) (List.forall_mem_singleton.mpr (by decide))
  have none : ∀ {d : Char}, v ≠ d → (optional (literal [d])).best? (v :: r) = some (none, v :: r) :=
    fun h => best?_of_eq (optional_sign_of_ne h r)
  rw [hlim]
  refine best?_bind (best?_of_eq (l := []) rfl) (best?_bind (best?_of_eq (word_append (by decide) _)) ?_)
  refine best?_bind hspace (best?_bind (none hv'.1) (best?_bind (best?_blanks_none hvb _) ?_))
  exact best?_bind (none hv'.2) (best?_bind (best?_blanks_none hvb _) hr)

theorem best?_arrowLimit_brace {new : Text} (hv : isLetter v = true)
    (hr : arrowTarget.best? (v :: r) = some (new, [])) :
    (arrowLimit none).best? ("lim_\x7b".toList ++ v :: r) = some (new, []) := by
  have hvb := isBlank_of_anyCaseLetter (isAnyCaseLetter_of_isLetter hv)
  have hlim : "lim_\x7b".toList ++ v :: r = "lim".toList ++ '_' :: '\x7b' :: v :: r := by simp
  have sign : ∀ (d : Char) (t : Text), (optional (literal [d])).best? (d :: t) = some (some (), t) :=
    fun d t => best?_optional_of_eq (literal_append [d] t)
  rw [hlim]
  refine best?_bind (best?_of_eq (l := []) rfl) (best?_bind (best?_of_eq (word_append (by decide) _)) ?_)
  refine best?_bind (best?_blanks_none (by decide) _) (best?_bind (sign '_' _) ?_)
  refine best?_bind (best?_blanks_none (by decide) _) (best?_bind (sign '\x7b' _) ?_)
  exact best?_bind (best?_blanks_none hvb _) hr

theorem best?_wordedLimit (hv : isLetter v = true) (ha : Target a) (hb : Body e) :
    (wordedLimit none).best?
        ("limit as ".toList ++ v :: (" approaches ".toList ++ (a ++ (" of ".toList ++ e)))) =
      some (callText limitName [e, [v], a], []) := by
  have hany := isAnyCaseLetter_of_isLetter hv
  have hvb := isBlank_of_anyCaseLetter hany
  obtain ⟨f, fs, hf⟩ := List.exists_cons_of_ne_nil ha.nonempty
  have hf' : a.head? = some f := by rw [hf]; rfl
  have hfb : isBlank f = false := ha.blankless f (by rw [hf]; simp)
  have hshape : "limit as ".toList ++ v :: (" approaches ".toList ++ (a ++ (" of ".toList ++ e))) =
      "limit".toList ++ ' ' :: ("as".toList ++ ' ' :: v :: ' ' :: ("approaches".toList ++
        ' ' :: (a ++ ' ' :: ("of".toList ++ ' ' :: e)))) := by simp
  have space : ∀ {d : Char}, isBlank d = false → ∀ t, blanks1.best? (' ' :: d :: t) =
      some ([' '], d :: t) := fun hd t => best?_of_eq (blanks1_space hd)
  have gap : ∀ {k : Text} {d : Char}, k.head? = some d → isBlank d = false → ∀ t,
      blanks1.best? (' ' :: (k ++ t)) = some ([' '], k ++ t) := by
    intro k d hk hd t
    obtain ⟨ds, rfl⟩ := List.head?_eq_some_iff.mp hk
    exact space hd _
  have hwords : ∀ t, (words ["limit".toList, "as".toList]).best?
      ("limit".toList ++ ' ' :: ("as".toList ++ t)) = some ((), t) := fun t =>
    best?_bind (best?_of_eq (word_append (by decide) _))
      (best?_bind (gap (k := "as".toList) (d := 'a') (by decide) (by decide) t)
        (best?_of_eq (word_append (by decide) t)))
  have happroaches : ∀ t, approaches.best? ("approaches".toList ++ t) = some ((), t) := by
    intro t
    rw [best?, approaches, either, word_append (by decide)]
    rfl
  have htarget : (many1 fun c => !isBlank c).best? (a ++ ' ' :: ("of".toList ++ ' ' :: e)) =
      some (a, ' ' :: ("of".toList ++ ' ' :: e)) := by
    refine best?_many1 (fun d hd => ?_) ha.nonempty fun d hd => ?_
    · rw [← Option.some.inj hd]
      decide
    · rw [ha.blankless d hd]
      rfl
  rw [hshape]
  refine best?_bind (best?_of_eq (l := []) rfl) (best?_bind (hwords _) ?_)
  refine best?_bind (space hvb _) (best?_bind (best?_of_eq (one_cons hany _)) ?_)
  refine best?_bind (gap (k := "approaches".toList) (d := 'a') (by decide) (by decide) _) ?_
  refine best?_bind (happroaches _) (best?_bind (gap hf' hfb _) (best?_bind htarget ?_))
  refine best?_bind (gap (k := "of".toList) (d := 'o') (by decide) (by decide) _) ?_
  exact best?_bind (best?_of_eq (word_append (by decide) _)) (best?_limitBody hb v a)

/-- "limit as" has no arrow. -/
theorem arrowLimit_worded (h : Keyless ("imit as".toList ++ r)) :
    replaceAll arrowLimit ("limit as".toList ++ r) = "limit as".toList ++ r := by
  let named : Pattern Text := word "lim".toList >>= fun _ => blanks >>= fun _ =>
    optional (literal ['_']) >>= fun _ => blanks >>= fun _ => optional (literal ['\x7b']) >>= fun _ =>
      blanks >>= fun _ => arrowTarget
  have hblanks : ∀ {d : Char}, isBlank d = false → ∀ t, blanks (d :: t) = [([], d :: t)] :=
    fun h t => many_stop (by rw [h]; decide) t
  have hletter : ∀ t, arrowTarget ('i' :: 't' :: t) = [] := by
    intro t
    have hone : one isAnyCaseLetter ('i' :: 't' :: t) = [('i', 't' :: t)] := one_cons (by decide) _
    have ht : arrow ('t' :: t) = [] := rfl
    exact (bind_of_eq hone).trans ((bind_of_eq (hblanks (by decide) t)).trans (bind_of_eq_nil ht))
  have hfront : ∀ t, named ("lim".toList ++ 'i' :: 't' :: t) = [] := fun t =>
    (bind_of_eq (word_append (by decide) _)).trans <| (bind_of_eq (hblanks (by decide) _)).trans <|
      (bind_of_eq (optional_sign_of_ne (by decide) _)).trans <|
      (bind_of_eq (hblanks (by decide) _)).trans <|
      (bind_of_eq (optional_sign_of_ne (by decide) _)).trans <|
      (bind_of_eq (hblanks (by decide) _)).trans (hletter t)
  have hshape : "limit as".toList ++ r = 'l' :: ("imit as".toList ++ r) := by simp
  have hshape' : "limit as".toList ++ r = "lim".toList ++ 'i' :: 't' :: (" as".toList ++ r) := by
    simp
  have hread := hfront (" as".toList ++ r)
  rw [← hshape', hshape] at hread
  rw [hshape]
  refine Nowhere.replaceAll_eq fun last => .after (leavesEnd_guard _) fun _ => ?_
  exact nowhere_cons.mpr ⟨hread, Nowhere.bind (h.words _ (by decide)) _⟩

/-! ## What phrasings make of the forms -/

theorem limits_of_arrow (hv : isLetter v = true) (ha : Keyless a) (he : Keyless e) (hn : t ≠ [])
    (h : (arrowLimit none).best? t = some (callText limitName [e, [v], a], [])) :
    limits t = callText limitName [e, [v], a] := by
  rw [limits, replaceAll_of_whole hn h, wordedLimit_call hv ha he]

theorem Keyless.arrow_cons (h : Keyless t) (hv : isLetter v = true) (hw : w ∈ arrows) :
    Keyless (v :: (w ++ t)) := by
  simp only [arrows, List.mem_cons, List.not_mem_nil, or_false] at hw
  rcases hw with rfl | rfl
  · exact (h.cons (by decide) (by decide)).letter_cons hv (by decide)
  · exact ((h.cons (by decide) (by decide)).cons (by decide) (by decide)).letter_cons hv (by decide)

theorem limits_arrowForm (hv : isLetter v = true) (ha : Target a) (he : Body e) (hw : w ∈ arrows)
    (hc : e.head? ≠ some '\x7d') (hs : a.getLast? ≠ some '/') (hh : e.head? ≠ some '/') :
    limits (integrals (derivatives ("lim ".toList ++ v :: (w ++ (a ++ ' ' :: e))))) =
      callText limitName [e, [v], a] := by
  have hshape : "lim ".toList ++ v :: (w ++ (a ++ ' ' :: e)) =
      "lim".toList ++ ' ' :: v :: (w ++ (a ++ ' ' :: e)) := by simp
  have hfront := integrals_limitFront (s := "lim".toList) (c := ' ')
    ((keyless_gap ha hs he hh).arrow_cons hv hw) (keyless_limitFront _ (by simp))
    ⟨"li".toList, 'm', by decide, by decide⟩ (by decide) (by decide)
  rw [← hshape] at hfront
  rw [hfront]
  refine limits_of_arrow hv ha.keyless he.keyless (by simp) (best?_arrowLimit_space hv ?_)
  exact best?_arrowTarget hv ha hw (by decide) (best?_afterTarget_space he hc v a)

theorem limits_braceForm (hv : isLetter v = true) (ha : Target a) (he : Body e) (hw : w ∈ arrows) :
    limits (integrals (derivatives ("lim_\x7b".toList ++ v :: (w ++ (a ++ '\x7d' :: ' ' :: e))))) =
      callText limitName [e, [v], a] := by
  have hshape : "lim_\x7b".toList ++ v :: (w ++ (a ++ '\x7d' :: ' ' :: e)) =
      "lim_".toList ++ '\x7b' :: v :: (w ++ (a ++ '\x7d' :: ' ' :: e)) := by simp
  have hend : Keyless ('\x7d' :: ' ' :: e) :=
    (he.keyless.cons (by decide) (by decide)).cons (by decide) (by decide)
  have hrest : Keyless (a ++ '\x7d' :: ' ' :: e) :=
    ha.keyless.append hend (.inr ⟨[], '\x7d', ' ' :: e, rfl, by simp, by decide⟩)
  have hfront := integrals_limitFront (s := "lim_".toList) (c := '\x7b') (hrest.arrow_cons hv hw)
    (keyless_limitFront _ (by simp)) ⟨"lim".toList, '_', by decide, by decide⟩ (by decide)
    (by decide)
  rw [← hshape] at hfront
  rw [hfront]
  refine limits_of_arrow hv ha.keyless he.keyless (by simp) (best?_arrowLimit_brace hv ?_)
  exact best?_arrowTarget hv ha hw (by decide) (best?_afterTarget_brace he v a)

/-- Two texts with a blank between them, at least one of which has no part of the operator there. -/
theorem Keyless.append_blank (hs : Keyless s) (ht : Keyless t)
    (h : (∃ u d, s = u ++ [d] ∧ isOperatorChar d = false) ∨
      ∃ d u, t = d :: u ∧ isOperatorChar d = false) : Keyless (s ++ ' ' :: t) := by
  refine hs.join (ht.cons (by decide) (by decide)) (h.imp_right ?_)
    (.inr ⟨[], ' ', t, rfl, by simp, by decide⟩)
  rintro ⟨d, u, rfl, hd⟩
  exact ⟨[' '], d, u, rfl, List.forall_mem_singleton.mpr (by decide), hd⟩

theorem limits_wordedForm (hv : isLetter v = true) (ha : Target a) (he : Body e) :
    limits (integrals (derivatives
        ("limit as ".toList ++ v :: (" approaches ".toList ++ (a ++ (" of ".toList ++ e)))))) =
      callText limitName [e, [v], a] := by
  have hof : Keyless ("of".toList ++ ' ' :: e) :=
    (keyless_limitWord _ (by simp)).append_blank he.keyless (.inl ⟨['o'], 'f', by decide, by decide⟩)
  have htarget : Keyless (a ++ ' ' :: ("of".toList ++ ' ' :: e)) :=
    ha.keyless.append_blank hof (.inr ⟨'o', _, rfl, by decide⟩)
  have happroaches : Keyless ("approaches".toList ++ ' ' :: (a ++ ' ' :: ("of".toList ++ ' ' :: e))) :=
    (keyless_limitWord _ (by simp)).append_blank htarget
      (.inl ⟨"approache".toList, 's', by decide, by decide⟩)
  have hrest : Keyless ([v] ++ ' ' :: ("approaches".toList ++
      ' ' :: (a ++ ' ' :: ("of".toList ++ ' ' :: e)))) :=
    (keyless_letter hv).append_blank happroaches (.inr ⟨'a', _, rfl, by decide⟩)
  have hworded := (keyless_limitWord "imit as".toList (by simp)).append_blank hrest
    (.inl ⟨"imit a".toList, 's', by decide, by decide⟩)
  have hfront := integrals_limitFront (s := "limit as".toList) (c := ' ') hrest
    (keyless_limitFront _ (by simp)) ⟨"limit a".toList, 's', by decide, by decide⟩ (by decide) (by decide)
  have harrow := arrowLimit_worded hworded
  have hshape : "limit as".toList ++ ' ' :: ([v] ++ ' ' :: ("approaches".toList ++
      ' ' :: (a ++ ' ' :: ("of".toList ++ ' ' :: e)))) =
      "limit as ".toList ++ v :: (" approaches ".toList ++ (a ++ (" of ".toList ++ e))) := by simp
  rw [hshape] at hfront harrow
  rw [hfront, limits, harrow, replaceAll_of_whole (by simp) (best?_wordedLimit hv ha he)]

/-! ## From the problem to the question -/

theorem asksLimit_of_rewritten (config : Config) (hv : isLetter v = true) (ha : Target a)
    (he : allBlank e = false) (hae : Argument e) (hl : s.head? = some 'l') (hn : NoBlankEnd s)
    (hsq : squeeze s = s) (hs : limits (integrals (derivatives (s ++ ' ' :: squeeze (trim e)))) =
      callText limitName [squeeze (trim e), [v], a]) : AsksLimit config e a v (s ++ ' ' :: e) := by
  have hletter : plain [v] = [v] := plain_letters (by simpa using hv)
  refine asksLimit_of_canonical config he hae ha hv ?_
  rw [canonical_eq_callText (bare_limitForm hl hn hsq he) hs (by decide), List.map_cons, List.map_cons,
    List.map_singleton, plain_squeeze, plain_trim, hletter]

/-- A bracket is opened before it is closed. -/
theorem head_ne_closer (h : WellNested e) (hc : isCloser c = true) : e.head? ≠ some c := by
  intro hh
  obtain ⟨r, rfl⟩ := List.head?_eq_some_iff.mp hh
  obtain ⟨a, ha, -⟩ := awaitAll_cons_eq_some.mp h
  rw [await, closer?_of_isCloser hc] at ha
  simp [hc] at ha

theorem head_squeeze_trim (he : allBlank e = false) : (squeeze (trim e)).head? = (trim e).head? := by
  obtain ⟨c, cs, hc, hcb⟩ := (tight_trim he).head
  rw [hc, squeeze_cons_of_not_blank hcb]
  rfl

theorem blankless_arrow (hw : w ∈ arrows) : Blankless w := by
  simp only [arrows, List.mem_cons, List.not_mem_nil, or_false] at hw
  rcases hw with rfl | rfl
  · exact Blankless.cons_iff.mpr ⟨by decide, Blankless.nil⟩
  · exact Blankless.cons_iff.mpr ⟨by decide, Blankless.cons_iff.mpr ⟨by decide, Blankless.nil⟩⟩

theorem asksLimit_arrow (config : Config) (hv : isLetter v = true) (ha : Target a)
    (he : allBlank e = false) (hae : Argument e) (hk : Keyless e) (hs : a.getLast? ≠ some '/')
    (hh : (trim e).head? ≠ some '/') (hw : w ∈ arrows) :
    AsksLimit config e a v ("lim ".toList ++ v :: (w ++ (a ++ ' ' :: e))) := by
  have hc : (squeeze (trim e)).head? ≠ some '\x7d' :=
    head_ne_closer hae.trim.squeeze.wellNested (by decide)
  rw [← head_squeeze_trim he] at hh
  have hrewritten := limits_arrowForm hv ha (body_of he hk) hw hc hs hh
  have hsqueeze : squeeze ("lim ".toList ++ v :: (w ++ a)) = "lim ".toList ++ v :: (w ++ a) :=
    squeeze_letter hv (Blankless.append_iff.mpr ⟨blankless_arrow hw, ha.blankless⟩) (by decide)
  have hend := ha.noBlankEnd ("lim ".toList ++ v :: w)
  have hshape : ∀ r, "lim ".toList ++ v :: (w ++ (a ++ r)) = ("lim ".toList ++ v :: (w ++ a)) ++ r := by
    simp
  rw [List.append_assoc, List.cons_append] at hend
  rw [hshape] at hrewritten ⊢
  exact asksLimit_of_rewritten config hv ha he hae rfl hend hsqueeze hrewritten

theorem asksLimit_brace (config : Config) (hv : isLetter v = true) (ha : Target a)
    (he : allBlank e = false) (hae : Argument e) (hk : Keyless e) (hw : w ∈ arrows) :
    AsksLimit config e a v ("lim_\x7b".toList ++ v :: (w ++ (a ++ '\x7d' :: ' ' :: e))) := by
  have hrewritten := limits_braceForm hv ha (body_of he hk) hw
  have hblankless : Blankless (w ++ (a ++ ['\x7d'])) :=
    Blankless.append_iff.mpr ⟨blankless_arrow hw, Blankless.append_iff.mpr
      ⟨ha.blankless, Blankless.cons_iff.mpr ⟨by decide, Blankless.nil⟩⟩⟩
  have hsqueeze : squeeze ("lim_\x7b".toList ++ v :: (w ++ (a ++ ['\x7d']))) =
      "lim_\x7b".toList ++ v :: (w ++ (a ++ ['\x7d'])) := squeeze_letter hv hblankless (by decide)
  have hend := noBlankEnd_concat (c := '\x7d') (by decide) ("lim_\x7b".toList ++ v :: (w ++ a))
  have hshape : ∀ r, "lim_\x7b".toList ++ v :: (w ++ (a ++ '\x7d' :: r)) =
      ("lim_\x7b".toList ++ v :: (w ++ (a ++ ['\x7d']))) ++ r := by simp
  have hshape' : ("lim_\x7b".toList ++ v :: (w ++ a)) ++ ['\x7d'] =
      "lim_\x7b".toList ++ v :: (w ++ (a ++ ['\x7d'])) := by simp
  rw [hshape'] at hend
  rw [hshape] at hrewritten ⊢
  exact asksLimit_of_rewritten config hv ha he hae rfl hend hsqueeze hrewritten

theorem asksLimit_worded (config : Config) (hv : isLetter v = true) (ha : Target a)
    (he : allBlank e = false) (hae : Argument e) (hk : Keyless e) :
    AsksLimit config e a v
      ("limit as ".toList ++ v :: (" approaches ".toList ++ (a ++ (" of ".toList ++ e)))) := by
  have hrewritten := limits_wordedForm hv ha (body_of he hk)
  have hvb := isBlank_of_anyCaseLetter (isAnyCaseLetter_of_isLetter hv)
  have htarget : squeeze (" approaches ".toList ++ a) = " approaches ".toList ++ a := by
    obtain ⟨f, fs, rfl⟩ := List.exists_cons_of_ne_nil ha.nonempty
    obtain ⟨hf, hfs⟩ := Blankless.cons_iff.mp ha.blankless
    rw [squeeze_append_cons hf, hfs.squeeze_eq]
    rfl
  have hsqueeze : squeeze ("limit as ".toList ++ v :: ((" approaches ".toList ++ a) ++ " of".toList)) =
      "limit as ".toList ++ v :: ((" approaches ".toList ++ a) ++ " of".toList) := by
    rw [squeeze_append_cons hvb, squeeze_append (ha.noBlankEnd _), htarget]
    rfl
  have hend := noBlankEnd_concat (c := 'f') (by decide)
    ("limit as ".toList ++ v :: ((" approaches ".toList ++ a) ++ " o".toList))
  have hshape : ∀ r, "limit as ".toList ++ v :: (" approaches ".toList ++ (a ++ (" of ".toList ++ r))) =
      ("limit as ".toList ++ v :: ((" approaches ".toList ++ a) ++ " of".toList)) ++ ' ' :: r := by simp
  have hshape' : ("limit as ".toList ++ v :: ((" approaches ".toList ++ a) ++ " o".toList)) ++ ['f'] =
      "limit as ".toList ++ v :: ((" approaches ".toList ++ a) ++ " of".toList) := by simp
  rw [hshape'] at hend
  rw [hshape] at hrewritten ⊢
  exact asksLimit_of_rewritten config hv ha he hae rfl hend hsqueeze hrewritten

/-- **Each of the four forms is the call for the limit** of the plain expression at the plain target,
and this limit is read off it. -/
theorem limit_forms (config : Config) (hv : isLetter v = true) (ha : Target a)
    (he : allBlank e = false) (hae : Argument e) (hk : Keyless e) :
    (∀ t ∈ separatedForms e a v, AsksLimit config e a v t) ∧
      (a.getLast? ≠ some '/' → (trim e).head? ≠ some '/' →
        ∀ t ∈ arrowForms e a v, AsksLimit config e a v t) := by
  constructor
  · exact List.forall_mem_cons.mpr ⟨asksLimit_brace config hv ha he hae hk (w := ['→']) (by decide),
      List.forall_mem_singleton.mpr (asksLimit_worded config hv ha he hae hk)⟩
  · intro hs hh
    have harrow := fun {w} => asksLimit_arrow (w := w) config hv ha he hae hk hs hh
    exact List.forall_mem_cons.mpr ⟨harrow (w := ['→']) (by decide),
      List.forall_mem_singleton.mpr (harrow (w := ['-', '>']) (by decide))⟩

theorem limit_forms_oneSided :
    Target "(−1)+".toList ∧ Argument " sin[X, 2] ÷ X ".toList ∧ Keyless " sin[X, 2] ÷ X ".toList ∧
      ∀ t ∈ separatedForms " sin[X, 2] ÷ X ".toList "(−1)+".toList 'X' ++
          arrowForms " sin[X, 2] ÷ X ".toList "(−1)+".toList 'X',
        canonical t = "limit(sin(X,2)/X,X,(-1)+)".toList ∧
          ∃ target approach, Approaches "(-1)+".toList target approach ∧
            Question.limit .default (canonical t) =
              .ok ⟨"sin(X,2)/X".toList, ['X'], target, approach⟩ := by
  have hblankless : Blankless "(−1)+".toList := forall_mem_of_all (by decide)
  have htarget : Target "(−1)+".toList :=
    ⟨by decide, by decide, by decide, by decide, hblankless, by decide +kernel⟩
  have hargument : Argument " sin[X, 2] ÷ X ".toList := ⟨by decide, by decide⟩
  have hkeyless : Keyless " sin[X, 2] ÷ X ".toList := by decide +kernel
  have hplain : plain " sin[X, 2] ÷ X ".toList = "sin(X,2)/X".toList ∧
      plain "(−1)+".toList = "(-1)+".toList := by decide +kernel
  have h := limit_forms (v := 'X') .default (by decide) htarget (by decide) hargument hkeyless
  refine ⟨htarget, hargument, hkeyless, fun t ht => ?_⟩
  have ht := (List.mem_append.mp ht).elim (h.1 t) (h.2 (by decide) (by decide) t)
  rw [AsksLimit, hplain.1, hplain.2] at ht
  exact ht

/-- A slash behind the blank makes an operator of the target's last letter, which is read first. -/
theorem limit_arrowForm_slash :
    Target ['d'] ∧ Argument " /dx(x)".toList ∧ Keyless " /dx(x)".toList ∧
      " /dx(x)".toList.head? ≠ some '/' ∧ " /dx(x)".toList.getLast? ≠ some '/' ∧
      "lim x→d  /dx(x)".toList ∈ arrowForms " /dx(x)".toList ['d'] 'x' ∧
      canonical "lim x→d  /dx(x)".toList = "limx→diff(x,x)".toList ∧
      ¬AsksLimit .default " /dx(x)".toList ['d'] 'x' "lim x→d  /dx(x)".toList := by
  have hcanonical : canonical "lim x→d  /dx(x)".toList = "limx→diff(x,x)".toList := by decide +kernel
  refine ⟨⟨by decide, by decide, by decide, by decide, forall_mem_of_all (by decide), by decide +kernel⟩,
    ⟨by decide, by decide⟩, by decide +kernel, by decide, by decide, by decide, hcanonical, fun h => ?_⟩
  have hask := h.1
  rw [hcanonical] at hask
  exact absurd hask (by decide +kernel)

end Stepwise.Phrase
