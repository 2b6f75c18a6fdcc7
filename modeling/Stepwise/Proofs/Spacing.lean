import Stepwise.Phrase.Rule
import Stepwise.Proofs.Pieces

/-!
# Deleting the blanks between tokens

Blanks between a sign and its neighbours carry no meaning, with one exception: `2e + 3` is twice
Euler's number and three more, while `2e+3` is the number 2000. `SpellsExponent` is that exception:
a number without exponent, the name `e`, a sign, and a number that starts with a digit, one after
the other. (`**` is no second exception: in an expression no `*` follows a `*`.)

Results: `cuts_removeBlanks`, without the exception the tokens are the same;
`operands_removeBlanks_ne`, with it the numbers are not; and `read_removeBlanks_iff`, a text in
which no two operands are held apart by blanks has the same tree without its blanks if and only if
there is no such exception.
-/

namespace Stepwise

open Text

namespace Token

variable {r t w : Text} {tok : Token} {tokens toks : List Token}

/-- The name `e`, a sign and a number that starts with a digit come first. -/
def MakesExponent (tokens : List Token) : Prop :=
  ∃ e s d ds rest, tokens = .name [e] :: .sign s :: .number (d :: ds) :: rest ∧
    (e = 'e' ∨ e = 'E') ∧ (s = '+' ∨ s = '-') ∧ isDigit d = true

/-- Somewhere a number without an exponent stands in front of what makes one. -/
def SpellsExponent (tokens : List Token) : Prop :=
  ∃ before n after, tokens = before ++ .number n :: after ∧ hasExponent n = false ∧
    MakesExponent after

theorem spellsExponent_nil : ¬ SpellsExponent [] := by
  rintro ⟨before, n, after, h, -⟩
  exact List.append_ne_nil_of_right_ne_nil before (List.cons_ne_nil _ _) h.symm

theorem spellsExponent_cons : SpellsExponent (tok :: toks) ↔
    (∃ n, tok = .number n ∧ hasExponent n = false ∧ MakesExponent toks) ∨
      SpellsExponent toks := by
  constructor
  · rintro ⟨_ | ⟨u, before⟩, n, after, h, hn, hm⟩
    · obtain ⟨rfl, rfl⟩ := List.cons.inj h
      exact .inl ⟨n, rfl, hn, hm⟩
    · obtain ⟨rfl, rfl⟩ := List.cons.inj h
      exact .inr ⟨before, n, after, rfl, hn, hm⟩
  · rintro (⟨n, rfl, hn, hm⟩ | ⟨before, n, after, rfl, hn, hm⟩)
    · exact ⟨[], n, toks, rfl, hn, hm⟩
    · exact ⟨tok :: before, n, after, rfl, hn, hm⟩

/-! ## Exponents that come into being -/

theorem exponentPart_ne_nil_head {x : Text} (h : exponentPart x ≠ []) :
    ∃ e y, x = e :: y ∧ (e = 'e' ∨ e = 'E') := by
  cases x with
  | nil => exact absurd rfl h
  | cons e y =>
    refine ⟨e, y, rfl, ?_⟩
    by_cases he : e = 'e' ∨ e = 'E'
    · exact he
    · exact absurd (by unfold exponentPart; dsimp only; rw [if_neg he]) h

/-- A token that starts with a digit is a number. -/
theorem StartsWith.number_of_isDigit {c : Char} (h : StartsWith c tok) (hc : isDigit c = true) :
    ∃ ds, tok = .number (c :: ds) := by
  cases tok with
  | number n =>
    obtain ⟨ds, rfl⟩ := List.head?_eq_some_iff.mp h.1
    exact ⟨ds, rfl⟩
  | name n => exact absurd hc (by simp [isDigit_of_isAlpha h.2])
  | sign d =>
    have := forall_mem_of_all (p := fun c => isDigit c = false) (by decide) c h.1
    exact absurd hc (by simp [this])

/-- A token that starts with a sign other than `*` is that sign. -/
theorem StartsWith.eq_sign {c : Char} (h : StartsWith c tok) (hc : c ∈ signs) (hs : c ≠ '*') :
    tok = .sign c := by
  have hd := forall_mem_of_all (p := fun c => isDigit c = false ∧ c ≠ '.' ∧ c.isAlpha = false)
    (by decide) c hc
  cases tok with
  | number n =>
    rcases h.2 with h | h
    · exact absurd h (by simp [hd.1])
    · exact absurd h hd.2.1
  | name n => exact absurd h.2 (by simp [hd.2.2])
  | sign d =>
    rcases h.2 with rfl | ⟨h, -⟩
    · rfl
    · exact absurd h hs

/-- A token that starts with a letter is a name. -/
theorem StartsWith.name_of_isAlpha {c : Char} (h : StartsWith c tok) (hc : c.isAlpha = true) :
    ∃ n, tok = .name n := by
  cases tok with
  | number n =>
    rcases h.2 with h | rfl
    · exact absurd h (by simp [isDigit_of_isAlpha hc])
    · exact absurd hc (by decide)
  | name n => exact ⟨n, rfl⟩
  | sign d =>
    have := forall_mem_of_all (p := fun c => c.isAlpha = false) (by decide) c h.1
    exact absurd hc (by simp [this])

theorem isAlpha_exponentMark {e : Char} (he : e = 'e' ∨ e = 'E') : e.isAlpha = true := by
  rcases he with rfl | rfl <;> decide

theorem mem_signs_of_sign {s : Char} (hs : s = '+' ∨ s = '-') : s ∈ signs ∧ s ≠ '*' := by
  rcases hs with rfl | rfl <;> decide

/-- Without its blanks a text starts with its first token as that is written. -/
theorem Cuts.removeBlanks_eq (h : Cuts t (tok :: toks)) :
    ∃ w r, lexeme? (w ++ r) = some ⟨w, some tok⟩ ∧ Cuts r toks ∧
      removeBlanks t = w ++ removeBlanks r := by
  obtain ⟨b, w, r, rfl, hb, hw, hr, -⟩ := h.exists_first rfl
  refine ⟨w, r, hw, hr, ?_⟩
  rw [removeBlanks_of_blanks hb, removeBlanks_of_lexeme? hw]

theorem Cuts.removeBlanks_sign {s : Char} (h : Cuts t (.sign s :: toks)) (hs : s = '+' ∨ s = '-') :
    ∃ r, Cuts r toks ∧ removeBlanks t = s :: removeBlanks r := by
  obtain ⟨w, r, hw, hr, ht⟩ := h.removeBlanks_eq
  rcases sign_of_lexeme? hw with ⟨-, rfl⟩ | ⟨rfl, -⟩
  · exact absurd hs (by decide)
  · exact ⟨r, hr, ht⟩

/-- Behind an `e` on its own the text makes an exponent without its blanks only by a sign and a
digit. -/
theorem makesExponent_of_ne_nil {e : Char} (he : e = 'e' ∨ e = 'E') (hr : Cuts r toks)
    (ha : Adjoins r toks) (h0 : exponentPart (e :: r) = [])
    (h : exponentPart (e :: removeBlanks r) ≠ []) : MakesExponent (.name [e] :: toks) := by
  by_cases hm : MakesExponent (.name [e] :: toks)
  · exact hm
  · refine absurd ((exponentPart_eq_nil he).mpr ⟨fun c hc => ?_, fun s y hy hs d hd => ?_⟩) h
    · obtain ⟨tok, htok, hst⟩ := hr.head_removeBlanks hc
      cases hdig : isDigit c with
      | false => rfl
      | true =>
        -- The digit belongs to an operand, so that no blank stood in front of it.
        obtain ⟨ds, rfl⟩ := hst.number_of_isDigit hdig
        have hhead := (ha _ htok rfl).symm.trans hc
        exact absurd (((exponentPart_eq_nil he).mp h0).1 c hhead) (by simp [hdig])
    · obtain ⟨tok, htok, hst⟩ := hr.head_removeBlanks (by rw [hy]; rfl)
      obtain ⟨toks, rfl⟩ := List.head?_eq_some_iff.mp htok
      have hsign := mem_signs_of_sign hs
      obtain rfl := hst.eq_sign hsign.1 hsign.2
      obtain ⟨r₁, hr₁, hr⟩ := hr.removeBlanks_sign hs
      obtain rfl := (List.cons.inj (hy.symm.trans hr)).2
      obtain ⟨tok, htok, hst⟩ := hr₁.head_removeBlanks hd
      obtain ⟨toks, rfl⟩ := List.head?_eq_some_iff.mp htok
      cases hdig : isDigit d with
      | false => rfl
      | true =>
        obtain ⟨ds, rfl⟩ := hst.number_of_isDigit hdig
        exact absurd ⟨e, s, d, ds, toks, rfl, he, hs, hdig⟩ hm

/-- **Without its blanks a text starts with an exponent if and only if its tokens make one**, given
that it did not start with one before. -/
theorem exponentPart_removeBlanks (hr : Cuts r toks) (hs : spaced (pieces r) = true)
    (ha : Adjoins r toks) (h0 : exponentPart r = []) :
    exponentPart (removeBlanks r) ≠ [] ↔ MakesExponent toks := by
  constructor
  · intro h
    obtain ⟨e, y, hy, he⟩ := exponentPart_ne_nil_head h
    obtain ⟨tok, htok, hst⟩ := hr.head_removeBlanks (by rw [hy]; rfl)
    obtain ⟨toks, rfl⟩ := List.head?_eq_some_iff.mp htok
    obtain ⟨n, rfl⟩ := hst.name_of_isAlpha (isAlpha_exponentMark he)
    have hhead := ha _ rfl rfl
    obtain ⟨b, w, r₁, rfl, hb, hw, hr₁, -⟩ := hr.exists_first rfl
    obtain ⟨rfl, -, hname⟩ := name_of_lexeme? hw
    -- No blank stands in front of the name.
    have hb : b = [] := by
      cases b with
      | nil => rfl
      | cons c cs =>
        rw [hy] at hhead
        obtain rfl := Option.some.inj hhead
        have := isBlank_of_isAlphanum (c := e) (by rw [Char.isAlphanum, hst.2, Bool.true_or])
        exact absurd (hb e List.mem_cons_self) (by simp [this])
    subst hb
    rw [List.nil_append] at h0 hs h
    rw [removeBlanks_of_lexeme? hw] at h
    obtain ⟨n, rfl⟩ := List.head?_eq_some_iff.mp hst.1
    cases n with
    | nil => exact makesExponent_of_ne_nil he hr₁ (adjoins_of_spaced hw rfl hr₁ hs) h0 h
    | cons c cs =>
      refine absurd ((exponentPart_eq_nil he).mpr ⟨fun d hd => ?_, fun s y hsy hs => ?_⟩) h
      · exact ((exponentPart_eq_nil he).mp h0).1 d hd
      · -- The second letter of a name is no sign.
        obtain ⟨rfl, -⟩ := List.cons.inj hsy
        have : (c :: cs) = (c :: cs ++ r₁).takeWhile Char.isAlphanum := by
          rw [List.cons_append, namePart, if_pos hst.2] at hname
          exact (List.cons.inj hname).2.symm
        have hc : c.isAlphanum = true := of_mem_takeWhile (this ▸ List.mem_cons_self)
        rcases hs with rfl | rfl
        · exact absurd hc (by decide)
        · exact absurd hc (by decide)
  · rintro ⟨e, s, d, ds, rest, rfl, he, hs, hd⟩ h
    obtain ⟨w, r₁, hw, hr₁, ht⟩ := hr.removeBlanks_eq
    obtain ⟨rfl, -, -⟩ := name_of_lexeme? hw
    obtain ⟨r₂, hr₂, ht₁⟩ := hr₁.removeBlanks_sign hs
    obtain ⟨w, r₃, hw, -, ht₂⟩ := hr₂.removeBlanks_eq
    obtain ⟨rfl, -, -⟩ := number_of_lexeme? hw
    rw [ht, List.singleton_append, exponentPart_eq_nil he] at h
    have := h.2 s _ ht₁ hs d (by rw [ht₂]; rfl)
    exact absurd hd (by simp [this])

/-! ## One token -/

/-- What stands behind a number or a name without blanks: nothing, a sign, or what stood there. -/
theorem head_removeBlanks_of_adjoins (hr : Cuts r toks) (ha : Adjoins r toks) :
    (∀ c, (removeBlanks r).head? = some c → c ∈ signs) ∨ (removeBlanks r).head? = r.head? := by
  cases toks with
  | nil =>
    refine .inl fun c hc => ?_
    rw [removeBlanks_of_cuts_nil hr rfl] at hc
    exact absurd hc (by simp)
  | cons tok toks =>
    cases tok with
    | number n => exact .inr (ha _ rfl rfl)
    | name n => exact .inr (ha _ rfl rfl)
    | sign s =>
      refine .inl fun c hc => ?_
      obtain ⟨tok, htok, hst⟩ := hr.head_removeBlanks hc
      obtain rfl := Option.some.inj htok
      exact hst.1

theorem endsNumber_of_signs {x : Text} (h : ∀ c, x.head? = some c → c ∈ signs) :
    endsNumber x = true := by
  cases x with
  | nil => rfl
  | cons c cs =>
    have := forall_mem_of_all (p := fun c => endsNumber [c] = true) (by decide) c (h c rfl)
    simpa [endsNumber] using this

theorem endsName_of_signs {x : Text} (h : ∀ c, x.head? = some c → c ∈ signs) :
    endsName x = true := by
  cases x with
  | nil => rfl
  | cons c cs =>
    have := forall_mem_of_all (p := fun c => endsName [c] = true) (by decide) c (h c rfl)
    simpa [endsName] using this

theorem endsName_congr {x y : Text} (h : x.head? = y.head?) : endsName x = endsName y := by
  cases x <;> cases y <;> simp_all [endsName]

/-- **A token is found again without the blanks behind it**, unless an exponent comes into being
there or two stars come together. -/
theorem lexeme?_removeBlanks (h : lexeme? (w ++ r) = some ⟨w, some tok⟩) (hr : Cuts r toks)
    (hs : spaced (pieces (w ++ r)) = true) (hst : StarsApart (tok :: toks))
    (he : ∀ n, tok = .number n → hasExponent n = false → ¬ MakesExponent toks) :
    lexeme? (w ++ removeBlanks r) = some ⟨w, some tok⟩ := by
  have hsr : spaced (pieces r) = true := by
    rw [pieces_append (l := ⟨w, some tok⟩) h] at hs
    exact spaced_tail hs
  cases tok with
  | number n =>
    have ha := adjoins_of_spaced h rfl hr hs
    obtain ⟨rfl, hn, hnum⟩ := number_of_lexeme? h
    refine lexeme?_of_numberPart hn ?_
    rcases head_removeBlanks_of_adjoins hr ha with hsign | hhead
    · have := numberPart_append (w ++ r) (endsNumber_of_signs hsign)
      rwa [hnum] at this
    · rw [numberPart_ahead hn hnum hhead]
      cases hexp : hasExponent w with
      | true => rw [if_pos rfl, List.append_nil]
      | false =>
        have hno := exponentPart_of_numberPart hn hnum hexp
        have hnil : exponentPart (removeBlanks r) = [] :=
          Decidable.of_not_not fun hne =>
            he w rfl hexp ((exponentPart_removeBlanks hr hsr ha hno).mp hne)
        rw [if_neg Bool.false_ne_true, hnil, List.append_nil]
  | name n =>
    have ha := adjoins_of_spaced h rfl hr hs
    obtain ⟨rfl, hn, hname⟩ := name_of_lexeme? h
    refine lexeme?_name (s := w) ⟨hn, ?_⟩ ?_
    · have := namePart_append (w ++ r) (r := []) rfl
      rwa [hname, List.append_nil] at this
    · rcases head_removeBlanks_of_adjoins hr ha with hsign | hhead
      · exact endsName_of_signs hsign
      · rw [endsName_congr hhead]
        exact endsName_of_namePart hn hname
  | sign s =>
    rcases sign_of_lexeme? h with ⟨rfl, rfl⟩ | ⟨rfl, hmem⟩
    · exact lexeme?_power _
    · refine lexeme?_sign hmem ?_
      rintro rfl hstar
      -- A second star belongs to a token `*` or `^`.
      obtain ⟨u, hu, hst'⟩ := hr.head_removeBlanks hstar
      obtain ⟨htimes, hpower⟩ := (starsApart_cons.mp hst).1 rfl u hu
      cases u with
      | number n =>
        rcases hst'.2 with h | h
        · exact absurd h (by decide)
        · exact absurd h (by decide)
      | name n => exact absurd hst'.2 (by decide)
      | sign d =>
        rcases hst'.2 with rfl | ⟨-, rfl⟩
        · exact htimes rfl
        · exact hpower rfl

/-- A number grows when an exponent comes into being behind it. -/
theorem lexeme?_removeBlanks_exponent {n : Text} (h : lexeme? (n ++ r) = some ⟨n, some (.number n)⟩)
    (hr : Cuts r toks) (hs : spaced (pieces (n ++ r)) = true) (hn : hasExponent n = false)
    (he : MakesExponent toks) :
    ∃ n', n' ≠ n ∧ lexeme? (n ++ removeBlanks r) = some ⟨n', some (.number n')⟩ := by
  have ha := adjoins_of_spaced h rfl hr hs
  rw [pieces_append (l := ⟨n, some (.number n)⟩) h] at hs
  obtain ⟨-, hne, hnum⟩ := number_of_lexeme? h
  have hno := exponentPart_of_numberPart hne hnum hn
  have hex := (exponentPart_removeBlanks hr (spaced_tail hs) ha hno).mpr he
  have hhead : (removeBlanks r).head? = r.head? := by
    obtain ⟨e, s, d, ds, rest, rfl, -⟩ := he
    exact ha _ rfl rfl
  have hgrown := numberPart_ahead hne hnum hhead
  rw [hn, if_neg Bool.false_ne_true] at hgrown
  refine ⟨n ++ exponentPart (removeBlanks r), ?_, lexeme?_of_numberPart ?_ hgrown⟩
  · exact fun h => hex (List.append_right_eq_self.mp h)
  · exact List.append_ne_nil_of_left_ne_nil hne _

/-! ## The whole text -/

/-- **Without its blanks a spaced text has the same tokens**, if they spell no exponent. -/
theorem cuts_removeBlanks (h : Cuts t tokens) (hs : spaced (pieces t) = true)
    (hst : StarsApart tokens) (he : ¬ SpellsExponent tokens) : Cuts (removeBlanks t) tokens := by
  induction h with
  | nil => exact .nil
  | @cons t l tokens hl hr ih =>
    have happ := lexeme?_append hl
    have hsr := spaced_drop hl hs
    obtain ⟨w, _ | tok⟩ := l
    · rw [← happ, removeBlanks_of_blanks (isBlank_of_lexeme? hl)]
      exact ih hsr hst he
    · dsimp only at happ ih hr hsr
      generalize t.drop w.length = r at happ ih hr hsr
      subst happ
      rw [removeBlanks_of_lexeme? hl]
      refine .append (lexeme?_removeBlanks hl hr hs hst fun n hn hexp hm => ?_) ?_
      · exact he (spellsExponent_cons.mpr (.inl ⟨n, hn, hexp, hm⟩))
      · exact ih hsr (starsApart_cons.mp hst).2 fun h => he (spellsExponent_cons.mpr (.inr h))

/-- **Without its blanks a spaced text has other numbers and names**, if its tokens spell an
exponent. -/
theorem operands_removeBlanks_ne (h : Cuts t tokens) (hs : spaced (pieces t) = true)
    (hst : StarsApart tokens) (he : SpellsExponent tokens) :
    ∀ {tokens'}, Cuts (removeBlanks t) tokens' → operands tokens' ≠ operands tokens := by
  induction h with
  | nil => exact absurd he spellsExponent_nil
  | @cons t l tokens hl hr ih =>
    intro tokens' h'
    have happ := lexeme?_append hl
    have hsr := spaced_drop hl hs
    obtain ⟨w, _ | tok⟩ := l
    · rw [← happ, removeBlanks_of_blanks (isBlank_of_lexeme? hl)] at h'
      exact ih hsr hst he h'
    · dsimp only at happ ih hr hsr
      generalize t.drop w.length = r at happ ih hr hsr
      subst happ
      rw [removeBlanks_of_lexeme? hl] at h'
      by_cases hhead : ∃ n, tok = .number n ∧ hasExponent n = false ∧ MakesExponent tokens
      · obtain ⟨n, rfl, hexp, hm⟩ := hhead
        obtain ⟨rfl, -, -⟩ := number_of_lexeme? hl
        obtain ⟨n', hne, hl'⟩ := lexeme?_removeBlanks_exponent hl hr hs hexp hm
        obtain ⟨rest, rfl, -⟩ := h'.exists_rest hl'
        intro heq
        exact hne (Token.number.inj (List.cons.inj heq).1)
      · have hl' := lexeme?_removeBlanks hl hr hs hst fun n hn hexp hm =>
          hhead ⟨n, hn, hexp, hm⟩
        obtain ⟨rest, rfl, hrest⟩ := h'.exists_rest hl'
        rw [List.drop_left] at hrest
        have he := (spellsExponent_cons.mp he).resolve_left hhead
        have hne := ih hsr (starsApart_cons.mp hst).2 he hrest
        intro heq
        rw [operands_append, operands_append] at heq
        exact hne (List.append_cancel_left heq)

end Token

namespace Tree

open Token Grammar Phrase

variable {F : List Text}

/-- **Deleting the blanks keeps the tree, with one exception.** A text whose operands are not held
apart by blanks alone is read as the same tree without its blanks if and only if no number without
an exponent is followed by the name `e`, a sign and a number that starts with a digit. -/
theorem read_removeBlanks_iff {t : Text} {tree : Tree} (h : read F t = .ok tree)
    (hs : spaced (pieces t) = true) :
    read F (Rule.removeBlanks.apply t) = .ok tree ↔
      ¬ ∃ tokens, scan t = .ok tokens ∧ SpellsExponent tokens := by
  obtain ⟨tokens, hscan, htree⟩ := bind_eq_ok.mp h
  have hd : Derives F tokens tree := ofTokens?_eq_ok.mp htree
  have hcuts := scan_eq_ok.mp hscan
  constructor
  · rintro h' ⟨tokens₁, hscan₁, he⟩
    obtain rfl := Except.ok.inj (hscan.symm.trans hscan₁)
    obtain ⟨tokens', hscan', htree'⟩ := bind_eq_ok.mp h'
    have hd' : Derives F tokens' tree := ofTokens?_eq_ok.mp htree'
    have hne := operands_removeBlanks_ne hcuts hs hd.starsApart he (scan_eq_ok.mp hscan')
    exact hne (hd'.operands.trans hd.operands.symm)
  · intro he
    have hcuts' := cuts_removeBlanks hcuts hs hd.starsApart fun h => he ⟨tokens, hscan, h⟩
    have hscan' : scan (Rule.removeBlanks.apply t) = .ok tokens := scan_eq_ok.mpr hcuts'
    rw [read, hscan', ok_bind]
    exact htree

/-- The tree of `2e + (3)`. -/
def bracketedSummand : Tree :=
  .operation .plus (.operation .times (.constant (.whole 2) ['2']) (.name ['e']))
    (.parenthesis (.constant (.whole 3) ['3']))

/-- A parenthesis behind the sign keeps the tree of `2e + (3)`. -/
theorem read_removeBlanks_bracketedSummand :
    read defaultFunctions "2e + (3)".toList = .ok bracketedSummand ∧
      spaced (pieces "2e + (3)".toList) = true ∧
      read defaultFunctions (Rule.removeBlanks.apply "2e + (3)".toList) = .ok bracketedSummand := by
  have hscan : scan "2e + (3)".toList = .ok [.number ['2'], .name ['e'], .sign '+', .sign '(',
      .number ['3'], .sign ')'] := by rfl
  have product : Multiplicative defaultFunctions [.number ['2'], .name ['e'], .sign '+', .sign '(',
      .number ['3'], .sign ')'] [.sign '+', .sign '(', .number ['3'], .sign ')']
      (.operation .times (.constant (.whole 2) ['2']) (.name ['e'])) :=
    .implied (.one (.bare (.bare (.number rfl)))) rfl (.bare (.bare (.name (by decide))))
  have content : Additive defaultFunctions [.number ['3'], .sign ')'] [.sign ')']
      (.constant (.whole 3) ['3']) := .one (.one (.bare (.bare (.number rfl))))
  have h : read defaultFunctions "2e + (3)".toList = .ok bracketedSummand := by
    rw [read, hscan, ok_bind]
    exact ofTokens?_eq_ok.mpr
      (.more (.inl rfl) (.one product) (.one (.bare (.bare (.parenthesis content)))))
  have hs : spaced (pieces "2e + (3)".toList) = true := by decide +kernel
  refine ⟨h, hs, (read_removeBlanks_iff h hs).mpr ?_⟩
  rintro ⟨tokens, hscan₁, he⟩
  obtain rfl := Except.ok.inj (hscan.symm.trans hscan₁)
  simp [spellsExponent_cons, spellsExponent_nil, MakesExponent] at he

/-- The tree of `2e + 3`. -/
def summand : Tree :=
  .operation .plus (.operation .times (.constant (.whole 2) ['2']) (.name ['e']))
    (.constant (.whole 3) ['3'])

/-- `2e + 3` is a sum, and one number without its blanks. -/
theorem read_removeBlanks_summand :
    read defaultFunctions "2e + 3".toList = .ok summand ∧
      spaced (pieces "2e + 3".toList) = true ∧
      read defaultFunctions (Rule.removeBlanks.apply "2e + 3".toList) ≠ .ok summand := by
  have hscan : scan "2e + 3".toList =
      .ok [.number ['2'], .name ['e'], .sign '+', .number ['3']] := by rfl
  have product : Multiplicative defaultFunctions
      [.number ['2'], .name ['e'], .sign '+', .number ['3']] [.sign '+', .number ['3']]
      (.operation .times (.constant (.whole 2) ['2']) (.name ['e'])) :=
    .implied (.one (.bare (.bare (.number rfl)))) rfl (.bare (.bare (.name (by decide))))
  have h : read defaultFunctions "2e + 3".toList = .ok summand := by
    rw [read, hscan, ok_bind]
    exact ofTokens?_eq_ok.mpr
      (.more (.inl rfl) (.one product) (.one (.bare (.bare (.number rfl)))))
  refine ⟨h, by decide +kernel, fun h' => ?_⟩
  have hscan' : scan (Rule.removeBlanks.apply "2e + 3".toList) = .ok [.number "2e+3".toList] := by
    rfl
  rw [read, hscan', ok_bind] at h'
  have hd : Derives defaultFunctions [.number "2e+3".toList] summand := ofTokens?_eq_ok.mp h'
  exact absurd hd.operands (by decide)

end Tree

end Stepwise
