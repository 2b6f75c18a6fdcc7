import Stepwise.Proofs.Blankless
import Stepwise.Proofs.Leaves
import Stepwise.Proofs.Lookahead

/-!
# The pieces of a text and its first token

`pieces` are the tokens of a text as they are written, with the runs of blanks between them. They
say what the tokens alone do not: whether blanks stand between two operands (`spaced`).

Results: `startsWith_of_lexeme?`, the characters that a token can start with;
`blankless_of_lexeme?`, no token holds a blank; `Cuts.exists_first`, a text is blanks, its first
token and the rest; and `adjoins_of_spaced`, in a spaced text an operand stands directly behind an
operand.
-/

namespace Stepwise

open Text

namespace Token

variable {n r t w : Text} {tok : Token} {tokens toks : List Token}

/-! ## Pieces -/

/-- The pieces of a text, as many as there is fuel for. -/
def piecesFrom : (fuel : Nat) → Text → List Lexeme
  | 0, _ => []
  | fuel + 1, t =>
    match lexeme? t with
    | none => []
    | some l => l :: piecesFrom fuel (t.drop l.written.length)

/-- The pieces of a text. Each takes at least one character, so the text's length is fuel enough. -/
def pieces (t : Text) : List Lexeme := piecesFrom t.length t

/-- Is this a number or a name? -/
def Lexeme.isOperand (l : Lexeme) : Bool := l.token.any Token.isOperand

/-- No blanks stand directly between two operands. -/
def spaced : List Lexeme → Bool
  | a :: b :: c :: ls =>
    !(a.isOperand && b.token.isNone && c.isOperand) && spaced (b :: c :: ls)
  | _ => true

theorem piecesFrom_eq : ∀ {m k : Nat} {t : Text}, t.length ≤ m → t.length ≤ k →
    piecesFrom m t = piecesFrom k t
  | 0, 0, _, _, _ => rfl
  | 0, _ + 1, t, hm, _ => by
    obtain rfl := List.length_eq_zero_iff.mp (Nat.le_zero.mp hm)
    rfl
  | _ + 1, 0, t, _, hk => by
    obtain rfl := List.length_eq_zero_iff.mp (Nat.le_zero.mp hk)
    rfl
  | m + 1, k + 1, t, hm, hk => by
    unfold piecesFrom
    cases hl : lexeme? t with
    | none => rfl
    | some l =>
      have := length_drop_lt hl
      exact congrArg (l :: ·) (piecesFrom_eq (by omega) (by omega))

theorem pieces_cons {l : Lexeme} (h : lexeme? t = some l) :
    pieces t = l :: pieces (t.drop l.written.length) := by
  have hlt := length_drop_lt h
  obtain ⟨k, hk⟩ := Nat.exists_eq_succ_of_ne_zero (by omega : t.length ≠ 0)
  unfold pieces
  rw [hk, piecesFrom, h]
  exact congrArg (l :: ·) (piecesFrom_eq (by omega) (Nat.le_refl _))

theorem pieces_append {l : Lexeme} (h : lexeme? (l.written ++ r) = some l) :
    pieces (l.written ++ r) = l :: pieces r := by
  rw [pieces_cons h, List.drop_left]

theorem spaced_tail {l : Lexeme} {ls : List Lexeme} (h : spaced (l :: ls) = true) :
    spaced ls = true := by
  match ls, h with
  | [], _ => rfl
  | [_], _ => rfl
  | _ :: _ :: _, h => exact (Bool.and_eq_true_iff.mp h).2

theorem spaced_drop {l : Lexeme} (h : lexeme? t = some l) (hs : spaced (pieces t) = true) :
    spaced (pieces (t.drop l.written.length)) = true := by
  rw [pieces_cons h] at hs
  exact spaced_tail hs

/-- A text is cut in one way. -/
theorem Cuts.exists_rest {l : Lexeme} (h : Cuts t tokens) (hl : lexeme? t = some l) :
    ∃ rest, tokens = l.token.toList ++ rest ∧ Cuts (t.drop l.written.length) rest := by
  cases h with
  | nil =>
    have hl : none = some l := hl
    exact absurd hl (by simp)
  | @cons _ l' rest hl' hr =>
    obtain rfl := Option.some.inj (hl'.symm.trans hl)
    exact ⟨rest, rfl, hr⟩

/-! ## What a token is found by -/

theorem number_of_lexeme? (h : lexeme? t = some ⟨w, some (.number n)⟩) :
    w = n ∧ n ≠ [] ∧ numberPart t = n := by
  unfold lexeme? at h
  dsimp only at h
  split at h
  next hn =>
    cases h
    exact ⟨rfl, by simpa using hn, rfl⟩
  · split at h
    · cases h
    · split at h
      · cases h
      · split at h
        · cases h
        · cases h

theorem name_of_lexeme? (h : lexeme? t = some ⟨w, some (.name n)⟩) :
    w = n ∧ n ≠ [] ∧ namePart t = n := by
  unfold lexeme? at h
  dsimp only at h
  split at h
  · cases h
  · split at h
    next hn =>
      cases h
      exact ⟨rfl, by simpa using hn, rfl⟩
    · split at h
      · cases h
      · split at h
        · cases h
        · cases h

theorem sign_of_lexeme? {c : Char} (h : lexeme? t = some ⟨w, some (.sign c)⟩) :
    w = ['*', '*'] ∧ c = '^' ∨ w = [c] ∧ c ∈ signs := by
  have hs := signPart_of_lexeme? h
  unfold signPart at hs
  split at hs
  · obtain ⟨rfl, rfl⟩ := Prod.mk.inj (Option.some.inj hs)
    exact .inl ⟨rfl, rfl⟩
  · split at hs
    next hc =>
      obtain ⟨rfl, rfl⟩ := Prod.mk.inj (Option.some.inj hs)
      exact .inr ⟨rfl, List.contains_iff_mem.mp hc⟩
    next => exact absurd hs (by simp)
  · exact absurd hs (by simp)

theorem lexeme?_of_numberPart (hn : n ≠ []) (h : numberPart t = n) :
    lexeme? t = some ⟨n, some (.number n)⟩ := by
  unfold lexeme?
  dsimp only
  rw [h, if_pos (by simpa using hn)]

theorem lexeme?_power (r : Text) :
    lexeme? ('*' :: '*' :: r) = some ⟨['*', '*'], some (.sign '^')⟩ := by
  unfold lexeme?
  dsimp only
  rw [numberPart_of_head (by decide) (by decide)]
  rfl

theorem numberPart_head {c : Char} {cs : Text} (h : numberPart (c :: cs) ≠ []) :
    isDigit c = true ∨ c = '.' := by
  by_cases hd : isDigit c = true
  · exact .inl hd
  · by_cases hp : c = '.'
    · exact .inr hp
    · exact absurd (numberPart_of_head (by simpa using hd) hp) h

/-- The token can be written with this character in front. -/
def StartsWith (c : Char) : Token → Prop
  | number n => n.head? = some c ∧ (isDigit c = true ∨ c = '.')
  | name n => n.head? = some c ∧ c.isAlpha = true
  | sign d => c ∈ signs ∧ (c = d ∨ c = '*' ∧ d = '^')

/-- Every token starts with a character of its own. -/
theorem startsWith_of_lexeme? (h : lexeme? (w ++ r) = some ⟨w, some tok⟩) :
    ∃ c cs, w = c :: cs ∧ StartsWith c tok := by
  obtain ⟨c, cs, rfl⟩ := List.exists_cons_of_ne_nil (lexeme?_ne_nil h)
  refine ⟨c, cs, rfl, ?_⟩
  cases tok with
  | number n =>
    obtain ⟨rfl, hn, h⟩ := number_of_lexeme? h
    rw [List.cons_append] at h
    exact ⟨rfl, numberPart_head (h ▸ hn)⟩
  | name n =>
    obtain ⟨rfl, hn, h⟩ := name_of_lexeme? h
    rw [List.cons_append] at h
    exact ⟨rfl, isAlpha_head_of_namePart (h ▸ hn)⟩
  | sign d =>
    rcases sign_of_lexeme? h with ⟨hw, rfl⟩ | ⟨hw, hd⟩
    · obtain rfl := (List.cons.inj hw).1
      exact ⟨by decide, .inr ⟨rfl, rfl⟩⟩
    · obtain rfl := (List.cons.inj hw).1
      exact ⟨hd, .inl rfl⟩

/-! ## The characters of a token -/

theorem isBlank_of_isDigit {c : Char} (h : isDigit c = true) : isBlank c = false := by
  cases hb : isBlank c with
  | false => rfl
  | true => exact absurd (isDigit_of_isBlank hb) (by simp [h])

section Characters

variable {p : Char → Prop} (digit : ∀ c, isDigit c = true → p c) (mark : ∀ c ∈ ".eE+-".toList, p c)
include digit mark

theorem forall_mem_mantissa (t : Text) : ∀ c ∈ mantissa t, p c := by
  rcases mantissa_cases t with h | ⟨w, f, hw, hf, -, h⟩
  · exact fun c hc => digit c (h c hc)
  · rw [h]
    exact List.forall_mem_append.mpr ⟨fun c hc => digit c (hw c hc),
      List.forall_mem_cons.mpr ⟨mark '.' (by decide), fun c hc => digit c (hf c hc)⟩⟩

theorem forall_mem_exponentPart (t : Text) : ∀ c ∈ exponentPart t, p c := by
  rcases exponentPart_cases t with h | ⟨e, sgn, ds, he, hs, -, hd, h⟩
  · rw [h]
    exact fun _ hc => absurd hc List.not_mem_nil
  · rw [h]
    have hexp : p e := mark e (by rcases he with rfl | rfl <;> decide)
    have hsgn : ∀ c ∈ sgn, p c := fun c hc => mark c (by
      rcases hs with rfl | rfl | rfl
      · exact absurd hc List.not_mem_nil
      · obtain rfl := List.mem_singleton.mp hc
        decide
      · obtain rfl := List.mem_singleton.mp hc
        decide)
    exact List.forall_mem_append.mpr
      ⟨List.forall_mem_cons.mpr ⟨hexp, hsgn⟩, fun c hc => digit c (hd c hc)⟩

/-- What holds of digits and of the other marks of a number holds of every character of a number. -/
theorem forall_mem_numberPart (t : Text) : ∀ c ∈ numberPart t, p c := by
  unfold numberPart
  dsimp only
  split
  · exact fun _ hc => absurd hc List.not_mem_nil
  · exact List.forall_mem_append.mpr
      ⟨forall_mem_mantissa digit mark t, forall_mem_exponentPart digit mark _⟩

end Characters

theorem isAlphanum_of_mem_namePart {c : Char} (h : c ∈ namePart t) : c.isAlphanum = true := by
  unfold namePart at h
  split at h
  · exact absurd h List.not_mem_nil
  · split at h
    next ha =>
      rcases List.mem_cons.mp h with rfl | h
      · rw [Char.isAlphanum, ha, Bool.true_or]
      · exact of_mem_takeWhile h
    next => exact absurd h List.not_mem_nil

theorem isBlank_of_isAlphanum {c : Char} (h : c.isAlphanum = true) : isBlank c = false := by
  cases hb : isBlank c with
  | false => rfl
  | true =>
    have : c.isAlphanum = false :=
      isBlank_induction (p := fun c => c.isAlphanum = false) (by decide) hb
    exact absurd h (by simp [this])

theorem blankless_numberPart (t : Text) : Blankless (numberPart t) :=
  forall_mem_numberPart (fun _ => isBlank_of_isDigit)
    (forall_mem_of_all (p := fun c => isBlank c = false) (by decide)) t

theorem blankless_namePart (t : Text) : Blankless (namePart t) :=
  fun _ hc => isBlank_of_isAlphanum (isAlphanum_of_mem_namePart hc)

/-- **A token stands without its blanks as it stood with them.** -/
theorem blankless_of_lexeme? (h : lexeme? t = some ⟨w, some tok⟩) : Blankless w := by
  cases tok with
  | number n =>
    obtain ⟨rfl, -, h⟩ := number_of_lexeme? h
    exact h ▸ blankless_numberPart t
  | name n =>
    obtain ⟨rfl, -, h⟩ := name_of_lexeme? h
    exact h ▸ blankless_namePart t
  | sign c =>
    rcases sign_of_lexeme? h with ⟨rfl, -⟩ | ⟨rfl, hc⟩
    · exact forall_mem_of_all (p := fun c => isBlank c = false) (by decide)
    · have := forall_mem_of_all (p := fun c => isBlank c = false) (by decide) c hc
      exact Blankless.cons_iff.mpr ⟨this, .nil⟩

theorem removeBlanks_of_lexeme? (h : lexeme? (w ++ r) = some ⟨w, some tok⟩) :
    removeBlanks (w ++ r) = w ++ removeBlanks r := by
  have hw : removeBlanks w = w :=
    List.filter_eq_self.mpr fun c hc => by simp [blankless_of_lexeme? h c hc]
  rw [removeBlanks_append, hw]

theorem removeBlanks_of_blanks {b : Text} (hb : ∀ c ∈ b, isBlank c = true) :
    removeBlanks (b ++ r) = removeBlanks r := by
  have : removeBlanks b = [] := List.filter_eq_nil_iff.mpr fun c hc => by simp [hb c hc]
  rw [removeBlanks_append, this, List.nil_append]

/-! ## The next token -/

/-- A piece of blanks takes all of them. -/
theorem drop_of_blanks (h : lexeme? t = some ⟨w, none⟩) :
    t.drop w.length = t.dropWhile isBlank := by
  rcases lexeme?_cases h with ⟨s, hl⟩ | ⟨s, hl⟩ | ⟨_, c, _, hl⟩ | hl
  · exact absurd hl (by simp)
  · exact absurd hl (by simp)
  · exact absurd hl (by simp)
  · obtain ⟨rfl, -⟩ := Lexeme.mk.inj hl
    have happ : t.takeWhile isBlank ++ t.dropWhile isBlank = t := List.takeWhile_append_dropWhile
    have hdrop := congrArg (List.drop (t.takeWhile isBlank).length) happ
    rw [List.drop_left] at hdrop
    exact hdrop.symm

theorem removeBlanks_of_cuts_nil (h : Cuts t tokens) (ht : tokens = []) : removeBlanks t = [] := by
  induction h with
  | nil => rfl
  | @cons t l tokens hl _ ih =>
    obtain ⟨hn, ht⟩ := List.append_eq_nil_iff.mp ht
    obtain ⟨w, _ | tok⟩ := l
    · rw [← lexeme?_append hl, removeBlanks_of_blanks (isBlank_of_lexeme? hl)]
      exact ih ht
    · exact absurd hn (List.cons_ne_nil _ _)

/-- A text with tokens is blanks, the first token and a text with the others. -/
theorem Cuts.exists_first (h : Cuts t tokens) : ∀ {tok : Token} {toks : List Token},
    tokens = tok :: toks → ∃ b w r, t = b ++ (w ++ r) ∧ (∀ c ∈ b, isBlank c = true) ∧
      lexeme? (w ++ r) = some ⟨w, some tok⟩ ∧ Cuts r toks ∧ pieces r <:+ pieces t := by
  induction h with
  | nil => exact fun h => absurd h (by simp)
  | @cons t l tokens hl hr ih =>
    intro tok toks ht
    have happ := lexeme?_append hl
    obtain ⟨w, _ | tok'⟩ := l
    · obtain ⟨b, w', r, hbr, hb, hw, hc, hp⟩ := ih ht
      refine ⟨w ++ b, w', r, ?_, ?_, hw, hc, ?_⟩
      · rw [← happ, hbr, List.append_assoc]
      · exact List.forall_mem_append.mpr ⟨isBlank_of_lexeme? hl, hb⟩
      · rw [pieces_cons hl]
        exact hp.trans (List.suffix_cons _ _)
    · obtain ⟨rfl, rfl⟩ := List.cons.inj ht
      refine ⟨[], w, _, happ.symm, fun _ h => absurd h List.not_mem_nil, ?_, hr, ?_⟩
      · rw [happ]
        exact hl
      · rw [pieces_cons hl]
        exact List.suffix_cons _ _

/-- The first character that is no blank is that of the first token. -/
theorem Cuts.head_removeBlanks (h : Cuts r toks) {c : Char}
    (hc : (removeBlanks r).head? = some c) :
    ∃ tok, toks.head? = some tok ∧ StartsWith c tok := by
  cases toks with
  | nil =>
    rw [removeBlanks_of_cuts_nil h rfl] at hc
    exact absurd hc (by simp)
  | cons tok toks =>
    obtain ⟨b, w, r', rfl, hb, hw, -, -⟩ := h.exists_first rfl
    obtain ⟨d, ds, rfl, hd⟩ := startsWith_of_lexeme? hw
    rw [removeBlanks_of_blanks hb, removeBlanks_of_lexeme? hw] at hc
    obtain rfl := Option.some.inj hc
    exact ⟨tok, rfl, hd⟩

/-- If the text goes on with an operand, it does so without blanks. -/
def Adjoins (r : Text) (toks : List Token) : Prop :=
  ∀ u, toks.head? = some u → u.isOperand = true → (removeBlanks r).head? = r.head?

/-- Between two operands of a text that is spaced there are no blanks. -/
theorem adjoins_of_spaced (h : lexeme? (w ++ r) = some ⟨w, some tok⟩) (htok : tok.isOperand = true)
    (hr : Cuts r toks) (hs : spaced (pieces (w ++ r)) = true) : Adjoins r toks := by
  intro u hu hop
  rw [pieces_append (l := ⟨w, some tok⟩) h] at hs
  cases hr with
  | nil => rfl
  | @cons _ l tokens hl hr =>
    obtain ⟨b, _ | tok'⟩ := l
    · -- A piece of blanks would have an operand on either side.
      exfalso
      rw [pieces_cons hl] at hs
      have hdrop := drop_of_blanks hl
      dsimp only at hr hs
      rw [hdrop] at hr hs
      have hhead := head_of_dropWhile (p := isBlank) r
      generalize r.dropWhile isBlank = r' at hr hs hhead
      cases hr with
      | nil => exact absurd hu (by simp)
      | @cons _ l tokens hl' hr =>
        obtain ⟨b', _ | tok''⟩ := l
        · obtain ⟨c, cs, hc⟩ := List.exists_cons_of_ne_nil (lexeme?_ne_nil hl')
          have hnot := hhead c
          rw [← lexeme?_append hl', hc] at hnot
          have hblank := isBlank_of_lexeme? hl' c (hc.symm.subst List.mem_cons_self)
          exact absurd (hnot rfl) (by simp [hblank])
        · obtain rfl := Option.some.inj hu
          rw [pieces_cons hl'] at hs
          simp [spaced, Lexeme.isOperand, htok, hop] at hs
    · obtain ⟨c, cs, hc⟩ := List.exists_cons_of_ne_nil (lexeme?_ne_nil hl)
      have happ := lexeme?_append hl
      have hrem := removeBlanks_of_lexeme? (happ.symm ▸ hl)
      rw [happ] at hrem
      rw [hrem, ← happ, hc]
      rfl

end Token

end Stepwise
