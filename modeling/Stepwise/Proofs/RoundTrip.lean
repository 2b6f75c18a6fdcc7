import Stepwise.Proofs.Lexing
import Stepwise.Proofs.Reading

/-!
# Writing a tree and reading it again

`Tree.text` adds no parenthesis, so that a tree is read back only because the reader built it:
each operand stands at a level of the grammar where it needs none. `Tree.tokens` are the tokens of
a written tree. A tree that is derived from some tokens is derived from its own ones too, at the
same level (`Additive.reprint` and its siblings), and its text is cut into them
(`cuts_text`, if they are well spelled).

Result: `read_text`, a tree that was read is read again from its text.
-/

namespace Stepwise

open Text Token Stepwise.Tree Grammar

variable {F : List Text}

namespace Tree

mutual

/-- The tokens of a written expression. -/
def tokens : Tree → List Token
  | constant _ spelling => [.number spelling]
  | name spelling => [.name spelling]
  | negation operand => .sign '-' :: operand.tokens
  | operation op left right => left.tokens ++ .sign op.sign :: right.tokens
  | parenthesis content => .sign '(' :: content.tokens ++ [.sign ')']
  | call function arguments =>
    .name function :: .sign '(' :: argumentTokens arguments ++ [.sign ')']

/-- The tokens of written arguments, with commas between them. -/
def argumentTokens : List Tree → List Token
  | [] => []
  | [t] => t.tokens
  | t :: u :: ts => t.tokens ++ .sign ',' :: argumentTokens (u :: ts)

end

theorem argumentTokens_cons (t : Tree) {ts : List Tree} (h : ts ≠ []) :
    argumentTokens (t :: ts) = t.tokens ++ .sign ',' :: argumentTokens ts := by
  cases ts with
  | nil => exact absurd rfl h
  | cons u ts => rw [argumentTokens]

theorem sign_mem_signs (op : Operator) : op.sign ∈ signs := by
  cases op <;> decide

theorem wellSpelled_operation {op : Operator} {l r : Tree}
    (hl : ∀ tok ∈ l.tokens, WellSpelled tok) (hr : ∀ tok ∈ r.tokens, WellSpelled tok) :
    ∀ tok ∈ (operation op l r).tokens, WellSpelled tok := by
  rw [tokens]
  exact List.forall_mem_append.mpr ⟨hl, List.forall_mem_cons.mpr ⟨sign_mem_signs op, hr⟩⟩

theorem wellSpelled_enclosed {ts : List Token} (h : ∀ tok ∈ ts, WellSpelled tok) :
    ∀ tok ∈ .sign '(' :: ts ++ [.sign ')'], WellSpelled tok := by
  refine List.forall_mem_append.mpr ⟨List.forall_mem_cons.mpr ⟨?_, h⟩, ?_⟩
  · exact (by decide : '(' ∈ signs)
  · exact List.forall_mem_singleton.mpr (by decide : ')' ∈ signs)

/-! ## A tree is derived from its own tokens -/

/-- No parenthesis opens here, so that a name in front is no head of a call. -/
def NoOpening (ts : List Token) : Prop := ts.head? ≠ some (.sign '(')

theorem noOpening_sign {c : Char} (ts : List Token) (h : c ≠ '(') : NoOpening (.sign c :: ts) :=
  fun h' => h (Token.sign.inj (Option.some.inj h'))

theorem noOpening_operator (op : Operator) (ts : List Token) :
    NoOpening (.sign op.sign :: ts) := by
  refine noOpening_sign ts ?_
  cases op <;> decide

end Tree

namespace Grammar

theorem Arguments.ne_nil {ts us : List Token} {args : List Tree} (h : Arguments F ts us args) :
    args ≠ [] := by
  cases h <;> exact List.cons_ne_nil _ _

mutual

/-- A sum is derived from its own tokens, in front of whatever opens no parenthesis. -/
theorem Additive.reprint : ∀ {ts us : List Token} {t : Tree}, Additive F ts us t →
    ∀ {vs : List Token}, NoOpening vs → Additive F (t.tokens ++ vs) vs t
  | _, _, _, .one h, _, hv => .one (h.reprint hv)
  | _, _, _, .more hop hl hr, vs, hv => by
    rw [tokens, List.append_assoc, List.cons_append]
    exact .more hop (hl.reprint (noOpening_operator _ _)) (hr.reprint hv)

theorem Multiplicative.reprint : ∀ {ts us : List Token} {t : Tree}, Multiplicative F ts us t →
    ∀ {vs : List Token}, NoOpening vs → Multiplicative F (t.tokens ++ vs) vs t
  | _, _, _, .one h, _, hv => .one (h.reprint hv)
  | _, _, _, .more hop hl hr, vs, hv => by
    rw [tokens, List.append_assoc, List.cons_append]
    exact .more hop (hl.reprint (noOpening_operator _ _)) (hr.reprint hv)
  | _, _, _, .implied hl _ hr, vs, hv => by
    -- The sign that was left out is written.
    rw [tokens, List.append_assoc, List.cons_append]
    exact .more (.inl rfl) (hl.reprint (noOpening_operator .times _)) (hr.reprint hv)

theorem Signed.reprint : ∀ {ts us : List Token} {t : Tree}, Signed F ts us t →
    ∀ {vs : List Token}, NoOpening vs → Signed F (t.tokens ++ vs) vs t
  | _, _, _, .minus h, vs, hv => by
    rw [tokens, List.cons_append]
    exact .minus (h.reprint hv)
  | _, _, _, .bare h, _, hv => .bare (h.reprint hv)

theorem Power.reprint : ∀ {ts us : List Token} {t : Tree}, Power F ts us t →
    ∀ {vs : List Token}, NoOpening vs → Power F (t.tokens ++ vs) vs t
  | _, _, _, .bare h, _, hv => .bare (h.reprint hv)
  | _, _, _, .raised hb he, vs, hv => by
    rw [tokens, List.append_assoc, List.cons_append]
    exact .raised (hb.reprint (noOpening_operator .power _)) (he.reprint hv)

theorem Primary.reprint : ∀ {ts us : List Token} {t : Tree}, Primary F ts us t →
    ∀ {vs : List Token}, NoOpening vs → Primary F (t.tokens ++ vs) vs t
  | _, _, _, .number h, vs, _ => by
    rw [tokens, List.singleton_append]
    exact .number h
  | _, _, _, .name _, vs, hv => by
    rw [tokens, List.singleton_append]
    exact .name fun h' => hv h'.2
  | _, _, _, .call hs h, vs, _ => by
    rw [tokens, List.cons_append, List.cons_append, List.append_assoc]
    exact .call hs (h.reprint (noOpening_sign _ (by decide)))
  | _, _, _, .parenthesis h, vs, _ => by
    rw [tokens, List.cons_append, List.cons_append, List.append_assoc]
    exact .parenthesis (h.reprint (noOpening_sign _ (by decide)))

theorem Arguments.reprint : ∀ {ts us : List Token} {args : List Tree}, Arguments F ts us args →
    ∀ {vs : List Token}, NoOpening vs → Arguments F (argumentTokens args ++ vs) vs args
  | _, _, _, .last h, vs, hv => by
    rw [argumentTokens]
    exact .last (h.reprint hv)
  | _, _, _, .more h hs, vs, hv => by
    rw [argumentTokens_cons _ hs.ne_nil, List.append_assoc, List.cons_append]
    exact .more (h.reprint (noOpening_sign _ (by decide))) (hs.reprint hv)

end

/-! ## A tree takes its tokens from those it was read from -/

mutual

/-- A sum is well spelled if the tokens are that it is derived from. -/
theorem Additive.wellSpelled : ∀ {ts us : List Token} {t : Tree}, Additive F ts us t →
    (∀ tok ∈ ts, WellSpelled tok) → ∀ tok ∈ t.tokens, WellSpelled tok
  | _, _, _, .one h, hw => h.wellSpelled hw
  | _, _, _, .more _ hl hr, hw => by
    have hus := fun tok hm => hw tok (hl.after.of_cons.suffix.subset hm)
    exact wellSpelled_operation (hl.wellSpelled hw) (hr.wellSpelled hus)

theorem Multiplicative.wellSpelled : ∀ {ts us : List Token} {t : Tree}, Multiplicative F ts us t →
    (∀ tok ∈ ts, WellSpelled tok) → ∀ tok ∈ t.tokens, WellSpelled tok
  | _, _, _, .one h, hw => h.wellSpelled hw
  | _, _, _, .more _ hl hr, hw => by
    have hus := fun tok hm => hw tok (hl.after.of_cons.suffix.subset hm)
    exact wellSpelled_operation (hl.wellSpelled hw) (hr.wellSpelled hus)
  | _, _, _, .implied hl _ hr, hw => by
    have hus := fun tok hm => hw tok (hl.after.suffix.subset hm)
    exact wellSpelled_operation (hl.wellSpelled hw) (hr.wellSpelled hus)

theorem Signed.wellSpelled : ∀ {ts us : List Token} {t : Tree}, Signed F ts us t →
    (∀ tok ∈ ts, WellSpelled tok) → ∀ tok ∈ t.tokens, WellSpelled tok
  | _, _, _, .minus h, hw => by
    obtain ⟨hs, hw⟩ := List.forall_mem_cons.mp hw
    rw [tokens]
    exact List.forall_mem_cons.mpr ⟨hs, h.wellSpelled hw⟩
  | _, _, _, .bare h, hw => h.wellSpelled hw

theorem Power.wellSpelled : ∀ {ts us : List Token} {t : Tree}, Power F ts us t →
    (∀ tok ∈ ts, WellSpelled tok) → ∀ tok ∈ t.tokens, WellSpelled tok
  | _, _, _, .bare h, hw => h.wellSpelled hw
  | _, _, _, .raised hb he, hw => by
    have hus := fun tok hm => hw tok (hb.after.of_cons.suffix.subset hm)
    exact wellSpelled_operation (hb.wellSpelled hw) (he.wellSpelled hus)

theorem Primary.wellSpelled : ∀ {ts us : List Token} {t : Tree}, Primary F ts us t →
    (∀ tok ∈ ts, WellSpelled tok) → ∀ tok ∈ t.tokens, WellSpelled tok
  | _, _, _, .number _, hw => by
    rw [tokens]
    exact List.forall_mem_singleton.mpr (hw _ List.mem_cons_self)
  | _, _, _, .name _, hw => by
    rw [tokens]
    exact List.forall_mem_singleton.mpr (hw _ List.mem_cons_self)
  | _, _, _, .call _ h, hw => by
    obtain ⟨hs, hw⟩ := List.forall_mem_cons.mp hw
    obtain ⟨-, hw⟩ := List.forall_mem_cons.mp hw
    rw [tokens]
    exact List.forall_mem_cons.mpr ⟨hs, wellSpelled_enclosed (h.wellSpelled hw)⟩
  | _, _, _, .parenthesis h, hw => by
    rw [tokens]
    exact wellSpelled_enclosed (h.wellSpelled (List.forall_mem_cons.mp hw).2)

theorem Arguments.wellSpelled : ∀ {ts us : List Token} {args : List Tree},
    Arguments F ts us args → (∀ tok ∈ ts, WellSpelled tok) →
      ∀ tok ∈ argumentTokens args, WellSpelled tok
  | _, _, _, .last h, hw => by
    rw [argumentTokens]
    exact h.wellSpelled hw
  | _, _, _, .more h hs, hw => by
    have hus := fun tok hm => hw tok (h.after.of_cons.suffix.subset hm)
    rw [argumentTokens_cons _ hs.ne_nil]
    refine List.forall_mem_append.mpr ⟨h.wellSpelled hw, ?_⟩
    exact List.forall_mem_cons.mpr ⟨(by decide : ',' ∈ signs), hs.wellSpelled hus⟩

end

end Grammar

namespace Tree

/-! ## The text of a tree is cut into its tokens -/

/-- Whatever stands in front, a number or a name ends here. -/
def Stops (r : Text) : Prop := endsNumber r = true ∧ endsName r = true

theorem cuts_sign {c : Char} {r : Text} {toks : List Token} (hc : c ∈ signs) (hs : c ≠ '*')
    (h : Cuts r toks) : Cuts (c :: r) (.sign c :: toks) :=
  Cuts.append (w := [c]) (lexeme?_sign hc fun h' => absurd h' hs) h

theorem cuts_operator {op : Operator} {r : Text} {toks : List Token} (h : Cuts r toks) :
    Cuts (' ' :: op.sign :: ' ' :: r) (.sign op.sign :: toks) := by
  refine .blank (by decide) ?_
  refine Cuts.append (w := [op.sign]) (lexeme?_sign (sign_mem_signs op) fun _ => ?_)
    (.blank (by decide) h)
  exact fun h' => absurd (Option.some.inj h') (by decide)

theorem cuts_joinWith_cons {t : Text} {ts : List Text} {r : Text} (h : ts ≠ []) :
    joinWith ", ".toList (t :: ts) ++ r = t ++ ',' :: ' ' :: (joinWith ", ".toList ts ++ r) := by
  cases ts with
  | nil => exact absurd rfl h
  | cons u ts => simp [joinWith]

mutual

/-- **The text of a well-spelled tree is cut into its tokens**, in front of whatever ends numbers
and names. -/
theorem cuts_text : ∀ (t : Tree) {r : Text} {toks : List Token},
    (∀ tok ∈ t.tokens, WellSpelled tok) → Stops r → Cuts r toks →
      Cuts (t.text ++ r) (t.tokens ++ toks)
  | .constant _ s, r, toks, hw, hr, h => by
    rw [tokens] at hw
    exact Cuts.append (lexeme?_number (List.forall_mem_singleton.mp hw) hr.1) h
  | .name s, r, toks, hw, hr, h => by
    rw [tokens] at hw
    exact Cuts.append (lexeme?_name (List.forall_mem_singleton.mp hw) hr.2) h
  | .negation t, r, toks, hw, hr, h => by
    rw [tokens] at hw
    exact cuts_sign (by decide) (by decide)
      (cuts_text t (List.forall_mem_cons.mp hw).2 hr h)
  | .operation op l t, r, toks, hw, hr, h => by
    rw [tokens] at hw ⊢
    obtain ⟨hl, ht⟩ := List.forall_mem_append.mp hw
    have hcut : Cuts (' ' :: op.sign :: ' ' :: (t.text ++ r)) _ :=
      cuts_operator (cuts_text t (List.forall_mem_cons.mp ht).2 hr h)
    rw [text, List.append_assoc, List.append_assoc, List.append_assoc]
    exact cuts_text l hl ⟨rfl, rfl⟩ hcut
  | .parenthesis t, r, toks, hw, _, h => by
    rw [tokens] at hw ⊢
    have ht := (List.forall_mem_append.mp (List.forall_mem_cons.mp hw).2).1
    have hclose := cuts_sign (c := ')') (by decide) (by decide) h
    rw [text, List.cons_append, List.append_assoc, List.cons_append, List.append_assoc]
    exact cuts_sign (by decide) (by decide) (cuts_text t ht ⟨rfl, rfl⟩ hclose)
  | .call f args, r, toks, hw, _, h => by
    rw [tokens] at hw ⊢
    obtain ⟨hf, hw⟩ := List.forall_mem_cons.mp hw
    have hargs := (List.forall_mem_append.mp (List.forall_mem_cons.mp hw).2).1
    have hclose := cuts_sign (c := ')') (by decide) (by decide) h
    have hopen := cuts_sign (c := '(') (by decide) (by decide)
      (cuts_texts args hargs ⟨rfl, rfl⟩ hclose)
    have hcut := Cuts.append (lexeme?_name hf rfl) hopen
    simpa [text] using hcut

theorem cuts_texts : ∀ (ts : List Tree) {r : Text} {toks : List Token},
    (∀ tok ∈ argumentTokens ts, WellSpelled tok) → Stops r → Cuts r toks →
      Cuts (joinWith ", ".toList (texts ts) ++ r) (argumentTokens ts ++ toks)
  | [], _, _, _, _, h => h
  | [t], r, toks, hw, hr, h => by
    rw [argumentTokens] at hw ⊢
    exact cuts_text t hw hr h
  | t :: u :: ts, r, toks, hw, hr, h => by
    rw [argumentTokens] at hw ⊢
    obtain ⟨ht, hts⟩ := List.forall_mem_append.mp hw
    have hcut := cuts_texts (u :: ts) (List.forall_mem_cons.mp hts).2 hr h
    have hcomma := cuts_sign (c := ',') (by decide) (by decide) (.blank (c := ' ') (by decide) hcut)
    rw [texts, cuts_joinWith_cons (by simp [texts]), List.append_assoc]
    exact cuts_text t ht ⟨rfl, rfl⟩ hcomma

end

/-! ## The round trip -/

/-- **A tree that was read is read again from its text**, with the same grouping, spellings and
values. -/
theorem read_text {t : Text} {tree : Tree} (h : read F t = .ok tree) :
    read F tree.text = .ok tree := by
  obtain ⟨tokens, hs, h⟩ := bind_eq_ok.mp h
  have hd : Additive F tokens [] tree := ofTokens?_eq_ok.mp h
  have hw := hd.wellSpelled (scan_eq_ok.mp hs).wellSpelled
  have hcut := cuts_text tree hw ⟨rfl, rfl⟩ .nil
  rw [List.append_nil, List.append_nil] at hcut
  have hre : Additive F (tree.tokens ++ []) [] tree := hd.reprint (by simp [NoOpening])
  rw [List.append_nil] at hre
  rw [read, scan_eq_ok.mpr hcut, ok_bind]
  exact ofTokens?_eq_ok.mpr hre

/-- The tree of `-2(x)^y`. -/
def impliedProduct : Tree :=
  .operation .times (.negation (.constant (.whole 2) ['2']))
    (.operation .power (.parenthesis (.name ['x'])) (.name ['y']))

/-- The round trip of `-2(x)^y`, whose product is written out. -/
theorem read_text_impliedProduct :
    read defaultFunctions "-2(x)^y".toList = .ok impliedProduct ∧
      read defaultFunctions "-2 * (x) ^ y".toList = .ok impliedProduct := by
  have hs : Token.scan "-2(x)^y".toList = .ok [.sign '-', .number ['2'], .sign '(', .name ['x'],
      .sign ')', .sign '^', .name ['y']] := by rfl
  have minus : Signed defaultFunctions [.sign '-', .number ['2'], .sign '(', .name ['x'],
      .sign ')', .sign '^', .name ['y']]
      [.sign '(', .name ['x'], .sign ')', .sign '^', .name ['y']]
      (.negation (.constant (.whole 2) ['2'])) := .minus (.bare (.bare (.number rfl)))
  have content : Additive defaultFunctions [.name ['x'], .sign ')', .sign '^', .name ['y']]
      [.sign ')', .sign '^', .name ['y']] (.name ['x']) :=
    .one (.one (.bare (.bare (.name (by decide)))))
  have power : Signed defaultFunctions
      [.sign '(', .name ['x'], .sign ')', .sign '^', .name ['y']] []
      (.operation .power (.parenthesis (.name ['x'])) (.name ['y'])) :=
    .bare (.raised (.parenthesis content) (.bare (.bare (.name (by decide)))))
  have h : read defaultFunctions "-2(x)^y".toList = .ok impliedProduct := by
    rw [read, hs, ok_bind]
    exact ofTokens?_eq_ok.mpr (.one (.implied (.one minus) rfl power))
  have ht : impliedProduct.text = "-2 * (x) ^ y".toList := by rfl
  exact ⟨h, ht ▸ read_text h⟩

end Tree

end Stepwise
