import Mathlib.Data.List.Forall2
import Stepwise.Proofs.RoundTrip
import Stepwise.Proofs.Spelling
import Stepwise.Proofs.Splice
import Stepwise.Value.Operand

/-!
# Values as operands

A text is `Written` as a tree if it is read as the tree and every product in it is written out;
blanks and the spelling of `^` are free. Such texts can be put together: an operation of two of
them is written as the operation of their trees if both are operands (`Grammar.Primary`), and a call
needs nothing more than a function.

A value is `Readable` if its text is written as a tree, and the tree is an operand unless the value
binds loosely, so that parentheses are put around it.

Results: `readable_int`, `readable_float` and `readable_text`, the values that are readable;
`Readable.operand`, the text of a readable value as an operand is an operand, with one pair of
parentheses more or none; and `written_operation` and `written_call`.
-/

namespace Stepwise

open Text Token Stepwise.Tree Grammar

variable {F : List Text} {w : Text} {t l r : Tree} {v : Value}

/-! ## Texts in which every product is written out -/

/-- The text is that of the tree, perhaps with other blanks. -/
structure Written (F : List Text) (w : Text) (t : Tree) : Prop where
  cuts : Cuts w t.tokens
  derives : Derives F t.tokens t

theorem Written.read (h : Written F w t) : Tree.read F w = .ok t := by
  rw [Tree.read, scan_eq_ok.mpr h.cuts, ok_bind]
  exact ofTokens?_eq_ok.mpr h.derives

theorem written_of_read (hs : Token.scan w = .ok t.tokens) (hr : Tree.read F w = .ok t) :
    Written F w t where
  cuts := scan_eq_ok.mp hs
  derives := by
    rw [Tree.read, hs, ok_bind] at hr
    exact ofTokens?_eq_ok.mp hr

theorem written_text (hw : ∀ tok ∈ t.tokens, WellSpelled tok) (h : Derives F t.tokens t) :
    Written F t.text t where
  cuts := by
    have := cuts_text t hw ⟨rfl, rfl⟩ .nil
    rwa [List.append_nil, List.append_nil] at this
  derives := h

theorem cuts_close : Cuts [')'] [.sign ')'] := cuts_sign (by decide) (by decide) .nil

theorem derives_of_primary (h : Primary F t.tokens [] t) : Derives F t.tokens t :=
  .one (.one (.bare (.bare h)))

/-- A sum that is neither an operation nor a negation is an operand. -/
theorem primary_of_ne {ts us : List Token} (h : Additive F ts us t)
    (operation : ∀ op l r, t ≠ .operation op l r) (negation : ∀ u, t ≠ .negation u) :
    Primary F ts us t := by
  cases h with
  | more => exact absurd rfl (operation _ _ _)
  | one h =>
    cases h with
    | more => exact absurd rfl (operation _ _ _)
    | implied => exact absurd rfl (operation _ _ _)
    | one h =>
      cases h with
      | minus => exact absurd rfl (negation _)
      | bare h =>
        cases h with
        | raised => exact absurd rfl (operation _ _ _)
        | bare h => exact h

/-- What has no operator sign is an operand. -/
theorem primary_of_additive {ts us : List Token} (h : Additive F ts us t)
    (none : ∀ op : Operator, .sign op.sign ∉ t.tokens) : Primary F ts us t := by
  refine primary_of_ne h ?_ ?_
  · rintro op l r rfl
    exact none op (by simp [tokens])
  · rintro u rfl
    exact none .minus (by simp [tokens, Operator.sign])

/-- A text without loose characters is written as an operand. -/
theorem Written.primary (h : Written F w t) (hl : w.any Value.looseCharacters.contains = false) :
    Primary F t.tokens [] t := by
  refine primary_of_additive h.derives fun op hm => ?_
  have tight : ∀ c ∈ w, c ∉ Value.looseCharacters := by
    intro c hc hm
    have := List.any_eq_true.mpr ⟨c, hc, List.contains_iff_mem.mpr hm⟩
    exact absurd (this.symm.trans hl) (by simp)
  rcases h.cuts.mem_of_sign_mem hm with hc | ⟨_, hc⟩
  · refine tight _ hc ?_
    cases op <;> decide
  · exact tight _ hc (by decide)

/-! ## Readable values -/

namespace Value

/-- The text of the value is written as a tree, and as an operand where no parentheses are put
around it. -/
def Readable (F : List Text) (v : Value) : Prop :=
  ∃ w t, v.display = .ok w ∧ Written F w t ∧
    (v.bindsLoosely w = false → Primary F t.tokens [] t)

theorem readable_primary (hd : v.display = .ok t.text)
    (hw : ∀ tok ∈ t.tokens, WellSpelled tok) (hp : Primary F t.tokens [] t) : Readable F v :=
  ⟨t.text, t, hd, written_text hw (derives_of_primary hp), fun _ => hp⟩

theorem readable_negation (hd : v.display = .ok ('-' :: t.text)) (hb : ∀ w, v.bindsLoosely w = true)
    (hw : ∀ tok ∈ t.tokens, WellSpelled tok) (hp : Primary F t.tokens [] t) : Readable F v := by
  have hw' : ∀ tok ∈ (negation t).tokens, WellSpelled tok := by
    rw [tokens]
    exact List.forall_mem_cons.mpr ⟨(by decide : '-' ∈ signs), hw⟩
  have hn : Derives F (negation t).tokens (negation t) := by
    rw [tokens]
    exact .one (.one (.minus (.bare (.bare hp))))
  refine ⟨(negation t).text, negation t, ?_, written_text hw' hn, ?_⟩
  · rw [hd, Tree.text]
  · rw [hb]
    exact fun h => absurd h (by decide)

theorem wellSpelled_constant {n : Numeral} {s : Text} (h : WellSpelled (.number s)) :
    ∀ tok ∈ (constant n s).tokens, WellSpelled tok := by
  rw [tokens]
  exact List.forall_mem_singleton.mpr h

theorem primary_constant {n : Numeral} {s : Text} (h : Numeral.ofSpelling s = .ok n) :
    Primary F (constant n s).tokens [] (constant n s) := by
  rw [tokens]
  exact .number h

/-- A number or a name. -/
inductive Leaf : Tree → Prop
  | constant {n : Numeral} {s : Text} (hs : WellSpelled (.number s))
      (h : Numeral.ofSpelling s = .ok n) : Leaf (.constant n s)
  | name {s : Text} (hs : WellSpelled (.name s)) : Leaf (.name s)

theorem Leaf.wellSpelled (h : Leaf t) : ∀ tok ∈ t.tokens, WellSpelled tok := by
  cases h with
  | constant hs => exact wellSpelled_constant hs
  | name hs =>
    rw [tokens]
    exact List.forall_mem_singleton.mpr hs

theorem Leaf.primary (F : List Text) (h : Leaf t) : Primary F t.tokens [] t := by
  cases h with
  | constant _ h => exact primary_constant h
  | name =>
    rw [tokens]
    exact .name fun h => absurd h.2 (by simp)

/-- The text of a double is a minus sign or none, and a number or a name. -/
theorem text_float (x : Binary64) :
    ∃ t : Tree, x.text = (if x.isNegative then ['-'] else []) ++ t.text ∧ Leaf t := by
  cases x with
  | finite negative s e canonical =>
    have hr := isDecimal_render (if s = 0 then ⟨0, 0⟩ else Binary64.shortest s e)
    obtain ⟨n, hn⟩ := exists_ofSpelling hr
    exact ⟨.constant n _, rfl, .constant hr.1 hn⟩
  | infinite negative =>
    refine ⟨.name "inf".toList, ?_, .name ⟨by decide, by decide⟩⟩
    cases negative <;> rfl
  | nan => exact ⟨.name "nan".toList, rfl, .name ⟨by decide, by decide⟩⟩

/-- An integer or a double that is no negative zero. -/
def IsNumber : Value → Prop
  | .int _ => True
  | .float x => x ≠ .zero true
  | _ => False

instance : DecidablePred IsNumber
  | .int _ => .isTrue trivial
  | .float x => inferInstanceAs (Decidable (x ≠ .zero true))
  | .null | .bool _ | .text _ | .list _ | .record _ => .isFalse id

theorem IsNumber.bindsLoosely (h : v.IsNumber) (w : Text) :
    v.bindsLoosely w = v.isBelowZero := by
  cases v with
  | int | float => rfl
  | _ => exact absurd h id

/-- **The text of a number** is a minus sign if it is below zero, and a number or a name. -/
theorem IsNumber.exists_leaf (h : v.IsNumber) (hd : v.display = .ok w) :
    ∃ t : Tree, w = (if v.isBelowZero then ['-'] else []) ++ t.text ∧ Leaf t := by
  cases v with
  | int n =>
    have bound : n.natAbs < 10 ^ Fault.digitLimit := by
      change integerText n = .ok w at hd
      unfold integerText at hd
      split at hd
      · cases hd
      next hb => exact Nat.not_le.mp hb
    obtain ⟨m, hm⟩ := exists_ofSpelling_ofNat bound
    have spelled := wellSpelled_digits (allDigits_ofNat n.natAbs) (ofNat_ne_nil n.natAbs)
    refine ⟨.constant m (ofNat n.natAbs), ?_, .constant spelled hm⟩
    rw [← Except.ok.inj ((display_int bound).symm.trans hd)]
    cases n with
    | ofNat n => simp [isBelowZero, Tree.text, ofInt]
    | negSucc n => simp [isBelowZero, Tree.text, ofInt]
  | float x =>
    obtain ⟨t, ht, hl⟩ := text_float x
    rw [isBelowZero, Binary64.isBelowZero_eq h]
    exact ⟨t, (Except.ok.inj hd).symm.trans ht, hl⟩
  | _ => exact absurd h id

theorem IsNumber.readable (h : v.IsNumber) (hd : v.display = .ok w) : Readable F v := by
  obtain ⟨t, rfl, hl⟩ := h.exists_leaf hd
  cases hb : v.isBelowZero with
  | false =>
    rw [hb] at hd
    exact readable_primary hd hl.wellSpelled (hl.primary F)
  | true =>
    rw [hb] at hd
    exact readable_negation hd (fun w => (h.bindsLoosely w).trans hb) hl.wellSpelled (hl.primary F)

theorem readable_int {n : Int} (h : n.natAbs < 10 ^ Fault.digitLimit) : Readable F (.int n) :=
  IsNumber.readable (v := .int n) trivial (display_int h)

theorem readable_float {x : Binary64} (h : x ≠ .zero true) : Readable F (.float x) :=
  IsNumber.readable (v := .float x) h rfl

theorem readable_text (h : Written F w t) : Readable F (.text w) :=
  ⟨w, t, rfl, h, h.primary⟩

/-- The tree of a value's text. -/
def Shows (F : List Text) (v : Value) (t : Tree) : Prop :=
  ∃ w, v.display = .ok w ∧ Tree.read F w = .ok t

/-! ## Operands -/

/-- The value shows a tree, and its text as an operand is written as this tree, bare or in one pair
of parentheses. -/
theorem Readable.operand (h : Readable F v) (hw : v.operand = .ok w) :
    ∃ t t', Shows F v t ∧ (t' = t ∨ t' = .parenthesis t) ∧ Cuts w t'.tokens ∧
      Primary F t'.tokens [] t' := by
  obtain ⟨u, t, hd, hu, hp⟩ := h
  rw [Value.operand, hd, ok_bind] at hw
  have hw := Except.ok.inj hw
  have shows : Shows F v t := ⟨u, hd, hu.read⟩
  by_cases hb : v.bindsLoosely u = true
  · rw [if_pos hb] at hw
    refine ⟨t, .parenthesis t, shows, .inr rfl, ?_, ?_⟩
    · rw [← hw, tokens]
      have inside := hu.cuts.splice (breaks_cons (by decide) []) cuts_close
      exact cuts_sign (by decide) (by decide) inside
    · rw [tokens]
      exact .parenthesis (hu.derives.reprint (noOpening_sign [] (by decide)))
  · rw [if_neg hb] at hw
    refine ⟨t, t, shows, .inl rfl, hw ▸ hu.cuts, hp ?_⟩
    simpa using hb

end Value

/-! ## Operations and calls -/

theorem derives_operation (op : Operator) (hl : Primary F l.tokens [] l)
    (hr : Primary F r.tokens [] r) : Derives F (operation op l r).tokens (operation op l r) := by
  have hl : Primary F (l.tokens ++ .sign op.sign :: r.tokens) (.sign op.sign :: r.tokens) l :=
    hl.reprint (noOpening_operator op _)
  rw [tokens]
  -- The operands stand at the tightest level, and so at that of every operator.
  cases op with
  | plus => exact .more (.inl rfl) (.one (.one (.bare (.bare hl)))) (.one (.bare (.bare hr)))
  | minus => exact .more (.inr rfl) (.one (.one (.bare (.bare hl)))) (.one (.bare (.bare hr)))
  | times => exact .one (.more (.inl rfl) (.one (.bare (.bare hl))) (.bare (.bare hr)))
  | dividedBy => exact .one (.more (.inr rfl) (.one (.bare (.bare hl))) (.bare (.bare hr)))
  | power => exact .one (.one (.bare (.raised hl (.bare (.bare hr)))))

theorem written_operation {x y : Text} (op : Operator) (hx : Cuts x l.tokens)
    (hl : Primary F l.tokens [] l) (hy : Cuts y r.tokens) (hr : Primary F r.tokens [] r) :
    Written F (x ++ [' ', op.sign, ' '] ++ y) (.operation op l r) where
  cuts := by
    rw [tokens, List.append_assoc]
    exact hx.splice (breaks_cons (by decide) _) (cuts_operator hy)
  derives := derives_operation op hl hr

/-- Texts with commas between them are cut one by one. -/
theorem cuts_joined {ws : List Text} {ts : List Tree} (h : List.Forall₂ (Written F) ws ts)
    {rest : Text} {toks : List Token} (hr : Breaks rest) (hc : Cuts rest toks) :
    Cuts (joinWith ", ".toList ws ++ rest) (argumentTokens ts ++ toks) := by
  induction h with
  | nil => exact hc
  | @cons w t ws ts hw h ih =>
    cases h with
    | nil =>
      rw [argumentTokens]
      exact hw.cuts.splice hr hc
    | cons hw' h =>
      have comma := cuts_sign (c := ',') (by decide) (by decide) (.blank (c := ' ') (by decide) ih)
      rw [argumentTokens_cons _ (List.cons_ne_nil _ _), List.append_assoc,
        cuts_joinWith_cons (List.cons_ne_nil _ _)]
      exact hw.cuts.splice (breaks_cons (by decide) _) comma

theorem arguments_joined {ws : List Text} {ts : List Tree} (h : List.Forall₂ (Written F) ws ts)
    (hne : ts ≠ []) {vs : List Token} (hv : NoOpening vs) :
    Arguments F (argumentTokens ts ++ vs) vs ts := by
  induction h with
  | nil => exact absurd rfl hne
  | @cons w t ws ts hw h ih =>
    cases h with
    | nil =>
      rw [argumentTokens]
      exact .last (hw.derives.reprint hv)
    | cons hw' h =>
      rw [argumentTokens_cons _ (List.cons_ne_nil _ _), List.append_assoc]
      exact .more (hw.derives.reprint (noOpening_sign _ (by decide))) (ih (List.cons_ne_nil _ _))

theorem written_call {f : Text} {ws : List Text} {ts : List Tree} (hf : f ∈ F)
    (hs : WellSpelled (.name f)) (h : List.Forall₂ (Written F) ws ts) (hne : ts ≠ []) :
    Written F (f ++ '(' :: joinWith ", ".toList ws ++ [')']) (.call f ts) where
  cuts := by
    have inside := cuts_sign (c := '(') (by decide) (by decide)
      (cuts_joined h (breaks_cons (by decide) []) cuts_close)
    rw [tokens, List.append_assoc]
    exact Cuts.append (lexeme?_name hs rfl) inside
  derives := derives_of_primary (by
    rw [tokens]
    exact .call hf (arguments_joined h hne (noOpening_sign [] (by decide))))

end Stepwise
