import Stepwise.Proofs.RoundTrip

/-!
# What a tree keeps of the tokens it is read from

The signs of an expression are its shape, which a tree has in other ways; a sign that was left out
comes back. The numbers and names are kept one by one (`Additive.operands`, and for a whole list
`Derives.operands`). And the shape does not allow every sign behind every other: a factor follows a
`*`, so that no `*` and no `^` does (`Derives.starsApart`).
-/

namespace Stepwise

open Stepwise.Tree Grammar

variable {F : List Text}

namespace Token

/-- Is this a number or a name? -/
def isOperand : Token → Bool
  | sign _ => false
  | _ => true

/-- The numbers and names among the tokens. -/
def operands (tokens : List Token) : List Token := tokens.filter isOperand

theorem operands_append (ts us : List Token) :
    operands (ts ++ us) = operands ts ++ operands us := List.filter_append ts us

theorem operands_sign (c : Char) (ts : List Token) : operands (.sign c :: ts) = operands ts := rfl

theorem operands_operation (op : Operator) (l r : Tree) :
    operands (Tree.operation op l r).tokens = operands l.tokens ++ operands r.tokens := by
  rw [tokens, operands_append, operands_sign]

theorem operands_enclosed (ts : List Token) :
    operands (.sign '(' :: ts ++ [.sign ')']) = operands ts := by
  rw [List.cons_append, operands_sign, operands_append, operands_sign]
  exact List.append_nil _

/-- No `*` and no `^` stands behind a `*`. -/
def StarsApart : List Token → Prop
  | a :: b :: ts => (a = .sign '*' → b ≠ .sign '*' ∧ b ≠ .sign '^') ∧ StarsApart (b :: ts)
  | _ => True

theorem starsApart_cons {a : Token} {ts : List Token} : StarsApart (a :: ts) ↔
    (a = .sign '*' → ∀ b, ts.head? = some b → b ≠ .sign '*' ∧ b ≠ .sign '^') ∧ StarsApart ts := by
  cases ts with
  | nil => simp [StarsApart]
  | cons b ts => simp [StarsApart]

theorem StarsApart.cons {a : Token} {ts : List Token} (ha : a ≠ .sign '*') (h : StarsApart ts) :
    StarsApart (a :: ts) := starsApart_cons.mpr ⟨fun h' => absurd h' ha, h⟩

end Token

open Token

namespace Grammar

variable {ts us : List Token} {t : Tree}

/-! ## Numbers and names -/

mutual

/-- The numbers and names of a sum are those of the tokens that it takes. -/
theorem Additive.operands : ∀ {ts us : List Token} {t : Tree}, Additive F ts us t →
    operands ts = operands t.tokens ++ operands us
  | _, _, _, .one h => h.operands
  | _, _, _, .more _ hl hr => by
    rw [hl.operands, operands_sign, hr.operands, operands_operation, List.append_assoc]

theorem Multiplicative.operands : ∀ {ts us : List Token} {t : Tree}, Multiplicative F ts us t →
    operands ts = operands t.tokens ++ operands us
  | _, _, _, .one h => h.operands
  | _, _, _, .more _ hl hr => by
    rw [hl.operands, operands_sign, hr.operands, operands_operation, List.append_assoc]
  | _, _, _, .implied hl _ hr => by
    rw [hl.operands, hr.operands, operands_operation, List.append_assoc]

theorem Signed.operands : ∀ {ts us : List Token} {t : Tree}, Signed F ts us t →
    operands ts = operands t.tokens ++ operands us
  | _, _, _, .minus h => by
    rw [operands_sign, h.operands, tokens, operands_sign]
  | _, _, _, .bare h => h.operands

theorem Power.operands : ∀ {ts us : List Token} {t : Tree}, Power F ts us t →
    operands ts = operands t.tokens ++ operands us
  | _, _, _, .bare h => h.operands
  | _, _, _, .raised hb he => by
    rw [hb.operands, operands_sign, he.operands, operands_operation, List.append_assoc]

theorem Primary.operands : ∀ {ts us : List Token} {t : Tree}, Primary F ts us t →
    operands ts = operands t.tokens ++ operands us
  | _, _, _, .number _ => by
    rw [tokens]
    rfl
  | _, _, _, .name _ => by
    rw [tokens]
    rfl
  | _, _, _, @Primary.call _ s us _ args _ h => by
    have hc : Token.operands (.name s :: .sign '(' :: us) = .name s :: Token.operands us := rfl
    have ht : Token.operands (Tree.call s args).tokens =
        .name s :: Token.operands (argumentTokens args) := by
      rw [tokens]
      exact congrArg (.name s :: ·) (operands_enclosed _)
    rw [hc, ht, h.operands, operands_sign]
    rfl
  | _, _, _, .parenthesis h => by
    rw [operands_sign, h.operands, operands_sign, tokens, operands_enclosed]

theorem Arguments.operands : ∀ {ts us : List Token} {args : List Tree}, Arguments F ts us args →
    operands ts = operands (argumentTokens args) ++ operands us
  | _, _, _, .last h => by
    rw [argumentTokens]
    exact h.operands
  | _, _, _, .more h hs => by
    rw [h.operands, operands_sign, hs.operands, argumentTokens_cons _ hs.ne_nil, operands_append,
      operands_sign, List.append_assoc]

end

/-- **A tree keeps the numbers and names of its tokens**, in their order. -/
theorem Derives.operands (h : Derives F ts t) : operands ts = operands t.tokens := by
  rw [Additive.operands h]
  exact List.append_nil _

/-! ## Stars -/

/-- A signed factor starts with no `*` and no `^`. -/
theorem Signed.head (h : Signed F ts us t) :
    ∀ b, ts.head? = some b → b ≠ .sign '*' ∧ b ≠ .sign '^' := by
  have operand : ∀ {ts : List Token}, startsOperand ts = true →
      ∀ b, ts.head? = some b → b ≠ .sign '*' ∧ b ≠ .sign '^' := by
    rintro (_ | ⟨_ | _ | c, ts⟩) hs b hb
    · exact absurd hb (by simp)
    · obtain rfl := Option.some.inj hb
      exact ⟨Token.noConfusion, Token.noConfusion⟩
    · obtain rfl := Option.some.inj hb
      exact ⟨Token.noConfusion, Token.noConfusion⟩
    · obtain rfl := Option.some.inj hb
      constructor
      · intro hc
        obtain rfl := Token.sign.inj hc
        exact absurd hs (by simp [startsOperand])
      · intro hc
        obtain rfl := Token.sign.inj hc
        exact absurd hs (by simp [startsOperand])
  cases h with
  | minus h =>
    intro b hb
    obtain rfl := Option.some.inj hb
    exact ⟨by decide, by decide⟩
  | bare h => exact operand (startsOperand_of_power h)

theorem starsApart_operator {op : Operator} {ts us : List Token} {t : Tree}
    (h : Signed F ts us t) (hts : StarsApart ts) : StarsApart (.sign op.sign :: ts) :=
  starsApart_cons.mpr ⟨fun _ => h.head, hts⟩

mutual

/-- A sum takes no two stars, if there are none behind it. -/
theorem Additive.starsApart : ∀ {ts us : List Token} {t : Tree}, Additive F ts us t →
    StarsApart us → StarsApart ts
  | _, _, _, .one h, hu => h.starsApart hu
  | _, _, _, .more hop hl hr, hu => by
    refine hl.starsApart (.cons ?_ (hr.starsApart hu))
    rcases hop with rfl | rfl <;> decide

theorem Multiplicative.starsApart : ∀ {ts us : List Token} {t : Tree}, Multiplicative F ts us t →
    StarsApart us → StarsApart ts
  | _, _, _, .one h, hu => h.starsApart hu
  | _, _, _, .more _ hl hr, hu => hl.starsApart (starsApart_operator hr (hr.starsApart hu))
  | _, _, _, .implied hl _ hr, hu => hl.starsApart (hr.starsApart hu)

theorem Signed.starsApart : ∀ {ts us : List Token} {t : Tree}, Signed F ts us t →
    StarsApart us → StarsApart ts
  | _, _, _, .minus h, hu => (h.starsApart hu).cons (by decide)
  | _, _, _, .bare h, hu => h.starsApart hu

theorem Power.starsApart : ∀ {ts us : List Token} {t : Tree}, Power F ts us t →
    StarsApart us → StarsApart ts
  | _, _, _, .bare h, hu => h.starsApart hu
  | _, _, _, .raised hb he, hu => hb.starsApart ((he.starsApart hu).cons (by decide))

theorem Primary.starsApart : ∀ {ts us : List Token} {t : Tree}, Primary F ts us t →
    StarsApart us → StarsApart ts
  | _, _, _, .number _, hu => hu.cons Token.noConfusion
  | _, _, _, .name _, hu => hu.cons Token.noConfusion
  | _, _, _, .call _ h, hu =>
    .cons Token.noConfusion (.cons (by decide) (h.starsApart (hu.cons (by decide))))
  | _, _, _, .parenthesis h, hu => (h.starsApart (hu.cons (by decide))).cons (by decide)

theorem Arguments.starsApart : ∀ {ts us : List Token} {args : List Tree}, Arguments F ts us args →
    StarsApart us → StarsApart ts
  | _, _, _, .last h, hu => h.starsApart hu
  | _, _, _, .more h hs, hu => h.starsApart ((hs.starsApart hu).cons (by decide))

end

/-- **In an expression no `*` and no `^` follows a `*`.** -/
theorem Derives.starsApart (h : Derives F ts t) : StarsApart ts :=
  Additive.starsApart h (by simp [StarsApart])

end Grammar

end Stepwise
