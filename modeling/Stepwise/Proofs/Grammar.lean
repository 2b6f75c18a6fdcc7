import Stepwise.Tree.Read

/-!
# The grammar of expressions

The grammar that `Tree.read` reads, as a relation between tokens and trees:

* `A → M (('+' | '-') M)*`, grouped to the left (`Additive`);
* `M → U (['*' | '/'] U)*`, grouped to the left (`Multiplicative`), where a sign that is left out
  stands for `*` and needs a number, a name or `(` behind it;
* `U → '-' U | P` (`Signed`) and `P → B ['^' U]` (`Power`);
* `B → number | name | f '(' A (',' A)* ')' | '(' A ')'` (`Primary`), with `f` one of the
  functions. A function with `(` directly behind it is always the head of a call.

Each relation speaks of a stretch of tokens: `Additive F ts us t` says that the tokens of `ts` in
front of its end piece `us` derive `t`. So the side condition on the token behind a name can be
stated where the name is read, and no stretch is cut in two anywhere.

Results: `Additive.after` and its siblings, a stretch takes at least one token.
-/

namespace Stepwise.Grammar

open Stepwise.Tree

variable {F : List Text} {ts us vs : List Token} {l r t : Tree}

mutual

/-- Products with `+` or `-` between them. -/
inductive Additive (F : List Text) : List Token → List Token → Tree → Prop
  | one {ts us : List Token} {t : Tree} (h : Multiplicative F ts us t) : Additive F ts us t
  | more {op : Operator} {ts us vs : List Token} {l r : Tree} (hop : op = .plus ∨ op = .minus)
      (hl : Additive F ts (.sign op.sign :: us) l) (hr : Multiplicative F us vs r) :
      Additive F ts vs (.operation op l r)

/-- Signed factors with `*`, `/` or nothing between them. -/
inductive Multiplicative (F : List Text) : List Token → List Token → Tree → Prop
  | one {ts us : List Token} {t : Tree} (h : Signed F ts us t) : Multiplicative F ts us t
  | more {op : Operator} {ts us vs : List Token} {l r : Tree} (hop : op = .times ∨ op = .dividedBy)
      (hl : Multiplicative F ts (.sign op.sign :: us) l) (hr : Signed F us vs r) :
      Multiplicative F ts vs (.operation op l r)
  | implied {ts us vs : List Token} {l r : Tree} (hl : Multiplicative F ts us l)
      (hs : startsOperand us = true) (hr : Signed F us vs r) :
      Multiplicative F ts vs (.operation .times l r)

/-- A power behind any number of minus signs. -/
inductive Signed (F : List Text) : List Token → List Token → Tree → Prop
  | minus {us vs : List Token} {t : Tree} (h : Signed F us vs t) :
      Signed F (.sign '-' :: us) vs (.negation t)
  | bare {ts us : List Token} {t : Tree} (h : Power F ts us t) : Signed F ts us t

/-- An operand, perhaps with an exponent. -/
inductive Power (F : List Text) : List Token → List Token → Tree → Prop
  | bare {ts us : List Token} {t : Tree} (h : Primary F ts us t) : Power F ts us t
  | raised {ts us vs : List Token} {b e : Tree} (hb : Primary F ts (.sign '^' :: us) b)
      (he : Signed F us vs e) : Power F ts vs (.operation .power b e)

/-- A number, a name, a call or a parenthesis. -/
inductive Primary (F : List Text) : List Token → List Token → Tree → Prop
  | number {s : Text} {us : List Token} {n : Numeral} (h : Numeral.ofSpelling s = .ok n) :
      Primary F (.number s :: us) us (.constant n s)
  | name {s : Text} {us : List Token} (h : ¬(s ∈ F ∧ us.head? = some (.sign '('))) :
      Primary F (.name s :: us) us (.name s)
  | call {s : Text} {us vs : List Token} {args : List Tree} (hs : s ∈ F)
      (h : Arguments F us (.sign ')' :: vs) args) :
      Primary F (.name s :: .sign '(' :: us) vs (.call s args)
  | parenthesis {us vs : List Token} {t : Tree} (h : Additive F us (.sign ')' :: vs) t) :
      Primary F (.sign '(' :: us) vs (.parenthesis t)

/-- Sums with commas between them. -/
inductive Arguments (F : List Text) : List Token → List Token → List Tree → Prop
  | last {ts us : List Token} {t : Tree} (h : Additive F ts us t) : Arguments F ts us [t]
  | more {ts us vs : List Token} {t : Tree} {args : List Tree}
      (h : Additive F ts (.sign ',' :: us) t) (hs : Arguments F us vs args) :
      Arguments F ts vs (t :: args)

end

/-- A whole list of tokens derives a tree. -/
def Derives (F : List Text) (tokens : List Token) (t : Tree) : Prop := Additive F tokens [] t

/-! ## No stretch is empty -/

/-- `us` is what is left of `ts` when one token or more has been taken. -/
def After (us ts : List Token) : Prop := ∃ tok, tok :: us <:+ ts

namespace After

theorem suffix (h : After us ts) : us <:+ ts :=
  have ⟨tok, ht⟩ := h
  (List.suffix_cons tok us).trans ht

theorem length_lt (h : After us ts) : us.length < ts.length :=
  have ⟨_, ht⟩ := h
  ht.length_le

theorem trans (h₁ : After us vs) (h₂ : After vs ts) : After us ts :=
  have ⟨tok, ht⟩ := h₁
  ⟨tok, ht.trans h₂.suffix⟩

theorem of_cons {tok : Token} (h : After (tok :: us) ts) : After us ts := ⟨tok, h.suffix⟩

theorem cons (tok : Token) (h : After us ts) : After us (tok :: ts) :=
  have ⟨tok', ht⟩ := h
  ⟨tok', ht.trans (List.suffix_cons tok ts)⟩

theorem refl (tok : Token) (us : List Token) : After us (tok :: us) := ⟨tok, List.suffix_refl _⟩

end After

mutual

theorem Additive.after : ∀ {ts us : List Token} {t : Tree}, Additive F ts us t → After us ts
  | _, _, _, .one h => h.after
  | _, _, _, .more _ hl hr => hr.after.trans hl.after.of_cons

theorem Multiplicative.after : ∀ {ts us : List Token} {t : Tree}, Multiplicative F ts us t →
    After us ts
  | _, _, _, .one h => h.after
  | _, _, _, .more _ hl hr => hr.after.trans hl.after.of_cons
  | _, _, _, .implied hl _ hr => hr.after.trans hl.after

theorem Signed.after : ∀ {ts us : List Token} {t : Tree}, Signed F ts us t → After us ts
  | _, _, _, .minus h => h.after.cons _
  | _, _, _, .bare h => h.after

theorem Power.after : ∀ {ts us : List Token} {t : Tree}, Power F ts us t → After us ts
  | _, _, _, .bare h => h.after
  | _, _, _, .raised hb he => he.after.trans hb.after.of_cons

theorem Primary.after : ∀ {ts us : List Token} {t : Tree}, Primary F ts us t → After us ts
  | _, _, _, .number _ => .refl _ _
  | _, _, _, .name _ => .refl _ _
  | _, _, _, .call _ h => (h.after.of_cons.cons _).cons _
  | _, _, _, .parenthesis h => h.after.of_cons.cons _

theorem Arguments.after : ∀ {ts us : List Token} {args : List Tree}, Arguments F ts us args →
    After us ts
  | _, _, _, .last h => h.after
  | _, _, _, .more h hs => hs.after.trans h.after.of_cons

end

end Stepwise.Grammar
