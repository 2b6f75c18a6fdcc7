import Stepwise.Formula.Value
import Stepwise.Proofs.Pieces

/-!
# Tokens of formulas, one at a time

A formula is scanned from the left: a text is `Scanned` into tokens in front of another one if these
tokens are found first, and then those of the rest.

Results: `Scanned.append`, texts are scanned one behind the other; and `scanned_sign` and
`scanned_digit`, a single character.
-/

namespace Stepwise.Formula.Token

open Text

deriving instance DecidableEq for Token

variable {names : Names} {t r rest : Text} {tokens : List Token}

/-! ## Texts -/

/-- In front of `rest`, the text is cut into the tokens. -/
def Scanned (names : Names) (t : Text) (tokens : List Token) (rest : Text) : Prop :=
  ∃ k ≤ t.length, ∀ fuel,
    scanFrom names (fuel + k) (t ++ rest) = (scanFrom names fuel rest).map (tokens ++ ·)

theorem Scanned.append {s : Text} {after : List Token}
    (hs : Scanned names s tokens (t ++ rest)) (ht : Scanned names t after rest) :
    Scanned names (s ++ t) (tokens ++ after) rest := by
  obtain ⟨k, hk, hs⟩ := hs
  obtain ⟨m, hm, ht⟩ := ht
  refine ⟨m + k, by rw [List.length_append]; omega, fun fuel => ?_⟩
  rw [List.append_assoc, ← Nat.add_assoc, hs, ht, Option.map_map]
  congr 1
  funext tokens
  exact (List.append_assoc _ _ _).symm

theorem scanFrom_nil (names : Names) (fuel : Nat) : scanFrom names fuel [] = some [] := by
  cases fuel <;> rfl

theorem Scanned.scanFrom (h : Scanned names t tokens []) :
    scanFrom names t.length t = some tokens := by
  obtain ⟨k, hk, h⟩ := h
  have := h (t.length - k)
  rw [List.append_nil, Nat.sub_add_cancel hk] at this
  rw [this, scanFrom_nil, Option.map_some, List.append_nil]

/-- Does a number start here? -/
def startsNumber (c : Char) (cs : Text) : Bool :=
  isDigit c || (c = '.' && (cs.head?.map isDigit).getD false)

set_option maxRecDepth 1000 in
theorem scanFrom_cons (names : Names) (fuel : Nat) (c : Char) (cs : Text) :
    scanFrom names (fuel + 1) (c :: cs) =
      if c = ' ' ∨ c = '\t' ∨ c = '\x0c' then scanFrom names fuel cs
      else if startsNumber c cs then
        match takeNumber (c :: cs) with
        | some (tokens, rest) => (scanFrom names fuel rest).map (tokens ++ ·)
        | none => none
      else if Text.startsName c then
        match ofName names (c :: cs.takeWhile Text.isWord) with
        | some tokens =>
          (scanFrom names fuel (cs.drop ((c :: cs.takeWhile Text.isWord).length - 1))).map
            (tokens ++ ·)
        | none => none
      else
        match c, cs with
        | '*', '*' :: cs => (scanFrom names fuel cs).map (.sign '^' :: ·)
        | '/', '/' :: cs => (scanFrom names fuel cs).map (.sign '_' :: ·)
        | c, cs =>
          if "+-*/%^(),!".toList.contains c then (scanFrom names fuel cs).map (.sign c :: ·)
          else none := rfl

/-- A sign is a token, unless it may be the first half of one. -/
theorem scanned_sign {c : Char} (hc : c ∈ "+-*/^(),".toList)
    (hr : c = '*' ∨ c = '/' → rest.head? ≠ some c) : Scanned names [c] [.sign c] rest := by
  have plain : ∀ c ∈ "+-*/^(),".toList, ¬(c = ' ' ∨ c = '\t' ∨ c = '\x0c') ∧ isDigit c = false ∧
      c ≠ '.' ∧ Text.startsName c = false ∧ "+-*/%^(),!".toList.contains c = true :=
    forall_mem_of_all (by decide)
  obtain ⟨blank, digit, point, word, sign⟩ := plain c hc
  refine ⟨1, Nat.le_refl 1, fun fuel => ?_⟩
  rw [List.singleton_append, scanFrom_cons, if_neg blank,
    if_neg (by simp [startsNumber, digit, point]), if_neg (by simp [word])]
  split
  · exact absurd rfl (hr (.inl rfl))
  · exact absurd rfl (hr (.inr rfl))
  · exact if_pos sign

theorem scanned_digit {c : Char} {token : Token} (hc : isDigit c = true)
    (h : takeNumber (c :: rest) = some ([token], rest)) : Scanned names [c] [token] rest := by
  have blank : ¬(c = ' ' ∨ c = '\t' ∨ c = '\x0c') := by
    rintro (rfl | rfl | rfl) <;> exact absurd hc (by decide)
  refine ⟨1, Nat.le_refl 1, fun fuel => ?_⟩
  rw [List.singleton_append, scanFrom_cons, if_neg blank, if_pos (by simp [startsNumber, hc]), h]

end Stepwise.Formula.Token
