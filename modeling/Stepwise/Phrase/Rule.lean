import Stepwise.Value
import Stepwise.Phrase.Glyph
import Stepwise.Phrase.Integral
import Stepwise.Phrase.Limit

/-!
# Canonical form

A problem is brought into canonical form by eight rules, one after the other: calculus is written
as calls, the operators are `+ - * / ^` and `=`, and there are no blanks. The order matters: the X
of `d/dx` must be used up before an X between digits becomes a product.

`Rule.apply` is a single rule on any text, `canonical` all of them in order, and `stages` the texts
in between. `tidy` is the preparation of text that was read from an image.

Results: `canonical_eq_getLast`, the canonical form is the last stage, and
`not_isBlank_of_mem_canonical`, it holds no blank.
-/

namespace Stepwise.Phrase

open Text Pattern

/-- The rules. -/
inductive Rule where
  | collapseBlanks
  | stripInstructions
  | derivativePhrasing
  | integralPhrasing
  | limitPhrasing
  | operatorGlyphs
  | stripTrailingPeriod
  | removeBlanks
  deriving DecidableEq, Repr

/-- The words that ask for an answer. -/
def instruction : Pattern Unit := fun t =>
  (["find".toList, "compute".toList, "evaluate".toList, "calculate".toList,
    "determine".toList].flatMap fun w => word w t) ++ words ["what".toList, "is".toList] t

/-- Instructions at the front of a text are dropped, as many as there are. The fuel is the number of
instructions at most; each takes at least one character. -/
def withoutInstructions : (fuel : Nat) → Text → Text
  | 0, t => t
  | fuel + 1, t =>
    let head : Pattern Unit := do
      instruction
      let _ ← blanks1
      optionalArticle
    match head.best? t with
    | some (_, rest) => withoutInstructions fuel rest
    | none => t

/-- Is this a blank, a period or a question mark? -/
def endsSentence (c : Char) : Bool := isBlank c || c == '.' || c == '?'

namespace Rule

/-- The rules in their order. -/
def all : List Rule :=
  [collapseBlanks, stripInstructions, derivativePhrasing, integralPhrasing, limitPhrasing,
   operatorGlyphs, stripTrailingPeriod, removeBlanks]

/-- The name of a rule. -/
def name : Rule → Text
  | collapseBlanks => "collapse-whitespace".toList
  | stripInstructions => "strip-instructions".toList
  | derivativePhrasing => "derivative-phrasing".toList
  | integralPhrasing => "integral-phrasing".toList
  | limitPhrasing => "limit-phrasing".toList
  | operatorGlyphs => "operator-glyphs".toList
  | stripTrailingPeriod => "strip-trailing-period".toList
  | removeBlanks => "remove-whitespace".toList

/-- What a rule makes of a text. -/
def apply : Rule → Text → Text
  | collapseBlanks, t => trim (squeeze t)
  | stripInstructions, t => withoutInstructions t.length t
  | derivativePhrasing, t => derivatives t
  | integralPhrasing, t => integrals t
  | limitPhrasing, t => limits t
  | operatorGlyphs, t => plainGlyphs t
  | stripTrailingPeriod, t => dropEndWhile endsSentence t
  | removeBlanks, t => Text.removeBlanks t

end Rule

/-- The texts after each of the given rules. -/
def stagesOf : List Rule → Text → List Text
  | [], _ => []
  | r :: rs, t => r.apply t :: stagesOf rs (r.apply t)

/-- The texts after each rule. -/
def stages (t : Text) : List Text := stagesOf Rule.all t

/-- The canonical form of a problem. -/
def canonical (t : Text) : Text := Rule.all.foldl (fun t r => r.apply t) t

/-- The canonical form of a value; what is no text counts as empty. -/
def canonicalOf : Value → Text
  | .text t => canonical t
  | _ => []

theorem stagesOf_getLast (rs : List Rule) (t d : Text) (h : rs ≠ []) :
    (stagesOf rs t).getLastD d = rs.foldl (fun t r => r.apply t) t := by
  induction rs generalizing t d with
  | nil => exact absurd rfl h
  | cons r rs ih =>
    cases rs with
    | nil => rfl
    | cons s ss =>
      have := ih (r.apply t) d (by simp)
      simpa [stagesOf] using this

theorem canonical_eq_getLast (t : Text) : (stages t).getLastD [] = canonical t :=
  stagesOf_getLast Rule.all t [] (by simp [Rule.all])

theorem not_isBlank_of_mem_canonical {t : Text} {c : Char} (h : c ∈ canonical t) :
    isBlank c = false := by
  simp only [canonical, Rule.all, List.foldl_cons, List.foldl_nil] at h
  exact not_isBlank_of_mem_removeBlanks (by simpa only [Rule.apply] using h)

/-- A digit, an operator and a digit. -/
def looseOperation : Pattern Text := do
  let a ← one isDigit
  let _ ← blanks
  let op ← one fun c => "+-*/^".toList.contains c
  let _ ← blanks
  let b ← one isDigit
  return [a, op, b]

/-- An equals sign with blanks around. -/
def looseEquality : Pattern Text := do
  let _ ← blanks
  literal ['=']
  let _ ← blanks
  return ['=']

/-- The round bracket of the same side. -/
def roundBracket (c : Char) : Char :=
  if c = '[' ∨ c = '\x7b' then '(' else if c = ']' ∨ c = '\x7d' then ')' else c

/-- Text from an image with the spaces that such texts have around operators removed, and round
brackets only. -/
def tidy (t : Text) : Text :=
  let t := squeeze t
  let t := replaceAll (fun _ => looseOperation) t
  let t := replaceAll (fun _ => looseEquality) t
  trim (t.map roundBracket)

/-- As `tidy`; what is no text counts as empty. -/
def tidyOf : Value → Text
  | .text t => tidy t
  | _ => []

end Stepwise.Phrase
