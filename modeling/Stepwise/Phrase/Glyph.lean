import Stepwise.Phrase.Pattern
import Stepwise.Text.Numeral

/-!
# Operator glyphs

Problems are written with many signs for one operator. `plainGlyphs` leaves only `+ - * / ^`, round
brackets and names: multiplication and division signs, the letter X between digits, the dashes, the
double star, small exponents, the root sign, and the signs of the numbers pi and infinity.

Result: `plainGlyph_self`, a character that is no glyph stays as it is.
-/

namespace Stepwise.Phrase

open Text Pattern

/-- The signs of multiplication. -/
def timesSigns : Text := ['×', '·', '⋅', '∙']

/-- The dashes that are read as a minus sign. -/
def dashes : Text := ['−', '‐', '‑', '‒', '–', '—', '﹣', '－']

/-- An X between digits stands for multiplication. -/
def crossBetweenDigits (last : Option Char) : Pattern Text := do
  guard (last.any isDigit)
  let _ ← blanks
  let _ ← one fun c => c == 'x' || c == 'X'
  let _ ← blanks
  before isDigit
  return ['*']

/-- Two stars stand for a power. -/
def doubleStar : Pattern Text := do
  literal ['*', '*']
  return ['^']

/-- What a glyph stands for; other characters stand for themselves. -/
def plainGlyph (c : Char) : Text :=
  if c = '²' then ['^', '2']
  else if c = '³' then ['^', '3']
  else if c = '√' then "sqrt".toList
  else if c = 'π' then "pi".toList
  else if c = '∞' then "oo".toList
  else if c = '[' ∨ c = '\x7b' then ['(']
  else if c = ']' ∨ c = '\x7d' then [')']
  else [c]

/-- Signs of multiplication, division and subtraction as `*`, `/` and `-`. -/
def plainSign (c : Char) : Char :=
  if c = '÷' then '/' else if dashes.contains c then '-' else c

/-- A text without glyphs. -/
def plainGlyphs (t : Text) : Text :=
  let t := t.map fun c => if timesSigns.contains c then '*' else c
  let t := replaceAll crossBetweenDigits t
  let t := t.map plainSign
  let t := replaceAll (fun _ => doubleStar) t
  t.flatMap plainGlyph

theorem plainGlyph_self {c : Char} (h : c ∉ "²³√π∞[]\x7b\x7d".toList) : plainGlyph c = [c] := by
  have e : "²³√π∞[]\x7b\x7d".toList = ['²', '³', '√', 'π', '∞', '[', ']', '\x7b', '\x7d'] := by rfl
  rw [e] at h
  simp only [List.mem_cons, List.not_mem_nil, or_false, not_or] at h
  simp [plainGlyph, h]

end Stepwise.Phrase
