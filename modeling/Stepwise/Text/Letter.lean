import Stepwise.Text.Basic

/-!
# Letters and their case

Variables are the letters `A` to `Z` in either case. Phrases are recognised without regard to case,
and there four further characters count as letters, because they are case variants of ASCII
letters: the dotted capital and the dotless small I (U+0130, U+0131), the long s (U+017F) and the
Kelvin sign (U+212A).

Result: `sameLetter_self`.
-/

namespace Stepwise.Text

/-- One of the letters `A` to `Z`, in either case. -/
def isLetter (c : Char) : Bool := c.isAlpha

/-- The case variants of ASCII letters that are no ASCII letters, with the small letter meant. -/
def caseVariant? (c : Char) : Option Char :=
  if c = '\u0130' ∨ c = '\u0131' then some 'i'
  else if c = '\u017F' then some 's'
  else if c = '\u212A' then some 'k'
  else none

/-- A letter, or a case variant of one. -/
def isAnyCaseLetter (c : Char) : Bool := isLetter c || (caseVariant? c).isSome

/-- Is `c` the small letter `p` when case does not count? -/
def sameLetter (p c : Char) : Bool := c.toLower == p || caseVariant? c == some p

/-- The lower case of a character. Characters whose lower case holds no ASCII letter stand for
themselves: no phrase depends on them. -/
def lower (c : Char) : Text :=
  if c = '\u0130' then ['i', '\u0307']
  else if c = '\u212A' then ['k']
  else [c.toLower]

/-- A text in lower case. -/
def lowerText (t : Text) : Text := t.flatMap lower

theorem sameLetter_self (p : Char) (h : p.toLower = p) : sameLetter p p = true := by
  simp [sameLetter, h]

end Stepwise.Text
