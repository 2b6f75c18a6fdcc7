import Stepwise.Text.Printable

/-!
# Quoted texts

Error messages show characters and texts in quotes: in single quotes, or in double quotes when the
text holds a single quote and no double one. Backslashes and the enclosing quote are escaped, line
breaks, returns and tabs have short escapes, and every other character that is not printable is
written by its code point with two, four or eight hexadecimal digits.
-/

namespace Stepwise.Text

/-- The hexadecimal digits of `n`, filled up with zeros to `width`. -/
def hex (width n : Nat) : Text :=
  let ds := Nat.toDigits 16 n
  List.replicate (width - ds.length) '0' ++ ds

/-- A character within quotes `q`. -/
def escape (q c : Char) : Text :=
  if c = q ∨ c = '\\' then ['\\', c]
  else if c = '\n' then ['\\', 'n']
  else if c = '\r' then ['\\', 'r']
  else if c = '\t' then ['\\', 't']
  else if isPrintable c then [c]
  else if c.toNat < 0x100 then '\\' :: 'x' :: hex 2 c.toNat
  else if c.toNat < 0x10000 then '\\' :: 'u' :: hex 4 c.toNat
  else '\\' :: 'U' :: hex 8 c.toNat

/-- The quote in which a text is shown. -/
def quoteMark (t : Text) : Char :=
  if t.contains '\'' && !t.contains '"' then '"' else '\''

/-- A text in quotes. -/
def quote (t : Text) : Text :=
  let q := quoteMark t
  q :: t.flatMap (escape q) ++ [q]

end Stepwise.Text
