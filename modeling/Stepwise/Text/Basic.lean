/-!
# Texts

A text is a list of characters, so that every statement about reading and rewriting problems is a
statement about lists. `splitOn` cuts at a character, `joinWith` is its inverse, and `ofNat` and
`ofInt` write numbers in decimal.
-/

namespace Stepwise

/-- A text, character by character. -/
abbrev Text := List Char

namespace Text

/-- The decimal digits of a natural number. -/
def ofNat (n : Nat) : Text := Nat.toDigits 10 n

/-- An integer in decimal, with a leading `-` when it is negative. -/
def ofInt : Int → Text
  | .ofNat n => ofNat n
  | .negSucc n => '-' :: ofNat (n + 1)

/-- The pieces of a text between the occurrences of `sep`. There is always at least one. -/
def splitOn (sep : Char) : Text → List Text
  | [] => [[]]
  | c :: cs =>
    if c = sep then [] :: splitOn sep cs
    else
      match splitOn sep cs with
      | [] => [[c]]
      | piece :: rest => (c :: piece) :: rest

/-- The given texts in order, with `sep` between neighbours. -/
def joinWith (sep : Text) : List Text → Text
  | [] => []
  | [t] => t
  | t :: u :: ts => t ++ sep ++ joinWith sep (u :: ts)

/-- Does `needle` occur somewhere in the text? -/
def holds (needle : Text) : Text → Bool
  | [] => needle.isEmpty
  | c :: cs => needle.isPrefixOf (c :: cs) || holds needle cs

end Text

end Stepwise
