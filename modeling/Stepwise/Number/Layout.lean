import Stepwise.Number.Decimal
import Stepwise.Text.Blank

/-!
# Texts of double-precision numbers

`shortest` finds the fewest decimal digits that read back to a double: for each number of digits it
tries the two neighbours of the value on that decimal grid. `significant` rounds the exact value
to a given number of digits. `Layout` says how digits are laid out; `plain` is the layout of
numbers in answers, `brief` the one of sizes in messages.
-/

namespace Stepwise

namespace Binary64

/-- The greatest `k` with `10 ^ k ≤ num / den`, for positive `num` and `den`. -/
def floorLog10 (num den : Nat) : Int :=
  let k : Int := (floorLog2 num den) * 30103 / 100000
  let atLeast (k : Int) : Bool :=
    if 0 ≤ k then den * 10 ^ k.toNat ≤ num else den ≤ num * 10 ^ (-k).toNat
  if atLeast (k + 1) then k + 1 else if atLeast k then k else k - 1

/-- `num / den` in units of `10 ^ unit`, as a fraction. -/
def inUnits (num den : Nat) (unit : Int) : Nat × Nat :=
  if 0 ≤ unit then (num, den * 10 ^ unit.toNat) else (num * 10 ^ (-unit).toNat, den)

/-- The number with `count` significant digits nearest to `num / den`. -/
def significant (num den count : Nat) : Decimal :=
  if num = 0 then ⟨0, 0⟩
  else
    let unit : Int := floorLog10 num den - count + 1
    let (n, d) := inUnits num den unit
    ⟨roundDiv n d, unit⟩

/-- Of the two neighbours of `num / den` with `count` digits the nearer one that lies between
`low / den` and `high / den`, the ends included if `closed`. -/
def shortestWith (num low high den : Nat) (closed : Bool) (count : Nat) : Option Decimal :=
  let unit : Int := floorLog10 num den - count + 1
  let (n, d) := inUnits num den unit
  let (l, _) := inUnits low den unit
  let (h, _) := inUnits high den unit
  let inside (q : Nat) : Bool := if closed then l ≤ q * d && q * d ≤ h else l < q * d && q * d < h
  let q := n / d
  let nearest := roundDiv n d
  if inside nearest then some ⟨nearest, unit⟩
  else if inside q then some ⟨q, unit⟩
  else if inside (q + 1) then some ⟨q + 1, unit⟩
  else none

/-- The fewest digits that read back to the double `significand · 2 ^ exponent`. -/
def shortest (significand : Nat) (exponent : Int) : Decimal :=
  let scale (n : Nat) : Nat := if 0 ≤ exponent then n * 2 ^ exponent.toNat else n
  let den := if 0 ≤ exponent then 4 else 4 * 2 ^ (-exponent).toNat
  let num := scale (4 * significand)
  let low := scale (4 * significand - if significand = 2 ^ (52 : Nat) ∧ -1074 < exponent then 1 else 2)
  let high := scale (4 * significand + 2)
  let attempt := shortestWith num low high den (significand % 2 = 0)
  ((List.range 16).findSome? fun k => attempt (k + 1)).getD (significant num den 17)

end Binary64

/-- How the digits of a number are laid out. -/
structure Layout where
  /-- Numbers from `10 ^ positionalUpTo` on are written with an exponent. -/
  positionalUpTo : Int
  /-- Whole numbers in positional notation end in `.0`. -/
  wholeHasPoint : Bool

namespace Layout

/-- Numbers in answers: with an exponent below `10 ^ -4` and from `10 ^ 16` on; whole numbers end
in `.0`. -/
def plain : Layout := ⟨16, true⟩

/-- Sizes in messages: with an exponent below `10 ^ -4` and from `10 ^ 6` on. -/
def brief : Layout := ⟨6, false⟩

/-- The text of a decimal. -/
def render (layout : Layout) (x : Decimal) : Text :=
  let ds := Text.dropEndWhile (· == '0') (Text.ofNat x.digits)
  let ds := if ds.isEmpty then ['0'] else ds
  let leading : Int :=
    if x.digits = 0 then 0 else (Text.ofNat x.digits).length - 1 + x.exponent
  if leading < -4 ∨ layout.positionalUpTo ≤ leading then
    let mantissa :=
      match ds with
      | [] => []
      | [d] => [d]
      | d :: more => d :: '.' :: more
    let size := Text.ofNat leading.natAbs
    mantissa ++ ['e', if leading < 0 then '-' else '+'] ++
      List.replicate (2 - size.length) '0' ++ size
  else if leading < 0 then
    '0' :: '.' :: List.replicate (leading.natAbs - 1) '0' ++ ds
  else
    let places := leading.toNat + 1
    if ds.length ≤ places then
      ds ++ List.replicate (places - ds.length) '0' ++
        if layout.wholeHasPoint then ['.', '0'] else []
    else ds.take places ++ '.' :: ds.drop places

end Layout

namespace Binary64

/-- The text of a double in answers. -/
def text : Binary64 → Text
  | .finite negative s e _ =>
    (if negative then ['-'] else []) ++
      Layout.plain.render (if s = 0 then ⟨0, 0⟩ else shortest s e)
  | .infinite false => "inf".toList
  | .infinite true => "-inf".toList
  | .nan => "nan".toList

/-- The text of a double with at most six significant digits. -/
def briefText : Binary64 → Text
  | .finite negative s e h =>
    let (n, d) := ((Binary64.finite false s e h).toFraction?).getD (0, 1)
    (if negative then ['-'] else []) ++ Layout.brief.render (significant n.natAbs d 6)
  | x => x.text

/-- Reads a double as written by `text`. -/
def read? (t : Text) : Option Binary64 :=
  if t = "nan".toList then some .nan
  else
    let (negative, u) :=
      match t with
      | '-' :: u => (true, u)
      | u => (false, u)
    let magnitude := if u = "inf".toList then some (.infinite false) else
      (Decimal.read u).map Decimal.toBinary64
    if negative then magnitude.map neg else magnitude

example : [ofFraction 1 10, ofFraction 2 3, ofFraction 1 100000, ofFraction (-10 ^ 16) 1,
      ofFraction 12 1].map text =
    ["0.1", "0.6666666666666666", "1e-05", "-1e+16", "12.0"].map String.toList := by decide +kernel

example : (ofFraction 10 1048576).briefText = "9.53674e-06".toList := by decide +kernel

end Binary64

end Stepwise
