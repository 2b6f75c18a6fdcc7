import Stepwise.Fault
import Stepwise.Formula.Name
import Stepwise.Number.Power
import Stepwise.Text.Blank
import Stepwise.Text.Numeral
import Stepwise.Text.Word

/-!
# Tokens of a formula

A formula is cut into numbers, names and signs. Numbers are exact: `0.1` is a tenth and `1e-3` a
thousandth; a whole number does not start with a zero that another digit follows, so that `007` is
two zeros before a seven; digits may be parted by single underscores; whole numbers may be
hexadecimal, octal or binary; and a `j` stands for a product with the imaginary unit. Names that
stand for nothing and are not kept whole come apart into their letters and runs of digits.

Result: `ofName_whole`.
-/

namespace Stepwise.Formula

/-- A token of a formula. -/
inductive Token where
  | term (t : Term)
  | callable (c : Callable)
  /-- One of `+ - * / % ^ ( ) , !`, or `_` for a division with a whole quotient. -/
  | sign (c : Char)

namespace Token

/-- Is this one of the ten decimal digits? -/
def isDigit (c : Char) : Bool := '0' ≤ c && c ≤ '9'

/-- The further digits at the front of a text that follows a digit, and what comes after them. A
single underscore may stand before a digit. -/
def takeMore (p : Char → Bool) : Text → Text × Text
  | [] => ([], [])
  | c :: cs =>
    if p c then
      let (ds, rest) := takeMore p cs
      (c :: ds, rest)
    else if c = '_' ∧ (cs.head?.map p).getD false then takeMore p cs
    else ([], c :: cs)

/-- The digits at the front of a text, and what comes after them. -/
def takeDigits (p : Char → Bool) (t : Text) : Text × Text :=
  if (t.head?.map p).getD false then takeMore p t else ([], t)

/-- The value of a digit up to base 16. -/
def digitValue (c : Char) : Nat :=
  if isDigit c then c.toNat - 48
  else if 'a' ≤ c ∧ c ≤ 'f' then c.toNat - 87
  else c.toNat - 55

def isHexDigit (c : Char) : Bool :=
  isDigit c || ('a' ≤ c && c ≤ 'f') || ('A' ≤ c && c ≤ 'F')

/-- The value of digits in the given base. -/
def valueIn (base : Nat) (ds : Text) : Nat := ds.foldl (fun n c => base * n + digitValue c) 0

/-- A whole number in another base than ten at the front of a text. -/
def radixNumber? : Text → Option (Nat × Text)
  | '0' :: x :: cs =>
    let read (base : Nat) (p : Char → Bool) : Option (Nat × Text) :=
      let cs := match cs with
        | '_' :: cs => cs
        | cs => cs
      let (ds, rest) := takeDigits p cs
      if ds.isEmpty then none else some (valueIn base ds, rest)
    if x = 'x' ∨ x = 'X' then read 16 isHexDigit
    else if x = 'o' ∨ x = 'O' then read 8 fun c => '0' ≤ c && c ≤ '7'
    else if x = 'b' ∨ x = 'B' then read 2 fun c => c = '0' || c = '1'
    else none
  | _ => none

/-- The exponent at the front of a text, and what follows. -/
def exponent? : Text → Option (Int × Text)
  | [] => none
  | e :: cs =>
    if e = 'e' ∨ e = 'E' then
      let (negative, cs) := match cs with
        | '-' :: cs => (true, cs)
        | '+' :: cs => (false, cs)
        | cs => (false, cs)
      let (ds, rest) := takeDigits isDigit cs
      if ds.isEmpty then none
      else
        let n : Int := valueIn 10 ds
        some (if negative then -n else n, rest)
    else none

/-- `digits · 10 ^ exponent`. -/
def decimalValue (digits : Nat) (exponent : Int) : Rat :=
  if 0 ≤ exponent then (digits * 10 ^ exponent.toNat : Nat) else mkRat digits (10 ^ (-exponent).toNat)

/-- The longest whole number that is read, in digits. -/
def isTooLong (ds : Text) : Bool := Fault.digitLimit < ds.length

/-- A number. -/
def number (q : Rat) : Token := .term (.number q)

/-- The number at the front of a text, and what follows; a failure if it is too long. -/
def takeNumber (t : Text) : Option (List Token × Text) :=
  let (whole, rest) := takeDigits isDigit t
  let imaginary (q : Rat) : List Token := [number q, .sign '*', .term .i]
  let finish (q : Rat) (rest : Text) : Option (List Token × Text) :=
    match rest with
    | 'j' :: rest => some (imaginary q, rest)
    | 'J' :: rest => some (imaginary q, rest)
    | rest => some ([number q], rest)
  let decimal (fraction rest : Text) : Option (List Token × Text) :=
    let digits := valueIn 10 (whole ++ fraction)
    let (e, rest) := (exponent? rest).getD (0, rest)
    if isTooLong whole || isTooLong fraction || 100000 < e.natAbs then none
    else finish (decimalValue digits (e - fraction.length)) rest
  match rest with
  | '.' :: rest =>
    let (fraction, rest) := takeDigits isDigit rest
    decimal fraction rest
  | rest =>
    if (exponent? rest).isSome then decimal [] rest
    else
      match rest with
      | 'j' :: _ => finish (valueIn 10 whole : Nat) rest
      | 'J' :: _ => finish (valueIn 10 whole : Nat) rest
      | _ =>
        match radixNumber? t with
        | some (n, rest) => some ([number n], rest)
        | none =>
          if isTooLong whole then none
          else if whole.head? = some '0' ∧ !whole.all (· = '0') then
            let zeros := whole.takeWhile (· = '0')
            some ([number 0], t.drop zeros.length)
          else some ([number (valueIn 10 whole : Nat)], rest)

/-- The token that a name stands for. -/
def ofMeaning : Meaning → Token
  | .term t => .term t
  | .callable c => .callable c

/-- What a letter of a name that is split stands for. -/
def ofLetter (names : Names) (c : Char) : Token :=
  match names.find? [c] with
  | some m => ofMeaning m
  | none => .term (.symbol ⟨[c], .complex⟩)

/-- The letters and the runs of digits of a name, in at most `fuel` pieces; a failure if a run holds
other digits than the ten of a number. -/
def splitName (names : Names) : (fuel : Nat) → Text → Option (List Token)
  | _, [] => some []
  | 0, _ :: _ => none
  | fuel + 1, c :: cs =>
    if Text.isAnyDigit c && (names.find? [c]).isNone then
      let ds := c :: cs.takeWhile Text.isAnyDigit
      if ds.all isDigit then
        (splitName names fuel (cs.drop (ds.length - 1))).map (number (valueIn 10 ds : Nat) :: ·)
      else none
    else (splitName names fuel cs).map (ofLetter names c :: ·)

/-- The tokens of a name; a failure if it is a word that cannot be a name. -/
def ofName (names : Names) (name : Text) : Option (List Token) :=
  if keywords.contains name then none
  else
    match names.find? name with
    | some m => some [ofMeaning m]
    | none =>
      if Names.isWhole name then some [.term (.symbol ⟨name, .complex⟩)]
      else splitName names name.length name

/-- The tokens of a text, read in at most `fuel` pieces; a failure if some piece is no token. -/
def scanFrom (names : Names) : (fuel : Nat) → Text → Option (List Token)
  | _, [] => some []
  | 0, _ :: _ => none
  | fuel + 1, c :: cs =>
    let startsNumber : Bool := isDigit c || (c = '.' && (cs.head?.map isDigit).getD false)
    if c = ' ' ∨ c = '\t' ∨ c = '\x0c' then scanFrom names fuel cs
    else if startsNumber then
      match takeNumber (c :: cs) with
      | some (tokens, rest) => (scanFrom names fuel rest).map (tokens ++ ·)
      | none => none
    else if Text.startsName c then
      let name := c :: cs.takeWhile Text.isWord
      match ofName names name with
      | some tokens => (scanFrom names fuel (cs.drop (name.length - 1))).map (tokens ++ ·)
      | none => none
    else
      match c, cs with
      | '*', '*' :: cs => (scanFrom names fuel cs).map (.sign '^' :: ·)
      | '/', '/' :: cs => (scanFrom names fuel cs).map (.sign '_' :: ·)
      | c, cs =>
        if "+-*/%^(),!".toList.contains c then (scanFrom names fuel cs).map (.sign c :: ·) else none

/-- The tokens of a formula. -/
def scan (names : Names) (t : Text) : Option (List Token) :=
  let t := Text.trim t
  scanFrom names t.length t

theorem ofName_whole {names : Names} {name : Text} (hk : keywords.contains name = false)
    (hn : names.find? name = none) (hw : Names.isWhole name = true) :
    ofName names name = some [.term (.symbol ⟨name, .complex⟩)] := by
  simp only [ofName, hk, hn, hw, Bool.false_eq_true, if_true, if_false]

end Token

end Stepwise.Formula
