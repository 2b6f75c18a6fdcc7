import Stepwise.Value

/-!
# Reading JSON

`Json.read` reads a JSON text into a value. A number without fraction and exponent is an integer,
any other number the nearest double; `NaN`, `Infinity` and `-Infinity` are numbers too. Of several
fields with one name the last counts. A text that is no JSON has a `Flaw` with the position at
which reading failed.

Texts are made of characters, so an escape that is half a surrogate pair without the other half, which
is no character, is read as the replacement character U+FFFD.

Each reader takes the position and the text from there, and returns the position and the text after
what it read.
-/

namespace Stepwise.Json

open Text

/-- Why a text is no readable JSON. -/
inductive Flaw where
  | malformed (position : Nat)
  | numeralTooLong (digits : Nat)
  deriving DecidableEq, Repr

/-- What is left of the text, and the position of its first character. -/
abbrev Rest := Nat × Text

/-- JSON's white space. -/
def isSpace (c : Char) : Bool := c == ' ' || c == '\t' || c == '\n' || c == '\r'

/-- Skips white space. -/
def skip : Nat → Text → Rest
  | n, [] => (n, [])
  | n, c :: cs => if isSpace c then skip (n + 1) cs else (n, c :: cs)

/-- The value of a hexadecimal digit. -/
def hexDigit? (c : Char) : Option Nat :=
  if '0' ≤ c ∧ c ≤ '9' then some (c.toNat - 0x30)
  else if 'a' ≤ c ∧ c ≤ 'f' then some (c.toNat - 0x57)
  else if 'A' ≤ c ∧ c ≤ 'F' then some (c.toNat - 0x37)
  else none

/-- The number written by four hexadecimal digits. -/
def hex4? (a b c d : Char) : Option Nat := do
  return 4096 * (← hexDigit? a) + 256 * (← hexDigit? b) + 16 * (← hexDigit? c) + (← hexDigit? d)

/-- The character of a code unit; for half a surrogate pair alone it is U+FFFD. -/
def charOf (n : Nat) : Char := if n.isValidChar then Char.ofNat n else '\uFFFD'

/-- The character of an escape letter. -/
def shortEscape? : Char → Option Char
  | '"' => some '"'
  | '\\' => some '\\'
  | '/' => some '/'
  | 'b' => some '\x08'
  | 'f' => some '\x0c'
  | 'n' => some '\n'
  | 'r' => some '\r'
  | 't' => some '\t'
  | _ => none

/-- The second half of a surrogate pair, written `\uXXXX`, with its code unit. A text too short to
hold one and more is left alone. -/
def lowHalf? (position : Nat) : Text → Except Flaw (Option (Nat × Text))
  | '\\' :: 'u' :: a :: b :: c :: d :: e :: cs =>
    match hex4? a b c d with
    | none => .error (.malformed (position + 1))
    | some n =>
      if 0xDC00 ≤ n ∧ n ≤ 0xDFFF then .ok (some (n, e :: cs)) else .ok none
  | _ => .ok none

/-- The text up to the closing quote. `start` is the position of the opening quote. -/
def readText (start : Nat) : (fuel : Nat) → Nat → Text → Except Flaw (Text × Rest)
  | _, _, [] => .error (.malformed start)
  | 0, _, _ :: _ => .error (.malformed start)
  | fuel + 1, n, c :: cs =>
    if c = '"' then .ok ([], n + 1, cs)
    else if c = '\\' then
      match cs with
      | [] => .error (.malformed start)
      | 'u' :: a :: b :: c :: d :: e :: cs =>
        match hex4? a b c d with
        | none => .error (.malformed (n + 1))
        | some unit => do
          let high := 0xD800 ≤ unit ∧ unit ≤ 0xDBFF
          let low ← if high then lowHalf? (n + 6) (e :: cs) else .ok none
          match low with
          | some (second, rest) =>
            let (t, rest) ← readText start fuel (n + 12) rest
            return (charOf (0x10000 + (unit - 0xD800) * 0x400 + (second - 0xDC00)) :: t, rest)
          | none =>
            let (t, rest) ← readText start fuel (n + 6) (e :: cs)
            return (charOf unit :: t, rest)
      | 'u' :: _ => .error (.malformed (n + 1))
      | e :: cs =>
        match shortEscape? e with
        | none => .error (.malformed n)
        | some c => do
          let (t, rest) ← readText start fuel (n + 2) cs
          return (c :: t, rest)
    else if c.toNat < 0x20 then .error (.malformed n)
    else do
      let (t, rest) ← readText start fuel (n + 1) cs
      return (c :: t, rest)

/-- Is this one of `0` to `9`? -/
def isPlainDigit (c : Char) : Bool := '0' ≤ c && c ≤ '9'

/-- The digits of the whole part: a single zero, or digits without a leading zero. -/
def wholePart (t : Text) : Text :=
  match t with
  | [] => []
  | c :: cs =>
    if c = '0' then [c]
    else if isPlainDigit c then c :: cs.takeWhile isPlainDigit
    else []

/-- The point and the digits after it, if there are any. -/
def fractionPart : Text → Text
  | '.' :: cs =>
    let digits := cs.takeWhile isPlainDigit
    if digits.isEmpty then [] else '.' :: digits
  | _ => []

/-- The exponent, if it has digits. -/
def exponentPart : Text → Text
  | e :: cs =>
    if e = 'e' ∨ e = 'E' then
      let sign := cs.takeWhile fun c => c == '+' || c == '-'
      let digits := (cs.drop sign.length).takeWhile isPlainDigit
      if sign.length ≤ 1 && !digits.isEmpty then e :: sign ++ digits else []
    else []
  | [] => []

/-- The number at the front of a text, if there is one. -/
def readNumber (n : Nat) (t : Text) : Except Flaw (Value × Rest) :=
  let (negative, u) :=
    match t with
    | '-' :: u => (true, u)
    | u => (false, u)
  let whole := wholePart u
  if whole.isEmpty then .error (.malformed n)
  else
    let afterWhole := u.drop whole.length
    let fraction := fractionPart afterWhole
    let afterFraction := afterWhole.drop fraction.length
    let exponent := exponentPart afterFraction
    let rest := afterFraction.drop exponent.length
    let position := n + (t.length - rest.length)
    if fraction.isEmpty && exponent.isEmpty then
      if Fault.digitLimit < whole.length then .error (.numeralTooLong whole.length)
      else
        let m : Int := valueOf whole
        .ok (.int (if negative then -m else m), position, rest)
    else
      let x := ((Decimal.read (whole ++ fraction ++ exponent)).map Decimal.toBinary64).getD .nan
      .ok (.float (if negative then x.neg else x), position, rest)

/-- The words that are values. -/
def words : List (Text × Value) :=
  [("null".toList, .null), ("true".toList, .bool true), ("false".toList, .bool false),
   ("NaN".toList, .float .nan), ("Infinity".toList, .float (.infinite false)),
   ("-Infinity".toList, .float (.infinite true))]

/-- A record with one field set; the field keeps its place if it is there. -/
def setField (name : Text) (v : Value) : List (Text × Value) → List (Text × Value)
  | [] => [(name, v)]
  | (other, w) :: fields =>
    if other = name then (name, v) :: fields else (other, w) :: setField name v fields

mutual

/-- The value at the front of a text. -/
def readValue : (fuel : Nat) → Nat → Text → Except Flaw (Value × Rest)
  | 0, n, _ => .error (.malformed n)
  | fuel + 1, n, t =>
    match t with
    | [] => .error (.malformed n)
    | '"' :: cs => do
      let (s, rest) ← readText n cs.length (n + 1) cs
      return (.text s, rest)
    | '[' :: cs =>
      match skip (n + 1) cs with
      | (n, ']' :: cs) => .ok (.list [], n + 1, cs)
      | (n, cs) => do
        let (items, rest) ← readItems fuel n cs
        return (.list items, rest)
    | '\x7b' :: cs =>
      match skip (n + 1) cs with
      | (n, '\x7d' :: cs) => .ok (.record [], n + 1, cs)
      | (n, cs) => do
        let (fields, rest) ← readFields fuel [] n cs
        return (.record fields, rest)
    | t =>
      match words.find? fun w => w.1.isPrefixOf t with
      | some (word, v) => .ok (v, n + word.length, t.drop word.length)
      | none => readNumber n t

/-- The items of a list, up to its closing bracket. -/
def readItems : (fuel : Nat) → Nat → Text → Except Flaw (List Value × Rest)
  | 0, n, _ => .error (.malformed n)
  | fuel + 1, n, t => do
    let (item, n, t) ← readValue fuel n t
    match skip n t with
    | (n, ']' :: t) => return ([item], n + 1, t)
    | (n, ',' :: t) =>
      let (n, t) := skip (n + 1) t
      let (items, rest) ← readItems fuel n t
      return (item :: items, rest)
    | (n, _) => .error (.malformed n)

/-- The fields of a record, up to its closing brace, laid over the fields read before. -/
def readFields :
    (fuel : Nat) → List (Text × Value) → Nat → Text → Except Flaw (List (Text × Value) × Rest)
  | 0, _, n, _ => .error (.malformed n)
  | fuel + 1, fields, n, t =>
    match t with
    | '"' :: t => do
      let (name, n, t) ← readText n t.length (n + 1) t
      match skip n t with
      | (n, ':' :: t) =>
        let (n, t) := skip (n + 1) t
        let (v, n, t) ← readValue fuel n t
        let fields := setField name v fields
        match skip n t with
        | (n, '\x7d' :: t) => return (fields, n + 1, t)
        | (n, ',' :: t) =>
          let (n, t) := skip (n + 1) t
          readFields fuel fields n t
        | (n, _) => .error (.malformed n)
      | (n, _) => .error (.malformed n)
    | _ => .error (.malformed n)

end

/-- The value of a JSON text. -/
def read (t : Text) : Except Flaw Value := do
  let (n, u) := skip 0 t
  let (v, n, u) ← readValue (2 * t.length + 2) n u
  match skip n u with
  | (_, []) => return v
  | (n, _ :: _) => .error (.malformed n)

/-- As `read`, but a byte order mark in front is refused. -/
def readUnmarked (t : Text) : Except Flaw Value :=
  match t with
  | '\uFEFF' :: _ => .error (.malformed 0)
  | t => read t

end Stepwise.Json
