import Stepwise.Fault
import Stepwise.Term.Basic

/-!
# Written terms

Terms are written as a person would type them: `^` for powers, `sqrt` for exponent one half, `*`
between factors, a single fraction bar with the factors of negative exponents behind it, and blanks
around the signs of a sum. What binds no tighter than its surroundings is put in parentheses. A term
that holds an integer of more than 4300 digits cannot be written (`isWritable`).
-/

namespace Stepwise.Term

/-- How tight a written term binds. -/
def binding : Term → Nat
  | number q => if q < 0 then 40 else if q.den = 1 then 100 else 50
  | infinity negative => if negative then 40 else 100
  | sum _ => 40
  | product ts =>
    match ts with
    | number q :: _ => if q < 0 then 40 else 50
    | infinity true :: _ => 40
    | _ => 50
  | power (constant .e) _ => 70
  | power _ _ => 60
  | apply _ _ => 70
  | form _ _ => 70
  | _ => 100

/-- A written term and how tight it binds. -/
structure Written where
  text : Text
  binding : Nat

/-- The text, in parentheses if it does not bind tighter than `level`. -/
def Written.within (level : Nat) (w : Written) : Text :=
  if w.binding ≤ level then '(' :: w.text ++ [')'] else w.text

/-- A rational number. -/
def ratText (q : Rat) : Text :=
  Text.ofInt q.num ++ if q.den = 1 then [] else '/' :: Text.ofNat q.den

/-- A power, by its written base and its exponent. -/
def powerText (base : Written) (x : Term) (exponent : Written) : Text :=
  match x with
  | number q =>
    if q = 1 / 2 then "sqrt(".toList ++ base.text ++ [')']
    else if q = -1 / 2 then "1/sqrt(".toList ++ base.text ++ [')']
    else if q = -1 then "1/".toList ++ base.within 60
    else base.within 60 ++ '^' :: exponent.within 60
  | _ => base.within 60 ++ '^' :: exponent.within 60

/-- A text with a sign: the sign that it begins with, and the rest. -/
def splitSign : Text → Bool × Text
  | '-' :: t => (true, t)
  | t => (false, t)

/-- The sum of written terms. -/
def sumText (ts : List Text) : Text :=
  match ts with
  | [] => ['0']
  | t :: ts => t ++ ts.flatMap fun t =>
      match splitSign t with
      | (true, t) => " - ".toList ++ t
      | (false, t) => " + ".toList ++ t

/-- A product of written factors, above and below the fraction bar. -/
def quotientText (negative : Bool) (above below : List Written) : Text :=
  let level := if negative then 40 else 50
  let above := if above.isEmpty then ["1".toList] else above.map (·.within level)
  let below := below.map (·.within level)
  let bar := match below with
    | [] => []
    | [t] => '/' :: t
    | ts => '/' :: '(' :: Text.joinWith ['*'] ts ++ [')']
  (if negative then ['-'] else []) ++ Text.joinWith ['*'] above ++ bar

/-- A positive number above and below the fraction bar. -/
def numberParts (q : Rat) : List Written × List Written :=
  (if q.num = 1 then [] else [⟨Text.ofInt q.num, 100⟩],
    if q.den = 1 then [] else [⟨Text.ofNat q.den, 100⟩])

/-- A factor with a negative exponent as it stands below the fraction bar. -/
def belowBar (base : Written) (x : Term) (exponent : Written) : Written :=
  let (c, r) := x.coefficient
  let y := scaled (-c) r
  if y = one then base
  else
    let exponent : Written := ⟨(splitSign exponent.text).2, y.binding⟩
    ⟨powerText base y exponent, 60⟩

/-- How a form is written, by its written parts. -/
def formText (f : Form) (parts : List Text) : Text :=
  match f with
  | .always => f.name
  | .atLeast | .above => Text.joinWith (' ' :: f.name ++ [' ']) parts
  | f => f.name ++ '(' :: Text.joinWith ", ".toList parts ++ [')']

mutual

/-- How a term is written. -/
def text : Term → Text
  | number q => ratText q
  | infinity negative => if negative then "-oo".toList else "oo".toList
  | complexInfinity => "zoo".toList
  | undefined => "nan".toList
  | constant c => c.name
  | symbol s => s.name
  | sum ts => sumText (texts ts)
  | product ts =>
    match ts with
    | number q :: rest =>
      let (above, below) := parts rest
      let (above', below') := numberParts (if q < 0 then -q else q)
      quotientText (q < 0) (above' ++ above) (below' ++ below)
    | infinity negative :: rest =>
      let (above, below) := parts rest
      quotientText negative (⟨"oo".toList, 100⟩ :: above) below
    | ts =>
      let (above, below) := parts ts
      quotientText false above below
  | power (constant .e) x => "exp(".toList ++ text x ++ [')']
  | power b x => powerText ⟨text b, b.binding⟩ x ⟨text x, x.binding⟩
  | apply f a => f.name ++ '(' :: text a ++ [')']
  | form f ts => formText f (texts ts)

/-- How several terms are written. -/
def texts : List Term → List Text
  | [] => []
  | t :: ts => text t :: texts ts

/-- The factors above and below the fraction bar. -/
def parts : List Term → List Written × List Written
  | [] => ([], [])
  | t :: ts =>
    let (above, below) := parts ts
    match t with
    | power (constant .e) x => (⟨"exp(".toList ++ text x ++ [')'], 70⟩ :: above, below)
    | power b x =>
      if x.coefficient.1 < 0 then
        (above, belowBar ⟨text b, b.binding⟩ x ⟨text x, x.binding⟩ :: below)
      else
        (⟨powerText ⟨text b, b.binding⟩ x ⟨text x, x.binding⟩, 60⟩ :: above, below)
    | t => (⟨text t, t.binding⟩ :: above, below)

end

mutual

/-- Is every integer in the term short enough to be written? -/
def isWritable : Term → Bool
  | number q => q.num.natAbs < 10 ^ Fault.digitLimit && q.den < 10 ^ Fault.digitLimit
  | sum ts => areWritable ts
  | product ts => areWritable ts
  | power b x => isWritable b && isWritable x
  | apply _ a => isWritable a
  | form _ ts => areWritable ts
  | _ => true

/-- Is every integer in the terms short enough to be written? -/
def areWritable : List Term → Bool
  | [] => true
  | t :: ts => isWritable t && areWritable ts

end

end Stepwise.Term
