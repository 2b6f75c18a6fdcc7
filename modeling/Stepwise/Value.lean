import Stepwise.Fault

/-!
# Values

Settings files, engine replies and solutions carry values whose shape is only known when they are
looked at: nothing, truth values, integers of any size, doubles, texts, lists and records. `display`
shows a value in a sentence; inside a list or record, texts are quoted (`quoted`). Writing an
integer can fail, because integers of more than 4300 digits are never written out.

Result: `display_int`.
-/

namespace Stepwise

/-- A value whose shape is known only at run time. -/
inductive Value where
  | null
  | bool (b : Bool)
  | int (n : Int)
  | float (x : Binary64)
  | text (t : Text)
  | list (items : List Value)
  | record (fields : List (Text × Value))

namespace Value

/-- The decimal text of an integer, unless it is too long to be written. -/
def integerText (n : Int) : Except Fault Text :=
  if 10 ^ Fault.digitLimit ≤ n.natAbs then .error .integerTooLong else .ok (Text.ofInt n)

mutual

/-- A value inside a list or record: as `Value.display`, but texts are quoted. -/
def quoted : Value → Except Fault Text
  | .null => .ok "None".toList
  | .bool true => .ok "True".toList
  | .bool false => .ok "False".toList
  | .int n => integerText n
  | .float x => .ok x.text
  | .text t => .ok (Text.quote t)
  | .list items => do
    let ts ← quotedItems items
    return '[' :: Text.joinWith ", ".toList ts ++ [']']
  | .record fields => do
    let ts ← quotedFields fields
    return '\x7b' :: Text.joinWith ", ".toList ts ++ ['\x7d']

/-- The items of a list, each quoted. -/
def quotedItems : List Value → Except Fault (List Text)
  | [] => .ok []
  | v :: vs => do
    let t ← quoted v
    let ts ← quotedItems vs
    return t :: ts

/-- The fields of a record, each with its quoted name. -/
def quotedFields : List (Text × Value) → Except Fault (List Text)
  | [] => .ok []
  | (name, v) :: fields => do
    let t ← quoted v
    let ts ← quotedFields fields
    return (Text.quote name ++ ": ".toList ++ t) :: ts

end

/-- A value as it is shown in a sentence. -/
def display : Value → Except Fault Text
  | .text t => .ok t
  | v => quoted v

/-- Does the value count as true? Nothing, zeros and empty texts, lists and records do not. -/
def isTrue : Value → Bool
  | .null => false
  | .bool b => b
  | .int n => n != 0
  | .float x => !x.isZero
  | .text t => !t.isEmpty
  | .list items => !items.isEmpty
  | .record fields => !fields.isEmpty

/-- The name of the value's type in error messages. -/
def typeName : Value → Text
  | .null => "NoneType".toList
  | .bool _ => "bool".toList
  | .int _ => "int".toList
  | .float _ => "float".toList
  | .text _ => "str".toList
  | .list _ => "list".toList
  | .record _ => "dict".toList

/-- Is this no value at all? -/
def isNull : Value → Bool
  | .null => true
  | _ => false

/-- The size of a number or truth value, as a fraction. -/
def number? : Value → Option (Int × Nat)
  | .bool b => some (if b then 1 else 0, 1)
  | .int n => some (n, 1)
  | .float x => x.toFraction?
  | _ => none

mutual

/-- Are two values equal? Truth values count as the integers 0 and 1, and a number is equal to
every number of the same size. -/
def same : Value → Value → Bool
  | .null, .null => true
  | .text s, .text t => s == t
  | .list xs, .list ys => sameItems xs ys
  | .record xs, .record ys => sameFields xs ys
  | v, w =>
    match number? v, number? w with
    | some (a, b), some (c, d) => a * d == c * b
    | _, _ => false

/-- Are two lists equal, item by item? -/
def sameItems : List Value → List Value → Bool
  | [], [] => true
  | v :: vs, w :: ws => same v w && sameItems vs ws
  | _, _ => false

/-- Are two records equal, field by field? -/
def sameFields : List (Text × Value) → List (Text × Value) → Bool
  | [], [] => true
  | (s, v) :: vs, (t, w) :: ws => s == t && same v w && sameFields vs ws
  | _, _ => false

end

theorem display_int {n : Int} (h : n.natAbs < 10 ^ Fault.digitLimit) :
    display (.int n) = .ok (Text.ofInt n) := by
  simp only [display, quoted, integerText]
  rw [if_neg (by omega)]

end Value

end Stepwise
