import Stepwise.Algebra.Compact
import Stepwise.Algebra.Identity
import Stepwise.Algebra.Solve
import Stepwise.Calculus.Antiderivative
import Stepwise.Calculus.Limit
import Stepwise.Formula.Value
import Stepwise.Solve.Library
import Stepwise.Term.Text

/-!
# The library of terms

`Algebra.library` is a library of symbolic computation whose expressions are terms, and
`Algebra.engine` the engine over it. It stands in for a larger library and knows less: of other
functions than the usual ones it has the names only, numerals and terms are bounded by what can be
computed with, and its readers have no bound on the nesting of brackets.

A rational number is approximated by its 57 leading bits, rounded to 53 (`Dyad.short`), which is not
always the nearest double. All other real numbers are known to many more bits than that and become
the nearest double.

Result: `parse_library`, what the library makes of a text is what the reader of formulas does.
-/

namespace Stepwise

namespace Algebra

open Formula

/-- The names of a scope. Those that every configuration gives are known anyway. -/
def namesOf (scope : Scope) : Names := ⟨scope.bound, scope.names.drop Scope.added.length⟩

/-- The names of a configuration, with the variable of a request. -/
def names (config : Config) (bound : Option Symbol) : Names := ⟨bound, config.aliases⟩

/-- The text of a term, if it can be written. -/
def write (t : Term) : Except Fault Text :=
  if t.isWritable then .ok t.text else .error .integerTooLong

/-- The approximate value of a term, if it has one. -/
def approximate (t : Term) : Option Approx :=
  match t with
  | .number q => some (.ofReal (Dyad.short q))
  | t => t.approx?

/-- A term in a message, where powers are written with two stars. -/
def starred (t : Term) : Text := t.text.flatMap fun c => if c = '^' then ['*', '*'] else [c]

/-- A fault that tells of the given terms, or that they cannot be written. -/
def toldOf (ts : List Term) (fault : Fault) : Fault :=
  if Term.areWritable ts then fault else .raised .engine Fault.integerTooLong.message

/-- A limit that was not found, as it is written. -/
def openLimit (x : Symbol) (t target : Term) (side : Text) : Except Fault Term :=
  if t.isWritable && target.isWritable then
    .ok (.symbol ⟨"Limit(".toList ++ t.text ++ ", ".toList ++ x.name ++ ", ".toList ++
      target.text ++ ", dir='".toList ++ side ++ "')".toList, .complex⟩)
  else .error .integerTooLong

/-- The limit of a term at a point, approached from one side or from both. -/
def limitOf (x : Symbol) (t target : Term) (approach : Approach) : Except Fault Term :=
  let fromSide (side : Calculus.Side) : Option Term := Calculus.limit? x t target side
  let orOpen (found : Option Term) (side : Text) : Except Fault Term :=
    match found with
    | some v => .ok v
    | none => openLimit x t target side
  if target.mentions x then
    .error (toldOf [target] (.limitAtVariable x.name (starred target)))
  else if target = .complexInfinity then .error .limitAtComplexInfinity
  else if target = .undefined then .ok .undefined
  else
    match target, approach with
    | .infinity negative, _ => orOpen (fromSide .above) (if negative then ['+'] else ['-'])
    | _, .fromRight => orOpen (fromSide .above) ['+']
    | _, .fromLeft => orOpen (fromSide .below) ['-']
    | _, .bothSides =>
      match fromSide .below, fromSide .above with
      | some l, some r =>
        if l = r then .ok l
        else if isInfinite l && isInfinite r then .ok .complexInfinity
        else .error (toldOf [l, r] (.limitDiffers (starred l) (starred r)))
      | _, _ => openLimit x t target ['+', '-']
where
  /-- Is this an infinity, perhaps with a direction that is known? -/
  isInfinite : Term → Bool
    | .infinity _ => true
    | .complexInfinity => true
    | .product (.infinity _ :: directions) => directions.all Term.isClosed
    | _ => false

/-- The library of terms. -/
def library : Library where
  Expr := Term
  Approximation := Option Approx
  read scope t :=
    match Formula.evaluate (namesOf scope) t with
    | .ok e => .expression e
    | .error (.notAnExpression _) => .other
    | .error _ => .unreadable
  write := write
  isImproper := Term.isImproper
  symbols t := (t.symbols.map Symbol.name).eraseDups
  integer? t :=
    match t with
    | .number q => if q.den = 1 then some q.num else none
    | _ => none
  approximate t := .ok (approximate t)
  isReal z := z.any Approx.isReal
  toBinary64 z := .ok ((z.map fun z => z.re.toBinary64).getD .nan)
  simplify t := .ok (compact t)
  expand t := .ok t.expand
  derivative x t := .ok (t.derivative x)
  antiderivative? x t := .ok (Calculus.antiderivative? x t)
  infinity? t :=
    match t with
    | .infinity negative => some negative
    | _ => none
  limit := limitOf
  difference s t := .ok (Term.sub s t)
  vanishes t := .ok (vanishes t)
  solve? x s t := .ok (solve? x s t)

/-- The engine of a configuration. -/
def engine (config : Config) : Engine := library.engine config

/-- A simpler form of an expression. -/
def simplified (config : Config) (expression : Text) : Reply := library.simplified config expression

theorem namesOf_scope (config : Config) (bound : Option Symbol) :
    namesOf (config.scope bound) = names config bound := rfl

theorem parse_library (config : Config) (bound : Option Symbol) (t : Text) :
    library.parse (config.scope bound) t = Formula.evaluate (names config bound) t := by
  unfold Library.parse library
  simp only [namesOf_scope]
  unfold Formula.evaluate
  repeat' split
  all_goals simp_all

end Algebra

end Stepwise
