import Stepwise.Settings.Config
import Stepwise.Solve.Engine
import Stepwise.Term.Rank
import Stepwise.Text.Blank

/-!
# Libraries of symbolic computation

An engine does not compute: it reads the texts of a request, has a library compute with the
expressions, and writes what comes back. `Library` is what it asks of one, and `Library.engine` is
the engine over it, which is the same whatever the library.

A text is read in a `Scope`. Each configuration gives names to some things that the library has
under other names, and a request about a variable binds that variable first; what else a name
means is the library's affair. Whether equations are solved over the real numbers is said by the
domain of the bound symbol.

Result: `parse_eq_ok`, what is read is an expression.
-/

namespace Stepwise

/-- What names stand for while a text is read. -/
structure Scope where
  /-- The variable that the request is about. It hides whatever else its name means. -/
  bound : Option Symbol
  /-- Names for things that the library has under other names. -/
  names : List (Text × Text)

/-- The names that every configuration gives. -/
def Scope.added : List (Text × Text) :=
  [("e".toList, "E".toList), ("pi".toList, "pi".toList), ("oo".toList, "oo".toList),
    ("inf".toList, "oo".toList), ("infinity".toList, "oo".toList), ("ln".toList, "log".toList),
    ("abs".toList, "Abs".toList)]

/-- The scope of a request under a configuration. -/
def Config.scope (config : Config) (bound : Option Symbol) : Scope :=
  ⟨bound, Scope.added ++ config.aliases⟩

/-- What a library makes of a text. -/
inductive Library.Reading (α : Type) where
  | expression (e : α)
  /-- Something that is no expression, such as a function without arguments. -/
  | other
  | unreadable

/-- What reads, writes and computes with expressions. -/
structure Library where
  Expr : Type
  /-- Numbers in place of expressions without symbols. -/
  Approximation : Type
  read : Scope → Text → Library.Reading Expr
  /-- The written expression; an integer in it may be too long. -/
  write : Expr → Except Fault Text
  /-- Does an infinity or something undefined occur in the expression? -/
  isImproper : Expr → Bool
  /-- The names of the symbols in the expression, each of them once. -/
  symbols : Expr → List Text
  /-- The integer that the expression is. -/
  integer? : Expr → Option Int
  approximate : Expr → Except Fault Approximation
  isReal : Approximation → Bool
  toBinary64 : Approximation → Except Fault Binary64
  simplify : Expr → Except Fault Expr
  expand : Expr → Except Fault Expr
  derivative : Symbol → Expr → Except Fault Expr
  /-- An antiderivative, unless an integral is left in it. -/
  antiderivative? : Symbol → Expr → Except Fault (Option Expr)
  /-- The sign of an infinity: is it the negative one? -/
  infinity? : Expr → Option Bool
  /-- The limit at a point. That there is none, or that it cannot be found, is the engine's fault. -/
  limit : Symbol → Expr → Expr → Approach → Except Fault Expr
  difference : Expr → Expr → Except Fault Expr
  /-- Does the expression come to zero when it is simplified? -/
  vanishes : Expr → Except Fault Bool
  /-- The solutions of an equation between two expressions, unless there is no way to find them. -/
  solve? : Symbol → Expr → Expr → Except Fault (Option (List Expr))

/-- The two sides of an equation; an expression alone is compared with zero. -/
def Algebra.sides (equation : Text) : Except Fault (Text × Text) :=
  match Text.splitOn '=' equation with
  | [side] => .ok (side, ['0'])
  | [left, right] =>
    let left := Text.trim left
    let right := Text.trim right
    if left.isEmpty || right.isEmpty then .error .missingSide else .ok (left, right)
  | _ => .error .manyEqualSigns

namespace Library

variable (L : Library)

/-- The expression that a text stands for. -/
def parse (scope : Scope) (t : Text) : Except Fault L.Expr :=
  match L.read scope t with
  | .expression e => .ok e
  | .other => .error (.notAnExpression t)
  | .unreadable => .error (.unreadableFormula t)

/-- The text of an expression as a reply. -/
def written (e : L.Expr) : Reply := do return .text (← L.write e)

/-- An expression as a reply: an integer, the double that another real number is turned into, and
the text of everything else. -/
def reply (e : L.Expr) : Reply :=
  if (L.symbols e).isEmpty then do
    let z ← L.approximate e
    if L.isReal z then
      match L.integer? e with
      | some n => return .int n
      | none => return .float (← L.toBinary64 z)
    else L.written e
  else L.written e

/-- The value of an expression, which has to be readable as a tree, too. -/
def evaluate (config : Config) (expression : Text) : Reply := do
  let _ ← Tree.read config.functions expression
  let e ← L.parse (config.scope none) expression
  if L.isImproper e then throw (.undefined expression)
  L.reply e

/-- A simpler form of an expression. -/
def simplified (config : Config) (expression : Text) : Reply := do
  let e ← L.parse (config.scope none) expression
  L.written (← L.simplify e)

/-- An expression multiplied out. No name is bound while it is read. -/
def expanded (config : Config) (expression : Value) : Reply := do
  let e ← L.parse (config.scope none) (← expression.display)
  L.written (← L.expand e)

/-- The derivative of an expression by a variable. -/
def differentiate (config : Config) (expression variableName : Text) : Reply := do
  let x : Symbol := ⟨variableName, .complex⟩
  let e ← L.parse (config.scope (some x)) expression
  L.written (← L.derivative x e)

/-- An antiderivative of an expression by a variable. -/
def integrate (config : Config) (expression variableName : Text) : Reply := do
  let x : Symbol := ⟨variableName, .complex⟩
  let e ← L.parse (config.scope (some x)) expression
  match ← L.antiderivative? x e with
  | some v => L.written v
  | none => throw (.noAntiderivative expression)

/-- The side from which a point is approached: an infinity has one only. -/
def approachTo (point : L.Expr) (approach : Approach) : Approach :=
  match L.infinity? point with
  | some negative => if negative then .fromRight else .fromLeft
  | none => approach

/-- A limit of an expression. -/
def limitOf (config : Config) (expression variableName target : Text) (approach : Approach) :
    Reply := do
  let x : Symbol := ⟨variableName, .complex⟩
  let e ← L.parse (config.scope (some x)) expression
  let point ← L.parse (config.scope none) target
  L.written (← L.limit x e point (L.approachTo point approach))

/-- The expressions on the two sides of an equation. -/
def parseSides (scope : Scope) (equation : Text) : Except Fault (L.Expr × L.Expr) := do
  let (left, right) ← Algebra.sides equation
  let l ← L.parse scope left
  let r ← L.parse scope right
  return (l, r)

/-- The names of the unknowns in an equation, in order. -/
def freeVariables (config : Config) (equation : Text) : Reply := do
  let (l, r) ← L.parseSides (config.scope none) equation
  let names := L.symbols (← L.difference l r)
  return .list ((sortBy Text.compare names).map .text)

/-- Do both sides of an equation agree for all values? No name is bound while they are read. -/
def isIdentity (config : Config) (equation : Text) : Reply := do
  let (l, r) ← L.parseSides (config.scope none) equation
  return .bool (← L.vanishes (← L.difference l r))

/-- The solutions of an equation for an unknown. -/
def solve (config : Config) (equation variableName : Text) : Reply := do
  let x : Symbol := ⟨variableName, if config.realSolutions then .real else .complex⟩
  let (l, r) ← L.parseSides (config.scope (some x)) equation
  match ← L.solve? x l r with
  | none => throw (.unsolvable equation variableName)
  | some es => return .list (← es.mapM L.written)

/-- The answer to a request. -/
def answer (config : Config) : Request → Reply
  | .evaluate t => L.evaluate config t
  | .differentiate t x => L.differentiate config t x
  | .integrate t x => L.integrate config t x
  | .expand v => L.expanded config v
  | .limit t x a d => L.limitOf config t x a d
  | .freeVariables t => L.freeVariables config t
  | .isIdentity t => L.isIdentity config t
  | .solve t (.text x) => L.solve config t x
  | .solve _ v => .error (.nameNotText v.typeName)

/-- The engine over a library. -/
def engine (config : Config) : Engine := .ofFunction (L.answer config)

theorem parse_eq_ok {scope : Scope} {t : Text} {e : L.Expr} :
    L.parse scope t = .ok e ↔ L.read scope t = .expression e := by
  unfold parse
  cases L.read scope t <;> simp

end Library

end Stepwise
