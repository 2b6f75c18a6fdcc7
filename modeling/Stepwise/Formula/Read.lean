import Stepwise.Formula.Token

/-!
# Reading formulas

The grammar is that of expressions, with a plus sign allowed in front, factorials and double
factorials, and lists of
several formulas between commas. Between two neighbouring operands a product sign is implied. A
callable before a parenthesis is called; before any other operand it is applied to the powers and
products that follow, as in `sin 2 x`; anywhere else it stands for itself, which only a formula
that consists of nothing else survives.

Each function reads one level from the front of the tokens and returns what is left; the fuel only
bounds the recursion.
-/

namespace Stepwise

/-- The operations between two formulas. -/
inductive Formula.Operation where
  | plus | minus | times | dividedBy | remainder | quotient | power
  deriving DecidableEq

/-- A formula as it is written, with its names resolved. -/
inductive Formula where
  | term (t : Term)
  | callable (c : Formula.Callable)
  | list (items : List Formula)
  | plus (f : Formula)
  | minus (f : Formula)
  | factorial (f : Formula)
  | doubleFactorial (f : Formula)
  | operation (op : Formula.Operation) (f g : Formula)
  | call (c : Formula.Callable) (arguments : List Formula)

namespace Formula

/-- Can an operand start here? -/
def startsOperand : List Token → Bool
  | .term _ :: _ => true
  | .callable _ :: _ => true
  | .sign '(' :: _ => true
  | _ => false

/-- What one level of the grammar reads, and the tokens after it. -/
abbrev Reading (α : Type) := Option (α × List Token)

/-- A formula with the factorial signs that follow it: one or two. -/
def factorials (f : Formula) : List Token → Reading Formula
  | .sign '!' :: .sign '!' :: .sign '!' :: _ => none
  | .sign '!' :: .sign '!' :: ts => some (.doubleFactorial f, ts)
  | .sign '!' :: ts => some (.factorial f, ts)
  | ts => some (f, ts)

mutual

/-- A sum: products with signs between them. -/
def sum : Nat → List Token → Reading Formula
  | 0, _ => none
  | n + 1, ts =>
    match product n ts with
    | some (f, ts) => sumTail n f ts
    | none => none

/-- The rest of a sum. -/
def sumTail : Nat → Formula → List Token → Reading Formula
  | 0, _, _ => none
  | n + 1, f, ts =>
    match ts with
    | .sign '+' :: ts =>
      match product n ts with
      | some (g, ts) => sumTail n (.operation .plus f g) ts
      | none => none
    | .sign '-' :: ts =>
      match product n ts with
      | some (g, ts) => sumTail n (.operation .minus f g) ts
      | none => none
    | ts => some (f, ts)

/-- A product: signed powers with `*`, `/` or nothing between them. -/
def product : Nat → List Token → Reading Formula
  | 0, _ => none
  | n + 1, ts =>
    match signed n ts with
    | some (f, ts) => productTail n f ts
    | none => none

/-- The rest of a product. -/
def productTail : Nat → Formula → List Token → Reading Formula
  | 0, _, _ => none
  | n + 1, f, ts =>
    match ts with
    | .sign '*' :: ts =>
      match signed n ts with
      | some (g, ts) => productTail n (.operation .times f g) ts
      | none => none
    | .sign '/' :: ts =>
      match signed n ts with
      | some (g, ts) => productTail n (.operation .dividedBy f g) ts
      | none => none
    | .sign '%' :: ts =>
      match signed n ts with
      | some (g, ts) => productTail n (.operation .remainder f g) ts
      | none => none
    | .sign '_' :: ts =>
      match signed n ts with
      | some (g, ts) => productTail n (.operation .quotient f g) ts
      | none => none
    | ts =>
      if startsOperand ts then
        match power n ts with
        | some (g, ts) => productTail n (.operation .times f g) ts
        | none => none
      else some (f, ts)

/-- A power with any number of signs in front. -/
def signed : Nat → List Token → Reading Formula
  | 0, _ => none
  | n + 1, ts =>
    match ts with
    | .sign '-' :: ts => (signed n ts).map fun (f, ts) => (.minus f, ts)
    | .sign '+' :: ts => (signed n ts).map fun (f, ts) => (.plus f, ts)
    | ts => power n ts

/-- An operand, perhaps with factorial signs, and perhaps with an exponent. -/
def power : Nat → List Token → Reading Formula
  | 0, _ => none
  | n + 1, ts =>
    match operand n ts with
    | some (f, ts) =>
      match factorials f ts with
      | some (f, .sign '^' :: ts) =>
        (signed n ts).map fun (g, ts) => (.operation .power f g, ts)
      | r => r
    | none => none

/-- A term, a callable, a call or a parenthesis. -/
def operand : Nat → List Token → Reading Formula
  | 0, _ => none
  | n + 1, ts =>
    match ts with
    | .term t :: ts => some (.term t, ts)
    | .callable c :: .sign '(' :: ts =>
      match items n ts with
      | some ((fs, _), .sign ')' :: ts) => some (.call c fs, ts)
      | _ => none
    | .callable c :: ts =>
      if startsOperand ts then (chain n ts).map fun (f, ts) => (.call c [f], ts)
      else some (.callable c, ts)
    | .sign '(' :: ts =>
      match items n ts with
      | some (([f], false), .sign ')' :: ts) => some (f, ts)
      | some ((fs, _), .sign ')' :: ts) => some (.list fs, ts)
      | _ => none
    | _ => none

/-- Formulas between commas, and whether there is any comma. A comma may stand at the end. -/
def items : Nat → List Token → Reading (List Formula × Bool)
  | 0, _ => none
  | n + 1, ts =>
    match ts with
    | [] => some (([], false), [])
    | .sign ')' :: ts => some (([], false), .sign ')' :: ts)
    | ts =>
      match sum n ts with
      | some (f, .sign ',' :: ts) => (items n ts).map fun ((fs, _), ts) => ((f :: fs, true), ts)
      | some (f, ts) => some (([f], false), ts)
      | none => none

/-- What a callable without a parenthesis is applied to: powers and products of operands that are
no parentheses. -/
def chain : Nat → List Token → Reading Formula
  | 0, _ => none
  | n + 1, ts =>
    match link n ts with
    | some (f, ts) => chainTail n f ts
    | none => none

/-- The rest of what a callable without a parenthesis is applied to. -/
def chainTail : Nat → Formula → List Token → Reading Formula
  | 0, _, _ => none
  | n + 1, f, ts =>
    match ts with
    | .sign '*' :: ts =>
      match link n ts with
      | some (g, ts) => chainTail n (.operation .times f g) ts
      | none => none
    | ts =>
      if startsOperand ts then
        match link n ts with
        | some (g, ts) => chainTail n (.operation .times f g) ts
        | none => none
      else some (f, ts)

/-- An operand that is no parenthesis, perhaps with exponents of the same kind. -/
def link : Nat → List Token → Reading Formula
  | 0, _ => none
  | n + 1, ts =>
    match ts with
    | .sign _ :: _ => none
    | ts =>
      match operand n ts with
      | some (f, ts) =>
        match factorials f ts with
        | some (f, .sign '^' :: ts) => (link n ts).map fun (g, ts) => (.operation .power f g, ts)
        | r => r
      | none => none

end

/-- The formula that a text is, if it is one. -/
def read? (names : Names) (t : Text) : Option Formula :=
  match Token.scan names t with
  | none => none
  | some [] => none
  | some ts =>
    match items (8 * ts.length + 8) ts with
    | some (([f], false), []) => some f
    | some ((fs, true), []) => some (.list fs)
    | _ => none

end Formula

end Stepwise
