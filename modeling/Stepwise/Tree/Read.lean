import Stepwise.Tree.Basic

/-!
# Reading expressions

The grammar, from loose to tight binding: sums and differences, products and quotients (a product
sign may be left out before a number, a name or a parenthesis), a leading minus, powers. Sums and
products group to the left, powers to the right, and an exponent may start with a minus. A name is
the head of a call if it is one of the given functions and a parenthesis follows; before a
parenthesis any other name is a factor.

Each function reads one level from the front of a list of tokens and returns the tokens that are
left. The fuel only bounds the recursion: `Tree.ofTokens?` gives enough for every list.
-/

namespace Stepwise

namespace Numeral

/-- The value of a numeral's spelling. -/
def ofSpelling (spelling : Text) : Except Fault Numeral :=
  if spelling.any (".eE".toList.contains ·) then
    .ok (.decimal (((Decimal.read spelling).map Decimal.toBinary64).getD .nan))
  else if Fault.digitLimit < spelling.length then .error (.numeralTooLong spelling.length)
  else .ok (.whole (Text.valueOf spelling))

end Numeral

namespace Tree

/-- What one level of the grammar reads: a tree, and the tokens after it. -/
abbrev Reading := Except Fault (Tree × List Token)

/-- Can an operand of an implied product start here? -/
def startsOperand : List Token → Bool
  | .number _ :: _ => true
  | .name _ :: _ => true
  | .sign '(' :: _ => true
  | _ => false

/-- Takes the closing parenthesis off the front. -/
def expectClose : List Token → Except Fault (List Token)
  | .sign ')' :: ts => .ok ts
  | [] => .error (.expected [')'] none)
  | t :: _ => .error (.expected [')'] (some t.spelling))

mutual

/-- A sum: products with `+` or `-` between them. -/
def sum (functions : List Text) : Nat → List Token → Reading
  | 0, _ => .error .unexpectedEnd
  | n + 1, ts => do
    let (first, ts) ← product functions n ts
    sumTail functions n first ts

/-- The rest of a sum whose terms so far are `left`. -/
def sumTail (functions : List Text) : Nat → Tree → List Token → Reading
  | 0, _, _ => .error .unexpectedEnd
  | n + 1, left, ts =>
    match ts with
    | .sign '+' :: ts => do
      let (right, ts) ← product functions n ts
      sumTail functions n (.operation .plus left right) ts
    | .sign '-' :: ts => do
      let (right, ts) ← product functions n ts
      sumTail functions n (.operation .minus left right) ts
    | _ => .ok (left, ts)

/-- A product: signed factors with `*`, `/` or nothing between them. -/
def product (functions : List Text) : Nat → List Token → Reading
  | 0, _ => .error .unexpectedEnd
  | n + 1, ts => do
    let (first, ts) ← signed functions n ts
    productTail functions n first ts

/-- The rest of a product whose factors so far are `left`. -/
def productTail (functions : List Text) : Nat → Tree → List Token → Reading
  | 0, _, _ => .error .unexpectedEnd
  | n + 1, left, ts =>
    match ts with
    | .sign '*' :: ts => do
      let (right, ts) ← signed functions n ts
      productTail functions n (.operation .times left right) ts
    | .sign '/' :: ts => do
      let (right, ts) ← signed functions n ts
      productTail functions n (.operation .dividedBy left right) ts
    | ts =>
      if startsOperand ts then do
        let (right, ts) ← signed functions n ts
        productTail functions n (.operation .times left right) ts
      else .ok (left, ts)

/-- A power with any number of minus signs in front. -/
def signed (functions : List Text) : Nat → List Token → Reading
  | 0, _ => .error .unexpectedEnd
  | n + 1, ts =>
    match ts with
    | .sign '-' :: ts => do
      let (operand, ts) ← signed functions n ts
      return (.negation operand, ts)
    | ts => power functions n ts

/-- An operand, perhaps with an exponent. -/
def power (functions : List Text) : Nat → List Token → Reading
  | 0, _ => .error .unexpectedEnd
  | n + 1, ts => do
    let (base, ts) ← primary functions n ts
    match ts with
    | .sign '^' :: ts => do
      let (exponent, ts) ← signed functions n ts
      return (.operation .power base exponent, ts)
    | ts => return (base, ts)

/-- A number, a name, a call or a parenthesis. -/
def primary (functions : List Text) : Nat → List Token → Reading
  | 0, _ => .error .unexpectedEnd
  | n + 1, ts =>
    match ts with
    | [] => .error .unexpectedEnd
    | .number spelling :: ts => do
      let value ← Numeral.ofSpelling spelling
      return (.constant value spelling, ts)
    | .name spelling :: .sign '(' :: ts =>
      if functions.contains spelling then do
        let (args, ts) ← arguments functions n ts
        let ts ← expectClose ts
        return (.call spelling args, ts)
      else return (.name spelling, .sign '(' :: ts)
    | .name spelling :: ts => return (.name spelling, ts)
    | .sign '(' :: ts => do
      let (content, ts) ← sum functions n ts
      let ts ← expectClose ts
      return (.parenthesis content, ts)
    | .sign c :: _ => .error (.unexpectedToken [c])

/-- The arguments of a call: sums with commas between them. -/
def arguments (functions : List Text) : Nat → List Token → Except Fault (List Tree × List Token)
  | 0, _ => .error .unexpectedEnd
  | n + 1, ts => do
    let (first, ts) ← sum functions n ts
    match ts with
    | .sign ',' :: ts => do
      let (more, ts) ← arguments functions n ts
      return (first :: more, ts)
    | ts => return ([first], ts)

end

/-- The tree of a list of tokens. A token is at most six levels below the one before it, which
bounds the fuel. -/
def ofTokens? (functions : List Text) (tokens : List Token) : Except Fault Tree :=
  match tokens with
  | [] => .error .emptyExpression
  | tokens => do
    let (tree, rest) ← sum functions (8 * tokens.length + 8) tokens
    match rest with
    | [] => return tree
    | t :: _ => .error (.unexpectedToken t.spelling)

/-- The names that head a call when a parenthesis follows. -/
def defaultFunctions : List Text :=
  ["sin".toList, "cos".toList, "tan".toList, "sec".toList, "csc".toList, "cot".toList,
   "asin".toList, "acos".toList, "atan".toList, "sinh".toList, "cosh".toList, "tanh".toList,
   "exp".toList, "log".toList, "ln".toList, "sqrt".toList, "abs".toList]

/-- The tree of an expression, in which the given names head calls. -/
def read (functions : List Text) (t : Text) : Except Fault Tree := do
  ofTokens? functions (← Token.scan t)

end Tree

end Stepwise
