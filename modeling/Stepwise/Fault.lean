import Stepwise.Number.Layout
import Stepwise.Text.Quoted

/-!
# Faults

A fault is the cause for which a computation gives no answer. Its `message` is what the narration
and the error reports show, and its `kind` says who raised it: the engine behind a solution, the
reader of expressions, or one of the conversions of settings and numbers.

Results: `isEngine_iff`, the three kinds for which an arithmetic problem counts as invalid.
-/

namespace Stepwise

/-- The families of faults. -/
inductive FaultKind where
  /-- The caller handed over something that is no problem. -/
  | invalidProblem
  /-- The engine could not complete a computation. -/
  | engine
  /-- An expression could not be read. -/
  | unreadable
  /-- An equation has no solution. -/
  | noSolution
  /-- A value of the right type that cannot be used. -/
  | badValue
  /-- A value of the wrong type. -/
  | badType
  /-- A number out of the range of doubles. -/
  | overflow
  /-- A division of doubles by zero. -/
  | zeroDivision
  /-- A look-up of an absent key. -/
  | missingKey
  /-- A position outside a text. -/
  | missingIndex
  /-- Bytes that are no text. -/
  | undecodable
  /-- Any other family, by name. -/
  | other (name : Text)
  deriving DecidableEq, Repr

/-- Faults of these kinds come from the engine or its parts. -/
def FaultKind.isEngine : FaultKind → Bool
  | .engine | .unreadable | .noSolution => true
  | _ => false

/-- What is wrong with a sequence of bytes that should be text. -/
inductive ByteFault where
  | invalidStart
  | invalidContinuation
  | unexpectedEnd
  deriving DecidableEq, Repr

/-- The cause of a failure. -/
inductive Fault where
  /-- The problem is blank or no text. -/
  | invalidProblem
  | emptyImage
  /-- An image above the limit, given in megabytes. -/
  | imageTooLarge (limit : Binary64)
  | noTextInImage
  /-- No token starts at this position. -/
  | unexpectedCharacter (c : Char) (position : Nat)
  | unexpectedToken (spelling : Text)
  | unexpectedEnd
  /-- The token that was wanted, and the one that stands in its place, if any. -/
  | expected (wanted : Text) (found : Option Text)
  | emptyExpression
  | expressionNotText
  /-- The engine's reader refuses the formula. -/
  | unreadableFormula (formula : Text)
  /-- The formula reads as something that is no expression, such as a bare function. -/
  | notAnExpression (formula : Text)
  | undefined (formula : Text)
  | manyEqualSigns
  | missingSide
  | noAntiderivative (integrand : Text)
  | limitDiffers (left right : Text)
  | limitAtVariable (name target : Text)
  | limitAtComplexInfinity
  | unsolvable (equation name : Text)
  | invalidDifferentiation
  | invalidIntegration
  | invalidLimit
  | invalidVariable (name : Text)
  | noEquation
  | noSolutions
  | invalidArithmetic
  /-- A numeral with more digits than can be read. -/
  | numeralTooLong (digits : Nat)
  /-- An integer with more digits than can be written. -/
  | integerTooLong
  | notAnInteger (text : Text)
  | notANumber (typeName : Text)
  | integerOfNan
  | integerOfInfinity
  | integerTooLarge
  | quotientTooLarge
  | divisionByZero
  | notIterable (typeName : Text)
  | notJoinable
  | itemNotText (index : Nat) (typeName : Text)
  /-- The name of an unknown is no text. -/
  | nameNotText (typeName : Text)
  /-- No kind of problem is called by this value, given as it is shown. -/
  | notAProblemKind (shown : Text)
  | noBracket (c : Char)
  | noSuchEntry (key : Text)
  | outsideText
  /-- What is wrong with the bytes from `first` to `last`, of which `byte` is the first. -/
  | badBytes (fault : ByteFault) (byte first last : Nat)
  /-- No level of the log has this name. -/
  | unknownLevel (name : Text)
  /-- Neither an integer nor a text is to be the level of the log; the value as it is shown. -/
  | notALevel (shown : Text)
  /-- Raised by an engine from outside the library. -/
  | raised (kind : FaultKind) (message : Text)
  deriving DecidableEq

namespace Fault

/-- The longest numeral that is read or written, in digits. -/
def digitLimit : Nat := 4300

/-- The family of a fault. -/
def kind : Fault → FaultKind
  | invalidProblem | emptyImage | imageTooLarge _ | noTextInImage => .invalidProblem
  | unexpectedCharacter .. | unexpectedToken _ | unexpectedEnd | expected .. | emptyExpression
  | expressionNotText | unreadableFormula _ | notAnExpression _ => .unreadable
  | undefined _ | manyEqualSigns | missingSide | noAntiderivative _ | limitDiffers ..
  | limitAtVariable .. | limitAtComplexInfinity | unsolvable .. | invalidDifferentiation
  | invalidIntegration | invalidLimit | invalidVariable _ | noEquation | invalidArithmetic => .engine
  | noSolutions => .noSolution
  | numeralTooLong _ | integerTooLong | notAnInteger _ | integerOfNan | notAProblemKind _
  | unknownLevel _ => .badValue
  | notANumber _ | notIterable _ | notJoinable | itemNotText .. | nameNotText _ | notALevel _ =>
    .badType
  | integerOfInfinity | integerTooLarge | quotientTooLarge => .overflow
  | divisionByZero => .zeroDivision
  | noBracket _ | noSuchEntry _ => .missingKey
  | outsideText => .missingIndex
  | badBytes .. => .undecodable
  | raised kind _ => kind

/-- The two hexadecimal digits of a byte. -/
def byteText (b : Nat) : Text := "0x".toList ++ Text.hex 2 b

/-- What is wrong with the bytes. -/
def byteFaultText : ByteFault → Text
  | .invalidStart => "invalid start byte".toList
  | .invalidContinuation => "invalid continuation byte".toList
  | .unexpectedEnd => "unexpected end of data".toList

/-- The wording of a fault. -/
def message : Fault → Text
  | invalidProblem => "Please provide a valid mathematical expression".toList
  | emptyImage => "No image file provided".toList
  | imageTooLarge limit => "Image too large (max ".toList ++ limit.briefText ++ "MB)".toList
  | noTextInImage => "No math problem found in image".toList
  | unexpectedCharacter c position =>
    "Unexpected character ".toList ++ Text.quote [c] ++ " at position ".toList ++
      Text.ofNat position
  | unexpectedToken spelling => "Unexpected ".toList ++ Text.quote spelling
  | unexpectedEnd => "Unexpected end of expression".toList
  | expected wanted found =>
    "Expected ".toList ++ Text.quote wanted ++ " but found ".toList ++
      match found with
      | none => "end of input".toList
      | some spelling => Text.quote spelling
  | emptyExpression => "Empty expression".toList
  | expressionNotText => "Expression must be a string".toList
  | unreadableFormula formula =>
    "Could not parse expression: '".toList ++ formula ++ "'. Error: ...".toList
  | notAnExpression formula => "Could not parse expression: '".toList ++ formula ++ "'.".toList
  | undefined formula =>
    "'".toList ++ formula ++ "' is undefined (division by zero?)".toList
  | manyEqualSigns => "Equation must contain exactly one '=' sign.".toList
  | missingSide => "Both sides of the equation must have expressions.".toList
  | noAntiderivative integrand => "Could not find an antiderivative of ".toList ++ integrand
  | limitDiffers left right =>
    "The limit does not exist since left hand limit = ".toList ++ left ++
      " and right hand limit = ".toList ++ right
  | limitAtVariable x target =>
    "Limits approaching a variable point are not supported (".toList ++ x ++ " -> ".toList ++
      target ++ ")".toList
  | limitAtComplexInfinity => "Limits at complex infinity are not implemented".toList
  | unsolvable equation x =>
    "Could not solve ".toList ++ equation ++ " for ".toList ++ x
  | invalidDifferentiation => "Invalid differentiation format".toList
  | invalidIntegration => "Invalid integration format".toList
  | invalidLimit => "Invalid limit format. Use lim(expression, target)".toList
  | invalidVariable name => "'".toList ++ name ++ "' is not a valid variable name".toList
  | noEquation => "No equation to solve".toList
  | noSolutions => "No solutions found".toList
  | invalidArithmetic => "Invalid arithmetic expression".toList
  | numeralTooLong digits =>
    "Exceeds the limit (4300 digits) for integer string conversion: value has ".toList ++
      Text.ofNat digits ++ " digits; use sys.set_int_max_str_digits() to increase the limit".toList
  | integerTooLong =>
    ("Exceeds the limit (4300 digits) for integer string conversion; " ++
      "use sys.set_int_max_str_digits() to increase the limit").toList
  | notAnInteger text =>
    "invalid literal for int() with base 10: ".toList ++ (Text.quote text).take 200
  | notANumber typeName =>
    ("int() argument must be a string, a bytes-like object or a real number, not '").toList ++
      typeName ++ "'".toList
  | integerOfNan => "cannot convert float NaN to integer".toList
  | integerOfInfinity => "cannot convert float infinity to integer".toList
  | integerTooLarge => "int too large to convert to float".toList
  | quotientTooLarge => "integer division result too large for a float".toList
  | divisionByZero => "float division by zero".toList
  | notIterable typeName =>
    "argument of type '".toList ++ typeName ++ "' is not iterable".toList
  | notJoinable => "can only join an iterable".toList
  | itemNotText index typeName =>
    "sequence item ".toList ++ Text.ofNat index ++ ": expected str instance, ".toList ++
      typeName ++ " found".toList
  | nameNotText typeName =>
    "name should be a string, not <class '".toList ++ typeName ++ "'>".toList
  | notAProblemKind shown => shown ++ " is not a valid ProblemType".toList
  | noBracket c => Text.quote [c]
  | noSuchEntry key => key
  | outsideText => "string index out of range".toList
  | badBytes fault byte first last =>
    "'utf-8' codec can't decode ".toList ++
      (if first = last then
        "byte ".toList ++ byteText byte ++ " in position ".toList ++ Text.ofNat first
      else
        "bytes in position ".toList ++ Text.ofNat first ++ '-' :: Text.ofNat last) ++
      ": ".toList ++ byteFaultText fault
  | unknownLevel name => "Unknown level: ".toList ++ Text.quote name
  | notALevel shown => "Level not an integer or a valid string: ".toList ++ shown
  | raised .missingKey text => Text.quote text
  | raised _ text => text

/-- Does the fault come from the engine or its parts? -/
def isEngine (f : Fault) : Bool := f.kind.isEngine

theorem isEngine_iff (f : Fault) :
    f.isEngine = true ↔ f.kind = .engine ∨ f.kind = .unreadable ∨ f.kind = .noSolution := by
  unfold isEngine FaultKind.isEngine
  cases f.kind <;> simp

end Fault

end Stepwise
