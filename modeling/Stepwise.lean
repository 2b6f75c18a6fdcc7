import Stepwise.Algebra.Branch
import Stepwise.Algebra.Check
import Stepwise.Algebra.Compact
import Stepwise.Algebra.Engine
import Stepwise.Algebra.Generators
import Stepwise.Algebra.HalfAngle
import Stepwise.Algebra.Identity
import Stepwise.Algebra.Isolate
import Stepwise.Algebra.Lambert
import Stepwise.Algebra.Logarithms
import Stepwise.Algebra.Radical
import Stepwise.Algebra.Roots
import Stepwise.Algebra.Simplify
import Stepwise.Algebra.Solve
import Stepwise.Bracket
import Stepwise.Calculus.Antiderivative
import Stepwise.Calculus.Circular
import Stepwise.Calculus.Derivative
import Stepwise.Calculus.Limit
import Stepwise.Calculus.Parametric
import Stepwise.Calculus.Particular
import Stepwise.Calculus.Rational
import Stepwise.Calculus.Scale
import Stepwise.Console
import Stepwise.Fault
import Stepwise.Formula.Name
import Stepwise.Formula.Numeric
import Stepwise.Formula.Read
import Stepwise.Formula.Token
import Stepwise.Formula.Value
import Stepwise.Json.Read
import Stepwise.Main
import Stepwise.Number.Approx
import Stepwise.Number.Binary64
import Stepwise.Number.Decimal
import Stepwise.Number.Dyad
import Stepwise.Number.Layout
import Stepwise.Number.Linear
import Stepwise.Number.Power
import Stepwise.Number.Root
import Stepwise.Number.Surd
import Stepwise.Phrase.Derivative
import Stepwise.Phrase.Glyph
import Stepwise.Phrase.Integral
import Stepwise.Phrase.Limit
import Stepwise.Phrase.Pattern
import Stepwise.Phrase.Rule
import Stepwise.Phrase.Worded
import Stepwise.Polynomial.Basic
import Stepwise.Polynomial.Decompose
import Stepwise.Polynomial.Factor
import Stepwise.Polynomial.Several
import Stepwise.Polynomial.Split
import Stepwise.Problem.Kind
import Stepwise.Problem.Solution
import Stepwise.Proofs.Arguments
import Stepwise.Proofs.Asked
import Stepwise.Proofs.Blankless
import Stepwise.Proofs.Calls
import Stepwise.Proofs.Capitals
import Stepwise.Proofs.Carried
import Stepwise.Proofs.Character
import Stepwise.Proofs.Composition
import Stepwise.Proofs.Depth
import Stepwise.Proofs.DerivativeForms
import Stepwise.Proofs.Divisors
import Stepwise.Proofs.Doubles
import Stepwise.Proofs.Encoding
import Stepwise.Proofs.Ending
import Stepwise.Proofs.Entry
import Stepwise.Proofs.Equations
import Stepwise.Proofs.Evaluation
import Stepwise.Proofs.ExactNumbers
import Stepwise.Proofs.Expansion
import Stepwise.Proofs.Extracted
import Stepwise.Proofs.ExtractedLimits
import Stepwise.Proofs.Forms
import Stepwise.Proofs.Fractions
import Stepwise.Proofs.Glosses
import Stepwise.Proofs.Grammar
import Stepwise.Proofs.Idempotence
import Stepwise.Proofs.Identities
import Stepwise.Proofs.Instructions
import Stepwise.Proofs.Integers
import Stepwise.Proofs.IntegralForms
import Stepwise.Proofs.IntegrationConstant
import Stepwise.Proofs.JoinedProducts
import Stepwise.Proofs.JoinedSums
import Stepwise.Proofs.JsonReading
import Stepwise.Proofs.Keyword
import Stepwise.Proofs.Lawful
import Stepwise.Proofs.Leaves
import Stepwise.Proofs.LetterPolynomials
import Stepwise.Proofs.Letters
import Stepwise.Proofs.Lexicon
import Stepwise.Proofs.Lexing
import Stepwise.Proofs.Lifting
import Stepwise.Proofs.LimitForms
import Stepwise.Proofs.LongNumerals
import Stepwise.Proofs.LongestMatch
import Stepwise.Proofs.Lookahead
import Stepwise.Proofs.Marks
import Stepwise.Proofs.Matching
import Stepwise.Proofs.Monomials
import Stepwise.Proofs.Narration
import Stepwise.Proofs.NestedOperators
import Stepwise.Proofs.Nesting
import Stepwise.Proofs.Operands
import Stepwise.Proofs.Operators
import Stepwise.Proofs.OtherCalls
import Stepwise.Proofs.Outcome
import Stepwise.Proofs.Overflow
import Stepwise.Proofs.Phrasing
import Stepwise.Proofs.Pieces
import Stepwise.Proofs.PlainCalls
import Stepwise.Proofs.PlainText
import Stepwise.Proofs.Polynomials
import Stepwise.Proofs.Postorder
import Stepwise.Proofs.Punctuation
import Stepwise.Proofs.Rationals
import Stepwise.Proofs.Reading
import Stepwise.Proofs.Refusals
import Stepwise.Proofs.Regrouping
import Stepwise.Proofs.Renaming
import Stepwise.Proofs.Replies
import Stepwise.Proofs.Reports
import Stepwise.Proofs.RoundTrip
import Stepwise.Proofs.RoundedTwice
import Stepwise.Proofs.Scales
import Stepwise.Proofs.Separators
import Stepwise.Proofs.SettingsFiles
import Stepwise.Proofs.Settled
import Stepwise.Proofs.Spacing
import Stepwise.Proofs.Spelling
import Stepwise.Proofs.Splice
import Stepwise.Proofs.Squeeze
import Stepwise.Proofs.Steps
import Stepwise.Proofs.Stripping
import Stepwise.Proofs.Surroundings
import Stepwise.Proofs.Tail
import Stepwise.Proofs.Tally
import Stepwise.Proofs.Tightening
import Stepwise.Proofs.Tracing
import Stepwise.Proofs.Untouched
import Stepwise.Proofs.Weight
import Stepwise.Proofs.WordedBody
import Stepwise.Settings.Basic
import Stepwise.Settings.Config
import Stepwise.Settings.Log
import Stepwise.Solve.Engine
import Stepwise.Solve.Library
import Stepwise.Solve.Question
import Stepwise.Solve.Solver
import Stepwise.Solve.Strategy
import Stepwise.Solve.Trace
import Stepwise.Term.Approximate
import Stepwise.Term.Basic
import Stepwise.Term.Build
import Stepwise.Term.Coefficients
import Stepwise.Term.Expand
import Stepwise.Term.Function
import Stepwise.Term.Measure
import Stepwise.Term.Rank
import Stepwise.Term.Reality
import Stepwise.Term.Signs
import Stepwise.Term.Text
import Stepwise.Text.Basic
import Stepwise.Text.Blank
import Stepwise.Text.Letter
import Stepwise.Text.Numeral
import Stepwise.Text.Printable
import Stepwise.Text.Quoted
import Stepwise.Text.Utf8
import Stepwise.Text.Word
import Stepwise.Tree.Basic
import Stepwise.Tree.Read
import Stepwise.Tree.Token
import Stepwise.Value
import Stepwise.Value.Operand
import Stepwise.Value.Rounding
import Stepwise.Web.Framework
import Stepwise.Web.Service
