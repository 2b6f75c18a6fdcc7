import Stepwise.Value
import Stepwise.Phrase.Pattern
import Stepwise.Text.Word

/-!
# Kinds of problems

A problem is one of five kinds, told by the words and signs in it. The kinds are tried in a fixed
order and the first one with a mark in the text wins; the marks of calculus come before the equals
sign, so that an equation with an integral in it is an integration. A text without any mark is
arithmetic. Case does not count.

Results: `ofName?_name`, a kind is found by its name, and `classify_eq_arithmetic_iff`, a text is
arithmetic when it has no mark.
-/

namespace Stepwise

open Text Pattern

/-- The kinds of problems. -/
inductive ProblemKind where
  | arithmetic
  | differentiation
  | integration
  | algebra
  | limit
  deriving DecidableEq, Repr

namespace ProblemKind

/-- All kinds. -/
def all : List ProblemKind := [arithmetic, differentiation, integration, algebra, limit]

/-- The name of a kind. -/
def name : ProblemKind → Text
  | arithmetic => "arithmetic".toList
  | differentiation => "differentiation".toList
  | integration => "integration".toList
  | algebra => "algebra".toList
  | limit => "limit".toList

/-- The kind with the given name. -/
def ofName? (t : Text) : Option ProblemKind := all.find? fun k => k.name == t

/-- The kind that a value names. -/
def ofValue : Value → Except Fault ProblemKind
  | .text t =>
    match ofName? t with
    | some k => .ok k
    | none => .error (.notAProblemKind (Text.quote t))
  | v => do throw (.notAProblemKind (← v.quoted))

/-- Is this one of the letters `a` to `z`? -/
def isSmallLetter (c : Char) : Bool := c.isLower

/-- The name of a function at a word boundary, with the opening bracket of a call. -/
def callOf (name : Text) (last : Option Char) : Pattern Unit := do
  guard (atBoundary last)
  literal name
  let _ ← blanks
  literal ['(']

/-- The operator of a derivative. -/
def derivativeMark : Pattern Unit := do
  literal ['d']
  let _ ← blanks
  literal ['/']
  let _ ← blanks
  literal ['d']
  let _ ← blanks
  let _ ← one isSmallLetter

/-- A function of one letter with a prime. -/
def primeMark (last : Option Char) : Pattern Unit := do
  guard (atBoundary last)
  let _ ← one isSmallLetter
  literal ['\'']
  let _ ← blanks
  literal ['(']

/-- The word "lim", at a word boundary and not the start of a longer word. -/
def limMark (last : Option Char) : Pattern Unit := do
  guard (atBoundary last)
  literal "lim".toList
  notBefore isSmallLetter

/-- Does a text in small letters have a mark of the kind? Arithmetic has none. -/
def marks : ProblemKind → Text → Bool
  | arithmetic, _ => false
  | integration, t =>
    holds "integrate".toList t || holds ['∫'] t || occurs (callOf "int".toList) t ||
      holds "integral".toList t
  | differentiation, t =>
    holds "derivative".toList t || holds "differentiate".toList t ||
      occurs (fun _ => derivativeMark) t || holds ['′'] t || occurs primeMark t ||
      occurs (callOf "diff".toList) t
  | limit, t => holds "limit".toList t || occurs limMark t
  | algebra, t => holds "solve".toList t || holds ['='] t

/-- The kinds in the order in which their marks are looked for. -/
def ranking : List ProblemKind := [integration, differentiation, limit, algebra]

/-- The kind of a problem. -/
def classify (t : Text) : ProblemKind :=
  (ranking.find? fun k => k.marks (lowerText t)).getD arithmetic

/-- The kind of a value; what is no text is arithmetic. -/
def classifyValue : Value → ProblemKind
  | .text t => classify t
  | _ => arithmetic

theorem ofName?_name (k : ProblemKind) : ofName? k.name = some k := by
  cases k <;> decide

theorem classify_eq_arithmetic_iff (t : Text) :
    classify t = arithmetic ↔ ∀ k : ProblemKind, k.marks (lowerText t) = false := by
  unfold classify
  constructor
  · intro h k
    cases e : ranking.find? (fun k => k.marks (lowerText t)) with
    | some j =>
      rw [e] at h
      have m := List.find?_some e
      simp only [Option.getD_some] at h
      simp [h, marks] at m
    | none =>
      have := List.find?_eq_none.1 e
      cases k with
      | arithmetic => rfl
      | differentiation => simpa using this differentiation (by simp [ranking])
      | integration => simpa using this integration (by simp [ranking])
      | algebra => simpa using this algebra (by simp [ranking])
      | limit => simpa using this limit (by simp [ranking])
  · intro h
    have : ranking.find? (fun k => k.marks (lowerText t)) = none :=
      List.find?_eq_none.2 fun k _ => by simp [h k]
    simp [this]

end ProblemKind

end Stepwise
