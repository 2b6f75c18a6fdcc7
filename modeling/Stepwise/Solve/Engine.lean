import Stepwise.Problem.Solution
import Stepwise.Tree.Read

/-!
# Engines

An engine does the algebra and calculus that solutions tell about. It is asked one thing at a time,
and it may answer with any value or fail with any fault; what it answers may depend on everything
that it has been asked and has answered before. It also says how the expressions of a trace are
read, which is `Tree.read` unless it says otherwise. An engine without a memory is given by a
function on requests (`Engine.ofFunction`), a recorded conversation by its replies
(`Engine.ofReplies`).

`Run` is a computation that asks an engine and tells steps. A run that fails keeps the steps that
were told and the exchanges that were made.

Result: `ofReplies_exhausted`.
-/

namespace Stepwise

/-- The sides from which a target is approached. -/
inductive Approach where
  | bothSides
  | fromRight
  | fromLeft
  deriving DecidableEq, Repr

/-- How an approach is written. -/
def Approach.text : Approach → Text
  | bothSides => ['+', '-']
  | fromRight => ['+']
  | fromLeft => ['-']

/-- What an engine can be asked. -/
inductive Request where
  | evaluate (expression : Text)
  | differentiate (expression variableName : Text)
  | integrate (expression variableName : Text)
  /-- To multiply out what an engine has answered. -/
  | expand (expression : Value)
  | limit (expression variableName target : Text) (approach : Approach)
  | freeVariables (equation : Text)
  | isIdentity (equation : Text)
  | solve (equation : Text) (variableName : Value)

/-- The name of a request in records of conversations. -/
def Request.name : Request → Text
  | evaluate _ => "evaluate".toList
  | differentiate .. => "differentiate".toList
  | integrate .. => "integrate".toList
  | expand _ => "expand".toList
  | limit .. => "evaluate_limit".toList
  | freeVariables _ => "free_variables".toList
  | isIdentity _ => "is_identity".toList
  | solve .. => "solve_for_variable".toList

/-- What a request is about. -/
def Request.arguments : Request → List Value
  | evaluate t => [.text t]
  | differentiate t x => [.text t, .text x]
  | integrate t x => [.text t, .text x]
  | expand v => [v]
  | limit t x a d => [.text t, .text x, .text a, .text d.text]
  | freeVariables t => [.text t]
  | isIdentity t => [.text t]
  | solve t x => [.text t, x]

/-- What an engine replies. -/
abbrev Reply := Except Fault Value

/-- A request and its reply. -/
structure Exchange where
  request : Request
  reply : Reply

/-- What does the algebra and calculus. -/
structure Engine where
  /-- The reply to a request after what has been exchanged before. -/
  reply : List Exchange → Request → Reply
  /-- The tree of an expression in which the given names head calls. -/
  read : List Text → Text → Except Fault Tree := Tree.read

/-- An engine is asked by applying it. -/
instance : CoeFun Engine fun _ => List Exchange → Request → Reply := ⟨Engine.reply⟩

namespace Engine

/-- The engine without a memory. -/
def ofFunction (f : Request → Reply) : Engine where
  reply _ r := f r

/-- The fault of an engine that has no replies left. -/
def exhausted : Fault := .raised .engine "script exhausted".toList

/-- The engine that gives the recorded replies in order, whatever it is asked. -/
def ofReplies (replies : List Reply) : Engine where
  reply before _ := (replies[before.length]?).getD (.error exhausted)

theorem ofFunction_read (f : Request → Reply) : (ofFunction f).read = Tree.read := rfl

theorem ofReplies_exhausted {replies : List Reply} {before : List Exchange} (r : Request)
    (h : replies.length ≤ before.length) : ofReplies replies before r = .error exhausted := by
  simp [ofReplies, List.getElem?_eq_none h]

end Engine

/-- What has happened so far. -/
structure Session where
  exchanges : List Exchange
  steps : List Step

/-- The session in which nothing has happened. -/
def Session.start : Session := ⟨[], []⟩

/-- A computation that asks an engine and tells steps. -/
abbrev Run (α : Type) := ExceptT Fault (StateM Session) α

namespace Run

/-- Asks the engine. -/
def ask (engine : Engine) (r : Request) : Run Value := fun s =>
  let reply := engine s.exchanges r
  (reply, { s with exchanges := s.exchanges ++ [⟨r, reply⟩] })

/-- Tells a step. -/
def tell (step : Step) : Run Unit := fun s =>
  (.ok (), { s with steps := s.steps ++ [step] })

/-- Tells several steps. -/
def tellAll (steps : List Step) : Run Unit := fun s =>
  (.ok (), { s with steps := s.steps ++ steps })

/-- The value of a computation that needs no engine. -/
def ofExcept {α : Type} (e : Except Fault α) : Run α := fun s => (e, s)

/-- The text of a value in a sentence. -/
def display (v : Value) : Run Text := ofExcept v.display

end Run

end Stepwise
