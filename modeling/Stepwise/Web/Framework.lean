import Stepwise.Json.Read
import Stepwise.Settings.Basic

/-!
# Frameworks of web services

A framework stands between a service and its callers. It finds the handler of a call and checks what
the handler is to be given, and it makes an answer of what the handler returns. `Framework` is what
the service needs of one, and `Framework.strict` is one.

The framework `strict` answers `/health` and `/api/solve`. A body that is no JSON, or no record with
a text as its problem, is rejected with the places of its flaws. A response that is returned as it is
must be writable as JSON; in a record that is checked first, numbers that are not finite become
nothing. What cannot be written is an internal error.
-/

namespace Stepwise.Web

/-- What is asked of a service. -/
inductive Method where
  | get
  | post
  deriving DecidableEq, Repr

/-- What a posted body is. -/
inductive Body where
  /-- A JSON value. -/
  | value (v : Value)
  /-- A text still to be read. -/
  | raw (t : Text)

/-- A request to a service. -/
structure Call where
  method : Method
  path : Text
  body : Body

/-- What is wrong with a body, with the place. -/
structure Objection where
  type : Text
  place : List Value

/-- What a service answers. -/
inductive Answer where
  | json (status : Nat) (body : Value)
  | plain (status : Nat) (body : Text)
  /-- The body was rejected. -/
  | rejected (objections : List Objection)

/-- The status of an answer. -/
def Answer.status : Answer → Nat
  | json status _ => status
  | plain status _ => status
  | rejected _ => 422

/-- The handlers of the service, with what they are given. -/
inductive Handler where
  | health
  | solve (problem : Text)
  deriving DecidableEq, Repr

/-- What a service needs between itself and its callers. -/
structure Framework where
  /-- The handler of a call, or the answer to a call that reaches none. -/
  handler : Call → Except Answer Handler
  /-- The answer with a body that is returned as it is. -/
  respond : Nat → Value → Answer
  /-- The answer with a record that is checked first. Fields that are nothing are left out. -/
  respondChecked : List (Text × Value) → Answer
  /-- The answer with the reason why a handler gave up. -/
  refuse : Nat → Text → Answer
  /-- The answer where a handler failed. -/
  fail : Fault → Answer

/-- A record with a text for every name. -/
def texts (fields : List (Text × Text)) : Value :=
  .record (fields.map fun (name, t) => (name, .text t))

/-- The fields that are something. -/
def withoutNulls (fields : List (Text × Value)) : List (Text × Value) :=
  fields.filter fun f => !f.2.isNull

mutual

/-- Can the value be written as JSON? Every double must be finite, and no integer too long. -/
def isWritable : Value → Bool
  | .float x => x.isFinite
  | .int n => (Value.integerText n).toOption.isSome
  | .list items => areWritable items
  | .record fields => areWritableFields fields
  | _ => true

/-- Can all values be written as JSON? -/
def areWritable : List Value → Bool
  | [] => true
  | v :: vs => isWritable v && areWritable vs

/-- Can the values of all fields be written as JSON? -/
def areWritableFields : List (Text × Value) → Bool
  | [] => true
  | (_, v) :: fields => isWritable v && areWritableFields fields

end

namespace Framework

mutual

/-- The value with nothing in place of every double that is not finite. -/
def finite : Value → Value
  | .float x => if x.isFinite then .float x else .null
  | .list items => .list (finiteItems items)
  | .record fields => .record (finiteFields fields)
  | v => v

/-- The items, each with nothing in place of doubles that are not finite. -/
def finiteItems : List Value → List Value
  | [] => []
  | v :: vs => finite v :: finiteItems vs

/-- The fields, each with nothing in place of doubles that are not finite. -/
def finiteFields : List (Text × Value) → List (Text × Value)
  | [] => []
  | (name, v) :: fields => (name, finite v) :: finiteFields fields

end

/-- The internal error. -/
def internalError : Answer := .plain 500 "Internal Server Error".toList

/-- The answer with a JSON body, if that can be written. -/
def written (status : Nat) (body : Value) : Answer :=
  if isWritable body then .json status body else internalError

/-- An answer that consists of a detail. -/
def detail (status : Nat) (t : Text) : Answer := .json status (texts [("detail".toList, t)])

/-- The place of a body, or of something in it. -/
def bodyPlace (inner : List Value) : List Value := .text "body".toList :: inner

/-- The problem in a posted value. -/
def problemOf : Value → Except Answer Text
  | .record fields =>
    let place := bodyPlace [.text "problem".toList]
    match Settings.field? fields "problem".toList with
    | some (.text t) => .ok t
    | some _ => .error (.rejected [⟨"string_type".toList, place⟩])
    | none => .error (.rejected [⟨"missing".toList, place⟩])
  | _ => .error (.rejected [⟨"model_attributes_type".toList, bodyPlace []⟩])

/-- The value of a posted body. -/
def valueOf : Body → Except Answer Value
  | .value v => .ok v
  | .raw [] => .error (.rejected [⟨"missing".toList, bodyPlace []⟩])
  | .raw t =>
    let t := match t with
      | '\uFEFF' :: t => t
      | t => t
    match Json.read t with
    | .ok v => .ok v
    | .error (.malformed n) =>
      .error (.rejected [⟨"json_invalid".toList, bodyPlace [.int n]⟩])
    | .error (.numeralTooLong _) => .error (detail 400 "There was an error parsing the body".toList)

/-- The addresses that are answered. -/
inductive Route where
  | health
  | solve
  deriving DecidableEq, Repr

/-- The address of a path. Slashes at its end and a query behind it do not count. -/
def route? (path : Text) : Option Route :=
  let path := path.takeWhile fun c => c != '?' && c != '#'
  let path := if path = ['/'] then path else Text.dropEndWhile (· == '/') path
  if path = "/health".toList then some .health
  else if path = "/api/solve".toList then some .solve
  else none

/-- The handler of a call. -/
def dispatch (call : Call) : Except Answer Handler :=
  match route? call.path, call.method with
  | some .health, .get => .ok .health
  | some .solve, .post => do
    let v ← valueOf call.body
    let problem ← problemOf v
    return .solve problem
  | some _, _ => .error (detail 405 "Method Not Allowed".toList)
  | none, _ => .error (detail 404 "Not Found".toList)

/-- The framework that checks what it is given and what it writes. -/
def strict : Framework where
  handler := dispatch
  respond := written
  respondChecked fields := written 200 (finite (.record (withoutNulls fields)))
  refuse := detail
  fail _ := internalError

end Framework

end Stepwise.Web
