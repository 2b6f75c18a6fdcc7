import Stepwise.Fault
import Stepwise.Text.Blank

/-!
# Brackets and calls

`closing` finds the bracket that closes a given one; only brackets of its own kind count, so that
the round brackets inside `[f(x)]` do not matter. `callArguments` finds the first call of one of
some functions in a text and cuts what stands between its brackets at the commas outside inner
brackets. `isWrapped` and `unwrapped` recognise and drop brackets around a whole text.

Results: `closingFrom_lt`, a closing position lies inside the text, and `length_unwrapOnce_lt`, from
which the dropping of brackets ends.
-/

namespace Stepwise

open Text

namespace Bracket

/-- The bracket that closes an opening one. -/
def closer? : Char → Option Char
  | '(' => some ')'
  | '[' => some ']'
  | '\x7b' => some '\x7d'
  | _ => none

/-- The position at which the number of open brackets, `depth` at the start, first returns to
zero. -/
def closingFrom (opener closer : Char) : (depth : Nat) → Text → Option Nat
  | _, [] => none
  | depth, c :: cs =>
    if c = opener then (closingFrom opener closer (depth + 1) cs).map (· + 1)
    else if c = closer then
      if depth ≤ 1 then some 0 else (closingFrom opener closer (depth - 1) cs).map (· + 1)
    else (closingFrom opener closer depth cs).map (· + 1)

/-- The position of the bracket that closes the one at position `i`, if it is ever closed. -/
def closing (t : Text) (i : Nat) : Except Fault (Option Nat) :=
  match t[i]? with
  | none => .error .outsideText
  | some c =>
    match closer? c with
    | none => .error (.noBracket c)
    | some d => .ok ((closingFrom c d 0 (t.drop i)).map (i + ·))

theorem closingFrom_lt {opener closer : Char} {depth : Nat} {t : Text} {j : Nat}
    (h : closingFrom opener closer depth t = some j) : j < t.length := by
  induction t generalizing depth j with
  | nil => simp [closingFrom] at h
  | cons c cs ih =>
    unfold closingFrom at h
    split at h
    · obtain ⟨k, hk, rfl⟩ := Option.map_eq_some_iff.1 h
      simpa using ih hk
    · split at h
      · split at h
        · simp at h; simp [← h]
        · obtain ⟨k, hk, rfl⟩ := Option.map_eq_some_iff.1 h
          simpa using ih hk
      · obtain ⟨k, hk, rfl⟩ := Option.map_eq_some_iff.1 h
        simpa using ih hk

/-- What stands before the bracket that closes the last of `depth + 1` open round ones. -/
def enclosed : (depth : Nat) → Text → Option Text
  | _, [] => none
  | depth, c :: cs =>
    if c = '(' then (enclosed (depth + 1) cs).map (c :: ·)
    else if c = ')' then
      match depth with
      | 0 => some []
      | depth + 1 => (enclosed depth cs).map (c :: ·)
    else (enclosed depth cs).map (c :: ·)

/-- The pieces of a text between the commas outside round brackets, where `depth` counts the
brackets that are open. -/
def pieces : (depth : Int) → Text → List Text
  | _, [] => [[]]
  | depth, c :: cs =>
    let depth := if c = '(' then depth + 1 else if c = ')' then depth - 1 else depth
    if c = ',' ∧ depth = 0 then [] :: pieces depth cs
    else
      match pieces depth cs with
      | [] => [[c]]
      | piece :: rest => (c :: piece) :: rest

/-- The arguments in what stands between the brackets of a call. -/
def splitArguments (body : Text) : List Text := (pieces 0 body).map trim

/-- What follows the opening bracket of a call of one of the functions at the front of a text. -/
def callHead? (names : List Text) (t : Text) : Option Text :=
  names.findSome? fun name =>
    if (name ++ ['(']).isPrefixOf t then some (t.drop (name.length + 1)) else none

/-- What follows the opening bracket of the first call of one of the functions. `afterLetter` says
whether a letter comes right before the text: then no name starts there. -/
def firstCall? (names : List Text) : (afterLetter : Bool) → Text → Option Text
  | _, [] => none
  | afterLetter, c :: cs =>
    let here := if afterLetter then none else callHead? names (c :: cs)
    match here with
    | some rest => some rest
    | none => firstCall? names c.isAlpha cs

/-- The arguments of the first call of one of the functions, unless there is none or its bracket is
never closed. -/
def callArguments (names : List Text) (t : Text) : Option (List Text) := do
  let rest ← firstCall? names false t
  let body ← enclosed 0 rest
  return splitArguments body

/-- Is the text empty at the moment when the number of open round brackets, `depth` at the start,
first returns to zero? -/
def closesAtEnd : (depth : Nat) → Text → Bool
  | _, [] => false
  | depth, c :: cs =>
    if c = '(' then closesAtEnd (depth + 1) cs
    else if c = ')' then if depth ≤ 1 then cs.isEmpty else closesAtEnd (depth - 1) cs
    else closesAtEnd depth cs

/-- Is the whole text in one pair of round brackets? -/
def isWrapped (t : Text) : Bool := t.head? == some '(' && closesAtEnd 0 t

/-- A wrapped text without its outer brackets and the blanks next to them. -/
def unwrapOnce (t : Text) : Text := trim (t.drop 1).dropLast

theorem length_dropEndWhile_le (p : Char → Bool) (t : Text) :
    (dropEndWhile p t).length ≤ t.length := by
  induction t with
  | nil => simp [dropEndWhile]
  | cons c cs ih =>
    unfold dropEndWhile
    split
    next h => split <;> simp
    next d ds h => rw [h] at ih; simpa using ih

theorem length_trim_le (t : Text) : (trim t).length ≤ t.length := by
  unfold trim
  exact Nat.le_trans (length_dropEndWhile_le _ _) ((List.dropWhile_suffix _).sublist.length_le)

theorem length_unwrapOnce_lt {t : Text} (h : isWrapped t = true) :
    (unwrapOnce t).length < t.length := by
  cases t with
  | nil => simp [isWrapped] at h
  | cons c cs =>
    refine Nat.lt_of_le_of_lt (length_trim_le _) ?_
    simp only [List.length_dropLast, List.length_drop, List.length_cons]
    omega

/-- The text without the brackets around all of it. -/
def unwrapped (t : Text) : Text :=
  if isWrapped t then unwrapped (unwrapOnce t) else t
termination_by t.length
decreasing_by exact length_unwrapOnce_lt (by assumption)

end Bracket

end Stepwise
