/-!
# Linear equations

A linear equation over the rational numbers is the list of its coefficients, followed by a
constant: `[a, b, c]` says `a x + b y + c = 0`. Systems are solved by elimination; an unknown that
nothing determines is zero.
-/

namespace Stepwise.Linear

/-- The value of the left side of an equation. -/
def value : (equation xs : List Rat) → Rat
  | a :: as, x :: xs => a * x + value as xs
  | c :: _, [] => c
  | [], _ => 0

/-- An equation minus `k` times another one. -/
def subtract (k : Rat) : (equation other : List Rat) → List Rat
  | a :: as, b :: bs => (a - k * b) :: subtract k as bs
  | _, _ => []

/-- The first coefficient. -/
def head (equation : List Rat) : Rat := equation.head?.getD 0

/-- An equation without its first unknown, which is eliminated by means of `pivot`. -/
def eliminate (pivot equation : List Rat) : List Rat :=
  (subtract (head equation / head pivot) equation pivot).tail

/-- The first equation that mentions the first unknown, and the others. -/
def takePivot : List (List Rat) → Option (List Rat × List (List Rat))
  | [] => none
  | e :: es =>
    if head e ≠ 0 then some (e, es)
    else (takePivot es).map fun (p, rest) => (p, e :: rest)

/-- A solution of equations in so many unknowns, if there is one. -/
def solveLinear : (unknowns : Nat) → List (List Rat) → Option (List Rat)
  | 0, es => if es.all fun e => value e [] = 0 then some [] else none
  | n + 1, es =>
    match takePivot es with
    | none => (solveLinear n (es.map List.tail)).map (0 :: ·)
    | some (p, rest) =>
      (solveLinear n (rest.map (eliminate p))).map fun xs => (-value p.tail xs / head p) :: xs

end Stepwise.Linear
