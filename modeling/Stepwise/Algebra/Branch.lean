import Stepwise.Algebra.Check
import Stepwise.Algebra.Radical
import Stepwise.Term.Reality

/-!
# Absolute values as branches

A term with absolute values of real terms is a choice between terms without them, each under the
condition that the arguments are negative or not. The innermost absolute values are resolved first.
An equation is solved on each branch, and solutions count where the conditions of their branch hold.
-/

namespace Stepwise.Algebra

open Term

/-- The condition that a term is not negative, or that it is. -/
structure Condition where
  term : Term
  negative : Bool

/-- A term that counts under conditions. -/
structure Branch where
  conditions : List Condition
  term : Term

namespace Branch

mutual

/-- An absolute value that mentions the unknown, without others inside it. -/
def innermost? (x : Symbol) : Term → Option Term
  | sum ts => innermostOf? x ts
  | product ts => innermostOf? x ts
  | power b y => (innermost? x b).or (innermost? x y)
  | apply f a =>
    match innermost? x a with
    | some t => some t
    | none => if f = .abs && a.mentions x then some a else none
  | form _ ts => innermostOf? x ts
  | _ => none

/-- An innermost absolute value in several terms. -/
def innermostOf? (x : Symbol) : List Term → Option Term
  | [] => none
  | t :: ts => (innermost? x t).or (innermostOf? x ts)

end

/-- The branches of a term, with at most so many absolute values: none if an argument is not known
to be real. -/
def resolve? (x : Symbol) : (depth : Nat) → Branch → Option (List Branch)
  | 0, _ => none
  | depth + 1, b =>
    match innermost? x b.term with
    | none => some [b]
    | some a =>
      if a.reality.real ≠ some true then none
      else
        let signed (v : Term) : Term := rewrite (fun u => if u = apply .abs a then v else u) b.term
        match resolve? x depth ⟨b.conditions ++ [⟨a, false⟩], signed a⟩,
            resolve? x depth ⟨b.conditions ++ [⟨a, true⟩], signed a.neg⟩ with
        | some bs, some cs => some (bs ++ cs)
        | _, _ => none

/-- Does a condition hold for a number? A number that is not real meets none. -/
def isMet (c : Condition) (x : Symbol) (v : Term) : Option Bool :=
  let t := substitute x v c.term
  if t.isClosed then
    t.approx?.bind fun z =>
      if isSmall z then some (!c.negative)
      else some (z.isReal && z.re.isNegative = c.negative)
  else none

/-- Points of the real line: the given ones, one between two neighbours, and one on each side. -/
def samplePoints (zeros : List Term) : List Term :=
  let known := zeros.filterMap fun t =>
    match t.approx? with
    | some z => if z.isReal then some (z.re, t) else none
    | none => none
  let known := sortBy (fun a b => if a.1.lt b.1 then .lt else .gt) known
  match known with
  | [] => [zero]
  | (_, t) :: rest =>
    let last := ((known.getLast?).map Prod.snd).getD t
    let between := (known.zip rest).map fun (a, b) => scale (1 / 2) (add a.2 b.2)
    sub t one :: add last one :: known.map Prod.snd ++ between

/-- Can the conditions of a branch hold together for some real number? Where the arguments have
no known zeros this is assumed. -/
def isPossible (zeros : Zeros) (x : Symbol) (b : Branch) : Bool :=
  match allSome (fun (c : Condition) => zeros x c.term) b.conditions with
  | none => true
  | some vs =>
    (samplePoints (vs.flatten.filter Term.isClosed)).any fun v =>
      b.conditions.all fun c => isMet c x v ≠ some false

/-- The condition as a term, simplified where it is about a single symbol. -/
def conditionTerm (c : Condition) : Term :=
  let t := expand c.term
  let (k, r) := t.coefficient
  match c.negative, decide (k < 0) with
  | false, false => form .atLeast [r, zero]
  | true, true => form .above [r, zero]
  | false, true => form .atLeast [zero, r]
  | true, false => form .above [zero, r]

/-- A solution on a branch: as it is, under a condition, or not at all. -/
def accepted? (x : Symbol) (b : Branch) (v : Term) : Option Term :=
  let open' := b.conditions.filter fun c => (isMet c x v).isNone
  if b.conditions.any fun c => isMet c x v = some false then none
  else
    match open' with
    | [] => some v
    | c :: _ =>
      some (form .piecewise [form .branch [v, conditionTerm ⟨substitute x v c.term, c.negative⟩],
        form .branch [undefined, form .always []]])

end Branch

/-- The solutions on all branches, unless a term vanishes on a whole branch. -/
def solveBranches? (zeros : Zeros) (x : Symbol) (bs : List Branch) : Option (List Term) :=
  (allSome (fun (b : Branch) =>
    if b.term = zero then if Branch.isPossible zeros x b then none else some []
    else (zeros x b.term).map fun vs => vs.filterMap (Branch.accepted? x b)) bs).map
    fun vs => vs.flatten.eraseDups

end Stepwise.Algebra
