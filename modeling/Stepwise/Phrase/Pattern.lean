import Stepwise.Text.Letter
import Stepwise.Text.Blank

/-!
# Patterns

A pattern reads the front of a text. It may be able to do so in several ways: it lists them all,
each with the text that is left, and the best one comes first. A pattern that is followed by
another one gives way to it: the best way in which both can be read counts.

`replaceAll` puts something else in the place of whatever a pattern reads, from the left and
without overlap; the pattern is told the character before the place where it stands. `find?` looks
for the first place where a pattern can be read.

Results: `replaceAll_of_none`, a text in which the pattern is nowhere read stays as it is, and
`mem_many`, what a repetition reads and leaves makes up the text.
-/

namespace Stepwise

open Text

/-- A way to read the front of a text: all readings, best first, each with the rest. -/
def Pattern (α : Type) := Text → List (α × Text)

namespace Pattern

variable {α β : Type}

instance : Monad Pattern where
  pure a := fun t => [(a, t)]
  bind p f := fun t => (p t).flatMap fun (a, rest) => f a rest

/-- The best reading. -/
def best? (p : Pattern α) (t : Text) : Option (α × Text) := (p t).head?

/-- One character that satisfies `ok`. -/
def one (ok : Char → Bool) : Pattern Char := fun t =>
  match t with
  | [] => []
  | c :: cs => if ok c then [(c, cs)] else []

/-- Exactly the given text. -/
def literal (w : Text) : Pattern Unit := fun t =>
  if w.isPrefixOf t then [((), t.drop w.length)] else []

/-- The given small letters, in either case. -/
def word : Text → Pattern Unit
  | [] => fun t => [((), t)]
  | p :: ps => fun t =>
    match t with
    | [] => []
    | c :: cs => if sameLetter p c then word ps cs else []

/-- Either of two patterns, rather the first. -/
def either (p q : Pattern α) : Pattern α := fun t => p t ++ q t

/-- One of the given words, in either case. -/
def anyWord (ws : List Text) : Pattern Unit := fun t => ws.flatMap fun w => word w t

/-- The pattern, or nothing; rather the pattern. -/
def optional (p : Pattern α) : Pattern (Option α) := fun t =>
  (p t).map (fun (a, rest) => (some a, rest)) ++ [(none, t)]

/-- As many characters that satisfy `ok` as possible; fewer if need be. -/
def many (ok : Char → Bool) : Text → List (Text × Text)
  | [] => [([], [])]
  | c :: cs =>
    if ok c then (many ok cs).map (fun (w, rest) => (c :: w, rest)) ++ [([], c :: cs)]
    else [([], c :: cs)]

/-- As few characters that satisfy `ok` as possible; more if need be. -/
def few (ok : Char → Bool) : Text → List (Text × Text)
  | [] => [([], [])]
  | c :: cs =>
    ([], c :: cs) :: if ok c then (few ok cs).map (fun (w, rest) => (c :: w, rest)) else []

/-- As `many`, but at least one. -/
def many1 (ok : Char → Bool) : Pattern Text := do
  let c ← one ok
  let cs ← many ok
  return c :: cs

/-- As `few`, but at least one. -/
def few1 (ok : Char → Bool) : Pattern Text := do
  let c ← one ok
  let cs ← few ok
  return c :: cs

/-- Blanks, or none. -/
def blanks : Pattern Text := many isBlank

/-- At least one blank. -/
def blanks1 : Pattern Text := many1 isBlank

/-- Is this not a line break? -/
def inLine (c : Char) : Bool := c != '\n'

/-- Nothing, at the end of the text or of its last line. -/
def atEnd : Pattern Unit := fun t => if t = [] ∨ t = ['\n'] then [((), t)] else []

/-- Nothing, unless a character that satisfies `bad` follows. -/
def notBefore (bad : Char → Bool) : Pattern Unit := fun t =>
  match t with
  | c :: _ => if bad c then [] else [((), t)]
  | [] => [((), t)]

/-- Nothing, if a character that satisfies `ok` follows. -/
def before (ok : Char → Bool) : Pattern Unit := fun t =>
  match t with
  | c :: _ => if ok c then [((), t)] else []
  | [] => []

/-- Nothing, if the condition holds. -/
def guard (b : Bool) : Pattern Unit := fun t => if b then [((), t)] else []

/-- The rest of a text after whatever the pattern reads has been replaced by what it gives. `last`
is the character before, and the next `skip` characters have been read already. -/
def replaceFrom (p : Option Char → Pattern Text) : (last : Option Char) → (skip : Nat) → Text → Text
  | _, _, [] => []
  | _, skip + 1, c :: cs => replaceFrom p (some c) skip cs
  | last, 0, c :: cs =>
    match (p last).best? (c :: cs) with
    | none => c :: replaceFrom p (some c) 0 cs
    | some (new, rest) => new ++ replaceFrom p (some c) (cs.length - rest.length) cs

/-- The text with everything that the pattern reads replaced by what it gives. -/
def replaceAll (p : Option Char → Pattern Text) (t : Text) : Text := replaceFrom p none 0 t

/-- A place where a pattern was read: what comes before, what the pattern gives, what is left. -/
structure Found (α : Type) where
  before : Text
  reading : α
  rest : Text

/-- The first place of a text where the pattern can be read. -/
def findFrom (p : Option Char → Pattern α) : (last : Option Char) → Text → Option (Found α)
  | last, [] =>
    match (p last).best? [] with
    | some (a, rest) => some ⟨[], a, rest⟩
    | none => none
  | last, c :: cs =>
    match (p last).best? (c :: cs) with
    | some (a, rest) => some ⟨[], a, rest⟩
    | none => (findFrom p (some c) cs).map fun f => { f with before := c :: f.before }

/-- The first place where the pattern can be read. -/
def find? (p : Option Char → Pattern α) (t : Text) : Option (Found α) := findFrom p none t

/-- Can the pattern be read somewhere in the text? -/
def occurs (p : Option Char → Pattern α) (t : Text) : Bool := (find? p t).isSome

theorem replaceFrom_of_none (p : Option Char → Pattern Text) (last : Option Char) (t : Text)
    (h : ∀ l s, s <:+ t → (p l).best? s = none) : replaceFrom p last 0 t = t := by
  induction t generalizing last with
  | nil => rfl
  | cons c cs ih =>
    simp only [replaceFrom, h last (c :: cs) (List.suffix_refl _)]
    rw [ih _ fun l s hs => h l s (hs.trans (List.suffix_cons _ _))]

theorem replaceAll_of_none (p : Option Char → Pattern Text) (t : Text)
    (h : ∀ l s, s <:+ t → (p l).best? s = none) : replaceAll p t = t :=
  replaceFrom_of_none p none t h

theorem mem_many {ok : Char → Bool} {t w rest : Text} (h : (w, rest) ∈ many ok t) :
    w ++ rest = t ∧ ∀ c ∈ w, ok c = true := by
  induction t generalizing w with
  | nil => simp_all [many]
  | cons c cs ih =>
    unfold many at h
    split at h
    next hc =>
      simp only [List.mem_append, List.mem_map, Prod.mk.injEq, List.mem_singleton] at h
      rcases h with ⟨⟨v, r⟩, hv, rfl, rfl⟩ | ⟨rfl, rfl⟩
      · have := ih hv
        simp_all
      · simp
    next => simp_all

end Pattern

end Stepwise
