import Stepwise.Proofs.Evaluation

/-!
# Exact arithmetic

`Tree.rational?` is the rational number that an expression stands for in which there is nothing but
numerals, signs and parentheses. Decimals are exact, whatever the double is that a trace would take
for them, and nothing is divided by zero.

`Library.rationals` is the library that knows these numbers and nothing else. It converts numbers out
of range to infinities (`rationals_converts`).
-/

namespace Stepwise

/-! ## The number an expression stands for -/

/-- The exact value. -/
def Decimal.value (d : Decimal) : ℚ := d.toFraction.1 / d.toFraction.2

/-- The exact value of a numeral with its spelling. An integer is written without needless zeros. -/
def Numeral.rational? : Numeral → Text → Option ℚ
  | whole n, spelling => if spelling = Text.ofNat n then some n else none
  | decimal _, spelling => (Decimal.read spelling).map Decimal.value

/-- A sum, a difference, a product or a quotient, unless something is divided by zero. -/
def Operator.rational? : Operator → ℚ → ℚ → Option ℚ
  | plus, p, q => some (p + q)
  | minus, p, q => some (p - q)
  | times, p, q => some (p * q)
  | dividedBy, p, q => if q = 0 then none else some (p / q)
  | power, _, _ => none

namespace Tree

/-- The rational number that an expression of numerals, signs and parentheses stands for. -/
def rational? : Tree → Option ℚ
  | constant n spelling => n.rational? spelling
  | negation operand => operand.rational?.map (-·)
  | operation op left right => do op.rational? (← left.rational?) (← right.rational?)
  | parenthesis content => content.rational?
  | name _ | call .. => none

theorem rational?_operation {op : Operator} {l r : Tree} {p q : ℚ} (hl : l.rational? = some p)
    (hr : r.rational? = some q) : (operation op l r).rational? = op.rational? p q := by
  rw [rational?, hl, hr]
  rfl

end Tree

/-! ## A library of numbers -/

namespace Library

/-- The library of rational numbers. What is undefined is no number. -/
def rationals (functions : List Text) : Library where
  Expr := Option ℚ
  Approximation := Dyad
  read _ w :=
    match Tree.read functions w with
    | .ok t => .expression t.rational?
    | .error _ => .unreadable
  write e := .ok (e.elim "nan".toList fun q => Text.ofInt q.num ++ '/' :: Text.ofNat q.den)
  isImproper e := e.isNone
  symbols _ := []
  integer? e := e.bind fun q => if q.den = 1 then some q.num else none
  approximate e := .ok (Dyad.short (e.getD 0))
  isReal _ := true
  toBinary64 z := .ok z.toBinary64
  simplify e := .ok e
  expand e := .ok e
  derivative _ e := .ok (e.map fun _ => 0)
  antiderivative? _ _ := .ok none
  infinity? _ := none
  limit _ e _ _ := .ok e
  difference e f := .ok (do return (← e) - (← f))
  vanishes e := .ok (e == some 0)
  solve? _ _ _ := .ok none

variable {F : List Text}

theorem read_rationals {scope : Scope} {w : Text} {t : Tree} (h : Tree.read F w = .ok t) :
    (rationals F).read scope w = .expression t.rational? := by
  simp only [rationals, h]

/-- The library of rational numbers converts what is out of range to infinities. -/
theorem rationals_converts : (rationals F).Converts (fun e q => e = some q) Dyad.value where
  toBinary64 := by
    rintro z x - hx
    obtain rfl := Except.ok.inj hx
    exact ⟨Dyad.toBinary64_ne_nan _, Dyad.isFinite_toBinary64_iff⟩
  isProper := by
    rintro e q rfl
    rfl
  isClosed _ := rfl
  integer? := by
    rintro e q rfl
    rfl
  approximate := by
    rintro e q rfl
    exact ⟨_, _, rfl, rfl, rfl, Dyad.abs_value_short_lt_iff q⟩

end Library

end Stepwise
