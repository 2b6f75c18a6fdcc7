import Stepwise.Algebra.Engine
import Stepwise.Proofs.Overflow
import Stepwise.Proofs.Reading
import Stepwise.Proofs.Tracing

/-!
# What an evaluation comes to

Whether an expression is undefined is asked of the expression; the double is made of it only
afterwards, and can be out of range although the expression is a number like any other. So an
evaluation has four outcomes: a fault, an integer, a written expression or a double, and the double
is infinite exactly if the number that it is made of has a magnitude of at least `Binary64.overflow`.

`Library.Converts` is what this asks of a library: numbers out of range are converted to infinities,
and the rational numbers among its expressions are exact, are real, and are converted by their own
size. `Algebra.converts` says that the library of terms is like this.

Results: `evaluate_outcome`, for every library of this kind and every text; and `evaluate_infinite`,
a text whose value is infinite.
-/

namespace Stepwise

open Binary64 (overflow)

/-! ## Faults -/

namespace Token

theorem kind_of_scanFrom : ∀ {fuel position : Nat} {t : Text} {e : Fault},
    scanFrom fuel position t = .error e → e.kind = .unreadable
  | _, _, [], _, h => absurd h (by simp [scanFrom])
  | 0, _, _ :: _, e, h => by
    obtain rfl := Except.error.inj h
    rfl
  | fuel + 1, position, c :: cs, e, h => by
    unfold scanFrom at h
    split at h
    next =>
      obtain rfl := Except.error.inj h
      rfl
    next l _ =>
      rcases bind_eq_error.mp h with h | ⟨tokens, _, h⟩
      · exact kind_of_scanFrom h
      · exact absurd h (by simp [pure, Except.pure])

end Token

/-- Among the tokens of the text is a numeral without point and exponent that has `n` digits, more
than are ever read. -/
def HasLongNumeral (w : Text) (n : Nat) : Prop :=
  ∃ tokens s, Token.scan w = .ok tokens ∧ Token.number s ∈ tokens ∧
    s.any (".eE".toList.contains ·) = false ∧ s.length = n ∧ Fault.digitLimit < n

theorem Numeral.ofSpelling_eq_error {s : Text} {e : Fault} (h : Numeral.ofSpelling s = .error e) :
    s.any (".eE".toList.contains ·) = false ∧ Fault.digitLimit < s.length ∧
      e = .numeralTooLong s.length := by
  unfold Numeral.ofSpelling at h
  cases hp : s.any (".eE".toList.contains ·) with
  | true =>
    rw [hp, if_pos rfl] at h
    exact absurd h (by simp)
  | false =>
    rw [hp, if_neg Bool.false_ne_true] at h
    split at h
    next long => exact ⟨rfl, long, (Except.error.inj h).symm⟩
    next => exact absurd h (by simp)

/-- A text that has no tree cannot be read, or has a numeral in it that is too long. -/
theorem Tree.read_eq_error {F : List Text} {w : Text} {e : Fault} (h : Tree.read F w = .error e) :
    e.kind = .unreadable ∨ ∃ n, HasLongNumeral w n ∧ e = .numeralTooLong n := by
  rcases bind_eq_error.mp h with h | ⟨tokens, hs, h⟩
  · exact .inl (Token.kind_of_scanFrom h)
  · refine (ofTokens?_blames h).imp_right fun ⟨s, hm, he⟩ => ?_
    obtain ⟨plain, long, rfl⟩ := Numeral.ofSpelling_eq_error he
    exact ⟨s.length, ⟨tokens, s, hs, hm, plain, rfl, long⟩, rfl⟩

/-! ## Conversions -/

/-- What a library makes doubles of. An expression can stand for a rational number, and an
approximation has an exact value. -/
structure Library.Converts (L : Library) (stands : L.Expr → ℚ → Prop)
    (value : L.Approximation → ℚ) : Prop where
  /-- What is out of the range of doubles is converted to an infinity. -/
  toBinary64 : ∀ {z x}, L.isReal z = true → L.toBinary64 z = .ok x →
    x ≠ .nan ∧ (x.isFinite = true ↔ |value z| < overflow)
  isProper : ∀ {e q}, stands e q → L.isImproper e = false
  isClosed : ∀ {e q}, stands e q → L.symbols e = []
  /-- Rational arithmetic is exact. -/
  integer? : ∀ {e q}, stands e q → L.integer? e = if q.den = 1 then some q.num else none
  /-- A rational number has an approximation, which is out of range only if the number is. -/
  approximate : ∀ {e q}, stands e q → ∃ z x, L.approximate e = .ok z ∧ L.isReal z = true ∧
    L.toBinary64 z = .ok x ∧ (|value z| < overflow ↔ |q| < overflow)

namespace Library

variable {L : Library} {config : Config} {w : Text} {e : L.Expr} {q : ℚ}
  {stands : L.Expr → ℚ → Prop} {value : L.Approximation → ℚ}

/-- The number that a rational number is replied with: itself if it is whole, and else a double that
is infinite exactly if the number is out of range. -/
inductive Numeric (q : ℚ) : Value → Prop
  | int (h : q.den = 1) : Numeric q (.int q.num)
  | float {x : Binary64} (h : q.den ≠ 1) (number : x ≠ .nan)
      (range : x.isFinite = true ↔ |q| < overflow) : Numeric q (.float x)

theorem Converts.reply (laws : L.Converts stands value) (h : stands e q) :
    ∃ v, L.reply e = .ok v ∧ Numeric q v := by
  obtain ⟨z, x, hz, real, hx, range⟩ := laws.approximate h
  have closed : (L.symbols e).isEmpty = true := by rw [laws.isClosed h]; rfl
  unfold Library.reply
  rw [if_pos closed, hz, ok_bind, if_pos real, laws.integer? h]
  by_cases whole : q.den = 1
  · rw [if_pos whole]
    exact ⟨_, rfl, .int whole⟩
  · rw [if_neg whole, hx]
    obtain ⟨number, finite⟩ := laws.toBinary64 real hx
    exact ⟨_, rfl, .float whole number (finite.trans range)⟩

/-! ## Outcomes -/

/-- The fault of a library that approximates, converts or writes an expression. -/
inductive Fails (L : Library) (e : L.Expr) : Fault → Prop
  | approximate {fault : Fault} (h : L.approximate e = .error fault) : Fails L e fault
  | toBinary64 {z : L.Approximation} {fault : Fault} (hz : L.approximate e = .ok z)
      (h : L.toBinary64 z = .error fault) : Fails L e fault
  | write {fault : Fault} (h : L.write e = .error fault) : Fails L e fault

theorem fails_of_written {fault : Fault} (h : L.written e = .error fault) : L.Fails e fault := by
  rcases bind_eq_error.mp h with h | ⟨t, -, h⟩
  · exact .write h
  · exact absurd h (by simp [pure, Except.pure])

theorem fails_of_reply {fault : Fault} (h : L.reply e = .error fault) : L.Fails e fault := by
  unfold reply at h
  split at h
  · rcases bind_eq_error.mp h with h | ⟨z, hz, h⟩
    · exact .approximate h
    · split at h
      · split at h
        · exact absurd h (by simp [pure, Except.pure])
        · rcases bind_eq_error.mp h with h | ⟨x, -, h⟩
          · exact .toBinary64 hz h
          · exact absurd h (by simp [pure, Except.pure])
      · exact fails_of_written h
  · exact fails_of_written h

/-- What an evaluation comes to, by the values of approximations. -/
inductive Outcome (L : Library) (value : L.Approximation → ℚ) (config : Config) (w : Text) :
    Reply → Prop
  | engineFault {fault : Fault} (h : fault.isEngine = true) : Outcome L value config w (.error fault)
  | longNumeral {n : Nat} (h : HasLongNumeral w n) :
      Outcome L value config w (.error (.numeralTooLong n))
  | libraryFault {e : L.Expr} {fault : Fault} (he : L.read (config.scope none) w = .expression e)
      (h : L.Fails e fault) : Outcome L value config w (.error fault)
  | int (n : Int) : Outcome L value config w (.ok (.int n))
  | text (t : Text) : Outcome L value config w (.ok (.text t))
  | float {e : L.Expr} {z : L.Approximation} {x : Binary64}
      (he : L.read (config.scope none) w = .expression e) (hz : L.approximate e = .ok z)
      (number : x ≠ .nan) (range : x.isFinite = true ↔ |value z| < overflow) :
      Outcome L value config w (.ok (.float x))

theorem kind_of_parse {scope : Scope} {fault : Fault} (h : L.parse scope w = .error fault) :
    fault.kind = .unreadable := by
  unfold parse at h
  split at h
  · exact absurd h (by simp)
  · obtain rfl := Except.error.inj h
    rfl
  · obtain rfl := Except.error.inj h
    rfl

theorem outcome_of_error {fault : Fault} (h : L.evaluate config w = .error fault) :
    L.Outcome value config w (.error fault) := by
  rcases bind_eq_error.mp h with h | ⟨t, -, h⟩
  · rcases Tree.read_eq_error h with unread | ⟨n, long, rfl⟩
    · exact .engineFault ((Fault.isEngine_iff _).mpr (.inr (.inl unread)))
    · exact .longNumeral long
  · rcases bind_eq_error.mp h with h | ⟨e, he, h⟩
    · exact .engineFault ((Fault.isEngine_iff _).mpr (.inr (.inl (kind_of_parse h))))
    · split at h
      · obtain rfl := Except.error.inj h
        exact .engineFault ((Fault.isEngine_iff _).mpr (.inl rfl))
      · exact .libraryFault (L.parse_eq_ok.mp he) (fails_of_reply h)

theorem Converts.outcome_of_ok (laws : L.Converts stands value) {v : Value}
    (h : L.evaluate config w = .ok v) : L.Outcome value config w (.ok v) := by
  obtain ⟨-, e, -, he, -, h⟩ := evaluate_eq_ok_iff.mp h
  rcases reply_cases h with ⟨n, -, rfl⟩ | ⟨z, x, hz, real, -, hx, rfl⟩ | ⟨t, -, rfl⟩
  · exact .int n
  · obtain ⟨number, range⟩ := laws.toBinary64 real hx
    exact .float he hz number range
  · exact .text t

/-- **What an evaluation comes to**, with every library that converts what is out of range to
infinities. It fails with a fault of the engine, or because a numeral is too long to be read, or with
a fault of the library, or else gives an integer, a text or a double. A double is always a number, and
it is infinite exactly if the number that it is made of is out of range. A text that is read as a
rational number has a value, which is the number itself if it is whole, and is infinite exactly if the
number is not whole and out of range. -/
theorem evaluate_outcome (laws : L.Converts stands value) (config : Config) (w : Text) :
    L.Outcome value config w (L.evaluate config w) ∧
      ∀ t e q, Tree.read config.functions w = .ok t →
        L.read (config.scope none) w = .expression e → stands e q →
          ∃ v, L.evaluate config w = .ok v ∧ Numeric q v := by
  refine ⟨?_, fun t e q ht he hq => ?_⟩
  · cases h : L.evaluate config w with
    | error fault => exact outcome_of_error h
    | ok v => exact laws.outcome_of_ok h
  · obtain ⟨v, hv, numeric⟩ := laws.reply hq
    exact ⟨v, evaluate_eq_ok_iff.mpr ⟨t, e, ht, he, laws.isProper hq, hv⟩, numeric⟩

end Library

/-! ## The library of terms -/

namespace Algebra

/-- The rational number that an approximation is. -/
def exactly (z : Option Approx) : ℚ := (z.map fun z => z.re.value).getD 0

/-- The library of terms converts what is out of range to infinities. -/
theorem converts : library.Converts (fun t q => t = .number q) exactly where
  toBinary64 := by
    intro z x real hx
    obtain ⟨a, rfl, -⟩ := (Option.any_eq_true _ _).mp real
    obtain rfl := Except.ok.inj hx
    exact ⟨Dyad.toBinary64_ne_nan _, Dyad.isFinite_toBinary64_iff⟩
  isProper := by
    rintro e q rfl
    rfl
  isClosed := by
    rintro e q rfl
    rfl
  integer? := by
    rintro e q rfl
    rfl
  approximate := by
    rintro e q rfl
    exact ⟨_, _, rfl, rfl, rfl, Dyad.abs_value_short_lt_iff q⟩

theorem read_eq_number {scope : Scope} {w : Text} {q : ℚ}
    (h : (match library.read scope w with
      | .expression (.number p) => p == q
      | _ => false) = true) : library.read scope w = .expression (.number q) := by
  split at h
  next h' => rw [h', eq_of_beq h]
  next => exact absurd h Bool.false_ne_true

/-- The square of a third less a tenth is the 90th part of 1. -/
theorem evaluate_outcome_ninetieth :
    library.Converts (fun t q => t = .number q) exactly ∧
      library.Outcome exactly .default "(1/3)^2-0.1".toList
        (library.evaluate .default "(1/3)^2-0.1".toList) ∧
      ∃ x, library.evaluate .default "(1/3)^2-0.1".toList = .ok (.float x) ∧ x.isFinite = true := by
  obtain ⟨outcome, exact⟩ := Library.evaluate_outcome converts .default "(1/3)^2-0.1".toList
  obtain ⟨t, ht, -⟩ := exists_ok_of_check
    (x := Tree.read Config.default.functions "(1/3)^2-0.1".toList) (p := fun _ => true)
    (by decide +kernel)
  have read : library.read (Config.default.scope none) "(1/3)^2-0.1".toList =
      .expression (.number (1 / 90)) := read_eq_number (by decide +kernel)
  obtain ⟨v, hv, numeric⟩ := exact t _ _ ht read rfl
  cases numeric with
  | int whole => exact absurd whole (by decide +kernel)
  | float _ _ range =>
    have inRange : |(1 / 90 : ℚ)| < overflow :=
      lt_of_lt_of_le (by norm_num) (Nat.one_le_cast.mpr Binary64.overflow_pos)
    exact ⟨converts, outcome, _, hv, range.mpr inRange⟩

theorem eq_ok_float {r : Reply} {y : Binary64}
    (h : (match r with | .ok (.float x) => x == y | _ => false) = true) : r = .ok (.float y) := by
  split at h
  · rw [eq_of_beq h]
  · exact absurd h Bool.false_ne_true

/-- No number is divided by zero in `2.5^1000`, but its value is infinite. -/
theorem evaluate_infinite :
    library.evaluate .default "2.5^1000".toList = .ok (.float (.infinite false)) :=
  eq_ok_float (by decide +kernel)

end Algebra

end Stepwise
