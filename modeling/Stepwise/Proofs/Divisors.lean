import Stepwise.Proofs.Composition

/-!
# What a trace loses

A trace rounds every value before it uses it again, and its engine is asked for the rounded
expressions: `1/(1/10000)` has the value 10000, but a ten-thousandth is rounded to 0, and nothing is
divided by that. So an expression that has a value need not be solved.

`Library.carried` is the value that a trace goes on with for a part of an expression. In an expression
of numerals, signs and parentheses the divisors are all that matters: the trace ends if and only if none
of them is carried as 0 (`Calculates.endsUnlessZero`). What is asked of a library for this is that it
computes with rational numbers exactly and says of a division by zero that it is undefined
(`Library.Calculates`).

Results: `isSolved_arithmetic`, when an expression that has a value is solved, and with which answer;
and `trace_fails_with_value`.
-/

namespace Stepwise

open Text Token Stepwise.Tree Grammar

/-! ## The parts of an expression -/

namespace Tree

/-- Is there nothing in the expression but numerals, `+ - * /` and parentheses, and signs in front of
what is a number? -/
def isArithmetic : Tree → Bool
  | constant .. => true
  | negation operand => operand.rational?.isSome
  | operation op left right => op != .power && left.isArithmetic && right.isArithmetic
  | parenthesis content => content.isArithmetic
  | name _ | call .. => false

/-- The parts of an expression that a trace works out, the whole included. A negation is worked out in
one go. -/
def parts : Tree → List Tree
  | operation op left right => left.parts ++ right.parts ++ [operation op left right]
  | parenthesis content => content.parts
  | t => [t]

/-- What something is divided by. -/
def divisors : Tree → List Tree
  | operation op left right =>
    left.divisors ++ right.divisors ++ if op = .dividedBy then [right] else []
  | parenthesis content => content.divisors
  | constant .. | name _ | negation _ | call .. => []

end Tree

/-- The rational number that a value is written as. -/
def Value.rational? (F : List Text) (v : Value) : Option ℚ :=
  match v.display with
  | .error _ => none
  | .ok w =>
    match Tree.read F w with
    | .error _ => none
    | .ok t => t.rational?

namespace Library

variable {L : Library} {config : Config} {stands : L.Expr → ℚ → Prop}
  {value : L.Approximation → ℚ}

/-- The value that a trace goes on with for the tree, or why it ends. -/
def carried (L : Library) (config : Config) (t : Tree) : Except Fault Value :=
  (Trace.reduce (L.engine config) config.precision t .start).1.map Prod.fst

/-- The value that a trace goes on with is no infinity, and it can be written. -/
def Fits (L : Library) (config : Config) (t : Tree) : Prop :=
  match L.carried config t with
  | .ok v => (v.rational? config.functions).isSome = true
  | .error fault => fault ≠ .integerTooLong

/-- **A library that computes with numbers exactly**, and says of a division by zero that it is
undefined. An expression can stand for a rational number. -/
structure Calculates (L : Library) (config : Config) (stands : L.Expr → ℚ → Prop) : Prop where
  exact : ∀ {w t q e}, Tree.read config.functions w = .ok t → t.rational? = some q →
    L.read (config.scope none) w = .expression e → stands e q
  undefined : ∀ {w l r p e}, Tree.read config.functions w = .ok (.operation .dividedBy l r) →
    l.rational? = some p → r.rational? = some 0 → L.read (config.scope none) w = .expression e →
      L.isImproper e = true
  /-- Operations of two numbers can be read. -/
  numbers : ∀ {op : Operator} {x y : Value} {p q lhs rhs}, op ≠ .power → x.IsNumber → y.IsNumber →
    x.rational? config.functions = some p → y.rational? config.functions = some q →
      x.operand = .ok lhs → y.operand = .ok rhs →
        ∃ e, L.read (config.scope none) (lhs ++ [' ', op.sign, ' '] ++ rhs) = .expression e
  /-- The parts of an expression that is read can be read. -/
  part : ∀ {w t s e}, Tree.read config.functions w = .ok t → t.isArithmetic = true →
    L.read (config.scope none) w = .expression e → s ∈ t.parts →
      ∃ e', L.read (config.scope none) s.text = .expression e'

/-! ## Operations of carried values -/

theorem engine_eq (L : Library) (config : Config) :
    L.engine config = .ofFunction (L.answer config) := rfl

/-- The value that is carried is the one that the trace comes to. -/
theorem carried_eq_ok {t : Tree} {v : Value} : L.carried config t = .ok v ↔
    Trace.Reduces (L.answer config) config.precision t v := by
  unfold carried
  rw [engine_eq]
  constructor
  · intro h
    rcases hr : Trace.reduce (.ofFunction (L.answer config)) config.precision t .start with
      ⟨fault | ⟨w, steps⟩, s⟩
    · rw [hr] at h
      exact absurd h (by simp [Except.map])
    · rw [hr] at h
      obtain rfl := Except.ok.inj h
      exact (Trace.reduces_of_reduce t hr).1
  · intro h
    obtain ⟨steps, s, hr⟩ := Trace.reduce_of_reduces h .start
    rw [hr]
    rfl

theorem carried_parenthesis (t : Tree) :
    L.carried config (.parenthesis t) = L.carried config t := by
  rw [carried, carried, Trace.reduce]

/-- The number that a carried value is written as. -/
theorem Fits.rational? {t : Tree} {v : Value} (h : L.Fits config t)
    (hv : L.carried config t = .ok v) : ∃ q, v.rational? config.functions = some q := by
  unfold Fits at h
  rw [hv] at h
  exact Option.isSome_iff_exists.mp h

theorem exists_tree_of_rational? {v : Value} {q : ℚ} {F : List Text}
    (h : v.rational? F = some q) :
    ∃ w t, v.display = .ok w ∧ Tree.read F w = .ok t ∧ t.rational? = some q := by
  unfold Value.rational? at h
  split at h
  · exact absurd h (by simp)
  next w hw =>
    split at h
    · exact absurd h (by simp)
    next t ht => exact ⟨w, t, hw, ht, h⟩

theorem exists_operand {v : Value} {q : ℚ} {F : List Text} (h : v.rational? F = some q) :
    ∃ w, v.operand = .ok w := by
  obtain ⟨d, -, hd, -⟩ := exists_tree_of_rational? h
  exact ⟨_, by rw [Value.operand, hd, ok_bind]; rfl⟩

/-- The text of a number as an operand stands for it. -/
theorem exists_operand_rational? {v : Value} {q : ℚ} {w : Text} {F : List Text}
    (number : v.IsNumber) (h : v.rational? F = some q) (hw : v.operand = .ok w) :
    ∃ t : Tree, Cuts w t.tokens ∧ Primary F t.tokens [] t ∧ t.rational? = some q := by
  obtain ⟨d, u, hd, hu, hq⟩ := exists_tree_of_rational? h
  obtain ⟨t, t', ⟨d', hd', ht⟩, either, cuts, primary⟩ := (number.readable hd).operand hw
  obtain rfl := Except.ok.inj (hd.symm.trans hd')
  obtain rfl := Except.ok.inj (hu.symm.trans ht)
  refine ⟨t', cuts, primary, ?_⟩
  rcases either with rfl | rfl
  · exact hq
  · rwa [Tree.rational?]

/-- What is read as a number has the rounded number as its value. -/
theorem Converts.exists_rounds (converts : L.Converts stands value) (three : config.precision = 3)
    {w : Text} {t : Tree} {e : L.Expr} {q : ℚ} (ht : Tree.read config.functions w = .ok t)
    (he : L.read (config.scope none) w = .expression e) (hq : stands e q) :
    ∃ v, Trace.Rounds (L.answer config) config.precision w v ∧ v.IsNumber := by
  obtain ⟨u, hu, numeric⟩ := converts.reply hq
  have evaluated : L.evaluate config w = .ok u :=
    evaluate_eq_ok_iff.mpr ⟨t, e, ht, he, converts.isProper hq, hu⟩
  obtain ⟨v, hv⟩ := u.exists_round_three
  rw [← three] at hv
  refine ⟨v, ⟨u, evaluated, hv⟩, ?_⟩
  cases numeric with
  | int =>
    obtain rfl := Except.ok.inj hv
    trivial
  | float => exact Value.isNumber_round hv

/-- **An operation of carried values** has a value exactly if nothing is divided by zero. -/
theorem Calculates.operation (laws : L.Calculates config stands)
    (converts : L.Converts stands value) (three : config.precision = 3) {op : Operator}
    (hop : op ≠ .power) {x y : Value} {p q : ℚ} {lhs rhs : Text} (nx : x.IsNumber)
    (ny : y.IsNumber) (hp : x.rational? config.functions = some p)
    (hq : y.rational? config.functions = some q) (hx : x.operand = .ok lhs)
    (hy : y.operand = .ok rhs) :
    (op = .dividedBy ∧ q = 0 ∧
        ¬∃ v, Trace.Rounds (L.answer config) config.precision (lhs ++ [' ', op.sign, ' '] ++ rhs) v) ∨
      ¬(op = .dividedBy ∧ q = 0) ∧
        ∃ v, Trace.Rounds (L.answer config) config.precision (lhs ++ [' ', op.sign, ' '] ++ rhs) v ∧
          v.IsNumber := by
  obtain ⟨l, cl, pl, left⟩ := exists_operand_rational? nx hp hx
  obtain ⟨r, cr, pr, right⟩ := exists_operand_rational? ny hq hy
  have read := (written_operation op cl pl cr pr).read
  obtain ⟨e, he⟩ := laws.numbers hop nx ny hp hq hx hy
  by_cases zero : op = .dividedBy ∧ q = 0
  · obtain ⟨rfl, rfl⟩ := zero
    refine .inl ⟨rfl, rfl, ?_⟩
    rintro ⟨v, u, hu, -⟩
    obtain ⟨-, e', -, he', proper, -⟩ := evaluate_eq_ok_iff.mp hu
    rw [laws.undefined read left right he'] at proper
    exact absurd proper (by simp)
  · have some : ∃ s, op.rational? p q = some s := by
      cases op with
      | plus => exact ⟨_, rfl⟩
      | minus => exact ⟨_, rfl⟩
      | times => exact ⟨_, rfl⟩
      | dividedBy => exact ⟨_, if_neg fun h => zero ⟨rfl, h⟩⟩
      | power => exact absurd rfl hop
    obtain ⟨s, hs⟩ := some
    have number := (rational?_operation left right).trans hs
    exact .inr ⟨zero, converts.exists_rounds three read he (laws.exact read number he)⟩

/-! ## Traces of such expressions -/

theorem fits_of_parts : ∀ (t : Tree), (∀ s ∈ t.parts, L.Fits config s) → L.Fits config t
  | .parenthesis t, h => by
    rw [parts] at h
    have := fits_of_parts t h
    rwa [Fits, carried_parenthesis]
  | .operation .., h => by
    rw [parts] at h
    exact (List.forall_mem_append.mp h).2 _ (List.mem_singleton_self _)
  | .constant .., h | .name _, h | .negation _, h | .call .., h => h _ (List.mem_singleton_self _)

theorem display_eq_error {v : Value} {fault : Fault} (number : v.IsNumber)
    (h : v.display = .error fault) : fault = .integerTooLong := by
  cases v with
  | int n =>
    change Value.integerText n = .error fault at h
    unfold Value.integerText at h
    split at h
    · exact (Except.error.inj h).symm
    · exact absurd h (by simp)
  | float x => exact absurd h (by simp [Value.display, Value.quoted])
  | _ => exact absurd number id

/-- An operation whose value cannot be written ends the trace. -/
theorem carried_operation_eq_error {op : Operator} {l r : Tree} {x y v : Value} {lhs rhs : Text}
    {fault : Fault} (hl : Trace.Reduces (L.answer config) config.precision l x)
    (hr : Trace.Reduces (L.answer config) config.precision r y) (hx : x.operand = .ok lhs)
    (hy : y.operand = .ok rhs) (h : Trace.Rounds (L.answer config) config.precision
      (lhs ++ [' ', op.sign, ' '] ++ rhs) v) (shown : v.display = .error fault) :
    L.carried config (.operation op l r) = .error fault := by
  obtain ⟨before, s₁, hl⟩ := Trace.reduce_of_reduces hl .start
  obtain ⟨between, s₂, hr⟩ := Trace.reduce_of_reduces hr s₁
  have evaluated := Trace.evaluate_eq_ok (s := s₂).mpr ⟨h, rfl⟩
  rw [carried, engine_eq, Trace.reduce, Run.bind_apply, hl]
  dsimp only
  rw [Run.bind_apply, hr]
  dsimp only
  rw [Run.bind_apply, Run.ofExcept_eq_ok.mpr ⟨hx, rfl⟩]
  dsimp only
  rw [Run.bind_apply, Run.ofExcept_eq_ok.mpr ⟨hy, rfl⟩]
  dsimp only
  rw [Run.bind_apply, Trace.narrate, Run.bind_apply, evaluated]
  dsimp only
  rw [Run.bind_apply, Run.display, shown]
  rfl

/-- No divisor is carried as 0. -/
def Divides (L : Library) (config : Config) (t : Tree) : Prop :=
  ∀ r ∈ t.divisors, ∀ y, L.carried config r = .ok y → y.rational? config.functions ≠ some 0

theorem divides_operation_iff {op : Operator} {l r : Tree} :
    L.Divides config (.operation op l r) ↔ (L.Divides config l ∧ L.Divides config r) ∧
      (op = .dividedBy → ∀ y, L.carried config r = .ok y → y.rational? config.functions ≠ some 0) := by
  unfold Divides
  rw [Tree.divisors, List.forall_mem_append, List.forall_mem_append]
  refine and_congr_right fun _ => ?_
  by_cases h : op = .dividedBy
  · rw [if_pos h, List.forall_mem_singleton]
    exact ⟨fun h' _ => h', fun h' => h' h⟩
  · rw [if_neg h]
    exact ⟨fun _ h' => absurd h' h, fun _ _ hr => absurd hr List.not_mem_nil⟩

/-- The trace of the tree ends if and only if no divisor is carried as 0, and then with a number. -/
structure EndsUnlessZero (L : Library) (config : Config) (t : Tree) : Prop where
  isNumber : ∀ v, Trace.Reduces (L.answer config) config.precision t v → v.IsNumber
  iff : (∃ v, Trace.Reduces (L.answer config) config.precision t v) ↔ L.Divides config t

theorem endsUnlessZero_constant {n : Numeral} {s : Text}
    (ht : IsRead config.functions (.constant n s)) : L.EndsUnlessZero config (.constant n s) where
  isNumber := by
    intro v h
    cases h
    exact ht.isNumber
  iff := ⟨fun _ _ hr => absurd hr List.not_mem_nil, fun _ => ⟨_, .constant n s⟩⟩

theorem Calculates.endsUnlessZero_negation (laws : L.Calculates config stands)
    (converts : L.Converts stands value) (three : config.precision = 3) {t : Tree} {q : ℚ} {e : L.Expr}
    (ht : IsRead config.functions (.negation t)) (hq : t.rational? = some q)
    (he : L.read (config.scope none) (Tree.negation t).text = .expression e) :
    L.EndsUnlessZero config (.negation t) := by
  have number : (Tree.negation t).rational? = some (-q) := by rw [rational?, hq]; rfl
  obtain ⟨v, hv, isNumber⟩ := converts.exists_rounds three ht he (laws.exact ht number he)
  refine ⟨fun u h => ?_, fun _ _ hr => absurd hr List.not_mem_nil, fun _ => ⟨v, .negation hv⟩⟩
  cases h with
  | negation h => exact rounds_unique hv h ▸ isNumber

theorem EndsUnlessZero.parenthesis {t : Tree} (h : L.EndsUnlessZero config t) :
    L.EndsUnlessZero config (.parenthesis t) := by
  have same (v : Value) : Trace.Reduces (L.answer config) config.precision (.parenthesis t) v ↔
      Trace.Reduces (L.answer config) config.precision t v := by
    refine ⟨fun h => ?_, .parenthesis⟩
    cases h with
    | parenthesis h => exact h
  have divides : L.Divides config (.parenthesis t) ↔ L.Divides config t := by
    simp only [Divides, Tree.divisors]
  refine ⟨fun v hv => h.isNumber v ((same v).mp hv), ?_⟩
  rw [divides, ← h.iff]
  exact exists_congr same

theorem Calculates.endsUnlessZero_operation (laws : L.Calculates config stands)
    (converts : L.Converts stands value) (three : config.precision = 3) {op : Operator} {l r : Tree}
    (hop : op ≠ .power) (fits : ∀ s ∈ (Tree.operation op l r).parts, L.Fits config s)
    (left : L.EndsUnlessZero config l) (right : L.EndsUnlessZero config r) :
    L.EndsUnlessZero config (.operation op l r) := by
  have fitsWhole := fits_of_parts _ fits
  rw [parts] at fits
  obtain ⟨fitsl, fitsr⟩ := List.forall_mem_append.mp (List.forall_mem_append.mp fits).1
  have numberl {x : Value} (hl : Trace.Reduces (L.answer config) config.precision l x) :=
    (fits_of_parts l fitsl).rational? (carried_eq_ok.mpr hl)
  have numberr {y : Value} (hr : Trace.Reduces (L.answer config) config.precision r y) :=
    (fits_of_parts r fitsr).rational? (carried_eq_ok.mpr hr)
  have here {x y : Value} {lhs rhs : Text} {p q : ℚ}
      (hl : Trace.Reduces (L.answer config) config.precision l x)
      (hr : Trace.Reduces (L.answer config) config.precision r y) (hx : x.operand = .ok lhs)
      (hy : y.operand = .ok rhs) (hp : x.rational? config.functions = some p)
      (hq : y.rational? config.functions = some q) :=
    laws.operation converts three hop (left.isNumber x hl) (right.isNumber y hr) hp hq hx hy
  refine ⟨fun v h => ?_, fun ended => ?_, fun divides => ?_⟩
  · cases h with
    | operation hl hr hx hy h =>
      obtain ⟨p, hp⟩ := numberl hl
      obtain ⟨q, hq⟩ := numberr hr
      rcases here hl hr hx hy hp hq with ⟨-, -, none⟩ | ⟨-, u, hu, number⟩
      · exact absurd ⟨v, h.1⟩ none
      · exact rounds_unique hu h.1 ▸ number
  · obtain ⟨v, h⟩ := ended
    cases h with
    | @operation _ _ _ x y _ _ _ hl hr hx hy h =>
      obtain ⟨p, hp⟩ := numberl hl
      refine divides_operation_iff.mpr ⟨⟨left.iff.mp ⟨x, hl⟩, right.iff.mp ⟨y, hr⟩⟩, ?_⟩
      intro hdiv y' hy' zero
      obtain rfl := Except.ok.inj ((carried_eq_ok.mpr hr).symm.trans hy')
      rcases here hl hr hx hy hp zero with ⟨-, -, none⟩ | ⟨some, -⟩
      · exact none ⟨v, h.1⟩
      · exact some ⟨hdiv, rfl⟩
  · obtain ⟨⟨dividesl, dividesr⟩, nonzero⟩ := divides_operation_iff.mp divides
    obtain ⟨x, hl⟩ := left.iff.mpr dividesl
    obtain ⟨y, hr⟩ := right.iff.mpr dividesr
    obtain ⟨p, hp⟩ := numberl hl
    obtain ⟨q, hq⟩ := numberr hr
    obtain ⟨lhs, hx⟩ := exists_operand hp
    obtain ⟨rhs, hy⟩ := exists_operand hq
    rcases here hl hr hx hy hp hq with ⟨hdiv, rfl, -⟩ | ⟨-, v, hv, number⟩
    · exact absurd hq (nonzero hdiv y (carried_eq_ok.mpr hr))
    · cases shown : v.display with
      | ok d => exact ⟨v, .operation hl hr hx hy ⟨hv, d, shown⟩⟩
      | error fault =>
        -- The value would have ended the trace as an integer too long.
        have ended := carried_operation_eq_error hl hr hx hy hv shown
        rw [Fits, ended] at fitsWhole
        exact absurd (display_eq_error number shown) fitsWhole

/-- **A trace ends if and only if no divisor is carried as 0**, and then with a number. -/
theorem Calculates.endsUnlessZero (laws : L.Calculates config stands)
    (converts : L.Converts stands value) (three : config.precision = 3) : ∀ t : Tree,
      IsRead config.functions t → t.isArithmetic = true → (∀ s ∈ t.parts, L.Fits config s) →
        (∀ s ∈ t.parts, ∃ e, L.read (config.scope none) s.text = .expression e) →
          L.EndsUnlessZero config t
  | .constant _ _, ht, _, _, _ => endsUnlessZero_constant ht
  | .negation t, ht, arithmetic, _, readable => by
    rw [isArithmetic] at arithmetic
    obtain ⟨q, hq⟩ := Option.isSome_iff_exists.mp arithmetic
    obtain ⟨e, he⟩ := readable (.negation t) (by simp [parts])
    exact laws.endsUnlessZero_negation converts three ht hq he
  | .parenthesis t, ht, arithmetic, fits, readable => by
    rw [isArithmetic] at arithmetic
    rw [parts] at fits readable
    exact (laws.endsUnlessZero converts three t ht.content arithmetic fits readable).parenthesis
  | .operation op l r, ht, arithmetic, fits, readable => by
    rw [isArithmetic, Bool.and_eq_true, Bool.and_eq_true, bne_iff_ne] at arithmetic
    obtain ⟨⟨hop, al⟩, ar⟩ := arithmetic
    have fitsParts := fits
    rw [parts] at fitsParts readable
    obtain ⟨fitsl, fitsr⟩ := List.forall_mem_append.mp (List.forall_mem_append.mp fitsParts).1
    obtain ⟨readl, readr⟩ := List.forall_mem_append.mp (List.forall_mem_append.mp readable).1
    exact laws.endsUnlessZero_operation converts three hop fits
      (laws.endsUnlessZero converts three l ht.operands.1 al fitsl readl)
      (laws.endsUnlessZero converts three r ht.operands.2 ar fitsr readr)
  | .name _, _, arithmetic, _, _ => by
    rw [isArithmetic] at arithmetic
    exact Bool.noConfusion arithmetic
  | .call _ _, _, arithmetic, _, _ => by
    rw [isArithmetic] at arithmetic
    exact Bool.noConfusion arithmetic

/-! ## Problems that are solved -/

/-- A value that can be written can be written after it was rounded. -/
theorem exists_display_of_round {p : Int} {v w : Value} {d : Text} (hd : v.display = .ok d)
    (h : v.round p = .ok w) : ∃ d', w.display = .ok d' := by
  cases v with
  | float x =>
    by_cases hx : x.isFinite = true
    · rcases Value.round_float_cases hx h with ⟨n, rfl, hn⟩ | ⟨y, rfl, -⟩
      · exact ⟨_, Value.display_int hn⟩
      · exact ⟨_, rfl⟩
    · rw [Value.round_of_not_finite p (Bool.eq_false_iff.mpr hx)] at h
      obtain rfl := Except.ok.inj h
      exact ⟨d, hd⟩
  | _ =>
    obtain rfl := Except.ok.inj h
    exact ⟨d, hd⟩

/-- What the trace of a tree comes to is its result, if it can be written. -/
theorem reducible_of_reduces (three : config.precision = 3) {t : Tree} {v : Value} {d : Text}
    (h : Trace.Reduces (L.answer config) config.precision t v) (hd : v.display = .ok d) :
    Trace.Reducible (L.answer config) config.precision t := by
  obtain ⟨w, hw⟩ := v.exists_round_three
  rw [← three] at hw
  obtain ⟨d', hd'⟩ := exists_display_of_round hd hw
  exact ⟨v, w, d', h, hw, hd'⟩

/-- **A problem with a value** has a tree, and its value can be rounded at the default precision; if
it is solved, then with the rounded value. It is solved

* if the library reads it as it reads the tree with its operands in parentheses, and no operand is
  changed by being rounded, written and read again; and
* if nothing occurs in it but numerals, signs and parentheses, and no part of it is carried as an
  infinity or an integer too long to be written, exactly if no divisor is carried as 0. -/
theorem isSolved_arithmetic (L : Library) {config : Config} {problem : Text} {v : Value}
    (hp : config.precision = Config.default.precision)
    (hv : L.evaluate config (Phrase.canonical problem) = .ok v) :
    ∃ t a, Tree.read config.functions (Phrase.canonical problem) = .ok t ∧
      v.round config.precision = .ok a ∧
      ((Solver.solveAs (L.engine config) config .arithmetic problem).isSolved = true →
        (Solver.solveAs (L.engine config) config .arithmetic problem).answer = a) ∧
      (L.Composes config →
        L.read (config.scope none) (Phrase.canonical problem) =
          L.read (config.scope none) t.enclosed.text →
        (∀ s ∈ t.rewritten, L.Keeps config s) → (∃ d, (t.held a).display = .ok d) →
        (Solver.solveAs (L.engine config) config .arithmetic problem).isSolved = true) ∧
      (∀ {stands : L.Expr → ℚ → Prop} {value : L.Approximation → ℚ}, L.Converts stands value →
        L.Calculates config stands → t.isArithmetic = true → (∀ s ∈ t.parts, L.Fits config s) →
        ((Solver.solveAs (L.engine config) config .arithmetic problem).isSolved = true ↔
          L.Divides config t)) := by
  have three : config.precision = 3 := hp
  obtain ⟨t, e, ht, he, proper, reply⟩ := evaluate_eq_ok_iff.mp hv
  obtain ⟨a, ha⟩ := v.exists_round_three
  rw [← three] at ha
  have some := Value.round_ne_null ha (reply_ne_null reply)
  have rounds : Trace.Rounds (L.answer config) config.precision (Phrase.canonical problem) a :=
    ⟨v, hv, ha⟩
  have answers (h : Trace.Reducible (L.answer config) config.precision t) :
      (Solver.solveAs (L.engine config) config .arithmetic problem).answer = a :=
    (Solver.answer_arithmetic_eq_iff ht some).mpr ⟨h, rounds⟩
  have solved : (Solver.solveAs (L.engine config) config .arithmetic problem).isSolved = true ↔
      Trace.Reducible (L.answer config) config.precision t := by
    rw [Solution.isSolved_iff]
    refine ⟨fun h => ((Solver.answer_arithmetic_eq_iff ht h).mp rfl).1, fun h => ?_⟩
    rw [answers h]
    exact some
  refine ⟨t, a, ht, ha, fun h => answers (solved.mp h), ?_, ?_⟩
  · intro laws alike kept ⟨d, hd⟩
    have read := isRead_of_read ht
    have value := evaluate_congr read.enclosed alike.symm hv
    have reduces := (laws.settles t read kept value ha).2 ⟨d, hd⟩
    exact solved.mpr (reducible_of_reduces three reduces hd)
  · intro stands value converts laws arithmetic fits
    have ends := laws.endsUnlessZero converts three t (isRead_of_read ht) arithmetic fits
      fun s hs => laws.part ht arithmetic he hs
    rw [solved, ← ends.iff]
    refine ⟨fun ⟨w, _, _, hw, _⟩ => ⟨w, hw⟩, fun ⟨w, hw⟩ => ?_⟩
    obtain ⟨q, hq⟩ := (fits_of_parts t fits).rational? (carried_eq_ok.mpr hw)
    obtain ⟨d, -, hd, -⟩ := exists_tree_of_rational? hq
    exact reducible_of_reduces three hw hd

/-! ## Rational numbers -/

theorem isRead_of_mem_parts {F : List Text} : ∀ {t : Tree}, IsRead F t →
    ∀ s ∈ t.parts, IsRead F s
  | .operation op l r, h => by
    obtain ⟨hl, hr⟩ := h.operands
    rw [parts]
    exact List.forall_mem_append.mpr ⟨List.forall_mem_append.mpr
      ⟨isRead_of_mem_parts hl, isRead_of_mem_parts hr⟩, List.forall_mem_singleton.mpr h⟩
  | .parenthesis t, h => by
    rw [parts]
    exact isRead_of_mem_parts h.content
  | .constant .., h | .name _, h | .negation _, h | .call .., h => List.forall_mem_singleton.mpr h

/-- The library of rational numbers computes exactly. -/
theorem rationals_calculates (config : Config) :
    (rationals config.functions).Calculates config fun e q => e = some q where
  exact := by
    intro w t q e ht hq he
    rw [read_rationals ht] at he
    exact (Reading.expression.inj he).symm.trans hq
  undefined := by
    intro w l r p e ht hl hr he
    have none : (operation .dividedBy l r).rational? = none := rational?_operation hl hr
    rw [read_rationals ht, none] at he
    obtain rfl := Reading.expression.inj he
    rfl
  numbers := by
    intro op x y p q lhs rhs hop nx ny hp hq hx hy
    obtain ⟨l, cl, pl, -⟩ := exists_operand_rational? nx hp hx
    obtain ⟨r, cr, pr, -⟩ := exists_operand_rational? ny hq hy
    exact ⟨_, read_rationals (written_operation op cl pl cr pr).read⟩
  part := by
    intro w t s e ht _ _ hs
    exact ⟨_, read_rationals (isRead_of_mem_parts (isRead_of_read ht) s hs)⟩

theorem eq_ok_int {r : Reply} {m : Int}
    (h : (match r with | .ok (.int n) => n == m | _ => false) = true) : r = .ok (.int m) := by
  split at h
  · rw [eq_of_beq h]
  · exact absurd h Bool.false_ne_true

/-- Does a trace go on with a number for all parts, and with another than 0 for the divisors? -/
def carriesNumbers (L : Library) (config : Config) (t : Tree) : Bool :=
  (t.parts.all fun s =>
    match L.carried config s with
    | .ok v => (v.rational? config.functions).isSome
    | .error _ => false) &&
  t.divisors.all fun s =>
    match L.carried config s with
    | .ok v => v.rational? config.functions != some 0
    | .error _ => false

theorem fits_and_divides {t : Tree} (h : carriesNumbers L config t = true) :
    (∀ s ∈ t.parts, L.Fits config s) ∧ L.Divides config t := by
  obtain ⟨fits, divides⟩ := (Bool.and_eq_true _ _).mp h
  refine ⟨fun s hs => ?_, fun r hr y hy => ?_⟩
  · have check := List.all_eq_true.mp fits s hs
    unfold Fits
    split at check
    · exact check
    · exact absurd check Bool.false_ne_true
  · have check := List.all_eq_true.mp divides r hr
    rw [hy] at check
    exact bne_iff_ne.mp check

/-- `2/(1/4)` is solved: no part of it is smaller than a thousandth. -/
theorem isSolved_arithmetic_quarter :
    (rationals Config.default.functions).evaluate .default
        (Phrase.canonical "2/(1/4)".toList) = .ok (.int 8) ∧
      (Solver.solveAs ((rationals Config.default.functions).engine .default) .default .arithmetic
        "2/(1/4)".toList).isSolved = true ∧
      (Solver.solveAs ((rationals Config.default.functions).engine .default) .default .arithmetic
        "2/(1/4)".toList).answer = .int 8 := by
  have value : (rationals Config.default.functions).evaluate .default
      (Phrase.canonical "2/(1/4)".toList) = .ok (.int 8) := eq_ok_int (by decide +kernel)
  have default : Config.default.precision = Config.default.precision := rfl
  obtain ⟨t, a, ht, ha, answer, -, solved⟩ :=
    isSolved_arithmetic (rationals Config.default.functions) default value
  obtain ⟨t', ht', check⟩ := exists_ok_of_check (x := Tree.read Config.default.functions
    (Phrase.canonical "2/(1/4)".toList))
    (p := fun t => t.isArithmetic &&
      carriesNumbers (rationals Config.default.functions) .default t) (by decide +kernel)
  obtain rfl := Except.ok.inj (ht.symm.trans ht')
  obtain ⟨arithmetic, carries⟩ := (Bool.and_eq_true _ _).mp check
  obtain ⟨fits, divides⟩ := fits_and_divides carries
  have calculates := rationals_calculates .default
  have isSolved := (solved rationals_converts calculates arithmetic fits).mpr divides
  obtain rfl := Except.ok.inj ha
  exact ⟨value, isSolved, answer isSolved⟩

end Library

namespace Algebra

/-- `1/(1/10000)` has a value, but it is not solved: the divisor is carried as 0. -/
theorem trace_fails_with_value :
    library.evaluate .default (Phrase.canonical "1/(1/10000)".toList) = .ok (.int 10000) ∧
      (Solver.solveAs (library.engine .default) .default .arithmetic "1/(1/10000)".toList).isSolved =
        false :=
  ⟨Library.eq_ok_int (by decide +kernel), by decide +kernel⟩

end Algebra

end Stepwise
