import Stepwise.Proofs.Outcome
import Stepwise.Solve.Library
import Stepwise.Solve.Solver

/-!
# Traces with an engine without a memory

A trace works on rounded values: each operation and each call is written again with the values of
its operands, and the engine is asked for that. `Reduces f p t v` says that `v` comes out of `t`
in this way, with an engine without a memory that answers as `f` does, and without any session.
It is what `Trace.reduce` computes (`reduces_of_reduce`, `reduce_of_reduces`).

Results: `arithmetic_eq_ok_iff`, what an arithmetic problem is answered with; and for the engine over
a library, `evaluate_eq_ok_iff` and `reply_cases`, what comes out of an evaluation.
-/

namespace Stepwise

namespace Trace

variable {f : Request → Reply} {p : Int}

/-! ## Values without a session -/

/-- The value of an expression, rounded. -/
def Rounds (f : Request → Reply) (p : Int) (expression : Text) (v : Value) : Prop :=
  ∃ u, f (.evaluate expression) = .ok u ∧ u.round p = .ok v

/-- The value of an expression, rounded, which can be written out. -/
def Narrates (f : Request → Reply) (p : Int) (expression : Text) (v : Value) : Prop :=
  Rounds f p expression v ∧ ∃ shown, v.display = .ok shown

mutual

/-- The value of a tree, of which every operation and every call is evaluated with operands that
are rounded. -/
inductive Reduces (f : Request → Reply) (p : Int) : Tree → Value → Prop
  | constant (n : Numeral) (spelling : Text) : Reduces f p (.constant n spelling) n.value
  | parenthesis {t : Tree} {v : Value} (h : Reduces f p t v) : Reduces f p (.parenthesis t) v
  | operation {op : Operator} {l r : Tree} {x y v : Value} {lhs rhs : Text}
      (hl : Reduces f p l x) (hr : Reduces f p r y)
      (hx : x.operand = .ok lhs) (hy : y.operand = .ok rhs)
      (h : Narrates f p (lhs ++ [' ', op.sign, ' '] ++ rhs) v) :
      Reduces f p (.operation op l r) v
  | call {function : Text} {arguments : List Tree} {xs : List Value} {v : Value}
      {shown : List Text} (hs : ReducesAll f p arguments xs)
      (hd : xs.mapM Value.display = .ok shown)
      (h : Narrates f p (function ++ '(' :: Text.joinWith ", ".toList shown ++ [')']) v) :
      Reduces f p (.call function arguments) v
  | name {spelling : Text} {v : Value} (h : Rounds f p (Tree.name spelling).text v) :
      Reduces f p (.name spelling) v
  | negation {operand : Tree} {v : Value} (h : Rounds f p (Tree.negation operand).text v) :
      Reduces f p (.negation operand) v

/-- The values of several trees. -/
inductive ReducesAll (f : Request → Reply) (p : Int) : List Tree → List Value → Prop
  | nil : ReducesAll f p [] []
  | cons {t : Tree} {ts : List Tree} {v : Value} {vs : List Value} (h : Reduces f p t v)
      (hs : ReducesAll f p ts vs) : ReducesAll f p (t :: ts) (v :: vs)

end

/-- The tree has a value, which is rounded once more and written out as the result. -/
def Reducible (f : Request → Reply) (p : Int) (t : Tree) : Prop :=
  ∃ v w shown, Reduces f p t v ∧ v.round p = .ok w ∧ w.display = .ok shown

/-! ## Evaluation steps -/

variable {s s' : Session} {e : Text} {v : Value}

theorem evaluate_eq_ok : evaluate (.ofFunction f) p e s = (.ok v, s') ↔
    Rounds f p e v ∧ ⟨s.exchanges ++ [⟨.evaluate e, f (.evaluate e)⟩], s.steps⟩ = s' := by
  simp only [evaluate, Run.bind_eq_ok, Run.ask_ofFunction_eq_ok, Run.ofExcept_eq_ok]
  constructor
  · rintro ⟨u, s₁, ⟨hu, rfl⟩, hv, rfl⟩
    exact ⟨⟨u, hu, hv⟩, rfl⟩
  · rintro ⟨⟨u, hu, hv⟩, rfl⟩
    exact ⟨u, _, ⟨hu, rfl⟩, hv, rfl⟩

theorem narrates_of_narrate {action : Text} {step : Step}
    (h : narrate (.ofFunction f) p action e s = (.ok (v, step), s')) :
    Narrates f p e v ∧ s'.steps = s.steps := by
  simp only [narrate, Run.bind_eq_ok, evaluate_eq_ok, Run.display_eq_ok, Run.pure_eq_ok] at h
  obtain ⟨u, s₁, ⟨hu, rfl⟩, shown, s₂, ⟨hd, rfl⟩, h, rfl⟩ := h
  obtain ⟨rfl, rfl⟩ := Prod.mk.inj h
  exact ⟨⟨hu, shown, hd⟩, rfl⟩

theorem narrate_of_narrates (h : Narrates f p e v) (action : Text) (s : Session) :
    ∃ step s', narrate (.ofFunction f) p action e s = (.ok (v, step), s') := by
  obtain ⟨hu, shown, hd⟩ := h
  simp only [narrate, Run.bind_eq_ok, evaluate_eq_ok, Run.display_eq_ok, Run.pure_eq_ok]
  exact ⟨_, _, v, _, ⟨hu, rfl⟩, shown, _, ⟨hd, rfl⟩, rfl, rfl⟩

theorem mapM_display_eq_ok : ∀ {vs : List Value} {shown : List Text} {s s' : Session},
    vs.mapM Run.display s = (.ok shown, s') ↔ vs.mapM Value.display = .ok shown ∧ s = s'
  | [], shown, s, s' => by rw [List.mapM_nil, List.mapM_nil, Run.pure_eq_ok, pure_eq_ok]
  | v :: vs, shown, s, s' => by
    simp only [List.mapM_cons, Run.bind_eq_ok, bind_eq_ok, Run.display_eq_ok, mapM_display_eq_ok,
      Run.pure_eq_ok, pure_eq_ok]
    constructor
    · rintro ⟨t, s₁, ⟨ht, rfl⟩, ts, s₂, ⟨hts, rfl⟩, h, rfl⟩
      exact ⟨⟨t, ht, ts, hts, h⟩, rfl⟩
    · rintro ⟨⟨t, ht, ts, hts, h⟩, rfl⟩
      exact ⟨t, _, ⟨ht, rfl⟩, ts, _, ⟨hts, rfl⟩, h, rfl⟩

/-! ## Soundness -/

mutual

/-- What is computed for a tree is its value, and no step is told meanwhile. -/
theorem reduces_of_reduce : ∀ (t : Tree) {v : Value} {steps : List Step} {s s' : Session},
    reduce (.ofFunction f) p t s = (.ok (v, steps), s') → Reduces f p t v ∧ s'.steps = s.steps
  | .constant n spelling, v, steps, s, s', h => by
    rw [reduce, Run.pure_eq_ok] at h
    obtain ⟨h, rfl⟩ := h
    obtain ⟨rfl, rfl⟩ := Prod.mk.inj h
    exact ⟨.constant n spelling, rfl⟩
  | .parenthesis t, v, steps, s, s', h => by
    rw [reduce] at h
    obtain ⟨ht, hs⟩ := reduces_of_reduce t h
    exact ⟨.parenthesis ht, hs⟩
  | .operation op l r, v, steps, s, s', h => by
    simp only [reduce, Run.bind_eq_ok, Run.ofExcept_eq_ok, Run.pure_eq_ok] at h
    obtain ⟨⟨x, before⟩, s₁, hl, ⟨y, between⟩, s₂, hr, lhs, _, ⟨hx, rfl⟩, rhs, _, ⟨hy, rfl⟩,
      ⟨v', step⟩, s₃, hn, h, rfl⟩ := h
    obtain ⟨rfl, rfl⟩ := Prod.mk.inj h
    obtain ⟨hl, hs₁⟩ := reduces_of_reduce l hl
    obtain ⟨hr, hs₂⟩ := reduces_of_reduce r hr
    obtain ⟨hv, hs₃⟩ := narrates_of_narrate hn
    exact ⟨.operation hl hr hx hy hv, hs₃.trans (hs₂.trans hs₁)⟩
  | .call function arguments, v, steps, s, s', h => by
    simp only [reduce, Run.bind_eq_ok, mapM_display_eq_ok, Run.pure_eq_ok] at h
    obtain ⟨⟨xs, before⟩, s₁, hs, shown, _, ⟨hd, rfl⟩, ⟨v', step⟩, s₂, hn, h, rfl⟩ := h
    obtain ⟨rfl, rfl⟩ := Prod.mk.inj h
    obtain ⟨hs, hs₁⟩ := reducesAll_of_reduceAll arguments hs
    obtain ⟨hv, hs₃⟩ := narrates_of_narrate hn
    exact ⟨.call hs hd hv, hs₃.trans hs₁⟩
  | .name spelling, v, steps, s, s', h => by
    simp only [reduce, Run.bind_eq_ok, evaluate_eq_ok, Run.pure_eq_ok] at h
    obtain ⟨u, s₁, ⟨hu, rfl⟩, h, rfl⟩ := h
    obtain ⟨rfl, rfl⟩ := Prod.mk.inj h
    exact ⟨.name hu, rfl⟩
  | .negation operand, v, steps, s, s', h => by
    simp only [reduce, Run.bind_eq_ok, evaluate_eq_ok, Run.pure_eq_ok] at h
    obtain ⟨u, s₁, ⟨hu, rfl⟩, h, rfl⟩ := h
    obtain ⟨rfl, rfl⟩ := Prod.mk.inj h
    exact ⟨.negation hu, rfl⟩

theorem reducesAll_of_reduceAll : ∀ (ts : List Tree) {vs : List Value} {steps : List Step}
    {s s' : Session}, reduceAll (.ofFunction f) p ts s = (.ok (vs, steps), s') →
      ReducesAll f p ts vs ∧ s'.steps = s.steps
  | [], vs, steps, s, s', h => by
    rw [reduceAll, Run.pure_eq_ok] at h
    obtain ⟨h, rfl⟩ := h
    obtain ⟨rfl, rfl⟩ := Prod.mk.inj h
    exact ⟨.nil, rfl⟩
  | t :: ts, vs, steps, s, s', h => by
    simp only [reduceAll, Run.bind_eq_ok, Run.pure_eq_ok] at h
    obtain ⟨⟨v, before⟩, s₁, ht, ⟨ws, after⟩, s₂, hts, h, rfl⟩ := h
    obtain ⟨rfl, rfl⟩ := Prod.mk.inj h
    obtain ⟨ht, hs₁⟩ := reduces_of_reduce t ht
    obtain ⟨hts, hs₂⟩ := reducesAll_of_reduceAll ts hts
    exact ⟨.cons ht hts, hs₂.trans hs₁⟩

end

/-! ## Completeness -/

mutual

/-- The value of a tree is computed in every session. -/
theorem reduce_of_reduces : ∀ {t : Tree} {v : Value}, Reduces f p t v → ∀ s : Session,
    ∃ steps s', reduce (.ofFunction f) p t s = (.ok (v, steps), s')
  | _, _, .constant n spelling, s => by
    refine ⟨[], s, ?_⟩
    rw [reduce, Run.pure_eq_ok]
    exact ⟨rfl, rfl⟩
  | _, _, .parenthesis h, s => by
    rw [reduce]
    exact reduce_of_reduces h s
  | _, _, .operation hl hr hx hy hn, s => by
    obtain ⟨before, s₁, hl⟩ := reduce_of_reduces hl s
    obtain ⟨between, s₂, hr⟩ := reduce_of_reduces hr s₁
    obtain ⟨step, s₃, hn⟩ := narrate_of_narrates hn Action.subExpression s₂
    refine ⟨before ++ between ++ [step], s₃, ?_⟩
    simp only [reduce, Run.bind_eq_ok, Run.ofExcept_eq_ok, Run.pure_eq_ok]
    exact ⟨_, s₁, hl, _, s₂, hr, _, s₂, ⟨hx, rfl⟩, _, s₂, ⟨hy, rfl⟩, _, s₃, hn, rfl, rfl⟩
  | _, _, .call hs hd hn, s => by
    obtain ⟨before, s₁, hs⟩ := reduceAll_of_reducesAll hs s
    obtain ⟨step, s₂, hn⟩ := narrate_of_narrates hn Action.function s₁
    refine ⟨before ++ [step], s₂, ?_⟩
    simp only [reduce, Run.bind_eq_ok, mapM_display_eq_ok, Run.pure_eq_ok]
    exact ⟨_, s₁, hs, _, s₁, ⟨hd, rfl⟩, _, s₂, hn, rfl, rfl⟩
  | _, _, .name h, s => by
    simp only [reduce, Run.bind_eq_ok, evaluate_eq_ok, Run.pure_eq_ok]
    exact ⟨[], _, _, _, ⟨h, rfl⟩, rfl, rfl⟩
  | _, _, .negation h, s => by
    simp only [reduce, Run.bind_eq_ok, evaluate_eq_ok, Run.pure_eq_ok]
    exact ⟨[], _, _, _, ⟨h, rfl⟩, rfl, rfl⟩

theorem reduceAll_of_reducesAll : ∀ {ts : List Tree} {vs : List Value}, ReducesAll f p ts vs →
    ∀ s : Session, ∃ steps s', reduceAll (.ofFunction f) p ts s = (.ok (vs, steps), s')
  | _, _, .nil, s => by
    refine ⟨[], s, ?_⟩
    rw [reduceAll, Run.pure_eq_ok]
    exact ⟨rfl, rfl⟩
  | _, _, .cons h hs, s => by
    obtain ⟨before, s₁, h⟩ := reduce_of_reduces h s
    obtain ⟨after, s₂, hs⟩ := reduceAll_of_reducesAll hs s₁
    refine ⟨before ++ after, s₂, ?_⟩
    simp only [reduceAll, Run.bind_eq_ok, Run.pure_eq_ok]
    exact ⟨_, s₁, h, _, s₂, hs, rfl, rfl⟩

end

/-- A readable expression has a trace if and only if its tree has a result. -/
theorem trace_eq_ok_iff {config : Config} {t : Tree} (ht : Tree.read config.functions e = .ok t) :
    (∃ steps s', trace (.ofFunction f) config e s = (.ok steps, s')) ↔
      Reducible f config.precision t := by
  simp only [trace, Engine.ofFunction_read, ht, ofTree, Run.bind_eq_ok, Run.ofExcept_eq_ok, Run.display_eq_ok,
    Run.pure_eq_ok]
  constructor
  · rintro ⟨_, _, ⟨v, _⟩, s₁, hr, w, _, ⟨hw, rfl⟩, shown, _, ⟨hd, rfl⟩, _⟩
    exact ⟨v, w, shown, (reduces_of_reduce t hr).1, hw, hd⟩
  · rintro ⟨v, w, shown, hr, hw, hd⟩
    obtain ⟨steps, s₁, hr⟩ := reduce_of_reduces hr s
    exact ⟨_, _, _, s₁, hr, w, s₁, ⟨hw, rfl⟩, shown, s₁, ⟨hd, rfl⟩, rfl, rfl⟩

end Trace

/-! ## Arithmetic problems -/

namespace Strategy

variable {f : Request → Reply} {s s' : Session} {v : Value}

theorem orInvalid_eq_ok {run : Run Value} :
    orInvalid run s = (.ok v, s') ↔ run s = (.ok v, s') := by
  unfold orInvalid
  split
  next fault s₁ h =>
    rw [h]
    exact ⟨fun h' => absurd (congrArg Prod.fst h') (by simp),
      fun h' => absurd (congrArg Prod.fst h') (by simp)⟩
  next => rfl

/-- An arithmetic problem has an answer if and only if its trace has a result and the whole of it
has a value. -/
theorem arithmetic_eq_ok_iff {config : Config} {problem canonical : Text} {t : Tree}
    (ht : Tree.read config.functions canonical = .ok t) :
    (∃ s', arithmetic (.ofFunction f) config problem canonical s = (.ok v, s')) ↔
      Trace.Reducible f config.precision t ∧ Trace.Rounds f config.precision canonical v := by
  simp only [arithmetic, Run.bind_eq_ok, Run.ofExcept_eq_ok, orInvalid_eq_ok,
    Run.ask_ofFunction_eq_ok]
  constructor
  · rintro ⟨_, _, _, _, steps, s₂, htr, _, _, _, u, _, ⟨hu, -⟩, hv, -⟩
    exact ⟨(Trace.trace_eq_ok_iff ht).mp ⟨steps, s₂, htr⟩, u, hu, hv⟩
  · rintro ⟨htr, u, hu, hv⟩
    obtain ⟨steps, s₂, htr⟩ := (Trace.trace_eq_ok_iff ht).mpr htr
    exact ⟨_, (), _, rfl, steps, s₂, htr, (), _, rfl, u, _, ⟨hu, rfl⟩, hv, rfl⟩

end Strategy

namespace Solver

variable {engine : Engine} {config : Config} {kind : ProblemKind} {problem : Text}
  {f : Request → Reply}

/-- The answer of a solution is what its strategy ends with, and nothing if it fails. -/
theorem answer_eq_iff {v : Value} (hv : v ≠ .null) :
    (solveAs engine config kind problem).answer = v ↔
      ∃ s, outcome engine config kind problem = (.ok v, s) := by
  unfold solveAs converse
  split
  next answer s h =>
    rw [h]
    constructor
    · rintro rfl
      exact ⟨s, rfl⟩
    · rintro ⟨_, h'⟩
      exact Except.ok.inj (congrArg Prod.fst h')
  next fault s h =>
    rw [h]
    constructor
    · rintro rfl
      exact absurd rfl hv
    · rintro ⟨_, h'⟩
      exact absurd (congrArg Prod.fst h') (by simp)

/-- The values an arithmetic problem is answered with, whatever the engine. -/
theorem answer_arithmetic_eq_iff {t : Tree} {v : Value}
    (ht : Tree.read config.functions (Phrase.canonical problem) = .ok t) (hv : v ≠ .null) :
    (solveAs (.ofFunction f) config .arithmetic problem).answer = v ↔
      Trace.Reducible f config.precision t ∧
        Trace.Rounds f config.precision (Phrase.canonical problem) v :=
  (answer_eq_iff hv).trans (Strategy.arithmetic_eq_ok_iff ht)

end Solver

/-! ## Rounded values -/

namespace Value

/-- At three decimal places every value can be rounded. -/
theorem exists_round_three (v : Value) : ∃ w, v.round 3 = .ok w := by
  have thousand : (Binary64.ofInt? (10 ^ 3)).isSome = true := by decide +kernel
  obtain ⟨factor, hf⟩ := Option.isSome_iff_exists.mp thousand
  cases v with
  | float x =>
    by_cases hx : x.isFinite = true
    · have hs : x.scaleUp 3 = .ok (x.mul factor) := by
        have three : (3 : Int) = .ofNat 3 := rfl
        rw [three, Binary64.scaleUp, if_neg (by decide), hf]
      rw [round, if_pos hx, roundFinite, hs, ok_bind]
      split
      · exact ⟨_, rfl⟩
      · exact ⟨_, rfl⟩
    · exact ⟨_, if_neg hx⟩
  | _ => exact ⟨_, rfl⟩

theorem round_ne_null {p : Int} {v w : Value} (h : v.round p = .ok w) (hv : v ≠ .null) :
    w ≠ .null := by
  cases v with
  | float x =>
    rw [round] at h
    split at h
    · obtain ⟨scaled, -, h⟩ := bind_eq_ok.mp h
      split at h
      · obtain rfl := Except.ok.inj h
        exact Value.noConfusion
      · obtain ⟨rounded, -, h⟩ := bind_eq_ok.mp h
        obtain rfl := Except.ok.inj h
        split <;> exact Value.noConfusion
    · obtain rfl := Except.ok.inj h
      exact Value.noConfusion
  | _ =>
    obtain rfl := Except.ok.inj h
    exact hv

end Value

/-! ## Evaluations by a library -/

namespace Library

variable {L : Library} {config : Config} {w : Text} {e : L.Expr} {v : Value}

theorem written_eq_ok : L.written e = .ok v ↔ ∃ t, L.write e = .ok t ∧ v = .text t := by
  unfold written
  rw [bind_eq_ok]
  simp only [pure_eq_ok, eq_comm (b := v)]

/-- An expression is an integer, another real number that becomes a double, or it is written. -/
theorem reply_cases (h : L.reply e = .ok v) :
    (∃ n, L.integer? e = some n ∧ v = .int n) ∨
      (∃ z x, L.approximate e = .ok z ∧ L.isReal z = true ∧ L.integer? e = none ∧
        L.toBinary64 z = .ok x ∧ v = .float x) ∨
      ∃ t, L.write e = .ok t ∧ v = .text t := by
  unfold reply at h
  split at h
  · obtain ⟨z, hz, h⟩ := bind_eq_ok.mp h
    split at h
    next real =>
      split at h
      next n hn => exact .inl ⟨n, hn, (Except.ok.inj h).symm⟩
      next none =>
        obtain ⟨x, hx, h⟩ := bind_eq_ok.mp h
        exact .inr (.inl ⟨z, x, hz, real, none, hx, (Except.ok.inj h).symm⟩)
    next => exact .inr (.inr (written_eq_ok.mp h))
  · exact .inr (.inr (written_eq_ok.mp h))

theorem reply_ne_null (h : L.reply e = .ok v) : v ≠ .null := by
  rcases reply_cases h with ⟨n, -, rfl⟩ | ⟨z, x, -, -, -, -, rfl⟩ | ⟨t, -, rfl⟩
  all_goals exact Value.noConfusion

/-- What has a value has a tree and is a proper expression to the library, which is the value. -/
theorem evaluate_eq_ok_iff : L.evaluate config w = .ok v ↔
    ∃ t e, Tree.read config.functions w = .ok t ∧ L.read (config.scope none) w = .expression e ∧
      L.isImproper e = false ∧ L.reply e = .ok v := by
  simp only [evaluate, bind_eq_ok, parse_eq_ok]
  constructor
  · rintro ⟨t, ht, e, he, h⟩
    split at h
    · exact absurd h (by simp [bind, Except.bind, throw, throwThe, MonadExceptOf.throw])
    next proper => exact ⟨t, e, ht, he, Bool.eq_false_iff.mpr proper, h⟩
  · rintro ⟨t, e, ht, he, proper, h⟩
    refine ⟨t, ht, e, he, ?_⟩
    rw [if_neg (Bool.eq_false_iff.mp proper)]
    exact h

end Library

end Stepwise
