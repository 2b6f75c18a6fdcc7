import Stepwise.Proofs.Narration

/-!
# The values that solutions carry

A solution carries the values that an engine replies with: as its answer and as the results of its
steps. For most kinds of problems nothing else happens to them. In an arithmetic problem they are
rounded, and the numerals of the problem are values too.

`Keeps` lists what it takes for a set of values to have all of these in it. The set may be chosen for
each kind of problem, because arithmetic problems ask for evaluations only, and all others never do.

Result: `forall_values_solveAs`, for any engine and every problem, solved or not.
-/

namespace Stepwise

/-- Is this the request for the value of an expression? -/
def Request.isEvaluation : Request → Bool
  | evaluate _ => true
  | _ => false

/-- The values that a solution carries. -/
def Solution.values (s : Solution) : List Value := s.answer :: s.steps.map Step.result

/-- All that can become a value of a solution is in `Q`. -/
structure Engine.Keeps (engine : Engine) (precision : Int) (kind : ProblemKind)
    (Q : Value → Prop) : Prop where
  null : Q .null
  text : ∀ t, Q (.text t)
  reply : ∀ {before r v}, (r.isEvaluation = true ↔ kind = .arithmetic) →
    engine before r = .ok v → Q v
  numeral : kind = .arithmetic → ∀ n : Numeral, Q n.value
  round : kind = .arithmetic → ∀ {v w}, Q v → v.round precision = .ok w → Q w

variable {engine : Engine} {config : Config} {precision : Int} {kind : ProblemKind}
  {Q : Value → Prop} {problem canonical : Text}

theorem Engine.Keeps.evaluated (h : engine.Keeps precision .arithmetic Q)
    {before : List Exchange} {e : Text} {v : Value} (hv : engine before (.evaluate e) = .ok v) :
    Q v :=
  h.reply (iff_of_true rfl rfl) hv

theorem Engine.Keeps.computed (h : engine.Keeps precision kind Q) (other : kind ≠ .arithmetic)
    {before : List Exchange} {r : Request} {v : Value} (hr : r.isEvaluation = false)
    (hv : engine before r = .ok v) : Q v :=
  h.reply (iff_of_false (by simp [hr]) other) hv

/-- The results of all steps are in `Q`. -/
def Carry (Q : Value → Prop) (steps : List Step) : Prop := ∀ step ∈ steps, Q step.result

@[simp] theorem carry_nil : Carry Q [] ↔ True := by simp [Carry]

@[simp] theorem carry_singleton {step : Step} : Carry Q [step] ↔ Q step.result :=
  List.forall_mem_singleton

@[simp] theorem carry_append {steps more : List Step} :
    Carry Q (steps ++ more) ↔ Carry Q steps ∧ Carry Q more := List.forall_mem_append

open Run

/-! ## Traces -/

namespace Trace

theorem evaluate_keeps (h : engine.Keeps precision .arithmetic Q) (e : Text) (s : Session) :
    Ends (evaluate engine precision e) s (fun v _ => Q v) (fun _ _ => True) := by
  simp only [evaluate, ends_bind, ends_ask, ends_ofExcept, implies_true, and_true]
  exact fun u hu v hv => h.round rfl (h.evaluated hu) hv

theorem narrate_keeps (h : engine.Keeps precision .arithmetic Q) (action e : Text) (s : Session) :
    Ends (narrate engine precision action e) s (fun r _ => Q r.1 ∧ Carry Q [r.2])
      (fun _ _ => True) := by
  simp only [narrate, ends_bind, ends_display, ends_pure, carry_singleton, implies_true, and_true]
  exact (evaluate_keeps h e s).mono (fun v _ hv _ _ => ⟨hv, hv⟩) fun _ _ _ => trivial

mutual

/-- The value of a tree, and the results on the way to it. -/
theorem reduce_keeps (h : engine.Keeps precision .arithmetic Q) : ∀ (t : Tree) (s : Session),
    Ends (reduce engine precision t) s (fun r _ => Q r.1 ∧ Carry Q r.2) (fun _ _ => True)
  | .constant n _, s => by
    rw [reduce, ends_pure]
    exact ⟨h.numeral rfl n, carry_nil.mpr trivial⟩
  | .parenthesis t, s => by
    rw [reduce]
    exact reduce_keeps h t s
  | .operation op l r, s => by
    rw [reduce]
    simp only [ends_bind, ends_ofExcept, ends_pure, carry_append, implies_true, and_true]
    refine (reduce_keeps h l s).mono ?_ fun _ _ _ => trivial
    rintro ⟨x, before⟩ s₁ ⟨-, hbefore⟩
    refine (reduce_keeps h r s₁).mono ?_ fun _ _ _ => trivial
    rintro ⟨y, between⟩ s₂ ⟨-, hbetween⟩ lhs - rhs -
    refine (narrate_keeps h _ _ s₂).mono ?_ fun _ _ _ => trivial
    rintro ⟨v, step⟩ - ⟨hv, hstep⟩
    exact ⟨hv, ⟨hbefore, hbetween⟩, hstep⟩
  | .call function arguments, s => by
    rw [reduce]
    simp only [ends_bind, mapM_display, ends_ofExcept, ends_pure, carry_append, implies_true,
      and_true]
    refine (reduceAll_keeps h arguments s).mono ?_ fun _ _ _ => trivial
    rintro ⟨xs, before⟩ s₁ hbefore shown -
    refine (narrate_keeps h _ _ s₁).mono ?_ fun _ _ _ => trivial
    rintro ⟨v, step⟩ - ⟨hv, hstep⟩
    exact ⟨hv, hbefore, hstep⟩
  | .name spelling, s => by
    rw [reduce]
    simp only [ends_bind, ends_pure, carry_nil, and_true]
    exact evaluate_keeps h _ s
  | .negation t, s => by
    rw [reduce]
    simp only [ends_bind, ends_pure, carry_nil, and_true]
    exact evaluate_keeps h _ s

theorem reduceAll_keeps (h : engine.Keeps precision .arithmetic Q) :
    ∀ (ts : List Tree) (s : Session),
      Ends (reduceAll engine precision ts) s (fun r _ => Carry Q r.2) (fun _ _ => True)
  | [], s => by
    rw [reduceAll, ends_pure, carry_nil]
    trivial
  | t :: ts, s => by
    rw [reduceAll]
    simp only [ends_bind, ends_pure, carry_append]
    refine (reduce_keeps h t s).mono ?_ fun _ _ _ => trivial
    rintro ⟨v, before⟩ s₁ ⟨-, hbefore⟩
    refine (reduceAll_keeps h ts s₁).mono ?_ fun _ _ _ => trivial
    rintro ⟨vs, after⟩ - hafter
    exact ⟨hbefore, hafter⟩

end

/-- The results in a trace. When it ends, none of them has been told yet. -/
theorem trace_keeps (h : engine.Keeps config.precision .arithmetic Q) (e : Text) (s : Session) :
    Ends (trace engine config e) s (fun steps s' => s'.steps = s.steps ∧ Carry Q steps)
      (fun _ s' => s'.steps = s.steps) := by
  have results : Ends (trace engine config e) s (fun steps _ => Carry Q steps)
      (fun _ _ => True) := by
    unfold trace
    split
    next tree _ =>
      simp only [ofTree, ends_bind, ends_ofExcept, ends_display, ends_pure, carry_append,
        carry_singleton, implies_true, and_true]
      refine (reduce_keeps h tree s).mono ?_ fun _ _ _ => trivial
      rintro ⟨v, steps⟩ - ⟨hv, hsteps⟩ w hw shown -
      exact ⟨hsteps, h.round rfl hv hw⟩
    next =>
      split
      · exact carry_singleton.mpr h.null
      · trivial
  exact ((Strategy.trace_ends e s).and results).mono (fun _ _ h => ⟨h.1.1, h.2⟩)
    fun _ _ hs => hs.1

end Trace

/-! ## Strategies -/

namespace Strategy

theorem differentiation_keeps (h : engine.Keeps config.precision .differentiation Q) :
    Ends (differentiation engine config problem canonical) .start
      (fun v s => Q v ∧ Carry Q s.steps) (fun _ s => Carry Q s.steps) := by
  simp only [differentiation, ends_bind, ends_tell, ends_ask, ends_ofExcept, ends_display,
    ends_pure, Session.start, carry_append, carry_singleton, carry_nil, h.null, and_true, true_and,
    implies_true]
  intro q _ v hv
  have derived : Q v := h.computed (by decide) rfl hv
  exact ⟨fun w hw => ⟨fun _ _ => ⟨h.computed (by decide) rfl hw, derived⟩, fun _ _ => derived⟩,
    fun _ _ => derived⟩

theorem integration_keeps (h : engine.Keeps config.precision .integration Q) :
    Ends (integration engine config problem canonical) .start
      (fun v s => Q v ∧ Carry Q s.steps) (fun _ s => Carry Q s.steps) := by
  simp only [integration, ends_bind, ends_tell, ends_ask, ends_ofExcept, ends_display,
    ends_pure, Session.start, carry_append, carry_singleton, carry_nil, h.null, h.text, and_true,
    true_and, implies_true]
  intro q _ v hv
  have integrated : Q v := h.computed (by decide) rfl hv
  exact ⟨fun w _ => ⟨fun _ _ => integrated, fun _ _ => integrated⟩, fun _ _ => integrated⟩

theorem limit_keeps (h : engine.Keeps config.precision .limit Q) :
    Ends (limit engine config problem canonical) .start
      (fun v s => Q v ∧ Carry Q s.steps) (fun _ s => Carry Q s.steps) := by
  simp only [limit, ends_bind, ends_tell, ends_ask, ends_ofExcept, ends_display,
    ends_pure, Session.start, carry_append, carry_singleton, carry_nil, h.null, and_true, true_and,
    implies_true, and_self]
  exact fun q _ v hv _ _ => h.computed (by decide) rfl hv

theorem algebra_keeps (h : engine.Keeps config.precision .algebra Q) :
    Ends (algebra engine config problem canonical) .start
      (fun v s => Q v ∧ Carry Q s.steps) (fun _ s => Carry Q s.steps) := by
  simp only [algebra, ends_bind, ends_tell, ends_ask]
  refine (equation_ends canonical _).mono ?_ ?_
  · rintro ⟨equation, x⟩ ⟨exchanges, steps⟩ (rfl : steps = _)
    simp only [Session.start, carry_append, carry_singleton, carry_nil, h.null, and_true,
      implies_true]
    intro identity _
    split
    · simp only [ends_bind, ends_tell, ends_display, ends_pure, carry_append, carry_singleton,
        carry_nil, h.null, h.text, and_true, implies_true]
    · simp only [ends_bind, ends_ask]
      refine ⟨fun solutions hs => ?_, fun _ _ => ?_⟩
      · split
        · exact ends_throw.mpr (by simp [h.null])
        · simp only [ends_bind, ends_tell, ends_ofExcept, ends_display, ends_pure, carry_append,
            carry_singleton, carry_nil, h.null, h.text, and_true, true_and, implies_true]
          exact fun _ _ _ _ => h.computed (by decide) rfl hs
      · simp [h.null]
  · rintro _ ⟨exchanges, steps⟩ (rfl : steps = _)
    simp [Session.start, h.null]

theorem arithmetic_keeps (h : engine.Keeps config.precision .arithmetic Q) :
    Ends (arithmetic engine config problem canonical) .start
      (fun v s => Q v ∧ Carry Q s.steps) (fun _ s => Carry Q s.steps) := by
  simp only [arithmetic, ends_bind, ends_tell, ends_tellAll, ends_orInvalid, ends_ask,
    ends_ofExcept]
  refine (Trace.trace_keeps h canonical _).mono ?_ ?_
  · rintro told ⟨exchanges, steps⟩ ⟨rfl : steps = _, ht⟩
    simp only [Session.start, carry_append, carry_singleton, carry_nil, h.null, ht, and_true,
      implies_true]
    exact fun v hv w hw => h.round rfl (h.evaluated hv) hw
  · rintro _ ⟨exchanges, steps⟩ (rfl : steps = _)
    simp [Session.start, h.null]

/-- All values of a strategy are in the set, however it ends. -/
theorem solve_keeps (h : engine.Keeps config.precision kind Q) (problem canonical : Text) :
    Ends (solve engine config kind problem canonical) .start
      (fun v s => Q v ∧ Carry Q s.steps) (fun _ s => Carry Q s.steps) := by
  cases kind with
  | arithmetic => exact arithmetic_keeps h
  | differentiation => exact differentiation_keeps h
  | integration => exact integration_keeps h
  | algebra => exact algebra_keeps h
  | limit => exact limit_keeps h

end Strategy

namespace Solver

/-- **All values of a solution are in every set that has all replies of the engine in it**, and in
an arithmetic problem all numerals and what values are rounded to. -/
theorem forall_values_solveAs (h : engine.Keeps config.precision kind Q) (problem : Text) :
    ∀ v ∈ (solveAs engine config kind problem).values, Q v := by
  have ends := Strategy.solve_keeps h problem (Phrase.canonical problem)
  unfold solveAs converse Solution.values
  rw [List.forall_mem_cons, List.forall_mem_map]
  split
  next answer s ho => exact ends.of_ok ho
  next fault s ho =>
    exact ⟨h.null, carry_append.mpr ⟨ends.of_error ho, carry_singleton.mpr h.null⟩⟩

end Solver

end Stepwise
