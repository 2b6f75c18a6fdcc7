import Stepwise.Algebra.Engine
import Stepwise.Proofs.Narration

/-!
# Expressions that are refused

An arithmetic problem is read twice: once for its trace, where a text that cannot be read becomes a
step, and once by the engine that is asked for the value of the whole, where it becomes a fault. The
two agree because the engine reads an expression with the same functions before it does anything
else with it. `Engine.reading` is any engine of this kind: what it makes of an expression that can be
read is a parameter. The engine over a library is one of them (`Library.engine_eq_reading`).

Results: `solveAs_of_unreadable`, the whole solution of a problem that cannot be read; and
`refusals_agree`, by which the trace tells of such a problem if and only if the reader refuses it.
-/

namespace Stepwise

variable {reply : List Exchange → Request → Reply} {functions : List Text} {config : Config}
  {problem canonical expression : Text} {fault : Fault} {t : Tree}

/-- The engine that replies to requests as `reply` does, but reads an expression first when it is to
be evaluated, and fails where the reader fails. -/
def Engine.reading (functions : List Text) (reply : List Exchange → Request → Reply) : Engine where
  reply before
    | .evaluate expression => do
      let _ ← Tree.read functions expression
      reply before (.evaluate expression)
    | request => reply before request

theorem Engine.reading_of_error (h : Tree.read functions expression = .error fault)
    (before : List Exchange) :
    reading functions reply before (.evaluate expression) = .error fault := by
  change (Tree.read functions expression >>= _) = _
  rw [h]
  rfl

/-- The engine over a library reads an expression before it evaluates it. -/
theorem Library.engine_eq_reading (L : Library) (config : Config) :
    L.engine config = .reading config.functions fun _ => L.answer config := by
  refine congrArg (Engine.mk · Tree.read) (funext fun before => funext fun request => ?_)
  cases request with
  | evaluate expression =>
    change L.evaluate config expression = (Tree.read config.functions expression >>= fun _ =>
      L.evaluate config expression)
    unfold evaluate
    cases Tree.read config.functions expression <;> rfl
  | _ => rfl

/-- The reader of the engine says that the expression cannot be read. -/
def Engine.Refuses (engine : Engine) (functions : List Text) (expression : Text) : Prop :=
  ∃ fault, engine.read functions expression = .error fault ∧ fault.kind = .unreadable

namespace Trace

open Run

variable {engine : Engine}

/-- The steps about a tree do not say that it cannot be read. -/
theorem parseError_not_mem_evaluated (t : Tree) :
    Action.parseError ∉ t.evaluated.filterMap Tree.action? := by
  intro hm
  obtain ⟨node, -, hn⟩ := List.mem_filterMap.mp hm
  cases node with
  | operation => exact absurd (Option.some.inj hn) (by decide)
  | call => exact absurd (Option.some.inj hn) (by decide)
  | _ => exact absurd hn (by simp [Tree.action?])

/-- A trace tells of a refusal only if the reader refuses the expression. -/
theorem refusal_ends (expression : Text) (s : Session) :
    Ends (trace engine config expression) s
      (fun steps s' => s'.steps = s.steps ∧ (Action.parseError ∈ steps.map Step.action →
        engine.Refuses config.functions expression))
      (fun _ s' => s'.steps = s.steps) := by
  unfold trace
  split
  next t _ =>
    refine (ofTree_ends t expression s).mono ?_ fun _ _ ⟨_, h⟩ => h.accounts.steps
    rintro _ s' ⟨visits, v, told, final, h, rfl, hf⟩
    refine ⟨h.accounts.steps, fun hm => ?_⟩
    rw [List.map_append, List.map_singleton, hf, h.actions, List.mem_append] at hm
    rcases hm with hm | hm
    · exact absurd hm (parseError_not_mem_evaluated t)
    · exact absurd (List.mem_singleton.mp hm) (by decide)
  next fault h =>
    split
    next hk => exact ⟨rfl, fun _ => ⟨fault, h, hk⟩⟩
    next => rfl

end Trace

namespace Strategy

open Run

/-- The step with which every solution of an arithmetic problem begins. -/
def parsed (problem : Text) : Step where
  action := Action.expressionParsed
  math := problem
  explanation := "Evaluating the arithmetic expression step by step.".toList

/-- What cannot be read is told once and asked for once. -/
theorem arithmetic_of_unreadable (h : Tree.read config.functions canonical = .error fault)
    (hk : fault.kind = .unreadable) (s : Session) :
    arithmetic (.reading config.functions reply) config problem canonical s =
      (.error .invalidArithmetic,
        ⟨s.exchanges ++ [⟨.evaluate canonical, .error fault⟩],
          s.steps ++ [parsed problem] ++ [Trace.unreadable canonical]⟩) := by
  have htrace := Trace.trace_unreadable (.reading config.functions reply) config h hk
  have hreply : Engine.reading config.functions reply s.exchanges (.evaluate canonical) =
      .error fault := Engine.reading_of_error h s.exchanges
  have hengine : fault.isEngine = true := by rw [Fault.isEngine, hk]; rfl
  simp only [arithmetic, bind_apply, Run.tell, htrace, tellAll, orInvalid, ask, hreply, hengine,
    if_true]
  rfl

/-- The steps that a strategy has told speak of a refusal only if there is one. -/
theorem arithmetic_refusal {engine : Engine} :
    Ends (arithmetic engine config problem canonical) .start
      (fun _ s => Action.parseError ∈ s.actions → engine.Refuses config.functions canonical)
      (fun _ s => Action.parseError ∈ s.actions → engine.Refuses config.functions canonical) := by
  have opening : Action.parseError ∉ [Action.expressionParsed] := by decide
  simp only [arithmetic, ends_bind, ends_tell, ends_tellAll, ends_orInvalid, ends_ask,
    ends_ofExcept]
  refine (Trace.refusal_ends canonical _).mono ?_ ?_
  · rintro told ⟨exchanges, steps⟩ ⟨rfl : steps = _, ht⟩
    -- Nothing is told any more, wherever the evaluation of the whole ends.
    have hmem : Action.parseError ∈ Action.expressionParsed :: told.map Step.action →
        engine.Refuses config.functions canonical := fun hm =>
      ht ((List.mem_cons.mp hm).resolve_left (by decide))
    exact ⟨fun _ _ => ⟨fun _ _ => hmem, fun _ _ => hmem⟩, fun _ _ => hmem⟩
  · rintro _ ⟨exchanges, steps⟩ (rfl : steps = _) hm
    exact absurd hm opening

end Strategy

namespace Solver

open Run Strategy

/-- **The solution of a problem that cannot be read**: the problem, the refusal, and the reason why
there is no answer. -/
theorem solveAs_of_unreadable
    (h : Tree.read config.functions (Phrase.canonical problem) = .error fault)
    (hk : fault.kind = .unreadable) :
    solveAs (.reading config.functions reply) config .arithmetic problem =
      ⟨.arithmetic, .null,
        [parsed problem, Trace.unreadable (Phrase.canonical problem),
          failure problem .invalidArithmetic]⟩ := by
  have ho : arithmetic (.reading config.functions reply) config problem
      (Phrase.canonical problem) .start = _ := arithmetic_of_unreadable h hk .start
  simp only [solveAs, converse, outcome, solve, ho]
  rfl

/-- The steps of a solution speak of a refusal only if there is one. -/
theorem refuses_of_parseError {engine : Engine}
    (h : Action.parseError ∈ (solveAs engine config .arithmetic problem).actions) :
    engine.Refuses config.functions (Phrase.canonical problem) := by
  have hends := @arithmetic_refusal config problem (Phrase.canonical problem) engine
  unfold solveAs converse at h
  split at h
  next answer s ho => exact hends.of_ok ho h
  next fault s ho =>
    refine hends.of_error ho ?_
    rw [Solution.actions, List.map_append, List.mem_append] at h
    have last : Action.parseError ≠ Action.processingError := by decide
    exact h.resolve_right fun hm => last (List.mem_singleton.mp hm)

/-- **The trace and the evaluation refuse the same expressions in the same way.** The engine of a
configuration is one that reads first, and with every such engine, whatever it replies once it has
read an expression: if the canonical form of an arithmetic problem cannot be read, the problem is not
solved, its solution tells that, and no more than that, and the reason is an invalid expression; and
if the solution tells that an expression could not be read, then the reader has refused it. -/
theorem refusals_agree (config : Config) (problem : Text) :
    (∃ reply, Algebra.engine config = .reading config.functions reply) ∧
      ∀ reply, let solution := solveAs (.reading config.functions reply) config .arithmetic problem
        (∀ fault, Tree.read config.functions (Phrase.canonical problem) = .error fault →
          fault.kind = .unreadable →
            solution.isSolved = false ∧
              solution.actions =
                [Action.expressionParsed, Action.parseError, Action.processingError] ∧
              solution.steps.getLast?.map Step.explanation =
                some "Could not process this problem: Invalid arithmetic expression".toList) ∧
          (Action.parseError ∈ solution.actions →
            ∃ fault, Tree.read config.functions (Phrase.canonical problem) = .error fault ∧
              fault.kind = .unreadable) := by
  refine ⟨⟨_, Algebra.library.engine_eq_reading config⟩, fun reply => ⟨fun fault h hk => ?_, ?_⟩⟩
  · rw [solveAs_of_unreadable h hk]
    exact ⟨rfl, rfl, rfl⟩
  · exact refuses_of_parseError

/-- `2++3` is refused by the engine of the default configuration. -/
theorem refusals_agree_plus :
    (solveAs (Algebra.engine .default) .default .arithmetic "2++3".toList).actions =
      [Action.expressionParsed, Action.parseError, Action.processingError] := by
  have hread : Tree.read Config.default.functions (Phrase.canonical "2++3".toList) =
      .error (.unexpectedToken ['+']) := by rfl
  obtain ⟨⟨reply, hengine⟩, hagree⟩ := refusals_agree .default "2++3".toList
  rw [hengine]
  exact ((hagree reply).1 _ hread rfl).2.1

end Solver

end Stepwise
