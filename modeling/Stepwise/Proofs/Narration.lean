import Stepwise.Proofs.Postorder
import Stepwise.Proofs.Tracing

/-!
# What a solution tells

A strategy tells its steps in whole stages. `Solves kind actions` lists the actions with which a
problem of a kind is solved, `Leaves kind actions` those that may have been told when it turns out
that it cannot be. With an engine that never replies with nothing, a strategy has no other ends
(`solve_ends`), whatever the engine replies and wherever it fails.

Results: `solveAs_contract`, what users of a solution may rely on, and `solveAs_actions`, the
actions of every solution: those of a solved problem, or a part of them and then one step that says
why the problem could not be solved.
-/

namespace Stepwise

/-- The engine never replies with nothing. -/
def Engine.NeverNull (engine : Engine) : Prop :=
  ∀ (before : List Exchange) (r : Request), engine before r ≠ .ok .null

theorem Engine.neverNull_ofReplies {replies : List Reply} (h : ∀ r ∈ replies, r ≠ .ok .null) :
    (Engine.ofReplies replies).NeverNull :=
  fun _ _ hn => h _ (mem_of_ofReplies hn) rfl

theorem Value.isNull_iff {v : Value} : v.isNull = true ↔ v = .null := by
  cases v <;> simp [Value.isNull]

/-- The actions that have been told. -/
def Session.actions (s : Session) : List Text := s.steps.map Step.action

/-- The actions of the steps. -/
def Solution.actions (s : Solution) : List Text := s.steps.map Step.action

namespace Narration

/-- The actions of a trace: the expression cannot be read, or there are any number of evaluations
and then the overall result. -/
def IsTrace (actions : List Text) : Prop :=
  actions = [Action.parseError] ∨
    ∃ evaluations, (∀ a ∈ evaluations, a = Action.subExpression ∨ a = Action.function) ∧
      actions = evaluations ++ [Action.finalEvaluation]

/-- The actions with which a problem is solved. -/
def Solves : ProblemKind → List Text → Prop
  | .arithmetic, actions => ∃ trace, IsTrace trace ∧ actions = Action.expressionParsed :: trace
  | .differentiation, actions =>
    actions = [Action.functionIdentified, Action.differentiationApplied, Action.resultSimplified]
  | .integration, actions =>
    actions = [Action.integralIdentified, Action.integrationApplied, Action.resultSimplified]
  | .algebra, actions =>
    actions = [Action.equationIdentified, Action.identityRecognized] ∨
      actions = [Action.equationIdentified, Action.equationSolved]
  | .limit, actions => actions = [Action.limitIdentified, Action.limitEvaluated]

/-- The actions that have been told when a problem turns out not to be solvable. -/
def Leaves : ProblemKind → List Text → Prop
  | .arithmetic, actions =>
    actions = [Action.expressionParsed] ∨
      ∃ trace, IsTrace trace ∧ actions = Action.expressionParsed :: trace
  | .differentiation, actions =>
    actions = [Action.functionIdentified] ∨
      actions = [Action.functionIdentified, Action.differentiationApplied]
  | .integration, actions =>
    actions = [Action.integralIdentified] ∨
      actions = [Action.integralIdentified, Action.integrationApplied]
  | .algebra, actions => actions = [Action.equationIdentified]
  | .limit, actions => actions = [Action.limitIdentified]

/-! ## No strategy speaks of its failure -/

theorem IsTrace.processingError_not_mem {actions : List Text} (h : IsTrace actions) :
    Action.processingError ∉ actions := by
  obtain rfl | ⟨evaluations, he, rfl⟩ := h
  · decide
  · intro hm
    rcases List.mem_append.mp hm with hm | hm
    · rcases he _ hm with h | h <;> exact absurd h (by decide)
    · exact absurd (List.mem_singleton.mp hm) (by decide)

theorem processingError_not_mem_parsed {trace : List Text} (h : IsTrace trace) :
    Action.processingError ∉ Action.expressionParsed :: trace :=
  List.not_mem_cons_of_ne_of_not_mem (by decide) h.processingError_not_mem

theorem Solves.processingError_not_mem {kind : ProblemKind} {actions : List Text}
    (h : Solves kind actions) : Action.processingError ∉ actions := by
  cases kind with
  | arithmetic =>
    obtain ⟨trace, ht, rfl⟩ := h
    exact processingError_not_mem_parsed ht
  | differentiation =>
    obtain rfl := h
    decide
  | integration =>
    obtain rfl := h
    decide
  | algebra => obtain rfl | rfl := h <;> decide
  | limit =>
    obtain rfl := h
    decide

theorem Leaves.processingError_not_mem {kind : ProblemKind} {actions : List Text}
    (h : Leaves kind actions) : Action.processingError ∉ actions := by
  cases kind with
  | arithmetic =>
    obtain rfl | ⟨trace, ht, rfl⟩ := h
    · decide
    · exact processingError_not_mem_parsed ht
  | differentiation => obtain rfl | rfl := h <;> decide
  | integration => obtain rfl | rfl := h <;> decide
  | algebra =>
    obtain rfl := h
    decide
  | limit =>
    obtain rfl := h
    decide

end Narration

namespace Strategy

open Run Narration

variable {engine : Engine} {config : Config} {kind : ProblemKind} {problem canonical : Text}

/-- The strategy has ended with an answer, and has told how it was found. -/
structure Finished (kind : ProblemKind) (problem : Text) (answer : Value) (s : Session) : Prop where
  answer_ne : answer ≠ .null
  opening : s.steps.head?.map Step.math = some problem
  actions : Solves kind s.actions

/-- The strategy has failed, and has told whole stages. -/
structure Failed (kind : ProblemKind) (problem : Text) (s : Session) : Prop where
  opening : s.steps.head?.map Step.math = some problem
  actions : Leaves kind s.actions

theorem differentiation_ends (hn : engine.NeverNull) :
    Ends (differentiation engine config problem canonical) .start
      (Finished .differentiation problem) (fun _ => Failed .differentiation problem) := by
  simp only [differentiation, ends_bind, ends_tell, ends_ask, ends_ofExcept, ends_display,
    ends_pure]
  refine ⟨fun q _ => ⟨fun v _ => ⟨fun w hw => ⟨fun shown _ => ?done, fun _ _ => ?shown⟩,
    fun _ _ => ?expanded⟩, fun _ _ => ?derived⟩, fun _ _ => ?read⟩
  case done => exact ⟨fun h => hn _ _ (h ▸ hw), rfl, rfl⟩
  case shown => exact ⟨rfl, .inr rfl⟩
  case expanded => exact ⟨rfl, .inr rfl⟩
  case derived => exact ⟨rfl, .inl rfl⟩
  case read => exact ⟨rfl, .inl rfl⟩

theorem integration_ends :
    Ends (integration engine config problem canonical) .start
      (Finished .integration problem) (fun _ => Failed .integration problem) := by
  simp only [integration, ends_bind, ends_tell, ends_ask, ends_ofExcept, ends_display, ends_pure]
  refine ⟨fun q _ => ⟨fun v _ => ⟨fun w _ => ⟨fun shown _ => ?done, fun _ _ => ?shown⟩,
    fun _ _ => ?expanded⟩, fun _ _ => ?integrated⟩, fun _ _ => ?read⟩
  case done => exact ⟨Value.noConfusion, rfl, rfl⟩
  case shown => exact ⟨rfl, .inr rfl⟩
  case expanded => exact ⟨rfl, .inr rfl⟩
  case integrated => exact ⟨rfl, .inl rfl⟩
  case read => exact ⟨rfl, .inl rfl⟩

theorem limit_ends (hn : engine.NeverNull) :
    Ends (limit engine config problem canonical) .start
      (Finished .limit problem) (fun _ => Failed .limit problem) := by
  simp only [limit, ends_bind, ends_tell, ends_ask, ends_ofExcept, ends_display, ends_pure]
  refine ⟨fun q _ => ⟨fun v hv => ⟨fun shown _ => ?done, fun _ _ => ?shown⟩,
    fun _ _ => ?found⟩, fun _ _ => ?read⟩
  case done => exact ⟨fun h => hn _ _ (h ▸ hv), rfl, rfl⟩
  case shown => exact ⟨rfl, rfl⟩
  case found => exact ⟨rfl, rfl⟩
  case read => exact ⟨rfl, rfl⟩

/-- To find out what an equation is about, nothing is told. -/
theorem equation_ends (t : Text) (s : Session) : Ends (Question.equation engine config t) s
    (fun _ s' => s'.steps = s.steps) (fun _ s' => s'.steps = s.steps) := by
  unfold Question.equation
  dsimp only
  split
  · rfl
  split
  · simp only [ends_bind, ends_ofExcept, ends_pure, implies_true, and_self]
  · simp only [ends_bind, ends_ask, ends_ofExcept, implies_true, and_true]
    intro unknowns _ among _
    split
    · rfl
    · simp only [ends_bind, ends_ofExcept, ends_pure, implies_true, and_self]

theorem algebra_ends :
    Ends (algebra engine config problem canonical) .start
      (Finished .algebra problem) (fun _ => Failed .algebra problem) := by
  simp only [algebra, ends_bind, ends_tell, ends_ask]
  refine (equation_ends canonical _).mono ?_ ?_
  · rintro ⟨equation, x⟩ ⟨exchanges, steps⟩ (rfl : steps = _)
    refine ⟨fun identity _ => ?_, fun _ _ => ⟨rfl, rfl⟩⟩
    split
    · simp only [ends_bind, ends_tell, ends_display, ends_pure]
      exact ⟨fun name _ => ⟨Value.noConfusion, rfl, .inl rfl⟩, fun _ _ => ⟨rfl, rfl⟩⟩
    · simp only [ends_bind, ends_ask]
      refine ⟨fun solutions _ => ?_, fun _ _ => ⟨rfl, rfl⟩⟩
      split
      · exact ends_throw.mpr ⟨rfl, rfl⟩
      · simp only [ends_bind, ends_tell, ends_ofExcept, ends_display, ends_pure]
        refine ⟨fun texts _ => ⟨fun name _ => ?_, fun _ _ => ⟨rfl, rfl⟩⟩, fun _ _ => ⟨rfl, rfl⟩⟩
        exact ⟨Value.noConfusion, rfl, .inr rfl⟩
  · rintro _ ⟨exchanges, steps⟩ (rfl : steps = _)
    exact ⟨rfl, rfl⟩

theorem ends_orInvalid {run : Run Value} {s : Session} {done : Value → Session → Prop}
    {failed : Fault → Session → Prop} : Ends (orInvalid run) s done failed ↔
      Ends run s done
        (fun fault s' => failed (if fault.isEngine then .invalidArithmetic else fault) s') := by
  unfold Ends orInvalid
  rcases run s with ⟨_ | _, _⟩ <;> rfl

theorem isTrace_of_nodes {nodes : List Tree} {told : List Text}
    (h : told = nodes.filterMap Tree.action?) : IsTrace (told ++ [Action.finalEvaluation]) := by
  refine .inr ⟨told, fun a ha => ?_, rfl⟩
  obtain ⟨node, _, hn⟩ := List.mem_filterMap.mp (h ▸ ha)
  cases node with
  | operation => exact .inl (Option.some.inj hn).symm
  | call => exact .inr (Option.some.inj hn).symm
  | _ => exact absurd hn (by simp [Tree.action?])

/-- A trace tells nothing itself; its steps are told together when it has succeeded. -/
theorem trace_ends (expression : Text) (s : Session) : Ends (Trace.trace engine config expression) s
    (fun steps s' => s'.steps = s.steps ∧ IsTrace (steps.map Step.action))
    (fun _ s' => s'.steps = s.steps) := by
  unfold Trace.trace
  split
  next tree _ =>
    refine (Trace.ofTree_ends tree expression s).mono ?_ fun _ _ ⟨_, h⟩ => h.accounts.steps
    rintro _ s' ⟨visits, v, told, final, h, rfl, hf⟩
    refine ⟨h.accounts.steps, ?_⟩
    rw [List.map_append, List.map_singleton, hf]
    exact isTrace_of_nodes h.actions
  next fault _ =>
    split
    · exact ⟨rfl, .inl rfl⟩
    · rfl

theorem arithmetic_ends (hn : engine.NeverNull) :
    Ends (arithmetic engine config problem canonical) .start
      (Finished .arithmetic problem) (fun _ => Failed .arithmetic problem) := by
  simp only [arithmetic, ends_bind, ends_tell, ends_tellAll, ends_orInvalid, ends_ask,
    ends_ofExcept]
  refine (trace_ends canonical _).mono ?_ ?_
  · rintro told ⟨exchanges, steps⟩ ⟨rfl : steps = _, ht⟩
    refine ⟨fun v hv => ⟨fun w hw => ?done, fun _ _ => ?rounded⟩, fun _ _ => ?evaluated⟩
    case done =>
      exact ⟨Value.round_ne_null hw fun h => hn _ _ (h ▸ hv), rfl, _, ht, rfl⟩
    case rounded => exact ⟨rfl, .inr ⟨_, ht, rfl⟩⟩
    case evaluated => exact ⟨rfl, .inr ⟨_, ht, rfl⟩⟩
  · rintro _ ⟨exchanges, steps⟩ (rfl : steps = _)
    exact ⟨rfl, .inl rfl⟩

/-- **A strategy ends with an answer or in the middle of its narration**, wherever the engine fails
and whatever it replies. -/
theorem solve_ends (hn : engine.NeverNull) (config : Config) (kind : ProblemKind)
    (problem canonical : Text) :
    Ends (solve engine config kind problem canonical) .start
      (Finished kind problem) (fun _ => Failed kind problem) := by
  cases kind with
  | arithmetic => exact arithmetic_ends hn
  | differentiation => exact differentiation_ends hn
  | integration => exact integration_ends
  | algebra => exact algebra_ends
  | limit => exact limit_ends hn

end Strategy

namespace Solver

open Narration Strategy

variable {engine : Engine} {config : Config} {kind : ProblemKind} {problem : Text}

/-- The two kinds of solutions, and the strategies' ends that they come from. -/
theorem solveAs_cases (hn : engine.NeverNull) (config : Config) (kind : ProblemKind)
    (problem : Text) :
    (∃ answer s, outcome engine config kind problem = (.ok answer, s) ∧
      Finished kind problem answer s ∧
      solveAs engine config kind problem = ⟨kind, answer, s.steps⟩) ∨
    ∃ fault s, outcome engine config kind problem = (.error fault, s) ∧ Failed kind problem s ∧
      solveAs engine config kind problem = ⟨kind, .null, s.steps ++ [failure problem fault]⟩ := by
  have h := solve_ends hn config kind problem (Phrase.canonical problem)
  unfold solveAs converse
  split
  next answer s ho => exact .inl ⟨answer, s, ho, h.of_ok ho, rfl⟩
  next fault s ho => exact .inr ⟨fault, s, ho, h.of_error ho, rfl⟩

theorem action_ne_of_mem {steps : List Step} {a : Text} (h : a ∉ steps.map Step.action) :
    ∀ step ∈ steps, step.action ≠ a :=
  fun _ hm he => h (List.mem_map.mpr ⟨_, hm, he⟩)

/-- **What users of a solution may rely on.** Whatever the engine replies and wherever it fails,
there is a solution of the wanted kind, and its first step shows the problem. It has no answer if
and only if its last step says that the problem could not be processed. No other step says so, and
that step shows the problem and the wording of the fault with which the strategy has ended. -/
theorem solveAs_contract (hn : engine.NeverNull) (config : Config) (kind : ProblemKind)
    (problem : Text) :
    let solution := solveAs engine config kind problem
    solution.kind = kind ∧
      (∃ first rest, solution.steps = first :: rest ∧ first.math = problem) ∧
      (solution.answer = .null ↔
        ∃ last, solution.steps.getLast? = some last ∧ last.action = Action.processingError) ∧
      (∀ step ∈ solution.steps.dropLast, step.action ≠ Action.processingError) ∧
      ∀ last, solution.steps.getLast? = some last → last.action = Action.processingError →
        ∃ fault s, outcome engine config kind problem = (.error fault, s) ∧
          last.math = problem ∧
          last.explanation = "Could not process this problem: ".toList ++ fault.message := by
  intro solution
  obtain ⟨answer, s, -, h, hs⟩ | ⟨fault, s, ho, h, hs⟩ := solveAs_cases hn config kind problem
  · have hne := action_ne_of_mem h.actions.processingError_not_mem
    have hlast : ∀ last, s.steps.getLast? = some last → last.action ≠ Action.processingError :=
      fun last hl => hne last (List.mem_of_getLast? hl)
    obtain ⟨first, hf, hm⟩ := Option.map_eq_some_iff.mp h.opening
    obtain ⟨rest, hr⟩ := List.head?_eq_some_iff.mp hf
    rw [show solution = _ from hs]
    refine ⟨rfl, ⟨first, rest, hr, hm⟩, ?_, ?_, ?_⟩
    · exact ⟨fun ha => absurd ha h.answer_ne, fun ⟨last, hl, ha⟩ => absurd ha (hlast last hl)⟩
    · exact fun step hm => hne step (List.dropLast_subset _ hm)
    · exact fun last hl ha => absurd ha (hlast last hl)
  · have hne := action_ne_of_mem h.actions.processingError_not_mem
    obtain ⟨first, hf, hm⟩ := Option.map_eq_some_iff.mp h.opening
    obtain ⟨rest, hr⟩ := List.head?_eq_some_iff.mp hf
    rw [show solution = _ from hs]
    dsimp only
    rw [List.getLast?_concat, List.dropLast_concat, hr]
    refine ⟨rfl, ⟨first, _, rfl, hm⟩, ?_, hr ▸ hne, ?_⟩
    · exact ⟨fun _ => ⟨_, rfl, rfl⟩, fun _ => rfl⟩
    · rintro last hl -
      obtain rfl := Option.some.inj hl
      exact ⟨fault, s, ho, rfl, rfl⟩

/-- An engine that fails at its second request, with a fault from outside the library. -/
def explodingEngine : Engine := .ofReplies
  [.ok (.text "2*x".toList),
    .error (.raised (.other "RuntimeError".toList) "engine exploded".toList)]

theorem neverNull_explodingEngine : explodingEngine.NeverNull :=
  Engine.neverNull_ofReplies (by simp)

theorem message_of_check {α : Type} {x : Except Fault α} {fault : Fault} {m : Text}
    (h : (match x with | .ok _ => false | .error fault => fault.message == m) = true)
    (hx : x = .error fault) : fault.message = m := by
  subst hx
  exact eq_of_beq h

/-- The solution of `d/dx(x^2)` when the engine explodes. -/
theorem solveAs_contract_exploding :
    ∃ last, (solveAs explodingEngine .default .differentiation "d/dx(x^2)".toList).steps.getLast? =
        some last ∧ last.action = Action.processingError ∧ last.math = "d/dx(x^2)".toList ∧
      last.explanation = "Could not process this problem: engine exploded".toList := by
  obtain ⟨-, -, hiff, -, hlast⟩ :=
    solveAs_contract neverNull_explodingEngine .default .differentiation "d/dx(x^2)".toList
  have hanswer : (solveAs explodingEngine .default .differentiation
      "d/dx(x^2)".toList).answer.isNull = true := by decide +kernel
  obtain ⟨last, hl, ha⟩ := hiff.mp (Value.isNull_iff.mp hanswer)
  obtain ⟨fault, s, ho, hm, he⟩ := hlast last hl ha
  have hmessage : fault.message = "engine exploded".toList :=
    message_of_check (by decide +kernel) (congrArg Prod.fst ho)
  refine ⟨last, hl, ha, hm, ?_⟩
  rw [he, hmessage]
  decide

/-- **A failed run leaves whole stages of the narration.** A solved problem has the actions of its
kind. An unsolved one has a part of them that ends with a stage, and then says that the problem
could not be processed; the trace of an arithmetic problem is there as a whole or not at all. -/
theorem solveAs_actions (hn : engine.NeverNull) (config : Config) (kind : ProblemKind)
    (problem : Text) :
    let solution := solveAs engine config kind problem
    (solution.isSolved = true → Solves kind solution.actions) ∧
      (solution.isSolved = false →
        ∃ told, Leaves kind told ∧ solution.actions = told ++ [Action.processingError]) := by
  intro solution
  obtain ⟨answer, s, -, h, hs⟩ | ⟨fault, s, -, h, hs⟩ := solveAs_cases hn config kind problem
  · rw [show solution = _ from hs]
    refine ⟨fun _ => h.actions, fun hu => ?_⟩
    have hsolved := (Solution.isSolved_iff ⟨kind, answer, s.steps⟩).mpr h.answer_ne
    exact absurd (hsolved.symm.trans hu) Bool.noConfusion
  · rw [show solution = _ from hs]
    refine ⟨fun hsolved => absurd rfl ((Solution.isSolved_iff _).mp hsolved), fun _ => ?_⟩
    exact ⟨s.actions, h.actions, List.map_append⟩

/-- An engine that values `1 + 2` in a trace, but not `1+2` itself. -/
def tiringEngine : Engine := .ofReplies [.ok (.int 3)]

/-- The whole trace of `1+2` is told before the problem turns out not to be solvable. -/
theorem solveAs_actions_tiring :
    tiringEngine.NeverNull ∧
      (solveAs tiringEngine .default .arithmetic "1+2".toList).isSolved = false ∧
      ∃ told, Leaves .arithmetic told ∧
        (solveAs tiringEngine .default .arithmetic "1+2".toList).actions =
          told ++ [Action.processingError] ∧
        told = [Action.expressionParsed, Action.subExpression, Action.finalEvaluation] := by
  have hn : tiringEngine.NeverNull := Engine.neverNull_ofReplies (by simp)
  have hu : (solveAs tiringEngine .default .arithmetic "1+2".toList).isSolved = false := by
    decide +kernel
  have ha : (solveAs tiringEngine .default .arithmetic "1+2".toList).actions =
      [Action.expressionParsed, Action.subExpression, Action.finalEvaluation] ++
        [Action.processingError] := by decide +kernel
  obtain ⟨told, hl, ht⟩ := (solveAs_actions hn .default .arithmetic "1+2".toList).2 hu
  exact ⟨hn, hu, told, hl, ht, (List.append_left_inj _).mp (ht.symm.trans ha)⟩

end Solver

end Stepwise
