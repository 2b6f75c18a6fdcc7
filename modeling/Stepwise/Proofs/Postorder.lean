import Mathlib.Data.List.Forall2
import Stepwise.Proofs.Ending
import Stepwise.Solve.Trace

/-!
# A trace follows the post-order of its tree

`Tree.postorder` lists what there is to do for a tree, from its leaves up: numbers are taken as
they are, and operations, calls, names and negations are evaluated, each behind its operands. A
negation is evaluated in one go, so that nothing below it is on the list.

A `Visit` is one evaluation: the node, the values of its operands, the expression that the engine
is asked for, and its reply. `Follows` runs down a list of tasks with the values so far on a stack,
the latest on top; it says which visits there can be, and ends where a visit has no value.

Results: `reduce_ends`, a reduction makes its visits in post-order and tells a step about each
operation and call, and if it fails it has made the first of these visits; and
`trace_postorder`, the same of a trace that succeeds, whose steps end with the overall result.
-/

namespace Stepwise

open Text

/-! ## What there is to do -/

/-- Something to do for a tree. -/
inductive Task where
  /-- To take a number as it is. -/
  | take (v : Value)
  /-- To evaluate a node whose operands have values. -/
  | evaluate (node : Tree)

/-- The node that a task evaluates. -/
def Task.node? : Task → Option Tree
  | take _ => none
  | evaluate node => some node

namespace Tree

mutual

/-- What there is to do for a tree, from its leaves up. -/
def postorder : Tree → List Task
  | constant value _ => [.take value.value]
  | name spelling => [.evaluate (name spelling)]
  | negation operand => [.evaluate (negation operand)]
  | operation op left right =>
    left.postorder ++ right.postorder ++ [.evaluate (operation op left right)]
  | parenthesis content => content.postorder
  | call function arguments => postorders arguments ++ [.evaluate (call function arguments)]

/-- What there is to do for several trees. -/
def postorders : List Tree → List Task
  | [] => []
  | t :: ts => t.postorder ++ postorders ts

end

/-- The nodes that are evaluated, in post-order. -/
def evaluated (t : Tree) : List Tree := t.postorder.filterMap Task.node?

/-- The number of operands of a node that is evaluated. -/
def arity : Tree → Nat
  | operation .. => 2
  | call _ arguments => arguments.length
  | _ => 0

/-- The action of the step that tells about a node. Names and negations have no step. -/
def action? : Tree → Option Text
  | operation .. => some Action.subExpression
  | call .. => some Action.function
  | _ => none

/-- The expression that a node is evaluated by, written with the values of its operands. -/
def rebuilt : Tree → List Value → Except Fault Text
  | operation op _ _, [l, r] => do
    let lhs ← l.operand
    let rhs ← r.operand
    return lhs ++ [' ', op.sign, ' '] ++ rhs
  | call function _, values => do
    let shown ← values.mapM Value.display
    return function ++ '(' :: joinWith ", ".toList shown ++ [')']
  | t, _ => .ok t.text

end Tree

/-! ## Visits -/

/-- The evaluation of one node. -/
structure Visit where
  node : Tree
  /-- The values of the node's operands. -/
  operands : List Value
  /-- What the engine is asked for. -/
  expression : Text
  reply : Reply

namespace Visit

/-- What is exchanged with the engine. -/
def exchange (visit : Visit) : Exchange := ⟨.evaluate visit.expression, visit.reply⟩

/-- The value of the node: the reply, rounded. -/
def value (p : Int) (visit : Visit) : Except Fault Value := visit.reply >>= Value.round p

/-- The expression is that of the node, with as many operands as it has. -/
structure Fits (visit : Visit) : Prop where
  arity : visit.operands.length = visit.node.arity
  rebuilt : visit.node.rebuilt visit.operands = .ok visit.expression

/-- The step tells about the visit. -/
def Tells (p : Int) (visit : Visit) (step : Step) : Prop :=
  ∃ v shown, visit.value p = .ok v ∧ v.display = .ok shown ∧
    visit.node.action? = some step.action ∧ step.result = v ∧
    step.math = Trace.equation visit.expression shown ∧
    step.explanation =
      "Computed ".toList ++ visit.expression ++ " to yield ".toList ++ shown ++ ['.']

/-- Is there a step about the visit? -/
def isTold (visit : Visit) : Bool := visit.node.action?.isSome

end Visit

/-- The visits that can be made on the way down a list of tasks, with the values so far on a stack.
The way may end anywhere, and it ends with a visit that has no value. -/
inductive Follows (p : Int) : List Task → List Value → List Visit → Prop
  | stop (tasks : List Task) (stack : List Value) : Follows p tasks stack []
  | take {v : Value} {tasks : List Task} {stack : List Value} {visits : List Visit}
      (h : Follows p tasks (v :: stack) visits) : Follows p (.take v :: tasks) stack visits
  | last {visit : Visit} (hf : visit.Fits) (tasks : List Task) (stack : List Value) :
      Follows p (.evaluate visit.node :: tasks) (visit.operands.reverse ++ stack) [visit]
  | visit {visit : Visit} {v : Value} {tasks : List Task} {stack : List Value}
      {visits : List Visit} (hf : visit.Fits) (hv : visit.value p = .ok v)
      (h : Follows p tasks (v :: stack) visits) :
      Follows p (.evaluate visit.node :: tasks) (visit.operands.reverse ++ stack) (visit :: visits)

namespace Trace

open Run

variable {engine : Engine} {p : Int} {s s' s₁ s₂ : Session}

/-- The visits are what has happened between two sessions. -/
structure Accounts (engine : Engine) (s s' : Session) (visits : List Visit) : Prop where
  exchanges : s'.exchanges = s.exchanges ++ visits.map Visit.exchange
  steps : s'.steps = s.steps
  replies : ∀ visit ∈ visits,
    ∃ before, visit.reply = engine before (.evaluate visit.expression)

theorem Accounts.refl (engine : Engine) (s : Session) : Accounts engine s s [] where
  exchanges := by simp
  steps := rfl
  replies _ h := absurd h List.not_mem_nil

theorem Accounts.trans {before after : List Visit} (h₁ : Accounts engine s s₁ before)
    (h₂ : Accounts engine s₁ s₂ after) : Accounts engine s s₂ (before ++ after) where
  exchanges := by rw [h₂.exchanges, h₁.exchanges, List.map_append, List.append_assoc]
  steps := h₂.steps.trans h₁.steps
  replies := List.forall_mem_append.mpr ⟨h₁.replies, h₂.replies⟩

/-- All tasks have been done: they have left the values `vs`, and the steps tell about them. -/
structure Completed (engine : Engine) (p : Int) (tasks : List Task) (s : Session)
    (vs : List Value) (steps : List Step) (s' : Session) (visits : List Visit) : Prop where
  accounts : Accounts engine s s' visits
  nodes : visits.map Visit.node = tasks.filterMap Task.node?
  told : List.Forall₂ (Visit.Tells p) (visits.filter Visit.isTold) steps
  /-- With the values on the stack one can go on. -/
  follows : ∀ {rest : List Task} {stack : List Value} {more : List Visit},
    Follows p rest (vs.reverse ++ stack) more → Follows p (tasks ++ rest) stack (visits ++ more)

/-- The tasks have been begun, and not more is known. -/
structure Begun (engine : Engine) (p : Int) (tasks : List Task) (s s' : Session)
    (visits : List Visit) : Prop where
  accounts : Accounts engine s s' visits
  follows : ∀ (rest : List Task) (stack : List Value), Follows p (tasks ++ rest) stack visits

variable {tasks tasks' : List Task} {vs vs' : List Value} {steps steps' : List Step}
  {visits visits' : List Visit}

theorem Completed.nil : Completed engine p [] s [] [] s [] where
  accounts := .refl engine s
  nodes := rfl
  told := .nil
  follows h := h

theorem Completed.take (v : Value) : Completed engine p [.take v] s [v] [] s [] where
  accounts := .refl engine s
  nodes := rfl
  told := .nil
  follows h := .take h

theorem Completed.append (h : Completed engine p tasks s vs steps s₁ visits)
    (h' : Completed engine p tasks' s₁ vs' steps' s₂ visits') :
    Completed engine p (tasks ++ tasks') s (vs ++ vs') (steps ++ steps') s₂
      (visits ++ visits') where
  accounts := h.accounts.trans h'.accounts
  nodes := by rw [List.map_append, h.nodes, h'.nodes, List.filterMap_append]
  told := by
    rw [List.filter_append]
    exact List.rel_append h.told h'.told
  follows {rest stack more} hr := by
    rw [List.append_assoc, List.append_assoc]
    refine h.follows (h'.follows ?_)
    rwa [List.reverse_append, List.append_assoc] at hr

theorem Completed.begun (h : Completed engine p tasks s vs steps s' visits)
    (rest : List Task) : Begun engine p (tasks ++ rest) s s' visits where
  accounts := h.accounts
  follows rest' stack := by
    have := h.follows (.stop (rest ++ rest') (vs.reverse ++ stack))
    rwa [List.append_nil, ← List.append_assoc] at this

theorem Begun.append_right (h : Begun engine p tasks s s' visits) (rest : List Task) :
    Begun engine p (tasks ++ rest) s s' visits where
  accounts := h.accounts
  follows rest' stack := by
    rw [List.append_assoc]
    exact h.follows (rest ++ rest') stack

theorem Completed.append_begun (h : Completed engine p tasks s vs steps s₁ visits)
    (h' : Begun engine p tasks' s₁ s₂ visits') :
    Begun engine p (tasks ++ tasks') s s₂ (visits ++ visits') where
  accounts := h.accounts.trans h'.accounts
  follows rest stack := by
    rw [List.append_assoc]
    exact h.follows (h'.follows rest _)

/-! ## Reductions -/

/-- The visit at which an expression is asked for in session `s`. -/
def visitAt (engine : Engine) (s : Session) (node : Tree) (operands : List Value)
    (expression : Text) : Visit :=
  ⟨node, operands, expression, engine s.exchanges (.evaluate expression)⟩

section Visit

variable {node : Tree} {operands : List Value} {e : Text}

/-- With the values of its operands on the stack a node is visited, and may have no value. -/
theorem Completed.last {visit : Visit}
    (h : Completed engine p tasks s visit.operands steps s₁ visits) (hf : visit.Fits)
    (ha : Accounts engine s₁ s₂ [visit]) :
    Begun engine p (tasks ++ [.evaluate visit.node]) s s₂ (visits ++ [visit]) where
  accounts := h.accounts.trans ha
  follows rest stack := by
    rw [List.append_assoc]
    exact h.follows (.last hf rest stack)

/-- If it has one, one can go on with it. -/
theorem Completed.visit {visit : Visit} {v : Value} {told : List Step}
    (h : Completed engine p tasks s visit.operands steps s₁ visits) (hf : visit.Fits)
    (ha : Accounts engine s₁ s₂ [visit]) (hv : visit.value p = .ok v)
    (ht : List.Forall₂ (Visit.Tells p) ([visit].filter Visit.isTold) told) :
    Completed engine p (tasks ++ [.evaluate visit.node]) s [v] (steps ++ told) s₂
      (visits ++ [visit]) where
  accounts := h.accounts.trans ha
  nodes := by rw [List.map_append, h.nodes, List.filterMap_append]; rfl
  told := by
    rw [List.filter_append]
    exact List.rel_append h.told ht
  follows {rest stack more} hr := by
    rw [List.append_assoc, List.append_assoc]
    exact h.follows (.visit hf hv hr)

theorem accounts_visitAt (engine : Engine) (s : Session) (node : Tree) (operands : List Value)
    (e : Text) {reply : Reply} (h : engine s.exchanges (.evaluate e) = reply) :
    Accounts engine s ⟨s.exchanges ++ [⟨.evaluate e, reply⟩], s.steps⟩
      [visitAt engine s node operands e] where
  exchanges := by rw [← h]; rfl
  steps := rfl
  replies := List.forall_mem_singleton.mpr ⟨s.exchanges, rfl⟩

theorem evaluate_ends (node : Tree) (operands : List Value) : Ends (evaluate engine p e) s
    (fun v s' => Accounts engine s s' [visitAt engine s node operands e] ∧
      (visitAt engine s node operands e).value p = .ok v)
    (fun _ s' => Accounts engine s s' [visitAt engine s node operands e]) := by
  simp only [evaluate, ends_bind, ends_ask, ends_ofExcept]
  refine ⟨fun u hu => ⟨fun v hv => ⟨accounts_visitAt engine s node operands e hu, ?_⟩, ?_⟩, ?_⟩
  · simp only [Visit.value, visitAt, hu, ok_bind, hv]
  · exact fun _ _ => accounts_visitAt engine s node operands e hu
  · exact fun _ hu => accounts_visitAt engine s node operands e hu

theorem narrate_ends {action : Text} (operands : List Value) (hn : node.action? = some action) :
    Ends (narrate engine p action e) s
      (fun r s' => Accounts engine s s' [visitAt engine s node operands e] ∧
        (visitAt engine s node operands e).value p = .ok r.1 ∧
        (visitAt engine s node operands e).Tells p r.2)
      (fun _ s' => Accounts engine s s' [visitAt engine s node operands e]) := by
  simp only [narrate, ends_bind, ends_display, ends_pure]
  refine (evaluate_ends node operands).mono ?_ fun _ _ ha => ha
  rintro v s' ⟨ha, hv⟩
  exact ⟨fun shown hd => ⟨ha, hv, v, shown, hv, hd, hn, rfl, rfl, rfl⟩, fun _ _ => ha⟩

end Visit

mutual

/-- **A reduction follows the post-order of its tree**: if it succeeds, all tasks have been done,
and if it fails, they have been begun. -/
theorem reduce_ends : ∀ (t : Tree) (s : Session), Ends (reduce engine p t) s
    (fun r s' => ∃ visits, Completed engine p t.postorder s [r.1] r.2 s' visits)
    (fun _ s' => ∃ visits, Begun engine p t.postorder s s' visits)
  | .constant n spelling, s => by
    rw [reduce, ends_pure]
    exact ⟨[], .take n.value⟩
  | .parenthesis t, s => by
    rw [reduce]
    exact reduce_ends t s
  | .operation op l r, s => by
    rw [reduce, Tree.postorder]
    simp only [ends_bind, ends_ofExcept, ends_pure]
    refine (reduce_ends l s).mono ?_ fun _ _ ⟨_, h⟩ => ⟨_, (h.append_right _).append_right _⟩
    rintro ⟨x, before⟩ s₁ ⟨vl, hl⟩
    refine (reduce_ends r s₁).mono ?_ fun _ _ ⟨_, h⟩ => ⟨_, (hl.append_begun h).append_right _⟩
    rintro ⟨y, between⟩ s₂ ⟨vr, hr⟩
    have h := hl.append hr
    refine ⟨fun lhs hx => ⟨fun rhs hy => ?_, fun _ _ => ⟨_, h.begun _⟩⟩, fun _ _ => ⟨_, h.begun _⟩⟩
    have hf : (visitAt engine s₂ (.operation op l r) [x, y]
        (lhs ++ [' ', op.sign, ' '] ++ rhs)).Fits := by
      refine ⟨rfl, ?_⟩
      simp only [visitAt, Tree.rebuilt, hx, hy, ok_bind]
      rfl
    refine (narrate_ends [x, y] rfl).mono ?_ fun _ _ ha => ⟨_, h.last hf ha⟩
    rintro ⟨v, step⟩ s₃ ⟨ha, hv, ht⟩
    exact ⟨_, h.visit hf ha hv (.cons ht .nil)⟩
  | .call function arguments, s => by
    rw [reduce, Tree.postorder]
    simp only [ends_bind, mapM_display, ends_ofExcept, ends_pure]
    refine (reduceAll_ends arguments s).mono ?_ fun _ _ ⟨_, h⟩ => ⟨_, h.append_right _⟩
    rintro ⟨xs, before⟩ s₁ ⟨visits, h, hlen⟩
    refine ⟨fun shown hd => ?_, fun _ _ => ⟨_, h.begun _⟩⟩
    have hf : (visitAt engine s₁ (.call function arguments) xs
        (function ++ '(' :: joinWith ", ".toList shown ++ [')'])).Fits := by
      refine ⟨hlen, ?_⟩
      simp only [visitAt, Tree.rebuilt, hd, ok_bind]
      rfl
    refine (narrate_ends xs rfl).mono ?_ fun _ _ ha => ⟨_, h.last hf ha⟩
    rintro ⟨v, step⟩ s₂ ⟨ha, hv, ht⟩
    exact ⟨_, h.visit hf ha hv (.cons ht .nil)⟩
  | .name spelling, s => by
    rw [reduce]
    simp only [ends_bind, ends_pure]
    refine (evaluate_ends (.name spelling) []).mono ?_ fun _ _ ha =>
      ⟨_, Completed.nil.last ⟨rfl, rfl⟩ ha⟩
    rintro v s₁ ⟨ha, hv⟩
    exact ⟨_, Completed.nil.visit ⟨rfl, rfl⟩ ha hv .nil⟩
  | .negation t, s => by
    rw [reduce]
    simp only [ends_bind, ends_pure]
    refine (evaluate_ends (.negation t) []).mono ?_ fun _ _ ha =>
      ⟨_, Completed.nil.last ⟨rfl, rfl⟩ ha⟩
    rintro v s₁ ⟨ha, hv⟩
    exact ⟨_, Completed.nil.visit ⟨rfl, rfl⟩ ha hv .nil⟩

theorem reduceAll_ends : ∀ (ts : List Tree) (s : Session), Ends (reduceAll engine p ts) s
    (fun r s' => ∃ visits, Completed engine p (Tree.postorders ts) s r.1 r.2 s' visits ∧
      r.1.length = ts.length)
    (fun _ s' => ∃ visits, Begun engine p (Tree.postorders ts) s s' visits)
  | [], s => by
    rw [reduceAll, ends_pure]
    exact ⟨[], .nil, rfl⟩
  | t :: ts, s => by
    rw [reduceAll, Tree.postorders]
    simp only [ends_bind, ends_pure]
    refine (reduce_ends t s).mono ?_ fun _ _ ⟨_, h⟩ => ⟨_, h.append_right _⟩
    rintro ⟨v, before⟩ s₁ ⟨_, ht⟩
    refine (reduceAll_ends ts s₁).mono ?_ fun _ _ ⟨_, h⟩ => ⟨_, ht.append_begun h⟩
    rintro ⟨vs, after⟩ s₂ ⟨_, hts, hlen⟩
    exact ⟨_, ht.append hts, by simp [hlen]⟩

end

/-! ## Traces -/

theorem actions_of_tells : ∀ {visits : List Visit} {steps : List Step},
    List.Forall₂ (Visit.Tells p) (visits.filter Visit.isTold) steps →
      steps.map Step.action = (visits.map Visit.node).filterMap Tree.action?
  | [], steps, h => by
    cases h
    rfl
  | visit :: visits, steps, h => by
    rw [List.map_cons]
    by_cases hv : visit.isTold = true
    · rw [List.filter_cons_of_pos hv] at h
      cases h with
      | cons ht h =>
        obtain ⟨_, _, _, _, ha, _⟩ := ht
        rw [List.filterMap_cons_some ha, List.map_cons, actions_of_tells h]
    · rw [List.filter_cons_of_neg hv] at h
      have ha : visit.node.action? = none := by simpa [Visit.isTold] using hv
      rw [List.filterMap_cons_none ha, actions_of_tells h]

/-- The steps of a reduction have the actions of the nodes that it evaluates. -/
theorem Completed.actions (h : Completed engine p tasks s vs steps s' visits) :
    steps.map Step.action = (tasks.filterMap Task.node?).filterMap Tree.action? :=
  h.nodes ▸ actions_of_tells h.told

/-- A trace of a tree is a reduction and a step about the overall result. -/
theorem ofTree_ends (t : Tree) (expression : Text) (s : Session) :
    Ends (ofTree engine p expression t) s
      (fun steps s' => ∃ visits v told final, Completed engine p t.postorder s [v] told s' visits ∧
        steps = told ++ [final] ∧ final.action = Action.finalEvaluation)
      (fun _ s' => ∃ visits, Begun engine p t.postorder s s' visits) := by
  simp only [ofTree, ends_bind, ends_ofExcept, ends_display, ends_pure]
  refine (reduce_ends t s).mono ?_ fun _ _ h => h
  rintro ⟨v, told⟩ s' ⟨visits, h⟩
  have hb : Begun engine p t.postorder s s' visits := by
    simpa using h.begun []
  refine ⟨fun w _ => ⟨fun shown _ => ?_, fun _ _ => ⟨visits, hb⟩⟩, fun _ _ => ⟨visits, hb⟩⟩
  exact ⟨visits, v, told, _, h, rfl, rfl⟩

/-- **The trace is the post-order of the tree.** If an expression is read as a tree and its trace
succeeds, then the engine has been asked for one expression for each operation, call, name and
negation that is below no negation, in post-order and for nothing else; every step but the last
tells about one of the operations and calls, in the same order; and the last step tells the overall
result. -/
theorem trace_postorder {config : Config} {expression : Text} {tree : Tree}
    (ht : engine.read config.functions expression = .ok tree)
    (h : trace engine config expression s = (.ok steps, s')) :
    ∃ (visits : List Visit) (told : List Step) (final : Step),
      visits.map Visit.node = tree.evaluated ∧
      Follows config.precision tree.postorder [] visits ∧
      s'.exchanges = s.exchanges ++ visits.map Visit.exchange ∧
      steps = told ++ [final] ∧
      List.Forall₂ (Visit.Tells config.precision) (visits.filter Visit.isTold) told ∧
      told.map Step.action = tree.evaluated.filterMap Tree.action? ∧
      final.action = Action.finalEvaluation := by
  simp only [trace, ht] at h
  obtain ⟨visits, v, told, final, hc, hs, ha⟩ := (ofTree_ends tree expression s).of_ok h
  have hf := hc.follows (.stop [] ([v].reverse ++ []))
  rw [List.append_nil, List.append_nil] at hf
  exact ⟨visits, told, final, hc.nodes, hf, hc.accounts.exchanges, hs, hc.told, hc.actions, ha⟩

/-- `2sin(x)--(3+4)` with an engine that leaves `x` as it is. -/
def mixedEngine : Engine := .ofReplies
  [.ok (.text ['x']), .ok (.text "sin(x)".toList), .ok (.text "2*sin(x)".toList),
    .ok (.int (-7)), .ok (.text "2*sin(x) + 7".toList)]

/-- An expression with a sum below a minus sign. -/
def mixed : Text := "2sin(x)--(3+4)".toList

/-- The trace of `2sin(x)--(3+4)`: the sum below the minus sign is not visited. -/
theorem trace_postorder_mixed :
    ∃ (tree : Tree) (steps : List Step) (s' : Session) (visits : List Visit) (told : List Step)
        (final : Step),
      Tree.read Config.default.functions mixed = .ok tree ∧
      trace mixedEngine .default mixed .start = (.ok steps, s') ∧
      tree.evaluated.map Tree.text = ["x".toList, "sin(x)".toList, "2 * sin(x)".toList,
        "-(3 + 4)".toList, "2 * sin(x) - -(3 + 4)".toList] ∧
      visits.map Visit.node = tree.evaluated ∧
      s'.exchanges = visits.map Visit.exchange ∧
      steps = told ++ [final] ∧
      List.Forall₂ (Visit.Tells 3) (visits.filter Visit.isTold) told ∧
      told.map Step.action = [Action.function, Action.subExpression, Action.subExpression] ∧
      final.action = Action.finalEvaluation := by
  obtain ⟨tree, ht, hr⟩ : ∃ tree,
      Tree.read Config.default.functions mixed = .ok tree ∧
      (tree.evaluated.map Tree.text == ["x".toList, "sin(x)".toList, "2 * sin(x)".toList,
        "-(3 + 4)".toList, "2 * sin(x) - -(3 + 4)".toList] &&
      tree.evaluated.filterMap Tree.action? ==
        [Action.function, Action.subExpression, Action.subExpression]) = true :=
    exists_ok_of_check (by decide +kernel)
  obtain ⟨hn, ha⟩ := Bool.and_eq_true_iff.mp hr
  obtain ⟨steps, s', h⟩ : ∃ steps s', trace mixedEngine .default mixed .start = (.ok steps, s') :=
    Run.exists_ok_of_check (by decide +kernel)
  have hread : mixedEngine.read Config.default.functions mixed = .ok tree := ht
  obtain ⟨visits, told, final, hv, _, he, hst, hto, hac, hf⟩ := trace_postorder hread h
  exact ⟨tree, steps, s', visits, told, final, ht, h, eq_of_beq hn, hv, he, hst, hto,
    hac.trans (eq_of_beq ha), hf⟩

end Trace

end Stepwise
