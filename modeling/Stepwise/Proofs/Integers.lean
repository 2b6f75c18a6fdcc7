import Mathlib.Data.Set.List
import Stepwise.Proofs.Refusals
import Stepwise.Proofs.Regrouping
import Stepwise.Proofs.Replies

/-!
# Integers of any size

An integer is not rounded, so a value that the engine replies with is the value that a step tells
and the value that is carried up the tree. But on its way it is written out, into the step and into
the operands of the next operation, and an integer of more than 4300 digits cannot be. No strategy
is prepared for that, and the run ends with it. Only the solution itself is never written.

`Replied` says what has been replied between two sessions as long as it was integers, and `Carries`
ties a value to the replies behind it: it can be written if and only if all of them can.

Results: `reduce_integers`, for every tree; `arithmetic_integers`, a problem of integers is solved
exactly, with a solution of any size, if and only if all replies to its trace can be written; and
`arithmetic_power`, one that is not.
-/

namespace Stepwise

/-! ## Trees of integers -/

namespace Tree

/-- The tree has nothing but integers, signs, operations and parentheses. -/
inductive Whole : Tree → Prop
  | constant (n : Nat) (spelling : Text) : Whole (constant (.whole n) spelling)
  | negation {t : Tree} (h : Whole t) : Whole (negation t)
  | operation (op : Operator) {l r : Tree} (hl : Whole l) (hr : Whole r) : Whole (operation op l r)
  | parenthesis {t : Tree} (h : Whole t) : Whole (parenthesis t)

/-- Is there nothing else in the tree? -/
def isWhole : Tree → Bool
  | constant (.whole _) _ => true
  | negation t => t.isWhole
  | operation _ l r => l.isWhole && r.isWhole
  | parenthesis t => t.isWhole
  | _ => false

theorem whole_of_isWhole {t : Tree} (h : t.isWhole = true) : t.Whole := by
  fun_induction isWhole t with
  | case1 n spelling => exact .constant n spelling
  | case2 t ih => exact .negation (ih h)
  | case3 op l r ihl ihr =>
    obtain ⟨hl, hr⟩ := Bool.and_eq_true_iff.mp h
    exact .operation op (ihl hl) (ihr hr)
  | case4 t ih => exact .parenthesis (ih h)
  | case5 => exact absurd h Bool.false_ne_true

/-- The only steps about such a tree are those about its operations. -/
theorem Whole.action_eq {t : Tree} (h : t.Whole) :
    ∀ node ∈ t.evaluated, ∀ action, node.action? = some action → action = Action.subExpression := by
  induction h with
  | constant => simp [evaluated, postorder, Task.node?]
  | negation => simp [evaluated, postorder, Task.node?, action?]
  | parenthesis _ ih => simpa only [evaluated, postorder] using ih
  | operation op _ _ ihl ihr =>
    intro node hm
    simp only [evaluated, postorder, List.filterMap_append, List.mem_append] at hm
    rcases hm with (hm | hm) | hm
    · exact ihl node hm
    · exact ihr node hm
    · obtain rfl : node = .operation op _ _ := by simpa [Task.node?] using hm
      exact fun action ha => (Option.some.inj ha).symm

end Tree

/-! ## Integers that can be written -/

/-- The integer has at most 4300 digits. -/
def Short (n : Int) : Prop := n.natAbs < 10 ^ Fault.digitLimit

namespace Value

variable {n : Int} {text : Text} {fault : Fault}

theorem short_of_display (h : display (.int n) = .ok text) : Short n := by
  by_contra hn
  rw [display_eq_integerText, integerText_of_le (Nat.le_of_not_lt hn)] at h
  exact absurd h (by simp)

theorem long_of_display (h : display (.int n) = .error fault) :
    fault = .integerTooLong ∧ ¬Short n := by
  by_cases hn : Short n
  · exact absurd ((display_int hn).symm.trans h) (by simp)
  · rw [display_eq_integerText, integerText_of_le (Nat.le_of_not_lt hn)] at h
    exact ⟨(Except.error.inj h).symm, hn⟩

/-- The value is an integer, and it can be written if and only if the replies behind it can. -/
def Carries (v : Value) (replies : List Int) : Prop :=
  ∃ n : Int, v = .int n ∧ (Short n ↔ ∀ k ∈ replies, Short k)

end Value

/-- What goes wrong is that one of the replies cannot be written. -/
def Fault.Stops (fault : Fault) (replies : List Int) : Prop :=
  fault = .integerTooLong ∧ ∃ k ∈ replies, ¬Short k

section Carries

variable {v : Value} {text : Text} {fault : Fault} {replies replies' : List Int}

theorem Value.Carries.short (h : v.Carries replies) (hd : v.display = .ok text) :
    ∀ k ∈ replies, Short k := by
  obtain ⟨n, rfl, hn⟩ := h
  exact hn.mp (short_of_display hd)

theorem Value.Carries.stops (h : v.Carries replies) (hd : v.display = .error fault) :
    fault.Stops replies := by
  obtain ⟨n, rfl, hn⟩ := h
  obtain ⟨rfl, hlong⟩ := long_of_display hd
  exact ⟨rfl, by simpa [hn] using hlong⟩

theorem Value.Carries.round {p : Int} (h : v.Carries replies) : v.round p = .ok v := by
  obtain ⟨n, rfl, -⟩ := h
  exact round_int p n

theorem Fault.Stops.append_right (h : fault.Stops replies) (replies' : List Int) :
    fault.Stops (replies ++ replies') :=
  ⟨h.1, h.2.imp fun _ hk => hk.imp_left (List.mem_append_left _)⟩

theorem Fault.Stops.append_left (replies : List Int) (h : fault.Stops replies') :
    fault.Stops (replies ++ replies') :=
  ⟨h.1, h.2.imp fun _ hk => hk.imp_left (List.mem_append_right _)⟩

theorem Value.operand_eq_ok (h : v.operand = .ok text) : ∃ shown, v.display = .ok shown :=
  (bind_eq_ok.mp h).imp fun _ h => h.1

theorem Value.operand_eq_error (h : v.operand = .error fault) : v.display = .error fault := by
  rcases bind_eq_error.mp h with h | ⟨_, _, h⟩
  · exact h
  · exact absurd h (by simp [pure, Except.pure])

end Carries

/-! ## Sessions -/

/-- Something has been exchanged between the two sessions, and if the replies were integers, `P`
holds of them. -/
def Replied (s s' : Session) (P : List Int → Prop) : Prop :=
  ∃ made, s'.exchanges = s.exchanges ++ made ∧
    ∀ ns : List Int, made.map Exchange.reply = ns.map (fun n => .ok (.int n)) → P ns

namespace Replied

variable {s s₁ s₂ s' : Session} {P Q R : List Int → Prop}

theorem none (h : P []) (he : s'.exchanges = s.exchanges) : Replied s s' P :=
  ⟨[], by rw [he, List.append_nil], fun ns hn => by
    obtain rfl := List.map_eq_nil_iff.mp hn.symm
    exact h⟩

theorem one {x : Exchange} (he : s'.exchanges = s.exchanges ++ [x])
    (h : ∀ n : Int, x.reply = .ok (.int n) → P [n]) : Replied s s' P := by
  refine ⟨[x], he, fun ns hn => ?_⟩
  obtain ⟨n, rfl, hx⟩ := List.map_eq_singleton_iff.mp hn.symm
  exact h n hx.symm

theorem mono (h : Replied s s' P) (hPQ : ∀ ns, P ns → Q ns) : Replied s s' Q :=
  h.imp fun _ h => ⟨h.1, fun ns hn => hPQ ns (h.2 ns hn)⟩

/-- What is known of the first replies and what is known of the others is known of all. -/
theorem trans (h : Replied s s₁ P) (h' : Replied s₁ s₂ Q)
    (hR : ∀ ns ms, P ns → Q ms → R (ns ++ ms)) : Replied s s₂ R := by
  obtain ⟨made, he, hP⟩ := h
  obtain ⟨made', he', hQ⟩ := h'
  refine ⟨made ++ made', by rw [he', he, List.append_assoc], fun ks hk => ?_⟩
  rw [List.map_append] at hk
  obtain ⟨ns, ms, rfl, hn, hm⟩ := List.map_eq_append_iff.mp hk.symm
  exact hR ns ms (hP ns hn.symm) (hQ ms hm.symm)

/-- What is known of the replies between two sessions is known of those that visits account for. -/
theorem of_accounts {engine : Engine} {visits : List Visit} {ns : List Int}
    (h : Replied s s' P) (ha : Trace.Accounts engine s s' visits)
    (hn : visits.map Visit.reply = ns.map fun n => .ok (.int n)) : P ns := by
  obtain ⟨made, he, hP⟩ := h
  obtain rfl := List.append_cancel_left (he.symm.trans ha.exchanges)
  refine hP ns ?_
  rw [List.map_map]
  exact hn

end Replied

namespace Trace

open Run

variable {engine : Engine} {p : Int} {F : List Text} {t : Tree}

/-! ## Reductions -/

theorem evaluate_integers (e : Text) (s : Session) : Ends (evaluate engine p e) s
    (fun v s' => Replied s s' fun ns => ∃ n : Int, v = .int n ∧ ns = [n])
    (fun _ s' => Replied s s' fun _ => False) := by
  simp only [evaluate, ends_bind, ends_ask, ends_ofExcept]
  refine ⟨fun u _ => ⟨fun v hv => .one rfl ?_, fun fault hf => .one rfl ?_⟩,
    fun fault _ => .one rfl ?_⟩
  · rintro n hu
    obtain rfl := Except.ok.inj hu
    exact ⟨n, (Except.ok.inj hv).symm, rfl⟩
  · rintro n hu
    obtain rfl := Except.ok.inj hu
    exact absurd hf (by simp [Value.round_int])
  · rintro n hu
    exact absurd hu (by simp)

/-- An evaluation whose value is not shown. -/
theorem evaluate_carries (e : Text) (s : Session) : Ends (evaluate engine p e) s
    (fun v s' => Replied s s' v.Carries) (fun fault s' => Replied s s' fault.Stops) := by
  refine (evaluate_integers e s).mono (fun v s' h => h.mono ?_)
    fun _ _ h => h.mono fun _ => False.elim
  rintro ns ⟨n, rfl, rfl⟩
  exact ⟨n, rfl, List.forall_mem_singleton.symm⟩

/-- One whose value is told in a step. -/
theorem narrate_carries (action e : Text) (s : Session) : Ends (narrate engine p action e) s
    (fun r s' => Replied s s' fun ns => r.1.Carries ns ∧ ∀ k ∈ ns, Short k)
    (fun fault s' => Replied s s' fault.Stops) := by
  simp only [narrate, ends_bind, ends_display, ends_pure]
  refine (evaluate_carries e s).mono (fun v s' h => ⟨fun shown hd => ?_, fun fault hd => ?_⟩)
    fun _ _ h => h
  · exact h.mono fun ns hv => ⟨hv, hv.short hd⟩
  · exact h.mono fun ns hv => hv.stops hd

/-- **Integers on their way up a tree.** If the engine replies with integers, then the value of a
tree of integers is an integer, which can be written if and only if all replies can; and the only
thing that goes wrong is that one of them cannot. -/
theorem reduce_integers (h : t.Whole) (hs : ∀ task ∈ t.postorder, task.Sound F) (s : Session) :
    Ends (reduce engine p t) s (fun r s' => Replied s s' r.1.Carries)
      (fun fault s' => Replied s s' fault.Stops) := by
  induction h generalizing s with
  | constant n spelling =>
    rw [reduce, ends_pure]
    obtain ⟨w, -, hd, -⟩ : (Numeral.whole n).value.Readable F :=
      hs (.take (Numeral.whole n).value) (by simp [Tree.postorder])
    have hn : Short n := Value.short_of_display hd
    exact .none ⟨n, rfl, iff_of_true hn (by simp)⟩ rfl
  | negation =>
    rw [reduce]
    simp only [ends_bind, ends_pure]
    exact evaluate_carries _ s
  | parenthesis _ ih =>
    rw [reduce]
    exact ih hs s
  | @operation op l r _ _ ihl ihr =>
    rw [Tree.postorder] at hs
    have hs := List.forall_mem_append.mp (List.forall_mem_append.mp hs).1
    rw [reduce]
    simp only [ends_bind, ends_ofExcept, ends_pure]
    refine (ihl hs.1 s).mono ?_ fun _ _ h => h
    rintro ⟨x, before⟩ s₁ hx
    refine (ihr hs.2 s₁).mono ?_ fun _ _ hf => hx.trans hf fun ns ms _ h => h.append_left ns
    rintro ⟨y, between⟩ s₂ hy
    refine ⟨fun lhs hl => ⟨fun rhs hr => ?_, fun fault hr => ?_⟩, fun fault hl => ?_⟩
    · obtain ⟨_, hl⟩ := Value.operand_eq_ok hl
      obtain ⟨_, hr⟩ := Value.operand_eq_ok hr
      -- Both operands have been written, so all replies so far could be.
      have hxy : Replied s s₂ fun ns => ∀ k ∈ ns, Short k := hx.trans hy fun ns ms hn hm =>
        List.forall_mem_append.mpr ⟨hn.short hl, hm.short hr⟩
      refine (narrate_carries _ _ s₂).mono ?_ fun _ _ hf => hxy.trans hf fun ns _ _ h =>
        h.append_left ns
      rintro ⟨v, step⟩ s₃ hv
      refine hxy.trans hv ?_
      rintro ns ms hns ⟨⟨n, rfl, hn⟩, hms⟩
      exact ⟨n, rfl, iff_of_true (hn.mpr hms) (List.forall_mem_append.mpr ⟨hns, hms⟩)⟩
    · exact hx.trans hy fun ns ms _ hm => (hm.stops (Value.operand_eq_error hr)).append_left ns
    · exact hx.trans hy fun ns ms hn _ => (hn.stops (Value.operand_eq_error hl)).append_right ms

/-- The same of a whole trace, in which the value of the tree is written too. -/
theorem ofTree_integers (h : t.Whole) (hs : ∀ task ∈ t.postorder, task.Sound F) (expression : Text)
    (s : Session) : Ends (ofTree engine p expression t) s
      (fun _ s' => Replied s s' fun ns => ∀ k ∈ ns, Short k)
      (fun fault s' => Replied s s' fault.Stops) := by
  simp only [ofTree, ends_bind, ends_ofExcept, ends_display, ends_pure]
  refine (reduce_integers h hs s).mono ?_ fun _ _ h => h
  rintro ⟨v, told⟩ s' hv
  refine ⟨fun w hw => ⟨fun shown hd => hv.mono ?_, fun fault hd => hv.mono ?_⟩,
    fun fault hw => hv.mono ?_⟩
  · intro ns hc
    obtain rfl := Except.ok.inj (hc.round.symm.trans hw)
    exact hc.short hd
  · intro ns hc
    obtain rfl := Except.ok.inj (hc.round.symm.trans hw)
    exact hc.stops hd
  · intro ns hc
    exact absurd (hc.round.symm.trans hw) (by simp)

end Trace

/-! ## Problems of integers -/

/-- The step tells of an operation, and its result is what was replied at the visit. -/
def Visit.Gives (visit : Visit) (step : Step) : Prop :=
  step.action = Action.subExpression ∧ visit.reply = .ok step.result

theorem Visit.Tells.gives {p n : Int} {visit : Visit} {step : Step} (h : visit.Tells p step)
    (hr : visit.reply = .ok (.int n))
    (ha : ∀ action, visit.node.action? = some action → action = Action.subExpression) :
    visit.Gives step := by
  obtain ⟨v, _, hv, -, haction, rfl, -⟩ := h
  rw [Visit.value, hr, ok_bind, Value.round_int] at hv
  exact ⟨ha _ haction, hr.trans hv⟩

namespace Strategy

open Run Trace

variable {engine : Engine} {config : Config} {problem canonical : Text} {tree : Tree}
  {visits : List Visit} {told : List Step} {s s' : Session}

/-- Replies that are integers, in a row. -/
theorem exists_integers (h : ∀ visit ∈ visits, ∃ n : Int, visit.reply = .ok (.int n)) :
    ∃ ns : List Int, visits.map Visit.reply = ns.map fun n => .ok (.int n) := by
  have hrange : visits.map Visit.reply ∈
      Set.range (List.map fun n : Int => (.ok (.int n) : Reply)) := by
    rw [Set.range_list_map]
    exact List.forall_mem_map.mpr fun visit hv => (h visit hv).imp fun _ => Eq.symm
  exact hrange.imp fun _ => Eq.symm

/-- The steps about a tree of integers have the replies as their results. -/
theorem forall_gives {p : Int} {v : Value} (hw : tree.Whole)
    (hc : Completed engine p tree.postorder s [v] told s' visits)
    (hr : ∀ visit ∈ visits, ∃ n : Int, visit.reply = .ok (.int n)) :
    List.Forall₂ Visit.Gives (visits.filter Visit.isTold) told := by
  have hmem : ∀ visit ∈ visits.filter Visit.isTold, (∃ n : Int, visit.reply = .ok (.int n)) ∧
      ∀ action, visit.node.action? = some action → action = Action.subExpression := by
    intro visit hv
    have hv := List.mem_of_mem_filter hv
    have hnode : visit.node ∈ visits.map Visit.node := List.mem_map_of_mem hv
    rw [hc.nodes] at hnode
    exact ⟨hr visit hv, hw.action_eq _ hnode⟩
  refine ((List.forall₂_and_left _ _).mpr ⟨hmem, hc.told⟩).imp ?_
  rintro visit step ⟨⟨⟨n, hn⟩, ha⟩, ht⟩
  exact ht.gives hn ha

/-- The trace of a problem of integers, with what has been asked and told before it. -/
theorem trace_integers (hread : engine.read config.functions = Tree.read config.functions)
    (ht : Tree.read config.functions canonical = .ok tree) (hw : tree.Whole) (s : Session) :
    Ends (trace engine config canonical) s
      (fun steps s' => ∃ visits v told final,
        Completed engine config.precision tree.postorder s [v] told s' visits ∧
        steps = told ++ [final] ∧ final.action = Action.finalEvaluation ∧
        Replied s s' fun ns => ∀ k ∈ ns, Short k)
      (fun fault s' => ∃ visits, Begun engine config.precision tree.postorder s s' visits ∧
        Replied s s' fault.Stops) := by
  have htree : engine.read config.functions canonical = .ok tree := hread ▸ ht
  simp only [trace, htree]
  refine ((ofTree_ends tree canonical s).and
    (ofTree_integers hw (sound_of_read ht) canonical s)).mono ?_ ?_
  · rintro steps s' ⟨⟨visits, v, told, final, hc, hs, hf⟩, hr⟩
    exact ⟨visits, v, told, final, hc, hs, hf, hr⟩
  · rintro fault s' ⟨⟨visits, hb⟩, hr⟩
    exact ⟨visits, hb, hr⟩

section Outcome

variable {steps : List Step} {fault : Fault} {m : Int}

/-- A problem whose trace fails, fails in the same way. -/
theorem arithmetic_of_trace_error
    (h : trace engine config canonical ⟨s.exchanges, s.steps ++ [parsed problem]⟩ =
      (.error fault, s')) : arithmetic engine config problem canonical s = (.error fault, s') := by
  unfold parsed at h
  simp only [arithmetic, bind_apply, Run.tell, h]

/-- When the trace has succeeded, the engine is asked for the whole. -/
theorem exchanges_of_trace_ok
    (h : trace engine config canonical ⟨s.exchanges, s.steps ++ [parsed problem]⟩ =
      (.ok steps, s')) : (arithmetic engine config problem canonical s).2.exchanges =
        s'.exchanges ++ [⟨.evaluate canonical, engine s'.exchanges (.evaluate canonical)⟩] := by
  unfold parsed at h
  simp only [arithmetic, bind_apply, Run.tell, h, tellAll, orInvalid, ask]
  cases engine s'.exchanges (.evaluate canonical) <;> rfl

/-- If that is an integer, it is the solution. -/
theorem arithmetic_of_trace_ok
    (h : trace engine config canonical ⟨s.exchanges, s.steps ++ [parsed problem]⟩ =
      (.ok steps, s')) (hm : engine s'.exchanges (.evaluate canonical) = .ok (.int m)) :
    arithmetic engine config problem canonical s =
      (.ok (.int m),
        ⟨s'.exchanges ++ [⟨.evaluate canonical, .ok (.int m)⟩], s'.steps ++ steps⟩) := by
  unfold parsed at h
  simp only [arithmetic, bind_apply, Run.tell, h, tellAll, orInvalid, ask, hm]
  rfl

end Outcome

/-- **Integers of any size.** Let an arithmetic problem be read as a tree of integers, and let all
that the engine replies be integers. Then what is asked for follows the tree. If the replies to it
can be written, then each operation has been asked for and has a step with the very integer that was
replied, and the solution is the very last integer that was replied, whatever its size. If one of
them cannot, then the problem ends with that, and neither a step about an operation nor a solution
is there. -/
theorem arithmetic_integers (hread : engine.read config.functions = Tree.read config.functions)
    (ht : Tree.read config.functions canonical = .ok tree) (hw : tree.Whole)
    (hr : ∀ x ∈ (arithmetic engine config problem canonical .start).2.exchanges,
      ∃ n : Int, x.reply = .ok (.int n)) :
    ∃ (visits : List Visit) (ns : List Int),
      Follows config.precision tree.postorder [] visits ∧
      visits.map Visit.reply = ns.map (fun n => .ok (.int n)) ∧
      ((∀ n ∈ ns, Short n) → visits.map Visit.node = tree.evaluated ∧
        ∃ (m : Int) (told : List Step) (final : Step),
          arithmetic engine config problem canonical .start = (.ok (.int m),
            ⟨visits.map Visit.exchange ++ [⟨.evaluate canonical, .ok (.int m)⟩],
              parsed problem :: told ++ [final]⟩) ∧
          List.Forall₂ Visit.Gives (visits.filter Visit.isTold) told ∧
          final.action = Action.finalEvaluation) ∧
      ((∃ n ∈ ns, ¬Short n) → arithmetic engine config problem canonical .start =
        (.error .integerTooLong, ⟨visits.map Visit.exchange, [parsed problem]⟩)) := by
  have hends := trace_integers hread ht hw ⟨[], [parsed problem]⟩
  rcases htrace : trace engine config canonical ⟨[], [parsed problem]⟩ with
    ⟨fault | steps, ⟨exchanges, before⟩⟩
  · obtain ⟨visits, hb, hstops⟩ := hends.of_error htrace
    have hrun := arithmetic_of_trace_error (s := .start) htrace
    obtain rfl : exchanges = visits.map Visit.exchange := hb.accounts.exchanges
    obtain rfl : before = [parsed problem] := hb.accounts.steps
    rw [hrun] at hr
    obtain ⟨ns, hns⟩ := exists_integers fun visit hv => hr visit.exchange (List.mem_map_of_mem hv)
    obtain ⟨rfl, k, hk, hlong⟩ := hstops.of_accounts hb.accounts hns
    refine ⟨visits, ns, ?_, hns, fun hall => absurd (hall k hk) hlong, fun _ => hrun⟩
    simpa using hb.follows [] []
  · obtain ⟨visits, v, told, final, hc, rfl, hf, hshort⟩ := hends.of_ok htrace
    have hafter := exchanges_of_trace_ok (s := .start) htrace
    obtain rfl : exchanges = visits.map Visit.exchange := hc.accounts.exchanges
    obtain rfl : before = [parsed problem] := hc.accounts.steps
    rw [hafter] at hr
    obtain ⟨hr, hlast⟩ := List.forall_mem_append.mp hr
    obtain ⟨m, hm⟩ := hlast _ (List.mem_singleton_self _)
    have hvisits := List.forall_mem_map.mp hr
    obtain ⟨ns, hns⟩ := exists_integers hvisits
    have hall := hshort.of_accounts hc.accounts hns
    refine ⟨visits, ns, ?_, hns, fun _ => ⟨hc.nodes, m, told, final, ?_, ?_, hf⟩, ?_⟩
    · simpa using hc.follows (.stop [] ([v].reverse ++ []))
    · exact arithmetic_of_trace_ok (s := .start) htrace hm
    · exact forall_gives hw hc hvisits
    · rintro ⟨k, hk, hlong⟩
      exact absurd (hall k hk) hlong

/-- An expression with a grouped operand. -/
def grouped : Text := "(10^20-7)*3".toList

/-- Replies to it, the last of which is too long to be written. -/
def longEngine : Engine := .ofReplies
  [.ok (.int (10 ^ 20)), .ok (.int (10 ^ 20 - 7)), .ok (.int (3 * 10 ^ 20 - 21)),
    .ok (.int (10 ^ 4300))]

/-- The integer that is replied, if it is one. -/
def integer? : Reply → Option Int
  | .ok (.int n) => some n
  | _ => none

theorem eq_of_integer? {r : Reply} {n : Int} (h : integer? r = some n) : r = .ok (.int n) := by
  unfold integer? at h
  split at h
  · rw [Option.some.inj h]
  · exact absurd h (by simp)

theorem exists_of_integer? {s : Session}
    (h : s.exchanges.all (fun x => (integer? x.reply).isSome) = true) :
    ∀ x ∈ s.exchanges, ∃ n : Int, x.reply = .ok (.int n) := fun x hx =>
  (Option.isSome_iff_exists.mp (List.all_eq_true.mp h x hx)).imp fun _ => eq_of_integer?

/-- The steps tell integers of 21 digits, and the solution has 4301. -/
theorem arithmetic_integers_grouped :
    ∃ (visits : List Visit) (told : List Step) (final : Step),
      arithmetic longEngine .default grouped grouped .start = (.ok (.int (10 ^ 4300)),
        ⟨visits.map Visit.exchange ++ [⟨.evaluate grouped, .ok (.int (10 ^ 4300))⟩],
          parsed grouped :: told ++ [final]⟩) ∧
      visits.map (Tree.text ∘ Visit.node) =
        ["10 ^ 20".toList, "10 ^ 20 - 7".toList, "(10 ^ 20 - 7) * 3".toList] ∧
      List.Forall₂ Visit.Gives (visits.filter Visit.isTold) told := by
  obtain ⟨tree, ht, hcheck⟩ : ∃ tree, Tree.read Config.default.functions grouped = .ok tree ∧
      (tree.isWhole && tree.evaluated.map Tree.text ==
        ["10 ^ 20".toList, "10 ^ 20 - 7".toList, "(10 ^ 20 - 7) * 3".toList]) = true :=
    exists_ok_of_check (by decide +kernel)
  obtain ⟨hw, htexts⟩ := Bool.and_eq_true_iff.mp hcheck
  have hrun : integer? (arithmetic longEngine .default grouped grouped .start).1 =
      some (10 ^ 4300) := by decide +kernel
  have hrun := eq_of_integer? hrun
  have hr : ∀ x ∈ (arithmetic longEngine .default grouped grouped .start).2.exchanges,
      ∃ n : Int, x.reply = .ok (.int n) := exists_of_integer? (by decide +kernel)
  obtain ⟨visits, ns, -, -, hshort, hlong⟩ :=
    arithmetic_integers rfl ht (Tree.whole_of_isWhole hw) hr
  have hall : ∀ n ∈ ns, Short n := fun n hn => by
    by_contra hk
    rw [hlong ⟨n, hn, hk⟩] at hrun
    cases hrun
  obtain ⟨hnodes, m, told, final, hdone, hgives, -⟩ := hshort hall
  obtain rfl : m = 10 ^ 4300 := by
    rw [hdone] at hrun
    exact Value.int.inj (Except.ok.inj hrun)
  refine ⟨visits, told, final, hdone, ?_, hgives⟩
  rw [← List.map_map, hnodes, eq_of_beq htexts]

/-- A power of ten. -/
def power : Text := "10^4300".toList

theorem eq_error_of_check {r : Except Fault Value} {fault : Fault}
    (h : (match r with | .ok _ => false | .error e => e == fault) = true) : r = .error fault := by
  split at h
  · exact absurd h Bool.false_ne_true
  · rw [eq_of_beq h]

/-- A power of ten is computed exactly, and then cannot be told: it has 4301 digits. -/
theorem arithmetic_power :
    ∃ tree, Tree.read Config.default.functions power = .ok tree ∧ tree.Whole ∧
      (∀ x ∈ (arithmetic (Algebra.engine .default) .default power power .start).2.exchanges,
        ∃ n : Int, x.reply = .ok (.int n)) ∧
      (arithmetic (Algebra.engine .default) .default power power .start).1 =
        .error .integerTooLong := by
  obtain ⟨tree, ht, hw⟩ : ∃ tree, Tree.read Config.default.functions power = .ok tree ∧
      tree.isWhole = true := exists_ok_of_check (by decide +kernel)
  exact ⟨tree, ht, Tree.whole_of_isWhole hw, exists_of_integer? (by decide +kernel),
    eq_error_of_check (by decide +kernel)⟩

end Strategy

end Stepwise
