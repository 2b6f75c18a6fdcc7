import Stepwise.Proofs.Operands
import Stepwise.Proofs.Postorder

/-!
# Rebuilt expressions keep their grouping

A trace writes every operation and every call again, with the values of its operands in place of
the operands. If the engine's replies are `Plain`, then all values are readable, those that were
read (`readable_numeral`) and those that were rounded (`readable_round`), and an expression that is
put together from them is read with the grouping that is meant: `Visit.KeepsGrouping`.

Results: `Grammar.Additive.sound`, what there is to do for a tree that was read;
`Visit.keepsGrouping`, one visit; `Follows.keepsGrouping`, all visits on the way down the tasks; and
`trace_keepsGrouping`, all that an engine is asked for in a trace, however the trace ends.
-/

namespace Stepwise

open Text Token Stepwise.Tree Grammar

variable {F : List Text} {p : Int} {v : Value}

/-! ## Values -/

namespace Value

/-- An integer of at most 4300 digits, a finite double, or a text that is read as a tree and in
which every product is written out. -/
def Plain (F : List Text) : Value → Prop
  | .int n => n.natAbs < 10 ^ Fault.digitLimit
  | .float x => x.isFinite = true
  | .text w => ∃ t : Tree, Token.scan w = .ok t.tokens ∧ Tree.read F w = .ok t
  | _ => False

/-- Is the text read as a tree, and are all products in it written out? -/
def writesProducts (F : List Text) (w : Text) : Bool :=
  match Token.scan w, Tree.read F w with
  | .ok tokens, .ok t => tokens == t.tokens
  | _, _ => false

theorem plain_text_iff {w : Text} : Plain F (.text w) ↔ writesProducts F w = true := by
  constructor
  · rintro ⟨t, hs, ht⟩
    unfold writesProducts
    rw [hs, ht]
    exact beq_self_eq_true _
  · intro h
    unfold writesProducts at h
    split at h
    next tokens t hs ht => exact ⟨t, eq_of_beq h ▸ hs, ht⟩
    next => exact absurd h Bool.false_ne_true

/-- **A plain value is readable once it is rounded.** -/
theorem readable_round {u : Value} (h : v.Plain F) (hr : v.round p = .ok u) : u.Readable F := by
  cases v with
  | int n =>
    obtain rfl := Except.ok.inj hr
    exact readable_int h
  | float x =>
    rcases round_float_cases h hr with ⟨n, rfl, hn⟩ | ⟨y, rfl, hy⟩
    · exact readable_int hn
    · exact readable_float hy
  | text w =>
    obtain rfl := Except.ok.inj hr
    obtain ⟨t, hs, ht⟩ := h
    exact readable_text (written_of_read hs ht)
  | null => exact absurd h id
  | bool => exact absurd h id
  | list => exact absurd h id
  | record => exact absurd h id

theorem readable_numeral {s : Text} {n : Numeral} (h : Numeral.ofSpelling s = .ok n) :
    n.value.Readable F := by
  rcases ofSpelling_bound h with ⟨k, rfl, hk⟩ | ⟨x, rfl, hx⟩
  · exact readable_int (by simpa using hk)
  · exact readable_float (Binary64.ne_of_isNegative hx)

end Value

/-! ## Tasks -/

/-- What a visit of the node relies on. -/
def Tree.Sound (F : List Text) : Tree → Prop
  | operation .. => True
  | call f args => f ∈ F ∧ WellSpelled (.name f) ∧ args ≠ []
  | t => Tree.read F t.text = .ok t

/-- What can be relied on when a task is done. -/
def Task.Sound (F : List Text) : Task → Prop
  | take v => v.Readable F
  | evaluate node => node.Sound F

theorem sound_append {ts us : List Task} {t : Task} (hl : ∀ task ∈ ts, task.Sound F)
    (hr : ∀ task ∈ us, task.Sound F) (h : t.Sound F) : ∀ task ∈ ts ++ us ++ [t], task.Sound F :=
  List.forall_mem_append.mpr
    ⟨List.forall_mem_append.mpr ⟨hl, hr⟩, List.forall_mem_singleton.mpr h⟩

namespace Grammar

theorem Signed.read {ts us : List Token} {t : Tree} (h : Signed F ts us t)
    (hw : ∀ tok ∈ ts, WellSpelled tok) : Tree.read F t.text = .ok t := by
  have hd : Signed F (t.tokens ++ []) [] t := h.reprint (by simp [NoOpening])
  rw [List.append_nil] at hd
  exact (written_text (h.wellSpelled hw) (.one (.one hd))).read

mutual

/-- **What there is to do for a sum that was read is sound**, if the tokens are well spelled that
it was read from. -/
theorem Additive.sound : ∀ {ts us : List Token} {t : Tree}, Additive F ts us t →
    (∀ tok ∈ ts, WellSpelled tok) → ∀ task ∈ t.postorder, task.Sound F
  | _, _, _, .one h, hw => h.sound hw
  | _, _, _, .more _ hl hr, hw => by
    have hus := fun tok hm => hw tok (hl.after.of_cons.suffix.subset hm)
    rw [postorder]
    exact sound_append (hl.sound hw) (hr.sound hus) trivial

theorem Multiplicative.sound : ∀ {ts us : List Token} {t : Tree}, Multiplicative F ts us t →
    (∀ tok ∈ ts, WellSpelled tok) → ∀ task ∈ t.postorder, task.Sound F
  | _, _, _, .one h, hw => h.sound hw
  | _, _, _, .more _ hl hr, hw => by
    have hus := fun tok hm => hw tok (hl.after.of_cons.suffix.subset hm)
    rw [postorder]
    exact sound_append (hl.sound hw) (hr.sound hus) trivial
  | _, _, _, .implied hl _ hr, hw => by
    have hus := fun tok hm => hw tok (hl.after.suffix.subset hm)
    rw [postorder]
    exact sound_append (hl.sound hw) (hr.sound hus) trivial

theorem Signed.sound : ∀ {ts us : List Token} {t : Tree}, Signed F ts us t →
    (∀ tok ∈ ts, WellSpelled tok) → ∀ task ∈ t.postorder, task.Sound F
  | _, _, _, .minus h, hw => by
    -- A negation is one task, and the operations below it are none.
    rw [postorder]
    exact List.forall_mem_singleton.mpr ((Signed.minus h).read hw)
  | _, _, _, .bare h, hw => h.sound hw

theorem Power.sound : ∀ {ts us : List Token} {t : Tree}, Power F ts us t →
    (∀ tok ∈ ts, WellSpelled tok) → ∀ task ∈ t.postorder, task.Sound F
  | _, _, _, .bare h, hw => h.sound hw
  | _, _, _, .raised hb he, hw => by
    have hus := fun tok hm => hw tok (hb.after.of_cons.suffix.subset hm)
    rw [postorder]
    exact sound_append (hb.sound hw) (he.sound hus) trivial

theorem Primary.sound : ∀ {ts us : List Token} {t : Tree}, Primary F ts us t →
    (∀ tok ∈ ts, WellSpelled tok) → ∀ task ∈ t.postorder, task.Sound F
  | _, _, _, .number h, _ => by
    rw [postorder]
    exact List.forall_mem_singleton.mpr (Value.readable_numeral h)
  | _, _, _, .name h, hw => by
    have hs : Signed F _ _ _ := .bare (.bare (.name h))
    rw [postorder]
    exact List.forall_mem_singleton.mpr (hs.read hw)
  | _, _, _, .call hs h, hw => by
    obtain ⟨hf, hw⟩ := List.forall_mem_cons.mp hw
    rw [postorder]
    refine List.forall_mem_append.mpr ⟨h.sound (List.forall_mem_cons.mp hw).2, ?_⟩
    exact List.forall_mem_singleton.mpr ⟨hs, hf, h.ne_nil⟩
  | _, _, _, .parenthesis h, hw => by
    rw [postorder]
    exact h.sound (List.forall_mem_cons.mp hw).2

theorem Arguments.sound : ∀ {ts us : List Token} {args : List Tree}, Arguments F ts us args →
    (∀ tok ∈ ts, WellSpelled tok) → ∀ task ∈ postorders args, task.Sound F
  | _, _, _, .last h, hw => by
    rw [postorders, postorders, List.append_nil]
    exact h.sound hw
  | _, _, _, .more h hs, hw => by
    have hus := fun tok hm => hw tok (h.after.of_cons.suffix.subset hm)
    rw [postorders]
    exact List.forall_mem_append.mpr ⟨h.sound hw, hs.sound hus⟩

end

end Grammar

/-- What there is to do for a tree that was read. -/
theorem sound_of_read {w : Text} {t : Tree} (h : Tree.read F w = .ok t) :
    ∀ task ∈ t.postorder, task.Sound F := by
  obtain ⟨tokens, hs, h⟩ := bind_eq_ok.mp h
  have hd : Additive F tokens [] t := ofTokens?_eq_ok.mp h
  exact hd.sound (scan_eq_ok.mp hs).wellSpelled

/-! ## Visits -/

namespace Visit

/-- The expression is read with the grouping of the node. For an operation it is the same operation
of the trees that the values of its operands show, each bare or in one pair of parentheses; for a
call it is a call of the same function with the trees that the values of its arguments show; and
for a name or a negation it is the node itself. -/
def KeepsGrouping (F : List Text) (visit : Visit) : Prop :=
  match visit.node with
  | .operation op _ _ => ∃ x y l r l' r', visit.operands = [x, y] ∧ x.Shows F l ∧ y.Shows F r ∧
      (l' = l ∨ l' = .parenthesis l) ∧ (r' = r ∨ r' = .parenthesis r) ∧
      Tree.read F visit.expression = .ok (.operation op l' r')
  | .call f _ => ∃ args, List.Forall₂ (Value.Shows F) visit.operands args ∧
      Tree.read F visit.expression = .ok (.call f args)
  | node => Tree.read F visit.expression = .ok node

theorem exists_trees : ∀ {vs : List Value} {ws : List Text}, (∀ v ∈ vs, v.Readable F) →
    vs.mapM Value.display = .ok ws →
      ∃ ts, List.Forall₂ (Value.Shows F) vs ts ∧ List.Forall₂ (Written F) ws ts
  | [], ws, _, h => by
    rw [List.mapM_nil] at h
    obtain rfl := Except.ok.inj h
    exact ⟨[], .nil, .nil⟩
  | v :: vs, ws, hv, h => by
    obtain ⟨hv, hvs⟩ := List.forall_mem_cons.mp hv
    rw [List.mapM_cons] at h
    obtain ⟨w, hw, h⟩ := bind_eq_ok.mp h
    obtain ⟨ws', hws, h⟩ := bind_eq_ok.mp h
    obtain rfl := Except.ok.inj h
    obtain ⟨ts, hs, hts⟩ := exists_trees hvs hws
    obtain ⟨w', t, hd, ht, _⟩ := hv
    obtain rfl := Except.ok.inj (hw.symm.trans hd)
    exact ⟨t :: ts, .cons ⟨w, hd, ht.read⟩ hs, .cons ht hts⟩

/-- **A visit keeps the grouping** if the values of its operands are readable. -/
theorem keepsGrouping {visit : Visit} (hf : visit.Fits) (hs : visit.node.Sound F)
    (hv : ∀ v ∈ visit.operands, v.Readable F) : visit.KeepsGrouping F := by
  obtain ⟨ha, hr⟩ := hf
  obtain ⟨node, operands, expression, reply⟩ := visit
  cases node with
  | operation op left right =>
    obtain ⟨x, y, rfl⟩ := List.length_eq_two.mp ha
    obtain ⟨lhs, hx, hr⟩ := bind_eq_ok.mp hr
    obtain ⟨rhs, hy, hr⟩ := bind_eq_ok.mp hr
    obtain rfl := Except.ok.inj hr
    obtain ⟨l, l', hl, hl', cl, pl⟩ := (hv x (by simp)).operand hx
    obtain ⟨r, r', hr, hr', cr, pr⟩ := (hv y (by simp)).operand hy
    exact ⟨x, y, l, r, l', r', rfl, hl, hr, hl', hr', (written_operation op cl pl cr pr).read⟩
  | call f args =>
    obtain ⟨hf, hw, hne⟩ := hs
    obtain ⟨shown, hd, hr⟩ := bind_eq_ok.mp hr
    obtain rfl := Except.ok.inj hr
    obtain ⟨ts, hs, hts⟩ := exists_trees hv hd
    have some : ts ≠ [] := by
      rintro rfl
      have length : args.length = 0 := ha.symm.trans hs.length_eq
      exact hne (List.eq_nil_of_length_eq_zero length)
    exact ⟨ts, hs, (written_call hf hw hts some).read⟩
  | _ =>
    have he := Except.ok.inj hr
    dsimp only at he
    subst he
    exact hs

end Visit

/-- **All visits on the way keep the grouping** if the tasks are sound, the values on the stack
readable and the replies plain. -/
theorem Follows.keepsGrouping {tasks : List Task} {stack : List Value} {visits : List Visit}
    (h : Follows p tasks stack visits) (ht : ∀ task ∈ tasks, task.Sound F)
    (hs : ∀ v ∈ stack, v.Readable F)
    (hr : ∀ visit ∈ visits, ∀ v, visit.reply = .ok v → v.Plain F) :
    ∀ visit ∈ visits, visit.KeepsGrouping F := by
  -- The invariant is `hs`: what is put on the stack is readable.
  induction h with
  | stop => exact fun _ h => absurd h List.not_mem_nil
  | take _ ih =>
    obtain ⟨hv, ht⟩ := List.forall_mem_cons.mp ht
    exact ih ht (List.forall_mem_cons.mpr ⟨hv, hs⟩) hr
  | last hf tasks stack =>
    obtain ⟨hnode, _⟩ := List.forall_mem_cons.mp ht
    have operands := (List.forall_mem_append.mp hs).1
    refine List.forall_mem_singleton.mpr (Visit.keepsGrouping hf hnode fun v hv => ?_)
    exact operands v (List.mem_reverse.mpr hv)
  | @visit visit v tasks stack visits hf hv _ ih =>
    obtain ⟨hnode, ht⟩ := List.forall_mem_cons.mp ht
    obtain ⟨operands, hs⟩ := List.forall_mem_append.mp hs
    obtain ⟨hreply, hr⟩ := List.forall_mem_cons.mp hr
    obtain ⟨u, hu, hround⟩ := bind_eq_ok.mp hv
    have value := Value.readable_round (hreply u hu) hround
    refine List.forall_mem_cons.mpr ⟨?_, ih ht (List.forall_mem_cons.mpr ⟨value, hs⟩) hr⟩
    exact Visit.keepsGrouping hf hnode fun v hv => operands v (List.mem_reverse.mpr hv)

/-- The nodes are visited in the order of the tasks. -/
theorem Follows.nodes_prefix {tasks : List Task} {stack : List Value} {visits : List Visit}
    (h : Follows p tasks stack visits) :
    visits.map Visit.node <+: tasks.filterMap Task.node? := by
  induction h with
  | stop => exact List.nil_prefix
  | take _ ih => exact ih
  | last => exact (List.prefix_cons_inj _).mpr List.nil_prefix
  | visit _ _ _ ih => exact (List.prefix_cons_inj _).mpr ih

namespace Trace

variable {engine : Engine} {config : Config} {expression : Text} {tree : Tree}

/-- However a trace of a tree ends, its tasks have been begun, and if it succeeds they are done. -/
theorem ofTree_begun (engine : Engine) (p : Int) (expression : Text) (t : Tree) (s : Session) :
    ∃ visits, Begun engine p t.postorder s (ofTree engine p expression t s).2 visits ∧
      ∀ steps, (ofTree engine p expression t s).1 = .ok steps →
        visits.map Visit.node = t.evaluated := by
  have h : Run.Ends (ofTree engine p expression t) s _ _ := ofTree_ends t expression s
  rcases hr : ofTree engine p expression t s with ⟨_ | steps, s'⟩
  · obtain ⟨visits, hb⟩ := h.of_error hr
    exact ⟨visits, hb, fun steps he => absurd he (by simp)⟩
  · obtain ⟨visits, v, told, final, hc, -⟩ := h.of_ok hr
    have hb := hc.begun []
    rw [List.append_nil] at hb
    exact ⟨visits, hb, fun _ _ => hc.nodes⟩

/-- **Rebuilding a reduced expression never changes its grouping.** If the engine reads expressions
as usual and all its replies are plain, then all that it is asked for in the trace of an expression
are visits of the nodes of its tree, in post-order, all of them if the trace succeeds; and each
expression is read with the grouping of its node. -/
theorem trace_keepsGrouping (hread : engine.read = Tree.read)
    (ht : Tree.read config.functions expression = .ok tree)
    (hr : ∀ before e v, engine before (.evaluate e) = .ok v → v.Plain config.functions)
    (s : Session) :
    ∃ visits : List Visit,
      (trace engine config expression s).2.exchanges = s.exchanges ++ visits.map Visit.exchange ∧
      visits.map Visit.node <+: tree.evaluated ∧
      (∀ steps, (trace engine config expression s).1 = .ok steps →
        visits.map Visit.node = tree.evaluated) ∧
      Follows config.precision tree.postorder [] visits ∧
      ∀ visit ∈ visits, visit.KeepsGrouping config.functions := by
  have ht' : engine.read config.functions expression = .ok tree := by rw [hread, ht]
  simp only [trace, ht']
  obtain ⟨visits, hb, hall⟩ := ofTree_begun engine config.precision expression tree s
  have hf := hb.follows [] []
  rw [List.append_nil] at hf
  refine ⟨visits, hb.accounts.exchanges, hf.nodes_prefix, hall, hf, ?_⟩
  refine hf.keepsGrouping (sound_of_read ht) (fun _ h => absurd h List.not_mem_nil) ?_
  intro visit hv v hreply
  obtain ⟨before, hbefore⟩ := hb.accounts.replies visit hv
  exact hr before visit.expression v (hbefore.symm.trans hreply)

/-- The expression that an engine is asked to evaluate. -/
def asked : Exchange → Text
  | ⟨.evaluate e, _⟩ => e
  | _ => []

/-- Plain replies to the trace of `(1-4)^2x`. -/
def plainEngine : Engine := .ofReplies
  [.ok (.int (-3)), .ok (.float (.ofFraction 19 2)), .ok (.text "y+1".toList), .ok (.int 0)]

theorem plain_plainEngine {before : List Exchange} {e : Text} {v : Value}
    (h : plainEngine before (.evaluate e) = .ok v) : v.Plain Config.default.functions := by
  have hv := Engine.mem_of_ofReplies h
  simp only [List.mem_cons, Except.ok.injEq, List.not_mem_nil, or_false] at hv
  rcases hv with rfl | rfl | rfl | rfl
  · exact (by decide +kernel : (-3 : Int).natAbs < 10 ^ Fault.digitLimit)
  · exact (by decide +kernel : (Binary64.ofFraction 19 2).isFinite = true)
  · exact Value.plain_text_iff.mpr (by decide +kernel)
  · exact (by decide +kernel : (0 : Int).natAbs < 10 ^ Fault.digitLimit)

/-- The trace of `(1-4)^2x`, in which `-3` and `y+1` need parentheses and `9.5` needs none. -/
theorem trace_keepsGrouping_parenthesized :
    ∃ (tree : Tree) (visits : List Visit),
      Tree.read Config.default.functions "(1-4)^2x".toList = .ok tree ∧
      (trace plainEngine .default "(1-4)^2x".toList .start).2.exchanges =
        visits.map Visit.exchange ∧
      visits.map (Tree.text ∘ Visit.node) =
        ["1 - 4".toList, "(1 - 4) ^ 2".toList, "x".toList, "(1 - 4) ^ 2 * x".toList] ∧
      visits.map Visit.expression =
        ["1 - 4".toList, "(-3) ^ 2".toList, "x".toList, "9.5 * (y+1)".toList] ∧
      ∀ visit ∈ visits, visit.KeepsGrouping Config.default.functions := by
  obtain ⟨tree, ht, hnodes⟩ : ∃ tree,
      Tree.read Config.default.functions "(1-4)^2x".toList = .ok tree ∧
      (tree.evaluated.map Tree.text == ["1 - 4".toList, "(1 - 4) ^ 2".toList, "x".toList,
        "(1 - 4) ^ 2 * x".toList]) = true := exists_ok_of_check (by decide +kernel)
  have hr : ∀ before e v, plainEngine before (.evaluate e) = .ok v →
      v.Plain Config.default.functions := fun _ _ _ => plain_plainEngine
  obtain ⟨visits, he, -, hall, -, hk⟩ := trace_keepsGrouping rfl ht hr .start
  obtain ⟨steps, s', hok⟩ : ∃ steps s',
      trace plainEngine .default "(1-4)^2x".toList .start = (.ok steps, s') :=
    Run.exists_ok_of_check (by decide +kernel)
  have ha : (trace plainEngine .default "(1-4)^2x".toList .start).2.exchanges.map asked =
      ["1 - 4".toList, "(-3) ^ 2".toList, "x".toList, "9.5 * (y+1)".toList] := by decide +kernel
  have hv : (visits.map Visit.exchange).map asked = visits.map Visit.expression := by
    rw [List.map_map]
    rfl
  refine ⟨tree, visits, ht, he, ?_, ?_, hk⟩
  · rw [← List.map_map, hall steps (congrArg Prod.fst hok), eq_of_beq hnodes]
  · rw [← hv, ← ha, he]
    rfl

end Trace

end Stepwise
