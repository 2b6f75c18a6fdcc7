import Stepwise.Proofs.ExactNumbers
import Stepwise.Proofs.Regrouping
import Stepwise.Proofs.RoundedTwice

/-!
# The narration and the answer

An expression is evaluated twice: step by step, from operands that are rounded and written again,
and at once as a whole. A trace rounds by design, so that the two need not agree: `(1/3)*3` is traced
to `0.999` and answered with 1. They do agree where nothing is lost on the way.

`Library.Composes` says of a library that what it reads in an operation or a call is made of what it
reads in the operands. As it may read a lone name or numeral as a product, this is said of operands
that stand in parentheses (`Tree.enclosed`). `Library.Keeps` says that the value of an operand, once
it is rounded and written, is still read as the operand. A trace with such operands goes on with the
value of the whole (`Composes.settles`).

Results: `finalEvaluation_eq_answer`, when the last step of a solution has the answer as its result;
and `finalEvaluation_ne_answer`, where they do not agree.
-/

namespace Stepwise

open Text Token Stepwise.Tree Grammar

variable {F : List Text}

/-! ## Trees that are read from their own texts -/

namespace Grammar

variable {ts us : List Token} {op : Operator} {t l r : Tree} {f : Text} {args : List Tree}

theorem Additive.derives (h : Additive F ts us t) : Derives F t.tokens t := by
  have h' : Additive F (t.tokens ++ []) [] t := h.reprint (by simp [NoOpening])
  rwa [List.append_nil] at h'

theorem Derives.of_operation (h : Derives F ts (operation op l r)) :
    Derives F l.tokens l ∧ Derives F r.tokens r := by
  cases h with
  | more _ hl hr => exact ⟨hl.derives, Additive.derives (.one hr)⟩
  | one h =>
    cases h with
    | more _ hl hr => exact ⟨Additive.derives (.one hl), Additive.derives (.one (.one hr))⟩
    | implied hl _ hr => exact ⟨Additive.derives (.one hl), Additive.derives (.one (.one hr))⟩
    | one h =>
      cases h with
      | bare h =>
        cases h with
        | raised hb he =>
          exact ⟨Additive.derives (.one (.one (.bare (.bare hb)))),
            Additive.derives (.one (.one he))⟩
        | bare h => cases h

theorem Derives.content (h : Derives F ts (parenthesis t)) : Derives F t.tokens t := by
  cases primary_of_ne h (fun _ _ _ => Tree.noConfusion) (fun _ => Tree.noConfusion) with
  | parenthesis h => exact h.derives

theorem Arguments.derives (h : Arguments F ts us args) : ∀ t ∈ args, Derives F t.tokens t := by
  induction args generalizing ts with
  | nil => exact fun _ h => absurd h List.not_mem_nil
  | cons t args ih =>
    cases h with
    | last h => exact List.forall_mem_singleton.mpr h.derives
    | more h hs => exact List.forall_mem_cons.mpr ⟨h.derives, ih hs⟩

theorem Derives.arguments (h : Derives F ts (call f args)) :
    f ∈ F ∧ args ≠ [] ∧ ∀ t ∈ args, Derives F t.tokens t := by
  cases primary_of_ne h (fun _ _ _ => Tree.noConfusion) (fun _ => Tree.noConfusion) with
  | call hf h => exact ⟨hf, h.ne_nil, h.derives⟩

end Grammar

namespace Tree

variable {op : Operator} {t l r : Tree} {f w : Text} {args : List Tree}

/-- The tree is read from its own text. Every tree that was read from some text is. -/
def IsRead (F : List Text) (t : Tree) : Prop := read F t.text = .ok t

theorem isRead_of_derives (hw : ∀ tok ∈ t.tokens, WellSpelled tok) (h : Derives F t.tokens t) :
    IsRead F t :=
  (written_text hw h).read

theorem spelled_of_read (h : read F w = .ok t) :
    (∀ tok ∈ t.tokens, WellSpelled tok) ∧ Derives F t.tokens t := by
  obtain ⟨tokens, hs, h⟩ := bind_eq_ok.mp h
  have hd : Additive F tokens [] t := ofTokens?_eq_ok.mp h
  exact ⟨hd.wellSpelled (scan_eq_ok.mp hs).wellSpelled, hd.derives⟩

theorem isRead_of_read (h : read F w = .ok t) : IsRead F t :=
  isRead_of_derives (spelled_of_read h).1 (spelled_of_read h).2

theorem IsRead.operands (h : IsRead F (operation op l r)) : IsRead F l ∧ IsRead F r := by
  obtain ⟨hw, hd⟩ := spelled_of_read h
  rw [tokens] at hw
  obtain ⟨hl, hr⟩ := List.forall_mem_append.mp hw
  exact ⟨isRead_of_derives hl hd.of_operation.1,
    isRead_of_derives (List.forall_mem_cons.mp hr).2 hd.of_operation.2⟩

theorem IsRead.parenthesized (h : IsRead F t) : IsRead F (parenthesis t) := by
  refine isRead_of_derives ?_ (derives_of_primary ?_)
  · rw [tokens]
    exact wellSpelled_enclosed (spelled_of_read h).1
  · rw [tokens]
    exact .parenthesis ((spelled_of_read h).2.reprint (noOpening_sign [] (by decide)))

theorem IsRead.content (h : IsRead F (parenthesis t)) : IsRead F t := by
  obtain ⟨hw, hd⟩ := spelled_of_read h
  rw [tokens] at hw
  have inside := (List.forall_mem_append.mp (List.forall_mem_cons.mp hw).2).1
  exact isRead_of_derives inside hd.content

theorem wellSpelled_arguments : ∀ {ts : List Tree}, (∀ tok ∈ argumentTokens ts, WellSpelled tok) →
    ∀ t ∈ ts, ∀ tok ∈ t.tokens, WellSpelled tok
  | [], _ => fun _ h => absurd h List.not_mem_nil
  | [t], hw => by
    rw [argumentTokens] at hw
    exact List.forall_mem_singleton.mpr hw
  | t :: u :: ts, hw => by
    rw [argumentTokens] at hw
    obtain ⟨ht, hts⟩ := List.forall_mem_append.mp hw
    exact List.forall_mem_cons.mpr ⟨ht, wellSpelled_arguments (List.forall_mem_cons.mp hts).2⟩

theorem IsRead.arguments (h : IsRead F (call f args)) :
    f ∈ F ∧ WellSpelled (.name f) ∧ args ≠ [] ∧ ∀ t ∈ args, IsRead F t := by
  obtain ⟨hw, hd⟩ := spelled_of_read h
  rw [tokens] at hw
  obtain ⟨hf, hw⟩ := List.forall_mem_cons.mp hw
  have inside := (List.forall_mem_append.mp (List.forall_mem_cons.mp hw).2).1
  obtain ⟨mem, some, derives⟩ := hd.arguments
  exact ⟨mem, hf, some, fun t ht =>
    isRead_of_derives (wellSpelled_arguments inside t ht) (derives t ht)⟩

/-! ## Operands that are written again -/

mutual

/-- The operands of the operations and the arguments of the calls that a trace writes again. A
negation is evaluated in one go, with all that it holds. -/
def rewritten : Tree → List Tree
  | constant .. | name _ | negation _ => []
  | operation _ left right => rewritten left ++ rewritten right ++ [left, right]
  | parenthesis content => rewritten content
  | call _ arguments => rewrittenOfAll arguments ++ arguments

/-- The operands in several trees. -/
def rewrittenOfAll : List Tree → List Tree
  | [] => []
  | t :: ts => rewritten t ++ rewrittenOfAll ts

end

mutual

/-- The tree with every operand of an operation in parentheses. -/
def enclosed : Tree → Tree
  | operation op left right => operation op (parenthesis left.enclosed) (parenthesis right.enclosed)
  | parenthesis content => content.enclosed
  | call function arguments => call function (enclosedAll arguments)
  | constant n spelling => constant n spelling
  | name spelling => name spelling
  | negation operand => negation operand

/-- Several trees with operands in parentheses. -/
def enclosedAll : List Tree → List Tree
  | [] => []
  | t :: ts => t.enclosed :: enclosedAll ts

end

/-- What a trace goes on with for the tree, if `a` is its value: a number as it stands, which is not
rounded, and else `a`. -/
def held (a : Value) : Tree → Value
  | constant n _ => n.value
  | parenthesis content => content.held a
  | _ => a

/-- Is this a lone numeral, perhaps in parentheses, other than an integer as integers are written? -/
def isLoneNumeral : Tree → Bool
  | constant (.whole n) spelling => spelling != ofNat n
  | constant (.decimal _) _ => true
  | parenthesis content => content.isLoneNumeral
  | _ => false

theorem isRead_operation (op : Operator) (hl : IsRead F l) (hr : IsRead F r) :
    IsRead F (operation op (parenthesis l) (parenthesis r)) := by
  have hl := spelled_of_read hl.parenthesized
  have hr := spelled_of_read hr.parenthesized
  have primary {t : Tree} (h : Derives F (parenthesis t).tokens (parenthesis t)) :=
    primary_of_ne h (fun _ _ _ => Tree.noConfusion) (fun _ => Tree.noConfusion)
  exact isRead_of_derives (wellSpelled_operation hl.1 hr.1)
    (derives_operation op (primary hl.2) (primary hr.2))

theorem written_texts : ∀ {ts : List Tree}, (∀ t ∈ ts, IsRead F t) →
    List.Forall₂ (Written F) (ts.map text) ts
  | [], _ => .nil
  | t :: ts, h => by
    obtain ⟨head, tail⟩ := List.forall_mem_cons.mp h
    obtain ⟨hw, hd⟩ := spelled_of_read head
    exact .cons (written_text hw hd) (written_texts tail)

theorem isRead_call (hf : f ∈ F) (hw : WellSpelled (.name f)) (some : args ≠ [])
    (h : ∀ t ∈ args, IsRead F t) : IsRead F (call f args) := by
  have := (written_call hf hw (written_texts h) some).read
  rwa [← text_call] at this

theorem IsRead.isNumber {n : Numeral} (h : IsRead F (constant n w)) : n.value.IsNumber := by
  cases primary_of_ne (spelled_of_read h).2 (fun _ _ _ => Tree.noConfusion)
    (fun _ => Tree.noConfusion) with
  | number h =>
    rcases ofSpelling_bound h with ⟨k, rfl, -⟩ | ⟨x, rfl, hx⟩
    · exact trivial
    · exact Binary64.ne_of_isNegative hx

mutual

theorem IsRead.enclosed : ∀ {t : Tree}, IsRead F t → IsRead F t.enclosed
  | .operation op l r, h => by
    rw [Tree.enclosed]
    exact isRead_operation op h.operands.1.enclosed h.operands.2.enclosed
  | .parenthesis t, h => by
    rw [Tree.enclosed]
    exact h.content.enclosed
  | .call f args, h => by
    obtain ⟨mem, spelled, some, read⟩ := h.arguments
    rw [Tree.enclosed]
    refine isRead_call mem spelled ?_ (isRead_enclosedAll read)
    cases args with
    | nil => exact absurd rfl some
    | cons => exact List.cons_ne_nil _ _
  | .constant .., h | .name _, h | .negation _, h => by
    rw [Tree.enclosed]
    exact h

theorem isRead_enclosedAll : ∀ {ts : List Tree}, (∀ t ∈ ts, IsRead F t) →
    ∀ t ∈ enclosedAll ts, IsRead F t
  | [], _ => fun _ h => absurd h List.not_mem_nil
  | t :: ts, h => by
    obtain ⟨head, tail⟩ := List.forall_mem_cons.mp h
    exact List.forall_mem_cons.mpr ⟨head.enclosed, isRead_enclosedAll tail⟩

end

end Tree

/-- A rounded double is a number. -/
theorem Value.isNumber_round {p : Int} {x : Binary64} {v : Value}
    (h : (Value.float x).round p = .ok v) : v.IsNumber := by
  by_cases hx : x.isFinite = true
  · rcases round_float_cases hx h with ⟨n, rfl, -⟩ | ⟨y, rfl, hy⟩
    · exact trivial
    · exact hy
  · rw [round_of_not_finite p (Bool.eq_false_iff.mpr hx)] at h
    obtain rfl := Except.ok.inj h
    rintro rfl
    exact hx rfl

/-! ## Readings that are put together -/

namespace Library

variable {L : Library} {config : Config}

/-- The value, in writing, stands for the same expression as the tree. It is a number, or has come
out of some evaluation. -/
structure Represents (L : Library) (config : Config) (v : Value) (t : Tree) : Prop where
  known : v.IsNumber ∨ ∃ w, L.evaluate config w = .ok v
  readable : v.Readable config.functions
  alike : ∃ d e, v.display = .ok d ∧ L.read (config.scope none) d = .expression e ∧
    L.read (config.scope none) (Value.parenthesized d) = .expression e ∧
    L.read (config.scope none) (Tree.parenthesis t.enclosed).text = .expression e

/-- **What a library reads is put together from what it reads in the parts.** -/
structure Composes (L : Library) (config : Config) : Prop where
  /-- The operands of an operation can be replaced by values that stand for the same. -/
  operation : ∀ {op x y l r lhs rhs}, L.Represents config x l → L.Represents config y r →
    x.operand = .ok lhs → y.operand = .ok rhs → IsRead config.functions (.operation op l r) →
      L.read (config.scope none) (lhs ++ [' ', op.sign, ' '] ++ rhs) =
        L.read (config.scope none) (Tree.operation op l r).enclosed.text
  /-- The arguments of a call can be. -/
  call : ∀ {f xs args shown}, List.Forall₂ (L.Represents config) xs args →
    xs.mapM Value.display = .ok shown → IsRead config.functions (.call f args) →
      L.read (config.scope none) (f ++ '(' :: joinWith ", ".toList shown ++ [')']) =
        L.read (config.scope none) (Tree.call f args).enclosed.text
  parenthesis : ∀ {t e}, IsRead config.functions t →
    L.read (config.scope none) (Tree.parenthesis t).text = .expression e →
      L.read (config.scope none) t.text = .expression e
  /-- An integer stands for itself. -/
  integer : ∀ {n v}, IsRead config.functions (.constant (.whole n) (ofNat n)) →
    L.evaluate config (ofNat n) = .ok v → v = .int n

/-- The operand has a value, and its rounded value, once it is written, stands for the same
expression as the operand itself. -/
def Keeps (L : Library) (config : Config) (t : Tree) : Prop :=
  ∃ w a d e, L.evaluate config (Tree.parenthesis t.enclosed).text = .ok w ∧
    w.round config.precision = .ok a ∧ (t.held a).Readable config.functions ∧
    (t.held a).display = .ok d ∧ L.read (config.scope none) d = .expression e ∧
    L.read (config.scope none) (Value.parenthesized d) = .expression e ∧
    L.read (config.scope none) (Tree.parenthesis t.enclosed).text = .expression e

/-- What is read as the same expression has the same value, if there is a tree for it. -/
theorem evaluate_congr {x y : Text} {t : Tree} {v : Value}
    (ht : Tree.read config.functions x = .ok t)
    (alike : L.read (config.scope none) x = L.read (config.scope none) y)
    (h : L.evaluate config y = .ok v) : L.evaluate config x = .ok v := by
  obtain ⟨-, e, -, he, proper, reply⟩ := evaluate_eq_ok_iff.mp h
  exact evaluate_eq_ok_iff.mpr ⟨t, e, ht, alike.trans he, proper, reply⟩

/-! ## Traces of such operands -/

/-- A trace goes on with the value `v` for the tree and with no other, if that can be written. -/
def Settles (L : Library) (config : Config) (t : Tree) (v : Value) : Prop :=
  (∀ u, Trace.Reduces (L.answer config) config.precision t u → u = v) ∧
    ((∃ d, v.display = .ok d) → Trace.Reduces (L.answer config) config.precision t v)

/-- A trace goes on with the value for the tree and with no other, and it stands for the tree. -/
structure Carries (L : Library) (config : Config) (t : Tree) (v : Value) : Prop where
  reduces : Trace.Reduces (L.answer config) config.precision t v
  only : ∀ u, Trace.Reduces (L.answer config) config.precision t u → u = v
  represents : L.Represents config v t

theorem Represents.exists_operand {v : Value} {t : Tree} (h : L.Represents config v t) :
    ∃ w, v.operand = .ok w := by
  obtain ⟨d, -, hd, -⟩ := h.alike
  exact ⟨_, by rw [Value.operand, hd, ok_bind]; rfl⟩

theorem exists_written : ∀ {vs : List Value} {ts : List Tree},
    List.Forall₂ (L.Represents config) vs ts → ∃ ws, vs.mapM Value.display = .ok ws ∧
      ∃ us, List.Forall₂ (Written config.functions) ws us ∧ us.length = ts.length
  | _, _, .nil => ⟨[], rfl, [], .nil, rfl⟩
  | _, _, .cons h hs => by
    obtain ⟨d, u, hd, hu, -⟩ := h.readable
    obtain ⟨ws, hws, us, hus, length⟩ := exists_written hs
    refine ⟨d :: ws, ?_, u :: us, .cons hu hus, congrArg (· + 1) length⟩
    rw [List.mapM_cons, hd, ok_bind, hws, ok_bind]
    rfl

theorem reducesAll_of_carries {ts : List Tree} {vs : List Value}
    (h : List.Forall₂ (L.Carries config) ts vs) :
    Trace.ReducesAll (L.answer config) config.precision ts vs := by
  induction h with
  | nil => exact .nil
  | cons h _ ih => exact .cons h.reduces ih

theorem eq_of_reducesAll : ∀ {ts : List Tree} {us vs : List Value},
    List.Forall₂ (L.Carries config) ts vs →
      Trace.ReducesAll (L.answer config) config.precision ts us → us = vs
  | _, _, _, .nil, .nil => rfl
  | _, _, _, .cons h hs, .cons h' hs' => by rw [h.only _ h', eq_of_reducesAll hs hs']

theorem represents_of_carries {ts : List Tree} {vs : List Value}
    (h : List.Forall₂ (L.Carries config) ts vs) : List.Forall₂ (L.Represents config) vs ts := by
  induction h with
  | nil => exact .nil
  | cons h _ ih => exact .cons h.represents ih

theorem rounds_unique {f : Request → Reply} {p : Int} {w : Text} {u v : Value}
    (hu : Trace.Rounds f p w u) (hv : Trace.Rounds f p w v) : u = v := by
  obtain ⟨x, hx, hu⟩ := hu
  obtain ⟨y, hy, hv⟩ := hv
  obtain rfl := Except.ok.inj (hx.symm.trans hy)
  exact Except.ok.inj (hu.symm.trans hv)

/-- What a trace goes on with is a number, or has come out of an evaluation. -/
theorem known_held {w : Text} {u a : Value} (hu : L.evaluate config w = .ok u)
    (ha : u.round config.precision = .ok a) : ∀ t : Tree, IsRead config.functions t →
      (t.held a).IsNumber ∨ ∃ w, L.evaluate config w = .ok (t.held a)
  | .constant n s, ht => .inl ht.isNumber
  | .parenthesis t, ht => known_held hu ha t ht.content
  | .name _, _ | .negation _, _ | .operation .., _ | .call .., _ => by
    cases u with
    | int => exact .inl (Except.ok.inj ha ▸ trivial)
    | float => exact .inl (Value.isNumber_round ha)
    | _ =>
      obtain rfl := Except.ok.inj ha
      exact .inr ⟨w, hu⟩

theorem Keeps.carries (laws : L.Composes config) {t : Tree} (ht : IsRead config.functions t)
    (h : L.Keeps config t) (settles : ∀ {w a}, L.evaluate config t.enclosed.text = .ok w →
      w.round config.precision = .ok a → L.Settles config t (t.held a)) :
    ∃ v, L.Carries config t v := by
  obtain ⟨w, a, d, e, hw, ha, readable, hd, bare, enclosed, own⟩ := h
  have value := evaluate_congr ht.enclosed
    ((laws.parenthesis ht.enclosed own).trans own.symm) hw
  obtain ⟨only, reduces⟩ := settles value ha
  exact ⟨t.held a, reduces ⟨d, hd⟩, only, known_held hw ha t ht, readable, d, e, hd, bare, enclosed,
    own⟩

theorem Composes.operation_value (laws : L.Composes config) {op : Operator} {l r : Tree}
    {x y w : Value} {lhs rhs : Text} (hl : L.Represents config x l) (hr : L.Represents config y r)
    (hx : x.operand = .ok lhs) (hy : y.operand = .ok rhs)
    (ht : IsRead config.functions (.operation op l r))
    (hw : L.evaluate config (Tree.operation op l r).enclosed.text = .ok w) :
    L.evaluate config (lhs ++ [' ', op.sign, ' '] ++ rhs) = .ok w := by
  obtain ⟨-, l', -, -, cl, pl⟩ := hl.readable.operand hx
  obtain ⟨-, r', -, -, cr, pr⟩ := hr.readable.operand hy
  exact evaluate_congr (written_operation op cl pl cr pr).read (laws.operation hl hr hx hy ht) hw

theorem Composes.call_value (laws : L.Composes config) {f : Text} {args : List Tree}
    {xs : List Value} {ws : List Text} {w : Value} (h : List.Forall₂ (L.Represents config) xs args)
    (shown : xs.mapM Value.display = .ok ws) (ht : IsRead config.functions (.call f args))
    (hw : L.evaluate config (Tree.call f args).enclosed.text = .ok w) :
    L.evaluate config (f ++ '(' :: joinWith ", ".toList ws ++ [')']) = .ok w := by
  obtain ⟨mem, spelled, some, -⟩ := ht.arguments
  obtain ⟨ws', shown', us, written, length⟩ := exists_written h
  obtain rfl := Except.ok.inj (shown.symm.trans shown')
  have nonempty : us ≠ [] := fun none => some (List.eq_nil_of_length_eq_zero (by simp [← length, none]))
  exact evaluate_congr (written_call mem spelled written nonempty).read (laws.call h shown ht) hw

mutual

/-- **A trace of such operands goes on with the value of the whole**, rounded once. -/
theorem Composes.settles (laws : L.Composes config) : ∀ (t : Tree), IsRead config.functions t →
    (∀ s ∈ t.rewritten, L.Keeps config s) → ∀ {w a : Value},
      L.evaluate config t.enclosed.text = .ok w → w.round config.precision = .ok a →
        L.Settles config t (t.held a)
  | .constant n s, _, _, _, _, _, _ =>
    ⟨fun v h => by cases h; rfl, fun _ => .constant n s⟩
  | .name s, _, _, w, a, hw, ha => by
    rw [enclosed] at hw
    exact ⟨fun v h => by cases h with | name h => exact rounds_unique h ⟨w, hw, ha⟩,
      fun _ => .name ⟨w, hw, ha⟩⟩
  | .negation t, _, _, w, a, hw, ha => by
    rw [enclosed] at hw
    exact ⟨fun v h => by cases h with | negation h => exact rounds_unique h ⟨w, hw, ha⟩,
      fun _ => .negation ⟨w, hw, ha⟩⟩
  | .parenthesis t, ht, kept, w, a, hw, ha => by
    rw [rewritten] at kept
    rw [enclosed] at hw
    obtain ⟨only, some⟩ := laws.settles t ht.content kept hw ha
    exact ⟨fun v h => by cases h with | parenthesis h => exact only v h,
      fun shown => .parenthesis (some shown)⟩
  | .operation op l r, ht, kept, w, a, hw, ha => by
    rw [rewritten] at kept
    obtain ⟨kept, here⟩ := List.forall_mem_append.mp kept
    obtain ⟨keptl, keptr⟩ := List.forall_mem_append.mp kept
    obtain ⟨readl, readr⟩ := ht.operands
    obtain ⟨x, hl⟩ := (here l (by simp)).carries laws readl (laws.settles l readl keptl)
    obtain ⟨y, hr⟩ := (here r (by simp)).carries laws readr (laws.settles r readr keptr)
    have value {lhs rhs : Text} (hx : x.operand = .ok lhs) (hy : y.operand = .ok rhs) :=
      laws.operation_value hl.represents hr.represents hx hy ht hw
    constructor
    · intro v h
      cases h with
      | operation hxl hyr hx hy h =>
        obtain rfl := hl.only _ hxl
        obtain rfl := hr.only _ hyr
        exact rounds_unique h.1 ⟨w, value hx hy, ha⟩
    · intro shown
      obtain ⟨lhs, hx⟩ := hl.represents.exists_operand
      obtain ⟨rhs, hy⟩ := hr.represents.exists_operand
      exact .operation hl.reduces hr.reduces hx hy ⟨⟨w, value hx hy, ha⟩, shown⟩
  | .call f args, ht, kept, w, a, hw, ha => by
    rw [rewritten] at kept
    obtain ⟨kept, here⟩ := List.forall_mem_append.mp kept
    obtain ⟨-, -, -, reads⟩ := ht.arguments
    obtain ⟨xs, carried⟩ := laws.carries_arguments args reads kept here
    have represented := represents_of_carries carried
    constructor
    · intro v h
      cases h with
      | call hxs hd h =>
        obtain rfl := eq_of_reducesAll carried hxs
        exact rounds_unique h.1 ⟨w, laws.call_value represented hd ht hw, ha⟩
    · intro displayed
      obtain ⟨ws, shown, -⟩ := exists_written represented
      have value := laws.call_value represented shown ht hw
      exact .call (reducesAll_of_carries carried) shown ⟨⟨w, value, ha⟩, displayed⟩

theorem Composes.carries_arguments (laws : L.Composes config) : ∀ (ts : List Tree),
    (∀ t ∈ ts, IsRead config.functions t) → (∀ s ∈ rewrittenOfAll ts, L.Keeps config s) →
      (∀ t ∈ ts, L.Keeps config t) → ∃ vs, List.Forall₂ (L.Carries config) ts vs
  | [], _, _, _ => ⟨[], .nil⟩
  | t :: ts, read, kept, here => by
    rw [rewrittenOfAll] at kept
    obtain ⟨kept, keeps⟩ := List.forall_mem_append.mp kept
    obtain ⟨read, reads⟩ := List.forall_mem_cons.mp read
    obtain ⟨here, heres⟩ := List.forall_mem_cons.mp here
    obtain ⟨v, hv⟩ := here.carries laws read (laws.settles t read kept)
    obtain ⟨vs, hvs⟩ := laws.carries_arguments ts reads keeps heres
    exact ⟨v :: vs, .cons hv hvs⟩

end

end Library

/-! ## The last step -/

namespace Trace

variable {f : Request → Reply} {config : Config} {t : Tree}

theorem trace_steps_end {e : Text} {s s' : Session} {steps : List Step}
    (ht : Tree.read config.functions e = .ok t)
    (h : trace (.ofFunction f) config e s = (.ok steps, s')) :
    ∃ u before final, Reduces f config.precision t u ∧
      u.round config.precision = .ok final.result ∧ final.action = Action.finalEvaluation ∧
      steps = before ++ [final] := by
  simp only [trace, Engine.ofFunction_read, ht, ofTree, Run.bind_eq_ok, Run.ofExcept_eq_ok,
    Run.display_eq_ok, Run.pure_eq_ok] at h
  obtain ⟨⟨u, before⟩, s₁, hr, w, _, ⟨hw, -⟩, shown, _, ⟨-, -⟩, rfl, -⟩ := h
  exact ⟨u, before, _, (reduces_of_reduce t hr).1, hw, rfl, rfl⟩

end Trace

namespace Strategy

variable {f : Request → Reply} {config : Config} {problem canonical : Text} {s s' : Session}
  {v : Value}

theorem rounds_of_arithmetic
    (h : arithmetic (.ofFunction f) config problem canonical s = (.ok v, s')) :
    Trace.Rounds f config.precision canonical v := by
  simp only [arithmetic, Run.bind_eq_ok, Run.ofExcept_eq_ok, orInvalid_eq_ok,
    Run.ask_ofFunction_eq_ok] at h
  obtain ⟨_, _, -, _, _, -, _, _, -, w, _, ⟨hw, -⟩, hv, -⟩ := h
  exact ⟨w, hw, hv⟩

theorem arithmetic_steps_end {t : Tree} (ht : Tree.read config.functions canonical = .ok t)
    (h : arithmetic (.ofFunction f) config problem canonical s = (.ok v, s')) :
    ∃ u before final, Trace.Reduces f config.precision t u ∧
      u.round config.precision = .ok final.result ∧ final.action = Action.finalEvaluation ∧
      s'.steps = before ++ [final] := by
  simp only [arithmetic, Run.bind_eq_ok, Run.ofExcept_eq_ok, orInvalid_eq_ok,
    Run.ask_ofFunction_eq_ok] at h
  obtain ⟨_, s₁, -, steps, s₂, htr, _, s₃, told, w, _, ⟨-, rfl⟩, -, rfl⟩ := h
  obtain ⟨u, before, final, hr, hu, action, rfl⟩ := Trace.trace_steps_end ht htr
  obtain ⟨-, rfl⟩ := Prod.mk.inj told
  exact ⟨u, s₂.steps ++ before, final, hr, hu, action, (List.append_assoc _ _ _).symm⟩

end Strategy

namespace Library

variable {L : Library} {config : Config} {problem : Text}

/-- The two evaluations of a solved problem: what the trace comes to, and the answer. -/
theorem exists_arithmetic_end
    (h : (Solver.solveAs (L.engine config) config .arithmetic problem).isSolved = true) :
    ∃ t u v before final, Tree.read config.functions (Phrase.canonical problem) = .ok t ∧
      Trace.Reduces (L.answer config) config.precision t u ∧
      u.round config.precision = .ok final.result ∧ final.action = Action.finalEvaluation ∧
      (Solver.solveAs (L.engine config) config .arithmetic problem).steps = before ++ [final] ∧
      L.evaluate config (Phrase.canonical problem) = .ok v ∧ v.round config.precision =
        .ok (Solver.solveAs (L.engine config) config .arithmetic problem).answer := by
  obtain ⟨s, hs⟩ := (Solver.answer_eq_iff ((Solution.isSolved_iff _).mp h)).mp rfl
  have told : (Solver.solveAs (L.engine config) config .arithmetic problem).steps = s.steps := by
    rw [Solver.solveAs, Solver.converse, hs]
  obtain ⟨v, hv, rounded⟩ := Strategy.rounds_of_arithmetic hs
  obtain ⟨t, -, ht, -⟩ := evaluate_eq_ok_iff.mp hv
  obtain ⟨u, before, final, hr, hu, action, steps⟩ := Strategy.arithmetic_steps_end ht hs
  exact ⟨t, u, v, before, final, ht, hr, hu, action, told.trans steps, hv, rounded⟩

/-- What a trace goes on with for the whole, unless that is a lone numeral, is its value. -/
theorem Composes.held_eq (laws : L.Composes config) : ∀ (t : Tree) {w a : Value},
    IsRead config.functions t → t.isLoneNumeral = false →
      L.evaluate config t.enclosed.text = .ok w → w.round config.precision = .ok a → t.held a = a
  | .constant (.whole n) s, w, a, ht, lone, hw, ha => by
    rw [isLoneNumeral, bne_eq_false_iff_eq] at lone
    rw [lone] at ht hw
    rw [enclosed, text] at hw
    obtain rfl := laws.integer ht hw
    exact Except.ok.inj ha
  | .constant (.decimal _) _, _, _, _, lone, _, _ => by
    rw [isLoneNumeral] at lone
    exact Bool.noConfusion lone
  | .parenthesis t, w, a, ht, lone, hw, ha => by
    rw [isLoneNumeral] at lone
    rw [enclosed] at hw
    exact laws.held_eq t ht.content lone hw ha
  | .name _, _, _, _, _, _, _ | .negation _, _, _, _, _, _, _ | .operation .., _, _, _, _, _, _
  | .call .., _, _, _, _, _, _ => rfl

/-- **The narration ends in the answer.** The last step of a solved arithmetic problem is the final
evaluation. Its result is the answer if

* the library reads the problem as it reads the tree with its operands in parentheses,
* no operand of an operation and no argument of a call is changed by being rounded to three decimal
  places, written and read again,
* the problem is no lone numeral, which is rounded as a double if it is a decimal, and
* the answer is no double between `2 ^ 42` and `2 ^ 44`, which can change when it is rounded twice. -/
theorem finalEvaluation_eq_answer (L : Library) {config : Config} {problem : Text}
    (h : (Solver.solveAs (L.engine config) config .arithmetic problem).isSolved = true) :
    ∃ t before final, Tree.read config.functions (Phrase.canonical problem) = .ok t ∧
      (Solver.solveAs (L.engine config) config .arithmetic problem).steps = before ++ [final] ∧
      final.action = Action.finalEvaluation ∧
      (L.Composes config → config.precision = 3 →
        L.read (config.scope none) (Phrase.canonical problem) =
          L.read (config.scope none) t.enclosed.text →
        (∀ s ∈ t.rewritten, L.Keeps config s) → t.isLoneNumeral = false →
        (∀ x a, (Solver.solveAs (L.engine config) config .arithmetic problem).answer = .float x →
          x.value? = some a → |a| < 2 ^ 42 ∨ 2 ^ 44 ≤ |a|) →
        final.result = (Solver.solveAs (L.engine config) config .arithmetic problem).answer) := by
  obtain ⟨t, u, v, before, final, ht, hr, hu, action, steps, hv, rounded⟩ := exists_arithmetic_end h
  refine ⟨t, before, final, ht, steps, action, fun laws default alike kept lone sized => ?_⟩
  have read := isRead_of_read ht
  have value := evaluate_congr read.enclosed alike.symm hv
  obtain rfl := (laws.settles t read kept value rounded).1 u hr
  rw [laws.held_eq t read lone value rounded] at hu
  rw [default] at hu rounded
  exact Except.ok.inj (hu.symm.trans (Value.round_round rounded sized))

/-! ## Rational numbers -/

theorem Represents.rational?_eq {v : Value} {t u : Tree} {w : Text}
    (h : (rationals config.functions).Represents config v t) (hw : v.display = .ok w)
    (hu : Tree.read config.functions w = .ok u) (ht : IsRead config.functions t) :
    u.rational? = t.enclosed.rational? := by
  obtain ⟨d, e, hd, he, -, he'⟩ := h.alike
  obtain rfl := Except.ok.inj (hw.symm.trans hd)
  rw [read_rationals hu] at he
  rw [read_rationals ht.enclosed.parenthesized, rational?] at he'
  exact (Reading.expression.inj he).trans (Reading.expression.inj he').symm

/-- The text of an operand has the number of what it stands for. -/
theorem Represents.exists_operand_rational? {v : Value} {t : Tree} {w : Text}
    (h : (rationals config.functions).Represents config v t) (ht : IsRead config.functions t)
    (hw : v.operand = .ok w) : ∃ u : Tree, Cuts w u.tokens ∧
      Primary config.functions u.tokens [] u ∧ u.rational? = t.enclosed.rational? := by
  obtain ⟨u, u', ⟨d, hd, hu⟩, either, cuts, primary⟩ := h.readable.operand hw
  have same := h.rational?_eq hd hu ht
  refine ⟨u', cuts, primary, ?_⟩
  rcases either with rfl | rfl
  · exact same
  · rw [rational?, same]

/-- The library of rational numbers puts together what it reads in the parts. -/
theorem rationals_composes (config : Config) : (rationals config.functions).Composes config where
  operation := by
    intro op x y l r lhs rhs hl hr hx hy ht
    obtain ⟨l', cl, pl, left⟩ := hl.exists_operand_rational? ht.operands.1 hx
    obtain ⟨r', cr, pr, right⟩ := hr.exists_operand_rational? ht.operands.2 hy
    rw [read_rationals (written_operation op cl pl cr pr).read, read_rationals ht.enclosed, enclosed,
      rational?, rational?, rational?, rational?, left, right]
  call := by
    intro f xs args shown represented hs ht
    obtain ⟨mem, spelled, some, -⟩ := ht.arguments
    obtain ⟨ws, hws, us, written, length⟩ := exists_written represented
    obtain rfl := Except.ok.inj (hs.symm.trans hws)
    have nonempty : us ≠ [] := fun none =>
      some (List.eq_nil_of_length_eq_zero (by simp [← length, none]))
    rw [read_rationals (written_call mem spelled written nonempty).read, read_rationals ht.enclosed,
      enclosed, rational?, rational?]
  parenthesis := by
    intro t e ht he
    rw [read_rationals ht.parenthesized, rational?] at he
    rw [read_rationals ht, he]
  integer := by
    intro n v ht hv
    obtain ⟨-, e, -, he, -, hv⟩ := evaluate_eq_ok_iff.mp hv
    change (rationals config.functions).read _ (Tree.constant (.whole n) (ofNat n)).text = _ at he
    rw [read_rationals ht, rational?, Numeral.rational?, if_pos rfl] at he
    have converts : (rationals config.functions).Converts _ _ := rationals_converts
    obtain ⟨v', hv', numeric⟩ := converts.reply (q := n) (Reading.expression.inj he).symm
    obtain rfl := Except.ok.inj (hv.symm.trans hv')
    cases numeric with
    | int => rfl
    | float broken => exact absurd rfl broken

/-- Do both texts stand for the same number? -/
def sameNumber (F : List Text) (x y : Text) : Bool :=
  match Tree.read F x, Tree.read F y with
  | .ok s, .ok t => s.rational? == t.rational?
  | _, _ => false

theorem exists_of_sameNumber {x y : Text} (h : sameNumber F x y = true) (scope : Scope) :
    ∃ e, (rationals F).read scope x = .expression e ∧ (rationals F).read scope y = .expression e := by
  unfold sameNumber at h
  split at h
  next s u hs hu =>
    exact ⟨s.rational?, read_rationals hs, (eq_of_beq h).symm ▸ read_rationals hu⟩
  next => exact absurd h Bool.false_ne_true

/-- Is the operand a number that is not changed by being rounded, written and read again? -/
def keepsNumber (config : Config) (t : Tree) : Bool :=
  match (rationals config.functions).evaluate config (Tree.parenthesis t.enclosed).text with
  | .error _ => false
  | .ok w =>
    match w.round config.precision with
    | .error _ => false
    | .ok a =>
      match (t.held a).display with
      | .error _ => false
      | .ok d => decide (t.held a).IsNumber &&
          sameNumber config.functions d (Tree.parenthesis t.enclosed).text &&
          sameNumber config.functions (Value.parenthesized d) (Tree.parenthesis t.enclosed).text

theorem keeps_of_keepsNumber {t : Tree} (h : keepsNumber config t = true) :
    (rationals config.functions).Keeps config t := by
  unfold keepsNumber at h
  split at h
  · exact absurd h Bool.false_ne_true
  next w hw =>
    split at h
    · exact absurd h Bool.false_ne_true
    next a ha =>
      split at h
      · exact absurd h Bool.false_ne_true
      next d hd =>
        rw [Bool.and_eq_true, Bool.and_eq_true, decide_eq_true_iff] at h
        obtain ⟨⟨number, bare⟩, enclosed⟩ := h
        obtain ⟨e, he, own⟩ := exists_of_sameNumber bare (config.scope none)
        obtain ⟨e', he', own'⟩ := exists_of_sameNumber enclosed (config.scope none)
        obtain rfl := Reading.expression.inj (own.symm.trans own')
        exact ⟨w, a, d, e, hw, ha, number.readable hd, hd, he, he', own⟩

theorem eq_int_and {v : Value} {m : Int} {b : Bool}
    (h : ((match v with | .int n => n == m | _ => false) && b) = true) : v = .int m ∧ b = true :=
  ((Bool.and_eq_true _ _).mp h).imp_left Value.eq_int_of_check

/-- In `2*(3+4)-0.5/(1/4)` all operands are kept. -/
theorem finalEvaluation_eq_answer_mixed :
    (Solver.solveAs ((rationals Config.default.functions).engine .default) .default .arithmetic
        "2*(3+4)-0.5/(1/4)".toList).isSolved = true ∧
      ∃ (before : List Step) (final : Step),
        (Solver.solveAs ((rationals Config.default.functions).engine .default) .default .arithmetic
          "2*(3+4)-0.5/(1/4)".toList).steps = before ++ [final] ∧
        final.action = Action.finalEvaluation ∧ final.result = .int 12 ∧
        (Solver.solveAs ((rationals Config.default.functions).engine .default) .default .arithmetic
          "2*(3+4)-0.5/(1/4)".toList).answer = .int 12 := by
  obtain ⟨answer, solved⟩ : (Solver.solveAs ((rationals Config.default.functions).engine .default)
        .default .arithmetic "2*(3+4)-0.5/(1/4)".toList).answer = .int 12 ∧
      (Solver.solveAs ((rationals Config.default.functions).engine .default) .default .arithmetic
        "2*(3+4)-0.5/(1/4)".toList).isSolved = true := eq_int_and (by decide +kernel)
  obtain ⟨t, before, final, ht, steps, action, same⟩ :=
    finalEvaluation_eq_answer (rationals Config.default.functions) solved
  obtain ⟨t', ht', check⟩ := exists_ok_of_check (x := Tree.read Config.default.functions
    (Phrase.canonical "2*(3+4)-0.5/(1/4)".toList))
    (p := fun t => sameNumber Config.default.functions
        (Phrase.canonical "2*(3+4)-0.5/(1/4)".toList) t.enclosed.text &&
      t.rewritten.all (keepsNumber .default) && !t.isLoneNumeral) (by decide +kernel)
  obtain rfl := Except.ok.inj (ht.symm.trans ht')
  obtain ⟨check, lone⟩ := (Bool.and_eq_true _ _).mp check
  obtain ⟨alike, kept⟩ := (Bool.and_eq_true _ _).mp check
  obtain ⟨e, he, he'⟩ := exists_of_sameNumber alike (Config.default.scope none)
  have alike := he.trans he'.symm
  have kept : ∀ s ∈ t.rewritten, (rationals Config.default.functions).Keeps .default s :=
    fun s hs => keeps_of_keepsNumber (List.all_eq_true.mp kept s hs)
  have lone : t.isLoneNumeral = false := by simpa using lone
  have laws := rationals_composes .default
  have default : Config.default.precision = 3 := rfl
  rw [answer] at same
  have result := same laws default alike kept lone fun _ _ h => Value.noConfusion h
  exact ⟨solved, before, final, steps, action, result, answer⟩

end Library

/-! ## What is lost on the way -/

/-- The problem is solved, but another text is shown for its last step than for its answer. -/
def Library.Disagrees (L : Library) (config : Config) (problem last answer : Text) : Prop :=
  last ≠ answer ∧ ∃ before final,
    (Solver.solveAs (L.engine config) config .arithmetic problem).steps = before ++ [final] ∧
    final.action = Action.finalEvaluation ∧ final.result.display = .ok last ∧
    (Solver.solveAs (L.engine config) config .arithmetic problem).isSolved = true ∧
    (Solver.solveAs (L.engine config) config .arithmetic problem).answer.display = .ok answer

namespace Algebra

/-- Does the solution end with the final evaluation, with these two texts? -/
def endsWith (s : Solution) (last answer : Text) : Bool :=
  last != answer && s.isSolved && s.answer.display.toOption == some answer &&
    s.steps.getLast?.any fun step =>
      step.action == Action.finalEvaluation && step.result.display.toOption == some last

theorem toOption_eq_some {r : Except Fault Text} {t : Text} (h : r.toOption = some t) :
    r = .ok t := by
  cases r with
  | error => exact absurd h (by simp [Except.toOption])
  | ok => exact congrArg _ (Option.some.inj h)

theorem disagrees_of_endsWith {config : Config} {problem last answer : Text}
    (h : endsWith (Solver.solveAs (library.engine config) config .arithmetic problem) last answer =
      true) : library.Disagrees config problem last answer := by
  obtain ⟨⟨⟨differ, solved⟩, shown⟩, ends⟩ := by
    simpa only [endsWith, Bool.and_eq_true] using h
  obtain ⟨final, hf, check⟩ := (Option.any_eq_true _ _).mp ends
  obtain ⟨before, steps⟩ := List.getLast?_eq_some_iff.mp hf
  obtain ⟨action, result⟩ := (Bool.and_eq_true _ _).mp check
  exact ⟨bne_iff_ne.mp differ, before, final, steps, eq_of_beq action,
    toOption_eq_some (eq_of_beq result), solved, toOption_eq_some (eq_of_beq shown)⟩

/-- The last step is not the answer of `(1/3)*3`, as a third is rounded; of `0.0425`, which is no
double; of `007`, which the library reads as a product; and of a double that has no thousandths,
which is rounded twice. -/
theorem finalEvaluation_ne_answer :
    library.Disagrees .default "(1/3)*3".toList "0.999".toList "1".toList ∧
      library.Disagrees .default "0.0425".toList "0.043".toList "0.042".toList ∧
      library.Disagrees .default "007".toList "7".toList "0".toList ∧
      library.Disagrees .default "4398046511104021/1000".toList "4398046511104.023".toList
        "4398046511104.022".toList :=
  ⟨disagrees_of_endsWith (by decide +kernel), disagrees_of_endsWith (by decide +kernel),
    disagrees_of_endsWith (by decide +kernel), disagrees_of_endsWith (by decide +kernel)⟩

end Algebra

end Stepwise
