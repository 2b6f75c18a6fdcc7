import Stepwise.Proofs.Asked
import Stepwise.Proofs.OtherCalls

/-!
# Names of calls in capitals

What kind of problem a text is does not depend on case, and what is asked of an engine does: a call is
only read if its name is in small letters. A call with a capital in its name is not the call of its kind.
An integral or a limit is then refused; a derivative is looked for in the arguments, and if there is
none, the whole text is taken for the function.

Results: `classify_callText`, the kind of a call; `asked_spelling_iff`, the exact condition under which
the case of the name does not matter; and `asked_capitals`, an integral that is not read.
-/

namespace Stepwise

open Text Pattern Phrase Stepwise.Bracket

namespace Pattern

variable {α : Type} {p : Option Char → Pattern α} {t : Text}

theorem occurs_eq_false (h : ∀ last, Nowhere (p last) t) : occurs p t = false := by
  rw [occurs, find?, findFrom_of_nowhere h]
  rfl

theorem occurs_of_front (h : (p none).best? t ≠ none) : occurs p t = true := by
  obtain ⟨x, hx⟩ := Option.ne_none_iff_exists'.mp h
  cases t with
  | nil => simp [occurs, find?, findFrom, hx]
  | cons c cs => simp [occurs, find?, findFrom, hx]

end Pattern

namespace ProblemKind

variable {w : Text} {args : List Text}

/-! ## The kind of a call -/

theorem lowerText_of_letters (h : w.all isLetter = true) : lowerText w = w.map Char.toLower := by
  rw [lowerText, List.map_eq_flatMap]
  exact List.flatMap_congr fun c hc => lower_of_isLetter (List.all_eq_true.mp h c hc)

theorem lowerText_of_small (h : ∀ c ∈ w, lower c = [c]) : lowerText w = w := by
  rw [lowerText, List.flatMap_congr h, ← List.map_eq_flatMap, List.map_id']

/-- The lower case of a call is the call with the name in small letters. -/
theorem lowerText_callText (hw : IsCallName w) (ha : ∀ a ∈ args, CallArgument a) :
    lowerText (callText w args) = callText (w.map Char.toLower) args := by
  have small : ∀ c ∈ expressionChars, lower c = [c] := forall_mem_of_all (by decide)
  have marks : ∀ c ∈ separators, lower c = [c] := forall_mem_of_all (by decide)
  have hjoin : ∀ c ∈ '(' :: (joinWith [','] args ++ [')']), lower c = [c] := by
    intro c hc
    have hc : c ∈ callText [] args := by rwa [callText_eq]
    rcases mem_callText hc with h | h | ⟨a, h, hc⟩
    · exact absurd h List.not_mem_nil
    · exact marks c h
    · exact small c ((ha a h).chars c hc)
  rw [callText_eq, callText_eq, ← lowerText_of_letters hw.letters]
  conv_rhs => rw [← lowerText_of_small hjoin]
  exact List.flatMap_append

theorem classify_congr {s t : Text} (h : lowerText s = lowerText t) : classify s = classify t := by
  rw [classify, classify, h]

theorem classify_callText (hw : IsCallName w) (ha : ∀ a ∈ args, CallArgument a) :
    classify (callText w args) = classify (callText (w.map Char.toLower) args) := by
  refine classify_congr ?_
  rw [lowerText_callText hw ha, lowerText_callText (isCallName_of_mem hw) ha,
    map_toLower_of_mem_callNames _ hw]

theorem best?_callOf (name r : Text) :
    (callOf name none).best? (name ++ '(' :: r) = some ((), r) := by
  refine best?_bind (best?_of_eq rfl) (best?_bind (best?_of_eq (literal_append name _)) ?_)
  exact best?_bind (best?_of_eq (many_stop (by decide) _)) (best?_of_eq rfl)

theorem occurs_callOf (name : Text) (args : List Text) :
    occurs (callOf name) (callText name args) = true :=
  occurs_of_front (by rw [callText_eq, best?_callOf]; exact Option.some_ne_none _)

section Small

variable {name : Text} (ha : ∀ a ∈ args, CallArgument a)
include ha

/-- The kind of a call whose name is in small letters is read off the call itself. -/
theorem classify_small (hn : name ∈ callNames) {t : Text} (ht : callText name args = t) :
    classify t =
      if marks .integration t then .integration
      else if marks .differentiation t then .differentiation
      else if marks .limit t then .limit
      else if marks .algebra t then .algebra
      else .arithmetic := by
  rw [classify, ← ht, lowerText_callText (isCallName_of_mem hn) ha,
    map_toLower_of_mem_callNames name hn, ht, ranking]
  simp only [List.find?_cons, List.find?_nil]
  cases marks .integration t <;> cases marks .differentiation t <;> cases marks .limit t <;>
    cases marks .algebra t <;> rfl

theorem classify_integral (hn : name ∈ ["int".toList, integralName]) :
    classify (callText name args) = .integration := by
  have hmarks : marks .integration (callText name args) = true := by
    simp only [List.mem_cons, List.not_mem_nil, or_false] at hn
    rcases hn with rfl | rfl
    · rw [marks, occurs_callOf, Bool.or_true, Bool.true_or]
    · have : holds integralName (callText integralName args) = true :=
        holds_eq_true_iff.mpr ⟨[], _, (callText_eq integralName args).symm⟩
      rw [marks, show holds "integrate".toList (callText integralName args) = true from this,
        Bool.true_or, Bool.true_or, Bool.true_or]
  have hnames : ∀ k ∈ ["int".toList, integralName], k ∈ callNames := by decide
  rw [classify_small ha (hnames name hn) rfl, if_pos hmarks]

theorem not_marks_integration (hn : name ∈ [derivativeName, limitName, "lim".toList]) :
    marks .integration (callText name args) = false := by
  have names : ∀ k ∈ [derivativeName, limitName, "lim".toList], ¬"int".toList <:+: k ∧ '∫' ∉ k := by
    decide
  have hint : ¬"int".toList <:+: callText name args := fun h => by
    rcases infix_callText (forall_mem_of_all (by decide)) (by decide) h with h | ⟨a, haa, h⟩
    · exact (names name hn).1 h
    · exact (ha a haa).noInt h
  have hsign : '∫' ∉ callText name args := fun h => by
    rcases mem_callText h with h | h | ⟨a, haa, h⟩
    · exact (names name hn).2 h
    · exact absurd h (by decide)
    · exact absurd ((ha a haa).chars _ h) (by decide)
  have hholds : ∀ {k : Text}, "int".toList <+: k → holds k (callText name args) = false := by
    intro k hk
    refine Bool.eq_false_iff.mpr fun h => hint (hk.isInfix.trans (holds_eq_true_iff.mp h))
  have hcall : occurs (callOf "int".toList) (callText name args) = false := by
    refine occurs_eq_false fun last s hs => List.eq_nil_iff_forall_not_mem.mpr ?_
    rintro ⟨x, r⟩ hr
    simp only [callOf, mem_bind, mem_guard, mem_literal] at hr
    obtain ⟨_, _, ⟨rfl, -⟩, _, y, rfl, -⟩ := hr
    exact hint (List.IsInfix.trans ⟨[], y, by simp⟩ hs.isInfix)
  have hmark : holds ['∫'] (callText name args) = false :=
    Bool.eq_false_iff.mpr fun h =>
      hsign ((List.singleton_infix_iff _ _).mp (holds_eq_true_iff.mp h))
  rw [marks, hholds (by decide : _ <+: "integrate".toList), hmark, hcall,
    hholds (by decide : _ <+: "integral".toList)]
  rfl

theorem classify_derivative : classify (callText derivativeName args) = .differentiation := by
  have hmarks : marks .differentiation (callText derivativeName args) = true := by
    rw [marks, show occurs (callOf "diff".toList) (callText derivativeName args) = true from
      occurs_callOf derivativeName args, Bool.or_true]
  rw [classify_small ha (by decide) rfl, not_marks_integration ha (by decide),
    if_neg Bool.false_ne_true, if_pos hmarks]

theorem classify_limit (hn : name ∈ Question.limitNames) :
    classify (callText name args) = .differentiation ∨ classify (callText name args) = .limit := by
  have hmarks : marks .limit (callText name args) = true := by
    simp only [Question.limitNames, List.mem_cons, List.not_mem_nil, or_false] at hn
    rw [marks, Bool.or_eq_true]
    rcases hn with rfl | rfl
    · exact .inl (holds_eq_true_iff.mpr ⟨[], _, (callText_eq limitName args).symm⟩)
    · refine .inr (occurs_of_front ?_)
      have : (limMark none).best? ("lim".toList ++ '(' :: (joinWith [','] args ++ [')'])) =
          some ((), '(' :: (joinWith [','] args ++ [')'])) :=
        best?_bind (best?_of_eq rfl)
          (best?_bind (best?_of_eq (literal_append "lim".toList _)) (best?_of_eq rfl))
      rw [callText_eq, this]
      exact Option.some_ne_none _
  have hnames : ∀ k ∈ Question.limitNames, k ∈ callNames ∧
      k ∈ [derivativeName, limitName, "lim".toList] := by decide
  rw [classify_small ha (hnames name hn).1 rfl, not_marks_integration ha (hnames name hn).2,
    if_neg Bool.false_ne_true, if_pos hmarks]
  exact ite_eq_or_eq _ _ _

end Small

end ProblemKind

namespace Question

variable {w name : Text} {args b : List Text} {config : Config} {invalid : Fault}

/-! ## Arguments that are refused -/

/-- The arguments of a derivative or an integral are refused: the first one is empty, or there are
more than two. -/
def Refused (args : List Text) : Prop := args.head? = some [] ∨ 2 < args.length

theorem variableOf_cases (config : Config) (x : Option Text) :
    (∃ v, variableOf config x = .ok v) ∨ ∃ t, variableOf config x = .error (.invalidVariable t) := by
  unfold variableOf
  split
  · exact .inl ⟨_, rfl⟩
  · exact .inl ⟨_, rfl⟩
  · split
    · exact .inl ⟨_, rfl⟩
    · exact .inr ⟨_, rfl⟩
  · exact .inr ⟨_, rfl⟩

theorem length_of_variableOf {x v : Text} (h : variableOf config (some x) = .ok v) :
    x.length ≤ 1 := by
  unfold variableOf at h
  split at h
  next he => exact absurd he (by simp)
  next he => rw [Option.some.inj he]; exact Nat.zero_le 1
  next he => rw [Option.some.inj he]; exact Nat.le_refl 1
  next => exact absurd h (by simp)

/-- What becomes of the arguments: they are refused, or a function is read with its variable, unless
that is none. -/
theorem ofArguments_cases (config : Config) (invalid : Fault) (hne : args ≠ []) :
    (Refused args ∧ ofArguments config invalid args = .error invalid) ∨
      ∃ body x, ¬Refused args ∧ body ∈ args ∧ (∀ a ∈ args, a = body ∨ some a = x) ∧
        ofArguments config invalid args = (variableOf config x).map fun v => (body, v) := by
  unfold Refused
  match args with
  | [] => exact absurd rfl hne
  | [[]] => exact .inl ⟨.inl rfl, rfl⟩
  | [[], _] => exact .inl ⟨.inl rfl, rfl⟩
  | [c :: cs] => exact .inr ⟨c :: cs, none, by simp, by simp, by simp, rfl⟩
  | [c :: cs, x] =>
    refine .inr ⟨c :: cs, some x, by simp, by simp, by simp, ?_⟩
    have he : ofArguments config invalid [c :: cs, x] =
        (do return (c :: cs, ← variableOf config (some x))) := rfl
    rw [he]
    cases variableOf config (some x) <;> rfl
  | [] :: _ :: _ :: _ => exact .inl ⟨.inl rfl, rfl⟩
  | (c :: cs) :: _ :: _ :: _ => exact .inl ⟨.inr (by simp), rfl⟩

theorem ofArguments_eq_invalid_iff (hi : ∀ x, invalid ≠ .invalidVariable x) (hne : args ≠ []) :
    ofArguments config invalid args = .error invalid ↔ Refused args := by
  rcases ofArguments_cases config invalid hne with ⟨hr, he⟩ | ⟨body, x, hr, -, -, he⟩
  · exact iff_of_true he hr
  · refine iff_of_false (fun h => ?_) hr
    rw [he] at h
    rcases variableOf_cases config x with ⟨v, hv⟩ | ⟨t, ht⟩
    · rw [hv] at h
      exact absurd h (by simp [Except.map])
    · rw [ht] at h
      exact hi t (Except.error.inj h).symm

/-- A function that is read is an argument, and the others are short. -/
theorem of_ofArguments_eq_ok {body v : Text} (hne : args ≠ [])
    (h : ofArguments config invalid args = .ok (body, v)) :
    body ∈ args ∧ ∀ a ∈ args, a = body ∨ a.length ≤ 1 := by
  rcases ofArguments_cases config invalid hne with ⟨-, he⟩ | ⟨body', x, -, hb, hx, he⟩
  · rw [he] at h
    exact absurd h (by simp)
  · rw [he] at h
    rcases variableOf_cases config x with ⟨u, hu⟩ | ⟨t, ht⟩
    · rw [hu] at h
      obtain ⟨rfl, -⟩ := Prod.mk.inj (Except.ok.inj h)
      refine ⟨hb, fun a haa => (hx a haa).imp_right fun hxa => ?_⟩
      exact length_of_variableOf (hxa ▸ hu)
    · rw [ht] at h
      exact absurd h (by simp [Except.map])

/-! ## A call with its own name -/

section Call

variable (hne : args ≠ []) (ha : ∀ a ∈ args, CallArgument a)
include hne ha

theorem callArguments_callText_self {names : List Text} (hnames : ∀ k ∈ names, k.all isLetter = true)
    (hn : name ∈ names) (h : name ≠ []) : callArguments names (callText name args) = some args := by
  have htrim : args.map trim = args := (List.map_congr_left fun a haa =>
    (ha a haa).blankless.trim_eq).trans (List.map_id' args)
  rw [callArguments_callText_of_mem hnames hn, callArguments_callText (s := name) rfl h hne
    (fun a haa => (ha a haa).balanced) (fun a haa => (ha a haa).noBareComma), htrim]

theorem derivative_callText_self : derivative config (callText derivativeName args) =
    ofArguments config .invalidDifferentiation args := by
  rw [derivative, callArguments_callText_self hne ha (by decide) List.mem_cons_self (by decide)]

theorem integral_callText_self : integral config (callText integralName args) =
    ofArguments config .invalidIntegration args := by
  rw [integral, callArguments_callText_self hne ha (by decide) List.mem_cons_self (by decide)]

theorem limit_callText_eq_invalid_iff (hn : name ∈ limitNames) :
    limit config (callText name args) = .error .invalidLimit ↔
      [] ∈ args ∨ args.length ≠ 2 ∧ args.length ≠ 3 := by
  have letters : ∀ k ∈ limitNames, k.all isLetter = true ∧ k ≠ [] := by decide
  have hempty : args.any List.isEmpty = true ↔ [] ∈ args := by
    simp only [List.any_eq_true, List.isEmpty_iff, exists_eq_right]
  rw [limit, callArguments_callText_self hne ha (fun k hk => (letters k hk).1) hn (letters name hn).2]
  dsimp only
  split
  next h => exact iff_of_true rfl (.inl (hempty.mp h))
  next h =>
    have h := mt hempty.mpr h
    split
    · exact iff_of_false (by simp) (by simpa using h)
    next x _ _ =>
      refine iff_of_false ?_ (by simpa using h)
      rcases variableOf_cases config (some x) with ⟨v, hv⟩ | ⟨t, ht⟩
      · rw [hv]
        exact fun h => absurd h (by simp [bind, Except.bind, pure, Except.pure])
      · rw [ht]
        exact fun h => absurd h (by simp [bind, Except.bind])
    next h₂ h₃ =>
      refine iff_of_true rfl (.inr ⟨fun hl => ?_, fun hl => ?_⟩)
      · obtain ⟨e, t, rfl⟩ := List.length_eq_two.mp hl
        exact h₂ e t rfl
      · obtain ⟨e, x, t, rfl⟩ := List.length_eq_three.mp hl
        exact h₃ e x t rfl

end Call

/-! ## A call with another name -/

section Other

variable (hw : IsCallName w) (ha : ∀ a ∈ args, CallArgument a)
include hw ha

theorem callArguments_other {names : List Text} (hnames : ∀ k ∈ names, k.all isLetter = true)
    (hn : w ∉ names) :
    callArguments names (callText w args) = args.findSome? (callArguments names) :=
  callArguments_callText_other hnames hw.letters hw.ne_nil hn fun a haa => (ha a haa).balanced

omit hw ha in
/-- No call is found in arguments that do not have its name. -/
theorem findSome?_eq_none {names : List Text} {k : Text} (hk : ∀ n ∈ names, k <+: n)
    (h : ∀ a ∈ args, ¬k <:+: a) : args.findSome? (callArguments names) = none := by
  refine List.findSome?_eq_none_iff.mpr fun a haa => ?_
  cases hfirst : firstCall? names false a with
  | none =>
    rw [callArguments, hfirst]
    rfl
  | some x =>
    obtain ⟨u, n, hn, he, -⟩ := exists_of_firstCall? hfirst
    obtain ⟨v, hv⟩ := hk n hn
    exact absurd ⟨u, v ++ '(' :: x, by rw [he, ← hv]; simp⟩ (h a haa)

theorem integral_callText_other (hn : w ≠ integralName) :
    integral config (callText w args) = .error .invalidIntegration := by
  have hfind : find? (fun _ => signed) (callText w args) = none :=
    find?_of_nowhere ((nowhere_literal (sign_not_mem_callText hw ha)).bind _)
  rw [integral, callArguments_other hw ha (by decide) (by simpa using hn),
    findSome?_eq_none (k := "int".toList) (by decide) fun a haa => (ha a haa).noInt]
  dsimp only
  rw [hfind]

theorem limit_callText_other (hn : w ∉ limitNames) :
    limit config (callText w args) = .error .invalidLimit := by
  rw [limit, callArguments_other hw ha (by decide) hn,
    findSome?_eq_none (k := "lim".toList) (by decide) fun a haa => (ha a haa).noLim]

/-- Without a derivative in the arguments the whole text is taken for the function. -/
theorem derivative_callText_other (hn : w ≠ derivativeName) :
    derivative config (callText w args) =
      match args.findSome? (callArguments [derivativeName]) with
      | some b => ofArguments config .invalidDifferentiation b
      | none => .ok (callText w args, config.defaultVariable) := by
  obtain ⟨c, cs, hc⟩ := List.exists_cons_of_ne_nil hw.ne_nil
  have hunwrapped : unwrapped (callText w args) = callText w args := by
    have hhead : isWrapped (callText w args) = false := by
      have hb : c ≠ '(' := fun he => bracket_not_mem hw.letters (by rw [hc, he]; exact List.mem_cons_self)
      rw [callText_eq, hc]
      simp [isWrapped, hb]
    rw [unwrapped, hhead]
    rfl
  rw [derivative, callArguments_other hw ha (by decide) (by simpa using hn)]
  cases args.findSome? (callArguments [derivativeName]) with
  | some b => rfl
  | none =>
    dsimp only
    rw [find?_operator_callText hw ha, Option.map_none, variableOf_none]
    dsimp only
    rw [hunwrapped]
    have hne : callText w args ≠ [] := by
      rw [callText_eq, hc]
      exact List.cons_ne_nil _ _
    obtain ⟨d, ds, hd⟩ := List.exists_cons_of_ne_nil hne
    rw [hd]
    rfl

omit hw in
/-- The derivative that is found in an argument has one argument, which is shorter. -/
theorem exists_of_findSome?_derivative
    (h : args.findSome? (callArguments [derivativeName]) = some b) :
    ∃ body, b = [body] ∧ ∃ a ∈ args, body.length + 2 < a.length := by
  obtain ⟨a, haa, h⟩ := List.exists_of_findSome?_eq_some h
  cases hfirst : firstCall? [derivativeName] false a with
  | none =>
    rw [callArguments, hfirst] at h
    exact absurd h (by simp)
  | some x =>
    obtain ⟨u, name, hname, he, -⟩ := exists_of_firstCall? hfirst
    cases hbody : enclosed 0 x with
    | none =>
      rw [callArguments, hfirst] at h
      simp only [Option.bind_eq_bind, Option.bind_some, hbody, Option.bind_none] at h
      exact absurd h (by simp)
    | some body =>
      obtain ⟨r, hr⟩ := exists_of_enclosed hbody
      have hsub : ∀ c ∈ body, c ∈ a := fun c hc => by
        rw [he, hr]
        simp [hc]
      have hpieces : pieces 0 body = [body] :=
        pieces_of_not_mem 0 fun hm => (ha a haa).noComma (hsub _ hm)
      have htrim : trim body = body :=
        Blankless.trim_eq fun c hc => (ha a haa).blankless c (hsub c hc)
      rw [callArguments, hfirst] at h
      simp only [Option.bind_eq_bind, Option.bind_some, hbody, splitArguments, hpieces,
        List.map_cons, List.map_nil, htrim] at h
      refine ⟨body, (Option.some.inj h).symm, a, haa, ?_⟩
      have hlen : name.length = 4 := by
        rw [List.mem_singleton.mp hname]
        rfl
      rw [he, hr]
      simp only [List.length_append, List.length_cons]
      omega

end Other

/-! ## The exact condition -/

/-- The arguments of the first derivative that stands in one of the arguments. -/
def innerDerivative (args : List Text) : Option (List Text) :=
  (args.map plain).findSome? (callArguments [derivativeName])

/-- The case of the name does not matter. -/
@[mk_iff]
inductive CaseIgnored (args : List Text) : Text → Prop
  /-- The integral is refused in every case. -/
  | integral {name : Text} (hn : name ∈ ["int".toList, integralName]) (h : Refused args) :
    CaseIgnored args name
  /-- The derivative is refused, and so is the one that is found in its arguments. -/
  | derivative (h : Refused args) (hi : innerDerivative args = some [[]]) :
    CaseIgnored args derivativeName
  /-- The limit is refused in every case. -/
  | limit {name : Text} (hn : name ∈ limitNames)
    (hk : ProblemKind.classify (callText name args) = .limit)
    (h : [] ∈ args ∨ args.length ≠ 2 ∧ args.length ≠ 3) : CaseIgnored args name
  /-- What passes for a derivative has one in its arguments. -/
  | inner {name : Text} (hn : name ∈ limitNames)
    (hk : ProblemKind.classify (callText name args) = .differentiation)
    (hi : innerDerivative args ≠ none) : CaseIgnored args name

theorem callArgument_map_plain (ha : ∀ a ∈ args, CallArgument a) :
    ∀ a ∈ args.map plain, CallArgument a :=
  List.forall_mem_map.mpr fun a haa => (ha a haa).plain

theorem refused_map_plain (ha : ∀ a ∈ args, CallArgument a) :
    Refused (args.map plain) ↔ Refused args := by
  unfold Refused
  rw [List.length_map, List.head?_map]
  refine or_congr_left ?_
  cases args with
  | nil => exact Iff.rfl
  | cons a rest =>
    simpa using (ha a List.mem_cons_self).plain_eq_nil_iff

theorem nil_mem_map_plain (ha : ∀ a ∈ args, CallArgument a) : [] ∈ args.map plain ↔ [] ∈ args := by
  rw [List.mem_map]
  constructor
  · rintro ⟨a, haa, he⟩
    rwa [((ha a haa).plain_eq_nil_iff.mp he)] at haa
  · exact fun h => ⟨[], h, rfl⟩

theorem length_le_joinWith : ∀ {args : List Text} {a : Text}, a ∈ args →
    a.length ≤ (joinWith [','] args).length
  | [b], a, h => by rw [List.mem_singleton.mp h]; exact Nat.le_refl _
  | b :: c :: rest, a, h => by
    rw [joinWith, List.length_append, List.length_append]
    rcases List.mem_cons.mp h with rfl | h
    · omega
    · have := length_le_joinWith h
      omega

theorem length_lt_callText {a : Text} (h : a ∈ args) (w : Text) :
    a.length < (callText w args).length := by
  have := length_le_joinWith h
  rw [callText_eq, List.length_append, List.length_cons, List.length_append, List.length_singleton]
  omega

section Capitals

variable (hw : IsCallName w) (hcase : w ≠ w.map Char.toLower) (hne : args ≠ [])
  (ha : ∀ a ∈ args, CallArgument a)
include hw hcase

omit hw in
theorem not_mem_of_capitals {names : List Text} (h : ∀ k ∈ names, k ∈ callNames) : w ∉ names :=
  fun hm => hcase (map_toLower_of_mem_callNames w (h w hm)).symm

omit hw in
theorem longName_of_capitals : longName w = w := by
  refine if_neg ?_
  rintro rfl
  exact hcase (by decide)

include ha

/-- Only its name tells the canonical form of the call from that of the call in small letters. -/
theorem canonical_of_capitals :
    canonical (callText w args) = callText w (args.map plain) ∧
      canonical (callText (w.map Char.toLower) args) =
        callText (longName (w.map Char.toLower)) (args.map plain) := by
  rw [canonical_callText hw ha, canonical_callText (isCallName_of_mem hw) ha,
    longName_of_capitals hcase]
  exact ⟨rfl, rfl⟩

include hne

theorem integral_capitals_iff (hn : w.map Char.toLower ∈ ["int".toList, integralName]) :
    integral config (canonical (callText w args)) =
        integral config (canonical (callText (w.map Char.toLower) args)) ↔ Refused args := by
  have hlong : ∀ k ∈ ["int".toList, integralName], longName k = integralName := by decide
  have hplain := callArgument_map_plain ha
  have hw' : w ≠ integralName := fun h =>
    not_mem_of_capitals hcase (fun _ hk => hk) (h ▸ by decide)
  obtain ⟨hcapitals, hsmall⟩ := canonical_of_capitals hw hcase ha
  rw [hcapitals, hsmall, hlong _ hn, integral_callText_other hw hplain hw',
    integral_callText_self (by simpa using hne) hplain, eq_comm,
    ofArguments_eq_invalid_iff (by simp) (by simpa using hne), refused_map_plain ha]

theorem limit_capitals_iff (hn : w.map Char.toLower ∈ limitNames) :
    limit config (canonical (callText w args)) =
        limit config (canonical (callText (w.map Char.toLower) args)) ↔
      [] ∈ args ∨ args.length ≠ 2 ∧ args.length ≠ 3 := by
  have hlong : ∀ k ∈ limitNames, longName k = k := by decide
  have hplain := callArgument_map_plain ha
  have hw' : w ∉ limitNames := not_mem_of_capitals hcase (by decide)
  obtain ⟨hcapitals, hsmall⟩ := canonical_of_capitals hw hcase ha
  rw [hcapitals, hsmall, hlong _ hn, limit_callText_other hw hplain hw', eq_comm,
    limit_callText_eq_invalid_iff (by simpa using hne) hplain hn, nil_mem_map_plain ha,
    List.length_map]

theorem derivative_capitals_iff (hn : w.map Char.toLower = derivativeName) :
    derivative config (canonical (callText w args)) =
        derivative config (canonical (callText (w.map Char.toLower) args)) ↔
      Refused args ∧ innerDerivative args = some [[]] := by
  have hplain := callArgument_map_plain ha
  have hne' : args.map plain ≠ [] := by simpa using hne
  have hw' : w ≠ derivativeName := fun h =>
    not_mem_of_capitals hcase (fun _ hk => hk) (h ▸ by decide)
  have hlong : longName derivativeName = derivativeName := by decide
  obtain ⟨hcapitals, hsmall⟩ := canonical_of_capitals hw hcase ha
  rw [hcapitals, hsmall, hn, hlong, derivative_callText_other hw hplain hw',
    derivative_callText_self hne' hplain, ← refused_map_plain ha]
  unfold innerDerivative
  cases hi : (args.map plain).findSome? (callArguments [derivativeName]) with
  | none =>
    -- The whole text is longer than every argument.
    refine iff_of_false (fun h => ?_) (by simp)
    obtain ⟨hm, -⟩ := of_ofArguments_eq_ok hne' h.symm
    exact Nat.lt_irrefl _ (length_lt_callText hm w)
  | some b =>
    obtain ⟨body, rfl, a, haa, hlen⟩ := exists_of_findSome?_derivative hplain hi
    cases body with
    | nil =>
      have hinvalid : ofArguments config .invalidDifferentiation [[]] =
          .error .invalidDifferentiation := rfl
      dsimp only
      rw [hinvalid, eq_comm, ofArguments_eq_invalid_iff (by simp) hne', and_iff_left rfl]
    | cons c cs =>
      refine iff_of_false (fun h => ?_) (by simp)
      -- What is found is shorter than an argument that is no variable.
      have hfound : ofArguments config .invalidDifferentiation [c :: cs] =
          .ok (c :: cs, config.defaultVariable) := rfl
      dsimp only at h
      rw [hfound] at h
      rcases (of_ofArguments_eq_ok hne' h.symm).2 a haa with rfl | hshort
      · omega
      · omega

omit hne in
/-- What is asked about a limit that passes for a derivative. -/
theorem derivative_limit_capitals_iff (hn : w.map Char.toLower ∈ limitNames) :
    derivative config (canonical (callText w args)) =
        derivative config (canonical (callText (w.map Char.toLower) args)) ↔
      innerDerivative args ≠ none := by
  have names : ∀ k ∈ limitNames, k ∈ callNames ∧ k ≠ derivativeName ∧ longName k = k := by decide
  obtain ⟨hmem, hother, hlong⟩ := names _ hn
  have hplain := callArgument_map_plain ha
  have hw' : w ≠ derivativeName := fun h =>
    not_mem_of_capitals hcase (fun _ hk => hk) (h ▸ by decide)
  obtain ⟨hcapitals, hsmall⟩ := canonical_of_capitals hw hcase ha
  rw [hcapitals, hsmall, hlong, derivative_callText_other hw hplain hw',
    derivative_callText_other (isCallName_of_mem hmem) hplain hother, innerDerivative]
  cases (args.map plain).findSome? (callArguments [derivativeName]) with
  | some b => exact iff_of_true rfl (by simp)
  | none =>
    refine iff_of_false (fun h => hcase ?_) (by simp)
    have htext := (Prod.mk.inj (Except.ok.inj h)).1
    rw [callText_eq, callText_eq] at htext
    exact List.append_cancel_right htext

end Capitals

/-! ## The exact condition -/

theorem names_cases : ∀ k ∈ callNames,
    k ∈ ["int".toList, integralName] ∧ k ≠ derivativeName ∧ k ∉ limitNames ∨
      k = derivativeName ∧ k ∉ ["int".toList, integralName] ∧ k ∉ limitNames ∨
      k ∈ limitNames ∧ k ∉ ["int".toList, integralName] ∧ k ≠ derivativeName := by decide

theorem asked_ne_none (hn : name ∈ callNames) (ha : ∀ a ∈ args, CallArgument a) :
    asked config (callText name args) ≠ none := by
  unfold asked
  rcases names_cases name hn with ⟨hn, -⟩ | ⟨rfl, -⟩ | ⟨hn, -⟩
  · simp [ProblemKind.classify_integral ha hn]
  · simp [ProblemKind.classify_derivative ha]
  · rcases ProblemKind.classify_limit ha hn with h | h <;> simp [h]

/-- What is asked about a call whose name has a capital in it. -/
theorem asked_capitals_iff (hw : IsCallName w) (hcase : w ≠ w.map Char.toLower) (hne : args ≠ [])
    (ha : ∀ a ∈ args, CallArgument a) :
    asked config (callText w args) = asked config (callText (w.map Char.toLower) args) ↔
      CaseIgnored args (w.map Char.toLower) := by
  have hkind := ProblemKind.classify_callText hw ha
  rw [caseIgnored_iff]
  rcases names_cases _ hw with ⟨hi, hd, hl⟩ | ⟨hd, hi, hl⟩ | ⟨hl, hi, hd⟩
  · have hsmall := ProblemKind.classify_integral ha hi
    rw [asked_eq_iff_integral (hkind.trans hsmall) hsmall,
      integral_capitals_iff hw hcase hne ha hi]
    simp only [hi, hd, hl, true_and, false_and, and_false, or_false]
  · have hsmall : ProblemKind.classify (callText (w.map Char.toLower) args) = .differentiation :=
      hd.symm ▸ ProblemKind.classify_derivative ha
    rw [hd] at hi hl
    rw [asked_eq_iff_derivative (hkind.trans hsmall) hsmall,
      derivative_capitals_iff hw hcase hne ha hd]
    simp only [hi, hl, hd, false_and, or_false, false_or, and_true]
  · rcases ProblemKind.classify_limit ha hl with hsmall | hsmall
    · rw [asked_eq_iff_derivative (hkind.trans hsmall) hsmall,
        derivative_limit_capitals_iff hw hcase ha hl]
      simp only [hi, hl, hd, hsmall, reduceCtorEq, false_and, and_false, false_or, true_and]
    · rw [asked_eq_iff_limit (hkind.trans hsmall) hsmall, limit_capitals_iff hw hcase hne ha hl]
      simp only [hi, hl, hd, hsmall, reduceCtorEq, false_and, and_false, false_or, or_false, true_and]

/-- **When the case of a name does not matter.** The kind of a call does not depend on the case of its
name, and something is asked about in each case. What is asked, or why nothing is, is the same as
for the name in small letters if and only if the name is in small letters, or the call is refused
anyway, or what is found instead is the same. -/
theorem asked_spelling_iff (config : Config) (hw : IsCallName w) (hne : args ≠ [])
    (ha : ∀ a ∈ args, CallArgument a) :
    ProblemKind.classify (callText w args) =
        ProblemKind.classify (callText (w.map Char.toLower) args) ∧
      asked config (callText (w.map Char.toLower) args) ≠ none ∧
      (asked config (callText w args) = asked config (callText (w.map Char.toLower) args) ↔
        w = w.map Char.toLower ∨ CaseIgnored args (w.map Char.toLower)) := by
  refine ⟨ProblemKind.classify_callText hw ha, asked_ne_none hw ha, ?_⟩
  by_cases hcase : w = w.map Char.toLower
  · exact iff_of_true (congrArg (fun w => asked config (callText w args)) hcase) (.inl hcase)
  · rw [or_iff_right hcase, asked_capitals_iff hw hcase hne ha]

/-- A limit that passes for a derivative: its name may be written in capitals. -/
theorem asked_spelling_inner :
    (IsCallName "LIM".toList ∧ ["diff(x^2)".toList, ['x']] ≠ [] ∧
      ∀ a ∈ ["diff(x^2)".toList, ['x']], CallArgument a) ∧
    asked .default "LIM(diff(x^2),x)".toList = asked .default "lim(diff(x^2),x)".toList := by
  have hw : IsCallName "LIM".toList := by decide
  have ha : ∀ a ∈ ["diff(x^2)".toList, ['x']], CallArgument a :=
    List.forall_mem_cons.mpr
      ⟨⟨forall_mem_of_all (by decide), by decide, by decide, by decide, by decide⟩,
        List.forall_mem_singleton.mpr
          ⟨forall_mem_of_all (by decide), by decide, by decide, by decide, by decide⟩⟩
  refine ⟨⟨hw, List.cons_ne_nil _ _, ha⟩, ?_⟩
  refine (asked_spelling_iff .default hw (List.cons_ne_nil _ _) ha).2.2.mpr (.inr ?_)
  exact .inner (by decide) (by decide +kernel) (by decide +kernel)

/-- An integral whose name is written in capitals is not read. -/
theorem asked_capitals :
    asked .default "INT(x,x)".toList = some (.error .invalidIntegration) ∧
      asked .default "int(x,x)".toList = some (.ok (.integrate ['x'] ['x'])) := by
  have kinds : ProblemKind.classify "INT(x,x)".toList = .integration ∧
      ProblemKind.classify "int(x,x)".toList = .integration := by decide +kernel
  have forms : canonical "INT(x,x)".toList = "INT(x,x)".toList ∧
      canonical "int(x,x)".toList = "integrate(x,x)".toList := by decide +kernel
  simp only [asked, kinds, forms]
  exact ⟨rfl, rfl⟩

end Question

end Stepwise
