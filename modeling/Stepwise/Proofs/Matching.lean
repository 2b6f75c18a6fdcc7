import Mathlib.Order.Bounds.Defs
import Stepwise.Proofs.OtherCalls

/-!
# Brackets that match

Three loops look for the bracket that closes another one: `closing` for its position, `isWrapped` for
whether it is the last character, and `callArguments` for what stands in front of it. The first of
them is taken to say what a matching bracket is (`LevelAt`): where, counted from the opening bracket,
as many brackets have been closed as opened for the first time. `closesAtEnd_iff` and
`enclosed_eq_closingFrom` lead the other two back to it.

The first call of a text is the one that begins leftmost, with the first of the names that fits there
(`FirstCallAt`); `firstCall?_eq` says that it is found.

Results: `exists_closing`, a closing bracket is the first one that brings the text back to its level;
and `matchers_agree`, the three loops come to the same bracket.
-/

namespace Stepwise.Bracket

open Text Phrase

variable {P Q : Nat → Prop} {p : Option Nat} {names : List Text} {t : Text}
  {c opener closer : Char} {i j k n : Nat}

/-! ## First numbers -/

/-- The first number with a property, unless there is none. -/
def FirstOf (P : Nat → Prop) : Option Nat → Prop
  | some j => IsLeast {j | P j} j
  | none => ∀ j, ¬P j

/-- A search can begin later, where nothing is found before. -/
theorem FirstOf.shift (hk : ∀ j, P j → k ≤ j) (h : FirstOf (fun j => P (j + k)) p) :
    FirstOf P (p.map (· + k)) := by
  cases p with
  | none =>
    intro j hj
    obtain ⟨m, rfl⟩ := Nat.exists_eq_add_of_le' (hk j hj)
    exact h m hj
  | some m =>
    refine ⟨h.1, fun j hj => ?_⟩
    obtain ⟨m', rfl⟩ := Nat.exists_eq_add_of_le' (hk j hj)
    exact Nat.add_le_add_right (h.2 hj) k

theorem FirstOf.congr (h : FirstOf P p) (hPQ : ∀ j, P j ↔ Q j) : FirstOf Q p := by
  obtain rfl : P = Q := funext fun j => propext (hPQ j)
  exact h

/-! ## The closing bracket -/

/-- Up to the position `j`, as many brackets are closed as are opened and were open before. -/
def Returns (opener closer : Char) (n : Nat) (t : Text) (j : Nat) : Prop :=
  j < t.length ∧ (t.take (j + 1)).count closer = (t.take (j + 1)).count opener + n

/-- From the position `i` up to a later position `j`, as many brackets are closed as opened. -/
def LevelAt (opener closer : Char) (t : Text) (i j : Nat) : Prop :=
  i < j ∧ j < t.length ∧
    ((t.take (j + 1)).drop i).count opener = ((t.take (j + 1)).drop i).count closer

theorem returns_zero (hn : 0 < n) (hoc : opener ≠ closer) :
    Returns opener closer n (c :: t) 0 ↔ c = closer ∧ n = 1 := by
  have hlength : 0 < (c :: t).length := Nat.succ_pos _
  simp only [Returns, hlength, true_and, Nat.zero_add, List.take_succ_cons, List.take_zero,
    List.count_singleton, beq_iff_eq]
  by_cases hc : c = closer
  · subst hc
    simp [Ne.symm hoc]
    omega
  · simp [hc]
    omega

theorem returns_succ_opener (hoc : opener ≠ closer) :
    Returns opener closer n (opener :: t) (j + 1) ↔ Returns opener closer (n + 1) t j := by
  simp only [Returns, List.length_cons, List.take_succ_cons, List.count_cons_self,
    List.count_cons_of_ne hoc]
  omega

theorem returns_succ_closer (hoc : opener ≠ closer) :
    Returns opener closer (n + 1) (closer :: t) (j + 1) ↔ Returns opener closer n t j := by
  simp only [Returns, List.length_cons, List.take_succ_cons, List.count_cons_self,
    List.count_cons_of_ne hoc.symm]
  omega

theorem returns_succ_other (ho : c ≠ opener) (hc : c ≠ closer) :
    Returns opener closer n (c :: t) (j + 1) ↔ Returns opener closer n t j := by
  simp only [Returns, List.length_cons, List.take_succ_cons, List.count_cons_of_ne ho,
    List.count_cons_of_ne hc]
  omega

/-- **The loop stops where the brackets that were open are closed for the first time.** -/
theorem firstOf_closingFrom (hoc : opener ≠ closer) (t : Text) {n : Nat} (hn : 0 < n) :
    FirstOf (Returns opener closer n t) (closingFrom opener closer n t) := by
  induction t generalizing n with
  | nil => exact fun j hj => absurd hj.1 (Nat.not_lt_zero j)
  | cons c cs ih =>
    have later : ¬(c = closer ∧ n = 1) → ∀ j, Returns opener closer n (c :: cs) j → 1 ≤ j := by
      intro hc j hj
      cases j with
      | zero => exact absurd ((returns_zero hn hoc).mp hj) hc
      | succ j => exact Nat.succ_pos j
    unfold closingFrom
    split
    next ho =>
      subst ho
      exact ((ih (Nat.succ_pos n)).congr fun j => (returns_succ_opener hoc).symm).shift
        (later fun h => hoc h.1)
    next ho =>
      split
      next hc =>
        subst hc
        split
        next hle =>
          refine ⟨(returns_zero hn hoc).mpr ⟨rfl, by omega⟩, fun j _ => Nat.zero_le j⟩
        next hlt =>
          obtain ⟨m, rfl⟩ : ∃ m, n = m + 1 := ⟨n - 1, by omega⟩
          rw [Nat.add_sub_cancel]
          exact ((ih (by omega)).congr fun j => (returns_succ_closer hoc).symm).shift
            (later fun h => hlt (by omega))
      next hc =>
        exact ((ih hn).congr fun j => (returns_succ_other ho hc).symm).shift
          (later fun h => hc h.1)

theorem drop_of_getElem? (h : t[i]? = some c) : t.drop i = c :: t.drop (i + 1) := by
  obtain ⟨hi, rfl⟩ := List.getElem?_eq_some_iff.mp h
  exact List.drop_eq_getElem_cons hi

theorem ne_of_closer? (h : closer? opener = some closer) : opener ≠ closer := by
  rcases closer?_cases h with ⟨rfl, rfl⟩ | ⟨rfl, rfl⟩ | ⟨rfl, rfl⟩ <;> decide

/-- The bracket that closes another one is looked for behind it. -/
theorem closing_eq (hd : closer? opener = some closer) (h : t[i]? = some opener) :
    closing t i =
      .ok ((closingFrom opener closer 1 (t.drop (i + 1))).map (· + (i + 1))) := by
  have hsum : (i + ·) ∘ (· + 1) = (· + (i + 1)) := funext fun j => by
    rw [Function.comp_apply]
    omega
  simp only [closing, h, hd, drop_of_getElem? h, closingFrom, if_true, Option.map_map, hsum,
    Nat.zero_add]

/-- **The bracket that closes another one is the first behind it that brings the text back to its
level**, and if there is none, none is found. -/
theorem exists_closing (hd : closer? opener = some closer) (h : t[i]? = some opener) :
    ∃ p, closing t i = .ok p ∧ FirstOf (LevelAt opener closer t i) p := by
  have hoc := ne_of_closer? hd
  refine ⟨_, closing_eq hd h, ?_⟩
  refine FirstOf.shift (fun j hj => hj.1) ?_
  refine (firstOf_closingFrom hoc (t.drop (i + 1)) Nat.one_pos).congr fun j => ?_
  have htake : (t.take (j + (i + 1) + 1)).drop i = opener :: (t.drop (i + 1)).take (j + 1) := by
    rw [List.drop_take, drop_of_getElem? h,
      show j + (i + 1) + 1 - i = (j + 1) + 1 by omega, List.take_succ_cons]
  rw [Returns, LevelAt, htake, List.count_cons_self, List.count_cons_of_ne hoc, List.length_drop]
  omega

/-! ## The other two loops -/

/-- The brackets close at the end of a text if the position where they do is its last one. -/
theorem closesAtEnd_iff (n : Nat) (t : Text) :
    closesAtEnd n t = true ↔ (closingFrom '(' ')' n t).map (· + 1) = some t.length := by
  have succ : ∀ (p : Option Nat) (m : Nat), (p.map (· + 1)).map (· + 1) = some (m + 1) ↔
      p.map (· + 1) = some m := by
    intro p m
    cases p <;> simp
  induction t generalizing n with
  | nil => simp [closesAtEnd, closingFrom]
  | cons c cs ih =>
    unfold closesAtEnd closingFrom
    rw [List.length_cons]
    split
    · exact (ih _).trans (succ _ _).symm
    · split
      · split
        · cases cs <;> simp
        · exact (ih _).trans (succ _ _).symm
      · exact (ih _).trans (succ _ _).symm

/-- What is enclosed is what stands in front of the closing bracket. -/
theorem enclosed_eq_closingFrom (n : Nat) (t : Text) :
    enclosed n t = (closingFrom '(' ')' (n + 1) t).map fun j => t.take j := by
  have succ : ∀ (p : Option Nat) (c : Char) (cs : Text),
      (p.map fun j => cs.take j).map (c :: ·) = (p.map (· + 1)).map fun j => (c :: cs).take j := by
    intro p c cs
    cases p <;> rfl
  induction t generalizing n with
  | nil => rfl
  | cons c cs ih =>
    unfold enclosed closingFrom
    split
    · rw [ih, succ]
    · split
      · cases n with
        | zero => rfl
        | succ n =>
          rw [if_neg (by omega)]
          dsimp only
          rw [ih, succ, Nat.add_sub_cancel]
      · rw [ih, succ]

theorem isWrapped_iff : isWrapped t = true ↔
    t.head? = some '(' ∧ closing t 0 = .ok (some (t.length - 1)) := by
  rw [isWrapped, Bool.and_eq_true, beq_iff_eq]
  refine and_congr_right fun h => ?_
  obtain ⟨cs, rfl⟩ := List.head?_eq_some_iff.mp h
  have hclosing : closing ('(' :: cs) 0 = .ok ((closingFrom '(' ')' 1 cs).map (· + 1)) :=
    closing_eq rfl rfl
  rw [hclosing, closesAtEnd, if_pos rfl, closesAtEnd_iff]
  simp

/-! ## The first call -/

/-- A call begins at this position, and no letter stands right before it. -/
def CallAt (names : List Text) (t : Text) (k : Nat) : Prop :=
  EndsApart (t.take k) ∧ ∃ name ∈ names, name ++ ['('] <+: t.drop k

/-- The bracket of the first call of a text is at position `i`: behind the first name that fits at the
first position where a call begins. -/
def FirstCallAt (names : List Text) (t : Text) (i : Nat) : Prop :=
  ∃ k, IsLeast {k | CallAt names t k} k ∧
    ∃ name, names.find? (fun n => (n ++ ['(']).isPrefixOf (t.drop k)) = some name ∧
      k + name.length = i

/-- The first name that fits is called. -/
theorem callHead?_eq (names : List Text) (t : Text) : callHead? names t =
    (names.find? fun n => (n ++ ['(']).isPrefixOf t).map fun n => t.drop (n.length + 1) := by
  unfold callHead?
  induction names with
  | nil => rfl
  | cons n ns ih =>
    rw [List.findSome?_cons, List.find?_cons]
    cases (n ++ ['(']).isPrefixOf t with
    | true => rfl
    | false => exact ih

theorem callHead?_ne_none_iff :
    callHead? names t ≠ none ↔ ∃ name ∈ names, name ++ ['('] <+: t := by
  rw [callHead?_eq, ne_eq, Option.map_eq_none_iff, List.find?_eq_none]
  simp

theorem callAt_zero : CallAt names t 0 ↔ callHead? names t ≠ none := by
  rw [callHead?_ne_none_iff, CallAt, List.take_zero, List.drop_zero]
  exact and_iff_right endsApart_nil

theorem callAt_succ :
    CallAt names (c :: t) (k + 1) ↔ CallAt names t k ∧ (k = 0 → c.isAlpha = false) := by
  rw [CallAt, List.take_succ_cons, List.drop_succ_cons, endsApart_cons, CallAt]
  constructor
  · rintro ⟨⟨ha, hc⟩, hcall⟩
    exact ⟨⟨ha, hcall⟩, fun hk => hc (by rw [hk, List.take_zero])⟩
  · rintro ⟨⟨ha, name, hname, hp⟩, hc⟩
    refine ⟨⟨ha, fun hnil => hc ?_⟩, name, hname, hp⟩
    -- A call is never behind the end of the text.
    rcases List.take_eq_nil_iff.mp hnil with hk | rfl
    · exact hk
    · rw [List.drop_nil] at hp
      exact absurd (List.prefix_nil.mp hp) (by simp)

/-- **The call that begins first is found.** -/
theorem firstCall?_eq :
    ∀ {t : Text} {after : Bool} {k : Nat},
      IsLeast {k | CallAt names t k ∧ (k = 0 → after = false)} k →
        firstCall? names after t = callHead? names (t.drop k)
  | [], _, k, h => by
    obtain ⟨⟨-, hcall⟩, -⟩ := h.1
    have hne := callHead?_ne_none_iff.mpr hcall
    rw [List.drop_nil] at hne
    obtain ⟨name, -, hp⟩ := callHead?_ne_none_iff.mp hne
    exact absurd (List.prefix_nil.mp hp) (by simp)
  | c :: cs, after, 0, h => by
    obtain ⟨hcall, hafter⟩ := h.1
    obtain ⟨r, hr⟩ := Option.ne_none_iff_exists'.mp (callAt_zero.mp hcall)
    rw [firstCall?, hafter rfl, List.drop_zero, hr]
    rfl
  | c :: cs, after, k + 1, h => by
    have hhere : (if after then none else callHead? names (c :: cs)) = none := by
      cases after with
      | true => rfl
      | false =>
        by_contra hne
        exact absurd (h.2 ⟨callAt_zero.mpr hne, fun _ => rfl⟩) (by simp)
    have hleast : IsLeast {k | CallAt names cs k ∧ (k = 0 → c.isAlpha = false)} k :=
      ⟨callAt_succ.mp h.1.1, fun m hm =>
        Nat.succ_le_succ_iff.mp (h.2 ⟨callAt_succ.mpr hm, fun h => absurd h m.succ_ne_zero⟩)⟩
    rw [firstCall?, List.drop_succ_cons, ← firstCall?_eq hleast]
    simp only [hhere]

/-- What follows the bracket of the first call is where its arguments are looked for. -/
theorem FirstCallAt.firstCall?_eq (h : FirstCallAt names t i) :
    t[i]? = some '(' ∧ firstCall? names false t = some (t.drop (i + 1)) := by
  obtain ⟨k, hk, name, hname, rfl⟩ := h
  constructor
  · have hp : (name ++ ['(']).isPrefixOf (t.drop k) = true :=
      List.find?_some (p := fun n => (n ++ ['(']).isPrefixOf (t.drop k)) hname
    obtain ⟨r, hr⟩ := List.isPrefixOf_iff_prefix.mp hp
    rw [← List.getElem?_drop, ← hr]
    simp
  · have hleast : IsLeast {k | CallAt names t k ∧ (k = 0 → false = false)} k :=
      ⟨⟨hk.1, fun _ => rfl⟩, fun m hm => hk.2 hm.1⟩
    rw [Bracket.firstCall?_eq hleast, callHead?_eq, hname, Option.map_some, List.drop_drop]
    rfl

/-- **The three loops come to the same bracket.** The position that `closing` finds is the first at
which the text is back at its level, if there is one. A text is wrapped if it begins with a bracket
for which this is its last position. And where the first call has its bracket, what is cut at its
commas is the text up to the bracket that closes it; without such a bracket there are no arguments. -/
theorem matchers_agree (t : Text) :
    (∀ i, t[i]? = some '(' → ∃ p, closing t i = .ok p ∧ FirstOf (LevelAt '(' ')' t i) p) ∧
      (isWrapped t = true ↔ t.head? = some '(' ∧ closing t 0 = .ok (some (t.length - 1))) ∧
        ∀ names i, FirstCallAt names t i → ∃ p, closing t i = .ok p ∧
          callArguments names t = p.map fun j => splitArguments ((t.take j).drop (i + 1)) := by
  refine ⟨fun i h => exists_closing rfl h, isWrapped_iff, fun names i h => ?_⟩
  obtain ⟨hi, hfirst⟩ := h.firstCall?_eq
  refine ⟨_, closing_eq rfl hi, ?_⟩
  have hslice : ∀ j, (t.take (j + (i + 1))).drop (i + 1) = (t.drop (i + 1)).take j := fun j => by
    rw [List.drop_take, Nat.add_sub_cancel]
  rw [callArguments, hfirst, Option.bind_eq_bind, Option.bind_some, enclosed_eq_closingFrom]
  cases closingFrom '(' ')' 1 (t.drop (i + 1)) with
  | none => rfl
  | some j => exact congrArg (fun x => some (splitArguments x)) (hslice j).symm

/-- A call in brackets, with an inner bracket in its first argument. -/
theorem matchers_agree_wrapped_call :
    FirstOf (LevelAt '(' ')' "(diff(f(x),x))".toList 0) (some 13) ∧
      isWrapped "(diff(f(x),x))".toList = true ∧
        FirstCallAt [derivativeName] "(diff(f(x),x))".toList 5 ∧
          callArguments [derivativeName] "(diff(f(x),x))".toList =
            some (splitArguments "f(x),x".toList) := by
  obtain ⟨level, wrapped, arguments⟩ := matchers_agree "(diff(f(x),x))".toList
  have hcall : FirstCallAt [derivativeName] "(diff(f(x),x))".toList 5 := by
    refine ⟨1, ⟨⟨?_, derivativeName, List.mem_cons_self, by decide⟩, ?_⟩, derivativeName, rfl, rfl⟩
    · rintro c hc
      obtain rfl : '(' = c := Option.some.inj hc
      decide
    · rintro k ⟨-, name, hname, hp⟩
      obtain rfl := List.mem_singleton.mp hname
      refine Nat.pos_of_ne_zero ?_
      rintro rfl
      exact absurd hp (by decide)
  obtain ⟨p, hp, hlevel⟩ := level 0 rfl
  obtain rfl : some 13 = p := Except.ok.inj hp
  obtain ⟨q, hq, harguments⟩ := arguments _ _ hcall
  obtain rfl : some 12 = q := Except.ok.inj hq
  exact ⟨hlevel, wrapped.mpr ⟨rfl, rfl⟩, hcall, harguments⟩

end Stepwise.Bracket
